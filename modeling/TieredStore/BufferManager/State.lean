import Mathlib

/-!
The frames of the DRAM and CXL buffer pools and what refers to them: free lists,
swips, the table of running reads, asynchronous writes, and the operations under way.

What an operation does under its latches is one step.  Where it lets go of them between
two decisions it is cut, and the guard of a page provider is kept as the version it read.
-/

namespace TieredStore.BufferManager

theorem update_view {α β γ : Type} [DecidableEq α] {f : α → β} {a : α} {b : β}
    (view : β → γ) (same : view b = view (f a)) (x : α) :
    view (Function.update f a b x) = view (f x) := by
  by_cases isUpdated : x = a
  · rw [isUpdated, Function.update_self, same]
  · rw [Function.update_of_ne isUpdated]

abbrev Pid := Nat
abbrev ThreadId := Nat
abbrev EntryId := Nat

inductive Tier
  | dram
  | cxl
  deriving DecidableEq, Repr

/-- A frame by its pool, which `isInDRAM` and `isInCXL` tell from the address. -/
structure FrameId where
  tier : Tier
  index : Nat
  deriving DecidableEq, Repr

inductive FrameState
  | free
  | hot
  | cool
  | loaded
  deriving DecidableEq, Repr

/-- `data` is the content of a page apart from the swips of its children. -/
structure Page (Data : Type) where
  plsn : Nat
  data : Data
  deriving DecidableEq, Repr

structure BufferFrame (Data : Type) where
  state : FrameState
  pid : Pid
  keepInMemory : Bool
  isBeingWrittenBack : Bool
  lastWrittenPlsn : Nat
  page : Page Data
  version : Nat
  deriving DecidableEq, Repr

namespace BufferFrame

variable {Data : Type}

def noPid : Pid := 9999

def isDirty (frame : BufferFrame Data) : Bool := frame.page.plsn != frame.lastWrittenPlsn

/-- `reset`; the page's bytes stay. -/
def reset (frame : BufferFrame Data) : BufferFrame Data :=
  { frame with
    state := .free
    pid := noPid
    keepInMemory := false
    isBeingWrittenBack := false
    lastWrittenPlsn := 0 }

def unlock (frame : BufferFrame Data) : BufferFrame Data :=
  { frame with version := frame.version + 1 }

end BufferFrame

/-- The swip of a page.  An evicted one has the page's own pid. -/
inductive Swip
  | hot (bf : FrameId)
  | cool (bf : FrameId)
  | evicted
  deriving DecidableEq, Repr

inductive IoState
  | reading
  | ready
  | toDelete
  deriving DecidableEq, Repr

/-- `locked` is the mutex that the loader holds while it reads. -/
structure IOFrame where
  state : IoState
  locked : Bool
  bf : Option FrameId
  readersCounter : Int
  deriving DecidableEq, Repr

/-- An asynchronous write: the copy of the page in the write buffer.  `issue` is not
part of the program: it says which use of the pid the write belongs to. -/
structure Write (Data : Type) where
  pid : Pid
  page : Page Data
  finished : Bool
  issue : Nat
  deriving DecidableEq, Repr

structure FreeListId where
  tier : Tier
  partition : Nat
  deriving DecidableEq, Repr

structure BatchId where
  thread : ThreadId
  tier : Tier
  deriving DecidableEq, Repr

inductive LoadStage
  | reading
  | loaded
  | installing
  deriving DecidableEq, Repr

inductive Purpose
  | demote
  | write
  | evict
  deriving DecidableEq, Repr

/-- An operation between two of its steps, with its local variables.  `version` is that
of the guard on `bf`. -/
inductive Op
  | idle
  | loading (stage : LoadStage) (pid : Pid) (entry : EntryId) (bf : FrameId)
  | waiting (pid : Pid) (entry : EntryId)
  | leaving (pid : Pid) (entry : EntryId)
  | checked (purpose : Purpose) (bf : FrameId) (pid : Pid) (version : Nat)
  | demoting (bf : FrameId) (pid : Pid) (version : Nat) (target : FrameId)
  | afterWrite (bf : FrameId)
  | allocating (bf : FrameId)
  | allocated (bf : FrameId) (pid : Pid)
  | unlinked (bf : FrameId) (pid : Pid)
  | reclaiming (bf : FrameId) (pid : Pid)
  deriving DecidableEq, Repr

structure Config (Data : Type) where
  shouldDirectlyPromoteToDRAM : Data → Bool
  blank : Data
  recyclePages : Bool
  dramPartitionsCount : Nat
  framesCount : Tier → Nat

/-- `swips` has the swip of each linked page, wherever its parent's page is.  The last
two fields are not part of the program: the result of each page's last modification,
and how often its pid was handed out. -/
structure State (Data : Type) where
  frames : FrameId → BufferFrame Data
  free : FreeListId → List FrameId
  batches : BatchId → List FrameId
  threads : ThreadId → Op
  swips : Pid → Option Swip
  children : Pid → List Pid
  ioTable : Pid → Option EntryId
  entries : EntryId → IOFrame
  nextEntry : EntryId
  ssd : Pid → Page Data
  writes : FrameId → Option (Write Data)
  freedPids : Nat → List Pid
  nextPid : Nat → Pid
  latest : Pid → Data
  issued : Pid → Nat

namespace State

open Function (update)

variable {Data : Type} (state : State Data)

def setFrame (bf : FrameId) (frame : BufferFrame Data) : State Data :=
  { state with frames := update state.frames bf frame }

def setFree (list : FreeListId) (bfs : List FrameId) : State Data :=
  { state with free := update state.free list bfs }

def push (list : FreeListId) (bf : FrameId) : State Data :=
  state.setFree list (bf :: state.free list)

def setBatch (batch : BatchId) (bfs : List FrameId) : State Data :=
  { state with batches := update state.batches batch bfs }

def setOp (thread : ThreadId) (op : Op) : State Data :=
  { state with threads := update state.threads thread op }

def setSwip (pid : Pid) (swip : Option Swip) : State Data :=
  { state with swips := update state.swips pid swip }

def setChildren (pid : Pid) (pids : List Pid) : State Data :=
  { state with children := update state.children pid pids }

def setEntry (entry : EntryId) (ioFrame : IOFrame) : State Data :=
  { state with entries := update state.entries entry ioFrame }

def insertEntry (pid : Pid) (ioFrame : IOFrame) : State Data :=
  { state with
    ioTable := update state.ioTable pid (some state.nextEntry)
    entries := update state.entries state.nextEntry ioFrame
    nextEntry := state.nextEntry + 1 }

/-- `io_ht.remove(pid)`.  The memory of the entry stays as it is. -/
def removeEntry (pid : Pid) : State Data :=
  { state with ioTable := update state.ioTable pid none }

def setWrite (bf : FrameId) (write : Option (Write Data)) : State Data :=
  { state with writes := update state.writes bf write }

def setBlock (pid : Pid) (page : Page Data) : State Data :=
  { state with ssd := update state.ssd pid page }

def setFreedPids (partition : Nat) (pids : List Pid) : State Data :=
  { state with freedPids := update state.freedPids partition pids }

def setNextPid (partition : Nat) (pid : Pid) : State Data :=
  { state with nextPid := update state.nextPid partition pid }

def setLatest (pid : Pid) (data : Data) : State Data :=
  { state with latest := update state.latest pid data }

def countIssue (pid : Pid) : State Data :=
  { state with issued := update state.issued pid (state.issued pid + 1) }

/-- The guard on the parent's frame: the parent holds the page's swip, and it is reached
only while it is hot.  The code compares versions instead, which is the same as long as no
version comes back. -/
def Under (parent pid : Pid) : Prop :=
  pid ∈ state.children parent ∧ ∃ bf, state.swips parent = some (.hot bf)

instance decidableIsHot (pid : Pid) : Decidable (∃ bf, state.swips pid = some (.hot bf)) :=
  match isSwip : state.swips pid with
  | some (.hot bf) => .isTrue ⟨bf, rfl⟩
  | some (.cool _) => .isFalse (by simp)
  | some .evicted => .isFalse (by simp)
  | none => .isFalse (by simp)

instance (parent pid : Pid) : Decidable (state.Under parent pid) :=
  inferInstanceAs (Decidable (_ ∧ _))

end State

end TieredStore.BufferManager
