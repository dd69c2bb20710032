import TieredStore.FrameLatch.Guard

/-!
One buffer frame on its way through free lists and pages.  Pages come into the
frame by a load, a demotion, a promotion or an allocation, and leave it by an
eviction, a demotion, a promotion or a reclaim; in between any number of guards work
on its latch.  `optimistic_parent_pointer`, with which a page provider adds 2 to the version
of its own guard, is off.
-/

namespace TieredStore.FrameLatch

/-- Who has the frame.  `promoting` is the target of a promotion between the lock and
the unlock of its latch; `orphan` is a reclaimed frame whose write-back is under way. -/
inductive Custody
  | listed
  | taken (op : GuardId)
  | promoting (op : GuardId)
  | installed
  | orphan
  deriving DecidableEq, Repr

structure State where
  latch : HybridLatch
  state : FrameState
  pid : Pid
  isBeingWrittenBack : Bool
  custody : Custody
  tenure : Nat
  sections : Nat
  guards : GuardId → Guard

def noPid : Pid := 9999

namespace State

def seen (state : State) : Seen := ⟨state.pid, state.state, state.tenure, state.sections⟩

def setGuard (state : State) (id : GuardId) (guard : Guard) (latch : HybridLatch) : State :=
  { state with latch := latch, guards := Function.update state.guards id guard }

def reset (state : State) : State :=
  { state with state := .free, pid := noPid, isBeingWrittenBack := false }

def install (state : State) (pid : Pid) (frameState : FrameState) : State :=
  { state with state := frameState, pid := pid, tenure := state.tenure + 1 }

def Holds (s : State) (id : GuardId) (frameState : FrameState) : Prop :=
  (s.guards id).state = .exclusive ∧ (s.guards id).seen.map Seen.state = some frameState

instance (s : State) (id : GuardId) (frameState : FrameState) : Decidable (s.Holds id frameState) :=
  inferInstanceAs (Decidable (_ ∧ _))

def forget (state : State) (id : GuardId) : State :=
  { state with guards := Function.update state.guards id { state.guards id with seen := none } }

def toOptimistic (state : State) (id : GuardId) : Option State :=
  ((state.guards id).toOptimistic state.latch state.seen).map fun guard =>
    state.setGuard id guard state.latch

def lockShared (state : State) (id : GuardId) : Option State :=
  ((state.guards id).lockShared state.latch id state.seen).map fun (guard, latch) =>
    state.setGuard id guard latch

def lockExclusive (state : State) (id : GuardId) : Option State :=
  ((state.guards id).lockExclusive state.latch id state.seen).map fun (guard, latch) =>
    state.setGuard id guard latch

def toExclusive (state : State) (id : GuardId) : Option State :=
  ((state.guards id).toExclusive state.latch id).map fun (guard, latch) =>
    state.setGuard id guard latch

def toShared (state : State) (id : GuardId) : Option State :=
  ((state.guards id).toShared state.latch id).map fun (guard, latch) =>
    state.setGuard id guard latch

def unlockExclusive (state : State) (id : GuardId) : Option State :=
  let state := { state with sections := state.sections + 1 }
  ((state.guards id).unlockExclusive state.latch state.seen).map fun (guard, latch) =>
    state.setGuard id guard latch

def unlockShared (state : State) (id : GuardId) : Option State :=
  ((state.guards id).unlockShared state.latch id).map fun (guard, latch) =>
    state.setGuard id guard latch

def drop (state : State) (id : GuardId) : Option State :=
  if (state.guards id).state = .optimistic ∨ (state.guards id).state = .moved then
    some (state.setGuard id Guard.new state.latch)
  else
    none

/-- The first phase of the page providers. -/
def cool (state : State) (id : GuardId) : Option State :=
  if state.Holds id .hot then some ({ state with state := .cool }.forget id) else none

/-- `resolveSwip` on a cool swip. -/
def warm (state : State) (id : GuardId) : Option State :=
  if state.Holds id .cool then some ({ state with state := .hot }.forget id) else none

/-- `resolveSwip` on a frame that the I/O table has ready. -/
def warmReady (state : State) (id : GuardId) : Option State :=
  if (state.guards id).state = .exclusive ∧ state.state = .loaded ∧
      state.custody = .installed then
    some ({ state with state := .hot }.forget id)
  else
    none

def writeBack (state : State) (id : GuardId) : Option State :=
  if state.Holds id .cool then some { state with isBeingWrittenBack := true } else none

/-- The write has finished; the flag is also cleared where the latch was lost. -/
def written (state : State) : Option State := some { state with isBeingWrittenBack := false }

/-- `evict_cxl_bf`, and the old frame of `demote_bf_to_cxl`: the frame goes to a batch
of freed frames. -/
def takeOut (state : State) (id : GuardId) : Option State :=
  if state.Holds id .cool ∧ state.isBeingWrittenBack = false then
    some ({ state.reset with custody := .taken id }.forget id)
  else
    none

/-- The old frame of `promoteFullPage`: back in its free list before the latch is
released. -/
def promoteAway (state : State) (id : GuardId) : Option State :=
  if (state.guards id).state = .exclusive ∧ state.state = .hot ∧
      state.custody = .installed ∧ state.isBeingWrittenBack = false then
    some ({ state.reset with custody := .listed }.forget id)
  else
    none

/-- `reclaimPage` releases the latch by hand. -/
def reclaimPage (state : State) (id : GuardId) : Option State :=
  if state.Holds id .hot then
    let latch := { state.latch with version := state.latch.version + 1, holder := none }
    let guard : Guard := { state.guards id with state := .moved }
    let state := { state with sections := state.sections + 1 }.setGuard id guard latch
    if state.isBeingWrittenBack then
      some { state with custody := .orphan }
    else
      some { state.reset with custody := .taken id }
  else
    none

def pop (state : State) (op : GuardId) : Option State :=
  if state.custody = .listed then some { state with custody := .taken op } else none

def push (state : State) (op : GuardId) : Option State :=
  if state.custody = .taken op ∧ state.state = .free then
    some { state with custody := .listed }
  else
    none

/-- The first statement of `allocateSplitPage` on the frame, before it locks it. -/
def storeZero (state : State) (op : GuardId) : Option State :=
  if state.custody = .taken op ∧ state.state = .free then
    some { state with latch := { state.latch with version := 0 } }
  else
    none

/-- `initNewPage`, and the guard on the frame that the caller makes of it. -/
def initNewPage (state : State) (op : GuardId) (pid : Pid) : Option State :=
  if state.custody = .taken op ∧ state.state = .free ∧
      (state.guards op).state = .uninitialized then
    (state.latch.lock op).map fun latch =>
      let state := { state.install pid .hot with custody := .installed }
      state.setGuard op ⟨.exclusive, latch.version + 1, some state.seen⟩
        { latch with version := latch.version + 1 }
  else
    none

/-- `resolveSwip` has read the page from the SSD; the latch is not taken. -/
def readPage (state : State) (op : GuardId) (pid : Pid) : Option State :=
  if state.custody = .taken op ∧ state.state = .free then
    some (state.install pid .loaded)
  else
    none

/-- An inner page goes to a DRAM frame instead. -/
def giveUpLoaded (state : State) (op : GuardId) : Option State :=
  if state.custody = .taken op ∧ state.state = .loaded then some state.reset else none

/-- The loaded page is swizzled in. -/
def swizzle (state : State) (op : GuardId) : Option State :=
  if state.custody = .taken op ∧ state.state = .loaded then
    some { state with state := .hot, custody := .installed }
  else
    none

/-- The loader lost its parent: the I/O table keeps the frame. -/
def publishReady (state : State) (op : GuardId) : Option State :=
  if state.custody = .taken op ∧ state.state = .loaded then
    some { state with custody := .installed }
  else
    none

/-- The new frame of `demote_bf_to_cxl`; the latch is not taken. -/
def demoteInto (state : State) (op : GuardId) (pid : Pid) : Option State :=
  if state.custody = .taken op ∧ state.state = .free then
    some { state.install pid .hot with custody := .installed }
  else
    none

/-- The new frame of `promoteFullPage`: locked by hand, -/
def promoteLock (state : State) (op : GuardId) : Option State :=
  if state.custody = .taken op ∧ state.state = .free then
    (state.latch.lock op).map fun latch =>
      { state with
        latch := { latch with version := latch.version + 1 }
        custody := .promoting op }
  else
    none

/-- filled, -/
def promoteInto (state : State) (op : GuardId) (pid : Pid) : Option State :=
  if state.custody = .promoting op ∧ state.state = .free then
    some (state.install pid .hot)
  else
    none

/-- and unlocked by counting the version down again. -/
def promoteUnlock (state : State) (op : GuardId) : Option State :=
  if state.custody = .promoting op ∧ state.state = .hot then
    some { state with
      latch := { state.latch with version := state.latch.version - 1, holder := none }
      custody := .installed
      sections := state.sections + 1 }
  else
    none

end State

inductive Action
  | toOptimistic (id : GuardId)
  | lockShared (id : GuardId)
  | lockExclusive (id : GuardId)
  | toExclusive (id : GuardId)
  | toShared (id : GuardId)
  | unlockExclusive (id : GuardId)
  | unlockShared (id : GuardId)
  | drop (id : GuardId)
  | cool (id : GuardId)
  | warm (id : GuardId)
  | warmReady (id : GuardId)
  | writeBack (id : GuardId)
  | written
  | takeOut (id : GuardId)
  | promoteAway (id : GuardId)
  | reclaimPage (id : GuardId)
  | pop (op : GuardId)
  | push (op : GuardId)
  | storeZero (op : GuardId)
  | initNewPage (op : GuardId) (pid : Pid)
  | readPage (op : GuardId) (pid : Pid)
  | giveUpLoaded (op : GuardId)
  | swizzle (op : GuardId)
  | publishReady (op : GuardId)
  | demoteInto (op : GuardId) (pid : Pid)
  | promoteLock (op : GuardId)
  | promoteInto (op : GuardId) (pid : Pid)
  | promoteUnlock (op : GuardId)
  deriving DecidableEq, Repr

def step (state : State) : Action → Option State
  | .toOptimistic id => state.toOptimistic id
  | .lockShared id => state.lockShared id
  | .lockExclusive id => state.lockExclusive id
  | .toExclusive id => state.toExclusive id
  | .toShared id => state.toShared id
  | .unlockExclusive id => state.unlockExclusive id
  | .unlockShared id => state.unlockShared id
  | .drop id => state.drop id
  | .cool id => state.cool id
  | .warm id => state.warm id
  | .warmReady id => state.warmReady id
  | .writeBack id => state.writeBack id
  | .written => state.written
  | .takeOut id => state.takeOut id
  | .promoteAway id => state.promoteAway id
  | .reclaimPage id => state.reclaimPage id
  | .pop op => state.pop op
  | .push op => state.push op
  | .storeZero op => state.storeZero op
  | .initNewPage op pid => state.initNewPage op pid
  | .readPage op pid => state.readPage op pid
  | .giveUpLoaded op => state.giveUpLoaded op
  | .swizzle op => state.swizzle op
  | .publishReady op => state.publishReady op
  | .demoteInto op pid => state.demoteInto op pid
  | .promoteLock op => state.promoteLock op
  | .promoteInto op pid => state.promoteInto op pid
  | .promoteUnlock op => state.promoteUnlock op

def initial : State where
  latch := ⟨0, none, []⟩
  state := .free
  pid := noPid
  isBeingWrittenBack := false
  custody := .listed
  tenure := 0
  sections := 0
  guards := fun _ => Guard.new

end TieredStore.FrameLatch
