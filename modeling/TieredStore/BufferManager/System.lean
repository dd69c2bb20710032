import TieredStore.BufferManager.Pages
import TieredStore.BufferManager.Provider
import TieredStore.BufferManager.Resolve
import TieredStore.Lib.Ownership
import TieredStore.Lib.Transition

namespace TieredStore.BufferManager

open List

variable {Data : Type} {cfg : Config Data}

inductive Action (Data : Type)
  | resolve (action : ResolveAction)
  | provide (action : ProviderAction)
  | page (action : PageAction Data)
  deriving DecidableEq, Repr

/-- One step of the buffer manager.  `none` means that the action is not possible now,
or that the program stops on a failed assertion. -/
def step (config : Config Data) (state : State Data) : Action Data → Option (State Data)
  | .resolve action => action.step config state
  | .provide action => action.step state
  | .page action => action.step config state

inductive Step (cfg : Config Data) (s : State Data) :
    Action Data → State Data → Prop
  | resolve {a s'} (taken : ResolveStep cfg s a s') :
    Step cfg s (.resolve a) s'
  | provide {a s'} (taken : ProviderStep s a s') : Step cfg s (.provide a) s'
  | page {a s'} (taken : PageStep cfg s a s') : Step cfg s (.page a) s'

theorem step_sound {s s' : State Data} {a : Action Data}
    (taken : step cfg s a = some s') : Step cfg s a s' := by
  cases a with
  | resolve a => exact .resolve (a.step_sound taken)
  | provide a => exact .provide (a.step_sound taken)
  | page a => exact .page (a.step_sound taken)

def Config.HasFrame (cfg : Config Data) (bf : FrameId) : Prop :=
  bf.index < cfg.framesCount bf.tier

/-- The store before its first tree: every frame is in one free list of its own tier. -/
structure Initial (cfg : Config Data) (s : State Data) : Prop where
  allFree : ∀ bf, (s.frames bf).state = .free ∧ (s.frames bf).isBeingWrittenBack = false
  linear : Ownership.Linear s.free
  ownTier : ∀ list bf, bf ∈ s.free list → bf.tier = list.tier
  complete : ∀ bf, cfg.HasFrame bf ↔ ∃ list, bf ∈ s.free list
  noBatch : ∀ batch, s.batches batch = []
  allIdle : ∀ t, s.threads t = .idle
  noPage : ∀ pid, s.swips pid = none ∧ s.children pid = []
  noRead : ∀ pid, s.ioTable pid = none
  noWrite : ∀ bf, s.writes bf = none
  noneFreed : ∀ partition, s.freedPids partition = []
  firstPid : ∀ partition, s.nextPid partition = partition

def State.start (config : Config Data) (partitionsCount : Tier → Nat) : State Data where
  frames _ := ⟨.free, BufferFrame.noPid, false, false, 0, ⟨0, config.blank⟩, 0⟩
  free list := ((List.range (config.framesCount list.tier)).reverse.filter
    (· % partitionsCount list.tier = list.partition)).map (FrameId.mk list.tier)
  batches _ := []
  threads _ := .idle
  swips _ := none
  children _ := []
  ioTable _ := none
  entries _ := ⟨.reading, false, none, 0⟩
  nextEntry := 0
  ssd _ := ⟨0, config.blank⟩
  writes _ := none
  freedPids _ := []
  nextPid partition := partition
  latest _ := config.blank
  issued _ := 0

theorem State.mem_start_free {partitionsCount : Tier → Nat} {list : FreeListId} {bf : FrameId} :
    bf ∈ (State.start cfg partitionsCount).free list ↔
      cfg.HasFrame bf ∧ list = ⟨bf.tier, bf.index % partitionsCount bf.tier⟩ := by
  obtain ⟨tier, _⟩ := list
  obtain ⟨_, index⟩ := bf
  simp only [start, mem_map, mem_filter, mem_reverse,
    mem_range, decide_eq_true_eq, FrameId.mk.injEq, FreeListId.mk.injEq]
  constructor
  · intro ⟨i, ⟨inPool, inPartition⟩, sameTier, sameIndex⟩
    subst sameTier sameIndex
    exact ⟨inPool, rfl, inPartition.symm⟩
  · intro ⟨inPool, sameTier, inPartition⟩
    subst sameTier
    exact ⟨index, ⟨inPool, inPartition.symm⟩, rfl, rfl⟩

theorem State.start_initial (cfg : Config Data) (partitionsCount : Tier → Nat) :
    Initial cfg (State.start cfg partitionsCount) where
  allFree _ := ⟨rfl, rfl⟩
  linear := by
    refine ⟨fun list => ?_, fun list list' bf isIn isIn' => ?_⟩
    · refine Nodup.map (fun i j same => ?_) ((nodup_reverse.mpr nodup_range).filter _)
      exact congrArg FrameId.index same
    · exact (mem_start_free.mp isIn).2.trans (mem_start_free.mp isIn').2.symm
  ownTier list bf isIn := by rw [(mem_start_free.mp isIn).2]
  complete bf := by
    constructor
    · intro hasFrame
      exact ⟨_, mem_start_free.mpr ⟨hasFrame, rfl⟩⟩
    · intro ⟨list, isIn⟩
      exact (mem_start_free.mp isIn).1
  noBatch _ := rfl
  allIdle _ := rfl
  noPage _ := ⟨rfl, rfl⟩
  noRead _ := rfl
  noWrite _ := rfl
  noneFreed _ := rfl
  firstPid _ := rfl

structure Guard where
  purpose : Purpose
  bf : FrameId
  pid : Pid
  version : Nat

def Op.guard : Op → Option Guard
  | .checked purpose bf pid version => some ⟨purpose, bf, pid, version⟩
  | .demoting bf pid version _ => some ⟨.demote, bf, pid, version⟩
  | _ => none

/-- No demotion jumps once it has its CXL frame. -/
def KeepsTarget : Action Data → Prop
  | .provide (.abandon _) => False
  | _ => True

/-- `reclaimPage` does not meet a frame that is being written back. -/
def ReclaimsUnwritten (s : State Data) : Action Data → Prop
  | .page (.reclaimFrame t _) =>
    match s.threads t with
    | .reclaiming bf _ => (s.frames bf).isBeingWrittenBack = false
    | _ => True
  | _ => True

/-- Phase 3 evicts no page that has an entry in `io_ht`. -/
def EvictsUnread (s : State Data) : Action Data → Prop
  | .provide (.evictWritten t _) =>
    match s.threads t with
    | .afterWrite bf => s.ioTable (s.frames bf).pid = none
    | _ => True
  | _ => True

/-- `nextPID` hands out no pid whose frame is still to be reclaimed. -/
def IssuesReclaimed (cfg : Config Data) (s : State Data) : Action Data → Prop
  | .page (.initNewPage _ partition) =>
    ∀ t bf, s.threads t ≠ .reclaiming bf (s.nextPID cfg partition).1
  | _ => True

/-- `allocateSplitPage` clears only latches that are still at zero, so that no version comes
back and a guard that validates has seen the page. -/
def ClearsFresh (s : State Data) : Action Data → Prop
  | .page (.initNewPage t _) =>
    match s.threads t with
    | .allocating bf => bf.tier = .cxl → (s.frames bf).version = 0
    | _ => True
  | _ => True

/-- `allocateSplitPage` clears no version under a page provider's guard. -/
def ClearsUnguarded (s : State Data) : Action Data → Prop
  | .page (.initNewPage t _) =>
    match s.threads t with
    | .allocating bf => bf.tier = .cxl → (s.frames bf).version = 0 ∨
      ∀ other guard, (s.threads other).guard = some guard → guard.bf ≠ bf
    | _ => True
  | _ => True

theorem ClearsFresh.unguarded {s : State Data} {a : Action Data} (clears : ClearsFresh s a) :
    ClearsUnguarded s a := by
  unfold ClearsUnguarded
  split
  · unfold ClearsFresh at clears
    split
    · next isAllocating =>
      simp only [isAllocating] at clears
      exact fun inCxl => .inl (clears inCxl)
    · trivial
  · trivial

def KeepsPages : Action Data → Prop
  | .page (.unlink _ _ _) => False
  | .page (.discard _) => False
  | _ => True

def Action.isPlain (state : State Data) : Action Data → Bool
  | .provide (.abandon _) => false
  | .provide (.evictWritten _ _) => false
  | .page (.unlink _ _ _) => false
  | .page (.discard _) => false
  | .page (.reclaimFrame _ _) => false
  | .page (.initNewPage thread _) =>
    match state.threads thread with
    | .allocating bf => bf.tier = .dram
    | _ => true
  | _ => true

section Plain

variable {s : State Data} {a : Action Data} (isPlain : a.isPlain s = true)
include isPlain

theorem keepsTarget_of_isPlain : KeepsTarget a := by
  unfold KeepsTarget
  split
  · cases isPlain
  · trivial

theorem reclaimsUnwritten_of_isPlain : ReclaimsUnwritten s a := by
  unfold ReclaimsUnwritten
  split
  · cases isPlain
  · trivial

theorem evictsUnread_of_isPlain : EvictsUnread s a := by
  unfold EvictsUnread
  split
  · cases isPlain
  · trivial

theorem keepsPages_of_isPlain : KeepsPages a := by
  unfold KeepsPages
  split
  · cases isPlain
  · cases isPlain
  · trivial

theorem clearsFresh_of_isPlain : ClearsFresh s a := by
  unfold ClearsFresh
  split
  · split
    · next bf isAllocating =>
        intro inCxl
        simp [Action.isPlain, isAllocating, inCxl] at isPlain
    · trivial
  · trivial

end Plain

def smallConfig : Config Nat where
  shouldDirectlyPromoteToDRAM _ := false
  blank := 0
  recyclePages := true
  dramPartitionsCount := 1
  framesCount
    | .dram => 2
    | .cxl => 3

def smallStart : State Nat := State.start smallConfig fun _ => 1

theorem smallStart_reaches {allowed : State Nat → Action Nat → Prop}
    {isPlain : State Nat → Action Nat → Bool} {actions : List (Action Nat)} {s : State Nat}
    (meets : ∀ s a, isPlain s a = true → allowed s a)
    (plain : Transition.AllowedAlong (step smallConfig) (fun s a =>
      isPlain s a = true) smallStart actions)
    (ran : Transition.run (step smallConfig) smallStart actions = some s) :
    Transition.Reachable (step smallConfig) (Initial smallConfig) allowed s := by
  have start := State.start_initial smallConfig fun _ => 1
  exact ((Transition.Reachable.start start).run_of_allowed plain ran).mono meets

end TieredStore.BufferManager
