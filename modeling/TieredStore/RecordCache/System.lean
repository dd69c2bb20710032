import TieredStore.Lib.Transition
import TieredStore.RecordCache.Promote
import TieredStore.RecordCache.Rescue
import TieredStore.RecordCache.Sieve
import TieredStore.RecordCache.Worker

namespace TieredStore.RecordCache

open Transition State

/-- What the rest of the buffer manager does to the leaves: admission requests,
cooling and re-heating, splits, and the move of a page to another frame. -/
inductive PageAction
  | promoteRecordCacheEntry (frame slot : Nat)
  | cool (frame : Nat)
  | heat (frame : Nat)
  | split (frame fresh newPid separator : Nat) (isCXL : Bool)
  | migrate (frame fresh : Nat)
  deriving DecidableEq, Repr

def kLargeRecordPromoteFullThreshold : Nat := 16 * 1024 / 8

/-- The request `promoteRecordCacheEntry` sends after its validated read. -/
def admissionRequest (config : Config) (frame slotId : Nat) (pid : Nat)
    (slot : LeafSlot) : PromoteRequestMessage where
  key := config.buildPrefixedKey slot.key
  bf := frame
  pid := pid
  slotId := slotId
  keyLength := (config.buildPrefixedKey slot.key).length
  valueLength := slot.tuple.payloadLength
  isDirectUpdate := false

def Leaves.setState (leaves : Leaves) (frame : Nat) (state : FrameState) : Leaves :=
  leaves.setFrame frame
    { leaves.frames frame with
      version := (leaves.frames frame).version + 2
      state := state }

/-- The lower slots, up to and including the separator's, move to a fresh left
neighbour, and the keys up to the separator are routed there.  `allocateSplitPage` stores 0
in the latch of a CXL frame. -/
def Leaves.split (leaves : Leaves) (frame fresh newPid separator : Nat) (isCXL : Bool)
    (separatorKey : Bytes) : Leaves :=
  let old := leaves.frames frame
  let left : BufferFrame :=
    { version := (if isCXL then 0 else (leaves.frames fresh).version) + 2
      pid := newPid
      state := .hot
      slots := old.slots.take (separator + 1) }
  let right := { old with
    version := old.version + 2
    slots := old.slots.drop (separator + 1) }
  { frames := Function.update (Function.update leaves.frames frame right) fresh left
    route := fun key =>
      if leaves.route key = frame ∧ key ≤ separatorKey then fresh
      else leaves.route key }

/-- A separator that the lower slots do not exceed and the upper ones do. -/
def separates (slots : List LeafSlot) (separator : Nat) (separatorKey : Bytes) :
    Bool :=
  (slots.take (separator + 1)).all (fun slot => decide (slot.key ≤ separatorKey)) &&
    (slots.drop (separator + 1)).all
      (fun slot => decide (¬ slot.key ≤ separatorKey))

/-- Copy the page into a fresh frame, redirect the tree to it and reset the
old frame. -/
def Leaves.migrate (leaves : Leaves) (frame fresh : Nat) : Leaves :=
  let old := leaves.frames frame
  let copy := { old with version := (leaves.frames fresh).version + 2 }
  let reset := { old with version := old.version + 2, pid := 9999, state := .free }
  { frames := Function.update (Function.update leaves.frames frame reset) fresh copy
    route := fun key =>
      if leaves.route key = frame then fresh else leaves.route key }

def pageStep (config : Config) (state : State) : PageAction → Option State
  | .promoteRecordCacheEntry frame slotId =>
    let bf := state.leaves.frames frame
    match bf.slots[slotId]? with
    | some slot =>
      if bf.state = .hot ∧ bf.isExclusivelyLatched = false ∧
          slot.key ≠ [] ∧
          slot.tuple.payloadLength < kLargeRecordPromoteFullThreshold then
        some { state with
          requests := state.requests ++ [admissionRequest config frame slotId bf.pid slot] }
      else
        none
    | none => none
  | .cool frame =>
    let bf := state.leaves.frames frame
    if bf.state = .hot ∧ bf.isExclusivelyLatched = false then
      some { state with leaves := state.leaves.setState frame .cool }
    else
      none
  | .heat frame =>
    let bf := state.leaves.frames frame
    if bf.state = .cool ∧ bf.isExclusivelyLatched = false then
      some { state with leaves := state.leaves.setState frame .hot }
    else
      none
  | .split frame fresh newPid separator isCXL =>
    let bf := state.leaves.frames frame
    let new := state.leaves.frames fresh
    match bf.slots[separator]? with
    | some slot =>
      if bf.state = .hot ∧ bf.isExclusivelyLatched = false ∧
          new.state = .free ∧ new.isExclusivelyLatched = false ∧
          separates bf.slots separator slot.key then
        some { state with
          leaves := state.leaves.split frame fresh newPid separator isCXL slot.key }
      else
        none
    | none => none
  | .migrate frame fresh =>
    let bf := state.leaves.frames frame
    let new := state.leaves.frames fresh
    if bf.state = .hot ∧ bf.isExclusivelyLatched = false ∧
        new.state = .free ∧ new.isExclusivelyLatched = false then
      some { state with leaves := state.leaves.migrate frame fresh }
    else
      none

inductive PageStep (cfg : Config) (s : State) : PageAction → State → Prop
  | promoteRecordCacheEntry {frame slotId slot}
    (found : (s.leaves.frames frame).slots[slotId]? = some slot)
    (hot : (s.leaves.frames frame).state = .hot)
    (unlatched : (s.leaves.frames frame).isExclusivelyLatched = false)
    (small : slot.tuple.payloadLength < kLargeRecordPromoteFullThreshold) :
    PageStep cfg s (.promoteRecordCacheEntry frame slotId)
      { s with
        requests := s.requests ++ [admissionRequest cfg frame slotId
          (s.leaves.frames frame).pid slot] }
  | cool {frame} (hot : (s.leaves.frames frame).state = .hot)
    (unlatched : (s.leaves.frames frame).isExclusivelyLatched = false) :
    PageStep cfg s (.cool frame)
      { s with leaves := s.leaves.setState frame .cool }
  | heat {frame} (cool : (s.leaves.frames frame).state = .cool)
    (unlatched : (s.leaves.frames frame).isExclusivelyLatched = false) :
    PageStep cfg s (.heat frame)
      { s with leaves := s.leaves.setState frame .hot }
  | split {frame fresh newPid separator isCXL slot}
    (found : (s.leaves.frames frame).slots[separator]? = some slot)
    (hot : (s.leaves.frames frame).state = .hot)
    (unlatched : (s.leaves.frames frame).isExclusivelyLatched = false)
    (free : (s.leaves.frames fresh).state = .free)
    (unlatched' : (s.leaves.frames fresh).isExclusivelyLatched = false)
    (separated : separates (s.leaves.frames frame).slots separator slot.key = true) :
    PageStep cfg s (.split frame fresh newPid separator isCXL)
      { s with
        leaves := s.leaves.split frame fresh newPid separator isCXL slot.key }
  | migrate {frame fresh} (hot : (s.leaves.frames frame).state = .hot)
    (unlatched : (s.leaves.frames frame).isExclusivelyLatched = false)
    (free : (s.leaves.frames fresh).state = .free)
    (unlatched' : (s.leaves.frames fresh).isExclusivelyLatched = false) :
    PageStep cfg s (.migrate frame fresh)
      { s with leaves := s.leaves.migrate frame fresh }

variable {cfg : Config} {s s' : State}

theorem pageStep_cases {a : PageAction} (taken : pageStep cfg s a = some s') :
    PageStep cfg s a s' := by
  cases a <;> simp only [pageStep] at taken <;>
    (repeat' split at taken) <;>
    simp only [Option.some.injEq, reduceCtorEq] at taken <;> subst taken
  all_goals
    constructor <;> first | assumption | simp_all

inductive Action
  | worker (worker : Nat) (action : WorkerAction)
  | promote (thread : Nat) (action : PromoteAction)
  | forward (thread : Nat) (action : ForwardAction)
  | sieve (thread : Nat) (action : SieveAction)
  | rescue (action : RescueAction)
  | page (action : PageAction)

/-- A latch that `allocateSplitPage` resets has not counted yet. -/
def ResetsFresh (state : State) : Action → Prop
  | .page (.split _ fresh _ _ true) => (state.leaves.frames fresh).version = 0
  | _ => True

def Action.allocated? : Action → Option Addr
  | .promote _ action => action.allocated?
  | _ => none

def step (config : Config) (state : State) : Action → Option State
  | .worker worker action =>
    if worker < config.totalWorkersNumber then
      workerStep config state worker action
    else
      none
  | .promote thread action => promoteStep config state thread action
  | .forward thread action => forwardStep config state thread action
  | .sieve thread action => sieveStep config state thread action
  | .rescue action => rescueStep config state action
  | .page action => pageStep config state action

inductive Step (cfg : Config) (s s' : State) : Action → Prop
  | worker {w a} (stepped : WorkerStep cfg s w a s') :
    Step cfg s s' (.worker w a)
  | promote {t a} (stepped : PromoteStep cfg s t a s') :
    Step cfg s s' (.promote t a)
  | forward {t a} (stepped : ForwardStep cfg s t a s') :
    Step cfg s s' (.forward t a)
  | sieve {t a} (stepped : SieveStep cfg s t a s') :
    Step cfg s s' (.sieve t a)
  | rescue {a} (stepped : RescueStep cfg s a s') :
    Step cfg s s' (.rescue a)
  | page {a} (stepped : PageStep cfg s a s') :
    Step cfg s s' (.page a)

variable {a : Action}

section

variable (taken : step cfg s a = some s')
include taken

theorem step_cases : Step cfg s s' a := by
  cases a with
  | worker w =>
    obtain ⟨-, taken⟩ := Option.ite_none_right_eq_some.mp taken
    exact .worker (workerStep_cases taken)
  | promote => exact .promote (promoteStep_cases taken)
  | forward => exact .forward (forwardStep_cases taken)
  | sieve => exact .sieve (sieveStep_cases taken)
  | rescue => exact .rescue (rescueStep_cases taken)
  | page => exact .page (pageStep_cases taken)

theorem promoters_of_step (t : Nat) : (∃ own, a = .promote t own) ∨ s'.promoters t = s.promoters t ∨
      ∃ req, (s.promoters t = .allocating req ∧ s'.promoters t = .rescuing req) ∨
        (s.promoters t = .rescuing req ∧ s'.promoters t = .allocating req) := by
  cases a with
  | worker =>
    simp only [step] at taken
    split at taken
    · cases workerStep_cases taken <;> exact .inr (.inl rfl)
    · simp at taken
  | promote t' a =>
    by_cases same : t = t'
    · exact .inl ⟨a, by rw [same]⟩
    · right
      left
      cases promoteStep_cases taken <;>
        simp [same]
  | forward => cases forwardStep_cases taken <;> exact .inr (.inl rfl)
  | sieve => cases sieveStep_cases taken <;> exact .inr (.inl rfl)
  | rescue =>
    cases rescueStep_cases taken with
    | @begin promoter _ req _ pc =>
      by_cases same : t = promoter
      · subst same
        exact .inr (.inr ⟨req, .inl ⟨pc, by simp⟩⟩)
      · exact .inr (.inl (by simp [same]))
    | @finish run req pc _ caller =>
      by_cases same : t = run.promoter
      · subst same
        exact .inr (.inr ⟨req, .inr ⟨caller, by simp⟩⟩)
      · exact .inr (.inl (by simp [same]))
    | _ => exact .inr (.inl rfl)
  | page => cases pageStep_cases taken <;> exact .inr (.inl rfl)

theorem epochs_of_step (w : Nat) : (∃ own, a = .worker w own ∧ WorkerStep cfg s w own s') ∨
      (s'.workers w = s.workers w ∧ s'.workerEpochs w = s.workerEpochs w) := by
  cases step_cases taken with
  | @worker actor a stepped =>
    have cases' := stepped
    by_cases acts : w = actor
    · subst acts
      exact .inl ⟨a, rfl, cases'⟩
    · right
      cases cases' <;>
        simp [acts]
  | promote stepped | forward stepped | sieve stepped | rescue stepped | page stepped =>
    cases stepped <;> exact .inr ⟨rfl, rfl⟩

theorem workers_of_step (w : Nat) : (∃ own, a = .worker w own ∧ WorkerStep cfg s w own s') ∨
      s'.workers w = s.workers w :=
  (epochs_of_step taken w).imp_right And.left

end

structure Leaves.WellFormed (leaves : Leaves) : Prop where
  routed : ∀ frame slot, (leaves.frames frame).state ≠ .free →
    slot ∈ (leaves.frames frame).slots → leaves.route slot.key = frame
  distinct : ∀ frame, (leaves.frames frame).state ≠ .free →
    ((leaves.frames frame).slots.map LeafSlot.key).Nodup

theorem rescue_of_step (taken : step cfg s a = some s') :
    (∃ own, a = .rescue own ∧ RescueStep cfg s own s') ∨ s'.rescue = s.rescue := by
  cases step_cases taken with
  | @rescue a stepped => exact .inl ⟨a, rfl, stepped⟩
  | worker stepped => cases stepped <;> exact .inr rfl
  | promote stepped | forward stepped | sieve stepped | page stepped =>
    cases stepped <;> exact .inr rfl

/-- An empty cache over a loaded tree, before any transaction has run.  Ghost
writer 0 stands for the load. -/
structure Initial (s : State) : Prop where
  table : ∀ key, s.memory.table key = none
  allocated : ∀ e, s.memory.allocated e = false
  shardMutex : ∀ shard, s.shardMutex shard = none
  sieveFifo : s.sieveFifo = ⟨[], 0⟩
  invalidationQueue : s.invalidationQueue = []
  workerEpochs : ∀ w, s.workerEpochs w = ⟨0, false⟩
  requests : s.requests = []
  activeEntryCount : s.activeEntryCount = 0
  pendingStateInvalidatedFromHash : s.pendingStateInvalidatedFromHash = 0
  leaves : s.leaves.WellFormed
  unlatched : ∀ frame, (s.leaves.frames frame).isExclusivelyLatched = false
  loaded : ∀ key frame slot tuple, s.leaves.Holds key frame slot tuple → tuple.writer = 0
  promoters : ∀ t, s.promoters t = .idle
  workers : ∀ w, s.workers w = .idle
  transactions : ∀ w, (s.transactions w).active = false
  nextTransaction : s.nextTransaction = 1
  outcome : ∀ transaction, s.outcome transaction = none
  forwards : ∀ t, s.forwards t = ⟨[], [], .resting⟩
  sieves : ∀ t, s.sieves t = .idle
  rescue : s.rescue = .idle

abbrev Reaches (config : Config) (allowed : State → Action → Prop) :
    State → Prop :=
  Reachable (step config) Initial allowed

def Config.small : Config where
  hashBytes _ := 0
  numOfShards := 1
  totalWorkersNumber := 2
  rcSkipDtIdPrefix := true
  dtId := 0
  slabOf _ := 0

/-- An empty cache over a tree that holds the value `[5]` under the key `[1]`. -/
def State.small : State where
  memory := ⟨fun _ => ⟨0, 0, 0, 0, .readOnlyMode, false, false, none, []⟩,
    fun _ => false, fun _ => none, fun _ => 0⟩
  shardMutex _ := none
  sieveFifo := ⟨[], 0⟩
  invalidationQueue := []
  globalEpoch := 0
  workerEpochs _ := ⟨0, false⟩
  requests := []
  activeEntryCount := 0
  pendingStateInvalidatedFromHash := 0
  leaves :=
    { frames := fun frame =>
        if frame = 0 then ⟨0, 7, .hot, [⟨[1], ⟨[5], 1, 0, 0, false, 0⟩⟩]⟩
        else ⟨0, 9999, .free, []⟩
      route := fun _ => 0 }
  promoters _ := .idle
  workers _ := .idle
  transactions _ := ⟨false, false, 0, 0, []⟩
  nextTransaction := 1
  outcome _ := none
  forwards _ := ⟨[], [], .resting⟩
  sieves _ := .idle
  rescue := .idle

theorem initial_small : Initial small := by
  have loaded : small.leaves.frames 0 = ⟨0, 7, .hot, [⟨[1], ⟨[5], 1, 0, 0, false, 0⟩⟩]⟩ := rfl
  have live_zero : ∀ frame, (small.leaves.frames frame).state ≠ .free →
      frame = 0 := by
    intro frame live
    by_contra isOther
    simp [small, isOther] at live
  constructor
  case leaves =>
    refine ⟨fun frame slot live mem => (live_zero frame live).symm, fun frame live => ?_⟩
    rw [live_zero frame live, loaded]
    simp
  case unlatched =>
    intro frame
    simp only [small]
    split <;> rfl
  case loaded =>
    rintro key frame slot tuple ⟨live, found⟩
    rw [live_zero frame live, loaded] at found
    cases slot with
    | zero =>
      simp only [List.getElem?_cons_zero, Option.some.injEq, LeafSlot.mk.injEq] at found
      rw [← found.2]
    | succ => simp at found
  all_goals simp [small]

/-- The steps of one whole promotion by one promote thread, into this block. -/
def promotion (thread : Nat) (entry : Addr) : List Action :=
  [.page (.promoteRecordCacheEntry 0 0), .promote thread .dequeue,
    .promote thread (.allocate entry), .promote thread .install,
    .promote thread .insertIntoFifo, .promote thread .guard, .promote thread .check,
    .promote thread .readHeader, .promote thread .copyValue, .promote thread .recheck,
    .promote thread .decide, .promote thread (.finish [])]

def uncachedUpdate (worker : Nat) (value : Bytes) : List Action :=
  [.worker worker (.latch (.update value) [1] 0), .worker worker .enterEpoch,
    .worker worker .select, .worker worker .leaveEpoch,
    .worker worker (.write false), .worker worker .unlatch]

end TieredStore.RecordCache
