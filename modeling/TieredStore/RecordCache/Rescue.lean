import TieredStore.RecordCache.ForwardEpoch

namespace TieredStore.RecordCache

inductive RescueAction
  | begin (promoter slab : Nat)
  | lockShard
  | collect (key : Bytes) (entry : Addr) (chain : List Addr)
  | unlockShard
  | mark
  | readEpoch
  | advanceEpoch
  | poll
  | timeout
  | free
  | nextCandidate (slab : Nat)
  | finish
  deriving DecidableEq, Repr

/-- The two compare-and-swaps of the rescue succeed from these types. -/
def rescuable (memory : Memory) (entry : Addr) : Bool :=
  decide (memory.typeOf entry = .readOnlyMode) ||
    decide (memory.typeOf entry = .logicallyDeletedButStillInHashTable)

def inSlab (config : Config) (slab : Nat) (entry : Addr) : Bool :=
  decide (config.slabOf entry = slab)

/--
`tryRescueSlabForAllocator`, called back from a promote thread's allocation
and serialised by its mutex.  A shard's walk is a sequence of `collect` steps
under the shard lock; which candidate slabs are tried, and whether the poll
gives up, is left open.
-/
def rescueStep (config : Config) (state : State) : RescueAction → Option State
  | .begin promoter slab =>
    match state.rescue, state.promoters promoter with
    | .idle, .allocating request =>
      some { state.setPromoter promoter (.rescuing request) with
        rescue := .scanning ⟨promoter, slab, []⟩ 0 false }
    | _, _ => none
  | .lockShard =>
    match state.rescue with
    | .scanning run shard false =>
      if shard < config.numOfShards ∧ state.shardMutex shard = none then
        some { state.setMutex shard (some .rescue) with
          rescue := .scanning run shard true }
      else
        none
    | _ => none
  | .collect key entry chain =>
    match state.rescue with
    | .scanning run shard true =>
      if config.shardOf key = shard ∧ state.memory.ChainOf key chain ∧
          entry ∈ chain ∧ inSlab config run.slab entry ∧
          rescuable state.memory entry then
        some { state with
          memory := (state.memory.unlink key entry chain).1.setType entry
            .removedFromHashTableButWaitForPhysicalMemoryDeallocation
          activeEntryCount := state.activeEntryCount - 1
          rescue := .scanning
            { run with collected := run.collected ++ [entry] } shard true }
      else
        none
    | _ => none
  | .unlockShard =>
    match state.rescue with
    | .scanning run shard true =>
      some { state.setMutex shard none with
        rescue := .scanning run (shard + 1) false }
    | _ => none
  | .mark =>
    match state.rescue with
    | .scanning run shard false =>
      if shard = config.numOfShards then
        if run.collected = [] then
          some { state with rescue := .freeing run }
        else
          some { state with
            sieveFifo := state.sieveFifo.markSlabEntriesAsNull
              (inSlab config run.slab)
            rescue := .marked run }
      else
        none
    | _ => none
  | .readEpoch =>
    match state.rescue with
    | .marked run =>
      some { state with rescue := .unlinkEpoch run state.globalEpoch }
    | _ => none
  | .advanceEpoch =>
    match state.rescue with
    | .unlinkEpoch run epoch =>
      some { state with
        globalEpoch := state.globalEpoch + 1
        rescue := .polling run epoch 0 }
    | _ => none
  | .poll =>
    match state.rescue with
    | .polling run epoch worker =>
      if worker < config.totalWorkersNumber then
        if blocksEpoch (state.workerEpochs worker) epoch then
          some { state with rescue := .polling run epoch 0 }
        else
          some { state with rescue := .polling run epoch (worker + 1) }
      else
        some { state with rescue := .freeing run }
    | _ => none
  | .timeout =>
    match state.rescue with
    | .polling run epoch _ =>
      some { state with
        invalidationQueue := state.invalidationQueue ++
          run.collected.map fun entry => ⟨entry, epoch⟩
        rescue := .freeing { run with collected := [] } }
    | _ => none
  | .free =>
    match state.rescue with
    | .freeing run =>
      match run.collected with
      | [] => none
      | entry :: rest =>
        some { state with
          memory := state.memory.deallocate entry
          rescue := .freeing { run with collected := rest } }
    | _ => none
  | .nextCandidate slab =>
    match state.rescue with
    | .freeing run =>
      if run.collected = [] then
        some { state with
          rescue := .scanning { run with slab := slab } 0 false }
      else
        none
    | _ => none
  | .finish =>
    match state.rescue with
    | .freeing run =>
      match run.collected, state.promoters run.promoter with
      | [], .rescuing request =>
        some { state.setPromoter run.promoter (.allocating request) with
          rescue := .idle }
      | _, _ => none
    | _ => none

inductive RescueStep (cfg : Config) (s : State) :
    RescueAction → State → Prop
  | begin {promoter slab req}
    (idle : s.rescue = .idle) (pc : s.promoters promoter = .allocating req) :
    RescueStep cfg s (.begin promoter slab)
      { s.setPromoter promoter (.rescuing req) with
        rescue := .scanning ⟨promoter, slab, []⟩ 0 false }
  | lockShard {run shard}
    (pc : s.rescue = .scanning run shard false) (inside : shard < cfg.numOfShards)
    (free : s.shardMutex shard = none) :
    RescueStep cfg s .lockShard
      { s.setMutex shard (some .rescue) with
        rescue := .scanning run shard true }
  | collect {run shard key e chain}
    (pc : s.rescue = .scanning run shard true) (shardOf : cfg.shardOf key = shard)
    (walked : s.memory.ChainOf key chain) (member : e ∈ chain)
    (inside : inSlab cfg run.slab e = true) (swapped : rescuable s.memory e = true) :
    RescueStep cfg s (.collect key e chain)
      { s with
        memory := (s.memory.unlink key e chain).1.setType e
          .removedFromHashTableButWaitForPhysicalMemoryDeallocation
        activeEntryCount := s.activeEntryCount - 1
        rescue := .scanning
          { run with collected := run.collected ++ [e] } shard true }
  | unlockShard {run shard} (pc : s.rescue = .scanning run shard true) :
    RescueStep cfg s .unlockShard
      { s.setMutex shard none with
        rescue := .scanning run (shard + 1) false }
  | nothingCollected {run shard}
    (pc : s.rescue = .scanning run shard false) (all : shard = cfg.numOfShards)
    (empty : run.collected = []) :
    RescueStep cfg s .mark { s with rescue := .freeing run }
  | mark {run shard} (pc : s.rescue = .scanning run shard false) (all : shard = cfg.numOfShards)
    (some : run.collected ≠ []) :
    RescueStep cfg s .mark
      { s with
        sieveFifo := s.sieveFifo.markSlabEntriesAsNull
          (inSlab cfg run.slab)
        rescue := .marked run }
  | readEpoch {run} (pc : s.rescue = .marked run) :
    RescueStep cfg s .readEpoch
      { s with rescue := .unlinkEpoch run s.globalEpoch }
  | advanceEpoch {run epoch} (pc : s.rescue = .unlinkEpoch run epoch) :
    RescueStep cfg s .advanceEpoch
      { s with
        globalEpoch := s.globalEpoch + 1
        rescue := .polling run epoch 0 }
  | blocked {run epoch w}
    (pc : s.rescue = .polling run epoch w) (inside : w < cfg.totalWorkersNumber)
    (blocks : blocksEpoch (s.workerEpochs w) epoch = true) :
    RescueStep cfg s .poll
      { s with rescue := .polling run epoch 0 }
  | poll {run epoch w} (pc : s.rescue = .polling run epoch w) (inside : w < cfg.totalWorkersNumber)
    (passes : blocksEpoch (s.workerEpochs w) epoch = false) :
    RescueStep cfg s .poll
      { s with rescue := .polling run epoch (w + 1) }
  | safe {run epoch w} (pc : s.rescue = .polling run epoch w)
    (beyond : ¬ w < cfg.totalWorkersNumber) :
    RescueStep cfg s .poll { s with rescue := .freeing run }
  | timeout {run epoch w} (pc : s.rescue = .polling run epoch w) :
    RescueStep cfg s .timeout
      { s with
        invalidationQueue := s.invalidationQueue ++
          run.collected.map fun e => ⟨e, epoch⟩
        rescue := .freeing { run with collected := [] } }
  | free {run e rest} (pc : s.rescue = .freeing run) (next : run.collected = e :: rest) :
    RescueStep cfg s .free
      { s with
        memory := s.memory.deallocate e
        rescue := .freeing { run with collected := rest } }
  | nextCandidate {run slab} (pc : s.rescue = .freeing run) (done : run.collected = []) :
    RescueStep cfg s (.nextCandidate slab)
      { s with rescue := .scanning { run with slab := slab } 0 false }
  | finish {run req} (pc : s.rescue = .freeing run) (done : run.collected = [])
    (caller : s.promoters run.promoter = .rescuing req) :
    RescueStep cfg s .finish
      { s.setPromoter run.promoter (.allocating req) with
        rescue := .idle }

theorem rescueStep_cases {cfg : Config} {s s' : State} {a : RescueAction}
    (taken : rescueStep cfg s a = some s') : RescueStep cfg s a s' := by
  cases a <;> simp only [rescueStep] at taken <;>
    (repeat' split at taken) <;>
    simp only [Option.some.injEq, reduceCtorEq] at taken <;> subst taken
  all_goals
    constructor <;> first | assumption | simp_all

end TieredStore.RecordCache
