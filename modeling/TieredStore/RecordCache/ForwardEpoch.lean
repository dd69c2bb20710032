import TieredStore.RecordCache.State

namespace TieredStore.RecordCache

inductive ForwardAction
  | advance
  | popAll
  | takeNext
  | scan
  | unlink (chain : List Addr)
  | storeRemoved
  | increment
  | loadType
  | endPass
  deriving DecidableEq, Repr

/-- One iteration of `is_safe_to_invalidate`: this worker blocks the epoch. -/
def blocksEpoch (epoch : ThreadLocalEpoch) (targetEpoch : Nat) : Bool :=
  epoch.active && decide (epoch.currentEpoch ≤ targetEpoch)

/-- `forwardEpochThread`, one pass cut at its accesses to shared state. -/
def forwardStep (config : Config) (state : State) (thread : Nat) :
    ForwardAction → Option State
  | .advance =>
    let forward := state.forwards thread
    match forward.stage with
    | .resting =>
      some { state.setForward thread { forward with stage := .advanced } with
        globalEpoch := state.globalEpoch + 1 }
    | _ => none
  | .popAll =>
    let forward := state.forwards thread
    match forward.stage with
    | .advanced =>
      some { state.setForward thread { forward with
          localInvalidationRetryQueue :=
            forward.localInvalidationRetryQueue ++ state.invalidationQueue
          stage := .processing } with
        invalidationQueue := [] }
    | _ => none
  | .takeNext =>
    let forward := state.forwards thread
    match forward.stage, forward.localInvalidationRetryQueue with
    | .processing, item :: rest =>
      some (state.setForward thread { forward with
        localInvalidationRetryQueue := rest
        stage := .scanning item 0 })
    | _, _ => none
  | .scan =>
    let forward := state.forwards thread
    match forward.stage with
    | .scanning item worker =>
      if worker < config.totalWorkersNumber then
        if blocksEpoch (state.workerEpochs worker) item.updateEpoch then
          some (state.setForward thread { forward with
            nextTurnRetryQueue := forward.nextTurnRetryQueue ++ [item]
            stage := .processing })
        else
          some (state.setForward thread { forward with
            stage := .scanning item (worker + 1) })
      else
        some (state.setForward thread { forward with stage := .unlinking item })
    | _ => none
  | .unlink chain =>
    let forward := state.forwards thread
    match forward.stage with
    | .unlinking item =>
      let key := (state.memory.heap item.entryPointer).getKeySpan
      if state.shardMutex (config.shardOf key) = none ∧
          state.memory.ChainOf key chain then
        let (memory, removed) :=
          state.memory.unlink key item.entryPointer chain
        some { state.setForward thread { forward with
            stage := if removed then .removed item else .notRemoved item } with
          memory := memory }
      else
        none
    | _ => none
  | .storeRemoved =>
    let forward := state.forwards thread
    match forward.stage with
    | .removed item =>
      some { state.setForward thread { forward with stage := .counting } with
        memory := state.memory.setType item.entryPointer
          .removedFromHashTableButWaitForPhysicalMemoryDeallocation }
    | _ => none
  | .increment =>
    let forward := state.forwards thread
    match forward.stage with
    | .counting =>
      some { state.setForward thread { forward with stage := .processing } with
        pendingStateInvalidatedFromHash :=
          state.pendingStateInvalidatedFromHash + 1 }
    | _ => none
  | .loadType =>
    let forward := state.forwards thread
    match forward.stage with
    | .notRemoved item =>
      if state.memory.typeOf item.entryPointer =
          .removedFromHashTableButWaitForPhysicalMemoryDeallocation then
        some (state.setForward thread { forward with stage := .processing })
      else
        some (state.setForward thread { forward with
          nextTurnRetryQueue := forward.nextTurnRetryQueue ++ [item]
          stage := .processing })
    | _ => none
  | .endPass =>
    let forward := state.forwards thread
    match forward.stage, forward.localInvalidationRetryQueue with
    | .processing, [] =>
      some (state.setForward thread
        { localInvalidationRetryQueue := forward.nextTurnRetryQueue
          nextTurnRetryQueue := []
          stage := .resting })
    | _, _ => none

inductive ForwardStep (cfg : Config) (s : State) (t : Nat) :
    ForwardAction → State → Prop
  | advance (stage : (s.forwards t).stage = .resting) :
    ForwardStep cfg s t .advance
      { s.setForward t
          { s.forwards t with stage := .advanced } with
        globalEpoch := s.globalEpoch + 1 }
  | popAll (stage : (s.forwards t).stage = .advanced) :
    ForwardStep cfg s t .popAll
      { s.setForward t { s.forwards t with
          localInvalidationRetryQueue :=
            (s.forwards t).localInvalidationRetryQueue ++ s.invalidationQueue
          stage := .processing } with
        invalidationQueue := [] }
  | takeNext {item rest} (stage : (s.forwards t).stage = .processing)
    (next : (s.forwards t).localInvalidationRetryQueue = item :: rest) :
    ForwardStep cfg s t .takeNext
      (s.setForward t { s.forwards t with
        localInvalidationRetryQueue := rest
        stage := .scanning item 0 })
  | blocked {item w} (stage : (s.forwards t).stage = .scanning item w)
    (inside : w < cfg.totalWorkersNumber)
    (blocks : blocksEpoch (s.workerEpochs w) item.updateEpoch = true) :
    ForwardStep cfg s t .scan
      (s.setForward t { s.forwards t with
        nextTurnRetryQueue :=
          (s.forwards t).nextTurnRetryQueue ++ [item]
        stage := .processing })
  | scan {item w} (stage : (s.forwards t).stage = .scanning item w)
    (inside : w < cfg.totalWorkersNumber)
    (passes : blocksEpoch (s.workerEpochs w) item.updateEpoch = false) :
    ForwardStep cfg s t .scan
      (s.setForward t { s.forwards t with
        stage := .scanning item (w + 1) })
  | scanned {item w} (stage : (s.forwards t).stage = .scanning item w)
    (beyond : ¬ w < cfg.totalWorkersNumber) :
    ForwardStep cfg s t .scan
      (s.setForward t { s.forwards t with
        stage := .unlinking item })
  | unlink {item chain} (stage : (s.forwards t).stage = .unlinking item)
    (free : s.shardMutex (cfg.shardOf
      (s.memory.heap item.entryPointer).getKeySpan) = none)
    (walked : s.memory.ChainOf (s.memory.heap item.entryPointer).getKeySpan chain)
    (removed : (s.memory.unlink
      (s.memory.heap item.entryPointer).getKeySpan
      item.entryPointer chain).2 = true) :
    ForwardStep cfg s t (.unlink chain)
      { s.setForward t
          { s.forwards t with stage := .removed item } with
        memory := (s.memory.unlink
          (s.memory.heap item.entryPointer).getKeySpan
          item.entryPointer chain).1 }
  | unlinkMissed {item chain} (stage : (s.forwards t).stage = .unlinking item)
    (free : s.shardMutex (cfg.shardOf
      (s.memory.heap item.entryPointer).getKeySpan) = none)
    (walked : s.memory.ChainOf (s.memory.heap item.entryPointer).getKeySpan chain)
    (missed : (s.memory.unlink
      (s.memory.heap item.entryPointer).getKeySpan
      item.entryPointer chain).2 = false) :
    ForwardStep cfg s t (.unlink chain)
      { s.setForward t
          { s.forwards t with stage := .notRemoved item } with
        memory := (s.memory.unlink
          (s.memory.heap item.entryPointer).getKeySpan
          item.entryPointer chain).1 }
  | storeRemoved {item} (stage : (s.forwards t).stage = .removed item) :
    ForwardStep cfg s t .storeRemoved
      { s.setForward t
          { s.forwards t with stage := .counting } with
        memory := s.memory.setType item.entryPointer
          .removedFromHashTableButWaitForPhysicalMemoryDeallocation }
  | increment (stage : (s.forwards t).stage = .counting) :
    ForwardStep cfg s t .increment
      { s.setForward t
          { s.forwards t with stage := .processing } with
        pendingStateInvalidatedFromHash :=
          s.pendingStateInvalidatedFromHash + 1 }
  | drop {item} (stage : (s.forwards t).stage = .notRemoved item)
    (removed : s.memory.typeOf item.entryPointer =
      .removedFromHashTableButWaitForPhysicalMemoryDeallocation) :
    ForwardStep cfg s t .loadType
      (s.setForward t { s.forwards t with stage := .processing })
  | retry {item} (stage : (s.forwards t).stage = .notRemoved item)
    (pending : s.memory.typeOf item.entryPointer ≠
      .removedFromHashTableButWaitForPhysicalMemoryDeallocation) :
    ForwardStep cfg s t .loadType
      (s.setForward t { s.forwards t with
        nextTurnRetryQueue :=
          (s.forwards t).nextTurnRetryQueue ++ [item]
        stage := .processing })
  | endPass (stage : (s.forwards t).stage = .processing)
    (done : (s.forwards t).localInvalidationRetryQueue = []) :
    ForwardStep cfg s t .endPass
      (s.setForward t
        { localInvalidationRetryQueue := (s.forwards t).nextTurnRetryQueue
          nextTurnRetryQueue := []
          stage := .resting })

theorem forwardStep_cases {cfg : Config} {s s' : State} {t : Nat} {a : ForwardAction}
    (taken : forwardStep cfg s t a = some s') : ForwardStep cfg s t a s' := by
  cases a <;> simp only [forwardStep] at taken <;>
    (repeat' split at taken) <;>
    simp only [Option.some.injEq, reduceCtorEq] at taken <;> subst taken
  all_goals
    constructor <;> first | assumption | simp_all

end TieredStore.RecordCache
