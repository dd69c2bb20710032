import TieredStore.RecordCache.State

namespace TieredStore.RecordCache

inductive SieveAction
  | drain
  | freeDrained
  | evict (shouldForceEvict : Addr → Bool)
  | loadType
  | lock
  | unlink
  | setRemoved
  | free
  | reinsert

def kSieveBatchLimit : Nat := 32

def kPendingDeadEntryThreshold : UInt64 := 1024

def tryMarkEvictable (memory : Memory) (entry : Addr) : Bool :=
  decide (memory.typeOf entry = .readOnlyMode) ||
    decide (memory.typeOf entry = .removedFromHashTableButWaitForPhysicalMemoryDeallocation)

def isRemovedType (memory : Memory) (entry : Addr) : Bool :=
  decide (memory.typeOf entry = .removedFromHashTableButWaitForPhysicalMemoryDeallocation)

def Memory.withVisited (memory : Memory) (visited : Addr → Bool) : Memory :=
  { memory with
    heap := fun entry => { memory.heap entry with visited := visited entry } }

/--
`sieveEvictionThread`.  The slab usage ratio is outside the model, so the
watermark path may be taken at any time; the dead-pile path needs its counter.
-/
def sieveStep (config : Config) (state : State) (thread : Nat) :
    SieveAction → Option State
  | .drain =>
    match state.sieves thread with
    | .idle =>
      if kPendingDeadEntryThreshold ≤ state.pendingStateInvalidatedFromHash then
        let (victims, fifo) := state.sieveFifo.drainStateRemovedOnly
          (isRemovedType state.memory) kSieveBatchLimit
        some { state.setSieve thread (.draining victims) with
          sieveFifo := fifo }
      else
        none
    | _ => none
  | .freeDrained =>
    match state.sieves thread with
    | .draining [] => some (state.setSieve thread .idle)
    | .draining (victim :: rest) =>
      some { state.setSieve thread (.draining rest) with
        memory := state.memory.deallocate victim
        activeEntryCount := state.activeEntryCount - 1
        pendingStateInvalidatedFromHash :=
          state.pendingStateInvalidatedFromHash - 1 }
    | _ => none
  | .evict shouldForceEvict =>
    match state.sieves thread with
    | .idle =>
      let eviction := state.sieveFifo.evictOneFromSieveFIFO
        (tryMarkEvictable state.memory) shouldForceEvict
        (fun entry => (state.memory.heap entry).visited)
      let pc := match eviction.victim with
        | none => SievePc.idle
        | some victim => .popped victim
      some { state.setSieve thread pc with
        sieveFifo := eviction.fifo
        memory := state.memory.withVisited eviction.visited }
    | _ => none
  | .loadType =>
    match state.sieves thread with
    | .popped victim =>
      match state.memory.typeOf victim with
      | .removedFromHashTableButWaitForPhysicalMemoryDeallocation =>
        some (state.setSieve thread (.freeing victim true))
      | .readOnlyMode => some (state.setSieve thread (.caseB victim))
      | _ => some (state.setSieve thread (.reinserting victim))
    | _ => none
  | .lock =>
    match state.sieves thread with
    | .caseB victim =>
      let shard := config.shardOf (state.memory.heap victim).getKeySpan
      if state.shardMutex shard = none then
        if state.memory.typeOf victim = .readOnlyMode then
          some ((state.setMutex shard (some (.sieve thread))).setSieve thread
            (.locked victim shard))
        else
          some (state.setSieve thread (.reinserting victim))
      else
        none
    | _ => none
  | .unlink =>
    match state.sieves thread with
    | .locked victim shard =>
      let key := (state.memory.heap victim).getKeySpan
      if state.memory.table key = some victim then
        some { state.setSieve thread (.unlinked victim shard) with
          memory := (state.memory.unlink key victim [victim]).1 }
      else
        some ((state.setMutex shard none).setSieve thread (.reinserting victim))
    | _ => none
  | .setRemoved =>
    match state.sieves thread with
    | .unlinked victim shard =>
      some { (state.setMutex shard none).setSieve thread
          (.freeing victim false) with
        memory := state.memory.setType victim
          .removedFromHashTableButWaitForPhysicalMemoryDeallocation }
    | _ => none
  | .free =>
    match state.sieves thread with
    | .freeing victim wasPending =>
      some { state.setSieve thread .idle with
        memory := state.memory.deallocate victim
        activeEntryCount := state.activeEntryCount - 1
        pendingStateInvalidatedFromHash :=
          if wasPending then state.pendingStateInvalidatedFromHash - 1
          else state.pendingStateInvalidatedFromHash }
    | _ => none
  | .reinsert =>
    match state.sieves thread with
    | .reinserting victim =>
      some { state.setSieve thread .idle with
        sieveFifo := state.sieveFifo.pushBack victim }
    | _ => none

inductive SieveStep (cfg : Config) (s : State) (t : Nat) :
    SieveAction → State → Prop
  | drain (pc : s.sieves t = .idle)
    (deadPile : kPendingDeadEntryThreshold ≤ s.pendingStateInvalidatedFromHash) :
    SieveStep cfg s t .drain
      { s.setSieve t (.draining
          (s.sieveFifo.drainStateRemovedOnly (isRemovedType s.memory)
            kSieveBatchLimit).1) with
        sieveFifo := (s.sieveFifo.drainStateRemovedOnly
          (isRemovedType s.memory) kSieveBatchLimit).2 }
  | drained (pc : s.sieves t = .draining []) :
    SieveStep cfg s t .freeDrained (s.setSieve t .idle)
  | freeDrained {victim rest} (pc : s.sieves t = .draining (victim :: rest)) :
    SieveStep cfg s t .freeDrained
      { s.setSieve t (.draining rest) with
        memory := s.memory.deallocate victim
        activeEntryCount := s.activeEntryCount - 1
        pendingStateInvalidatedFromHash :=
          s.pendingStateInvalidatedFromHash - 1 }
  | evictNone {shouldForceEvict}
    (pc : s.sieves t = .idle) (missed : (s.sieveFifo.evictOneFromSieveFIFO
      (tryMarkEvictable s.memory) shouldForceEvict
      (fun e => (s.memory.heap e).visited)).victim = none) :
    SieveStep cfg s t (.evict shouldForceEvict)
      { s.setSieve t .idle with
        sieveFifo := (s.sieveFifo.evictOneFromSieveFIFO
          (tryMarkEvictable s.memory) shouldForceEvict
          (fun e => (s.memory.heap e).visited)).fifo
        memory := s.memory.withVisited (s.sieveFifo.evictOneFromSieveFIFO
          (tryMarkEvictable s.memory) shouldForceEvict
          (fun e => (s.memory.heap e).visited)).visited }
  | evict {shouldForceEvict victim}
    (pc : s.sieves t = .idle) (found : (s.sieveFifo.evictOneFromSieveFIFO
      (tryMarkEvictable s.memory) shouldForceEvict
      (fun e => (s.memory.heap e).visited)).victim = some victim) :
    SieveStep cfg s t (.evict shouldForceEvict)
      { s.setSieve t (.popped victim) with
        sieveFifo := (s.sieveFifo.evictOneFromSieveFIFO
          (tryMarkEvictable s.memory) shouldForceEvict
          (fun e => (s.memory.heap e).visited)).fifo
        memory := s.memory.withVisited (s.sieveFifo.evictOneFromSieveFIFO
          (tryMarkEvictable s.memory) shouldForceEvict
          (fun e => (s.memory.heap e).visited)).visited }
  | caseA {victim} (pc : s.sieves t = .popped victim) (type : s.memory.typeOf victim =
      .removedFromHashTableButWaitForPhysicalMemoryDeallocation) :
    SieveStep cfg s t .loadType
      (s.setSieve t (.freeing victim true))
  | caseB {victim} (pc : s.sieves t = .popped victim)
    (type : s.memory.typeOf victim = .readOnlyMode) :
    SieveStep cfg s t .loadType
      (s.setSieve t (.caseB victim))
  | caseC {victim} (pc : s.sieves t = .popped victim) :
    SieveStep cfg s t .loadType
      (s.setSieve t (.reinserting victim))
  | lock {victim} (pc : s.sieves t = .caseB victim)
    (free : s.shardMutex (cfg.shardOf (s.memory.heap victim).getKeySpan) = none)
    (type : s.memory.typeOf victim = .readOnlyMode) :
    SieveStep cfg s t .lock
      ((s.setMutex (cfg.shardOf (s.memory.heap victim).getKeySpan)
          (some (.sieve t))).setSieve t
        (.locked victim (cfg.shardOf (s.memory.heap victim).getKeySpan)))
  | typeChanged {victim} (pc : s.sieves t = .caseB victim)
    (free : s.shardMutex (cfg.shardOf (s.memory.heap victim).getKeySpan) = none)
    (type : s.memory.typeOf victim ≠ .readOnlyMode) :
    SieveStep cfg s t .lock
      (s.setSieve t (.reinserting victim))
  | unlink {victim shard} (pc : s.sieves t = .locked victim shard)
    (isHead : s.memory.table (s.memory.heap victim).getKeySpan = some victim) :
    SieveStep cfg s t .unlink
      { s.setSieve t (.unlinked victim shard) with
        memory := (s.memory.unlink (s.memory.heap victim).getKeySpan victim [victim]).1 }
  | pointerMismatch {victim shard} (pc : s.sieves t = .locked victim shard)
    (notHead : s.memory.table (s.memory.heap victim).getKeySpan ≠ some victim) :
    SieveStep cfg s t .unlink
      ((s.setMutex shard none).setSieve t (.reinserting victim))
  | setRemoved {victim shard} (pc : s.sieves t = .unlinked victim shard) :
    SieveStep cfg s t .setRemoved
      { (s.setMutex shard none).setSieve t (.freeing victim false) with
        memory := s.memory.setType victim
          .removedFromHashTableButWaitForPhysicalMemoryDeallocation }
  | freeCaseA {victim} (pc : s.sieves t = .freeing victim true) :
    SieveStep cfg s t .free
      { s.setSieve t .idle with
        memory := s.memory.deallocate victim
        activeEntryCount := s.activeEntryCount - 1
        pendingStateInvalidatedFromHash :=
          s.pendingStateInvalidatedFromHash - 1 }
  | freeCaseB {victim} (pc : s.sieves t = .freeing victim false) :
    SieveStep cfg s t .free
      { s.setSieve t .idle with
        memory := s.memory.deallocate victim
        activeEntryCount := s.activeEntryCount - 1 }
  | reinsert {victim} (pc : s.sieves t = .reinserting victim) :
    SieveStep cfg s t .reinsert
      { s.setSieve t .idle with
        sieveFifo := s.sieveFifo.pushBack victim }

theorem sieveStep_cases {cfg : Config} {s s' : State} {t : Nat} {a : SieveAction}
    (taken : sieveStep cfg s t a = some s') : SieveStep cfg s t a s' := by
  cases a with
  | evict shouldForceEvict =>
    simp only [sieveStep] at taken
    split at taken
    · rename_i pc
      cases found : (s.sieveFifo.evictOneFromSieveFIFO (tryMarkEvictable s.memory) shouldForceEvict
          (fun e => (s.memory.heap e).visited)).victim with
      | none =>
        simp only [found, Option.some.injEq] at taken
        exact taken ▸ .evictNone pc found
      | some victim =>
        simp only [found, Option.some.injEq] at taken
        exact taken ▸ .evict pc found
    · simp at taken
  | _ =>
    simp only [sieveStep] at taken
    repeat' split at taken
    all_goals
      simp only [Option.some.injEq, reduceCtorEq] at taken
    all_goals
      subst taken
      constructor <;> first | assumption | simp_all

end TieredStore.RecordCache
