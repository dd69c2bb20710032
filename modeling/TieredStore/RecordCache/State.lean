import TieredStore.RecordCache.SieveFifo
import TieredStore.RecordCache.Leaf

/-!
The state of the record cache together with the leaves it caches: shared
memory, the queues between the threads, and a program counter for every
thread.  A program counter names the point between two accesses to shared
state at which the thread may be interrupted.
-/

namespace TieredStore.RecordCache

/-- Start-up parameters.  One B-tree is modelled, under its `dtId`. -/
structure Config where
  hashBytes : Bytes → Nat
  numOfShards : Nat
  totalWorkersNumber : Nat
  rcSkipDtIdPrefix : Bool
  dtId : UInt16
  slabOf : Addr → Nat

namespace Config

def shardOf (config : Config) (key : Bytes) : Nat :=
  config.hashBytes key % config.numOfShards

def buildPrefixedKey (config : Config) (key : Bytes) : Bytes :=
  if config.rcSkipDtIdPrefix then
    key
  else
    [config.dtId.toUInt8, (config.dtId >>> 8).toUInt8] ++ key

def prefixBytes (config : Config) : Nat :=
  if config.rcSkipDtIdPrefix then 0 else 2

theorem buildPrefixedKey_injective (cfg : Config) {key key' : Bytes}
    (same : cfg.buildPrefixedKey key = cfg.buildPrefixedKey key') : key = key' := by
  unfold buildPrefixedKey at same
  split at same
  · exact same
  · simpa using same

@[simp] theorem drop_buildPrefixedKey (cfg : Config) (key : Bytes) :
    (cfg.buildPrefixedKey key).drop cfg.prefixBytes = key := by
  unfold buildPrefixedKey prefixBytes
  split <;> simp

end Config

structure InvalidationEntry where
  entryPointer : Addr
  updateEpoch : Nat
  deriving DecidableEq, Repr

structure ThreadLocalEpoch where
  currentEpoch : Nat
  active : Bool
  deriving DecidableEq, Repr

structure PromoteRequestMessage where
  key : Bytes
  bf : Nat
  pid : Nat
  slotId : Nat
  keyLength : Nat
  valueLength : Nat
  isDirectUpdate : Bool
  deriving DecidableEq, Repr

inductive ReadStage
  | start
  | guarded (version : Nat)
  | checked (version : Nat)
  | header (version : Nat) (txTs workerId writer : Nat)
  | copied (version : Nat) (data : ReadData)
  deriving DecidableEq, Repr

/-- What phase 3 decided from the type and flag it loaded under the lock. -/
inductive Decision
  | publish
  | cancel
  | nothing
  deriving DecidableEq, Repr

inductive PromotePc
  | idle
  | allocating (request : PromoteRequestMessage)
  | rescuing (request : PromoteRequestMessage)
  | preallocated (request : PromoteRequestMessage) (entry : Addr)
  | notConsumed (request : PromoteRequestMessage) (entry : Addr)
  | installed (request : PromoteRequestMessage) (entry : Addr)
  | reading (request : PromoteRequestMessage) (entry : Addr) (stage : ReadStage)
  | readFailed (request : PromoteRequestMessage) (entry : Addr)
  | unlinked (request : PromoteRequestMessage) (entry : Addr)
  | validated (request : PromoteRequestMessage) (entry : Addr) (data : ReadData)
  | deciding (request : PromoteRequestMessage) (entry : Addr) (data : ReadData)
    (decision : Decision)
  | counting
  deriving DecidableEq, Repr

/-- Log record of one change, with what its undo needs.  `writer` is a ghost:
the transaction that wrote the version the change replaced. -/
inductive WalEntry
  | insert (key : Bytes)
  | update (key diff : Bytes) (beforeWorkerId beforeTxId writer : Nat)
  | remove (key value : Bytes) (beforeWorkerId beforeTxId writer : Nat)
  deriving DecidableEq, Repr

def WalEntry.key : WalEntry → Bytes
  | .insert key => key
  | .update key .. => key
  | .remove key .. => key

inductive WorkerOp
  | update (value : Bytes)
  | remove
  | insert (value : Bytes)
  | undo (entry : WalEntry)
  deriving DecidableEq, Repr

structure LeafSection where
  op : WorkerOp
  key : Bytes
  frame : Nat
  slot : Nat
  deriving DecidableEq, Repr

inductive WorkerStage
  | latched
  | entered
  | selected (target : Addr)
  | loaded (target : Addr)
  | invalidated (target : Addr)
  | queueing (target : Addr) (epoch : Nat)
  | leaving (rcInvalidated : Bool)
  | ready (rcInvalidated : Bool)
  | written
  deriving DecidableEq, Repr

inductive WorkerPc
  | idle
  | busy (leafSection : LeafSection) (stage : WorkerStage)
  deriving DecidableEq, Repr

/-- The transaction a worker runs.  `id` is a ghost that tells transactions
apart; the log is kept newest first. -/
structure WorkerTx where
  active : Bool
  aborting : Bool
  id : Nat
  startTs : Nat
  wal : List WalEntry
  deriving DecidableEq, Repr

inductive Outcome
  | committed
  | aborted
  deriving DecidableEq, Repr

inductive ForwardStage
  | resting
  | advanced
  | processing
  | scanning (item : InvalidationEntry) (worker : Nat)
  | unlinking (item : InvalidationEntry)
  | removed (item : InvalidationEntry)
  | counting
  | notRemoved (item : InvalidationEntry)
  deriving DecidableEq, Repr

structure ForwardState where
  localInvalidationRetryQueue : List InvalidationEntry
  nextTurnRetryQueue : List InvalidationEntry
  stage : ForwardStage
  deriving DecidableEq, Repr

inductive SievePc
  | idle
  | draining (victims : List Addr)
  | popped (victim : Addr)
  | caseB (victim : Addr)
  | locked (victim : Addr) (shard : Nat)
  | unlinked (victim : Addr) (shard : Nat)
  | freeing (victim : Addr) (wasPending : Bool)
  | reinserting (victim : Addr)
  deriving DecidableEq, Repr

structure RescueRun where
  promoter : Nat
  slab : Nat
  collected : List Addr
  deriving DecidableEq, Repr

inductive RescuePc
  | idle
  | scanning (run : RescueRun) (shard : Nat) (holdsLock : Bool)
  | marked (run : RescueRun)
  | unlinkEpoch (run : RescueRun) (epoch : Nat)
  | polling (run : RescueRun) (epoch worker : Nat)
  | freeing (run : RescueRun)
  deriving DecidableEq, Repr

inductive LockHolder
  | promoter (thread : Nat)
  | sieve (thread : Nat)
  | rescue
  deriving DecidableEq, Repr

structure State where
  memory : Memory
  shardMutex : Nat → Option LockHolder
  sieveFifo : SieveFIFOQueue
  invalidationQueue : List InvalidationEntry
  globalEpoch : Nat
  workerEpochs : Nat → ThreadLocalEpoch
  requests : List PromoteRequestMessage
  activeEntryCount : UInt64
  pendingStateInvalidatedFromHash : UInt64
  leaves : Leaves
  promoters : Nat → PromotePc
  workers : Nat → WorkerPc
  transactions : Nat → WorkerTx
  nextTransaction : Nat
  outcome : Nat → Option Outcome
  forwards : Nat → ForwardState
  sieves : Nat → SievePc
  rescue : RescuePc

namespace State

@[simp] def setPromoter (state : State) (thread : Nat) (pc : PromotePc) : State :=
  { state with promoters := Function.update state.promoters thread pc }

@[simp] def setWorker (state : State) (worker : Nat) (pc : WorkerPc) : State :=
  { state with workers := Function.update state.workers worker pc }

@[simp] def setTransaction (state : State) (worker : Nat) (tx : WorkerTx) : State :=
  { state with transactions := Function.update state.transactions worker tx }

@[simp] def setForward (state : State) (thread : Nat) (forward : ForwardState) : State :=
  { state with forwards := Function.update state.forwards thread forward }

@[simp] def setSieve (state : State) (thread : Nat) (pc : SievePc) : State :=
  { state with sieves := Function.update state.sieves thread pc }

@[simp] def setMutex (state : State) (shard : Nat) (holder : Option LockHolder) : State :=
  { state with shardMutex := Function.update state.shardMutex shard holder }

@[simp] def setEpoch (state : State) (worker : Nat) (epoch : ThreadLocalEpoch) : State :=
  { state with workerEpochs := Function.update state.workerEpochs worker epoch }

end State

end TieredStore.RecordCache
