import TieredStore.ConcurrencyControl.CommitTree

/-!
The state that the workers of the transaction manager share, and a program
counter for each of them.  A program counter names a point between two accesses
to shared state.
-/

namespace TieredStore.ConcurrencyControl

abbrev Bytes := List UInt8

structure Config where
  workersCount : Nat
  olapMode : Bool

inductive TxIsolationLevel
  | readUncommitted
  | readCommitted
  | snapshotIsolation
  | serializable
  deriving DecidableEq, Repr

def TxIsolationLevel.atLeastSI : TxIsolationLevel → Bool
  | .snapshotIsolation => true
  | .serializable => true
  | _ => false

/-- A start timestamp, or a commit timestamp marked by the most significant bit. -/
structure TxTs where
  isCommitTs : Bool
  ts : Nat
  deriving DecidableEq, Repr

/-- A word of `global_workers_current_snapshot`: a timestamp and the bits above it. -/
structure SnapshotWord where
  ts : Nat
  latchBit : Bool
  rcBit : Bool
  olapBit : Bool
  deriving DecidableEq, Repr

/-- A version of a tuple.  `writer` is a ghost: the transaction that wrote it. -/
structure Version where
  workerId : Nat
  txTs : Nat
  value : Bytes
  isRemoved : Bool
  writer : Nat
  deriving DecidableEq, Repr

/-- The active transaction of a worker.  `id` is a ghost that tells transactions
apart; the log holds the keys it changed, newest first. -/
structure Transaction where
  startTs : Nat
  commitTs : Nat
  level : TxIsolationLevel
  isOlap : Bool
  isReadOnly : Bool
  hasWrote : Bool
  id : Nat
  wal : List Bytes
  deriving DecidableEq, Repr

inductive AfterRefresh
  | takeSnapshot
  | clean
  | finish
  deriving DecidableEq, Repr

inductive RefreshStage
  | scanning (next newestOlap oldestOltp oldestTx : Nat)
  | comparing (next allLwm oltpLwm : Nat) (skippedAWorker : Bool)
  | computing (next allLwm oltpLwm : Nat) (skippedAWorker : Bool)
  | sending (next itsAllLwm itsOltpLwm allLwm oltpLwm : Nat) (skippedAWorker : Bool)
  deriving DecidableEq, Repr

inductive WorkerPc
  | idle
  | switchingToSI
  | switchingToRC
  | beforeRefresh (after : AfterRefresh)
  | refreshing (after : AfterRefresh) (stage : RefreshStage)
  | snapshotting
  | latched
  | drawn
  | beforeClean
  | cleaning (next : Nat) (set : List (Nat × Nat))
  | loadingLwm
  | running
  | reading (key : Bytes) (versions : List Version)
  | aborting
  | committed (commitTs : Nat)
  deriving DecidableEq, Repr

def WorkerPc.inTransaction : WorkerPc → Bool
  | .drawn => true
  | .beforeClean => true
  | .cleaning _ _ => true
  | .loadingLwm => true
  | .running => true
  | .reading _ _ => true
  | .aborting => true
  | _ => false

/-- `history` is a ghost: every pair the worker ever added to its commit tree. -/
structure WorkerState where
  pc : WorkerPc
  tx : Transaction
  commitTree : CommitTree
  history : List (Nat × Nat)
  snapshotCache : Nat → Nat
  snapshotCacheTs : Nat → Nat
  globalAllLwmCache : Nat
  latestWriteTx : Nat
  latestLwmForTx : Nat
  allLwmReceiver : Nat
  oltpLwmReceiver : Nat

inductive Outcome
  | committed
  | aborted
  deriving DecidableEq, Repr

structure State where
  globalClock : Nat
  currentSnapshot : Nat → SnapshotWord
  globalMutex : Option Nat
  oldestAllStartTs : Nat
  oldestOltpStartTs : Nat
  newestOlapStartTs : Nat
  allLwm : Nat
  oltpLwm : Nat
  workers : Nat → WorkerState
  tuples : Bytes → List Version
  nextTransaction : Nat
  outcome : Nat → Option Outcome

namespace State

def setWorker (state : State) (worker : Nat) (its : WorkerState) : State :=
  { state with workers := Function.update state.workers worker its }

def setPc (state : State) (worker : Nat) (pc : WorkerPc) : State :=
  state.setWorker worker { state.workers worker with pc := pc }

def setSnapshot (state : State) (worker : Nat) (word : SnapshotWord) : State :=
  { state with currentSnapshot := Function.update state.currentSnapshot worker word }

def HasSnapshot (s : State) (w : Nat) : Prop :=
  (s.workers w).tx.level.atLeastSI = true ∧ (s.workers w).pc.inTransaction = true

end State

def State.cacheSnapshot (state : State) (me other startTs forTs : Nat) : State :=
  state.setWorker me
    { state.workers me with
      snapshotCache := Function.update (state.workers me).snapshotCache other startTs
      snapshotCacheTs := Function.update (state.workers me).snapshotCacheTs other forTs }

/--
`isVisibleForMe`.  Below snapshot isolation the clock is read, as `currentTs`,
before the other worker's commit tree is locked, and `explainWhen` stops the process in place
of the answer that the version is not visible.
-/
def isVisibleForMe (state : State) (me other : Nat) (txTs : TxTs) (toWrite : Bool)
    (currentTs : Nat) : Option Bool × State :=
  let my := state.workers me
  if toWrite = false ∧ my.tx.level = .readUncommitted then
    (some true, state)
  else if me = other then
    (some true, state)
  else if my.tx.level = .readCommitted ∨ my.tx.level = .readUncommitted then
    if txTs.isCommitTs then
      (some true, state)
    else if txTs.ts ≤ my.snapshotCache other then
      (some true, state)
    else
      let largestVisible := (state.workers other).commitTree.lcb currentTs
      (if txTs.ts ≤ largestVisible then some true else none,
        state.cacheSnapshot me other largestVisible currentTs)
  else
    if txTs.isCommitTs then
      (some (decide (txTs.ts < my.tx.startTs)), state)
    else if txTs.ts < my.globalAllLwmCache then
      (some true, state)
    else if my.snapshotCacheTs other = my.tx.startTs then
      (some (decide (txTs.ts ≤ my.snapshotCache other)), state)
    else if txTs.ts ≤ my.snapshotCache other then
      (some true, state)
    else
      let largestVisible := (state.workers other).commitTree.lcb my.tx.startTs
      if largestVisible ≠ 0 then
        (some (decide (txTs.ts ≤ largestVisible)),
          state.cacheSnapshot me other largestVisible my.tx.startTs)
      else
        (some false, state)

end TieredStore.ConcurrencyControl
