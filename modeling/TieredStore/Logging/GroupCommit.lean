import TieredStore.ConcurrencyControl.State
import TieredStore.Lib.Transition

/-! Workers that commit transactions and the group committer that acknowledges them. -/

namespace TieredStore.Logging

open ConcurrencyControl (TxIsolationLevel)
open Transition

/-- `FLAGS_wal_rfa`, `FLAGS_wal_tuple_rfa` and `FLAGS_recover`. -/
structure LogConfig where
  workersCount : Nat
  walRfa : Bool
  walTupleRfa : Bool
  recover : Bool
  deriving DecidableEq, Repr

inductive LogEntryType
  | txStart
  | dtSpecific
  | txCommit
  | txAbort
  deriving DecidableEq, Repr

/-- An entry of a worker's log.  `tx` is a ghost, the transaction that it belongs to. -/
structure LogEntry where
  type : LogEntryType
  tx : Nat
  deriving DecidableEq, Repr

/-- What a worker publishes to the group committer.  Offsets count the entries of the
log from its start; how they lie in the buffer is the matter of the ring. -/
structure WorkerToLW where
  lastGsn : Nat
  walWrittenOffset : Nat
  precommittedTxCommitTs : Nat
  deriving DecidableEq, Repr

structure Source where
  worker : Nat
  id : Nat
  startTs : Nat
  commitTs : Nat
  deriving DecidableEq, Repr

/-- A transaction of a worker.  The timestamps stay from one transaction to the next
until they are drawn again.  `id` and `reads` are ghosts: the number of the transaction
and the versions that it read or overwrote. -/
structure LogTx where
  startTs : Nat
  commitTs : Nat
  maxObservedGsn : Nat
  level : TxIsolationLevel
  isReadOnly : Bool
  hasWrote : Bool
  id : Nat
  reads : List Source
  deriving DecidableEq, Repr

inductive LogPc
  | idle
  | syncing
  | loading
  | beginning
  | running
  | prechecking (rest : List (Nat × Nat))
  | precommitting
  | committing
  | logged
  deriving DecidableEq, Repr

/-- The last three fields are ghosts: how many entries of the log have been flushed,
the transactions that passed their precommit, and those set to `COMMITTED`. -/
structure LogWorker where
  pc : LogPc
  tx : LogTx
  log : List LogEntry
  wtToLw : WorkerToLW
  gsnClock : Nat
  rfaGsnFlushed : Nat
  remoteFlushDependency : Bool
  rfaChecks : List (Nat × Nat)
  precommittedQueue : List LogTx
  precommittedQueueRfa : List LogTx
  signaledCommitTs : Nat
  flushed : Nat
  finished : List LogTx
  acknowledged : List LogTx
  deriving DecidableEq, Repr

inductive GctPc
  | cutting (next : Nat)
  | copying (next : Nat)
  | draining (next : Nat)
  | signaling (next signaledUpTo : Nat)
  | publishing
  deriving DecidableEq, Repr

structure GroupCommitter where
  pc : GctPc
  readyToCommitRfaCut : Nat → Nat
  wtToLwCopy : Nat → WorkerToLW
  minAllWorkersGsn : Nat
  maxAllWorkersGsn : Nat
  minAllWorkersHardenedCommitTs : Nat

/-- What a page carries of the last write to it. -/
structure PageGsn where
  gsn : Nat
  lastWriterWorkerId : Nat
  deriving DecidableEq, Repr

structure LogState where
  globalClock : Nat
  globalMinGsnFlushed : Nat
  globalSyncToThisGsn : Nat
  pages : Nat → PageGsn
  workers : Nat → LogWorker
  gct : GroupCommitter

def maxTxid : Nat := 2 ^ 64 - 1

def LogTx.fresh : LogTx := ⟨0, 0, 0, .snapshotIsolation, false, false, 0, []⟩

def LogWorker.fresh : LogWorker :=
  ⟨.idle, .fresh, [], ⟨0, 0, 0⟩, 0, 0, false, [], [], [], 0, 0, [], []⟩

def LogState.fresh : LogState :=
  ⟨256, 0, 0, fun _ => ⟨0, 0⟩, fun _ => .fresh,
    ⟨.cutting 0, fun _ => 0, fun _ => ⟨0, 0, 0⟩, maxTxid, 0, maxTxid⟩⟩

namespace LogState

def setWorker (state : LogState) (worker : Nat) (its : LogWorker) : LogState :=
  { state with workers := Function.update state.workers worker its }

def setPage (state : LogState) (page : Nat) (its : PageGsn) : LogState :=
  { state with pages := Function.update state.pages page its }

end LogState

namespace LogWorker

def submitWALMetaEntry (its : LogWorker) (type : LogEntryType) : LogWorker :=
  { its with
    log := its.log ++ [⟨type, its.tx.id⟩]
    wtToLw :=
      { its.wtToLw with
        walWrittenOffset := its.log.length + 1
        precommittedTxCommitTs := its.tx.startTs } }

def publishMaxGSNOffset (its : LogWorker) : LogWorker :=
  { its with
    wtToLw :=
      { its.wtToLw with walWrittenOffset := its.log.length, lastGsn := its.gsnClock } }

def submitDTEntry (its : LogWorker) : LogWorker :=
  publishMaxGSNOffset { its with log := its.log ++ [⟨.dtSpecific, its.tx.id⟩] }

def setPc (its : LogWorker) (pc : LogPc) : LogWorker := { its with pc := pc }

def startTX (its : LogWorker) (level : TxIsolationLevel) (readOnly : Bool) : LogWorker :=
  let begun : LogWorker :=
    { its with
      pc := .syncing
      tx :=
        { its.tx with
          level := level
          isReadOnly := readOnly
          hasWrote := false
          id := its.tx.id + 1
          reads := [] } }
  if readOnly then begun else begun.submitWALMetaEntry .txStart

/-- The worker's clock is moved up to the point that the last round published. -/
def syncClock (its : LogWorker) (syncPoint : Nat) : LogWorker :=
  if its.gsnClock < syncPoint then publishMaxGSNOffset { its with gsnClock := syncPoint } else its

def syncGSN (its : LogWorker) (config : LogConfig) (me : Nat) (page : PageGsn) : LogWorker :=
  { its with
    remoteFlushDependency :=
      its.remoteFlushDependency ||
        (config.walRfa && decide (its.rfaGsnFlushed < page.gsn) &&
          decide (page.lastWriterWorkerId ≠ me))
    gsnClock := max its.gsnClock page.gsn }

/-- `incrementGSN`: the clock of the worker. -/
def incrementGSN (its : LogWorker) : LogWorker := { its with gsnClock := its.gsnClock + 1 }

/-- `checkLogDepdency`; `signaled` is the mark of the other worker. -/
def checkLogDependency (its : LogWorker) (config : LogConfig) (me other ts signaled : Nat) :
    LogWorker :=
  if config.recover then
    its
  else if its.remoteFlushDependency = false ∧ me ≠ other ∧ signaled < ts then
    { its with rfaChecks := its.rfaChecks ++ [(other, ts)] }
  else
    its

def recordRead (its : LogWorker) (source : Source) : LogWorker :=
  { its with tx := { its.tx with reads := its.tx.reads ++ [source] } }

end LogWorker

/-- The ways to a version that another transaction wrote.  Where the head of the chain
is not visible, an older version is read. -/
inductive AccessPath
  | leafLookup
  | chainedUpdate
  | olderVersion (headWorker headTs : Nat)
  | recordCacheHit
  | scan
  | fatTupleUpdate
  deriving DecidableEq, Repr

/-- The tag that an access hands to `checkLogDepdency`, if it calls it at all. -/
def AccessPath.checkedTag (source : Source) : AccessPath → Option (Nat × Nat)
  | .leafLookup => some (source.worker, source.startTs)
  | .chainedUpdate => some (source.worker, source.startTs)
  | .olderVersion headWorker headTs => some (headWorker, headTs)
  | .recordCacheHit => none
  | .scan => none
  | .fatTupleUpdate => none

def LogTx.source (tx : LogTx) (worker : Nat) : Source :=
  ⟨worker, tx.id, tx.startTs, tx.commitTs⟩

/-- At snapshot isolation a version is visible that was committed before the snapshot,
below it any that is committed. -/
def LogTx.sees (tx : LogTx) (source : Source) : Bool :=
  !tx.level.atLeastSI || decide (source.commitTs < tx.startTs)

/-- The access records the version and what has to be checked at precommit. -/
def LogState.access (state : LogState) (config : LogConfig) (me : Nat) (path : AccessPath)
    (source : Source) : LogWorker :=
  let read := (state.workers me).recordRead source
  match path.checkedTag source with
  | some (other, ts) =>
    read.checkLogDependency config me other ts (state.workers other).signaledCommitTs
  | none => read

/-- The test that a transaction of `precommitted_queue` has to pass. -/
def GroupCommitter.mayCommit (gct : GroupCommitter) (tx : LogTx) : Bool :=
  decide (tx.maxObservedGsn ≤ gct.minAllWorkersGsn) &&
    decide (tx.startTs ≤ gct.minAllWorkersHardenedCommitTs)

namespace LogWorker

variable (its : LogWorker) (gct : GroupCommitter) (worker : Nat)

/-- The transactions that the round sets to `COMMITTED`, of either queue. -/
def committedOfQueue : List LogTx := its.precommittedQueue.takeWhile gct.mayCommit

def committedOfQueueRfa : List LogTx :=
  its.precommittedQueueRfa.take (gct.readyToCommitRfaCut worker)

def drain : LogWorker :=
  { its with
    precommittedQueue := its.precommittedQueue.dropWhile gct.mayCommit
    precommittedQueueRfa := its.precommittedQueueRfa.drop (gct.readyToCommitRfaCut worker)
    acknowledged :=
      its.acknowledged ++ its.committedOfQueue gct ++ its.committedOfQueueRfa gct worker }

end LogWorker

/-- `signaled_up_to` after a queue, of which `committed` has been taken. -/
def lowerSignaled (signaledUpTo : Nat) (committed : List LogTx) : Nat :=
  match committed.getLast? with
  | some last => min signaledUpTo last.commitTs
  | none => signaledUpTo

def LogWorker.signaledUpTo (its : LogWorker) (gct : GroupCommitter) (worker : Nat) : Nat :=
  lowerSignaled (lowerSignaled maxTxid (its.committedOfQueue gct))
    (its.committedOfQueueRfa gct worker)

/-- The mark is stored unless nothing was committed, or only transactions that never
had a commit timestamp. -/
def LogWorker.signal (its : LogWorker) (signaledUpTo : Nat) : LogWorker :=
  if signaledUpTo < maxTxid ∧ 0 < signaledUpTo then
    { its with signaledCommitTs := signaledUpTo }
  else
    its

namespace GroupCommitter

variable (gct : GroupCommitter)

def takeCut (worker length : Nat) : GroupCommitter :=
  { gct with
    pc := .copying worker
    readyToCommitRfaCut := Function.update gct.readyToCommitRfaCut worker length }

def takeCopy (worker : Nat) (copy : WorkerToLW) : GroupCommitter :=
  { gct with
    pc := .cutting (worker + 1)
    wtToLwCopy := Function.update gct.wtToLwCopy worker copy
    maxAllWorkersGsn := max gct.maxAllWorkersGsn copy.lastGsn
    minAllWorkersGsn := min gct.minAllWorkersGsn copy.lastGsn
    minAllWorkersHardenedCommitTs :=
      min gct.minAllWorkersHardenedCommitTs copy.precommittedTxCommitTs }

def setPc (pc : GctPc) : GroupCommitter := { gct with pc := pc }

def restart : GroupCommitter :=
  { gct with
    pc := .cutting 0
    minAllWorkersGsn := maxTxid
    maxAllWorkersGsn := 0
    minAllWorkersHardenedCommitTs := maxTxid }

end GroupCommitter

def LogState.flush (state : LogState) : LogState :=
  { state with
    workers := fun worker =>
      { state.workers worker with
        flushed := (state.gct.wtToLwCopy worker).walWrittenOffset }
    gct := state.gct.setPc (.draining 0) }

inductive LogAction
  | startTX (worker : Nat) (level : TxIsolationLevel) (readOnly : Bool)
  | syncClock (worker : Nat)
  | loadMinGsnFlushed (worker : Nat)
  | drawStartTs (worker : Nat)
  | syncGSN (worker page : Nat)
  | incrementGSN (worker page : Nat)
  | submitDTEntry (worker page : Nat) (marksAsWrite : Bool)
  | access (worker : Nat) (path : AccessPath) (writer index : Nat)
  | readUncommitted (worker writer : Nat)
  | abortTX (worker : Nat)
  | commitTX (worker : Nat)
  | checkDependency (worker : Nat)
  | drawCommitTs (worker : Nat)
  | submitCommit (worker : Nat)
  | pushPrecommitted (worker : Nat)
  | takeCut
  | takeCopy
  | flush
  | drain
  | signal
  | publishMinGsn
  | publishSyncGsn
  deriving DecidableEq, Repr

/-- The entry of a page goes to the log; without `wal_tuple_rfa` the page and the worker
get a new GSN first. -/
def LogState.submitDTEntry (state : LogState) (config : LogConfig) (worker page : Nat)
    (marksAsWrite : Bool) : LogState :=
  let its := state.workers worker
  let marked : LogWorker :=
    { its with tx := { its.tx with hasWrote := its.tx.hasWrote || marksAsWrite } }
  if config.walTupleRfa then
    state.setWorker worker marked.submitDTEntry
  else
    (state.setPage page ⟨its.gsnClock + 1, worker⟩).setWorker worker
      marked.incrementGSN.submitDTEntry

/-- `commitTX` begins: with `wal_tuple_rfa` the recorded dependencies are tested again. -/
def LogWorker.precommit (its : LogWorker) (config : LogConfig) : LogWorker :=
  if config.walTupleRfa then
    { its with pc := .prechecking its.rfaChecks, rfaChecks := [] }
  else
    its.setPc .precommitting

/-- The transaction draws its commit timestamp if it wrote, and is then as the queues
take it. -/
def LogWorker.drawCommitTs (its : LogWorker) (clock : Nat) : LogWorker :=
  let tx : LogTx :=
    { its.tx with
      commitTs := if its.tx.hasWrote then clock else its.tx.commitTs
      maxObservedGsn := its.gsnClock }
  { its with pc := .committing, tx := tx, finished := its.finished ++ [tx] }

def LogState.drawCommitTs (state : LogState) (worker : Nat) : LogState :=
  let its := state.workers worker
  let clock := if its.tx.hasWrote then state.globalClock + 1 else state.globalClock
  { state.setWorker worker (its.drawCommitTs state.globalClock) with globalClock := clock }

/-- At snapshot isolation a start timestamp is drawn; below it the last one is kept. -/
def LogState.drawStartTs (state : LogState) (worker : Nat) : LogState :=
  let its := state.workers worker
  if its.tx.level.atLeastSI then
    { state.setWorker worker
        { its with pc := .running, tx := { its.tx with startTs := state.globalClock } } with
      globalClock := state.globalClock + 1 }
  else
    state.setWorker worker (its.setPc .running)

def LogWorker.pushPrecommitted (its : LogWorker) : LogWorker :=
  if its.remoteFlushDependency then
    { its with pc := .idle, precommittedQueue := its.precommittedQueue ++ [its.tx] }
  else
    { its with pc := .idle, precommittedQueueRfa := its.precommittedQueueRfa ++ [its.tx] }

def workerStep (config : LogConfig) (state : LogState) (worker : Nat) :
    LogAction → Option LogState
  | .startTX _ level readOnly =>
    match (state.workers worker).pc with
    | .idle => some (state.setWorker worker ((state.workers worker).startTX level readOnly))
    | _ => none
  | .syncClock _ =>
    match (state.workers worker).pc with
    | .syncing =>
      some (state.setWorker worker
        (((state.workers worker).syncClock state.globalSyncToThisGsn).setPc .loading))
    | _ => none
  | .loadMinGsnFlushed _ =>
    match (state.workers worker).pc with
    | .loading =>
      some (state.setWorker worker
        { state.workers worker with
          pc := .beginning
          rfaGsnFlushed :=
            if config.walRfa then state.globalMinGsnFlushed
            else (state.workers worker).rfaGsnFlushed
          remoteFlushDependency := !config.walRfa })
    | _ => none
  | .drawStartTs _ =>
    match (state.workers worker).pc with
    | .beginning => some (state.drawStartTs worker)
    | _ => none
  | .syncGSN _ page =>
    match (state.workers worker).pc with
    | .running =>
      some (state.setWorker worker
        ((state.workers worker).syncGSN config worker (state.pages page)))
    | _ => none
  | .incrementGSN _ page =>
    match (state.workers worker).pc with
    | .running =>
      some ((state.setPage page ⟨(state.workers worker).gsnClock + 1, worker⟩).setWorker
        worker (state.workers worker).incrementGSN)
    | _ => none
  | .submitDTEntry _ page marksAsWrite =>
    match (state.workers worker).pc with
    | .running =>
      if marksAsWrite = true ∧ (state.workers worker).tx.isReadOnly = true then none
      else some (state.submitDTEntry config worker page marksAsWrite)
    | _ => none
  | .access _ path writer index =>
    match (state.workers worker).pc, (state.workers writer).finished[index]? with
    | .running, some tx =>
      if tx.hasWrote = true ∧ (state.workers worker).tx.sees (tx.source writer) = true then
        some (state.setWorker worker (state.access config worker path (tx.source writer)))
      else
        none
    | _, _ => none
  | .readUncommitted _ writer =>
    match (state.workers worker).pc with
    | .running =>
      if (state.workers worker).tx.level = .readUncommitted then
        some (state.setWorker worker
          ((state.workers worker).checkLogDependency config worker writer
            (state.workers writer).tx.startTs (state.workers writer).signaledCommitTs))
      else
        none
    | _ => none
  | .abortTX _ =>
    match (state.workers worker).pc with
    | .running =>
      some (state.setWorker worker
        (((state.workers worker).submitWALMetaEntry .txAbort).setPc .idle))
    | _ => none
  | .commitTX _ =>
    match (state.workers worker).pc with
    | .running => some (state.setWorker worker ((state.workers worker).precommit config))
    | _ => none
  | .checkDependency _ =>
    match (state.workers worker).pc with
    | .prechecking [] => some (state.setWorker worker ((state.workers worker).setPc .precommitting))
    | .prechecking ((other, ts) :: rest) =>
      if (state.workers other).signaledCommitTs < ts then
        some (state.setWorker worker
          { state.workers worker with pc := .precommitting, remoteFlushDependency := true })
      else
        some (state.setWorker worker ((state.workers worker).setPc (.prechecking rest)))
    | _ => none
  | .drawCommitTs _ =>
    match (state.workers worker).pc with
    | .precommitting => some (state.drawCommitTs worker)
    | _ => none
  | .submitCommit _ =>
    match (state.workers worker).pc with
    | .committing =>
      some (state.setWorker worker
        (((state.workers worker).submitWALMetaEntry .txCommit).setPc .logged))
    | _ => none
  | .pushPrecommitted _ =>
    match (state.workers worker).pc with
    | .logged => some (state.setWorker worker (state.workers worker).pushPrecommitted)
    | _ => none
  | _ => none

def committerStep (config : LogConfig) (state : LogState) : LogAction → Option LogState
  | .takeCut =>
    match state.gct.pc with
    | .cutting next =>
      if next < config.workersCount then
        some { state with
          gct := state.gct.takeCut next (state.workers next).precommittedQueueRfa.length }
      else
        none
    | _ => none
  | .takeCopy =>
    match state.gct.pc with
    | .copying next =>
      some { state with gct := state.gct.takeCopy next (state.workers next).wtToLw }
    | _ => none
  | .flush =>
    match state.gct.pc with
    | .cutting next => if next = config.workersCount then some state.flush else none
    | _ => none
  | .drain =>
    match state.gct.pc with
    | .draining next =>
      if next < config.workersCount then
        some { state.setWorker next ((state.workers next).drain state.gct next) with
          gct := state.gct.setPc
            (.signaling next ((state.workers next).signaledUpTo state.gct next)) }
      else
        none
    | _ => none
  | .signal =>
    match state.gct.pc with
    | .signaling next signaledUpTo =>
      some { state.setWorker next ((state.workers next).signal signaledUpTo) with
        gct := state.gct.setPc (.draining (next + 1)) }
    | _ => none
  | .publishMinGsn =>
    match state.gct.pc with
    | .draining next =>
      if next = config.workersCount then
        some { state with
          globalMinGsnFlushed := state.gct.minAllWorkersGsn
          gct := state.gct.setPc .publishing }
      else
        none
    | _ => none
  | .publishSyncGsn =>
    match state.gct.pc with
    | .publishing =>
      some { state with
        globalSyncToThisGsn := state.gct.maxAllWorkersGsn
        gct := state.gct.restart }
    | _ => none
  | _ => none

def LogAction.worker? : LogAction → Option Nat
  | .startTX worker _ _ | .syncClock worker | .loadMinGsnFlushed worker | .drawStartTs worker
  | .syncGSN worker _ | .incrementGSN worker _ | .submitDTEntry worker _ _
  | .access worker _ _ _ | .readUncommitted worker _ | .abortTX worker | .commitTX worker
  | .checkDependency worker | .drawCommitTs worker | .submitCommit worker
  | .pushPrecommitted worker => some worker
  | .takeCut | .takeCopy | .flush | .drain | .signal | .publishMinGsn | .publishSyncGsn => none

def logStep (config : LogConfig) (state : LogState) (action : LogAction) : Option LogState :=
  match action.worker? with
  | some worker =>
    if worker < config.workersCount then workerStep config state worker action else none
  | none => committerStep config state action

abbrev LogReaches (config : LogConfig) (allowed : LogState → LogAction → Prop) :
    LogState → Prop :=
  Reachable (logStep config) (fun state => state = LogState.fresh) allowed

/-- A transaction below snapshot isolation has no fresh start timestamp: it is put into
`precommitted_queue_rfa` only. -/
def PushesFreshTs (s : LogState) : LogAction → Prop
  | .pushPrecommitted w =>
    (s.workers w).tx.level.atLeastSI = true ∨
      (s.workers w).remoteFlushDependency = false
  | _ => True

instance (state : LogState) : DecidablePred (PushesFreshTs state) := fun action => by
  cases action <;> dsimp only [PushesFreshTs] <;> infer_instance

def PushesInOrder (s : LogState) : LogAction → Prop
  | .pushPrecommitted w =>
    ((s.workers w).remoteFlushDependency = true →
        (s.workers w).precommittedQueueRfa = []) ∧
      ((s.workers w).remoteFlushDependency = false →
        (s.workers w).precommittedQueue = [])
  | _ => True

instance (state : LogState) : DecidablePred (PushesInOrder state) := fun action => by
  cases action <;> dsimp only [PushesInOrder] <;> infer_instance

def AtSnapshotIsolation : LogAction → Prop
  | .startTX _ level _ => level.atLeastSI = true
  | _ => True

/-- An access hands the tag of the version to `checkLogDepdency`, which does not return at
once, or the version is the worker's own, or the mark of its worker covers it already. -/
def ChecksVersion (config : LogConfig) (s : LogState) : LogAction → Prop
  | .access w path writer i =>
    ∀ tx ∈ (s.workers writer).finished[i]?, config.recover = false ∧
      path.checkedTag (tx.source writer) = some (writer, tx.startTs) ∨
        w = writer ∨ tx.startTs ≤ (s.workers writer).signaledCommitTs
  | _ => True

instance : DecidablePred AtSnapshotIsolation := fun action => by
  cases action <;> dsimp only [AtSnapshotIsolation] <;> infer_instance

instance (config : LogConfig) (state : LogState) : DecidablePred (ChecksVersion config state) :=
  fun action => by
  cases action <;> dsimp only [ChecksVersion] <;> infer_instance

def beginActions (worker : Nat) (level : TxIsolationLevel) : List LogAction :=
  [.startTX worker level false, .syncClock worker, .loadMinGsnFlushed worker, .drawStartTs worker]

def commitActions (worker checks : Nat) : List LogAction :=
  .commitTX worker :: List.replicate checks (.checkDependency worker) ++
    [.drawCommitTs worker, .submitCommit worker, .pushPrecommitted worker]

def roundActions (workersCount : Nat) : List LogAction :=
  (List.replicate workersCount [.takeCut, .takeCopy]).flatten ++ .flush ::
    (List.replicate workersCount [.drain, .signal]).flatten ++ [.publishMinGsn, .publishSyncGsn]

end TieredStore.Logging
