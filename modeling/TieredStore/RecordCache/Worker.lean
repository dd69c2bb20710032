import TieredStore.RecordCache.State

/-!
Workers: transactions over one `BTreeVI`, with the leaf latch held exclusively
from before the record cache is invalidated until the slot is rewritten, and
the roll-back of an aborted transaction, which does not touch the cache.
-/

namespace TieredStore.RecordCache

inductive WorkerAction
  | startTX (startTs : Nat)
  | latch (op : WorkerOp) (key : Bytes) (position : Nat)
  | touch (key : Bytes)
  | enterEpoch
  | select
  | loadType
  | casType
  | readEpoch
  | push
  | leaveEpoch
  | write (signal : Bool)
  | unlatch
  | commitTX
  | abortTX
  | undoNext
  | abortDone
  | lookup (key : Bytes) (chain : List Addr) (isVisibleForMe : Nat → Nat → Bool)

/-- `generateXORDiff` and `applyXORDiff` over the whole value. -/
def xorDiff (value other : Bytes) : Bytes :=
  List.zipWith (· ^^^ ·) value other

structure VersionTag where
  workerId : Nat
  txTs : Nat
  writer : Nat

def ChainedTuple.withTag (tuple : ChainedTuple) (tag : VersionTag) :
    ChainedTuple :=
  { tuple with workerId := tag.workerId, txTs := tag.txTs, writer := tag.writer }

def ChainedTuple.updated (tuple : ChainedTuple) (value : Bytes) (tag : VersionTag) : ChainedTuple :=
  (tuple.overwrite value).withTag tag

/-- A removed tuple keeps its slot; only a value longer than one byte is cut. -/
def ChainedTuple.removed (tuple : ChainedTuple) (tag : VersionTag) :
    ChainedTuple :=
  { tuple.withTag tag with
    payloadLength := if tuple.payloadLength > 1 then 0 else tuple.payloadLength
    isRemoved := true }

def ChainedTuple.inserted (value : Bytes) (tag : VersionTag) : ChainedTuple where
  payload := value
  payloadLength := value.length
  workerId := tag.workerId
  txTs := tag.txTs
  isRemoved := false
  writer := tag.writer

/-- `BTreeVI::undo` on the slot that holds the entry's key. -/
def ChainedTuple.undone (tuple : ChainedTuple) : WalEntry → ChainedTuple
  | .insert _ => tuple
  | .update _ diff workerId txTs writer =>
    tuple.updated (xorDiff tuple.value diff) ⟨workerId, txTs, writer⟩
  | .remove _ value workerId txTs writer =>
    { (tuple.updated value ⟨workerId, txTs, writer⟩) with
      payloadLength := value.length
      isRemoved := false }

namespace LeafSection

def rewrite (leafSection : LeafSection) (tag : VersionTag)
    (slots : List LeafSlot) : List LeafSlot :=
  match leafSection.op with
  | .insert value =>
    slots.insertIdx leafSection.slot
      ⟨leafSection.key, ChainedTuple.inserted value tag⟩
  | .undo (.insert _) => slots.eraseIdx leafSection.slot
  | .undo entry =>
    slots.modify leafSection.slot fun slot =>
      { slot with tuple := slot.tuple.undone entry }
  | .update value =>
    slots.modify leafSection.slot fun slot =>
      { slot with tuple := slot.tuple.updated value tag }
  | .remove =>
    slots.modify leafSection.slot fun slot =>
      { slot with tuple := slot.tuple.removed tag }

/-- The log after the section: one record more, or one fewer after an undo. -/
def logged (leafSection : LeafSection) (slot : Option LeafSlot)
    (wal : List WalEntry) : List WalEntry :=
  match leafSection.op, slot with
  | .insert _, _ => .insert leafSection.key :: wal
  | .undo _, _ => wal.tail
  | .update value, some slot =>
    .update leafSection.key (xorDiff slot.tuple.value value) slot.tuple.workerId
      slot.tuple.txTs slot.tuple.writer :: wal
  | .remove, some slot =>
    .remove leafSection.key slot.tuple.value slot.tuple.workerId
      slot.tuple.txTs slot.tuple.writer :: wal
  | _, none => wal

/-- Updates and removes call `tryUpdateAndInvalidateRecordCache`; inserts and
undos do not. -/
def invalidates (leafSection : LeafSection) : Bool :=
  match leafSection.op with
  | .update _ => true
  | .remove => true
  | _ => false

def mayWrite (leafSection : LeafSection) : WorkerStage → Bool
  | .latched => !leafSection.invalidates
  | .ready _ => leafSection.invalidates
  | _ => false

def maySignal (leafSection : LeafSection) : WorkerStage → Bool
  | .ready rcInvalidated =>
    match leafSection.op with
    | .update _ => rcInvalidated
    | _ => false
  | _ => false

end LeafSection

/-- Seek the key in the leaf the tree routes it to, for an operation that found
no conflict. -/
def Leaves.seek (leaves : Leaves) (op : WorkerOp) (key : Bytes)
    (position : Nat) : Option LeafSection :=
  let frame := leaves.frames (leaves.route key)
  if frame.state = .hot ∧ frame.isExclusivelyLatched = false then
    match op, frame.slotOf key with
    | .insert value, none =>
      if position ≤ frame.slots.length then
        some ⟨.insert value, key, leaves.route key, position⟩
      else
        none
    | .insert _, some _ => none
    | _, none => none
    | .update value, some slot =>
      match frame.slots[slot]? with
      | some found =>
        if value.length = found.tuple.payloadLength then
          some ⟨.update value, key, leaves.route key, slot⟩
        else
          none
      | none => none
    | .remove, some slot =>
      match frame.slots[slot]? with
      | some found =>
        if found.tuple.isRemoved then
          none
        else
          some ⟨.remove, key, leaves.route key, slot⟩
      | none => none
    | .undo entry, some slot =>
      some ⟨.undo entry, key, leaves.route key, slot⟩
  else
    none

def Leaves.bumpVersion (leaves : Leaves) (frame amount : Nat) : Leaves :=
  leaves.setFrame frame
    { leaves.frames frame with version := (leaves.frames frame).version + amount }

/-- Where `signalDirectUpdatePromote` sends the promote thread. -/
def directUpdateRequest (config : Config) (leafSection : LeafSection)
    (frame : BufferFrame) : PromoteRequestMessage where
  key := config.buildPrefixedKey leafSection.key
  bf := leafSection.frame
  pid := frame.pid
  slotId := leafSection.slot
  keyLength := (config.buildPrefixedKey leafSection.key).length
  valueLength :=
    match frame.slots[leafSection.slot]? with
    | some slot => slot.tuple.payloadLength
    | none => 0
  isDirectUpdate := true

def workerStep (config : Config) (state : State) (worker : Nat) :
    WorkerAction → Option State
  | .startTX startTs =>
    if state.workers worker = .idle ∧
        (state.transactions worker).active = false then
      some { state.setTransaction worker
          ⟨true, false, state.nextTransaction, startTs, []⟩ with
        nextTransaction := state.nextTransaction + 1 }
    else
      none
  | .latch op key position =>
    match op, state.workers worker, state.leaves.seek op key position with
    | .undo _, _, _ => none
    | _, .idle, some leafSection =>
      if (state.transactions worker).active ∧
          (state.transactions worker).aborting = false then
        some { state.setWorker worker (.busy leafSection .latched) with
          leaves := state.leaves.bumpVersion leafSection.frame 1 }
      else
        none
    | _, _, _ => none
  | .touch key =>
    let frame := state.leaves.frames (state.leaves.route key)
    if state.workers worker = .idle ∧ frame.isExclusivelyLatched = false then
      some { state with
        leaves := state.leaves.bumpVersion (state.leaves.route key) 2 }
    else
      none
  | .enterEpoch =>
    match state.workers worker with
    | .busy leafSection .latched =>
      if leafSection.invalidates then
        some ((state.setEpoch worker ⟨state.globalEpoch, true⟩).setWorker worker
          (.busy leafSection .entered))
      else
        none
    | _ => none
  | .select =>
    match state.workers worker with
    | .busy leafSection .entered =>
      let key := config.buildPrefixedKey leafSection.key
      if state.shardMutex (config.shardOf key) = none then
        let head := state.memory.table key
        let stage := match (state.memory.findFirstUpdatableEntry head).target with
          | none => WorkerStage.leaving false
          | some target => .selected target
        some { state.setWorker worker (.busy leafSection stage) with
          memory := state.memory.afterSearch head }
      else
        none
    | _ => none
  | .loadType =>
    match state.workers worker with
    | .busy leafSection (.selected target) =>
      if state.memory.typeOf target = .readOnlyMode then
        some (state.setWorker worker (.busy leafSection (.loaded target)))
      else
        some (state.setWorker worker (.busy leafSection (.leaving false)))
    | _ => none
  | .casType =>
    match state.workers worker with
    | .busy leafSection (.loaded target) =>
      if state.memory.typeOf target = .readOnlyMode then
        some { state.setWorker worker
            (.busy leafSection (.invalidated target)) with
          memory := state.memory.setType target
            .logicallyDeletedButStillInHashTable }
      else
        some (state.setWorker worker (.busy leafSection (.leaving false)))
    | _ => none
  | .readEpoch =>
    match state.workers worker with
    | .busy leafSection (.invalidated target) =>
      some (state.setWorker worker (.busy leafSection (.queueing target state.globalEpoch)))
    | _ => none
  | .push =>
    match state.workers worker with
    | .busy leafSection (.queueing target epoch) =>
      some { state.setWorker worker (.busy leafSection (.leaving true)) with
        invalidationQueue := state.invalidationQueue ++ [⟨target, epoch⟩] }
    | _ => none
  | .leaveEpoch =>
    match state.workers worker with
    | .busy leafSection (.leaving rcInvalidated) =>
      some ((state.setEpoch worker
          { state.workerEpochs worker with active := false }).setWorker worker
        (.busy leafSection (.ready rcInvalidated)))
    | _ => none
  | .write signal =>
    match state.workers worker with
    | .busy leafSection stage =>
      if leafSection.mayWrite stage ∧ (signal → leafSection.maySignal stage) then
        let tx := state.transactions worker
        let frame := state.leaves.frames leafSection.frame
        let tag : VersionTag := ⟨worker, tx.startTs, tx.id⟩
        some { (state.setWorker worker (.busy leafSection .written)).setTransaction
            worker
            { tx with
              wal := leafSection.logged frame.slots[leafSection.slot]? tx.wal } with
          leaves := state.leaves.setFrame leafSection.frame
            { frame with slots := leafSection.rewrite tag frame.slots }
          requests := if signal then
              state.requests ++ [directUpdateRequest config leafSection frame]
            else
              state.requests }
      else
        none
    | _ => none
  | .unlatch =>
    match state.workers worker with
    | .busy leafSection .written =>
      some { state.setWorker worker .idle with
        leaves := state.leaves.bumpVersion leafSection.frame 1 }
    | _ => none
  | .commitTX =>
    let tx := state.transactions worker
    if state.workers worker = .idle ∧ tx.active ∧ tx.aborting = false then
      some { state.setTransaction worker { tx with active := false } with
        outcome := Function.update state.outcome tx.id (some .committed) }
    else
      none
  | .abortTX =>
    let tx := state.transactions worker
    if state.workers worker = .idle ∧ tx.active ∧ tx.aborting = false then
      some (state.setTransaction worker { tx with aborting := true })
    else
      none
  | .undoNext =>
    let tx := state.transactions worker
    match state.workers worker, tx.wal with
    | .idle, entry :: _ =>
      if tx.active ∧ tx.aborting then
        match state.leaves.seek (.undo entry) entry.key 0 with
        | some leafSection =>
          some { state.setWorker worker (.busy leafSection .latched) with
            leaves := state.leaves.bumpVersion leafSection.frame 1 }
        | none => none
      else
        none
    | _, _ => none
  | .abortDone =>
    let tx := state.transactions worker
    if state.workers worker = .idle ∧ tx.active ∧ tx.aborting ∧ tx.wal = [] then
      some { state.setTransaction worker
          { tx with active := false, aborting := false } with
        outcome := Function.update state.outcome tx.id (some .aborted) }
    else
      none
  | .lookup key chain isVisibleForMe =>
    let cacheKey := config.buildPrefixedKey key
    if state.workers worker = .idle ∧
        state.shardMutex (config.shardOf cacheKey) = none ∧
        state.memory.ChainOf cacheKey chain then
      let memory := match state.memory.firstVisible isVisibleForMe chain with
        | some entry => state.memory.setVisited entry true
        | none => state.memory
      some { state.setEpoch worker ⟨state.globalEpoch, false⟩ with
        memory := memory }
    else
      none

def State.tagOf (state : State) (worker : Nat) : VersionTag :=
  ⟨worker, (state.transactions worker).startTs, (state.transactions worker).id⟩

inductive WorkerStep (cfg : Config) (s : State) (w : Nat) :
    WorkerAction → State → Prop
  | startTX {startTs} (pc : s.workers w = .idle) (inactive : (s.transactions w).active = false) :
    WorkerStep cfg s w (.startTX startTs)
      { s.setTransaction w
          ⟨true, false, s.nextTransaction, startTs, []⟩ with
        nextTransaction := s.nextTransaction + 1 }
  | latch {op key position sect} (pc : s.workers w = .idle) (forward : ∀ e, op ≠ .undo e)
    (found : s.leaves.seek op key position = some sect) (active : (s.transactions w).active = true)
    (running : (s.transactions w).aborting = false) :
    WorkerStep cfg s w (.latch op key position)
      { s.setWorker w (.busy sect .latched) with
        leaves := s.leaves.bumpVersion sect.frame 1 }
  | touch {key} (pc : s.workers w = .idle)
    (unlatched : (s.leaves.frames (s.leaves.route key)).isExclusivelyLatched = false) :
    WorkerStep cfg s w (.touch key)
      { s with
        leaves := s.leaves.bumpVersion (s.leaves.route key) 2 }
  | enterEpoch {sect} (pc : s.workers w = .busy sect .latched)
    (invalidates : sect.invalidates = true) :
    WorkerStep cfg s w .enterEpoch
      ((s.setEpoch w ⟨s.globalEpoch, true⟩).setWorker w
        (.busy sect .entered))
  | selectNone {sect} (pc : s.workers w = .busy sect .entered)
    (free : s.shardMutex (cfg.shardOf (cfg.buildPrefixedKey sect.key)) = none)
    (missed : (s.memory.findFirstUpdatableEntry (s.memory.table
      (cfg.buildPrefixedKey sect.key))).target = none) :
    WorkerStep cfg s w .select
      { s.setWorker w (.busy sect (.leaving false)) with
        memory := s.memory.afterSearch (s.memory.table
          (cfg.buildPrefixedKey sect.key)) }
  | select {sect target} (pc : s.workers w = .busy sect .entered)
    (free : s.shardMutex (cfg.shardOf (cfg.buildPrefixedKey sect.key)) = none)
    (found : (s.memory.findFirstUpdatableEntry (s.memory.table
      (cfg.buildPrefixedKey sect.key))).target = some target) :
    WorkerStep cfg s w .select
      { s.setWorker w (.busy sect (.selected target)) with
        memory := s.memory.afterSearch (s.memory.table
          (cfg.buildPrefixedKey sect.key)) }
  | loadType {sect target} (pc : s.workers w = .busy sect (.selected target))
    (type : s.memory.typeOf target = .readOnlyMode) :
    WorkerStep cfg s w .loadType
      (s.setWorker w (.busy sect (.loaded target)))
  | loadOther {sect target} (pc : s.workers w = .busy sect (.selected target))
    (type : s.memory.typeOf target ≠ .readOnlyMode) :
    WorkerStep cfg s w .loadType
      (s.setWorker w (.busy sect (.leaving false)))
  | casType {sect target} (pc : s.workers w = .busy sect (.loaded target))
    (type : s.memory.typeOf target = .readOnlyMode) :
    WorkerStep cfg s w .casType
      { s.setWorker w (.busy sect (.invalidated target)) with
        memory := s.memory.setType target
          .logicallyDeletedButStillInHashTable }
  | casFails {sect target} (pc : s.workers w = .busy sect (.loaded target))
    (type : s.memory.typeOf target ≠ .readOnlyMode) :
    WorkerStep cfg s w .casType
      (s.setWorker w (.busy sect (.leaving false)))
  | readEpoch {sect target} (pc : s.workers w = .busy sect (.invalidated target)) :
    WorkerStep cfg s w .readEpoch
      (s.setWorker w (.busy sect (.queueing target s.globalEpoch)))
  | push {sect target epoch} (pc : s.workers w = .busy sect (.queueing target epoch)) :
    WorkerStep cfg s w .push
      { s.setWorker w (.busy sect (.leaving true)) with
        invalidationQueue := s.invalidationQueue ++ [⟨target, epoch⟩] }
  | leaveEpoch {sect rcInvalidated} (pc : s.workers w = .busy sect (.leaving rcInvalidated)) :
    WorkerStep cfg s w .leaveEpoch
      ((s.setEpoch w
          { s.workerEpochs w with active := false }).setWorker w
        (.busy sect (.ready rcInvalidated)))
  | write {signal sect stage} (pc : s.workers w = .busy sect stage)
    (mayWrite : sect.mayWrite stage = true)
    (maySignal : signal = true → sect.maySignal stage = true) :
    WorkerStep cfg s w (.write signal)
      { (s.setWorker w (.busy sect .written)).setTransaction
          w
          { s.transactions w with
            wal := sect.logged
              (s.leaves.frames sect.frame).slots[sect.slot]?
              (s.transactions w).wal } with
        leaves := s.leaves.setFrame sect.frame
          { s.leaves.frames sect.frame with
            slots := sect.rewrite (s.tagOf w)
              (s.leaves.frames sect.frame).slots }
        requests := if signal = true then
            s.requests ++ [directUpdateRequest cfg sect
              (s.leaves.frames sect.frame)]
          else
            s.requests }
  | unlatch {sect} (pc : s.workers w = .busy sect .written) :
    WorkerStep cfg s w .unlatch
      { s.setWorker w .idle with
        leaves := s.leaves.bumpVersion sect.frame 1 }
  | commitTX (pc : s.workers w = .idle) (active : (s.transactions w).active = true)
    (running : (s.transactions w).aborting = false) :
    WorkerStep cfg s w .commitTX
      { s.setTransaction w
          { s.transactions w with active := false } with
        outcome := Function.update s.outcome (s.transactions w).id
          (some .committed) }
  | abortTX (pc : s.workers w = .idle) (active : (s.transactions w).active = true)
    (running : (s.transactions w).aborting = false) :
    WorkerStep cfg s w .abortTX
      (s.setTransaction w { s.transactions w with aborting := true })
  | undoNext {e rest sect} (pc : s.workers w = .idle) (next : (s.transactions w).wal = e :: rest)
    (active : (s.transactions w).active = true) (aborting : (s.transactions w).aborting = true)
    (found : s.leaves.seek (.undo e) e.key 0 = some sect) :
    WorkerStep cfg s w .undoNext
      { s.setWorker w (.busy sect .latched) with
        leaves := s.leaves.bumpVersion sect.frame 1 }
  | abortDone (pc : s.workers w = .idle) (active : (s.transactions w).active = true)
    (aborting : (s.transactions w).aborting = true) (undone : (s.transactions w).wal = []) :
    WorkerStep cfg s w .abortDone
      { s.setTransaction w
          { s.transactions w with
            active := false, aborting := false } with
        outcome := Function.update s.outcome (s.transactions w).id
          (some .aborted) }
  | lookupHit {key chain isVisibleForMe e} (pc : s.workers w = .idle)
    (free : s.shardMutex (cfg.shardOf (cfg.buildPrefixedKey key)) = none)
    (walked : s.memory.ChainOf (cfg.buildPrefixedKey key) chain)
    (found : s.memory.firstVisible isVisibleForMe chain = some e) :
    WorkerStep cfg s w (.lookup key chain isVisibleForMe)
      { s.setEpoch w ⟨s.globalEpoch, false⟩ with
        memory := s.memory.setVisited e true }
  | lookupMiss {key chain isVisibleForMe} (pc : s.workers w = .idle)
    (free : s.shardMutex (cfg.shardOf (cfg.buildPrefixedKey key)) = none)
    (walked : s.memory.ChainOf (cfg.buildPrefixedKey key) chain)
    (missed : s.memory.firstVisible isVisibleForMe chain = none) :
    WorkerStep cfg s w (.lookup key chain isVisibleForMe)
      (s.setEpoch w ⟨s.globalEpoch, false⟩)

theorem workerStep_cases {cfg : Config} {s s' : State} {w : Nat} {a : WorkerAction}
    (taken : workerStep cfg s w a = some s') : WorkerStep cfg s w a s' := by
  cases a with
  | write signal =>
    simp only [workerStep] at taken
    split at taken
    · rename_i sect stage pc
      split at taken
      · rename_i guards
        simp only [Option.some.injEq] at taken
        exact taken ▸ .write pc guards.1 guards.2
      · simp at taken
    · simp at taken
  | latch op key position =>
    simp only [workerStep] at taken
    split at taken
    · simp at taken
    · rename_i sect forward pc found
      split at taken
      · rename_i guards
        simp only [Option.some.injEq] at taken
        refine taken ▸ .latch pc ?_ found guards.1 guards.2
        exact forward
      · simp at taken
    · simp at taken
  | lookup key chain isVisibleForMe =>
    simp only [workerStep] at taken
    split at taken
    · rename_i guards
      obtain ⟨pc, free, walked⟩ := guards
      cases found : s.memory.firstVisible isVisibleForMe chain with
      | none =>
        simp only [found, Option.some.injEq] at taken
        exact taken ▸ .lookupMiss pc free walked found
      | some =>
        simp only [found, Option.some.injEq] at taken
        exact taken ▸ .lookupHit pc free walked found
    · simp at taken
  | select =>
    simp only [workerStep] at taken
    split at taken
    · rename_i sect pc
      split at taken
      · rename_i free
        cases found : (s.memory.findFirstUpdatableEntry (s.memory.table
            (cfg.buildPrefixedKey sect.key))).target with
        | none =>
          simp only [found, Option.some.injEq] at taken
          exact taken ▸ .selectNone pc free found
        | some target =>
          simp only [found, Option.some.injEq] at taken
          exact taken ▸ .select pc free found
      · simp at taken
    · simp at taken
  | _ =>
    simp only [workerStep] at taken
    repeat' split at taken
    all_goals
      simp only [Option.some.injEq, reduceCtorEq] at taken
    all_goals
      subst taken
      constructor <;> first | assumption | simp_all

end TieredStore.RecordCache
