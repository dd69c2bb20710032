import TieredStore.Logging.WorkerLog

namespace TieredStore.Logging

open ConcurrencyControl (TxIsolationLevel)
open Transition Function List LogWorker

variable {cfg : LogConfig} {s s' : LogState} {a action : LogAction}
  {its its' : LogWorker} {clock mark : Nat} {gct : GroupCommitter}

def LogWorker.current (its : LogWorker) : List LogTx :=
  match its.pc with
  | .committing => [its.tx]
  | .logged => [its.tx]
  | _ => []

def LogWorker.pending (its : LogWorker) : List LogTx :=
  its.precommittedQueue ++ its.precommittedQueueRfa ++ its.current

/-- Commit timestamps grow; a reader has that of the last writer before it. -/
def LogTx.Follows (earlier later : LogTx) : Prop :=
  earlier.commitTs ≤ later.commitTs ∧ (later.hasWrote = true → earlier.commitTs < later.commitTs)

structure MarkInv (mark : Nat) (its : LogWorker) : Prop where
  below : ∀ tx ∈ its.pending, mark ≤ tx.commitTs ∧ (tx.hasWrote = true → mark < tx.commitTs)
  latest : mark ≤ its.tx.commitTs

structure PendingInv (its : LogWorker) (clock : Nat) : Prop where
  one : its.precommittedQueue = [] ∨ its.precommittedQueueRfa = []
  ordered : its.pending.Pairwise LogTx.Follows
  latest : ∀ tx ∈ its.pending, tx.commitTs ≤ its.tx.commitTs
  clock : its.tx.commitTs < clock
  finished : ∀ tx ∈ its.finished, tx ∈ its.acknowledged ∨ tx ∈ its.pending
  signaled : MarkInv its.signaledCommitTs its

structure SamePending (its its' : LogWorker) : Prop where
  queue : its'.precommittedQueue = its.precommittedQueue
  queueRfa : its'.precommittedQueueRfa = its.precommittedQueueRfa
  current : its'.current = its.current
  commitTs : its'.tx.commitTs = its.tx.commitTs
  finished : its'.finished = its.finished
  acknowledged : its'.acknowledged = its.acknowledged
  signaled : its'.signaledCommitTs = its.signaledCommitTs

theorem SamePending.pending (same : SamePending its its') : its'.pending = its.pending := by
  unfold LogWorker.pending
  rw [same.queue, same.queueRfa, same.current]

theorem MarkInv.of_same (inv : MarkInv mark its) (same : SamePending its its') :
    MarkInv mark its' where
  below := by
    rw [same.pending]
    exact inv.below
  latest := by
    rw [same.commitTs]
    exact inv.latest

theorem PendingInv.of_same (inv : PendingInv its clock) (same : SamePending its its') :
    PendingInv its' clock where
  one := by
    rw [same.queue, same.queueRfa]
    exact inv.one
  ordered := by
    rw [same.pending]
    exact inv.ordered
  latest := by
    rw [same.pending, same.commitTs]
    exact inv.latest
  clock := by
    rw [same.commitTs]
    exact inv.clock
  finished := by
    rw [same.finished, same.acknowledged, same.pending]
    exact inv.finished
  signaled := by
    rw [same.signaled]
    exact inv.signaled.of_same same

theorem PendingInv.clock_mono {later : Nat} (inv : PendingInv its clock) (le : clock ≤ later) :
    PendingInv its later :=
  { inv with clock := lt_of_lt_of_le inv.clock le }

theorem pending_drawCommitTs (pc : its.pc = .precommitting) (now : Nat) :
    (its.drawCommitTs now).pending = its.pending ++ [(its.drawCommitTs now).tx] := by
  have none : its.current = [] := by simp [current, pc]
  unfold pending
  rw [none, append_nil]
  rfl

theorem commitTs_drawCommitTs (below : its.tx.commitTs < clock) :
    its.tx.commitTs ≤ (its.drawCommitTs clock).tx.commitTs ∧
      ((its.drawCommitTs clock).tx.hasWrote = true →
        its.tx.commitTs < (its.drawCommitTs clock).tx.commitTs) := by
  unfold drawCommitTs
  split
  · exact ⟨le_of_lt below, fun _ => below⟩
  · exact ⟨le_refl _, fun wrote => absurd wrote ‹_›⟩

theorem MarkInv.drawCommitTs (inv : MarkInv mark its) (pc : its.pc = .precommitting)
    (below : its.tx.commitTs < clock) : MarkInv mark (its.drawCommitTs clock) := by
  obtain ⟨le, wrote⟩ := commitTs_drawCommitTs below
  refine ⟨?_, le_trans inv.latest le⟩
  rw [pending_drawCommitTs pc]
  exact forall_mem_append.mpr ⟨inv.below, forall_mem_singleton.mpr
    ⟨le_trans inv.latest le, fun has => lt_of_le_of_lt inv.latest (wrote has)⟩⟩

theorem PendingInv.drawCommitTs (inv : PendingInv its clock) (pc : its.pc = .precommitting) :
    PendingInv (its.drawCommitTs clock) (if its.tx.hasWrote then clock + 1 else clock) := by
  obtain ⟨le, wrote⟩ := commitTs_drawCommitTs inv.clock
  have pending := pending_drawCommitTs pc clock
  refine ⟨inv.one, ?_, ?_, ?_, ?_, inv.signaled.drawCommitTs pc inv.clock⟩
  · rw [pending, pairwise_append]
    refine ⟨inv.ordered, pairwise_singleton _ _, fun tx mem => forall_mem_singleton.mpr ?_⟩
    have before := inv.latest tx mem
    exact ⟨le_trans before le, fun has => lt_of_le_of_lt before (wrote has)⟩
  · rw [pending]
    exact forall_mem_append.mpr ⟨fun tx old => le_trans (inv.latest tx old) le,
      forall_mem_singleton.mpr (le_refl _)⟩
  · have below := inv.clock
    unfold LogWorker.drawCommitTs
    dsimp only
    split <;> omega
  · intro tx mem
    rw [pending]
    rcases mem_append.mp mem with old | new
    · exact (inv.finished tx old).imp_right (mem_append_left _)
    · exact .inr (mem_append_right _ new)

theorem pending_pushPrecommitted {w : Nat} (pc : (s.workers w).pc = .logged)
    (inOrder : PushesInOrder s (.pushPrecommitted w)) :
    (s.workers w).pushPrecommitted.pending = (s.workers w).pending := by
  have current : (s.workers w).current = [(s.workers w).tx] := by
    simp [current, pc]
  unfold pushPrecommitted pending
  rw [current]
  cases dependency : (s.workers w).remoteFlushDependency with
  | true => simp [inOrder.1 dependency, LogWorker.current]
  | false => simp [LogWorker.current]

theorem MarkInv.pushPrecommitted {w : Nat} (inv : MarkInv mark (s.workers w))
    (pc : (s.workers w).pc = .logged) (inOrder : PushesInOrder s (.pushPrecommitted w)) :
    MarkInv mark (s.workers w).pushPrecommitted where
  below := by
    rw [pending_pushPrecommitted pc inOrder]
    exact inv.below
  latest := by
    unfold LogWorker.pushPrecommitted
    split <;> exact inv.latest

theorem PendingInv.pushPrecommitted {w : Nat}
    (inv : PendingInv (s.workers w) clock) (pc : (s.workers w).pc = .logged)
    (inOrder : PushesInOrder s (.pushPrecommitted w)) :
    PendingInv (s.workers w).pushPrecommitted clock := by
  have pending := pending_pushPrecommitted pc inOrder
  have signaled := inv.signaled.pushPrecommitted pc inOrder
  have rest : (s.workers w).pushPrecommitted.tx = (s.workers w).tx ∧
      (s.workers w).pushPrecommitted.finished = (s.workers w).finished ∧
      (s.workers w).pushPrecommitted.acknowledged = (s.workers w).acknowledged ∧
      (s.workers w).pushPrecommitted.signaledCommitTs =
        (s.workers w).signaledCommitTs := by
    unfold LogWorker.pushPrecommitted
    split <;> exact ⟨rfl, rfl, rfl, rfl⟩
  obtain ⟨tx, finished, acknowledged, mark⟩ := rest
  refine ⟨?_, pending ▸ inv.ordered, ?_, ?_, ?_, ?_⟩
  · unfold LogWorker.pushPrecommitted
    cases dependency : (s.workers w).remoteFlushDependency with
    | true => exact .inr (inOrder.1 dependency)
    | false => exact .inl (inOrder.2 dependency)
  · rw [pending, tx]
    exact inv.latest
  · rw [tx]
    exact inv.clock
  · rw [finished, acknowledged, pending]
    exact inv.finished
  · rw [mark]
    exact signaled

theorem current_eq_nil (stage : its.pc.stage ≠ .committing ∧ its.pc.stage ≠ .logged) :
    its.current = [] := by
  unfold current
  split
  · rename_i pc
    exact absurd (congrArg LogPc.stage pc) stage.1
  · rename_i pc
    exact absurd (congrArg LogPc.stage pc) stage.2
  · rfl

theorem SameLog.samePending (same : SameLog its its') (before : its.pc.stage = .active)
    (pc : its'.pc = its.pc) : SamePending its its' where
  queue := same.queue
  queueRfa := same.queueRfa
  current := by
    have none : its'.current = [] := current_eq_nil (by simp [pc, before])
    rw [none, current_eq_nil (by simp [before])]
  commitTs := same.commitTs
  finished := same.finished
  acknowledged := same.acknowledged
  signaled := same.signaled

theorem WorkerStep.samePending {w : Nat} (moved : WorkerStep cfg s w a its' clock) :
    SamePending (s.workers w) its' ∨ (its' = (s.workers w).drawCommitTs s.globalClock ∧
        (s.workers w).pc = .precommitting ∧
        clock = if (s.workers w).tx.hasWrote then s.globalClock + 1 else s.globalClock) ∨
      (its' = (s.workers w).pushPrecommitted ∧
        (s.workers w).pc = .logged ∧ a = .pushPrecommitted w) := by
  have quiet : ∀ {pc : LogPc}, (s.workers w).pc = pc →
      pc.stage ≠ .committing ∧ pc.stage ≠ .logged → (s.workers w).current = [] := by
    intro pc isPc stage
    exact current_eq_nil (isPc ▸ stage)
  cases moved with
  | startTX pc =>
    refine .inl ?_
    unfold LogWorker.startTX
    split <;> exact ⟨rfl, rfl, (quiet pc (by simp [LogPc.stage])).symm, rfl, rfl, rfl, rfl⟩
  | syncClock pc =>
    refine .inl ?_
    unfold LogWorker.syncClock
    split <;> exact ⟨rfl, rfl, (quiet pc (by simp [LogPc.stage])).symm, rfl, rfl, rfl, rfl⟩
  | loadMinGsnFlushed pc | drawStartTs pc | keepStartTs pc | abortTX pc | checksDone pc
  | checkFails pc | checkPasses pc =>
    exact .inl ⟨rfl, rfl, (quiet pc (by simp [LogPc.stage])).symm, rfl, rfl, rfl, rfl⟩
  | submitCommit pc => exact .inl ⟨rfl, rfl, by rw [current, current, pc]; rfl, rfl, rfl, rfl, rfl⟩
  | syncGSN | incrementGSN => exact .inl ⟨rfl, rfl, rfl, rfl, rfl, rfl, rfl⟩
  | submitDTEntry pc =>
    refine .inl ⟨rfl, rfl, ?_, rfl, rfl, rfl, rfl⟩
    rw [quiet pc (by simp [LogPc.stage])]
    exact current_eq_nil (by simp [LogWorker.submitDTEntry, publishMaxGSNOffset, pc,
      LogPc.stage])
  | access pc => exact .inl ((sameLog_access ..).samePending (pc ▸ rfl) (pc_access ..))
  | readUncommitted pc =>
    exact .inl ((sameLog_checkLogDependency ..).samePending (pc ▸ rfl) (pc_checkLogDependency ..))
  | commitTX pc =>
    refine .inl ?_
    unfold precommit
    split <;> exact ⟨rfl, rfl, (quiet pc (by simp [LogPc.stage])).symm, rfl, rfl, rfl, rfl⟩
  | drawCommitTs pc => exact .inr (.inl ⟨rfl, pc, rfl⟩)
  | pushPrecommitted pc => exact .inr (.inr ⟨rfl, pc, rfl⟩)

theorem PendingInv.step {w : Nat} (inv : PendingInv (s.workers w) s.globalClock)
    (inOrder : PushesInOrder s a)
    (moved : WorkerStep cfg s w a its' clock) : PendingInv its' clock := by
  rcases moved.samePending with same | ⟨rfl, pc, rfl⟩ | ⟨rfl, pc, rfl⟩
  · exact (inv.of_same same).clock_mono moved.clock_le
  · exact inv.drawCommitTs pc
  · exact (inv.pushPrecommitted pc inOrder).clock_mono moved.clock_le

theorem MarkInv.step {w : Nat} (inv : MarkInv mark (s.workers w))
    (below : (s.workers w).tx.commitTs < s.globalClock) (inOrder : PushesInOrder s a)
    (moved : WorkerStep cfg s w a its' clock) : MarkInv mark its' := by
  rcases moved.samePending with same | ⟨rfl, pc, rfl⟩ | ⟨rfl, pc, rfl⟩
  · exact inv.of_same same
  · exact inv.drawCommitTs pc below
  · exact inv.pushPrecommitted pc inOrder

theorem WorkerStep.signaled {w : Nat} (moved : WorkerStep cfg s w a its' clock) :
    its'.signaledCommitTs = (s.workers w).signaledCommitTs := by
  rcases moved.samePending with same | ⟨rfl, _⟩ | ⟨rfl, _⟩
  · exact same.signaled
  · rfl
  · unfold LogWorker.pushPrecommitted
    split <;> rfl

theorem pending_drain (inv : PendingInv its clock) (gct : GroupCommitter) (w : Nat) :
    its.pending = its.committedOfQueue gct ++ its.committedOfQueueRfa gct w ++
      (its.drain gct w).pending := by
  have current : (its.drain gct w).current = its.current := rfl
  unfold pending
  rw [current]
  unfold committedOfQueue committedOfQueueRfa drain
  rcases inv.one with empty | empty
  · rw [empty, takeWhile_nil, dropWhile_nil, nil_append, nil_append,
      nil_append, ← append_assoc, take_append_drop]
  · rw [empty, take_nil, drop_nil, append_nil, append_nil, append_nil,
      ← append_assoc, takeWhile_append_dropWhile]

theorem lowerSignaled_spec {committed : List LogTx}
    (stored : lowerSignaled maxTxid committed < maxTxid) :
    ∃ earlier last, committed = earlier ++ [last] ∧
      lowerSignaled maxTxid committed = last.commitTs := by
  rcases eq_nil_or_concat committed with rfl | ⟨earlier, last, rfl⟩
  · exact absurd stored (lt_irrefl _)
  · refine ⟨earlier, last, concat_eq_append, ?_⟩
    simp only [lowerSignaled, concat_eq_append, getLast?_concat] at stored ⊢
    omega

theorem signaledUpTo_spec {w : Nat} (inv : PendingInv its clock)
    (stored : its.signaledUpTo gct w < maxTxid) :
    ∃ earlier last, its.committedOfQueue gct ++ its.committedOfQueueRfa gct w =
      earlier ++ [last] ∧ its.signaledUpTo gct w = last.commitTs := by
  unfold signaledUpTo at *
  rcases inv.one with empty | empty
  · have none : its.committedOfQueue gct = [] := by
      rw [committedOfQueue, empty, takeWhile_nil]
    rw [none] at stored ⊢
    exact lowerSignaled_spec stored
  · have none : its.committedOfQueueRfa gct w = [] := by
      rw [committedOfQueueRfa, empty, take_nil]
    rw [none] at stored ⊢
    rw [append_nil]
    exact lowerSignaled_spec stored

theorem MarkInv.drain {w : Nat} (inv : MarkInv mark its)
    (pending : PendingInv its clock) : MarkInv mark (its.drain gct w) where
  below tx mem := by
    apply inv.below
    rw [pending_drain pending gct w]
    exact mem_append_right _ mem
  latest := inv.latest

theorem PendingInv.drain {w : Nat} (inv : PendingInv its clock) :
    PendingInv (its.drain gct w) clock := by
  have split := pending_drain inv gct w
  refine ⟨?_, ?_, ?_, inv.clock, ?_, inv.signaled.drain inv⟩
  · rcases inv.one with empty | empty
    · exact .inl (by rw [LogWorker.drain, empty, dropWhile_nil])
    · exact .inr (by rw [LogWorker.drain, empty, drop_nil])
  · have ordered := inv.ordered
    rw [split, pairwise_append] at ordered
    exact ordered.2.1
  · intro tx mem
    apply inv.latest
    rw [split]
    exact mem_append_right _ mem
  · intro tx mem
    unfold LogWorker.drain
    rcases inv.finished tx mem with acknowledged | waits
    · exact .inl (mem_append_left _ (mem_append_left _ acknowledged))
    · rw [split, mem_append] at waits
      rcases waits with committed | waits
      · rw [append_assoc]
        exact .inl (mem_append_right _ committed)
      · exact .inr waits

theorem signaledUpTo_mark {w : Nat} (inv : PendingInv its clock)
    (stored : its.signaledUpTo gct w < maxTxid) :
    its.signaledCommitTs ≤ its.signaledUpTo gct w ∧
      MarkInv (its.signaledUpTo gct w) (its.drain gct w) := by
  obtain ⟨_, last, committed, isLast⟩ := signaledUpTo_spec inv stored
  have split := pending_drain inv gct w
  rw [committed] at split
  have mem : last ∈ its.pending := by simp [split]
  rw [isLast]
  refine ⟨(inv.signaled.below last mem).1, ?_, inv.latest last mem⟩
  have ordered := inv.ordered
  rw [split, pairwise_append] at ordered
  intro tx waits
  exact ordered.2.2 last (by simp) tx waits

structure SignalInv (s : LogState) : Prop where
  workers : ∀ w, PendingInv (s.workers w) s.globalClock
  signaling : ∀ w signaledUpTo, s.gct.pc = .signaling w signaledUpTo → signaledUpTo < maxTxid →
    (s.workers w).signaledCommitTs ≤ signaledUpTo ∧ MarkInv signaledUpTo (s.workers w)

namespace SignalInv

variable (inv : SignalInv s)
include inv

theorem worker {w : Nat} {pages : Nat → PageGsn} (inOrder : PushesInOrder s a)
    (moved : WorkerStep cfg s w a its' clock) :
    SignalInv
      { s with
        globalClock := clock
        pages := pages
        workers := update s.workers w its' } := by
  refine ⟨?_, ?_⟩
  · apply (forall_update_iff s.workers fun _ its => PendingInv its clock).mpr
    exact ⟨(inv.workers w).step inOrder moved, fun other _ =>
      (inv.workers other).clock_mono moved.clock_le⟩
  · apply (forall_update_iff s.workers fun other its =>
      ∀ signaledUpTo, s.gct.pc = .signaling other signaledUpTo → signaledUpTo < maxTxid →
        its.signaledCommitTs ≤ signaledUpTo ∧ MarkInv signaledUpTo its).mpr
    refine ⟨?_, fun other _ => inv.signaling other⟩
    intro signaledUpTo pc stored
    have before := inv.signaling w signaledUpTo pc stored
    rw [moved.signaled]
    exact ⟨before.1, before.2.step (inv.workers w).clock inOrder moved⟩

theorem signal {next signaledUpTo : Nat} (pc : s.gct.pc = .signaling next signaledUpTo) :
    PendingInv ((s.workers next).signal signaledUpTo) s.globalClock := by
  unfold LogWorker.signal
  split
  · rename_i stored
    obtain ⟨_, mark⟩ := inv.signaling next signaledUpTo pc stored.1
    have before := inv.workers next
    exact ⟨before.one, before.ordered, before.latest, before.clock, before.finished,
      ⟨mark.below, mark.latest⟩⟩
  · exact inv.workers next

theorem committer (moved : CommitterStep cfg s a s') : SignalInv s' := by
  cases moved with
  | takeCut => exact ⟨inv.workers, by simp [GroupCommitter.takeCut]⟩
  | takeCopy => exact ⟨inv.workers, by simp [GroupCommitter.takeCopy]⟩
  | flush =>
    refine ⟨?_, by simp [LogState.flush, GroupCommitter.setPc]⟩
    intro w
    exact (inv.workers w).of_same ⟨rfl, rfl, rfl, rfl, rfl, rfl, rfl⟩
  | @drain next pc below =>
    refine ⟨?_, ?_⟩
    · apply (forall_update_iff s.workers fun _ its => PendingInv its s.globalClock).mpr
      exact ⟨(inv.workers next).drain, fun other _ => inv.workers other⟩
    · intro w signaledUpTo isPc stored
      cases isPc
      change (update s.workers next _ next).signaledCommitTs ≤ _ ∧
        MarkInv _ (update s.workers next _ next)
      rw [update_self]
      exact signaledUpTo_mark (inv.workers next) stored
  | signal pc =>
    refine ⟨?_, by simp [GroupCommitter.setPc]⟩
    apply (forall_update_iff s.workers fun _ its => PendingInv its s.globalClock).mpr
    exact ⟨inv.signal pc, fun other _ => inv.workers other⟩
  | publishMinGsn => exact ⟨inv.workers, by simp [GroupCommitter.setPc]⟩
  | publishSyncGsn => exact ⟨inv.workers, by simp [GroupCommitter.restart]⟩

theorem step (inOrder : PushesInOrder s a) (taken : logStep cfg s a = some s') : SignalInv s' := by
  cases logStep_cases taken with
  | worker _ moved => exact inv.worker inOrder moved
  | committer moved => exact inv.committer moved

theorem signaled_mono (taken : logStep cfg s a = some s') (w : Nat) :
    (s.workers w).signaledCommitTs ≤ (s'.workers w).signaledCommitTs := by
  cases logStep_cases taken with
  | worker below moved =>
    revert w
    apply (forall_update_iff s.workers fun other its =>
      (s.workers other).signaledCommitTs ≤ its.signaledCommitTs).mpr
    exact ⟨le_of_eq moved.signaled.symm, fun other _ => le_refl _⟩
  | committer moved =>
    cases moved with
    | takeCut | takeCopy | flush | publishMinGsn | publishSyncGsn => exact le_refl _
    | drain =>
      revert w
      apply (forall_update_iff s.workers fun other its =>
        (s.workers other).signaledCommitTs ≤ its.signaledCommitTs).mpr
      exact ⟨le_refl _, fun other _ => le_refl _⟩
    | @signal next signaledUpTo pc =>
      revert w
      apply (forall_update_iff s.workers fun other its =>
        (s.workers other).signaledCommitTs ≤ its.signaledCommitTs).mpr
      refine ⟨?_, fun other _ => le_refl _⟩
      unfold LogWorker.signal
      split
      · rename_i stored
        exact (inv.signaling next signaledUpTo pc stored.1).1
      · exact le_refl _

end SignalInv

theorem pendingInv_fresh : PendingInv fresh 256 := by
  refine ⟨.inl rfl, .nil, ?_, by decide, ?_, ?_, by decide⟩
  · intro tx mem
    contradiction
  · intro tx mem
    contradiction
  · intro tx mem
    contradiction

theorem signalInv_of_reaches (reached : LogReaches cfg PushesInOrder s) : SignalInv s := by
  apply reached.invariant SignalInv
  · intro s fresh
    subst fresh
    refine ⟨fun _ => pendingInv_fresh, ?_⟩
    intro _ _ pc
    contradiction
  · intro s a s' inv inOrder taken
    exact inv.step inOrder taken

/-- In every state reached while a worker uses a queue only when its other queue is
empty: no next step lowers `signaled_commit_ts`, and every writer up to it has been set
to `COMMITTED`. -/
theorem signaledCommitTs_marks_acknowledged {config : LogConfig} {state : LogState}
    (reached : LogReaches config PushesInOrder state) (worker : Nat) :
    (∀ action state', logStep config state action = some state' →
        (state.workers worker).signaledCommitTs ≤ (state'.workers worker).signaledCommitTs) ∧
      ∀ tx ∈ (state.workers worker).finished, tx.hasWrote = true →
        tx.commitTs ≤ (state.workers worker).signaledCommitTs →
        tx ∈ (state.workers worker).acknowledged := by
  have inv := signalInv_of_reaches reached
  refine ⟨fun action state' taken => inv.signaled_mono taken worker, ?_⟩
  intro tx member wrote marked
  refine ((inv.workers worker).finished tx member).resolve_right ?_
  intro waits
  have above := ((inv.workers worker).signaled.below tx waits).2 wrote
  omega

theorem signaledCommitTs_marks_acknowledged_round :
    ∃ state, LogReaches ⟨1, true, true, false⟩ PushesInOrder state ∧
      (state.workers 0).signaledCommitTs = 257 ∧
      ∀ tx ∈ (state.workers 0).finished, tx.hasWrote = true →
        tx.commitTs ≤ (state.workers 0).signaledCommitTs →
        tx ∈ (state.workers 0).acknowledged := by
  let actions := beginActions 0 .snapshotIsolation ++ [.submitDTEntry 0 7 true] ++
    commitActions 0 1 ++ roundActions 1
  obtain ⟨state, ran, signaled⟩ : ∃ state,
      run (logStep ⟨1, true, true, false⟩) LogState.fresh actions = some state ∧
        (state.workers 0).signaledCommitTs = 257 := ⟨_, rfl, rfl⟩
  have start : LogReaches ⟨1, true, true, false⟩ PushesInOrder LogState.fresh := .start rfl
  have permitted : AllowedAlong (logStep ⟨1, true, true, false⟩) PushesInOrder LogState.fresh
      actions := by decide
  have reached := start.run_of_allowed permitted ran
  exact ⟨state, reached, signaled, (signaledCommitTs_marks_acknowledged reached 0).2⟩

/-- Worker 0 puts a writer that depends on worker 1 into `precommitted_queue` and then
an independent one into `precommitted_queue_rfa`.  The round that acknowledges only the
second sets the mark to its commit timestamp 261, above that of the first, 259; once
worker 1 has moved on, the first is acknowledged and the mark falls to 259. -/
theorem signaledCommitTs_skips_and_falls :
    ∃ skipped fallen : LogState,
      LogReaches ⟨2, true, true, false⟩ (fun _ _ => True) skipped ∧
      (skipped.workers 0).signaledCommitTs = 261 ∧
      (skipped.workers 0).acknowledged.map LogTx.commitTs = [261] ∧
      (skipped.workers 0).precommittedQueue.map LogTx.commitTs = [259] ∧
      LogReaches ⟨2, true, true, false⟩ (fun _ _ => True) fallen ∧
      (fallen.workers 0).acknowledged.map LogTx.commitTs = [261, 259] ∧
      (fallen.workers 0).signaledCommitTs = 259 := by
  let before := beginActions 1 .snapshotIsolation ++ [.submitDTEntry 1 7 true] ++
    commitActions 1 1 ++ beginActions 0 .snapshotIsolation ++
    [.access 0 .leafLookup 1 0, .submitDTEntry 0 8 true] ++ commitActions 0 1 ++
    beginActions 0 .snapshotIsolation ++ [.submitDTEntry 0 8 true] ++ commitActions 0 1 ++
    roundActions 2
  let after := beginActions 1 .snapshotIsolation ++ [.submitDTEntry 1 7 true] ++
    commitActions 1 1 ++ roundActions 2
  obtain ⟨skipped, fallen, ran, signaled, acknowledged, waits, ranOn, both, falls⟩ :
      ∃ skipped fallen,
        run (logStep ⟨2, true, true, false⟩) LogState.fresh before = some skipped ∧
        (skipped.workers 0).signaledCommitTs = 261 ∧
        (skipped.workers 0).acknowledged.map LogTx.commitTs = [261] ∧
        (skipped.workers 0).precommittedQueue.map LogTx.commitTs = [259] ∧
        run (logStep ⟨2, true, true, false⟩) skipped after = some fallen ∧
        (fallen.workers 0).acknowledged.map LogTx.commitTs = [261, 259] ∧
        (fallen.workers 0).signaledCommitTs = 259 :=
    ⟨_, _, rfl, rfl, rfl, rfl, rfl, rfl, rfl⟩
  have start : LogReaches ⟨2, true, true, false⟩ (fun _ _ => True) LogState.fresh := .start rfl
  have reached := start.run_of_forall (fun _ _ _ => trivial) ran
  have reachedOn := reached.run_of_forall (fun _ _ _ => trivial) ranOn
  exact ⟨skipped, fallen, reached, signaled, acknowledged, waits, reachedOn, both, falls⟩

end TieredStore.Logging
