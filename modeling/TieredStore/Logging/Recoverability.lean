import TieredStore.Logging.Hardening

/-!
An acknowledged transaction is recoverable: the transactions whose versions it read or overwrote
have been flushed.
-/

namespace TieredStore.Logging

open ConcurrencyControl (TxIsolationLevel)
open Transition Function List LogState LogWorker

variable {cfg : LogConfig} {s s' state' : LogState} {a action : LogAction}
  {its its' : LogWorker} {clock : Nat} {copy : WorkerToLW} {tx : LogTx} {source : Source}
  {next : Nat}

/-- At snapshot isolation each transaction of a worker starts after the one before it has
its commit timestamp; the mark is the commit timestamp of an acknowledged one. -/
structure OrderInv (its : LogWorker) (clock : Nat) : Prop where
  level : its.tx.level.atLeastSI = true
  levels : ∀ tx ∈ its.finished, tx.level.atLeastSI = true
  positive : ∀ tx ∈ its.finished, 0 < tx.startTs
  writers : ∀ tx ∈ its.finished, tx.hasWrote = true → tx.startTs < tx.commitTs
  below : its.tx.commitTs < clock ∧ ∀ tx ∈ its.finished, tx.commitTs < clock
  started : its.pc.stage = .active → ∀ tx ∈ its.finished, tx.commitTs < its.tx.startTs
  ordered : ∀ earlier ∈ its.finished, ∀ later ∈ its.finished,
    earlier.id < later.id → earlier.commitTs < later.startTs
  signaled : its.signaledCommitTs = 0 ∨ ∃ tx ∈ its.acknowledged, its.signaledCommitTs = tx.commitTs

namespace OrderInv

section

variable (inv : OrderInv its clock)
include inv

theorem clock_mono {later : Nat} (le : clock ≤ later) : OrderInv its later :=
  { inv with
    below := ⟨lt_of_lt_of_le inv.below.1 le,
      fun tx mem => lt_of_lt_of_le (inv.below.2 tx mem) le⟩ }

theorem of_same (level : its'.tx.level.atLeastSI = true)
    (startTs : its'.tx.startTs = its.tx.startTs) (commitTs : its'.tx.commitTs = its.tx.commitTs)
    (finished : its'.finished = its.finished) (acknowledged : its'.acknowledged = its.acknowledged)
    (signaled : its'.signaledCommitTs = its.signaledCommitTs)
    (stage : its'.pc.stage = .active → its.pc.stage = .active) : OrderInv its' clock where
  level := level
  levels := finished ▸ inv.levels
  positive := finished ▸ inv.positive
  writers := finished ▸ inv.writers
  below := by
    rw [commitTs, finished]
    exact inv.below
  started active := by
    rw [finished, startTs]
    exact inv.started (stage active)
  ordered := finished ▸ inv.ordered
  signaled := by
    rw [signaled, acknowledged]
    exact inv.signaled

theorem of_sameLog (same : SameLog its its')
    (before : its.pc.stage = .active) : OrderInv its' clock :=
  inv.of_same (by rw [same.level, inv.level]) same.startTs same.commitTs same.finished
    same.acknowledged same.signaled fun _ => before

theorem drawStartTs :
    OrderInv { its with pc := .running, tx := { its.tx with startTs := clock } } (clock + 1) :=
  { inv.clock_mono (Nat.le_succ clock) with started := fun _ => inv.below.2 }

theorem drawCommitTs (w : WorkerInv its clock copy) (pc : its.pc = .precommitting) :
    OrderInv (its.drawCommitTs clock) (if its.tx.hasWrote then clock + 1 else clock) := by
  have active : its.pc.stage = .active := by rw [pc, LogPc.stage]
  have unpublished := w.unpublished (.inl active) inv.level
  have startBelow := w.startBelow
  have earlier := w.earlier (.inr active)
  have started := inv.started active
  have commitTs : (its.drawCommitTs clock).tx.commitTs <
      if its.tx.hasWrote then clock + 1 else clock := by
    have below := inv.below.1
    unfold LogWorker.drawCommitTs
    dsimp only
    split <;> omega
  exact
    { level := inv.level
      levels := forall_mem_append.mpr ⟨inv.levels, forall_mem_singleton.mpr inv.level⟩
      positive := forall_mem_append.mpr ⟨inv.positive,
        forall_mem_singleton.mpr (lt_of_le_of_lt (Nat.zero_le _) unpublished)⟩
      writers := by
        intro tx mem wrote
        rcases mem_append.mp mem with old | new
        · exact inv.writers tx old wrote
        · rw [mem_singleton.mp new] at wrote ⊢
          have wrote : its.tx.hasWrote = true := wrote
          simpa [wrote] using startBelow
      below := by
        refine ⟨commitTs, forall_mem_append.mpr ⟨fun tx old => ?_,
          forall_mem_singleton.mpr commitTs⟩⟩
        have below := inv.below.2 tx old
        split <;> omega
      started := by simp [LogWorker.drawCommitTs, LogPc.stage]
      ordered := by
        intro first firstMember second secondMember lt
        rcases mem_append.mp secondMember with old | new
        · rcases mem_append.mp firstMember with firstOld | firstNew
          · exact inv.ordered first firstOld second old lt
          · rw [mem_singleton.mp firstNew] at lt
            exact absurd lt (Nat.not_lt_of_lt (earlier second old))
        · rw [mem_singleton.mp new] at lt ⊢
          rcases mem_append.mp firstMember with firstOld | firstNew
          · exact started first firstOld
          · rw [mem_singleton.mp firstNew] at lt
            exact absurd lt (lt_irrefl _)
      signaled := inv.signaled }

end

theorem step {w : Nat} (inv : OrderInv (s.workers w) s.globalClock)
    (workerInv : WorkerInv (s.workers w) s.globalClock copy) (si : AtSnapshotIsolation a)
    (moved : WorkerStep cfg s w a its' clock) : OrderInv its' clock := by
  cases moved with
  | startTX =>
    unfold startTX
    split <;> exact inv.of_same si rfl rfl rfl rfl rfl (by
      simp [submitWALMetaEntry, LogPc.stage])
  | syncClock =>
    unfold syncClock
    split <;> exact inv.of_same inv.level rfl rfl rfl rfl rfl (by
      simp [setPc, LogPc.stage])
  | loadMinGsnFlushed => exact inv.of_same inv.level rfl rfl rfl rfl rfl (by simp [LogPc.stage])
  | drawStartTs => exact inv.drawStartTs
  | keepStartTs pc level =>
    rw [inv.level] at level
    contradiction
  | syncGSN | incrementGSN | submitDTEntry =>
    exact inv.of_same inv.level rfl rfl rfl rfl rfl fun active => active
  | access pc => exact inv.of_sameLog (sameLog_access ..) (pc ▸ rfl)
  | readUncommitted pc => exact inv.of_sameLog (sameLog_checkLogDependency ..) (pc ▸ rfl)
  | abortTX | submitCommit => exact inv.of_same inv.level rfl rfl rfl rfl rfl (by
    simp [setPc, LogPc.stage])
  | commitTX pc =>
    unfold precommit
    split <;> exact inv.of_same inv.level rfl rfl rfl rfl rfl fun _ => pc ▸ rfl
  | checksDone pc | checkFails pc | checkPasses pc =>
    exact inv.of_same inv.level rfl rfl rfl rfl rfl fun _ => pc ▸ rfl
  | drawCommitTs pc => exact inv.drawCommitTs workerInv pc
  | pushPrecommitted =>
    unfold pushPrecommitted
    split <;> exact inv.of_same inv.level rfl rfl rfl rfl rfl (by simp [LogPc.stage])

end OrderInv

theorem hardened_of_signaled (inv : OrderInv its clock)
    (w : WorkerInv its clock copy) (mem : tx ∈ its.finished)
    (signaled : tx.startTs ≤ its.signaledCommitTs) : Hardened its.log tx.id its.flushed := by
  have positive := inv.positive tx mem
  obtain ⟨last, acknowledged, _⟩ := inv.signaled.resolve_left (by omega)
  obtain ⟨lastMember, hardened⟩ := w.acknowledged last acknowledged
  have le : tx.id ≤ last.id := by
    by_contra after
    have before := inv.ordered last lastMember tx mem (Nat.lt_of_not_le after)
    omega
  rcases w.finished tx mem with ⟨committing, rfl⟩ | itself
  · -- the acknowledged transaction would be the one that has no TX_COMMIT entry yet
    have same : last.id = its.tx.id := by
      rcases w.ids last lastMember with lt | ⟨same, _⟩ <;> omega
    obtain ⟨_, _, found, _⟩ := hardened
    rw [same] at found
    exact absurd (mem_of_getElem? found) (w.uncommitted (by simp [committing]))
  · exact hardened.of_le w.sorted le itself

def Known (s : LogState) (source : Source) : Prop :=
  ∃ tx ∈ (s.workers source.worker).finished, tx.hasWrote = true ∧ tx.source source.worker = source

def Durable (s : LogState) (source : Source) : Prop :=
  Hardened (s.workers source.worker).log source.id (s.workers source.worker).flushed

def LogWorker.checks (its : LogWorker) : List (Nat × Nat) :=
  match its.pc with
  | .running => its.rfaChecks
  | .prechecking rest => rest
  | _ => []

structure ReadInv (known durable : Source → Prop) (w : Nat) (its : LogWorker) : Prop where
  fresh : its.pc.stage = .starting → its.tx.reads = []
  visible : its.pc.stage ≠ .idle → ∀ source ∈ its.tx.reads,
    known source ∧ source.commitTs < its.tx.startTs
  covered : its.pc.stage ≠ .idle → ∀ source ∈ its.tx.reads,
    source.worker = w ∨ its.remoteFlushDependency = true ∨
      (source.worker, source.startTs) ∈ its.checks ∨ durable source
  queue : ∀ tx ∈ its.precommittedQueue, ∀ source ∈ tx.reads,
    known source ∧ source.commitTs < tx.startTs
  queueRfa : ∀ tx ∈ its.precommittedQueueRfa, ∀ source ∈ tx.reads,
    source.worker = w ∨ durable source
  acknowledged : ∀ tx ∈ its.acknowledged, ∀ source ∈ tx.reads, source.worker = w ∨ durable source

namespace ReadInv

variable {known durable known' durable' : Source → Prop} {w : Nat}
  (inv : ReadInv known durable w its)
include inv

theorem mono (knows : ∀ source, known source → known' source)
    (hardens : ∀ source, durable source → durable' source) :
    ReadInv known' durable' w its where
  fresh := inv.fresh
  visible stage source mem := (inv.visible stage source mem).imp_left (knows source)
  covered stage source mem :=
    (inv.covered stage source mem).imp_right
      (Or.imp_right (Or.imp_right (hardens source)))
  queue tx mem source read := (inv.queue tx mem source read).imp_left (knows source)
  queueRfa tx mem source read := (inv.queueRfa tx mem source read).imp_right (hardens source)
  acknowledged tx mem source read :=
    (inv.acknowledged tx mem source read).imp_right (hardens source)

theorem of_same (reads : its'.tx.reads = its.tx.reads) (startTs : its'.tx.startTs = its.tx.startTs)
    (fresh : its'.pc.stage = .starting → its.pc.stage = .starting)
    (idle : its'.pc.stage ≠ .idle → its.pc.stage ≠ .idle)
    (covered : its'.pc.stage ≠ .idle → ∀ source ∈ its.tx.reads,
      its.remoteFlushDependency = true ∨ (source.worker, source.startTs) ∈ its.checks →
      its'.remoteFlushDependency = true ∨ (source.worker, source.startTs) ∈ its'.checks ∨
        durable source) (queue : its'.precommittedQueue = its.precommittedQueue)
    (queueRfa : its'.precommittedQueueRfa = its.precommittedQueueRfa)
    (acknowledged : its'.acknowledged = its.acknowledged) : ReadInv known durable w its' where
  fresh starting := by
    rw [reads]
    exact inv.fresh (fresh starting)
  visible stage := by
    rw [reads, startTs]
    exact inv.visible (idle stage)
  covered stage source mem := by
    rw [reads] at mem
    rcases inv.covered (idle stage) source mem with own | remote | check | flushed
    · exact .inl own
    · exact .inr (covered stage source mem (.inl remote))
    · exact .inr (covered stage source mem (.inr check))
    · exact .inr (.inr (.inr flushed))
  queue := queue ▸ inv.queue
  queueRfa := queueRfa ▸ inv.queueRfa
  acknowledged := acknowledged ▸ inv.acknowledged

theorem of_fresh (reads : its'.tx.reads = [])
    (queue : its'.precommittedQueue = its.precommittedQueue)
    (queueRfa : its'.precommittedQueueRfa = its.precommittedQueueRfa)
    (acknowledged : its'.acknowledged = its.acknowledged) : ReadInv known durable w its' where
  fresh _ := reads
  visible _ := by simp [reads]
  covered _ := by simp [reads]
  queue := queue ▸ inv.queue
  queueRfa := queueRfa ▸ inv.queueRfa
  acknowledged := acknowledged ▸ inv.acknowledged

theorem pushPrecommitted (pc : its.pc = .logged) :
    ReadInv known durable w its.pushPrecommitted := by
  have stage : its.pc.stage ≠ .idle := by simp [pc, LogPc.stage]
  have checks : its.checks = [] := by simp [checks, pc]
  unfold LogWorker.pushPrecommitted
  split
  · refine ⟨by simp [LogPc.stage], by simp [LogPc.stage], by simp [LogPc.stage], ?_,
      inv.queueRfa, inv.acknowledged⟩
    exact forall_mem_append.mpr ⟨inv.queue, forall_mem_singleton.mpr (inv.visible stage)⟩
  · rename_i dependency
    refine ⟨by simp [LogPc.stage], by simp [LogPc.stage], by simp [LogPc.stage], inv.queue, ?_,
      inv.acknowledged⟩
    intro tx mem source read
    rcases mem_append.mp mem with old | new
    · exact inv.queueRfa tx old source read
    · rw [mem_singleton.mp new] at read
      rcases inv.covered stage source read with own | remote | check | flushed
      · exact .inl own
      · exact absurd remote dependency
      · simp [checks] at check
      · exact .inr flushed

end ReadInv

theorem checkLogDependency_spec (its : LogWorker) (cfg : LogConfig)
    (me other ts signaled : Nat) :
    (its.checkLogDependency cfg me other ts signaled).tx = its.tx ∧
      (its.checkLogDependency cfg me other ts signaled).remoteFlushDependency =
        its.remoteFlushDependency ∧
      its.rfaChecks ⊆ (its.checkLogDependency cfg me other ts signaled).rfaChecks ∧
      (cfg.recover = false → its.remoteFlushDependency = true ∨ me = other ∨ ts ≤ signaled ∨
        (other, ts) ∈ (its.checkLogDependency cfg me other ts signaled).rfaChecks) := by
  unfold checkLogDependency
  split
  · next isOn => exact ⟨rfl, rfl, Subset.refl _, by simp [isOn]⟩
  split
  · exact ⟨rfl, rfl, subset_append_left _ _,
      fun _ => .inr (.inr (.inr (mem_append_right _ mem_cons_self)))⟩
  · rename_i unchecked
    refine ⟨rfl, rfl, Subset.refl _, fun _ => ?_⟩
    cases remote : its.remoteFlushDependency with
    | true => exact .inl rfl
    | false =>
      simp only [remote, true_and, not_and, not_lt] at unchecked
      by_cases same : me = other
      · exact .inr (.inl same)
      · exact .inr (.inr (.inl (unchecked same)))

theorem access_spec (s : LogState) (cfg : LogConfig) (me : Nat) (path : AccessPath)
    (source : Source) :
    (s.access cfg me path source).tx = ((s.workers me).recordRead source).tx ∧
      (s.access cfg me path source).remoteFlushDependency =
        (s.workers me).remoteFlushDependency ∧
      (s.workers me).rfaChecks ⊆ (s.access cfg me path source).rfaChecks ∧
      ∀ other ts, cfg.recover = false → path.checkedTag source = some (other, ts) →
        (s.workers me).remoteFlushDependency = true ∨ me = other ∨
          ts ≤ (s.workers other).signaledCommitTs ∨
          (other, ts) ∈ (s.access cfg me path source).rfaChecks := by
  unfold access
  split
  · rename_i other ts tag
    obtain ⟨tx, remote, keeps, checked⟩ := checkLogDependency_spec
      ((s.workers me).recordRead source) cfg me other ts (s.workers other).signaledCommitTs
    refine ⟨tx, remote, keeps, ?_⟩
    intro other' ts' off same
    rw [tag] at same
    cases same
    exact checked off
  · rename_i tag
    refine ⟨rfl, rfl, Subset.refl _, ?_⟩
    intro other ts _ same
    rw [tag] at same
    contradiction

theorem checks_of_running (pc : its.pc = .running) : its.checks = its.rfaChecks := by
  simp [checks, pc]

theorem ReadInv.access {known durable : Source → Prop} {w : Nat} {path : AccessPath}
    (inv : ReadInv known durable w (s.workers w))
    (pc : (s.workers w).pc = .running) (isKnown : known source)
    (before : source.commitTs < (s.workers w).tx.startTs)
    (signals : source.startTs ≤ (s.workers source.worker).signaledCommitTs → durable source)
    (checked : cfg.recover = false ∧
        path.checkedTag source = some (source.worker, source.startTs) ∨
      w = source.worker ∨ source.startTs ≤ (s.workers source.worker).signaledCommitTs) :
    ReadInv known durable w (s.access cfg w path source) := by
  obtain ⟨tx, remote, keeps, tested⟩ := access_spec s cfg w path source
  have same := sameLog_access s cfg w path source
  have running : (s.access cfg w path source).pc = .running := (pc_access ..).trans pc
  have stage : (s.workers w).pc.stage ≠ .idle := by simp [pc, LogPc.stage]
  have startTs : (s.access cfg w path source).tx.startTs =
      (s.workers w).tx.startTs := same.startTs
  have reads : (s.access cfg w path source).tx.reads =
      (s.workers w).tx.reads ++ [source] := by rw [tx]; rfl
  refine ⟨by simp [running, LogPc.stage], ?_, ?_, same.queue ▸ inv.queue,
    same.queueRfa ▸ inv.queueRfa, same.acknowledged ▸ inv.acknowledged⟩
  · intro _
    rw [startTs, reads]
    exact forall_mem_append.mpr
      ⟨inv.visible stage, forall_mem_singleton.mpr ⟨isKnown, before⟩⟩
  · intro _ other mem
    rw [remote, checks_of_running running]
    rw [reads] at mem
    rcases mem_append.mp mem with old | new
    · have covered := inv.covered stage other old
      rw [checks_of_running pc] at covered
      exact covered.imp_right (Or.imp_right (Or.imp_left (@keeps _)))
    · rw [mem_singleton.mp new]
      rcases checked with ⟨off, tag⟩ | own | signaled
      · rcases tested _ _ off tag with isRemote | own | signaled | check
        · exact .inr (.inl isRemote)
        · exact .inl own.symm
        · exact .inr (.inr (.inr (signals signaled)))
        · exact .inr (.inr (.inl check))
      · exact .inl own.symm
      · exact .inr (.inr (.inr (signals signaled)))

theorem ReadInv.step {w : Nat} (inv : ReadInv (Known s) (Durable s) w (s.workers w))
    (level : (s.workers w).tx.level.atLeastSI = true)
    (tupleRfa : cfg.walTupleRfa = true) (signals : ∀ source, Known s source →
      source.startTs ≤ (s.workers source.worker).signaledCommitTs → Durable s source)
    (checks : ChecksVersion cfg s a) (moved : WorkerStep cfg s w a its' clock) :
    ReadInv (Known s) (Durable s) w its' := by
  have stageOf : ∀ {pc : LogPc}, (s.workers w).pc = pc → pc.stage ≠ .idle →
      (s.workers w).pc.stage ≠ .idle := by
    intro pc isPc stage
    exact isPc ▸ stage
  cases moved with
  | startTX =>
    unfold startTX
    split <;> exact inv.of_fresh rfl rfl rfl rfl
  | syncClock pc =>
    have none := inv.fresh (pc ▸ rfl)
    unfold syncClock
    split <;> exact inv.of_fresh none rfl rfl rfl
  | loadMinGsnFlushed pc | drawStartTs pc | keepStartTs pc =>
    exact inv.of_fresh (inv.fresh (pc ▸ rfl)) rfl rfl rfl
  | syncGSN =>
    refine inv.of_same rfl rfl (fun same => same) (fun same => same) ?_ rfl rfl rfl
    intro _ source _ covered
    refine covered.imp ?_ .inl
    intro remote
    simp [syncGSN, remote]
  | incrementGSN | submitDTEntry =>
    exact inv.of_same rfl rfl (fun same => same) (fun same => same)
      (fun _ _ _ covered => covered.imp_right .inl) rfl rfl rfl
  | @access _ writer _ tx pc found wrote sees =>
    have before : tx.commitTs < (s.workers w).tx.startTs := by
      rw [LogTx.sees, level] at sees
      exact of_decide_eq_true sees
    have known : Known s (tx.source writer) := ⟨tx, mem_of_getElem? found, wrote, rfl⟩
    exact inv.access pc known before (signals _ known) (checks tx found)
  | @readUncommitted writer pc =>
    obtain ⟨tx, remote, keeps, _⟩ := checkLogDependency_spec (s.workers w) cfg w writer
      (s.workers writer).tx.startTs (s.workers writer).signaledCommitTs
    have same := sameLog_checkLogDependency (s.workers w) cfg w writer
      (s.workers writer).tx.startTs (s.workers writer).signaledCommitTs
    have samePc := pc_checkLogDependency (s.workers w) cfg w writer
      (s.workers writer).tx.startTs (s.workers writer).signaledCommitTs
    refine inv.of_same (by rw [tx]) same.startTs (by rw [samePc]; exact fun same => same)
      (by rw [samePc]; exact fun same => same) ?_ same.queue same.queueRfa same.acknowledged
    intro _ source _ covered
    rw [remote, checks_of_running (samePc.trans pc)]
    rw [checks_of_running pc] at covered
    exact covered.imp_right fun check => .inl (keeps check)
  | abortTX =>
    exact inv.of_same rfl rfl (by simp [setPc, LogPc.stage])
      (fun idle => absurd rfl idle) (fun idle => absurd rfl idle) rfl rfl rfl
  | commitTX pc =>
    unfold precommit
    rw [if_pos tupleRfa]
    refine inv.of_same rfl rfl (by simp [LogPc.stage])
      (fun _ => stageOf pc (by simp [LogPc.stage])) ?_ rfl rfl rfl
    intro _ source _ covered
    rw [checks_of_running pc] at covered
    exact covered.imp_right .inl
  | checksDone pc | submitCommit pc | drawCommitTs pc =>
    refine inv.of_same rfl rfl (by simp [setPc, LogWorker.drawCommitTs, LogPc.stage])
      (fun _ => stageOf pc (by simp [LogPc.stage])) ?_ rfl rfl rfl
    intro _ source _ covered
    have none : (s.workers w).checks = [] := by simp [LogWorker.checks, pc]
    rw [none] at covered
    exact covered.elim .inl (fun check => absurd check (not_mem_nil))
  | checkFails pc =>
    exact inv.of_same rfl rfl (by simp [LogPc.stage])
      (fun _ => stageOf pc (by simp [LogPc.stage])) (fun _ _ _ _ => .inl rfl) rfl rfl rfl
  | @checkPasses other ts rest pc signaled =>
    have idle := stageOf pc (by simp [LogPc.stage])
    refine inv.of_same rfl rfl (by simp [setPc, LogPc.stage]) (fun _ => idle) ?_ rfl rfl
      rfl
    intro _ source mem covered
    have both : (s.workers w).checks = (other, ts) :: rest := by
      simp [LogWorker.checks, pc]
    rw [both, mem_cons] at covered
    rcases covered with remote | tested | later
    · exact .inl remote
    · cases tested
      exact .inr (.inr (signals source (inv.visible idle source mem).1 signaled))
    · exact .inr (.inl later)
  | pushPrecommitted pc => exact inv.pushPrecommitted pc

structure DependencyInv (cfg : LogConfig) (s : LogState) : Prop where
  round : RoundInv cfg s
  order : ∀ w, OrderInv (s.workers w) s.globalClock
  beyond : ∀ w, cfg.workersCount ≤ w → (s.workers w).finished = []
  signaling : ∀ w signaledUpTo, s.gct.pc = .signaling w signaledUpTo → signaledUpTo < maxTxid →
    ∃ tx ∈ (s.workers w).acknowledged, signaledUpTo = tx.commitTs
  reads : ∀ w, ReadInv (Known s) (Durable s) w (s.workers w)

section

variable {w : Nat} (workers : s'.workers = Function.update s.workers w its')
include workers

theorem known_update (finished : (s.workers w).finished ⊆ its'.finished) (source : Source)
    (known : Known s source) : Known s' source := by
  obtain ⟨tx, mem, isSource⟩ := known
  refine ⟨tx, ?_, isSource⟩
  rw [workers]
  by_cases same : source.worker = w
  · rw [same] at mem ⊢
    rw [update_self]
    exact finished mem
  · rw [update_of_ne same]
    exact mem

theorem durable_update
    (keeps : ∀ id, Hardened (s.workers w).log id (s.workers w).flushed →
      Hardened its'.log id its'.flushed) (source : Source)
    (durable : Durable s source) : Durable s' source := by
  unfold Durable at *
  rw [workers]
  by_cases same : source.worker = w
  · rw [same] at durable ⊢
    rw [update_self]
    exact keeps source.id durable
  · rw [update_of_ne same]
    exact durable

theorem reads_update (finished : (s.workers w).finished ⊆ its'.finished)
    (keeps : ∀ id, Hardened (s.workers w).log id (s.workers w).flushed →
      Hardened its'.log id its'.flushed)
    (others : ∀ other, ReadInv (Known s) (Durable s) other (s.workers other))
    (own : ReadInv (Known s) (Durable s) w its') :
    ∀ other, ReadInv (Known s') (Durable s') other (s'.workers other) := by
  have known := known_update workers finished
  have durable := durable_update workers keeps
  rw [workers]
  apply (forall_update_iff s.workers fun other its =>
    ReadInv (Known s') (Durable s') other its).mpr
  exact ⟨own.mono known durable, fun other _ => (others other).mono known durable⟩

end

theorem lowerSignaled_mem (signaledUpTo : Nat) (committed : List LogTx) :
    lowerSignaled signaledUpTo committed = signaledUpTo ∨
      ∃ tx ∈ committed, lowerSignaled signaledUpTo committed = tx.commitTs := by
  unfold lowerSignaled
  split
  · rename_i last isLast
    rcases le_total signaledUpTo last.commitTs with le | le
    · exact .inl (min_eq_left le)
    · exact .inr ⟨last, mem_of_getLast? isLast, min_eq_right le⟩
  · exact .inl rfl

theorem signaledUpTo_mem {gct : GroupCommitter} {w : Nat}
    (stored : its.signaledUpTo gct w < maxTxid) :
    ∃ tx ∈ (its.drain gct w).acknowledged, its.signaledUpTo gct w = tx.commitTs := by
  unfold signaledUpTo at *
  rcases lowerSignaled_mem (lowerSignaled maxTxid (its.committedOfQueue gct))
    (its.committedOfQueueRfa gct w) with same | ⟨tx, mem, isMark⟩
  · rw [same] at stored ⊢
    obtain ⟨tx, mem, isMark⟩ :=
      (lowerSignaled_mem maxTxid (its.committedOfQueue gct)).resolve_left (ne_of_lt stored)
    exact ⟨tx, mem_append_left _ (mem_append_right _ mem), isMark⟩
  · exact ⟨tx, mem_append_right _ mem, isMark⟩

namespace DependencyInv

variable (inv : DependencyInv cfg s)
include inv

theorem signals (source : Source) (known : Known s source)
    (signaled : source.startTs ≤ (s.workers source.worker).signaledCommitTs) :
    Durable s source := by
  obtain ⟨tx, mem, _, isSource⟩ := known
  have hardened := hardened_of_signaled (inv.order source.worker) (inv.round.workers source.worker)
    mem (by rw [← isSource] at signaled; exact signaled)
  rw [← isSource]
  exact hardened

theorem worker {w : Nat} {pages : Nat → PageGsn}
    (tupleRfa : cfg.walTupleRfa = true) (si : AtSnapshotIsolation a)
    (checks : ChecksVersion cfg s a) (below : w < cfg.workersCount)
    (moved : WorkerStep cfg s w a its' clock) :
    DependencyInv cfg
      { s with
        globalClock := clock
        pages := pages
        workers := update s.workers w its' } := by
  have fresh : PushesFreshTs s a := by
    unfold PushesFreshTs
    split
    · exact .inl (inv.order _).level
    · trivial
  obtain ⟨flushed, acknowledged, finished⟩ := moved.kept
  refine ⟨inv.round.worker fresh moved, ?_, ?_, ?_, ?_⟩
  · apply (forall_update_iff s.workers fun _ its => OrderInv its clock).mpr
    exact ⟨(inv.order w).step (inv.round.workers w) si moved, fun other _ =>
      (inv.order other).clock_mono moved.clock_le⟩
  · apply (forall_update_iff s.workers fun other its =>
      cfg.workersCount ≤ other → its.finished = []).mpr
    exact ⟨fun above => absurd below (Nat.not_lt_of_le above), fun other _ => inv.beyond other⟩
  · apply (forall_update_iff s.workers fun other its =>
      ∀ signaledUpTo, s.gct.pc = .signaling other signaledUpTo → signaledUpTo < maxTxid →
        ∃ tx ∈ its.acknowledged, signaledUpTo = tx.commitTs).mpr
    rw [acknowledged]
    exact ⟨inv.signaling w, fun other _ => inv.signaling other⟩
  · refine reads_update rfl finished ?_ inv.reads ((inv.reads w).step (inv.order w).level
      tupleRfa inv.signals checks moved)
    intro id
    rw [flushed]
    exact (inv.round.workers w).keeps_hardened moved

theorem flush (pc : s.gct.pc = .cutting cfg.workersCount) : DependencyInv cfg s.flush := by
  have durable : ∀ source, Durable s source → Durable s.flush source :=
    fun source hardened => hardened.mono (inv.round.workers source.worker).flushedCopy
  refine ⟨inv.round.flush pc, ?_, inv.beyond, ?_, ?_⟩
  · intro w
    exact { inv.order w with }
  · intro w _ _
    contradiction
  · intro w
    exact { (inv.reads w).mono (fun _ known => known) durable with }

/-- A transaction that passes the test of `precommitted_queue` has started before the last
transaction that every copied log ends with; what it read was committed earlier still. -/
theorem durable_of_mayCommit (pc : s.gct.pc = .draining next)
    (mem : tx ∈ (s.workers next).committedOfQueue s.gct)
    (read : source ∈ tx.reads) : Durable s source := by
  have passes := mem_takeWhile_imp mem
  simp only [GroupCommitter.mayCommit, Bool.and_eq_true, decide_eq_true_eq] at passes
  have queued := (takeWhile_sublist _).subset mem
  obtain ⟨⟨writer, isWriter, wrote, isSource⟩, before⟩ :=
    (inv.reads next).queue tx queued source read
  have below : source.worker < cfg.workersCount := by
    by_contra above
    rw [inv.beyond source.worker (Nat.le_of_not_lt above)] at isWriter
    contradiction
  have started := (inv.order source.worker).writers writer isWriter wrote
  have hardened := inv.round.hardened source.worker (by rw [pc]; exact below)
  have flushed := inv.round.flushed (by rw [pc]; trivial) source.worker
  have commitTs : writer.commitTs = source.commitTs := congrArg Source.commitTs isSource
  have known := (inv.round.workers source.worker).copyKnows writer isWriter
    ((inv.order source.worker).levels writer isWriter) (by omega)
  have id : writer.id = source.id := congrArg Source.id isSource
  rw [id] at known
  exact known.mono flushed

theorem drain (pc : s.gct.pc = .draining next) (below : next < cfg.workersCount) :
    DependencyInv cfg
      { s.setWorker next ((s.workers next).drain s.gct next) with
        gct := s.gct.setPc
          (.signaling next ((s.workers next).signaledUpTo s.gct next)) } := by
  refine ⟨inv.round.drain pc below, ?_, ?_, ?_, ?_⟩
  · apply (forall_update_iff s.workers fun _ its => OrderInv its s.globalClock).mpr
    refine ⟨?_, fun other _ => inv.order other⟩
    have order := inv.order next
    refine { order with signaled := order.signaled.imp_right ?_ }
    rintro ⟨tx, mem, isMark⟩
    exact ⟨tx, mem_append_left _ (mem_append_left _ mem), isMark⟩
  · apply (forall_update_iff s.workers fun other its =>
      cfg.workersCount ≤ other → its.finished = []).mpr
    exact ⟨inv.beyond next, fun other _ => inv.beyond other⟩
  · intro w signaledUpTo isPc stored
    cases isPc
    change ∃ tx ∈ (update s.workers next _ next).acknowledged, _
    rw [update_self]
    exact signaledUpTo_mem stored
  · refine reads_update rfl (Subset.refl _) (fun _ hardened => hardened) inv.reads ?_
    have reads := inv.reads next
    exact
      { reads with
        queue := fun tx mem => reads.queue tx ((dropWhile_sublist _).subset mem)
        queueRfa := fun tx mem => reads.queueRfa tx (mem_of_mem_drop mem)
        acknowledged := by
          intro tx mem source read
          rcases mem_append.mp mem with earlier | ofQueueRfa
          · rcases mem_append.mp earlier with old | ofQueue
            · exact reads.acknowledged tx old source read
            · exact .inr (inv.durable_of_mayCommit pc ofQueue read)
          · exact reads.queueRfa tx (mem_of_mem_take ofQueueRfa) source read }

theorem signal {next signaledUpTo : Nat} (pc : s.gct.pc = .signaling next signaledUpTo) :
    DependencyInv cfg
      { s.setWorker next ((s.workers next).signal signaledUpTo) with
        gct := s.gct.setPc (.draining (next + 1)) } := by
  have finished : ((s.workers next).signal signaledUpTo).finished =
      (s.workers next).finished := by
    unfold LogWorker.signal
    split <;> rfl
  refine ⟨inv.round.signal pc, ?_, ?_, ?_, ?_⟩
  · apply (forall_update_iff s.workers fun _ its => OrderInv its s.globalClock).mpr
    refine ⟨?_, fun other _ => inv.order other⟩
    have order := inv.order next
    unfold LogWorker.signal
    split
    · rename_i stored
      exact { order with signaled := .inr (inv.signaling next signaledUpTo pc stored.1) }
    · exact order
  · apply (forall_update_iff s.workers fun other its =>
      cfg.workersCount ≤ other → its.finished = []).mpr
    rw [finished]
    exact ⟨inv.beyond next, fun other _ => inv.beyond other⟩
  · intro w signaledUpTo isPc
    contradiction
  · refine reads_update rfl (finished ▸ Subset.refl _) ?_ inv.reads ?_
    · intro id
      unfold LogWorker.signal
      split <;> exact fun hardened => hardened
    · unfold LogWorker.signal
      split
      · exact { inv.reads next with }
      · exact inv.reads next

theorem committer (moved : CommitterStep cfg s a s') : DependencyInv cfg s' := by
  cases moved with
  | takeCut pc =>
    exact ⟨inv.round.takeCut pc, inv.order, inv.beyond, by simp [GroupCommitter.takeCut], inv.reads⟩
  | takeCopy pc =>
    exact ⟨inv.round.takeCopy pc, inv.order, inv.beyond, by simp [GroupCommitter.takeCopy],
      inv.reads⟩
  | flush pc => exact inv.flush pc
  | drain pc below => exact inv.drain pc below
  | signal pc => exact inv.signal pc
  | publishMinGsn pc =>
    exact ⟨inv.round.committer (.publishMinGsn pc), inv.order, inv.beyond,
      by simp [GroupCommitter.setPc], inv.reads⟩
  | publishSyncGsn pc =>
    exact ⟨inv.round.committer (.publishSyncGsn pc), inv.order, inv.beyond,
      by simp [GroupCommitter.restart], inv.reads⟩

theorem step (tupleRfa : cfg.walTupleRfa = true)
    (si : AtSnapshotIsolation a) (checks : ChecksVersion cfg s a)
    (taken : logStep cfg s a = some s') : DependencyInv cfg s' := by
  cases logStep_cases taken with
  | worker below moved => exact inv.worker tupleRfa si checks below moved
  | committer moved => exact inv.committer moved

end DependencyInv

theorem dependencyInv_fresh (cfg : LogConfig) : DependencyInv cfg LogState.fresh := by
  refine ⟨roundInv_fresh cfg, ?_, fun _ _ => rfl, ?_, ?_⟩
  · intro w
    constructor <;> simp [LogState.fresh, LogWorker.fresh, LogTx.fresh, TxIsolationLevel.atLeastSI]
  · intro w _ pc
    contradiction
  · intro w
    constructor <;> simp [LogState.fresh, LogWorker.fresh, LogTx.fresh]

/-- In every run at snapshot isolation with `wal_rfa` and `wal_tuple_rfa` in which every
access checks the version it reads or overwrites, or meets one that is covered by the
mark of its worker: when a transaction is set to `COMMITTED`, the `TX_COMMIT` entries of
the transactions of other workers whose versions it read or overwrote are flushed. -/
theorem acknowledged_sources_flushed {workersCount : Nat} {recover : Bool} {state : LogState}
    (reached : LogReaches ⟨workersCount, true, true, recover⟩
      (fun state action => AtSnapshotIsolation action ∧
        ChecksVersion ⟨workersCount, true, true, recover⟩ state action) state)
    (worker : Nat) {tx : LogTx} (acknowledged : tx ∈ (state.workers worker).acknowledged)
    {source : Source} (read : source ∈ tx.reads) (other : source.worker ≠ worker) :
    ∃ index < (state.workers source.worker).flushed,
      (state.workers source.worker).log[index]? = some ⟨.txCommit, source.id⟩ := by
  have inv : DependencyInv ⟨workersCount, true, true, recover⟩ state := by
    apply reached.invariant (DependencyInv ⟨workersCount, true, true, recover⟩)
    · intro state fresh
      exact fresh ▸ dependencyInv_fresh _
    · intro state action state' inv allowed taken
      exact inv.step rfl allowed.1 allowed.2 taken
  obtain ⟨index, below, found, _⟩ :=
    ((inv.reads worker).acknowledged tx acknowledged source read).resolve_left other
  exact ⟨index, below, found⟩

/-- A transaction of worker 1 reads in a leaf what a transaction of worker 0 wrote, and
both are acknowledged. -/
theorem acknowledged_sources_flushed_lookup :
    ∃ state : LogState, ∃ tx ∈ (state.workers 1).acknowledged, ∃ source ∈ tx.reads,
      source.worker = 0 ∧ source.id = 1 ∧
      ∃ index < (state.workers source.worker).flushed,
        (state.workers source.worker).log[index]? = some ⟨.txCommit, source.id⟩ := by
  let actions := beginActions 0 .snapshotIsolation ++ [.submitDTEntry 0 7 true] ++
    commitActions 0 1 ++ roundActions 2 ++ beginActions 1 .snapshotIsolation ++
    [.access 1 .leafLookup 0 0] ++ commitActions 1 1 ++ roundActions 2
  obtain ⟨state, ran, one⟩ : ∃ state,
      run (logStep ⟨2, true, true, false⟩) fresh actions = some state ∧
        (state.workers 1).acknowledged.map LogTx.reads = [[⟨0, 1, 256, 257⟩]] := ⟨_, rfl, rfl⟩
  have start : LogReaches ⟨2, true, true, false⟩
      (fun state action => AtSnapshotIsolation action ∧
        ChecksVersion ⟨2, true, true, false⟩ state action)
      fresh := .start rfl
  have permitted : AllowedAlong (logStep ⟨2, true, true, false⟩)
      (fun state action => AtSnapshotIsolation action ∧
        ChecksVersion ⟨2, true, true, false⟩ state action)
      fresh actions := by decide
  have reached := start.run_of_allowed permitted ran
  obtain ⟨tx, isOne, reads⟩ := map_eq_singleton_iff.mp one
  have member : tx ∈ (state.workers 1).acknowledged := by simp [isOne]
  have read : ⟨0, 1, 256, 257⟩ ∈ tx.reads := by simp [reads]
  exact ⟨state, tx, member, _, read, rfl, rfl,
    acknowledged_sources_flushed reached 1 member read (by decide)⟩

/-- A transaction of worker 0 commits after the round has copied the log of worker 0, one
of worker 1 reads its version in the record cache, which checks nothing, and commits
before the round comes to worker 1.  The round acknowledges the reader; no entry of
worker 0 has been flushed. -/
theorem recordCacheHit_source_unflushed :
    ∃ state, LogReaches ⟨2, true, true, false⟩ (fun _ action => AtSnapshotIsolation action) state ∧
      (state.workers 1).acknowledged.map LogTx.reads = [[⟨0, 1, 256, 257⟩]] ∧
      (state.workers 0).flushed = 0 := by
  let actions := [.takeCut, .takeCopy] ++ beginActions 0 .snapshotIsolation ++
    [.submitDTEntry 0 7 true] ++ commitActions 0 1 ++ beginActions 1 .snapshotIsolation ++
    [.access 1 .recordCacheHit 0 0] ++ commitActions 1 1 ++
    [.takeCut, .takeCopy, .flush, .drain, .signal, .drain]
  obtain ⟨state, ran, acknowledged, flushed⟩ : ∃ state,
      run (logStep ⟨2, true, true, false⟩) fresh actions = some state ∧
        (state.workers 1).acknowledged.map LogTx.reads = [[⟨0, 1, 256, 257⟩]] ∧
        (state.workers 0).flushed = 0 := ⟨_, rfl, rfl, rfl⟩
  have start : LogReaches ⟨2, true, true, false⟩ (fun _ action => AtSnapshotIsolation action)
      fresh := .start rfl
  have si : ∀ action ∈ actions, AtSnapshotIsolation action := by decide
  have reached := start.run_of_forall (fun action member _ => si action member) ran
  exact ⟨state, reached, acknowledged, flushed⟩

end TieredStore.Logging
