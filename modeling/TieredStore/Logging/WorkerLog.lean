import TieredStore.Logging.CommitSteps

namespace TieredStore.Logging

open ConcurrencyControl (TxIsolationLevel)
open Transition List LogPc LogState LogWorker

variable {cfg : LogConfig} {s s' : LogState} {a : LogAction}

/-- The `TX_COMMIT` entry of the transaction is among the first `bound` entries, and no
entry of the transaction comes after it. -/
def Hardened (log : List LogEntry) (id bound : Nat) : Prop :=
  ∃ i < bound, log[i]? = some ⟨.txCommit, id⟩ ∧
    ∀ (later : Nat) (e : LogEntry), log[later]? = some e → e.tx = id → later ≤ i

variable {log : List LogEntry} {id bound : Nat} {e entry : LogEntry}

theorem Hardened.mono {further : Nat} (hardened : Hardened log id bound) (le : bound ≤ further) :
    Hardened log id further := by
  obtain ⟨i, below, found, last⟩ := hardened
  exact ⟨i, lt_of_lt_of_le below le, found, last⟩

theorem Hardened.append (hardened : Hardened log id bound)
    (other : e.tx ≠ id) : Hardened (log ++ [e]) id bound := by
  obtain ⟨i, below, found, last⟩ := hardened
  have foundInside := List.getElem?_eq_some_iff.mp found |>.1
  refine ⟨i, below, getElem?_append_left foundInside ▸ found, ?_⟩
  intro later written getLater same
  rcases lt_or_ge later log.length with inside | outside
  · rw [getElem?_append_left inside] at getLater
    exact last later written getLater same
  · rw [getElem?_append_right outside, getElem?_singleton] at getLater
    split at getLater
    · cases getLater
      contradiction
    · contradiction

theorem hardened_append_txCommit (log : List LogEntry) (id : Nat) :
    Hardened (log ++ [⟨.txCommit, id⟩]) id (log.length + 1) := by
  refine ⟨log.length, Nat.lt_succ_self _, getElem?_concat_length, ?_⟩
  intro _ e getLater _
  have inside := List.getElem?_eq_some_iff.mp getLater |>.1
  simp only [length_append] at inside
  exact Nat.le_of_lt_succ inside

theorem Hardened.of_le {earlier reach : Nat} (hardened : Hardened log id bound)
    (sorted : log.Pairwise fun first second => first.tx ≤ second.tx) (le : earlier ≤ id)
    (itself : Hardened log earlier reach) : Hardened log earlier bound := by
  obtain ⟨i, below, found, last⟩ := hardened
  obtain ⟨its, _, itsFound, itsLast⟩ := itself
  refine ⟨its, ?_, itsFound, itsLast⟩
  suffices its ≤ i by exact lt_of_le_of_lt this below
  by_contra after
  have itsInside := List.getElem?_eq_some_iff.mp itsFound
  have inside := List.getElem?_eq_some_iff.mp found
  have ordered := pairwise_iff_getElem.mp sorted i its inside.1 itsInside.1 (Nat.lt_of_not_le after)
  rw [itsInside.2, inside.2] at ordered
  exact after (last its _ itsFound (le_antisymm le ordered))

inductive Stage
  | idle
  | starting
  | active
  | committing
  | logged
  deriving DecidableEq, Repr

def LogPc.stage : LogPc → Stage
  | .idle => .idle
  | .syncing => .starting
  | .loading => .starting
  | .beginning => .starting
  | .running => .active
  | .prechecking _ => .active
  | .precommitting => .active
  | .committing => .committing
  | .logged => .logged

structure WorkerInv (its : LogWorker) (clock : Nat) (copy : WorkerToLW) : Prop where
  written : its.wtToLw.walWrittenOffset = its.log.length
  copyWritten : copy.walWrittenOffset ≤ its.log.length
  flushedCopy : its.flushed ≤ copy.walWrittenOffset
  startBelow : its.tx.startTs < clock
  published : its.wtToLw.precommittedTxCommitTs ≤ its.tx.startTs
  copied : copy.precommittedTxCommitTs ≤ its.wtToLw.precommittedTxCommitTs
  unpublished : its.pc.stage = .active ∨ its.pc.stage = .committing →
    its.tx.level.atLeastSI = true → its.wtToLw.precommittedTxCommitTs < its.tx.startTs
  entries : ∀ e ∈ its.log, e.tx ≤ its.tx.id
  sorted : its.log.Pairwise fun first second => first.tx ≤ second.tx
  uncommitted : its.pc.stage ≠ .idle ∧ its.pc.stage ≠ .logged → ⟨.txCommit, its.tx.id⟩ ∉ its.log
  ids : ∀ tx ∈ its.finished, tx.id < its.tx.id ∨
    (tx.id = its.tx.id ∧ its.pc.stage ≠ .starting ∧ its.pc.stage ≠ .active)
  finished : ∀ tx ∈ its.finished, (its.pc.stage = .committing ∧ tx = its.tx) ∨
    Hardened its.log tx.id its.log.length
  copyKnows : ∀ tx ∈ its.finished, tx.level.atLeastSI = true →
    tx.startTs ≤ copy.precommittedTxCommitTs → Hardened its.log tx.id copy.walWrittenOffset
  current : its.pc.stage = .committing ∨ its.pc.stage = .logged → its.tx ∈ its.finished
  logged : its.pc.stage = .logged → Hardened its.log its.tx.id its.log.length
  queue : ∀ tx ∈ its.precommittedQueue, tx ∈ its.finished ∧ Hardened its.log tx.id its.log.length
  queueRfa : ∀ tx ∈ its.precommittedQueueRfa,
    tx ∈ its.finished ∧ Hardened its.log tx.id its.log.length
  acknowledged : ∀ tx ∈ its.acknowledged, tx ∈ its.finished ∧ Hardened its.log tx.id its.flushed

variable {its its' : LogWorker} {clock : Nat} {copy : WorkerToLW}

/-- The steps that write no entry and end no transaction leave this alone. -/
structure SameLog (its its' : LogWorker) : Prop where
  log : its'.log = its.log
  written : its'.wtToLw.walWrittenOffset = its.wtToLw.walWrittenOffset
  precommitted : its'.wtToLw.precommittedTxCommitTs = its.wtToLw.precommittedTxCommitTs
  startTs : its'.tx.startTs = its.tx.startTs
  id : its'.tx.id = its.tx.id
  level : its'.tx.level = its.tx.level
  commitTs : its'.tx.commitTs = its.tx.commitTs
  finished : its'.finished = its.finished
  queue : its'.precommittedQueue = its.precommittedQueue
  queueRfa : its'.precommittedQueueRfa = its.precommittedQueueRfa
  flushed : its'.flushed = its.flushed
  acknowledged : its'.acknowledged = its.acknowledged
  signaled : its'.signaledCommitTs = its.signaledCommitTs

structure Appends (its its' : LogWorker) (e : LogEntry) : Prop where
  log : its'.log = its.log ++ [e]
  written : its'.wtToLw.walWrittenOffset = its.log.length + 1
  mine : e.tx = its'.tx.id
  idLe : its.tx.id ≤ its'.tx.id
  startTs : its'.tx.startTs = its.tx.startTs
  published : its'.wtToLw.precommittedTxCommitTs ≤ its.tx.startTs
  republished : its.wtToLw.precommittedTxCommitTs ≤ its'.wtToLw.precommittedTxCommitTs
  finished : its'.finished = its.finished
  queue : its'.precommittedQueue = its.precommittedQueue
  queueRfa : its'.precommittedQueueRfa = its.precommittedQueueRfa
  flushed : its'.flushed = its.flushed
  acknowledged : its'.acknowledged = its.acknowledged

namespace WorkerInv

variable (inv : WorkerInv its clock copy)
include inv

theorem clock_mono {later : Nat} (le : clock ≤ later) : WorkerInv its later copy :=
  { inv with startBelow := lt_of_lt_of_le inv.startBelow le }

theorem settled (stage : its.pc.stage ≠ .committing) :
    ∀ tx ∈ its.finished, Hardened its.log tx.id its.log.length :=
  fun tx mem => (inv.finished tx mem).resolve_left fun both => stage both.1

theorem earlier (stage : its.pc.stage = .starting ∨ its.pc.stage = .active) :
    ∀ tx ∈ its.finished, tx.id < its.tx.id := by
  intro tx mem
  refine (inv.ids tx mem).resolve_right ?_
  rcases stage with starting | active <;> simp [*]

theorem of_same (same : SameLog its its')
    (before : its.pc.stage = .starting ∨ its.pc.stage = .active)
    (after : its'.pc.stage = its.pc.stage ∨
      (its'.pc.stage = .active ∧ its.tx.level.atLeastSI = false)) : WorkerInv its' clock copy := by
  have notEnding : its'.pc.stage ≠ .committing ∧ its'.pc.stage ≠ .logged := by
    rcases before with starting | active <;> rcases after with kept | ⟨_, _⟩ <;> simp [*]
  have notCommitting : its.pc.stage ≠ .committing := by
    rcases before with starting | active <;> simp [*]
  exact
    { written := by rw [same.written, same.log, inv.written]
      copyWritten := same.log ▸ inv.copyWritten
      flushedCopy := same.flushed ▸ inv.flushedCopy
      startBelow := same.startTs ▸ inv.startBelow
      published := by rw [same.precommitted, same.startTs]; exact inv.published
      copied := same.precommitted ▸ inv.copied
      unpublished := by
        intro stage level
        rw [same.level] at level
        rw [same.precommitted, same.startTs]
        rcases after with kept | ⟨_, below⟩
        · exact inv.unpublished (kept ▸ stage) level
        · rw [level] at below
          contradiction
      entries := by rw [same.log, same.id]; exact inv.entries
      sorted := same.log ▸ inv.sorted
      uncommitted := by
        rw [same.log, same.id]
        intro
        apply inv.uncommitted
        rcases before with starting | active <;> simp [*]
      ids := by
        rw [same.finished, same.id]
        exact fun tx mem => .inl (inv.earlier before tx mem)
      finished := by
        rw [same.finished, same.log]
        exact fun tx mem => .inr (inv.settled notCommitting tx mem)
      copyKnows := by rw [same.finished, same.log]; exact inv.copyKnows
      current := fun stage => absurd stage (by simp [notEnding])
      logged := fun stage => absurd stage notEnding.2
      queue := by rw [same.queue, same.finished, same.log]; exact inv.queue
      queueRfa := by rw [same.queueRfa, same.finished, same.log]; exact inv.queueRfa
      acknowledged := by
        rw [same.acknowledged, same.finished, same.log, same.flushed]
        exact inv.acknowledged }

theorem of_active (same : SameLog its its')
    (before : its.pc.stage = .active) (after : its'.pc.stage = .active) :
    WorkerInv its' clock copy :=
  inv.of_same same (.inr before) (.inl (after.trans before.symm))

theorem append (appends : Appends its its' e)
    (unpublished : its'.pc.stage = .active → its'.tx.level.atLeastSI = true →
      its'.wtToLw.precommittedTxCommitTs < its'.tx.startTs)
    (notCommitting : its.pc.stage ≠ .committing)
    (notEnding : its'.pc.stage ≠ .committing ∧ its'.pc.stage ≠ .logged)
    (uncommitted : ⟨.txCommit, its'.tx.id⟩ ∉ its.log) (type : e.type ≠ .txCommit)
    (earlier : ∀ tx ∈ its.finished, tx.id < its'.tx.id) : WorkerInv its' clock copy := by
  obtain ⟨log, written, mine, idLe, startTs, published, republished, finished, queue, queueRfa,
    flushed, acknowledged⟩ := appends
  have length : its'.log.length = its.log.length + 1 := by simp [log]
  have keeps : ∀ tx ∈ its.finished, ∀ bound, Hardened its.log tx.id bound →
      Hardened its'.log tx.id bound := by
    intro tx mem bound hardened
    rw [log]
    exact hardened.append (by rw [mine]; exact ne_of_gt (earlier tx mem))
  have grows : ∀ tx ∈ its.finished, Hardened its.log tx.id its.log.length →
      Hardened its'.log tx.id its'.log.length := by
    intro tx mem hardened
    exact (keeps tx mem _ hardened).mono (by omega)
  exact
    { written := by rw [written, length]
      copyWritten := le_trans inv.copyWritten (by omega)
      flushedCopy := flushed ▸ inv.flushedCopy
      startBelow := startTs ▸ inv.startBelow
      published := startTs ▸ published
      copied := le_trans inv.copied republished
      unpublished := fun stage => unpublished (stage.resolve_right notEnding.1)
      entries := by
        rw [log]
        exact forall_mem_append.mpr ⟨fun other old => le_trans (inv.entries other old) idLe,
          forall_mem_singleton.mpr (le_of_eq mine)⟩
      sorted := by
        rw [log, pairwise_append]
        refine ⟨inv.sorted, pairwise_singleton _ _, fun old mem => forall_mem_singleton.mpr ?_⟩
        exact mine ▸ le_trans (inv.entries old mem) idLe
      uncommitted := by
        intro _ mem
        rw [log] at mem
        rcases mem_append.mp mem with old | new
        · exact uncommitted old
        · exact type (mem_singleton.mp new ▸ rfl)
      ids := by
        rw [finished]
        exact fun tx mem => .inl (earlier tx mem)
      finished := by
        rw [finished]
        exact fun tx mem => .inr (grows tx mem (inv.settled notCommitting tx mem))
      copyKnows := by
        rw [finished]
        exact fun tx mem level known => keeps tx mem _ (inv.copyKnows tx mem level known)
      current := fun stage => absurd stage (by simp [notEnding])
      logged := fun stage => absurd stage notEnding.2
      queue := by
        rw [queue, finished]
        exact fun tx mem =>
          ⟨(inv.queue tx mem).1, grows tx (inv.queue tx mem).1 (inv.queue tx mem).2⟩
      queueRfa := by
        rw [queueRfa, finished]
        exact fun tx mem =>
          ⟨(inv.queueRfa tx mem).1, grows tx (inv.queueRfa tx mem).1 (inv.queueRfa tx mem).2⟩
      acknowledged := by
        rw [acknowledged, finished, flushed]
        exact fun tx mem =>
          ⟨(inv.acknowledged tx mem).1,
            keeps tx (inv.acknowledged tx mem).1 _ (inv.acknowledged tx mem).2⟩ }

theorem startTX {level : TxIsolationLevel} {readOnly : Bool} (pc : its.pc = .idle) :
    WorkerInv (its.startTX level readOnly) clock copy := by
  have notCommitting : its.pc.stage ≠ .committing := by simp [pc, stage]
  have earlier : ∀ tx ∈ its.finished, tx.id < its.tx.id + 1 := by
    intro tx mem
    rcases inv.ids tx mem with before | ⟨_, _⟩ <;> omega
  have uncommitted : ⟨.txCommit, its.tx.id + 1⟩ ∉ its.log := by
    intro mem
    exact absurd (inv.entries _ mem) (Nat.not_succ_le_self _)
  unfold LogWorker.startTX
  split
  · exact
      { inv with
        unpublished := by simp [stage]
        entries := fun e mem => Nat.le_succ_of_le (inv.entries e mem)
        uncommitted := fun _ => uncommitted
        ids := fun tx mem => .inl (earlier tx mem)
        finished := fun tx mem => .inr (inv.settled notCommitting tx mem)
        current := by simp [stage]
        logged := by simp [stage] }
  · refine inv.append ⟨rfl, rfl, rfl, Nat.le_succ _, rfl, le_refl _, inv.published, rfl, rfl,
      rfl, rfl, rfl⟩ ?_ notCommitting ?_ uncommitted (by simp) earlier
    · simp [submitWALMetaEntry, stage]
    · simp [submitWALMetaEntry, stage]

theorem submitDTEntry {gsn : Nat} {hasWrote : Bool} (pc : its.pc = .running) :
    WorkerInv (LogWorker.submitDTEntry
      { its with gsnClock := gsn, tx := { its.tx with hasWrote := hasWrote } }) clock copy := by
  have active : its.pc.stage = .active := by rw [pc, stage]
  refine inv.append ⟨rfl, by simp [LogWorker.submitDTEntry, publishMaxGSNOffset], rfl,
    le_refl _, rfl, inv.published, le_refl _, rfl, rfl, rfl, rfl, rfl⟩ ?_ ?_ ?_ ?_
    (by simp) ?_
  · exact fun _ => inv.unpublished (.inl active)
  · simp [active]
  · change its.pc.stage ≠ _ ∧ its.pc.stage ≠ _
    simp [active]
  · exact inv.uncommitted (by simp [active])
  · exact inv.earlier (.inr active)

theorem abortTX (pc : its.pc = .running) :
    WorkerInv ((its.submitWALMetaEntry .txAbort).setPc .idle) clock copy := by
  have active : its.pc.stage = .active := by rw [pc, stage]
  refine inv.append ⟨rfl, rfl, rfl, le_refl _, rfl, le_refl _, inv.published, rfl, rfl,
    rfl, rfl, rfl⟩ ?_ ?_ ?_ ?_ (by simp) ?_
  · simp [setPc, stage]
  · simp [active]
  · simp [setPc, stage]
  · exact inv.uncommitted (by simp [active])
  · exact inv.earlier (.inr active)

theorem drawStartTs (pc : its.pc = .beginning) :
    WorkerInv { its with pc := .running, tx := { its.tx with startTs := clock } } (clock + 1)
      copy := by
  have starting : its.pc.stage = .starting := by rw [pc, stage]
  exact
    { inv with
      startBelow := Nat.lt_succ_self _
      published := le_of_lt (lt_of_le_of_lt inv.published inv.startBelow)
      unpublished := fun _ _ => lt_of_le_of_lt inv.published inv.startBelow
      uncommitted := fun _ => inv.uncommitted (by simp [starting])
      ids := fun tx mem => .inl (inv.earlier (.inl starting) tx mem)
      finished := fun tx mem => .inr (inv.settled (by simp [starting]) tx mem)
      current := by simp [stage]
      logged := by simp [stage] }

theorem drawCommitTs (pc : its.pc = .precommitting) (now : Nat) :
    WorkerInv (its.drawCommitTs now) clock copy := by
  have active : its.pc.stage = .active := by rw [pc, stage]
  have unpublished := inv.unpublished (.inl active)
  exact
    { inv with
      unpublished := fun _ => unpublished
      uncommitted := fun _ => inv.uncommitted (by simp [active])
      ids := by
        refine forall_mem_append.mpr ⟨fun tx old => .inl (inv.earlier (.inr active) tx old), ?_⟩
        exact forall_mem_singleton.mpr (.inr ⟨rfl, by simp [LogWorker.drawCommitTs, stage]⟩)
      finished := forall_mem_append.mpr
        ⟨fun tx old => .inr (inv.settled (by simp [active]) tx old),
          forall_mem_singleton.mpr (.inl ⟨rfl, rfl⟩)⟩
      copyKnows := by
        intro tx mem level known
        rcases mem_append.mp mem with old | new
        · exact inv.copyKnows tx old level known
        · -- the transaction has not published its start timestamp
          rw [mem_singleton.mp new] at level known
          have below := unpublished level
          have copied := inv.copied
          exact absurd (le_trans known copied) (Nat.not_le_of_lt below)
      current := fun _ => mem_append_right _ mem_cons_self
      logged := by simp [LogWorker.drawCommitTs, stage]
      queue := fun tx mem => ⟨mem_append_left _ (inv.queue tx mem).1, (inv.queue tx mem).2⟩
      queueRfa := fun tx mem => ⟨mem_append_left _ (inv.queueRfa tx mem).1, (inv.queueRfa tx mem).2⟩
      acknowledged := fun tx mem =>
        ⟨mem_append_left _ (inv.acknowledged tx mem).1, (inv.acknowledged tx mem).2⟩ }

theorem submitCommit (pc : its.pc = .committing) :
    WorkerInv ((its.submitWALMetaEntry .txCommit).setPc .logged) clock copy := by
  have committing : its.pc.stage = .committing := by rw [pc, stage]
  let e : LogEntry := ⟨.txCommit, its.tx.id⟩
  -- no transaction that is already hardened is the one whose entry is written now
  have keeps : ∀ tx : LogTx, ∀ bound, Hardened its.log tx.id bound →
      Hardened (its.log ++ [e]) tx.id bound := by
    intro tx bound hardened
    apply hardened.append
    intro same
    obtain ⟨_, _, found, _⟩ := hardened
    apply inv.uncommitted (by simp [committing])
    have same : its.tx.id = tx.id := same
    exact same ▸ mem_of_getElem? found
  have grows : ∀ tx : LogTx, Hardened its.log tx.id its.log.length →
      Hardened (its.log ++ [e]) tx.id (its.log ++ [e]).length := by
    intro tx hardened
    exact (keeps tx _ hardened).mono (by simp)
  have now : Hardened (its.log ++ [e]) its.tx.id (its.log ++ [e]).length := by
    rw [length_append]
    exact hardened_append_txCommit its.log its.tx.id
  exact
    { inv with
      written := by simp [setPc, submitWALMetaEntry]
      copyWritten := le_trans inv.copyWritten (by simp [setPc, submitWALMetaEntry])
      published := le_refl _
      copied := le_trans inv.copied inv.published
      unpublished := by simp [setPc, stage]
      entries := by
        exact forall_mem_append.mpr ⟨inv.entries, forall_mem_singleton.mpr (le_refl _)⟩
      sorted := pairwise_append.mpr ⟨inv.sorted, pairwise_singleton _ _, fun old mem =>
        forall_mem_singleton.mpr (inv.entries old mem)⟩
      uncommitted := by simp [setPc, stage]
      ids := by
        intro tx mem
        rcases inv.ids tx mem with before | ⟨same, _⟩
        · exact .inl before
        · exact .inr ⟨same, by simp [setPc, stage]⟩
      finished := by
        intro tx mem
        rcases inv.finished tx mem with ⟨_, rfl⟩ | hardened
        · exact .inr now
        · exact .inr (grows tx hardened)
      copyKnows := by
        intro tx mem level known
        exact keeps tx _ (inv.copyKnows tx mem level known)
      current := fun _ => inv.current (.inl committing)
      logged := fun _ => now
      queue := fun tx mem => ⟨(inv.queue tx mem).1, grows tx (inv.queue tx mem).2⟩
      queueRfa := fun tx mem => ⟨(inv.queueRfa tx mem).1, grows tx (inv.queueRfa tx mem).2⟩
      acknowledged := fun tx mem =>
        ⟨(inv.acknowledged tx mem).1, keeps tx _ (inv.acknowledged tx mem).2⟩ }

theorem pushPrecommitted (pc : its.pc = .logged) : WorkerInv its.pushPrecommitted clock copy := by
  have logged : its.pc.stage = .logged := by rw [pc, stage]
  have pushed : ∀ queue : List LogTx,
      (∀ tx ∈ queue, tx ∈ its.finished ∧ Hardened its.log tx.id its.log.length) →
      ∀ tx ∈ queue ++ [its.tx], tx ∈ its.finished ∧ Hardened its.log tx.id its.log.length := by
    intro queue known
    exact forall_mem_append.mpr
      ⟨known, forall_mem_singleton.mpr ⟨inv.current (.inr logged), inv.logged logged⟩⟩
  have idle : WorkerInv { its with pc := .idle } clock copy :=
    { inv with
      unpublished := by simp [stage]
      uncommitted := by simp [stage]
      ids := by
        intro tx mem
        rcases inv.ids tx mem with before | ⟨same, _⟩
        · exact .inl before
        · exact .inr ⟨same, by simp [stage]⟩
      finished := fun tx mem => .inr (inv.settled (by simp [logged]) tx mem)
      current := by simp [stage]
      logged := by simp [stage] }
  unfold LogWorker.pushPrecommitted
  split
  · exact { idle with queue := pushed _ inv.queue }
  · exact { idle with queueRfa := pushed _ inv.queueRfa }

end WorkerInv

theorem sameLog_checkLogDependency (its : LogWorker) (cfg : LogConfig)
    (me other ts signaled : Nat) :
    SameLog its (its.checkLogDependency cfg me other ts signaled) := by
  unfold checkLogDependency
  split_ifs <;> constructor <;> rfl

theorem pc_checkLogDependency (its : LogWorker) (cfg : LogConfig) (me other ts signaled : Nat) :
    (its.checkLogDependency cfg me other ts signaled).pc = its.pc := by
  unfold checkLogDependency
  split_ifs <;> rfl

theorem sameLog_access (s : LogState) (cfg : LogConfig) (me : Nat) (path : AccessPath)
    (source : Source) : SameLog (s.workers me) (s.access cfg me path source) := by
  unfold access
  split
  · exact { sameLog_checkLogDependency ((s.workers me).recordRead source) cfg me _ _ _ with }
  · constructor <;> rfl

theorem pc_access (s : LogState) (cfg : LogConfig) (me : Nat) (path : AccessPath)
    (source : Source) : (s.access cfg me path source).pc = (s.workers me).pc := by
  unfold access
  split
  · rw [pc_checkLogDependency]
    rfl
  · rfl

theorem sameLog_syncClock {syncPoint : Nat}
    (written : its.wtToLw.walWrittenOffset = its.log.length) :
    SameLog its ((its.syncClock syncPoint).setPc .loading) := by
  unfold syncClock
  split
  · exact ⟨rfl, written.symm, rfl, rfl, rfl, rfl, rfl, rfl, rfl, rfl, rfl, rfl, rfl⟩
  · constructor <;> rfl

variable {w : Nat}

section

variable (moved : WorkerStep cfg s w a its' clock)
include moved

theorem WorkerInv.step (inv : WorkerInv (s.workers w) s.globalClock copy) :
    WorkerInv its' clock copy := by
  cases moved with
  | startTX pc => exact inv.startTX pc
  | syncClock pc =>
    exact inv.of_same (sameLog_syncClock inv.written) (.inl (pc ▸ rfl)) (.inl (pc ▸ rfl))
  | loadMinGsnFlushed pc =>
    exact inv.of_same (by constructor <;> rfl) (.inl (pc ▸ rfl)) (.inl (pc ▸ rfl))
  | drawStartTs pc => exact inv.drawStartTs pc
  | keepStartTs pc level =>
    exact inv.of_same (by constructor <;> rfl) (.inl (pc ▸ rfl)) (.inr ⟨rfl, level⟩)
  | syncGSN pc | incrementGSN pc =>
    exact inv.of_active (by constructor <;> rfl) (pc ▸ rfl) (congrArg stage pc)
  | submitDTEntry pc => exact inv.submitDTEntry pc
  | access pc => exact inv.of_active (sameLog_access ..) (pc ▸ rfl) (by rw [pc_access, pc, stage])
  | readUncommitted pc =>
    exact inv.of_active (sameLog_checkLogDependency ..) (pc ▸ rfl)
      (by rw [pc_checkLogDependency, pc, stage])
  | abortTX pc => exact inv.abortTX pc
  | commitTX pc =>
    unfold precommit
    split <;> exact inv.of_active (by constructor <;> rfl) (pc ▸ rfl) rfl
  | checksDone pc | checkFails pc | checkPasses pc =>
    exact inv.of_active (by constructor <;> rfl) (pc ▸ rfl) rfl
  | drawCommitTs pc =>
    refine (inv.drawCommitTs pc _).clock_mono ?_
    split <;> omega
  | submitCommit pc => exact inv.submitCommit pc
  | pushPrecommitted pc => exact inv.pushPrecommitted pc

theorem WorkerStep.log_grows : its'.log = (s.workers w).log ∨
      ∃ e : LogEntry, its'.log = (s.workers w).log ++ [e] ∧ (e.tx = (s.workers w).tx.id + 1 ∨
          (e.tx = (s.workers w).tx.id ∧ (s.workers w).pc.stage ≠ .idle ∧
            (s.workers w).pc.stage ≠ .logged)) := by
  cases moved with
  | startTX =>
    unfold LogWorker.startTX
    split
    · exact .inl rfl
    · exact .inr ⟨_, rfl, .inl rfl⟩
  | syncClock =>
    unfold LogWorker.syncClock
    split <;> exact .inl rfl
  | submitDTEntry pc => exact .inr ⟨_, rfl, .inr ⟨rfl, by simp [pc, stage]⟩⟩
  | abortTX pc => exact .inr ⟨_, rfl, .inr ⟨rfl, by simp [pc, stage]⟩⟩
  | submitCommit pc => exact .inr ⟨_, rfl, .inr ⟨rfl, by simp [pc, stage]⟩⟩
  | access => exact .inl (sameLog_access ..).log
  | readUncommitted => exact .inl (sameLog_checkLogDependency ..).log
  | commitTX =>
    unfold precommit
    split <;> exact .inl rfl
  | pushPrecommitted =>
    unfold LogWorker.pushPrecommitted
    split <;> exact .inl rfl
  | loadMinGsnFlushed | drawStartTs | keepStartTs | syncGSN | incrementGSN | checksDone
  | checkFails | checkPasses | drawCommitTs => exact .inl rfl

theorem WorkerInv.keeps_hardened (inv : WorkerInv (s.workers w) s.globalClock copy)
    (hardened : Hardened (s.workers w).log id bound) : Hardened its'.log id bound := by
  rcases moved.log_grows with same | ⟨e, appended, whose⟩
  · rw [same]
    exact hardened
  · rw [appended]
    apply hardened.append
    intro same
    obtain ⟨i, _, found, _⟩ := hardened
    have mem := mem_of_getElem? found
    rcases whose with next | ⟨current, stage⟩
    · have le := inv.entries _ mem
      dsimp only at le
      omega
    · rw [← same, current] at mem
      exact inv.uncommitted stage mem

end

inductive Pushes (its its' : LogWorker) (isPush : Prop) : Prop
  | nothing (queue : its'.precommittedQueue = its.precommittedQueue)
    (queueRfa : its'.precommittedQueueRfa = its.precommittedQueueRfa)
  | remote (push : isPush) (dependency : its.remoteFlushDependency = true)
    (queue : its'.precommittedQueue = its.precommittedQueue ++ [its.tx])
    (queueRfa : its'.precommittedQueueRfa = its.precommittedQueueRfa)
  | rfa (push : isPush) (dependency : its.remoteFlushDependency = false)
    (queue : its'.precommittedQueue = its.precommittedQueue)
    (queueRfa : its'.precommittedQueueRfa = its.precommittedQueueRfa ++ [its.tx])

variable (moved : WorkerStep cfg s w a its' clock)
include moved

theorem WorkerStep.pushes : Pushes (s.workers w) its'
      (a = .pushPrecommitted w ∧ (s.workers w).pc = .logged) := by
  cases moved with
  | startTX =>
    unfold LogWorker.startTX
    split <;> exact .nothing rfl rfl
  | syncClock =>
    unfold LogWorker.syncClock
    split <;> exact .nothing rfl rfl
  | access => exact .nothing (sameLog_access ..).queue (sameLog_access ..).queueRfa
  | readUncommitted =>
    exact .nothing (sameLog_checkLogDependency ..).queue (sameLog_checkLogDependency ..).queueRfa
  | commitTX =>
    unfold precommit
    split <;> exact .nothing rfl rfl
  | pushPrecommitted pc =>
    unfold LogWorker.pushPrecommitted
    split
    · exact .remote ⟨rfl, pc⟩ ‹_› rfl rfl
    · rename_i dependency
      exact .rfa ⟨rfl, pc⟩ (Bool.eq_false_iff.mpr dependency) rfl rfl
  | loadMinGsnFlushed | drawStartTs | keepStartTs | syncGSN | incrementGSN | checksDone
  | checkFails | checkPasses | drawCommitTs | submitDTEntry | abortTX | submitCommit =>
    exact .nothing rfl rfl

theorem WorkerStep.kept : its'.flushed = (s.workers w).flushed ∧
    its'.acknowledged = (s.workers w).acknowledged ∧
    (s.workers w).finished ⊆ its'.finished := by
  have ofSame : ∀ {its'}, SameLog (s.workers w) its' → its'.flushed = (s.workers w).flushed ∧
      its'.acknowledged = (s.workers w).acknowledged ∧ (s.workers w).finished ⊆ its'.finished :=
    fun same => ⟨same.flushed, same.acknowledged, same.finished ▸ Subset.refl _⟩
  cases moved with
  | startTX =>
    unfold LogWorker.startTX
    split <;> exact ⟨rfl, rfl, Subset.refl _⟩
  | syncClock =>
    unfold LogWorker.syncClock
    split <;> exact ⟨rfl, rfl, Subset.refl _⟩
  | access => exact ofSame (sameLog_access ..)
  | readUncommitted => exact ofSame (sameLog_checkLogDependency ..)
  | commitTX =>
    unfold precommit
    split <;> exact ⟨rfl, rfl, Subset.refl _⟩
  | pushPrecommitted =>
    unfold LogWorker.pushPrecommitted
    split <;> exact ⟨rfl, rfl, Subset.refl _⟩
  | drawCommitTs => exact ⟨rfl, rfl, subset_append_left _ _⟩
  | loadMinGsnFlushed | drawStartTs | keepStartTs | syncGSN | incrementGSN | checksDone
  | checkFails | checkPasses | submitDTEntry | abortTX | submitCommit =>
    exact ⟨rfl, rfl, Subset.refl _⟩

theorem WorkerStep.clock_le : s.globalClock ≤ clock := by
  cases moved with
  | drawStartTs => exact Nat.le_succ _
  | drawCommitTs => split <;> omega
  | startTX | syncClock | loadMinGsnFlushed | keepStartTs | syncGSN | incrementGSN
  | submitDTEntry | access | readUncommitted | abortTX | commitTX | checksDone | checkFails
  | checkPasses | submitCommit | pushPrecommitted => exact le_refl _

end TieredStore.Logging
