import TieredStore.Logging.WorkerLog

namespace TieredStore.Logging

open ConcurrencyControl (TxIsolationLevel)
open Transition Function List GroupCommitter LogWorker

variable {cfg : LogConfig} {s s' : LogState} {a : LogAction}
  {its its' : LogWorker} {clock : Nat} {copy : WorkerToLW} {gct : GroupCommitter} {isPush : Prop}
  {pages : Nat → PageGsn} {next : Nat}

namespace WorkerInv

variable (inv : WorkerInv its clock copy)
include inv

theorem takeCopy : WorkerInv its clock its.wtToLw :=
  { inv with
    copyWritten := le_of_eq inv.written
    flushedCopy := by
      rw [inv.written]
      exact le_trans inv.flushedCopy inv.copyWritten
    copied := le_refl _
    copyKnows := by
      intro tx mem level known
      rw [inv.written]
      rcases inv.finished tx mem with ⟨committing, rfl⟩ | hardened
      · exact absurd (inv.unpublished (.inr committing) level) (Nat.not_lt_of_le known)
      · exact hardened }

theorem flush : WorkerInv { its with flushed := copy.walWrittenOffset } clock copy :=
  { inv with
    flushedCopy := le_refl _
    acknowledged := fun tx mem =>
      ⟨(inv.acknowledged tx mem).1, (inv.acknowledged tx mem).2.mono inv.flushedCopy⟩ }

theorem drain {w : Nat}
    (ofQueue : ∀ tx ∈ its.committedOfQueue gct, Hardened its.log tx.id its.flushed)
    (ofQueueRfa : ∀ tx ∈ its.committedOfQueueRfa gct w, Hardened its.log tx.id its.flushed) :
    WorkerInv (its.drain gct w) clock copy :=
  { inv with
    queue := fun tx mem => inv.queue tx ((dropWhile_sublist _).subset mem)
    queueRfa := fun tx mem => inv.queueRfa tx (mem_of_mem_drop mem)
    acknowledged := by
      intro tx mem
      rcases mem_append.mp mem with earlier | new
      · rcases mem_append.mp earlier with old | new
        · exact inv.acknowledged tx old
        · exact ⟨(inv.queue tx ((takeWhile_sublist _).subset new)).1, ofQueue tx new⟩
      · exact ⟨(inv.queueRfa tx (mem_of_mem_take new)).1, ofQueueRfa tx new⟩ }

theorem signal {signaledUpTo : Nat} : WorkerInv (its.signal signaledUpTo) clock copy := by
  unfold LogWorker.signal
  split
  · exact { inv with }
  · exact inv

end WorkerInv

namespace GctPc

def Collected (count w : Nat) : GctPc → Prop
  | .cutting next => w < next
  | .copying next => w < next
  | .draining _ => w < count
  | .signaling _ _ => w < count
  | .publishing => False

def Ready (count w : Nat) : GctPc → Prop
  | .cutting next => w < next
  | .copying next => w < next
  | .draining next => next ≤ w ∧ w < count
  | .signaling next _ => next < w ∧ w < count
  | .publishing => False

def Flushed : GctPc → Prop
  | .draining _ => True
  | .signaling _ _ => True
  | _ => False

end GctPc

structure RoundInv (cfg : LogConfig) (s : LogState) : Prop where
  workers : ∀ w, WorkerInv (s.workers w) s.globalClock (s.gct.wtToLwCopy w)
  levels : ∀ w, ∀ tx ∈ (s.workers w).precommittedQueue, tx.level.atLeastSI = true
  cut : ∀ w, s.gct.pc.Ready cfg.workersCount w ∨ s.gct.pc = .copying w →
    s.gct.readyToCommitRfaCut w ≤ (s.workers w).precommittedQueueRfa.length
  ready : ∀ w, s.gct.pc.Ready cfg.workersCount w → ∀ tx ∈ (s.workers w).committedOfQueueRfa s.gct w,
      Hardened (s.workers w).log tx.id (s.gct.wtToLwCopy w).walWrittenOffset
  hardened : ∀ w, s.gct.pc.Collected cfg.workersCount w →
    s.gct.minAllWorkersHardenedCommitTs ≤ (s.gct.wtToLwCopy w).precommittedTxCommitTs
  flushed : s.gct.pc.Flushed → ∀ w, (s.gct.wtToLwCopy w).walWrittenOffset ≤ (s.workers w).flushed

theorem Pushes.committedOfQueueRfa {w : Nat} (pushes : Pushes its its' isPush)
    (cut : gct.readyToCommitRfaCut w ≤ its.precommittedQueueRfa.length) :
    its'.committedOfQueueRfa gct w = its.committedOfQueueRfa gct w := by
  unfold LogWorker.committedOfQueueRfa
  cases pushes with
  | nothing queue queueRfa => rw [queueRfa]
  | remote push dependency queue queueRfa => rw [queueRfa]
  | rfa push dependency queue queueRfa => rw [queueRfa, take_append_of_le_length cut]

theorem Pushes.length_le (pushes : Pushes its its' isPush) :
    its.precommittedQueueRfa.length ≤ its'.precommittedQueueRfa.length := by
  cases pushes with
  | nothing queue queueRfa => exact le_of_eq (congrArg length queueRfa.symm)
  | remote push dependency queue queueRfa => exact le_of_eq (congrArg length queueRfa.symm)
  | rfa push dependency queue queueRfa =>
    rw [queueRfa, length_append]
    exact Nat.le_add_right _ _

theorem GroupCommitter.takeCut_of_ne {next w length : Nat} (other : w ≠ next) :
    (gct.takeCut next length).readyToCommitRfaCut w = gct.readyToCommitRfaCut w :=
  update_of_ne other _ _

theorem GroupCommitter.takeCopy_self (gct : GroupCommitter) (next : Nat) :
    (gct.takeCopy next copy).wtToLwCopy next = copy :=
  update_self ..

theorem GroupCommitter.takeCopy_of_ne {next w : Nat} (other : w ≠ next) :
    (gct.takeCopy next copy).wtToLwCopy w = gct.wtToLwCopy w :=
  update_of_ne other _ _

namespace RoundInv

variable (inv : RoundInv cfg s)
include inv

theorem setRecord {w : Nat} (later : s.globalClock ≤ clock)
    (own : WorkerInv its' clock (s.gct.wtToLwCopy w))
    (levels : ∀ tx ∈ its'.precommittedQueue, tx.level.atLeastSI = true)
    (cut : s.gct.pc.Ready cfg.workersCount w ∨ s.gct.pc = .copying w →
      s.gct.readyToCommitRfaCut w ≤ its'.precommittedQueueRfa.length)
    (ready : s.gct.pc.Ready cfg.workersCount w → ∀ tx ∈ its'.committedOfQueueRfa s.gct w,
        Hardened its'.log tx.id (s.gct.wtToLwCopy w).walWrittenOffset)
    (flushed : its'.flushed = (s.workers w).flushed) :
    RoundInv cfg
      { s with
        globalClock := clock
        pages := pages
        workers := update s.workers w its' } := by
  refine ⟨?_, ?_, ?_, ?_, inv.hardened, ?_⟩
  · apply (forall_update_iff s.workers fun other its =>
      WorkerInv its clock (s.gct.wtToLwCopy other)).mpr
    exact ⟨own, fun other _ => (inv.workers other).clock_mono later⟩
  · apply (forall_update_iff s.workers fun _ its =>
      ∀ tx ∈ its.precommittedQueue, tx.level.atLeastSI = true).mpr
    exact ⟨levels, fun other _ => inv.levels other⟩
  · apply (forall_update_iff s.workers fun other its =>
      s.gct.pc.Ready cfg.workersCount other ∨ s.gct.pc = .copying other →
        s.gct.readyToCommitRfaCut other ≤ its.precommittedQueueRfa.length).mpr
    exact ⟨cut, fun other _ => inv.cut other⟩
  · apply (forall_update_iff s.workers fun other its =>
      s.gct.pc.Ready cfg.workersCount other →
        ∀ tx ∈ its.committedOfQueueRfa s.gct other,
          Hardened its.log tx.id (s.gct.wtToLwCopy other).walWrittenOffset).mpr
    exact ⟨ready, fun other _ => inv.ready other⟩
  · intro reached
    apply (forall_update_iff s.workers fun other its =>
      (s.gct.wtToLwCopy other).walWrittenOffset ≤ its.flushed).mpr
    exact ⟨flushed ▸ inv.flushed reached w, fun other _ => inv.flushed reached other⟩

theorem setPc {pc : GctPc}
    (ready : ∀ w, pc.Ready cfg.workersCount w ∨ pc = .copying w →
      s.gct.pc.Ready cfg.workersCount w)
    (collected : ∀ w, pc.Collected cfg.workersCount w →
      s.gct.pc.Collected cfg.workersCount w) (flushed : pc.Flushed → s.gct.pc.Flushed) :
    RoundInv cfg { s with gct := s.gct.setPc pc } where
  workers := inv.workers
  levels := inv.levels
  cut w taken := inv.cut w (.inl (ready w taken))
  ready w taken := inv.ready w (ready w (.inl taken))
  hardened w taken := inv.hardened w (collected w taken)
  flushed taken := inv.flushed (flushed taken)

theorem worker {w : Nat} (fresh : PushesFreshTs s a)
    (moved : WorkerStep cfg s w a its' clock) :
    RoundInv cfg
      { s with
        globalClock := clock
        pages := pages
        workers := update s.workers w its' } := by
  have pushes := moved.pushes
  apply inv.setRecord moved.clock_le ((inv.workers w).step moved)
  · intro tx mem
    cases pushes with
    | nothing queue | rfa push dependency queue => exact inv.levels w tx (queue ▸ mem)
    | remote push dependency queue =>
      rw [queue] at mem
      rcases mem_append.mp mem with old | new
      · exact inv.levels w tx old
      · rw [push.1] at fresh
        rw [mem_singleton.mp new]
        exact fresh.resolve_right (by simp [dependency])
  · exact fun taken => le_trans (inv.cut w taken) pushes.length_le
  · intro ready tx mem
    rw [pushes.committedOfQueueRfa (inv.cut w (.inl ready))] at mem
    exact (inv.workers w).keeps_hardened moved (inv.ready w ready tx mem)
  · exact moved.kept.1

theorem takeCut (pc : s.gct.pc = .cutting next) :
    RoundInv cfg
      { s with
        gct := s.gct.takeCut next (s.workers next).precommittedQueueRfa.length } := by
  have collected : ∀ {w}, w < next →
      s.gct.pc.Ready cfg.workersCount w := by
    intro w below
    rw [pc]
    exact below
  refine ⟨inv.workers, inv.levels, ?_, ?_, ?_, ?_⟩
  · intro w taken
    rcases taken with below | itself
    · rw [takeCut_of_ne (ne_of_lt below)]
      exact inv.cut w (.inl (collected below))
    · cases itself
      exact le_of_eq (update_self ..)
  · intro w below tx mem
    unfold committedOfQueueRfa at mem
    rw [takeCut_of_ne (ne_of_lt below)] at mem
    exact inv.ready w (collected below) tx mem
  · intro w below
    exact inv.hardened w (by rw [pc]; exact below)
  · intro flushed
    exact flushed.elim

theorem takeCopy (pc : s.gct.pc = .copying next) : RoundInv cfg
      { s with gct := s.gct.takeCopy next (s.workers next).wtToLw } := by
  have ready : ∀ {w}, w < next + 1 → w ≠ next →
      s.gct.pc.Ready cfg.workersCount w := by
    intro w below other
    rw [pc]
    exact lt_of_le_of_ne (Nat.le_of_lt_succ below) other
  refine ⟨?_, inv.levels, ?_, ?_, ?_, ?_⟩
  · intro w
    by_cases same : w = next
    · subst same
      rw [takeCopy_self]
      exact (inv.workers w).takeCopy
    · rw [takeCopy_of_ne same]
      exact inv.workers w
  · intro w taken
    have below : w < next + 1 := taken.resolve_right (by simp [GroupCommitter.takeCopy])
    by_cases same : w = next
    · exact inv.cut w (.inr (same ▸ pc))
    · exact inv.cut w (.inl (ready below same))
  · intro w below tx mem
    by_cases same : w = next
    · subst same
      rw [takeCopy_self, (inv.workers w).written]
      exact ((inv.workers w).queueRfa tx (mem_of_mem_take mem)).2
    · rw [takeCopy_of_ne same]
      exact inv.ready w (ready below same) tx mem
  · intro w below
    by_cases same : w = next
    · subst same
      rw [takeCopy_self]
      exact min_le_right _ _
    · rw [takeCopy_of_ne same]
      refine le_trans (min_le_left _ _) (inv.hardened w ?_)
      rw [pc]
      exact lt_of_le_of_ne (Nat.le_of_lt_succ below) same
  · intro flushed
    exact flushed.elim

theorem flush (pc : s.gct.pc = .cutting cfg.workersCount) : RoundInv cfg s.flush := by
  refine ⟨fun w => (inv.workers w).flush, inv.levels, ?_, ?_, ?_, ?_⟩
  · intro w taken
    have ready := taken.resolve_right (by simp [LogState.flush, GroupCommitter.setPc])
    exact inv.cut w (.inl (by rw [pc]; exact ready.2))
  · intro w ready tx mem
    exact inv.ready w (by rw [pc]; exact ready.2) tx mem
  · intro w below
    exact inv.hardened w (by rw [pc]; exact below)
  · intro _ w
    exact le_refl _

theorem drain (pc : s.gct.pc = .draining next) (below : next < cfg.workersCount) :
    RoundInv cfg
      { s.setWorker next ((s.workers next).drain s.gct next) with
        gct := s.gct.setPc
          (.signaling next ((s.workers next).signaledUpTo s.gct next)) } := by
  have flushed := inv.flushed (by rw [pc]; trivial) next
  have ofQueue : ∀ tx ∈ (s.workers next).committedOfQueue s.gct,
      Hardened (s.workers next).log tx.id (s.workers next).flushed := by
    intro tx mem
    have queued := (takeWhile_sublist _).subset mem
    have passes := mem_takeWhile_imp mem
    simp only [mayCommit, Bool.and_eq_true, decide_eq_true_eq] at passes
    have hardened := inv.hardened next (by rw [pc]; exact below)
    exact ((inv.workers next).copyKnows tx ((inv.workers next).queue tx queued).1
      (inv.levels next tx queued) (le_trans passes.2 hardened)).mono flushed
  have ofQueueRfa : ∀ tx ∈ (s.workers next).committedOfQueueRfa s.gct next,
      Hardened (s.workers next).log tx.id (s.workers next).flushed := by
    intro tx mem
    exact (inv.ready next (by rw [pc]; exact ⟨le_refl _, below⟩) tx mem).mono flushed
  have moved : RoundInv cfg
      { s with
        gct := s.gct.setPc
          (.signaling next ((s.workers next).signaledUpTo s.gct next)) } := by
    apply inv.setPc
    · intro w taken
      have ready := taken.resolve_right (by simp)
      rw [pc]
      exact ⟨le_of_lt ready.1, ready.2⟩
    · exact fun w taken => by rw [pc]; exact taken
    · exact fun _ => by rw [pc]; trivial
  refine moved.setRecord (le_refl _) ((inv.workers next).drain ofQueue ofQueueRfa) ?_ ?_ ?_ rfl
  · intro tx mem
    exact inv.levels next tx ((dropWhile_sublist _).subset mem)
  · intro taken
    exact absurd (taken.resolve_right (by simp [GroupCommitter.setPc])).1 (lt_irrefl _)
  · exact fun ready => absurd ready.1 (lt_irrefl _)

theorem signal {next signaledUpTo : Nat} (pc : s.gct.pc = .signaling next signaledUpTo) :
    RoundInv cfg
      { s.setWorker next ((s.workers next).signal signaledUpTo) with
        gct := s.gct.setPc (.draining (next + 1)) } := by
  have moved : RoundInv cfg { s with gct := s.gct.setPc (.draining (next + 1)) } := by
    apply inv.setPc
    · exact fun w taken => by rw [pc]; exact taken.resolve_right (by simp)
    · exact fun w taken => by rw [pc]; exact taken
    · exact fun _ => by rw [pc]; trivial
  have queue : ((s.workers next).signal signaledUpTo).precommittedQueue =
      (s.workers next).precommittedQueue := by
    unfold LogWorker.signal
    split <;> rfl
  refine moved.setRecord (le_refl _) (inv.workers next).signal
    (queue ▸ inv.levels next) ?_ ?_ ?_
  · intro taken
    exact absurd (taken.resolve_right (by simp [GroupCommitter.setPc])).1 (Nat.lt_irrefl _)
  · exact fun ready => absurd ready.1 (Nat.lt_irrefl _)
  · unfold LogWorker.signal
    split <;> rfl

theorem committer (moved : CommitterStep cfg s a s') : RoundInv cfg s' := by
  cases moved with
  | takeCut pc => exact inv.takeCut pc
  | takeCopy pc => exact inv.takeCopy pc
  | flush pc => exact inv.flush pc
  | drain pc below => exact inv.drain pc below
  | signal pc => exact inv.signal pc
  | publishMinGsn =>
    have moved : RoundInv cfg { s with gct := s.gct.setPc .publishing } :=
      inv.setPc (fun w taken => (taken.resolve_right (by simp)).elim)
        (fun w collected => collected.elim) fun flushed => flushed.elim
    exact { moved with }
  | publishSyncGsn =>
    refine ⟨inv.workers, inv.levels, ?_, ?_, ?_, ?_⟩
    · intro w taken
      exact absurd (taken.resolve_right (by simp [restart])) (Nat.not_lt_zero _)
    · exact fun w ready => absurd ready (Nat.not_lt_zero _)
    · exact fun w collected => absurd collected (Nat.not_lt_zero _)
    · exact fun flushed => flushed.elim

theorem step (fresh : PushesFreshTs s a) (taken : logStep cfg s a = some s') : RoundInv cfg s' := by
  cases logStep_cases taken with
  | worker _ moved => exact inv.worker fresh moved
  | committer moved => exact inv.committer moved

end RoundInv

theorem workerInv_fresh : WorkerInv fresh 256 ⟨0, 0, 0⟩ := by
  constructor <;> simp [fresh, LogTx.fresh, LogPc.stage]

theorem roundInv_fresh (cfg : LogConfig) : RoundInv cfg LogState.fresh := by
  refine ⟨fun _ => workerInv_fresh, ?_, ?_, ?_, ?_, ?_⟩
  · intro w tx _
    contradiction
  · intro w _
    exact le_refl _
  · exact fun w ready => absurd ready (Nat.not_lt_zero _)
  · exact fun w collected => absurd collected (Nat.not_lt_zero _)
  · exact fun flushed => flushed.elim

theorem roundInv_of_reaches (reached : LogReaches cfg PushesFreshTs s) : RoundInv cfg s := by
  apply reached.invariant (RoundInv cfg)
  · intro s fresh
    exact fresh ▸ roundInv_fresh cfg
  · intro s a s' inv fresh taken
    exact inv.step fresh taken

/-- In every state reached while only transactions with a fresh start timestamp are put
into `precommitted_queue`: the log of every transaction set to `COMMITTED` has been
flushed, with its `TX_COMMIT` entry. -/
theorem acknowledged_log_flushed {config : LogConfig} {state : LogState}
    (reached : LogReaches config PushesFreshTs state) (worker : Nat) {tx : LogTx}
    (acknowledged : tx ∈ (state.workers worker).acknowledged) :
    (∃ index < (state.workers worker).flushed,
        (state.workers worker).log[index]? = some ⟨.txCommit, tx.id⟩) ∧
      ∀ (index : Nat) (entry : LogEntry), (state.workers worker).log[index]? = some entry →
        entry.tx = tx.id → index < (state.workers worker).flushed := by
  have inv := (roundInv_of_reaches reached).workers worker
  obtain ⟨_, index, below, found, last⟩ := inv.acknowledged tx acknowledged
  refine ⟨⟨index, below, found⟩, ?_⟩
  intro other entry getEntry mine
  exact lt_of_le_of_lt (last other entry getEntry mine) below

theorem acknowledged_log_flushed_round :
    ∃ state, ∃ tx ∈ (state.workers 0).acknowledged,
      LogReaches ⟨1, true, true, false⟩ PushesFreshTs state ∧
      ∃ index < (state.workers 0).flushed,
        (state.workers 0).log[index]? = some ⟨.txCommit, tx.id⟩ := by
  let actions := beginActions 0 .snapshotIsolation ++ [.submitDTEntry 0 7 true] ++
    commitActions 0 1 ++ [.takeCut, .takeCopy, .flush, .drain]
  obtain ⟨state, ran, one⟩ : ∃ state,
      run (logStep ⟨1, true, true, false⟩) LogState.fresh actions = some state ∧
        (state.workers 0).acknowledged.length = 1 := ⟨_, rfl, rfl⟩
  obtain ⟨tx, isOne⟩ := length_eq_one_iff.mp one
  have member : tx ∈ (state.workers 0).acknowledged := by simp [isOne]
  have start : LogReaches ⟨1, true, true, false⟩ PushesFreshTs LogState.fresh := .start rfl
  have permitted : AllowedAlong (logStep ⟨1, true, true, false⟩) PushesFreshTs LogState.fresh
      actions := by decide
  have reached := start.run_of_allowed permitted ran
  exact ⟨state, tx, member, reached, (acknowledged_log_flushed reached 0 member).1⟩

/-- A reader at READ COMMITTED has start timestamp 0 and a dependency on another
worker.  It commits after the round has copied its log, passes both tests of
`precommitted_queue`, and is set to `COMMITTED` with no `TX_COMMIT` entry flushed. -/
theorem readCommitted_acknowledged_unflushed :
    ∃ state, LogReaches ⟨2, true, true, false⟩ (fun _ _ => True) state ∧
      ∃ tx ∈ (state.workers 0).acknowledged,
        (state.workers 0).flushed = 1 ∧
        (state.workers 0).log[1]? = some ⟨.txCommit, tx.id⟩ := by
  let actions := beginActions 1 .snapshotIsolation ++ [.submitDTEntry 1 7 true] ++
    commitActions 1 1 ++ beginActions 0 .readCommitted ++
    [.access 0 .leafLookup 1 0, .takeCut, .takeCopy, .takeCut, .takeCopy] ++
    commitActions 0 1 ++ [.flush, .drain]
  obtain ⟨state, ran, acknowledged, flushed, entry⟩ : ∃ state,
      run (logStep ⟨2, true, true, false⟩) LogState.fresh actions = some state ∧
        (state.workers 0).acknowledged.map LogTx.id = [1] ∧
        (state.workers 0).flushed = 1 ∧
        (state.workers 0).log[1]? = some ⟨.txCommit, 1⟩ := ⟨_, rfl, rfl, rfl, rfl⟩
  have start : LogReaches ⟨2, true, true, false⟩ (fun _ _ => True) LogState.fresh := .start rfl
  have reached := start.run_of_forall (fun _ _ _ => trivial) ran
  obtain ⟨tx, isOne, id⟩ := map_eq_singleton_iff.mp acknowledged
  refine ⟨state, reached, tx, by simp [isOne], flushed, ?_⟩
  rw [id]
  exact entry

end TieredStore.Logging
