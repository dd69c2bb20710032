import TieredStore.ConcurrencyControl.Uncommitted
import TieredStore.ConcurrencyControl.Watermarks

namespace TieredStore.ConcurrencyControl

open Transition Function List State

variable {cfg config : Config} {s s' state state' : State} {a action : Action} {w worker : Nat}
  {toWrite : Bool} {reader : Nat} {key : Bytes} {versions : List Version}

def State.OwnTimestamp (s : State) (w : Nat) : Prop :=
  0 < (s.workers w).tx.startTs ∧ ∀ pair ∈ (s.workers w).history, pair.2 < (s.workers w).tx.startTs

instance (w : Nat) : Decidable (s.OwnTimestamp w) :=
  inferInstanceAs (Decidable (_ ∧ _))

def ChangesWithOwnTimestamp (s : State) : Action → Prop
  | .access w (.change _ _ _) => s.OwnTimestamp w
  | _ => True

def Action.isChange : Action → Bool
  | .access _ (.change _ _ _) => true
  | _ => false

theorem changesWithOwnTimestamp_of_isChange (quiet : a.isChange = false) :
    ChangesWithOwnTimestamp s a := by
  cases a with
  | access w own => cases own <;> trivial
  | _ => trivial

def CommittedCaches (s : State) : Prop :=
  ∀ reader owner, (s.workers reader).snapshotCache owner = 0 ∨
    ∃ commitTs, (commitTs, (s.workers reader).snapshotCache owner) ∈ (s.workers owner).history

theorem TreeInv.lcb_committed (trees : TreeInv cfg s) (owner startTs : Nat) :
    (s.workers owner).commitTree.lcb startTs = 0 ∨
      ∃ commitTs, (commitTs, (s.workers owner).commitTree.lcb startTs) ∈
        (s.workers owner).history := by
  rcases CommitTree.lcb_eq (trees.sortedTree owner) with zero | ⟨commitTs, isLcb⟩
  · exact .inl zero
  · exact .inr ⟨commitTs, trees.inside owner isLcb.member⟩

theorem cache_committed_of_step (trees : TreeInv cfg s) (caches : CommittedCaches s)
    (taken : step cfg s a = some s') (reader owner : Nat) :
    (s'.workers reader).snapshotCache owner = 0 ∨
      ∃ commitTs, (commitTs, (s'.workers reader).snapshotCache owner) ∈
        (s.workers owner).history := by
  by_cases acts : reader = a.actor
  · subst acts
    cases effect_of_step taken with
    | accesses cache cacheTs hasWrote wal pc test core =>
      have cached : (s'.workers a.actor).snapshotCache = cache :=
        congrArg (fun its => its.snapshotCache) core
      rw [cached]
      cases test with
      | same => exact caches a.actor owner
      | cached other forTs =>
        by_cases isOther : owner = other
        · subst isOther
          rw [update_self]
          exact trees.lcb_committed owner forTs
        · rw [update_of_ne isOther]
          exact caches a.actor owner
    | _ =>
      rename_i core _
      have same : (s'.workers a.actor).snapshotCache owner =
          (s.workers a.actor).snapshotCache owner :=
        congrArg (fun its => its.snapshotCache owner) core
      rw [same]
      exact caches a.actor owner
  · have same : (s'.workers reader).snapshotCache owner =
        (s.workers reader).snapshotCache owner :=
      congrArg (fun its => its.snapshotCache owner) (others_of_step taken acts).1
    rw [same]
    exact caches reader owner

theorem CommittedCaches.step (caches : CommittedCaches s) (trees : TreeInv cfg s)
    (taken : step cfg s a = some s') : CommittedCaches s' := by
  intro reader owner
  rcases cache_committed_of_step trees caches taken reader owner with zero | ⟨commitTs, mem⟩
  · exact .inl zero
  · exact .inr ⟨commitTs, history_of_step taken owner mem⟩

structure TestInv (cfg : Config) (s : State) : Prop where
  commits : CommitInv cfg s
  caches : CommittedCaches s
  lwm : LwmInv cfg (fun _ _ => True) s

theorem TestInv.step (inv : TestInv cfg s) (taken : step cfg s a = some s') : TestInv cfg s' where
  commits := inv.commits.step taken
  caches := inv.caches.step inv.commits.trees taken
  lwm := by
    apply inv.lwm.step inv.commits.trees _ (fun _ _ => trivial) taken
    intro w after next allLwm oltpLwm skippedAWorker pc pair mem before
    trivial

namespace State.OwnTimestamp

variable {lwm : Nat}

theorem lt_of_committed (own : s.OwnTimestamp w) {startTs : Nat}
    (committed : startTs = 0 ∨ ∃ commitTs, (commitTs, startTs) ∈ (s.workers w).history) :
    startTs < (s.workers w).tx.startTs := by
  rcases committed with rfl | ⟨commitTs, mem⟩
  · exact own.1
  · exact own.2 _ mem

theorem le_of_backed (own : s.OwnTimestamp w)
    (backed : Backed (fun _ => True) (s.workers w).history lwm) :
    lwm ≤ (s.workers w).tx.startTs := by
  rcases backed with rfl | ⟨pair, mem, le, -⟩
  · exact Nat.zero_le _
  · exact le_trans le (le_of_lt (own.2 pair mem))

end State.OwnTimestamp

/-- What `isVisibleForMe` makes of a version that is not visible: the answer false at snapshot
isolation, and none where the process stops below it. -/
def WorkerState.refusal (its : WorkerState) : Option Bool :=
  if its.tx.level.atLeastSI then some false else none

theorem TestInv.not_visible (inv : TestInv cfg s) {me other currentTs : Nat}
    (ne : me ≠ other) (isOther : other < cfg.workersCount) (own : s.OwnTimestamp other)
    (tests : toWrite = true ∨ (s.workers me).tx.level ≠ .readUncommitted) :
    (isVisibleForMe s me other ⟨false, (s.workers other).tx.startTs⟩ toWrite
      currentTs).1 = (s.workers me).refusal := by
  have trees := inv.commits.trees
  have cache := own.lt_of_committed (inv.caches me other)
  have lwm := own.le_of_backed (inv.lwm.cached me other isOther)
  have query (forTs : Nat) := own.lt_of_committed (trees.lcb_committed other forTs)
  have tested : ¬ (toWrite = false ∧ (s.workers me).tx.level = .readUncommitted) := by
    rintro ⟨reads, weak⟩
    rcases tests with writes | strong
    · rw [reads] at writes
      contradiction
    · exact strong weak
  unfold isVisibleForMe
  dsimp only
  rw [if_neg tested, if_neg ne]
  split
  · rename_i weak
    have below : (s.workers me).tx.level.atLeastSI = false := by
      rcases weak with level | level <;> rw [level] <;> rfl
    have late := query currentTs
    rw [if_neg (by simp), if_neg (by omega), WorkerState.refusal, below, if_neg (by omega)]
    rfl
  · rename_i strong
    have atLeast : (s.workers me).tx.level.atLeastSI = true := by
      obtain ⟨notRC, notRU⟩ := not_or.mp strong
      cases level : (s.workers me).tx.level <;> simp_all [TxIsolationLevel.atLeastSI]
    rw [if_neg (by simp), if_neg (by omega), WorkerState.refusal, atLeast, if_pos rfl]
    split
    · simpa using cache
    · rw [if_neg (by omega)]
      split
      · simpa using query _
      · rfl

theorem WorkerState.refusal_ne (its : WorkerState) : its.refusal ≠ some true := by
  unfold refusal
  split <;> simp

theorem isVisibleForMe_markAsWrite (s : State) (me other : Nat) (txTs : TxTs)
    (toWrite : Bool) (currentTs : Nat) :
    (isVisibleForMe (s.markAsWrite me) me other txTs toWrite currentTs).1 =
      (isVisibleForMe s me other txTs toWrite currentTs).1 := by
  by_cases same : me = other
  · unfold isVisibleForMe
    simp only
    split <;> split <;> rfl
  · have others : (s.markAsWrite me).workers other = s.workers other :=
      s.workers_setWorker_of_ne me _ (symm same)
    unfold isVisibleForMe
    rw [others]
    simp only [markAsWrite, workers_setWorker]
    repeat' split
    all_goals rfl

structure OpenInv (cfg : Config) (s : State) : Prop where
  outside : ∀ w, cfg.workersCount ≤ w → (s.workers w).pc = .idle
  stamped : ∀ w, s.pending w ≠ [] → s.OwnTimestamp w
  reads : ∀ reader < cfg.workersCount, ∀ key versions,
    (s.workers reader).pc = .reading key versions → versions <:+ s.tuples key

theorem lt_of_open (outside : ∀ w, cfg.workersCount ≤ w → (s.workers w).pc = .idle)
    (isOpen : (s.workers w).pc.isOpen = true) : w < cfg.workersCount := by
  by_contra beyond
  rw [outside w (by omega)] at isOpen
  contradiction

section

variable (taken : step cfg s a = some s')
include taken

theorem stamped_of_step (starts : StartInv s) (stamped : ∀ w, s.pending w ≠ [] → s.OwnTimestamp w)
    (permitted : ChangesWithOwnTimestamp s a) (logged : s'.pending w ≠ []) :
    (s.workers w).pc.isOpen = true ∧ s.OwnTimestamp w := by
  have keeps (before : s.pending w ≠ []) :
      (s.workers w).pc.isOpen = true ∧ s.OwnTimestamp w := by
    obtain ⟨key, mem⟩ := exists_mem_of_ne_nil _ before
    exact ⟨open_of_pending mem, stamped w before⟩
  by_cases acts : w = a.actor
  · subst acts
    cases tuples_of_step starts taken with
    | quiet tuples outcome log => exact keeps (log ▸ logged)
    | push key _ _ v isChange pc =>
      rw [isChange] at permitted
      exact ⟨by rw [pc]; rfl, permitted⟩
    | pop key _ before => exact keeps (by simp [before])
    | ends _ isOpen _ tuples outcome closed => exact absurd (State.pending_of_closed closed) logged
  · exact keeps (pending_of_others taken acts ▸ logged)

theorem State.OwnTimestamp.of_step (own : s.OwnTimestamp w)
    (isOpen : (s.workers w).pc.isOpen = true)
    (isOpen' : (s'.workers w).pc.isOpen = true) : s'.OwnTimestamp w := by
  unfold OwnTimestamp
  rw [startTs_of_open taken isOpen]
  cases tree_of_step taken w with
  | same array history => exact history ▸ own
  | commit pc pc' =>
    rw [pc'] at isOpen'
    contradiction
  | rewrite next set pc all array history => exact history ▸ own

theorem tuples_of_read (starts : StartInv s) (isReader : reader < cfg.workersCount)
    (reading : (s.workers reader).pc.readKey? = some key) : s'.tuples key = s.tuples key := by
  have notChanged {changed : Bytes} (latched : s.notRead cfg changed = true) :
      key ≠ changed := by
    rintro rfl
    have free := all_eq_true.mp latched reader (mem_range.mpr isReader)
    exact of_decide_eq_true free reading
  cases tuples_of_step starts taken with
  | quiet tuples => rw [tuples]
  | push changed _ _ v _ pc latched _ _ tuples
  | pop changed _ _ latched tuples => rw [tuples, update_of_ne (notChanged latched)]
  | ends _ _ _ tuples => rw [tuples]

end

theorem PcMove.reading {level level' : TxIsolationLevel} {pc pc' : WorkerPc}
    (move : PcMove level pc level' pc') (reads : pc' = .reading key versions) :
    pc = .running ∨ ∃ versions, pc = .reading key versions := by
  cases move with
  | startTX =>
    unfold afterStart at reads
    split at reads <;> split at reads <;> simp at reads
  | nothingToClean | rewrite =>
    unfold afterClean at reads
    split at reads <;> simp at reads
  | @skipRefresh after | @endRefresh after => cases after <;> simp [AfterRefresh.pc] at reads
  | finish => split at reads <;> simp at reads
  | _ => simp_all

theorem read_of_access {own : AccessAction} (stepped : AccessStep cfg s w own s')
    (reading : (s'.workers w).pc = .reading key versions) :
    (versions = s.tuples key ∧ s'.tuples = s.tuples) ∨
      ∃ before, (s.workers w).pc = .reading key before ∧ versions <:+ before := by
  cases stepped with
  | isVisibleForMe pc =>
    rw [(isVisibleForMe_tested ..).pc, pc] at reading
    contradiction
  | @change changed change currentTs v pc =>
    have tested := mayChange_tested (s.markAsWrite w) w (s.tuples changed) currentTs
    simp only [pushVersion, tested.pc] at reading
    simp [markAsWrite, pc] at reading
  | @changeFails changed change currentTs pc =>
    have tested := mayChange_tested (s.markAsWrite w) w (s.tuples changed) currentTs
    rw [tested.pc] at reading
    simp [markAsWrite, pc] at reading
  | lookup =>
    simp only [pc_setPc] at reading
    obtain ⟨rfl, rfl⟩ := reading
    exact .inl ⟨rfl, rfl⟩
  | @check _ v _ currentTs _ pc =>
    rw [pc_setPc] at reading
    split at reading
    · contradiction
    · cases reading
      exact .inr ⟨_, pc, suffix_cons _ _⟩
  | commitReadOnly =>
    simp only [setPc, workers_setWorker] at reading
    split at reading <;> contradiction
  | storeLatestWrite =>
    simp only [workers_setWorker] at reading
    split at reading <;> contradiction
  | undoNext pc => simp [pc] at reading
  | _ => simp at reading

theorem read_of_step (taken : step cfg s a = some s')
    (reading : (s'.workers reader).pc = .reading key versions) :
    (versions = s.tuples key ∧ s'.tuples = s.tuples) ∨
      ∃ before, (s.workers reader).pc = .reading key before ∧ versions <:+ before := by
  by_cases acts : reader = a.actor
  · subst acts
    have reads := (pc_of_step taken).reading reading
    obtain ⟨-, stepped⟩ := step_cases taken
    cases stepped with
    | start stepped | refresh stepped => cases stepped <;> simp_all [Action.actor]
    | access stepped => exact read_of_access stepped reading
  · rw [(others_of_step taken acts).2] at reading
    exact .inr ⟨versions, reading, suffix_refl _⟩

theorem OpenInv.step (inv : OpenInv cfg s) (starts : StartInv s)
    (permitted : ChangesWithOwnTimestamp s a)
    (taken : step cfg s a = some s') : OpenInv cfg s' where
  outside w beyond := by
    have inside := (step_cases taken).1
    rw [(others_of_step taken (by omega)).2]
    exact inv.outside w beyond
  stamped w logged := by
    obtain ⟨isOpen, own⟩ := stamped_of_step taken starts inv.stamped permitted logged
    obtain ⟨key, mem⟩ := exists_mem_of_ne_nil _ logged
    exact own.of_step taken isOpen (open_of_pending mem)
  reads reader isReader key versions reading := by
    rcases read_of_step taken reading with ⟨found, tuples⟩ | ⟨before, was, suffix⟩
    · exact found ▸ tuples ▸ suffix_refl _
    · have same : s'.tuples key = s.tuples key :=
        tuples_of_read taken starts isReader (by rw [was]; rfl)
      rw [same]
      exact suffix.trans (inv.reads reader isReader key before was)

structure DirtyInv (cfg : Config) (s : State) : Prop where
  tests : TestInv cfg s
  starts : StartInv s
  ids : IdInv s
  opens : OpenInv cfg s
  chains : ChainInv s

namespace DirtyInv

theorem not_visible (inv : DirtyInv cfg s) {v : Version} (mem : v ∈ s.tuples key)
    (dirty : s.outcome v.writer ≠ some .committed) {me currentTs : Nat} (ne : me ≠ v.workerId)
    (tests : toWrite = true ∨ (s.workers me).tx.level ≠ .readUncommitted) :
    (isVisibleForMe s me v.workerId ⟨false, v.txTs⟩ toWrite currentTs).1 =
      (s.workers me).refusal := by
  obtain ⟨owner, _, _, chain⟩ := inv.chains key
  have inFront := chain.mem_front mem dirty
  have isOpen := chain.open_of_front inFront
  obtain ⟨workerId, -, txTs⟩ := chain.own v inFront
  have logged : s.pending owner ≠ [] := by
    intro empty
    have length := chain.logged
    rw [empty] at length
    exact absurd (length_pos_of_mem inFront) (by simp [length])
  rw [workerId] at ne ⊢
  rw [txTs]
  exact inv.tests.not_visible ne (lt_of_open inv.opens.outside isOpen)
    (inv.opens.stamped owner logged) tests

theorem guarded (inv : DirtyInv cfg s) (w : Nat) : Guarded s w := by
  intro key _ head _ tuple visible
  by_contra dirty
  obtain ⟨uncommitted, ne⟩ := not_or.mp dirty
  have mem : head ∈ s.tuples key := by simp [tuple]
  rw [tuple, mayChange, isVisibleForMe_markAsWrite,
    inv.not_visible mem uncommitted (symm ne) (.inl rfl)] at visible
  exact WorkerState.refusal_ne _ visible

theorem step (inv : DirtyInv cfg s) (permitted : ChangesWithOwnTimestamp s a)
    (taken : step cfg s a = some s') : DirtyInv cfg s' where
  tests := inv.tests.step taken
  starts := inv.starts.step taken
  ids := inv.ids.step inv.starts taken
  opens := inv.opens.step inv.starts permitted taken
  chains := inv.chains.step inv.ids inv.starts (inv.guarded a.actor) taken

end DirtyInv

theorem Initial.dirtyInv (initial : Initial cfg s) : DirtyInv cfg s := by
  have nothing (w : Nat) : s.pending w = [] := by
    apply State.pending_of_closed
    rw [initial.pc]
    rfl
  constructor
  · exact ⟨initial.commitInv, fun reader owner => .inl (initial.snapshotCache reader owner),
      initial.lwmInv _⟩
  · intro w _
    exact initial.wal w
  · constructor
    · intro w
      rw [initial.id, initial.nextTransaction]
      exact zero_lt_one
    · intro id _
      exact initial.outcome id
    · intro w _
      exact initial.outcome _
    · intro w _ _ active
      rw [initial.pc] at active
      contradiction
  · constructor
    · intro w _
      exact initial.pc w
    · intro w logged
      exact absurd (nothing w) logged
    · intro reader _ key _ reading
      rw [initial.pc] at reading
      contradiction
  · intro key
    refine ⟨0, [], [], initial.tuples key, ?_, ?_, ?_, ?_⟩
    · simp
    · simp
    · simp [nothing]
    · simp [nothing]

structure NoDirtyAccess (cfg : Config) (s : State) : Prop where
  hidden : ∀ key, ∀ v ∈ s.tuples key, s.outcome v.writer ≠ some .committed →
    ∀ me < cfg.workersCount, me ≠ v.workerId → ∀ toWrite currentTs,
      (toWrite = true ∨ (s.workers me).tx.level ≠ .readUncommitted) →
      (isVisibleForMe s me v.workerId ⟨false, v.txTs⟩ toWrite currentTs).1 =
        if (s.workers me).tx.level.atLeastSI then some false else none
  oneWriter : ∀ key, ∀ v ∈ s.tuples key, ∀ other ∈ s.tuples key,
    s.outcome v.writer ≠ some .committed →
    s.outcome other.writer ≠ some .committed → v.workerId = other.workerId
  reads : ∀ reader < cfg.workersCount, ∀ key v older currentTs,
    (s.workers reader).tx.level ≠ .readUncommitted →
    (s.workers reader).pc = .reading key (v :: older) →
    (isVisibleForMe s reader v.workerId ⟨false, v.txTs⟩ false currentTs).1 = some true →
    s.outcome v.writer = some .committed ∨ v.workerId = reader

def dirtyAccess : List Action :=
  startRC 0 ++ startRC 1 ++ [.access 0 (.change [1] (.insert [7]) 257),
    .access 1 (.change [1] (.update [8]) 257), .access 0 (.lookup [1])]

/-- Two workers at read committed change one tuple, and one reads what the other
has not committed. -/
theorem dirty_access_at_read_committed :
    ∃ state, Reaches ⟨2, false⟩ (fun _ _ => True) state ∧
      (∀ worker < 2, (state.workers worker).tx.level = .readCommitted) ∧
      state.tuples [1] = [⟨1, 0, [8], false, 2⟩, ⟨0, 0, [7], false, 1⟩] ∧
      state.outcome 1 = none ∧ state.outcome 2 = none ∧
      (state.workers 0).pc = .reading [1] (state.tuples [1]) ∧
      ∀ toWrite, (isVisibleForMe state 0 1 ⟨false, 0⟩ toWrite 257).1 = some true := by
  obtain ⟨state, ran, facts⟩ : ∃ state,
      run (step ⟨2, false⟩) (fresh ⟨2, false⟩) dirtyAccess = some state ∧
        (∀ worker < 2, (state.workers worker).tx.level = .readCommitted) ∧
        state.tuples [1] = [⟨1, 0, [8], false, 2⟩, ⟨0, 0, [7], false, 1⟩] ∧
        state.outcome 1 = none ∧ state.outcome 2 = none ∧
        (state.workers 0).pc = .reading [1] (state.tuples [1]) ∧
        ∀ toWrite, (isVisibleForMe state 0 1 ⟨false, 0⟩ toWrite 257).1 = some true :=
    ⟨_, rfl, by decide, rfl, rfl, rfl, rfl, by decide⟩
  refine ⟨state, ?_, facts⟩
  apply (Reachable.start (initial_fresh _)).run_of_forall _ ran
  intro action member state
  trivial

theorem no_dirty_access (reached : Reaches config ChangesWithOwnTimestamp state) :
    NoDirtyAccess config state := by
  have inv : DirtyInv config state := by
    apply reached.invariant (DirtyInv config)
    · intro state initial
      exact initial.dirtyInv
    · intro state action state' inv permitted taken
      exact inv.step permitted taken
  constructor
  · intro key version member dirty me isMe different toWrite currentTs tests
    exact inv.not_visible member dirty different tests
  · intro key version member other member' dirty dirty'
    obtain ⟨owner, front, back, chain⟩ := inv.chains key
    have own := chain.own version (chain.mem_front member dirty)
    have own' := chain.own other (chain.mem_front member' dirty')
    exact own.workerId.trans own'.workerId.symm
  · intro reader isReader key version older currentTs strong reading visible
    have suffix := inv.opens.reads reader isReader key _ reading
    have member : version ∈ state.tuples key := suffix.subset mem_cons_self
    by_contra dirty
    obtain ⟨uncommitted, different⟩ := not_or.mp dirty
    rw [inv.not_visible member uncommitted (symm different) (.inr strong)] at visible
    exact WorkerState.refusal_ne _ visible

/-- After a transaction that drew a start timestamp and wrote nothing, worker 0
changes a tuple at read committed, and worker 1 looks at it. -/
def stampedAccess : List Action :=
  startSI 0 ++ [.access 0 .commitTX, .refresh 0 .skip] ++ startRC 0 ++ startRC 1 ++
    [.access 1 (.lookup [2])]

theorem no_dirty_access_stampedAccess :
    ∃ state, Reaches ⟨2, false⟩ ChangesWithOwnTimestamp state ∧
      NoDirtyAccess ⟨2, false⟩ state ∧
      state.tuples [1] = [⟨0, 256, [7], false, 2⟩] ∧ state.outcome 2 = none := by
  obtain ⟨state, state', ran, stamped, taken, tuple, outcome⟩ : ∃ state state',
      run (step ⟨2, false⟩) (fresh ⟨2, false⟩) stampedAccess = some state ∧
        state.OwnTimestamp 0 ∧
        step ⟨2, false⟩ state (.access 0 (.change [1] (.insert [7]) 258)) = some state' ∧
        state'.tuples [1] = [⟨0, 256, [7], false, 2⟩] ∧ state'.outcome 2 = none :=
    ⟨_, _, rfl, by decide, rfl, rfl, rfl⟩
  have reached : Reaches ⟨2, false⟩ ChangesWithOwnTimestamp state := by
    apply (Reachable.start (initial_fresh _)).run_of_forall _ ran
    intro action member state
    have quiet : stampedAccess.all (fun action => !action.isChange) = true := by decide
    apply changesWithOwnTimestamp_of_isChange
    simpa using all_eq_true.mp quiet action member
  have permitted : ChangesWithOwnTimestamp state
      (.access 0 (.change [1] (.insert [7]) 258)) := stamped
  have reached' := reached.next permitted taken
  exact ⟨state', reached', no_dirty_access reached', tuple, outcome⟩

end TieredStore.ConcurrencyControl
