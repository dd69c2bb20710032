import TieredStore.ConcurrencyControl.OldestSnapshot

namespace TieredStore.ConcurrencyControl

open Transition List RefreshStage State

variable {cfg config : Config} {s s' : State} {a action : Action} {pair : Nat × Nat}
  {oldestTx : Nat}

def Precedes (cfg : Config) (s : State) (pair : Nat × Nat) : Prop :=
  pair.1 < s.globalClock ∧ ∀ reader < cfg.workersCount, s.HasSnapshot reader →
    pair.1 < (s.workers reader).tx.startTs

theorem Precedes.step (precedes : Precedes cfg s pair)
    (phase : PhaseInv s) (taken : step cfg s a = some s') : Precedes cfg s' pair := by
  refine ⟨lt_of_lt_of_le precedes.1 (clock_of_step taken), ?_⟩
  intro reader isReader holds
  rcases snapshot_of_step phase taken holds with ⟨before, startTs⟩ | ⟨-, -, -, startTs, -⟩
  · rw [startTs]
    exact precedes.2 reader isReader before
  · rw [startTs]
    exact precedes.1

theorem ScannedBelow.precedes
    (scanned : ScannedBelow s cfg.workersCount oldestTx) (inv : SwitchInv s)
    (past : pair.1 < s.globalClock) (old : pair.1 < oldestTx) : Precedes cfg s pair := by
  refine ⟨past, ?_⟩
  intro reader isReader holds
  rcases scanned reader isReader with rc | below
  · exact absurd holds (inv.not_hasSnapshot rc)
  · exact lt_of_lt_of_le old (below.held holds)

theorem OldestBound.oldestBacks (bound : OldestBound cfg s) (inv : SwitchInv s)
    (trees : TreeInv cfg s) : OldestBacks (Precedes cfg) s := by
  intro w after next allLwm oltpLwm skippedAWorker pc pair mem old
  have scanned := bound.published w after _ pc rfl
  exact scanned.precedes inv (trees.past next pair mem) old

theorem State.receiver_setWorker (s : State) (w : Nat) {its : WorkerState}
    (same : its.allLwmReceiver = (s.workers w).allLwmReceiver) (other : Nat) :
    ((s.setWorker w its).workers other).allLwmReceiver = (s.workers other).allLwmReceiver := by
  by_cases isWorker : other = w
  · subst isWorker
    rw [workers_setWorker, same]
  · rw [s.workers_setWorker_of_ne w its isWorker]

theorem State.receiver_setPc (s : State) (w : Nat) (pc : WorkerPc) (other : Nat) :
    ((s.setPc w pc).workers other).allLwmReceiver = (s.workers other).allLwmReceiver := by
  apply receiver_setWorker
  rfl

theorem Tested.allLwmReceiver {tested : State} {me : Nat} (test : Tested s me tested) (w : Nat) :
    (tested.workers w).allLwmReceiver = (s.workers w).allLwmReceiver := by
  cases test with
  | same => rfl
  | cached =>
    apply receiver_setWorker
    rfl

variable {w worker : Nat}

theorem receiver_of_start {own : StartAction} (stepped : StartStep cfg s w own s') (other : Nat) :
    (s'.workers other).allLwmReceiver = (s.workers other).allLwmReceiver := by
  cases stepped <;> apply receiver_setWorker <;> rfl

theorem receiver_of_access {own : AccessAction}
    (stepped : AccessStep cfg s w own s') (other : Nat) :
    (s'.workers other).allLwmReceiver = (s.workers other).allLwmReceiver := by
  have marked : ((s.markAsWrite w).workers other).allLwmReceiver =
      (s.workers other).allLwmReceiver := by
    apply receiver_setWorker
    rfl
  cases stepped with
  | isVisibleForMe => exact (isVisibleForMe_tested ..).allLwmReceiver other
  | @change key change currentTs =>
    have tested := mayChange_tested (s.markAsWrite w) w (s.tuples key) currentTs
    rw [← marked, ← tested.allLwmReceiver other]
    apply receiver_setWorker
    rfl
  | changeFails => exact ((mayChange_tested ..).allLwmReceiver other).trans marked
  | @check key v _ currentTs =>
    have tested := isVisibleForMe_tested s w v.workerId ⟨false, v.txTs⟩ false currentTs
    rw [← tested.allLwmReceiver other]
    apply receiver_setWorker
    rfl
  | _ =>
    apply receiver_setWorker
    rfl

theorem receiver_of_step (taken : step cfg s a = some s') (w : Nat) :
    (s'.workers w).allLwmReceiver = (s.workers w).allLwmReceiver ∨
      ∃ sender after itsOltpLwm allLwm oltpLwm skippedAWorker,
        (s.workers sender).pc = .refreshing after
          (.sending w (s'.workers w).allLwmReceiver itsOltpLwm allLwm oltpLwm skippedAWorker) := by
  obtain ⟨-, stepped⟩ := step_cases taken
  cases stepped with
  | start stepped => exact .inl (receiver_of_start stepped w)
  | @refresh sender _ _ stepped =>
    cases stepped with
    | @sendLwm after next itsAllLwm itsOltpLwm allLwm oltpLwm skippedAWorker pc =>
      rw [receiver_setPc]
      by_cases isNext : w = next
      · subst isNext
        rw [workers_setWorker]
        exact .inr ⟨sender, after, itsOltpLwm, allLwm, oltpLwm, skippedAWorker, pc⟩
      · left
        rw [workers_setWorker_of_ne _ _ _ isNext]
    | compareLatest =>
      left
      rw [receiver_setPc]
      apply receiver_setWorker
      rfl
    | _ =>
      left
      apply receiver_setWorker
      rfl
  | access stepped => exact .inl (receiver_of_access stepped w)

structure ReceiverInv (ok : State → Nat × Nat → Prop) (s : State) : Prop where
  received : ∀ w, Backed (ok s) (s.workers w).history (s.workers w).allLwmReceiver
  sent : ∀ w after next itsAllLwm itsOltpLwm allLwm oltpLwm skippedAWorker,
    (s.workers w).pc = .refreshing after
      (.sending next itsAllLwm itsOltpLwm allLwm oltpLwm skippedAWorker) →
    Backed (ok s) (s.workers next).history itsAllLwm

theorem contribute_sends {next allLwm oltpLwm : Nat} {skipped : Bool}
    {next' itsAllLwm itsOltpLwm allLwm' oltpLwm' : Nat} {skipped' : Bool}
    (computed : contribute cfg s next allLwm oltpLwm skipped =
      .sending next' itsAllLwm itsOltpLwm allLwm' oltpLwm' skipped') :
    next' = next ∧ itsAllLwm = (s.workers next).commitTree.lcb s.oldestAllStartTs := by
  unfold contribute at computed
  split at computed <;> cases computed <;> exact ⟨rfl, rfl⟩

namespace ReceiverInv

variable {ok : State → Nat × Nat → Prop}

theorem sent_step (inv : ReceiverInv ok s) (trees : TreeInv cfg s)
    (oldest : OldestBacks ok s) (stable : ∀ pair, ok s pair → ok s' pair)
    (taken : step cfg s a = some s')
    {w next itsAllLwm itsOltpLwm allLwm oltpLwm : Nat} {after : AfterRefresh}
    {skippedAWorker : Bool} (pc : (s'.workers w).pc = .refreshing after
      (.sending next itsAllLwm itsOltpLwm allLwm oltpLwm skippedAWorker)) :
    Backed (ok s') (s'.workers next).history itsAllLwm := by
  suffices backed : Backed (ok s) (s.workers next).history itsAllLwm from
    backed.mono stable (history_of_step taken next)
  generalize atStage : sending next itsAllLwm itsOltpLwm allLwm oltpLwm
    skippedAWorker = stage at pc
  cases stage_of_step taken pc with
  | stays was =>
    rw [← atStage] at was
    exact inv.sent w _ _ _ _ _ _ _ was
  | sees =>
    unfold see at atStage
    split at atStage
    · contradiction
    · split at atStage <;> contradiction
  | queries was =>
    obtain ⟨rfl, rfl⟩ := contribute_sends atStage.symm
    exact trees.lcb_backed (oldest w _ _ _ _ _ was)
  | _ => contradiction

theorem step (inv : ReceiverInv ok s) (trees : TreeInv cfg s)
    (oldest : OldestBacks ok s) (stable : ∀ pair, ok s pair → ok s' pair)
    (taken : step cfg s a = some s') : ReceiverInv ok s' where
  received w := by
    suffices backed : Backed (ok s) (s.workers w).history
        (s'.workers w).allLwmReceiver from
      backed.mono stable (history_of_step taken w)
    rcases receiver_of_step taken w with same | ⟨sender, _, _, _, _, _, pc⟩
    · rw [same]
      exact inv.received w
    · exact inv.sent sender _ _ _ _ _ _ _ pc
  sent _ _ _ _ _ _ _ _ pc := inv.sent_step trees oldest stable taken pc

end ReceiverInv

/-- Read committed transactions share the start timestamp of the snapshot before them, so
the order is not strict. -/
def StartOrder (s : State) : Prop :=
  ∀ w, (s.workers w).history.Pairwise (fun pair next => pair.2 ≤ next.2) ∧
    ∀ pair ∈ (s.workers w).history, pair.2 ≤ (s.workers w).tx.startTs

theorem StartOrder.step (order : StartOrder s) (trees : TreeInv cfg s)
    (taken : step cfg s a = some s') : StartOrder s' := by
  intro w
  obtain ⟨sorted, last⟩ := order w
  have grows := trees.startTs_mono taken w
  have unchanged (same : (s'.workers w).history = (s.workers w).history) :
      (s'.workers w).history.Pairwise (fun pair next => pair.2 ≤ next.2) ∧
        ∀ pair ∈ (s'.workers w).history, pair.2 ≤ (s'.workers w).tx.startTs := by
    rw [same]
    exact ⟨sorted, fun pair mem => le_trans (last pair mem) grows⟩
  cases tree_of_step taken w with
  | same array history => exact unchanged history
  | rewrite next set pc all array history => exact unchanged history
  | commit pc pc' array history clock =>
    rw [history]
    exact ⟨pairwise_append.mpr ⟨sorted, pairwise_singleton _ _,
        fun pair mem => forall_mem_singleton.mpr (last pair mem)⟩,
      forall_mem_append.mpr ⟨fun pair old => le_trans (last pair old) grows,
        forall_mem_singleton.mpr grows⟩⟩

structure GcState where
  cc : State
  localAllLwm : Nat → Nat

inductive GcAction
  | transact (action : Action)
  | syncLwm (worker : Nat)
  deriving DecidableEq, Repr

def gcStep (config : Config) (state : GcState) : GcAction → Option GcState
  | .transact action => (step config state.cc action).map fun cc => { state with cc := cc }
  | .syncLwm worker =>
    if worker < config.workersCount then
      some { state with
        localAllLwm := Function.update state.localAllLwm worker
          (state.cc.workers worker).allLwmReceiver }
    else
      none

structure GcInitial (cfg : Config) (s : GcState) : Prop where
  cc : Initial cfg s.cc
  allLwmReceiver : ∀ w, (s.cc.workers w).allLwmReceiver = 0
  localAllLwm : ∀ w, s.localAllLwm w = 0

abbrev GcReaches (config : Config) (allowed : GcState → GcAction → Prop) : GcState → Prop :=
  Reachable (gcStep config) (GcInitial config) allowed

/-- `isVisibleForAll`.  The worker that wrote the version does not matter. -/
def isVisibleForAll (state : State) (_worker : Nat) (txTs : TxTs) : Bool :=
  if txTs.isCommitTs then
    decide (txTs.ts < state.oldestAllStartTs)
  else
    decide (txTs.ts < state.allLwm)

structure LowWatermarkInv (cfg : Config) (s : State) : Prop where
  commits : CommitInv cfg s
  switch : SwitchInv s
  oldest : OldestBound cfg s
  lwm : LwmInv cfg (Precedes cfg) s
  receivers : ReceiverInv (Precedes cfg) s
  order : StartOrder s

theorem LowWatermarkInv.step (inv : LowWatermarkInv cfg s)
    (taken : step cfg s a = some s') : LowWatermarkInv cfg s' := by
  obtain ⟨phase, _, trees⟩ := inv.commits
  have backs := inv.oldest.oldestBacks inv.switch trees
  have stable (pair : Nat × Nat) (precedes : Precedes cfg s pair) :
      Precedes cfg s' pair := precedes.step phase taken
  exact {
    commits := inv.commits.step taken
    switch := inv.switch.step taken trees phase
    oldest := inv.oldest.step taken inv.switch phase
    lwm := inv.lwm.step trees backs stable taken
    receivers := inv.receivers.step trees backs stable taken
    order := inv.order.step trees taken }

theorem Initial.lowWatermarkInv (initial : Initial cfg s)
    (receivers : ∀ w, (s.workers w).allLwmReceiver = 0) : LowWatermarkInv cfg s where
  commits := initial.commitInv
  switch := initial.switchInv
  oldest := initial.oldestBound
  lwm := initial.lwmInv _
  receivers := by
    constructor
    · intro w
      exact .inl (receivers w)
    · intro w after next itsAllLwm itsOltpLwm allLwm oltpLwm skippedAWorker pc
      rw [initial.pc] at pc
      contradiction
  order := by
    intro w
    rw [initial.history]
    exact ⟨Pairwise.nil, fun pair mem => nomatch mem⟩

/-- In every later run each snapshot sees the commit: those that workers hold now, and
those that they draw later. -/
def SeenByAll (cfg : Config) (s : State) (commitTs : Nat) : Prop :=
  ∀ actions s', run (step cfg) s actions = some s' →
    ∀ reader < cfg.workersCount, s'.HasSnapshot reader →
      commitTs < (s'.workers reader).tx.startTs

/-- No transaction of the worker with this start timestamp is still running, and each that
committed is seen by all. -/
structure SettledForAll (cfg : Config) (s : State) (w startTs : Nat) : Prop where
  ended : ¬ ((s.workers w).pc.inTransaction = true ∧ (s.workers w).tx.startTs = startTs)
  seen : ∀ commitTs, (commitTs, startTs) ∈ (s.workers w).history → SeenByAll cfg s commitTs

theorem Precedes.seenByAll (precedes : Precedes cfg s pair)
    (phase : PhaseInv s) : SeenByAll cfg s pair.1 := by
  intro actions s' ran
  exact (run_keeps (fun s => Precedes cfg s pair ∧ PhaseInv s)
    (fun _ _ _ inv taken => ⟨inv.1.step inv.2 taken, inv.2.step taken⟩)
    ⟨precedes, phase⟩ ran).1.2

theorem StartOrder.commitTs_lt (order : StartOrder s) (trees : TreeInv cfg s)
    {pair other : Nat × Nat} (mem : pair ∈ (s.workers w).history)
    (member' : other ∈ (s.workers w).history) (earlier : pair.2 < other.2) : pair.1 < other.1 := by
  have eitherWay : Std.Symm fun pair other : Nat × Nat =>
      (pair.1 < other.1 ∧ pair.2 ≤ other.2) ∨ (other.1 < pair.1 ∧ other.2 ≤ pair.2) :=
    ⟨fun _ _ => Or.symm⟩
  have both : (s.workers w).history.Pairwise fun pair other =>
      (pair.1 < other.1 ∧ pair.2 ≤ other.2) ∨ (other.1 < pair.1 ∧ other.2 ≤ pair.2) :=
    Pairwise.imp₂ (fun pair other commits starts => .inl ⟨commits, starts⟩)
      (trees.sorted w) (order w).1
  have ne : pair ≠ other := by
    rintro rfl
    exact lt_irrefl _ earlier
  rcases both.forall mem member' ne with ⟨commits, -⟩ | ⟨-, starts⟩
  · exact commits
  · omega

theorem LowWatermarkInv.settled (inv : LowWatermarkInv cfg s) {lwm startTs : Nat}
    (backed : Backed (Precedes cfg s) (s.workers w).history lwm)
    (below : startTs < lwm) : SettledForAll cfg s w startTs := by
  obtain zero | ⟨pair, mem, le, precedes⟩ := backed
  · omega
  have early : startTs < pair.2 := lt_of_lt_of_le below le
  constructor
  · rintro ⟨-, rfl⟩
    exact Nat.not_le_of_lt early ((inv.order w).2 pair mem)
  · intro commitTs isEntry
    have commits := inv.order.commitTs_lt inv.commits.trees isEntry mem early
    have before : Precedes cfg s (commitTs, startTs) := by
      refine ⟨lt_trans commits precedes.1, ?_⟩
      intro reader isReader holds
      exact lt_trans commits (precedes.2 reader isReader holds)
    exact before.seenByAll inv.commits.phase

def PublishesSnapshot (cfg : Config) (s : State) : Action → Prop
  | .refresh _ .publishOldest =>
    ∃ reader < cfg.workersCount, (s.currentSnapshot reader).rcBit = false
  | _ => True

instance (config : Config) (state : State) (action : Action) :
    Decidable (PublishesSnapshot config state action) := by
  rcases action with _ | ⟨_, _ | _⟩ | _ <;> dsimp only [PublishesSnapshot] <;> infer_instance

def PublishedBelow (cfg : Config) (s : State) : Prop :=
  ∀ reader < cfg.workersCount, BelowSnapshot s reader s.oldestAllStartTs

theorem ScannedBelow.belowSnapshot
    (scanned : ScannedBelow s cfg.workersCount oldestTx) (inv : SwitchInv s)
    (some : ∃ reader < cfg.workersCount, (s.currentSnapshot reader).rcBit = false)
    {reader : Nat} (isReader : reader < cfg.workersCount) : BelowSnapshot s reader oldestTx := by
  obtain ⟨witness, isWorker, off⟩ := some
  rcases scanned reader isReader with rc | below
  · refine ⟨?_, fun holds => absurd holds (inv.not_hasSnapshot rc)⟩
    rcases scanned witness isWorker with on | below
    · rw [off] at on
      contradiction
    · exact below.clock
  · exact below

theorem PublishedBelow.step (below : PublishedBelow cfg s)
    (inv : LowWatermarkInv cfg s) (publishes : PublishesSnapshot cfg s a)
    (taken : step cfg s a = some s') : PublishedBelow cfg s' := by
  intro reader isReader
  have phase := inv.commits.phase
  rcases publish_of_step taken with same | ⟨w, _, _, _, rfl, pc⟩
  · rw [same]
    exact (below reader isReader).step phase taken
  · have scanned := inv.oldest.scans w _ _ _ _ _ pc
    exact (scanned.belowSnapshot inv.switch publishes isReader).step phase taken

theorem PublishedBelow.precedes (below : PublishedBelow cfg s) (isWorker : w < cfg.workersCount)
    (old : pair.1 < s.oldestAllStartTs) : Precedes cfg s pair := by
  refine ⟨lt_of_lt_of_le old (below w isWorker).clock, ?_⟩
  intro reader isReader holds
  exact lt_of_lt_of_le old ((below reader isReader).held holds)

structure GcInv (cfg : Config) (s : GcState) : Prop where
  cc : LowWatermarkInv cfg s.cc
  synced : ∀ w, Backed (Precedes cfg s.cc) (s.cc.workers w).history (s.localAllLwm w)

theorem GcInv.step {s s' : GcState} {a : GcAction} (inv : GcInv cfg s)
    (taken : gcStep cfg s a = some s') : GcInv cfg s' := by
  cases a with
  | transact =>
    simp only [gcStep, Option.map_eq_some_iff] at taken
    obtain ⟨cc, taken, rfl⟩ := taken
    refine ⟨inv.cc.step taken, ?_⟩
    intro w
    refine (inv.synced w).mono ?_ (history_of_step taken w)
    intro _ precedes
    exact precedes.step inv.cc.commits.phase taken
  | syncLwm w =>
    obtain ⟨-, ⟨⟩⟩ := Option.ite_none_right_eq_some.mp taken
    refine ⟨inv.cc, ?_⟩
    rw [Function.forall_update_iff _ fun other lwm =>
      Backed (Precedes cfg s.cc) (s.cc.workers other).history lwm]
    exact ⟨inv.cc.receivers.received w, fun other _ => inv.synced other⟩

variable {allowed : GcState → GcAction → Prop}

theorem gcInv_of_reaches {s : GcState} (reached : GcReaches cfg allowed s) : GcInv cfg s := by
  apply reached.invariant (GcInv cfg)
  · intro s initial
    refine ⟨initial.cc.lowWatermarkInv initial.allLwmReceiver, ?_⟩
    intro w
    exact .inl (initial.localAllLwm w)
  · intro s a s' inv _ taken
    exact inv.step taken

def GcAction.PublishesSnapshot (cfg : Config) (s : GcState) : GcAction → Prop
  | .transact a => ConcurrencyControl.PublishesSnapshot cfg s.cc a
  | .syncLwm _ => True

instance (config : Config) (state : GcState) (action : GcAction) :
    Decidable (GcAction.PublishesSnapshot config state action) := by
  cases action <;> dsimp only [GcAction.PublishesSnapshot] <;> infer_instance

theorem publishedBelow_of_reaches {s : GcState}
    (publishes : ∀ s a, allowed s a → a.PublishesSnapshot cfg s)
    (reached : GcReaches cfg allowed s) : PublishedBelow cfg s.cc := by
  have both : GcInv cfg s ∧ PublishedBelow cfg s.cc := by
    apply reached.invariant fun s => GcInv cfg s ∧ PublishedBelow cfg s.cc
    · intro s initial
      have start : GcReaches cfg allowed s := .start initial
      refine ⟨gcInv_of_reaches start, ?_⟩
      intro _ _
      rw [initial.cc.oldestAllStartTs]
      exact ⟨Nat.zero_le _, fun _ => Nat.zero_le _⟩
    · rintro s a s' ⟨inv, below⟩ permitted taken
      refine ⟨inv.step taken, ?_⟩
      have allowedBy := publishes s a permitted
      cases a with
      | transact =>
        simp only [gcStep, Option.map_eq_some_iff] at taken
        obtain ⟨cc, taken, rfl⟩ := taken
        exact below.step inv.cc allowedBy taken
      | syncLwm =>
        obtain ⟨-, ⟨⟩⟩ := Option.ite_none_right_eq_some.mp taken
        exact below
  exact both.2

/-- Start tags and the bound of the purge are sound in every run; commit tags are where the
refresh never publishes the largest timestamp for want of a snapshot. -/
theorem lowWatermarks_sound {state : GcState} {allowed : GcState → GcAction → Prop}
    (reached : GcReaches config allowed state) {worker : Nat}
    (isWorker : worker < config.workersCount) :
    (∀ startTs, isVisibleForAll state.cc worker ⟨false, startTs⟩ = true →
        SettledForAll config state.cc worker startTs) ∧
      (∀ startTs < state.localAllLwm worker, SettledForAll config state.cc worker startTs) ∧
      ((∀ state action, allowed state action → action.PublishesSnapshot config state) →
        ∀ commitTs startTs, (commitTs, startTs) ∈ (state.cc.workers worker).history →
          isVisibleForAll state.cc worker ⟨true, commitTs⟩ = true →
          SeenByAll config state.cc commitTs) := by
  have inv := gcInv_of_reaches reached
  refine ⟨?_, ?_, ?_⟩
  · intro startTs visible
    have below : startTs < state.cc.allLwm := by simpa [isVisibleForAll] using visible
    exact inv.cc.settled (inv.cc.lwm.global worker isWorker) below
  · intro startTs below
    exact inv.cc.settled (inv.synced worker) below
  · intro publishes commitTs startTs member visible
    have below : commitTs < state.cc.oldestAllStartTs := by
      simpa [isVisibleForAll] using visible
    have precedes : Precedes config state.cc (commitTs, startTs) :=
      (publishedBelow_of_reaches publishes reached).precedes isWorker below
    exact precedes.seenByAll inv.cc.commits.phase

def GcState.fresh (config : Config) : GcState where
  cc := State.fresh config
  localAllLwm _ := 0

theorem gcInitial_fresh (cfg : Config) : GcInitial cfg (GcState.fresh cfg) where
  cc := initial_fresh cfg
  allLwmReceiver _ := rfl
  localAllLwm _ := rfl

def insertAndCommit (worker : Nat) (key : Bytes) : List Action :=
  startSI worker ++ [.access worker (.change key (.insert [7]) 0), .access worker .commitTX,
    .access worker .storeLatestWrite, .refresh worker .skip]

def refreshTwo (worker : Nat) : List Action :=
  [.refresh worker .tryLock, .refresh worker .scanWord, .refresh worker .scanWord,
    .refresh worker .publishOldest, .refresh worker .compareLatest, .refresh worker .queryTree,
    .refresh worker .sendLwm, .refresh worker .compareLatest, .refresh worker .queryTree,
    .refresh worker .sendLwm, .refresh worker .storeLwm]

def refreshBehindSnapshots : List Action :=
  insertAndCommit 0 [1] ++ insertAndCommit 0 [2] ++ insertAndCommit 1 [3] ++
    insertAndCommit 1 [4] ++ startSI 0 ++ startSI 1 ++ [.access 1 .commitTX] ++ refreshTwo 1

def refreshAndSync : List GcAction :=
  refreshBehindSnapshots.map .transact ++ [.syncLwm 0]

theorem lowWatermarks_sound_refreshAndSync :
    ∃ state, run (gcStep ⟨2, true⟩) (GcState.fresh ⟨2, true⟩) refreshAndSync = some state ∧
      isVisibleForAll state.cc 0 ⟨false, 256⟩ = true ∧
      isVisibleForAll state.cc 0 ⟨true, 257⟩ = true ∧ 256 < state.localAllLwm 0 ∧
      SettledForAll ⟨2, true⟩ state.cc 0 256 ∧ SeenByAll ⟨2, true⟩ state.cc 257 := by
  obtain ⟨state, ran, startTag, commitTag, purge, history⟩ : ∃ state,
      run (gcStep ⟨2, true⟩) (GcState.fresh ⟨2, true⟩) refreshAndSync = some state ∧
        isVisibleForAll state.cc 0 ⟨false, 256⟩ = true ∧
        isVisibleForAll state.cc 0 ⟨true, 257⟩ = true ∧ state.localAllLwm 0 = 258 ∧
        (state.cc.workers 0).history = [(257, 256), (259, 258)] :=
    ⟨_, rfl, rfl, rfl, rfl, rfl⟩
  have start : GcReaches ⟨2, true⟩
      (fun state action => action.PublishesSnapshot ⟨2, true⟩ state) (GcState.fresh ⟨2, true⟩) :=
    .start (gcInitial_fresh _)
  have reached := start.run_of_allowed (by decide) ran
  obtain ⟨starts, purges, commits⟩ := lowWatermarks_sound reached (show 0 < 2 by decide)
  refine ⟨state, ran, startTag, commitTag, by omega, starts 256 startTag, ?_⟩
  exact commits (fun _ _ publishes => publishes) 257 256 (by rw [history]; simp) commitTag

/-- Worker 0 is at read committed, and worker 1 refreshes while it is too; then worker 1
takes a snapshot, and worker 0 commits after it. -/
def commitPastMaxTxid : List Action :=
  startRC 0 ++
    [.start 1 (.startTX .readCommitted false false), .start 1 .switchToReadCommittedMode,
      .refresh 1 .tryLock, .refresh 1 .scanWord, .refresh 1 .scanWord,
      .refresh 1 .publishOldest, .refresh 1 .compareLatest, .refresh 1 .compareLatest,
      .refresh 1 .storeLwm, .start 1 .cleanIfNecessary, .access 1 .commitTX,
      .start 1 (.startTX .snapshotIsolation false false),
      .start 1 .switchToSnapshotIsolationMode, .refresh 1 .skip, .start 1 .latchSnapshot,
      .start 1 .drawStartTs, .start 1 .publishSnapshot, .start 1 .cleanIfNecessary,
      .start 1 .loadLwm, .access 0 (.change [1] (.insert [7]) 0),
      .access 0 .commitTX]

/-- With every word at read committed the refresh publishes the largest timestamp, and a
commit after the snapshot that worker 1 then takes passes for visible to all. -/
theorem commitTag_visible_past_snapshot :
    ∃ state, GcReaches ⟨2, true⟩ (fun _ _ => True) state ∧
      (257, 0) ∈ (state.cc.workers 0).history ∧
      isVisibleForAll state.cc 0 ⟨true, 257⟩ = true ∧
      state.cc.HasSnapshot 1 ∧ (state.cc.workers 1).tx.startTs = 256 := by
  obtain ⟨state, ran, history, visible, level, pc, startTs⟩ : ∃ state,
      run (gcStep ⟨2, true⟩) (GcState.fresh ⟨2, true⟩)
        (commitPastMaxTxid.map .transact) = some state ∧
        (state.cc.workers 0).history = [(257, 0)] ∧
        isVisibleForAll state.cc 0 ⟨true, 257⟩ = true ∧
        (state.cc.workers 1).tx.level.atLeastSI = true ∧
        (state.cc.workers 1).pc.inTransaction = true ∧
        (state.cc.workers 1).tx.startTs = 256 :=
    ⟨_, rfl, rfl, rfl, rfl, rfl, rfl⟩
  have start : GcReaches ⟨2, true⟩ (fun _ _ => True) (GcState.fresh ⟨2, true⟩) :=
    .start (gcInitial_fresh _)
  refine ⟨state, start.run_of_forall (fun _ _ _ => trivial) ran, ?_, visible, ⟨level, pc⟩, startTs⟩
  rw [history]
  simp

end TieredStore.ConcurrencyControl
