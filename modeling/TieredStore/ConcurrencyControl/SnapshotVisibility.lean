import TieredStore.ConcurrencyControl.Watermarks

namespace TieredStore.ConcurrencyControl

open Transition Function List RefreshStage State

variable {cfg config : Config} {s s' state state' : State} {a action : Action} {w worker : Nat}
  {pair : Nat × Nat}

def Action.startsAtLeastSI : Action → Bool
  | .start _ (.startTX level _ _) => level.atLeastSI
  | _ => true

structure ModeInv (s : State) : Prop where
  levels : ∀ w, (s.workers w).tx.level.atLeastSI = true
  points : ∀ w, (s.workers w).pc ≠ .switchingToSI ∧ (s.workers w).pc ≠ .switchingToRC

theorem PcMove.switching {level level' : TxIsolationLevel} {pc pc' : WorkerPc}
    (move : PcMove level pc level' pc') (strong : level.atLeastSI = true)
    (strong' : level'.atLeastSI = true) : pc' ≠ .switchingToSI ∧ pc' ≠ .switchingToRC := by
  cases move with
  | startTX => simp [afterStart, strong, strong']
  | nothingToClean | rewrite => simp [afterClean, strong]
  | @skipRefresh after | @endRefresh after => cases after <;> simp [AfterRefresh.pc]
  | finishReadOnly | finish => simp [strong]
  | _ => simp

theorem ModeInv.step (mode : ModeInv s) (starts : a.startsAtLeastSI = true)
    (taken : step cfg s a = some s') : ModeInv s' := by
  have levels : ∀ w, (s'.workers w).tx.level.atLeastSI = true := by
    intro w
    rcases level_of_step taken w with same | ⟨-, _, _, rfl⟩
    · rw [same]
      exact mode.levels w
    · exact starts
  refine ⟨levels, ?_⟩
  intro w
  by_cases acts : w = a.actor
  · subst acts
    exact (pc_of_step taken).switching (mode.levels _) (levels _)
  · rw [(others_of_step taken acts).2]
    exact mode.points w

theorem word_of_step (mode : ModeInv s) (taken : step cfg s a = some s') (w : Nat) :
    s'.currentSnapshot w = s.currentSnapshot w ∨
      ((s'.currentSnapshot w).ts = (s.workers w).tx.startTs ∧
        (s'.currentSnapshot w).rcBit = false) := by
  by_cases acts : w = a.actor
  · subst acts
    have points := mode.points a.actor
    obtain ⟨-, stepped⟩ := step_cases taken
    cases stepped with
    | start stepped =>
      cases stepped with
      | switchToSI pc => exact absurd pc points.1
      | switchToRC pc => exact absurd pc points.2
      | latchSnapshot => exact .inr (by simp [setPc, setWorker, setSnapshot,
        Action.actor])
      | publishSnapshot => exact .inr (by simp [setPc, setWorker,
        setSnapshot, Action.actor])
      | _ => exact .inl rfl
    | refresh stepped => exact .inl (by rw [words_of_refresh stepped])
    | access stepped => exact .inl (by rw [words_of_access stepped])
  · exact .inl (word_of_others taken acts)

theorem TreeInv.startTs_mono (trees : TreeInv cfg s)
    (taken : ConcurrencyControl.step cfg s a = some s') (w : Nat) :
    (s.workers w).tx.startTs ≤ (s'.workers w).tx.startTs := by
  rcases startTs_of_step taken w with same | ⟨-, -, drawn, -⟩
  · exact le_of_eq same.symm
  · rw [drawn]
    exact le_of_lt (trees.started w)

structure OldestInv (cfg : Config) (s : State) : Prop where
  words : ∀ w, (s.currentSnapshot w).ts ≤ (s.workers w).tx.startTs ∧
      (s.currentSnapshot w).rcBit = false
  scans : ∀ w after next newestOlap oldestOltp oldestTx,
    (s.workers w).pc = .refreshing after (.scanning next newestOlap oldestOltp oldestTx) →
    ∀ reader < next, oldestTx ≤ (s.workers reader).tx.startTs
  oldest : ∀ reader < cfg.workersCount, s.oldestAllStartTs ≤ (s.workers reader).tx.startTs

theorem see_oldest {word : SnapshotWord} {next newestOlap oldestOltp oldestTx : Nat}
    {next' newestOlap' oldestOltp' oldestTx' : Nat} (settled : word.rcBit = false)
    (seen : see word next newestOlap oldestOltp oldestTx =
      .scanning next' newestOlap' oldestOltp' oldestTx') :
    next' = next + 1 ∧ oldestTx' = min word.ts oldestTx := by
  unfold see at seen
  rw [settled] at seen
  simp only [Bool.false_eq_true, if_false] at seen
  split at seen <;> cases seen <;> exact ⟨rfl, rfl⟩

theorem OldestInv.step (inv : OldestInv cfg s) (mode : ModeInv s)
    (trees : TreeInv cfg s) (taken : step cfg s a = some s') : OldestInv cfg s' := by
  have grows := trees.startTs_mono taken
  constructor
  · intro w
    obtain ⟨le, settled⟩ := inv.words w
    rcases word_of_step mode taken w with same | ⟨ts, rc⟩
    · rw [same]
      exact ⟨le_trans le (grows w), settled⟩
    · exact ⟨ts ▸ grows w, rc⟩
  · intro w after next newestOlap oldestOltp oldestTx pc reader seen
    refine le_trans ?_ (grows reader)
    generalize atStage : scanning next newestOlap oldestOltp oldestTx = stage
      at pc
    cases stage_of_step taken pc with
    | stays was =>
      rw [← atStage] at was
      exact inv.scans w _ _ _ _ _ was reader seen
    | begins =>
      cases atStage
      omega
    | @sees _ before _ _ oldestBefore was =>
      obtain ⟨le, settled⟩ := inv.words before
      obtain ⟨rfl, rfl⟩ := see_oldest settled atStage.symm
      rcases Nat.lt_succ_iff_lt_or_eq.mp seen with earlier | rfl
      · have := inv.scans w _ _ _ _ _ was reader earlier
        omega
      · omega
    | queries =>
      unfold contribute at atStage
      split at atStage <;> contradiction
    | _ => contradiction
  · intro reader isWorker
    refine le_trans ?_ (grows reader)
    rcases oldest_of_step taken with same | ⟨w, after, newestOlap, oldestOltp, pc⟩
    · rw [same]
      exact inv.oldest reader isWorker
    · exact inv.scans w _ _ _ _ _ pc reader isWorker

structure OrderInv (s : State) : Prop where
  positive : ∀ w, ∀ pair ∈ (s.workers w).history, 0 < pair.2
  before : ∀ w, ∀ pair ∈ (s.workers w).history, pair.2 < pair.1
  serial : ∀ w, (s.workers w).history.Pairwise fun pair next => pair.1 < next.2
  snapshot : ∀ w, s.HasSnapshot w → 0 < (s.workers w).tx.startTs ∧
    ∀ pair ∈ (s.workers w).history, pair.1 < (s.workers w).tx.startTs

theorem mem_history_of_step (mode : ModeInv s) (taken : step cfg s a = some s')
    (mem : pair ∈ (s'.workers w).history) : pair ∈ (s.workers w).history ∨ (s.HasSnapshot w ∧
        pair = (s.globalClock, (s.workers w).tx.startTs)) := by
  cases tree_of_step taken w with
  | same array history => exact .inl (history ▸ mem)
  | commit pc pc' array history =>
    rw [history] at mem
    rcases mem_append.mp mem with old | new
    · exact .inl old
    · exact .inr ⟨⟨mode.levels w, by rw [pc]; rfl⟩, mem_singleton.mp new⟩
  | rewrite next set pc all array history => exact .inl (history ▸ mem)

theorem OrderInv.step (inv : OrderInv s) (mode : ModeInv s) (phase : PhaseInv s)
    (trees : TreeInv cfg s) (taken : step cfg s a = some s') : OrderInv s' where
  positive w pair mem := by
    rcases mem_history_of_step mode taken mem with old | ⟨holds, rfl⟩
    · exact inv.positive w pair old
    · exact (inv.snapshot w holds).1
  before w pair mem := by
    rcases mem_history_of_step mode taken mem with old | ⟨-, rfl⟩
    · exact inv.before w pair old
    · exact trees.started w
  serial w := by
    cases tree_of_step taken w with
    | same array history => exact history ▸ inv.serial w
    | commit pc pc' array history =>
      rw [history]
      apply pairwise_append.mpr
      refine ⟨inv.serial w, pairwise_singleton _ _, fun pair mem => forall_mem_singleton.mpr ?_⟩
      exact (inv.snapshot w ⟨mode.levels w, by rw [pc]; rfl⟩).2 pair mem
    | rewrite next set pc all array history => exact history ▸ inv.serial w
  snapshot w holds := by
    rcases snapshot_of_step phase taken holds with ⟨before, sameTs⟩ | ⟨-, latched, -, drawn, -⟩
    · rw [sameTs]
      obtain ⟨positive, past⟩ := inv.snapshot w before
      refine ⟨positive, ?_⟩
      intro pair mem
      cases tree_of_step taken w with
      | same array history => exact past pair (history ▸ mem)
      | commit pc pc' =>
        have inside := holds.2
        rw [pc'] at inside
        contradiction
      | rewrite next set pc all array history => exact past pair (history ▸ mem)
    · rw [drawn]
      refine ⟨lt_of_le_of_lt (Nat.zero_le _) (trees.started w), ?_⟩
      intro pair mem
      rcases mem_history_of_step mode taken mem with old | ⟨running, -⟩
      · exact trees.past w pair old
      · have inside := running.2
        rw [latched] at inside
        contradiction

/-- What a worker cached of another one is empty, or what that one's history had
before a timestamp not after the worker's own. -/
def CacheInv (s : State) : Prop :=
  ∀ reader owner, reader ≠ owner →
    ((s.workers reader).snapshotCache owner = 0 ∧
        (s.workers reader).snapshotCacheTs owner = 0) ∨
      ∃ commitTs, IsLcb (s.workers owner).history
          ((s.workers reader).snapshotCacheTs owner)
          (commitTs, (s.workers reader).snapshotCache owner) ∧
        (s.workers reader).snapshotCacheTs owner ≤ (s.workers reader).tx.startTs

theorem cache_of_step (mode : ModeInv s) (taken : step cfg s a = some s') (reader owner : Nat) :
    ((s'.workers reader).snapshotCache owner = (s.workers reader).snapshotCache owner ∧
        (s'.workers reader).snapshotCacheTs owner = (s.workers reader).snapshotCacheTs owner) ∨
      (reader < cfg.workersCount ∧ s.HasSnapshot reader ∧
        (s'.workers reader).snapshotCacheTs owner = (s.workers reader).tx.startTs ∧
        (s'.workers reader).snapshotCache owner =
          (s.workers owner).commitTree.lcb (s.workers reader).tx.startTs ∧
        (s'.workers reader).snapshotCache owner ≠ 0) := by
  by_cases acts : reader = a.actor
  · have isWorker := (step_cases taken).1
    have effect := effect_of_step taken
    rw [← acts] at effect isWorker
    cases effect with
    | accesses cache cacheTs hasWrote wal pc test core =>
      have caches : (s'.workers reader).snapshotCache = cache :=
        congrArg (fun its => its.snapshotCache) core
      have cachesTs : (s'.workers reader).snapshotCacheTs = cacheTs :=
        congrArg (fun its => its.snapshotCacheTs) core
      rw [caches, cachesTs]
      cases test with
      | same => exact .inl ⟨rfl, rfl⟩
      | cached other forTs own =>
        obtain ⟨ts, found⟩ := own (mode.levels reader)
        by_cases isOther : owner = other
        · subst isOther ts
          rw [update_self, update_self]
          exact .inr ⟨isWorker, ⟨mode.levels reader, pc⟩, rfl, rfl, found⟩
        · exact .inl ⟨update_of_ne isOther _ _, update_of_ne isOther _ _⟩
    | _ =>
      rename_i core _
      exact .inl ⟨congrArg (fun its => its.snapshotCache owner) core,
        congrArg (fun its => its.snapshotCacheTs owner) core⟩
  · obtain ⟨core, -⟩ := others_of_step taken acts
    exact .inl ⟨congrArg (fun its => its.snapshotCache owner) core,
      congrArg (fun its => its.snapshotCacheTs owner) core⟩

variable {startTs : Nat} {me other : Nat}

theorem IsLcb.of_step (taken : step cfg s a = some s') {owner : Nat}
    (isLcb : IsLcb (s.workers owner).history startTs pair)
    (past : startTs ≤ s.globalClock) : IsLcb (s'.workers owner).history startTs pair := by
  cases tree_of_step taken owner with
  | same array history => exact history ▸ isLcb
  | commit pc pc' array history =>
    rw [history]
    exact isLcb.append past
  | rewrite next set pc all array history => exact history ▸ isLcb

theorem TreeInv.lcb_history (trees : TreeInv cfg s) {reader owner : Nat}
    (ne : reader ≠ owner) (isWorker : reader < cfg.workersCount) (holds : s.HasSnapshot reader)
    (found : (s.workers owner).commitTree.lcb (s.workers reader).tx.startTs ≠ 0) :
    ∃ commitTs, IsLcb (s.workers owner).history (s.workers reader).tx.startTs
      (commitTs, (s.workers owner).commitTree.lcb (s.workers reader).tx.startTs) := by
  rcases CommitTree.lcb_eq (trees.sortedTree owner) with zero | ⟨commitTs, isLcb⟩
  · exact absurd zero found
  · exact ⟨commitTs, (trees.isLcb_tree_iff ne isWorker holds).mp isLcb⟩

theorem CacheInv.step (inv : CacheInv s) (mode : ModeInv s)
    (trees : TreeInv cfg s) (taken : step cfg s a = some s') : CacheInv s' := by
  intro reader owner ne
  have grows := trees.startTs_mono taken reader
  have started := trees.started reader
  rcases cache_of_step mode taken reader owner with ⟨cache, cacheTs⟩ |
    ⟨isWorker, holds, cacheTs, cache, found⟩
  · rw [cache, cacheTs]
    rcases inv reader owner ne with empty | ⟨commitTs, isLcb, le⟩
    · exact .inl empty
    · exact .inr ⟨commitTs, isLcb.of_step taken (by omega), by omega⟩
  · rw [cache] at found
    obtain ⟨commitTs, isLcb⟩ := trees.lcb_history ne isWorker holds found
    rw [cache, cacheTs]
    exact .inr ⟨commitTs, isLcb.of_step taken (le_of_lt started), grows⟩

def BeforeAll (cfg : Config) (s : State) (pair : Nat × Nat) : Prop :=
  ∀ reader < cfg.workersCount, pair.1 < (s.workers reader).tx.startTs

structure SnapshotInv (cfg : Config) (s : State) : Prop where
  commits : CommitInv cfg s
  mode : ModeInv s
  oldest : OldestInv cfg s
  order : OrderInv s
  caches : CacheInv s
  lwm : LwmInv cfg (BeforeAll cfg) s

theorem SnapshotInv.step (inv : SnapshotInv cfg s) (starts : a.startsAtLeastSI = true)
    (taken : step cfg s a = some s') : SnapshotInv cfg s' where
  commits := inv.commits.step taken
  mode := inv.mode.step starts taken
  oldest := inv.oldest.step inv.mode inv.commits.trees taken
  order := inv.order.step inv.mode inv.commits.phase inv.commits.trees taken
  caches := inv.caches.step inv.mode inv.commits.trees taken
  lwm := by
    apply inv.lwm.step inv.commits.trees
    · intro w after next allLwm oltpLwm skippedAWorker pc pair mem before reader isWorker
      exact lt_of_lt_of_le before (inv.oldest.oldest reader isWorker)
    · intro pair before reader isWorker
      exact lt_of_lt_of_le (before reader isWorker)
        (inv.commits.trees.startTs_mono taken reader)
    · exact taken

theorem Initial.snapshotInv (initial : Initial cfg s) : SnapshotInv cfg s where
  commits := initial.commitInv
  mode := by
    constructor
    · intro w
      rw [initial.level]
      rfl
    · intro w
      simp [initial.pc]
  oldest := by
    constructor
    · intro w
      simp [initial.currentSnapshot]
    · intro w after next newestOlap oldestOltp oldestTx pc
      rw [initial.pc] at pc
      contradiction
    · intro reader isWorker
      rw [initial.oldestAllStartTs]
      exact Nat.zero_le _
  order := by
    constructor
    · simp [initial.history]
    · simp [initial.history]
    · simp [initial.history]
    · intro w holds
      have inside := holds.2
      rw [initial.pc] at inside
      contradiction
  caches reader owner ne :=
    .inl ⟨initial.snapshotCache reader owner, initial.snapshotCacheTs reader owner⟩
  lwm := initial.lwmInv _

def State.Writes (s : State) (w startTs : Nat) : Prop :=
  (∃ commitTs, (commitTs, startTs) ∈ (s.workers w).history) ∨
    ((s.workers w).pc.inTransaction = true ∧ (s.workers w).tx.startTs = startTs)

def State.CommittedBefore (s : State) (w startTs snapshot : Nat) : Prop :=
  ∃ commitTs, (commitTs, startTs) ∈ (s.workers w).history ∧ commitTs < snapshot

namespace OrderInv

variable {w startTs snapshot : Nat} {pair : Nat × Nat} (order : OrderInv s)
include order

theorem ordered {other : Nat × Nat} (mem : pair ∈ (s.workers w).history)
    (member' : other ∈ (s.workers w).history) :
    pair = other ∨ pair.1 < other.2 ∨ other.1 < pair.2 := by
  have eitherWay : Std.Symm fun pair other : Nat × Nat =>
      pair.1 < other.2 ∨ other.1 < pair.2 := ⟨fun _ _ => Or.symm⟩
  have serial : (s.workers w).history.Pairwise fun pair other =>
      pair.1 < other.2 ∨ other.1 < pair.2 := (order.serial w).imp .inl
  by_cases same : pair = other
  · exact .inl same
  · exact .inr (serial.forall mem member' same)

theorem committedBefore_of_le (mode : ModeInv s) (writes : s.Writes w startTs)
    (mem : pair ∈ (s.workers w).history) (before : pair.1 < snapshot)
    (le : startTs ≤ pair.2) : s.CommittedBefore w startTs snapshot := by
  have itsOrder := order.before w pair mem
  rcases writes with ⟨commitTs, isEntry⟩ | ⟨inside, rfl⟩
  · refine ⟨commitTs, isEntry, ?_⟩
    rcases order.ordered isEntry mem with rfl | earlier | later
    · exact before
    · omega
    · omega
  · have past := (order.snapshot w ⟨mode.levels w, inside⟩).2 pair mem
    omega

theorem le_of_committedBefore (isLcb : IsLcb (s.workers w).history snapshot pair)
    (committed : s.CommittedBefore w startTs snapshot) : startTs ≤ pair.2 := by
  obtain ⟨_, isEntry, before⟩ := committed
  have le := isLcb.latest _ isEntry before
  have itsOrder := order.before w _ isEntry
  rcases order.ordered isEntry isLcb.member with same | earlier | later
  · exact le_of_eq (congrArg Prod.snd same)
  · omega
  · omega

theorem le_iff (mode : ModeInv s) (writes : s.Writes w startTs)
    (isLcb : IsLcb (s.workers w).history snapshot pair) :
    startTs ≤ pair.2 ↔ s.CommittedBefore w startTs snapshot :=
  ⟨order.committedBefore_of_le mode writes isLcb.member isLcb.before,
    order.le_of_committedBefore isLcb⟩

end OrderInv

section

variable (inv : SnapshotInv cfg s)
include inv

theorem SnapshotInv.cache_sound
    (ne : me ≠ other) (writes : s.Writes other startTs) (positive : 0 < startTs)
    (le : startTs ≤ (s.workers me).snapshotCache other) :
    s.CommittedBefore other startTs (s.workers me).tx.startTs := by
  rcases inv.caches me other ne with ⟨_, -⟩ | ⟨_, isLcb, notAfter⟩
  · omega
  · exact inv.order.committedBefore_of_le inv.mode writes isLcb.member
      (lt_of_lt_of_le isLcb.before notAfter) le

theorem SnapshotInv.lwm_sound (isMe : me < cfg.workersCount) (isOther : other < cfg.workersCount)
    (writes : s.Writes other startTs) (below : startTs < (s.workers me).globalAllLwmCache) :
    s.CommittedBefore other startTs (s.workers me).tx.startTs := by
  rcases inv.lwm.cached me other isOther with zero | ⟨_, mem, le, before⟩
  · omega
  · exact inv.order.committedBefore_of_le inv.mode writes mem (before me isMe) (by omega)

theorem SnapshotInv.positive_of_writes (writes : s.Writes w startTs) : 0 < startTs := by
  rcases writes with ⟨_, mem⟩ | ⟨inside, rfl⟩
  · exact inv.order.positive w _ mem
  · exact (inv.order.snapshot w ⟨inv.mode.levels w, inside⟩).1

theorem SnapshotInv.visible_iff {me other currentTs : Nat}
    {toWrite : Bool} (ne : me ≠ other) (isMe : me < cfg.workersCount)
    (isOther : other < cfg.workersCount) (active : (s.workers me).pc.inTransaction = true)
    (writes : s.Writes other startTs) :
    ∃ isVisible,
      (isVisibleForMe s me other ⟨false, startTs⟩ toWrite currentTs).1 = some isVisible ∧
        (isVisible = true ↔ s.CommittedBefore other startTs (s.workers me).tx.startTs) := by
  have strong := inv.mode.levels me
  have holds : s.HasSnapshot me := ⟨strong, active⟩
  have positive := inv.positive_of_writes writes
  have notRC : (s.workers me).tx.level ≠ .readCommitted := by
    intro weak
    rw [weak] at strong
    contradiction
  have notRU : (s.workers me).tx.level ≠ .readUncommitted := by
    intro weak
    rw [weak] at strong
    contradiction
  unfold isVisibleForMe
  simp only [notRC, notRU, ne, and_false, or_self, if_false, Bool.false_eq_true]
  split
  · rename_i below
    refine ⟨_, rfl, ?_⟩
    simpa using inv.lwm_sound isMe isOther writes below
  · split
    · rename_i exact'
      rcases inv.caches me other ne with ⟨-, empty⟩ | ⟨commitTs, isLcb, -⟩
      · have := (inv.order.snapshot me holds).1
        omega
      · rw [exact'] at isLcb
        refine ⟨_, rfl, ?_⟩
        simpa using inv.order.le_iff inv.mode writes isLcb
    · split
      · rename_i cached
        refine ⟨_, rfl, ?_⟩
        simpa using inv.cache_sound ne writes positive cached
      · split
        · rename_i found
          obtain ⟨commitTs, isLcb⟩ := inv.commits.trees.lcb_history ne isMe holds found
          refine ⟨_, rfl, ?_⟩
          simpa using inv.order.le_iff inv.mode writes isLcb
        · refine ⟨_, rfl, ?_⟩
          simp only [Bool.false_eq_true, false_iff]
          rintro ⟨commitTs, mem, before⟩
          -- an entry before the snapshot would have been found
          obtain ⟨last, isLast⟩ :=
            CommitTree.exists_isLcb (inv.commits.trees.sorted other) mem before
          have inTree := (inv.commits.trees.isLcb_tree_iff ne isMe holds).mpr isLast
          have answer := CommitTree.lcb_of_isLcb (inv.commits.trees.sortedTree other) inTree
          have := inv.order.positive other last isLast.member
          omega

end

theorem snapshot_visibility_exact
    (reached : Reaches config (fun _ action => action.startsAtLeastSI = true) state)
    {me other startTs currentTs : Nat} {toWrite : Bool} (different : me ≠ other)
    (isMe : me < config.workersCount) (isOther : other < config.workersCount)
    (active : (state.workers me).pc.inTransaction = true) (writes : state.Writes other startTs) :
    ∃ isVisible,
      (isVisibleForMe state me other ⟨false, startTs⟩ toWrite currentTs).1 = some isVisible ∧
        (isVisible = true ↔
          state.CommittedBefore other startTs (state.workers me).tx.startTs) := by
  apply SnapshotInv.visible_iff _ different isMe isOther active writes
  apply reached.invariant (SnapshotInv config)
  · intro state initial
    exact initial.snapshotInv
  · intro state action state' inv starts taken
    exact inv.step starts taken

def insertThenRead : List Action :=
  startSI 0 ++ [.access 0 (.change [1] (.insert [7]) 0), .access 0 .commitTX] ++ startSI 1

theorem snapshot_visibility_exact_insertThenRead :
    ∃ state, run (step ⟨2, false⟩) (State.fresh ⟨2, false⟩) insertThenRead = some state ∧
      ∃ isVisible, (isVisibleForMe state 1 0 ⟨false, 256⟩ false 0).1 = some isVisible ∧
        (isVisible = true ↔
          state.CommittedBefore 0 256 (state.workers 1).tx.startTs) := by
  obtain ⟨state, ran, active, committed⟩ : ∃ state,
      run (step ⟨2, false⟩) (fresh ⟨2, false⟩) insertThenRead = some state ∧
        (state.workers 1).pc = .running ∧ (state.workers 0).history = [(257, 256)] :=
    ⟨_, rfl, rfl, rfl⟩
  have reached : Reaches ⟨2, false⟩ (fun _ action => action.startsAtLeastSI = true) state := by
    apply (Reachable.start (initial_fresh _)).run_of_forall _ ran
    intro action member state
    have all : insertThenRead.all (fun action => action.startsAtLeastSI) = true := by decide
    exact all_eq_true.mp all action member
  refine ⟨state, ran, ?_⟩
  apply snapshot_visibility_exact reached (by decide) (by decide) (by decide)
  · rw [active]
    rfl
  · exact .inl ⟨257, by rw [committed]; simp⟩

end TieredStore.ConcurrencyControl
