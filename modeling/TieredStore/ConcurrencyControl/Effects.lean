import TieredStore.ConcurrencyControl.System

namespace TieredStore.ConcurrencyControl

open ConcurrencyControl.Action State WorkerState

/-- A worker's record without its program counter and its marks for the
watermarks. -/
def WorkerState.core (its : WorkerState) : WorkerState :=
  { its with
    pc := .idle
    latestWriteTx := 0
    latestLwmForTx := 0
    allLwmReceiver := 0
    oltpLwmReceiver := 0 }

@[simp] theorem WorkerState.core_tx (its : WorkerState) : its.core.tx = its.tx := rfl
@[simp] theorem WorkerState.core_commitTree (its : WorkerState) :
    its.core.commitTree = its.commitTree := rfl
@[simp] theorem WorkerState.core_history (its : WorkerState) : its.core.history = its.history := rfl
@[simp] theorem WorkerState.core_snapshotCache (its : WorkerState) :
    its.core.snapshotCache = its.snapshotCache := rfl
@[simp] theorem WorkerState.core_snapshotCacheTs (its : WorkerState) :
    its.core.snapshotCacheTs = its.snapshotCacheTs := rfl
@[simp] theorem WorkerState.core_globalAllLwmCache (its : WorkerState) :
    its.core.globalAllLwmCache = its.globalAllLwmCache := rfl

section Frame

variable (s : State) (w : Nat)

@[simp] theorem State.workers_setWorker (its : WorkerState) :
    (s.setWorker w its).workers w = its := by
  simp [setWorker]

theorem State.workers_setWorker_of_ne (its : WorkerState) {other : Nat} (ne : other ≠ w) :
    (s.setWorker w its).workers other = s.workers other := by
  simp [setWorker, ne]

@[simp] theorem State.workers_setSnapshot (word : SnapshotWord) :
    (s.setSnapshot w word).workers = s.workers := rfl

@[simp] theorem State.pc_setPc (pc : WorkerPc) : ((s.setPc w pc).workers w).pc = pc := by
  simp [setPc]

theorem State.workers_setPc_of_ne (pc : WorkerPc) {other : Nat} (ne : other ≠ w) :
    (s.setPc w pc).workers other = s.workers other :=
  s.workers_setWorker_of_ne w _ ne

theorem State.core_setWorker {its : WorkerState}
    (same : its.core = (s.workers w).core) (other : Nat) :
    ((s.setWorker w its).workers other).core = (s.workers other).core := by
  by_cases isWorker : other = w
  · subst isWorker
    simp [same]
  · rw [s.workers_setWorker_of_ne w its isWorker]

@[simp] theorem State.core_setPc (pc : WorkerPc) (other : Nat) :
    ((s.setPc w pc).workers other).core = (s.workers other).core := by
  apply core_setWorker
  rfl

theorem State.core_pushVersion (key : Bytes) (v : Version) :
    ((s.pushVersion w key v).workers w).core = { (s.workers w).core with
        tx := { (s.workers w).core.tx with wal := key :: (s.workers w).core.tx.wal } } := by
  simp [pushVersion, core]

theorem State.others_setMarks {its : WorkerState} {next : Nat} (pc' : WorkerPc)
    (core : its.core = (s.workers next).core) (pc : its.pc = (s.workers next).pc)
    {other : Nat} (ne : other ≠ w) : (((s.setWorker next its).setPc w pc').workers other).core =
        (s.workers other).core ∧ (((s.setWorker next its).setPc w pc').workers other).pc =
        (s.workers other).pc := by
  rw [workers_setPc_of_ne _ _ _ ne]
  refine ⟨s.core_setWorker next core other, ?_⟩
  by_cases isNext : other = next
  · subst isNext
    rw [workers_setWorker, pc]
  · rw [s.workers_setWorker_of_ne next its isNext]

end Frame

variable {cfg : Config} {s s' : State} {a : Action} {w : Nat}

/-- A visibility test changes nothing, or caches what the other worker's commit
tree says; at snapshot isolation that is about the caller's own timestamp. -/
inductive Tested (s : State) (me : Nat) : State → Prop
  | same : Tested s me s
  | cached (other forTs : Nat) (own : (s.workers me).tx.level.atLeastSI = true →
      forTs = (s.workers me).tx.startTs ∧ (s.workers other).commitTree.lcb forTs ≠ 0) :
    Tested s me (s.cacheSnapshot me other
      ((s.workers other).commitTree.lcb forTs) forTs)

variable {tested : State} {me : Nat} {own : StartAction}

section

variable (test : Tested s me tested)
include test

theorem Tested.others {other : Nat} (ne : other ≠ me) : tested.workers other = s.workers other := by
  cases test with
  | same => rfl
  | cached => exact s.workers_setWorker_of_ne me _ ne

theorem Tested.globalClock : tested.globalClock = s.globalClock := by
  cases test <;> rfl

theorem Tested.currentSnapshot : tested.currentSnapshot = s.currentSnapshot := by
  cases test <;> rfl

theorem Tested.watermarks :
    tested.oldestAllStartTs = s.oldestAllStartTs ∧ tested.allLwm = s.allLwm := by
  cases test <;> exact ⟨rfl, rfl⟩

theorem Tested.pc : (tested.workers me).pc = (s.workers me).pc := by
  cases test <;> simp [cacheSnapshot]

end

theorem isVisibleForMe_tested (s : State) (me other : Nat) (txTs : TxTs)
    (toWrite : Bool) (currentTs : Nat) :
    Tested s me (isVisibleForMe s me other txTs toWrite currentTs).2 := by
  unfold isVisibleForMe
  dsimp only
  split
  · exact .same
  · split
    · exact .same
    · split
      · rename_i weak
        split
        · exact .same
        · split
          · exact .same
          · refine .cached other currentTs fun strong => ?_
            rcases weak with isRC | isRU <;> simp_all [TxIsolationLevel.atLeastSI]
      · repeat' split
        all_goals first
          | exact .same
          | exact .cached other _ fun _ => ⟨rfl, ‹_›⟩

theorem mayChange_tested (s : State) (me : Nat) (chain : List Version)
    (currentTs : Nat) : Tested s me (mayChange s me chain currentTs).2 := by
  cases chain with
  | nil => exact .same
  | cons => exact isVisibleForMe_tested ..

inductive CacheTest (s : State) (me : Nat) : (Nat → Nat) → (Nat → Nat) → Prop
  | same : CacheTest s me (s.workers me).snapshotCache
    (s.workers me).snapshotCacheTs
  | cached (other forTs : Nat) (own : (s.workers me).tx.level.atLeastSI = true →
      forTs = (s.workers me).tx.startTs ∧ (s.workers other).commitTree.lcb forTs ≠ 0) :
    CacheTest s me
      (Function.update (s.workers me).snapshotCache other
        ((s.workers other).commitTree.lcb forTs))
      (Function.update (s.workers me).snapshotCacheTs other forTs)

inductive Effect (cfg : Config) (s : State) (my : Nat) (s' : State) : Prop
  | keeps (core : (s'.workers my).core = (s.workers my).core)
    (clock : s'.globalClock = s.globalClock)
  | begins (level : TxIsolationLevel) (isOlap isReadOnly : Bool)
    (pc : (s.workers my).pc = .idle) (core : (s'.workers my).core =
      { (s.workers my).core with
        tx := { (s.workers my).tx with
          level := level
          isOlap := isOlap
          isReadOnly := isReadOnly
          hasWrote := false
          id := s.nextTransaction
          wal := [] } })
    (clock : s'.globalClock = s.globalClock)
  | draws (pc : (s.workers my).pc = .latched) (core : (s'.workers my).core =
      { (s.workers my).core with
        tx := { (s.workers my).tx with startTs := s.globalClock } })
    (clock : s'.globalClock = s.globalClock + 1)
  | rewrites (next : Nat) (set : List (Nat × Nat))
    (pc : (s.workers my).pc = .cleaning next set) (all : next = cfg.workersCount)
    (core : (s'.workers my).core =
      { (s.workers my).core with
        commitTree := { (s.workers my).commitTree with array := set } })
    (clock : s'.globalClock = s.globalClock)
  | loads (pc : (s.workers my).pc = .loadingLwm) (core : (s'.workers my).core =
      { (s.workers my).core with globalAllLwmCache := s.allLwm })
    (clock : s'.globalClock = s.globalClock)
  | accesses (cache cacheTs : Nat → Nat) (hasWrote : Bool) (wal : List Bytes)
    (pc : (s.workers my).pc.inTransaction = true) (test : CacheTest s my cache cacheTs)
    (core : (s'.workers my).core =
      { (s.workers my).core with
        tx := { (s.workers my).tx with hasWrote := hasWrote, wal := wal }
        snapshotCache := cache
        snapshotCacheTs := cacheTs })
    (clock : s'.globalClock = s.globalClock)
  | commits (pc : (s.workers my).pc = .running)
    (pc' : (s'.workers my).pc = .committed s.globalClock) (core : (s'.workers my).core =
      { (s.workers my).core with
        tx := { (s.workers my).tx with commitTs := s.globalClock }
        commitTree := (s.workers my).commitTree.commit s.globalClock
          (s.workers my).tx.startTs
        history := (s.workers my).history ++
          [(s.globalClock, (s.workers my).tx.startTs)] })
    (clock : s'.globalClock = s.globalClock + 1)

theorem others_of_step (taken : step cfg s a = some s') {other : Nat} (ne : other ≠ a.actor) :
    (s'.workers other).core = (s.workers other).core ∧
      (s'.workers other).pc = (s.workers other).pc := by
  obtain ⟨-, stepped⟩ := step_cases taken
  cases stepped with
  | @start w _ _ stepped =>
    have same : s'.workers other = s.workers other := by
      cases stepped <;> simp_all [setPc, setWorker, actor]
    rw [same]
    exact ⟨rfl, rfl⟩
  | @refresh w _ _ stepped =>
    cases stepped with
    | compareLatest | sendLwm =>
      apply others_setMarks
      · rfl
      · rfl
      · exact ne
    | _ => simp_all [setPc, setWorker, actor]
  | @access w _ _ stepped =>
    have ne : other ≠ w := ne
    have marked : (s.markAsWrite w).workers other = s.workers other :=
      s.workers_setWorker_of_ne w _ ne
    have same : s'.workers other = s.workers other := by
      cases stepped with
      | isVisibleForMe => exact (isVisibleForMe_tested ..).others ne
      | change =>
        refine (workers_setWorker_of_ne _ _ _ ne).trans ?_
        exact ((mayChange_tested ..).others ne).trans marked
      | changeFails => exact ((mayChange_tested ..).others ne).trans marked
      | check =>
        refine (workers_setPc_of_ne _ _ _ ne).trans ?_
        exact (isVisibleForMe_tested ..).others ne
      | _ => simp_all [setPc, setWorker]
    rw [same]
    exact ⟨rfl, rfl⟩

theorem Tested.core (test : Tested s me tested) : ∃ cache cacheTs, CacheTest s me cache cacheTs ∧
      (tested.workers me).core =
        { (s.workers me).core with snapshotCache := cache, snapshotCacheTs := cacheTs } := by
  cases test with
  | same => exact ⟨_, _, .same, rfl⟩
  | cached other forTs own =>
    refine ⟨_, _, .cached other forTs own, ?_⟩
    simp [cacheSnapshot, core]

theorem CacheTest.of_marked {cache cacheTs : Nat → Nat}
    (test : CacheTest (s.markAsWrite me) me cache cacheTs) : CacheTest s me cache cacheTs := by
  have trees (other : Nat) : ((s.markAsWrite me).workers other).commitTree =
      (s.workers other).commitTree := by
    by_cases isMe : other = me
    · subst isMe
      simp [markAsWrite]
    · rw [markAsWrite, s.workers_setWorker_of_ne me _ isMe]
  cases test with
  | same => simpa [markAsWrite] using same
  | cached other forTs own =>
    rw [trees] at own ⊢
    simpa [markAsWrite] using cached other forTs (by simpa [markAsWrite] using own)

theorem startStep_effect (stepped : StartStep cfg s w own s') : Effect cfg s w s' := by
  cases stepped with
  | @startTX level isOlap isReadOnly pc =>
    exact .begins level isOlap isReadOnly pc (by simp [core]) rfl
  | drawStartTs pc => exact .draws pc (by simp [core]) rfl
  | rewriteTree pc all => exact .rewrites _ _ pc all (by simp [core]) rfl
  | loadLwm pc => exact .loads pc (by simp [core]) rfl
  | _ => exact .keeps (by simp) rfl

theorem refreshStep_effect {own : RefreshAction}
    (stepped : RefreshStep cfg s w own s') : Effect cfg s w s' := by
  cases stepped with
  | compareLatest | sendLwm =>
    refine .keeps ?_ rfl
    rw [core_setPc]
    apply core_setWorker
    rfl
  | tryLock | publishOldest | storeLwm => exact .keeps (core_setPc ..) rfl
  | _ => exact .keeps (by simp) rfl

theorem accessStep_effect {own : AccessAction}
    (stepped : AccessStep cfg s w own s') : Effect cfg s w s' := by
  cases stepped with
  | @isVisibleForMe other txTs toWrite currentTs pc =>
    have tested := isVisibleForMe_tested s w other txTs toWrite currentTs
    obtain ⟨cache, cacheTs, test, core⟩ := tested.core
    exact .accesses cache cacheTs (s.workers w).tx.hasWrote
      (s.workers w).tx.wal (by rw [pc]; rfl) test core tested.globalClock
  | @change key change currentTs v pc =>
    have tested := mayChange_tested (s.markAsWrite w) w (s.tuples key) currentTs
    obtain ⟨cache, cacheTs, test, core⟩ := tested.core
    refine .accesses cache cacheTs true (key :: (s.workers w).tx.wal)
      (by rw [pc]; rfl) test.of_marked ?_ tested.globalClock
    rw [core_pushVersion, core]
    simp [markAsWrite, WorkerState.core]
  | @changeFails key change currentTs pc =>
    have tested := mayChange_tested (s.markAsWrite w) w (s.tuples key) currentTs
    obtain ⟨cache, cacheTs, test, core⟩ := tested.core
    refine .accesses cache cacheTs true (s.workers w).tx.wal
      (by rw [pc]; rfl) test.of_marked ?_ tested.globalClock
    rw [core]
    simp [markAsWrite, WorkerState.core]
  | @check key v _ currentTs _ pc =>
    have tested := isVisibleForMe_tested s w v.workerId ⟨false, v.txTs⟩ false currentTs
    obtain ⟨cache, cacheTs, test, core⟩ := tested.core
    refine .accesses cache cacheTs (s.workers w).tx.hasWrote
      (s.workers w).tx.wal (by rw [pc]; rfl) test ?_ tested.globalClock
    rw [core_setPc, core]
    rfl
  | @undoNext key rest pc =>
    exact .accesses _ _ (s.workers w).tx.hasWrote rest (by rw [pc]; rfl) .same
      (by simp [core]) rfl
  | commitTX pc => exact .commits pc (by simp) (by simp [core]) rfl
  | commitReadOnly => exact .keeps (core_setPc ..) rfl
  | abortDone => exact .keeps (core_setPc ..) rfl
  | storeLatestWrite => exact .keeps (by simp [core]) rfl
  | _ => exact .keeps (by simp) rfl

section

variable (taken : step cfg s a = some s')
include taken

theorem effect_of_step : Effect cfg s a.actor s' := by
  obtain ⟨-, stepped⟩ := step_cases taken
  cases stepped with
  | start stepped => exact startStep_effect stepped
  | refresh stepped => exact refreshStep_effect stepped
  | access stepped => exact accessStep_effect stepped

theorem clock_of_step : s.globalClock ≤ s'.globalClock := by
  cases effect_of_step taken <;> omega

theorem startTs_of_step (other : Nat) :
    (s'.workers other).tx.startTs = (s.workers other).tx.startTs ∨
      (other = a.actor ∧ (s.workers other).pc = .latched ∧
        (s'.workers other).tx.startTs = s.globalClock ∧ s'.globalClock = s.globalClock + 1) := by
  by_cases acts : other = a.actor
  · have effect := effect_of_step taken
    rw [← acts] at effect
    cases effect with
    | draws pc core clock => exact .inr ⟨acts, pc, congrArg (fun its => its.tx.startTs) core, clock⟩
    | _ =>
      rename_i core _
      exact .inl (congrArg (fun its => its.tx.startTs) core)
  · exact .inl (congrArg (fun its => its.tx.startTs) (others_of_step taken acts).1)

theorem draw_of_latched (latched : (s.workers a.actor).pc = .latched) :
    (s'.workers a.actor).tx.startTs = s.globalClock ∧ s'.globalClock = s.globalClock + 1 := by
  obtain ⟨-, stepped⟩ := step_cases taken
  cases stepped with
  | start stepped =>
    cases stepped with
    | drawStartTs => exact ⟨by simp [actor], rfl⟩
    | _ => simp_all [actor]
  | refresh stepped | access stepped => cases stepped <;> simp_all [actor]

theorem level_of_step (other : Nat) : (s'.workers other).tx.level = (s.workers other).tx.level ∨
      ((s.workers other).pc = .idle ∧ ∃ isOlap isReadOnly, a = .start other
          (.startTX (s'.workers other).tx.level isOlap isReadOnly)) := by
  by_cases acts : other = a.actor
  · subst acts
    cases a with
    | start =>
      obtain ⟨-, stepped⟩ := step_cases taken
      cases stepped with
      | start stepped =>
        cases stepped with
        | @startTX level isOlap isReadOnly pc =>
          exact .inr ⟨pc, isOlap, isReadOnly, by simp [actor]⟩
        | _ => exact .inl (by simp [setPc, actor])
    | refresh w own =>
      cases effect_of_step taken with
      | begins =>
        obtain ⟨-, stepped⟩ := step_cases taken
        cases stepped with
        | refresh stepped => cases stepped <;> simp_all [actor]
      | _ =>
        rename_i core _
        exact .inl (congrArg (fun its => its.tx.level) core)
    | access w own =>
      cases effect_of_step taken with
      | begins =>
        obtain ⟨-, stepped⟩ := step_cases taken
        cases stepped with
        | access stepped => cases stepped <;> simp_all [actor]
      | _ =>
        rename_i core _
        exact .inl (congrArg (fun its => its.tx.level) core)
  · exact .inl (congrArg (fun its => its.tx.level) (others_of_step taken acts).1)

end

/-- A commit tree changes by a commit of its owner and by its compaction. -/
inductive TreeChange (cfg : Config) (s s' : State) (w : Nat) : Prop
  | same (array : (s'.workers w).commitTree.array = (s.workers w).commitTree.array)
    (history : (s'.workers w).history = (s.workers w).history)
  | commit (pc : (s.workers w).pc = .running) (pc' : (s'.workers w).pc = .committed s.globalClock)
    (array : (s'.workers w).commitTree.array =
      (s.workers w).commitTree.array ++
        [(s.globalClock, (s.workers w).tx.startTs)])
    (history : (s'.workers w).history = (s.workers w).history ++
      [(s.globalClock, (s.workers w).tx.startTs)])
    (clock : s'.globalClock = s.globalClock + 1)
  | rewrite (next : Nat) (set : List (Nat × Nat))
    (pc : (s.workers w).pc = .cleaning next set) (all : next = cfg.workersCount)
    (array : (s'.workers w).commitTree.array = set)
    (history : (s'.workers w).history = (s.workers w).history)

theorem tree_of_step (taken : step cfg s a = some s') (other : Nat) :
    TreeChange cfg s s' other := by
  by_cases acts : other = a.actor
  · have effect := effect_of_step taken
    rw [← acts] at effect
    cases effect with
    | rewrites next set pc all core clock =>
      exact .rewrite next set pc all (congrArg (fun its => its.commitTree.array) core)
        (congrArg (fun its => its.history) core)
    | commits pc pc' core clock =>
      exact .commit pc pc' (congrArg (fun its => its.commitTree.array) core)
        (congrArg (fun its => its.history) core) clock
    | _ =>
      rename_i core _
      exact .same (congrArg (fun its => its.commitTree.array) core)
        (congrArg (fun its => its.history) core)
  · obtain ⟨core, -⟩ := others_of_step taken acts
    exact .same (congrArg (fun its => its.commitTree.array) core)
      (congrArg (fun its => its.history) core)

inductive PcMove : TxIsolationLevel → WorkerPc → TxIsolationLevel → WorkerPc → Prop
  | startTX {level level'} : PcMove level .idle level' (afterStart level level')
  | switchToSI {level} : PcMove level .switchingToSI level (.beforeRefresh .takeSnapshot)
  | switchToRC {level} : PcMove level .switchingToRC level (.beforeRefresh .clean)
  | latch {level} : PcMove level .snapshotting level .latched
  | draw {level} : PcMove level .latched level .drawn
  | publish {level} : PcMove level .drawn level .beforeClean
  | clean {level} : PcMove level .beforeClean level (.cleaning 0 [])
  | nothingToClean {level} : PcMove level .beforeClean level (afterClean level)
  | scan {level next set set'} :
    PcMove level (.cleaning next set) level (.cleaning (next + 1) set')
  | rewrite {level next set} : PcMove level (.cleaning next set) level (afterClean level)
  | loadLwm {level} : PcMove level .loadingLwm level .running
  | skipRefresh {level after} : PcMove level (.beforeRefresh after) level after.pc
  | beginRefresh {level after stage} :
    PcMove level (.beforeRefresh after) level (.refreshing after stage)
  | refresh {level after stage stage'} :
    PcMove level (.refreshing after stage) level (.refreshing after stage')
  | endRefresh {level after stage} : PcMove level (.refreshing after stage) level after.pc
  | access {level} : PcMove level .running level .running
  | read {level key versions} : PcMove level .running level (.reading key versions)
  | readOn {level key versions versions'} :
    PcMove level (.reading key versions) level (.reading key versions')
  | readDone {level key versions} : PcMove level (.reading key versions) level .running
  | commit {level commitTs} : PcMove level .running level (.committed commitTs)
  | finishReadOnly {level} : PcMove level .running level
    (if level.atLeastSI then .beforeRefresh .finish else .idle)
  | finish {level commitTs} : PcMove level (.committed commitTs) level
    (if level.atLeastSI then .beforeRefresh .finish else .idle)
  | abort {level} : PcMove level .running level .aborting
  | undo {level} : PcMove level .aborting level .aborting
  | abortDone {level} : PcMove level .aborting level .idle

theorem pc_of_start (stepped : StartStep cfg s w own s') :
    PcMove (s.workers w).tx.level (s.workers w).pc (s'.workers w).tx.level (s'.workers w).pc := by
  cases stepped with
  | startTX pc => rw [pc]; simpa using .startTX
  | switchToSI pc => rw [pc]; simpa [setPc] using .switchToSI
  | switchToRC pc => rw [pc]; simpa [setPc] using .switchToRC
  | latchSnapshot pc => rw [pc]; simpa [setPc] using .latch
  | drawStartTs pc => rw [pc]; simpa using .draw
  | publishSnapshot pc => rw [pc]; simpa [setPc] using .publish
  | cleanIfNecessary pc => rw [pc]; simpa [setPc] using .clean
  | nothingToClean pc => rw [pc]; simpa [setPc] using .nothingToClean
  | skipSelf pc | scanSnapshot pc => rw [pc]; simpa [setPc] using .scan
  | rewriteTree pc => rw [pc]; simpa using .rewrite
  | loadLwm pc => rw [pc]; simpa using .loadLwm

theorem State.tx_setMarks {its : WorkerState} {next : Nat} (pc : WorkerPc)
    (tx : its.tx = (s.workers next).tx) : (((s.setWorker next its).setPc w pc).workers w).tx =
      (s.workers w).tx := by
  simp only [setPc, workers_setWorker]
  by_cases isNext : w = next
  · subst isNext
    simp [tx]
  · rw [s.workers_setWorker_of_ne next its isNext]

theorem pc_of_refresh {own : RefreshAction} (stepped : RefreshStep cfg s w own s') :
    PcMove (s.workers w).tx.level (s.workers w).pc (s'.workers w).tx.level (s'.workers w).pc := by
  cases stepped with
  | skip pc => rw [pc]; simpa [setPc] using .skipRefresh
  | tryLock pc => rw [pc]; simpa [setPc] using .beginRefresh
  | scanWord pc | publishOldest pc | skipWorker pc | queryTree pc =>
    rw [pc]
    simpa [setPc] using .refresh
  | compareLatest pc | sendLwm pc =>
    rw [tx_setMarks, pc_setPc, pc]
    · exact .refresh
    · rfl
  | storeLwm pc => rw [pc]; simpa [setPc] using .endRefresh

theorem Tested.tx (test : Tested s me tested) : (tested.workers me).tx = (s.workers me).tx := by
  cases test <;> simp [cacheSnapshot]

theorem pc_of_access {own : AccessAction} (stepped : AccessStep cfg s w own s') :
    PcMove (s.workers w).tx.level (s.workers w).pc (s'.workers w).tx.level (s'.workers w).pc := by
  have marked : ((s.markAsWrite w).workers w).tx.level =
      (s.workers w).tx.level ∧
      ((s.markAsWrite w).workers w).pc = (s.workers w).pc := by
    simp [markAsWrite]
  cases stepped with
  | @isVisibleForMe other txTs toWrite currentTs pc =>
    have tested := isVisibleForMe_tested s w other txTs toWrite currentTs
    rw [tested.tx, tested.pc, pc]
    exact .access
  | @change key change currentTs v pc =>
    have tested := mayChange_tested (s.markAsWrite w) w (s.tuples key) currentTs
    simp only [pushVersion, workers_setWorker]
    rw [tested.tx, tested.pc, marked.1, marked.2, pc]
    exact .access
  | @changeFails key change currentTs pc =>
    have tested := mayChange_tested (s.markAsWrite w) w (s.tuples key) currentTs
    rw [tested.tx, tested.pc, marked.1, marked.2, pc]
    exact .access
  | lookup pc => rw [pc]; simpa [setPc] using .read
  | notFound pc => rw [pc]; simpa [setPc] using .readDone
  | @check key v _ currentTs _ pc =>
    have tested := isVisibleForMe_tested s w v.workerId ⟨false, v.txTs⟩ false currentTs
    rw [pc_setPc, pc]
    simp only [setPc, workers_setWorker, tested.tx]
    split
    · exact .readDone
    · exact .readOn
  | commitTX pc => rw [pc]; simpa using .commit
  | commitReadOnly pc => rw [pc]; simpa [setPc] using .finishReadOnly
  | storeLatestWrite pc => rw [pc]; simpa using .finish
  | abortTX pc => rw [pc]; simpa [setPc] using .abort
  | undoNext pc => simpa [pc] using .undo
  | abortDone pc => rw [pc]; simpa [setPc] using .abortDone

theorem pc_of_step (taken : step cfg s a = some s') :
    PcMove (s.workers a.actor).tx.level (s.workers a.actor).pc
      (s'.workers a.actor).tx.level (s'.workers a.actor).pc := by
  obtain ⟨-, stepped⟩ := step_cases taken
  cases stepped with
  | start stepped => exact pc_of_start stepped
  | refresh stepped => exact pc_of_refresh stepped
  | access stepped => exact pc_of_access stepped

end TieredStore.ConcurrencyControl
