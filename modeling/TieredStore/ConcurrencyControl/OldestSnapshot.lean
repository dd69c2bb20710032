import TieredStore.ConcurrencyControl.SnapshotVisibility

namespace TieredStore.ConcurrencyControl

open Transition ConcurrencyControl.Action RefreshStage State WorkerPc

variable {cfg : Config} {s s' : State} {a : Action}
  {level level' : TxIsolationLevel} {w worker : Nat} {after : AfterRefresh} {stage : RefreshStage}
  {next newestOlap oldestOltp oldestTx : Nat}

def WorkerPc.entersSI : WorkerPc → Bool
  | .switchingToSI => true
  | .beforeRefresh .takeSnapshot => true
  | .refreshing .takeSnapshot _ => true
  | .snapshotting => true
  | .latched => true
  | .drawn => true
  | _ => false

theorem PcMove.entersSI {pc pc' : WorkerPc}
    (move : PcMove level pc level' pc') (enters : pc'.entersSI = true) :
    level'.atLeastSI = true ∨ (level' = level ∧ pc.entersSI = true) := by
  cases move with
  | startTX =>
    left
    unfold afterStart at enters
    split at enters
    · assumption
    · split at enters <;> contradiction
  | nothingToClean | rewrite =>
    unfold afterClean at enters
    split at enters <;> contradiction
  | @skipRefresh after | @beginRefresh after | @refresh after | @endRefresh after =>
    cases after <;> first | contradiction | exact .inr ⟨rfl, rfl⟩
  | finishReadOnly | finish => split at enters <;> contradiction
  | _ => first | contradiction | exact .inr ⟨rfl, rfl⟩

theorem PcMove.of_idle {pc' : WorkerPc}
    (move : PcMove level .idle level' pc') : pc' = afterStart level level' := by
  cases move
  rfl

inductive WordChange (s s' : State) (w : Nat) : Prop
  | same (word : s'.currentSnapshot w = s.currentSnapshot w)
    (still : (s.workers w).pc = .switchingToSI →
      (s'.workers w).pc = .switchingToSI)
  | own (enters : (s.workers w).pc.entersSI = true)
    (notSwitching : (s.workers w).pc ≠ .switchingToSI)
    (ts : (s'.currentSnapshot w).ts = (s.workers w).tx.startTs)
    (rc : (s'.currentSnapshot w).rcBit = false)
  | toSI (pc : (s.workers w).pc = .switchingToSI) (free : s.globalMutex = none)
    (ts : (s'.currentSnapshot w).ts = s.globalClock) (rc : (s'.currentSnapshot w).rcBit = false)
  | toRC (pc : (s.workers w).pc = .switchingToRC)
    (ts : (s'.currentSnapshot w).ts = (s.currentSnapshot w).ts)
    (rc : (s'.currentSnapshot w).rcBit = true)

theorem wordChange_of_start {own : StartAction}
    (stepped : StartStep cfg s w own s') : WordChange s s' w := by
  cases stepped with
  | switchToSI pc free => apply WordChange.toSI pc free <;> simp [setPc, setWorker, setSnapshot]
  | switchToRC pc => apply WordChange.toRC pc <;> simp [setPc, setWorker, setSnapshot]
  | latchSnapshot pc | publishSnapshot pc =>
    apply WordChange.own <;> simp [pc, entersSI, setPc, setWorker, setSnapshot]
  | _ => exact .same rfl (by simp_all)

theorem wordChange_of_step (taken : step cfg s a = some s') (w : Nat) : WordChange s s' w := by
  by_cases acts : w = a.actor
  · subst acts
    obtain ⟨-, stepped⟩ := step_cases taken
    cases stepped with
    | start stepped => exact wordChange_of_start stepped
    | refresh stepped =>
      refine .same (by rw [words_of_refresh stepped]) ?_
      cases stepped <;> simp_all [actor]
    | access stepped =>
      refine .same (by rw [words_of_access stepped]) ?_
      cases stepped <;> simp_all [actor]
  · refine .same (word_of_others taken acts) ?_
    rw [(others_of_step taken acts).2]
    exact id

theorem Tested.globalMutex {tested : State} {me : Nat} (test : Tested s me tested) :
    tested.globalMutex = s.globalMutex := by
  cases test <;> rfl

theorem mutex_of_access {own : AccessAction} (stepped : AccessStep cfg s w own s') :
    s'.globalMutex = s.globalMutex := by
  cases stepped with
  | isVisibleForMe | check => exact (isVisibleForMe_tested ..).globalMutex
  | change | changeFails => exact (mayChange_tested ..).globalMutex
  | _ => rfl

inductive MutexChange (s s' : State) (actor : Nat) : Prop
  | same (mutex : s'.globalMutex = s.globalMutex)
    (stays : ∀ after stage, (s'.workers actor).pc = .refreshing after stage →
      ∃ stage', (s.workers actor).pc = .refreshing after stage')
  | locks (free : s.globalMutex = none) (mutex : s'.globalMutex = some actor)
  | unlocks {after : AfterRefresh} {stage : RefreshStage}
    (pc : (s.workers actor).pc = .refreshing after stage) (mutex : s'.globalMutex = none)
    (leaves : ∀ after stage, (s'.workers actor).pc ≠ .refreshing after stage)

theorem AfterRefresh.pc_ne_refreshing (after after' : AfterRefresh) (stage : RefreshStage) :
    after.pc ≠ .refreshing after' stage := by
  cases after <;> simp [pc]

theorem mutex_of_refresh {own : RefreshAction} (stepped : RefreshStep cfg s w own s') :
    MutexChange s s' w := by
  cases stepped with
  | @skip after =>
    refine .same rfl ?_
    intro after' stage refreshes
    rw [pc_setPc] at refreshes
    exact absurd refreshes (after.pc_ne_refreshing after' stage)
  | tryLock pc free => exact .locks free rfl
  | @storeLwm after next allLwm oltpLwm skippedAWorker pc =>
    refine .unlocks pc rfl ?_
    intro after' stage refreshes
    simp only [setPc, workers_setWorker] at refreshes
    exact absurd refreshes (after.pc_ne_refreshing after' stage)
  | _ =>
    refine .same rfl ?_
    intro after' stage refreshes
    simp_all

theorem mutex_of_step (taken : step cfg s a = some s') : MutexChange s s' a.actor := by
  have move := pc_of_step taken
  obtain ⟨-, stepped⟩ := step_cases taken
  cases stepped with
  | refresh stepped => exact mutex_of_refresh stepped
  | start stepped =>
    refine .same (by cases stepped <;> rfl) ?_
    intro after stage refreshes
    rcases move.refreshing refreshes with before | during
    · cases stepped <;> simp_all [actor]
    · exact during
  | access stepped =>
    refine .same (mutex_of_access stepped) ?_
    intro after stage refreshes
    rcases move.refreshing refreshes with before | during
    · cases stepped <;> simp_all [actor]
    · exact during

structure SwitchInv (s : State) : Prop where
  holder : ∀ w after stage, (s.workers w).pc = .refreshing after stage → s.globalMutex = some w
  enters : ∀ w, (s.workers w).pc.entersSI = true → (s.workers w).tx.level.atLeastSI = true
  rc : ∀ w, (s.currentSnapshot w).rcBit = true →
    (s.workers w).tx.level.atLeastSI = false ∨ (s.workers w).pc = .switchingToSI
  clock : ∀ w, (s.currentSnapshot w).ts ≤ s.globalClock
  behind : ∀ w, s.HasSnapshot w → (s.currentSnapshot w).ts ≤ (s.workers w).tx.startTs

namespace SwitchInv

variable {w : Nat} (inv : SwitchInv s)
include inv

section

variable (taken : step cfg s a = some s')
include taken

theorem holder_step (pc : (s'.workers w).pc = .refreshing after stage) :
    s'.globalMutex = some w := by
  by_cases acts : w = a.actor
  · subst acts
    cases mutex_of_step taken with
    | same mutex stays =>
      obtain ⟨_, before⟩ := stays after stage pc
      rw [mutex]
      exact inv.holder _ _ _ before
    | locks free mutex => exact mutex
    | unlocks before mutex leaves => exact absurd pc (leaves after stage)
  · rw [(others_of_step taken acts).2] at pc
    have held := inv.holder w after stage pc
    cases mutex_of_step taken with
    | same mutex => rw [mutex, held]
    | locks free =>
      rw [free] at held
      contradiction
    | unlocks before =>
      rw [inv.holder _ _ _ before] at held
      exact absurd (Option.some.inj held).symm acts

theorem enters_step (enters : (s'.workers w).pc.entersSI = true) :
    (s'.workers w).tx.level.atLeastSI = true := by
  by_cases acts : w = a.actor
  · subst acts
    rcases (pc_of_step taken).entersSI enters with strong | ⟨level, before⟩
    · exact strong
    · rw [level]
      exact inv.enters _ before
  · obtain ⟨core, pc⟩ := others_of_step taken acts
    have level : (s'.workers w).tx.level = (s.workers w).tx.level :=
      congrArg (fun its => its.tx.level) core
    rw [pc] at enters
    rw [level]
    exact inv.enters w enters

theorem rc_level (rc : (s.currentSnapshot w).rcBit = true)
    (still : (s.workers w).pc = .switchingToSI → (s'.workers w).pc = .switchingToSI) :
    (s'.workers w).tx.level.atLeastSI = false ∨ (s'.workers w).pc = .switchingToSI := by
  rcases inv.rc w rc with weak | switching
  · rcases level_of_step taken w with level | ⟨idle, _, _, rfl⟩
    · left
      rw [level, weak]
    · have move := pc_of_step taken
      simp only [actor, idle] at move
      rw [move.of_idle, afterStart, weak]
      cases (s'.workers w).tx.level.atLeastSI with
      | false => exact .inl rfl
      | true => exact .inr rfl
  · exact .inr (still switching)

theorem rc_step (phase : PhaseInv s) (rc : (s'.currentSnapshot w).rcBit = true) :
    (s'.workers w).tx.level.atLeastSI = false ∨ (s'.workers w).pc = .switchingToSI := by
  cases wordChange_of_step taken w with
  | same word still =>
    rw [word] at rc
    exact inv.rc_level taken rc still
  | own _ _ ts off | toSI pc free ts off =>
    rw [off] at rc
    contradiction
  | toRC pc =>
    left
    have weak := phase w (by rw [pc]; rfl)
    rcases level_of_step taken w with level | ⟨idle, -⟩
    · rw [level, weak]
    · rw [idle] at pc
      contradiction

variable (trees : TreeInv cfg s)
include trees

theorem ts_le (w : Nat) : (s'.currentSnapshot w).ts ≤ s.globalClock := by
  have before := inv.clock w
  have started := trees.started w
  cases wordChange_of_step taken w with
  | same word =>
    rw [word]
    exact before
  | own => omega
  | toSI => omega
  | toRC => omega

theorem behind_step (phase : PhaseInv s) (holds : s'.HasSnapshot w) :
    (s'.currentSnapshot w).ts ≤ (s'.workers w).tx.startTs := by
  rcases snapshot_of_step phase taken holds with ⟨before, startTs⟩ | ⟨-, -, -, startTs, -⟩
  · rw [startTs]
    have behind := inv.behind w before
    cases wordChange_of_step taken w with
    | same word =>
      rw [word]
      exact behind
    | own => omega
    | toSI pc =>
      have inside := before.2
      rw [pc] at inside
      contradiction
    | toRC => omega
  · rw [startTs]
    exact inv.ts_le taken trees w

theorem step (phase : PhaseInv s) : SwitchInv s' where
  holder _ _ _ pc := inv.holder_step taken pc
  enters _ enters := inv.enters_step taken enters
  rc _ rc := inv.rc_step taken phase rc
  clock w := le_trans (inv.ts_le taken trees w) (clock_of_step taken)
  behind _ holds := inv.behind_step taken trees phase holds

end

theorem rc_stays (taken : ConcurrencyControl.step cfg s a = some s')
    (locked : s.globalMutex ≠ none) (rc : (s.currentSnapshot w).rcBit = true) :
    (s'.currentSnapshot w).rcBit = true := by
  cases wordChange_of_step taken w with
  | same word => rw [word, rc]
  | own enters notSwitching =>
    rcases inv.rc w rc with weak | switching
    · rw [inv.enters w enters] at weak
      contradiction
    · exact absurd switching notSwitching
  | toSI pc free => exact absurd free locked
  | toRC pc ts on => exact on

theorem not_hasSnapshot (rc : (s.currentSnapshot w).rcBit = true) : ¬ s.HasSnapshot w := by
  intro holds
  obtain ⟨strong, inside⟩ := holds
  rcases inv.rc w rc with weak | switching
  · rw [strong] at weak
    contradiction
  · rw [switching] at inside
    contradiction

end SwitchInv

theorem Initial.switchInv (initial : Initial cfg s) : SwitchInv s where
  holder w after stage pc := by
    rw [initial.pc] at pc
    contradiction
  enters w enters := by
    rw [initial.pc] at enters
    contradiction
  rc w rc := by
    rw [initial.currentSnapshot] at rc
    contradiction
  clock w := by
    rw [initial.currentSnapshot]
    exact Nat.zero_le _
  behind w holds := by
    rw [initial.currentSnapshot]
    exact Nat.zero_le _

structure BelowSnapshot (s : State) (reader ts : Nat) : Prop where
  clock : ts ≤ s.globalClock
  held : s.HasSnapshot reader → ts ≤ (s.workers reader).tx.startTs

theorem BelowSnapshot.step {reader ts : Nat} (below : BelowSnapshot s reader ts)
    (phase : PhaseInv s) (taken : step cfg s a = some s') : BelowSnapshot s' reader ts where
  clock := le_trans below.clock (clock_of_step taken)
  held holds := by
    rcases snapshot_of_step phase taken holds with ⟨before, startTs⟩ | ⟨-, -, -, startTs, -⟩
    · rw [startTs]
      exact below.held before
    · rw [startTs]
      exact below.clock

theorem BelowSnapshot.le {reader ts ts' : Nat} (below : BelowSnapshot s reader ts)
    (smaller : ts' ≤ ts) : BelowSnapshot s reader ts' :=
  ⟨le_trans smaller below.clock, fun holds => le_trans smaller (below.held holds)⟩

theorem SwitchInv.belowSnapshot (inv : SwitchInv s) (reader : Nat) :
    BelowSnapshot s reader (s.currentSnapshot reader).ts :=
  ⟨inv.clock reader, inv.behind reader⟩

/-- The scan has seen every worker before `next`: it left out those at read committed, and
its result is below the snapshots of the others. -/
def ScannedBelow (s : State) (next oldestTx : Nat) : Prop :=
  ∀ reader < next, (s.currentSnapshot reader).rcBit = true ∨ BelowSnapshot s reader oldestTx

theorem ScannedBelow.step {next oldestTx : Nat} (scanned : ScannedBelow s next oldestTx)
    (inv : SwitchInv s) (phase : PhaseInv s) (locked : s.globalMutex ≠ none)
    (taken : step cfg s a = some s') : ScannedBelow s' next oldestTx := by
  intro reader seen
  rcases scanned reader seen with rc | below
  · exact .inl (inv.rc_stays taken locked rc)
  · exact .inr (below.step phase taken)

theorem ScannedBelow.see {next' newestOlap' oldestOltp' oldestTx' : Nat}
    (scanned : ScannedBelow s next oldestTx) (inv : SwitchInv s)
    (seen : RefreshStage.see (s.currentSnapshot next) next newestOlap oldestOltp oldestTx =
      .scanning next' newestOlap' oldestOltp' oldestTx') : ScannedBelow s next' oldestTx' := by
  cases mode : (s.currentSnapshot next).rcBit with
  | true =>
    simp only [RefreshStage.see, mode] at seen
    cases seen
    intro reader before
    rcases Nat.lt_succ_iff_lt_or_eq.mp before with earlier | rfl
    · exact scanned reader earlier
    · exact .inl mode
  | false =>
    obtain ⟨rfl, rfl⟩ := see_oldest mode seen
    intro reader before
    rcases Nat.lt_succ_iff_lt_or_eq.mp before with earlier | rfl
    · rcases scanned reader earlier with rc | below
      · exact .inl rc
      · exact .inr (below.le (min_le_right _ _))
    · exact .inr ((inv.belowSnapshot reader).le (min_le_left _ _))

def RefreshStage.published : RefreshStage → Bool
  | .scanning _ _ _ _ => false
  | _ => true

theorem RefreshStage.published_see (word : SnapshotWord)
    (next newestOlap oldestOltp oldestTx : Nat) :
    (see word next newestOlap oldestOltp oldestTx).published = false := by
  unfold see
  split
  · rfl
  · split <;> rfl

structure OldestBound (cfg : Config) (s : State) : Prop where
  scans : ∀ w after next newestOlap oldestOltp oldestTx,
    (s.workers w).pc = .refreshing after (.scanning next newestOlap oldestOltp oldestTx) →
    ScannedBelow s next oldestTx
  published : ∀ w after stage, (s.workers w).pc = .refreshing after stage →
    stage.published = true → ScannedBelow s cfg.workersCount s.oldestAllStartTs

theorem publish_of_step (taken : step cfg s a = some s') :
    s'.oldestAllStartTs = s.oldestAllStartTs ∨
      ∃ w after newestOlap oldestOltp, a = .refresh w .publishOldest ∧
        (s.workers w).pc = .refreshing after
          (.scanning cfg.workersCount newestOlap oldestOltp s'.oldestAllStartTs) := by
  obtain ⟨-, stepped⟩ := step_cases taken
  cases stepped with
  | start stepped => cases stepped <;> exact .inl rfl
  | refresh stepped =>
    cases stepped with
    | publishOldest pc all => exact .inr ⟨_, _, _, _, rfl, all ▸ pc⟩
    | _ => exact .inl rfl
  | access stepped => exact .inl (watermarks_of_access stepped).1

theorem SwitchInv.oldest_of_step (inv : SwitchInv s)
    (taken : ConcurrencyControl.step cfg s a = some s')
    (pc : (s.workers w).pc = .refreshing after stage) (past : stage.published = true) :
    s'.oldestAllStartTs = s.oldestAllStartTs := by
  rcases publish_of_step taken with same | ⟨sender, _, _, _, -, scans⟩
  · exact same
  · have mutex := inv.holder sender _ _ scans
    rw [inv.holder w _ _ pc] at mutex
    cases mutex
    rw [pc] at scans
    cases scans
    contradiction

namespace OldestBound

variable {w : Nat} {after : AfterRefresh}

theorem locked (inv : SwitchInv s)
    (pc : (s.workers w).pc = .refreshing after stage) : s.globalMutex ≠ none := by
  rw [inv.holder w after stage pc]
  exact Option.some_ne_none w

variable (taken : step cfg s a = some s')
include taken

theorem scans_step (bound : OldestBound cfg s) (inv : SwitchInv s)
    (phase : PhaseInv s) (pc : (s'.workers w).pc =
      .refreshing after (.scanning next newestOlap oldestOltp oldestTx)) :
    ScannedBelow s' next oldestTx := by
  generalize atStage : scanning next newestOlap oldestOltp oldestTx = stage at pc
  cases stage_of_step taken pc with
  | stays was =>
    rw [← atStage] at was
    exact (bound.scans w _ _ _ _ _ was).step inv phase (locked inv was) taken
  | begins =>
    cases atStage
    intro reader seen
    omega
  | sees was =>
    have scanned := bound.scans w _ _ _ _ _ was
    exact (scanned.see inv atStage.symm).step inv phase (locked inv was) taken
  | queries =>
    unfold contribute at atStage
    split at atStage <;> contradiction
  | _ => contradiction

theorem published_before
    (pc : (s'.workers w).pc = .refreshing after stage) (past : stage.published = true) :
    (∃ after stage', (s.workers w).pc = .refreshing after stage' ∧ stage'.published = true) ∨
      ∃ after newestOlap oldestOltp, (s.workers w).pc = .refreshing after
        (.scanning cfg.workersCount newestOlap oldestOltp s'.oldestAllStartTs) := by
  by_cases acts : w = a.actor
  · subst acts
    have move := (pc_of_step taken).refreshing pc
    obtain ⟨-, stepped⟩ := step_cases taken
    cases stepped with
    | start stepped | access stepped => cases stepped <;> simp_all [actor]
    | refresh stepped =>
      cases stepped with
      | @skip next was =>
        simp only [actor, pc_setPc] at pc
        exact absurd pc (next.pc_ne_refreshing after stage)
      | tryLock =>
        simp only [setPc, actor, workers_setWorker] at pc
        cases pc
        contradiction
      | scanWord =>
        simp only [actor, pc_setPc, refreshing.injEq] at pc
        rw [← pc.2, published_see] at past
        contradiction
      | publishOldest was all => exact .inr ⟨_, _, _, all ▸ was⟩
      | skipWorker was | compareLatest was | queryTree was | sendLwm was =>
        exact .inl ⟨_, _, was, rfl⟩
      | @storeLwm next _ _ _ _ was all =>
        simp only [setPc, actor, workers_setWorker] at pc
        exact absurd pc (next.pc_ne_refreshing after stage)
  · rw [(others_of_step taken acts).2] at pc
    exact .inl ⟨after, stage, pc, past⟩

theorem step (bound : OldestBound cfg s) (inv : SwitchInv s) (phase : PhaseInv s) :
    OldestBound cfg s' where
  scans _ _ _ _ _ _ pc := bound.scans_step taken inv phase pc
  published w after stage pc past := by
    rcases published_before taken pc past with
      ⟨after, stage', before, past⟩ | ⟨after, newestOlap, oldestOltp, scanned⟩
    · rw [inv.oldest_of_step taken before past]
      exact (bound.published w _ _ before past).step inv phase (locked inv before) taken
    · exact (bound.scans w _ _ _ _ _ scanned).step inv phase (locked inv scanned) taken

end OldestBound

theorem Initial.oldestBound (initial : Initial cfg s) : OldestBound cfg s where
  scans w after next newestOlap oldestOltp oldestTx pc := by
    rw [initial.pc] at pc
    contradiction
  published w after stage pc := by
    rw [initial.pc] at pc
    contradiction

end TieredStore.ConcurrencyControl
