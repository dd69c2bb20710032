import TieredStore.ConcurrencyControl.Trees

namespace TieredStore.ConcurrencyControl

open Transition ConcurrencyControl.Action RefreshStage State

variable {cfg : Config} {s s' : State} {a : Action}

inductive StageMove (cfg : Config) (s : State) (w : Nat) : RefreshStage → Prop
  | stays {after stage} (pc : (s.workers w).pc = .refreshing after stage) :
    StageMove cfg s w stage
  | begins : StageMove cfg s w (.scanning 0 0 maxTxid maxTxid)
  | sees {after next newestOlap oldestOltp oldestTx} (pc : (s.workers w).pc =
      .refreshing after (.scanning next newestOlap oldestOltp oldestTx)) :
    StageMove cfg s w
      (.see (s.currentSnapshot next) next newestOlap oldestOltp oldestTx)
  | publishes : StageMove cfg s w (.comparing 0 maxTxid maxTxid false)
  | skips {next allLwm oltpLwm} :
    StageMove cfg s w (.comparing (next + 1) allLwm oltpLwm true)
  | compares {after next allLwm oltpLwm skippedAWorker} (pc : (s.workers w).pc =
      .refreshing after (.comparing next allLwm oltpLwm skippedAWorker)) :
    StageMove cfg s w (.computing next allLwm oltpLwm skippedAWorker)
  | queries {after next allLwm oltpLwm skippedAWorker} (pc : (s.workers w).pc =
      .refreshing after (.computing next allLwm oltpLwm skippedAWorker)) :
    StageMove cfg s w
      (.contribute cfg s next allLwm oltpLwm skippedAWorker)
  | sends {after next itsAllLwm itsOltpLwm allLwm oltpLwm skippedAWorker}
    (pc : (s.workers w).pc = .refreshing after
      (.sending next itsAllLwm itsOltpLwm allLwm oltpLwm skippedAWorker)) :
    StageMove cfg s w (.comparing (next + 1) allLwm oltpLwm skippedAWorker)

variable {stage : RefreshStage} {after : AfterRefresh} {w worker : Nat} {ok ok' : Nat × Nat → Prop}

theorem PcMove.refreshing {level level' : TxIsolationLevel} {pc pc' : WorkerPc}
    (move : PcMove level pc level' pc') (refreshes : pc' = .refreshing after stage) :
    pc = .beforeRefresh after ∨ ∃ stage, pc = .refreshing after stage := by
  cases move with
  | startTX =>
    unfold afterStart at refreshes
    split at refreshes <;> split at refreshes <;> simp at refreshes
  | nothingToClean | rewrite =>
    unfold afterClean at refreshes
    split at refreshes <;> simp at refreshes
  | @skipRefresh after | @endRefresh after => cases after <;> simp [AfterRefresh.pc] at refreshes
  | finishReadOnly | finish => split at refreshes <;> simp at refreshes
  | _ => simp_all

theorem stage_of_actor (taken : step cfg s a = some s')
    (pc : (s'.workers a.actor).pc = .refreshing after stage) : StageMove cfg s a.actor stage := by
  have refreshes := (pc_of_step taken).refreshing pc
  obtain ⟨-, stepped⟩ := step_cases taken
  cases stepped with
  | start stepped | access stepped => cases stepped <;> simp_all [actor]
  | refresh stepped =>
    cases stepped with
    | @skip next was => cases next <;> simp [actor, AfterRefresh.pc] at pc
    | tryLock =>
      simp [actor] at pc
      exact pc.2 ▸ .begins
    | scanWord was =>
      simp [actor] at pc
      exact pc.2 ▸ .sees was
    | publishOldest =>
      simp [actor] at pc
      exact pc.2 ▸ .publishes
    | skipWorker =>
      simp [actor] at pc
      exact pc.2 ▸ .skips
    | compareLatest was =>
      simp [actor] at pc
      exact pc.2 ▸ .compares was
    | queryTree was =>
      simp [actor] at pc
      exact pc.2 ▸ .queries was
    | sendLwm was =>
      simp [actor] at pc
      exact pc.2 ▸ .sends was
    | @storeLwm next _ _ _ _ was all => cases next <;> simp [actor, AfterRefresh.pc] at pc

theorem stage_of_step (taken : step cfg s a = some s')
    (pc : (s'.workers w).pc = .refreshing after stage) : StageMove cfg s w stage := by
  by_cases acts : w = a.actor
  · subst acts
    exact stage_of_actor taken pc
  · rw [(others_of_step taken acts).2] at pc
    exact .stays pc

theorem watermarks_of_access {own : AccessAction} (stepped : AccessStep cfg s w own s') :
    s'.oldestAllStartTs = s.oldestAllStartTs ∧ s'.allLwm = s.allLwm := by
  cases stepped with
  | isVisibleForMe | check => exact (isVisibleForMe_tested ..).watermarks
  | change | changeFails => exact (mayChange_tested ..).watermarks
  | _ => exact ⟨rfl, rfl⟩

section

variable (taken : step cfg s a = some s')
include taken

theorem oldest_of_step : s'.oldestAllStartTs = s.oldestAllStartTs ∨
      ∃ w after newestOlap oldestOltp, (s.workers w).pc = .refreshing after
        (.scanning cfg.workersCount newestOlap oldestOltp s'.oldestAllStartTs) := by
  obtain ⟨-, stepped⟩ := step_cases taken
  cases stepped with
  | start stepped => cases stepped <;> exact .inl rfl
  | refresh stepped =>
    cases stepped with
    | publishOldest pc all => exact .inr ⟨_, _, _, _, all ▸ pc⟩
    | _ => exact .inl rfl
  | access stepped => exact .inl (watermarks_of_access stepped).1

theorem allLwm_of_step : s'.allLwm = s.allLwm ∨
      ∃ w after oltpLwm, (s.workers w).pc = .refreshing after
        (.comparing cfg.workersCount s'.allLwm oltpLwm false) := by
  obtain ⟨-, stepped⟩ := step_cases taken
  cases stepped with
  | start stepped => cases stepped <;> exact .inl rfl
  | refresh stepped =>
    cases stepped with
    | @storeLwm _ _ _ _ skippedAWorker pc all =>
      cases skippedAWorker with
      | false => exact .inr ⟨_, _, _, all ▸ pc⟩
      | true => exact .inl rfl
    | _ => exact .inl rfl
  | access stepped => exact .inl (watermarks_of_access stepped).2

theorem lwmCache_of_step (other : Nat) :
    (s'.workers other).globalAllLwmCache = (s.workers other).globalAllLwmCache ∨
      (s'.workers other).globalAllLwmCache = s.allLwm := by
  by_cases acts : other = a.actor
  · subst acts
    cases effect_of_step taken with
    | loads pc core => exact .inr (congrArg (fun its => its.globalAllLwmCache) core)
    | _ =>
      rename_i core _
      exact .inl (congrArg (fun its => its.globalAllLwmCache) core)
  · exact .inl (congrArg (fun its => its.globalAllLwmCache) (others_of_step taken acts).1)

theorem history_of_step (other : Nat) : (s.workers other).history ⊆ (s'.workers other).history := by
  cases tree_of_step taken other with
  | same array history => exact history ▸ List.Subset.refl _
  | commit pc pc' array history => exact history ▸ List.subset_append_left _ _
  | rewrite next set pc all array history => exact history ▸ List.Subset.refl _

end

def Backed (ok : Nat × Nat → Prop) (history : List (Nat × Nat)) (lwm : Nat) : Prop :=
  lwm = 0 ∨ ∃ pair ∈ history, lwm ≤ pair.2 ∧ ok pair

namespace Backed

variable {ok ok' : Nat × Nat → Prop} {history history' : List (Nat × Nat)} {lwm lwm' : Nat}

theorem mono (backed : Backed ok history lwm) (implies : ∀ pair, ok pair → ok' pair)
    (subset : history ⊆ history') : Backed ok' history' lwm := by
  rcases backed with zero | ⟨pair, mem, le, good⟩
  · exact .inl zero
  · exact .inr ⟨pair, subset mem, le, implies pair good⟩

theorem le (backed : Backed ok history lwm) (smaller : lwm' ≤ lwm) : Backed ok history lwm' := by
  rcases backed with zero | ⟨pair, mem, le, good⟩
  · exact .inl (by omega)
  · exact .inr ⟨pair, mem, le_trans smaller le, good⟩

end Backed

def BackedBelow (ok : Nat × Nat → Prop) (s : State) (bound lwm : Nat) : Prop :=
  ∀ w < bound, Backed ok (s.workers w).history lwm

def RefreshStage.Backed (ok : Nat × Nat → Prop) (s : State) : RefreshStage → Prop
  | .scanning _ _ _ _ => True
  | .comparing next allLwm _ skippedAWorker =>
    skippedAWorker = false → BackedBelow ok s next allLwm
  | .computing next allLwm _ skippedAWorker =>
    skippedAWorker = false → BackedBelow ok s next allLwm
  | .sending next _ _ allLwm _ skippedAWorker =>
    skippedAWorker = false → BackedBelow ok s (next + 1) allLwm

structure LwmInv (cfg : Config) (ok : State → Nat × Nat → Prop) (s : State) : Prop where
  global : BackedBelow (ok s) s cfg.workersCount s.allLwm
  cached : ∀ w, BackedBelow (ok s) s cfg.workersCount (s.workers w).globalAllLwmCache
  stages : ∀ w after stage, (s.workers w).pc = .refreshing after stage → stage.Backed (ok s) s

theorem BackedBelow.of_step {bound lwm : Nat} (backed : BackedBelow ok s bound lwm)
    (taken : step cfg s a = some s')
    (implies : ∀ pair, ok pair → ok' pair) : BackedBelow ok' s' bound lwm :=
  fun w below => (backed w below).mono implies (history_of_step taken w)

theorem RefreshStage.Backed.of_step (backed : stage.Backed ok s)
    (taken : step cfg s a = some s') (implies : ∀ pair, ok pair → ok' pair) :
    stage.Backed ok' s' := by
  cases stage with
  | scanning => trivial
  | comparing | computing | sending =>
    intro none
    exact (backed none).of_step taken implies

theorem TreeInv.lcb_backed {ok : Nat × Nat → Prop} (trees : TreeInv cfg s)
    (oldest : ∀ pair ∈ (s.workers w).history, pair.1 < s.oldestAllStartTs → ok pair) :
    Backed ok (s.workers w).history ((s.workers w).commitTree.lcb s.oldestAllStartTs) := by
  rcases CommitTree.lcb_eq (trees.sortedTree w) with zero | ⟨_, isLcb⟩
  · exact .inl zero
  · have mem := trees.inside w isLcb.member
    exact .inr ⟨_, mem, le_refl _, oldest _ mem isLcb.before⟩

theorem contribute_backed {ok : Nat × Nat → Prop} {next allLwm oltpLwm : Nat} {skipped : Bool}
    (trees : TreeInv cfg s)
    (oldest : ∀ pair ∈ (s.workers next).history, pair.1 < s.oldestAllStartTs → ok pair)
    (before : skipped = false → BackedBelow ok s next allLwm) :
    (contribute cfg s next allLwm oltpLwm skipped).Backed ok s := by
  have its := trees.lcb_backed oldest
  have both : skipped = false → BackedBelow ok s (next + 1)
      (min ((s.workers next).commitTree.lcb s.oldestAllStartTs) allLwm) := by
    intro none w below
    rcases Nat.lt_succ_iff_lt_or_eq.mp below with earlier | rfl
    · exact (before none w earlier).le (min_le_right _ _)
    · exact its.le (min_le_left _ _)
  unfold contribute
  split <;> exact both

def OldestBacks (ok : State → Nat × Nat → Prop) (s : State) : Prop :=
  ∀ w after next allLwm oltpLwm skippedAWorker,
    (s.workers w).pc = .refreshing after (.computing next allLwm oltpLwm skippedAWorker) →
    ∀ pair ∈ (s.workers next).history, pair.1 < s.oldestAllStartTs → ok s pair

namespace LwmInv

variable {ok : State → Nat × Nat → Prop}

theorem step (inv : LwmInv cfg ok s) (trees : TreeInv cfg s)
    (oldest : OldestBacks ok s) (stable : ∀ pair, ok s pair → ok s' pair)
    (taken : step cfg s a = some s') : LwmInv cfg ok s' where
  global := by
    rcases allLwm_of_step taken with same | ⟨w, after, _, pc⟩
    · rw [same]
      exact inv.global.of_step taken stable
    · exact (inv.stages w after _ pc rfl).of_step taken stable
  cached w := by
    rcases lwmCache_of_step taken w with same | loaded
    · rw [same]
      exact (inv.cached w).of_step taken stable
    · rw [loaded]
      exact inv.global.of_step taken stable
  stages w after stage pc := by
    refine Backed.of_step ?_ taken stable
    cases stage_of_step taken pc with
    | stays was => exact inv.stages w _ _ was
    | begins => trivial
    | sees =>
      unfold see
      split
      · trivial
      · split <;> trivial
    | publishes =>
      intro _ w _
      omega
    | skips =>
      intro _
      contradiction
    | compares was =>
      have compared := inv.stages w _ _ was
      exact compared
    | queries was =>
      have computed := inv.stages w _ _ was
      exact contribute_backed trees (oldest w _ _ _ _ _ was) computed
    | sends was =>
      have sent := inv.stages w _ _ was
      exact sent

end LwmInv

theorem Initial.lwmInv (initial : Initial cfg s) (ok : State → Nat × Nat → Prop) :
    LwmInv cfg ok s where
  global w _ := .inl initial.allLwm
  cached w _ _ := .inl (initial.globalAllLwmCache w)
  stages w after stage pc := by
    rw [initial.pc] at pc
    contradiction

end TieredStore.ConcurrencyControl
