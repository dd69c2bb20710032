import TieredStore.Lib.Transition

namespace TieredStore.EpochManager

open Transition
open Function (update update_self update_of_ne)

inductive WorkerPc
  | outside
  | tagged
  | loaded (epoch : Nat)
  | inside
  deriving DecidableEq, Repr

/-- The counts of enter calls that have loaded the epoch, and of leave calls, are ghosts. -/
structure Worker where
  active : Bool
  currentEpoch : Nat
  pc : WorkerPc
  entered : Nat
  left : Nat
  deriving DecidableEq, Repr

inductive ScanStage
  | waiting
  | atWorker (worker : Nat)
  | isActive (worker : Nat)
  | answered (safe : Bool)
  deriving DecidableEq, Repr

/-- The epoch that was read, and for each worker how many enter calls had loaded theirs. -/
structure Reader where
  target : Nat
  entered : Nat → Nat
  stage : ScanStage

structure State where
  globalEpoch : Nat
  workers : Nat → Worker
  readers : Nat → Option Reader

def Initial (s : State) : Prop :=
  s.globalEpoch = 0 ∧ s.workers = (fun _ => ⟨false, 0, .outside, 0, 0⟩) ∧ s.readers = fun _ => none

inductive Action
  | advance
  | storeActive (worker : Nat)
  | loadGlobal (worker : Nat)
  | storeEpoch (worker : Nat)
  | leave (worker : Nat)
  | getGlobalEpoch (reader : Nat)
  | startScan (reader : Nat)
  | loadActive (reader : Nat)
  | loadEpoch (reader : Nat)

def State.setWorker (state : State) (worker : Nat) (its : Worker) : State :=
  { state with workers := update state.workers worker its }

def State.setStage (state : State) (reader : Nat) (its : Reader) (stage : ScanStage) : State :=
  { state with readers := update state.readers reader (some { its with stage := stage }) }

def step (totalWorkersNumber : Nat) (state : State) : Action → Option State
  | .advance => some { state with globalEpoch := state.globalEpoch + 1 }
  | .storeActive worker =>
    let its := state.workers worker
    match its.pc with
    | .outside => some (state.setWorker worker { its with active := true, pc := .tagged })
    | _ => none
  | .loadGlobal worker =>
    let its := state.workers worker
    match its.pc with
    | .tagged =>
      some (state.setWorker worker
        { its with pc := .loaded state.globalEpoch, entered := its.entered + 1 })
    | _ => none
  | .storeEpoch worker =>
    let its := state.workers worker
    match its.pc with
    | .loaded epoch =>
      some (state.setWorker worker { its with currentEpoch := epoch, pc := .inside })
    | _ => none
  | .leave worker =>
    let its := state.workers worker
    match its.pc with
    | .inside =>
      some (state.setWorker worker
        { its with active := false, pc := .outside, left := its.left + 1 })
    | _ => none
  | .getGlobalEpoch reader =>
    some { state with
      readers := update state.readers reader
        (some ⟨state.globalEpoch, fun worker => (state.workers worker).entered, .waiting⟩) }
  | .startScan reader =>
    (state.readers reader).map fun its => state.setStage reader its (.atWorker 0)
  | .loadActive reader =>
    (state.readers reader).bind fun its =>
      match its.stage with
      | .atWorker worker =>
        if worker = totalWorkersNumber then
          some (state.setStage reader its (.answered true))
        else if (state.workers worker).active then
          some (state.setStage reader its (.isActive worker))
        else
          some (state.setStage reader its (.atWorker (worker + 1)))
      | _ => none
  | .loadEpoch reader =>
    (state.readers reader).bind fun its =>
      match its.stage with
      | .isActive worker =>
        if (state.workers worker).currentEpoch ≤ its.target then
          some (state.setStage reader its (.answered false))
        else
          some (state.setStage reader its (.atWorker (worker + 1)))
      | _ => none

def WorkerPc.open : WorkerPc → Nat
  | .outside | .tagged => 0
  | .loaded _ | .inside => 1

structure Worker.Inv (globalEpoch : Nat) (w : Worker) : Prop where
  active : w.pc ≠ .outside → w.active = true
  counts : w.entered = w.left + w.pc.open
  current : w.currentEpoch ≤ globalEpoch
  loaded : ∀ epoch, w.pc = .loaded epoch → epoch ≤ globalEpoch

structure Worker.Behind (target entered : Nat) (w : Worker) : Prop where
  earlier : entered ≤ w.entered
  current : w.left < entered → w.currentEpoch ≤ target
  loaded : w.left < entered → ∀ epoch, w.pc = .loaded epoch → epoch ≤ target

def ScanStage.passed : ScanStage → Nat → Prop
  | .waiting, _ | .answered false, _ => False
  | .atWorker next, w | .isActive next, w => w < next
  | .answered true, _ => True

structure Inv (totalWorkersNumber : Nat) (s : State) : Prop where
  workers : ∀ w, (s.workers w).Inv s.globalEpoch
  behind : ∀ reader its, s.readers reader = some its →
    ∀ w, (s.workers w).Behind its.target (its.entered w)
  passed : ∀ reader its, s.readers reader = some its →
    ∀ w < totalWorkersNumber, its.stage.passed w → its.entered w ≤ (s.workers w).left

section Steps

variable {totalWorkersNumber : Nat} {s : State} {its : Reader}

theorem Worker.Behind.left_le {target entered globalEpoch : Nat} {w : Worker}
    (inv : w.Inv globalEpoch) (behind : w.Behind target entered)
    (past : w.active = false ∨ target < w.currentEpoch) : entered ≤ w.left := by
  by_contra still
  have isLeft := Nat.lt_of_not_le still
  rcases past with inactive | later
  · have isOpen := lt_of_lt_of_le isLeft behind.earlier
    rw [inv.counts] at isOpen
    have isActive : w.active = true := by
      apply inv.active
      intro outside
      simp [outside, WorkerPc.open] at isOpen
    rw [isActive] at inactive
    contradiction
  · exact absurd (behind.current isLeft) (Nat.not_le_of_lt later)

variable (inv : Inv totalWorkersNumber s)
include inv

theorem Inv.setWorker {w : Nat} {its : Worker} (invariant : its.Inv s.globalEpoch)
    (behind : ∀ target entered, (s.workers w).Behind target entered → its.Behind target entered)
    (left : (s.workers w).left ≤ its.left) : Inv totalWorkersNumber (s.setWorker w its) := by
  constructor
  · exact (Function.forall_update_iff s.workers fun _ its => its.Inv s.globalEpoch).mpr
      ⟨invariant, fun other _ => inv.workers other⟩
  · intro reader its' isReader
    apply (Function.forall_update_iff s.workers fun other its =>
      its.Behind its'.target (its'.entered other)).mpr
    exact ⟨behind _ _ (inv.behind reader its' isReader w),
      fun other _ => inv.behind reader its' isReader other⟩
  · intro reader its' isReader other inside passed
    have before := inv.passed reader its' isReader other inside passed
    by_cases same : other = w
    · subst same
      simpa [State.setWorker] using le_trans before left
    · simpa [State.setWorker, update_of_ne same] using before

theorem Inv.setStage {reader : Nat} {stage : ScanStage} (isReader : s.readers reader = some its)
    (passed : ∀ w < totalWorkersNumber, stage.passed w → its.entered w ≤ (s.workers w).left) :
    Inv totalWorkersNumber (s.setStage reader its stage) := by
  refine ⟨inv.workers, ?_, ?_⟩
  · apply (Function.forall_update_iff s.readers fun _ found =>
      ∀ its, found = some its → ∀ w, (s.workers w).Behind its.target
        (its.entered w)).mpr
    refine ⟨?_, fun other _ => inv.behind other⟩
    rintro _ ⟨⟩
    exact inv.behind reader its isReader
  · apply (Function.forall_update_iff s.readers fun _ found =>
      ∀ its, found = some its → ∀ w < totalWorkersNumber, its.stage.passed w →
        its.entered w ≤ (s.workers w).left).mpr
    refine ⟨?_, fun other _ => inv.passed other⟩
    rintro _ ⟨⟩
    exact passed

theorem Inv.scanNext {reader next : Nat} (isReader : s.readers reader = some its)
    (stage : its.stage = .atWorker next ∨ its.stage = .isActive next)
    (past : (s.workers next).active = false ∨ its.target < (s.workers next).currentEpoch) :
    Inv totalWorkersNumber (s.setStage reader its (.atWorker (next + 1))) := by
  apply inv.setStage isReader
  intro w inside earlier
  rcases Nat.lt_succ_iff_lt_or_eq.mp earlier with before | rfl
  · apply inv.passed reader its isReader w inside
    rcases stage with stage | stage <;> rw [stage] <;> exact before
  · exact (inv.behind reader its isReader w).left_le (inv.workers w) past

theorem Inv.step {s' : State} {a : Action}
    (taken : EpochManager.step totalWorkersNumber s a = some s') : Inv totalWorkersNumber s' := by
  cases a with
  | advance =>
    cases taken
    refine ⟨fun w => ?_, inv.behind, inv.passed⟩
    obtain ⟨active, counts, current, loaded⟩ := inv.workers w
    exact ⟨active, counts, Nat.le_succ_of_le current,
      fun epoch isLoaded => Nat.le_succ_of_le (loaded epoch isLoaded)⟩
  | storeActive w =>
    have own := inv.workers w
    simp only [EpochManager.step] at taken
    split at taken <;> cases taken
    rename_i pc
    have counts := own.counts
    rw [pc] at counts
    exact inv.setWorker ⟨fun _ => rfl, counts, own.current, nofun⟩
      (fun _ _ behind => ⟨behind.earlier, behind.current, nofun⟩) (le_refl _)
  | loadGlobal w =>
    have own := inv.workers w
    simp only [EpochManager.step] at taken
    split at taken <;> cases taken
    rename_i pc
    have counts : (s.workers w).entered = (s.workers w).left := by
      simpa [pc, WorkerPc.open] using own.counts
    -- Who read the target before had no open call of this worker to wait for.
    have none : ∀ target entered, (s.workers w).Behind target entered →
        ¬ (s.workers w).left < entered := by
      intro target entered behind
      have earlier := behind.earlier
      omega
    refine inv.setWorker ⟨fun _ => own.active (by simp [pc]), by simp [counts, WorkerPc.open],
      own.current, ?_⟩ (fun target entered behind => ?_) (le_refl _)
    · rintro epoch ⟨⟩
      exact le_refl _
    · exact ⟨Nat.le_succ_of_le behind.earlier,
        fun isLeft => absurd isLeft (none target entered behind),
        fun isLeft => absurd isLeft (none target entered behind)⟩
  | storeEpoch w =>
    have own := inv.workers w
    simp only [EpochManager.step] at taken
    split at taken <;> cases taken
    rename_i epoch pc
    have counts := own.counts
    rw [pc] at counts
    exact inv.setWorker ⟨fun _ => own.active (by simp [pc]), counts, own.loaded epoch pc, nofun⟩
      (fun _ _ behind => ⟨behind.earlier, fun isLeft => behind.loaded isLeft epoch pc, nofun⟩)
      (le_refl _)
  | leave w =>
    have own := inv.workers w
    simp only [EpochManager.step] at taken
    split at taken <;> cases taken
    rename_i pc
    have counts := own.counts
    rw [pc] at counts
    exact inv.setWorker ⟨fun outside => absurd rfl outside, counts, own.current, nofun⟩
      (fun _ _ behind => ⟨behind.earlier,
        fun isLeft => behind.current (Nat.lt_of_succ_lt isLeft), nofun⟩) (Nat.le_succ _)
  | getGlobalEpoch =>
    cases taken
    refine ⟨inv.workers, ?_, ?_⟩
    · apply (Function.forall_update_iff s.readers fun _ found =>
        ∀ its, found = some its → ∀ w, (s.workers w).Behind its.target
          (its.entered w)).mpr
      refine ⟨?_, fun other _ => inv.behind other⟩
      rintro _ ⟨⟩ w
      have own := inv.workers w
      exact ⟨le_refl _, fun _ => own.current, fun _ => own.loaded⟩
    · apply (Function.forall_update_iff s.readers fun _ found =>
        ∀ its, found = some its → ∀ w < totalWorkersNumber, its.stage.passed w →
          its.entered w ≤ (s.workers w).left).mpr
      refine ⟨?_, fun other _ => inv.passed other⟩
      rintro _ ⟨⟩ w _ passed
      exact nomatch passed
  | startScan =>
    obtain ⟨its, isReader, rfl⟩ := Option.map_eq_some_iff.mp taken
    exact inv.setStage isReader fun _ _ passed => nomatch passed
  | loadActive reader =>
    obtain ⟨its, isReader, taken⟩ := Option.bind_eq_some_iff.mp taken
    split at taken
    · rename_i next stage
      split at taken
      · rename_i isLast
        cases taken
        apply inv.setStage isReader
        intro w inside _
        apply inv.passed reader its isReader w inside
        rw [stage, isLast]
        exact inside
      · split at taken <;> cases taken
        · apply inv.setStage isReader
          intro w inside earlier
          apply inv.passed reader its isReader w inside
          rw [stage]
          exact earlier
        · rename_i inactive
          exact inv.scanNext isReader (.inl stage) (.inl (by simpa using inactive))
    · contradiction
  | loadEpoch reader =>
    obtain ⟨its, isReader, taken⟩ := Option.bind_eq_some_iff.mp taken
    split at taken
    · rename_i next stage
      split at taken <;> cases taken
      · exact inv.setStage isReader fun _ _ passed => nomatch passed
      · rename_i beyond
        exact inv.scanNext isReader (.inr stage) (.inr (Nat.lt_of_not_le beyond))
    · contradiction

end Steps

/-- When a scan for an epoch has answered that it is safe, each worker has left as often as it
had loaded the global epoch when that epoch was read. -/
theorem safe_epoch_left (totalWorkersNumber : Nat) {state : State}
    (reached : Reachable (step totalWorkersNumber) Initial (fun _ _ => True) state)
    {reader : Nat} {its : Reader} (isReader : state.readers reader = some its)
    (safe : its.stage = .answered true) :
    ∀ worker < totalWorkersNumber, its.entered worker ≤ (state.workers worker).left := by
  have inv : Inv totalWorkersNumber state := by
    apply reached.invariant
    · rintro state ⟨-, workers, readers⟩
      refine ⟨fun worker => ?_, ?_, ?_⟩
      · rw [workers]
        exact ⟨fun outside => absurd rfl outside, rfl, Nat.zero_le _, nofun⟩
      · simp [readers]
      · simp [readers]
    · exact fun _ _ _ inv _ taken => inv.step taken
  intro worker inside
  apply inv.passed reader its isReader worker inside
  rw [safe]
  trivial

def initial : State := ⟨0, fun _ => ⟨false, 0, .outside, 0, 0⟩, fun _ => none⟩

theorem safe_epoch_left_once : ∃ state its,
    Reachable (step 1) Initial (fun _ _ => True) state ∧ state.readers 0 = some its ∧
    its.stage = .answered true ∧ its.entered 0 = 1 ∧ its.entered 0 ≤ (state.workers 0).left := by
  let actions : List Action := [.storeActive 0, .loadGlobal 0, .storeEpoch 0, .getGlobalEpoch 0,
    .leave 0, .startScan 0, .loadActive 0, .loadActive 0]
  have ran : ∃ state its, run (step 1) initial actions = some state ∧
      state.readers 0 = some its ∧ its.stage = .answered true ∧ its.entered 0 = 1 :=
    ⟨_, _, rfl, rfl, rfl, rfl⟩
  obtain ⟨state, its, ran, isReader, safe, once⟩ := ran
  have reached : Reachable (step 1) Initial (fun _ _ => True) state :=
    Reachable.run_of_forall (.start ⟨rfl, rfl, rfl⟩) (fun _ _ _ => trivial) ran
  exact ⟨state, its, reached, isReader, safe, once,
    safe_epoch_left 1 reached isReader safe 0 (by decide)⟩

end TieredStore.EpochManager
