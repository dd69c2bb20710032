import Mathlib

namespace TieredStore.Transition

universe u v

variable {State : Type u} {Action : Type v} {step : State → Action → Option State}
  {actions : List Action} {allowed : State → Action → Prop}

/--
States reached from an initial state by actions that meet `allowed` in the
state they leave.  An unrestricted system takes `allowed` to be always true.
-/
inductive Reachable (step : State → Action → Option State) (init : State → Prop)
    (allowed : State → Action → Prop) : State → Prop
  | start {s} (initial : init s) :
    Reachable step init allowed s
  | next {s s' a} (earlier : Reachable step init allowed s) (permitted : allowed s a)
    (taken : step s a = some s') :
    Reachable step init allowed s'

def run (step : State → Action → Option State) :
    State → List Action → Option State
  | state, [] => some state
  | state, action :: rest =>
    match step state action with
    | none => none
    | some state' => run step state' rest

def AllowedAlong (step : State → Action → Option State) (allowed : State → Action → Prop) :
    State → List Action → Prop
  | _, [] => True
  | s, a :: rest =>
    allowed s a ∧
      match step s a with
      | none => False
      | some s' => AllowedAlong step allowed s' rest

instance AllowedAlong.decidable
    (step : State → Action → Option State) (allowed : State → Action → Prop)
    [∀ state action, Decidable (allowed state action)] :
    ∀ state actions, Decidable (AllowedAlong step allowed state actions)
  | _, [] => .isTrue trivial
  | state, action :: rest =>
    haveI : Decidable (match step state action with
        | none => False
        | some state' => AllowedAlong step allowed state' rest) :=
      match step state action with
      | none => .isFalse id
      | some state' => AllowedAlong.decidable step allowed state' rest
    inferInstanceAs (Decidable (_ ∧ _))

theorem AllowedAlong.and {allowed other : State → Action → Prop}
    {s : State} (first : AllowedAlong step allowed s actions)
    (second : AllowedAlong step other s actions) :
    AllowedAlong step (fun s a => allowed s a ∧ other s a) s actions := by
  induction actions generalizing s with
  | nil => trivial
  | cons a _ ih =>
    simp only [AllowedAlong] at first second ⊢
    refine ⟨⟨first.1, second.1⟩, ?_⟩
    cases taken : step s a with
    | none => simp [taken] at first
    | some =>
      rw [taken] at first second
      exact ih first.2 second.2

theorem allowedAlong_of_forall {s s' : State} (all : ∀ a ∈ actions, ∀ s, allowed s a)
    (ran : run step s actions = some s') : AllowedAlong step allowed s actions := by
  induction actions generalizing s with
  | nil => trivial
  | cons a _ ih =>
    simp only [run] at ran
    refine ⟨all a (by simp) s, ?_⟩
    cases taken : step s a with
    | none => simp [taken] at ran
    | some =>
      rw [taken] at ran
      exact ih (fun later mem => all later (by simp [mem])) ran

theorem AllowedAlong.keeps (property : State → Prop) {s s' : State}
    (permitted : AllowedAlong step allowed s actions)
    (preserved : ∀ s a s', property s → allowed s a → step s a = some s' → property s')
    (holds : property s) (ran : run step s actions = some s') : property s' := by
  induction actions generalizing s with
  | nil =>
    simp only [run, Option.some.injEq] at ran
    exact ran ▸ holds
  | cons a _ ih =>
    simp only [AllowedAlong] at permitted
    simp only [run] at ran
    cases taken : step s a with
    | none => simp [taken] at ran
    | some =>
      rw [taken] at permitted ran
      exact ih permitted.2 (preserved _ _ _ holds permitted.1 taken) ran

theorem run_keeps (property : State → Prop) {s s' : State}
    (preserved : ∀ s a s', property s → step s a = some s' → property s')
    (holds : property s) (ran : run step s actions = some s') : property s' := by
  have permitted : AllowedAlong step (fun _ _ => True) s actions :=
    allowedAlong_of_forall (fun _ _ _ => trivial) ran
  exact permitted.keeps property (fun s a s' holds _ => preserved s a s' holds) holds ran

theorem AllowedAlong.append {s middle : State} {actions later : List Action}
    (first : AllowedAlong step allowed s actions) (ran : run step s actions = some middle)
    (second : AllowedAlong step allowed middle later) :
    AllowedAlong step allowed s (actions ++ later) := by
  induction actions generalizing s with
  | nil =>
    simp only [run, Option.some.injEq] at ran
    exact ran ▸ second
  | cons a _ ih =>
    simp only [run] at ran
    simp only [AllowedAlong] at first
    refine ⟨first.1, ?_⟩
    cases taken : step s a with
    | none => simp [taken] at ran
    | some =>
      rw [taken] at ran first
      exact ih first.2 ran

namespace Reachable

variable {step : State → Action → Option State}
  {init : State → Prop} {allowed weaker : State → Action → Prop}

variable {s : State} {s' : State}

theorem take {a : Action} (reached : Reachable step init allowed s)
    (taken : step s a = some s') (permitted : allowed s a) : Reachable step init allowed s' :=
  .next reached permitted taken

/-- A property of the initial states that every permitted step keeps holds in
every reachable state. -/
theorem invariant (property : State → Prop) (initially : ∀ s, init s → property s)
    (preserved : ∀ s a s', property s → allowed s a → step s a = some s' → property s')
    (reached : Reachable step init allowed s) : property s := by
  induction reached with
  | start initial => exact initially _ initial
  | next _ permitted taken ih => exact preserved _ _ _ ih permitted taken

theorem mono (implies : ∀ s a, allowed s a → weaker s a)
    (reached : Reachable step init allowed s) : Reachable step init weaker s := by
  induction reached with
  | start initial => exact .start initial
  | next _ permitted taken ih => exact .next ih (implies _ _ permitted) taken

/-- A step condition that always holds along with an invariant may be assumed
of every step. -/
theorem strengthen {property : State → Prop} {stronger : State → Action → Prop}
    (holds : ∀ s, Reachable step init allowed s → property s)
    (implies : ∀ s a, property s → allowed s a → stronger s a)
    (reached : Reachable step init allowed s) : Reachable step init stronger s := by
  induction reached with
  | start initial => exact .start initial
  | next earlier permitted taken ih =>
    exact .next ih (implies _ _ (holds _ earlier) permitted) taken

theorem run_of_allowed (reached : Reachable step init allowed s)
    (permitted : AllowedAlong step allowed s actions)
    (ran : run step s actions = some s') : Reachable step init allowed s' :=
  permitted.keeps _ (fun _ _ _ reached permitted taken => reached.take taken permitted) reached ran

theorem run_of_forall (reached : Reachable step init allowed s)
    (permitted : ∀ a ∈ actions, ∀ s, allowed s a)
    (ran : run step s actions = some s') : Reachable step init allowed s' :=
  reached.run_of_allowed (allowedAlong_of_forall permitted ran) ran

end Reachable

end TieredStore.Transition
