import Mathlib

/-!
Arcs of a ring of positions.  Two cursors chase each other on the ring: the arc
from the one behind to the one in front is what lies between them, and equal
cursors enclose nothing.
-/

namespace TieredStore.Arc

def Inside (size start stop position : Nat) : Prop :=
  if start ≤ stop then start ≤ position ∧ position < stop
  else (start ≤ position ∧ position < size) ∨ position < stop

def Between (start middle stop : Nat) : Prop :=
  if start ≤ stop then start ≤ middle ∧ middle ≤ stop else start ≤ middle ∨ middle ≤ stop

theorem between_iff {start middle stop : Nat} : Between start middle stop ↔
    (start ≤ stop ∧ start ≤ middle ∧ middle ≤ stop) ∨
      (stop < start ∧ (start ≤ middle ∨ middle ≤ stop)) := by
  unfold Between
  split <;> omega

structure Span where
  start : Nat
  length : Nat
  deriving DecidableEq, Repr

namespace Span

def stop (span : Span) : Nat := span.start + span.length

def Covers (span : Span) (position : Nat) : Prop :=
  span.start ≤ position ∧ position < span.stop

def Apart (span other : Span) : Prop :=
  ∀ position, span.Covers position → ¬ other.Covers position

def Within (span : Span) (size start stop : Nat) : Prop :=
  ∀ position, span.Covers position → Inside size start stop position

end Span

variable {size start middle stop position : Nat} {span : Span}

theorem Inside.lt_size (inside : Inside size start stop position) (start_le : start ≤ size)
    (stop_le : stop ≤ size) : position < size := by
  unfold Inside at inside
  split at inside <;> omega

theorem not_inside_self : ¬ Inside size start start position := by
  simp [Inside]

theorem between_stop : Between start stop stop := by
  rw [between_iff]
  omega

/-- The cursor in front may go on to `further`: without a wrap and short of the cursor
behind, or back to the first position when it is ahead of that cursor. -/
def Onward (size start stop further : Nat) : Prop :=
  (stop ≤ further ∧ further ≤ size ∧ (stop < start → further < start)) ∨
    (further = 0 ∧ 0 < start ∧ start ≤ stop ∧ stop ≤ size)

variable {further : Nat}

section

variable (onward : Onward size start stop further)
include onward

theorem Onward.of_between
    (between : Between start middle stop) : Onward size middle stop further := by
  rw [between_iff] at between
  unfold Onward at *
  omega

theorem Onward.between (between : Between start middle stop) : Between start middle further := by
  rw [between_iff] at *
  unfold Onward at onward
  omega

theorem Onward.inside
    (inside : Inside size start stop position) : Inside size start further position := by
  unfold Inside Onward at *
  split at inside <;> split <;> omega

theorem Onward.within (begins : span.start = stop)
    (ends : span.stop ≤ further ∨ (further < stop ∧ span.stop ≤ size)) :
    span.Within size start further := by
  intro _ covers
  unfold Span.Covers at covers
  unfold Inside Onward at *
  split <;> omega

end

theorem Span.Within.mono {start' stop' : Nat} (within : span.Within size start stop)
    (implies : ∀ position, Inside size start stop position → Inside size start' stop' position) :
    span.Within size start' stop' :=
  fun position covers => implies position (within position covers)

end TieredStore.Arc
