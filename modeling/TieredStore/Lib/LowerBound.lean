import Mathlib

/-!
Binary search for the first cell of a partitioned list that a test rejects, and
for the last cell that it accepts.
-/

namespace TieredStore.LowerBound

open List

variable {α : Type} {before : α → Bool} {cells : List α}

def Partitioned (before : α → Bool) (cells : List α) : Prop :=
  cells.Pairwise fun cell next => before next = true → before cell = true

def search (before : α → Bool) (cells : List α) : Nat → Nat → Nat → Nat
  | 0, first, _ => first
  | fuel + 1, first, count =>
    if count = 0 then
      first
    else
      let half := count / 2
      match cells[first + half]? with
      | none => first
      | some cell =>
        if before cell then
          search before cells fuel (first + half + 1) (count - half - 1)
        else
          search before cells fuel first half

def lowerBound (before : α → Bool) (cells : List α) : Nat :=
  search before cells cells.length 0 cells.length

structure Splits (before : α → Bool) (cells : List α) (bound : Nat) : Prop where
  inside : bound ≤ cells.length
  accepted : ∀ i cell, cells[i]? = some cell → i < bound → before cell = true
  rejected : ∀ i cell, cells[i]? = some cell → bound ≤ i → before cell = false

theorem Partitioned.accepted_of_lt (partitioned : Partitioned before cells)
    {i index' : Nat} {cell cell' : α} (found : cells[i]? = some cell)
    (found' : cells[index']? = some cell') (le : i ≤ index')
    (accepted : before cell' = true) : before cell = true := by
  obtain ⟨inside, rfl⟩ := List.getElem?_eq_some_iff.mp found
  obtain ⟨inside', rfl⟩ := List.getElem?_eq_some_iff.mp found'
  rcases lt_or_eq_of_le le with lt | rfl
  · exact pairwise_iff_getElem.mp partitioned i index' inside inside' lt accepted
  · exact accepted

theorem search_splits (partitioned : Partitioned before cells) {fuel first count : Nat}
    (enough : count ≤ fuel) (inside : first + count ≤ cells.length)
    (accepted : ∀ i cell, cells[i]? = some cell → i < first → before cell = true)
    (rejected : ∀ i cell, cells[i]? = some cell → first + count ≤ i →
      before cell = false) : Splits before cells (search before cells fuel first count) := by
  induction fuel generalizing first count with
  | zero =>
    have empty : count = 0 := by omega
    subst empty
    exact ⟨by simpa [search] using inside, accepted, by simpa [search] using rejected⟩
  | succ fuel ih =>
    unfold search
    split
    · rename_i empty
      subst empty
      exact ⟨by simpa using inside, accepted, by simpa using rejected⟩
    · obtain ⟨middle, found⟩ : ∃ middle, cells[first + count / 2]? = some middle :=
        ⟨_, getElem?_eq_getElem (by omega)⟩
      simp only [found]
      split
      · rename_i below
        apply ih
        · omega
        · omega
        · intro i cell atIndex lt
          exact partitioned.accepted_of_lt atIndex found (by omega) below
        · intro i cell atIndex le
          exact rejected i cell atIndex (by omega)
      · rename_i above
        apply ih
        · omega
        · omega
        · exact accepted
        · intro i cell atIndex le
          cases isBefore : before cell with
          | false => rfl
          | true => exact absurd (partitioned.accepted_of_lt found atIndex le isBefore) above

theorem lowerBound_splits (partitioned : Partitioned before cells) :
    Splits before cells (lowerBound before cells) := by
  apply search_splits partitioned
  · exact le_refl _
  · omega
  · intro i cell _ lt
    omega
  · intro i cell found le
    obtain ⟨_, -⟩ := List.getElem?_eq_some_iff.mp found
    omega

def lastBefore (before : α → Bool) (cells : List α) : Option α :=
  match lowerBound before cells with
  | 0 => none
  | bound + 1 => cells[bound]?

theorem lastBefore_eq_none (partitioned : Partitioned before cells)
    (none : lastBefore before cells = none) : ∀ cell ∈ cells, before cell = false := by
  intro cell mem
  obtain ⟨i, found⟩ := mem_iff_getElem?.mp mem
  have splits := lowerBound_splits partitioned
  unfold lastBefore at none
  split at none
  · exact splits.rejected i cell found (by omega)
  · have inside := splits.inside
    simp only [getElem?_eq_none_iff] at none
    omega

theorem lastBefore_eq_some {cell : α} (partitioned : Partitioned before cells)
    (found : lastBefore before cells = some cell) : cell ∈ cells ∧ before cell = true ∧
      ∀ other ∈ cells, before other = true →
        ∃ i index' : Nat, cells[i]? = some other ∧ cells[index']? = some cell ∧ i ≤ index' := by
  have splits := lowerBound_splits partitioned
  unfold lastBefore at found
  split at found
  · contradiction
  · rename_i bound isBound
    refine ⟨mem_of_getElem? found, splits.accepted bound cell found (by omega), ?_⟩
    intro other mem accepted
    obtain ⟨i, atIndex⟩ := mem_iff_getElem?.mp mem
    refine ⟨i, bound, atIndex, found, ?_⟩
    by_contra beyond
    have rejected := splits.rejected i other atIndex (by omega)
    rw [accepted] at rejected
    contradiction

example : lowerBound (fun cell => decide (cell < 4)) [1, 3, 4, 4, 8] = 2 := by decide

end TieredStore.LowerBound
