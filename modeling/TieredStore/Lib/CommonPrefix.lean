import Mathlib

/-!
The common prefix of two words in lexicographic order: what lies between them shares it, and
one letter more of the greater word separates them.
-/

namespace TieredStore.CommonPrefix

open List

/-- For the numerals of bytes, the letters of the keys. -/
instance byte_neZero : NeZero 256 := ⟨by decide⟩

variable {α : Type} [LinearOrder α] {a b word : List α}

def commonPrefix : List α → List α → Nat
  | a :: first, b :: second => if a = b then commonPrefix first second + 1 else 0
  | _, _ => 0

theorem take_commonPrefix : a.take (commonPrefix a b) = b.take (commonPrefix a b) := by
  induction a generalizing b with
  | nil => simp [commonPrefix]
  | cons letter first ih =>
    cases b with
    | nil => simp [commonPrefix]
    | cons other second =>
      rw [commonPrefix]
      split
      · next same => rw [take_succ_cons, take_succ_cons, same, ih]
      · rfl

theorem commonPrefix_le_left : commonPrefix a b ≤ a.length := by
  induction a generalizing b with
  | nil => simp [commonPrefix]
  | cons letter first ih =>
    cases b with
    | nil => simp [commonPrefix]
    | cons other second =>
      rw [commonPrefix]
      split
      · exact Nat.succ_le_succ ih
      · exact Nat.zero_le _

theorem commonPrefix_le_right : commonPrefix a b ≤ b.length := by
  have same := congrArg length (take_commonPrefix (a := a) (b := b))
  rw [length_take_of_le commonPrefix_le_left, length_take] at same
  omega

theorem commonPrefix_append (first a b : List α) :
    commonPrefix (first ++ a) (first ++ b) = first.length + commonPrefix a b := by
  induction first with
  | nil => simp
  | cons _ _ ih =>
    simp only [cons_append, commonPrefix, if_true, length_cons]
    omega

theorem le_commonPrefix {n : Nat} (long : n ≤ a.length) (same : a.take n = b.take n) :
    n ≤ commonPrefix a b := by
  rw [← take_append_drop n a, ← take_append_drop n b, ← same, commonPrefix_append,
    length_take_of_le long]
  exact Nat.le_add_right _ _

theorem take_of_between (low : a ≤ word) (high : word ≤ b) :
    word.take (commonPrefix a b) = a.take (commonPrefix a b) := by
  fun_induction commonPrefix a b generalizing word with
  | case1 _ letter _ ih =>
    cases word with
    | nil => exact absurd (nil_lt_cons _ _) low.not_gt
    | cons middle =>
      rw [← not_lt, cons_lt_cons_iff] at low high
      obtain rfl : middle = letter :=
        le_antisymm (not_lt.mp fun above => high (.inl above))
          (not_lt.mp fun below => low (.inl below))
      simp only [lt_self_iff_false, true_and, false_or, not_lt] at low high
      simp [ih low high]
  | case2 => simp
  | case3 => simp

theorem commonPrefix_le_of_between (low : a ≤ word) (high : word ≤ b) :
    commonPrefix a b ≤ commonPrefix a word ∧ commonPrefix a b ≤ commonPrefix word b := by
  have shared := take_of_between low high
  have long : commonPrefix a b ≤ word.length := by
    have := congrArg length shared
    simp only [length_take, min_eq_left commonPrefix_le_left] at this
    omega
  exact ⟨le_commonPrefix commonPrefix_le_left shared.symm,
    le_commonPrefix long (shared.trans take_commonPrefix)⟩

theorem append_lt_append_iff (first : List α) : first ++ a < first ++ b ↔ a < b := by
  induction first with
  | nil => rfl
  | cons _ _ ih => simp [ih]

theorem take_lt {n : Nat} (short : n < word.length) : word.take n < word := by
  conv_rhs => rw [← take_append_drop n word, drop_eq_getElem_cons short]
  nth_rewrite 1 [← append_nil (word.take n)]
  exact (append_lt_append_iff _).mpr (nil_lt_cons _ _)

theorem lt_take (less : a < b) (more : commonPrefix a b < a.length) :
    a < b.take (commonPrefix a b + 1) := by
  fun_induction commonPrefix a b with
  | case1 first letter second ih =>
    simp only [cons_lt_cons_iff, lt_self_iff_false, true_and, false_or] at less
    simp only [take_succ_cons, cons_lt_cons_iff, lt_self_iff_false, true_and, false_or]
    exact ih less (by simpa using more)
  | case2 letter first other second ne =>
    rw [cons_lt_cons_iff] at less
    simp only [take_succ_cons, cons_lt_cons_iff]
    exact .inl (less.resolve_right fun same => ne same.1)
  | case3 first second other =>
    cases first with
    | nil => simp at more
    | cons =>
      cases second with
      | nil => simp at less
      | cons => exact (other _ _ _ _ rfl rfl).elim

end TieredStore.CommonPrefix
