import Mathlib

/-!
Singly linked chains in a pointer heap.  The heap is seen only through its
link function `next`; a chain is the list of cells met when following the
links from a head pointer to null.
-/

namespace TieredStore.LinkChain

open Function List

universe u

variable {Cell : Type u} {next : Cell → Option Cell} {head : Option Cell}

/-- The cells met when following `next` from a head pointer to null. -/
def IsChain (next : Cell → Option Cell) (head : Option Cell) : List Cell → Prop
  | [] => head = none
  | cell :: rest => head = some cell ∧ IsChain next (next cell) rest

instance IsChain.decidable [DecidableEq Cell] (next : Cell → Option Cell) (head : Option Cell) :
    (cells : List Cell) → Decidable (IsChain next head cells)
  | [] => inferInstanceAs (Decidable (head = none))
  | cell :: rest =>
    haveI := IsChain.decidable next (next cell) rest
    inferInstanceAs (Decidable (head = some cell ∧ _))

@[simp] theorem isChain_nil : IsChain next head [] ↔ head = none := Iff.rfl

@[simp] theorem isChain_cons {cell : Cell} {rest : List Cell} :
    IsChain next head (cell :: rest) ↔ head = some cell ∧ IsChain next (next cell) rest :=
  Iff.rfl

namespace IsChain

variable {next next' : Cell → Option Cell} {head : Option Cell}
  {cells others : List Cell} {cell : Cell}

theorem head?_eq (chain : IsChain next head cells) : cells.head? = head := by
  cases cells with
  | nil => simp [isChain_nil.mp chain]
  | cons => simp [(isChain_cons.mp chain).1]

theorem unique (first : IsChain next head cells)
    (second : IsChain next head others) : cells = others := by
  induction cells generalizing head others with
  | nil =>
    simp only [isChain_nil] at first
    cases others with
    | nil => rfl
    | cons => simp [first] at second
  | cons cell rest ih =>
    obtain ⟨rfl, tail⟩ := isChain_cons.mp first
    cases others with
    | nil => simp at second
    | cons =>
      obtain ⟨same, tail'⟩ := isChain_cons.mp second
      cases same
      rw [ih tail tail']

variable (chain : IsChain next head cells)
include chain

theorem exists_suffix (mem : cell ∈ cells) :
    ∃ before after, cells = before ++ cell :: after ∧ IsChain next (some cell) (cell :: after) := by
  induction cells generalizing head with
  | nil => simp at mem
  | cons first rest ih =>
    obtain ⟨rfl, tail⟩ := isChain_cons.mp chain
    rcases mem_cons.mp mem with rfl | later
    · exact ⟨[], rest, rfl, chain⟩
    · obtain ⟨before, after, split, suffix⟩ := ih tail later
      exact ⟨first :: before, after, by simp [split], suffix⟩

theorem nodup : cells.Nodup := by
  induction cells generalizing head with
  | nil => exact nodup_nil
  | cons _ _ ih =>
    obtain ⟨rfl, tail⟩ := isChain_cons.mp chain
    refine nodup_cons.mpr ⟨?_, ih tail⟩
    intro repeated
    obtain ⟨_, _, split, suffix⟩ := tail.exists_suffix repeated
    -- Both lists start at `first`, so the shorter one would equal the longer.
    have same := congrArg length (chain.unique suffix)
    simp [split] at same
    omega

theorem congr (agree : ∀ cell ∈ cells, next' cell = next cell) : IsChain next' head cells := by
  induction cells generalizing head with
  | nil => simpa using chain
  | cons first rest ih =>
    obtain ⟨rfl, tail⟩ := isChain_cons.mp chain
    refine isChain_cons.mpr ⟨rfl, ?_⟩
    rw [agree first (by simp)]
    exact ih tail (fun cell mem => agree cell (by simp [mem]))

theorem push [DecidableEq Cell] (outside : cell ∉ cells) :
    IsChain (update next cell head) (some cell) (cell :: cells) := by
  refine isChain_cons.mpr ⟨rfl, ?_⟩
  rw [update_self]
  refine chain.congr fun other mem => ?_
  exact update_of_ne (ne_of_mem_of_not_mem mem outside) _ _

end IsChain

section Unlink

variable [DecidableEq Cell]

structure Unlinked (Cell : Type u) where
  next : Cell → Option Cell
  head : Option Cell
  removed : Bool

/--
The loop `while (cur != nullptr) { if (cur == target) ...; prev = cur; cur = cur->next; }`
over the cells it visits: the target is bypassed in its predecessor (or in the
head pointer when it has none) and its own link is cleared.
-/
def unlinkFrom (next : Cell → Option Cell) (head : Option Cell) (target : Cell) :
    (prev : Option Cell) → (visited : List Cell) → Unlinked Cell
  | _, [] => ⟨next, head, false⟩
  | prev, cur :: rest =>
    if cur = target then
      match prev with
      | none => ⟨Function.update next cur none, next cur, true⟩
      | some before =>
        ⟨Function.update (Function.update next before (next cur)) cur none, head, true⟩
    else
      unlinkFrom next head target (some cur) rest

variable {next : Cell → Option Cell} {head : Option Cell} {target : Cell}
  {cells : List Cell}

theorem unlinkFrom_of_not_mem (prev : Option Cell) (absent : target ∉ cells) :
    unlinkFrom next head target prev cells = ⟨next, head, false⟩ := by
  induction cells generalizing prev with
  | nil => rfl
  | cons cur rest ih =>
    have differs : cur ≠ target := fun same => absent (by simp [same])
    simp only [unlinkFrom, if_neg differs]
    exact ih _ (fun mem => absent (by simp [mem]))

theorem unlinkFrom_removed (prev : Option Cell) :
    (unlinkFrom next head target prev cells).removed = true ↔ target ∈ cells := by
  induction cells generalizing prev with
  | nil => simp [unlinkFrom]
  | cons cur rest ih =>
    by_cases same : cur = target
    · cases prev <;> simp [unlinkFrom, same]
    · simp [unlinkFrom, same, ih, Ne.symm same]

private theorem unlinkFrom_some_chain (head : Option Cell) {before : Cell}
    (chain : IsChain next (some before) (before :: cells)) (mem : target ∈ cells) :
    let result := unlinkFrom next head target (some before) cells
    result.head = head ∧
      IsChain result.next (some before) (before :: cells.erase target) ∧
      result.next target = none ∧
      ∀ cell, cell ∉ before :: cells → result.next cell = next cell := by
  induction cells generalizing before with
  | nil => simp at mem
  | cons cur rest ih =>
    have distinct := chain.nodup
    obtain ⟨-, link⟩ := isChain_cons.mp chain
    obtain ⟨linked, tail⟩ := isChain_cons.mp link
    by_cases same : cur = target
    · subst same
      have outside : before ≠ cur := by
        rintro rfl
        simp at distinct
      have curOutside : cur ∉ rest := by
        simp at distinct
        exact distinct.2.1
      have beforeOutside : before ∉ rest := by
        simp at distinct
        exact distinct.1.2
      simp only [unlinkFrom, if_pos]
      refine ⟨trivial, ?_, update_self .., ?_⟩
      · rw [erase_cons_head]
        refine isChain_cons.mpr ⟨rfl, ?_⟩
        rw [update_of_ne outside, update_self]
        refine tail.congr fun cell inRest => ?_
        rw [update_of_ne (ne_of_mem_of_not_mem inRest curOutside),
          update_of_ne (ne_of_mem_of_not_mem inRest beforeOutside)]
      · intro cell absent
        simp only [mem_cons, not_or] at absent
        rw [update_of_ne absent.2.1, update_of_ne absent.1]
    · have later : target ∈ rest := by
        rcases mem_cons.mp mem with h | h
        · exact absurd h.symm same
        · exact h
      have outside : before ∉ cur :: rest := (nodup_cons.mp distinct).1
      have inner : IsChain next (some cur) (cur :: rest) := isChain_cons.mpr ⟨rfl, tail⟩
      obtain ⟨headSame, chainSame, cleared, frame⟩ := ih inner later
      simp only [unlinkFrom, if_neg same]
      refine ⟨headSame, ?_, cleared, ?_⟩
      · rw [erase_cons_tail (by simpa using same)]
        refine isChain_cons.mpr ⟨rfl, ?_⟩
        rw [frame before outside, linked]
        exact chainSame
      · intro cell absent
        refine frame cell fun inside => absent ?_
        exact mem_cons_of_mem _ inside

/-- Unlinking a cell of the chain leaves exactly the rest of it, clears the
cell's own link and touches no cell outside the chain. -/
theorem unlinkFrom_chain (chain : IsChain next head cells) (mem : target ∈ cells) :
    let result := unlinkFrom next head target none cells
    IsChain result.next result.head (cells.erase target) ∧
      result.next target = none ∧
      ∀ cell, cell ∉ cells → result.next cell = next cell := by
  cases cells with
  | nil => simp at mem
  | cons cur rest =>
    have distinct := chain.nodup
    obtain ⟨rfl, tail⟩ := isChain_cons.mp chain
    by_cases same : cur = target
    · subst same
      have outside : cur ∉ rest := (nodup_cons.mp distinct).1
      simp only [unlinkFrom, erase_cons_head]
      refine ⟨tail.congr fun cell inRest => ?_, update_self .., ?_⟩
      · exact update_of_ne (ne_of_mem_of_not_mem inRest outside) _ _
      · intro cell absent
        exact update_of_ne (fun h => absent (by simp [h])) _ _
    · have later : target ∈ rest := by
        rcases mem_cons.mp mem with h | h
        · exact absurd h.symm same
        · exact h
      simp only [unlinkFrom, if_neg same]
      obtain ⟨headSame, chainSame, cleared, frame⟩ := unlinkFrom_some_chain (some cur) chain later
      rw [erase_cons_tail (by simpa using same)]
      refine ⟨?_, cleared, frame⟩
      rw [headSame]
      exact chainSame

end Unlink

end TieredStore.LinkChain
