import TieredStore.Lib.KeyList

/-!
The leaves of an ordered tree from left to right, and the search for a key in them.  A leaf
holds the keys above its lower fence up to its upper fence; the outermost fences are missing.
-/

namespace TieredStore.LeafChain

open List

variable {Entry Key : Type}

structure Leaf (Entry Key : Type) where
  lowerFence : Option Key
  upperFence : Option Key
  entries : List Entry
  deriving DecidableEq, Repr

/-- A cursor is in front of the entries of its leaf that are still to come. -/
structure Cursor (Entry Key : Type) where
  leaf : Leaf Entry Key
  position : List Entry
  later : List (Leaf Entry Key)
  deriving DecidableEq, Repr

def entries (leaves : List (Leaf Entry Key)) : List Entry :=
  leaves.flatMap Leaf.entries

section Search

variable [LinearOrder Key] (keyOf : Entry → Key)

/-- The leaf that the key belongs to, at the first entry that is not below the key. -/
def find (key : Key) : List (Leaf Entry Key) → Option (Cursor Entry Key)
  | [] => none
  | leaf :: rest =>
    if leaf.upperFence.all fun fence => decide (key ≤ fence) then
      some ⟨leaf, KeyList.seek keyOf key leaf.entries, rest⟩
    else
      find key rest

end Search

section Tiles

variable [LinearOrder Key] {keyOf : Entry → Key}

def Above (fence : Option Key) (key : Key) : Prop := ∀ low ∈ fence, low < key

def Leaf.InRange (leaf : Leaf Entry Key) (key : Key) : Prop :=
  Above leaf.lowerFence key ∧ ∀ fence ∈ leaf.upperFence, key ≤ fence

structure Leaf.WellFormed (keyOf : Entry → Key) (leaf : Leaf Entry Key) : Prop where
  sorted : KeyList.Sorted keyOf leaf.entries
  inRange : ∀ e ∈ leaf.entries, leaf.InRange (keyOf e)

/-- The leaves are in order, and each key above the fence belongs to one of them. -/
inductive Tiles (keyOf : Entry → Key) : Option Key → List (Leaf Entry Key) → Prop
  | last {leaf low} (lower : leaf.lowerFence = low)
    (upper : leaf.upperFence = none) (wellFormed : leaf.WellFormed keyOf) :
    Tiles keyOf low [leaf]
  | cons {leaf low fence rest} (lower : leaf.lowerFence = low)
    (upper : leaf.upperFence = some fence) (above : Above low fence)
    (wellFormed : leaf.WellFormed keyOf) (tail : Tiles keyOf (some fence) rest) :
    Tiles keyOf low (leaf :: rest)

variable {low : Option Key} {leaves : List (Leaf Entry Key)} {key : Key}
  {later : List (Leaf Entry Key)} {e entry : Entry}

theorem Above.trans {fence : Key} (above : Above low fence) (later : fence ≤ key) : Above low key :=
  fun first isFirst => lt_of_lt_of_le (above first isFirst) later

section

variable (tiles : Tiles keyOf low leaves)
include tiles

theorem Tiles.above : ∀ leaf ∈ leaves, ∀ key, leaf.InRange key → Above low key := by
  induction tiles with
  | last lower =>
    intro leaf mem key inRange
    rw [mem_singleton.mp mem] at inRange
    exact lower ▸ inRange.1
  | cons lower _ above _ _ ih =>
    intro leaf mem key inRange
    rcases mem_cons.mp mem with rfl | later
    · exact lower ▸ inRange.1
    · have beyond := ih leaf later key inRange _ rfl
      exact above.trans (le_of_lt beyond)

theorem Tiles.wellFormed : ∀ leaf ∈ leaves, leaf.WellFormed keyOf := by
  induction tiles with
  | last lower upper wellFormed =>
    intro leaf mem
    rw [mem_singleton.mp mem]
    exact wellFormed
  | cons lower upper _ wellFormed _ ih =>
    intro leaf mem
    rcases mem_cons.mp mem with rfl | later
    · exact wellFormed
    · exact ih leaf later

theorem Tiles.entries_above : ∀ e ∈ entries leaves, Above low (keyOf e) := by
  intro e mem
  obtain ⟨leaf, isLeaf, isEntry⟩ := mem_flatMap.mp mem
  exact tiles.above leaf isLeaf _ ((tiles.wellFormed leaf isLeaf).inRange e isEntry)

theorem Tiles.sorted : KeyList.Sorted keyOf (entries leaves) := by
  induction tiles with
  | last lower upper wellFormed => simpa [entries] using wellFormed.sorted
  | cons lower upper _ wellFormed tail ih =>
    apply pairwise_append.mpr
    refine ⟨wellFormed.sorted, ih, ?_⟩
    intro e mem later isLater
    have within := (wellFormed.inRange e mem).2 _ upper
    exact lt_of_le_of_lt within (tail.entries_above later isLater _ rfl)

end

theorem Tiles.lowerFence {leaf : Leaf Entry Key} (tiles : Tiles keyOf low (leaf :: later)) :
    leaf.lowerFence = low := by
  cases tiles <;> assumption

theorem Tiles.beyond {leaf other : Leaf Entry Key}
    (tiles : Tiles keyOf low (leaf :: later)) (isLater : other ∈ later)
    (inRange : other.InRange key) : ∃ fence ∈ leaf.upperFence, fence < key := by
  cases tiles with
  | last => contradiction
  | cons _ upper above _ tail => exact ⟨_, upper, tail.above other isLater key inRange _ rfl⟩

variable {cursor : Cursor Entry Key}

/-- The cursor is in a leaf of the tree, and no leaf for the key or a later one lies in front
of it. -/
structure Finds (keyOf : Entry → Key) (key : Key) (leaves : List (Leaf Entry Key))
    (cursor : Cursor Entry Key) : Prop where
  tiles : Tiles keyOf cursor.leaf.lowerFence (cursor.leaf :: cursor.later)
  stays : ∀ leaf ∈ leaves, ∀ other, key ≤ other → leaf.InRange other →
    leaf ∈ cursor.leaf :: cursor.later

theorem Tiles.finds (tiles : Tiles keyOf low leaves) (key : Key) :
    ∃ cursor, find keyOf key leaves = some cursor ∧ Finds keyOf key leaves cursor := by
  induction tiles with
  | last lower upper wellFormed =>
    rename_i leaf _
    exact ⟨⟨leaf, KeyList.seek keyOf key leaf.entries, []⟩, by simp [find, upper],
      .last rfl upper wellFormed, fun _ mem _ _ _ => mem⟩
  | cons lower upper below wellFormed tail ih =>
    rename_i leaf _ fence rest
    rcases le_or_gt key fence with within | beyond
    · exact ⟨⟨leaf, KeyList.seek keyOf key leaf.entries, rest⟩, by simp [find, upper, within],
        .cons rfl upper (lower ▸ below) wellFormed tail, fun _ mem _ _ _ => mem⟩
    · obtain ⟨cursor, found, finds⟩ := ih
      refine ⟨cursor, by simp [find, upper, not_le_of_gt beyond, found], finds.tiles, ?_⟩
      intro other mem key' after inRange
      rcases mem_cons.mp mem with rfl | later
      · exact absurd (inRange.2 _ upper) (not_le_of_gt (lt_of_lt_of_le beyond after))
      · exact finds.stays other later key' after inRange

/-- The new entries are the old ones with `e` in place of any that has its key. -/
structure Puts (keyOf : Entry → Key) (e : Entry) (old new : List Entry) : Prop where
  sorted : KeyList.Sorted keyOf new
  mem_iff : ∀ other, other ∈ new ↔ other = e ∨ other ∈ old ∧ keyOf other ≠ keyOf e

section Put

variable {left : List (Leaf Entry Key)} {leaf : Leaf Entry Key} {new : List Entry}
  (tiles : Tiles keyOf low (left ++ leaf :: later))
include tiles

theorem Tiles.replace (wellFormed : { leaf with entries := new }.WellFormed keyOf) :
    Tiles keyOf low (left ++ { leaf with entries := new } :: later) := by
  induction left generalizing low with
  | nil =>
    cases tiles with
    | last lower upper => exact .last lower upper wellFormed
    | cons lower upper above _ tail => exact .cons lower upper above wellFormed tail
  | cons head rest ih =>
    rw [cons_append] at tiles
    generalize isRest : rest ++ leaf :: later = leaves at tiles
    cases tiles with
    | last => simp at isRest
    | cons lower upper above kept tail =>
      exact .cons lower upper above kept (ih (isRest ▸ tail))

theorem Tiles.put (inRange : leaf.InRange (keyOf e)) (puts : Puts keyOf e leaf.entries new) :
    Tiles keyOf low (left ++ { leaf with entries := new } :: later) ∧
      Puts keyOf e (entries (left ++ leaf :: later))
        (entries (left ++ { leaf with entries := new } :: later)) := by
  have tiles' := tiles.replace (show { leaf with entries := new }.WellFormed keyOf from by
    refine ⟨puts.sorted, fun other mem => ?_⟩
    rcases (puts.mem_iff other).mp mem with rfl | ⟨before, -⟩
    · exact inRange
    · exact (tiles.wellFormed leaf (by simp)).inRange other before)
  have isIn : e ∈ entries (left ++ { leaf with entries := new } :: later) := by
    simp [entries, puts.mem_iff]
  refine ⟨tiles', tiles'.sorted, fun other => ?_⟩
  by_cases same : keyOf other = keyOf e
  · refine ⟨fun mem => .inl (tiles'.sorted.eq_of_key mem isIn same), ?_⟩
    rintro (rfl | ⟨-, differs⟩)
    · exact isIn
    · exact absurd same differs
  · have ne : other ≠ e := fun equal => same (equal ▸ rfl)
    simp [entries, puts.mem_iff, same, ne]

end Put

theorem puts_append {old : List Entry} (sorted : KeyList.Sorted keyOf old)
    (below : ∀ other ∈ old, keyOf other < keyOf e) : Puts keyOf e old (old ++ [e]) := by
  refine ⟨sorted.append below, fun other => ?_⟩
  rw [mem_append, mem_singleton, or_comm]
  exact or_congr_right ⟨fun mem => ⟨mem, (below other mem).ne⟩, And.left⟩

theorem find_upperFence (found : find keyOf key leaves = some cursor) :
    cursor.leaf ∈ leaves ∧ ∀ fence ∈ cursor.leaf.upperFence, key ≤ fence := by
  induction leaves with
  | nil => contradiction
  | cons leaf rest ih =>
    simp only [find] at found
    split at found
    · next within =>
      cases found
      exact ⟨mem_cons_self, by simpa [Option.all_eq_true] using within⟩
    · obtain ⟨mem, within⟩ := ih found
      exact ⟨mem_cons_of_mem _ mem, within⟩

/-- A search for a key comes to the leaf that has it, if any has. -/
theorem Tiles.mem_find (tiles : Tiles keyOf none leaves) (mem : e ∈ entries leaves) :
    ∃ cursor, find keyOf (keyOf e) leaves = some cursor ∧ e ∈ cursor.leaf.entries := by
  obtain ⟨cursor, found, finds⟩ := tiles.finds (keyOf e)
  refine ⟨cursor, found, ?_⟩
  obtain ⟨leaf, isLeaf, isEntry⟩ := mem_flatMap.mp mem
  have inRange := (tiles.wellFormed leaf isLeaf).inRange e isEntry
  rcases mem_cons.mp (finds.stays leaf isLeaf _ (le_refl _) inRange) with rfl | isLater
  · exact isEntry
  · obtain ⟨fence, isFence, below⟩ := finds.tiles.beyond isLater inRange
    exact absurd ((find_upperFence found).2 fence isFence) (not_le_of_gt below)

end Tiles

end TieredStore.LeafChain
