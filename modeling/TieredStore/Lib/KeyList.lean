import Mathlib

/-!
An ordered index as the list of its entries in key order: where a search stops, and what
is found, inserted and left there.
-/

namespace TieredStore.KeyList

open List KeyList

variable {Entry Key : Type} [LinearOrder Key] (keyOf : Entry → Key)

def Sorted (entries : List Entry) : Prop :=
  entries.Pairwise fun e next => keyOf e < keyOf next

def before (key : Key) (entries : List Entry) : List Entry :=
  entries.takeWhile fun entry => decide (keyOf entry < key)

def seek (key : Key) (entries : List Entry) : List Entry :=
  entries.dropWhile fun entry => decide (keyOf entry < key)

def seekExact (key : Key) (entries : List Entry) : Option Entry :=
  match seek keyOf key entries with
  | [] => none
  | entry :: _ => if keyOf entry = key then some entry else none

/-- Insert the entry where its key belongs.  One with the same key stays behind it. -/
def insert (entry : Entry) (entries : List Entry) : List Entry :=
  before keyOf (keyOf entry) entries ++ entry :: seek keyOf (keyOf entry) entries

/-- Insert the entry where its key belongs, in place of one with the same key. -/
def upsert (entry : Entry) (entries : List Entry) : List Entry :=
  before keyOf (keyOf entry) entries ++ entry ::
    match seek keyOf (keyOf entry) entries with
    | [] => []
    | found :: rest => if keyOf found = keyOf entry then rest else found :: rest

def insertAfter (test : Entry → Bool) (entry : Entry) : List Entry → List Entry
  | [] => [entry]
  | found :: rest =>
    if test found then found :: entry :: rest else found :: insertAfter test entry rest

variable {keyOf} {entries : List Entry} {e : Entry} {key : Key} {later : List Entry}
  {other : Entry}

theorem before_append_seek : before keyOf key entries ++ seek keyOf key entries = entries :=
  takeWhile_append_dropWhile

section

variable (below : ∀ e ∈ entries, keyOf e < key)
include below

theorem before_of_forall_lt : before keyOf key entries = entries := by
  apply takeWhile_eq_self_iff.mpr
  intro e mem
  simpa using below e mem

theorem seek_of_forall_lt : seek keyOf key entries = [] := by
  apply dropWhile_eq_nil_iff.mpr
  intro e mem
  simpa using below e mem

end

theorem insert_of_forall_lt (below : ∀ found ∈ entries, keyOf found < keyOf e) :
    insert keyOf e entries = entries ++ [e] := by
  rw [insert, before_of_forall_lt below, seek_of_forall_lt below]

theorem upsert_of_forall_lt (below : ∀ found ∈ entries, keyOf found < keyOf e) :
    upsert keyOf e entries = entries ++ [e] := by
  rw [upsert, before_of_forall_lt below, seek_of_forall_lt below]

theorem insertAfter_last {test : Entry → Bool} {earlier : List Entry} {last : Entry}
    (others : ∀ found ∈ earlier, test found = false) :
    insertAfter test e (earlier ++ [last]) = earlier ++ [last] ++ [e] := by
  induction earlier with
  | nil => simp [insertAfter]
  | cons head _ ih =>
    have rejected := others head (by simp)
    have tail := ih fun found mem => others found (by simp [mem])
    simp [insertAfter, rejected, tail]

section

variable (sorted : Sorted keyOf entries)
include sorted

theorem Sorted.append (below : ∀ found ∈ entries, keyOf found < keyOf e) :
    Sorted keyOf (entries ++ [e]) := by
  apply pairwise_append.mpr
  exact ⟨sorted, pairwise_singleton _ _, fun e mem => forall_mem_singleton.mpr (below e mem)⟩

theorem Sorted.mem_before (mem : e ∈ entries)
    (below : keyOf e < key) : e ∈ before keyOf key entries := by
  induction entries with
  | nil => contradiction
  | cons head _ ih =>
    obtain ⟨first, sortedRest⟩ := pairwise_cons.mp sorted
    rcases mem_cons.mp mem with rfl | later
    · simp [before, below]
    · have headBelow : keyOf head < key := lt_trans (first e later) below
      have tail := ih sortedRest later
      simp only [before] at tail ⊢
      simp [headBelow, tail]

theorem Sorted.seekExact (mem : e ∈ entries) : seekExact keyOf (keyOf e) entries = some e := by
  induction entries with
  | nil => contradiction
  | cons _ _ ih =>
    obtain ⟨first, sortedRest⟩ := pairwise_cons.mp sorted
    rcases mem_cons.mp mem with rfl | later
    · simp [KeyList.seekExact, seek]
    · have tail := ih sortedRest later
      simp only [KeyList.seekExact, seek] at tail ⊢
      simpa [first e later] using tail

theorem Sorted.eq_of_key (mem : e ∈ entries) (otherMember : other ∈ entries)
    (same : keyOf e = keyOf other) : e = other := by
  have found := sorted.seekExact mem
  rw [same, sorted.seekExact otherMember] at found
  exact (Option.some.inj found).symm

end

theorem lt_of_mem_before (mem : e ∈ before keyOf key entries) : keyOf e < key := by
  simpa using mem_takeWhile_imp mem

theorem mem_of_mem_before (mem : e ∈ before keyOf key entries) : e ∈ entries :=
  (takeWhile_sublist _).subset mem

theorem mem_of_mem_seek (mem : e ∈ seek keyOf key entries) : e ∈ entries :=
  (dropWhile_sublist _).subset mem

theorem Sorted.seek_eq_filter (sorted : Sorted keyOf entries) :
    seek keyOf key entries = entries.filter fun e => key ≤ keyOf e := by
  induction entries with
  | nil => rfl
  | cons first rest ih =>
    obtain ⟨least, sortedRest⟩ := pairwise_cons.mp sorted
    rcases lt_or_ge (keyOf first) key with below | after
    · have skipped : seek keyOf key (first :: rest) = seek keyOf key rest :=
        dropWhile_cons_of_pos (by simpa using below)
      rw [skipped, ih sortedRest, filter_cons_of_neg]
      simpa using below
    · have stays : seek keyOf key (first :: rest) = first :: rest :=
        dropWhile_cons_of_neg (by simpa using after)
      rw [stays]
      apply symm
      apply filter_eq_self.mpr
      intro e mem
      rcases mem_cons.mp mem with rfl | later
      · simpa using after
      · simpa using le_trans after (le_of_lt (least e later))

theorem Sorted.le_of_mem_seek (sorted : Sorted keyOf entries)
    (mem : e ∈ seek keyOf key entries) : key ≤ keyOf e := by
  rw [sorted.seek_eq_filter] at mem
  simpa using (mem_filter.mp mem).2

theorem mem_upsert (mem : other ∈ upsert keyOf e entries) : other = e ∨ other ∈ entries := by
  simp only [upsert, mem_append, mem_cons] at mem
  rcases mem with earlier | rfl | later
  · exact .inr (mem_of_mem_before earlier)
  · exact .inl rfl
  · apply Or.inr
    split at later
    · contradiction
    · rename_i found rest isSeek
      have inRest : other ∈ found :: rest := by
        split at later
        · exact mem_cons_of_mem _ later
        · exact later
      exact mem_of_mem_seek (isSeek ▸ inRest)

theorem Sorted.upsert (sorted : Sorted keyOf entries) (e : Entry) :
    Sorted keyOf (upsert keyOf e entries) := by
  have sortedSeek : Sorted keyOf (seek keyOf (keyOf e) entries) :=
    Pairwise.sublist (dropWhile_sublist _) sorted
  apply pairwise_append.mpr
  refine ⟨Pairwise.sublist (takeWhile_sublist _) sorted, ?_, ?_⟩
  · apply pairwise_cons.mpr
    -- what is left behind the new entry is above its key
    cases isSeek : seek keyOf (keyOf e) entries with
    | nil => simp
    | cons found rest =>
      rw [isSeek] at sortedSeek
      obtain ⟨first, sortedRest⟩ := pairwise_cons.mp sortedSeek
      have reached : keyOf e ≤ keyOf found := sorted.le_of_mem_seek (isSeek ▸ mem_cons_self)
      dsimp only
      split
      · rename_i same
        exact ⟨fun later mem => same ▸ first later mem, sortedRest⟩
      · rename_i differ
        have above := lt_of_le_of_ne reached (symm differ)
        refine ⟨?_, sortedSeek⟩
        intro later mem
        rcases mem_cons.mp mem with rfl | inRest
        · exact above
        · exact lt_trans above (first later inRest)
  · intro earlier isEarlier later isLater
    have below := lt_of_mem_before isEarlier
    rcases mem_cons.mp isLater with rfl | inRest
    · exact below
    · apply lt_of_lt_of_le below
      apply sorted.le_of_mem_seek
      revert inRest
      cases seek keyOf (keyOf e) entries with
      | nil => simp
      | cons =>
        intro inRest
        dsimp only at inRest
        split at inRest
        · exact mem_cons_of_mem _ inRest
        · exact inRest

theorem seekExact_eq_some (found : KeyList.seekExact keyOf key entries = some e) :
    e ∈ entries ∧ keyOf e = key := by
  simp only [seekExact] at found
  split at found
  · contradiction
  · next isSeek =>
    split at found
    · next same =>
      cases found
      exact ⟨mem_of_mem_seek (isSeek ▸ mem_cons_self), same⟩
    · contradiction

theorem mem_upsert_self : e ∈ upsert keyOf e entries := by
  simp [upsert]

theorem Sorted.mem_upsert_iff (sorted : Sorted keyOf entries) :
    other ∈ KeyList.upsert keyOf e entries ↔
      other = e ∨ other ∈ entries ∧ keyOf other ≠ keyOf e := by
  constructor
  · intro mem
    by_cases same : keyOf other = keyOf e
    · exact .inl ((sorted.upsert e).eq_of_key mem mem_upsert_self same)
    · exact (mem_upsert mem).imp_right fun before => ⟨before, same⟩
  · rintro (rfl | ⟨mem, differs⟩)
    · exact mem_upsert_self
    · have cut : before keyOf (keyOf e) entries ++ seek keyOf (keyOf e) entries = entries :=
        before_append_seek
      rw [← cut] at mem
      rcases mem_append.mp mem with before | behind
      · exact mem_append_left _ before
      · apply mem_append_right
        apply mem_cons_of_mem
        cases isSeek : seek keyOf (keyOf e) entries with
        | nil => simp [isSeek] at behind
        | cons found rest =>
          rw [isSeek] at behind
          dsimp only
          split
          · next same =>
            rcases mem_cons.mp behind with rfl | inRest
            · exact absurd same differs
            · exact inRest
          · exact behind

end TieredStore.KeyList
