import TieredStore.Lib.LowerBound

/-!
`CommitTree`: a worker's commit log, compacted by its owner.  The entries are
pairs of a commit and a start timestamp, in the order of the commits.
-/

namespace TieredStore.ConcurrencyControl

open LowerBound List

/-- The cells of `array` below `cursor`. -/
structure CommitTree where
  capacity : Nat
  array : List (Nat × Nat)
  deriving DecidableEq, Repr

def insertPair (pair : Nat × Nat) : List (Nat × Nat) → List (Nat × Nat)
  | [] => [pair]
  | next :: rest =>
    if pair = next then
      next :: rest
    else if pair.1 < next.1 ∨ (pair.1 = next.1 ∧ pair.2 < next.2) then
      pair :: next :: rest
    else
      next :: insertPair pair rest

def insertFound (found : Option (Nat × Nat)) (set : List (Nat × Nat)) : List (Nat × Nat) :=
  match found with
  | some pair => insertPair pair set
  | none => set

namespace CommitTree

def commit (tree : CommitTree) (commitTs startTs : Nat) : CommitTree :=
  { tree with array := tree.array ++ [(commitTs, startTs)] }

def lcbUnsafe (tree : CommitTree) (startTs : Nat) : Option (Nat × Nat) :=
  lastBefore (fun pair => decide (pair.1 < startTs)) tree.array

def lcb (tree : CommitTree) (startTs : Nat) : Nat :=
  match tree.lcbUnsafe startTs with
  | some pair => pair.2
  | none => 0

def mustClean (tree : CommitTree) : Bool :=
  decide (¬ tree.array.length < tree.capacity)

/-- What `cleanIfNecessary` puts into its set for one other worker. -/
def keepFor (tree : CommitTree) (itsStartTs : Nat) (set : List (Nat × Nat)) :
    List (Nat × Nat) :=
  let withLast := insertFound tree.array.getLast? set
  if itsStartTs = 0 then
    insertFound tree.array.head? withLast
  else
    insertFound (tree.lcbUnsafe itsStartTs) withLast

end CommitTree

def SortedLog (pairs : List (Nat × Nat)) : Prop :=
  pairs.Pairwise fun pair next => pair.1 < next.1

structure IsLcb (pairs : List (Nat × Nat)) (startTs : Nat) (pair : Nat × Nat) : Prop where
  member : pair ∈ pairs
  before : pair.1 < startTs
  latest : ∀ other ∈ pairs, other.1 < startTs → other.1 ≤ pair.1

variable {pairs : List (Nat × Nat)} {pair other : Nat × Nat} {startTs : Nat}
  {set : List (Nat × Nat)}

theorem SortedLog.eq_of_commitTs (sorted : SortedLog pairs) (mem : pair ∈ pairs)
    (member' : other ∈ pairs) (same : pair.1 = other.1) : pair = other := by
  induction pairs with
  | nil => contradiction
  | cons _ _ ih =>
    obtain ⟨below, sortedRest⟩ := pairwise_cons.mp sorted
    rcases mem_cons.mp mem with rfl | inRest
    · rcases mem_cons.mp member' with rfl | inRest'
      · rfl
      · have := below other inRest'
        omega
    · rcases mem_cons.mp member' with rfl | inRest'
      · have := below pair inRest
        omega
      · exact ih sortedRest inRest inRest'

theorem IsLcb.unique (sorted : SortedLog pairs) (isLcb : IsLcb pairs startTs pair)
    (isLcb' : IsLcb pairs startTs other) : pair = other := by
  apply sorted.eq_of_commitTs isLcb.member isLcb'.member
  exact le_antisymm (isLcb'.latest pair isLcb.member isLcb.before)
    (isLcb.latest other isLcb'.member isLcb'.before)

theorem SortedLog.append (sorted : SortedLog pairs)
    (newer : ∀ e ∈ pairs, e.1 < pair.1) : SortedLog (pairs ++ [pair]) := by
  apply pairwise_append.mpr
  exact ⟨sorted, pairwise_singleton _ _, fun e mem => forall_mem_singleton.mpr (newer e mem)⟩

theorem IsLcb.append (isLcb : IsLcb pairs startTs pair) (later : startTs ≤ other.1) :
    IsLcb (pairs ++ [other]) startTs pair where
  member := mem_append_left _ isLcb.member
  before := isLcb.before
  latest e mem before := by
    rcases mem_append.mp mem with old | new
    · exact isLcb.latest e old before
    · rw [mem_singleton.mp new] at before
      omega

theorem IsLcb.of_append (isLcb : IsLcb (pairs ++ [other]) startTs pair)
    (later : startTs ≤ other.1) : IsLcb pairs startTs pair where
  member := by
    rcases mem_append.mp isLcb.member with old | new
    · exact old
    · have before := isLcb.before
      rw [mem_singleton.mp new] at before
      omega
  before := isLcb.before
  latest e mem := isLcb.latest e (mem_append_left _ mem)

theorem IsLcb.subset {fewer : List (Nat × Nat)} (isLcb : IsLcb pairs startTs pair)
    (subset : fewer ⊆ pairs) (mem : pair ∈ fewer) : IsLcb fewer startTs pair where
  member := mem
  before := isLcb.before
  latest e inFewer := isLcb.latest e (subset inFewer)

def IsLatest (pairs : List (Nat × Nat)) (pair : Nat × Nat) : Prop :=
  pair ∈ pairs ∧ ∀ other ∈ pairs, other.1 ≤ pair.1

theorem IsLcb.isLatest (isLcb : IsLcb pairs startTs pair)
    (all : ∀ e ∈ pairs, e.1 < startTs) : IsLatest pairs pair :=
  ⟨isLcb.member, fun other mem => isLcb.latest other mem (all other mem)⟩

theorem IsLatest.getLast? (sorted : SortedLog pairs) (isLatest : IsLatest pairs pair) :
    pairs.getLast? = some pair := by
  obtain ⟨mem, latest⟩ := isLatest
  rcases eq_nil_or_concat pairs with rfl | ⟨_, last, rfl⟩
  · contradiction
  · rw [concat_eq_append] at sorted mem latest ⊢
    have le := latest last (by simp)
    rcases mem_append.mp mem with old | new
    · have lt := (pairwise_append.mp sorted).2.2 pair old last (by simp)
      omega
    · rw [mem_singleton.mp new]
      simp

theorem isLatest_append (newer : ∀ e ∈ pairs, e.1 < other.1)
    (isLatest : IsLatest (pairs ++ [other]) pair) : pair = other := by
  obtain ⟨mem, latest⟩ := isLatest
  rcases mem_append.mp mem with old | new
  · have lt := newer pair old
    have le := latest other (by simp)
    omega
  · exact mem_singleton.mp new

theorem mem_insertPair : other ∈ insertPair pair set ↔ other = pair ∨ other ∈ set := by
  induction set with
  | nil => simp [insertPair]
  | cons next rest ih =>
    unfold insertPair
    split
    · rename_i same
      subst same
      simp
    · split
      · simp
      · simp only [mem_cons]
        tauto

theorem SortedLog.insertPair (sorted : SortedLog set) (agree : ∀ e ∈ set, e.1 = pair.1 → e = pair) :
    SortedLog (insertPair pair set) := by
  induction set with
  | nil => exact pairwise_singleton _ _
  | cons next rest ih =>
    obtain ⟨below, sortedRest⟩ := pairwise_cons.mp sorted
    unfold ConcurrencyControl.insertPair
    split
    · exact sorted
    · rename_i ne
      have notSame : next.1 ≠ pair.1 := fun same => ne (agree next mem_cons_self same).symm
      split
      · have lt : pair.1 < next.1 := by omega
        refine pairwise_cons.mpr ⟨?_, sorted⟩
        intro e mem
        rcases mem_cons.mp mem with rfl | inRest
        · exact lt
        · exact lt_trans lt (below e inRest)
      · refine pairwise_cons.mpr ⟨?_, ?_⟩
        · intro e mem
          rcases mem_insertPair.mp mem with rfl | inRest
          · omega
          · exact below e inRest
        · apply ih sortedRest
          intro e mem
          exact agree e (mem_cons_of_mem _ mem)

theorem SortedLog.partitioned (sorted : SortedLog pairs) :
    Partitioned (fun e => decide (e.1 < startTs)) pairs := by
  refine Pairwise.imp ?_ sorted
  intro e next lt before
  have := of_decide_eq_true before
  exact decide_eq_true (by omega)

namespace CommitTree

variable {tree : CommitTree}

theorem isLcb_of_lcbUnsafe (sorted : SortedLog tree.array)
    (found : tree.lcbUnsafe startTs = some pair) : IsLcb tree.array startTs pair := by
  obtain ⟨mem, before, latest⟩ := lastBefore_eq_some sorted.partitioned found
  refine ⟨mem, of_decide_eq_true before, ?_⟩
  intro e isEntry isBefore
  obtain ⟨i, index', atIndex, atIndex', le⟩ := latest e isEntry (decide_eq_true isBefore)
  obtain ⟨inside, rfl⟩ := List.getElem?_eq_some_iff.mp atIndex
  obtain ⟨inside', rfl⟩ := List.getElem?_eq_some_iff.mp atIndex'
  rcases lt_or_eq_of_le le with lt | rfl
  · exact le_of_lt (pairwise_iff_getElem.mp sorted i index' inside inside' lt)
  · exact le_refl _

theorem lcbUnsafe_of_isLcb (sorted : SortedLog tree.array)
    (isLcb : IsLcb tree.array startTs pair) : tree.lcbUnsafe startTs = some pair := by
  cases found : tree.lcbUnsafe startTs with
  | none =>
    have rejected := lastBefore_eq_none sorted.partitioned found pair isLcb.member
    exact absurd isLcb.before (of_decide_eq_false rejected)
  | some => exact congrArg some ((isLcb_of_lcbUnsafe sorted found).unique sorted isLcb)

theorem exists_isLcb (sorted : SortedLog pairs) (mem : pair ∈ pairs)
    (before : pair.1 < startTs) : ∃ last, IsLcb pairs startTs last := by
  cases found : lcbUnsafe ⟨0, pairs⟩ startTs with
  | none =>
    have rejected := lastBefore_eq_none sorted.partitioned found pair mem
    exact absurd before (of_decide_eq_false rejected)
  | some last => exact ⟨last, isLcb_of_lcbUnsafe sorted found⟩

section Keep

variable {set : List (Nat × Nat)} {itsStartTs : Nat} {found : Option (Nat × Nat)}

theorem mem_insertFound : other ∈ insertFound found set ↔ found = some other ∨ other ∈ set := by
  cases found with
  | none => simp [insertFound]
  | some =>
    simp only [insertFound, mem_insertPair, Option.some.injEq]
    exact or_congr_left eq_comm

theorem withLast_subset (inside : set ⊆ tree.array) :
    insertFound tree.array.getLast? set ⊆ tree.array := by
  intro e mem
  rcases mem_insertFound.mp mem with isLast | old
  · exact mem_of_getLast? isLast
  · exact inside old

theorem keepFor_subset (sorted : SortedLog tree.array) (inside : set ⊆ tree.array) :
    tree.keepFor itsStartTs set ⊆ tree.array := by
  have withLast := withLast_subset inside
  intro e mem
  unfold keepFor at mem
  split at mem
  · rcases mem_insertFound.mp mem with isFirst | old
    · exact mem_of_head? isFirst
    · exact withLast old
  · rcases mem_insertFound.mp mem with found | old
    · exact (isLcb_of_lcbUnsafe sorted found).member
    · exact withLast old

theorem mem_keepFor_of_withLast (mem : pair ∈ insertFound tree.array.getLast? set) :
    pair ∈ tree.keepFor itsStartTs set := by
  unfold keepFor
  split <;> exact mem_insertFound.mpr (.inr mem)

theorem mem_keepFor_of_mem (mem : pair ∈ set) : pair ∈ tree.keepFor itsStartTs set :=
  mem_keepFor_of_withLast (mem_insertFound.mpr (.inr mem))

variable (sorted : SortedLog tree.array)
include sorted

theorem isLatest_mem_keepFor
    (isLatest : IsLatest tree.array pair) : pair ∈ tree.keepFor itsStartTs set :=
  mem_keepFor_of_withLast (mem_insertFound.mpr (.inl (isLatest.getLast? sorted)))

theorem isLcb_mem_keepFor
    (isLcb : IsLcb tree.array itsStartTs pair) : pair ∈ tree.keepFor itsStartTs set := by
  have before := isLcb.before
  unfold keepFor
  rw [if_neg (by omega)]
  exact mem_insertFound.mpr (.inl (lcbUnsafe_of_isLcb sorted isLcb))

theorem sorted_insertFound (sortedSet : SortedLog set) (inside : set ⊆ tree.array)
    (isEntry : ∀ e, found = some e → e ∈ tree.array) : SortedLog (insertFound found set) := by
  cases found with
  | none => exact sortedSet
  | some pair =>
    apply sortedSet.insertPair
    intro e mem same
    exact sorted.eq_of_commitTs (inside mem) (isEntry pair rfl) same

theorem sorted_keepFor (sortedSet : SortedLog set)
    (inside : set ⊆ tree.array) : SortedLog (tree.keepFor itsStartTs set) := by
  have sortedLast : SortedLog (insertFound tree.array.getLast? set) :=
    sorted_insertFound sorted sortedSet inside fun _ => mem_of_getLast?
  have insideLast := withLast_subset inside
  unfold keepFor
  split
  · exact sorted_insertFound sorted sortedLast insideLast fun _ => mem_of_head?
  · exact sorted_insertFound sorted sortedLast insideLast
      fun _ found => (isLcb_of_lcbUnsafe sorted found).member

end Keep

theorem lcb_eq (sorted : SortedLog tree.array) :
    tree.lcb startTs = 0 ∨ ∃ commitTs, IsLcb tree.array startTs (commitTs, tree.lcb startTs) := by
  unfold lcb
  cases found : tree.lcbUnsafe startTs with
  | none => exact .inl rfl
  | some pair => exact .inr ⟨pair.1, isLcb_of_lcbUnsafe sorted found⟩

theorem lcb_of_isLcb (sorted : SortedLog tree.array) (isLcb : IsLcb tree.array startTs pair) :
    tree.lcb startTs = pair.2 := by
  rw [lcb, lcbUnsafe_of_isLcb sorted isLcb]

end CommitTree

end TieredStore.ConcurrencyControl
