import TieredStore.BTree.Split

/-! `merge` copies two siblings to one node.  Its bound on the space is a `u16`. -/

namespace TieredStore.BTree.Node

open CommonPrefix List

variable (left right : Node) (separator : Bytes)

def mergeTarget : Node := setFences left.isLeaf left.lowerFence right.upperFence

/-- What the entries of a node grow by under the prefix of another. -/
def grow (node target : Node) : Int :=
  (node.prefixLength - target.prefixLength : Int) * node.slots.length

def mergeSpaceUpperBound : Nat :=
  ((left.spaceUsed + right.spaceUsed + slotEnd (left.slots.length + right.slots.length) +
    left.grow (left.mergeTarget right) + right.grow (left.mergeTarget right)) % 2 ^ 32 : Int).toNat

/-- `spaceUpperBound` of `merge`.  An inner node also takes the parent's separator with the
swip in `upper`. -/
def mergeBound : Nat :=
  let target := left.mergeTarget right
  toU16 (left.spaceUsed + right.spaceUsed + slotEnd (left.slots.length + right.slots.length) +
    toU16 (left.grow target) + toU16 (right.grow target) +
    if left.isLeaf then 0 else spaceNeeded separator.length 8 target.prefixLength)

def mergeInto : Node :=
  let target := left.copyKeyValueRange (left.mergeTarget right) left.slots
  if left.isLeaf then target
  else { target with
    slots := target.slots ++ [⟨separator.drop target.prefixLength, left.upper⟩]
    upper := right.upper }

def merge : Option Node :=
  if effectivePageSize < left.mergeBound right separator then none
  else some (right.copyKeyValueRange (left.mergeInto right separator) right.slots)

/-- The sum of `merge` without its conversions. -/
def mergeSum : Int :=
  left.spaceUsed + right.spaceUsed + slotEnd (left.slots.length + right.slots.length) +
    left.grow (left.mergeTarget right) + right.grow (left.mergeTarget right) +
    if left.isLeaf then 0
    else sizeofSlot + (separator.length - (left.mergeTarget right).prefixLength : Int) + 8

theorem mergeInto_fences : (left.mergeInto right separator).lowerFence = left.lowerFence ∧
    (left.mergeInto right separator).upperFence = right.upperFence ∧
    (left.mergeInto right separator).prefixLength = (left.mergeTarget right).prefixLength := by
  unfold mergeInto
  split <;> exact ⟨rfl, rfl, rfl⟩

variable {left right separator}

theorem toU16_modEq (n : Int) : (toU16 n : Int) ≡ n [ZMOD 2 ^ 16] := by
  rw [toU16, Int.toNat_of_nonneg (Int.emod_nonneg _ (by decide))]
  exact Int.mod_modEq _ _

theorem mergeBound_eq :
    left.mergeBound right separator = toU16 (left.mergeSum right separator) := by
  rw [mergeBound, mergeSum]
  refine congrArg Int.toNat ((((Int.ModEq.refl _).add (toU16_modEq _)).add (toU16_modEq _)).add ?_)
  split
  · rfl
  · exact toU16_modEq _

/-- The siblings below one parent: the separator is the fence between them. -/
structure Siblings (left right : Node) (separator : Bytes) : Prop where
  leftWf : left.WellFormed
  rightWf : right.WellFormed
  isUpper : left.upperFence = some separator
  isLower : right.lowerFence = some separator
  swip : left.isLeaf = false → left.upper.length = 8

namespace Siblings

variable (siblings : Siblings left right separator)
include siblings

theorem below : ∀ fence ∈ left.lowerFence, fence ≤ separator :=
  fun fence isLower => siblings.leftWf.fences fence isLower separator siblings.isUpper

theorem above : ∀ fence ∈ right.upperFence, separator ≤ fence :=
  siblings.rightWf.fences separator siblings.isLower

theorem shorter : (left.mergeTarget right).prefixLength ≤ left.prefixLength ∧
    (left.mergeTarget right).prefixLength ≤ right.prefixLength := by
  rw [siblings.leftWf.prefixLength, siblings.rightWf.prefixLength, siblings.isUpper,
    siblings.isLower]
  simp only [mergeTarget, setFences]
  cases isLower : left.lowerFence with
  | none => simp [commonPrefix]
  | some lower =>
    cases isUpper : right.upperFence with
    | none => cases lower <;> simp [commonPrefix]
    | some upper =>
      exact commonPrefix_le_of_between (siblings.below lower isLower) (siblings.above upper isUpper)

theorem long : (left.mergeTarget right).prefixLength ≤ separator.length := by
  refine siblings.shorter.1.trans ?_
  rw [siblings.leftWf.prefixLength, siblings.isUpper]
  exact commonPrefix_le_right

theorem within_left {slot : Slot} (isIn : slot ∈ left.slots) :
    Within left.lowerFence right.upperFence (left.fullKey slot) := by
  have within := siblings.leftWf.within_slot isIn
  exact ⟨within.1, fun fence isUpper =>
    (within.2 separator siblings.isUpper).trans (siblings.above fence isUpper)⟩

theorem within_right {slot : Slot} (isIn : slot ∈ right.slots) :
    Within left.lowerFence right.upperFence (right.fullKey slot) := by
  have within := siblings.rightWf.within_slot isIn
  exact ⟨fun fence isLower => (siblings.below fence isLower).trans_lt
    (within.1 separator siblings.isLower), within.2⟩

theorem entries_mergeInto : (left.mergeInto right separator).entries =
    left.entries ++ if left.isLeaf then [] else [(separator, left.upper)] := by
  have copied : (left.copyKeyValueRange (left.mergeTarget right) left.slots).entries =
      left.entries :=
    siblings.leftWf.entries_copy rfl fun slot isIn => siblings.within_left isIn
  have shared : separator.take (left.mergeTarget right).prefixLength =
      (left.lowerFence.getD []).take (left.mergeTarget right).prefixLength :=
    take_of_fences rfl siblings.below siblings.above
  unfold mergeInto
  split
  · simp [copied]
  · simp only [entries, map_append] at copied ⊢
    refine congrArg₂ (· ++ ·) copied (congrArg (fun key => [(key, left.upper)]) ?_)
    exact (congrArg (· ++ _) shared.symm).trans (take_append_drop _ _)

theorem load_mergeInto : (load (left.mergeInto right separator).slots : Int) =
    load left.slots + left.grow (left.mergeTarget right) + if left.isLeaf then 0
      else sizeofSlot + (separator.length - (left.mergeTarget right).prefixLength : Int) + 8 := by
  have copied : load (left.slots.map (left.copyKeyValue (left.mergeTarget right))) +
      (left.mergeTarget right).prefixLength * left.slots.length = _ :=
    siblings.leftWf.load_copy rfl fun _ => siblings.within_left
  zify at copied
  rw [grow, sub_mul]
  unfold mergeInto
  split
  · simp only [copyKeyValueRange, mergeTarget, setFences, nil_append] at copied ⊢
    omega
  · next isInner =>
    have swip := siblings.swip (Bool.eq_false_of_not_eq_true isInner)
    have long := siblings.long
    simp only [load_append, load_cons, copyKeyValueRange, mergeTarget, setFences, nil_append,
      length_drop, show load [] = 0 from rfl] at copied long ⊢
    omega

/-- The fences between the siblings are counted and go. -/
theorem occupied_merged :
    ((right.copyKeyValueRange (left.mergeInto right separator) right.slots).occupied : Int) +
      2 * separator.length = left.mergeSum right separator := by
  obtain ⟨lower, upper, isPrefix⟩ := left.mergeInto_fences right separator
  have inLeft := siblings.load_mergeInto
  have inRight : load (right.slots.map (right.copyKeyValue (left.mergeInto right separator))) +
      (left.mergeInto right separator).prefixLength * right.slots.length = _ :=
    siblings.rightWf.load_copy (by rw [isPrefix, lower, upper]; rfl)
      fun _ isIn => by rw [lower, upper]; exact siblings.within_right isIn
  have sizeLeft := left.occupied_eq
  have sizeRight := right.occupied_eq
  have total : (right.copyKeyValueRange (left.mergeInto right separator) right.slots).occupied =
      slotEnd 0 + (left.lowerFence.getD []).length + (right.upperFence.getD []).length +
        (load (left.mergeInto right separator).slots +
          load (right.slots.map (right.copyKeyValue (left.mergeInto right separator)))) := by
    rw [occupied_eq, ← load_append, ← lower, ← upper]
    rfl
  rw [isPrefix] at inRight
  zify at inRight
  rw [total, mergeSum, show right.grow _ = _ from sub_mul _ _ _]
  simp only [occupied, slotEnd, sizeofSlot, siblings.isUpper, siblings.isLower,
    Option.getD_some] at sizeLeft sizeRight inLeft ⊢
  omega

theorem mergeSum_lt : left.mergeSum right separator < 2 ^ 32 := by
  have grown : ∀ {node : Node}, node.WellFormed →
      node.grow (left.mergeTarget right) ≤ (16352 * 1636 : Nat) := by
    intro node wf
    have fits := wf.fits
    have long := wf.long
    simp only [occupied, slotEnd, sizeofSlot, spaceUsed, effectivePageSize] at fits
    rw [grow]
    calc (node.prefixLength - (left.mergeTarget right).prefixLength : Int) * node.slots.length
        ≤ (node.prefixLength : Int) * node.slots.length := by gcongr; omega
      _ ≤ (16352 * 1636 : Nat) := by
        exact_mod_cast Nat.mul_le_mul (by omega) (by omega)
  have inLeft := grown siblings.leftWf
  have inRight := grown siblings.rightWf
  have fits := siblings.leftWf.fits
  have fits' := siblings.rightWf.fits
  have sep := left.occupied_eq
  rw [siblings.isUpper, Option.getD_some] at sep
  simp only [mergeSum, occupied, slotEnd, sizeofSlot, effectivePageSize] at fits fits' sep ⊢
  split <;> omega

end Siblings

/-- `merge` accepts what fits, and on leaves just what `mergeSpaceUpperBound` accepts, unless
its sum wraps to one that it accepts. -/
theorem merge_fits (siblings : Siblings left right separator) :
    ((∀ node, left.merge right separator = some node → node.occupied ≤ effectivePageSize ∧
        node.entries = left.entries ++
          (if left.isLeaf then [] else [(separator, left.upper)]) ++ right.entries ∧
        node.lowerFence = left.lowerFence ∧ node.upperFence = right.upperFence) ∧
      (left.isLeaf = true → ((left.merge right separator).isSome ↔
        left.mergeSpaceUpperBound right ≤ effectivePageSize))) ↔
      (left.mergeSum right separator < 2 ^ 16 ∨
        effectivePageSize < left.mergeSum right separator % 2 ^ 16) := by
  obtain ⟨lower, upper, isPrefix⟩ := left.mergeInto_fences right separator
  have size := siblings.occupied_merged
  have small := siblings.mergeSum_lt
  have bound : (left.mergeBound right separator : Int) =
      left.mergeSum right separator % 2 ^ 16 := by
    rw [mergeBound_eq, toU16]
    omega
  refine ⟨fun holds => ?_, fun kept => ⟨fun node isMerged => ?_, fun isLeaf => ?_⟩⟩
  · by_contra wraps
    rw [not_or, not_lt, not_lt] at wraps
    have accepted : ¬ effectivePageSize < left.mergeBound right separator := by omega
    have merged := (holds.1 _ (if_neg accepted)).1
    have fence := siblings.leftWf.fits
    rw [occupied_eq, siblings.isUpper] at fence
    simp only [effectivePageSize, Option.getD_some] at merged fence
    omega
  · unfold merge at isMerged
    split at isMerged <;> cases isMerged
    refine ⟨by omega, ?_, lower, upper⟩
    rw [siblings.rightWf.entries_copy, siblings.entries_mergeInto]
    · rfl
    · rw [isPrefix, lower, upper]
      rfl
    · rw [lower, upper]
      exact fun slot isIn => siblings.within_right isIn
  · have same : left.mergeSpaceUpperBound right =
        (left.mergeSum right separator % 2 ^ 32).toNat := by
      simp [mergeSpaceUpperBound, mergeSum, isLeaf]
    unfold merge
    split <;> simp <;> omega

def lowLeaf : Node := ⟨true, none, some [2], 0, [⟨[1], []⟩, ⟨[2], []⟩], [], false⟩

def highLeaf : Node := ⟨true, some [2], none, 0, [⟨[3], []⟩], [], false⟩

theorem merge_fits_small : ∃ node, lowLeaf.merge highLeaf [2] = some node ∧
    node.occupied ≤ effectivePageSize := by
  have siblings : Siblings lowLeaf highLeaf [2] :=
    ⟨⟨by decide, by decide, by decide, by decide, by decide⟩,
      ⟨by decide, by decide, by decide, by decide, by decide⟩, rfl, rfl, by decide⟩
  exact ⟨_, rfl, (((merge_fits siblings).mpr (.inl (by decide))).1 _ rfl).1⟩

def longPrefix : Bytes := replicate 656 1

def prefixLeaf : Node :=
  ⟨true, some (longPrefix ++ [0]), some (longPrefix ++ [200]), 656,
    (range 100).map fun index => ⟨[Fin.ofNat 256 (index + 1)], []⟩, [], false⟩

def plainLeaf : Node :=
  ⟨true, some (longPrefix ++ [200]), some [2], 0, [⟨[2], []⟩], [], false⟩

theorem prefixLeaf_wellFormed : prefixLeaf.WellFormed := by
  have length : longPrefix.length = 656 := length_replicate
  have full : ∀ slot, prefixLeaf.fullKey slot = longPrefix ++ slot.key := by
    simp [fullKey, prefixLeaf, take_left' length]
  have increasing : prefixLeaf.slots.Pairwise fun slot next => slot.key < next.key := by
    simp only [prefixLeaf, pairwise_map]
    refine pairwise_lt_range.imp_of_mem fun _ isIn less => ?_
    simp only [mem_range] at isIn
    simp [cons_lt_cons_iff, Fin.lt_def, Fin.ofNat]
    omega
  have between : ∀ slot ∈ prefixLeaf.slots, [0] < slot.key ∧ slot.key < [200] := by decide
  refine ⟨by simp [prefixLeaf, commonPrefix_append, commonPrefix, length], ?_, ?_, ?_,
    by decide +kernel⟩
  · rintro _ ⟨⟩ _ ⟨⟩
    exact ((append_lt_append_iff _).mpr (by decide)).le
  · rw [entries, pairwise_map]
    simpa only [full, append_lt_append_iff] using increasing
  · rw [entries, forall_mem_map]
    intro slot isIn
    rw [full]
    constructor
    · rintro _ ⟨⟩
      exact (append_lt_append_iff _).mpr (between slot isIn).1
    · rintro _ ⟨⟩
      exact ((append_lt_append_iff _).mpr (between slot isIn).2).le

/-- The growth of 65600 bytes counts as 64. -/
theorem merge_overflows : Siblings prefixLeaf plainLeaf (longPrefix ++ [200]) ∧
    ∃ node ∈ prefixLeaf.merge plainLeaf (longPrefix ++ [200]),
      effectivePageSize < node.occupied := by
  have siblings : Siblings prefixLeaf plainLeaf (longPrefix ++ [200]) :=
    ⟨prefixLeaf_wellFormed,
      ⟨by decide +kernel, by decide +kernel, by decide, by decide +kernel, by decide +kernel⟩,
      rfl, rfl, by decide⟩
  have accepted : ¬ effectivePageSize <
      prefixLeaf.mergeBound plainLeaf (longPrefix ++ [200]) := by decide +kernel
  have sum : prefixLeaf.mergeSum plainLeaf (longPrefix ++ [200]) = 68776 := by decide +kernel
  have length : (longPrefix ++ [200]).length = 657 := by decide +kernel
  have size := siblings.occupied_merged
  rw [sum, length] at size
  refine ⟨siblings, _, if_neg accepted, ?_⟩
  unfold effectivePageSize
  omega

end TieredStore.BTree.Node
