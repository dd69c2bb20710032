import TieredStore.VersionedIndex.Layout

namespace TieredStore.VersionedIndex

open ByteMemory List

/-- `UpdateSameSizeInPlaceDescriptor::Slot`. -/
structure DiffSlot where
  offset : Nat
  length : Nat
  deriving DecidableEq, Repr

abbrev Descriptor := List DiffSlot

namespace DiffSlot

def Covers (slot : DiffSlot) (position : Nat) : Prop :=
  slot.offset ≤ position ∧ position < slot.offset + slot.length

instance (slot : DiffSlot) (position : Nat) : Decidable (slot.Covers position) :=
  inferInstanceAs (Decidable (_ ∧ _))

def read (slot : DiffSlot) (value : Bytes) : Bytes := (value.drop slot.offset).take slot.length

def Apart (slot other : DiffSlot) : Prop :=
  slot.offset + slot.length ≤ other.offset ∨ other.offset + other.length ≤ slot.offset

instance (slot other : DiffSlot) : Decidable (slot.Apart other) :=
  inferInstanceAs (Decidable (_ ∨ _))

theorem Apart.not_covers {slot other : DiffSlot} {position : Nat} (apart : slot.Apart other)
    (covers : slot.Covers position) : ¬ other.Covers position := by
  unfold Apart Covers at *
  omega

end DiffSlot

structure Descriptor.Describes (descriptor : Descriptor) (length : Nat) : Prop where
  inside : ∀ slot ∈ descriptor, slot.offset + slot.length ≤ length
  apart : descriptor.Pairwise DiffSlot.Apart

instance (descriptor : Descriptor) (length : Nat) : Decidable (descriptor.Describes length) :=
  decidable_of_iff ((∀ slot ∈ descriptor, slot.offset + slot.length ≤ length) ∧
      descriptor.Pairwise DiffSlot.Apart)
    ⟨fun both => ⟨both.1, both.2⟩, fun both => ⟨both.inside, both.apart⟩⟩

def changeAt (change : UInt8 → UInt8 → UInt8) (slot : DiffSlot) (value diff : Bytes) : Bytes :=
  value.mapIdx fun position byte =>
    if slot.Covers position then change byte (diff.getD (position - slot.offset) 0) else byte

def applyWith (change : UInt8 → UInt8 → UInt8) : Descriptor → Bytes → Bytes → Bytes
  | [], value, _ => value
  | slot :: rest, value, diff =>
    applyWith change rest (changeAt change slot value (diff.take slot.length))
      (diff.drop slot.length)

def applyDiff : Descriptor → Bytes → Bytes → Bytes := applyWith fun _ byte => byte

def applyXORDiff : Descriptor → Bytes → Bytes → Bytes := applyWith fun old byte => old ^^^ byte

def generateDiff (descriptor : Descriptor) (value : Bytes) : Bytes :=
  descriptor.flatMap fun slot => slot.read value

def generateXORDiff : Descriptor → Bytes → Bytes → Bytes
  | [], diff, _ => diff
  | slot :: rest, diff, value =>
    List.zipWith (· ^^^ ·) (diff.take slot.length) (slot.read value) ++
      generateXORDiff rest (diff.drop slot.length) value

variable {descriptor : Descriptor} {slot : DiffSlot} {value before after diff : Bytes}
  {change : UInt8 → UInt8 → UInt8} {position : Nat}

@[simp] theorem length_applyWith :
    (applyWith change descriptor value diff).length = value.length := by
  induction descriptor generalizing value diff with
  | nil => rfl
  | cons _ _ ih =>
    rw [applyWith, ih]
    simp [changeAt]

theorem length_read (inside : slot.offset + slot.length ≤ value.length) :
    (slot.read value).length = slot.length := by
  simp only [DiffSlot.read, length_take, length_drop]
  omega

theorem generateXORDiff_generateDiff
    (inside : ∀ slot ∈ descriptor, slot.offset + slot.length ≤ before.length) :
    generateXORDiff descriptor (generateDiff descriptor before) after =
      descriptor.flatMap fun slot => zipWith (· ^^^ ·) (slot.read before) (slot.read after) := by
  induction descriptor with
  | nil => rfl
  | cons slot _ ih =>
    have length := length_read (inside slot (by simp))
    simp only [generateDiff, flatMap_cons, generateXORDiff] at ih ⊢
    rw [take_left' length, drop_left' length, ih]
    intro slot mem
    exact inside slot (by simp [mem])

theorem getElem?_changeAt :
    (changeAt change slot value diff)[position]? = value[position]?.map fun byte =>
      if slot.Covers position then change byte (diff.getD (position - slot.offset) 0)
      else byte := by
  simp [changeAt]

theorem getElem?_read (covers : slot.Covers position) :
    (slot.read value)[position - slot.offset]? = value[position]? := by
  unfold DiffSlot.Covers at covers
  have below : position - slot.offset < slot.length := by omega
  rw [DiffSlot.read, getElem?_take_of_lt below, getElem?_drop]
  congr 1
  omega

theorem read_changeAt {other : DiffSlot} (apart : slot.Apart other) :
    other.read (changeAt change slot value diff) = other.read value := by
  apply ext_getElem?
  intro position
  simp only [DiffSlot.read, getElem?_take, getElem?_drop, getElem?_changeAt]
  split
  · rename_i inside
    have outside : ¬ slot.Covers (other.offset + position) := by
      intro covers
      exact apart.not_covers covers ⟨Nat.le_add_right .., by omega⟩
    simp [outside]
  · rfl

def ChangesOnly (descriptor : Descriptor) (before after : Bytes) : Prop :=
  after.length = before.length ∧
    ∀ position < before.length, (∀ slot ∈ descriptor, ¬ slot.Covers position) →
      after[position]? = before[position]?

instance (descriptor : Descriptor) (before after : Bytes) :
    Decidable (ChangesOnly descriptor before after) :=
  inferInstanceAs (Decidable (_ ∧ _))

theorem ChangesOnly.eq (changes : ChangesOnly [] before after) : after = before := by
  apply ext_getElem?
  intro position
  by_cases inside : position < before.length
  · exact changes.2 position inside (by simp)
  · rw [getElem?_eq_none (changes.1 ▸ Nat.le_of_not_lt inside),
      getElem?_eq_none (Nat.le_of_not_lt inside)]

theorem ChangesOnly.symm (changes : ChangesOnly descriptor before after) :
    ChangesOnly descriptor after before := by
  refine ⟨changes.1.symm, ?_⟩
  intro position inside uncovered
  exact (changes.2 position (changes.1 ▸ inside) uncovered).symm

/-- Once a slot has its old bytes again, the value differs in the other slots only. -/
theorem ChangesOnly.changeAt (changes : ChangesOnly (slot :: descriptor) before value)
    (restores : ∀ position, slot.Covers position →
      (value[position]?.map fun byte => change byte (diff.getD (position - slot.offset) 0)) =
        before[position]?) :
    ChangesOnly descriptor before (changeAt change slot value diff) := by
  refine ⟨by simp [VersionedIndex.changeAt, changes.1], ?_⟩
  intro position inside uncovered
  rw [getElem?_changeAt]
  by_cases covers : slot.Covers position
  · simpa [covers] using restores position covers
  · simpa [covers] using changes.2 position inside (by simpa [covers] using uncovered)

/-- Slots that overlap are written twice, with the same old bytes. -/
theorem getElem?_applyDiff
    (inside : ∀ slot ∈ descriptor, slot.offset + slot.length ≤ before.length)
    (same : value.length = before.length) :
    (applyDiff descriptor value (generateDiff descriptor before))[position]? =
      if ∃ slot ∈ descriptor, slot.Covers position then before[position]?
      else value[position]? := by
  induction descriptor generalizing value with
  | nil => simp [applyDiff, applyWith]
  | cons slot rest ih =>
    have length := length_read (inside slot (by simp))
    rw [applyDiff, generateDiff, applyWith, flatMap_cons, take_left' length, drop_left' length]
    refine (ih (fun slot mem => inside slot (by simp [mem])) (by simpa [changeAt])).trans ?_
    by_cases later : ∃ slot ∈ rest, slot.Covers position
    · obtain ⟨other, mem, covers⟩ := later
      rw [if_pos ⟨other, mem, covers⟩, if_pos ⟨other, by simp [mem], covers⟩]
    · rw [if_neg later, getElem?_changeAt]
      by_cases covers : slot.Covers position
      · have below : position < before.length := by
          have := covers.2
          have := inside slot (by simp)
          omega
        rw [if_pos ⟨slot, by simp, covers⟩, getD_eq_getElem?_getD, getElem?_read covers,
          getElem?_eq_getElem below, getElem?_eq_getElem (same ▸ below)]
        simp [covers]
      · simp [covers, later]

theorem applyDiff_generateDiff
    (inside : ∀ slot ∈ descriptor, slot.offset + slot.length ≤ before.length)
    (changes : ChangesOnly descriptor before after) :
    applyDiff descriptor after (generateDiff descriptor before) = before := by
  apply ext_getElem?
  intro position
  rw [getElem?_applyDiff inside changes.1]
  split
  · rfl
  · rename_i uncovered
    by_cases below : position < before.length
    · exact changes.2 position below (by simpa using uncovered)
    · rw [getElem?_eq_none (changes.1 ▸ Nat.le_of_not_lt below),
        getElem?_eq_none (Nat.le_of_not_lt below)]

/-- `value` is what the slots before these ones have left of `after`. -/
theorem applyXORDiff_flatMap (describes : descriptor.Describes before.length)
    (changes : ChangesOnly descriptor before value) (same : value.length = after.length)
    (reads : ∀ slot ∈ descriptor, slot.read value = slot.read after) :
    applyXORDiff descriptor value
      (descriptor.flatMap fun slot => zipWith (· ^^^ ·) (slot.read before) (slot.read after)) =
        before := by
  induction descriptor generalizing value with
  | nil => exact changes.eq
  | cons slot rest ih =>
    obtain ⟨apart, apartRest⟩ := pairwise_cons.mp describes.apart
    have inBefore := describes.inside slot (by simp)
    have inAfter : slot.offset + slot.length ≤ after.length := same ▸ changes.1 ▸ inBefore
    have length : (zipWith (· ^^^ ·) (slot.read before) (slot.read after)).length =
        slot.length := by
      rw [length_zipWith, length_read inBefore, length_read inAfter, min_self]
    rw [applyXORDiff, applyWith, flatMap_cons, take_left' length, drop_left' length]
    refine ih ⟨fun slot mem => describes.inside slot (by simp [mem]), apartRest⟩
      (changes.changeAt ?_) (by simpa [changeAt] using same) ?_
    · intro position covers
      have below : position < before.length := by
        have := covers.2
        omega
      have byte : after[position]? = value[position]? := by
        rw [← getElem?_read covers, ← reads slot (by simp), getElem?_read covers]
      rw [getD_eq_getElem?_getD, getElem?_zipWith, getElem?_read covers, getElem?_read covers,
        byte, getElem?_eq_getElem below, getElem?_eq_getElem (changes.1 ▸ below)]
      simp [xor_comm before[position], ← xor_assoc]
    · intro other mem
      rw [read_changeAt (apart other mem)]
      exact reads other (by simp [mem])

theorem applyXORDiff_generateXORDiff (describes : descriptor.Describes before.length)
    (changes : ChangesOnly descriptor before after) : applyXORDiff descriptor after
      (generateXORDiff descriptor (generateDiff descriptor before) after) = before := by
  rw [generateXORDiff_generateDiff describes.inside]
  exact applyXORDiff_flatMap describes changes rfl fun _ _ => rfl

theorem generateXORDiff_comm (describes : descriptor.Describes before.length)
    (same : after.length = before.length) :
    generateXORDiff descriptor (generateDiff descriptor before) after =
      generateXORDiff descriptor (generateDiff descriptor after) before := by
  rw [generateXORDiff_generateDiff describes.inside,
    generateXORDiff_generateDiff (same ▸ describes.inside)]
  congr 1
  funext slot
  exact zipWith_comm_of_comm UInt8.xor_comm

def xorDiff (descriptor : Descriptor) (before after : Bytes) : Bytes :=
  generateXORDiff descriptor (generateDiff descriptor before) after

/-- Updates of one value, newest first: what each one names, and the value it leaves. -/
abbrev Updates := List (Descriptor × Bytes)

def latest (first : Bytes) : Updates → Bytes
  | [] => first
  | (_, after) :: _ => after

def ChangeNamed (first : Bytes) : Updates → Prop
  | [] => True
  | (descriptor, after) :: older =>
    descriptor.Describes (latest first older).length ∧
      ChangesOnly descriptor (latest first older) after ∧ ChangeNamed first older

def diffs (generate : Descriptor → Bytes → Bytes → Bytes) (first : Bytes) :
    Updates → List (Descriptor × Bytes)
  | [] => []
  | (descriptor, after) :: older =>
    (descriptor, generate descriptor (latest first older) after) :: diffs generate first older

/-- The value, and what it becomes as one diff after the other is applied to it. -/
def takeBack (apply : Descriptor → Bytes → Bytes → Bytes) (value : Bytes) :
    List (Descriptor × Bytes) → List Bytes
  | [] => [value]
  | (descriptor, diff) :: older =>
    value :: takeBack apply (apply descriptor value diff) older

theorem takeBack_diffs {generate apply : Descriptor → Bytes → Bytes → Bytes} {first : Bytes}
    {updates : Updates} (named : ChangeNamed first updates)
    (undoes : ∀ descriptor before after, Descriptor.Describes descriptor before.length →
      ChangesOnly descriptor before after →
        apply descriptor after (generate descriptor before after) = before) :
    takeBack apply (latest first updates) (diffs generate first updates) =
      updates.map Prod.snd ++ [first] := by
  induction updates with
  | nil => rfl
  | cons update older ih =>
    obtain ⟨describes, changes, namedOlder⟩ := named
    rw [latest, diffs, takeBack, undoes _ _ _ describes changes, ih namedOlder]
    rfl

theorem diffs_round_trip :
    (∀ (descriptor : Descriptor) (before after : Bytes),
      descriptor.Describes before.length → ChangesOnly descriptor before after →
        applyDiff descriptor after (generateDiff descriptor before) = before ∧
        applyXORDiff descriptor after (xorDiff descriptor before after) = before ∧
        applyXORDiff descriptor before (xorDiff descriptor before after) = after) ∧
    ∀ (first : Bytes) (updates : Updates), ChangeNamed first updates →
      takeBack applyDiff (latest first updates)
          (diffs (fun descriptor before _ => generateDiff descriptor before) first updates) =
        updates.map Prod.snd ++ [first] ∧
      takeBack applyXORDiff (latest first updates) (diffs xorDiff first updates) =
        updates.map Prod.snd ++ [first] := by
  refine ⟨?_, ?_⟩
  · intro descriptor before after describes changes
    refine ⟨applyDiff_generateDiff describes.inside changes,
      applyXORDiff_generateXORDiff describes changes, ?_⟩
    rw [xorDiff, generateXORDiff_comm describes changes.1]
    exact applyXORDiff_generateXORDiff (changes.1.symm ▸ describes) changes.symm
  · intro first updates named
    refine ⟨takeBack_diffs named ?_, takeBack_diffs named ?_⟩
    · intro descriptor before after describes changes
      exact applyDiff_generateDiff describes.inside changes
    · intro descriptor before after describes changes
      exact applyXORDiff_generateXORDiff describes changes

theorem diffs_round_trip_two :
    applyXORDiff [⟨0, 1⟩] [1, 2, 3] (xorDiff [⟨0, 1⟩] [1, 2, 3] [7, 2, 3]) = [7, 2, 3] ∧
    takeBack applyXORDiff [7, 8, 9]
        (diffs xorDiff [1, 2, 3] [([⟨2, 1⟩, ⟨1, 1⟩], [7, 8, 9]), ([⟨0, 1⟩], [7, 2, 3])]) =
      [[7, 8, 9], [7, 2, 3], [1, 2, 3]] :=
  ⟨(diffs_round_trip.1 _ _ _ (by decide) (by decide)).2.2,
    (diffs_round_trip.2 [1, 2, 3] [([⟨2, 1⟩, ⟨1, 1⟩], [7, 8, 9]), ([⟨0, 1⟩], [7, 2, 3])]
      ⟨by decide, by decide, by decide, by decide, trivial⟩).2⟩

/-- `sizeof(UpdateSameSizeInPlaceDescriptor)`: the count and a padding byte. -/
def sizeofDescriptor : Nat := 2

def DiffSlot.bytes (slot : DiffSlot) : Bytes := encodeLE 2 slot.offset ++ encodeLE 2 slot.length

def Descriptor.bytes (descriptor : Descriptor) : Bytes :=
  [UInt8.ofNat descriptor.length, 0] ++ descriptor.flatMap DiffSlot.bytes

def slotAt (memory : Memory) (offset : Nat) : DiffSlot :=
  ⟨readLE memory offset 2, readLE memory (offset + 2) 2⟩

def descriptorAt (memory : Memory) (offset : Nat) : Descriptor :=
  (List.range (memory offset).toNat).map fun position =>
    slotAt memory (offset + sizeofDescriptor + 4 * position)

def diffAt (memory : Memory) (offset : Nat) (descriptor : Descriptor) : Bytes :=
  slice memory (offset + sizeofDescriptor + 4 * descriptor.length)
    (descriptor.map DiffSlot.length).sum

structure Descriptor.Fits (descriptor : Descriptor) : Prop where
  count : descriptor.length < 2 ^ 8
  slots : ∀ slot ∈ descriptor, slot.offset < 2 ^ 16 ∧ slot.length < 2 ^ 16

variable {memory : Memory} {offset : Nat}

theorem slotAt_eq (stores : Stores memory offset slot.bytes)
    (fits : slot.offset < 2 ^ 16 ∧ slot.length < 2 ^ 16) : slotAt memory offset = slot := by
  obtain ⟨first, second⟩ := stores_append.mp stores
  rw [length_encodeLE] at second
  rw [slotAt, first.readLE fits.1, second.readLE fits.2]

theorem slotsAt_eq (stores : Stores memory offset (descriptor.flatMap DiffSlot.bytes))
    (fits : ∀ slot ∈ descriptor, slot.offset < 2 ^ 16 ∧ slot.length < 2 ^ 16) :
    (range descriptor.length).map (fun position => slotAt memory (offset + 4 * position)) =
      descriptor := by
  induction descriptor generalizing offset with
  | nil => rfl
  | cons slot _ ih =>
    obtain ⟨first, later⟩ := stores_append.mp stores
    have tail := ih later fun slot mem => fits slot (by simp [mem])
    rw [length_cons, range_succ_eq_map, map_cons, map_map]
    refine congrArg₂ cons (slotAt_eq first (fits slot (by simp))) ?_
    refine trans ?_ tail
    apply map_congr_left
    intro position _
    simp only [Function.comp_apply, DiffSlot.bytes, length_append, length_encodeLE]
    congr 1
    omega

@[simp] theorem length_slotBytes :
    (descriptor.flatMap DiffSlot.bytes).length = 4 * descriptor.length := by
  induction descriptor with
  | nil => rfl
  | cons _ _ ih =>
    simp only [flatMap_cons, length_append, DiffSlot.bytes, length_encodeLE, length_cons]
    omega

theorem descriptorAt_eq (fits : descriptor.Fits)
    (stores : Stores memory offset (descriptor.bytes ++ diff))
    (length : diff.length = (descriptor.map DiffSlot.length).sum) :
    descriptorAt memory offset = descriptor ∧ diffAt memory offset descriptor = diff := by
  simp only [Descriptor.bytes, cons_append, nil_append,
    stores_cons, stores_append, length_slotBytes] at stores
  obtain ⟨count, -, slots, behind⟩ := stores
  have isCount : (memory offset).toNat = descriptor.length := by
    rw [count, UInt8.toNat_ofNat']
    exact Nat.mod_eq_of_lt fits.count
  refine ⟨?_, ?_⟩
  · rw [descriptorAt, isCount]
    exact slotsAt_eq slots fits.slots
  · rw [diffAt, ← length]
    exact behind

end TieredStore.VersionedIndex
