import TieredStore.SlabAllocator.Allocator

namespace TieredStore.SlabAllocator

open Function List State

variable {s : State} {slabIdx size address bytes : Nat}

@[simp] theorem State.slabMetadata_setClass (i : Nat) (sizeClass : SlabSizeClass) :
    (s.setClass i sizeClass).slabMetadata = s.slabMetadata := rfl

@[simp] theorem State.classes_setMetadata (metadata : SlabMetadata) :
    (s.setMetadata slabIdx metadata).classes = s.classes := rfl

@[simp] theorem State.classes_setClass (i : Nat) (sizeClass : SlabSizeClass) :
    (s.setClass i sizeClass).classes = update s.classes i sizeClass := rfl

@[simp] theorem State.slabMetadata_setMetadata (metadata : SlabMetadata) :
    (s.setMetadata slabIdx metadata).slabMetadata = update s.slabMetadata slabIdx metadata := rfl

theorem le_alignUp (size : Nat) : size ≤ alignUp size := by
  unfold alignUp minBlockSize blockStep
  split <;> omega

theorem alignUp_le (small : size ≤ maxBlockSize) : alignUp size ≤ maxBlockSize := by
  unfold alignUp minBlockSize blockStep maxBlockSize at *
  split <;> omega

theorem getClassIndex_lt (small : size ≤ maxBlockSize) : getClassIndex size < numClasses := by
  have le := alignUp_le small
  unfold getClassIndex numClasses minBlockSize blockStep maxBlockSize at *
  omega

theorem blockSize_getClassIndex (size : Nat) :
    minBlockSize + getClassIndex size * blockStep = alignUp size := by
  unfold getClassIndex alignUp minBlockSize blockStep
  split <;> omega

theorem blockSize_bounds {i : Nat} (isClass : i < numClasses) :
    0 < minBlockSize + i * blockStep ∧ minBlockSize + i * blockStep ≤ hugePageSize := by
  unfold numClasses minBlockSize blockStep hugePageSize maxBlockSize at *
  omega

theorem blockSize_injective {i index' : Nat}
    (same : minBlockSize + i * blockStep = minBlockSize + index' * blockStep) : i = index' := by
  unfold minBlockSize blockStep at same
  omega

def State.IsBlock (s : State) (slab size address : Nat) : Prop :=
  ∃ position < hugePageSize / size, address = s.slab slab + position * size

theorem position_bounds {position : Nat} (inside : position < hugePageSize / size) :
    position * size + size ≤ hugePageSize := by
  calc position * size + size = (position + 1) * size := by rw [Nat.succ_mul]
    _ ≤ hugePageSize / size * size := Nat.mul_le_mul_right _ inside
    _ ≤ hugePageSize := Nat.div_mul_le_self _ _

namespace State.IsBlock

theorem bounds (isBlock : s.IsBlock slabIdx size address) :
    s.slab slabIdx ≤ address ∧ address + size ≤ s.slab slabIdx + hugePageSize := by
  obtain ⟨_, inside, rfl⟩ := isBlock
  have := position_bounds inside
  omega

theorem size_pos (isBlock : s.IsBlock slabIdx size address) : 0 < size := by
  obtain ⟨_, inside, -⟩ := isBlock
  rcases eq_zero_or_pos size with rfl | positive
  · simp at inside
  · exact positive

end State.IsBlock

theorem State.slabIdx_eq (lower : s.slab slabIdx ≤ address)
    (upper : address < s.slab slabIdx + hugePageSize) : s.slabIdx address = slabIdx := by
  unfold State.slabIdx slab at *
  apply Nat.div_eq_of_lt_le
  · omega
  · rw [Nat.succ_mul]
    omega

theorem State.IsBlock.slabIdx_eq (isBlock : s.IsBlock slabIdx size address) :
    s.slabIdx address = slabIdx := by
  have bounds := isBlock.bounds
  have positive := isBlock.size_pos
  exact State.slabIdx_eq bounds.1 (by omega)

theorem State.IsBlock.apart_of_same {other : Nat} (isBlock : s.IsBlock slabIdx size address)
    (isBlock' : s.IsBlock slabIdx size other) (ne : address ≠ other) :
    address + size ≤ other ∨ other + size ≤ address := by
  obtain ⟨position, _, rfl⟩ := isBlock
  obtain ⟨position', _, rfl⟩ := isBlock'
  rcases lt_trichotomy position position' with lt | rfl | gt
  · have := Nat.mul_le_mul_right size lt
    rw [Nat.succ_mul] at this
    omega
  · exact absurd rfl ne
  · have := Nat.mul_le_mul_right size gt
    rw [Nat.succ_mul] at this
    omega

theorem State.slab_mono {slab' : Nat} (lt : slabIdx < slab') :
    s.slab slabIdx + hugePageSize ≤ s.slab slab' := by
  have := Nat.mul_le_mul_right hugePageSize lt
  rw [Nat.succ_mul] at this
  unfold slab
  omega

theorem State.IsBlock.apart_of_ne {slab' size' other : Nat}
    (isBlock : s.IsBlock slabIdx size address)
    (isBlock' : s.IsBlock slab' size' other) (ne : slabIdx ≠ slab') :
    address + size ≤ other ∨ other + size' ≤ address := by
  have bounds := isBlock.bounds
  have bounds' := isBlock'.bounds
  rcases lt_or_gt_of_ne ne with lt | gt
  · have := s.slab_mono lt
    omega
  · have := s.slab_mono gt
    omega

def State.blocks (state : State) (slabIdx size : Nat) : List Nat :=
  (List.range (hugePageSize / size)).map fun position => state.slab slabIdx + position * size

theorem State.mem_blocks : address ∈ s.blocks slabIdx size ↔ s.IsBlock slabIdx size address := by
  simp only [blocks, mem_map, mem_range]
  constructor
  · rintro ⟨position, inside, rfl⟩
    exact ⟨position, inside, rfl⟩
  · rintro ⟨position, inside, rfl⟩
    exact ⟨position, inside, rfl⟩

theorem State.blocks_nodup (positive : 0 < size) : (s.blocks slabIdx size).Nodup := by
  apply Nodup.map _ nodup_range
  intro _ _ same
  simp only [add_left_cancel_iff] at same
  exact Nat.eq_of_mul_eq_mul_right positive same

theorem State.length_blocks : (s.blocks slabIdx size).length = hugePageSize / size := by
  simp [blocks]

end TieredStore.SlabAllocator
