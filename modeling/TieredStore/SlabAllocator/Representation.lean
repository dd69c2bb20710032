import TieredStore.SlabAllocator.Geometry

/-!
The representation invariant. Each free list holds the blocks of its class's slabs that are not
live, and the counts agree with the lists.
-/

namespace TieredStore.SlabAllocator

open LinkChain LinkQueue List State

variable {s state : State} {free : Nat → List Nat}
  {i index slabIdx address bytes index' : Nat}

def State.carved (state : State) : Nat := (state.currentPtr - state.basePtr) / hugePageSize

def State.Owns (s : State) (i slab : Nat) : Prop :=
  slab < s.carved ∧ (s.slabMetadata slab).blockSize = (s.classes i).blockSize

instance (i slab : Nat) : Decidable (s.Owns i slab) :=
  inferInstanceAs (Decidable (_ ∧ _))

def State.liveAddresses (state : State) : List Nat := state.live.map Prod.fst

def State.liveIn (state : State) (slabIdx : Nat) : Nat :=
  state.live.countP fun block => decide (state.slabIdx block.1 = slabIdx)

def State.ownedSlabs (state : State) (index : Nat) : Finset Nat :=
  (Finset.range state.carved).filter (state.Owns index)

structure SlabInv (s : State) : Prop where
  blockSizes : ∀ i, (s.classes i).blockSize = minBlockSize + i * blockStep
  endPtr : s.endPtr = s.basePtr + s.totalCapacity
  currentPtr : s.currentPtr = s.slab s.carved
  inside : s.currentPtr ≤ s.endPtr
  poolNodup : s.freeSlabPool.Nodup
  poolCarved : ∀ slab ∈ s.freeSlabPool, slab < s.carved
  unowned : ∀ slab, slab ∈ s.freeSlabPool ∨ s.carved ≤ slab → (s.slabMetadata slab).blockSize = 0
  owned : ∀ slab < s.carved, slab ∉ s.freeSlabPool → ∃ i < numClasses, s.Owns i slab
  totalBlocks : ∀ i slab, s.Owns i slab →
    (s.slabMetadata slab).totalBlocks = hugePageSize / (s.classes i).blockSize
  slabCounts : ∀ i, (s.classes i).slabCount = (s.ownedSlabs i).card

structure RepInv (state : State) (free : Nat → List Nat) : Prop extends SlabInv state where
  queues : ∀ index, IsQueue state.memory (state.classes index).freeList
    (state.classes index).freeListTail (free index)
  freeBlocks : ∀ index address, address ∈ free index ↔
    ∃ slabIdx, state.Owns index slabIdx ∧
      state.IsBlock slabIdx (state.classes index).blockSize address ∧
      address ∉ state.liveAddresses
  liveNodup : state.liveAddresses.Nodup
  liveBlocks : ∀ block ∈ state.live, block.2 ≤ maxBlockSize ∧
    ∃ slabIdx, state.Owns (getClassIndex block.2) slabIdx ∧
      state.IsBlock slabIdx (alignUp block.2) block.1
  liveCounts : ∀ slabIdx, (state.slabMetadata slabIdx).liveCount = state.liveIn slabIdx
  bytesInUse : state.bytesInUse = (state.live.map fun block => alignUp block.2).sum

theorem SlabInv.owner_unique (inv : SlabInv s) (owns : s.Owns i slabIdx)
    (owns' : s.Owns index' slabIdx) : i = index' := by
  apply blockSize_injective
  rw [← inv.blockSizes, ← inv.blockSizes, ← owns.2, ← owns'.2]

namespace RepInv

variable (inv : RepInv s free)
include inv

theorem blockSize_getClassIndex (bytes : Nat) :
    (s.classes (getClassIndex bytes)).blockSize = alignUp bytes := by
  rw [inv.blockSizes, SlabAllocator.blockSize_getClassIndex]

theorem not_pooled (owns : s.Owns i slabIdx) : slabIdx ∉ s.freeSlabPool := by
  intro pooled
  have zero := inv.unowned slabIdx (.inl pooled)
  rw [owns.2, inv.blockSizes] at zero
  unfold minBlockSize at zero
  omega

theorem class_lt (owns : s.Owns i slabIdx) : i < numClasses := by
  obtain ⟨_, isClass, owns'⟩ := inv.owned slabIdx owns.1 (inv.not_pooled owns)
  rw [inv.owner_unique owns owns']
  exact isClass

theorem free_unique (mem : address ∈ free i) (member' : address ∈ free index') : i = index' := by
  obtain ⟨slabIdx, owns, isBlock, -⟩ := (inv.freeBlocks i address).mp mem
  obtain ⟨slab', owns', isBlock', -⟩ := (inv.freeBlocks index' address).mp member'
  have same : slabIdx = slab' := isBlock.slabIdx_eq.symm.trans isBlock'.slabIdx_eq
  subst same
  exact inv.owner_unique owns owns'

theorem live_not_free (isLive : address ∈ s.liveAddresses) : address ∉ free i := by
  intro mem
  obtain ⟨-, -, -, notLive⟩ := (inv.freeBlocks i address).mp mem
  exact notLive isLive

theorem slab_bounds (carved : slabIdx < s.carved) :
    s.slab slabIdx + hugePageSize ≤ s.currentPtr := by
  rw [inv.currentPtr]
  exact s.slab_mono carved

theorem length_free_le (i : Nat) : (free i).length ≤ s.totalCapacity := by
  have subset : (free i).toFinset ⊆
      Finset.Ico s.basePtr (s.basePtr + s.totalCapacity) := by
    intro address mem
    obtain ⟨slabIdx, owns, isBlock, -⟩ := (inv.freeBlocks i address).mp (mem_toFinset.mp mem)
    have bounds := isBlock.bounds
    have positive := isBlock.size_pos
    have inSlab := inv.slab_bounds owns.1
    have inside := inv.inside
    rw [inv.endPtr] at inside
    have lower : s.basePtr ≤ s.slab slabIdx := Nat.le_add_right _ _
    exact Finset.mem_Ico.mpr ⟨by omega, by omega⟩
  have card := Finset.card_le_card subset
  rw [toFinset_card_of_nodup (inv.queues i).nodup, Nat.card_Ico] at card
  omega

theorem count_free_of_drained (owns : s.Owns i slabIdx) (drained : s.liveIn slabIdx = 0) :
    (free i).countP (s.inSlab slabIdx) = hugePageSize / (s.classes i).blockSize := by
  have positive : 0 < (s.classes i).blockSize := by
    rw [inv.blockSizes]
    exact (blockSize_bounds (inv.class_lt owns)).1
  have length : (s.blocks slabIdx (s.classes i).blockSize).length =
      hugePageSize / (s.classes i).blockSize := length_blocks
  rw [countP_eq_length_filter, ← length]
  apply Perm.length_eq
  apply (perm_ext_iff_of_nodup ((inv.queues i).nodup.filter _) (s.blocks_nodup positive)).mpr
  intro _
  rw [mem_filter, mem_blocks, inv.freeBlocks]
  constructor
  · rintro ⟨⟨_, _, isBlock, -⟩, inSlab⟩
    obtain ⟨lower, upper⟩ := of_decide_eq_true inSlab
    rw [← slabIdx_eq lower upper, isBlock.slabIdx_eq]
    exact isBlock
  · intro isBlock
    have bounds := isBlock.bounds
    refine ⟨⟨slabIdx, owns, isBlock, ?_⟩, decide_eq_true ⟨bounds.1, by omega⟩⟩
    intro isLive
    obtain ⟨block, mem, rfl⟩ := mem_map.mp isLive
    have none := countP_eq_zero.mp drained block mem
    exact none (decide_eq_true isBlock.slabIdx_eq)

end RepInv

structure SameSlabs (s s' : State) : Prop where
  basePtr : s'.basePtr = s.basePtr
  currentPtr : s'.currentPtr = s.currentPtr
  endPtr : s'.endPtr = s.endPtr
  totalCapacity : s'.totalCapacity = s.totalCapacity
  freeSlabPool : s'.freeSlabPool = s.freeSlabPool
  metadata : ∀ slab, (s'.slabMetadata slab).blockSize = (s.slabMetadata slab).blockSize ∧
      (s'.slabMetadata slab).totalBlocks = (s.slabMetadata slab).totalBlocks
  classes : ∀ i, (s'.classes i).blockSize = (s.classes i).blockSize ∧
    (s'.classes i).slabCount = (s.classes i).slabCount

namespace SameSlabs

variable {s' state'' : State}

theorem refl (s : State) : SameSlabs s s :=
  ⟨rfl, rfl, rfl, rfl, rfl, fun _ => ⟨rfl, rfl⟩, fun _ => ⟨rfl, rfl⟩⟩

theorem trans (same : SameSlabs s s') (same' : SameSlabs s' state'') : SameSlabs s state'' where
  basePtr := same'.basePtr.trans same.basePtr
  currentPtr := same'.currentPtr.trans same.currentPtr
  endPtr := same'.endPtr.trans same.endPtr
  totalCapacity := same'.totalCapacity.trans same.totalCapacity
  freeSlabPool := same'.freeSlabPool.trans same.freeSlabPool
  metadata slabIdx := ⟨(same'.metadata slabIdx).1.trans (same.metadata slabIdx).1,
    (same'.metadata slabIdx).2.trans (same.metadata slabIdx).2⟩
  classes i := ⟨(same'.classes i).1.trans (same.classes i).1,
    (same'.classes i).2.trans (same.classes i).2⟩

theorem setClass {sizeClass : SlabSizeClass} (size : sizeClass.blockSize = (s.classes i).blockSize)
    (count : sizeClass.slabCount = (s.classes i).slabCount) :
    SameSlabs s (s.setClass i sizeClass) where
  basePtr := rfl
  currentPtr := rfl
  endPtr := rfl
  totalCapacity := rfl
  freeSlabPool := rfl
  metadata _ := ⟨rfl, rfl⟩
  classes other := by
    by_cases isIndex : other = i
    · subst isIndex
      simp [size, count]
    · simp [isIndex]

theorem setMetadata {metadata : SlabMetadata}
    (size : metadata.blockSize = (s.slabMetadata slabIdx).blockSize)
    (total : metadata.totalBlocks = (s.slabMetadata slabIdx).totalBlocks) :
    SameSlabs s (s.setMetadata slabIdx metadata) where
  basePtr := rfl
  currentPtr := rfl
  endPtr := rfl
  totalCapacity := rfl
  freeSlabPool := rfl
  metadata other := by
    by_cases isSlab : other = slabIdx
    · subst isSlab
      simp [size, total]
    · simp [isSlab]
  classes _ := ⟨rfl, rfl⟩

variable (same : SameSlabs s s')
include same

theorem withBlocks (memory : Nat → Option Nat) (bytesInUse : Nat) (live : List (Nat × Nat)) :
    SameSlabs s { s' with memory := memory, bytesInUse := bytesInUse, live := live } :=
  ⟨same.basePtr, same.currentPtr, same.endPtr, same.totalCapacity, same.freeSlabPool,
    same.metadata, same.classes⟩

theorem slab_eq : s'.slab = s.slab := by
  funext slabIdx
  rw [slab, slab, same.basePtr]

theorem slabIdx_eq : s'.slabIdx = s.slabIdx := by
  funext address
  rw [slabIdx, slabIdx, same.basePtr]

theorem carved_eq : s'.carved = s.carved := by
  rw [carved, carved, same.basePtr, same.currentPtr]

theorem owns_iff : s'.Owns i slabIdx ↔ s.Owns i slabIdx := by
  rw [Owns, Owns, same.carved_eq, (same.metadata slabIdx).1, (same.classes i).1]

theorem isBlock_iff {size : Nat} :
    s'.IsBlock slabIdx size address ↔ s.IsBlock slabIdx size address := by
  rw [IsBlock, IsBlock, same.slab_eq]

theorem slabInv (inv : SlabInv s) : SlabInv s' where
  blockSizes i := (same.classes i).1.trans (inv.blockSizes i)
  endPtr := by
    rw [same.endPtr, same.basePtr, same.totalCapacity]
    exact inv.endPtr
  currentPtr := by
    rw [same.currentPtr, same.carved_eq, same.slab_eq]
    exact inv.currentPtr
  inside := by
    rw [same.currentPtr, same.endPtr]
    exact inv.inside
  poolNodup := same.freeSlabPool ▸ inv.poolNodup
  poolCarved slabIdx pooled := by
    rw [same.carved_eq]
    exact inv.poolCarved slabIdx (same.freeSlabPool ▸ pooled)
  unowned slabIdx outside := by
    rw [same.freeSlabPool, same.carved_eq] at outside
    exact (same.metadata slabIdx).1.trans (inv.unowned slabIdx outside)
  owned slabIdx carved notPooled := by
    rw [same.carved_eq] at carved
    rw [same.freeSlabPool] at notPooled
    obtain ⟨i, isClass, owns⟩ := inv.owned slabIdx carved notPooled
    exact ⟨i, isClass, same.owns_iff.mpr owns⟩
  totalBlocks i slabIdx owns := by
    rw [(same.metadata slabIdx).2, (same.classes i).1]
    exact inv.totalBlocks i slabIdx (same.owns_iff.mp owns)
  slabCounts i := by
    rw [(same.classes i).2, inv.slabCounts i, ownedSlabs, ownedSlabs, same.carved_eq]
    congr 1
    apply Finset.filter_congr
    intro slabIdx _
    exact same.owns_iff.symm

end SameSlabs

end TieredStore.SlabAllocator
