import TieredStore.SlabAllocator.Blocks

namespace TieredStore.SlabAllocator

open LinkChain LinkQueue Function List State

variable {s ready : State} {free : Nat → List Nat} {i slabIdx : Nat}

theorem RepInv.reclaimWalk (inv : RepInv s free) (owns : s.Owns i slabIdx)
    (drained : s.liveIn slabIdx = 0) : ∃ walked, reclaimWalk s slabIdx i = some walked ∧
      IsQueue walked.next walked.head walked.tail
        ((free i).filter fun node => !s.inSlab slabIdx node) ∧
      walked.removed = hugePageSize / (s.classes i).blockSize ∧
      ∀ node, node ∉ free i → walked.next node = s.memory node := by
  obtain ⟨walked, ran, queue, count, frame⟩ : ∃ walked,
      SlabAllocator.reclaimWalk s slabIdx i = some walked ∧ _ :=
    partition_spec (inv.queues i) (inv.length_free_le i)
  exact ⟨walked, ran, queue, count.trans (inv.count_free_of_drained owns drained), frame⟩

theorem RepInv.mem_filter_slab (inv : RepInv s free) (owns : s.Owns i slabIdx)
    (other address : Nat) : address ∈ update free i
        ((free i).filter fun node => !s.inSlab slabIdx node) other ↔
      address ∈ free other ∧ s.slabIdx address ≠ slabIdx := by
  by_cases same : other = i
  · subst same
    simp only [update_self, mem_filter, inSlab, Bool.not_eq_true', decide_eq_false_iff_not]
    refine and_congr_right fun mem => not_congr ⟨?_, ?_⟩
    · rintro ⟨lower, upper⟩
      exact slabIdx_eq lower upper
    · rintro rfl
      obtain ⟨slab', -, isBlock, -⟩ := (inv.freeBlocks other address).mp mem
      have bounds := isBlock.bounds
      have positive := isBlock.size_pos
      rw [isBlock.slabIdx_eq]
      exact ⟨bounds.1, by omega⟩
  · rw [update_of_ne same]
    refine ⟨fun mem => ⟨mem, ?_⟩, And.left⟩
    rintro rfl
    obtain ⟨slab', owns', isBlock, -⟩ := (inv.freeBlocks other address).mp mem
    rw [isBlock.slabIdx_eq] at owns
    exact same (inv.owner_unique owns' owns)

section Reclaimed

variable {walked : Partition Nat}

theorem reclaimed_blockSize (other : Nat) :
    ((reclaimed s slabIdx i walked).classes other).blockSize = (s.classes other).blockSize := by
  by_cases same : other = i
  · subst same
    simp [reclaimed]
  · simp [reclaimed, same]

theorem reclaimed_owns_iff (inv : SlabInv s) (other slab' : Nat) :
    (reclaimed s slabIdx i walked).Owns other slab' ↔ s.Owns other slab' ∧ slab' ≠ slabIdx := by
  simp only [Owns, reclaimed_blockSize]
  by_cases same : slab' = slabIdx
  · subst same
    have positive : 0 < (s.classes other).blockSize := by
      rw [inv.blockSizes]
      unfold minBlockSize
      omega
    simp only [ne_eq, not_true_eq_false, and_false, iff_false, not_and]
    intro _
    simp only [reclaimed, slabMetadata_setClass, slabMetadata_setMetadata, update_self]
    omega
  · simp only [reclaimed, slabMetadata_setClass, slabMetadata_setMetadata,
      update_of_ne same, ne_eq, same, not_false_eq_true, and_true]
    rfl

theorem reclaimed_slabInv (inv : RepInv s free) (owns : s.Owns i slabIdx) :
    SlabInv (reclaimed s slabIdx i walked) where
  blockSizes other := (reclaimed_blockSize other).trans (inv.blockSizes other)
  endPtr := inv.endPtr
  currentPtr := inv.currentPtr
  inside := inv.inside
  poolNodup := nodup_cons.mpr ⟨inv.not_pooled owns, inv.poolNodup⟩
  poolCarved other pooled := by
    rcases mem_cons.mp pooled with rfl | before
    · exact owns.1
    · exact inv.poolCarved other before
  unowned other outside := by
    by_cases same : other = slabIdx
    · subst same
      simp [reclaimed]
    · simp only [reclaimed, slabMetadata_setClass, slabMetadata_setMetadata, update_of_ne same]
      apply inv.unowned other
      rcases outside with pooled | uncut
      · exact .inl ((mem_cons.mp pooled).resolve_left same)
      · exact .inr uncut
  owned other carved notPooled := by
    obtain ⟨notSlab, notBefore⟩ := not_or.mp (fun found => notPooled (mem_cons.mpr found))
    obtain ⟨index', isClass, owns'⟩ := inv.owned other carved notBefore
    exact ⟨index', isClass, (reclaimed_owns_iff inv.toSlabInv _ _).mpr ⟨owns', notSlab⟩⟩
  totalBlocks other slab' owns' := by
    obtain ⟨before, ne⟩ := (reclaimed_owns_iff inv.toSlabInv _ _).mp owns'
    rw [reclaimed_blockSize, ← inv.totalBlocks other slab' before]
    simp [reclaimed, ne]
  slabCounts other := by
    have slabs : (reclaimed s slabIdx i walked).ownedSlabs other =
        (s.ownedSlabs other).erase slabIdx := by
      ext slab'
      simp only [ownedSlabs, Finset.mem_filter, Finset.mem_erase, reclaimed_owns_iff inv.toSlabInv]
      constructor
      · rintro ⟨carved, owns', ne⟩
        exact ⟨ne, carved, owns'⟩
      · rintro ⟨ne, carved, owns'⟩
        exact ⟨carved, owns', ne⟩
    rw [slabs]
    by_cases same : other = i
    · subst same
      have mem : slabIdx ∈ s.ownedSlabs other :=
        Finset.mem_filter.mpr ⟨mem_range.mpr owns.1, owns⟩
      rw [Finset.card_erase_of_mem mem, ← inv.slabCounts]
      simp [reclaimed]
    · have notMember : slabIdx ∉ s.ownedSlabs other := by
        intro mem
        exact same (inv.owner_unique (Finset.mem_filter.mp mem).2 owns)
      rw [Finset.erase_eq_of_notMem notMember, ← inv.slabCounts]
      simp [reclaimed, same]

end Reclaimed

theorem RepInv.tryReclaimSlab (inv : RepInv s free) (owns : s.Owns i slabIdx)
    (drained : s.liveIn slabIdx = 0) : ∃ walked, tryReclaimSlab s slabIdx i =
        some (reclaimed s slabIdx i walked) ∧ RepInv (reclaimed s slabIdx i walked)
        (update free i ((free i).filter fun node => !s.inSlab slabIdx node)) := by
  obtain ⟨walked, ran, queue, -, frame⟩ := inv.reclaimWalk owns drained
  have members := inv.mem_filter_slab owns
  refine ⟨walked, by simp only [SlabAllocator.tryReclaimSlab, ran], ?_⟩
  refine ⟨reclaimed_slabInv inv owns, ?_, ?_, inv.liveNodup, ?_, ?_, inv.bytesInUse⟩
  · intro other
    by_cases same : other = i
    · subst same
      simpa [reclaimed] using queue
    · have kept : IsQueue walked.next (s.classes other).freeList
          (s.classes other).freeListTail (free other) := by
        apply (inv.queues other).congr
        intro node mem
        apply frame
        intro isFree
        exact same (inv.free_unique mem isFree)
      simpa [reclaimed, same] using kept
  · intro other address
    rw [members, inv.freeBlocks]
    simp only [reclaimed_owns_iff inv.toSlabInv, reclaimed_blockSize]
    constructor
    · rintro ⟨⟨slab', owns', isBlock, notLive⟩, ne⟩
      rw [isBlock.slabIdx_eq] at ne
      exact ⟨slab', ⟨owns', ne⟩, isBlock, notLive⟩
    · rintro ⟨slab', ⟨owns', ne⟩, isBlock, notLive⟩
      have isBlock : s.IsBlock slab' (s.classes other).blockSize address := isBlock
      refine ⟨⟨slab', owns', isBlock, notLive⟩, ?_⟩
      rw [isBlock.slabIdx_eq]
      exact ne
  · intro block mem
    obtain ⟨small, slab', owns', isBlock⟩ := inv.liveBlocks block mem
    refine ⟨small, slab', (reclaimed_owns_iff inv.toSlabInv _ _).mpr ⟨owns', ?_⟩, isBlock⟩
    rintro rfl
    have none := countP_eq_zero.mp drained block mem
    exact none (decide_eq_true isBlock.slabIdx_eq)
  · intro other
    refine trans ?_ (inv.liveCounts other)
    by_cases same : other = slabIdx
    · subst same
      simp [reclaimed]
    · simp [reclaimed, same]

section Links

variable {slab size count address : Nat} {memory : Nat → Option Nat}

theorem linkBlocks_of_ne (outside : ∀ position < count, address ≠ slab + position * size) :
    linkBlocks slab size count memory address = memory address := by
  induction count with
  | zero => rfl
  | succ count ih =>
    rw [linkBlocks, update_of_ne (outside count (Nat.lt_succ_self count))]
    apply ih
    intro position below
    exact outside position (Nat.lt_succ_of_lt below)

theorem linkBlocks_at (positive : 0 < size) {position : Nat} (below : position < count) :
    linkBlocks slab size count memory (slab + position * size) =
      some (slab + (position + 1) * size) := by
  induction count with
  | zero => omega
  | succ count ih =>
    rw [linkBlocks]
    rcases Nat.lt_succ_iff_lt_or_eq.mp below with earlier | rfl
    · rw [update_of_ne]
      · exact ih earlier
      · intro same
        have := Nat.eq_of_mul_eq_mul_right positive (add_left_cancel same)
        omega
    · exact update_self ..

theorem carved_queue (positive : 0 < size) (count : Nat) : IsQueue
      (update (linkBlocks slab size count memory) (slab + count * size) none)
      (some slab) (some (slab + count * size))
      ((range (count + 1)).map fun position => slab + position * size) := by
  have linked := @IsQueue.of_links Nat
    (update (linkBlocks slab size count memory) (slab + count * size) none)
    (fun position => slab + position * size) count
  simp only [zero_mul] at linked
  apply linked
  · intro position below
    rw [update_of_ne, linkBlocks_at positive below]
    intro same
    have := Nat.eq_of_mul_eq_mul_right positive (add_left_cancel same)
    omega
  · exact update_self ..

end Links

def State.taking (state : State) (pool : List Nat) (currentPtr : Nat) : State :=
  { state with freeSlabPool := pool, currentPtr := currentPtr }

structure Available (s : State) (slab : Nat) (pool : List Nat) (currentPtr : Nat) : Prop where
  aligned : currentPtr = s.slab (s.taking pool currentPtr).carved
  inside : currentPtr ≤ s.endPtr
  poolNodup : pool.Nodup
  carved : slab < (s.taking pool currentPtr).carved
  notPooled : slab ∉ pool
  unowned : slab ∈ s.freeSlabPool ∨ s.carved ≤ slab
  others : ∀ other, other ≠ slab → (other < (s.taking pool currentPtr).carved ↔ other < s.carved) ∧
    (other ∈ pool ↔ other ∈ s.freeSlabPool)

theorem SlabInv.carved_of_currentPtr {count : Nat}
    (currentPtr : s.currentPtr = s.slab count) : s.carved = count := by
  rw [carved, currentPtr, slab, Nat.add_sub_cancel_left]
  exact Nat.mul_div_cancel _ (by decide)

theorem available_of_pool (inv : SlabInv s) {pool : List Nat}
    (isPool : s.freeSlabPool = slabIdx :: pool) : Available s slabIdx pool s.currentPtr := by
  have nodup := inv.poolNodup
  rw [isPool] at nodup
  obtain ⟨notInPool, nodup'⟩ := nodup_cons.mp nodup
  have pooled : slabIdx ∈ s.freeSlabPool := by simp [isPool]
  refine ⟨inv.currentPtr, inv.inside, nodup', inv.poolCarved slabIdx pooled, notInPool,
    .inl pooled, ?_⟩
  intro _ ne
  refine ⟨Iff.rfl, ?_⟩
  simp [isPool, ne]

theorem available_of_region (inv : SlabInv s) (room : s.currentPtr + hugePageSize ≤ s.endPtr) :
    Available s (s.slabIdx s.currentPtr) s.freeSlabPool (s.currentPtr + hugePageSize) := by
  have isNext : s.slabIdx s.currentPtr = s.carved := rfl
  have next : s.currentPtr + hugePageSize = s.slab (s.carved + 1) := by
    rw [inv.currentPtr, slab, slab, Nat.succ_mul, add_assoc]
  have carved : (s.taking s.freeSlabPool (s.currentPtr + hugePageSize)).carved =
      s.carved + 1 := SlabInv.carved_of_currentPtr next
  refine ⟨?_, room, inv.poolNodup, ?_, ?_, .inr (le_refl _), ?_⟩
  · rw [carved]
    exact next
  · rw [carved]
    exact Nat.lt_succ_self _
  · intro pooled
    exact lt_irrefl _ (inv.poolCarved _ pooled)
  · intro other ne
    exact ⟨by omega, Iff.rfl⟩

section Carve

variable {pool : List Nat} {currentPtr : Nat}

theorem carve_blockSize (other : Nat) :
    ((carve (s.taking pool currentPtr) i slabIdx).classes other).blockSize =
      (s.classes other).blockSize := by
  by_cases same : other = i
  · subst same
    simp [carve, taking]
  · simp [carve, taking, same]

section

variable (available : Available s slabIdx pool currentPtr)
include available

theorem carve_owns_iff (inv : RepInv s free) (other slab' : Nat) :
    (carve (s.taking pool currentPtr) i slabIdx).Owns other slab' ↔
      (other = i ∧ slab' = slabIdx) ∨ (s.Owns other slab' ∧ slab' ≠ slabIdx) := by
  simp only [Owns, carve_blockSize]
  have isCarved : (carve (s.taking pool currentPtr) i slabIdx).carved =
      (s.taking pool currentPtr).carved := rfl
  rw [isCarved]
  by_cases same : slab' = slabIdx
  · subst same
    have size : ((carve (s.taking pool currentPtr) i slab').slabMetadata
        slab').blockSize = (s.classes i).blockSize := by
      simp [carve, taking]
    simp only [size, available.carved, true_and, ne_eq, not_true_eq_false, and_false, or_false,
      and_true]
    constructor
    · intro sameSize
      rw [inv.blockSizes, inv.blockSizes] at sameSize
      exact (blockSize_injective sameSize).symm
    · rintro rfl
      rfl
  · have size : ((carve (s.taking pool currentPtr) i slabIdx).slabMetadata
        slab').blockSize = (s.slabMetadata slab').blockSize := by
      simp [carve, taking, same]
    rw [size, (available.others slab' same).1]
    simp [same]

theorem Available.not_owned (inv : RepInv s free) (other : Nat) : ¬ s.Owns other slabIdx := by
  intro owns
  rcases available.unowned with pooled | uncut
  · exact inv.not_pooled owns pooled
  · exact absurd owns.1 (by omega)

theorem carve_slabInv (inv : RepInv s free) (isClass : i < numClasses) :
    SlabInv (carve (s.taking pool currentPtr) i slabIdx) where
  blockSizes other := (carve_blockSize other).trans (inv.blockSizes other)
  endPtr := inv.endPtr
  currentPtr := available.aligned
  inside := available.inside
  poolNodup := available.poolNodup
  poolCarved other pooled := by
    have ne : other ≠ slabIdx := ne_of_mem_of_not_mem pooled available.notPooled
    obtain ⟨carved, inPool⟩ := available.others other ne
    exact carved.mpr (inv.poolCarved other (inPool.mp pooled))
  unowned other outside := by
    have ne : other ≠ slabIdx := by
      rintro rfl
      rcases outside with pooled | uncut
      · exact available.notPooled pooled
      · exact absurd available.carved (not_lt.mpr uncut)
    obtain ⟨carved, inPool⟩ := available.others other ne
    have before := inv.unowned other (outside.imp inPool.mp fun uncut => by
      exact not_lt.mp fun below => absurd (carved.mpr below) (not_lt.mpr uncut))
    simpa [carve, taking, ne] using before
  owned other carved notPooled := by
    by_cases same : other = slabIdx
    · exact ⟨i, isClass, (carve_owns_iff available inv _ _).mpr (.inl ⟨rfl, same⟩)⟩
    · obtain ⟨isCarved, inPool⟩ := available.others other same
      obtain ⟨index', isClass', owns⟩ := inv.owned other (isCarved.mp carved)
        (fun pooled => notPooled (inPool.mpr pooled))
      exact ⟨index', isClass', (carve_owns_iff available inv _ _).mpr (.inr ⟨owns, same⟩)⟩
  totalBlocks other slab' owns := by
    rw [carve_blockSize]
    rcases (carve_owns_iff available inv _ _).mp owns with ⟨rfl, rfl⟩ | ⟨before, ne⟩
    · simp [carve, taking]
    · rw [← inv.totalBlocks other slab' before]
      simp [carve, taking, ne]
  slabCounts other := by
    by_cases same : other = i
    · subst same
      have slabs : (carve (s.taking pool currentPtr) other slabIdx).ownedSlabs other =
          insert slabIdx (s.ownedSlabs other) := by
        ext slab'
        simp only [ownedSlabs, Finset.mem_filter, Finset.mem_insert, Finset.mem_range,
          carve_owns_iff available inv, true_and]
        constructor
        · rintro ⟨-, rfl | ⟨owns, -⟩⟩
          · exact .inl rfl
          · exact .inr ⟨owns.1, owns⟩
        · rintro (rfl | ⟨carved, owns⟩)
          · exact ⟨available.carved, .inl rfl⟩
          · have ne : slab' ≠ slabIdx := by
              rintro rfl
              exact available.not_owned inv _ owns
            exact ⟨(available.others slab' ne).1.mpr carved, .inr ⟨owns, ne⟩⟩
      have new : slabIdx ∉ s.ownedSlabs other := fun mem =>
        available.not_owned inv other (Finset.mem_filter.mp mem).2
      rw [slabs, Finset.card_insert_of_notMem new, ← inv.slabCounts]
      simp [carve, taking]
    · have slabs : (carve (s.taking pool currentPtr) i slabIdx).ownedSlabs other =
          s.ownedSlabs other := by
        ext slab'
        simp only [ownedSlabs, Finset.mem_filter, Finset.mem_range,
          carve_owns_iff available inv, same, false_and, false_or]
        constructor
        · rintro ⟨-, owns, -⟩
          exact ⟨owns.1, owns⟩
        · rintro ⟨carved, owns⟩
          have ne : slab' ≠ slabIdx := by
            rintro rfl
            exact available.not_owned inv _ owns
          exact ⟨(available.others slab' ne).1.mpr carved, owns, ne⟩
      rw [slabs, ← inv.slabCounts]
      simp [carve, taking, same]

end

theorem carve_memory_of_ne {address : Nat}
    (outside : ¬ s.IsBlock slabIdx (s.classes i).blockSize address)
    (large : 0 < hugePageSize / (s.classes i).blockSize) :
    (carve (s.taking pool currentPtr) i slabIdx).memory address = s.memory address := by
  have notBlock (position : Nat)
      (below : position < hugePageSize / (s.classes i).blockSize) :
      address ≠ s.slab slabIdx + position * (s.classes i).blockSize :=
    fun isAddress => outside ⟨position, below, isAddress⟩
  have links : linkBlocks (s.slab slabIdx) (s.classes i).blockSize
      (hugePageSize / (s.classes i).blockSize - 1) s.memory address =
        s.memory address := by
    apply linkBlocks_of_ne
    intro position below
    exact notBlock position (by omega)
  have last := notBlock (hugePageSize / (s.classes i).blockSize - 1) (by omega)
  rw [← links]
  exact update_of_ne last _ _

theorem carve_queue (positive : 0 < (s.classes i).blockSize)
    (large : 0 < hugePageSize / (s.classes i).blockSize) :
    IsQueue (carve (s.taking pool currentPtr) i slabIdx).memory
      ((carve (s.taking pool currentPtr) i slabIdx).classes i).freeList
      ((carve (s.taking pool currentPtr) i slabIdx).classes i).freeListTail
      (s.blocks slabIdx (s.classes i).blockSize) := by
  have queue := @carved_queue (s.slab slabIdx) (s.classes i).blockSize s.memory
    positive (hugePageSize / (s.classes i).blockSize - 1)
  rw [Nat.sub_add_cancel large] at queue
  have lists : (carve (s.taking pool currentPtr) i slabIdx).classes i =
      { s.classes i with
        slabCount := (s.classes i).slabCount + 1
        freeList := some (s.slab slabIdx)
        freeListTail := some (s.slab slabIdx + (hugePageSize / (s.classes i).blockSize - 1) *
            (s.classes i).blockSize) } := update_self ..
  rw [lists]
  exact queue

theorem RepInv.carve (inv : RepInv s free) (isClass : i < numClasses)
    (available : Available s slabIdx pool currentPtr) (empty : free i = []) :
    RepInv (carve (s.taking pool currentPtr) i slabIdx)
      (update free i (s.blocks slabIdx (s.classes i).blockSize)) := by
  have bounds := blockSize_bounds isClass
  rw [← inv.blockSizes i] at bounds
  obtain ⟨positive, small⟩ := bounds
  have large : 0 < hugePageSize / (s.classes i).blockSize := Nat.div_pos small positive
  -- no live block lies in a slab that belonged to no class
  have notLive (block : Nat × Nat) (isLive : block ∈ s.live) :
      s.slabIdx block.1 ≠ slabIdx := by
    obtain ⟨-, slab', owns, isBlock⟩ := inv.liveBlocks block isLive
    rw [isBlock.slabIdx_eq]
    rintro rfl
    exact available.not_owned inv _ owns
  refine ⟨carve_slabInv available inv isClass, ?_, ?_, inv.liveNodup, ?_, ?_, inv.bytesInUse⟩
  · intro other
    by_cases same : other = i
    · subst same
      rw [update_self]
      exact carve_queue positive large
    · have kept : IsQueue (SlabAllocator.carve (s.taking pool currentPtr) i
          slabIdx).memory (s.classes other).freeList (s.classes other).freeListTail
          (free other) := by
        apply (inv.queues other).congr
        intro node mem
        apply carve_memory_of_ne _ large
        intro isBlock
        obtain ⟨slab', owns, isBlock', -⟩ := (inv.freeBlocks other node).mp mem
        rw [← isBlock'.slabIdx_eq, isBlock.slabIdx_eq] at owns
        exact available.not_owned inv _ owns
      simpa [SlabAllocator.carve, taking, same] using kept
  · intro other address
    simp only [carve_owns_iff available inv, carve_blockSize]
    by_cases same : other = i
    · subst same
      rw [update_self, mem_blocks]
      constructor
      · intro isBlock
        refine ⟨slabIdx, .inl ⟨rfl, rfl⟩, isBlock, ?_⟩
        intro isLive
        obtain ⟨block, mem, rfl⟩ := mem_map.mp isLive
        exact notLive block mem isBlock.slabIdx_eq
      · rintro ⟨slab', ⟨-, rfl⟩ | ⟨owns, -⟩, isBlock, alive⟩
        · exact isBlock
        · have mem := (inv.freeBlocks other address).mpr ⟨slab', owns, isBlock, alive⟩
          rw [empty] at mem
          contradiction
    · rw [update_of_ne same, inv.freeBlocks]
      simp only [same, false_and, false_or]
      constructor
      · rintro ⟨slab', owns, isBlock, alive⟩
        refine ⟨slab', ⟨owns, ?_⟩, isBlock, alive⟩
        rintro rfl
        exact available.not_owned inv _ owns
      · rintro ⟨slab', ⟨owns, -⟩, isBlock, alive⟩
        exact ⟨slab', owns, isBlock, alive⟩
  · intro block mem
    obtain ⟨fits, slab', owns, isBlock⟩ := inv.liveBlocks block mem
    refine ⟨fits, slab', (carve_owns_iff available inv _ _).mpr (.inr ⟨owns, ?_⟩), isBlock⟩
    rintro rfl
    exact available.not_owned inv _ owns
  · intro other
    by_cases same : other = slabIdx
    · subst same
      have none : s.liveIn other = 0 := by
        apply countP_eq_zero.mpr
        intro block mem
        simpa using notLive block mem
      refine trans ?_ none.symm
      simp [carve]
    · refine trans ?_ (inv.liveCounts other)
      simp [SlabAllocator.carve, taking, same]

end Carve

theorem allocateSlabForClass_eq (inv : SlabInv s) (done : allocateSlabForClass s i = some ready) :
    ∃ slabIdx pool currentPtr, ready = carve (s.taking pool currentPtr) i slabIdx ∧
         Available s slabIdx pool currentPtr := by
  unfold allocateSlabForClass at done
  split at done
  · rename_i slabIdx pool isPool
    cases done
    exact ⟨slabIdx, pool, s.currentPtr, rfl, available_of_pool inv isPool⟩
  · split at done
    · contradiction
    · cases done
      exact ⟨_, s.freeSlabPool, _, rfl, available_of_region inv (by omega)⟩

end TieredStore.SlabAllocator
