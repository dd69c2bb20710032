import TieredStore.SlabAllocator.Representation

namespace TieredStore.SlabAllocator

open LinkChain LinkQueue Function List State

variable {s s' : State} {free free' : Nat → List Nat}
  {i index slab slabIdx address bytes node : Nat}

theorem RepInv.of_same (inv : RepInv s free) (same : SameSlabs s s')
    (queues : ∀ i, IsQueue s'.memory (s'.classes i).freeList (s'.classes i).freeListTail (free' i))
    (freeBlocks : ∀ i address, address ∈ free' i ↔ ∃ slab, s.Owns i slab ∧
        s.IsBlock slab (s.classes i).blockSize address ∧ address ∉ s'.liveAddresses)
    (liveNodup : s'.liveAddresses.Nodup) (liveBlocks : ∀ block ∈ s'.live, block.2 ≤ maxBlockSize ∧
      ∃ slab, s.Owns (getClassIndex block.2) slab ∧ s.IsBlock slab (alignUp block.2) block.1)
    (liveCounts : ∀ slab, (s'.slabMetadata slab).liveCount =
      s'.live.countP fun block => decide (s.slabIdx block.1 = slab))
    (bytesInUse : s'.bytesInUse = (s'.live.map fun block => alignUp block.2).sum) :
    RepInv s' free' where
  toSlabInv := same.slabInv inv.toSlabInv
  queues := queues
  freeBlocks i address := by
    simp only [same.owns_iff, same.isBlock_iff, (same.classes i).1]
    exact freeBlocks i address
  liveNodup := liveNodup
  liveBlocks block mem := by
    simp only [same.owns_iff, same.isBlock_iff]
    exact liveBlocks block mem
  liveCounts slab := by
    rw [liveIn, same.slabIdx_eq]
    exact liveCounts slab
  bytesInUse := bytesInUse

theorem popBlock_same (s : State) (i bytes node : Nat) : SameSlabs s (popBlock s i bytes node) := by
  apply SameSlabs.withBlocks
  refine SameSlabs.trans (SameSlabs.setClass ?_ ?_) (SameSlabs.setMetadata ?_ ?_) <;> rfl

theorem mem_pop (inv : RepInv s free) {rest : List Nat}
    (split : free i = node :: rest) (other address : Nat) :
    address ∈ update free i rest other ↔ address ∈ free other ∧ address ≠ node := by
  have nodup := (inv.queues i).nodup
  rw [split] at nodup
  obtain ⟨notInRest, -⟩ := nodup_cons.mp nodup
  by_cases isIndex : other = i
  · subst isIndex
    rw [update_self, split]
    constructor
    · intro mem
      exact ⟨mem_cons_of_mem _ mem, ne_of_mem_of_not_mem mem notInRest⟩
    · rintro ⟨mem, notNode⟩
      exact (mem_cons.mp mem).resolve_left notNode
  · rw [update_of_ne isIndex]
    refine ⟨fun mem => ⟨mem, ?_⟩, And.left⟩
    rintro rfl
    have isFree : address ∈ free i := by simp [split]
    exact isIndex (inv.free_unique mem isFree)

theorem RepInv.popBlock (inv : RepInv s free) (small : bytes ≤ maxBlockSize)
    (isIndex : getClassIndex bytes = i) (head : (s.classes i).freeList = some node) :
    ∃ rest, free i = node :: rest ∧ RepInv (popBlock s i bytes node) (update free i rest) := by
  have queue := inv.queues i
  rw [head] at queue
  obtain ⟨rest, split, queue'⟩ := queue.pop
  have isFree : node ∈ free i := by simp [split]
  obtain ⟨slab, owns, isBlock, notLive⟩ := (inv.freeBlocks i node).mp isFree
  have live : (SlabAllocator.popBlock s i bytes node).liveAddresses = node :: s.liveAddresses := rfl
  refine ⟨rest, split, inv.of_same (popBlock_same ..) ?_ ?_ ?_ ?_ ?_ ?_⟩
  · intro other
    by_cases same : other = i
    · subst same
      simpa [popBlock, setClass, setMetadata] using queue'
    · simpa [SlabAllocator.popBlock, setClass, setMetadata, same] using inv.queues other
  · intro other _
    rw [mem_pop inv split, inv.freeBlocks, live]
    simp only [mem_cons, not_or]
    constructor
    · rintro ⟨⟨slab, owns, isBlock, notLive⟩, notNode⟩
      exact ⟨slab, owns, isBlock, notNode, notLive⟩
    · rintro ⟨slab, owns, isBlock, notNode, notLive⟩
      exact ⟨⟨slab, owns, isBlock, notLive⟩, notNode⟩
  · exact nodup_cons.mpr ⟨notLive, inv.liveNodup⟩
  · intro block mem
    rcases mem_cons.mp mem with rfl | older
    · subst isIndex
      rw [inv.blockSize_getClassIndex] at isBlock
      exact ⟨small, slab, owns, isBlock⟩
    · exact inv.liveBlocks block older
  · intro other
    simp only [SlabAllocator.popBlock, slabMetadata_setMetadata,
      slabMetadata_setClass, isBlock.slabIdx_eq]
    by_cases same : other = slab
    · subst same
      rw [update_self, countP_cons_of_pos (by simpa using isBlock.slabIdx_eq),
        inv.liveCounts]
      rfl
    · rw [update_of_ne same, countP_cons_of_neg, inv.liveCounts]
      · rfl
      · simpa [isBlock.slabIdx_eq] using Ne.symm same
  · subst isIndex
    simp only [popBlock, map_cons, sum_cons, inv.bytesInUse,
      inv.blockSize_getClassIndex]
    omega

structure Queues (s : State) (free : Nat → List Nat) : Prop where
  queues : ∀ i, IsQueue s.memory (s.classes i).freeList (s.classes i).freeListTail (free i)
  apart : ∀ i index' address, address ∈ free i → address ∈ free index' → i = index'

structure SameBlocks (state state' : State) : Prop extends SameSlabs state state' where
  memory : state'.memory = state.memory
  live : state'.live = state.live
  bytesInUse : state'.bytesInUse = state.bytesInUse
  lists : ∀ index, (state'.classes index).freeList = (state.classes index).freeList ∧
    (state'.classes index).freeListTail = (state.classes index).freeListTail
  liveCount : ∀ slabIdx,
    (state'.slabMetadata slabIdx).liveCount = (state.slabMetadata slabIdx).liveCount

namespace SameBlocks

variable {state'' : State}

theorem refl (s : State) : SameBlocks s s where
  toSameSlabs := .refl s
  memory := rfl
  live := rfl
  bytesInUse := rfl
  lists _ := ⟨rfl, rfl⟩
  liveCount _ := rfl

theorem trans (same : SameBlocks s s') (same' : SameBlocks s' state'') : SameBlocks s state'' where
  toSameSlabs := same.toSameSlabs.trans same'.toSameSlabs
  memory := same'.memory.trans same.memory
  live := same'.live.trans same.live
  bytesInUse := same'.bytesInUse.trans same.bytesInUse
  lists i := ⟨(same'.lists i).1.trans (same.lists i).1, (same'.lists i).2.trans (same.lists i).2⟩
  liveCount slab := (same'.liveCount slab).trans (same.liveCount slab)

theorem setFlag (s : State) (slab : Nat) (isDrainTarget : Bool) : SameBlocks s (s.setMetadata slab
      { s.slabMetadata slab with isDrainTarget := isDrainTarget }) := by
  refine ⟨SameSlabs.setMetadata rfl rfl, rfl, rfl, rfl, fun _ => ⟨rfl, rfl⟩, ?_⟩
  intro other
  by_cases same : other = slab
  · subst same
    simp
  · simp [same]

theorem setTarget (s : State) (i : Nat) (target : Option Nat) : SameBlocks s (s.setClass i
      { s.classes i with drainTargetIdx := target }) := by
  refine ⟨SameSlabs.setClass rfl rfl, rfl, rfl, rfl, ?_, fun _ => rfl⟩
  intro other
  by_cases same : other = i
  · subst same
    simp
  · simp [same]

theorem queues (same : SameBlocks s s') (inv : Queues s free) : Queues s' free := by
  refine ⟨?_, inv.apart⟩
  intro i
  rw [same.memory, (same.lists i).1, (same.lists i).2]
  exact inv.queues i

end SameBlocks

theorem switchDrainTarget_same (s : State) (i slab : Nat) :
    SameBlocks s (switchDrainTarget s i slab) := by
  unfold switchDrainTarget
  split
  · split
    · exact (SameBlocks.setFlag ..).trans (SameBlocks.setTarget ..)
    · exact (SameBlocks.setFlag ..).trans ((SameBlocks.setFlag ..).trans (SameBlocks.setTarget ..))
  · exact (SameBlocks.setFlag ..).trans (SameBlocks.setTarget ..)

theorem selectDrainTarget_same (s : State) (i slab liveAfter : Nat) :
    SameBlocks s (selectDrainTarget s i slab liveAfter) := by
  unfold selectDrainTarget
  dsimp only
  split
  · exact switchDrainTarget_same ..
  · split
    · exact switchDrainTarget_same ..
    · exact .refl s

structure Pushed (s : State) (free : Nat → List Nat) (i node : Nat) (s' : State) : Prop where
  slabs : SameSlabs s s'
  live : s'.live = s.live
  bytesInUse : s'.bytesInUse = s.bytesInUse
  liveCount : ∀ slab, (s'.slabMetadata slab).liveCount = (s.slabMetadata slab).liveCount
  queues : ∃ free' : Nat → List Nat, (∀ other, IsQueue s'.memory (s'.classes other).freeList
      (s'.classes other).freeListTail (free' other)) ∧
    ∀ other address, address ∈ free' other ↔ address ∈ free other ∨ (other = i ∧ address = node)

theorem mem_update_iff {cells : List Nat}
    (members : ∀ address, address ∈ cells ↔ address ∈ free i ∨ address = node)
    (other address : Nat) : address ∈ update free i cells other ↔
      address ∈ free other ∨ (other = i ∧ address = node) := by
  by_cases same : other = i
  · subst same
    simp [members]
  · simp [same]

theorem pushHead_pushed (inv : Queues s free) (outside : ∀ other, node ∉ free other) :
    Pushed s free i node (pushHead s i node) where
  slabs := by
    apply SameSlabs.withBlocks
    apply SameSlabs.setClass <;> rfl
  live := rfl
  bytesInUse := rfl
  liveCount _ := rfl
  queues := by
    refine ⟨update free i (node :: free i), ?_, ?_⟩
    · intro other
      by_cases same : other = i
      · subst same
        simpa [pushHead] using (inv.queues other).pushFront (outside other)
      · have queue : IsQueue (pushHead s i node).memory
            (s.classes other).freeList (s.classes other).freeListTail
            (free other) := by
          apply (inv.queues other).congr
          intro _ mem
          exact update_of_ne (ne_of_mem_of_not_mem mem (outside other)) _ _
        simpa [pushHead, same] using queue
    · apply mem_update_iff
      intro _
      simp [or_comm]

theorem pushTail_pushed (inv : Queues s free) (outside : ∀ other, node ∉ free other) :
    Pushed s free i node (pushTail s i node) := by
  have members (address : Nat) :
      address ∈ free i ++ [node] ↔ address ∈ free i ∨ address = node := by simp
  have queue := inv.queues i
  unfold pushTail
  dsimp only
  cases tail : (s.classes i).freeListTail with
  | none =>
    rw [tail] at queue
    have empty := queue.tail_eq_none_iff.mp rfl
    refine ⟨?_, rfl, rfl, fun _ => rfl,
      update free i (free i ++ [node]), ?_, mem_update_iff members⟩
    · apply SameSlabs.withBlocks
      apply SameSlabs.setClass <;> rfl
    intro other
    by_cases same : other = i
    · subst same
      rw [update_self, empty]
      simpa using IsQueue.singleton (update_self node none s.memory)
    · have kept : IsQueue (update s.memory node none)
          (s.classes other).freeList (s.classes other).freeListTail
          (free other) := by
        apply (inv.queues other).congr
        intro cell mem
        exact update_of_ne (ne_of_mem_of_not_mem mem (outside other)) _ _
      simpa [same] using kept
  | some last =>
    rw [tail] at queue
    have isLast : last ∈ free i := mem_of_getLast? queue.tail_eq
    have notNode : last ≠ node := ne_of_mem_of_not_mem isLast (outside i)
    refine ⟨?_, rfl, rfl, fun _ => rfl,
      update free i (free i ++ [node]), ?_, mem_update_iff members⟩
    · apply SameSlabs.withBlocks
      apply SameSlabs.setClass <;> rfl
    intro other
    by_cases same : other = i
    · subst same
      have appended : IsQueue
          (update (update s.memory node none) last (some node))
          (s.classes other).freeList (some node) (free other ++ [node]) := by
        apply queue.append
        · exact update_self ..
        · rw [update_of_ne notNode.symm, update_self]
        · intro cell mem notLast
          rw [update_of_ne notLast, update_of_ne (ne_of_mem_of_not_mem mem (outside other))]
      simpa using appended
    · have kept : IsQueue
          (update (update s.memory node none) last (some node))
          (s.classes other).freeList (s.classes other).freeListTail
          (free other) := by
        apply (inv.queues other).congr
        intro cell mem
        have notLast : cell ≠ last := by
          rintro rfl
          exact same (inv.apart other i cell mem isLast)
        rw [update_of_ne notLast, update_of_ne (ne_of_mem_of_not_mem mem (outside other))]
      simpa [same] using kept

theorem Pushed.of_same (same : SameBlocks s s') {pushed : State}
    (push : Pushed s' free i node pushed) : Pushed s free i node pushed where
  slabs := same.toSameSlabs.trans push.slabs
  live := push.live.trans same.live
  bytesInUse := push.bytesInUse.trans same.bytesInUse
  liveCount slab := (push.liveCount slab).trans (same.liveCount slab)
  queues := push.queues

theorem pushBlock_pushed (inv : Queues s free) (outside : ∀ other, node ∉ free other)
    (slab liveAfter : Nat) : Pushed s free i node (pushBlock s i slab liveAfter node) := by
  have same := selectDrainTarget_same s i slab liveAfter
  unfold pushBlock
  dsimp only
  split
  · split
    · exact (pushTail_pushed (same.queues inv) outside).of_same same
    · exact (pushHead_pushed (same.queues inv) outside).of_same same
  · exact pushHead_pushed inv outside

theorem unaccount_same (s : State) (address bytes : Nat) :
    SameSlabs s (unaccount s address bytes) := by
  apply SameSlabs.withBlocks
  apply SameSlabs.setMetadata <;> rfl

theorem mem_liveAddresses_erase (nodup : s.liveAddresses.Nodup) (isLive : (node, bytes) ∈ s.live) :
    address ∈ (s.live.erase (node, bytes)).map Prod.fst ↔
      address ∈ s.liveAddresses ∧ address ≠ node := by
  have distinct : s.live.Nodup := Nodup.of_map _ nodup
  simp only [liveAddresses, mem_map, distinct.mem_erase_iff]
  constructor
  · rintro ⟨block, ⟨ne, mem⟩, rfl⟩
    refine ⟨⟨block, mem, rfl⟩, ?_⟩
    intro same
    exact ne (inj_on_of_nodup_map nodup mem isLive same)
  · rintro ⟨⟨block, mem, rfl⟩, ne⟩
    refine ⟨block, ⟨?_, mem⟩, rfl⟩
    rintro rfl
    exact ne rfl

theorem RepInv.pushBlock (inv : RepInv s free) (isLive : (node, bytes) ∈ s.live) (liveAfter : Nat) :
    ∃ free' after, pushBlock (unaccount s node bytes) (getClassIndex bytes)
        (s.slabIdx node) liveAfter node = after ∧ RepInv after free' ∧ SameSlabs s after ∧
      after.live = s.live.erase (node, bytes) := by
  obtain ⟨_, slab, owns, isBlock⟩ := inv.liveBlocks _ isLive
  have isAddress : node ∈ s.liveAddresses := mem_map.mpr ⟨_, isLive, rfl⟩
  have queues : Queues (unaccount s node bytes) free := ⟨inv.queues, fun _ _ _ => inv.free_unique⟩
  have pushed : Pushed (unaccount s node bytes) free (getClassIndex bytes) node
      (SlabAllocator.pushBlock (unaccount s node bytes) (getClassIndex bytes)
        (s.slabIdx node) liveAfter node) :=
    pushBlock_pushed queues (fun _ => inv.live_not_free isAddress) _ _
  generalize SlabAllocator.pushBlock (unaccount s node bytes) (getClassIndex bytes)
    (s.slabIdx node) liveAfter node = after at pushed ⊢
  obtain ⟨free', isQueue, members⟩ := pushed.queues
  have live : after.live = s.live.erase (node, bytes) := pushed.live
  have addresses (address : Nat) : address ∈ after.liveAddresses ↔
      address ∈ s.liveAddresses ∧ address ≠ node := by
    rw [liveAddresses, live]
    exact mem_liveAddresses_erase inv.liveNodup isLive
  have slabs := (unaccount_same s node bytes).trans pushed.slabs
  refine ⟨free', after, rfl, inv.of_same slabs isQueue ?_ ?_ ?_ ?_ ?_, slabs, live⟩
  · intro other address
    rw [members, inv.freeBlocks]
    simp only [addresses, not_and, not_not]
    constructor
    · rintro (⟨slab, owns, isBlock, notLive⟩ | ⟨rfl, rfl⟩)
      · exact ⟨slab, owns, isBlock, fun alive => absurd alive notLive⟩
      · rw [inv.blockSize_getClassIndex]
        exact ⟨slab, owns, isBlock, fun _ => rfl⟩
    · rintro ⟨slab', owns', isBlock', notLive⟩
      by_cases alive : address ∈ s.liveAddresses
      · obtain rfl := notLive alive
        have same : slab = slab' := isBlock.slabIdx_eq.symm.trans isBlock'.slabIdx_eq
        subst same
        exact .inr ⟨inv.owner_unique owns' owns, rfl⟩
      · exact .inl ⟨slab', owns', isBlock', alive⟩
  · rw [liveAddresses, live]
    exact inv.liveNodup.sublist (Sublist.map _ erase_sublist)
  · intro block mem
    rw [live] at mem
    exact inv.liveBlocks block (mem_of_mem_erase mem)
  · intro other
    rw [pushed.liveCount, live, countP_erase]
    simp only [unaccount, slabMetadata_setMetadata]
    by_cases same : other = s.slabIdx node
    · subst same
      rw [update_self, inv.liveCounts]
      simp [liveIn, isLive]
    · rw [update_of_ne same, inv.liveCounts]
      simp [liveIn, Ne.symm same]
  · rw [pushed.bytesInUse, live]
    have sum : (s.live.map fun block => alignUp block.2).sum =
        alignUp bytes + ((s.live.erase (node, bytes)).map fun block => alignUp block.2).sum :=
      ((perm_cons_erase isLive).map _).sum_eq
    simp only [unaccount, inv.bytesInUse, inv.blockSize_getClassIndex, sum]
    exact Nat.add_sub_cancel_left ..

end TieredStore.SlabAllocator
