import TieredStore.Lib.Transition
import TieredStore.SlabAllocator.Slabs

namespace TieredStore.SlabAllocator

open LinkChain LinkQueue Transition List State

variable {s s' state state' after ready : State} {free free' : Nat → List Nat}
  {i index slabIdx address bytes node : Nat} {rescueCalls calls : List (Nat × Nat)}
  {memory : Nat → Option Nat}

def Initial (s : State) : Prop :=
  ∃ basePtr totalSize memory, construct basePtr totalSize memory = some s

abbrev Reached (state : State) : Prop := Reachable step Initial (fun _ _ => True) state

def extent (state : State) (block : Nat × Nat) : Nat :=
  (state.classes (getClassIndex block.2)).blockSize

def Apart (s : State) (block other : Nat × Nat) : Prop :=
  block.1 + extent s block ≤ other.1 ∨ other.1 + extent s other ≤ block.1

structure Consistent (state : State) (free : Nat → List Nat) : Prop extends
    RepInv state free where
  busy : ∀ index slabIdx, state.Owns index slabIdx → 0 < state.liveIn slabIdx

section

variable (inv : RepInv s free)
include inv

theorem RepInv.extent_eq (block : Nat × Nat) :
    extent s block = alignUp block.2 := inv.blockSize_getClassIndex block.2

theorem RepInv.live_apart {block other : Nat × Nat}
    (isLive : block ∈ s.live) (isLive' : other ∈ s.live)
    (ne : block.1 ≠ other.1) : Apart s block other := by
  obtain ⟨-, slabIdx, owns, isBlock⟩ := inv.liveBlocks block isLive
  obtain ⟨-, slab', owns', isBlock'⟩ := inv.liveBlocks other isLive'
  rw [Apart, inv.extent_eq, inv.extent_eq]
  by_cases same : slabIdx = slab'
  · subst same
    -- one slab has one class, hence one block size
    have size : alignUp block.2 = alignUp other.2 := by
      rw [← inv.blockSize_getClassIndex, ← inv.blockSize_getClassIndex, inv.owner_unique owns owns']
    rw [← size] at isBlock' ⊢
    exact isBlock.apart_of_same isBlock' ne
  · exact isBlock.apart_of_ne isBlock' same

theorem RepInv.live_pairwise : s.live.Pairwise (Apart s) := by
  have distinct : s.live.Pairwise fun block other => block.1 ≠ other.1 :=
    pairwise_map.mp inv.liveNodup
  apply distinct.imp_of_mem
  intro block other isLive isLive' ne
  exact inv.live_apart isLive isLive' ne

theorem RepInv.live_inside {block : Nat × Nat} (isLive : block ∈ s.live) :
    s.basePtr ≤ block.1 ∧ block.1 + extent s block ≤ s.currentPtr ∧ block.2 ≤ extent s block := by
  obtain ⟨-, slabIdx, owns, isBlock⟩ := inv.liveBlocks block isLive
  have bounds := isBlock.bounds
  have inSlab := inv.slab_bounds owns.1
  have lower : s.basePtr ≤ s.slab slabIdx := Nat.le_add_right _ _
  rw [inv.extent_eq]
  exact ⟨by omega, by omega, le_alignUp _⟩

theorem RepInv.free_apart (isLive : (address, bytes) ∈ s.live) (isFree : node ∈ free i) :
    node + freeNodeSize ≤ address ∨ address + bytes ≤ node := by
  obtain ⟨-, slabIdx, owns, isBlock⟩ := inv.liveBlocks _ isLive
  obtain ⟨slab', owns', isBlock', notLive⟩ := (inv.freeBlocks i node).mp isFree
  have fits := le_alignUp bytes
  have large : freeNodeSize ≤ (s.classes i).blockSize := by
    rw [inv.blockSizes]
    unfold freeNodeSize minBlockSize
    omega
  have ne : node ≠ address := by
    rintro rfl
    exact notLive (mem_map.mpr ⟨_, isLive, rfl⟩)
  have apart : node + (s.classes i).blockSize ≤ address ∨
      address + alignUp bytes ≤ node := by
    by_cases same : slab' = slabIdx
    · subst same
      have size : alignUp bytes = (s.classes i).blockSize := by
        rw [← inv.blockSize_getClassIndex, inv.owner_unique owns owns']
      rw [← size] at isBlock' ⊢
      exact isBlock'.apart_of_same isBlock ne
    · exact isBlock'.apart_of_ne isBlock same
  omega

end

theorem Consistent.write (inv : Consistent s free) (isLive : (address, bytes) ∈ s.live)
    (outside : ∀ cell, cell + freeNodeSize ≤ address ∨ address + bytes ≤ cell →
      memory cell = s.memory cell) : Consistent { s with memory := memory } free := by
  refine ⟨⟨⟨inv.blockSizes, inv.endPtr, inv.currentPtr, inv.inside, inv.poolNodup,
    inv.poolCarved, inv.unowned, inv.owned, inv.totalBlocks, inv.slabCounts⟩, ?_, inv.freeBlocks,
    inv.liveNodup, inv.liveBlocks, inv.liveCounts, inv.bytesInUse⟩, inv.busy⟩
  intro i
  apply (inv.queues i).congr
  intro node isFree
  exact outside node (inv.free_apart isLive isFree)

theorem liveIn_erase (isLive : (address, bytes) ∈ s.live)
    (slabs : SameSlabs s after) (live : after.live = s.live.erase (address, bytes))
    (slabIdx : Nat) : after.liveIn slabIdx =
      s.liveIn slabIdx - if s.slabIdx address = slabIdx then 1 else 0 := by
  unfold liveIn
  rw [live, slabs.slabIdx_eq, countP_erase]
  simp [isLive]

theorem Consistent.doDeallocate (inv : Consistent s free) (isLive : (address, bytes) ∈ s.live) :
    ∃ after free', doDeallocate s address bytes = some after ∧ Consistent after free' ∧
      after.live = s.live.erase (address, bytes) ∧
      after.freeSlabPool = if (s.slabMetadata (s.slabIdx address)).liveCount = 1
        then s.slabIdx address :: s.freeSlabPool else s.freeSlabPool := by
  obtain ⟨-, slabIdx, owns, isBlock⟩ := inv.liveBlocks _ isLive
  obtain ⟨free', pushed, isPushed, inv', slabs, live⟩ := inv.pushBlock isLive
    ((s.slabMetadata (s.slabIdx address)).liveCount - 1)
  have counts := liveIn_erase isLive slabs live
  have isSlab : s.slabIdx address = slabIdx := isBlock.slabIdx_eq
  simp only [SlabAllocator.doDeallocate, isPushed]
  have others (index' slab' : Nat) (owns' : pushed.Owns index' slab')
      (ne : slab' ≠ slabIdx) : 0 < pushed.liveIn slab' := by
    rw [counts, isSlab, if_neg (symm ne)]
    exact inv.busy index' slab' (slabs.owns_iff.mp owns')
  split
  · rename_i last
    rw [inv.liveCounts, isSlab] at last
    have drained : pushed.liveIn slabIdx = 0 := by
      rw [counts, last, if_pos isSlab]
    have owns' : pushed.Owns (getClassIndex bytes) slabIdx := slabs.owns_iff.mpr owns
    obtain ⟨walked, ran, inv''⟩ := inv'.tryReclaimSlab owns' drained
    rw [isSlab]
    refine ⟨_, _, ran, ⟨inv'', ?_⟩, live, congrArg _ slabs.freeSlabPool⟩
    intro index' slab' owned
    obtain ⟨before, ne⟩ := (reclaimed_owns_iff inv'.toSlabInv _ _).mp owned
    exact others index' slab' before ne
  · rename_i notLast
    rw [inv.liveCounts, isSlab] at notLast
    refine ⟨pushed, free', rfl, ⟨inv', ?_⟩, live, slabs.freeSlabPool⟩
    intro index' slab' owned
    by_cases same : slab' = slabIdx
    · have before := inv.busy _ slabIdx owns
      rw [same, counts, if_pos isSlab]
      omega
    · exact others index' slab' owned same

theorem Consistent.rescue (inv : Consistent s free)
    (done : rescue s calls = some after) : ∃ free', Consistent after free' := by
  induction calls generalizing s free with
  | nil =>
    simp only [rescue, Option.some.injEq] at done
    exact ⟨free, done ▸ inv⟩
  | cons call _ ih =>
    obtain ⟨isLive, done⟩ := Option.ite_none_right_eq_some.mp done
    obtain ⟨_, free', ran, inv', -⟩ := inv.doDeallocate isLive
    rw [ran] at done
    exact ih inv' done

theorem liveIn_popBlock (s : State) (i bytes node slabIdx : Nat) :
    (popBlock s i bytes node).liveIn slabIdx =
      s.liveIn slabIdx + if s.slabIdx node = slabIdx then 1 else 0 := by
  have cons : (popBlock s i bytes node).liveIn slabIdx =
      ((node, bytes) :: s.live).countP fun block => decide (s.slabIdx block.1 = slabIdx) := rfl
  rw [cons, countP_cons, liveIn]
  simp

section

variable (small : bytes ≤ maxBlockSize)
include small

theorem RepInv.popBlock_consistent (inv : RepInv s free)
    (head : (s.classes (getClassIndex bytes)).freeList = some node)
    (busy : ∀ i slabIdx, s.Owns i slabIdx → slabIdx ≠ s.slabIdx node → 0 < s.liveIn slabIdx) :
    ∃ free', Consistent (SlabAllocator.popBlock s (getClassIndex bytes) bytes node) free' := by
  obtain ⟨_, -, inv'⟩ := inv.popBlock small rfl head
  refine ⟨_, inv', ?_⟩
  intro i slabIdx owns
  have owns := (popBlock_same s (getClassIndex bytes) bytes node).owns_iff.mp owns
  rw [liveIn_popBlock]
  by_cases same : s.slabIdx node = slabIdx
  · rw [if_pos same]
    omega
  · have := busy i slabIdx owns (symm same)
    omega

variable (inv : Consistent s free)
include inv

theorem Consistent.refill (done : refill s (getClassIndex bytes) = some ready) :
    ∃ node, (ready.classes (getClassIndex bytes)).freeList = some node ∧
      ∃ free', Consistent (SlabAllocator.popBlock ready (getClassIndex bytes) bytes node)
        free' := by
  unfold SlabAllocator.refill at done
  split at done
  · rename_i node head
    cases done
    refine ⟨node, head, inv.popBlock_consistent small head ?_⟩
    intro i slabIdx owns _
    exact inv.busy i slabIdx owns
  · rename_i none
    obtain ⟨slabIdx, pool, currentPtr, rfl, available⟩ := allocateSlabForClass_eq inv.toSlabInv done
    have queue := inv.queues (getClassIndex bytes)
    rw [none] at queue
    have inv' := inv.carve (getClassIndex_lt small) available queue.eq_nil
    have head : ((carve (s.taking pool currentPtr) (getClassIndex bytes)
        slabIdx).classes (getClassIndex bytes)).freeList = some (s.slab slabIdx) := by
      simp only [carve, classes_setClass, Function.update_self]
      rfl
    have isSlab : s.slabIdx (s.slab slabIdx) = slabIdx :=
      slabIdx_eq (le_refl _) (by unfold hugePageSize; omega)
    refine ⟨s.slab slabIdx, head, inv'.popBlock_consistent small head ?_⟩
    intro i other owns ne
    rcases (carve_owns_iff available inv.toRepInv _ _).mp owns with ⟨-, rfl⟩ | ⟨before, -⟩
    · exact absurd isSlab.symm ne
    · exact inv.busy i other before

theorem Consistent.finishAllocate :
    ∃ free', Consistent (finishAllocate s (getClassIndex bytes) bytes
      (SlabAllocator.refill s (getClassIndex bytes))).2 free' := by
  cases refilled : SlabAllocator.refill s (getClassIndex bytes) with
  | none => exact ⟨free, inv⟩
  | some =>
    obtain ⟨_, head, inv'⟩ := inv.refill small refilled
    simp only [SlabAllocator.finishAllocate, head]
    exact inv'

theorem Consistent.doAllocate
    {result : Allocated} (done : doAllocate s bytes rescueCalls = some (result, after)) :
    ∃ free', Consistent after free' := by
  simp only [SlabAllocator.doAllocate] at done
  split at done
  · rename_i ready refilled
    have finished := inv.finishAllocate small
    rw [refilled, Option.some.inj done] at finished
    exact finished
  · split at done
    · contradiction
    · rename_i rescued isRescued
      obtain ⟨free', inv'⟩ := inv.rescue isRescued
      have finished := inv'.finishAllocate small
      rw [Option.some.inj done] at finished
      exact finished

end

theorem finishAllocate_block {refilled : Option State}
    (done : finishAllocate s i bytes refilled = (.block address, after)) :
    ∃ others, after.live = (address, bytes) :: others := by
  unfold finishAllocate at done
  split at done
  · cases done
  · split at done
    · cases done
    · rename_i ready _ node _
      cases done
      exact ⟨ready.live, rfl⟩

theorem doAllocate_block (done : doAllocate s bytes rescueCalls =
    some (.block address, after)) : ∃ others, after.live = (address, bytes) :: others := by
  simp only [doAllocate] at done
  split at done
  · exact finishAllocate_block (Option.some.inj done)
  · split at done
    · contradiction
    · exact finishAllocate_block (Option.some.inj done)

theorem construct_consistent {basePtr totalSize : Nat}
    (done : construct basePtr totalSize memory = some s) : Consistent s fun _ => [] := by
  unfold construct at done
  split at done
  · contradiction
  · cases done
    have carved (s : State) (start : s.currentPtr = s.basePtr) :
        s.carved = 0 := by
      rw [carved, start, Nat.sub_self]
      rfl
    refine ⟨⟨⟨fun _ => rfl, rfl, ?_, Nat.le_add_right _ _, nodup_nil, ?_, fun _ _ => rfl,
      ?_, ?_, ?_⟩, fun _ => IsQueue.empty _, ?_, nodup_nil, ?_, fun _ => rfl, rfl⟩, ?_⟩
    · rw [carved _ rfl]
      simp [slab]
    · intro _ _
      contradiction
    · intro _ below _
      rw [carved _ rfl] at below
      contradiction
    · rintro _ _ ⟨below, -⟩
      rw [carved _ rfl] at below
      contradiction
    · intro i
      rw [ownedSlabs, carved _ rfl]
      rfl
    · intro i _
      constructor
      · intro _
        contradiction
      · rintro ⟨_, ⟨below, -⟩, -⟩
        rw [carved _ rfl] at below
        contradiction
    · intro _ _
      contradiction
    · rintro _ _ ⟨below, -⟩
      rw [carved _ rfl] at below
      contradiction

theorem Consistent.step (inv : Consistent s free) {a : Action}
    (taken : step s a = some s') : ∃ free', Consistent s' free' := by
  cases a with
  | allocate =>
    obtain ⟨small, taken⟩ := Option.ite_none_right_eq_some.mp taken
    obtain ⟨⟨_, after⟩, done, rfl⟩ := Option.map_eq_some_iff.mp taken
    exact inv.doAllocate small done
  | deallocate =>
    obtain ⟨isLive, taken⟩ := Option.ite_none_right_eq_some.mp taken
    obtain ⟨after, free', done, inv', -⟩ := inv.doDeallocate isLive
    rw [done] at taken
    cases taken
    exact ⟨free', inv'⟩
  | write =>
    obtain ⟨isLive, ⟨⟩⟩ := Option.ite_none_right_eq_some.mp taken
    refine ⟨free, inv.write isLive ?_⟩
    intro _ outside
    exact if_pos outside

theorem consistent_of_reached (reached : Reached s) : ∃ free, Consistent s free := by
  apply reached.invariant (fun s => ∃ free, Consistent s free)
  · rintro s ⟨_, _, _, done⟩
    exact ⟨_, construct_consistent done⟩
  · rintro s a s' ⟨free, inv⟩ - taken
    exact inv.step taken

/-- A block that is handed out lies in the carved region, is large enough, and is
apart from every other live block. -/
theorem allocated_block_apart (reached : Reached state) (small : bytes ≤ maxBlockSize)
    (done : doAllocate state bytes rescueCalls = some (.block address, state')) :
    ∃ others, state'.live = (address, bytes) :: others ∧
      state'.basePtr ≤ address ∧
      address + extent state' (address, bytes) ≤ state'.currentPtr ∧
      state'.currentPtr ≤ state'.endPtr ∧
      bytes ≤ extent state' (address, bytes) ∧
      (∀ other ∈ others, Apart state' (address, bytes) other) ∧
      state'.live.Pairwise (Apart state') := by
  obtain ⟨free, inv⟩ := consistent_of_reached reached
  obtain ⟨free', inv'⟩ := inv.doAllocate small done
  obtain ⟨others, live⟩ := doAllocate_block done
  have isLive : (address, bytes) ∈ state'.live := by simp [live]
  obtain ⟨lower, upper, fits⟩ := inv'.live_inside isLive
  have apart := inv'.live_pairwise
  refine ⟨others, live, lower, upper, inv'.inside, fits, ?_, apart⟩
  rw [live] at apart
  exact (pairwise_cons.mp apart).1

theorem allocated_block_apart_recarved :
    ∃ state state', Reached state ∧
      doAllocate state 8192 [] = some (.block 12288, state') ∧
      ∃ others, state'.live = (12288, 8192) :: others ∧
        state'.basePtr ≤ 12288 ∧
        12288 + extent state' (12288, 8192) ≤ state'.currentPtr ∧
        state'.currentPtr ≤ state'.endPtr ∧
        8192 ≤ extent state' (12288, 8192) ∧
        (∀ other ∈ others, Apart state' (12288, 8192) other) ∧
        state'.live.Pairwise (Apart state') := by
  have result : (((construct 4096 hugePageSize fun _ => none).bind
      (run step · [.allocate 16384 [], .deallocate 4096 16384, .allocate 8192 []])).bind
        fun state => (doAllocate state 8192 []).map Prod.fst) = some (.block 12288) := by
    decide +kernel
  obtain ⟨state, ran, result⟩ := Option.bind_eq_some_iff.mp result
  obtain ⟨⟨_, state'⟩, done, rfl⟩ := Option.map_eq_some_iff.mp result
  obtain ⟨initial, constructed, ran⟩ := Option.bind_eq_some_iff.mp ran
  have reached : Reached state :=
    (Reachable.start ⟨_, _, _, constructed⟩).run_of_forall (fun _ _ _ => trivial) ran
  exact ⟨state, state', reached, done, allocated_block_apart reached (by decide) done⟩

/-- The slab is not cut yet, once in the pool, or of one class, and only one of
these. -/
def OnePlace (s : State) (slab : Nat) : Prop :=
  (s.carved ≤ slab ∧ slab ∉ s.freeSlabPool ∧ ∀ i, ¬ s.Owns i slab) ∨
  (slab < s.carved ∧ s.freeSlabPool.count slab = 1 ∧
      ∀ i, ¬ s.Owns i slab) ∨
  (slab < s.carved ∧ slab ∉ s.freeSlabPool ∧
      (∃ i < numClasses, s.Owns i slab) ∧
      ∀ i index', s.Owns i slab → s.Owns index' slab → i = index')

theorem RepInv.onePlace (inv : RepInv s free) (slabIdx : Nat) : OnePlace s slabIdx := by
  rcases lt_or_ge slabIdx s.carved with carved | uncut
  · by_cases pooled : slabIdx ∈ s.freeSlabPool
    · refine .inr (.inl ⟨carved, count_eq_one_of_mem inv.poolNodup pooled, ?_⟩)
      intro i owns
      exact inv.not_pooled owns pooled
    · refine .inr (.inr ⟨carved, pooled, inv.owned slabIdx carved pooled, ?_⟩)
      intro i _ owns owns'
      exact inv.owner_unique owns owns'
  · refine .inl ⟨uncut, ?_, ?_⟩
    · intro pooled
      exact not_lt.mpr uncut (inv.poolCarved slabIdx pooled)
    · intro i owns
      exact not_lt.mpr uncut owns.1

structure Represents (s : State) (free : Nat → List Nat) : Prop where
  places : ∀ slab, OnePlace s slab
  acyclic : ∀ i, (free i).Nodup
  linked : ∀ i, IsChain s.memory (s.classes i).freeList (free i)
  tails : ∀ i, (s.classes i).freeListTail = (free i).getLast?
  tailNull : ∀ i, (s.classes i).freeListTail = none ↔ (s.classes i).freeList = none
  freeBlocks : ∀ i address, address ∈ free i ↔ ∃ slab, s.Owns i slab ∧
      s.IsBlock slab (s.classes i).blockSize address ∧ address ∉ s.liveAddresses
  liveCounts : ∀ slab, (s.slabMetadata slab).liveCount = s.liveIn slab
  ownedLive : ∀ i slab, s.Owns i slab → 1 ≤ (s.slabMetadata slab).liveCount
  slabCounts : ∀ i, (s.classes i).slabCount = (s.ownedSlabs i).card
  bytesInUse : s.bytesInUse = (s.live.map (extent s)).sum

theorem Consistent.represents (inv : Consistent s free) : Represents s free where
  places := inv.onePlace
  acyclic i := (inv.queues i).nodup
  linked i := (inv.queues i).chain
  tails i := (inv.queues i).tail_eq.symm
  tailNull i := by
    rw [(inv.queues i).tail_eq_none_iff]
    constructor
    · intro empty
      have chain := (inv.queues i).chain
      rw [empty] at chain
      exact isChain_nil.mp chain
    · intro none
      have queue := inv.queues i
      rw [none] at queue
      exact queue.eq_nil
  freeBlocks := inv.freeBlocks
  liveCounts := inv.liveCounts
  ownedLive i slabIdx owns := by
    rw [inv.liveCounts]
    exact inv.busy i slabIdx owns
  slabCounts := inv.slabCounts
  bytesInUse := by
    rw [inv.bytesInUse]
    apply congrArg sum
    apply map_congr_left
    intro block _
    exact (inv.extent_eq block).symm

/-- The representation after any calls.  A return gives the block back, so that the free list
has it, and one that takes the last live block of a slab removes all blocks of the slab from the
free list and puts the slab into the pool. -/
theorem representation_of_reached (reached : Reached state) :
    (∃ free, Represents state free) ∧
    ∀ address bytes, (address, bytes) ∈ state.live →
      (∃ after free', doDeallocate state address bytes = some after ∧ Represents after free' ∧
        after.live = state.live.erase (address, bytes) ∧
        after.freeSlabPool = if (state.slabMetadata (state.slabIdx address)).liveCount = 1
          then state.slabIdx address :: state.freeSlabPool else state.freeSlabPool) ∧
      ((state.slabMetadata (state.slabIdx address)).liveCount = 1 →
        ∃ walked,
          reclaimWalk
            (pushBlock (unaccount state address bytes) (getClassIndex bytes)
              (state.slabIdx address) 0 address)
            (state.slabIdx address) (getClassIndex bytes) = some walked ∧
          walked.removed = hugePageSize / extent state (address, bytes)) := by
  obtain ⟨free, inv⟩ := consistent_of_reached reached
  refine ⟨⟨free, inv.represents⟩, ?_⟩
  intro address bytes isLive
  obtain ⟨after, free', done, inv', returned⟩ := inv.doDeallocate isLive
  refine ⟨⟨after, free', done, inv'.represents, returned⟩, ?_⟩
  intro last
  obtain ⟨-, slabIdx, owns, isBlock⟩ := inv.liveBlocks _ isLive
  have isSlab : state.slabIdx address = slabIdx := isBlock.slabIdx_eq
  obtain ⟨free', pushed, isPushed, inv', slabs, live⟩ := inv.pushBlock isLive 0
  rw [inv.liveCounts, isSlab] at last
  have drained : pushed.liveIn slabIdx = 0 := by
    rw [liveIn_erase isLive slabs live, last, if_pos isSlab]
  obtain ⟨walked, ran, -, removed, -⟩ := inv'.reclaimWalk (slabs.owns_iff.mpr owns) drained
  rw [isPushed, isSlab]
  refine ⟨walked, ran, removed.trans ?_⟩
  rw [(slabs.classes _).1]
  rfl

theorem representation_of_reached_lastBlock :
    ∃ state, Reached state ∧ state.live = [(4096, 16384)] ∧
      (state.slabMetadata (state.slabIdx 4096)).liveCount = 1 ∧
      (∃ free, Represents state free) ∧
      (∃ after free', doDeallocate state 4096 16384 = some after ∧ Represents after free' ∧
        after.live = []) ∧
      ∃ walked,
        reclaimWalk (pushBlock (unaccount state 4096 16384) (getClassIndex 16384)
          (state.slabIdx 4096) 0 4096) (state.slabIdx 4096) (getClassIndex 16384) = some walked ∧
        walked.removed = hugePageSize / extent state (4096, 16384) := by
  have lastBlock : ((construct 4096 hugePageSize fun _ => none).bind (run step ·
      [.allocate 16384 [], .allocate 16384 [], .deallocate 20480 16384])).any fun state =>
        state.live = [(4096, 16384)] ∧
        (state.slabMetadata (state.slabIdx 4096)).liveCount = 1 := by
    decide +kernel
  obtain ⟨state, ran, holds⟩ := (Option.any_eq_true _ _).mp lastBlock
  obtain ⟨live, last⟩ := of_decide_eq_true holds
  obtain ⟨initial, constructed, ran⟩ := Option.bind_eq_some_iff.mp ran
  have reached : Reached state :=
    (Reachable.start ⟨_, _, _, constructed⟩).run_of_forall (fun _ _ _ => trivial) ran
  obtain ⟨represented, returns⟩ := representation_of_reached reached
  obtain ⟨⟨after, free', done, kept, erased, -⟩, reclaims⟩ := returns 4096 16384 (by simp [live])
  have none : after.live = [] := by simp [erased, live]
  exact ⟨state, reached, live, last, represented, ⟨after, free', done, kept, none⟩, reclaims last⟩

end TieredStore.SlabAllocator
