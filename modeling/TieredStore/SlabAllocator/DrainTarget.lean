import TieredStore.SlabAllocator.Calls

namespace TieredStore.SlabAllocator

open Transition Function

variable {s s' state after : State} {free : Nat → List Nat}
  {i index slab slabIdx address bytes : Nat} {calls rescueCalls : List (Nat × Nat)}

structure DrainInv (s : State) : Prop where
  named : ∀ slab, (s.slabMetadata slab).isDrainTarget = true →
    ∃ i, (s.classes i).drainTargetIdx = some slab
  owned : ∀ i slab, (s.classes i).drainTargetIdx = some slab →
    s.Owns i slab ∧ (s.slabMetadata slab).isDrainTarget = true

structure SameDrain (s s' : State) : Prop where
  targets : ∀ i, (s'.classes i).drainTargetIdx = (s.classes i).drainTargetIdx
  flags : ∀ slab, (s'.slabMetadata slab).isDrainTarget = (s.slabMetadata slab).isDrainTarget

theorem SameDrain.drainInv (same : SameDrain s s') (inv : DrainInv s)
    (owns : ∀ i slab, s.Owns i slab →
      (s.slabMetadata slab).isDrainTarget = true → s'.Owns i slab) : DrainInv s' where
  named slab flagged := by
    rw [same.flags] at flagged
    obtain ⟨i, isTarget⟩ := inv.named slab flagged
    exact ⟨i, by rw [same.targets, isTarget]⟩
  owned i slab isTarget := by
    rw [same.targets] at isTarget
    obtain ⟨isOwned, flagged⟩ := inv.owned i slab isTarget
    exact ⟨owns i slab isOwned flagged, by rw [same.flags, flagged]⟩

theorem SameDrain.trans {state'' : State} (same : SameDrain s s')
    (same' : SameDrain s' state'') : SameDrain s state'' where
  targets i := (same'.targets i).trans (same.targets i)
  flags slab := (same'.flags slab).trans (same.flags slab)

theorem SameDrain.withBlocks (same : SameDrain s s') (memory : Nat → Option Nat)
    (bytesInUse : Nat) (live : List (Nat × Nat)) :
    SameDrain s { s' with memory := memory, bytesInUse := bytesInUse, live := live } :=
  ⟨same.targets, same.flags⟩

theorem SameDrain.setClass {sizeClass : SlabSizeClass}
    (target : sizeClass.drainTargetIdx = (s.classes i).drainTargetIdx) :
    SameDrain s (s.setClass i sizeClass) := by
  refine ⟨fun other => ?_, fun _ => rfl⟩
  simp only [State.setClass, update_apply]
  split <;> simp_all

theorem SameDrain.setMetadata {metadata : SlabMetadata}
    (flag : metadata.isDrainTarget = (s.slabMetadata slab).isDrainTarget) :
    SameDrain s (s.setMetadata slab metadata) := by
  refine ⟨fun _ => rfl, fun other => ?_⟩
  simp only [State.setMetadata, update_apply]
  split <;> simp_all

theorem DrainInv.switchDrainTarget (inv : DrainInv s) (slabs : SlabInv s)
    (owns : s.Owns i slab) : DrainInv (switchDrainTarget s i slab) := by
  have same := (switchDrainTarget_same s i slab).toSameSlabs
  have targets : ∀ other, ((SlabAllocator.switchDrainTarget s i slab).classes
      other).drainTargetIdx =
      if other = i then some slab else (s.classes other).drainTargetIdx := by
    intro other
    unfold SlabAllocator.switchDrainTarget
    split
    · split <;> simp only [State.setClass, State.setMetadata] <;> grind
    · simp only [State.setClass, State.setMetadata]
      grind
  have flags : ∀ other, ((SlabAllocator.switchDrainTarget s i slab).slabMetadata
      other).isDrainTarget =
      if other = slab then true
      else if (s.classes i).drainTargetIdx = some other then false
      else (s.slabMetadata other).isDrainTarget := by
    intro other
    unfold SlabAllocator.switchDrainTarget
    split
    · split <;> simp only [State.setClass, State.setMetadata] <;> grind
    · simp only [State.setClass, State.setMetadata]
      grind
  constructor
  · intro other flagged
    rw [flags] at flagged
    split at flagged
    · rename_i isSlab
      exact ⟨i, by rw [targets, if_pos rfl, isSlab]⟩
    · split at flagged
      · contradiction
      · rename_i notTarget
        obtain ⟨index', isTarget⟩ := inv.named other flagged
        have ne : index' ≠ i := by
          rintro rfl
          exact notTarget isTarget
        exact ⟨index', by rw [targets, if_neg ne, isTarget]⟩
  · intro index' other isTarget
    rw [targets] at isTarget
    rw [same.owns_iff, flags]
    split at isTarget
    · rename_i isIndex
      cases isTarget
      exact ⟨isIndex ▸ owns, if_pos rfl⟩
    · rename_i ne
      obtain ⟨isOwned, flagged⟩ := inv.owned index' other isTarget
      have notSlab : other ≠ slab := by
        rintro rfl
        exact ne (slabs.owner_unique isOwned owns)
      have notTarget : (s.classes i).drainTargetIdx ≠ some other := by
        intro isOld
        exact ne (slabs.owner_unique isOwned (inv.owned i other isOld).1)
      exact ⟨isOwned, by rw [if_neg notSlab, if_neg notTarget, flagged]⟩

theorem pushHead_same (s : State) (i node : Nat) :
    SameDrain s (pushHead s i node) ∧ SameSlabs s (pushHead s i node) := by
  constructor
  · apply SameDrain.withBlocks
    apply SameDrain.setClass
    rfl
  · apply SameSlabs.withBlocks
    apply SameSlabs.setClass <;> rfl

theorem pushTail_same (s : State) (i node : Nat) :
    SameDrain s (pushTail s i node) ∧ SameSlabs s (pushTail s i node) := by
  unfold pushTail
  dsimp only
  split <;> constructor
  any_goals
    apply SameDrain.withBlocks
    apply SameDrain.setClass
    rfl
  all_goals
    apply SameSlabs.withBlocks
    apply SameSlabs.setClass <;> rfl

section

variable (inv : DrainInv s)
include inv

theorem DrainInv.pushBlock (slabs : SlabInv s) (owns : s.Owns i slab) (liveAfter node : Nat) :
    DrainInv (pushBlock s i slab liveAfter node) := by
  have keeps : ∀ {s s' : State}, SameDrain s s' ∧ SameSlabs s s' →
      DrainInv s → DrainInv s' := fun same inv =>
    same.1.drainInv inv fun _ _ owns _ => same.2.owns_iff.mpr owns
  have selected : DrainInv (selectDrainTarget s i slab liveAfter) := by
    unfold selectDrainTarget
    dsimp only
    split
    · exact inv.switchDrainTarget slabs owns
    · split
      · exact inv.switchDrainTarget slabs owns
      · exact inv
  unfold SlabAllocator.pushBlock
  dsimp only
  split
  · split
    · exact keeps (pushTail_same ..) selected
    · exact keeps (pushHead_same ..) selected
  · exact keeps (pushHead_same ..) inv

theorem DrainInv.reclaimed (slabs : SlabInv s)
    (owns : s.Owns i slab) (walked : LinkQueue.Partition Nat) :
    DrainInv (reclaimed s slab i walked) := by
  have targets : ∀ other, ((SlabAllocator.reclaimed s slab i walked).classes other).drainTargetIdx =
      if (s.classes other).drainTargetIdx = some slab then none
      else (s.classes other).drainTargetIdx := by
    intro other
    by_cases isIndex : other = i
    · subst isIndex
      simp [reclaimed]
    · have notTarget : (s.classes other).drainTargetIdx ≠ some slab := by
        intro isTarget
        exact isIndex (slabs.owner_unique (inv.owned other slab isTarget).1 owns)
      simp [SlabAllocator.reclaimed, isIndex, notTarget]
  have flags : ∀ other, ((SlabAllocator.reclaimed s slab i walked).slabMetadata
      other).isDrainTarget =
      if other = slab then false else (s.slabMetadata other).isDrainTarget := by
    intro other
    simp only [SlabAllocator.reclaimed, State.setClass, State.setMetadata, update_apply]
    split <;> rfl
  constructor
  · intro other flagged
    rw [flags] at flagged
    split at flagged
    · contradiction
    · rename_i ne
      obtain ⟨index', isTarget⟩ := inv.named other flagged
      refine ⟨index', ?_⟩
      rw [targets, isTarget, if_neg]
      exact fun same => ne (Option.some.inj same)
  · intro index' other isTarget
    rw [targets] at isTarget
    split at isTarget
    · contradiction
    · rename_i notSlab
      obtain ⟨isOwned, flagged⟩ := inv.owned index' other isTarget
      have ne : other ≠ slab := by
        rintro rfl
        exact notSlab isTarget
      exact ⟨(reclaimed_owns_iff slabs _ _).mpr ⟨isOwned, ne⟩, by rw [flags, if_neg ne, flagged]⟩

variable (consistent : Consistent s free)
include consistent

theorem DrainInv.doDeallocate (isLive : (address, bytes) ∈ s.live)
    (done : doDeallocate s address bytes = some after) : DrainInv after := by
  obtain ⟨-, slab, owns, isBlock⟩ := consistent.liveBlocks _ isLive
  have isSlab : s.slabIdx address = slab := isBlock.slabIdx_eq
  have slabs := unaccount_same s address bytes
  have unaccounted : DrainInv (unaccount s address bytes) := by
    refine SameDrain.drainInv ?_ inv fun _ _ owns _ => slabs.owns_iff.mpr owns
    apply SameDrain.withBlocks
    apply SameDrain.setMetadata
    rfl
  have pushed := unaccounted.pushBlock (slabs.slabInv consistent.toSlabInv)
    (slabs.owns_iff.mpr owns) ((s.slabMetadata slab).liveCount - 1) address
  simp only [SlabAllocator.doDeallocate, isSlab] at done
  split at done
  · obtain ⟨_, _, rfl, inv', slabs', -⟩ := consistent.pushBlock isLive
      ((s.slabMetadata slab).liveCount - 1)
    rw [isSlab] at inv' slabs'
    simp only [tryReclaimSlab] at done
    split at done
    · contradiction
    · cases done
      exact pushed.reclaimed inv'.toSlabInv (slabs'.owns_iff.mpr owns) _
  · cases done
    exact pushed

theorem DrainInv.rescue (done : rescue s calls = some after) :
    DrainInv after ∧ ∃ free', Consistent after free' := by
  induction calls generalizing s free with
  | nil =>
    cases done
    exact ⟨inv, free, consistent⟩
  | cons call _ ih =>
    obtain ⟨isLive, done⟩ := Option.ite_none_right_eq_some.mp done
    obtain ⟨_, free', ran, consistent', -⟩ := consistent.doDeallocate isLive
    rw [ran] at done
    exact ih (inv.doDeallocate consistent isLive ran) consistent' done

theorem DrainInv.refill {ready : State} (done : refill s i = some ready) : DrainInv ready := by
  unfold SlabAllocator.refill at done
  split at done
  · cases done
    exact inv
  · obtain ⟨slab, pool, currentPtr, rfl, available⟩ :=
      allocateSlabForClass_eq consistent.toSlabInv done
    have same : SameDrain (s.taking pool currentPtr)
        (carve (s.taking pool currentPtr) i slab) := by
      apply SameDrain.withBlocks
      refine SameDrain.trans (SameDrain.setMetadata ?_) (SameDrain.setClass ?_) <;> rfl
    have same : SameDrain s (carve (s.taking pool currentPtr) i slab) := ⟨same.targets, same.flags⟩
    apply same.drainInv inv
    intro _ _ owns _
    apply (carve_owns_iff available consistent.toRepInv _ _).mpr
    refine .inr ⟨owns, ?_⟩
    rintro rfl
    exact available.not_owned consistent.toRepInv _ owns

theorem DrainInv.finishAllocate (i bytes : Nat) :
    DrainInv (finishAllocate s i bytes (SlabAllocator.refill s i)).2 := by
  unfold SlabAllocator.finishAllocate
  split
  · exact inv
  · rename_i ready refilled
    have inv' := inv.refill consistent refilled
    split
    · exact inv'
    · refine SameDrain.drainInv ?_ inv' fun _ _ owns _ => (popBlock_same ..).owns_iff.mpr owns
      apply SameDrain.withBlocks
      refine SameDrain.trans (SameDrain.setClass ?_) (SameDrain.setMetadata ?_) <;> rfl

theorem DrainInv.step {a : Action} (taken : step s a = some s') : DrainInv s' := by
  cases a with
  | allocate bytes rescueCalls =>
    obtain ⟨-, taken⟩ := Option.ite_none_right_eq_some.mp taken
    obtain ⟨⟨result, after⟩, done, rfl⟩ := Option.map_eq_some_iff.mp taken
    simp only [doAllocate] at done
    split at done
    · rename_i ready refilled
      have finished := inv.finishAllocate consistent (getClassIndex bytes) bytes
      rw [refilled, Option.some.inj done] at finished
      exact finished
    · split at done
      · contradiction
      · rename_i rescued isRescued
        obtain ⟨inv', free', consistent'⟩ := inv.rescue consistent isRescued
        have finished := inv'.finishAllocate consistent' (getClassIndex bytes) bytes
        rw [Option.some.inj done] at finished
        exact finished
  | deallocate =>
    obtain ⟨isLive, taken⟩ := Option.ite_none_right_eq_some.mp taken
    exact inv.doDeallocate consistent isLive taken
  | write =>
    obtain ⟨-, ⟨⟩⟩ := Option.ite_none_right_eq_some.mp taken
    exact ⟨inv.named, inv.owned⟩

end

theorem drainInv_of_reached (reached : Reached s) : ∃ free, Consistent s free ∧ DrainInv s := by
  apply reached.invariant (fun s => ∃ free, Consistent s free ∧ DrainInv s)
  · rintro s ⟨_, _, _, done⟩
    refine ⟨_, construct_consistent done, ?_⟩
    simp only [construct, Option.ite_none_left_eq_some, Option.some.injEq] at done
    obtain ⟨-, rfl⟩ := done
    exact ⟨nofun, nofun⟩
  · rintro s a s' ⟨free, consistent, inv⟩ - taken
    obtain ⟨free', consistent'⟩ := consistent.step taken
    exact ⟨free', consistent', inv.step consistent taken⟩

/-- A flagged slab is the drain target of the one class that owns it. -/
theorem drainTarget_unique (reached : Reached state) (index : Nat) :
    (∀ slabIdx, state.Owns index slabIdx →
      ((state.slabMetadata slabIdx).isDrainTarget = true ↔
        (state.classes index).drainTargetIdx = some slabIdx)) ∧
    (∀ slabIdx, (state.classes index).drainTargetIdx = some slabIdx →
      state.Owns index slabIdx ∧ ∀ other, state.Owns other slabIdx → other = index) ∧
    ((state.classes index).drainTargetIdx = none ↔
      ∀ slabIdx, state.Owns index slabIdx → (state.slabMetadata slabIdx).isDrainTarget = false) ∧
    ∀ slabIdx, slabIdx ∈ state.freeSlabPool ∨ (∀ other, ¬ state.Owns other slabIdx) →
      (state.slabMetadata slabIdx).isDrainTarget = false := by
  obtain ⟨free, consistent, inv⟩ := drainInv_of_reached reached
  have flag : ∀ slabIdx, state.Owns index slabIdx →
      ((state.slabMetadata slabIdx).isDrainTarget = true ↔
        (state.classes index).drainTargetIdx = some slabIdx) := by
    intro slabIdx owns
    constructor
    · intro flagged
      obtain ⟨named, isTarget⟩ := inv.named slabIdx flagged
      have isIndex : named = index :=
        consistent.toSlabInv.owner_unique (inv.owned named slabIdx isTarget).1 owns
      rw [← isIndex, isTarget]
    · exact fun isTarget => (inv.owned index slabIdx isTarget).2
  refine ⟨flag, ?_, ?_, ?_⟩
  · intro slabIdx isTarget
    have owns := (inv.owned index slabIdx isTarget).1
    exact ⟨owns, fun other owns' => consistent.toSlabInv.owner_unique owns' owns⟩
  · constructor
    · intro noTarget slabIdx owns
      rw [← Bool.not_eq_true, flag slabIdx owns, noTarget]
      exact nofun
    · intro unflagged
      refine Option.eq_none_iff_forall_ne_some.mpr fun slabIdx isTarget => ?_
      obtain ⟨owns, flagged⟩ := inv.owned index slabIdx isTarget
      rw [unflagged slabIdx owns] at flagged
      contradiction
  · intro slabIdx unowned
    rw [← Bool.not_eq_true]
    intro flagged
    obtain ⟨named, isTarget⟩ := inv.named slabIdx flagged
    have owns := (inv.owned named slabIdx isTarget).1
    rcases unowned with pooled | unowned
    · exact consistent.not_pooled owns pooled
    · exact unowned named owns

theorem drainTarget_unique_selected :
    ∃ state, Reached state ∧
      (state.classes (getClassIndex 16384)).drainTargetIdx = some 0 ∧
      state.Owns (getClassIndex 16384) 0 ∧ (state.slabMetadata 0).isDrainTarget = true := by
  have result : ((construct 4096 hugePageSize fun _ => none).bind
      (run step · (List.replicate 65 (.allocate 16384 []) ++ [.deallocate 4096 16384]))).map
        (fun state => (state.classes (getClassIndex 16384)).drainTargetIdx) = some (some 0) := by
    decide +kernel
  obtain ⟨state, ran, selected⟩ := Option.map_eq_some_iff.mp result
  obtain ⟨initial, constructed, ran⟩ := Option.bind_eq_some_iff.mp ran
  have reached : Reached state :=
    (Reachable.start ⟨_, _, _, constructed⟩).run_of_forall (fun _ _ _ => trivial) ran
  obtain ⟨flag, owned, -⟩ := drainTarget_unique reached (getClassIndex 16384)
  have owns := (owned 0 selected).1
  exact ⟨state, reached, selected, owns, (flag 0 owns).mpr selected⟩

end TieredStore.SlabAllocator
