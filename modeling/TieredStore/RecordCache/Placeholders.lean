import TieredStore.RecordCache.References

namespace TieredStore.RecordCache

open Transition

def PlaceholderResolved (memory : Memory) (e : Addr) : Prop :=
  memory.typeOf e = .readOnlyMode ∨
    (memory.typeOf e = .removedFromHashTableButWaitForPhysicalMemoryDeallocation ∧
      ∀ key, ¬ memory.Linked key e)

/-- Phase 2 is about to find that the frame, the slot or its key is no longer
the request's. -/
def LeavesEarly (cfg : Config) (s : State) (t : Nat) : Prop :=
  ∃ req e v,
    s.promoters t = .reading req e (.guarded v) ∧
      slotStillHoldsKey cfg req (s.leaves.frames req.bf) = false

/-- Phase 3 finds the placeholder's type or its flag, and always acts on it. -/
def Decided (s : State) : Prop :=
  ∀ t req e data decision,
    s.promoters t = .deciding req e data decision → decision ≠ .nothing

variable {cfg : Config} {s s' : State} {a : Action} {e : Addr}
  {chains : Bytes → List Addr}

theorem Decided.step (decided : Decided s) (inv : ShapeInv s chains)
    (taken : RecordCache.step cfg s a = some s') : Decided s' := by
  intro t req e data decision pc'
  rcases promoters_of_step taken t with ⟨_, rfl⟩ | same | ⟨request', ⟨-, after⟩ | ⟨-, after⟩⟩
  · cases promoteStep_cases taken with
    | @decide request' e' _ pc =>
      simp only [State.setPromoter, Function.update_self, PromotePc.deciding.injEq] at pc'
      obtain ⟨-, -, -, rfl⟩ := pc'
      have owns : (s.promoters t).placeholder? = some e' := by rw [pc]; rfl
      simp only [phase3Decision, inv.type_of_promoter owns]
      split <;> simp
    | _ => simp at pc'
  · exact decided t req e data decision (same ▸ pc')
  · simp [after] at pc'
  · simp [after] at pc'

theorem decided_of_reaches (reached : Reaches cfg FreshBlocks s) :
    (∃ chains, ShapeInv s chains) ∧ Decided s := by
  refine reached.invariant
    (fun s => (∃ chains, ShapeInv s chains) ∧ Decided s)
    (fun s initial => ⟨⟨_, initial.shapeInv⟩, ?_⟩) ?_
  · intro t _ e _ _ pc
    simp [initial.promoters] at pc
  · intro s a s' ⟨⟨chains, inv⟩, decided⟩ fresh taken
    exact ⟨(inv.step fresh taken).shape, decided.step inv taken⟩

theorem ShapeInv.resolved_of_removed (inv : ShapeInv s chains)
    (type : s.memory.typeOf e = .removedFromHashTableButWaitForPhysicalMemoryDeallocation) :
    PlaceholderResolved s.memory e := by
  refine .inr ⟨type, fun key linked => ?_⟩
  obtain ⟨_, walked, mem⟩ := linked
  rw [inv.shaped.unique walked] at mem
  exact inv.shaped.not_removed mem type

def cooledPromotion : List Action :=
  [.page (.promoteRecordCacheEntry 0 0), .promote 0 .dequeue,
    .promote 0 (.allocate 3), .promote 0 .install, .promote 0 .insertIntoFifo,
    .page (.cool 0), .promote 0 .guard]

/-- The early return leaves a placeholder at the head of the key's chain that
no promotion owns and that no later promotion may cover. -/
theorem early_return_orphans_placeholder :
    ∃ state state', Reaches Config.small FreshBlocks state ∧
      (state.promoters 0).placeholder? = some 3 ∧
      step Config.small state (.promote 0 .check) = some state' ∧
      state'.promoters 0 = .idle ∧
      state'.memory.typeOf 3 = .promoteThreadHoldingThePosition ∧
      state'.memory.table [1] = some 3 ∧
      headAllowsInstall state'.memory [1] = false := by
  obtain ⟨state, state', ran, taken, owns, returned, type, isHead, refused⟩ :
      ∃ state state',
        run (step Config.small) State.small cooledPromotion = some state ∧
        step Config.small state (.promote 0 .check) = some state' ∧
        (state.promoters 0).placeholder? = some 3 ∧ state'.promoters 0 = .idle ∧
        state'.memory.typeOf 3 = .promoteThreadHoldingThePosition ∧
        state'.memory.table [1] = some 3 ∧
        headAllowsInstall state'.memory [1] = false :=
    ⟨_, _, rfl, rfl, by decide, by decide, by decide, by decide, by decide⟩
  exact ⟨state, state', reaches_of_run_fresh initial_small (by decide) ran, owns, taken,
    returned, type, isHead, refused⟩

/--
When a promotion lets go of its entry, a preallocated entry that it did not install is back
with the allocator, and an installed one is resolved, exactly unless phase 2
returned early.
-/
theorem returned_promotion_resolves_placeholder (config : Config) {state state' : State}
    (reached : Reaches config FreshBlocks state) {thread : Nat} {action : PromoteAction}
    (taken : step config state (.promote thread action) = some state')
    {entry : Addr} (owns : (state.promoters thread).placeholder? = some entry)
    (returns : (state'.promoters thread).placeholder? = none) :
    (∀ request, state.promoters thread = .notConsumed request entry →
      state'.memory.allocated entry = false) ∧
    ((∀ request, state.promoters thread ≠ .notConsumed request entry) →
      (PlaceholderResolved state'.memory entry ↔ ¬ LeavesEarly config state thread)) := by
  obtain ⟨⟨chains, inv⟩, decided⟩ := decided_of_reaches reached
  have placeholder := inv.type_of_promoter owns
  have resolved (notAllocating : action.allocated? = none)
      (removed : state'.memory.typeOf entry =
        .removedFromHashTableButWaitForPhysicalMemoryDeallocation) :
      PlaceholderResolved state'.memory entry := by
    have fresh : FreshBlocks state (.promote thread action) := by
      intro new isNew
      simp [Action.allocated?, notAllocating] at isNew
    obtain ⟨⟨chains', inv'⟩, -⟩ := inv.step fresh taken
    exact inv'.resolved_of_removed removed
  cases promoteStep_cases taken with
  | @freePreallocated request entry' pc =>
    have same : entry' = entry := by simpa [pc, PromotePc.placeholder?] using owns
    subst same
    refine ⟨fun _ _ => ?_, fun installed => absurd pc (installed request)⟩
    simp [Memory.deallocate]
  | @earlyReturn request entry' version pc fails =>
    refine ⟨fun _ notInstalled => ?_, fun _ => iff_of_false ?_ fun onTime => ?_⟩
    · simp [pc] at notInstalled
    · simp [PlaceholderResolved, placeholder]
    · exact onTime ⟨request, entry', version, pc, fails⟩
  | @setRemoved request entry' pc | @cancel request entry' data chain pc =>
    have same : entry' = entry := by simpa [pc, PromotePc.placeholder?] using owns
    subst same
    refine ⟨fun _ notInstalled => ?_, fun _ => iff_of_true (resolved rfl ?_) ?_⟩
    · simp [pc] at notInstalled
    · simp
    · rintro ⟨_, _, _, atCheck, _⟩
      simp [pc] at atCheck
  | @publish request entry' data chain pc =>
    have same : entry' = entry := by simpa [pc, PromotePc.placeholder?] using owns
    subst same
    refine ⟨fun _ notInstalled => ?_, fun _ => iff_of_true (.inl ?_) ?_⟩
    · simp [pc] at notInstalled
    · simp
    · rintro ⟨_, _, _, atCheck, _⟩
      simp [pc] at atCheck
  | @nothing request' entry' data chain pc =>
    exact absurd rfl (decided thread request' entry' data .nothing pc)
  | dequeue pc | reject pc | allocFail pc | increment pc =>
    simp [pc, PromotePc.placeholder?] at owns
  | _ => simp_all [PromotePc.placeholder?]

theorem returned_promotion_resolves_placeholder_published :
    ∃ state state', Reaches Config.small FreshBlocks state ∧
      step Config.small state (.promote 0 (.finish [])) = some state' ∧
      ¬ LeavesEarly Config.small state 0 ∧ PlaceholderResolved state'.memory 3 := by
  obtain ⟨state, state', ran, taken, pc, returned⟩ :
      ∃ state state',
        run (step Config.small) State.small (promotion 0 3).dropLast = some state ∧
        step Config.small state (.promote 0 (.finish [])) = some state' ∧
        state.promoters 0 = .deciding ⟨[1], 0, 7, 0, 1, 1, false⟩ 3 ⟨0, 0, [5], 0⟩ .publish ∧
        state'.promoters 0 = .idle :=
    ⟨_, _, rfl, rfl, by decide, by decide⟩
  have reached : Reaches Config.small FreshBlocks state :=
    reaches_of_run_fresh initial_small (by decide) ran
  have onTime : ¬ LeavesEarly Config.small state 0 := by
    intro ⟨_, _, _, atCheck, _⟩
    simp [pc] at atCheck
  have settled := returned_promotion_resolves_placeholder Config.small reached taken
    (by rw [pc]; rfl) (by rw [returned]; rfl)
  exact ⟨state, state', reached, taken, onTime,
    (settled.2 fun _ notInstalled => by simp [pc] at notInstalled).mpr onTime⟩

end TieredStore.RecordCache
