import TieredStore.BufferManager.Invariant

namespace TieredStore.BufferManager

open Function (update update_self update_of_ne)
open Ownership List State

variable {Data : Type} {cfg config : Config Data} {s s' state : State Data}
  {a : Action Data} {list : FreeListId} {bfs : List FrameId} {t thread : ThreadId} {bf : FrameId}
  {rest : List FrameId}

def Op.InTier : Op → Prop
  | .loading .reading _ _ bf => bf.tier = .cxl
  | .loading .loaded _ _ bf => bf.tier = .cxl
  | .checked purpose bf _ _ => bf.tier = purpose.tier
  | .demoting bf _ _ _ => bf.tier = .dram
  | .afterWrite bf => bf.tier = .cxl
  | _ => True

structure State.TierInv (s : State Data) : Prop where
  free : ∀ list, ∀ bf ∈ s.free list, bf.tier = list.tier
  batches : ∀ batch, ∀ bf ∈ s.batches batch, bf.tier = batch.tier
  ops : ∀ t, (s.threads t).InTier
  writes : ∀ bf write, s.writes bf = some write → bf.tier = .cxl

namespace State.TierInv

theorem setFree {free : FreeListId → List FrameId}
    (inv : ∀ list, ∀ bf ∈ free list, bf.tier = list.tier)
    (new : ∀ bf ∈ bfs, bf.tier = list.tier) (other : FreeListId) :
    ∀ bf ∈ update free list bfs other, bf.tier = other.tier := by
  by_cases same : other = list
  · subst same
    rw [update_self]
    exact new
  · rw [update_of_ne same]
    exact inv other

variable (inv : s.TierInv)
include inv

theorem setBatch {batch : BatchId} (new : ∀ bf ∈ bfs, bf.tier = batch.tier) (other : BatchId) :
    ∀ bf ∈ update s.batches batch bfs other, bf.tier = other.tier := by
  by_cases same : other = batch
  · subst same
    rw [update_self]
    exact new
  · rw [update_of_ne same]
    exact inv.batches other

theorem setOp {op : Op} (new : op.InTier)
    (other : ThreadId) : (update s.threads t op other).InTier := by
  by_cases same : other = t
  · subst same
    rw [update_self]
    exact new
  · rw [update_of_ne same]
    exact inv.ops other

theorem setWrite {new : Option (Write Data)}
    (inCxl : bf.tier = .cxl) (other : FrameId) (write : Write Data)
    (isWritten : update s.writes bf new other = some write) : other.tier = .cxl := by
  by_cases same : other = bf
  · exact same ▸ inCxl
  · rw [update_of_ne same] at isWritten
    exact inv.writes other write isWritten

theorem popped (isFree : s.free list = bf :: rest) :
    bf.tier = list.tier ∧ ∀ other ∈ rest, other.tier = list.tier := by
  have inTier := inv.free list
  rw [isFree] at inTier
  exact ⟨inTier bf mem_cons_self, fun other isIn => inTier other (mem_cons_of_mem _ isIn)⟩

theorem op {operation : Op} (isOp : s.threads t = operation) : operation.InTier := isOp ▸ inv.ops t

end State.TierInv

section

variable (inv : s.TierInv)
include inv

theorem State.TierInv.popPush {dram cxl : Nat} {target bf : FrameId}
    (isFree : s.free ⟨.dram, dram⟩ = target :: rest) (inCxl : bf.tier = .cxl) (list : FreeListId) :
    ∀ other ∈ BufferManager.popPush s.free dram cxl rest bf list, other.tier = list.tier := by
  have popped := TierInv.setFree inv.free (inv.popped isFree).2
  refine TierInv.setFree popped (forall_mem_cons.mpr ⟨inCxl, popped ⟨.cxl, cxl⟩⟩) list

theorem ResolveStep.tierInv {a : ResolveAction} (taken : ResolveStep cfg s a s') : s'.TierInv := by
  cases taken with
  | miss _ _ _ isFree =>
    obtain ⟨inCxl, restInCxl⟩ := inv.popped isFree
    exact ⟨TierInv.setFree inv.free restInCxl, inv.batches, inv.setOp inCxl, inv.writes⟩
  | readPage isReading =>
    have inCxl := inv.op isReading
    exact ⟨inv.free, inv.batches, inv.setOp inCxl, inv.writes⟩
  | redirect isLoaded isFree =>
    exact ⟨inv.popPush isFree (inv.op isLoaded), inv.batches, inv.setOp trivial, inv.writes⟩
  | warm | takeReadyLast | takeReady | dropDeleted =>
    exact ⟨inv.free, inv.batches, inv.ops, inv.writes⟩
  | _ => exact ⟨inv.free, inv.batches, inv.setOp trivial, inv.writes⟩

theorem ProviderStep.tierInv {a : ProviderAction} (taken : ProviderStep s a s') : s'.TierInv := by
  cases taken with
  | cool => exact ⟨inv.free, inv.batches, inv.ops, inv.writes⟩
  | check _ inPool => exact ⟨inv.free, inv.batches, inv.setOp inPool, inv.writes⟩
  | popTarget isChecked isFree =>
    have inDram := inv.op isChecked
    exact ⟨TierInv.setFree inv.free (inv.popped isFree).2, inv.batches,
      inv.setOp inDram, inv.writes⟩
  | @demote t _ _ bf _ _ isDemoting =>
    exact ⟨inv.free, inv.setBatch (forall_mem_cons.mpr
      ⟨inv.op isDemoting, inv.batches ⟨t, .dram⟩⟩), inv.setOp trivial, inv.writes⟩
  | submit isChecked =>
    have inCxl := inv.op isChecked
    exact ⟨inv.free, inv.batches, inv.setOp trivial, inv.setWrite inCxl⟩
  | finishWrite isWritten =>
    exact ⟨inv.free, inv.batches, inv.ops, inv.setWrite (inv.writes _ _ isWritten)⟩
  | writtenBack isWritten | writtenBackLost isWritten =>
    have inCxl := inv.writes _ _ isWritten
    exact ⟨inv.free, inv.batches, inv.setOp inCxl, inv.setWrite inCxl⟩
  | @evict t _ _ bf _ isChecked =>
    exact ⟨inv.free, inv.setBatch (forall_mem_cons.mpr
      ⟨inv.op isChecked, inv.batches ⟨t, .cxl⟩⟩), inv.setOp trivial, inv.writes⟩
  | @evictWritten t _ bf isAfterWrite =>
    exact ⟨inv.free, inv.setBatch (forall_mem_cons.mpr
      ⟨inv.op isAfterWrite, inv.batches ⟨t, .cxl⟩⟩), inv.setOp trivial, inv.writes⟩
  | @pushBatch t tier partition =>
    refine ⟨TierInv.setFree inv.free (forall_mem_append.mpr
      ⟨inv.batches ⟨t, tier⟩, inv.free ⟨tier, partition⟩⟩), inv.setBatch (by simp),
      inv.ops, inv.writes⟩
  | promote _ isFree _ inCxl => exact ⟨inv.popPush isFree inCxl, inv.batches, inv.ops, inv.writes⟩
  | _ => exact ⟨inv.free, inv.batches, inv.setOp trivial, inv.writes⟩

theorem PageStep.tierInv {a : PageAction Data} (taken : PageStep cfg s a s') : s'.TierInv := by
  cases taken with
  | tryPop isFree =>
    exact ⟨TierInv.setFree inv.free (inv.popped isFree).2, inv.batches,
      inv.setOp trivial, inv.writes⟩
  | initNewPage _ _ issues =>
    cases issues <;> exact ⟨inv.free, inv.batches, inv.setOp trivial, inv.writes⟩
  | modifyNew | modify | moveChild => exact ⟨inv.free, inv.batches, inv.ops, inv.writes⟩
  | @reclaimFrame t partition _ bf =>
    exact ⟨TierInv.setFree inv.free (forall_mem_cons.mpr
      ⟨rfl, inv.free ⟨bf.tier, partition⟩⟩), inv.batches, inv.setOp trivial, inv.writes⟩
  | _ => exact ⟨inv.free, inv.batches, inv.setOp trivial, inv.writes⟩

theorem Step.tierInv (taken : Step cfg s a s') : s'.TierInv := by
  cases taken with
  | resolve taken | provide taken | page taken => exact taken.tierInv inv

end

theorem Initial.tierInv (initial : Initial cfg s) : s.TierInv := by
  refine ⟨initial.ownTier, fun batch bf isIn => ?_, fun t => ?_, fun bf write isWritten => ?_⟩
  · rw [initial.noBatch] at isIn
    cases isIn
  · rw [initial.allIdle]
    trivial
  · rw [initial.noWrite] at isWritten
    cases isWritten

def State.Complete (cfg : Config Data) (s : State Data) : Prop :=
  ∀ bf, cfg.HasFrame bf → ∃ place, bf ∈ s.held place

theorem Inv.complete (inv : Inv cfg s) (complete : s.Complete cfg)
    (keepsTarget : KeepsTarget a) (reclaimsUnwritten : ReclaimsUnwritten s a)
    (taken : Step cfg s a s') : s'.Complete cfg := by
  obtain ⟨_, _, moves, -, kept⟩ := inv.moves reclaimsUnwritten taken
  intro bf hasFrame
  obtain ⟨_, had⟩ := complete bf hasFrame
  rcases moves.passes.kept had with isLost | has
  · rw [kept keepsTarget] at isLost
    cases isLost
  · exact has

def Conserves (s : State Data) (a : Action Data) : Prop :=
  KeepsTarget a ∧ ReclaimsUnwritten s a ∧ EvictsUnread s a ∧ ClearsFresh s a

theorem conserves_of_isPlain (s : State Data) (a : Action Data)
    (isPlain : a.isPlain s = true) : Conserves s a :=
  ⟨keepsTarget_of_isPlain isPlain, reclaimsUnwritten_of_isPlain isPlain,
    evictsUnread_of_isPlain isPlain, clearsFresh_of_isPlain isPlain⟩

/-- What a frame at the place has to be: free and of the list's own tier, not free behind
a swip or an entry, or in the hands of an operation. -/
def Place.Suits (s : State Data) (bf : FrameId) : Place → Prop
  | .free list => list.tier = bf.tier ∧ (s.frames bf).state = .free
  | .swip _ => (s.frames bf).state ≠ .free
  | .ready _ => (s.frames bf).state ≠ .free
  | .batch _ => True
  | .op _ => True

theorem Inv.suits (inv : Inv cfg s) (tiers : s.TierInv) {place : Place}
    (has : bf ∈ s.held place) : place.Suits s bf := by
  have fits := inv.placed.fits place bf has
  cases place with
  | free list => exact ⟨(tiers.free list bf has).symm, fits⟩
  | batch => trivial
  | op => trivial
  | swip pid =>
    simp only [held, holding] at has fits
    cases isSwip : s.swips pid with
    | none => simp [isSwip, Swip.holding] at has
    | some swip =>
      cases swip with
      | hot | cool =>
        simp only [isSwip] at fits
        simp [Place.Suits, fits.1]
      | evicted => simp [isSwip, Swip.holding] at has
  | ready => simp [Place.Suits, fits.1]

theorem conserved_of_reachable
    (reached : Transition.Reachable (step cfg) (Initial cfg) Conserves s) :
    Inv cfg s ∧ s.TierInv ∧ s.Complete cfg := by
  refine reached.invariant (fun s => Inv cfg s ∧ s.TierInv ∧
    s.Complete cfg) ?_ ?_
  · intro s initial
    refine ⟨initial.inv, initial.tierInv, fun bf hasFrame => ?_⟩
    obtain ⟨list, isIn⟩ := (initial.complete bf).mp hasFrame
    exact ⟨.free list, isIn⟩
  · intro s a s' inv allowed taken
    obtain ⟨keepsTarget, reclaimsUnwritten, evictsUnread, clearsFresh⟩ := allowed
    have taken := step_sound taken
    exact ⟨inv.1.step evictsUnread clearsFresh.unguarded taken, taken.tierInv inv.2.1,
      inv.1.complete inv.2.2 keepsTarget reclaimsUnwritten taken⟩

theorem State.Placed.abandon_loses (placed : s.Placed) {bf target : FrameId} {pid : Pid} {v : Nat}
    (isDemoting : s.threads t = .demoting bf pid v target) (place : Place) :
    target ∉ (s.setOp t .idle).held place := by
  have had : target ∈ s.held (.op t) := by
    simp [held, holding, isDemoting, Op.holding]
  intro has
  by_cases same : place = .op t
  · subst same
    simp [held, holding, setOp, Op.holding] at has
  · have hasToo : target ∈ s.held place := by
      cases place with
      | op other =>
        have ne : other ≠ t := fun isThread => same (isThread ▸ rfl)
        simpa [held, holding, setOp, update_of_ne ne] using has
      | _ => exact has
    exact same (placed.linear.unique place (.op t) target hasToo had)

def demotionRun : List (Action Nat) :=
  [.page (.tryPop 0 ⟨.dram, 0⟩), .page (.initNewPage 0 0), .page (.createMeta 0),
    .page (.tryPop 0 ⟨.dram, 0⟩), .page (.initNewPage 0 0), .page (.link 0 0),
    .provide (.cool 0 1), .provide (.check 1 .demote ⟨.dram, 0⟩), .provide (.popTarget 1 0)]

theorem frame_conserved
    (reached : Transition.Reachable (step config) (Initial config) Conserves state)
    {bf : FrameId} (hasFrame : config.HasFrame bf) :
    ∃ place, (∀ other, bf ∈ state.held other ↔ other = place) ∧
      (state.held place).count bf = 1 ∧ place.Suits state bf := by
  obtain ⟨inv, tiers, complete⟩ := conserved_of_reachable reached
  obtain ⟨place, has⟩ := complete bf hasFrame
  have linear := inv.placed.linear
  refine ⟨place, fun other => ⟨fun hasToo => linear.unique other place bf hasToo has, ?_⟩,
    count_eq_one_of_mem (linear.nodup place) has, inv.suits tiers has⟩
  intro same
  exact same ▸ has

/-- The root page is demoted: its CXL frame is behind its swip. -/
theorem frame_conserved_demoted : ∃ state,
    Transition.Reachable (step smallConfig) (Initial smallConfig) Conserves state ∧
      state.swips 1 = some (.hot ⟨.cxl, 2⟩) ∧
      ∃ place, (∀ other, ⟨.cxl, 2⟩ ∈ state.held other ↔ other = place) ∧
        (state.held place).count ⟨.cxl, 2⟩ = 1 ∧ place.Suits state ⟨.cxl, 2⟩ := by
  obtain ⟨state, ran, isHot⟩ : ∃ state,
      Transition.run (step smallConfig) smallStart
        (demotionRun ++ [.provide (.demote 1 0)]) = some state ∧
      state.swips 1 = some (.hot ⟨.cxl, 2⟩) :=
    ⟨_, rfl, rfl⟩
  have reached := smallStart_reaches conserves_of_isPlain (by decide) ran
  exact ⟨state, reached, isHot, frame_conserved reached (by simp [Config.HasFrame, smallConfig])⟩

/-- The demotion jumps instead: its CXL frame is in no list, behind no swip and with no
operation. -/
theorem abandoned_frame_lost : ∃ state bf,
    Transition.Reachable (step smallConfig) (Initial smallConfig) (fun _ _ => True) state ∧
      smallConfig.HasFrame bf ∧ ∀ place, bf ∉ state.held place := by
  obtain ⟨state, ran, isDemoting, abandons⟩ : ∃ state,
      Transition.run (step smallConfig) smallStart demotionRun = some state ∧
      state.threads 1 = .demoting ⟨.dram, 0⟩ 1 2 ⟨.cxl, 2⟩ ∧
      step smallConfig state (.provide (.abandon 1)) = some (state.setOp 1 .idle) :=
    ⟨_, rfl, rfl, rfl⟩
  have reached := smallStart_reaches conserves_of_isPlain (by decide) ran
  have placed := (conserved_of_reachable reached).1.placed
  refine ⟨state.setOp 1 .idle, ⟨.cxl, 2⟩, ?_, by simp [Config.HasFrame, smallConfig],
    placed.abandon_loses isDemoting⟩
  exact .next (reached.mono fun _ _ _ => trivial) trivial abandons

end TieredStore.BufferManager
