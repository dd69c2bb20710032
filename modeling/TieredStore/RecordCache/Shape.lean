import TieredStore.RecordCache.Pins

namespace TieredStore.RecordCache

open LinkChain Transition Function List
open ForwardState Memory PromotePc RescuePc SievePc State WorkerPc

structure ShapeInv (s : State) (chains : Bytes → List Addr) : Prop where
  shaped : Shaped s.memory chains
  pins : ∀ holder, ∀ pin ∈ s.pins holder, pin.Holds s.memory chains
  apart : ∀ t t' e, (s.promoters t).placeholder? = some e →
    (s.promoters t').placeholder? = some e → t = t'

def TypesMove (memory memory' : Memory) (new : Option Addr) : Prop :=
  ∀ e, new ≠ some e → memory'.typeOf e = memory.typeOf e ∨
      RecordCacheType.Moves (memory.typeOf e) (memory'.typeOf e)

structure ShapeStep (s s' : State) (new : Option Addr) : Prop where
  shape : ∃ chains, ShapeInv s' chains
  types : TypesMove s.memory s'.memory new

namespace TypesMove

variable {memory memory' : Memory} {new : Option Addr} {e : Addr}
  {type : RecordCacheType}

theorem sameShape (same : memory.SameShape memory') : TypesMove memory memory' new :=
  fun e _ => .inl (same.types e)

theorem setType (edge : type = memory.typeOf e ∨ RecordCacheType.Moves (memory.typeOf e) type) :
    TypesMove memory (memory.setType e type) new := by
  intro other _
  rw [typeOf_setType]
  by_cases same : other = e
  · rw [if_pos same, same]
    exact edge
  · exact .inl (if_neg same)

end TypesMove

namespace ShapeInv

variable {s s' : State} {chains chains' : Bytes → List Addr}
  {holder : Holder} {t : Nat} {pc : PromotePc} {e : Addr}

section

variable (inv : ShapeInv s chains)
include inv

/-- A step of one thread re-establishes that thread's pins; the others only
have to survive the step's memory operation. -/
theorem next (holder : Holder) (shaped : Shaped s'.memory chains')
    (same : ∀ other, other ≠ holder → s'.pins other = s.pins other)
    (others : ∀ other, other ≠ holder → ∀ pin ∈ s.pins other,
      pin.Holds s.memory chains → pin.Holds s'.memory chains')
    (own : ∀ pin ∈ s'.pins holder, pin.Holds s'.memory chains') (apart : ∀ t t' e,
      (s'.promoters t).placeholder? = some e →
      (s'.promoters t').placeholder? = some e → t = t') : ShapeInv s' chains' where
  shaped := shaped
  apart := apart
  pins other pin mem := by
    by_cases isHolder : other = holder
    · subst isHolder
      exact own pin mem
    · rw [same other isHolder] at mem
      exact others other isHolder pin mem (inv.pins other pin mem)

theorem quiet (holder : Holder) (sameShape : s.memory.SameShape s'.memory)
    (same : ∀ other, other ≠ holder → s'.pins other = s.pins other)
    (own : ∀ pin ∈ s'.pins holder, pin.Holds s.memory chains) (apart : ∀ t t' e,
      (s'.promoters t).placeholder? = some e →
      (s'.promoters t').placeholder? = some e → t = t') : ShapeInv s' chains :=
  inv.next holder (inv.shaped.sameShape sameShape) same
    (fun _ _ _ _ holds => holds.sameShape sameShape)
    (fun pin mem => (own pin mem).sameShape sameShape) apart

theorem type_of_promoter (owns : (s.promoters t).placeholder? = some e) :
    s.memory.typeOf e = .promoteThreadHoldingThePosition := by
  obtain ⟨pin, mem, rfl, onPlaceholder⟩ := exists_pin owns
  have holds := inv.pins (.promoter t) pin mem
  cases pin with
  | headOf => exact holds.2
  | unlinked =>
    cases onPlaceholder
    exact holds.2
  | anywhere =>
    cases onPlaceholder
    exact holds

theorem pinned_elsewhere (owns : (s.promoters t).placeholder? = some e)
    {other : Holder} (ne : other ≠ .promoter t)
    {pin : Pin} (mem : pin ∈ s.pins other) : pin.entry ≠ e := by
  rintro rfl
  have onPlaceholder := (inv.pins other pin mem).onPlaceholder (inv.type_of_promoter owns)
  obtain ⟨t', rfl, owns'⟩ := promoter_of_onPlaceholder mem onPlaceholder
  exact ne (by rw [inv.apart t' t pin.entry owns' owns])

theorem keep (holder : Holder) (same : ∀ other, other ≠ holder → s'.pins other = s.pins other)
    (promoters : s'.promoters = s.promoters) (sameShape : s.memory.SameShape s'.memory)
    (own : ∀ pin ∈ s'.pins holder, pin.Holds s.memory chains) : ShapeStep s s' none :=
  ⟨⟨chains, inv.quiet holder sameShape same own (promoters ▸ inv.apart)⟩, .sameShape sameShape⟩

variable (promoters : s'.promoters = Function.update s.promoters t pc)
include promoters

theorem apart_promoters (keeps : ∀ e, pc.placeholder? = some e →
      (s.promoters t).placeholder? = some e ∨ ∀ other, (s.promoters other).placeholder? ≠ some e) :
    ∀ thread₁ thread₂ e, (s'.promoters thread₁).placeholder? = some e →
      (s'.promoters thread₂).placeholder? = some e → thread₁ = thread₂ := by
  -- an entry that the thread took over is nobody else's
  have own : ∀ other e, pc.placeholder? = some e → (s.promoters other).placeholder? = some e →
      t = other := by
    intro other e owns owns'
    rcases keeps e owns with old | unowned
    · exact inv.apart _ _ e old owns'
    · exact absurd owns' (unowned other)
  intro thread₁ thread₂ e owns₁ owns₂
  rw [promoters, update_apply] at owns₁ owns₂
  split at owns₁ <;> split at owns₂
  · rw [‹thread₁ = t›, ‹thread₂ = t›]
  · exact ‹thread₁ = t›.trans (own thread₂ e owns₁ owns₂)
  · exact (own thread₁ e owns₂ owns₁).symm.trans ‹thread₂ = t›.symm
  · exact inv.apart _ _ e owns₁ owns₂

theorem promoterQuiet (same : s'.pins = (s.setPromoter t pc).pins)
    (sameShape : s.memory.SameShape s'.memory)
    (pins : ∀ pin ∈ pc.pins, pin ∈ (s.promoters t).pins) : ShapeStep s s' none := by
  refine ⟨⟨chains, inv.quiet (.promoter t) sameShape (fun _ => pins_setPromoter same)
    (fun pin mem => ?_) (inv.apart_promoters promoters fun e owns => ?_)⟩,
    .sameShape sameShape⟩
  · simp only [State.pins, promoters, update_self] at mem
    exact inv.pins (.promoter t) pin (pins pin mem)
  · obtain ⟨pin, mem, rfl, -⟩ := exists_pin owns
    exact .inl (placeholder?_of_mem_pins (pins pin mem))

theorem promoterWrites (same : s'.pins = (s.setPromoter t pc).pins)
    (owns : (s.promoters t).placeholder? = some e)
    (keeps : ∀ e', pc.placeholder? = some e' → e' = e) (shaped : Shaped s'.memory chains')
    (others : ∀ pin : Pin, pin.entry ≠ e → pin.Holds s.memory chains → pin.Holds s'.memory chains')
    (own : ∀ pin ∈ pc.pins, pin.Holds s'.memory chains') : ShapeInv s' chains' := by
  refine inv.next (.promoter t) shaped (fun _ => pins_setPromoter same)
    (fun other ne pin mem holds => ?_) (fun pin mem => ?_)
    (inv.apart_promoters promoters fun e' owns' => ?_)
  · exact others pin (inv.pinned_elsewhere owns ne mem) holds
  · simp only [State.pins, promoters, update_self] at mem
    exact own pin mem
  · exact .inl (keeps e' owns' ▸ owns)

end

variable {cfg : Config} {w : Nat} {memory : Memory} {forward : ForwardState}
  {rescue : RescuePc}

theorem promoteStep {a : PromoteAction} (inv : ShapeInv s chains)
    (fresh : ∀ e, a.allocated? = some e → s.Unreferenced e) (taken : PromoteStep cfg s t a s') :
    ShapeStep s s' a.allocated? := by
  have pinsHold := inv.pins (.promoter t)
  simp only [State.pins] at pinsHold
  cases taken with
  | dequeue | reject | allocFail | earlyReturn | nothing | increment =>
    exact inv.promoterQuiet rfl rfl (.refl _) (by simp [PromotePc.pins])
  | @allocate req e pc available =>
    have unreferenced := fresh e rfl
    have unlinked : ∀ key, e ∉ chains key := fun key mem =>
      unreferenced.chains key ⟨chains key, inv.shaped.chain key, mem⟩
    have types : ∀ other, other ≠ e →
        (s.memory.allocateNewEntry e req.key
          req.valueLength).typeOf other = s.memory.typeOf other :=
      fun other ne => typeOf_allocateNewEntry _ _ _ _ _ ne
    refine ⟨⟨chains, inv.next (.promoter t) (inv.shaped.allocateNewEntry unlinked req.valueLength)
      (fun _ => pins_setPromoter rfl)
      (fun other _ pin mem holds => holds.elsewhere (unreferenced.not_pinned mem) types)
      (fun pin mem => ?_)
      (inv.apart_promoters rfl fun e' owns => .inr ?_)⟩, ?_⟩
    · simp only [State.pins, setPromoter, update_self, PromotePc.pins, mem_singleton] at mem
      subst mem
      exact ⟨unlinked, typeOf_allocateNewEntry_self ..⟩
    · exact owns ▸ unreferenced.promoters
    · intro other ne
      exact .inl (types other fun same => ne (congrArg some same.symm))
  | @install req e pc free allowed =>
    rw [pc] at pinsHold
    obtain ⟨unlinked, type⟩ := pinsHold _ (mem_singleton.mpr rfl)
    refine ⟨⟨_, inv.promoterWrites rfl rfl
      (by rw [pc]; rfl) (by simp [placeholder?])
      (inv.shaped.install unlinked type allowed)
      (fun pin ne holds => holds.install inv.shaped ne allowed)
      ?_⟩, fun other _ => .inl (typeOf_install ..)⟩
    simp only [PromotePc.pins, mem_singleton, forall_eq, Pin.Holds,
      update_self, head?_cons, true_and]
    exact (typeOf_install ..).trans type
  | headStillLive pc | guardJumps pc | guard pc | check pc | readHeaderMissing pc | readHeader pc
  | copyValue pc | recheck pc | recheckJumps pc | decide pc =>
    exact inv.promoterQuiet rfl rfl (.refl _) (by simp [PromotePc.pins, pc])
  | freePreallocated => exact inv.promoterQuiet rfl rfl (.deallocate ..) (by simp [PromotePc.pins])
  | insertIntoFifo pc =>
    exact inv.promoterQuiet rfl rfl (.setVisited ..) (by simp [PromotePc.pins, pc])
  | @unlinkFailed req e chain pc free walked =>
    rw [pc] at pinsHold
    obtain ⟨isHead, type⟩ := pinsHold _ (mem_singleton.mpr rfl)
    cases inv.shaped.unique walked
    refine ⟨⟨_, inv.promoterWrites rfl rfl
      (by rw [pc]; rfl) (by simp [placeholder?])
      (inv.shaped.unlink req.key e)
      (fun pin ne holds => holds.unlink (.inl ne)) ?_⟩,
      fun other _ => .inl (typeOf_unlink ..)⟩
    simp only [PromotePc.pins, mem_singleton, forall_eq]
    exact ⟨inv.shaped.unlinked_of_unlink (mem_of_mem_head? isHead), type⟩
  | @setRemoved req e pc =>
    rw [pc] at pinsHold
    obtain ⟨unlinked, type⟩ := pinsHold _ (mem_singleton.mpr rfl)
    refine ⟨⟨chains, inv.promoterWrites rfl rfl
      (by rw [pc]; rfl) (by simp [placeholder?])
      (inv.shaped.setType_outside unlinked _)
      (fun pin ne holds => holds.elsewhere ne
        fun other ne => by simp [ne])
      (by simp [PromotePc.pins])⟩, .setType (.inr ?_)⟩
    have placeholder : s.memory.typeOf e = .promoteThreadHoldingThePosition := type
    exact placeholder ▸ .cancel
  | @publish req e data chain pc =>
    rw [pc] at pinsHold
    obtain ⟨isHead, type⟩ := pinsHold _ (mem_singleton.mpr rfl)
    have types : ∀ other, other ≠ e →
        (s.memory.publish e data).typeOf other =
          s.memory.typeOf other :=
      fun other ne => by simp [ne]
    refine ⟨⟨chains, inv.promoterWrites rfl rfl
      (by rw [pc]; rfl) (by simp [placeholder?])
      (inv.shaped.retypeHead isHead types (links_publish ..) rfl (.inl (by simp)))
      (fun pin ne holds => holds.elsewhere ne types)
      (by simp [PromotePc.pins])⟩, fun other _ => ?_⟩
    by_cases same : other = e
    · subst same
      refine .inr ?_
      simp only [type, typeOf_publish]
      exact .publish
    · exact .inl (types other same)
  | @cancel req e data chain pc walked =>
    rw [pc] at pinsHold
    obtain ⟨isHead, type⟩ := pinsHold _ (mem_singleton.mpr rfl)
    cases inv.shaped.unique walked
    have unlinked := inv.shaped.unlinked_of_unlink (mem_of_mem_head? isHead)
    refine ⟨⟨_, inv.promoterWrites rfl rfl
      (by rw [pc]; rfl) (by simp [placeholder?])
      ((inv.shaped.unlink req.key e).setType_outside unlinked _)
      (fun pin ne holds => (holds.unlink (.inl ne)).elsewhere
        ne fun other ne => by simp [ne])
      (by simp [PromotePc.pins])⟩, .setType (.inr ?_)⟩
    have placeholder : (s.memory.unlink req.key e (chains req.key)).1.typeOf e =
      .promoteThreadHoldingThePosition := type
    exact placeholder ▸ .cancel

theorem workerQuiet {pc : WorkerPc} (inv : ShapeInv s chains)
    (same : s'.pins = (s.setWorker w pc).pins) (promoters : s'.promoters = s.promoters)
    (sameShape : s.memory.SameShape s'.memory) (own : ∀ pin ∈ pc.pins, pin.Holds s.memory chains) :
    ShapeStep s s' none := by
  refine inv.keep (.worker w) (fun _ => pins_setWorker same) promoters sameShape ?_
  rw [same]
  simpa [State.pins] using own

theorem sameThreads (inv : ShapeInv s chains) (same : s'.pins = s.pins)
    (promoters : s'.promoters = s.promoters) (sameShape : s.memory.SameShape s'.memory) :
    ShapeStep s s' none :=
  inv.keep .queue (fun _ _ => same ▸ rfl) promoters sameShape
    fun pin mem => inv.pins .queue pin (same ▸ mem)

theorem readOnly_of_target {head : Option Addr} {target : Addr}
    (found : (memory.findFirstUpdatableEntry head).target = some target) :
    memory.typeOf target = .readOnlyMode := by
  unfold findFirstUpdatableEntry at found
  grind

theorem workerStep {a : WorkerAction} (inv : ShapeInv s chains)
    (taken : WorkerStep cfg s w a s') : ShapeStep s s' none := by
  have pinsHold := inv.pins (.worker w)
  simp only [State.pins] at pinsHold
  cases taken with
  | startTX | touch | commitTX | abortTX | abortDone | lookupMiss =>
    exact inv.sameThreads rfl rfl (.refl _)
  | latch | enterEpoch | loadOther | casFails | leaveEpoch | write | unlatch | undoNext =>
    exact inv.workerQuiet rfl rfl (.refl _) (by simp [WorkerPc.pins])
  | selectNone => exact inv.workerQuiet rfl rfl (.afterSearch ..) (by simp [WorkerPc.pins])
  | select pc free found =>
    refine inv.workerQuiet rfl rfl (.afterSearch ..) ?_
    simp only [WorkerPc.pins, mem_singleton, forall_eq]
    exact .inl (readOnly_of_target found)
  | loadType pc | readEpoch pc =>
    refine inv.workerQuiet rfl rfl (.refl _) ?_
    simpa [WorkerPc.pins, pc] using pinsHold
  | @casType sect target pc type =>
    refine ⟨⟨chains, inv.next (.worker w) ?_ (fun _ => pins_setWorker rfl)
      (fun _ _ pin _ holds => holds.invalidate type) (fun pin mem => ?_)
      inv.apart⟩, .setType (.inr (type ▸ .invalidate))⟩
    · by_cases linked : ∃ key, target ∈ chains key
      · obtain ⟨key, mem⟩ := linked
        exact inv.shaped.retypeHead
          (inv.shaped.head_of_live mem (by simp [type]))
          (fun other ne => by simp [ne])
          (links_setType ..) rfl (.inr (by simp))
      · exact inv.shaped.setType_outside (fun key mem => linked ⟨key, mem⟩) _
    · simp only [State.pins, setWorker, update_self, WorkerPc.pins, mem_singleton] at mem
      subst mem
      simp [Pin.Holds, TypeFact.Holds]
  | @push sect target epoch pc =>
    -- the pin moves from the worker to the queue
    rw [pc] at pinsHold
    have doomed := pinsHold _ (mem_singleton.mpr rfl)
    refine ⟨⟨chains, inv.shaped, fun holder pin mem => ?_, inv.apart⟩, .sameShape (.refl _)⟩
    cases holder with
    | queue =>
      simp only [State.pins, map_append, mem_append, map_cons, map_nil, mem_singleton] at mem
      rcases mem with old | rfl
      · exact inv.pins .queue pin old
      · exact doomed
    | worker w' =>
      by_cases same : w' = w
      · subst same
        simp [State.pins, WorkerPc.pins] at mem
      · simp only [State.pins, setWorker, update_of_ne same] at mem
        exact inv.pins (.worker w') pin mem
    | promoter t => exact inv.pins (.promoter t) pin mem
    | forward t => exact inv.pins (.forward t) pin mem
    | sieve t => exact inv.pins (.sieve t) pin mem
    | rescue => exact inv.pins .rescue pin mem
  | lookupHit => exact inv.sameThreads rfl rfl (.setVisited ..)

theorem doomed_of_item (inv : ShapeInv s chains) (t : Nat)
    {item : InvalidationEntry} (mem : item ∈ (s.forwards t).items) :
    (s.memory.typeOf item.entryPointer).Doomed :=
  inv.pins (.forward t) item.pin
    (mem_append_right _ (mem_map_of_mem mem))

theorem pins_of_items (stage : ∀ item, forward.stage ≠ .removed item)
    (doomed : ∀ item ∈ forward.items, (memory.typeOf item.entryPointer).Doomed) :
    ∀ pin ∈ forward.pins, pin.Holds memory chains := by
  intro pin mem
  simp only [ForwardState.pins, mem_append, mem_map] at mem
  rcases mem with mem | ⟨item, inItems, rfl⟩
  · cases current : forward.stage with
    | removed item => exact absurd current (stage item)
    | _ => simp at mem
  · exact doomed item inItems

variable (inv : ShapeInv s chains)
include inv

theorem forwardQuiet (same : s'.pins = (s.setForward t forward).pins)
    (promoters : s'.promoters = s.promoters) (memory : s'.memory = s.memory)
    (stage : ∀ item, forward.stage ≠ .removed item)
    (items : ∀ item ∈ forward.items, item ∈ (s.forwards t).items) : ShapeStep s s' none := by
  refine inv.keep (.forward t) (fun _ => pins_setForward same) promoters
    (memory ▸ .refl _) fun pin mem => ?_
  rw [same] at mem
  simp only [State.pins, setForward, update_self] at mem
  exact pins_of_items stage (fun item inItems => inv.doomed_of_item t (items item inItems)) pin mem

theorem forwardUnlink {key : Bytes} (item : InvalidationEntry)
    (same : s'.pins = (s.setForward t forward).pins) (promoters : s'.promoters = s.promoters)
    (memory : s'.memory = (s.memory.unlink key item.entryPointer (chains key)).1)
    (inHand : item ∈ (s.forwards t).items)
    (items : ∀ item ∈ forward.items, item ∈ (s.forwards t).items)
    (stage : ∀ other, forward.stage = .removed other →
      other = item ∧ item.entryPointer ∈ chains key) : ShapeStep s s' none := by
  have doomed := inv.doomed_of_item t inHand
  have types : ∀ e, s'.memory.typeOf e = s.memory.typeOf e := fun e => memory ▸ typeOf_unlink ..
  refine ⟨⟨_, inv.next (.forward t)
    (memory ▸ inv.shaped.unlink key item.entryPointer) (fun _ => pins_setForward same)
    (fun _ _ pin _ holds => memory ▸ holds.unlink (.inr doomed.settled.not_placeholder))
    (fun pin mem => ?_) (promoters ▸ inv.apart)⟩,
    fun e _ => .inl (types e)⟩
  rw [same] at mem
  simp only [State.pins, setForward, update_self, ForwardState.pins, mem_append, mem_map] at mem
  rcases mem with mem | ⟨other, inItems, rfl⟩
  · split at mem
    · rename_i other isRemoved
      obtain ⟨rfl, linked⟩ := stage other isRemoved
      simp only [mem_singleton] at mem
      subst mem
      exact ⟨inv.shaped.unlinked_of_unlink linked, (types _).symm ▸ doomed⟩
    · simp at mem
  · show (s'.memory.typeOf other.entryPointer).Doomed
    rw [types]
    exact inv.doomed_of_item t (items other inItems)

theorem forwardStep {a : ForwardAction}
    (taken : ForwardStep cfg s t a s') : ShapeStep s s' none := by
  cases taken with
  | advance stage => exact inv.forwardQuiet rfl rfl rfl (by simp) (by simp [items, stage])
  | popAll =>
    refine ⟨⟨chains, inv.shaped, fun holder pin mem => ?_, inv.apart⟩, .sameShape (.refl _)⟩
    cases holder with
    | forward t' =>
      by_cases same : t' = t
      · subst same
        simp only [State.pins, setForward, update_self] at mem
        refine pins_of_items (by simp) (fun item inItems => ?_) pin mem
        simp only [items, append_nil, mem_append] at inItems
        rcases inItems with (old | popped) | retried
        · exact inv.doomed_of_item t' (by simp [items, old])
        · exact inv.pins .queue item.pin (mem_map_of_mem popped)
        · exact inv.doomed_of_item t' (by simp [items, retried])
      · simp only [State.pins, setForward, update_of_ne same] at mem
        exact inv.pins (.forward t') pin mem
    | queue => simp [State.pins] at mem
    | promoter t' => exact inv.pins (.promoter t') pin mem
    | worker w => exact inv.pins (.worker w) pin mem
    | sieve t' => exact inv.pins (.sieve t') pin mem
    | rescue => exact inv.pins .rescue pin mem
  | takeNext stage next =>
    refine inv.forwardQuiet rfl rfl rfl (by simp) ?_
    simp only [items]
    grind
  | blocked stage | drop stage | retry stage | increment stage =>
    refine inv.forwardQuiet rfl rfl rfl (by simp) ?_
    simp only [items]
    grind
  | scan stage | scanned stage =>
    refine inv.forwardQuiet rfl rfl rfl (by simp) ?_
    simp [items, stage]
  | @unlink item chain stage free walked removed =>
    cases inv.shaped.unique walked
    refine inv.forwardUnlink item rfl rfl rfl
      (by simp [items, stage])
      (by simp [items, stage]) (fun other isRemoved => ?_)
    simp only [ForwardStage.removed.injEq] at isRemoved
    exact ⟨isRemoved.symm, (unlinkFrom_removed none).mp removed⟩
  | @unlinkMissed item chain stage free walked =>
    cases inv.shaped.unique walked
    exact inv.forwardUnlink item rfl rfl rfl
      (by simp [items, stage])
      (by simp [items, stage]) (by simp)
  | @storeRemoved item stage =>
    obtain ⟨unlinked, doomed⟩ : Pin.Holds s.memory chains
        (.unlinked item.entryPointer .doomed) :=
      inv.pins (.forward t) _ (by simp [State.pins, ForwardState.pins, stage])
    have settled : (s.memory.typeOf item.entryPointer).Settled :=
      RecordCacheType.Doomed.settled doomed
    refine ⟨⟨chains, inv.next (.forward t) (inv.shaped.setType_outside unlinked _)
      (fun _ => pins_setForward rfl)
      (fun _ _ pin _ holds => holds.setRemoved settled)
      (fun pin mem => ?_) inv.apart⟩, .setType settled.moves_removed⟩
    simp only [setForward] at mem
    refine pins_of_items (by simp) (fun other inItems => ?_) pin mem
    have old : Pin.Holds s.memory chains other.pin :=
      inv.doomed_of_item t (by
        simp only [items] at inItems ⊢
        grind)
    exact old.setRemoved settled
  | endPass stage done =>
    refine inv.forwardQuiet rfl rfl rfl (by simp) ?_
    simp [items, stage, done]

theorem sieveQuiet {pc : SievePc} (same : s'.pins = (s.setSieve t pc).pins)
    (promoters : s'.promoters = s.promoters) (sameShape : s.memory.SameShape s'.memory)
    (own : ∀ pin ∈ pc.pins, pin.Holds s.memory chains) : ShapeStep s s' none := by
  refine inv.keep (.sieve t) (fun _ => pins_setSieve same) promoters sameShape ?_
  rw [same]
  simpa [State.pins] using own

theorem unlinked_of_removed
    (type : s.memory.typeOf e = .removedFromHashTableButWaitForPhysicalMemoryDeallocation) :
    Pin.Holds s.memory chains (.unlinked e .removed) :=
  ⟨fun _ mem => inv.shaped.not_removed mem type, type⟩

theorem sieveStep {a : SieveAction} (taken : SieveStep cfg s t a s') : ShapeStep s s' none := by
  have pinsHold := inv.pins (.sieve t)
  simp only [State.pins] at pinsHold
  cases taken with
  | drain =>
    refine inv.sieveQuiet rfl rfl (.refl _) (fun pin mem => ?_)
    simp only [SievePc.pins, mem_map] at mem
    obtain ⟨victim, inVictims, rfl⟩ := mem
    have removed := (SieveFIFOQueue.drainStateRemovedOnly_entries
      (isRemovedType s.memory) kSieveBatchLimit s.sieveFifo).2
        victim inVictims
    exact inv.unlinked_of_removed (of_decide_eq_true removed)
  | drained | caseB | caseC | typeChanged | pointerMismatch | reinsert =>
    exact inv.sieveQuiet rfl rfl (.refl _) (by simp [SievePc.pins])
  | freeDrained pc =>
    refine inv.sieveQuiet rfl rfl (.deallocate ..) ?_
    intro pin mem
    exact pinsHold pin (by simp_all [SievePc.pins])
  | evictNone | evict => exact inv.sieveQuiet rfl rfl (.withVisited ..) (by simp [SievePc.pins])
  | caseA pc type =>
    refine inv.sieveQuiet rfl rfl (.refl _) ?_
    simp only [SievePc.pins, mem_singleton, forall_eq]
    exact inv.unlinked_of_removed type
  | lock pc free type =>
    refine inv.sieveQuiet rfl rfl (.refl _) ?_
    simp only [SievePc.pins, mem_singleton, forall_eq]
    exact .inl type
  | @unlink victim shard pc isHead =>
    rw [pc] at pinsHold
    have settled : (s.memory.typeOf victim).Settled := pinsHold _ (mem_singleton.mpr rfl)
    have head := (inv.shaped.head?_eq_table _).trans isHead
    have whole := inv.shaped.unlink_head isHead
    refine ⟨⟨_, inv.next (.sieve t)
      (whole ▸ inv.shaped.unlink (s.memory.heap victim).getKeySpan victim)
      (fun _ => pins_setSieve rfl)
      (fun _ _ pin _ holds => whole ▸ holds.unlink (.inr settled.not_placeholder))
      (fun pin mem => ?_) inv.apart⟩,
      fun other _ => .inl (typeOf_unlink ..)⟩
    simp only [State.pins, setSieve, update_self, SievePc.pins, mem_singleton] at mem
    subst mem
    exact ⟨inv.shaped.unlinked_of_unlink (mem_of_mem_head? head), settled⟩
  | @setRemoved victim shard pc =>
    rw [pc] at pinsHold
    obtain ⟨unlinked, settled⟩ := pinsHold _ (mem_singleton.mpr rfl)
    refine ⟨⟨chains, inv.next (.sieve t) (inv.shaped.setType_outside unlinked _)
      (fun _ => pins_setSieve rfl)
      (fun _ _ pin _ holds => holds.setRemoved settled)
      (fun pin mem => ?_) inv.apart⟩,
      .setType (RecordCacheType.Settled.moves_removed settled)⟩
    simp only [State.pins, setSieve, update_self, SievePc.pins, mem_singleton] at mem
    subst mem
    exact ⟨unlinked, by simp [TypeFact.Holds]⟩
  | freeCaseA | freeCaseB => exact inv.sieveQuiet rfl rfl (.deallocate ..) (by simp [SievePc.pins])

theorem rescueQuiet (same : s'.pins = ({ s with rescue := rescue }).pins)
    (promoters : s'.promoters = s.promoters) (sameShape : s.memory.SameShape s'.memory)
    (collected : ∀ e ∈ rescue.collected, e ∈ s.rescue.collected) : ShapeStep s s' none := by
  refine inv.keep .rescue (fun _ => pins_rescue same) promoters sameShape fun pin mem => ?_
  rw [same] at mem
  simp only [State.pins, RescuePc.pins, mem_map] at mem
  obtain ⟨e, inCollected, rfl⟩ := mem
  exact inv.pins .rescue _ (mem_map_of_mem (collected e inCollected))

theorem rescueCaller (same : s'.pins = ({ s.setPromoter t pc with rescue := rescue }).pins)
    (promoters : s'.promoters = update s.promoters t pc)
    (memory : s'.memory = s.memory) (collected : rescue.collected = [])
    (before : (s.promoters t).pins = []) (after : pc.pins = []) : ShapeStep s s' none := by
  have sameShape : s.memory.SameShape s'.memory := memory ▸ .refl _
  refine ⟨⟨chains, inv.quiet .rescue sameShape (fun other ne => ?_)
    (fun pin mem => ?_) (inv.apart_promoters promoters fun e owns => ?_)⟩,
    .sameShape sameShape⟩
  · rw [pins_rescue same ne]
    by_cases caller : other = .promoter t
    · simp [caller, State.pins, before, after]
    · exact pins_setPromoter rfl caller
  · rw [same] at mem
    simp [State.pins, RescuePc.pins, collected] at mem
  · obtain ⟨pin, mem, -⟩ := exists_pin owns
    simp [after] at mem

theorem rescueStep {a : RescueAction} (taken : RescueStep cfg s a s') : ShapeStep s s' none := by
  have pinsHold := inv.pins .rescue
  simp only [State.pins] at pinsHold
  cases taken with
  | begin idle pc => exact inv.rescueCaller rfl rfl rfl rfl (by rw [pc]; rfl) rfl
  | lockShard pc | unlockShard pc | nothingCollected pc | mark pc | readEpoch pc | advanceEpoch pc
  | blocked pc | poll pc | safe pc | nextCandidate pc =>
    exact inv.rescueQuiet rfl rfl (.refl _) (by simp [collected, pc])
  | @collect run shard key e chain pc shardOf walked mem inside swapped =>
    cases inv.shaped.unique walked
    have settled : (s.memory.typeOf e).Settled := by
      simp only [rescuable, Bool.or_eq_true, decide_eq_true_eq] at swapped
      rcases swapped with type | type
      · exact .inl type
      · exact .inr (.inl type)
    have settled' : ((s.memory.unlink key e (chains key)).1.typeOf e).Settled := settled
    have unlinked := inv.shaped.unlinked_of_unlink mem
    refine ⟨⟨_, inv.next .rescue ((inv.shaped.unlink key e).setType_outside unlinked _)
      (fun _ => pins_rescue rfl)
      (fun _ _ pin _ holds => (holds.unlink (.inr settled.not_placeholder)).setRemoved settled')
      (fun pin inPins => ?_) inv.apart⟩, .setType settled'.moves_removed⟩
    simp only [State.pins, RescuePc.pins, collected, map_append, mem_append, map_cons, map_nil,
      mem_singleton] at inPins
    rcases inPins with old | rfl
    · have holds := pinsHold pin (by rw [pc]; exact old)
      exact (holds.unlink (.inr settled.not_placeholder)).setRemoved settled'
    · exact ⟨unlinked, by simp [TypeFact.Holds]⟩
  | @timeout run epoch w pc =>
    refine ⟨⟨chains, inv.shaped, fun holder pin mem => ?_, inv.apart⟩, .sameShape (.refl _)⟩
    cases holder with
    | rescue => simp [State.pins, RescuePc.pins, collected] at mem
    | queue =>
      simp only [State.pins, map_append, mem_append, map_map, mem_map] at mem
      rcases mem with ⟨item, old, rfl⟩ | ⟨e, inCollected, rfl⟩
      · exact inv.pins .queue _ (mem_map_of_mem old)
      · have removed : Pin.Holds s.memory chains
            (.unlinked e .removed) :=
          pinsHold _ (mem_map_of_mem (by rw [pc]; exact inCollected))
        exact .inr removed.2
    | promoter t => exact inv.pins (.promoter t) pin mem
    | worker w => exact inv.pins (.worker w) pin mem
    | forward t => exact inv.pins (.forward t) pin mem
    | sieve t => exact inv.pins (.sieve t) pin mem
  | free => exact inv.rescueQuiet rfl rfl (.deallocate ..) (by simp_all [collected])
  | finish pc done caller => exact inv.rescueCaller rfl rfl rfl rfl (by rw [caller]; rfl) rfl

theorem pageStep {a : PageAction} (taken : PageStep cfg s a s') : ShapeStep s s' none := by
  cases taken <;> exact inv.sameThreads rfl rfl (.refl _)

end ShapeInv

def FreshBlocks (s : State) (a : Action) : Prop :=
  ∀ e, a.allocated? = some e → s.Unreferenced e

theorem ShapeInv.step {cfg : Config} {s s' : State} {a : Action}
    {chains : Bytes → List Addr} (inv : ShapeInv s chains) (fresh : FreshBlocks s a)
    (taken : RecordCache.step cfg s a = some s') : ShapeStep s s' a.allocated? := by
  cases step_cases taken with
  | worker stepped => exact inv.workerStep stepped
  | promote stepped => exact inv.promoteStep fresh stepped
  | forward stepped => exact inv.forwardStep stepped
  | sieve stepped => exact inv.sieveStep stepped
  | rescue stepped => exact inv.rescueStep stepped
  | page stepped => exact inv.pageStep stepped

theorem Initial.shapeInv {s : State} (initial : Initial s) : ShapeInv s fun _ => [] := by
  refine ⟨⟨fun key => ?_, by simp, by simp, by simp⟩, fun holder pin mem => ?_,
    fun t _ e owns => ?_⟩
  · simpa [ChainOf] using initial.table key
  · cases holder <;>
      simp [State.pins, initial.promoters, initial.workers, initial.forwards,
        initial.sieves, initial.rescue, initial.invalidationQueue, PromotePc.pins,
        WorkerPc.pins, ForwardState.pins, items, SievePc.pins,
        RescuePc.pins, collected] at mem
  · simp [initial.promoters, placeholder?] at owns

theorem shapeInv_of_reaches {cfg : Config} {allowed : State → Action → Prop}
    (fresh : ∀ s a, allowed s a → FreshBlocks s a) {s : State} (reached : Reaches cfg allowed s) :
    ∃ chains, ShapeInv s chains := by
  refine Reachable.invariant (fun s => ∃ chains, ShapeInv s chains)
    (fun s initial => ⟨_, initial.shapeInv⟩) ?_ reached
  rintro s a s' ⟨chains, inv⟩ permitted taken
  exact (inv.step (fresh s a permitted) taken).shape

end TieredStore.RecordCache
