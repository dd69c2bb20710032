import TieredStore.RecordCache.Dangling
import TieredStore.RecordCache.EntryCount

namespace TieredStore.RecordCache

open Transition Ownership Function List Memory RescuePc

variable {cfg : Config} {s s' : State} {a action : Action} {e entry : Addr}
  {chains : Bytes → List Addr} {t thread : Nat} {count counting pending : UInt64}

def SievePc.countedOff? : SievePc → Option Addr
  | .draining (victim :: _) => some victim
  | .freeing victim true => some victim
  | _ => none

def State.countedOff? (state : State) : Action → Option Addr
  | .sieve thread .freeDrained => (state.sieves thread).countedOff?
  | .sieve thread .free => (state.sieves thread).countedOff?
  | _ => none

/-- The promote threads, to the left, and forward-epoch threads that have stored the type and
not yet counted it. -/
def State.Counting (s : State) : Nat ⊕ Nat → Prop
  | .inl t => s.promoters t = .counting
  | .inr t => (s.forwards t).stage = .counting

/-- The threads keep out of each other's entries, and SIEVE subtracts only while every
stored type has been counted. -/
structure CountsFirst (cfg : Config) (s : State) (a : Action) : Prop where
  apart : KeepsApart s a
  whole : RescuesWholeSlab cfg s a
  counted : s.countedOff? a ≠ none → ∀ token, ¬ s.Counting token
  pointers : s.countedOff? a ≠ none → ∀ e, s.memory.allocated e = true → 0 < e ∧ e < 2 ^ 64

def Memory.Dead (memory : Memory) (e : Addr) : Prop :=
  memory.allocated e = true ∧
    memory.typeOf e = .removedFromHashTableButWaitForPhysicalMemoryDeallocation

def Pending (s : State) (e : Addr) : Prop :=
  s.memory.Dead e ∧ e ∉ s.rescue.collected ∧ ∀ t, s.sieves t ≠ .freeing e false

def PendingInv (s : State) : Prop :=
  ∃ pending counting, Tally (Pending s) pending ∧ Tally s.Counting counting ∧
    s.pendingStateInvalidatedFromHash + counting = pending

namespace Memory

variable {memory memory' : Memory} {other : Addr}

theorem dead_congr (types : ∀ e, memory'.typeOf e = memory.typeOf e)
    (blocks : memory'.allocated = memory.allocated) (e : Addr) :
    memory'.Dead e ↔ memory.Dead e := by
  rw [Dead, Dead, types, blocks]

theorem dead_setType {type : RecordCacheType} (ne : other ≠ e) :
    (memory.setType e type).Dead other ↔ memory.Dead other := by
  rw [Dead, typeOf_setType, if_neg ne]
  rfl

theorem dead_deallocate : (memory.deallocate e).Dead other ↔ other ≠ e ∧ memory.Dead other := by
  by_cases same : other = e <;> simp [Dead, deallocate, typeOf, same]

end Memory

namespace RefInv

theorem type_of_removed (inv : RefInv cfg s chains) (covered : Covered s)
    {item : InvalidationEntry} (stage : (s.forwards t).stage = .removed item) :
    s.References item.entryPointer ∧
      s.memory.typeOf item.entryPointer = .logicallyDeletedButStillInHashTable := by
  have mem : item ∈ (s.forwards t).items := by
    simp [ForwardState.items, stage]
  have references : s.References item.entryPointer := .retryQueue t item mem rfl
  refine ⟨references, ?_⟩
  rcases inv.tickets.typed (.forward t) _ (mem_map_of_mem mem) with type | ⟨-, unowned⟩
  · exact type
  · obtain ⟨keeper, kept⟩ := covered _ (inv.allocated references)
    exact absurd kept (unowned.kept keeper)

theorem pending_of_countedOff (inv : RefInv cfg s chains)
    (counted : (s.sieves t).countedOff? = some e) : Pending s e := by
  obtain ⟨inHand, pinned, ne⟩ : e ∈ (s.sieves t).entries ∧
      .unlinked e .removed ∈ (s.sieves t).pins ∧
      s.sieves t ≠ .freeing e false := by
    unfold SievePc.countedOff? at counted
    split at counted <;> simp_all [SievePc.entries, SievePc.pins]
  refine ⟨⟨inv.own.allocated (.sieve t) e inHand,
    (inv.cache.shape.pins (.sieve t) _ pinned).2⟩, inv.apart.sieves t e inHand,
    fun other pc => ?_⟩
  have mem : e ∈ s.kept (.sieve other) := by simp [State.kept, pc, SievePc.entries]
  cases inv.own.linear.unique _ (.sieve t) e mem inHand
  exact ne pc

end RefInv

namespace PendingInv

theorem sum_store (sum : count + counting = pending) : count + (counting + 1) = pending + 1 := by
  rw [← sum, add_assoc]

theorem sum_count (sum : count + counting = pending) : count + 1 + (counting - 1) = pending := by
  grind

theorem pending_stored (ref : RefInv cfg s chains)
    (references : s.References e) (live : ¬ s.memory.Dead e)
    {memory : Memory} (stored : s'.memory = memory.setType e
      .removedFromHashTableButWaitForPhysicalMemoryDeallocation)
    (dead : memory.Dead = s.memory.Dead) (blocks : memory.allocated = s.memory.allocated)
    (rescue : s'.rescue = s.rescue) (sieves : s'.sieves = s.sieves) (other : Addr) :
    Pending s' other ↔ other = e ∨ Pending s other := by
  have isAllocated := ref.allocated references
  rw [Pending, Pending, rescue, sieves, stored]
  by_cases same : other = e
  · subst same
    simp only [true_or, iff_true]
    refine ⟨⟨blocks ▸ isAllocated, by simp⟩, fun collected => live ⟨isAllocated, ?_⟩,
      fun t pc => live ⟨isAllocated, ?_⟩⟩
    · exact TicketInv.type_of_collected ref.cache.shape collected
    · exact (ref.cache.shape.pins (.sieve t) (.unlinked other .removed)
        (by simp [State.pins, pc, SievePc.pins])).2
  · rw [dead_setType same, dead]
    simp [same]

variable (inv : PendingInv s)
include inv

section

variable (ref : RefInv cfg s chains)
include ref

theorem promoteStep {own : PromoteAction} (taken : PromoteStep cfg s t own s') : PendingInv s' := by
  obtain ⟨_, _, isPending, isCounting, sum⟩ := inv
  have live {e : Addr} (owns : (s.promoters t).placeholder? = some e) :
      ¬ s.memory.Dead e := by
    simp [Dead, ref.cache.shape.type_of_promoter owns]
  have counting (pc : PromotePc) (token : Nat ⊕ Nat) : (s.setPromoter t pc).Counting token ↔
      if token = .inl t then pc = .counting else s.Counting token := by
    cases token with
    | inl other => by_cases same : other = t <;> simp [State.Counting, same]
    | inr => simp [State.Counting]
  have steady {pc : PromotePc} (before : s.promoters t ≠ .counting)
      (after : pc ≠ .counting) (token : Nat ⊕ Nat) :
      (s.setPromoter t pc).Counting token ↔ s.Counting token := by
    rw [counting]
    split <;> simp_all [State.Counting]
  cases taken with
  | @setRemoved req e pc | @cancel req e data chain pc =>
    have owns : (s.promoters t).placeholder? = some e := by rw [pc]; rfl
    have idle : ¬ s.Counting (.inl t) := by simp [State.Counting, pc]
    refine ⟨_, _, isPending.add (fun old => live owns old.1)
      (pending_stored ref (.promotion t owns) (live owns) rfl rfl rfl rfl rfl),
      isCounting.add idle fun token => ?_, sum_store sum⟩
    refine (counting .counting token).trans ?_
    split <;> simp_all
  | increment pc =>
    have stored : s.Counting (.inl t) := pc
    refine ⟨_, _, isPending, isCounting.drop stored fun token => ?_, sum_count sum⟩
    refine (counting .idle token).trans ?_
    split <;> simp_all
  | @allocate req new pc available =>
    refine ⟨_, _, isPending.congr fun e => and_congr_left fun _ => ?_,
      isCounting.congr (steady (by simp [pc]) (by simp)), sum⟩
    by_cases isNew : e = new
    · simp [isNew, Dead, available]
    · rw [Dead, typeOf_allocateNewEntry _ _ _ _ _ isNew]
      simp [Dead, allocateNewEntry, isNew]
  | @freePreallocated req old pc =>
    refine ⟨_, _, isPending.congr fun e => and_congr_left fun _ => ?_,
      isCounting.congr (steady (by simp [pc]) (by simp)), sum⟩
    rw [dead_deallocate, and_iff_right_of_imp]
    rintro dead rfl
    exact live (by rw [pc]; rfl) dead
  | @publish req e data chain pc =>
    refine ⟨_, _, isPending.congr fun other => and_congr_left fun _ => ?_,
      isCounting.congr (steady (by simp [pc]) (by simp)), sum⟩
    by_cases same : other = e
    · rw [same, iff_false_right (live (by rw [pc]; rfl))]
      simp [Dead]
    · rw [Dead, typeOf_publish, if_neg same]
      rfl
  | install pc =>
    exact ⟨_, _, isPending.congr fun other => and_congr_left fun _ =>
      dead_congr (fun _ => typeOf_install ..) rfl other,
      isCounting.congr (steady (by simp [pc]) (by simp)), sum⟩
  | insertIntoFifo pc =>
    exact ⟨_, _, isPending.congr fun other => and_congr_left fun _ =>
      dead_congr (SameShape.setVisited ..).types rfl other,
      isCounting.congr (steady (by simp [pc]) (by simp)), sum⟩
  | _ => exact ⟨_, _, isPending, isCounting.congr (steady (by simp [*]) (by simp)), sum⟩

theorem forwardStep {own : ForwardAction} (covered : Covered s)
    (taken : ForwardStep cfg s t own s') : PendingInv s' := by
  obtain ⟨_, _, isPending, isCounting, sum⟩ := inv
  have counting (forward : ForwardState) (token : Nat ⊕ Nat) :
      (s.setForward t forward).Counting token ↔
        if token = .inr t then forward.stage = .counting else s.Counting token := by
    cases token with
    | inl => simp [State.Counting]
    | inr other => by_cases same : other = t <;> simp [State.Counting, same]
  cases taken with
  | @storeRemoved item stage =>
    obtain ⟨references, type⟩ := ref.type_of_removed covered stage
    have live : ¬ s.memory.Dead item.entryPointer := by simp [Dead, type]
    have idle : ¬ s.Counting (.inr t) := by simp [State.Counting, stage]
    refine ⟨_, _, isPending.add (fun old => live old.1)
      (pending_stored ref references live rfl rfl rfl rfl rfl),
      isCounting.add idle fun token => ?_, sum_store sum⟩
    refine (counting _ token).trans ?_
    split <;> simp_all
  | increment stage =>
    have stored : s.Counting (.inr t) := stage
    refine ⟨_, _, isPending, isCounting.drop stored fun token => ?_, sum_count sum⟩
    refine (counting _ token).trans ?_
    split <;> simp_all
  | _ =>
    refine ⟨_, _, isPending, isCounting.congr fun token => ?_, sum⟩
    refine (counting _ token).trans ?_
    split <;> simp_all [State.Counting]

theorem sieveStep {own : SieveAction} (apart : KeepsApart s (.sieve t own))
    (taken : SieveStep cfg s t own s') : PendingInv s' := by
  obtain ⟨_, _, isPending, isCounting, sum⟩ := inv
  have counted (pc : SievePc) (e : Addr) :
      (∀ other, (s.setSieve t pc).sieves other ≠ .freeing e false) ↔
        pc ≠ .freeing e false ∧
          ∀ other, other ≠ t → s.sieves other ≠ .freeing e false :=
    forall_update_iff s.sieves fun _ pc => pc ≠ .freeing e false
  have before {pc : SievePc} (isPc : s.sieves t = pc) (e : Addr) :
      (∀ other, s.sieves other ≠ .freeing e false) ↔ pc ≠ .freeing e false ∧
        ∀ other, other ≠ t → s.sieves other ≠ .freeing e false := by
    rw [← counted, ← isPc, State.setSieve, update_eq_self]
  cases taken with
  | @setRemoved victim shard pc =>
    have type := (apart.evict t victim shard rfl pc).1
    refine ⟨_, _, isPending.congr fun e => ?_, isCounting, sum⟩
    by_cases same : e = victim
    · refine iff_of_false (fun pending => ?_) fun pending => ?_
      · exact pending.2.2 t (by simp [same])
      · simpa [same, type] using pending.1.2
    · refine and_congr (dead_setType same) (and_congr_right' ((counted _ e).trans ?_))
      rw [before pc]
      simp [Ne.symm same]
  | @freeDrained victim _ pc | @freeCaseA victim pc =>
    have old : Pending s victim := ref.pending_of_countedOff (by rw [pc]; rfl)
    refine ⟨_, _, isPending.drop old fun e => ?_, isCounting, by grind⟩
    refine Iff.trans (and_congr dead_deallocate (and_congr_right' ((counted _ e).trans ?_)))
      and_assoc
    rw [before pc]
    simp
  | @freeCaseB victim pc =>
    refine ⟨_, _, isPending.congr fun e => ?_, isCounting, sum⟩
    by_cases same : e = victim
    · refine iff_of_false (fun pending => ?_) fun pending => pending.2.2 t (same ▸ pc)
      exact (dead_deallocate.mp pending.1).1 same
    · refine and_congr (dead_deallocate.trans (and_iff_right same))
        (and_congr_right' ((counted _ e).trans ?_))
      rw [before pc]
      simp [Ne.symm same]
  | _ =>
    refine ⟨_, _, isPending.congr fun e => ?_, isCounting, sum⟩
    refine and_congr_right' (and_congr_right' ((counted _ e).trans ?_))
    refine trans ?_ (before (by assumption) e).symm
    simp

end

theorem rescueStep {own : RescueAction} (allowed : CountsFirst cfg s (.rescue own))
    (taken : RescueStep cfg s own s') : PendingInv s' := by
  obtain ⟨_, _, isPending, isCounting, sum⟩ := inv
  cases taken with
  | @collect run shard key e chain pc =>
    have type := (allowed.apart.collect key e chain rfl).1
    refine ⟨_, _, isPending.congr fun other => ?_, isCounting, sum⟩
    rw [Pending, Pending, pc]
    by_cases same : other = e
    · simp [same, Dead, type, collected]
    · rw [dead_setType same]
      simp only [collected, mem_append, mem_singleton, same, or_false]
      exact Iff.rfl
  | @free run e rest pc next =>
    refine ⟨_, _, isPending.congr fun other => ?_, isCounting, sum⟩
    rw [Pending, Pending, dead_deallocate, pc]
    by_cases same : other = e <;> simp [same, collected, next]
  | timeout => exact allowed.whole.elim
  | begin | finish =>
    refine ⟨_, _, isPending.congr fun e => ?_, isCounting.congr fun token => ?_, sum⟩
    · simp_all [Pending, collected]
    · cases token with
      | inl =>
        simp only [State.Counting, State.setPromoter, update_apply]
        split <;> simp_all
      | inr => exact Iff.rfl
  | _ =>
    refine ⟨_, _, isPending.congr fun e => ?_, isCounting, sum⟩
    simp_all [Pending, collected]

theorem step (ref : RefInv cfg s chains) (covered : Covered s) (allowed : CountsFirst cfg s a)
    (taken : RecordCache.step cfg s a = some s') : PendingInv s' := by
  cases step_cases taken with
  | worker stepped =>
    obtain ⟨_, _, isPending, isCounting, sum⟩ := inv
    cases stepped with
    | selectNone | select =>
      exact ⟨_, _, isPending.congr fun e => and_congr_left fun _ => dead_congr
        (SameShape.afterSearch ..).types (allocated_afterSearch ..) e,
        isCounting, sum⟩
    | lookupHit =>
      exact ⟨_, _, isPending.congr fun e => and_congr_left fun _ =>
        dead_congr (SameShape.setVisited ..).types rfl e, isCounting, sum⟩
    | @casType _ target pc type =>
      refine ⟨_, _, isPending.congr fun e => and_congr_left fun _ => ?_, isCounting, sum⟩
      by_cases same : e = target
      · simp [same, Dead, type]
      · exact dead_setType same
    | _ => exact ⟨_, _, isPending, isCounting, sum⟩
  | promote stepped => exact inv.promoteStep ref stepped
  | forward stepped => exact inv.forwardStep ref covered stepped
  | sieve stepped => exact inv.sieveStep ref allowed.apart stepped
  | rescue stepped => exact inv.rescueStep allowed stepped
  | page stepped => cases stepped <;> exact inv

end PendingInv

theorem pendingInv_of_reaches (reached : Reaches cfg (CountsFirst cfg) s) :
    (∃ chains, RefInv cfg s chains) ∧ Covered s ∧ PendingInv s := by
  apply reached.invariant fun s => (∃ chains, RefInv cfg s chains) ∧ Covered s ∧ PendingInv s
  · intro s initial
    have free {e : Addr} : s.memory.allocated e ≠ true := by
      simp [initial.allocated e]
    refine ⟨⟨_, initial.refInv⟩, fun e allocated => absurd allocated free, 0, 0,
      .empty fun e pending => free pending.1.1, .empty fun token => ?_, ?_⟩
    · cases token <;> simp [State.Counting, initial.promoters, initial.forwards]
    · rw [initial.pendingStateInvalidatedFromHash]
      rfl
  · rintro s a s' ⟨⟨chains, ref⟩, covered, pending⟩ allowed taken
    obtain ⟨_, _, _, handover, lost⟩ :=
      handover_of_step ref.own.withinSlab allowed.whole.stillQueued taken
    cases lost allowed.whole
    exact ⟨ref.step taken allowed.apart, handover.covered covered,
      pending.step ref covered allowed taken⟩

/--
In every run whose threads keep out of each other's entries, and whose SIEVE threads subtract
only when every stored type has been counted, no step subtracts from 0, and the counter is the
number of removed entries in the SIEVE queue whenever no thread is inside a promotion, a
forward-epoch pass, an eviction or a rescue.
-/
theorem pending_count_exact (config : Config) {state : State}
    (reached : Reaches config (CountsFirst config) state) :
    (∀ action, CountsFirst config state action → state.countedOff? action ≠ none →
      state.pendingStateInvalidatedFromHash ≠ 0) ∧
    (NoneInside state → (∀ thread, (state.forwards thread).stage = .resting) →
      state.pendingStateInvalidatedFromHash = UInt64.ofNat
        (state.sieveFifo.entries.filter (isRemovedType state.memory)).length) := by
  obtain ⟨⟨chains, ref⟩, covered, pending, counting, isPending, isCounting, sum⟩ :=
    pendingInv_of_reaches reached
  have settled (none : ∀ token, ¬ state.Counting token) :
      state.pendingStateInvalidatedFromHash = pending := by
    have zero := isCounting.eq_length nodup_nil (by simpa using none)
    rw [← sum, zero]
    simp
  constructor
  · intro action allowed subtracts
    rw [settled (allowed.counted subtracts)]
    obtain ⟨entry, counted⟩ := Option.ne_none_iff_exists'.mp subtracts
    obtain ⟨thread, counted⟩ : ∃ thread, (state.sieves thread).countedOff? = some entry := by
      unfold State.countedOff? at counted
      split at counted
      · exact ⟨_, counted⟩
      · exact ⟨_, counted⟩
      · contradiction
    exact isPending.ne_zero (ref.pending_of_countedOff counted) fun other old =>
      allowed.pointers subtracts other old.1.1
  · intro none resting
    rw [settled fun token => by cases token <;> simp [State.Counting, none.promoters, resting]]
    refine isPending.eq_length ((ref.own.linear.nodup .fifo).filter _) fun entry => ?_
    simp only [mem_filter, isRemovedType, decide_eq_true_eq]
    constructor
    · rintro ⟨queued, removed⟩
      refine ⟨⟨ref.own.allocated .fifo entry queued, removed⟩, ?_, ?_⟩ <;>
        simp [none.rescue, none.sieves, collected]
    · rintro ⟨⟨allocated, removed⟩, -⟩
      obtain ⟨keeper, kept⟩ := covered entry allocated
      have between := betweenEntries_of_idle none.promoters none.sieves resting none.rescue
      cases between.keeper_eq_fifo kept
      exact ⟨kept, removed⟩

def failedPromotion : List Action :=
  (promotion 0 3).take 9 ++ [.page (.cool 0), .promote 0 .recheck, .promote 0 (.unlinkFailed [3]),
    .promote 0 .setRemoved]

theorem pending_count_exact_failed : ∃ state,
    run (step Config.small) State.small (failedPromotion ++ [.promote 0 .increment]) = some state ∧
      state.sieveFifo.entries.filter (isRemovedType state.memory) = [3] ∧
      state.pendingStateInvalidatedFromHash = 1 := by
  obtain ⟨state, ran, outside, resting, removed⟩ : ∃ state,
      run (step Config.small) State.small (failedPromotion ++ [.promote 0 .increment]) =
          some state ∧ NoneInside state ∧ (∀ thread, (state.forwards thread).stage = .resting) ∧
        state.sieveFifo.entries.filter (isRemovedType state.memory) = [3] := by
    refine ⟨_, rfl, ⟨?_, fun _ => rfl, rfl⟩, fun _ => rfl, by decide⟩
    rintro (_ | thread) <;> rfl
  have reached : Reaches Config.small (CountsFirst Config.small) state := by
    refine (Reachable.start initial_small).run_of_forall (fun action member state => ?_) ran
    obtain ⟨quiet, whole, none⟩ : action.quiet = true ∧
        RescuesWholeSlab Config.small state action ∧ state.countedOff? action = none := by
      revert action
      simp [failedPromotion, promotion, Action.quiet, RescuesWholeSlab, State.countedOff?]
    exact ⟨.of_quiet quiet, whole, absurd none, absurd none⟩
  have exactCount := (pending_count_exact Config.small reached).2 outside resting
  rw [removed] at exactCount
  exact ⟨state, ran, removed, exactCount⟩

/-- SIEVE frees an entry between the store of its type and the count of it, and a rescue takes
a counted entry out of the queue. -/
theorem pending_count_wraps_and_drifts :
    (∃ state state', Reaches Config.small FreshBlocks state ∧
      step Config.small state (.sieve 0 .free) = some state' ∧
      state.pendingStateInvalidatedFromHash = 0 ∧
      state'.pendingStateInvalidatedFromHash = UInt64.ofNat (2 ^ 64 - 1)) ∧
    ∃ state, Reaches Config.small FreshBlocks state ∧ NoneInside state ∧
      (∀ thread, (state.forwards thread).stage = .resting) ∧
      state.sieveFifo.entries.filter (isRemovedType state.memory) = [] ∧
      state.pendingStateInvalidatedFromHash = 1 := by
  constructor
  · obtain ⟨state, state', ran, wraps⟩ : ∃ state state', run (step Config.small) State.small
        (failedPromotion ++ [.sieve 0 (.evict fun _ => true), .sieve 0 .loadType]) = some state ∧
        step Config.small state (.sieve 0 .free) = some state' ∧
        state.pendingStateInvalidatedFromHash = 0 ∧
        state'.pendingStateInvalidatedFromHash = UInt64.ofNat (2 ^ 64 - 1) :=
      ⟨_, _, rfl, rfl, by decide, by decide⟩
    exact ⟨state, state', reaches_of_run_fresh initial_small (by decide) ran, wraps⟩
  · obtain ⟨state, ran, drifts⟩ : ∃ state,
        run (step Config.small) State.small rescueBesideRemoved = some state ∧
          NoneInside state ∧ (∀ thread, (state.forwards thread).stage = .resting) ∧
          state.sieveFifo.entries.filter (isRemovedType state.memory) = [] ∧
          state.pendingStateInvalidatedFromHash = 1 := by
      refine ⟨_, rfl, ⟨?_, fun _ => rfl, rfl⟩, fun _ => rfl, by decide, by decide⟩
      rintro (_ | _ | thread) <;> rfl
    exact ⟨state, reaches_of_run_fresh initial_small (by decide) ran, drifts⟩

end TieredStore.RecordCache
