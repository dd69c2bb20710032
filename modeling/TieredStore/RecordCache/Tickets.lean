import TieredStore.RecordCache.Frees
import TieredStore.RecordCache.Targets

namespace TieredStore.RecordCache

open Transition Ownership Function List ForwardState Memory PromotePc RescuePc State WorkerPc

inductive Retyped (s : State) (a : Action) (e : Addr) :
    RecordCacheType → Prop
  | publish {t} (owns : (s.promoters t).placeholder? = some e) :
    Retyped s a e .readOnlyMode
  | cancel {t} (owns : (s.promoters t).placeholder? = some e) :
    Retyped s a e .removedFromHashTableButWaitForPhysicalMemoryDeallocation
  | invalidate {w sect} (isCas : a = .worker w .casType)
    (pc : s.workers w = .busy sect (.loaded e)) (type : s.memory.typeOf e = .readOnlyMode) :
    Retyped s a e .logicallyDeletedButStillInHashTable
  | retire {t item} (isStore : a = .forward t .storeRemoved)
    (stage : (s.forwards t).stage = .removed item) (isEntry : item.entryPointer = e) :
    Retyped s a e .removedFromHashTableButWaitForPhysicalMemoryDeallocation
  | evict {t shard} (isSet : a = .sieve t .setRemoved) (pc : s.sieves t = .unlinked e shard) :
    Retyped s a e .removedFromHashTableButWaitForPhysicalMemoryDeallocation
  | collect {key chain} (isCollect : a = .rescue (.collect key e chain)) :
    Retyped s a e .removedFromHashTableButWaitForPhysicalMemoryDeallocation

theorem retyped_of_setType {memory : Memory} {s : State} {a : Action}
    {e changed : Addr} {type : RecordCacheType}
    (types : ∀ other, memory.typeOf other = s.memory.typeOf other)
    (retyped : Retyped s a changed type) :
    (memory.setType changed type).typeOf e = s.memory.typeOf e ∨
      Retyped s a e ((memory.setType changed type).typeOf e) := by
  rw [typeOf_setType]
  split
  · rename_i same
    exact .inr (same ▸ retyped)
  · exact .inl (types e)

theorem typeOf_of_step {cfg : Config} {s s' : State} {a : Action}
    {e : Addr} (taken : step cfg s a = some s') (old : a.allocated? ≠ some e) :
    s'.memory.typeOf e = s.memory.typeOf e ∨ Retyped s a e (s'.memory.typeOf e) := by
  cases step_cases taken with
  | worker stepped =>
    cases stepped with
    | selectNone | select => exact .inl ((SameShape.afterSearch ..).types e)
    | casType pc type => exact retyped_of_setType (fun _ => rfl) (.invalidate rfl pc type)
    | lookupHit => exact .inl ((SameShape.setVisited ..).types e)
    | _ => exact .inl rfl
  | promote stepped =>
    cases stepped with
    | allocate =>
      exact .inl (typeOf_allocateNewEntry _ _ _ _ _ fun same => old (congrArg some same.symm))
    | install => exact .inl (typeOf_install ..)
    | insertIntoFifo => exact .inl ((SameShape.setVisited ..).types e)
    | setRemoved pc | cancel pc =>
      exact retyped_of_setType (fun _ => rfl) (.cancel (by rw [pc]; rfl))
    | publish pc =>
      simp only [typeOf_publish]
      split
      · rename_i same
        exact .inr (.publish (by rw [pc, same]; rfl))
      · exact .inl rfl
    | _ => exact .inl rfl
  | forward stepped =>
    cases stepped with
    | storeRemoved stage => exact retyped_of_setType (fun _ => rfl) (.retire rfl stage rfl)
    | _ => exact .inl rfl
  | sieve stepped =>
    cases stepped with
    | setRemoved pc => exact retyped_of_setType (fun _ => rfl) (.evict rfl pc)
    | _ => exact .inl rfl
  | rescue stepped =>
    cases stepped with
    | collect => exact retyped_of_setType (fun _ => rfl) (.collect rfl)
    | _ => exact .inl rfl
  | page stepped => cases stepped <;> exact .inl rfl

structure State.Unowned (s : State) (e : Addr) : Prop where
  kept : ∀ keeper, e ∉ s.kept keeper
  collected : e ∉ s.rescue.collected

theorem RescuePc.mem_collected_of_takenOver {rescue : RescuePc} {e : Addr}
    (mem : e ∈ rescue.takenOver) : e ∈ rescue.collected := by
  cases rescue <;> simp_all [takenOver, collected]

theorem kept_of_step {cfg : Config} {s s' : State} {a : Action}
    {e : Addr} (taken : step cfg s a = some s') {keeper : Keeper} (mem : e ∈ s'.kept keeper) :
    (∃ keeper', e ∈ s.kept keeper') ∨ a.allocated? = some e ∨ e ∈ s.rescue.collected := by
  cases keeper with
  | promoter t =>
    simp only [kept] at mem
    rcases promoters_of_step taken t with ⟨_, rfl⟩ | same | ⟨req, ⟨-, after⟩ | ⟨-, after⟩⟩
    · cases promoteStep_cases taken with
      | allocate =>
        simp only [setPromoter, update_self, unqueued, mem_singleton] at mem
        exact .inr (.inl (congrArg some mem.symm))
      | _ =>
        left
        refine ⟨.promoter t, ?_⟩
        simp_all [kept, unqueued]
    · rw [same] at mem
      exact .inl ⟨.promoter t, mem⟩
    · simp [after, unqueued] at mem
    · simp [after, unqueued] at mem
  | fifo =>
    left
    rcases fifo_of_step taken mem with before | ⟨t, req, pc⟩ | ⟨t, inHand⟩
    · exact ⟨.fifo, before⟩
    · exact ⟨.promoter t, by simp [kept, pc, unqueued]⟩
    · exact ⟨.sieve t, inHand⟩
  | sieve t =>
    left
    rcases sieves_of_step taken mem with before | ⟨queued, -⟩
    · exact ⟨.sieve t, before⟩
    · exact ⟨.fifo, queued⟩
  | rescue =>
    simp only [kept] at mem
    rcases collected_of_step taken (mem_collected_of_takenOver mem) with
      before | ⟨key, chain, rfl, -⟩
    · exact .inr (.inr before)
    · -- a rescue that collects has not taken over yet
      simp only [step] at taken
      cases rescueStep_cases taken
      simp [takenOver] at mem

/-- The step keeps out of other threads' entries: a rescue collects only read-only
entries that stand in the SIEVE queue, SIEVE takes out none that a rescue has
collected, and it removes only a victim that no worker has selected. -/
structure KeepsApart (s : State) (a : Action) : Prop where
  collect : ∀ key e chain, a = .rescue (.collect key e chain) →
    s.memory.typeOf e = .readOnlyMode ∧ e ∈ s.sieveFifo.entries
  takeOut : a.TakesOut → ∀ e ∈ s.rescue.collected, e ∉ s.sieveFifo.entries
  evict : ∀ t victim shard, a = .sieve t .setRemoved → s.sieves t = .unlinked victim shard →
    s.memory.typeOf victim = .readOnlyMode ∧ ∀ w, (s.workers w).target? ≠ some victim

variable {cfg : Config} {s s' : State} {a : Action} {e entry : Addr} {pc : WorkerPc}

theorem State.Unowned.step (unowned : s.Unowned e) (apart : KeepsApart s a)
    (taken : RecordCache.step cfg s a = some s') (old : a.allocated? ≠ some e) : s'.Unowned e where
  kept keeper mem := by
    rcases kept_of_step taken mem with ⟨keeper', before⟩ | new | collected
    · exact unowned.kept keeper' before
    · exact old new
    · exact unowned.collected collected
  collected mem := by
    rcases collected_of_step taken mem with before | ⟨key, chain, isCollect, -⟩
    · exact unowned.collected before
    · exact unowned.kept .fifo (apart.collect key e chain isCollect).2

def WorkerPc.ticket : WorkerPc → List Addr
  | .busy _ (.invalidated target) => [target]
  | .busy _ (.queueing target _) => [target]
  | _ => []

inductive TicketHolder
  | worker (worker : Nat)
  | queue
  | forward (thread : Nat)
  deriving DecidableEq

def State.tickets (state : State) : TicketHolder → List Addr
  | .worker worker => (state.workers worker).ticket
  | .queue => state.invalidationQueue.map InvalidationEntry.entryPointer
  | .forward thread => (state.forwards thread).items.map InvalidationEntry.entryPointer

theorem WorkerPc.target?_of_mem_ticket (mem : e ∈ pc.ticket) : pc.target? = some e := by
  unfold ticket at mem
  split at mem <;> simp_all [target?]

theorem State.Unreferenced.not_ticketed (unreferenced : s.Unreferenced e)
    (holder : TicketHolder) : e ∉ s.tickets holder := by
  intro mem
  cases holder with
  | worker w => exact unreferenced.workers w (target?_of_mem_ticket mem)
  | queue =>
    obtain ⟨item, queued, isEntry⟩ := mem_map.mp mem
    exact unreferenced.queue item queued isEntry
  | forward t =>
    obtain ⟨item, inHand, isEntry⟩ := mem_map.mp mem
    exact unreferenced.forwards t item inHand isEntry

structure TicketInv (s : State) : Prop where
  linear : Linear s.tickets
  typed : ∀ holder, ∀ e ∈ s.tickets holder,
    s.memory.typeOf e = .logicallyDeletedButStillInHashTable ∨ (s.memory.typeOf e =
          .removedFromHashTableButWaitForPhysicalMemoryDeallocation ∧ s.Unowned e)

variable {holder : TicketHolder} {w t : Nat} {queue : List InvalidationEntry}
  {chains : Bytes → List Addr}

theorem ticket_of_step (taken : step cfg s a = some s') (mem : e ∈ s'.tickets holder) :
    (∃ holder', e ∈ s.tickets holder') ∨ (∃ w sect, a = .worker w .casType ∧
        s.workers w = .busy sect (.loaded e) ∧
        s'.memory.typeOf e = .logicallyDeletedButStillInHashTable) ∨
      (e ∈ s.rescue.collected ∧ a = .rescue .timeout) := by
  cases holder with
  | worker w =>
    rcases workers_of_step taken w with ⟨_, rfl, stepped⟩ | same
    · cases stepped with
      | casType pc =>
        simp only [tickets, setWorker, update_self, ticket, mem_singleton] at mem
        subst mem
        exact .inr (.inl ⟨w, _, rfl, pc, by simp⟩)
      | readEpoch pc =>
        simp only [tickets, setWorker, update_self, ticket] at mem
        exact .inl ⟨.worker w, by simp [tickets, pc, ticket, mem]⟩
      | startTX | touch | commitTX | abortTX | abortDone | lookupHit | lookupMiss =>
        exact .inl ⟨.worker w, mem⟩
      | _ => simp [tickets, ticket] at mem
    · simp only [tickets, same] at mem
      exact .inl ⟨.worker w, mem⟩
  | queue =>
    simp only [tickets, mem_map] at mem
    obtain ⟨item, queued, rfl⟩ := mem
    rcases queue_of_step taken queued with before | ⟨w, sect, _, pc⟩ | abandoned
    · exact .inl ⟨.queue, mem_map_of_mem before⟩
    · exact .inl ⟨.worker w, by simp [tickets, pc, ticket]⟩
    · exact .inr (.inr abandoned)
  | forward t =>
    simp only [tickets, mem_map] at mem
    obtain ⟨item, inHand, rfl⟩ := mem
    rcases forwards_of_step taken inHand with before | queued
    · exact .inl ⟨.forward t, mem_map_of_mem before⟩
    · exact .inl ⟨.queue, mem_map_of_mem queued⟩

namespace TicketInv

theorem doomed (inv : TicketInv s) (mem : e ∈ s.tickets holder) : (s.memory.typeOf e).Doomed := by
  rcases inv.typed holder e mem with type | ⟨type, -⟩ <;> simp [type]

theorem tickets_setWorker (same : s'.tickets =
      ({ s.setWorker w pc with invalidationQueue := queue }).tickets)
    (other : TicketHolder) (notWorker : other ≠ .worker w) (notQueue : other ≠ .queue) :
    s'.tickets other = s.tickets other := by
  rw [same]
  cases other with
  | worker => simp [tickets, mt (congrArg TicketHolder.worker) notWorker]
  | queue => exact absurd rfl notQueue
  | forward => rfl

theorem tickets_setForward {forward : ForwardState} (same : s'.tickets =
      ({ s.setForward t forward with invalidationQueue := queue }).tickets)
    (other : TicketHolder) (notThread : other ≠ .forward t) (notQueue : other ≠ .queue) :
    s'.tickets other = s.tickets other := by
  rw [same]
  cases other with
  | worker => rfl
  | queue => exact absurd rfl notQueue
  | forward => simp [tickets, mt (congrArg TicketHolder.forward) notThread]

theorem release (linear : Linear s.tickets) (holder : TicketHolder)
    (queue : s'.tickets .queue = s.tickets .queue)
    (fewer : (s'.tickets holder).Subperm (s.tickets holder))
    (others : ∀ other, other ≠ holder → other ≠ .queue →
      s'.tickets other = s.tickets other) : Linear s'.tickets := by
  refine linear.release holder fewer fun other notHolder => ?_
  by_cases isQueue : other = .queue
  · rw [isQueue, queue]
  · exact others other notHolder isQueue

theorem linear_worker (inv : TicketInv s) {own : WorkerAction}
    (taken : WorkerStep cfg s w own s') : Linear s'.tickets := by
  cases taken with
  | @casType sect target pc type =>
    refine inv.linear.acquire (.worker w) (nodup_singleton target) ?_ ?_ ?_
    · intro _ isTarget other mem
      rw [mem_singleton.mp isTarget] at mem
      have doomed := inv.doomed mem
      simp [type] at doomed
    · simp [tickets, ticket]
    · intro other notWorker
      by_cases isQueue : other = .queue
      · rw [isQueue]
        rfl
      · exact tickets_setWorker rfl other notWorker isQueue
  | @push sect target _ pc =>
    have ne : TicketHolder.worker w ≠ .queue := by simp
    refine inv.linear.move ne ?_ (tickets_setWorker rfl)
    simp only [tickets, setWorker, update_self, ticket, pc,
      map_append, nil_append]
    exact perm_append_comm.subperm
  | @write _ sect stage pc mayWrite =>
    refine release inv.linear (.worker w) rfl ?_ (tickets_setWorker rfl)
    cases stage <;>
      simp_all [tickets, ticket]
  | startTX | touch | commitTX | abortTX | abortDone | lookupHit | lookupMiss => exact inv.linear
  | _ =>
    refine release inv.linear (.worker w) rfl ?_ (tickets_setWorker rfl)
    simp_all [tickets, ticket]

theorem linear_forward (inv : TicketInv s) {own : ForwardAction}
    (taken : ForwardStep cfg s t own s') : Linear s'.tickets := by
  cases taken with
  | popAll stage =>
    have ne : TicketHolder.forward t ≠ .queue := by simp
    refine inv.linear.move ne ?_ (tickets_setForward rfl)
    simp only [tickets, setForward, update_self, items,
      stage, map_nil, append_nil, map_append, append_assoc]
    exact (perm_append_comm.append_left _).subperm
  | takeNext stage next =>
    refine release inv.linear (.forward t) rfl (subperm_map ?_ _) (tickets_setForward rfl)
    simp only [setForward, update_self, items, stage, next, append_nil]
    exact (perm_append_singleton _ _).subperm
  | storeRemoved stage | drop stage =>
    refine release inv.linear (.forward t) rfl (subperm_map ?_ _) (tickets_setForward rfl)
    simp only [setForward, update_self, items, append_nil]
    exact (sublist_append_left _ _).subperm
  | _ =>
    refine release inv.linear (.forward t) rfl (subperm_map ?_ _) (tickets_setForward rfl)
    simp_all [items, Subperm.refl]

theorem type_of_collected (shape : ShapeInv s chains) (collected : e ∈ s.rescue.collected) :
    s.memory.typeOf e = .removedFromHashTableButWaitForPhysicalMemoryDeallocation := by
  have pin := shape.pins .rescue (.unlinked e .removed)
    (by simpa [State.pins, RescuePc.pins] using collected)
  exact pin.2

theorem linear_rescue (inv : TicketInv s) (own : OwnInv cfg s)
    (shape : ShapeInv s chains) {own' : RescueAction}
    (taken : RescueStep cfg s own' s') : Linear s'.tickets := by
  cases taken with
  | @timeout run epoch w pc =>
    have distinct : run.collected.Nodup := by
      have nodup := own.linear.nodup .rescue
      rwa [kept, pc] at nodup
    apply inv.linear.acquire .queue distinct
    · intro e collected holder mem
      have removed := type_of_collected shape (by rw [pc]; exact collected)
      rcases inv.typed holder e mem with type | ⟨-, unowned⟩
      · simp [removed] at type
      · exact unowned.collected (by rw [pc]; exact collected)
    · simp only [tickets, map_append, map_map]
      have same : run.collected.map (InvalidationEntry.entryPointer ∘
          fun e => ⟨e, epoch⟩) = run.collected := by
        simp [comp_def]
      rw [same]
      exact perm_append_comm.subperm
    · intro other notQueue
      cases other with
      | queue => exact absurd rfl notQueue
      | _ => rfl
  | _ => exact inv.linear

theorem linear_step (inv : TicketInv s) (own : OwnInv cfg s) (shape : ShapeInv s chains)
    (taken : RecordCache.step cfg s a = some s') : Linear s'.tickets := by
  cases step_cases taken with
  | worker stepped => exact inv.linear_worker stepped
  | promote stepped | sieve stepped | page stepped => cases stepped <;> exact inv.linear
  | forward stepped => exact inv.linear_forward stepped
  | rescue stepped => exact inv.linear_rescue own shape stepped

theorem retired_unticketed (inv : TicketInv s) {item : InvalidationEntry}
    (stage : (s.forwards t).stage = .removed item)
    (taken : RecordCache.step cfg s (.forward t .storeRemoved) = some s')
    (holder : TicketHolder) : item.entryPointer ∉ s'.tickets holder := by
  intro mem
  have held : item.entryPointer ∈ s.tickets (.forward t) := by
    simp [tickets, items, stage]
  by_cases isThread : holder = .forward t
  · subst isThread
    have nodup := inv.linear.nodup (.forward t)
    simp only [step, forwardStep, stage, Option.some.injEq] at taken
    subst taken
    simp only [tickets, setForward, update_self, items,
      stage, append_nil, map_append]
      at mem nodup
    exact (nodup_append'.mp nodup).2.2 mem mem_cons_self
  · have before : item.entryPointer ∈ s.tickets holder := by
      simp only [step, forwardStep, stage, Option.some.injEq] at taken
      subst taken
      cases holder with
      | worker => exact mem
      | queue => exact mem
      | forward other =>
        have ne : other ≠ t := fun same => isThread (by rw [same])
        simpa [tickets, ne] using mem
    exact isThread (inv.linear.unique holder (.forward t) _ before held)

theorem unowned_of_timeout (own : OwnInv cfg s)
    (taken : RecordCache.step cfg s (.rescue .timeout) = some s')
    (collected : e ∈ s.rescue.collected) : s'.Unowned e := by
  simp only [step] at taken
  cases rescueStep_cases taken with
  | @timeout _ _ w pc =>
    rw [pc] at collected
    have kept : e ∈ s.kept .rescue := by rw [kept, pc]; exact collected
    refine ⟨fun keeper mem => ?_, by simp [RescuePc.collected]⟩
    cases keeper with
    | rescue => simp [State.kept, takenOver] at mem
    | promoter t => exact absurd (own.linear.unique (.promoter t) .rescue e mem kept) (by simp)
    | fifo => exact absurd (own.linear.unique .fifo .rescue e mem kept) (by simp)
    | sieve t => exact absurd (own.linear.unique (.sieve t) .rescue e mem kept) (by simp)

variable (taken : RecordCache.step cfg s a = some s')
include taken

theorem typed_step (inv : TicketInv s) (own : OwnInv cfg s) (shape : ShapeInv s chains)
    (fresh : FreshBlocks s a) (apart : KeepsApart s a) (mem : e ∈ s'.tickets holder) :
    s'.memory.typeOf e = .logicallyDeletedButStillInHashTable ∨ (s'.memory.typeOf e =
          .removedFromHashTableButWaitForPhysicalMemoryDeallocation ∧ s'.Unowned e) := by
  rcases ticket_of_step taken mem with ⟨holder', held⟩ | ⟨-, -, -, -, type⟩ | ⟨collected, rfl⟩
  · have doomed := inv.doomed held
    have old : a.allocated? ≠ some e := fun new => (fresh e new).not_ticketed holder' held
    rcases typeOf_of_step taken old with same | retyped
    · rcases inv.typed holder' e held with type | ⟨type, unowned⟩
      · exact .inl (same.trans type)
      · exact .inr ⟨same.trans type, unowned.step apart taken old⟩
    · generalize s'.memory.typeOf e = type' at retyped
      cases retyped with
      | publish owns | cancel owns =>
        simp [shape.type_of_promoter owns] at doomed
      | invalidate _ pc type => simp [type] at doomed
      | retire isStore stage isEntry =>
        subst isStore isEntry
        exact absurd mem (inv.retired_unticketed stage taken holder)
      | evict isSet pc => simp [(apart.evict _ _ _ isSet pc).1] at doomed
      | collect isCollect =>
        simp [(apart.collect _ _ _ isCollect).1] at doomed
  · exact .inl type
  · have removed := type_of_collected shape collected
    have unowned := unowned_of_timeout own taken collected
    simp only [step] at taken
    cases rescueStep_cases taken with
    | timeout => exact .inr ⟨removed, unowned⟩

theorem step (inv : TicketInv s) (own : OwnInv cfg s) (shape : ShapeInv s chains)
    (fresh : FreshBlocks s a) (apart : KeepsApart s a) : TicketInv s' where
  linear := inv.linear_step own shape taken
  typed _ _ mem := inv.typed_step taken own shape fresh apart mem

end TicketInv

theorem Initial.ticketInv (initial : Initial s) : TicketInv s := by
  have nothing : ∀ holder, s.tickets holder = [] := by
    intro holder
    cases holder <;>
      simp [tickets, initial.workers, initial.invalidationQueue, initial.forwards, ticket, items]
  refine ⟨?_, fun holder e mem => ?_⟩
  · rw [show s.tickets = fun _ => [] from funext nothing]
    exact .nothing
  · simp [nothing holder] at mem

end TieredStore.RecordCache
