import TieredStore.RecordCache.Epochs
import TieredStore.RecordCache.Tickets

namespace TieredStore.RecordCache

open Transition Ownership Function List Memory PromotePc RescuePc State WorkerPc

variable {cfg : Config} {s s' : State} {a action : Action}
  {chains : Bytes → List Addr} {e entry : Addr} {t thread : Nat} {pc : WorkerPc} {w worker : Nat}

theorem fifo_kept (taken : step cfg s a = some s')
    (stays : ¬ a.TakesOut) (notMark : a ≠ .rescue .mark)
    (mem : e ∈ s.sieveFifo.entries) : e ∈ s'.sieveFifo.entries := by
  cases step_cases taken with
  | worker stepped | forward stepped | page stepped => cases stepped <;> exact mem
  | promote stepped =>
    cases stepped with
    | insertIntoFifo =>
      simp only [SieveFIFOQueue.entries_pushBack, mem_append]
      exact .inl mem
    | _ => exact mem
  | sieve stepped =>
    cases stepped with
    | drain | evictNone | evict => exact absurd trivial stays
    | reinsert =>
      simp only [SieveFIFOQueue.entries_pushBack, mem_append]
      exact .inl mem
    | _ => exact mem
  | rescue stepped =>
    cases stepped with
    | mark => exact absurd rfl notMark
    | _ => exact mem

def RescuePc.StillQueued (fifo : List Addr) : RescuePc → Prop
  | .scanning run _ _ => run.collected.Nodup ∧ run.collected ⊆ fifo
  | _ => True

structure ApartInv (s : State) : Prop where
  sieves : ∀ t, ∀ e ∈ (s.sieves t).entries, e ∉ s.rescue.collected
  queued : s.rescue.StillQueued s.sieveFifo.entries

namespace ApartInv

variable (inv : ApartInv s)
include inv

theorem collectedStillQueued (a : Action) : CollectedStillQueued s a := by
  unfold CollectedStillQueued
  split
  · intro _ _ _ pc
    have queued := inv.queued
    rw [pc] at queued
    exact subperm_of_subset queued.1 queued.2
  · trivial

variable (taken : RecordCache.step cfg s a = some s')
  (apart : KeepsApart s a)
include taken apart

theorem sieves_step (own : OwnInv cfg s) (inHand : e ∈ (s'.sieves t).entries) :
    e ∉ s'.rescue.collected := by
  intro collected
  rcases sieves_of_step taken inHand with before | ⟨queued, takesOut⟩
  · rcases collected_of_step taken collected with old | ⟨key, chain, isCollect, -⟩
    · exact inv.sieves t e before old
    · have queued := (apart.collect key e chain isCollect).2
      exact absurd (own.linear.unique (.sieve t) .fifo e before queued) (by simp)
  · rcases collected_of_step taken collected with old | ⟨key, chain, isCollect, -⟩
    · exact apart.takeOut takesOut e old queued
    · rw [isCollect] at takesOut
      exact takesOut

theorem queued_step (shape : ShapeInv s chains) : s'.rescue.StillQueued s'.sieveFifo.entries := by
  have queued := inv.queued
  rcases rescue_of_step taken with ⟨_, rfl, stepped⟩ | same
  · cases stepped with
    | begin => exact ⟨nodup_nil, by simp⟩
    | lockShard pc | unlockShard pc =>
      rw [pc] at queued
      exact queued
    | @collect run _ key e chain pc _ walked mem =>
      rw [pc] at queued
      have inFifo := (apart.collect key e chain rfl).2
      have new : e ∉ run.collected := by
        intro old
        have pin := shape.pins .rescue (.unlinked e .removed)
          (by simpa [State.pins, RescuePc.pins, pc, collected] using old)
        rw [shape.shaped.unique walked] at mem
        exact pin.1 key mem
      refine ⟨?_, ?_⟩
      · exact nodup_append'.mpr ⟨queued.1, nodup_singleton e, disjoint_singleton.mpr new⟩
      · exact append_subset.mpr ⟨queued.2, by simpa using inFifo⟩
    | nextCandidate pc done => simp [StillQueued, done]
    | _ => trivial
  · rw [same]
    cases pc : s.rescue with
    | scanning =>
      rw [pc] at queued
      refine ⟨queued.1, fun e collected => ?_⟩
      apply fifo_kept taken
      · intro takesOut
        exact apart.takeOut takesOut e (by rw [pc]; exact collected) (queued.2 collected)
      · rintro rfl
        simp only [step] at taken
        cases rescueStep_cases taken <;> simp_all
      · exact queued.2 collected
    | _ => trivial

theorem step (own : OwnInv cfg s) (shape : ShapeInv s chains) : ApartInv s' where
  sieves _ _ inHand := inv.sieves_step taken apart own inHand
  queued := inv.queued_step taken apart shape

end ApartInv

theorem Initial.apartInv (initial : Initial s) : ApartInv s where
  sieves t e inHand := by simp [initial.sieves, SievePc.entries] at inHand
  queued := by
    rw [initial.rescue]
    trivial

def WorkerPc.chosen? : WorkerPc → Option Addr
  | .busy _ (.selected target) => some target
  | .busy _ (.loaded target) => some target
  | _ => none

theorem WorkerPc.target?_of_chosen (chosen : pc.chosen? = some e) : pc.target? = some e := by
  unfold chosen? at chosen
  split at chosen <;> simp_all [target?]

theorem WorkerPc.chosen_or_ticket (target : pc.target? = some e) :
    pc.chosen? = some e ∨ e ∈ pc.ticket := by
  unfold target? at target
  split at target <;> simp_all [chosen?, ticket]

theorem chosen_of_step (shape : ShapeInv s chains) (taken : step cfg s a = some s')
    (chosen : (s'.workers w).chosen? = some e) : ((s.workers w).chosen? = some e ∧
        a ≠ .worker w .casType) ∨ (s.memory.typeOf e = .readOnlyMode ∧
        (∃ key, s.memory.Linked key e) ∧ a = .worker w .select) := by
  obtain ⟨_, _, busy⟩ := busy_of_target (target?_of_chosen chosen)
  rcases target_of_step shape taken busy (target?_of_chosen chosen) with
    ⟨stage₀, busy₀, before⟩ | ⟨linked, type, -, isSelect⟩
  · left
    rcases workers_of_step taken w with ⟨_, rfl, stepped⟩ | same
    · clear busy busy₀ taken
      cases stepped <;>
        simp_all [chosen?, target?]
    · refine ⟨by rw [← same]; exact chosen, ?_⟩
      rintro rfl
      simp only [step] at taken
      split at taken
      · cases workerStep_cases taken <;>
          simp_all [chosen?]
      · simp at taken
  · exact .inr ⟨type, ⟨_, linked⟩, isSelect⟩

/-- A chosen entry is read-only until a rescue collects it, and is not freed
while it is chosen. -/
def ChosenInv (s : State) : Prop :=
  ∀ w e, (s.workers w).chosen? = some e →
    s.memory.typeOf e = .readOnlyMode ∨
      (s.memory.typeOf e =
          .removedFromHashTableButWaitForPhysicalMemoryDeallocation ∧
        (e ∈ s.rescue.collected ∨ s.Unowned e))

theorem collected_left (taken : step cfg s a = some s') (collected : e ∈ s.rescue.collected) :
    e ∈ s'.rescue.collected ∨ a = .rescue .timeout ∨ ∃ run, s.rescue = .freeing run := by
  rcases rescue_of_step taken with ⟨_, rfl, stepped⟩ | same
  · cases stepped with
    | collect pc =>
      rw [pc] at collected
      exact .inl (mem_append_left _ collected)
    | timeout => exact .inr (.inl rfl)
    | free pc | nextCandidate pc | finish pc => exact .inr (.inr ⟨_, pc⟩)
    | begin idle =>
      rw [idle] at collected
      contradiction
    | _ =>
      left
      simp_all [RescuePc.collected]
  · rw [same]
    exact .inl collected

theorem mem_collected_of_collect {key : Bytes} {chain : List Addr}
    (taken : step cfg s (.rescue (.collect key e chain)) = some s') : e ∈ s'.rescue.collected := by
  simp only [step] at taken
  cases rescueStep_cases taken with
  | collect => exact mem_append_right _ mem_cons_self

namespace ChosenInv

theorem type_of_select (taken : RecordCache.step cfg s (.worker w .select) = some s') :
    s'.memory.typeOf e = s.memory.typeOf e := by
  simp only [step] at taken
  split at taken
  · cases workerStep_cases taken <;> exact (SameShape.afterSearch ..).types e
  · simp at taken

theorem step (inv : ChosenInv s) (shape : ShapeInv s chains)
    (keys : KeyInv cfg s) (leaf : LeafInv s) (own : OwnInv cfg s)
    (epochs : EpochInv cfg s) (tickets : TicketInv s)
    (fresh : FreshBlocks s a) (apart : KeepsApart s a)
    (taken : RecordCache.step cfg s a = some s') : ChosenInv s' := by
  intro w e chosen
  rcases chosen_of_step shape taken chosen with ⟨before, notCas⟩ | ⟨type, -, rfl⟩
  · have target := target?_of_chosen before
    have old : a.allocated? ≠ some e := fun new => (fresh e new).workers w target
    rcases typeOf_of_step taken old with same | retyped
    · rw [same]
      refine (inv w e before).imp_right fun ⟨removed, free⟩ => ⟨removed, ?_⟩
      rcases free with collected | unowned
      · rcases collected_left taken collected with still | rfl | ⟨_, pc⟩
        · exact .inl still
        · exact .inr (TicketInv.unowned_of_timeout own taken collected)
        · have waits := epochs.waits
          rw [pc] at waits collected
          exact absurd collected (waits w e target)
      · exact .inr (unowned.step apart taken old)
    · have settled := inv w e before
      generalize s'.memory.typeOf e = type' at retyped ⊢
      cases retyped with
      | publish => exact .inl rfl
      | cancel owns => simp [shape.type_of_promoter owns] at settled
      | invalidate isCas pc =>
        have same := keys.target_unique leaf target (by rw [pc]; rfl)
        rw [← same] at isCas
        exact absurd isCas notCas
      | @retire t _ _ stage isEntry =>
        have ticket : e ∈ s.tickets (.forward t) := by
          simp [State.tickets, ForwardState.items, stage, isEntry]
        rcases tickets.typed _ _ ticket with deleted | ⟨-, unowned⟩
        · simp [deleted] at settled
        · exact .inr ⟨rfl, .inr (unowned.step apart taken old)⟩
      | evict isSet pc => exact absurd target ((apart.evict _ _ _ isSet pc).2 w)
      | collect isCollect =>
        rw [isCollect] at taken
        exact .inr ⟨rfl, .inl (mem_collected_of_collect taken)⟩
  · exact .inl ((type_of_select taken).trans type)

end ChosenInv

theorem eq_of_returned {memory : Memory} {other : Addr} (before : memory.allocated e = true)
    (after : (memory.deallocate other).allocated e = false) : other = e := by
  by_contra ne
  simp [deallocate, update_of_ne (symm ne), before] at after

theorem freed_of_returned (taken : step cfg s a = some s') (before : s.memory.allocated e = true)
    (after : s'.memory.allocated e = false) : s.freed? a = some e := by
  cases step_cases taken with
  | worker stepped =>
    cases stepped with
    | selectNone | select => simp [allocated_afterSearch, before] at after
    | _ => exact absurd (before.symm.trans after) (by simp)
  | promote stepped =>
    cases stepped with
    | allocate =>
      simp only [allocateNewEntry, update_apply] at after
      split at after <;> simp_all
    | freePreallocated pc =>
      simp only [freed?, pc]
      exact congrArg some (eq_of_returned before after)
    | _ => exact absurd (before.symm.trans after) (by simp)
  | forward stepped | page stepped =>
    cases stepped <;> exact absurd (before.symm.trans after) (by simp)
  | sieve stepped =>
    cases stepped with
    | freeDrained pc | freeCaseA pc | freeCaseB pc =>
      simp only [freed?, pc]
      exact congrArg some (eq_of_returned before after)
    | _ => exact absurd (before.symm.trans after) (by simp)
  | rescue stepped =>
    cases stepped with
    | free pc next =>
      simp only [freed?, pc, next]
      exact congrArg some (eq_of_returned before after)
    | _ => exact absurd (before.symm.trans after) (by simp)

inductive FreedBy (s : State) (e : Addr) : Action → Prop
  | promoter {t req} (pc : s.promoters t = .notConsumed req e) :
    FreedBy s e (.promote t .freePreallocated)
  | sieve {t own} (isFree : own = .freeDrained ∨ own = .free) (inHand : e ∈ (s.sieves t).entries)
    (pinned : .unlinked e .removed ∈ (s.sieves t).pins) :
    FreedBy s e (.sieve t own)
  | rescue {run} (pc : s.rescue = .freeing run)
    (collected : e ∈ run.collected) : FreedBy s e (.rescue .free)

theorem freedBy_of_freed (freed : s.freed? a = some e) : FreedBy s e a := by
  unfold freed? at freed
  split at freed
  · split at freed
    · rename_i pc
      cases freed
      exact .promoter pc
    · simp at freed
  · split at freed
    · rename_i pc
      have mem := mem_of_mem_head? freed
      exact .sieve (.inl rfl) (by simpa [pc, SievePc.entries] using mem)
        (by simpa [pc, SievePc.pins] using mem)
    · simp at freed
  · split at freed
    · rename_i pc
      cases freed
      exact .sieve (.inr rfl) (by simp [pc, SievePc.entries]) (by simp [pc, SievePc.pins])
    · simp at freed
  · split at freed
    · rename_i pc
      exact .rescue pc (mem_of_mem_head? freed)
    · simp at freed
  · simp at freed

theorem FreedBy.unlinked (freed : FreedBy s e a) (shape : ShapeInv s chains) :
    (∀ key, ¬ s.memory.Linked key e) ∧ (s.memory.typeOf e =
          .removedFromHashTableButWaitForPhysicalMemoryDeallocation ∨
        ∃ t req, s.promoters t = .notConsumed req e) := by
  have notLinked (outside : ∀ key, e ∉ chains key) (key : Bytes) :
      ¬ s.memory.Linked key e := by
    intro ⟨_, walked, mem⟩
    rw [shape.shaped.unique walked] at mem
    exact outside key mem
  cases freed with
  | @promoter t req pc =>
    have pin := shape.pins (.promoter t) (.unlinked e .placeholder)
      (by simp [State.pins, pc, PromotePc.pins])
    exact ⟨notLinked pin.1, .inr ⟨t, req, pc⟩⟩
  | @sieve t _ _ _ pinned =>
    have pin := shape.pins (.sieve t) _ pinned
    exact ⟨notLinked pin.1, .inl pin.2⟩
  | rescue pc collected =>
    have pin := shape.pins .rescue (.unlinked e .removed)
      (by simpa [State.pins, RescuePc.pins, pc, RescuePc.collected] using collected)
    exact ⟨notLinked pin.1, .inl pin.2⟩

structure RefInv (cfg : Config) (s : State) (chains : Bytes → List Addr) : Prop where
  cache : CacheInv cfg s chains
  keys : KeyInv cfg s
  own : OwnInv cfg s
  epochs : EpochInv cfg s
  tickets : TicketInv s
  apart : ApartInv s
  chosen : ChosenInv s
  unreferenced : ∀ e, s.memory.allocated e = false → s.Unreferenced e

namespace RefInv

variable (inv : RefInv cfg s chains)
include inv

theorem freshBlocks (taken : RecordCache.step cfg s a = some s') : FreshBlocks s a := by
  intro e new
  apply inv.unreferenced
  cases a with
  | promote =>
    cases promoteStep_cases taken with
    | allocate pc available =>
      cases new
      exact available
    | _ => cases new
  | _ => cases new

theorem freed_not_ticketed (freed : s.freed? a = some e) (holder : TicketHolder) :
    e ∉ s.tickets holder := by
  intro mem
  obtain ⟨keeper, kept⟩ := kept_of_freed freed
  rcases inv.tickets.typed holder e mem with deleted | ⟨-, unowned⟩
  · rcases ((freedBy_of_freed freed).unlinked inv.cache.shape).2 with removed | ⟨t, _, pc⟩
    · simp [removed] at deleted
    · have owns : (s.promoters t).placeholder? = some e := by rw [pc]; rfl
      simp [inv.cache.shape.type_of_promoter owns] at deleted
  · exact unowned.kept keeper kept

theorem freed_collected (freed : FreedBy s e a) (collected : e ∈ s.rescue.collected) :
    ∃ run, s.rescue = .freeing run := by
  cases freed with
  | @promoter t _ pc =>
    have owns : (s.promoters t).placeholder? = some e := by rw [pc]; rfl
    have placeholder := inv.cache.shape.type_of_promoter owns
    simp [TicketInv.type_of_collected inv.cache.shape collected] at placeholder
  | @sieve t _ _ inHand => exact absurd collected (inv.apart.sieves t e inHand)
  | rescue pc => exact ⟨_, pc⟩

theorem freed_not_targeted (freed : s.freed? a = some e) (w : Nat) :
    (s.workers w).target? ≠ some e := by
  intro target
  obtain ⟨keeper, kept⟩ := kept_of_freed freed
  have freedBy := freedBy_of_freed freed
  rcases chosen_or_ticket target with chosen | ticket
  · rcases inv.chosen w e chosen with readOnly | ⟨-, collected | unowned⟩
    · rcases (freedBy.unlinked inv.cache.shape).2 with removed | ⟨t, _, pc⟩
      · simp [removed] at readOnly
      · have owns : (s.promoters t).placeholder? = some e := by rw [pc]; rfl
        simp [inv.cache.shape.type_of_promoter owns] at readOnly
    · obtain ⟨_, pc⟩ := inv.freed_collected freedBy collected
      have waits := inv.epochs.waits
      rw [pc] at waits collected
      exact waits w e target collected
    · exact unowned.kept keeper kept
  · exact inv.freed_not_ticketed freed (.worker w) ticket

theorem freed_placeholder (freed : FreedBy s e a) (owns : (s.promoters t).placeholder? = some e) :
    a = .promote t .freePreallocated ∧ ∃ req, s.promoters t = .notConsumed req e := by
  have placeholder := inv.cache.shape.type_of_promoter owns
  cases freed with
  | @promoter t' req pc =>
    have same := inv.cache.shape.apart t t' e owns (by rw [pc]; rfl)
    subst same
    exact ⟨rfl, req, pc⟩
  | @sieve t' _ _ _ pinned =>
    have pin := inv.cache.shape.pins (.sieve t') _ pinned
    exact absurd (placeholder.symm.trans pin.2) (by simp)
  | rescue pc collected =>
    have removed := TicketInv.type_of_collected inv.cache.shape (by rw [pc]; exact collected)
    exact absurd (placeholder.symm.trans removed) (by simp)

variable (taken : RecordCache.step cfg s a = some s')
include taken

theorem freed_not_collected (own' : OwnInv cfg s')
    (freed : s.freed? a = some e) : e ∉ s'.rescue.collected := by
  intro collected
  have returned := returned_of_freed taken freed
  rcases collected_of_step taken collected with before | ⟨_, _, rfl, -⟩
  · cases freedBy_of_freed freed with
    | @promoter t _ pc =>
      have owns : (s.promoters t).placeholder? = some e := by rw [pc]; rfl
      have placeholder := inv.cache.shape.type_of_promoter owns
      simp [TicketInv.type_of_collected inv.cache.shape before] at placeholder
    | @sieve t _ _ inHand => exact inv.apart.sieves t e inHand before
    | rescue pc =>
      simp only [step] at taken
      cases rescueStep_cases taken with
      | free =>
        have kept := own'.allocated .rescue e collected
        exact absurd (kept.symm.trans returned) (by simp)
  · cases freed

theorem freed_unreferenced (own' : OwnInv cfg s')
    (freed : s.freed? a = some e) : s'.Unreferenced e := by
  have freedBy := freedBy_of_freed freed
  have returned := returned_of_freed taken freed
  have notKept (keeper : Keeper) : e ∉ s'.kept keeper := by
    intro mem
    exact absurd ((own'.allocated keeper e mem).symm.trans returned) (by simp)
  have notTicketed (holder : TicketHolder) : e ∉ s'.tickets holder := by
    intro mem
    rcases ticket_of_step taken mem with ⟨holder', before⟩ | ⟨w, sect, rfl, -⟩ | ⟨-, rfl⟩
    · exact inv.freed_not_ticketed freed holder' before
    · cases freedBy
    · cases freedBy
  refine ⟨?_, notKept .fifo, ?_, ?_, ?_, ?_, fun t => notKept (.sieve t),
    inv.freed_not_collected taken own' freed⟩
  · intro key linked
    rcases (inv.cache.shape.cacheStep (inv.freshBlocks taken) taken).linked key e linked
      with before | ⟨t, req, pc, -⟩
    · exact (freedBy.unlinked inv.cache.shape).1 key before
    · have owns : (s.promoters t).placeholder? = some e := by rw [pc]; rfl
      obtain ⟨-, _, pc'⟩ := inv.freed_placeholder freedBy owns
      rw [pc] at pc'
      contradiction
  · intro item queued isEntry
    exact notTicketed .queue (mem_map.mpr ⟨item, queued, isEntry⟩)
  · intro t item inHand isEntry
    exact notTicketed (.forward t) (mem_map.mpr ⟨item, inHand, isEntry⟩)
  · intro t owns
    rcases placeholder_of_step taken owns with before | new
    · obtain ⟨rfl, req, pc⟩ := inv.freed_placeholder freedBy before
      simp only [step] at taken
      cases promoteStep_cases taken with
      | freePreallocated => simp [placeholder?] at owns
    · cases freedBy <;> cases new
  · intro w target
    obtain ⟨sect, _, busy⟩ := busy_of_target target
    rcases target_of_step inv.cache.shape taken busy target with ⟨_, -, before⟩ | ⟨linked, -⟩
    · exact inv.freed_not_targeted freed w before
    · exact (freedBy.unlinked inv.cache.shape).1 _ linked

theorem unreferenced_step (own' : OwnInv cfg s')
    (free : s'.memory.allocated e = false) : s'.Unreferenced e := by
  cases before : s.memory.allocated e with
  | true => exact inv.freed_unreferenced taken own' (freed_of_returned taken before free)
  | false =>
    refine (inv.unreferenced e before).step inv.cache.shape (inv.freshBlocks taken)
      taken fun new => ?_
    cases a with
    | promote =>
      cases promoteStep_cases taken with
      | allocate =>
        cases new
        simp [allocateNewEntry] at free
      | _ => cases new
    | _ => cases new

theorem step (apart : KeepsApart s a) : ∃ chains', RefInv cfg s' chains' := by
  have fresh := inv.freshBlocks taken
  have own' := inv.own.step (inv.apart.collectedStillQueued a) taken
  have shape := inv.cache.shape
  obtain ⟨chains', cache'⟩ := inv.cache.step fresh taken
  exact ⟨chains',
    { cache := cache'
      keys := inv.keys.step inv.cache fresh taken
      own := own'
      epochs := inv.epochs.step shape taken
      tickets := inv.tickets.step taken inv.own shape fresh apart
      apart := inv.apart.step taken apart inv.own shape
      chosen := inv.chosen.step shape inv.keys inv.cache.leaf inv.own inv.epochs
        inv.tickets fresh apart taken
      unreferenced := fun _ free => inv.unreferenced_step taken own' free }⟩

end RefInv

theorem Initial.refInv (initial : Initial s) : RefInv cfg s fun _ => [] where
  cache := initial.cacheInv
  keys := initial.keyInv
  own := initial.ownInv
  epochs := initial.epochInv
  tickets := initial.ticketInv
  apart := initial.apartInv
  chosen w e chosen := by
    rw [initial.workers] at chosen
    contradiction
  unreferenced e _ := initial.unreferenced e

theorem refInv_of_reaches (reached : Reaches cfg KeepsApart s) : ∃ chains, RefInv cfg s chains :=
  reached.invariant (fun s => ∃ chains, RefInv cfg s chains)
    (fun _ initial => ⟨_, initial.refInv⟩)
    fun _ _ _ ⟨_, inv⟩ apart taken => inv.step taken apart

/-- The places that hold raw pointers to entries across the steps of other
threads. -/
inductive State.References (s : State) (e : Addr) : Prop
  | hashChain (key : Bytes) (linked : s.memory.Linked key e)
  | sieveFifo (member : e ∈ s.sieveFifo.entries)
  | invalidationQueue (item : InvalidationEntry) (member : item ∈ s.invalidationQueue)
    (isEntry : item.entryPointer = e)
  | retryQueue (t : Nat) (item : InvalidationEntry)
    (member : item ∈ (s.forwards t).items) (isEntry : item.entryPointer = e)
  | promotion (t : Nat) (owns : (s.promoters t).placeholder? = some e)
  | updater (w : Nat) (target : (s.workers w).target? = some e)

theorem State.Unreferenced.not_references (unreferenced : s.Unreferenced e) : ¬ s.References e := by
  intro references
  cases references with
  | hashChain key linked => exact unreferenced.chains key linked
  | sieveFifo mem => exact unreferenced.sieveFifo mem
  | invalidationQueue item mem isEntry => exact unreferenced.queue item mem isEntry
  | retryQueue t item mem isEntry => exact unreferenced.forwards t item mem isEntry
  | promotion t owns => exact unreferenced.promoters t owns
  | updater w target => exact unreferenced.workers w target

theorem RefInv.allocated (inv : RefInv cfg s chains) (references : s.References e) :
    s.memory.allocated e = true := by
  cases isAllocated : s.memory.allocated e with
  | true => rfl
  | false => exact absurd references (inv.unreferenced e isAllocated).not_references

def evictHead : List Action :=
  [.sieve 0 .loadType, .sieve 0 .lock, .sieve 0 .unlink]

/-- SIEVE frees the entry that an update has selected, and a rescue frees an entry
whose ticket is still in the queue. -/
theorem freed_entries_still_referenced :
    (∃ state, Reaches Config.small FreshBlocks state ∧
      (state.workers 0).target? = some 3 ∧ state.memory.allocated 3 = false) ∧
    ∃ state, Reaches Config.small FreshBlocks state ∧
      ⟨3, 0⟩ ∈ state.invalidationQueue ∧ state.memory.allocated 3 = false := by
  constructor
  · obtain ⟨state, ran, target, freed⟩ : ∃ state,
        run (step Config.small) small (promotion 0 3 ++ selectTarget ++
          .sieve 0 (.evict fun _ => true) :: evictHead ++
            [.sieve 0 .setRemoved, .sieve 0 .free]) = some state ∧
        (state.workers 0).target? = some 3 ∧ state.memory.allocated 3 = false :=
      ⟨_, rfl, by decide, by decide⟩
    exact ⟨state, reaches_of_run_fresh initial_small (by decide) ran, target, freed⟩
  · obtain ⟨state, ran, queued, freed⟩ : ∃ state,
        run (step Config.small) small (promotion 0 3 ++ selectTarget ++ finishUpdate ++
          [.page (.promoteRecordCacheEntry 0 0), .promote 1 .dequeue, .rescue (.begin 1 0),
            .rescue .lockShard, .rescue (.collect [1] 3 [3]), .rescue .unlockShard,
            .rescue .mark] ++ rescueWaits ++ [.rescue .free]) = some state ∧
        ⟨3, 0⟩ ∈ state.invalidationQueue ∧ state.memory.allocated 3 = false :=
      ⟨_, rfl, by decide, by decide⟩
    exact ⟨state, reaches_of_run_fresh initial_small (by decide) ran, queued, freed⟩

/--
Along every interleaving in which rescue, SIEVE and updates keep out of each
other's entries, each raw pointer refers to a block that is still allocated.
-/
theorem references_are_allocated (config : Config) {state : State}
    (reached : Reaches config KeepsApart state) {entry : Addr}
    (references : state.References entry) : state.memory.allocated entry = true := by
  obtain ⟨chains, inv⟩ := refInv_of_reaches reached
  exact inv.allocated references

def Action.quiet : Action → Bool
  | .rescue (.collect ..) => false
  | .sieve _ .drain => false
  | .sieve _ (.evict _) => false
  | .sieve _ .setRemoved => false
  | _ => true

theorem KeepsApart.of_quiet (quiet : a.quiet = true) : KeepsApart s a where
  collect key e chain isCollect := by
    rw [isCollect] at quiet
    contradiction
  takeOut takesOut := by
    unfold Action.TakesOut at takesOut
    split at takesOut <;> contradiction
  evict t victim shard isSet := by
    rw [isSet] at quiet
    contradiction

theorem references_are_allocated_evicted :
    ∃ state, Reaches Config.small KeepsApart state ∧ state.memory.allocated 3 = false ∧
      state.memory.Linked [1] 4 ∧ state.memory.allocated 4 = true := by
  obtain ⟨promoted, popped, unlinked, removed, state, ran, pops, unlinks, removes, goesOn,
      collected, workers, type, pc, freed, walked⟩ :
      ∃ promoted popped unlinked removed state,
        run (step Config.small) small (promotion 0 3) = some promoted ∧
        step Config.small promoted (.sieve 0 (.evict fun _ => true)) = some popped ∧
        run (step Config.small) popped evictHead = some unlinked ∧
        step Config.small unlinked (.sieve 0 .setRemoved) = some removed ∧
        run (step Config.small) removed (.sieve 0 .free :: promotion 0 4) = some state ∧
        promoted.rescue.collected = [] ∧ (∀ worker, unlinked.workers worker = .idle) ∧
        unlinked.memory.typeOf 3 = .readOnlyMode ∧ unlinked.sieves 0 = .unlinked 3 0 ∧
        state.memory.allocated 3 = false ∧ state.memory.ChainOf [1] [4] :=
    ⟨_, _, _, _, _, rfl, rfl, rfl, rfl, rfl, rfl, fun _ => rfl, by decide, by decide,
      by decide, by decide⟩
  have quietly {first last : State} {actions : List Action}
      (reached : Reaches Config.small KeepsApart first)
      (quiet : ∀ action ∈ actions, action.quiet = true)
      (ran : run (step Config.small) first actions = some last) :
      Reaches Config.small KeepsApart last :=
    reached.run_of_forall (fun action member _ => .of_quiet (quiet action member)) ran
  have mayPop : KeepsApart promoted (.sieve 0 (.evict fun _ => true)) :=
    ⟨by simp, by simp [collected], by simp⟩
  have mayRemove : KeepsApart unlinked (.sieve 0 .setRemoved) := by
    refine ⟨by simp, by simp [Action.TakesOut], fun thread victim shard isSet pc' => ?_⟩
    cases isSet
    rw [pc] at pc'
    cases pc'
    exact ⟨type, by simp [workers, target?]⟩
  have reached : Reaches Config.small KeepsApart state := by
    refine quietly (.next (quietly (.next (quietly (.start initial_small) ?_ ran) mayPop pops)
      ?_ unlinks) mayRemove removes) ?_ goesOn <;> decide
  exact ⟨state, reached, freed, ⟨[4], walked, by simp⟩,
    references_are_allocated Config.small reached (.hashChain [1] ⟨[4], walked, by simp⟩)⟩

end TieredStore.RecordCache
