import TieredStore.RecordCache.Chains
import TieredStore.RecordCache.System

namespace TieredStore.RecordCache

open Function List Memory PromotePc WorkerPc

inductive TypeFact
  | placeholder
  | settled
  | doomed
  | removed
  deriving DecidableEq, Repr

def TypeFact.Holds : TypeFact → RecordCacheType → Prop
  | .placeholder, type => type = .promoteThreadHoldingThePosition
  | .settled, type => type.Settled
  | .doomed, type => type.Doomed
  | .removed, type =>
    type = .removedFromHashTableButWaitForPhysicalMemoryDeallocation

inductive Pin
  | headOf (key : Bytes) (entry : Addr)
  | unlinked (entry : Addr) (fact : TypeFact)
  | anywhere (entry : Addr) (fact : TypeFact)
  deriving DecidableEq, Repr

namespace Pin

def entry : Pin → Addr
  | headOf _ entry => entry
  | unlinked entry _ => entry
  | anywhere entry _ => entry

def Holds (memory : Memory) (chains : Bytes → List Addr) : Pin → Prop
  | headOf key e =>
    (chains key).head? = some e ∧ memory.typeOf e = .promoteThreadHoldingThePosition
  | unlinked e fact =>
    (∀ key, e ∉ chains key) ∧ fact.Holds (memory.typeOf e)
  | anywhere e fact => fact.Holds (memory.typeOf e)

def OnPlaceholder : Pin → Prop
  | headOf _ _ => True
  | unlinked _ fact => fact = .placeholder
  | anywhere _ fact => fact = .placeholder

variable {memory memory' : Memory} {chains : Bytes → List Addr} {pin : Pin}
  {entry : Addr} {key : Bytes}

section

variable (holds : pin.Holds memory chains)
include holds

theorem Holds.sameShape (same : memory.SameShape memory') : pin.Holds memory' chains := by
  cases pin with
  | headOf _ entry => exact ⟨holds.1, (same.types entry).trans holds.2⟩
  | unlinked entry => exact ⟨holds.1, (same.types entry).symm ▸ holds.2⟩
  | anywhere entry fact =>
    show fact.Holds (memory'.typeOf entry)
    rw [same.types entry]
    exact holds

theorem Holds.elsewhere (ne : pin.entry ≠ entry)
    (types : ∀ other, other ≠ entry → memory'.typeOf other = memory.typeOf other) :
    pin.Holds memory' chains := by
  cases pin with
  | headOf _ pinned => exact ⟨holds.1, (types pinned ne).trans holds.2⟩
  | unlinked pinned => exact ⟨holds.1, (types pinned ne).symm ▸ holds.2⟩
  | anywhere pinned fact =>
    show fact.Holds (memory'.typeOf pinned)
    rw [types pinned ne]
    exact holds

theorem Holds.install (shaped : Shaped memory chains) (ne : pin.entry ≠ entry)
    (allowed : headAllowsInstall memory key = true) : pin.Holds (memory.install key entry)
      (update chains key (entry :: chains key)) := by
  cases pin with
  | headOf key' =>
    refine ⟨?_, by rw [typeOf_install]; exact holds.2⟩
    by_cases same : key' = key
    · -- a placeholder at the head would have refused the install
      subst same
      have atHead := shaped.head?_eq_table key' ▸ holds.1
      simp [headAllowsInstall, atHead, holds.2] at allowed
    · rw [update_of_ne same]
      exact holds.1
  | unlinked =>
    refine ⟨fun key' mem => ?_, by rw [typeOf_install]; exact holds.2⟩
    by_cases same : key' = key
    · subst same
      rw [update_self] at mem
      rcases mem_cons.mp mem with h | h
      · exact ne h
      · exact holds.1 key' h
    · rw [update_of_ne same] at mem
      exact holds.1 key' mem
  | anywhere pinned fact =>
    show fact.Holds ((memory.install key entry).typeOf pinned)
    rw [typeOf_install]
    exact holds

end

theorem head?_erase_of_ne {cells : List Addr} {first other : Addr}
    (isHead : cells.head? = some first) (ne : first ≠ other) :
    (cells.erase other).head? = some first := by
  cases cells with
  | nil => simp at isHead
  | cons =>
    simp only [head?_cons, Option.some.injEq] at isHead
    subst isHead
    rw [erase_cons_tail (by simpa using ne)]
    rfl

variable (holds : pin.Holds memory chains)
include holds

theorem Holds.unlink
    (other : pin.entry ≠ entry ∨ memory.typeOf entry ≠ .promoteThreadHoldingThePosition) :
    pin.Holds (memory.unlink key entry (chains key)).1
      (update chains key ((chains key).erase entry)) := by
  cases pin with
  | headOf key' pinned =>
    refine ⟨?_, holds.2⟩
    have ne : pinned ≠ entry := by
      rintro rfl
      rcases other with h | h
      · exact h rfl
      · exact h holds.2
    by_cases same : key' = key
    · subst same
      rw [update_self]
      exact head?_erase_of_ne holds.1 ne
    · rw [update_of_ne same]
      exact holds.1
  | unlinked => exact ⟨fun key' mem => holds.1 key' (Shaped.mem_erase_of_unlink mem), holds.2⟩
  | anywhere => exact holds

theorem Holds.setType {type : RecordCacheType} (settled : (memory.typeOf entry).Settled)
    (facts : ∀ fact : TypeFact, fact.Holds (memory.typeOf entry) → fact.Holds type) :
    pin.Holds (memory.setType entry type) chains := by
  by_cases same : pin.entry = entry
  · subst same
    cases pin with
    | headOf => exact absurd holds.2 settled.not_placeholder
    | unlinked pinned fact => exact ⟨holds.1, by simpa [entry] using facts fact holds.2⟩
    | anywhere pinned fact => simpa [Holds, entry] using facts fact holds
  · exact holds.elsewhere same fun other ne => by simp [ne]

theorem Holds.setRemoved (settled : (memory.typeOf entry).Settled) : pin.Holds (memory.setType entry
      .removedFromHashTableButWaitForPhysicalMemoryDeallocation) chains := by
  apply holds.setType settled
  intro fact _
  cases fact <;> simp_all [TypeFact.Holds, RecordCacheType.Settled]

theorem Holds.invalidate (readOnly : memory.typeOf entry = .readOnlyMode) :
    pin.Holds (memory.setType entry .logicallyDeletedButStillInHashTable) chains := by
  apply holds.setType (.inl readOnly)
  intro fact _
  cases fact <;> simp_all [TypeFact.Holds, RecordCacheType.Settled]

theorem Holds.onPlaceholder (type : memory.typeOf pin.entry = .promoteThreadHoldingThePosition) :
    pin.OnPlaceholder := by
  cases pin with
  | headOf => trivial
  | unlinked pinned fact =>
    have fact' := holds.2
    cases fact <;>
      simp_all [TypeFact.Holds, entry, OnPlaceholder, RecordCacheType.Settled]
  | anywhere pinned fact =>
    cases fact <;>
      simp_all [Holds, TypeFact.Holds, entry, OnPlaceholder,
        RecordCacheType.Settled]

end Pin

namespace PromotePc

def placeholder? : PromotePc → Option Addr
  | .idle => none
  | .counting => none
  | .allocating _ => none
  | .rescuing _ => none
  | .preallocated _ entry => some entry
  | .notConsumed _ entry => some entry
  | .installed _ entry => some entry
  | .reading _ entry _ => some entry
  | .readFailed _ entry => some entry
  | .unlinked _ entry => some entry
  | .validated _ entry _ => some entry
  | .deciding _ entry _ _ => some entry

def pins : PromotePc → List Pin
  | .idle => []
  | .counting => []
  | .allocating _ => []
  | .rescuing _ => []
  | .preallocated _ entry => [.unlinked entry .placeholder]
  | .notConsumed _ entry => [.unlinked entry .placeholder]
  | .installed request entry => [.headOf request.key entry]
  | .reading request entry _ => [.headOf request.key entry]
  | .readFailed request entry => [.headOf request.key entry]
  | .unlinked _ entry => [.unlinked entry .placeholder]
  | .validated request entry _ => [.headOf request.key entry]
  | .deciding request entry _ _ => [.headOf request.key entry]

theorem placeholder?_of_mem_pins {pc : PromotePc} {pin : Pin} (mem : pin ∈ pc.pins) :
    pc.placeholder? = some pin.entry := by
  cases pc <;> simp_all [pins, placeholder?, Pin.entry]

theorem exists_pin {pc : PromotePc} {entry : Addr} (holds : pc.placeholder? = some entry) :
    ∃ pin ∈ pc.pins, pin.entry = entry ∧ pin.OnPlaceholder := by
  cases pc <;> simp_all [pins, placeholder?, Pin.entry, Pin.OnPlaceholder]

end PromotePc

namespace WorkerPc

def target? : WorkerPc → Option Addr
  | .busy _ (.selected target) => some target
  | .busy _ (.loaded target) => some target
  | .busy _ (.invalidated target) => some target
  | .busy _ (.queueing target _) => some target
  | _ => none

def pins : WorkerPc → List Pin
  | .busy _ (.selected target) => [.anywhere target .settled]
  | .busy _ (.loaded target) => [.anywhere target .settled]
  | .busy _ (.invalidated target) => [.anywhere target .doomed]
  | .busy _ (.queueing target _) => [.anywhere target .doomed]
  | _ => []

theorem target?_of_mem_pins {pc : WorkerPc} {pin : Pin} (mem : pin ∈ pc.pins) :
    pc.target? = some pin.entry ∧ ¬ pin.OnPlaceholder := by
  unfold pins at mem
  split at mem <;> simp_all [target?, Pin.entry, Pin.OnPlaceholder]

end WorkerPc

def InvalidationEntry.pin (item : InvalidationEntry) : Pin :=
  .anywhere item.entryPointer .doomed

namespace ForwardState

def items (forward : ForwardState) : List InvalidationEntry :=
  forward.localInvalidationRetryQueue ++ forward.nextTurnRetryQueue ++
    match forward.stage with
    | .scanning item _ => [item]
    | .unlinking item => [item]
    | .removed item => [item]
    | .notRemoved item => [item]
    | _ => []

def pins (forward : ForwardState) : List Pin :=
  (match forward.stage with
    | .removed item => [.unlinked item.entryPointer .doomed]
    | _ => []) ++
    forward.items.map InvalidationEntry.pin

end ForwardState

namespace SievePc

def entries : SievePc → List Addr
  | .idle => []
  | .draining victims => victims
  | .popped victim => [victim]
  | .caseB victim => [victim]
  | .locked victim _ => [victim]
  | .unlinked victim _ => [victim]
  | .freeing victim _ => [victim]
  | .reinserting victim => [victim]

def pins : SievePc → List Pin
  | .draining victims => victims.map fun victim => .unlinked victim .removed
  | .locked victim _ => [.anywhere victim .settled]
  | .unlinked victim _ => [.unlinked victim .settled]
  | .freeing victim _ => [.unlinked victim .removed]
  | _ => []

end SievePc

namespace RescuePc

def collected : RescuePc → List Addr
  | .idle => []
  | .scanning run _ _ => run.collected
  | .marked run => run.collected
  | .unlinkEpoch run _ => run.collected
  | .polling run _ _ => run.collected
  | .freeing run => run.collected

def pins (rescue : RescuePc) : List Pin :=
  rescue.collected.map fun entry => .unlinked entry .removed

end RescuePc

inductive Holder
  | promoter (thread : Nat)
  | worker (worker : Nat)
  | forward (thread : Nat)
  | sieve (thread : Nat)
  | rescue
  | queue
  deriving DecidableEq

namespace State

def pins (state : State) : Holder → List Pin
  | .promoter thread => (state.promoters thread).pins
  | .worker worker => (state.workers worker).pins
  | .forward thread => (state.forwards thread).pins
  | .sieve thread => (state.sieves thread).pins
  | .rescue => state.rescue.pins
  | .queue => state.invalidationQueue.map InvalidationEntry.pin

section Frame

variable {s s' : State} {other : Holder} {t : Nat}

theorem pins_setPromoter {pc : PromotePc}
    (same : s'.pins = (s.setPromoter t pc).pins) (ne : other ≠ .promoter t) :
    s'.pins other = s.pins other := by
  rw [same]
  cases other with
  | promoter => simp [pins, mt (congrArg Holder.promoter) ne]
  | _ => rfl

theorem pins_setWorker {pc : WorkerPc}
    (same : s'.pins = (s.setWorker t pc).pins) (ne : other ≠ .worker t) :
    s'.pins other = s.pins other := by
  rw [same]
  cases other with
  | worker => simp [pins, mt (congrArg Holder.worker) ne]
  | _ => rfl

theorem pins_setForward {forward : ForwardState}
    (same : s'.pins = (s.setForward t forward).pins) (ne : other ≠ .forward t) :
    s'.pins other = s.pins other := by
  rw [same]
  cases other with
  | forward => simp [pins, mt (congrArg Holder.forward) ne]
  | _ => rfl

theorem pins_setSieve {pc : SievePc}
    (same : s'.pins = (s.setSieve t pc).pins) (ne : other ≠ .sieve t) :
    s'.pins other = s.pins other := by
  rw [same]
  cases other with
  | sieve => simp [pins, mt (congrArg Holder.sieve) ne]
  | _ => rfl

theorem pins_rescue {rescue : RescuePc} (same : s'.pins = ({ s with rescue := rescue }).pins)
    (ne : other ≠ .rescue) : s'.pins other = s.pins other := by
  rw [same]
  cases other with
  | rescue => exact absurd rfl ne
  | _ => rfl

end Frame

structure Unreferenced (s : State) (e : Addr) : Prop where
  chains : ∀ key, ¬ s.memory.Linked key e
  sieveFifo : e ∉ s.sieveFifo.entries
  queue : ∀ item ∈ s.invalidationQueue, item.entryPointer ≠ e
  forwards : ∀ t, ∀ item ∈ (s.forwards t).items, item.entryPointer ≠ e
  promoters : ∀ t, (s.promoters t).placeholder? ≠ some e
  workers : ∀ w, (s.workers w).target? ≠ some e
  sieves : ∀ t, e ∉ (s.sieves t).entries
  rescue : e ∉ s.rescue.collected

theorem promoter_of_onPlaceholder {s : State} {holder : Holder} {pin : Pin}
    (mem : pin ∈ s.pins holder) (onPlaceholder : pin.OnPlaceholder) : ∃ t, holder = .promoter t ∧
      (s.promoters t).placeholder? = some pin.entry := by
  cases holder with
  | promoter t => exact ⟨t, rfl, placeholder?_of_mem_pins mem⟩
  | worker => exact absurd onPlaceholder (target?_of_mem_pins mem).2
  | forward =>
    simp only [pins, ForwardState.pins, mem_append, mem_map] at mem
    rcases mem with mem | ⟨item, -, rfl⟩
    · split at mem <;> simp_all [Pin.OnPlaceholder]
    · simp [InvalidationEntry.pin, Pin.OnPlaceholder] at onPlaceholder
  | sieve =>
    simp only [pins] at mem
    unfold SievePc.pins at mem
    split at mem <;> simp_all [Pin.OnPlaceholder]
    obtain ⟨_, -, rfl⟩ := mem
    simp at onPlaceholder
  | rescue =>
    simp only [pins, RescuePc.pins, mem_map] at mem
    obtain ⟨entry, -, rfl⟩ := mem
    simp [Pin.OnPlaceholder] at onPlaceholder
  | queue =>
    simp only [pins, mem_map] at mem
    obtain ⟨item, -, rfl⟩ := mem
    simp [InvalidationEntry.pin, Pin.OnPlaceholder] at onPlaceholder

theorem Unreferenced.not_pinned {s : State} {entry : Addr}
    (fresh : s.Unreferenced entry) {holder : Holder} {pin : Pin}
    (mem : pin ∈ s.pins holder) : pin.entry ≠ entry := by
  rintro rfl
  cases holder with
  | promoter t => exact fresh.promoters t (placeholder?_of_mem_pins mem)
  | worker w => exact fresh.workers w (target?_of_mem_pins mem).1
  | forward t =>
    simp only [pins, ForwardState.pins, mem_append, mem_map] at mem
    rcases mem with mem | ⟨item, inItems, rfl⟩
    · split at mem
      · rename_i item stage
        simp only [mem_singleton] at mem
        subst mem
        exact fresh.forwards t item (by simp [ForwardState.items, stage]) rfl
      · simp at mem
    · exact fresh.forwards t item inItems rfl
  | sieve t =>
    refine fresh.sieves t ?_
    simp only [pins] at mem
    cases pc : s.sieves t <;>
      simp_all [SievePc.pins, SievePc.entries, Pin.entry]
    obtain ⟨victim, inVictims, rfl⟩ := mem
    exact inVictims
  | rescue =>
    simp only [pins, RescuePc.pins, mem_map] at mem
    obtain ⟨entry, inCollected, rfl⟩ := mem
    exact fresh.rescue inCollected
  | queue =>
    simp only [pins, mem_map] at mem
    obtain ⟨item, inQueue, rfl⟩ := mem
    exact fresh.queue item inQueue rfl

end State

end TieredStore.RecordCache
