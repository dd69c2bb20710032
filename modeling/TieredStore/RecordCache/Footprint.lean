import TieredStore.RecordCache.Shape

namespace TieredStore.RecordCache

open LinkChain Function List Memory

namespace Memory

/-- Everything but type, link and visited bit is kept; the flag may be set. -/
structure KeepsData (memory memory' : Memory) (e : Addr) : Prop where
  txTs : (memory'.heap e).txTs = (memory.heap e).txTs
  workerId : (memory'.heap e).lastModifiedWorkerId = (memory.heap e).lastModifiedWorkerId
  keyLength : (memory'.heap e).keyLength = (memory.heap e).keyLength
  valueLength : (memory'.heap e).valueLength = (memory.heap e).valueLength
  payload : (memory'.heap e).payload = (memory.heap e).payload
  origin : memory'.origin e = memory.origin e
  flag : (memory.heap e).updateDuringPromote = true → (memory'.heap e).updateDuringPromote = true

def Serves (memory : Memory) (key : Bytes) (e : Addr) : Prop :=
  memory.table key = some e ∧ memory.typeOf e = .readOnlyMode

namespace KeepsData

variable {memory memory' memory'' : Memory} {e : Addr}

protected theorem refl (memory : Memory) (e : Addr) : memory.KeepsData memory e :=
  ⟨rfl, rfl, rfl, rfl, rfl, rfl, id⟩

protected theorem trans (first : memory.KeepsData memory' e)
    (second : memory'.KeepsData memory'' e) : memory.KeepsData memory'' e :=
  ⟨second.txTs.trans first.txTs, second.workerId.trans first.workerId,
    second.keyLength.trans first.keyLength, second.valueLength.trans first.valueLength,
    second.payload.trans first.payload, second.origin.trans first.origin,
    fun flagged => second.flag (first.flag flagged)⟩

theorem dataOf (keeps : memory.KeepsData memory' e) : memory'.dataOf e = memory.dataOf e := by
  simp only [Memory.dataOf, RecordCacheEntry.getValueSpan, keeps.txTs, keeps.workerId,
    keeps.keyLength, keeps.valueLength, keeps.payload, keeps.origin]

theorem unflagged (keeps : memory.KeepsData memory' e)
    (unflagged : (memory'.heap e).updateDuringPromote = false) :
    (memory.heap e).updateDuringPromote = false := by
  cases flag : (memory.heap e).updateDuringPromote with
  | false => rfl
  | true => simp [keeps.flag flag] at unflagged

theorem elsewhere {changed : Addr} (ne : e ≠ changed)
    (change : RecordCacheEntry → RecordCacheEntry) :
    memory.KeepsData (memory.modify changed change) e := by
  constructor <;> simp [modify, ne]

theorem setType (changed : Addr) (type : RecordCacheType) :
    memory.KeepsData (memory.setType changed type) e := by
  by_cases same : e = changed
  · subst same
    constructor <;> simp [Memory.setType, modify]
  · exact elsewhere same _

theorem setVisited (changed : Addr) (visited : Bool) :
    memory.KeepsData (memory.setVisited changed visited) e := by
  by_cases same : e = changed
  · subst same
    constructor <;> simp [Memory.setVisited, modify]
  · exact elsewhere same _

theorem withVisited (visited : Addr → Bool) : memory.KeepsData (memory.withVisited visited) e :=
  ⟨rfl, rfl, rfl, rfl, rfl, rfl, id⟩

theorem deallocate (freed : Addr) : memory.KeepsData (memory.deallocate freed) e :=
  ⟨rfl, rfl, rfl, rfl, rfl, rfl, id⟩

theorem afterSearch (head : Option Addr) : memory.KeepsData (memory.afterSearch head) e := by
  unfold Memory.afterSearch
  cases head with
  | none => exact .refl memory e
  | some first =>
    simp only
    split
    · by_cases same : e = first
      · subst same
        constructor <;> simp [setUpdateDuringPromote, modify]
      · exact elsewhere same _
    · exact .refl memory e

theorem allocateNewEntry {new : Addr} (ne : e ≠ new) (key : Bytes) (valueLength : Nat) :
    memory.KeepsData (memory.allocateNewEntry new key valueLength) e := by
  constructor <;> simp [Memory.allocateNewEntry, ne]

theorem install (key : Bytes) (new : Addr) : memory.KeepsData (memory.install key new) e := by
  by_cases same : e = new
  · subst same
    constructor <;> simp [Memory.install, modify]
  · constructor <;> simp [Memory.install, modify, same]

theorem unlink (key : Bytes) (removed : Addr) (chain : List Addr) :
    memory.KeepsData (memory.unlink key removed chain).1 e :=
  ⟨rfl, rfl, rfl, rfl, rfl, rfl, id⟩

theorem publish {published : Addr} (ne : e ≠ published) (data : ReadData) :
    memory.KeepsData (memory.publish published data) e := by
  constructor <;> simp [Memory.publish, modify, ne]

end KeepsData

end Memory

theorem Shaped.serves {memory : Memory} {chains : Bytes → List Addr} {key : Bytes}
    {e : Addr} (shaped : Shaped memory chains) (mem : e ∈ chains key)
    (readOnly : memory.typeOf e = .readOnlyMode) : memory.Serves key e := by
  have isHead := shaped.head_of_live mem (by simp [readOnly])
  exact ⟨shaped.head?_eq_table key ▸ isHead, readOnly⟩

theorem Shaped.mem_of_table {memory : Memory} {chains : Bytes → List Addr}
    {key : Bytes} {e : Addr} (shaped : Shaped memory chains)
    (isHead : memory.table key = some e) : e ∈ chains key :=
  mem_of_mem_head? ((shaped.head?_eq_table key).trans isHead)

def State.published? (state : State) : Action → Option Addr
  | .promote thread (.finish _) =>
    match state.promoters thread with
    | .deciding _ entry _ .publish => some entry
    | _ => none
  | _ => none

theorem State.published?_eq_some {s : State} {a : Action} {e : Addr}
    (published : s.published? a = some e) : ∃ t chain req data, a = .promote t (.finish chain) ∧
      s.promoters t = .deciding req e data .publish := by
  unfold published? at published
  split at published
  · rename_i t chain
    split at published
    · rename_i req e' data pc
      simp only [Option.some.injEq] at published
      exact ⟨t, chain, req, data, rfl, published ▸ pc⟩
    · simp at published
  · simp at published

structure CacheStep (s s' : State) (a : Action) : Prop where
  keeps : ∀ e, a.allocated? ≠ some e → s.published? a ≠ some e → s.memory.KeepsData s'.memory e
  serves : ∀ key e, s'.memory.Serves key e → s.memory.Serves key e ∨ ∃ t chain req data,
        a = .promote t (.finish chain) ∧ s.promoters t = .deciding req e data .publish ∧
        req.key = key ∧ s'.memory = s.memory.publish e data
  linked : ∀ key e, s'.memory.Linked key e → s.memory.Linked key e ∨
      ∃ t req, s.promoters t = .preallocated req e ∧ req.key = key

namespace CacheStep

variable {s s' : State} {a : Action} {chains : Bytes → List Addr}

variable {key : Bytes} {e : Addr} {memory memory' : Memory}

theorem linked_congr (links : memory'.links = memory.links)
    (table : memory'.table = memory.table) (linked : memory'.Linked key e) :
    memory.Linked key e := by
  obtain ⟨chain, walked, mem⟩ := linked
  refine ⟨chain, ?_, mem⟩
  unfold ChainOf at walked ⊢
  rwa [← links, ← table]

theorem linked_of_shaped {chains chains' : Bytes → List Addr}
    (shaped : Shaped memory chains) (shaped' : Shaped memory' chains')
    (subset : e ∈ chains' key → e ∈ chains key) (linked : memory'.Linked key e) :
    memory.Linked key e := by
  obtain ⟨chain, walked, mem⟩ := linked
  rw [shaped'.unique walked] at mem
  exact ⟨chains key, shaped.chain key, subset mem⟩

theorem sameShape (shape : s.memory.SameShape s'.memory)
    (keeps : ∀ e, s.memory.KeepsData s'.memory e) : CacheStep s s' a where
  keeps e _ _ := keeps e
  serves key e serves := .inl ⟨by rw [← shape.table]; exact serves.1,
    (shape.types e).symm.trans serves.2⟩
  linked _ _ linked := .inl (linked_congr shape.links shape.table linked)

theorem sameMemory (memory : s'.memory = s.memory) : CacheStep s s' a :=
  .sameShape (memory ▸ .refl _) fun e => memory ▸ .refl _ e

theorem setType {type : RecordCacheType} (memory : s'.memory = s.memory.setType e type)
    (notReadOnly : type ≠ .readOnlyMode) : CacheStep s s' a where
  keeps _ _ _ := memory ▸ .setType e type
  serves _ _ serves := by
    obtain ⟨isHead, readOnly⟩ := serves
    rw [memory] at isHead readOnly
    rw [typeOf_setType] at readOnly
    split at readOnly
    · exact absurd readOnly notReadOnly
    · exact .inl ⟨isHead, readOnly⟩
  linked _ _ linked := .inl (linked_congr (memory ▸ links_setType ..)
    (memory ▸ table_setType ..) linked)

theorem serves_of_unlink {memory : Memory} {key' : Bytes} {other : Addr}
    (shaped : Shaped memory chains)
    (serves : (memory.unlink key e (chains key)).1.Serves key' other) :
    memory.Serves key' other := by
  have shaped' := shaped.unlink key e
  exact shaped.serves (Shaped.mem_erase_of_unlink (shaped'.mem_of_table serves.1)) serves.2

theorem unlink (shaped : Shaped s.memory chains)
    (memory : s'.memory = (s.memory.unlink key e (chains key)).1) : CacheStep s s' a where
  keeps _ _ _ := memory ▸ .unlink key e _
  serves _ _ serves := .inl (serves_of_unlink shaped (memory ▸ serves))
  linked _ _ linked := .inl (linked_of_shaped shaped (shaped.unlink key e)
    Shaped.mem_erase_of_unlink (memory ▸ linked))

theorem unlinkRetire (shaped : Shaped s.memory chains)
    (memory : s'.memory = (s.memory.unlink key e (chains key)).1.setType
      e .removedFromHashTableButWaitForPhysicalMemoryDeallocation) : CacheStep s s' a where
  keeps _ _ _ := memory ▸ (KeepsData.unlink key e _).trans (.setType ..)
  serves _ _ serves := by
    obtain ⟨isHead, readOnly⟩ := serves
    rw [memory] at isHead readOnly
    rw [typeOf_setType] at readOnly
    split at readOnly
    · simp at readOnly
    · exact .inl (serves_of_unlink shaped ⟨isHead, readOnly⟩)
  linked _ _ linked := by
    rw [memory] at linked
    exact .inl (linked_of_shaped shaped (shaped.unlink key e) Shaped.mem_erase_of_unlink
      (linked_congr (links_setType ..) (table_setType ..) linked))

end CacheStep

namespace ShapeInv

open CacheStep

variable {cfg : Config} {s s' : State} {chains : Bytes → List Addr}
  {t : Nat}

theorem promoteCacheStep {a : PromoteAction} (inv : ShapeInv s chains)
    (fresh : FreshBlocks s (.promote t a)) (taken : PromoteStep cfg s t a s') :
    CacheStep s s' (.promote t a) := by
  have pinsHold := inv.pins (.promoter t)
  simp only [State.pins] at pinsHold
  cases taken with
  | @allocate req e =>
    have unlinked : ∀ key, e ∉ chains key := fun key mem =>
      (fresh e rfl).chains key ⟨chains key, inv.shaped.chain key, mem⟩
    refine ⟨fun other old _ => ?_, fun key other serves => .inl ⟨serves.1, ?_⟩,
      fun _ _ linked => .inl (linked_of_shaped inv.shaped
        (inv.shaped.allocateNewEntry unlinked req.valueLength) id linked)⟩
    · exact .allocateNewEntry (fun same => old (congrArg some same.symm)) ..
    · have readOnly := serves.2
      by_cases same : other = e
      · subst same
        simp at readOnly
      · rwa [typeOf_allocateNewEntry _ _ _ _ _ same] at readOnly
  | @install req e pc free allowed =>
    rw [pc] at pinsHold
    obtain ⟨unlinked, type⟩ := pinsHold _ (mem_singleton.mpr rfl)
    have placeholder : s.memory.typeOf e = .promoteThreadHoldingThePosition := type
    refine ⟨fun _ _ _ => .install .., fun key other serves => .inl ?_, fun key other linked => ?_⟩
    · obtain ⟨isHead, readOnly⟩ := serves
      rw [typeOf_install] at readOnly
      rw [table_install] at isHead
      by_cases same : key = req.key
      · subst same
        simp only [update_self, Option.some.injEq] at isHead
        subst isHead
        simp [placeholder] at readOnly
      · rw [update_of_ne same] at isHead
        exact ⟨isHead, readOnly⟩
    · have shaped' := inv.shaped.install unlinked placeholder allowed
      by_cases sameKey : key = req.key
      · subst sameKey
        by_cases same : other = e
        · exact .inr ⟨t, req, same ▸ pc, rfl⟩
        · refine .inl (linked_of_shaped inv.shaped shaped' (fun mem => ?_) linked)
          rw [update_self] at mem
          exact (mem_cons.mp mem).resolve_left same
      · refine .inl (linked_of_shaped inv.shaped shaped' (fun mem => ?_) linked)
        rwa [update_of_ne sameKey] at mem
  | freePreallocated => exact .sameShape (.deallocate ..) fun _ => .deallocate _
  | insertIntoFifo => exact .sameShape (.setVisited ..) fun _ => .setVisited ..
  | unlinkFailed pc free walked =>
    cases inv.shaped.unique walked
    exact .unlink inv.shaped rfl
  | setRemoved => exact .setType rfl (by simp)
  | @publish req e data chain pc =>
    rw [pc] at pinsHold
    obtain ⟨isHead, -⟩ := pinsHold _ (mem_singleton.mpr rfl)
    refine ⟨fun other _ old => ?_, fun key other serves => ?_, fun _ _ linked =>
      .inl (linked_congr (links_publish ..) rfl linked)⟩
    · refine .publish (fun same => old ?_) data
      simp [State.published?, pc, same]
    · obtain ⟨atHead, readOnly⟩ := serves
      by_cases same : other = e
      · subst same
        have sameKey := inv.shaped.apart req.key key other
          (mem_of_mem_head? isHead) (inv.shaped.mem_of_table atHead)
        exact .inr ⟨t, chain, req, data, rfl, pc, sameKey, rfl⟩
      · rw [typeOf_publish, if_neg same] at readOnly
        exact .inl ⟨atHead, readOnly⟩
  | cancel pc walked =>
    cases inv.shaped.unique walked
    exact .unlinkRetire inv.shaped rfl
  | _ => exact .sameMemory rfl

theorem workerCacheStep {w : Nat} {a : WorkerAction} (taken : WorkerStep cfg s w a s') :
    CacheStep s s' (.worker w a) := by
  cases taken with
  | selectNone => exact .sameShape (.afterSearch ..) fun _ => .afterSearch _
  | select => exact .sameShape (.afterSearch ..) fun _ => .afterSearch _
  | casType => exact .setType rfl (by simp)
  | lookupHit => exact .sameShape (.setVisited ..) fun _ => .setVisited ..
  | _ => exact .sameMemory rfl

variable (inv : ShapeInv s chains)
include inv

theorem forwardCacheStep {a : ForwardAction} (taken : ForwardStep cfg s t a s') :
    CacheStep s s' (.forward t a) := by
  cases taken with
  | unlink stage free walked | unlinkMissed stage free walked =>
    cases inv.shaped.unique walked
    exact .unlink inv.shaped rfl
  | storeRemoved => exact .setType rfl (by simp)
  | _ => exact .sameMemory rfl

theorem sieveCacheStep {a : SieveAction} (taken : SieveStep cfg s t a s') :
    CacheStep s s' (.sieve t a) := by
  cases taken with
  | freeDrained | freeCaseA | freeCaseB => exact .sameShape (.deallocate ..) fun _ => .deallocate _
  | evictNone | evict => exact .sameShape (.withVisited ..) fun _ => .withVisited _
  | unlink pc isHead => exact .unlink inv.shaped (inv.shaped.unlink_head isHead)
  | setRemoved => exact .setType rfl (by simp)
  | _ => exact .sameMemory rfl

theorem rescueCacheStep {a : RescueAction} (taken : RescueStep cfg s a s') :
    CacheStep s s' (.rescue a) := by
  cases taken with
  | collect pc _ walked =>
    cases inv.shaped.unique walked
    exact .unlinkRetire inv.shaped rfl
  | free => exact .sameShape (.deallocate ..) fun _ => .deallocate _
  | _ => exact .sameMemory rfl

theorem cacheStep {a : Action} (fresh : FreshBlocks s a)
    (taken : RecordCache.step cfg s a = some s') : CacheStep s s' a := by
  cases step_cases taken with
  | worker stepped => exact workerCacheStep stepped
  | promote stepped => exact inv.promoteCacheStep fresh stepped
  | forward stepped => exact inv.forwardCacheStep stepped
  | sieve stepped => exact inv.sieveCacheStep stepped
  | rescue stepped => exact inv.rescueCacheStep stepped
  | page stepped => cases stepped <;> exact .sameMemory rfl

end ShapeInv

end TieredStore.RecordCache
