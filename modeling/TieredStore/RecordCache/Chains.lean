import TieredStore.RecordCache.Promote
import TieredStore.RecordCache.Sieve

namespace TieredStore.RecordCache

open LinkChain Function List Memory

namespace Memory

variable (memory : Memory) (e other : Addr) (key : Bytes)

@[simp] theorem typeOf_modify (change : RecordCacheEntry → RecordCacheEntry) :
    (memory.modify e change).typeOf other = if other = e then (change (memory.heap e)).entryType
      else memory.typeOf other := by
  by_cases same : other = e <;> simp [typeOf, modify, same]

@[simp] theorem typeOf_setType (type : RecordCacheType) : (memory.setType e type).typeOf other =
      if other = e then type else memory.typeOf other := by
  simp [setType]

@[simp] theorem links_setType (type : RecordCacheType) :
    (memory.setType e type).links = memory.links := by
  funext cell
  by_cases same : cell = e <;> simp [links, setType, modify, same]

@[simp] theorem table_setType (type : RecordCacheType) :
    (memory.setType e type).table = memory.table := rfl

theorem typeOf_allocateNewEntry (valueLength : Nat) (ne : other ≠ e) :
    (memory.allocateNewEntry e key valueLength).typeOf other = memory.typeOf other := by
  simp [typeOf, allocateNewEntry, ne]

theorem links_allocateNewEntry (valueLength : Nat) (ne : other ≠ e) :
    (memory.allocateNewEntry e key valueLength).links other = memory.links other := by
  simp [links, allocateNewEntry, ne]

@[simp] theorem typeOf_allocateNewEntry_self (valueLength : Nat) :
    (memory.allocateNewEntry e key valueLength).typeOf e = .promoteThreadHoldingThePosition := by
  simp [typeOf, allocateNewEntry]

@[simp] theorem typeOf_install : (memory.install key e).typeOf other = memory.typeOf other := by
  by_cases same : other = e <;> simp [typeOf, install, modify, same]

@[simp] theorem links_install :
    (memory.install key e).links = update memory.links e (memory.table key) := by
  funext cell
  by_cases same : cell = e <;> simp [links, install, modify, same]

@[simp] theorem table_install :
    (memory.install key e).table = update memory.table key (some e) := rfl

@[simp] theorem typeOf_unlink (chain : List Addr) :
    (memory.unlink key e chain).1.typeOf other = memory.typeOf other := rfl

theorem links_unlink (chain : List Addr) : (memory.unlink key e chain).1.links =
      (unlinkFrom memory.links (memory.table key) e none chain).next := rfl

theorem table_unlink (chain : List Addr) : (memory.unlink key e chain).1.table =
      update memory.table key (unlinkFrom memory.links (memory.table key) e none chain).head := rfl

@[simp] theorem typeOf_publish (data : ReadData) : (memory.publish e data).typeOf other =
      if other = e then .readOnlyMode else memory.typeOf other := by
  by_cases same : other = e <;> simp [typeOf, publish, modify, same]

@[simp] theorem links_publish (data : ReadData) : (memory.publish e data).links = memory.links := by
  funext cell
  by_cases same : cell = e <;> simp [links, publish, modify, same]

structure SameShape (memory memory' : Memory) : Prop where
  types : ∀ e, memory'.typeOf e = memory.typeOf e
  links : memory'.links = memory.links
  table : memory'.table = memory.table

namespace SameShape

protected theorem refl : SameShape memory memory := ⟨fun _ => rfl, rfl, rfl⟩

theorem setVisited (visited : Bool) : SameShape memory (memory.setVisited e visited) := by
  refine ⟨fun cell => ?_, funext fun cell => ?_, rfl⟩ <;>
    by_cases same : cell = e <;>
      simp [typeOf, Memory.links, Memory.setVisited, modify, same]

theorem withVisited (visited : Addr → Bool) : SameShape memory (memory.withVisited visited) :=
  ⟨fun _ => rfl, rfl, rfl⟩

theorem deallocate : SameShape memory (memory.deallocate e) := ⟨fun _ => rfl, rfl, rfl⟩

theorem afterSearch (head : Option Addr) : SameShape memory (memory.afterSearch head) := by
  unfold Memory.afterSearch
  cases head with
  | none => exact .refl memory
  | some first =>
    simp only
    split
    · refine ⟨fun cell => ?_, funext fun cell => ?_, rfl⟩ <;>
        by_cases same : cell = first <;>
          simp [typeOf, Memory.links, setUpdateDuringPromote, modify, same]
    · exact .refl memory

end SameShape

end Memory

/--
The version chains of a memory: disjoint, with at most the head read-only or a
placeholder, and every other entry logically deleted.
-/
structure Shaped (memory : Memory) (chains : Bytes → List Addr) : Prop where
  chain : ∀ key, memory.ChainOf key (chains key)
  apart : ∀ key key' e, e ∈ chains key → e ∈ chains key' → key = key'
  head : ∀ key e, (chains key).head? = some e → memory.typeOf e = .readOnlyMode ∨
      memory.typeOf e = .promoteThreadHoldingThePosition ∨
      memory.typeOf e = .logicallyDeletedButStillInHashTable
  tail : ∀ key, ∀ e ∈ (chains key).tail, memory.typeOf e = .logicallyDeletedButStillInHashTable

namespace Shaped

variable {memory memory' : Memory} {chains : Bytes → List Addr}
  {key : Bytes} {e : Addr}

theorem unique (shaped : Shaped memory chains) {chain : List Addr}
    (walked : memory.ChainOf key chain) : chain = chains key :=
  IsChain.unique walked (shaped.chain key)

theorem head?_eq_table (shaped : Shaped memory chains) (key : Bytes) :
    (chains key).head? = memory.table key :=
  (shaped.chain key).head?_eq

theorem mem_head_or_tail {cells : List Addr} (mem : e ∈ cells) :
    cells.head? = some e ∨ e ∈ cells.tail := by
  cases cells with
  | nil => simp at mem
  | cons =>
    rcases mem_cons.mp mem with rfl | later
    · exact .inl rfl
    · exact .inr later

section

variable (shaped : Shaped memory chains)
include shaped

theorem head_of_live (mem : e ∈ chains key)
    (live : memory.typeOf e ≠ .logicallyDeletedButStillInHashTable) :
    (chains key).head? = some e := by
  rcases mem_head_or_tail mem with isHead | inTail
  · exact isHead
  · exact absurd (shaped.tail key e inTail) live

theorem not_removed (mem : e ∈ chains key) : memory.typeOf e ≠
      .removedFromHashTableButWaitForPhysicalMemoryDeallocation := by
  rcases mem_head_or_tail mem with isHead | inTail
  · rcases shaped.head key e isHead with type | type | type <;> simp [type]
  · simp [shaped.tail key e inTail]

theorem sameShape (same : memory.SameShape memory') : Shaped memory' chains where
  chain key := by
    unfold ChainOf
    rw [same.links, same.table]
    exact shaped.chain key
  apart := shaped.apart
  head key e isHead := by
    rw [same.types]
    exact shaped.head key e isHead
  tail key e inTail := by
    rw [same.types]
    exact shaped.tail key e inTail

section

variable (unlinked : ∀ key, e ∉ chains key)
include unlinked

theorem outside (types : ∀ other, other ≠ e → memory'.typeOf other = memory.typeOf other)
    (links : ∀ other, other ≠ e → memory'.links other = memory.links other)
    (table : memory'.table = memory.table) : Shaped memory' chains where
  chain key := by
    unfold ChainOf
    rw [table]
    refine IsChain.congr (shaped.chain key) fun cell mem => links cell ?_
    exact ne_of_mem_of_not_mem mem (unlinked key)
  apart := shaped.apart
  head key other isHead := by
    rw [types other (ne_of_mem_of_not_mem (mem_of_mem_head? isHead) (unlinked key))]
    exact shaped.head key other isHead
  tail key other inTail := by
    rw [types other (ne_of_mem_of_not_mem (mem_of_mem_tail inTail) (unlinked key))]
    exact shaped.tail key other inTail

theorem allocateNewEntry (valueLength : Nat) :
    Shaped (memory.allocateNewEntry e key valueLength) chains :=
  shaped.outside unlinked
    (fun _ ne => typeOf_allocateNewEntry _ _ _ _ _ ne)
    (fun _ ne => links_allocateNewEntry _ _ _ _ _ ne) rfl

theorem setType_outside (type : RecordCacheType) : Shaped (memory.setType e type) chains := by
  refine shaped.outside unlinked (fun other ne => ?_) (fun other _ => ?_) rfl
  · simp [ne]
  · simp

end

theorem retypeHead (isHead : (chains key).head? = some e)
    (types : ∀ other, other ≠ e → memory'.typeOf other = memory.typeOf other)
    (links : memory'.links = memory.links) (table : memory'.table = memory.table)
    (type : memory'.typeOf e = .readOnlyMode ∨
      memory'.typeOf e = .logicallyDeletedButStillInHashTable) : Shaped memory' chains where
  chain key := by
    unfold ChainOf
    rw [links, table]
    exact shaped.chain key
  apart := shaped.apart
  head key' other isHead' := by
    by_cases same : other = e
    · subst same
      rcases type with type | type <;> simp [type]
    · rw [types other same]
      exact shaped.head key' other isHead'
  tail key' other inTail := by
    have ne : other ≠ e := by
      rintro rfl
      have sameKey := shaped.apart key' key other (mem_of_mem_tail inTail) (mem_of_mem_head? isHead)
      subst sameKey
      have distinct := (shaped.chain key').nodup
      cases cells : chains key' with
      | nil => simp [cells] at isHead
      | cons =>
        rw [cells] at isHead inTail distinct
        simp only [head?_cons, Option.some.injEq] at isHead
        subst isHead
        exact (nodup_cons.mp distinct).1 inTail
    rw [types other ne]
    exact shaped.tail key' other inTail

theorem install (unlinked : ∀ key, e ∉ chains key)
    (type : memory.typeOf e = .promoteThreadHoldingThePosition)
    (allowed : headAllowsInstall memory key = true) : Shaped (memory.install key e)
      (update chains key (e :: chains key)) where
  chain key' := by
    unfold ChainOf
    rw [links_install, table_install]
    by_cases same : key' = key
    · subst same
      rw [update_self, update_self]
      exact IsChain.push (shaped.chain key') (unlinked key')
    · rw [update_of_ne same, update_of_ne same]
      refine IsChain.congr (shaped.chain key') fun cell mem => ?_
      exact update_of_ne (ne_of_mem_of_not_mem mem (unlinked key')) _ _
  apart key₁ key₂ other := by
    have origin : ∀ key', other ∈ update chains key (e :: chains key) key' →
        (other = e ∧ key' = key) ∨ other ∈ chains key' := by
      intro key' mem
      by_cases same : key' = key
      · subst same
        rw [update_self] at mem
        rcases mem_cons.mp mem with h | h
        · exact .inl ⟨h, rfl⟩
        · exact .inr h
      · rw [update_of_ne same] at mem
        exact .inr mem
    intro member₁ member₂
    rcases origin _ member₁ with ⟨isNew, first⟩ | old₁ <;>
      rcases origin _ member₂ with ⟨isNew', second⟩ | old₂
    · rw [first, second]
    · exact absurd old₂ (isNew ▸ unlinked key₂)
    · exact absurd old₁ (isNew' ▸ unlinked key₁)
    · exact shaped.apart _ _ _ old₁ old₂
  head key' other isHead := by
    rw [typeOf_install]
    by_cases same : key' = key
    · subst same
      simp only [update_self, head?_cons, Option.some.injEq] at isHead
      exact .inr (.inl (isHead ▸ type))
    · rw [update_of_ne same] at isHead
      exact shaped.head key' other isHead
  tail key' other inTail := by
    rw [typeOf_install]
    by_cases same : key' = key
    · subst same
      simp only [update_self] at inTail
      rcases mem_head_or_tail inTail with isHead | later
      · -- the old head was doomed, and a linked entry never has type 100
        have atHead := shaped.head?_eq_table key' ▸ isHead
        simp only [headAllowsInstall, atHead] at allowed
        rcases of_decide_eq_true allowed with deleted | removed
        · exact deleted
        · exact absurd removed (shaped.not_removed inTail)
      · exact shaped.tail key' other later
    · rw [update_of_ne same] at inTail
      exact shaped.tail key' other inTail

end

theorem mem_erase_of_unlink {other : Addr} {key' : Bytes}
    (mem : other ∈ update chains key ((chains key).erase e) key') : other ∈ chains key' := by
  by_cases same : key' = key
  · subst same
    rw [update_self] at mem
    exact mem_of_mem_erase mem
  · rwa [update_of_ne same] at mem

variable (shaped : Shaped memory chains)
include shaped

theorem unlink (key : Bytes) (e : Addr) : Shaped (memory.unlink key e (chains key)).1
      (update chains key ((chains key).erase e)) := by
  by_cases mem : e ∈ chains key
  · obtain ⟨rebuilt, -, frame⟩ := unlinkFrom_chain (shaped.chain key) mem
    refine ⟨fun key' => ?_, fun key₁ key₂ other in₁ in₂ => ?_,
      fun key' other isHead => ?_, fun key' other inTail => ?_⟩
    · unfold ChainOf
      rw [links_unlink, table_unlink]
      by_cases same : key' = key
      · subst same
        rw [update_self, update_self]
        exact rebuilt
      · rw [update_of_ne same, update_of_ne same]
        refine IsChain.congr (shaped.chain key') fun cell inOther => ?_
        exact frame cell fun inThis => same (shaped.apart _ _ _ inOther inThis)
    · exact shaped.apart _ _ _ (mem_erase_of_unlink in₁) (mem_erase_of_unlink in₂)
    · by_cases same : key' = key
      · subst same
        rw [update_self] at isHead
        have inside := mem_of_mem_erase (mem_of_mem_head? isHead)
        rcases mem_head_or_tail inside with stillHead | inTail
        · exact shaped.head key' other stillHead
        · exact .inr (.inr (shaped.tail key' other inTail))
      · rw [update_of_ne same] at isHead
        exact shaped.head key' other isHead
    · by_cases same : key' = key
      · subst same
        rw [update_self] at inTail
        refine shaped.tail key' other ?_
        cases cells : chains key' with
        | nil => simp [cells] at inTail
        | cons first =>
          rw [cells] at inTail
          by_cases isFirst : first = e
          · subst isFirst
            rw [erase_cons_head] at inTail
            exact mem_of_mem_tail inTail
          · rw [erase_cons_tail (by simpa using isFirst)] at inTail
            exact mem_of_mem_erase inTail
      · rw [update_of_ne same] at inTail
        exact shaped.tail key' other inTail
  · have unchanged : (memory.unlink key e (chains key)).1 = memory := by
      simp [Memory.unlink, unlinkFrom_of_not_mem none mem, links]
    rw [unchanged, erase_of_not_mem mem, update_eq_self]
    exact shaped

theorem unlink_head (isHead : memory.table key = some e) :
    (memory.unlink key e [e]).1 = (memory.unlink key e (chains key)).1 := by
  have head := (shaped.head?_eq_table key).trans isHead
  cases cells : chains key with
  | nil => simp [cells] at head
  | cons =>
    simp only [cells, head?_cons, Option.some.injEq] at head
    subst head
    simp [Memory.unlink, unlinkFrom]

theorem unlinked_of_unlink (mem : e ∈ chains key) (key' : Bytes) :
    e ∉ update chains key ((chains key).erase e) key' := by
  intro still
  by_cases same : key' = key
  · subst same
    rw [update_self] at still
    exact (shaped.chain key').nodup.not_mem_erase still
  · rw [update_of_ne same] at still
    exact same (shaped.apart _ _ _ still mem)

end Shaped

/-- A search that finds no target leaves no read-only entry anywhere in the
chain, although it looked at two links only. -/
theorem Shaped.no_readOnly_of_no_target {memory : Memory} {chains : Bytes → List Addr} {key : Bytes}
    (shaped : Shaped memory chains)
    (missed : (memory.findFirstUpdatableEntry (memory.table key)).target = none) :
    ∀ e ∈ chains key, memory.typeOf e ≠ .readOnlyMode := by
  intro e mem readOnly
  have isHead := shaped.head_of_live mem (by simp [readOnly])
  rw [shaped.head?_eq_table] at isHead
  simp [findFirstUpdatableEntry, isHead, readOnly] at missed

end TieredStore.RecordCache
