import TieredStore.RecordCache.System

namespace TieredStore.RecordCache

open List

namespace Leaves

def Stores (leaves : Leaves) (key : Bytes) (tuple : ChainedTuple) : Prop :=
  ∃ frame, (leaves.frames frame).state ≠ .free ∧ ⟨key, tuple⟩ ∈ (leaves.frames frame).slots

variable {leaves : Leaves} {key : Bytes} {leaves' : Leaves}

theorem Holds.stores {frame slot : Nat} {tuple : ChainedTuple}
    (holds : leaves.Holds key frame slot tuple) : leaves.Stores key tuple :=
  ⟨frame, holds.1, mem_of_getElem? holds.2⟩

theorem WellFormed.unique (wellFormed : leaves.WellFormed)
    {tuple tuple' : ChainedTuple} (first : leaves.Stores key tuple)
    (second : leaves.Stores key tuple') : tuple = tuple' := by
  obtain ⟨frame, live, mem⟩ := first
  obtain ⟨frame', live', member'⟩ := second
  have routed := wellFormed.routed frame _ live mem
  have routed' := wellFormed.routed frame' _ live' member'
  subst routed
  subst routed'
  have same := inj_on_of_nodup_map (wellFormed.distinct _ live) mem member' rfl
  simpa using same

def SamePages (leaves leaves' : Leaves) : Prop :=
  leaves'.route = leaves.route ∧
    ∀ frame, (leaves'.frames frame).state = (leaves.frames frame).state ∧
      (leaves'.frames frame).slots = (leaves.frames frame).slots ∧
      (leaves'.frames frame).pid = (leaves.frames frame).pid

theorem samePages_bumpVersion (leaves : Leaves) (frame amount : Nat) :
    leaves.SamePages (leaves.bumpVersion frame amount) := by
  refine ⟨rfl, fun other => ?_⟩
  by_cases same : other = frame <;>
    simp [bumpVersion, setFrame, same]

theorem SamePages.wellFormed (same : leaves.SamePages leaves')
    (wellFormed : leaves.WellFormed) : leaves'.WellFormed where
  routed frame slot live mem := by
    obtain ⟨s, slots, -⟩ := same.2 frame
    rw [same.1]
    exact wellFormed.routed frame slot (s ▸ live) (slots ▸ mem)
  distinct frame live := by
    obtain ⟨s, slots, -⟩ := same.2 frame
    rw [slots]
    exact wellFormed.distinct frame (s ▸ live)

theorem SamePages.stores (same : leaves.SamePages leaves') (key : Bytes)
    (tuple : ChainedTuple) : leaves'.Stores key tuple ↔ leaves.Stores key tuple := by
  refine exists_congr fun frame => ?_
  obtain ⟨s, slots, -⟩ := same.2 frame
  rw [s, slots]

end Leaves

def LeafSection.Located (sect : LeafSection) (slots : List LeafSlot) :
    Prop :=
  match sect.op with
  | .insert _ =>
    sect.slot ≤ slots.length ∧ ∀ slot ∈ slots, slot.key ≠ sect.key
  | _ => ∃ tuple, slots[sect.slot]? = some ⟨sect.key, tuple⟩

structure Sought (leaves : Leaves) (op : WorkerOp) (key : Bytes) (sect : LeafSection) : Prop where
  op_eq : sect.op = op
  key_eq : sect.key = key
  frame_eq : sect.frame = leaves.route key
  hot : (leaves.frames sect.frame).state = .hot
  unlatched : (leaves.frames sect.frame).isExclusivelyLatched = false
  located : sect.Located (leaves.frames sect.frame).slots

variable {position : Nat}

theorem slotOf_some {frame : BufferFrame} {key : Bytes} (found : frame.slotOf key = some position) :
    ∃ tuple, frame.slots[position]? = some ⟨key, tuple⟩ := by
  obtain ⟨inside, matches', -⟩ := findIdx?_eq_some_iff_getElem.mp found
  refine ⟨frame.slots[position].tuple, ?_⟩
  have sameKey : frame.slots[position].key = key := by simpa using matches'
  rw [getElem?_eq_getElem inside, ← sameKey]

theorem slotOf_none {frame : BufferFrame} {key : Bytes}
    (missing : frame.slotOf key = none) : ∀ slot ∈ frame.slots, slot.key ≠ key := by
  intro slot mem same
  have := findIdx?_eq_none_iff.mp missing slot mem
  simp [same] at this

theorem Leaves.seek_spec {leaves : Leaves} {op : WorkerOp} {key : Bytes} {sect : LeafSection}
    (found : leaves.seek op key position = some sect) : Sought leaves op key sect := by
  simp only [seek] at found
  split at found
  · rename_i guards
    obtain ⟨hot, unlatched⟩ := guards
    split at found
    · rename_i value missing
      split at found
      · rename_i inside
        cases found
        exact ⟨rfl, rfl, rfl, hot, unlatched, inside, slotOf_none missing⟩
      · simp at found
    · simp at found
    · simp at found
    · rename_i value slot present
      obtain ⟨tuple, atSlot⟩ := slotOf_some present
      rw [atSlot] at found
      simp only at found
      split at found
      · cases found
        exact ⟨rfl, rfl, rfl, hot, unlatched, tuple, atSlot⟩
      · simp at found
    · rename_i slot present
      obtain ⟨tuple, atSlot⟩ := slotOf_some present
      rw [atSlot] at found
      simp only at found
      split at found
      · simp at found
      · cases found
        exact ⟨rfl, rfl, rfl, hot, unlatched, tuple, atSlot⟩
    · rename_i e slot present
      cases found
      exact ⟨rfl, rfl, rfl, hot, unlatched, slotOf_some present⟩
  · simp at found

namespace LeafSection

variable {sect : LeafSection} {slots : List LeafSlot} {tag : VersionTag}

private theorem map_key_modify (position : Nat) (change : LeafSlot → LeafSlot)
    (keeps : ∀ slot, (change slot).key = slot.key) (slots : List LeafSlot) :
    (slots.modify position change).map LeafSlot.key = slots.map LeafSlot.key := by
  refine ext_getElem? fun i => ?_
  rw [getElem?_map, getElem?_map, getElem?_modify]
  cases slots[i]? with
  | none => rfl
  | some slot =>
    simp only [Option.map_eq_map, Option.map_some, Option.some.injEq]
    split
    · exact keeps slot
    · rfl

variable {slot : LeafSlot} {change : LeafSlot → LeafSlot}

private theorem mem_modify (mem : slot ∈ slots.modify position change) :
    slot ∈ slots ∨ ∃ old, slots[position]? = some old ∧ slot = change old := by
  obtain ⟨i, atIndex⟩ := mem_iff_getElem?.mp mem
  rw [getElem?_modify] at atIndex
  cases present : slots[i]? with
  | none => simp [present] at atIndex
  | some old =>
    simp only [present, Option.map_eq_map, Option.map_some, Option.some.injEq] at atIndex
    split at atIndex
    · rename_i same
      subst same
      exact .inr ⟨old, present, atIndex.symm⟩
    · exact .inl (atIndex ▸ mem_of_getElem? present)

private theorem mem_modify_of_ne {old : LeafSlot}
    (atPosition : slots[position]? = some old) (mem : slot ∈ slots) (ne : slot ≠ old) :
    slot ∈ slots.modify position change := by
  obtain ⟨i, atIndex⟩ := mem_iff_getElem?.mp mem
  refine mem_iff_getElem?.mpr ⟨i, ?_⟩
  have elsewhere : position ≠ i := by
    rintro rfl
    rw [atPosition] at atIndex
    exact ne (Option.some.inj atIndex).symm
  simp [atIndex, elsewhere]

def outcome (sect : LeafSection) (tag : VersionTag)
    (slots : List LeafSlot) (tuple : ChainedTuple) : Prop :=
  match sect.op with
  | .insert value => tuple = ChainedTuple.inserted value tag
  | .undo (.insert _) => False
  | .undo e => ∃ old, slots[sect.slot]? = some ⟨sect.key, old⟩ ∧
    tuple = old.undone e
  | .update value => ∃ old, slots[sect.slot]? = some ⟨sect.key, old⟩ ∧
    tuple = old.updated value tag
  | .remove => ∃ old, slots[sect.slot]? = some ⟨sect.key, old⟩ ∧
    tuple = old.removed tag

variable (located : sect.Located slots)
include located

theorem mem_rewrite
    (distinct : (slots.map LeafSlot.key).Nodup) (mem : slot ∈ sect.rewrite tag slots) :
    (slot ∈ slots ∧ slot.key ≠ sect.key) ∨
      (slot.key = sect.key ∧ sect.outcome tag slots slot.tuple) := by
  have keepsOthers : ∀ (tuple : ChainedTuple) (change : LeafSlot → LeafSlot),
      slots[sect.slot]? = some ⟨sect.key, tuple⟩ →
      slot ∈ slots.modify sect.slot change →
      (∀ old, (change old).key = old.key) →
      (slot ∈ slots ∧ slot.key ≠ sect.key) ∨ slot = change ⟨sect.key, tuple⟩ := by
    intro tuple change atSlot inside keeps
    by_cases sameKey : slot.key = sect.key
    · right
      rcases mem_modify inside with old | ⟨old, present, rfl⟩
      · -- the old slot of this key is the one that was rewritten
        have keys := map_key_modify sect.slot change keeps slots
        have distinct' : ((slots.modify sect.slot change).map LeafSlot.key).Nodup := keys ▸ distinct
        have rewritten : change ⟨sect.key, tuple⟩ ∈
            slots.modify sect.slot change := by
          refine mem_iff_getElem?.mpr ⟨sect.slot, ?_⟩
          simp [atSlot]
        exact inj_on_of_nodup_map distinct' inside rewritten
          (sameKey.trans (keeps ⟨sect.key, tuple⟩).symm)
      · rw [atSlot] at present
        cases present
        rfl
    · rcases mem_modify inside with old | ⟨old, present, rfl⟩
      · exact .inl ⟨old, sameKey⟩
      · rw [atSlot] at present
        cases present
        exact absurd (keeps _) sameKey
  unfold rewrite at mem
  unfold Located at located
  unfold outcome
  cases op : sect.op with
  | insert =>
    simp only [op] at mem located
    rcases (mem_insertIdx located.1).mp mem with rfl | old
    · exact .inr ⟨rfl, rfl⟩
    · exact .inl ⟨old, located.2 slot old⟩
  | update | remove =>
    simp only [op] at mem located
    obtain ⟨tuple, atSlot⟩ := located
    rcases keepsOthers tuple _ atSlot mem (fun _ => rfl) with other | rfl
    · exact .inl other
    · exact .inr ⟨rfl, tuple, atSlot, rfl⟩
  | undo e =>
    simp only [op] at mem located
    obtain ⟨tuple, atSlot⟩ := located
    cases e with
    | insert =>
      left
      refine ⟨mem_of_mem_eraseIdx mem, fun sameKey => ?_⟩
      obtain ⟨inside, isSlot⟩ := List.getElem?_eq_some_iff.mp atSlot
      obtain ⟨i, bounded, outside, atIndex⟩ := mem_eraseIdx_iff_getElem.mp mem
      have samePosition : i = sect.slot := by
        have nodup := nodup_iff_injective_get.mp distinct
        have := @nodup ⟨i, by simpa using bounded⟩
          ⟨sect.slot, by simpa using inside⟩
          (by simp [atIndex, isSlot, sameKey])
        simpa using this
      exact outside samePosition
    | update | remove =>
      rcases keepsOthers tuple _ atSlot mem (fun _ => rfl) with other | rfl
      · exact .inl other
      · exact .inr ⟨rfl, tuple, atSlot, rfl⟩

theorem mem_rewrite_of_mem (mem : slot ∈ slots)
    (ne : slot.key ≠ sect.key) : slot ∈ sect.rewrite tag slots := by
  unfold rewrite
  unfold Located at located
  cases op : sect.op with
  | insert =>
    simp only [op] at located ⊢
    exact (mem_insertIdx located.1).mpr (.inr mem)
  | update | remove =>
    simp only [op] at located ⊢
    obtain ⟨tuple, atSlot⟩ := located
    exact mem_modify_of_ne atSlot mem (fun same => ne (by rw [same]))
  | undo e =>
    simp only [op] at located ⊢
    obtain ⟨tuple, atSlot⟩ := located
    cases e with
    | insert =>
      obtain ⟨i, inside, atIndex⟩ := mem_iff_getElem.mp mem
      refine mem_eraseIdx_iff_getElem.mpr ⟨i, inside, ?_, atIndex⟩
      rintro rfl
      rw [getElem?_eq_getElem inside, atIndex] at atSlot
      exact ne (by rw [Option.some.inj atSlot])
    | update | remove => exact mem_modify_of_ne atSlot mem (fun same => ne (by rw [same]))

theorem nodup_rewrite (distinct : (slots.map LeafSlot.key).Nodup) :
    ((sect.rewrite tag slots).map LeafSlot.key).Nodup := by
  have modified : ∀ change : LeafSlot → LeafSlot,
      (∀ old, (change old).key = old.key) →
      ((slots.modify sect.slot change).map LeafSlot.key).Nodup := by
    intro change keeps
    rwa [map_key_modify sect.slot change keeps]
  unfold rewrite
  unfold Located at located
  cases op : sect.op with
  | insert =>
    simp only [op] at located ⊢
    rw [map_insertIdx, (perm_insertIdx sect.key _ (by simpa using located.1)).nodup_iff]
    refine nodup_cons.mpr ⟨fun inside => ?_, distinct⟩
    obtain ⟨slot, mem, same⟩ := mem_map.mp inside
    exact located.2 slot mem same
  | update => exact modified _ fun _ => rfl
  | remove => exact modified _ fun _ => rfl
  | undo e =>
    cases e with
    | insert => exact distinct.sublist ((eraseIdx_sublist _ _).map _)
    | update => exact modified _ fun _ => rfl
    | remove => exact modified _ fun _ => rfl

end LeafSection

end TieredStore.RecordCache
