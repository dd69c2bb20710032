import TieredStore.BTree.Node

/-! Where `trySplit` cuts a node and what the halves hold. -/

namespace TieredStore.BTree

open CommonPrefix List

structure SeparatorInfo where
  length : Nat
  slot : Nat
  trunc : Bool
  deriving DecidableEq

namespace Node

variable (node : Node)

def slotAt (index : Nat) : Slot := node.slots.getD index default

def commonPrefixOf (first second : Nat) : Nat :=
  if node.slots.length = 0 then 0
  else commonPrefix (node.slotAt first).key (node.slotAt second).key

def bestSlot : Nat :=
  let count := node.slots.length
  if 16 < count then
    let lower := count / 2 - count / 16
    let upper := count / 2
    let best := node.commonPrefixOf lower 0
    if best ≠ node.commonPrefixOf (upper - 1) 0 then
      ((range' (lower + 1) (upper - (lower + 1))).find? fun slot =>
        node.commonPrefixOf slot 0 ≠ best).getD upper
    else lower
  else (count - 1) / 2

def sepAt (slot : Nat) : SeparatorInfo :=
  ⟨node.prefixLength + (node.slotAt slot).key.length, slot, false⟩

def findSep : SeparatorInfo :=
  if node.isLeaf then
    let best := node.bestSlot
    let common := node.commonPrefixOf best (best + 1)
    if best + 1 < node.slots.length ∧ common < (node.slotAt best).key.length ∧
        common + 1 < (node.slotAt (best + 1)).key.length then
      ⟨node.prefixLength + common + 1, best, true⟩
    else node.sepAt best
  else node.sepAt (node.slots.length / 2)

def sepInfo (useBulkInsert : Bool) (favored : Int) : SeparatorInfo :=
  if favored < 0 ∨ node.slots.length - 1 ≤ favored then
    if useBulkInsert then node.sepAt (node.slots.length - 2) else node.findSep
  else node.sepAt favored.toNat

def getSep (info : SeparatorInfo) : Bytes :=
  (node.lowerFence.getD []).take node.prefixLength ++
    (node.slotAt (if info.trunc then info.slot + 1 else info.slot)).key.take
      (info.length - node.prefixLength)

/-- `getChild`, and `upper` behind the last slot. -/
def childAt (index : Nat) : Bytes :=
  match node.slots[index]? with
  | some slot => slot.payload
  | none => node.upper

/-- The new left node, and what becomes of the node itself. -/
def split (sepSlot : Nat) (sepKey : Bytes) : Node × Node :=
  let left := setFences node.isLeaf node.lowerFence (some sepKey)
  let right := setFences node.isLeaf (some sepKey) node.upperFence
  if node.isLeaf then
    (node.copyKeyValueRange { left with hasGarbage := node.hasGarbage }
        (node.slots.take (sepSlot + 1)),
      node.copyKeyValueRange { right with hasGarbage := node.hasGarbage }
        (node.slots.drop (sepSlot + 1)))
  else
    (node.copyKeyValueRange { left with upper := node.childAt sepSlot } (node.slots.take sepSlot),
      node.copyKeyValueRange { right with upper := node.upper } (node.slots.drop (sepSlot + 1)))

/-- The position of the first key that is not smaller. -/
def lowerBound (key : Bytes) : Nat :=
  (node.entries.takeWhile fun entry => decide (entry.1 < key)).length

def lookupInner (key : Bytes) : Bytes := node.childAt (node.lowerBound key)

def insert (key payload : Bytes) : Node :=
  { node with
    slots := node.slots.take (node.lowerBound key) ++
      ⟨key.drop node.prefixLength, payload⟩ :: node.slots.drop (node.lowerBound key) }

variable {node}

section

variable {i : Nat} (inside : i < node.slots.length)
include inside

theorem take_slots : node.slots.take (i + 1) = node.slots.take i ++ [node.slotAt i] := by
  rw [take_succ_eq_append_getElem inside, slotAt, getD_eq_getElem _ _ inside]

theorem drop_slots : node.slots.drop i = node.slotAt i :: node.slots.drop (i + 1) := by
  rw [slotAt, getD_eq_getElem _ _ inside, drop_eq_getElem_cons]

theorem slotAt_mem : node.slotAt i ∈ node.slots := by
  rw [slotAt, getD_eq_getElem _ _ inside]
  exact getElem_mem inside

end

theorem bestSlot_lt (two : 2 ≤ node.slots.length) : node.bestSlot + 1 < node.slots.length := by
  simp only [bestSlot]
  split
  · split
    · cases isFound : (range' _ _).find? _ with
      | none => simp only [Option.getD_none]; omega
      | some =>
        have isIn := mem_of_find?_eq_some isFound
        simp only [mem_range'_1, Option.getD_some] at isIn ⊢
        omega
    · omega
  · omega

/-- What is known of a separator: the key of its slot, or so much of the next key that it
differs from that one. -/
def Chosen (node : Node) (info : SeparatorInfo) : Prop :=
  info.slot < node.slots.length ∧
    (node.isLeaf = true → info.slot + 1 < node.slots.length) ∧
    (info = node.sepAt info.slot ∨ node.isLeaf = true ∧ info.trunc = true ∧
      ∃ common,
        common = commonPrefix (node.slotAt info.slot).key (node.slotAt (info.slot + 1)).key ∧
        info.length = node.prefixLength + common + 1 ∧
        common < (node.slotAt info.slot).key.length ∧
        common + 1 < (node.slotAt (info.slot + 1)).key.length)

theorem chosen_sepInfo (two : 2 ≤ node.slots.length) (useBulkInsert : Bool) (favored : Int) :
    node.Chosen (node.sepInfo useBulkInsert favored) := by
  have sepAt : ∀ slot, slot < node.slots.length → (node.isLeaf = true →
      slot + 1 < node.slots.length) → node.Chosen (node.sepAt slot) :=
    fun slot inside next => ⟨inside, next, .inl rfl⟩
  unfold sepInfo
  split
  · split
    · exact sepAt _ (by omega) (by omega)
    · have best := bestSlot_lt two
      unfold findSep
      split
      · next isLeaf =>
        dsimp only
        split
        · next truncates =>
          rw [commonPrefixOf, if_neg (by omega)] at truncates ⊢
          exact ⟨Nat.lt_of_succ_lt best, fun _ => best,
            .inr ⟨isLeaf, rfl, _, rfl, rfl, truncates.2⟩⟩
        · exact sepAt _ (by omega) (fun _ => best)
      · next isInner => exact sepAt _ (by omega) (fun isLeaf => absurd isLeaf isInner)
  · exact sepAt _ (by omega) (by omega)

variable {info : SeparatorInfo}

theorem getSep_sepAt (slot : Nat) :
    node.getSep (node.sepAt slot) = node.fullKey (node.slotAt slot) := by
  simp [getSep, sepAt, fullKey]

theorem WellFormed.pairwise (wf : node.WellFormed) :
    node.slots.Pairwise fun slot next => node.fullKey slot < node.fullKey next := by
  simpa only [entries, pairwise_map] using wf.sorted

theorem WellFormed.within_slot (wf : node.WellFormed) {slot : Slot} (isIn : slot ∈ node.slots) :
    Within node.lowerFence node.upperFence (node.fullKey slot) :=
  wf.within _ (mem_map_of_mem isIn)

theorem Chosen.separates (chosen : node.Chosen info) (wf : node.WellFormed) :
    (∀ slot ∈ node.slots.take (info.slot + 1), node.fullKey slot ≤ node.getSep info) ∧
      ∀ slot ∈ node.slots.drop (info.slot + 1), node.getSep info < node.fullKey slot := by
  obtain ⟨inside, next, isSep⟩ := chosen
  have increasing := wf.pairwise
  rw [← take_append_drop info.slot node.slots, drop_slots inside, pairwise_append,
    pairwise_cons] at increasing
  obtain ⟨-, ⟨above, rest⟩, below⟩ := increasing
  have upTo : ∀ {sep}, node.fullKey (node.slotAt info.slot) ≤ sep →
      ∀ slot ∈ node.slots.take (info.slot + 1), node.fullKey slot ≤ sep := by
    intro sep le slot isIn
    rw [take_slots inside, mem_append, mem_singleton] at isIn
    rcases isIn with isIn | rfl
    · exact (below slot isIn _ mem_cons_self).le.trans le
    · exact le
  rcases isSep with isSep | ⟨isLeaf, isTrunc, common, rfl, length, more, more'⟩
  · rw [isSep, getSep_sepAt]
    exact ⟨upTo le_rfl, above⟩
  · have isSep : node.getSep info = (node.lowerFence.getD []).take node.prefixLength ++
        (node.slotAt (info.slot + 1)).key.take (commonPrefix (node.slotAt info.slot).key
          (node.slotAt (info.slot + 1)).key + 1) := by
      rw [getSep, isTrunc, if_pos rfl, length, add_assoc, Nat.add_sub_cancel_left]
    rw [drop_slots (next isLeaf)] at above rest ⊢
    have less := (append_lt_append_iff _).mp (above _ mem_cons_self)
    have isBelow : node.getSep info < node.fullKey (node.slotAt (info.slot + 1)) :=
      isSep ▸ (append_lt_append_iff _).mpr (take_lt more')
    refine ⟨upTo (isSep ▸ ((append_lt_append_iff _).mpr (lt_take less more)).le), ?_⟩
    rw [forall_mem_cons]
    exact ⟨isBelow, fun slot isIn => isBelow.trans ((pairwise_cons.mp rest).1 slot isIn)⟩

theorem Chosen.within (chosen : node.Chosen info) (wf : node.WellFormed) :
    Within node.lowerFence node.upperFence (node.getSep info) := by
  obtain ⟨upTo, behind⟩ := chosen.separates wf
  obtain ⟨inside, next, isSep⟩ := chosen
  have atSlot := wf.within_slot (slotAt_mem inside)
  have le := upTo (node.slotAt info.slot) (by simp [take_slots inside])
  refine ⟨fun fence isLower => (atSlot.1 fence isLower).trans_le le, fun fence isUpper => ?_⟩
  rcases isSep with isSep | ⟨isLeaf, -⟩
  · rw [isSep, getSep_sepAt]
    exact atSlot.2 fence isUpper
  · have less := behind (node.slotAt (info.slot + 1)) (by simp [drop_slots (next isLeaf)])
    exact less.le.trans ((wf.within_slot (slotAt_mem (next isLeaf))).2 fence isUpper)

theorem Chosen.isKey (chosen : node.Chosen info) (isInner : node.isLeaf = false) :
    node.getSep info = node.fullKey (node.slotAt info.slot) := by
  rcases chosen.2.2 with isSep | ⟨isLeaf, -⟩
  · rw [isSep, getSep_sepAt]
    rfl
  · rw [isInner] at isLeaf
    cases isLeaf

theorem WellFormed.part (wf : node.WellFormed) {target : Node} {part : List Slot}
    (isPrefix : target.prefixLength =
      commonPrefix (target.lowerFence.getD []) (target.upperFence.getD []))
    (empty : target.slots = []) (isPart : part.Sublist node.slots)
    (fences : ∀ lower ∈ target.lowerFence, ∀ upper ∈ target.upperFence, lower ≤ upper)
    (within : ∀ slot ∈ part, Within target.lowerFence target.upperFence (node.fullKey slot))
    (fits : (node.copyKeyValueRange target part).occupied ≤ effectivePageSize) :
    (node.copyKeyValueRange target part).WellFormed ∧ (node.copyKeyValueRange target part).entries =
        part.map fun slot => (node.fullKey slot, slot.payload) := by
  have entries : (node.copyKeyValueRange target part).entries =
      part.map fun slot => (node.fullKey slot, slot.payload) := by
    rw [wf.entries_copy isPrefix within, entries, empty, map_nil, nil_append]
  refine ⟨⟨isPrefix, fences, ?_, ?_, fits⟩, entries⟩
  · rw [entries, pairwise_map]
    exact wf.pairwise.sublist isPart
  · rw [entries, forall_mem_map]
    exact within

theorem Chosen.within_left (chosen : node.Chosen info) (wf : node.WellFormed)
    {slot : Slot}
    (isIn : slot ∈ node.slots.take (info.slot + 1)) :
    Within node.lowerFence (some (node.getSep info)) (node.fullKey slot) :=
  ⟨(wf.within_slot (mem_of_mem_take isIn)).1, by simpa using (chosen.separates wf).1 slot isIn⟩

theorem Chosen.within_right (chosen : node.Chosen info) (wf : node.WellFormed)
    {slot : Slot}
    (isIn : slot ∈ node.slots.drop (info.slot + 1)) :
    Within (some (node.getSep info)) node.upperFence (node.fullKey slot) :=
  ⟨by simpa using (chosen.separates wf).2 slot isIn, (wf.within_slot (mem_of_mem_drop isIn)).2⟩


structure Halves (node : Node) (sep : Bytes) (left right : Node) : Prop where
  leftFences : left.lowerFence = node.lowerFence ∧ left.upperFence = some sep
  rightFences : right.lowerFence = some sep ∧ right.upperFence = node.upperFence
  leaf : node.isLeaf = true → left.entries ++ right.entries = node.entries
  inner : node.isLeaf = false → left.entries ++ (sep, left.upper) :: right.entries = node.entries ∧
    right.upper = node.upper
  left : left.WellFormed
  right : right.WellFormed

theorem Chosen.halves (chosen : node.Chosen info) (wf : node.WellFormed)
    (leftFits : (node.split info.slot (node.getSep info)).1.occupied ≤ effectivePageSize)
    (rightFits : (node.split info.slot (node.getSep info)).2.occupied ≤ effectivePageSize) :
    node.Halves (node.getSep info) (node.split info.slot (node.getSep info)).1
      (node.split info.slot (node.getSep info)).2 := by
  have sep := chosen.within wf
  have leftFences : ∀ lower ∈ node.lowerFence, ∀ upper ∈ some (node.getSep info),
      lower ≤ upper := by
    simpa using fun lower isLower => (sep.1 lower isLower).le
  have rightFences : ∀ lower ∈ some (node.getSep info), ∀ upper ∈ node.upperFence,
      lower ≤ upper := by
    simpa using sep.2
  have leftWithin : ∀ slot ∈ node.slots.take (info.slot + 1), _ := fun _ => chosen.within_left wf
  have rightWithin : ∀ slot ∈ node.slots.drop (info.slot + 1), _ := fun _ => chosen.within_right wf
  cases isLeaf : node.isLeaf with
  | true =>
    simp only [split, isLeaf, if_true] at leftFits rightFits ⊢
    have left := wf.part rfl rfl (take_sublist _ _) leftFences leftWithin leftFits
    have right := wf.part rfl rfl (drop_sublist _ _) rightFences rightWithin rightFits
    refine ⟨⟨rfl, rfl⟩, ⟨rfl, rfl⟩, fun _ => ?_, by simp [isLeaf], left.1, right.1⟩
    rw [left.2, right.2, ← map_append, take_append_drop]
    rfl
  | false =>
    have inside := chosen.1
    simp only [split, isLeaf, Bool.false_eq_true, if_false] at leftFits rightFits ⊢
    have left := wf.part rfl rfl (take_sublist _ _) leftFences
      (fun slot isIn => leftWithin slot (take_subset_take_left _ (Nat.le_succ _) isIn)) leftFits
    have right := wf.part rfl rfl (drop_sublist _ _) rightFences rightWithin rightFits
    refine ⟨⟨rfl, rfl⟩, ⟨rfl, rfl⟩, by simp [isLeaf], fun _ => ⟨?_, rfl⟩, left.1, right.1⟩
    have child : node.childAt info.slot = (node.slotAt info.slot).payload := by
      simp [childAt, slotAt, getElem?_eq_getElem inside]
    rw [left.2, right.2, chosen.isKey isLeaf]
    change _ ++ (_, node.childAt info.slot) :: _ = node.slots.map _
    conv_rhs => rw [← take_append_drop info.slot node.slots, drop_slots inside]
    rw [child, map_append, map_cons]

/-- The keys of the node lie between two separators of the parent. -/
structure Refers (parent : Node) (position : Nat) (node : Node) : Prop where
  within : ∀ key, Within node.lowerFence node.upperFence key →
    Within parent.lowerFence parent.upperFence key
  below : ∀ e ∈ parent.entries.take position, ∀ key,
    Within node.lowerFence node.upperFence key → e.1 < key
  above : ∀ e ∈ parent.entries.drop position, ∀ key,
    Within node.lowerFence node.upperFence key → key ≤ e.1

theorem lowerBound_eq {before behind : List (Bytes × Bytes)} {key : Bytes}
    (isSplit : node.entries = before ++ behind) (below : ∀ e ∈ before, e.1 < key)
    (above : ∀ e ∈ behind, key ≤ e.1) : node.lowerBound key = before.length := by
  have none : behind.takeWhile (fun e => decide (e.1 < key)) = [] := by
    cases behind with
    | nil => rfl
    | cons e => simp [(above e mem_cons_self).not_gt]
  rw [lowerBound, isSplit, takeWhile_append_of_pos (by simpa using below), none, append_nil]

theorem childAt_eq {before behind : List (Bytes × Bytes)}
    (isSplit : node.entries = before ++ behind) :
    node.childAt before.length = (behind.head?.map Prod.snd).getD node.upper := by
  have atIndex : node.entries[before.length]? = behind.head? := by
    rw [isSplit, getElem?_append_right le_rfl, Nat.sub_self, head?_eq_getElem?]
  rw [← atIndex, entries, getElem?_map, childAt]
  cases node.slots[before.length]? <;> rfl

theorem Refers.routes {parent : Node} {position : Nat} {sep key swip : Bytes}
    (refers : parent.Refers position node) (wf : parent.WellFormed)
    (inside : position ≤ parent.slots.length) (isSep : Within node.lowerFence node.upperFence sep)
    (isKey : Within node.lowerFence node.upperFence key) :
    (parent.insert sep swip).lookupInner key =
      if key ≤ sep then swip else parent.childAt position := by
  have cut := (take_append_drop position parent.entries).symm
  have length : (parent.entries.take position).length = position := by
    simpa [entries] using inside
  have atSep : parent.lowerBound sep = position :=
    (lowerBound_eq cut (fun e isIn => refers.below e isIn sep isSep)
      fun e isIn => refers.above e isIn sep isSep).trans length
  have inserted : (parent.insert sep swip).entries =
      parent.entries.take position ++ (sep, swip) :: parent.entries.drop position := by
    have isFull : parent.fullKey ⟨sep.drop parent.prefixLength, swip⟩ = sep := by
      obtain ⟨low, high⟩ := refers.within sep isSep
      rw [fullKey, ← take_of_fences wf.prefixLength (fun fence isLower => (low fence isLower).le)
        high, take_append_drop]
    simp only [insert, atSep, entries, map_append, map_cons, map_take, map_drop]
    exact congrArg (fun full => _ ++ (full, swip) :: _) isFull
  have below := fun e isIn => refers.below e isIn key isKey
  have above := fun e isIn => refers.above e isIn key isKey
  rw [lookupInner]
  split
  · next le =>
    rw [lowerBound_eq inserted below (by simpa [le] using above), childAt_eq inserted]
    rfl
  · next more =>
    rw [← singleton_append, ← append_assoc] at inserted
    rw [lowerBound_eq inserted (by simpa [not_le.mp more, or_imp, forall_and] using below) above,
      childAt_eq inserted]
    have old := childAt_eq cut
    rw [length] at old
    exact old.symm

/-- Provided the halves fit: the separator is not below its slot's key and below the next one,
the halves share out the entries at it, and the parent sends the keys up to it to the left. -/
theorem split_correct (wf : node.WellFormed) (two : 2 ≤ node.slots.length)
    (useBulkInsert : Bool) (favored : Int) (isInfo : info = node.sepInfo useBulkInsert favored)
    (leftFits : (node.split info.slot (node.getSep info)).1.occupied ≤ effectivePageSize)
    (rightFits : (node.split info.slot (node.getSep info)).2.occupied ≤ effectivePageSize)
    (parent : Node) (position : Nat) (refers : parent.Refers position node)
    (parentWf : parent.WellFormed) (inside : position ≤ parent.slots.length) (swip : Bytes) :
    (node.isLeaf = true → node.fullKey (node.slotAt info.slot) ≤ node.getSep info ∧
      node.getSep info < node.fullKey (node.slotAt (info.slot + 1))) ∧
    (node.isLeaf = false → node.getSep info = node.fullKey (node.slotAt info.slot)) ∧
    node.Halves (node.getSep info) (node.split info.slot (node.getSep info)).1
      (node.split info.slot (node.getSep info)).2 ∧
    ∀ key, Within node.lowerFence node.upperFence key →
      (parent.insert (node.getSep info) swip).lookupInner key =
        if key ≤ node.getSep info then swip else parent.childAt position := by
  have chosen : node.Chosen info := isInfo ▸ chosen_sepInfo two useBulkInsert favored
  obtain ⟨upTo, behind⟩ := chosen.separates wf
  refine ⟨fun isLeaf => ⟨upTo _ ?_, behind _ ?_⟩, chosen.isKey,
    chosen.halves wf leftFits rightFits,
    fun key => refers.routes parentWf inside (chosen.within wf)⟩
  · simp [take_slots chosen.1]
  · simp [drop_slots (chosen.2.1 isLeaf)]

def smallLeaf : Node := ⟨true, none, none, 0, [⟨[1], [7]⟩, ⟨[2, 5], [8]⟩], [], false⟩

theorem smallLeaf_wellFormed : smallLeaf.WellFormed :=
  ⟨by decide, by decide, by decide, by decide, by decide⟩

theorem split_correct_root : ∃ info, info = smallLeaf.sepInfo false (-1) ∧
    smallLeaf.getSep info = [2] ∧ smallLeaf.Halves (smallLeaf.getSep info)
      (smallLeaf.split info.slot (smallLeaf.getSep info)).1
      (smallLeaf.split info.slot (smallLeaf.getSep info)).2 :=
  ⟨_, rfl, by decide, (split_correct smallLeaf_wellFormed (by decide) false (-1) rfl (by decide)
    (by decide) (setFences false none none) 0
    ⟨fun _ isIn => isIn, by simp, by simp [entries, setFences]⟩
    ⟨by decide, by decide, by decide, by decide, by decide⟩ (by decide) []).2.2.1⟩

def load (slots : List Slot) : Nat :=
  (slots.map fun slot => sizeofSlot + slot.key.length + slot.payload.length).sum

theorem load_append (first second : List Slot) :
    load (first ++ second) = load first + load second := by
  simp [load]

theorem load_cons (slot : Slot) (rest : List Slot) :
    load (slot :: rest) = sizeofSlot + slot.key.length + slot.payload.length + load rest := by
  simp [load]

theorem occupied_eq : node.occupied = slotEnd 0 + (node.lowerFence.getD []).length +
    (node.upperFence.getD []).length + load node.slots := by
  have slots : ∀ slots, load slots = sizeofSlot * slots.length +
      (slots.map fun slot => slot.key.length + slot.payload.length).sum := by
    intro slots
    induction slots with
    | nil => rfl
    | cons slot _ ih =>
      simp only [load_cons, ih, length_cons, map_cons, sum_cons]
      ring
  simp only [occupied, spaceUsed, slots, slotEnd]
  ring

/-- A copied key is shorter by what the prefix is longer. -/
theorem WellFormed.load_copy (wf : node.WellFormed) {target : Node} {part : List Slot}
    (isPrefix : target.prefixLength =
      commonPrefix (target.lowerFence.getD []) (target.upperFence.getD []))
    (within : ∀ slot ∈ part, Within target.lowerFence target.upperFence (node.fullKey slot)) :
    load (part.map (node.copyKeyValue target)) + target.prefixLength * part.length =
      load part + node.prefixLength * part.length := by
  induction part with
  | nil => rfl
  | cons slot rest ih =>
    rw [forall_mem_cons] at within
    have same := congrArg length (fullKey_copyKeyValue isPrefix within.1 wf.long)
    rw [length_fullKey wf.long, length_fullKey (isPrefix ▸ commonPrefix_le_left)] at same
    have rest := ih within.2
    rw [map_cons, load_cons, load_cons, length_cons, Nat.mul_succ, Nat.mul_succ,
      payload_copyKeyValue]
    omega

theorem WellFormed.occupied_copy (wf : node.WellFormed) {target : Node} {part : List Slot}
    (isPrefix : target.prefixLength =
      commonPrefix (target.lowerFence.getD []) (target.upperFence.getD []))
    (empty : target.slots = [])
    (within : ∀ slot ∈ part, Within target.lowerFence target.upperFence (node.fullKey slot)) :
    (node.copyKeyValueRange target part).occupied + target.prefixLength * part.length =
      slotEnd 0 + (target.lowerFence.getD []).length + (target.upperFence.getD []).length +
        load part + node.prefixLength * part.length := by
  have copied := wf.load_copy isPrefix within
  simp only [occupied_eq, copyKeyValueRange, empty, nil_append]
  omega

theorem WellFormed.occupied_copy_le (wf : node.WellFormed) {target : Node} {part : List Slot}
    (isPrefix : target.prefixLength =
      commonPrefix (target.lowerFence.getD []) (target.upperFence.getD []))
    (empty : target.slots = [])
    (within : ∀ slot ∈ part, Within target.lowerFence target.upperFence (node.fullKey slot))
    (longer : node.prefixLength ≤ target.prefixLength) :
    (node.copyKeyValueRange target part).occupied ≤ slotEnd 0 +
      (target.lowerFence.getD []).length + (target.upperFence.getD []).length + load part := by
  have copied := wf.occupied_copy isPrefix empty within
  have less : node.prefixLength * part.length ≤ target.prefixLength * part.length :=
    Nat.mul_le_mul_right _ longer
  omega

section Separator

variable (wf : node.WellFormed)

theorem length_getSep_le : (node.getSep info).length ≤ max node.prefixLength info.length := by
  simp only [getSep, length_append, length_take]
  omega

include wf

theorem WellFormed.take_getSep : (node.getSep info).take node.prefixLength =
    (node.lowerFence.getD []).take node.prefixLength :=
  take_left' (by simpa using wf.long)

/-- The separator begins with the node's prefix, so neither half has a shorter one. -/
theorem WellFormed.le_commonPrefix_getSep : node.prefixLength ≤
    commonPrefix (node.lowerFence.getD []) (node.getSep info) :=
  le_commonPrefix wf.long wf.take_getSep.symm

theorem WellFormed.le_commonPrefix_getSep' : node.prefixLength ≤
    commonPrefix (node.getSep info) (node.upperFence.getD []) := by
  refine le_commonPrefix (by simp [getSep, wf.long]) (wf.take_getSep.trans ?_)
  rw [wf.prefixLength]
  exact take_commonPrefix

end Separator

namespace Chosen

variable (chosen : node.Chosen info)
include chosen

theorem length_le : info.length ≤ node.prefixLength + (node.slotAt info.slot).key.length := by
  rcases chosen.2.2 with isSep | ⟨-, -, common, -, length, more, more'⟩
  · exact (congrArg SeparatorInfo.length isSep).le
  · omega

theorem length_le_of_trunc (isTrunc : info.trunc = true) :
    info.length ≤ node.prefixLength + load (node.slots.drop (info.slot + 1)) := by
  rcases chosen.2.2 with isSep | ⟨isLeaf, -, common, -, length, more, more'⟩
  · rw [isSep] at isTrunc
    cases isTrunc
  · rw [drop_slots (chosen.2.1 isLeaf), load_cons]
    omega

variable (wf : node.WellFormed)
include wf

theorem occupied_left_leaf (isLeaf : node.isLeaf = true) :
    (node.split info.slot (node.getSep info)).1.occupied +
        commonPrefix (node.lowerFence.getD []) (node.getSep info) *
          (node.slots.take (info.slot + 1)).length =
      slotEnd 0 + (node.lowerFence.getD []).length + (node.getSep info).length +
        load (node.slots.take (info.slot + 1)) +
        node.prefixLength * (node.slots.take (info.slot + 1)).length := by
  rw [split, if_pos isLeaf]
  exact wf.occupied_copy rfl rfl fun _ => chosen.within_left wf

theorem occupied_left_inner (isLeaf : node.isLeaf = false) :
    (node.split info.slot (node.getSep info)).1.occupied ≤
      slotEnd 0 + (node.lowerFence.getD []).length + (node.getSep info).length +
        load (node.slots.take info.slot) := by
  rw [split, isLeaf, if_neg Bool.false_ne_true]
  exact wf.occupied_copy_le rfl rfl (fun _ isIn => chosen.within_left wf
    (take_subset_take_left _ (Nat.le_succ _) isIn)) wf.le_commonPrefix_getSep

theorem occupied_right : (node.split info.slot (node.getSep info)).2.occupied ≤
    slotEnd 0 + (node.getSep info).length + (node.upperFence.getD []).length +
      load (node.slots.drop (info.slot + 1)) := by
  rw [split]
  split <;>
    exact wf.occupied_copy_le rfl rfl (fun _ => chosen.within_right wf) wf.le_commonPrefix_getSep'

end Chosen

/-- The right half always fits, and so does the left one, unless the separator is the whole key
of a leaf's slot: then the left half has that key twice. -/
theorem split_halves_fit (wf : node.WellFormed) (two : 2 ≤ node.slots.length)
    (useBulkInsert : Bool) (favored : Int) (isInfo : info = node.sepInfo useBulkInsert favored) :
    ((node.split info.slot (node.getSep info)).1.occupied ≤ effectivePageSize ∧
        (node.split info.slot (node.getSep info)).2.occupied ≤ effectivePageSize) ↔
      (node.isLeaf = true → info.trunc = false →
        slotEnd 0 + (node.lowerFence.getD []).length + (node.getSep info).length +
            load (node.slots.take (info.slot + 1)) ≤
          effectivePageSize + (commonPrefix (node.lowerFence.getD []) (node.getSep info) -
            node.prefixLength) * (info.slot + 1)) := by
  have chosen : node.Chosen info := isInfo ▸ chosen_sepInfo two useBulkInsert favored
  have long := wf.long
  have upper : node.prefixLength ≤ (node.upperFence.getD []).length :=
    wf.prefixLength ▸ commonPrefix_le_right
  have sepLength := @length_getSep_le node info
  have right := chosen.occupied_right wf
  have fits := wf.fits
  have cut := load_append (node.slots.take (info.slot + 1)) (node.slots.drop (info.slot + 1))
  have slot := congrArg load (take_slots chosen.1)
  simp only [take_append_drop, load_append, load_cons] at cut slot
  rw [occupied_eq, cut] at fits
  -- What the separator adds to a half, the other half's entries take off.
  have short := chosen.length_le
  cases isLeaf : node.isLeaf with
  | true =>
    have count : (node.slots.take (info.slot + 1)).length = info.slot + 1 :=
      length_take_of_le chosen.1
    have left := chosen.occupied_left_leaf wf isLeaf
    rw [count] at left
    have less := Nat.mul_le_mul_right (info.slot + 1)
      (@WellFormed.le_commonPrefix_getSep node info wf)
    rw [Nat.sub_mul]
    cases isTrunc : info.trunc with
    | true =>
      have := chosen.length_le_of_trunc isTrunc
      simp only [forall_const, Bool.true_eq_false, false_implies, iff_true]
      omega
    | false =>
      simp only [forall_const]
      omega
  | false =>
    have left := chosen.occupied_left_inner wf isLeaf
    simp only [Bool.false_eq_true, false_implies, iff_true]
    omega

theorem split_halves_fit_small : ∃ info, info = smallLeaf.sepInfo false (-1) ∧
    (smallLeaf.split info.slot (smallLeaf.getSep info)).1.occupied ≤ effectivePageSize :=
  ⟨_, rfl,
    ((split_halves_fit smallLeaf_wellFormed (by decide) false (-1) rfl).mpr (by decide)).1⟩

def longLeaf : Node :=
  ⟨true, none, none, 0, [⟨0 :: replicate 8999 0, []⟩, ⟨[1], []⟩], [], false⟩

theorem overflows_of_long {leaf : Node} {rest : Bytes} (long : rest.length = 8999)
    (isLeaf : leaf = ⟨true, none, none, 0, [⟨0 :: rest, []⟩, ⟨[1], []⟩], [], false⟩) :
    leaf.WellFormed ∧ 2 ≤ leaf.slots.length ∧ ∃ info, info = leaf.sepInfo false (-1) ∧
      effectivePageSize < (leaf.split info.slot (leaf.getSep info)).1.occupied := by
  subst isLeaf
  refine ⟨⟨rfl, by simp, ?_, ?_, ?_⟩, le_rfl, _, rfl, ?_⟩
  · simp [entries, fullKey, cons_lt_cons_iff]
  · simp [entries, Within]
  · simp [long, occupied, spaceUsed, slotEnd, sizeofSlot, effectivePageSize]
  · simp [long, sepInfo, findSep, bestSlot, commonPrefixOf, slotAt, sepAt, split, getSep, setFences,
      copyKeyValueRange, copyKeyValue, commonPrefix, occupied, spaceUsed, slotEnd, sizeofSlot,
      effectivePageSize]

/-- The left half has the long key and the same key as its fence. -/
theorem split_left_overflows : longLeaf.WellFormed ∧ 2 ≤ longLeaf.slots.length ∧
    ∃ info, info = longLeaf.sepInfo false (-1) ∧
      effectivePageSize < (longLeaf.split info.slot (longLeaf.getSep info)).1.occupied :=
  overflows_of_long length_replicate rfl

end Node

end TieredStore.BTree
