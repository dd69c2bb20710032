import TieredStore.BTree.Merge
import TieredStore.Lib.Transition

/-!
`has_garbage` marks a leaf with fat tuples.  A leaf that is rebuilt in a temporary node gets
the header of that node, and only `split` carries the flag over.
-/

namespace TieredStore.BTree

open List Transition

/-- The first byte of a tuple is its `TupleFormat`. -/
def isFat (payload : Bytes) : Bool := payload.head? = some 1

namespace Node

variable (node left right : Node)

def holdsFat : Bool := node.slots.any fun slot => isFat slot.payload

def compactify : Node :=
  { node.copyKeyValueRange (setFences node.isLeaf node.lowerFence node.upperFence) node.slots with
    upper := node.upper }

/-- The node is rebuilt where the free space is not in one piece. -/
def requestSpaceFor (compacts : Bool) : Node := if compacts then node.compactify else node

def setPayload (slot : Nat) (payload : Bytes) : Node :=
  { node with slots := node.slots.modify slot fun old => { old with payload := payload } }

/-- The left sibling keeps the slots below `till`. -/
def partialMerge (till : Nat) : Node × Node :=
  let fence := left.fullKey (left.slotAt (till - 1))
  (left.copyKeyValueRange (setFences true left.lowerFence (some fence)) (left.slots.take till),
    right.copyKeyValueRange
      (left.copyKeyValueRange (setFences true (some fence) right.upperFence) (left.slots.drop till))
      right.slots)

/-- `checkSpaceUtilization` turns the fat tuples to chained ones. -/
def decompose : Node :=
  { node with
    slots := node.slots.map fun slot =>
      if isFat slot.payload then { slot with payload := 0 :: slot.payload.tail } else slot
    hasGarbage := false }

variable {node left right}

theorem holdsFat_copy (target : Node) (part : List Slot) :
    (node.copyKeyValueRange target part).holdsFat =
      (target.holdsFat || part.any fun slot => isFat slot.payload) := by
  have payload : ∀ slot, (node.copyKeyValue target slot).payload = slot.payload := by
    intro slot
    unfold copyKeyValue
    split <;> rfl
  simp [holdsFat, copyKeyValueRange, payload, Function.comp_def]

theorem holdsFat_compactify : node.compactify.holdsFat = node.holdsFat :=
  (holdsFat_copy _ _).trans (Bool.false_or _)

end Node

inductive LeafOp
  | insert (key value : Bytes) (compacts : Bool)
  | convertToFat (slot : Nat) (tuple : Bytes) (compacts : Bool)
  | writeChained (slot : Nat) (tuple : Bytes) (compacts : Bool)
  | removeSlot (slot : Nat)
  | split (sepSlot : Nat) (sepKey : Bytes)
  | merge
  | partialMerge (till : Nat)
  | checkSpaceUtilization

def LeafOp.apply (leaf : Node) (siblings : List Node) : LeafOp → Option (List Node)
  | .insert key value compacts =>
    some ((leaf.requestSpaceFor compacts).insert key (0 :: value) :: siblings)
  | .convertToFat slot tuple compacts =>
    some ({ (leaf.requestSpaceFor compacts).setPayload slot (1 :: tuple) with
      hasGarbage := true } :: siblings)
  -- `convertToChained`, or the undo of a remove, which extends the payload
  | .writeChained slot tuple compacts =>
    some ((leaf.requestSpaceFor compacts).setPayload slot (0 :: tuple) :: siblings)
  | .removeSlot slot => some ({ leaf with slots := leaf.slots.eraseIdx slot } :: siblings)
  | .split sepSlot sepKey =>
    some ((leaf.split sepSlot sepKey).1 :: (leaf.split sepSlot sepKey).2 :: siblings)
  | .merge =>
    match siblings with
    | right :: rest => (leaf.merge right (right.lowerFence.getD [])).map (· :: rest)
    | [] => none
  | .partialMerge till =>
    match siblings with
    | right :: rest =>
      some ((leaf.partialMerge right till).1 :: (leaf.partialMerge right till).2 :: rest)
    | [] => none
  | .checkSpaceUtilization =>
    some ((if leaf.hasGarbage then leaf.decompose else leaf) :: siblings)

def leafStep (leaves : List Node) (action : Nat × LeafOp) : Option (List Node) :=
  match leaves.drop action.1 with
  | leaf :: siblings => (action.2.apply leaf siblings).map (leaves.take action.1 ++ ·)
  | [] => none

def Flagged (leaf : Node) : Prop :=
  leaf.isLeaf = true ∧ (leaf.holdsFat = true → leaf.hasGarbage = true)

/-- How many leaves the operation rebuilds without their flag. -/
def LeafOp.rebuilds : LeafOp → Nat
  | .insert _ _ compacts => compacts.toNat
  | .writeChained _ _ compacts => compacts.toNat
  | .merge => 2
  | .partialMerge _ => 2
  | _ => 0

/-- No leaf with fat tuples is merged, or compacted for a chained tuple. -/
def RebuildsPlain (leaves : List Node) (a : Nat × LeafOp) : Prop :=
  ∀ leaf ∈ (leaves.drop a.1).take a.2.rebuilds, leaf.holdsFat = false

variable {leaf : Node} {leaves leaves' siblings : List Node} {ops : List (Nat × LeafOp)}
  {op : LeafOp}

open Node

theorem any_take_or_drop (p : Slot → Bool) (slots : List Slot) (count : Nat) :
    ((slots.take count).any p || (slots.drop count).any p) = slots.any p := by
  rw [← any_append, take_append_drop]

theorem holdsFat_insert {key value : Bytes} :
    (leaf.insert key (0 :: value)).holdsFat = leaf.holdsFat := by
  simp only [holdsFat, Node.insert, any_append]
  exact any_take_or_drop _ _ _

theorem holdsFat_setPayload {slot : Nat} {tuple : Bytes}
    (fat : (leaf.setPayload slot (0 :: tuple)).holdsFat = true) : leaf.holdsFat = true := by
  simp only [holdsFat, setPayload, any_eq_true] at fat ⊢
  obtain ⟨new, isIn, isFat⟩ := fat
  obtain ⟨i, inside, rfl⟩ := mem_iff_getElem.mp isIn
  rw [getElem_modify] at isFat
  split at isFat
  · contradiction
  · exact ⟨_, getElem_mem _, isFat⟩

theorem holdsFat_decompose : leaf.decompose.holdsFat = false := by
  simp only [holdsFat, decompose, any_map, any_eq_false, Function.comp_apply]
  intro slot _
  split
  · simp [isFat]
  · assumption

theorem Flagged.of_slots {new : Node} (flagged : Flagged leaf) (isLeaf : new.isLeaf = leaf.isLeaf)
    (garbage : new.hasGarbage = leaf.hasGarbage)
    (slots : new.holdsFat = true → leaf.holdsFat = true) : Flagged new :=
  ⟨isLeaf.trans flagged.1, fun fat => garbage.trans (flagged.2 (slots fat))⟩

theorem Flagged.plain {new : Node} (isLeaf : new.isLeaf = true) (plain : new.holdsFat = false) :
    Flagged new :=
  ⟨isLeaf, fun fat => absurd fat (by simp [plain])⟩

theorem Flagged.split (flagged : Flagged leaf) (sepSlot : Nat) (sepKey : Bytes) :
    Flagged (leaf.split sepSlot sepKey).1 ∧ Flagged (leaf.split sepSlot sepKey).2 := by
  have cut := any_take_or_drop (fun slot => isFat slot.payload) leaf.slots (sepSlot + 1)
  simp only [Node.split, flagged.1, if_true]
  refine ⟨flagged.of_slots flagged.1.symm rfl fun fat => ?_,
    flagged.of_slots flagged.1.symm rfl fun fat => ?_⟩
  · rw [holdsFat_copy] at fat
    rw [holdsFat, ← cut]
    exact Bool.or_eq_true_iff.mpr (.inl fat)
  · rw [holdsFat_copy] at fat
    rw [holdsFat, ← cut]
    exact Bool.or_eq_true_iff.mpr (.inr fat)

theorem Flagged.requestSpaceFor {compacts : Bool} (flagged : Flagged leaf)
    (plain : ∀ node ∈ (leaf :: siblings).take compacts.toNat, node.holdsFat = false) :
    Flagged (leaf.requestSpaceFor compacts) := by
  cases compacts with
  | false => exact flagged
  | true => exact .plain flagged.1 (holdsFat_compactify.trans (plain leaf mem_cons_self))

theorem LeafOp.flagged_apply (flagged : ∀ node ∈ leaf :: siblings, Flagged node)
    (plain : ∀ node ∈ (leaf :: siblings).take op.rebuilds, node.holdsFat = false)
    (applied : op.apply leaf siblings = some leaves') : ∀ node ∈ leaves', Flagged node := by
  obtain ⟨own, others⟩ := forall_mem_cons.mp flagged
  cases op with
  | insert key value compacts =>
    cases applied
    refine forall_mem_cons.mpr ⟨?_, others⟩
    exact (own.requestSpaceFor plain).of_slots rfl rfl fun fat => holdsFat_insert.symm.trans fat
  | convertToFat slot tuple compacts =>
    cases applied
    refine forall_mem_cons.mpr ⟨⟨?_, fun _ => rfl⟩, others⟩
    cases compacts <;> exact own.1
  | writeChained slot tuple compacts =>
    cases applied
    refine forall_mem_cons.mpr ⟨?_, others⟩
    exact (own.requestSpaceFor plain).of_slots rfl rfl holdsFat_setPayload
  | removeSlot =>
    cases applied
    refine forall_mem_cons.mpr ⟨own.of_slots rfl rfl fun fat => ?_, others⟩
    obtain ⟨slot, isIn, isFat⟩ := any_eq_true.mp fat
    exact any_eq_true.mpr ⟨slot, mem_of_mem_eraseIdx isIn, isFat⟩
  | split sepSlot sepKey =>
    cases applied
    obtain ⟨first, second⟩ := own.split sepSlot sepKey
    exact forall_mem_cons.mpr ⟨first, forall_mem_cons.mpr ⟨second, others⟩⟩
  | merge =>
    obtain _ | ⟨right, rest⟩ := siblings
    · cases applied
    obtain ⟨node, isMerged, rfl⟩ := Option.map_eq_some_iff.mp applied
    refine forall_mem_cons.mpr ⟨?_, (forall_mem_cons.mp others).2⟩
    unfold Node.merge at isMerged
    split at isMerged <;> cases isMerged
    have left := plain leaf (by simp [rebuilds])
    have right := plain right (by simp [rebuilds])
    simp only [mergeInto, own.1, if_true]
    refine .plain own.1 ?_
    rw [holdsFat_copy, holdsFat_copy]
    exact Bool.or_eq_false_iff.mpr ⟨left, right⟩
  | partialMerge till =>
    obtain _ | ⟨right, rest⟩ := siblings
    · cases applied
    cases applied
    have left := plain leaf (by simp [rebuilds])
    have right := plain right (by simp [rebuilds])
    rw [holdsFat, ← any_take_or_drop _ _ till, Bool.or_eq_false_iff] at left
    refine forall_mem_cons.mpr ⟨.plain rfl ?_, forall_mem_cons.mpr ⟨.plain rfl ?_,
      (forall_mem_cons.mp others).2⟩⟩
    · exact (holdsFat_copy _ _).trans left.1
    · rw [Node.partialMerge, holdsFat_copy, holdsFat_copy]
      exact Bool.or_eq_false_iff.mpr ⟨left.2, right⟩
  | checkSpaceUtilization =>
    cases applied
    refine forall_mem_cons.mpr ⟨?_, others⟩
    split
    · exact .plain own.1 holdsFat_decompose
    · exact own

theorem flagged_leafStep {a : Nat × LeafOp} (flagged : ∀ leaf ∈ leaves, Flagged leaf)
    (plain : RebuildsPlain leaves a) (stepped : leafStep leaves a = some leaves') :
    ∀ leaf ∈ leaves', Flagged leaf := by
  unfold leafStep at stepped
  unfold RebuildsPlain at plain
  split at stepped
  · rename_i cut
    obtain ⟨rebuilt, applied, rfl⟩ := Option.map_eq_some_iff.mp stepped
    rw [cut] at plain
    have later : ∀ leaf ∈ rebuilt, Flagged leaf :=
      LeafOp.flagged_apply (fun node isIn => flagged node (mem_of_mem_drop (cut ▸ isIn)))
        plain applied
    exact forall_mem_append.mpr ⟨fun node isIn => flagged node (mem_of_mem_take isIn), later⟩
  · cases stepped

/-- A leaf with fat tuples has its flag, as long as no such leaf is rebuilt. -/
theorem garbage_flag_kept (flagged : ∀ leaf ∈ leaves, Flagged leaf)
    (allowed : AllowedAlong leafStep RebuildsPlain leaves ops)
    (ran : run leafStep leaves ops = some leaves') :
    ∀ leaf ∈ leaves', leaf.holdsFat = true → leaf.hasGarbage = true := by
  have later := allowed.keeps (fun leaves => ∀ leaf ∈ leaves, Flagged leaf)
    (fun _ _ _ => flagged_leafStep) flagged ran
  exact fun leaf isIn => (later leaf isIn).2

def convertAndSplit : List (Nat × LeafOp) :=
  [(0, .insert [1] [5] false), (0, .insert [2] [6] false), (0, .convertToFat 0 [5] true),
    (0, .split 0 [1])]

theorem garbage_flag_kept_by_split : ∃ leaves', run leafStep [setFences true none none]
    convertAndSplit = some leaves' ∧ ∀ leaf ∈ leaves', leaf.holdsFat = true →
      leaf.hasGarbage = true := by
  have allowed : AllowedAlong leafStep RebuildsPlain [setFences true none none]
      convertAndSplit := by
    refine ⟨?_, ?_, ?_, ?_, trivial⟩ <;> simp [RebuildsPlain, LeafOp.rebuilds]
  exact ⟨_, rfl, garbage_flag_kept (by simp [Flagged, setFences, holdsFat]) allowed rfl⟩

/-- The leaf loses its flag in the compaction for another insert, and in a merge. -/
theorem garbage_flag_lost :
    ((run leafStep [setFences true none none] (convertAndSplit.take 3 ++
      [(0, .insert [3] [7] true)])).any fun leaves =>
        leaves.any fun leaf => leaf.holdsFat && !leaf.hasGarbage) ∧
    ((run leafStep [setFences true none none] (convertAndSplit ++ [(0, .merge)])).any fun leaves =>
        leaves.any fun leaf => leaf.holdsFat && !leaf.hasGarbage) := by
  decide

end TieredStore.BTree
