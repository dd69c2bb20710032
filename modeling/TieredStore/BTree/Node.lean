import TieredStore.BTree.Space
import TieredStore.Lib.CommonPrefix

/-!
A `BTreeNode` by what it stores.  The keys of its slots lack the prefix that the fences
share, and a copy to a node with other fences writes them anew.
-/

namespace TieredStore.BTree

open CommonPrefix List

abbrev Bytes := List (Fin 256)

/-- In an inner node the payload is the swip of a child. -/
structure Slot where
  key : Bytes
  payload : Bytes
  deriving DecidableEq, Inhabited

/-- A fence that is `none` has offset 0: the node is not bounded there. -/
structure Node where
  isLeaf : Bool
  lowerFence : Option Bytes
  upperFence : Option Bytes
  prefixLength : Nat
  slots : List Slot
  upper : Bytes
  hasGarbage : Bool
  deriving DecidableEq

/-- The lower fence is exclusive and the upper one inclusive. -/
def Within (lower upper : Option Bytes) (key : Bytes) : Prop :=
  (∀ fence ∈ lower, fence < key) ∧ ∀ fence ∈ upper, key ≤ fence

instance (lower upper : Option Bytes) (key : Bytes) : Decidable (Within lower upper key) :=
  inferInstanceAs (Decidable (_ ∧ _))

namespace Node

variable (node : Node)

def setFences (isLeaf : Bool) (lower upper : Option Bytes) : Node :=
  ⟨isLeaf, lower, upper, commonPrefix (lower.getD []) (upper.getD []), [], [], false⟩

def fullKey (slot : Slot) : Bytes :=
  (node.lowerFence.getD []).take node.prefixLength ++ slot.key

def entries : List (Bytes × Bytes) := node.slots.map fun slot => (node.fullKey slot, slot.payload)

def spaceUsed : Nat :=
  (node.lowerFence.getD []).length + (node.upperFence.getD []).length +
    (node.slots.map fun slot => slot.key.length + slot.payload.length).sum

/-- The bytes of the page that the node needs at least. -/
def occupied : Nat := slotEnd node.slots.length + node.spaceUsed

/-- Where both nodes have the same prefix length the bytes are copied as they are. -/
def copyKeyValue (target : Node) (slot : Slot) : Slot :=
  if node.prefixLength = target.prefixLength then slot
  else { slot with key := (node.fullKey slot).drop target.prefixLength }

def copyKeyValueRange (target : Node) (slots : List Slot) : Node :=
  { target with slots := target.slots ++ slots.map (node.copyKeyValue target) }

/-- The keys increase, lie between the fences and share what these share. -/
structure WellFormed : Prop where
  prefixLength :
    node.prefixLength = commonPrefix (node.lowerFence.getD []) (node.upperFence.getD [])
  fences : ∀ lower ∈ node.lowerFence, ∀ upper ∈ node.upperFence, lower ≤ upper
  sorted : node.entries.Pairwise fun e next => e.1 < next.1
  within : ∀ e ∈ node.entries, Within node.lowerFence node.upperFence e.1
  fits : node.occupied ≤ effectivePageSize

variable {node} {target : Node} {slot : Slot} {key : Bytes}

theorem take_of_fences (isPrefix : node.prefixLength =
      commonPrefix (node.lowerFence.getD []) (node.upperFence.getD []))
    (low : ∀ fence ∈ node.lowerFence, fence ≤ key) (high : ∀ fence ∈ node.upperFence, key ≤ fence) :
    key.take node.prefixLength = (node.lowerFence.getD []).take node.prefixLength := by
  rw [isPrefix]
  cases isLower : node.lowerFence with
  | none => simp [commonPrefix]
  | some lower =>
    cases isUpper : node.upperFence with
    | none => cases lower <;> simp [commonPrefix]
    | some upper => exact take_of_between (low lower isLower) (high upper isUpper)

theorem fullKey_copyKeyValue (isPrefix : target.prefixLength =
      commonPrefix (target.lowerFence.getD []) (target.upperFence.getD []))
    (within : Within target.lowerFence target.upperFence (node.fullKey slot))
    (long : node.prefixLength ≤ (node.lowerFence.getD []).length) :
    target.fullKey (node.copyKeyValue target slot) = node.fullKey slot := by
  have shared := take_of_fences isPrefix (fun fence isLower => (within.1 fence isLower).le) within.2
  unfold copyKeyValue
  split
  · next same =>
    rw [fullKey, ← shared, ← same, fullKey, take_left' (by simpa using long)]
  · rw [fullKey, ← shared]
    exact take_append_drop _ _

theorem length_fullKey (long : node.prefixLength ≤ (node.lowerFence.getD []).length) :
    (node.fullKey slot).length = node.prefixLength + slot.key.length := by
  simp [fullKey, long]

theorem payload_copyKeyValue : (node.copyKeyValue target slot).payload = slot.payload := by
  unfold copyKeyValue
  split <;> rfl

theorem WellFormed.long (wf : node.WellFormed) :
    node.prefixLength ≤ (node.lowerFence.getD []).length :=
  wf.prefixLength ▸ commonPrefix_le_left

theorem WellFormed.entries_copy (wf : node.WellFormed) {part : List Slot}
    (isPrefix : target.prefixLength =
      commonPrefix (target.lowerFence.getD []) (target.upperFence.getD []))
    (within : ∀ slot ∈ part, Within target.lowerFence target.upperFence (node.fullKey slot)) :
    (node.copyKeyValueRange target part).entries =
      target.entries ++ part.map fun slot => (node.fullKey slot, slot.payload) := by
  simp only [entries, copyKeyValueRange, map_append, map_map]
  refine congrArg _ (map_congr_left fun slot isIn => Prod.ext ?_ payload_copyKeyValue)
  exact fullKey_copyKeyValue isPrefix (within slot isIn) wf.long

end Node

end TieredStore.BTree
