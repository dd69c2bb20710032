import Mathlib

/-!
The space accounting of `BTreeNode` and of the three ways a record gets into a leaf.  Sums
are taken in `int` and kept as `u16`.
-/

namespace TieredStore.BTree

def effectivePageSize : Nat := 16352

def sizeofSlot : Nat := 10

/-- `slot + count` from the start of the page.  The packed slots begin in the tail padding of
the header. -/
def slotEnd (count : Nat) : Nat := 93 + sizeofSlot * count

def toU16 (value : Int) : Nat := (value % 2 ^ 16).toNat

theorem toU16_of_lt {n : Int} (notNegative : 0 ≤ n) (small : n < 2 ^ 16) : (toU16 n : Int) = n := by
  unfold toU16
  omega

def spaceNeeded (keyLength payloadLength prefixLength : Nat) : Nat :=
  toU16 (sizeofSlot + (keyLength - prefixLength : Int) + payloadLength)

/-- What the header of a node says about its space: the slots end below the data, and the
data in use fits behind `dataOffset`. -/
structure Space where
  count : Nat
  spaceUsed : Nat
  dataOffset : Nat
  prefixLength : Nat
  slotsBelow : slotEnd count ≤ dataOffset
  dataAbove : dataOffset + spaceUsed ≤ effectivePageSize

structure Entry where
  offset : Nat
  keyLength : Nat
  payloadLength : Nat

namespace Space

variable (space : Space)

def freeSpace : Nat := toU16 (space.dataOffset - slotEnd space.count)

def freeSpaceAfterCompaction : Nat :=
  toU16 (effectivePageSize - slotEnd space.count - space.spaceUsed)

def hasEnoughSpaceFor (needed : Nat) : Bool :=
  needed ≤ space.freeSpace ∨ needed ≤ space.freeSpaceAfterCompaction

def canInsert (keyLength payloadLength : Nat) : Bool :=
  space.hasEnoughSpaceFor (spaceNeeded keyLength payloadLength space.prefixLength)

/-- `data_offset` after `requestSpaceFor`, which compacts the node if it has to. -/
def requestSpaceFor (needed : Nat) : Nat :=
  if needed ≤ space.freeSpace then space.dataOffset
  else if needed ≤ space.freeSpaceAfterCompaction then effectivePageSize - space.spaceUsed
  else space.dataOffset

/-- The entry that `insertDoNotCopyPayload` makes. -/
def insertDoNotCopyPayload (keyLength payloadLength : Nat) : Entry where
  offset :=
    let dataOffset := space.requestSpaceFor (spaceNeeded keyLength payloadLength space.prefixLength)
    toU16 (dataOffset - toU16 (toU16 (keyLength - space.prefixLength) + payloadLength))
  keyLength := toU16 (keyLength - space.prefixLength)
  payloadLength := payloadLength

variable {space} {needed : Nat}

theorem requestSpaceFor_le (enough : space.hasEnoughSpaceFor needed = true) :
    slotEnd space.count + needed ≤ space.requestSpaceFor needed ∧
      space.requestSpaceFor needed + space.spaceUsed ≤ effectivePageSize := by
  have below := space.slotsBelow
  have above := space.dataAbove
  have free : (space.freeSpace : Int) = space.dataOffset - slotEnd space.count :=
    toU16_of_lt (by omega) (by simp only [effectivePageSize] at above; omega)
  have compacted : (space.freeSpaceAfterCompaction : Int) =
      effectivePageSize - slotEnd space.count - space.spaceUsed :=
    toU16_of_lt (by omega) (by simp only [effectivePageSize]; omega)
  simp only [hasEnoughSpaceFor, decide_eq_true_eq] at enough
  unfold requestSpaceFor
  split
  · omega
  · split <;> omega

end Space

/-- `BTreeLL::insert`, `BTreeVI::insert` and `HistoryTree::insertVersion`. -/
inductive InsertPath
  | btreeLL
  | btreeVI
  | historyTree
  deriving DecidableEq

/-- `sizeof(ChainedTuple)` and `sizeof(VersionMeta)`. -/
def InsertPath.headerLength : InsertPath → Nat
  | .btreeLL => 0
  | .btreeVI => 21
  | .historyTree => 9

def InsertPath.copied (path : InsertPath) (valueLength : Nat) : Nat :=
  valueLength + path.headerLength

def InsertPath.payloadLength (path : InsertPath) (valueLength : Nat) : Nat :=
  toU16 (path.copied valueLength)

/-- The new entry lies between the slots and the data in use, and what is copied there ends
where the entry ends. -/
def InsertPath.Fits (path : InsertPath) (space : Space) (keyLength valueLength : Nat) : Prop :=
  let entry := space.insertDoNotCopyPayload keyLength (path.payloadLength valueLength)
  slotEnd (space.count + 1) ≤ entry.offset ∧
    entry.offset + entry.keyLength + entry.payloadLength + space.spaceUsed ≤ effectivePageSize ∧
    entry.keyLength = keyLength - space.prefixLength ∧
    entry.payloadLength = path.copied valueLength

/-- An accepted entry fits just if it has less than 2^16 bytes. -/
theorem accepted_insert_fits (space : Space) (path : InsertPath) (keyLength valueLength : Nat)
    (hasPrefix : space.prefixLength ≤ keyLength)
    (accepted : space.canInsert keyLength (path.payloadLength valueLength) = true) :
    path.Fits space keyLength valueLength ↔
      sizeofSlot + (keyLength - space.prefixLength) + path.copied valueLength < 2 ^ 16 := by
  simp only [InsertPath.Fits]
  refine ⟨fun ⟨below, above, suffix, payload⟩ => ?_, fun noWrap => ?_⟩
  · simp only [slotEnd, sizeofSlot, effectivePageSize] at below above ⊢
    omega
  have payload : (path.payloadLength valueLength : Int) = path.copied valueLength :=
    toU16_of_lt (by omega) (by omega)
  have suffix : (toU16 (keyLength - space.prefixLength) : Int) =
      keyLength - space.prefixLength := toU16_of_lt (by omega) (by omega)
  have needed : (spaceNeeded keyLength (path.payloadLength valueLength) space.prefixLength : Int) =
      sizeofSlot + (keyLength - space.prefixLength) + path.copied valueLength := by
    rw [spaceNeeded, toU16_of_lt (by simp only [sizeofSlot]; omega) (by omega), payload]
  obtain ⟨below, above⟩ := Space.requestSpaceFor_le accepted
  have stored : (toU16 (toU16 (keyLength - space.prefixLength) +
      path.payloadLength valueLength) : Int) =
        keyLength - space.prefixLength + path.copied valueLength := by
    rw [toU16_of_lt (by omega) (by omega), suffix, payload]
  have offset := toU16_of_lt (n := space.requestSpaceFor (spaceNeeded keyLength
    (path.payloadLength valueLength) space.prefixLength) -
      toU16 (toU16 (keyLength - space.prefixLength) + path.payloadLength valueLength))
    (by omega) (by simp only [effectivePageSize] at above; omega)
  simp only [Space.insertDoNotCopyPayload, slotEnd, sizeofSlot] at below needed ⊢
  omega

def Space.empty : Space := ⟨0, 0, effectivePageSize, 0, by decide, by decide⟩

theorem accepted_insert_fits_tuple :
    Space.empty.canInsert 10 (InsertPath.btreeVI.payloadLength 1000) = true ∧
      InsertPath.btreeVI.Fits Space.empty 10 1000 :=
  ⟨by decide, (accepted_insert_fits Space.empty .btreeVI 10 1000 (by decide) (by decide)).mpr
    (by decide)⟩

/-- A record of 65540 bytes needs 14 bytes in `u16`, so an empty page takes it and the value
is copied past the page. -/
theorem accepted_insert_overruns :
    Space.empty.canInsert 10 (InsertPath.btreeLL.payloadLength 65530) = true ∧
      effectivePageSize < (Space.empty.insertDoNotCopyPayload 10
        (InsertPath.btreeLL.payloadLength 65530)).offset + InsertPath.btreeLL.copied 65530 := by
  decide

end TieredStore.BTree
