import TieredStore.Lib.ByteMemory

/-!
The two layouts of a leaf tuple of a `BTreeVI`.  Both structs are packed, and a
read casts the slot's payload pointer to one of them.
-/

namespace TieredStore.VersionedIndex

open ByteMemory List

abbrev Bytes := List UInt8
abbrev WorkerId := UInt16
abbrev TxId := UInt64
abbrev CommandId := UInt32

def invalidCommandId : CommandId := 0xFFFFFFFF

inductive TupleFormat
  | chained
  | fatTupleDifferentAttributes
  deriving DecidableEq, Repr

def TupleFormat.code : TupleFormat → UInt8
  | .chained => 0
  | .fatTupleDifferentAttributes => 1

/-- The fields that both layouts share, after the format. -/
structure Tuple where
  workerId : WorkerId
  txTs : TxId
  commandId : CommandId
  writeLocked : Bool
  deriving DecidableEq, Repr

structure ChainedTuple extends Tuple where
  updatesCounter : UInt16
  oldestTx : UInt16
  isRemoved : Bool
  value : Bytes
  deriving DecidableEq, Repr

/-- `deltas` are the bytes behind the value: the delta offsets, the space that is
left, and the deltas. -/
structure FatTuple extends Tuple where
  totalSpace : UInt32
  usedSpace : UInt32
  dataOffset : UInt32
  deltasCount : UInt16
  value : Bytes
  deltas : Bytes
  valueFits : value.length < 2 ^ 16
  deriving DecidableEq, Repr

def sizeofTuple : Nat := 16
def sizeofChainedTuple : Nat := 21
def sizeofFatTuple : Nat := 32

def flag (bit : Bool) : UInt8 := if bit then 1 else 0

namespace Tuple

def encode (tuple : Tuple) (format : TupleFormat) : Bytes :=
  format.code :: (encodeLE 2 tuple.workerId.toNat ++ encodeLE 8 tuple.txTs.toNat ++
    encodeLE 4 tuple.commandId.toNat ++ [flag tuple.writeLocked])

@[simp] theorem length_encode (tuple : Tuple) (format : TupleFormat) :
    (tuple.encode format).length = sizeofTuple := by
  simp [encode, sizeofTuple]

end Tuple

namespace ChainedTuple

def header (tuple : ChainedTuple) : Bytes :=
  tuple.encode .chained ++ encodeLE 2 tuple.updatesCounter.toNat ++
    encodeLE 2 tuple.oldestTx.toNat ++ [flag tuple.isRemoved]

def bytes (tuple : ChainedTuple) : Bytes := tuple.header ++ tuple.value

@[simp] theorem length_header (tuple : ChainedTuple) :
    tuple.header.length = sizeofChainedTuple := by
  simp [header, sizeofTuple, sizeofChainedTuple]

@[simp] theorem length_bytes (tuple : ChainedTuple) :
    tuple.bytes.length = sizeofChainedTuple + tuple.value.length := by
  simp [bytes]

end ChainedTuple

namespace FatTuple

def header (tuple : FatTuple) : Bytes :=
  tuple.encode .fatTupleDifferentAttributes ++ encodeLE 2 tuple.value.length ++
    encodeLE 4 tuple.totalSpace.toNat ++ encodeLE 4 tuple.usedSpace.toNat ++
    encodeLE 4 tuple.dataOffset.toNat ++ encodeLE 2 tuple.deltasCount.toNat

def bytes (tuple : FatTuple) : Bytes := tuple.header ++ (tuple.value ++ tuple.deltas)

@[simp] theorem length_header (tuple : FatTuple) : tuple.header.length = sizeofFatTuple := by
  simp [header, sizeofTuple, sizeofFatTuple]

@[simp] theorem length_bytes (tuple : FatTuple) :
    tuple.bytes.length = sizeofFatTuple + tuple.value.length + tuple.deltas.length := by
  simp [bytes, add_assoc]

end FatTuple

inductive LeafTuple
  | chained (tuple : ChainedTuple)
  | fat (tuple : FatTuple)

namespace LeafTuple

def head : LeafTuple → Tuple
  | .chained tuple => tuple.toTuple
  | .fat tuple => tuple.toTuple

def format : LeafTuple → TupleFormat
  | .chained _ => .chained
  | .fat _ => .fatTupleDifferentAttributes

def value : LeafTuple → Bytes
  | .chained tuple => tuple.value
  | .fat tuple => tuple.value

def bytes : LeafTuple → Bytes
  | .chained tuple => tuple.bytes
  | .fat tuple => tuple.bytes

end LeafTuple

/-- A leaf slot: the page memory from its payload on, and the payload's length. -/
structure Slot where
  memory : Memory
  payloadLength : Nat

namespace Slot

/-- The slot's payload is this record, and the page memory goes on behind it. -/
structure Holds (slot : Slot) (bytes : Bytes) : Prop where
  stores : Stores slot.memory 0 bytes
  payloadLength : slot.payloadLength = bytes.length
  fits : slot.payloadLength < 2 ^ 16

def ofBytes (bytes : Bytes) : Slot := ⟨ByteMemory.ofBytes bytes, bytes.length⟩

theorem holds_ofBytes {bytes : Bytes} (fits : bytes.length < 2 ^ 16) :
    (ofBytes bytes).Holds bytes :=
  ⟨stores_ofBytes bytes, rfl, fits⟩

def tupleFormat (slot : Slot) : UInt8 := slot.memory 0

def workerId (slot : Slot) : WorkerId := UInt16.ofNat (readLE slot.memory 1 2)

def txTs (slot : Slot) : TxId := UInt64.ofNat (readLE slot.memory 3 8)

def commandId (slot : Slot) : CommandId := UInt32.ofNat (readLE slot.memory 11 4)

def isRemoved (slot : Slot) : Bool := slot.memory 20 &&& 1 == 1

def valueLength (slot : Slot) : Nat := readLE slot.memory 16 2

def deltasCount (slot : Slot) : Nat := readLE slot.memory 30 2

end Slot

variable {slot : Slot} {memory : Memory} {tuple : ChainedTuple}

theorem stores_head {format : TupleFormat} {tuple : Tuple}
    (stores : Stores memory 0 (tuple.encode format)) :
    memory 0 = format.code ∧ Stores memory 1 (encodeLE 2 tuple.workerId.toNat) ∧
      Stores memory 3 (encodeLE 8 tuple.txTs.toNat) ∧
      Stores memory 11 (encodeLE 4 tuple.commandId.toNat) := by
  simp only [Tuple.encode, stores_cons, stores_append] at stores
  exact ⟨stores.1, stores.2.1.1.1, stores.2.1.1.2, stores.2.1.2⟩

theorem LeafTuple.stores_encode {tuple : LeafTuple} (stores : Stores memory 0 tuple.bytes) :
    Stores memory 0 (tuple.head.encode tuple.format) := by
  cases tuple with
  | chained =>
    simp only [bytes, ChainedTuple.bytes, ChainedTuple.header, stores_append] at stores
    exact stores.1.1.1.1
  | fat =>
    simp only [bytes, FatTuple.bytes, FatTuple.header, stores_append] at stores
    exact stores.1.1.1.1.1.1

namespace Slot.Holds

section

variable {tuple : LeafTuple} (holds : slot.Holds tuple.bytes)
include holds

theorem tupleFormat_eq : slot.tupleFormat = tuple.format.code :=
  (stores_head (LeafTuple.stores_encode holds.stores)).1

theorem workerId_eq : slot.workerId = tuple.head.workerId := by
  obtain ⟨-, stores, -⟩ := stores_head (LeafTuple.stores_encode holds.stores)
  rw [workerId, stores.readLE tuple.head.workerId.toNat_lt, UInt16.ofNat_toNat]

theorem txTs_eq : slot.txTs = tuple.head.txTs := by
  obtain ⟨-, -, stores, -⟩ := stores_head (LeafTuple.stores_encode holds.stores)
  rw [txTs, stores.readLE tuple.head.txTs.toNat_lt, UInt64.ofNat_toNat]

theorem commandId_eq : slot.commandId = tuple.head.commandId := by
  obtain ⟨-, -, -, stores⟩ := stores_head (LeafTuple.stores_encode holds.stores)
  rw [commandId, stores.readLE tuple.head.commandId.toNat_lt, UInt32.ofNat_toNat]

end

theorem isRemoved_eq (holds : slot.Holds tuple.bytes) : slot.isRemoved = tuple.isRemoved := by
  have stores := holds.stores
  simp only [ChainedTuple.bytes, ChainedTuple.header, stores_append, stores_cons] at stores
  have byte : slot.memory 20 = flag tuple.isRemoved := stores.1.2.1
  rw [isRemoved, byte]
  cases tuple.isRemoved <;> rfl

theorem valueLength_eq {tuple : FatTuple} (holds : slot.Holds tuple.bytes) :
    slot.valueLength = tuple.value.length := by
  have stores := holds.stores
  simp only [FatTuple.bytes, FatTuple.header, stores_append] at stores
  exact stores.1.1.1.1.1.2.readLE tuple.valueFits

theorem slice_chained (holds : slot.Holds tuple.bytes) (beyond : Nat) :
    slice slot.memory sizeofChainedTuple (tuple.value.length + beyond) =
      tuple.value ++ slice slot.memory slot.payloadLength beyond := by
  have stores := (stores_append.mp holds.stores).2
  rw [slice_add, holds.payloadLength, ChainedTuple.length_bytes]
  exact congrArg (· ++ _) stores

theorem slice_fat {tuple : FatTuple} (holds : slot.Holds tuple.bytes) :
    slice slot.memory sizeofFatTuple tuple.value.length = tuple.value ∧
      slice slot.memory (sizeofFatTuple + tuple.value.length) tuple.deltas.length =
        tuple.deltas := by
  have stores := (stores_append.mp holds.stores).2
  rw [FatTuple.length_header, zero_add, stores_append] at stores
  exact stores

end Slot.Holds

end TieredStore.VersionedIndex
