import TieredStore.RecordCache.Memory

namespace TieredStore.RecordCache

/--
A chained tuple in a leaf slot.  `payload` is the page memory that starts at
the tuple's payload and may reach past the slot's own `payloadLength` bytes: a
tuple that was shortened keeps its old bytes there.  `writer` is a ghost, the
transaction that wrote this version.
-/
structure ChainedTuple where
  payload : Bytes
  payloadLength : Nat
  workerId : Nat
  txTs : Nat
  isRemoved : Bool
  writer : Nat
  deriving DecidableEq, Repr

namespace ChainedTuple

def value (tuple : ChainedTuple) : Bytes :=
  tuple.payload.take tuple.payloadLength

/-- The second promotion phase copies as many bytes as the request asks for,
whatever the slot's length is now. -/
def copyOut (tuple : ChainedTuple) (valueLength : Nat) : ReadData where
  txTs := tuple.txTs
  workerId := tuple.workerId
  value := tuple.payload.take valueLength
  writer := tuple.writer

/-- Overwrite the slot's own bytes and keep what lies behind them. -/
def overwrite (tuple : ChainedTuple) (value : Bytes) : ChainedTuple :=
  { tuple with payload := value ++ tuple.payload.drop value.length }

end ChainedTuple

structure LeafSlot where
  key : Bytes
  tuple : ChainedTuple
  deriving DecidableEq, Repr

inductive FrameState
  | free
  | hot
  | cool
  deriving DecidableEq, Repr

/-- A buffer frame with a leaf page.  The latch is the source's version
counter: odd while some thread holds it exclusively. -/
structure BufferFrame where
  version : Nat
  pid : Nat
  state : FrameState
  slots : List LeafSlot
  deriving DecidableEq, Repr

namespace BufferFrame

def isExclusivelyLatched (frame : BufferFrame) : Bool :=
  frame.version % 2 == 1

def slotOf (frame : BufferFrame) (key : Bytes) : Option Nat :=
  frame.slots.findIdx? fun slot => slot.key == key

end BufferFrame

/-- Buffer frames, and the leaf that the tree's inner nodes send a key to. -/
structure Leaves where
  frames : Nat → BufferFrame
  route : Bytes → Nat

namespace Leaves

def setFrame (leaves : Leaves) (position : Nat) (frame : BufferFrame) : Leaves :=
  { leaves with frames := Function.update leaves.frames position frame }

def Holds (leaves : Leaves) (key : Bytes) (frame slot : Nat) (tuple : ChainedTuple) : Prop :=
  (leaves.frames frame).state ≠ .free ∧ (leaves.frames frame).slots[slot]? = some ⟨key, tuple⟩

end Leaves

end TieredStore.RecordCache
