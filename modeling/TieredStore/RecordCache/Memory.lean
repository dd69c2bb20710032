import TieredStore.Lib.LinkChain
import TieredStore.RecordCache.Entry

namespace TieredStore.RecordCache

open LinkChain List

/-- What the second promotion phase copies out of a leaf slot.  `writer` is a
ghost: the transaction whose write produced these bytes. -/
structure ReadData where
  txTs : Nat
  workerId : Nat
  value : Bytes
  writer : Nat
  deriving DecidableEq, Repr

/--
The shared memory of the record cache: the slab blocks, which of them the
allocator has handed out, and the hash table.  A key without chain is absent
from the table, since the source erases a key whose head became null.
`origin` is a ghost that records the writer of a published entry's value.
-/
structure Memory where
  heap : Addr → RecordCacheEntry
  allocated : Addr → Bool
  table : Bytes → Option Addr
  origin : Addr → Nat

namespace Memory

def typeOf (memory : Memory) (entry : Addr) : RecordCacheType :=
  (memory.heap entry).entryType

def links (memory : Memory) (entry : Addr) : Option Addr :=
  (memory.heap entry).next

def ChainOf (memory : Memory) (key : Bytes) (chain : List Addr) : Prop :=
  IsChain memory.links (memory.table key) chain

instance (memory : Memory) (key : Bytes) (chain : List Addr) :
    Decidable (memory.ChainOf key chain) :=
  inferInstanceAs (Decidable (IsChain _ _ _))

def Linked (memory : Memory) (key : Bytes) (e : Addr) : Prop :=
  ∃ chain, memory.ChainOf key chain ∧ e ∈ chain

def dataOf (memory : Memory) (entry : Addr) : ReadData where
  txTs := (memory.heap entry).txTs
  workerId := (memory.heap entry).lastModifiedWorkerId
  value := (memory.heap entry).getValueSpan
  writer := memory.origin entry

def modify (memory : Memory) (entry : Addr)
    (change : RecordCacheEntry → RecordCacheEntry) : Memory :=
  { memory with
    heap := Function.update memory.heap entry (change (memory.heap entry)) }

def setType (memory : Memory) (entry : Addr) (type : RecordCacheType) : Memory :=
  memory.modify entry fun old => { old with entryType := type }

def setVisited (memory : Memory) (entry : Addr) (visited : Bool) : Memory :=
  memory.modify entry fun old => { old with visited := visited }

def setUpdateDuringPromote (memory : Memory) (entry : Addr) : Memory :=
  memory.modify entry fun old => { old with updateDuringPromote := true }

/-- `allocate_new_entry`: a block taken from the allocator and initialised as
a placeholder for the requested key.  The value bytes are not yet written. -/
def allocateNewEntry (memory : Memory) (entry : Addr) (key : Bytes) (valueLength : Nat) : Memory :=
  { memory with
    heap := Function.update memory.heap entry
      { txTs := 0
        lastModifiedWorkerId := 0
        keyLength := key.length
        valueLength := valueLength
        entryType := .promoteThreadHoldingThePosition
        visited := false
        updateDuringPromote := false
        next := none
        payload := key ++ List.replicate valueLength 0 }
    allocated := Function.update memory.allocated entry true }

/-- `RecordCacheSlabAllocator::deallocate`, as far as the cache can tell. -/
def deallocate (memory : Memory) (entry : Addr) : Memory :=
  { memory with allocated := Function.update memory.allocated entry false }

def install (memory : Memory) (key : Bytes) (entry : Addr) : Memory :=
  let head := memory.table key
  let linked := memory.modify entry fun old => { old with next := head }
  { linked with table := Function.update memory.table key (some entry) }

def unlink (memory : Memory) (key : Bytes) (entry : Addr) (chain : List Addr) :
    Memory × Bool :=
  let result := unlinkFrom memory.links (memory.table key) entry none chain
  ({ memory with
      heap := fun cell => { memory.heap cell with next := result.next cell }
      table := Function.update memory.table key result.head },
    result.removed)

/-- Third phase, success: copy the value in and store the read-only type. -/
def publish (memory : Memory) (entry : Addr) (data : ReadData) : Memory :=
  let written := memory.modify entry fun old =>
    { old with
      payload := old.payload.take old.keyLength ++ data.value
      txTs := data.txTs
      lastModifiedWorkerId := data.workerId
      entryType := .readOnlyMode }
  { written with origin := Function.update memory.origin entry data.writer }

structure UpdatableLookupResult where
  target : Option Addr
  skippedPlaceholder : Bool
  foundReadonlyNext : Bool
  deriving DecidableEq, Repr

/-- `FindFirstUpdatableEntry`: at most the head and its successor are looked
at, and only a read-only entry is a target. -/
def findFirstUpdatableEntry (memory : Memory) :
    Option Addr → UpdatableLookupResult
  | none => ⟨none, false, false⟩
  | some head =>
    match memory.typeOf head with
    | .readOnlyMode => ⟨some head, false, false⟩
    | headType =>
      let skipped := decide (headType = .promoteThreadHoldingThePosition)
      match memory.links head with
      | none => ⟨none, skipped, false⟩
      | some second =>
        if memory.typeOf second = .readOnlyMode then
          ⟨some second, skipped, true⟩
        else
          ⟨none, skipped, false⟩

/-- The search's only write: a skipped placeholder is marked, so that its
promotion sees the concurrent update. -/
def afterSearch (memory : Memory) (head : Option Addr) : Memory :=
  match head with
  | none => memory
  | some entry =>
    if memory.typeOf entry = .promoteThreadHoldingThePosition then
      memory.setUpdateDuringPromote entry
    else
      memory

/-- The walk of `tryLookupInRecordCache`: the first read-only entry of the
chain whose version the caller may see. -/
def firstVisible (memory : Memory) (isVisibleForMe : Nat → Nat → Bool) :
    List Addr → Option Addr
  | [] => none
  | entry :: rest =>
    if memory.typeOf entry = .readOnlyMode ∧
        isVisibleForMe (memory.heap entry).lastModifiedWorkerId
          (memory.heap entry).txTs = true then
      some entry
    else
      firstVisible memory isVisibleForMe rest

theorem mem_of_firstVisible {memory : Memory} {isVisibleForMe : Nat → Nat → Bool}
    {chain : List Addr} {e : Addr} (found : memory.firstVisible isVisibleForMe chain = some e) :
    e ∈ chain ∧ memory.typeOf e = .readOnlyMode := by
  induction chain with
  | nil => simp [firstVisible] at found
  | cons first rest ih =>
    simp only [firstVisible] at found
    split at found
    · rename_i visible
      cases found
      exact ⟨mem_cons_self, visible.1⟩
    · obtain ⟨mem, readOnly⟩ := ih found
      exact ⟨mem_cons_of_mem first mem, readOnly⟩

end Memory

end TieredStore.RecordCache
