import Mathlib

namespace TieredStore.RecordCache

abbrev Bytes := List UInt8

abbrev Addr := Nat

/-- The three-bit entry type; the comment gives the source's encoding. -/
inductive RecordCacheType
  | readOnlyMode                                            -- 000
  | writeThroughMode                                        -- 001
  | writeBackMode                                           -- 010
  | logicallyDeletedButStillInHashTable                     -- 011
  | removedFromHashTableButWaitForPhysicalMemoryDeallocation -- 100
  | promoteThreadHoldingThePosition                         -- 111
  deriving DecidableEq, Repr

namespace RecordCacheType

/-- The type changes that the cache's protocol knows. -/
inductive Moves : RecordCacheType → RecordCacheType → Prop
  | publish : Moves promoteThreadHoldingThePosition readOnlyMode
  | cancel : Moves promoteThreadHoldingThePosition
    removedFromHashTableButWaitForPhysicalMemoryDeallocation
  | invalidate : Moves readOnlyMode logicallyDeletedButStillInHashTable
  | evict : Moves readOnlyMode
    removedFromHashTableButWaitForPhysicalMemoryDeallocation
  | reclaim : Moves logicallyDeletedButStillInHashTable
    removedFromHashTableButWaitForPhysicalMemoryDeallocation

/-- Types of an entry that a worker or an evictor gave up: it is logically
deleted, or already out of the hash table. -/
def Doomed (type : RecordCacheType) : Prop :=
  type = logicallyDeletedButStillInHashTable ∨
    type = removedFromHashTableButWaitForPhysicalMemoryDeallocation

instance (type : RecordCacheType) : Decidable type.Doomed :=
  inferInstanceAs (Decidable (_ ∨ _))

/-- Types of an entry that has been published, whatever became of it. -/
def Settled (type : RecordCacheType) : Prop :=
  type = readOnlyMode ∨ type.Doomed

variable {type : RecordCacheType}

theorem Doomed.settled (doomed : type.Doomed) : type.Settled := Or.inr doomed

theorem Settled.not_placeholder
    (settled : type.Settled) : type ≠ promoteThreadHoldingThePosition := by
  rintro rfl
  simp [Settled, Doomed] at settled

@[simp] theorem removed_doomed : removedFromHashTableButWaitForPhysicalMemoryDeallocation.Doomed :=
  Or.inr rfl

@[simp] theorem logicallyDeleted_doomed : logicallyDeletedButStillInHashTable.Doomed := Or.inl rfl

@[simp] theorem readOnly_not_doomed : ¬ readOnlyMode.Doomed := by
  simp [Doomed]

@[simp] theorem placeholder_not_doomed : ¬ promoteThreadHoldingThePosition.Doomed := by
  simp [Doomed]

theorem Settled.moves_removed (settled : type.Settled) :
    removedFromHashTableButWaitForPhysicalMemoryDeallocation = type ∨
      Moves type removedFromHashTableButWaitForPhysicalMemoryDeallocation := by
  rcases settled with rfl | rfl | rfl
  · exact .inr .evict
  · exact .inr .reclaim
  · exact .inl rfl

end RecordCacheType

/-- Header and payload of a cache entry; the payload is the key followed by
the value. -/
structure RecordCacheEntry where
  txTs : Nat
  lastModifiedWorkerId : Nat
  keyLength : Nat
  valueLength : Nat
  entryType : RecordCacheType
  visited : Bool
  updateDuringPromote : Bool
  next : Option Addr
  payload : Bytes
  deriving DecidableEq, Repr

namespace RecordCacheEntry

def getKeySpan (entry : RecordCacheEntry) : Bytes :=
  entry.payload.take entry.keyLength

def getValueSpan (entry : RecordCacheEntry) : Bytes :=
  (entry.payload.drop entry.keyLength).take entry.valueLength

end RecordCacheEntry

end TieredStore.RecordCache
