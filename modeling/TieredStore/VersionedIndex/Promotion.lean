import TieredStore.VersionedIndex.ReadPaths

/-!
A leaf slot on its way into the record cache.  The admission computes the value's
length with the header of a chained tuple, the promotion picks the offset by the
format byte, and neither asks what kind of tree the page belongs to.
-/

namespace TieredStore.VersionedIndex

open ByteMemory

/-- A slot's record in the leaf of a `BTreeVI` or of a `BTreeLL`. -/
inductive LeafRecord
  | vi (tuple : LeafTuple)
  | ll (payload : Bytes)

def LeafRecord.bytes : LeafRecord → Bytes
  | .vi tuple => tuple.bytes
  | .ll payload => payload

def lookupLL (slot : Slot) : Outcome :=
  .found (slice slot.memory 0 (narrow slot.payloadLength))

def LeafRecord.lookup (record : LeafRecord) (isVisibleForMe : Visibility)
    (retrieveVersion : VersionId → Option Version) (maxChainLength : Nat) (slot : Slot) :
    Outcome :=
  match record with
  | .vi _ => VersionedIndex.lookup isVisibleForMe retrieveVersion maxChainLength slot
  | .ll _ => lookupLL slot

def kLargeRecordPromoteFullThreshold : Nat := 16 * 1024 / 8

/-- The value length that `promoteRecordCacheEntry` enqueues.  Larger records
promote the whole page. -/
def promoteRecordCacheEntry (slot : Slot) : Option Nat :=
  if slot.payloadLength < sizeofChainedTuple then
    none
  else
    let valueLen := slot.payloadLength - sizeofChainedTuple
    if kLargeRecordPromoteFullThreshold ≤ valueLen then none else some valueLen

structure RecordCacheEntry where
  txTs : TxId
  lastModifiedWorkerId : WorkerId
  value : Bytes
  deriving DecidableEq, Repr

/-- Where phase 2 of `processOnPromotionRequest` copies from. -/
def copyOffset (slot : Slot) : Nat :=
  if slot.tupleFormat = TupleFormat.chained.code then sizeofChainedTuple
  else if slot.tupleFormat = TupleFormat.fatTupleDifferentAttributes.code then sizeofFatTuple
  else sizeofTuple

def promoted (slot : Slot) (valueLen : Nat) : RecordCacheEntry where
  txTs := slot.txTs
  lastModifiedWorkerId := slot.workerId
  value := slice slot.memory (copyOffset slot) valueLen

/-- A hit of `tryLookupInRecordCache` on the published entry. -/
def tryLookupInRecordCache (isVisibleForMe : Visibility) (entry : RecordCacheEntry) :
    Option Bytes :=
  if isVisibleForMe entry.lastModifiedWorkerId entry.txTs false then
    some entry.value
  else
    none

variable {isVisibleForMe : Visibility} {retrieveVersion : VersionId → Option Version}
  {maxChainLength valueLen : Nat} {slot : Slot} {record : LeafRecord} {value : Bytes}

theorem promoteRecordCacheEntry_eq_some (enqueued : promoteRecordCacheEntry slot = some valueLen) :
    slot.payloadLength = valueLen + sizeofChainedTuple := by
  unfold promoteRecordCacheEntry at enqueued
  split at enqueued
  · contradiction
  · simp only at enqueued
    split at enqueued
    · contradiction
    · have := Option.some.inj enqueued
      omega

theorem length_of_hit
    (hit : tryLookupInRecordCache isVisibleForMe (promoted slot valueLen) = some value) :
    value.length = valueLen ∧ isVisibleForMe slot.workerId slot.txTs false = true ∧
      value = slice slot.memory (copyOffset slot) valueLen := by
  obtain ⟨visible, hit⟩ := Option.ite_none_right_eq_some.mp hit
  have isValue : slice slot.memory (copyOffset slot) valueLen = value := Option.some.inj hit
  exact ⟨by rw [← isValue, length_slice], visible, isValue.symm⟩

def fatRecord : FatTuple := ⟨⟨3, 7, 0, false⟩, 3, 1, 3, 0, [5], [0, 0], by decide⟩

/-- A fat tuple and a raw payload of 24 bytes come back with another length. -/
theorem promotion_changes_length :
    (∃ value, promoteRecordCacheEntry (.ofBytes fatRecord.bytes) = some 14 ∧
      tryLookupInRecordCache (fun _ _ _ => true) (promoted (.ofBytes fatRecord.bytes) 14) =
        some value ∧
      (LeafRecord.vi (.fat fatRecord)).lookup (fun _ _ _ => true) (fun _ => none) 1
        (.ofBytes fatRecord.bytes) = .found [5, 0, 0] ∧ value.length = 14) ∧
    ∃ value, promoteRecordCacheEntry (.ofBytes (List.replicate 24 0)) = some 3 ∧
      tryLookupInRecordCache (fun _ _ _ => true)
        (promoted (.ofBytes (List.replicate 24 0)) 3) = some value ∧
      (LeafRecord.ll (List.replicate 24 0)).lookup (fun _ _ _ => true) (fun _ => none) 1
        (.ofBytes (List.replicate 24 0)) = .found (List.replicate 24 0) ∧
      value.length = 3 := by
  refine ⟨⟨_, by decide, rfl, by decide, rfl⟩, ⟨_, by decide, rfl, by decide, rfl⟩⟩

/--
A promoted record, hit while visible and with its slot unmodified, is what the
tree's own lookup delivers exactly if it is a chained tuple of a `BTreeVI`.
-/
theorem promoted_hit_eq_lookup_iff_chained (holds : slot.Holds record.bytes)
    (enqueued : promoteRecordCacheEntry slot = some valueLen)
    (hit : tryLookupInRecordCache isVisibleForMe (promoted slot valueLen) = some value) :
    record.lookup isVisibleForMe retrieveVersion maxChainLength slot = .found value ↔
      ∃ tuple, record = .vi (.chained tuple) := by
  have length := promoteRecordCacheEntry_eq_some enqueued
  obtain ⟨valueLength, visible, isValue⟩ := length_of_hit hit
  cases record with
  | ll =>
    refine iff_of_false ?_ (by simp)
    intro same
    have lengths := congrArg List.length (Outcome.found.inj same)
    rw [length_slice, valueLength, narrow, Nat.mod_eq_of_lt holds.fits, length] at lengths
    unfold sizeofChainedTuple at lengths
    omega
  | vi tuple =>
    have holds : slot.Holds tuple.bytes := holds
    have sees := visible
    rw [holds.workerId_eq, holds.txTs_eq] at sees
    have leaf : LeafRecord.lookup (.vi tuple) isVisibleForMe retrieveVersion maxChainLength
        slot = .found (tuple.value ++ tuple.room) := by
      rw [LeafRecord.lookup, lookup, lookupOptimistic_eq holds sees]
    rw [leaf]
    cases tuple with
    | chained tuple =>
      have holds : slot.Holds tuple.bytes := holds
      have payload := holds.payloadLength
      rw [ChainedTuple.length_bytes] at payload
      have isLength : valueLen = tuple.value.length := by omega
      have offset : copyOffset slot = sizeofChainedTuple := by
        have format := @Slot.Holds.tupleFormat_eq slot (.chained tuple) holds
        rw [copyOffset, format]
        rfl
      have whole := holds.slice_chained 0
      refine iff_of_true ?_ ⟨tuple, rfl⟩
      rw [isValue, isLength, offset]
      simpa [LeafTuple.value, LeafTuple.room, slice] using whole.symm
    | fat tuple =>
      have holds : slot.Holds tuple.bytes := holds
      have payload := holds.payloadLength
      rw [FatTuple.length_bytes] at payload
      refine iff_of_false ?_ (by simp)
      intro same
      have lengths := congrArg List.length (Outcome.found.inj same)
      simp only [LeafTuple.value, LeafTuple.room, List.length_append, valueLength] at lengths
      unfold sizeofChainedTuple at length
      unfold sizeofFatTuple at payload
      omega

def chainedRecord : ChainedTuple := ⟨⟨3, 7, 0, false⟩, 0, 0, false, [5, 6]⟩

theorem promoted_hit_eq_lookup_iff_chained_twoBytes :
    ∃ value, promoteRecordCacheEntry (.ofBytes chainedRecord.bytes) = some 2 ∧
      tryLookupInRecordCache (fun _ _ _ => true)
        (promoted (.ofBytes chainedRecord.bytes) 2) = some value ∧
      (LeafRecord.vi (.chained chainedRecord)).lookup (fun _ _ _ => true) (fun _ => none) 1
        (.ofBytes chainedRecord.bytes) = .found value := by
  have holds : (Slot.ofBytes chainedRecord.bytes).Holds
      (LeafRecord.vi (.chained chainedRecord)).bytes := Slot.holds_ofBytes (by decide)
  have enqueued : promoteRecordCacheEntry (.ofBytes chainedRecord.bytes) = some 2 := by decide
  obtain ⟨value, hit⟩ : ∃ value, tryLookupInRecordCache (fun _ _ _ => true)
      (promoted (.ofBytes chainedRecord.bytes) 2) = some value := ⟨_, rfl⟩
  exact ⟨value, enqueued, hit,
    (promoted_hit_eq_lookup_iff_chained holds enqueued hit).mpr ⟨chainedRecord, rfl⟩⟩

end TieredStore.VersionedIndex
