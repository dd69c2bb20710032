import TieredStore.VersionedIndex.Diff

/-!
The read paths of `BTreeVI` on one leaf slot: the optimistic lookup, which looks
at the newest version only, and `reconstructTuple`, which the pessimistic lookup
and the scans call.
-/

namespace TieredStore.VersionedIndex

open ByteMemory List

/-- What a read does: `found` are the bytes its callback gets. -/
inductive Outcome
  | found (value : Bytes)
  | notFound
  | other
  | unreachable
  deriving DecidableEq, Repr

/-- `isVisibleForMe` of the running transaction, with its `to_write` argument. -/
abbrev Visibility := WorkerId → TxId → Bool → Bool

def narrow (length : Nat) : Nat := length % 2 ^ 16

/-- `getPayloadLength(pos) - offset`, in `u32` arithmetic. -/
def lengthFrom (payloadLength offset : Nat) : Nat :=
  (payloadLength + 2 ^ 32 - offset) % 2 ^ 32

def lookupOptimistic (isVisibleForMe : Visibility) (slot : Slot) : Outcome :=
  if isVisibleForMe slot.workerId slot.txTs false then
    if slot.tupleFormat = TupleFormat.chained.code then
      .found (slice slot.memory sizeofChainedTuple
        (narrow (lengthFrom slot.payloadLength sizeofChainedTuple)))
    else if slot.tupleFormat = TupleFormat.fatTupleDifferentAttributes.code then
      .found (slice slot.memory sizeofFatTuple
        (narrow (lengthFrom slot.payloadLength sizeofFatTuple)))
    else
      .unreachable
  else
    .other

structure VersionId where
  workerId : WorkerId
  txId : TxId
  commandId : CommandId
  deriving DecidableEq, Repr

inductive Version
  | delta (older : VersionId) (descriptor : Descriptor) (diff : Bytes)
  | full (older : VersionId) (payload : Bytes)
  | remove (older : VersionId) (keyLength valueLength : Nat) (payload : Bytes)

def Version.older : Version → VersionId
  | .delta older .. => older
  | .full older _ => older
  | .remove older .. => older

/-- What the version makes of the value that was materialised so far.  The payload
of a remove version is key and value, and it is copied from its start. -/
def Version.materialize (value : Bytes) : Version → Bytes
  | .delta _ descriptor diff => applyDiff descriptor value diff
  | .full _ payload => payload
  | .remove _ _ valueLength payload => payload.take valueLength

/-- The loop of `reconstructChainedTuple`, for as many rounds as the `ensure` at its end
allows. -/
def walkVersions (isVisibleForMe : Visibility) (retrieveVersion : VersionId → Option Version) :
    (budget : Nat) → VersionId → Bytes → Outcome
  | 0, _, _ => .unreachable
  | budget + 1, id, value =>
    match retrieveVersion id with
    -- `explainWhen(true)`: the process stops where a version is missing.
    | none => .unreachable
    | some version =>
      let value := version.materialize value
      if isVisibleForMe version.older.workerId version.older.txId false then
        .found (value.take (narrow value.length))
      else
        walkVersions isVisibleForMe retrieveVersion budget version.older value

def reconstructChainedTuple (isVisibleForMe : Visibility)
    (retrieveVersion : VersionId → Option Version) (maxChainLength : Nat) (slot : Slot) :
    Outcome :=
  if isVisibleForMe slot.workerId slot.txTs false then
    if slot.isRemoved then
      .notFound
    else
      .found (slice slot.memory sizeofChainedTuple
        (narrow (slot.payloadLength - sizeofChainedTuple)))
  else
    walkVersions isVisibleForMe retrieveVersion (max 1 maxChainLength)
      ⟨slot.workerId, slot.txTs, slot.commandId⟩
      (slice slot.memory sizeofChainedTuple (slot.payloadLength - sizeofChainedTuple))

def sizeofDelta : Nat := 14

def deltaOffset (slot : Slot) (position : Nat) : Nat :=
  sizeofFatTuple + readLE slot.memory (sizeofFatTuple + slot.valueLength + 2 * position) 2

/-- The loop over the deltas, newest first. -/
def walkDeltas (isVisibleForMe : Visibility) (slot : Slot) : (count : Nat) → Bytes → Outcome
  | 0, _ => .notFound
  | count + 1, value =>
    let offset := deltaOffset slot count
    let descriptor := descriptorAt slot.memory (offset + sizeofDelta)
    let value := applyDiff descriptor value
      (diffAt slot.memory (offset + sizeofDelta) descriptor)
    if isVisibleForMe (UInt16.ofNat (readLE slot.memory offset 2))
        (UInt64.ofNat (readLE slot.memory (offset + 2) 8)) true then
      .found (value.take (narrow value.length))
    else
      walkDeltas isVisibleForMe slot count value

/-- `FatTupleDifferentAttributes::reconstructTuple`, which tests visibility with
the default `to_write`. -/
def reconstructFatTuple (isVisibleForMe : Visibility) (slot : Slot) : Outcome :=
  if isVisibleForMe slot.workerId slot.txTs true then
    .found (slice slot.memory sizeofFatTuple (narrow slot.valueLength))
  else
    walkDeltas isVisibleForMe slot slot.deltasCount
      (slice slot.memory sizeofFatTuple slot.valueLength)

/-- A visible chained head is delivered with the whole payload's length, header
included. -/
def reconstructTuple (isVisibleForMe : Visibility)
    (retrieveVersion : VersionId → Option Version) (maxChainLength : Nat) (slot : Slot) :
    Outcome :=
  if slot.tupleFormat = TupleFormat.chained.code then
    if isVisibleForMe slot.workerId slot.txTs false then
      if slot.isRemoved then
        .notFound
      else
        .found (slice slot.memory sizeofChainedTuple (narrow slot.payloadLength))
    else if slot.commandId = invalidCommandId then
      .notFound
    else
      reconstructChainedTuple isVisibleForMe retrieveVersion maxChainLength slot
  else
    reconstructFatTuple isVisibleForMe slot

/-- `lookupPessimistic` once the key was found.  For an OLAP transaction that
found nothing, a hit in the graveyard repeats the same reconstruction and does not
change the result. -/
def lookupPessimistic (isVisibleForMe : Visibility)
    (retrieveVersion : VersionId → Option Version) (maxChainLength : Nat) (slot : Slot) :
    Outcome :=
  reconstructTuple isVisibleForMe retrieveVersion maxChainLength slot

/-- The loop of `scan` over the slots from the start key on.  The callback says
whether to go on. -/
def scan {Result : Type} (reconstruct : Slot → Outcome)
    (callback : Result → Bytes → Bytes → Result × Bool) :
    List (Bytes × Slot) → Result → Result
  | [], result => result
  | (key, slot) :: rest, result =>
    match reconstruct slot with
    | .found value =>
      let (result, keepScanning) := callback result key value
      if keepScanning then scan reconstruct callback rest result else result
    | _ => scan reconstruct callback rest result

def scanned (reconstruct : Slot → Outcome) (slots : List (Bytes × Slot)) :
    List (Bytes × Bytes) :=
  scan reconstruct (fun delivered key value => (delivered ++ [(key, value)], true)) slots []

def lookup (isVisibleForMe : Visibility) (retrieveVersion : VersionId → Option Version)
    (maxChainLength : Nat) (slot : Slot) : Outcome :=
  match lookupOptimistic isVisibleForMe slot with
  | .other => lookupPessimistic isVisibleForMe retrieveVersion maxChainLength slot
  | outcome => outcome

variable {isVisibleForMe : Visibility} {retrieveVersion : VersionId → Option Version}
  {maxChainLength : Nat} {slot : Slot} {tuple : LeafTuple}

theorem narrow_lengthFrom {payloadLength offset : Nat} (fits : payloadLength < 2 ^ 16)
    (inside : offset ≤ payloadLength) :
    narrow (lengthFrom payloadLength offset) = payloadLength - offset := by
  unfold narrow lengthFrom
  omega

/-- The newest version is visible, under both values of `to_write`. -/
def SeesHead (isVisibleForMe : Visibility) (tuple : LeafTuple) : Prop :=
  ∀ toWrite, isVisibleForMe tuple.head.workerId tuple.head.txTs toWrite = true

def LeafTuple.room : LeafTuple → Bytes
  | .chained _ => []
  | .fat tuple => tuple.deltas

theorem lookupOptimistic_eq (holds : slot.Holds tuple.bytes)
    (sees : isVisibleForMe tuple.head.workerId tuple.head.txTs false = true) :
    lookupOptimistic isVisibleForMe slot = .found (tuple.value ++ tuple.room) := by
  have length := holds.payloadLength
  rw [lookupOptimistic, holds.workerId_eq, holds.txTs_eq, if_pos sees, holds.tupleFormat_eq]
  cases tuple with
  | chained tuple =>
    have value := holds.slice_chained 0
    rw [LeafTuple.bytes, ChainedTuple.length_bytes] at length
    rw [LeafTuple.format, if_pos rfl, narrow_lengthFrom holds.fits (by omega), length,
      Nat.add_sub_cancel_left]
    simpa [slice, LeafTuple.value, LeafTuple.room] using value
  | fat tuple =>
    obtain ⟨value, deltas⟩ := holds.slice_fat
    rw [LeafTuple.bytes, FatTuple.length_bytes] at length
    rw [LeafTuple.format, if_neg (by decide), if_pos rfl,
      narrow_lengthFrom holds.fits (by omega), length, add_assoc,
      Nat.add_sub_cancel_left, slice_add, value, deltas]
    rfl

/-- What `reconstructTuple` makes of a visible head: a chained value is followed by
as many bytes of the page as the header has. -/
def reconstructedHead (slot : Slot) : LeafTuple → Outcome
  | .chained tuple =>
    if tuple.isRemoved then .notFound
    else .found (tuple.value ++ slice slot.memory slot.payloadLength sizeofChainedTuple)
  | .fat tuple => .found tuple.value

theorem reconstructTuple_eq (holds : slot.Holds tuple.bytes)
    (sees : SeesHead isVisibleForMe tuple) :
    reconstructTuple isVisibleForMe retrieveVersion maxChainLength slot =
      reconstructedHead slot tuple := by
  rw [reconstructTuple, holds.tupleFormat_eq, holds.workerId_eq, holds.txTs_eq, sees false]
  cases tuple with
  | chained tuple =>
    have holds : slot.Holds tuple.bytes := holds
    have length := holds.payloadLength
    rw [ChainedTuple.length_bytes] at length
    have narrowed : narrow slot.payloadLength = tuple.value.length + sizeofChainedTuple := by
      rw [narrow, Nat.mod_eq_of_lt holds.fits, length, add_comm]
    simp only [LeafTuple.format, if_pos, holds.isRemoved_eq, narrowed, holds.slice_chained,
      reconstructedHead]
  | fat tuple =>
    have holds' : slot.Holds tuple.bytes := holds
    rw [LeafTuple.format, if_neg (by decide), reconstructFatTuple, holds.workerId_eq,
      holds.txTs_eq, sees true, if_pos rfl, holds'.valueLength_eq, narrow,
      Nat.mod_eq_of_lt tuple.valueFits, holds'.slice_fat.1, reconstructedHead]

def Outcome.value? : Outcome → Option Bytes
  | .found value => some value
  | _ => none

theorem scanned_eq (reconstruct : Slot → Outcome) (slots : List (Bytes × Slot)) :
    scanned reconstruct slots = slots.filterMap fun record =>
      (reconstruct record.2).value?.map fun value => (record.1, value) := by
  have collects (delivered : List (Bytes × Bytes)) :
      scan reconstruct (fun delivered key value => (delivered ++ [(key, value)], true)) slots
        delivered = delivered ++ slots.filterMap fun record =>
          (reconstruct record.2).value?.map fun value => (record.1, value) := by
    induction slots generalizing delivered with
    | nil => simp [scan]
    | cons record _ ih =>
      obtain ⟨key, slot⟩ := record
      cases outcome : reconstruct slot with
      | found | notFound | other | unreachable => simp [scan, outcome, ih, Outcome.value?]
  exact collects []

/-- All three read paths report the key as absent, or deliver the same bytes. -/
def ReadPathsAgree (isVisibleForMe : Visibility)
    (retrieveVersion : VersionId → Option Version) (maxChainLength : Nat) (slot : Slot) :
    Prop :=
  lookupOptimistic isVisibleForMe slot =
      lookupPessimistic isVisibleForMe retrieveVersion maxChainLength slot ∧
    ∀ key before after,
      scanned (reconstructTuple isVisibleForMe retrieveVersion maxChainLength)
          (before ++ (key, slot) :: after) =
        scanned (reconstructTuple isVisibleForMe retrieveVersion maxChainLength) before ++
          ((lookupOptimistic isVisibleForMe slot).value?.map fun value =>
            (key, value)).toList ++
          scanned (reconstructTuple isVisibleForMe retrieveVersion maxChainLength) after

theorem scanned_slot (key : Bytes) (before after : List (Bytes × Slot)) :
    scanned (reconstructTuple isVisibleForMe retrieveVersion maxChainLength)
        (before ++ (key, slot) :: after) =
      scanned (reconstructTuple isVisibleForMe retrieveVersion maxChainLength) before ++
        ((lookupPessimistic isVisibleForMe retrieveVersion maxChainLength slot).value?.map
          fun value => (key, value)).toList ++
        scanned (reconstructTuple isVisibleForMe retrieveVersion maxChainLength) after := by
  simp only [scanned_eq, filterMap_append, append_assoc, lookupPessimistic, filterMap_cons]
  cases (reconstructTuple isVisibleForMe retrieveVersion maxChainLength slot).value? <;> rfl

theorem readPathsAgree_iff : ReadPathsAgree isVisibleForMe retrieveVersion maxChainLength slot ↔
      lookupOptimistic isVisibleForMe slot =
        lookupPessimistic isVisibleForMe retrieveVersion maxChainLength slot := by
  refine ⟨And.left, fun same => ⟨same, ?_⟩⟩
  intro key before after
  rw [same]
  exact scanned_slot key before after

def LeafTuple.NoRoomForDeltas : LeafTuple → Prop
  | .chained _ => False
  | .fat tuple => tuple.deltas = []

/-- The paths differ on a live chained tuple, on a removed one, and on a fat tuple
with room for deltas. -/
theorem read_paths_differ :
    (∃ tuple : ChainedTuple, tuple.isRemoved = false ∧
      lookupOptimistic (fun _ _ _ => true) (.ofBytes tuple.bytes) = .found [5] ∧
      lookupPessimistic (fun _ _ _ => true) (fun _ => none) 1 (.ofBytes tuple.bytes) =
        .found (5 :: List.replicate 21 0)) ∧
    (∃ tuple : ChainedTuple, tuple.isRemoved = true ∧
      lookupOptimistic (fun _ _ _ => true) (.ofBytes tuple.bytes) = .found [5] ∧
      lookupPessimistic (fun _ _ _ => true) (fun _ => none) 1 (.ofBytes tuple.bytes) = .notFound) ∧
    ∃ tuple : FatTuple,
      lookupOptimistic (fun _ _ _ => true) (.ofBytes tuple.bytes) = .found [5, 0, 0] ∧
      lookupPessimistic (fun _ _ _ => true) (fun _ => none) 1 (.ofBytes tuple.bytes) =
        .found [5] := by
  refine ⟨⟨⟨⟨3, 7, 0, false⟩, 0, 0, false, [5]⟩, ?_⟩, ⟨⟨⟨3, 7, 0, false⟩, 0, 0, true, [5]⟩, ?_⟩,
    ⟨⟨3, 7, 0, false⟩, 3, 1, 3, 0, [5], [0, 0], by decide⟩, ?_⟩
  · decide
  · decide
  · decide

/--
With the newest version visible, the read paths agree exactly on a fat tuple whose
slot ends with its value, and there they deliver the value as it was written.
-/
theorem read_paths_agree_iff_no_room (holds : slot.Holds tuple.bytes)
    (sees : SeesHead isVisibleForMe tuple) :
    (ReadPathsAgree isVisibleForMe retrieveVersion maxChainLength slot ↔ tuple.NoRoomForDeltas) ∧
    (tuple.NoRoomForDeltas →
      lookupOptimistic isVisibleForMe slot = .found tuple.value ∧
      lookupPessimistic isVisibleForMe retrieveVersion maxChainLength slot =
        .found tuple.value) := by
  have optimistic := lookupOptimistic_eq holds (sees false)
  have pessimistic : lookupPessimistic isVisibleForMe retrieveVersion maxChainLength slot =
      reconstructedHead slot tuple := reconstructTuple_eq holds sees
  rw [readPathsAgree_iff, optimistic, pessimistic]
  cases tuple with
  | chained =>
    refine ⟨iff_of_false ?_ id, False.elim⟩
    intro same
    simp only [reconstructedHead] at same
    split at same
    · contradiction
    · have length := congrArg length (Outcome.found.inj same)
      simp [LeafTuple.value, LeafTuple.room, sizeofChainedTuple] at length
  | fat tuple =>
    refine ⟨⟨?_, ?_⟩, ?_⟩
    · intro same
      have appended : tuple.value ++ tuple.deltas = tuple.value := Outcome.found.inj same
      have empty : tuple.deltas = [] := by simpa using appended
      exact empty
    · intro (empty : tuple.deltas = [])
      simp [LeafTuple.value, LeafTuple.room, reconstructedHead, empty]
    · intro (empty : tuple.deltas = [])
      simp [LeafTuple.value, LeafTuple.room, reconstructedHead, empty]

theorem read_paths_agree_iff_no_room_full :
    ∃ tuple : FatTuple, (LeafTuple.fat tuple).NoRoomForDeltas ∧
      ReadPathsAgree (fun _ _ _ => true) (fun _ => none) 1 (.ofBytes tuple.bytes) ∧
      lookupOptimistic (fun _ _ _ => true) (.ofBytes tuple.bytes) = .found [5] := by
  let tuple : FatTuple := ⟨⟨3, 7, 0, false⟩, 1, 1, 1, 0, [5], [], by decide⟩
  have holds : (Slot.ofBytes tuple.bytes).Holds (LeafTuple.fat tuple).bytes :=
    Slot.holds_ofBytes (by decide)
  have full : (LeafTuple.fat tuple).NoRoomForDeltas := rfl
  obtain ⟨agree, delivers⟩ :
      (ReadPathsAgree (fun _ _ _ => true) (fun _ => none) 1 (.ofBytes tuple.bytes) ↔ _) ∧ _ :=
    read_paths_agree_iff_no_room holds (fun _ => rfl)
  exact ⟨tuple, full, agree.mpr full, (delivers full).1⟩

end TieredStore.VersionedIndex
