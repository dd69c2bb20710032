import TieredStore.VersionedIndex.Diff

/-!
`BTreeVI::insert`, `updateSameSizeInPlace` and `remove` on chained tuples, the log
records they write, and `BTreeVI::undo`.
-/

namespace TieredStore.VersionedIndex

open ByteMemory List ChainedTuple

abbrev Table := Bytes → Option ChainedTuple

structure Key where
  bytes : Bytes
  fits : bytes.length < 2 ^ 16

/-- A value whose payload length, with the header, is a `u16`. -/
structure Value where
  bytes : Bytes
  fits : bytes.length + sizeofChainedTuple < 2 ^ 16

structure InPlace where
  apply : Bytes → Bytes
  length_apply : ∀ value, (apply value).length = value.length

structure WALInsert where
  keyLength : UInt16
  valueLength : UInt16
  payload : Bytes
  deriving DecidableEq, Repr

structure WALUpdateSSIP where
  keyLength : UInt16
  deltaLength : UInt64
  beforeWorkerId : WorkerId
  beforeTxId : TxId
  beforeCommandId : TxId
  payload : Bytes
  deriving DecidableEq, Repr

structure WALRemove where
  keyLength : UInt16
  valueLength : UInt16
  beforeWorkerId : UInt8
  beforeTxId : UInt64
  beforeCommandId : UInt64
  payload : Bytes
  deriving DecidableEq, Repr

inductive WALEntry
  | insert (entry : WALInsert)
  | update (entry : WALUpdateSSIP)
  | remove (entry : WALRemove)
  deriving DecidableEq, Repr

def WALEntry.key : WALEntry → Bytes
  | .insert entry => entry.payload.take entry.keyLength.toNat
  | .update entry => entry.payload.take entry.keyLength.toNat
  | .remove entry => entry.payload.take entry.keyLength.toNat

structure Transaction where
  workerId : WorkerId
  startTs : TxId
  deriving DecidableEq, Repr

inductive Call
  | insert (key : Key) (value : Value)
  | update (key : Key) (descriptor : Descriptor) (callback : InPlace) (commandId : CommandId)
  | remove (key : Key) (commandId : CommandId)

def Call.key : Call → Key
  | .insert key _ => key
  | .update key .. => key
  | .remove key _ => key

def walInsert (key : Key) (value : Value) : WALInsert where
  keyLength := UInt16.ofNat key.bytes.length
  valueLength := UInt16.ofNat value.bytes.length
  payload := key.bytes ++ value.bytes

def walUpdate (key : Key) (descriptor : Descriptor) (tuple : ChainedTuple) (after : Bytes) :
    WALUpdateSSIP where
  keyLength := UInt16.ofNat key.bytes.length
  deltaLength := (UInt16.ofNat (descriptor.bytes.length +
    (descriptor.map DiffSlot.length).sum)).toUInt64
  beforeWorkerId := tuple.workerId
  beforeTxId := tuple.txTs
  beforeCommandId := tuple.commandId.toUInt64
  payload := key.bytes ++ (descriptor.bytes ++
    generateXORDiff descriptor (generateDiff descriptor tuple.value) after)

def walRemove (key : Key) (tuple : ChainedTuple) : WALRemove where
  keyLength := UInt16.ofNat key.bytes.length
  valueLength := UInt16.ofNat tuple.value.length
  beforeWorkerId := tuple.workerId.toUInt8
  beforeTxId := tuple.txTs
  beforeCommandId := tuple.commandId.toUInt64
  payload := key.bytes ++ tuple.value

namespace ChainedTuple

def tagged (tuple : ChainedTuple) (tx : Transaction) (commandId : CommandId) : ChainedTuple :=
  { tuple with
    workerId := tx.workerId
    txTs := tx.startTs
    commandId := commandId
    writeLocked := false }

def inserted (tx : Transaction) (value : Bytes) : ChainedTuple :=
  ⟨⟨tx.workerId, tx.startTs, invalidCommandId, false⟩, 0, 0, false, value⟩

def updated (tuple : ChainedTuple) (tx : Transaction) (value : Bytes) (commandId : CommandId) :
    ChainedTuple :=
  { tuple.tagged tx commandId with value := value }

def removed (tuple : ChainedTuple) (tx : Transaction) (commandId : CommandId) : ChainedTuple :=
  { tuple.tagged tx commandId with
    isRemoved := true
    value := if 1 < tuple.value.length then [] else tuple.value }

end ChainedTuple

/-- `ensureFails` stands for an `ensure` that stops the program. -/
inductive CallResult
  | ok (tuple : ChainedTuple) (entry : WALEntry)
  | abortTX
  | notFound
  | ensureFails

/-- What a call makes of the key's tuple, under snapshot isolation.
`isVisibleForMe` is asked with `to_write`. -/
def callTuple (isVisibleForMe : WorkerId → TxId → Bool) (tx : Transaction) :
    Call → Option ChainedTuple → CallResult
  | .insert key value, none =>
    .ok (ChainedTuple.inserted tx value.bytes) (.insert (walInsert key value))
  | .insert _ _, some tuple =>
    if tuple.writeLocked ∨ isVisibleForMe tuple.workerId tuple.txTs = false then .abortTX
    else .ensureFails
  | .update _ _ _ _, none => .notFound
  | .update key descriptor callback commandId, some tuple =>
    if tuple.writeLocked ∨ isVisibleForMe tuple.workerId tuple.txTs = false then .abortTX
    else
      let after := callback.apply tuple.value
      .ok (tuple.updated tx after commandId) (.update (walUpdate key descriptor tuple after))
  -- `explainWhen(atLeastSI())`
  | .remove _ _, none => .ensureFails
  | .remove key commandId, some tuple =>
    if tuple.writeLocked ∨ isVisibleForMe tuple.workerId tuple.txTs = false then .abortTX
    else if tuple.isRemoved then .ensureFails
    else .ok (tuple.removed tx commandId) (.remove (walRemove key tuple))

/-- What `undo` makes of the tuple under the record's key; `none` where an
`ensure` fails.  `didExtend` is the answer of `extendPayload`, which looks for room in the
leaf. -/
def undoTuple (didExtend : Bool) : WALEntry → Option ChainedTuple → Option (Option ChainedTuple)
  | _, none => none
  | .insert _, some _ => some none
  | .update entry, some tuple =>
    if tuple.writeLocked then
      none
    else
      let memory := ofBytes entry.payload
      let descriptor := descriptorAt memory entry.keyLength.toNat
      some (some
        { tuple with
          workerId := entry.beforeWorkerId
          txTs := entry.beforeTxId
          commandId := entry.beforeCommandId.toUInt32
          value := applyXORDiff descriptor tuple.value
            (diffAt memory entry.keyLength.toNat descriptor) })
  | .remove entry, some tuple =>
    if tuple.value.length < entry.valueLength.toNat ∧ didExtend = false then
      none
    else
      some (some
        ⟨⟨entry.beforeWorkerId.toUInt16, entry.beforeTxId, entry.beforeCommandId.toUInt32,
          false⟩, 0, 0, false,
          (entry.payload.drop entry.keyLength.toNat).take entry.valueLength.toNat⟩)

def undo (didExtend : Bool) (table : Table) (entry : WALEntry) : Option Table :=
  (undoTuple didExtend entry (table entry.key)).map (Function.update table entry.key)

section Inverse

variable {isVisibleForMe : WorkerId → TxId → Bool} {tx : Transaction} {call : Call}
  {before : Option ChainedTuple} {after : ChainedTuple} {e : WALEntry} {tuple : ChainedTuple}
  {commandId : CommandId}

/-- The tuple without the counters that only steer the conversion to fat tuples. -/
def ChainedTuple.version (tuple : ChainedTuple) : ChainedTuple :=
  { tuple with updatesCounter := 0, oldestTx := 0 }

/-- What a call needs so that its record can undo it: the callback of an update
changes only the bytes that its descriptor names, and a removed version's worker
fits the record's field. -/
def Undoable : Call → Option ChainedTuple → Prop
  | .update _ descriptor callback _, some tuple =>
    descriptor.Describes tuple.value.length ∧ descriptor.length < 2 ^ 8 ∧
      ChangesOnly descriptor tuple.value (callback.apply tuple.value)
  | .remove _ _, some tuple => tuple.workerId.toNat < 2 ^ 8
  | _, _ => True

theorem take_key (key : Key) (behind : Bytes) :
    (key.bytes ++ behind).take (UInt16.ofNat key.bytes.length).toNat = key.bytes := by
  rw [UInt16.toNat_ofNat_of_lt' key.fits, take_left]

theorem undo_update {key : Key} {descriptor : Descriptor}
    {callback : InPlace} (fits : tuple.value.length < 2 ^ 16) (unlocked : tuple.writeLocked = false)
    (undoable : Undoable (.update key descriptor callback commandId) (some tuple)) :
    undoTuple true (.update (walUpdate key descriptor tuple (callback.apply tuple.value)))
      (some (tuple.updated tx (callback.apply tuple.value) commandId)) = some (some tuple) := by
  obtain ⟨describes, count, changes⟩ := undoable
  have widths : descriptor.Fits := by
    refine ⟨count, ?_⟩
    intro slot mem
    have inside := describes.inside slot mem
    omega
  generalize isAfter : callback.apply tuple.value = after at changes ⊢
  have length : (generateXORDiff descriptor (generateDiff descriptor tuple.value) after).length =
      (descriptor.map DiffSlot.length).sum := by
    rw [generateXORDiff_generateDiff describes.inside, length_flatMap]
    congr 1
    apply map_congr_left
    intro slot mem
    have inside := describes.inside slot mem
    rw [length_zipWith, length_read inside, length_read (changes.1 ▸ inside), min_self]
  have stores := (stores_append.mp (stores_ofBytes (walUpdate key descriptor tuple
    after).payload)).2
  rw [zero_add] at stores
  obtain ⟨isDescriptor, isDiff⟩ := descriptorAt_eq widths stores length
  have keyLength : (walUpdate key descriptor tuple after).keyLength.toNat = key.bytes.length :=
    UInt16.toNat_ofNat_of_lt' key.fits
  simp only [undoTuple, updated, tagged, keyLength, isDescriptor,
    isDiff, applyXORDiff_generateXORDiff describes changes]
  obtain ⟨⟨_, _, commandId, writeLocked⟩, _, _, _, value⟩ := tuple
  cases unlocked
  simp [walUpdate]

theorem undo_remove {key : Key}
    (fits : tuple.value.length < 2 ^ 16) (unlocked : tuple.writeLocked = false)
    (live : tuple.isRemoved = false) (narrow : tuple.workerId.toNat < 2 ^ 8) :
    undoTuple true (.remove (walRemove key tuple)) (some (tuple.removed tx commandId)) =
      some (some tuple.version) := by
  have keyLength : (walRemove key tuple).keyLength.toNat = key.bytes.length :=
    UInt16.toNat_ofNat_of_lt' key.fits
  have valueLength : (walRemove key tuple).valueLength.toNat = tuple.value.length :=
    UInt16.toNat_ofNat_of_lt' fits
  have w : tuple.workerId.toUInt8.toUInt16 = tuple.workerId := by
    apply UInt16.toNat.inj
    exact Nat.mod_eq_of_lt narrow
  simp only [undoTuple, keyLength, valueLength]
  obtain ⟨⟨workerId, _, commandId, writeLocked⟩, _, _, isRemoved, value⟩ := tuple
  cases unlocked
  cases live
  simp [walRemove, w, version]

/-- A tuple between two exclusive latches of its leaf: unlocked, in a slot whose
payload length is a `u16`. -/
structure ChainedTuple.Settled (tuple : ChainedTuple) : Prop where
  unlocked : tuple.writeLocked = false
  fits : tuple.value.length + sizeofChainedTuple < 2 ^ 16

instance (tuple : ChainedTuple) : Decidable tuple.Settled :=
  decidable_of_iff (tuple.writeLocked = false ∧ tuple.value.length + sizeofChainedTuple < 2 ^ 16)
    ⟨fun both => ⟨both.1, both.2⟩, fun both => ⟨both.unlocked, both.fits⟩⟩

theorem settled_of_version_eq {now other : Option ChainedTuple}
    (same : now.map version = other.map version)
    (settled : ∀ tuple, now = some tuple → tuple.Settled) :
    ∀ tuple, other = some tuple → tuple.Settled := by
  rintro tuple rfl
  obtain ⟨first, isNow, versions⟩ := Option.map_eq_some_iff.mp same
  obtain ⟨unlocked, fits⟩ := settled first isNow
  have locked := congrArg (fun v => v.writeLocked) versions
  have value := congrArg (fun v => v.value) versions
  exact ⟨locked ▸ unlocked, value ▸ fits⟩

section

variable (ok : callTuple isVisibleForMe tx call before = .ok after e)
include ok

theorem callTuple_cases : (∃ key value, call = .insert key value ∧ before = none ∧
      after = inserted tx value.bytes ∧ e = .insert (walInsert key value)) ∨
    (∃ key descriptor callback commandId tuple,
      call = .update key descriptor callback commandId ∧ before = some tuple ∧
      isVisibleForMe tuple.workerId tuple.txTs = true ∧
      after = tuple.updated tx (callback.apply tuple.value) commandId ∧
      e = .update (walUpdate key descriptor tuple (callback.apply tuple.value))) ∨
    ∃ key commandId tuple, call = .remove key commandId ∧ before = some tuple ∧
      isVisibleForMe tuple.workerId tuple.txTs = true ∧ tuple.isRemoved = false ∧
      after = tuple.removed tx commandId ∧ e = .remove (walRemove key tuple) := by
  unfold callTuple at ok
  split at ok
  · cases ok
    exact .inl ⟨_, _, rfl, rfl, rfl, rfl⟩
  · split at ok <;> contradiction
  · contradiction
  · split at ok
    · contradiction
    · rename_i free
      cases ok
      exact .inr (.inl ⟨_, _, _, _, _, rfl, rfl, by simpa using (not_or.mp free).2, rfl, rfl⟩)
  · contradiction
  · split at ok
    · contradiction
    · rename_i free
      split at ok
      · contradiction
      · rename_i live
        cases ok
        exact .inr (.inr ⟨_, _, _, rfl, rfl, by simpa using (not_or.mp free).2,
          by simpa using live, rfl, rfl⟩)

theorem key_of_ok : e.key = call.key.bytes := by
  obtain ⟨key, _, rfl, -, -, rfl⟩ | ⟨key, _, _, commandId, tuple, rfl, -, -,
    -, rfl⟩ | ⟨key, commandId, tuple, rfl, -, -, -, -, rfl⟩ := callTuple_cases ok
  all_goals exact take_key key _

theorem tag_of_ok : after.workerId = tx.workerId ∧ after.txTs = tx.startTs := by
  obtain ⟨key, _, -, -, rfl, -⟩ | ⟨key, _, _, commandId, tuple, -, -, -,
    rfl, -⟩ | ⟨key, commandId, tuple, -, -, -, -, rfl, -⟩ := callTuple_cases ok
  all_goals exact ⟨rfl, rfl⟩

end

theorem settled_of_ok (settled : ∀ tuple, before = some tuple → tuple.Settled)
    (ok : callTuple isVisibleForMe tx call before = .ok after e) : after.Settled := by
  obtain ⟨key, value, -, -, rfl, -⟩ | ⟨key, _, callback, commandId, tuple, -, isBefore,
    -, rfl, -⟩ | ⟨key, commandId, tuple, -, isBefore, -, -, rfl, -⟩ := callTuple_cases ok
  · exact ⟨rfl, value.fits⟩
  · refine ⟨rfl, ?_⟩
    have fits := (settled tuple isBefore).fits
    rwa [← callback.length_apply] at fits
  · refine ⟨rfl, ?_⟩
    have fits := (settled tuple isBefore).fits
    simp only [removed]
    split
    · exact by decide
    · exact fits

theorem undoTuple_of_ok (settled : ∀ tuple, before = some tuple → tuple.Settled)
    (undoable : Undoable call before) (ok : callTuple isVisibleForMe tx call before = .ok after e) :
    ∃ earlier, undoTuple true e (some after) = some earlier ∧
      earlier.map version = before.map version := by
  obtain ⟨key, _, rfl, rfl, rfl, rfl⟩ | ⟨key, _, _, commandId, tuple, rfl, rfl,
    -, rfl, rfl⟩ | ⟨key, commandId, tuple, rfl, rfl, -, live, rfl, rfl⟩ := callTuple_cases ok
  · exact ⟨none, rfl, rfl⟩
  · obtain ⟨unlocked, fits⟩ := settled tuple rfl
    exact ⟨some tuple, undo_update (by omega) unlocked undoable, rfl⟩
  · obtain ⟨unlocked, fits⟩ := settled tuple rfl
    exact ⟨some tuple.version, undo_remove (by omega) unlocked live undoable, rfl⟩

theorem undoTuple_congr {now other earlier : Option ChainedTuple}
    (same : now.map version = other.map version) (undone : undoTuple true e now = some earlier) :
    ∃ otherEarlier, undoTuple true e other = some otherEarlier ∧
      earlier.map version = otherEarlier.map version := by
  match now, other with
  | none, _ => contradiction
  | some _, none => contradiction
  | some tuple, some otherTuple =>
    have versions : tuple.version = otherTuple.version := Option.some.inj same
    have locked := congrArg (fun v => v.writeLocked) versions
    have value := congrArg (fun v => v.value) versions
    have removed := congrArg (fun v => v.isRemoved) versions
    simp only [version] at locked value removed
    cases e with
    | insert => exact ⟨none, rfl, by cases undone; rfl⟩
    | update e =>
      simp only [undoTuple, ← locked, ← value] at undone ⊢
      split at undone
      · contradiction
      · rename_i unlocked
        cases undone
        rw [if_neg unlocked]
        refine ⟨_, rfl, ?_⟩
        simp [version, removed]
    | remove =>
      simp only [undoTuple, reduceCtorEq, and_false, if_false] at undone ⊢
      exact ⟨_, undone, rfl⟩

/-- An `extendPayload` that fails stops the undo and changes nothing else. -/
theorem undoTuple_of_extended {didExtend : Bool} {now earlier : Option ChainedTuple}
    (undone : undoTuple didExtend e now = some earlier) : undoTuple true e now = some earlier := by
  match e, now with
  | _, none => contradiction
  | .insert _, some _ => exact undone
  | .update _, some _ => exact undone
  | .remove _, some _ =>
    simp only [undoTuple] at undone ⊢
    split at undone
    · contradiction
    · simpa using undone

end Inverse

end TieredStore.VersionedIndex
