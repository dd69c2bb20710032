import TieredStore.VersionedIndex.ReadPaths
import TieredStore.VersionedIndex.Wal

/-!
The version chain of one key.  The newest version is in the leaf, and each write leaves in a
history tree what takes its version back to the one before.
-/

namespace TieredStore.VersionedIndex

open ByteMemory ChainedTuple Version

def ChainedTuple.id (tuple : ChainedTuple) : VersionId :=
  ⟨tuple.workerId, tuple.txTs, tuple.commandId⟩

/-- The `UpdateVersion` of an update, with the bytes that the update is about to change. -/
def ChainedTuple.updateVersion (tuple : ChainedTuple) (descriptor : Descriptor) : Version :=
  .delta tuple.id descriptor (generateDiff descriptor tuple.value)

/-- The `RemoveVersion` of a remove: the key, and behind it the value. -/
def ChainedTuple.removeVersion (tuple : ChainedTuple) (key : Key) : Version :=
  .remove tuple.id key.bytes.length tuple.value.length (key.bytes ++ tuple.value)

structure Write where
  tx : Transaction
  commandId : CommandId
  commitTs : Nat
  deriving DecidableEq, Repr

inductive RowHistory
  | inserted (write : Write) (value : Value)
  | updated (earlier : RowHistory) (write : Write) (descriptor : Descriptor)
    (callback : InPlace)

namespace RowHistory

def inserter : RowHistory → Write
  | .inserted write _ => write
  | .updated earlier .. => earlier.inserter

def newest : RowHistory → Write
  | .inserted write _ => write
  | .updated _ write _ _ => write

def tuple : RowHistory → ChainedTuple
  | .inserted write value => ChainedTuple.inserted write.tx value.bytes
  | .updated earlier write _ callback =>
    earlier.tuple.updated write.tx (callback.apply earlier.tuple.value) write.commandId

def valueAt (snapshot : Nat) : RowHistory → Option Bytes
  | .inserted write value => if write.commitTs < snapshot then some value.bytes else none
  | .updated earlier write _ callback =>
    if write.commitTs < snapshot then (earlier.valueAt snapshot).map callback.apply
    else earlier.valueAt snapshot

def hidden (snapshot : Nat) : RowHistory → Nat
  | .inserted write _ => if write.commitTs < snapshot then 0 else 1
  | .updated earlier write _ _ =>
    earlier.hidden snapshot + if write.commitTs < snapshot then 0 else 1

/-- The bytes of the value that the diffs of the unseen updates put back. -/
def Rewrites (snapshot position : Nat) : RowHistory → Prop
  | .inserted _ _ => False
  | .updated earlier write descriptor _ => snapshot ≤ write.commitTs ∧
      ((∃ slot ∈ descriptor, slot.Covers position) ∨ earlier.Rewrites snapshot position)

/-- What the diffs of the unseen updates make of a value, newest first. -/
def rewound (snapshot : Nat) : RowHistory → Bytes → Bytes
  | .inserted _ _, value => value
  | .updated earlier write descriptor _, value =>
    if write.commitTs < snapshot then value
    else earlier.rewound snapshot
      (applyDiff descriptor value (generateDiff descriptor earlier.tuple.value))

end RowHistory

/-- A write on top of a version that its transaction sees: its own, or one that committed
before the transaction started. -/
def Write.Follows (write earlier : Write) : Prop :=
  (write.tx = earlier.tx ∧ write.commitTs = earlier.commitTs) ∨
    (earlier.commitTs < write.tx.startTs.toNat ∧ write.tx.startTs.toNat < write.commitTs)

theorem Write.Follows.commitTs_le {write earlier : Write} (follows : write.Follows earlier) :
    earlier.commitTs ≤ write.commitTs := by
  rcases follows with ⟨-, same⟩ | ⟨_, _⟩
  · exact le_of_eq same.symm
  · omega

namespace RowHistory

/-- Each update follows the write before it, changes only what its descriptor names, and
names bytes of the value, each once. -/
def WellFormed : RowHistory → Prop
  | .inserted _ _ => True
  | .updated earlier write descriptor callback =>
    write.Follows earlier.newest ∧
      descriptor.Describes earlier.tuple.value.length ∧
      ChangesOnly descriptor earlier.tuple.value (callback.apply earlier.tuple.value) ∧
      earlier.WellFormed

/-- The reader sees a write if it committed before the snapshot. -/
def SeenBy (isVisibleForMe : Visibility) (snapshot : Nat) : RowHistory → Prop
  | .inserted write _ =>
    isVisibleForMe write.tx.workerId write.tx.startTs false = decide (write.commitTs < snapshot)
  | .updated earlier write _ _ =>
    isVisibleForMe write.tx.workerId write.tx.startTs false =
        decide (write.commitTs < snapshot) ∧
      earlier.SeenBy isVisibleForMe snapshot

/-- The history trees still hold the versions of the writes that the snapshot does not see.
An insert has left none. -/
def Stored (retrieveVersion : VersionId → Option Version) (snapshot : Nat) :
    RowHistory → Prop
  | .inserted write _ =>
    retrieveVersion ⟨write.tx.workerId, write.tx.startTs, invalidCommandId⟩ = none
  | .updated earlier write descriptor _ =>
    (snapshot ≤ write.commitTs →
      retrieveVersion ⟨write.tx.workerId, write.tx.startTs, write.commandId⟩ =
        some (earlier.tuple.updateVersion descriptor)) ∧
      earlier.Stored retrieveVersion snapshot

variable {isVisibleForMe : Visibility} {retrieveVersion : VersionId → Option Version}
  {snapshot budget : Nat} {history : RowHistory}

theorem fits (history : RowHistory) : history.tuple.value.length + sizeofChainedTuple < 2 ^ 16 := by
  induction history with
  | inserted write value => exact value.fits
  | updated _ write _ callback ih =>
    simpa [tuple, ChainedTuple.updated, callback.length_apply] using ih

theorem inserter_le_newest (wellFormed : history.WellFormed) :
    history.inserter.commitTs ≤ history.newest.commitTs := by
  induction history with
  | inserted => exact le_refl _
  | updated _ _ _ _ ih =>
    obtain ⟨follows, -, -, earlierWellFormed⟩ := wellFormed
    exact le_trans (ih earlierWellFormed) follows.commitTs_le

theorem valueAt_of_seen (wellFormed : history.WellFormed)
    (seen : history.newest.commitTs < snapshot) :
    history.valueAt snapshot = some history.tuple.value := by
  induction history with
  | inserted =>
    simp only [newest] at seen
    simp [valueAt, seen, tuple, ChainedTuple.inserted]
  | updated _ _ _ _ ih =>
    obtain ⟨follows, -, -, earlierWellFormed⟩ := wellFormed
    simp only [newest] at seen
    have before := ih earlierWellFormed (lt_of_le_of_lt follows.commitTs_le seen)
    simp [valueAt, seen, before, tuple, ChainedTuple.updated]

theorem visible_newest (seen : history.SeenBy isVisibleForMe snapshot) :
    isVisibleForMe history.tuple.workerId history.tuple.txTs false =
      decide (history.newest.commitTs < snapshot) := by
  cases history with
  | inserted => exact seen
  | updated => exact seen.1

end RowHistory

def Outcome.ofValue : Option Bytes → Outcome
  | some value => .found value
  | none => .notFound

namespace RowHistory

variable {isVisibleForMe : Visibility} {retrieveVersion : VersionId → Option Version}
  {snapshot budget : Nat} {history : RowHistory} (wellFormed : history.WellFormed)
include wellFormed

theorem hidden_of_seen (seen : history.newest.commitTs < snapshot) :
    history.hidden snapshot = 0 := by
  induction history with
  | inserted => exact if_pos seen
  | updated _ _ _ _ ih =>
    obtain ⟨follows, -, -, earlierWellFormed⟩ := wellFormed
    simp only [newest] at seen
    simp [hidden, seen, ih earlierWellFormed (lt_of_le_of_lt follows.commitTs_le seen)]

/-- From a value of the newest write, the walk goes back to the newest write that the snapshot
sees.  Without one, or with too many writes in between, the process stops. -/
theorem walkVersions_eq (seen : history.SeenBy isVisibleForMe snapshot)
    (stored : history.Stored retrieveVersion snapshot) {value : Bytes}
    (same : value.length = history.tuple.value.length) :
    (if history.newest.commitTs < snapshot then .found value
      else walkVersions isVisibleForMe retrieveVersion budget history.tuple.id value) =
      if history.inserter.commitTs < snapshot ∧ history.hidden snapshot ≤ budget then
        .found (history.rewound snapshot value)
      else .unreachable := by
  induction history generalizing budget value with
  | inserted write =>
    have absent : retrieveVersion ⟨write.tx.workerId, write.tx.startTs, invalidCommandId⟩ =
      none := stored
    by_cases sees : write.commitTs < snapshot
    · simp [newest, inserter, hidden, rewound, sees]
    · cases budget with
      | zero => simp [newest, inserter, sees, walkVersions]
      | succ =>
        simp [newest, inserter, sees, walkVersions, tuple, ChainedTuple.id, ChainedTuple.inserted,
          absent]
  | updated earlier write descriptor callback ih =>
    by_cases sees : write.commitTs < snapshot
    · have born := lt_of_le_of_lt (inserter_le_newest wellFormed) sees
      have none := hidden_of_seen wellFormed sees
      simp [newest, rewound, sees, born, none]
    · obtain ⟨-, -, -, earlierWellFormed⟩ := wellFormed
      obtain ⟨-, earlierSeen⟩ := seen
      obtain ⟨versionOf, earlierStored⟩ := stored
      cases budget with
      | zero => simp [newest, walkVersions, hidden, sees]
      | succ budget =>
        have found := versionOf (not_lt.mp sees)
        have visible := visible_newest earlierSeen
        have whole := earlier.fits
        have length : (applyDiff descriptor value
            (generateDiff descriptor earlier.tuple.value)).length = earlier.tuple.value.length := by
          simpa [tuple, ChainedTuple.updated, callback.length_apply, applyDiff] using same
        have further := @ih budget earlierWellFormed earlierSeen earlierStored _ length
        rw [if_neg (show ¬ (updated earlier write ..).newest.commitTs < snapshot from sees)]
        simpa only [walkVersions, tuple, ChainedTuple.id, ChainedTuple.updated, tagged,
          found, updateVersion, materialize, older, visible, decide_eq_true_eq, inserter, hidden,
          rewound, if_neg sees, Nat.add_le_add_iff_right, narrow, length,
          Nat.mod_eq_of_lt (show earlier.tuple.value.length < 2 ^ 16 by omega),
          List.take_of_length_le length.le] using further

theorem valueAt_of_born (born : history.inserter.commitTs < snapshot) :
    history.valueAt snapshot = some (history.rewound snapshot history.tuple.value) := by
  induction history with
  | inserted => exact if_pos born
  | updated _ write _ _ ih =>
    by_cases sees : write.commitTs < snapshot
    · rw [valueAt_of_seen wellFormed sees]
      simp [rewound, sees]
    · obtain ⟨-, describes, changes, earlierWellFormed⟩ := wellFormed
      simp only [valueAt, rewound, if_neg sees, tuple, ChainedTuple.updated, tagged,
        applyDiff_generateDiff describes.inside changes]
      exact ih earlierWellFormed born

theorem rewound_eq_iff {value other : Bytes} (same : value.length = history.tuple.value.length)
    (length : other.length = value.length) :
    history.rewound snapshot value = history.rewound snapshot other ↔
      ∀ position, ¬ history.Rewrites snapshot position → value[position]? = other[position]? := by
  induction history generalizing value other with
  | inserted => simp [rewound, Rewrites, List.ext_getElem?_iff]
  | updated earlier write descriptor callback ih =>
    by_cases sees : write.commitTs < snapshot
    · simp [rewound, Rewrites, sees, List.ext_getElem?_iff]
    · obtain ⟨-, describes, -, earlierWellFormed⟩ := wellFormed
      have inEarlier : value.length = earlier.tuple.value.length := by
        simpa [tuple, ChainedTuple.updated, callback.length_apply] using same
      simp only [rewound, if_neg sees]
      rw [ih earlierWellFormed (by simpa [applyDiff]) (by simpa [applyDiff])]
      refine forall_congr' fun position => ?_
      rw [getElem?_applyDiff describes.inside inEarlier,
        getElem?_applyDiff describes.inside (length.trans inEarlier)]
      by_cases covered : ∃ slot ∈ descriptor, slot.Covers position
      · simp [Rewrites, not_lt.mp sees, covered]
      · simp [Rewrites, not_lt.mp sees, covered]

end RowHistory

/-- A key's writes, with the remove that may have ended them. -/
structure Row where
  key : Key
  history : RowHistory
  removal : Option Write

namespace Row

def tuple (row : Row) : ChainedTuple :=
  match row.removal with
  | none => row.history.tuple
  | some write => row.history.tuple.removed write.tx write.commandId

def valueAt (snapshot : Nat) (row : Row) : Option Bytes :=
  match row.removal with
  | none => row.history.valueAt snapshot
  | some write => if write.commitTs < snapshot then none else row.history.valueAt snapshot

def hidden (snapshot : Nat) (row : Row) : Nat :=
  row.history.hidden snapshot +
    match row.removal with
    | none => 0
    | some write => if write.commitTs < snapshot then 0 else 1

structure WellFormed (row : Row) : Prop where
  history : row.history.WellFormed
  removal : ∀ write, row.removal = some write → write.Follows row.history.newest

structure SeenBy (isVisibleForMe : Visibility) (snapshot : Nat) (row : Row) : Prop where
  history : row.history.SeenBy isVisibleForMe snapshot
  removal : ∀ write, row.removal = some write →
    isVisibleForMe write.tx.workerId write.tx.startTs false = decide (write.commitTs < snapshot)

structure Stored (retrieveVersion : VersionId → Option Version) (snapshot : Nat) (row : Row) :
    Prop where
  history : row.history.Stored retrieveVersion snapshot
  removal : ∀ write, row.removal = some write → snapshot ≤ write.commitTs →
    retrieveVersion ⟨write.tx.workerId, write.tx.startTs, write.commandId⟩ =
      some (row.history.tuple.removeVersion row.key)

/-- Where the walk starts from the bytes of the key, those that no diff puts back are the
value's own. -/
def KeyPasses (snapshot : Nat) (row : Row) : Prop :=
  ∀ position < row.history.tuple.value.length, ¬ row.history.Rewrites snapshot position →
    (row.key.bytes ++ row.history.tuple.value)[position]? = row.history.tuple.value[position]?

/-- The snapshot sees the remove; or it sees the insert, within reach of the walk, and a
remove that it does not see has left a value of which the diffs make the right one. -/
def Reconstructible (snapshot maxChainLength : Nat) (row : Row) : Prop :=
  (∃ write, row.removal = some write ∧ write.commitTs < snapshot) ∨
    (row.history.inserter.commitTs < snapshot ∧ row.hidden snapshot ≤ max 1 maxChainLength ∧
      (row.removal ≠ none → row.KeyPasses snapshot))

end Row

section Reconstruct

variable {isVisibleForMe : Visibility} {retrieveVersion : VersionId → Option Version}
  {snapshot maxChainLength : Nat} {slot : Slot}

theorem Slot.Holds.slice_value {tuple : ChainedTuple} (holds : slot.Holds tuple.bytes) :
    slice slot.memory sizeofChainedTuple (slot.payloadLength - sizeofChainedTuple) =
      tuple.value := by
  have length := holds.payloadLength
  rw [length_bytes] at length
  rw [length, Nat.add_sub_cancel_left]
  simpa [slice] using holds.slice_chained 0

theorem reconstructChainedTuple_eq {tuple : ChainedTuple} (holds : slot.Holds tuple.bytes) :
    reconstructChainedTuple isVisibleForMe retrieveVersion maxChainLength slot =
      if isVisibleForMe tuple.workerId tuple.txTs false then
        if tuple.isRemoved then .notFound else .found tuple.value else
        walkVersions isVisibleForMe retrieveVersion (max 1 maxChainLength) tuple.id
          tuple.value := by
  have leaf : slot.Holds (LeafTuple.chained tuple).bytes := holds
  have value := holds.slice_value
  have fits := holds.fits
  rw [reconstructChainedTuple, leaf.workerId_eq, leaf.txTs_eq, leaf.commandId_eq,
    holds.isRemoved_eq, narrow, Nat.mod_eq_of_lt (by omega), value]
  rfl

theorem RowHistory.isRemoved_tuple (history : RowHistory) : history.tuple.isRemoved = false := by
  induction history with
  | inserted => rfl
  | updated _ _ _ _ ih => exact ih

theorem reconstruct_live {history : RowHistory} (wellFormed : history.WellFormed)
    (seen : history.SeenBy isVisibleForMe snapshot)
    (stored : history.Stored retrieveVersion snapshot) (holds : slot.Holds history.tuple.bytes) :
    reconstructChainedTuple isVisibleForMe retrieveVersion maxChainLength slot =
      if history.inserter.commitTs < snapshot ∧
          history.hidden snapshot ≤ max 1 maxChainLength then
        .found (history.rewound snapshot history.tuple.value)
      else .unreachable := by
  rw [reconstructChainedTuple_eq holds, RowHistory.visible_newest seen, history.isRemoved_tuple,
    ← RowHistory.walkVersions_eq wellFormed seen stored rfl]
  simp

/-- The remove version gives `value_length` bytes of the key and the value. -/
theorem reconstruct_removed {row : Row} {write : Write} (removal : row.removal = some write)
    (wellFormed : row.WellFormed) (seen : row.SeenBy isVisibleForMe snapshot)
    (stored : row.Stored retrieveVersion snapshot) (unseen : ¬ write.commitTs < snapshot)
    (holds : slot.Holds (row.history.tuple.removed write.tx write.commandId).bytes) :
    reconstructChainedTuple isVisibleForMe retrieveVersion maxChainLength slot =
      if row.history.inserter.commitTs < snapshot ∧
          row.hidden snapshot ≤ max 1 maxChainLength then
        .found (row.history.rewound snapshot
          ((row.key.bytes ++ row.history.tuple.value).take row.history.tuple.value.length))
      else .unreachable := by
  have visible := seen.removal write removal
  have found := stored.removal write removal (not_lt.mp unseen)
  have earlier := RowHistory.visible_newest seen.history
  have whole := row.history.fits
  obtain ⟨rounds, isRounds⟩ : ∃ rounds, max 1 maxChainLength = rounds + 1 :=
    ⟨max 1 maxChainLength - 1, by omega⟩
  have length : ((row.key.bytes ++ row.history.tuple.value).take
      row.history.tuple.value.length).length = row.history.tuple.value.length := by simp
  have further := @RowHistory.walkVersions_eq _ _ _ rounds _ wellFormed.history seen.history
    stored.history _ length
  rw [reconstructChainedTuple_eq holds, isRounds]
  simpa only [removed, tagged, visible, decide_eq_true_eq, if_neg unseen, walkVersions, found,
    removeVersion, materialize, Version.older, ChainedTuple.id, earlier, narrow, length,
    Nat.mod_eq_of_lt (show row.history.tuple.value.length < 2 ^ 16 by omega),
    List.take_of_length_le length.le, Row.hidden, removal, Nat.add_le_add_iff_right] using further

theorem Row.rewound_key_iff {row : Row} (wellFormed : row.history.WellFormed) :
    row.history.rewound snapshot
        ((row.key.bytes ++ row.history.tuple.value).take row.history.tuple.value.length) =
      row.history.rewound snapshot row.history.tuple.value ↔ row.KeyPasses snapshot := by
  rw [RowHistory.rewound_eq_iff wellFormed (by simp) (by simp)]
  refine forall_congr' fun position => ?_
  by_cases below : position < row.history.tuple.value.length
  · rw [List.getElem?_take_of_lt below]
    simp only [below, forall_const]
  · simp [below]

end Reconstruct

def seesStartsBefore (snapshot : TxId) : Visibility := fun _ txTs _ => decide (txTs < snapshot)

def keyOneTwo : Key := ⟨[1, 2], by decide⟩

def valueSevenEight : RowHistory :=
  .inserted ⟨⟨1, 10⟩, invalidCommandId, 11⟩ ⟨[7, 8], by decide⟩

theorem inserted_seen : valueSevenEight.SeenBy (seesStartsBefore 15) 15 := by
  simp only [valueSevenEight, RowHistory.SeenBy]
  decide

def clearSecond : InPlace where
  apply value := value.mapIdx fun position byte => if position = 1 then 0 else byte
  length_apply _ := by simp

def updatedRow : Row where
  key := keyOneTwo
  history := .updated valueSevenEight ⟨⟨2, 20⟩, 0, 21⟩ [⟨1, 1⟩] clearSecond
  removal := none

def updatedRowVersions (id : VersionId) : Option Version :=
  if id = ⟨2, 20, 0⟩ then some (.delta ⟨1, 10, invalidCommandId⟩ [⟨1, 1⟩] [8]) else none

def removedRow : Row where
  key := keyOneTwo
  history := valueSevenEight
  removal := some ⟨⟨1, 20⟩, 0x80000000, 21⟩

def removedRowVersions (id : VersionId) : Option Version :=
  if id = ⟨1, 20, 0x80000000⟩ then
    some (.remove ⟨1, 10, invalidCommandId⟩ 2 2 [1, 2, 7, 8])
  else
    none

end TieredStore.VersionedIndex
