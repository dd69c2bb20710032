import TieredStore.HistoryTree.Versions

/-!
What becomes of a removed row: the tombstone in the main tree, the remove version in the
history tree of the worker, and `garbageCollection`, which deletes the row or moves it to
the graveyard.  All transactions are at snapshot isolation.  A key stands for the tree and
the key in it.
-/

namespace TieredStore.GarbageCollection

open ConcurrencyControl (Bytes)
open HistoryTree (keyOf newCommandId)
open Transition

inductive TupleFormat
  | chained
  | fatTupleDifferentAttributes
  deriving DecidableEq, Repr

structure Tag (WorkerId : Type) where
  workerId : WorkerId
  txTs : Nat
  commandId : Nat
  deriving DecidableEq, Repr

structure Tuple (WorkerId : Type) extends Tag WorkerId where
  format : TupleFormat
  writeLocked : Bool
  isRemoved : Bool
  value : Bytes
  deriving DecidableEq, Repr

structure Row (WorkerId : Type) extends Tuple WorkerId where
  frame : Nat
  slot : Nat
  deriving DecidableEq, Repr

structure DanglingPointer where
  bf : Nat
  latchVersionShouldBe : Nat
  headSlot : Nat
  deriving DecidableEq, Repr

/-- `before` is the version that was removed. -/
structure WALRemove (WorkerId Key : Type) where
  key : Key
  before : Tag WorkerId
  value : Bytes
  deriving DecidableEq, Repr

structure RemoveVersion (WorkerId Key : Type) extends WALRemove WorkerId Key where
  txId : Nat
  commandId : Nat
  calledBefore : Bool
  danglingPointer : DanglingPointer
  deriving DecidableEq, Repr

def RemoveVersion.historyKey {WorkerId Key : Type} (version : RemoveVersion WorkerId Key) : Nat :=
  keyOf version.txId version.commandId

/-- Where `garbageCollection` of the worker is: the loops with the history key that they
seek next. -/
inductive Phase
  | idle
  | purging (position : Nat)
  | visiting (fromTxId position : Nat)
  deriving DecidableEq, Repr

/-- `wal` are the removes of the running transaction, the newest first, and `commits` is a
ghost: the start and the commit timestamps of the transactions that wrote. -/
structure Worker (WorkerId Key : Type) where
  started : Bool
  isOLAP : Bool
  startTs : Nat
  hasWrote : Bool
  commandId : Nat
  wal : List (WALRemove WorkerId Key)
  removes : List (RemoveVersion WorkerId Key)
  localAllLwm : Nat
  localOltpLwm : Nat
  cleanedUntilOltpLwm : Nat
  phase : Phase
  commits : List (Nat × Nat)
  deriving DecidableEq, Repr

structure State (WorkerId Key : Type) where
  globalClock : Nat
  latch : Nat → Nat
  main : Key → Option (Row WorkerId)
  graveyard : Key → Option (Tuple WorkerId)
  worker : WorkerId → Worker WorkerId Key

structure Flags where
  todo : Bool
  olapMode : Bool
  graveyard : Bool
  viDanglingPointer : Bool
  deriving DecidableEq, Repr

variable {WorkerId Key : Type} [DecidableEq WorkerId] [DecidableEq Key]

namespace State

def setWorker (state : State WorkerId Key) (id : WorkerId) (worker : Worker WorkerId Key) :
    State WorkerId Key :=
  { state with worker := Function.update state.worker id worker }

def latched (state : State WorkerId Key) (frame : Nat) : State WorkerId Key :=
  { state with latch := Function.update state.latch frame (state.latch frame + 1) }

def exclusive (state : State WorkerId Key) (frame : Nat) : State WorkerId Key :=
  (state.latched frame).latched frame

def setRow (state : State WorkerId Key) (key : Key) (row : Row WorkerId) :
    State WorkerId Key :=
  { state.exclusive row.frame with main := Function.update state.main key (some row) }

/-- `removeSlot`: the slots behind the row move up. -/
def removeSlot (state : State WorkerId Key) (key : Key) (row : Row WorkerId) :
    State WorkerId Key :=
  { state.exclusive row.frame with
    main := Function.update
      (fun other => (state.main other).map fun found =>
        if found.frame = row.frame ∧ row.slot < found.slot then
          { found with slot := found.slot - 1 }
        else
          found)
      key none }

end State

def buries (id : WorkerId) (version : RemoveVersion WorkerId Key) (tuple : Tuple WorkerId) :
    Bool :=
  !tuple.writeLocked && tuple.workerId == id && tuple.txTs == version.txId && tuple.isRemoved

/-- `BTreeVI::todo`; `none` where it stops in an `ensure` or an `UNREACHABLE`.  `pointed` is
the key in the slot of the dangling pointer. -/
def todo (flags : Flags) (state : State WorkerId Key) (id : WorkerId)
    (version : RemoveVersion WorkerId Key) (calledBefore : Bool) (pointed : Key) :
    Option (State WorkerId Key) :=
  let pointer := version.danglingPointer
  let localAllLwm := (state.worker id).localAllLwm
  -- the fast path asks for the age of the removed version, not of the remove
  if flags.viDanglingPointer ∧ version.before.txTs < localAllLwm ∧
      state.latch pointer.bf = pointer.latchVersionShouldBe then
    match state.main pointed with
    | none => none
    | some row =>
      if row.frame = pointer.bf ∧ row.slot = pointer.headSlot ∧ row.format = .chained ∧
          buries id version row.toTuple then
        some (state.removeSlot pointed row)
      else
        none
  else if calledBefore then
    match state.graveyard version.key with
    | none => none
    | some _ => some { state with graveyard := Function.update state.graveyard version.key none }
  else
    match state.main version.key with
    | none => some state
    | some row =>
      if row.format = .chained ∧ buries id version row.toTuple then
        if row.txTs < localAllLwm then
          some (state.removeSlot version.key row)
        else if row.txTs < (state.worker id).localOltpLwm then
          match state.graveyard version.key with
          | some _ => none
          | none =>
            some { state.removeSlot version.key row with
              graveyard := Function.update state.graveyard version.key (some row.toTuple) }
        else
          none
      else
        some state

namespace Worker

variable (worker : Worker WorkerId Key)

def due : Option (RemoveVersion WorkerId Key) :=
  match worker.phase with
  | .idle => none
  | .purging position =>
    (KeyList.seek RemoveVersion.historyKey position worker.removes).head?.filter
      fun version => version.txId ≤ worker.localAllLwm - 1
  | .visiting fromTxId position =>
    (KeyList.seek RemoveVersion.historyKey position worker.removes).head?.filter
      fun version => fromTxId ≤ version.txId ∧ version.txId ≤ worker.localOltpLwm - 1

def purge (version : RemoveVersion WorkerId Key) : Worker WorkerId Key :=
  { worker with
    removes := worker.removes.filter fun found => found.historyKey ≠ version.historyKey
    phase := .purging (version.historyKey + 1) }

def visit (fromTxId : Nat) (version : RemoveVersion WorkerId Key) : Worker WorkerId Key :=
  { worker with
    removes := worker.removes.map fun found =>
      if found.historyKey = version.historyKey then { found with calledBefore := true }
      else found
    cleanedUntilOltpLwm := max worker.cleanedUntilOltpLwm (version.txId + 1)
    phase := .visiting fromTxId (version.historyKey + 1) }

/-- From the purge on to the removes that are moved, if there are any to move. -/
def toVisit (flags : Flags) : Worker WorkerId Key :=
  { worker with
    phase :=
      if flags.olapMode ∧ worker.localAllLwm ≠ worker.localOltpLwm ∧ flags.graveyard ∧
          0 < worker.localOltpLwm ∧ worker.cleanedUntilOltpLwm < worker.localOltpLwm then
        .visiting worker.cleanedUntilOltpLwm (keyOf worker.cleanedUntilOltpLwm 0)
      else
        .idle }

def synced (localAllLwm localOltpLwm : Nat) : Worker WorkerId Key :=
  { worker with localAllLwm := localAllLwm, localOltpLwm := localOltpLwm }

def cleaned : Worker WorkerId Key :=
  { worker with
    cleanedUntilOltpLwm := max worker.localAllLwm worker.cleanedUntilOltpLwm }

def purgeOwn : List (RemoveVersion WorkerId Key) :=
  KeyList.before RemoveVersion.historyKey (keyOf worker.startTs 0) worker.removes ++
    (KeyList.seek RemoveVersion.historyKey (keyOf worker.startTs 0) worker.removes).dropWhile
      fun version => version.txId ≤ worker.startTs

end Worker

/-- The tombstone of a removed tuple.  A value of one byte is not cut off. -/
def Row.tombstone (row : Row WorkerId) (tag : Tag WorkerId) : Row WorkerId :=
  { row with
    toTag := tag
    isRemoved := true
    writeLocked := false
    value := if 1 < row.value.length then [] else row.value }

def undo (state : State WorkerId Key) (entry : WALRemove WorkerId Key) :
    Option (State WorkerId Key) :=
  match state.main entry.key with
  | none => none
  | some row =>
    some (state.setRow entry.key
      { row with
        toTag := entry.before
        format := .chained
        writeLocked := false
        isRemoved := false
        value := entry.value })

def undoAll (state : State WorkerId Key) :
    List (WALRemove WorkerId Key) → Option (State WorkerId Key)
  | [] => some state
  | entry :: older =>
    match undo state entry with
    | none => none
    | some state' => undoAll state' older

/-- `visible` is the answer of `isVisibleForMe`, and `pointed` the key in the slot of the
dangling pointer, if its leaf has not been touched. -/
inductive Action (WorkerId Key : Type)
  | startTX (id : WorkerId) (isOLAP : Bool)
  | remove (id : WorkerId) (key : Key) (visible : Bool)
  | commitTX (id : WorkerId)
  | abortTX (id : WorkerId)
  | garbageCollection (id : WorkerId) (localAllLwm localOltpLwm : Nat)
  | collect (id : WorkerId) (pointed : Key)
  | relocate (key : Key) (frame slot : Nat)
  | latch (frame : Nat)
  deriving DecidableEq, Repr

def Worker.removeVersion (worker : Worker WorkerId Key) (key : Key) (row : Row WorkerId)
    (latchVersion : Nat) : RemoveVersion WorkerId Key where
  key := key
  before := row.toTag
  value := row.value
  txId := worker.startTs
  commandId := newCommandId worker.commandId true
  calledBefore := false
  danglingPointer := ⟨row.frame, latchVersion, row.slot⟩

def Worker.pushRemove (worker : Worker WorkerId Key)
    (version : RemoveVersion WorkerId Key) : Worker WorkerId Key :=
  { worker with
    hasWrote := true
    commandId := (worker.commandId + 1) % 2 ^ 64
    wal := version.toWALRemove :: worker.wal
    removes := KeyList.upsert RemoveVersion.historyKey version worker.removes }

def step (flags : Flags) (state : State WorkerId Key) :
    Action WorkerId Key → Option (State WorkerId Key)
  | .startTX id isOLAP =>
    let worker := state.worker id
    if worker.started = false ∧ worker.phase = .idle then
      some { state.setWorker id
        { worker with
          started := true
          isOLAP := isOLAP
          startTs := state.globalClock
          hasWrote := false
          wal := [] } with
        globalClock := state.globalClock + 1 }
    else
      none
  | .remove id key visible =>
    let worker := state.worker id
    if worker.started then
      match state.main key with
      | none => some (state.setWorker id { worker with hasWrote := true })
      | some row =>
        if row.format ≠ .chained then
          none
        else if row.writeLocked ∨ visible = false then
          some (state.setWorker id { worker with hasWrote := true })
        else if row.isRemoved then
          none
        else
          -- the version of the latch while this call holds it
          let version := worker.removeVersion key row (state.latch row.frame + 1)
          some ((state.setRow key
            (row.tombstone ⟨id, version.txId, version.commandId⟩)).setWorker id
              (worker.pushRemove version))
    else
      none
  | .commitTX id =>
    let worker := state.worker id
    if worker.started then
      let worker := { worker with started := false, commandId := 0 }
      if worker.hasWrote then
        some { state.setWorker id
          { worker with commits := (worker.startTs, state.globalClock) :: worker.commits } with
          globalClock := state.globalClock + 1 }
      else
        some (state.setWorker id worker)
    else
      none
  | .abortTX id =>
    let worker := state.worker id
    if worker.started then
      match undoAll state worker.wal with
      | none => none
      | some state' =>
        some (state'.setWorker id { worker with started := false, removes := worker.purgeOwn })
    else
      none
  | .garbageCollection id localAllLwm localOltpLwm =>
    let worker := state.worker id
    if flags.todo ∧ worker.started = false ∧ worker.phase = .idle ∧
        (flags.olapMode → localAllLwm ≤ localOltpLwm) then
      let worker := worker.synced localAllLwm localOltpLwm
      some (state.setWorker id
        (if worker.cleanedUntilOltpLwm < localAllLwm then
          { worker with phase := .purging (keyOf 0 0) }
        else
          worker.toVisit flags))
    else
      none
  | .collect id pointed =>
    let worker := state.worker id
    match worker.phase, worker.due with
    | .idle, _ => none
    | .purging _, none => some (state.setWorker id (worker.cleaned.toVisit flags))
    | .purging _, some version =>
      todo flags (state.setWorker id (worker.purge version)) id version
        version.calledBefore pointed
    | .visiting _ _, none => some (state.setWorker id { worker with phase := .idle })
    | .visiting fromTxId _, some version =>
      if version.calledBefore then
        none
      else
        todo flags (state.setWorker id (worker.visit fromTxId version)) id version false
          pointed
  | .relocate key frame slot =>
    (state.main key).map fun row =>
      (state.exclusive row.frame).setRow key { row with frame := frame, slot := slot }
  | .latch frame => some (state.latched frame)

end TieredStore.GarbageCollection
