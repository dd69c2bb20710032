import TieredStore.Lib.KeyList
import TieredStore.Lib.Transition
import TieredStore.ConcurrencyControl.State

/-!
The versions that one worker puts into its history trees, and how its transactions number
them.  The updates are in one tree and the removes in another.
-/

namespace TieredStore.HistoryTree

open ConcurrencyControl (Bytes TxIsolationLevel)
open KeyList Transition

/-- A record of a history tree.  `id` and `transaction` are ghosts: the number of the insert,
and of the transaction that made it. -/
structure Version where
  txId : Nat
  commandId : Nat
  payload : Bytes
  id : Nat
  transaction : Nat
  deriving DecidableEq, Repr

/-- The key is the transaction id and the `u32` command id, folded from the most significant
byte on. -/
def keyOf (txId commandId : Nat) : Nat := txId * 2 ^ 32 + commandId

def Version.key (version : Version) : Nat := keyOf version.txId version.commandId

/-- What `insertVersion` remembers of the leaf it found by a search: the version that it put
there, which names the position, and the transaction. -/
structure Session where
  rightmost : Nat
  lastTxId : Nat
  deriving DecidableEq, Repr

/-- `written` is a ghost: what was inserted into a tree and not purged from it. -/
structure WorkerState where
  globalClock : Nat
  startTs : Nat
  level : TxIsolationLevel
  started : Bool
  commandId : Nat
  tree : Bool → List Version
  session : Bool → Option Session
  transaction : Nat
  nextVersion : Nat
  written : Bool → List Version

/-- The command id of a version: the counter of the worker, with the most significant bit of
a `COMMANDID` set for a remove. -/
def newCommandId (commandId : Nat) (isRemove : Bool) : Nat :=
  (commandId ||| if isRemove then 2 ^ 31 else 0) % 2 ^ 32

/-- `retrieveVersion`.  The bit tells the tree. -/
def retrieveVersion (state : WorkerState) (txId commandId : Nat) : Option Bytes :=
  (seekExact Version.key (keyOf txId commandId) (state.tree (commandId.testBit 31))).map
    Version.payload

namespace WorkerState

def newVersion (state : WorkerState) (isRemove : Bool) (payload : Bytes) : Version where
  txId := state.startTs
  commandId := newCommandId state.commandId isRemove
  payload := payload
  id := state.nextVersion
  transaction := state.transaction

/-- The version is put into its tree, and the command counter moves on. -/
def push (state : WorkerState) (isRemove : Bool) (version : Version)
    (entries : List Version) (session : Option Session) : WorkerState :=
  { state with
    commandId := (state.commandId + 1) % 2 ^ 64
    tree := Function.update state.tree isRemove entries
    session := Function.update state.session isRemove session
    nextVersion := state.nextVersion + 1
    written := Function.update state.written isRemove (version :: state.written isRemove) }

/-- The trees after a purge.  A session is good for the leaf it remembers as long as the leaf
has not been touched. -/
def purgeTo (state : WorkerState) (tree : Bool → List Version) : WorkerState :=
  { state with
    tree := tree
    session := fun isRemove => (state.session isRemove).filter fun session =>
      (tree isRemove).any fun version => version.id = session.rightmost
    written := fun isRemove => (state.written isRemove).filter fun version =>
      version ∉ state.tree isRemove ∨ version ∈ tree isRemove }

end WorkerState

/-- The remove tree without the transactions of the range: versions are removed one by one
from the first of them on. -/
def purgeRemoves (fromTxId toTxId : Nat) (entries : List Version) : List Version :=
  before Version.key (keyOf fromTxId 0) entries ++
    (seek Version.key (keyOf fromTxId 0) entries).dropWhile fun version =>
      version.txId ≤ toTxId

/-- The update tree loses whole pages of the range; the ids are those of the versions on such
pages. -/
def purgeUpdates (fromTxId toTxId : Nat) (pages : List Nat) (entries : List Version) :
    List Version :=
  entries.filter fun version =>
    ¬ (fromTxId ≤ version.txId ∧ version.txId ≤ toTxId ∧ version.id ∈ pages)

def WorkerState.purgeVersions (state : WorkerState) (fromTxId toTxId : Nat)
    (pages : List Nat) : WorkerState :=
  state.purgeTo fun isRemove =>
    if isRemove then purgeRemoves fromTxId toTxId (state.tree true)
    else purgeUpdates fromTxId toTxId pages (state.tree false)

/-- `startTX` carries what the global clock returns if it is drawn.  The flag of
`insertVersion` says whether the leaf of the session could still be used. -/
inductive WorkerAction
  | startTX (level : TxIsolationLevel) (ts : Nat)
  | insertVersion (isRemove : Bool) (payload : Bytes) (fast : Bool)
  | commitTX
  | abortTX (pages : List Nat)
  | garbageCollection (localAllLwm : Nat) (pages : List Nat)
  deriving DecidableEq, Repr

def step (state : WorkerState) : WorkerAction → Option WorkerState
  | .startTX level ts =>
    if state.started = false ∧ state.globalClock ≤ ts then
      let next :=
        { state with
          started := true
          level := level
          transaction := state.transaction + 1 }
      if level.atLeastSI then
        some { next with startTs := ts, globalClock := ts + 1 }
      else
        some next
    else
      none
  | .insertVersion isRemove payload fast =>
    if state.started then
      let version := state.newVersion isRemove payload
      let entries := state.tree isRemove
      if fast then
        match state.session isRemove with
        | none => none
        | some session =>
          some (state.push isRemove version
            (if session.lastTxId = state.startTs then
              insertAfter (fun found => found.id = session.rightmost) version entries
            else
              insert Version.key version entries)
            none)
      else
        some (state.push isRemove version (upsert Version.key version entries)
          (some ⟨version.id, state.startTs⟩))
    else
      none
  | .commitTX =>
    if state.started then
      -- the counter is reset here, and never by an abort
      some { state with started := false, commandId := 0 }
    else
      none
  | .abortTX pages =>
    if state.started then
      some { state.purgeVersions state.startTs state.startTs pages with started := false }
    else
      none
  | .garbageCollection localAllLwm pages =>
    if 0 < localAllLwm then
      some (state.purgeVersions 0 (localAllLwm - 1) pages)
    else
      none

structure Initial (s : WorkerState) : Prop where
  startTs : s.startTs < s.globalClock
  started : s.started = false
  tree : ∀ isRemove, s.tree isRemove = []
  session : ∀ isRemove, s.session isRemove = none
  written : ∀ isRemove, s.written isRemove = []

def WorkerState.fresh : WorkerState where
  globalClock := 2 ^ 8
  startTs := 0
  level := .snapshotIsolation
  started := false
  commandId := 0
  tree _ := []
  session _ := none
  transaction := 0
  nextVersion := 0
  written _ := []

theorem initial_fresh : Initial WorkerState.fresh := by
  constructor <;> intros <;> first | rfl | decide

abbrev Reaches (allowed : WorkerState → WorkerAction → Prop) : WorkerState → Prop :=
  Reachable step Initial allowed

/-- The list of a tree after an insert: behind the session's version, where the key belongs,
or in place of a version with the same key. -/
inductive InsertsInto (s : WorkerState) (isRemove : Bool) (v : Version) :
    List Version → Option Session → Prop
  | behind {session} (valid : s.session isRemove = some session) :
    InsertsInto s isRemove v
      (insertAfter (fun found => found.id = session.rightmost) v (s.tree isRemove))
      none
  | inOrder : InsertsInto s isRemove v
    (insert Version.key v (s.tree isRemove)) none
  | upserts : InsertsInto s isRemove v
    (upsert Version.key v (s.tree isRemove)) (some ⟨v.id, s.startTs⟩)

inductive Step (s : WorkerState) : WorkerAction → WorkerState → Prop
  | draw {level ts} (drawn : s.globalClock ≤ ts) :
    Step s (.startTX level ts)
      { s with
        started := true
        level := level
        transaction := s.transaction + 1
        startTs := ts
        globalClock := ts + 1 }
  | keep {level ts} (weak : level.atLeastSI = false) :
    Step s (.startTX level ts)
      { s with
        started := true
        level := level
        transaction := s.transaction + 1 }
  | insertVersion {isRemove payload fast entries session} (started : s.started = true)
    (inserts : InsertsInto s isRemove (s.newVersion isRemove payload) entries session) :
    Step s (.insertVersion isRemove payload fast)
      (s.push isRemove (s.newVersion isRemove payload) entries session)
  | commitTX : Step s .commitTX { s with started := false, commandId := 0 }
  | abortTX {pages} (started : s.started = true) :
    Step s (.abortTX pages)
      { s.purgeVersions s.startTs s.startTs pages with started := false }
  | garbageCollection {localAllLwm pages} :
    Step s (.garbageCollection localAllLwm pages)
      (s.purgeVersions 0 (localAllLwm - 1) pages)

theorem step_cases {s s' : WorkerState} {a : WorkerAction}
    (taken : step s a = some s') : Step s a s' := by
  cases a with
  | startTX level ts =>
    obtain ⟨may, taken⟩ := Option.ite_none_right_eq_some.mp taken
    split at taken
    · cases taken
      exact .draw may.2
    · rename_i weak
      cases taken
      exact .keep (by simpa using weak)
  | insertVersion isRemove payload fast =>
    obtain ⟨started, taken⟩ := Option.ite_none_right_eq_some.mp taken
    split at taken
    · split at taken
      · contradiction
      · rename_i session valid
        cases taken
        refine .insertVersion started ?_
        split
        · exact .behind valid
        · exact .inOrder
    · cases taken
      exact .insertVersion started .upserts
  | commitTX =>
    obtain ⟨-, ⟨⟩⟩ := Option.ite_none_right_eq_some.mp taken
    exact .commitTX
  | abortTX =>
    simp only [step] at taken
    split at taken
    · cases taken
      exact .abortTX ‹_›
    · contradiction
  | garbageCollection =>
    obtain ⟨-, ⟨⟩⟩ := Option.ite_none_right_eq_some.mp taken
    exact .garbageCollection

end TieredStore.HistoryTree
