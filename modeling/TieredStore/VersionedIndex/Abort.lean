import TieredStore.Lib.Transition
import TieredStore.VersionedIndex.Wal

namespace TieredStore.VersionedIndex

open Transition Function ChainedTuple

def Transaction.Wrote (tx : Transaction) (tuple : ChainedTuple) : Prop :=
  tuple.workerId = tx.workerId ∧ tuple.txTs = tx.startTs

instance (tx : Transaction) (tuple : ChainedTuple) : Decidable (tx.Wrote tuple) :=
  inferInstanceAs (Decidable (_ ∧ _))

def Transaction.Foreign (tx : Transaction) : Option ChainedTuple → Prop
  | none => True
  | some tuple => ¬ tx.Wrote tuple ∧ tuple.Settled

instance (tx : Transaction) : DecidablePred tx.Foreign
  | none => inferInstanceAs (Decidable True)
  | some _ => inferInstanceAs (Decidable (_ ∧ _))

/-- `log` has the transaction's records, newest first.  `before` is not part of the
program: it keeps what the transaction found at the keys it changed, until another
transaction changes them. -/
structure State where
  table : Table
  log : List WALEntry
  aborting : Bool
  before : Bytes → Option (Option ChainedTuple)

inductive Action
  | call (isVisibleForMe : WorkerId → TxId → Bool) (call : Call)
  | other (key : Bytes) (tuple : Option ChainedTuple)
  | abortTX
  | undo (didExtend : Bool)

def State.write (state : State) (key : Bytes) (tuple : ChainedTuple) (entry : WALEntry) : State :=
  { state with
    table := Function.update state.table key (some tuple)
    log := entry :: state.log
    before := Function.update state.before key
      (some ((state.before key).getD (state.table key))) }

def step (tx : Transaction) (state : State) : Action → Option State
  | .call isVisibleForMe call =>
    if state.aborting then
      none
    else
      match callTuple isVisibleForMe tx call (state.table call.key.bytes) with
      | .ok tuple entry => some (state.write call.key.bytes tuple entry)
      | .abortTX | .notFound => some state
      | .ensureFails => none
  -- Another transaction sees its conflict in the tag, so it keeps off this one's versions.
  | .other key tuple =>
    if tx.Foreign (state.table key) ∧ tx.Foreign tuple then
      some { state with
        table := Function.update state.table key tuple
        before := Function.update state.before key none }
    else
      none
  | .abortTX => some { state with aborting := true }
  | .undo didExtend =>
    match state.aborting, state.log with
    | true, entry :: older =>
      (undo didExtend state.table entry).map fun table =>
        { state with table := table, log := older }
    | _, _ => none

def Initial (tx : Transaction) (s : State) : Prop :=
  (∀ key, tx.Foreign (s.table key)) ∧ s.log = [] ∧ s.aborting = false ∧ s.before = fun _ => none

def CallsUndoable (s : State) : Action → Prop
  | .call _ call => Undoable call (s.table call.key.bytes)
  | _ => True

variable {e entry : WALEntry} {isVisibleForMe : WorkerId → TxId → Bool} {call : Call}

theorem foreign_of_call {tx other : Transaction}
    {before : Option ChainedTuple} {after : ChainedTuple}
    (settled : ∀ tuple, before = some tuple → tuple.Settled) (differ : other ≠ tx)
    (unseen : isVisibleForMe tx.workerId tx.startTs = false)
    (ok : callTuple isVisibleForMe other call before = .ok after e) :
    tx.Foreign before ∧ tx.Foreign (some after) := by
  have keepsOff : ∀ tuple : ChainedTuple,
      isVisibleForMe tuple.workerId tuple.txTs = true → ¬ tx.Wrote tuple := by
    rintro tuple seen ⟨workerId, txTs⟩
    rw [workerId, txTs, unseen] at seen
    contradiction
  refine ⟨?_, ?_, settled_of_ok settled ok⟩
  · obtain ⟨-, -, -, rfl, -⟩ | ⟨-, -, -, -, tuple, -, rfl, seen, -⟩ |
      ⟨-, -, tuple, -, rfl, seen, -⟩ := callTuple_cases ok
    · trivial
    · exact ⟨keepsOff tuple seen, settled tuple rfl⟩
    · exact ⟨keepsOff tuple seen, settled tuple rfl⟩
  · rintro ⟨workerId, txTs⟩
    obtain ⟨_, _⟩ := tag_of_ok ok
    apply differ
    cases other
    cases tx
    simp_all

/-- The records of one key, newest first, lead from what the key has now back to
what it had; every version that is still to be undone is the transaction's own. -/
inductive Restores (tx : Transaction) (original : Option ChainedTuple) :
    List WALEntry → Option ChainedTuple → Prop
  | done {now} (same : now.map ChainedTuple.version = original.map ChainedTuple.version) :
    Restores tx original [] now
  | undo {e older tuple earlier} (own : tx.Wrote tuple)
    (undone : undoTuple true e (some tuple) = some earlier)
    (settled : ∀ tuple, earlier = some tuple → tuple.Settled)
    (restores : Restores tx original older earlier) :
    Restores tx original (e :: older) (some tuple)

variable {tx : Transaction} {s s' state : State} {a : Action}
  {original now other : Option ChainedTuple} {log : List WALEntry} {table : Table} {key : Bytes}
  {before : Option (Option ChainedTuple)} {records : List WALEntry} {tuple : ChainedTuple}
  {older : List WALEntry}

theorem Restores.congr (same : now.map version = other.map version)
    (restores : Restores tx original log now) : Restores tx original log other := by
  induction restores generalizing other with
  | done isOriginal => exact .done (same ▸ isOriginal)
  | undo own undone settled _ ih =>
    obtain ⟨_, otherUndone, versions⟩ := undoTuple_congr same undone
    obtain ⟨_, rfl, isVersion⟩ := Option.map_eq_some_iff.mp same.symm
    have workerId := congrArg (fun v => v.workerId) isVersion
    have txTs := congrArg (fun v => v.txTs) isVersion
    refine .undo ⟨workerId.trans own.1, txTs.trans own.2⟩ otherUndone ?_ ?_
    · exact settled_of_version_eq versions settled
    · exact ih versions

def recordsOf (key : Bytes) (log : List WALEntry) : List WALEntry :=
  log.filter fun entry => entry.key = key

theorem recordsOf_cons_self (e : WALEntry) (log : List WALEntry) :
    recordsOf e.key (e :: log) = e :: recordsOf e.key log := by
  simp [recordsOf]

theorem recordsOf_cons_of_ne (differ : e.key ≠ key) (log : List WALEntry) :
    recordsOf key (e :: log) = recordsOf key log := by
  simp [recordsOf, differ]

structure KeyInv (tx : Transaction) (before : Option (Option ChainedTuple))
    (records : List WALEntry) (now : Option ChainedTuple) : Prop where
  untouched : before = none → records = []
  restores : ∀ original, before = some original → Restores tx original records now
  settled : ∀ tuple, now = some tuple → tuple.Settled

def Inv (tx : Transaction) (s : State) : Prop :=
  ∀ key, KeyInv tx (s.before key) (recordsOf key s.log) (s.table key)

theorem Transaction.Foreign.settled (foreign : tx.Foreign now) :
    ∀ tuple, now = some tuple → tuple.Settled := by
  rintro tuple rfl
  exact foreign.2

theorem keyInv_of_foreign (foreign : tx.Foreign now) : KeyInv tx none [] now where
  untouched := fun _ => rfl
  restores := by
    intro _ _
    contradiction
  settled := foreign.settled

theorem KeyInv.records_eq_nil
    (inv : KeyInv tx before records now) (foreign : tx.Foreign now) : records = [] := by
  cases before with
  | none => exact inv.untouched rfl
  | some original =>
    cases inv.restores original rfl with
    | done => rfl
    | undo own => exact absurd own foreign.1

theorem KeyInv.write (inv : KeyInv tx before records now) (undoable : Undoable call now)
    (ok : callTuple isVisibleForMe tx call now = .ok tuple e) :
    KeyInv tx (some (before.getD now)) (e :: records) (some tuple) := by
  obtain ⟨_, undone, same⟩ := undoTuple_of_ok inv.settled undoable ok
  have restores : Restores tx (before.getD now) records now := by
    cases before with
    | none =>
      rw [inv.untouched rfl]
      exact .done rfl
    | some original => exact inv.restores original rfl
  refine ⟨by simp, ?_, ?_⟩
  · rintro _ ⟨⟩
    exact .undo (tag_of_ok ok) undone (settled_of_version_eq same.symm inv.settled)
      (restores.congr same.symm)
  · rintro _ ⟨⟩
    exact settled_of_ok inv.settled ok

theorem KeyInv.undo (inv : KeyInv tx before (e :: older) now) :
    ∃ earlier, undoTuple true e now = some earlier ∧ KeyInv tx before older earlier := by
  cases before with
  | none => exact absurd (inv.untouched rfl) (List.cons_ne_nil e older)
  | some original =>
    cases inv.restores original rfl with
    | @undo _ _ _ earlier _ undone settled restores =>
      refine ⟨earlier, undone, by simp, ?_, settled⟩
      rintro _ ⟨⟩
      exact restores

theorem inv_of_initial (initial : Initial tx s) : Inv tx s := by
  obtain ⟨foreign, log, -, before⟩ := initial
  intro key
  rw [log, before]
  exact keyInv_of_foreign (foreign key)

section

variable (inv : Inv tx s)
include inv

theorem Inv.write (undoable : Undoable call (s.table call.key.bytes))
    (ok : callTuple isVisibleForMe tx call (s.table call.key.bytes) = .ok tuple e) :
    Inv tx (s.write call.key.bytes tuple e) := by
  rw [← key_of_ok ok] at undoable ok ⊢
  intro key
  by_cases isKey : key = e.key
  · subst isKey
    simp only [State.write, update_self, recordsOf_cons_self]
    exact (inv e.key).write undoable ok
  · simp only [State.write, update_of_ne isKey, recordsOf_cons_of_ne (symm isKey)]
    exact inv key

theorem Inv.foreign {tuple : Option ChainedTuple}
    (foreign : tx.Foreign (s.table key)) (replaced : tx.Foreign tuple) :
    Inv tx { s with
      table := update s.table key tuple
      before := update s.before key none } := by
  intro other
  by_cases isKey : other = key
  · subst isKey
    simp only [update_self, (inv other).records_eq_nil foreign]
    exact keyInv_of_foreign replaced
  · simp only [update_of_ne isKey]
    exact inv other

theorem Inv.undo (isLog : s.log = e :: older) :
    ∃ table, VersionedIndex.undo true s.table e = some table ∧
      Inv tx { s with table := table, log := older } := by
  have newest := inv e.key
  rw [isLog, recordsOf_cons_self] at newest
  obtain ⟨earlier, undone, restored⟩ := newest.undo
  refine ⟨update s.table e.key earlier, ?_, ?_⟩
  · rw [VersionedIndex.undo, undone]
    rfl
  · intro key
    by_cases isKey : key = e.key
    · subst isKey
      simpa only [update_self] using restored
    · have kept := inv key
      rw [isLog, recordsOf_cons_of_ne (symm isKey)] at kept
      simpa only [update_of_ne isKey] using kept

theorem Inv.step (permitted : CallsUndoable s a) (taken : step tx s a = some s') : Inv tx s' := by
  cases a with
  | call isVisibleForMe call =>
    simp only [step] at taken
    split at taken
    · contradiction
    · split at taken
      · rename_i ok
        cases taken
        exact inv.write permitted ok
      · cases taken
        exact inv
      · cases taken
        exact inv
      · contradiction
  | other =>
    obtain ⟨foreign, ⟨⟩⟩ := Option.ite_none_right_eq_some.mp taken
    exact inv.foreign foreign.1 foreign.2
  | abortTX =>
    cases taken
    exact inv
  | undo =>
    simp only [step] at taken
    split at taken
    · rename_i isLog
      obtain ⟨table, undone, restored⟩ := inv.undo isLog
      obtain ⟨_, reverted, rfl⟩ := Option.map_eq_some_iff.mp taken
      obtain ⟨earlier, isEarlier, rfl⟩ := Option.map_eq_some_iff.mp reverted
      rw [VersionedIndex.undo, undoTuple_of_extended isEarlier] at undone
      cases undone
      exact restored
    · contradiction

theorem Inv.undoAll (aborting : s.aborting = true) :
    ∃ done, run (VersionedIndex.step tx) s (List.replicate s.log.length (.undo true)) =
        some done ∧ done.log = [] ∧ done.before = s.before ∧ Inv tx done := by
  obtain ⟨table, log, _, _⟩ := s
  cases aborting
  induction log generalizing table with
  | nil => exact ⟨_, rfl, rfl, rfl, inv⟩
  | cons e _ ih =>
    obtain ⟨undoneTable, undone, restored⟩ := inv.undo rfl
    simp only [List.length_cons, List.replicate_succ, run, VersionedIndex.step, undone,
      Option.map_some]
    exact ih undoneTable restored

end

def oneTuple (key : Bytes) (tuple : ChainedTuple) : State :=
  ⟨fun other => if other = key then some tuple else none, [], false, fun _ => none⟩

theorem initial_oneTuple (foreign : tx.Foreign (some tuple)) : Initial tx (oneTuple key tuple) := by
  refine ⟨?_, rfl, rfl, rfl⟩
  intro _
  simp only [oneTuple]
  split
  · exact foreign
  · trivial

/-- The log record of a remove has one byte for the worker: a removed version of
worker 256 comes back as one of worker 0. -/
theorem abort_changes_worker :
    ∃ state found restored,
      Reachable (step ⟨1, 9⟩) (Initial ⟨1, 9⟩) (fun _ _ => True) state ∧
      state.aborting = true ∧ state.log = [] ∧
      state.before [1] = some (some found) ∧ found.workerId = 256 ∧
      state.table [1] = some restored ∧ restored.workerId = 0 := by
  obtain ⟨state, ran, log, before, restored⟩ : ∃ state,
      run (step ⟨1, 9⟩) (oneTuple [1] ⟨⟨256, 5, 3, false⟩, 0, 0, false, [7, 8]⟩)
        [.call (fun _ _ => true) (.remove ⟨[1], by decide⟩ 0), .abortTX, .undo true] =
          some state ∧
      (state.aborting = true ∧ state.log = []) ∧
      state.before [1] = some (some ⟨⟨256, 5, 3, false⟩, 0, 0, false, [7, 8]⟩) ∧
      state.table [1] = some ⟨⟨0, 5, 3, false⟩, 0, 0, false, [7, 8]⟩ :=
    ⟨_, rfl, ⟨rfl, rfl⟩, by decide, by decide⟩
  refine ⟨state, _, _, ?_, log.1, log.2, before, rfl, restored, rfl⟩
  exact (Reachable.start (initial_oneTuple (by decide))).run_of_forall (by simp) ran

/--
Whatever a transaction has done among others, and wherever its abort stands: while the leaves
have room for the values that come back, no `ensure` of the undos that are left fails, they
give each key the transaction changed back the version it found there, and no tuple stays
write-locked.
-/
theorem abort_restores_versions (reached : Reachable (step tx) (Initial tx) CallsUndoable state) :
    ∃ done, run (step tx) state
        (.abortTX :: List.replicate state.log.length (.undo true)) = some done ∧
      done.log = [] ∧
      (∀ key original, state.before key = some original →
        (done.table key).map ChainedTuple.version = original.map ChainedTuple.version) ∧
      ∀ key tuple, done.table key = some tuple → tuple.writeLocked = false := by
  have inv : Inv tx state :=
    reached.invariant (Inv tx) (fun _ => inv_of_initial) fun _ _ _ => Inv.step
  have begun : Inv tx { state with aborting := true } := inv
  obtain ⟨done, ran, log, before, restored⟩ := begun.undoAll rfl
  refine ⟨done, ran, log, ?_, ?_⟩
  · intro key original touched
    have restores := (restored key).restores original (before ▸ touched)
    rw [log] at restores
    cases restores with
    | done same => exact same
  · intro key tuple isTuple
    exact ((restored key).settled tuple isTuple).unlocked

def incrementSecond : InPlace where
  apply := fun value => value.modify 1 (· + 1)
  length_apply := fun _ => List.length_modify ..

/-- Worker 200 updates a version of worker 300 and removes what it wrote. -/
def updateThenRemove : List Action :=
  [.call (fun _ _ => true) (.update ⟨[1], by decide⟩ [⟨1, 1⟩] incrementSecond 0),
    .call (fun _ _ => true) (.remove ⟨[1], by decide⟩ 1),
    .abortTX]

theorem abort_restores_versions_updateThenRemove :
    ∃ state done,
      Reachable (step ⟨200, 9⟩) (Initial ⟨200, 9⟩) CallsUndoable state ∧
      run (step ⟨200, 9⟩) state [.abortTX, .undo true, .undo true] = some done ∧
      (done.table [1]).map ChainedTuple.version =
        some ⟨⟨300, 5, 3, false⟩, 0, 0, false, [7, 8]⟩ := by
  have initial : Initial ⟨200, 9⟩ (oneTuple [1] ⟨⟨300, 5, 3, false⟩, 0, 0, false, [7, 8]⟩) :=
    initial_oneTuple (by decide)
  obtain ⟨state, ran, log, before⟩ : ∃ state,
      run (step ⟨200, 9⟩) (oneTuple [1] ⟨⟨300, 5, 3, false⟩, 0, 0, false, [7, 8]⟩)
        updateThenRemove = some state ∧ state.log.length = 2 ∧
      state.before [1] = some (some ⟨⟨300, 5, 3, false⟩, 0, 0, false, [7, 8]⟩) :=
    ⟨_, rfl, rfl, by decide⟩
  have permitted : AllowedAlong (step ⟨200, 9⟩) CallsUndoable
      (oneTuple [1] ⟨⟨300, 5, 3, false⟩, 0, 0, false, [7, 8]⟩) updateThenRemove :=
    ⟨⟨by decide, by decide, by decide⟩,
      ⟨(by decide : (200 : UInt16).toNat < 2 ^ 8), trivial, trivial⟩⟩
  have reached := (Reachable.start initial).run_of_allowed permitted ran
  obtain ⟨done, undone, -, restored, -⟩ := abort_restores_versions reached
  rw [log] at undone
  exact ⟨state, done, reached, undone, restored _ _ before⟩

end TieredStore.VersionedIndex
