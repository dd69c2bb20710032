import TieredStore.ConcurrencyControl.State

/-!
What a running transaction does: it tests versions for visibility, changes and
looks up tuples, and ends by `commitTX` or `abortTX`.
-/

namespace TieredStore.ConcurrencyControl

inductive Change
  | insert (value : Bytes)
  | update (value : Bytes)
  | remove
  deriving DecidableEq, Repr

inductive AccessAction
  | isVisibleForMe (other : Nat) (txTs : TxTs) (toWrite : Bool) (currentTs : Nat)
  | change (key : Bytes) (change : Change) (currentTs : Nat)
  | lookup (key : Bytes)
  | check (currentTs : Nat)
  | commitTX
  | storeLatestWrite
  | abortTX
  | undoNext
  | abortDone
  deriving DecidableEq, Repr

/-- The version that the change puts in front of the chain, if the operation
finds the tuple it needs.  Its writer and tag are those of the transaction. -/
def Change.version? (change : Change) (worker : Nat) (tx : Transaction) :
    List Version → Option Version
  | [] =>
    match change with
    | .insert value => some ⟨worker, tx.startTs, value, false, tx.id⟩
    | _ => none
  | head :: _ =>
    match change with
    | .insert _ => none
    | .update value => some ⟨worker, tx.startTs, value, head.isRemoved, tx.id⟩
    | .remove =>
      if head.isRemoved then none
      else some ⟨worker, tx.startTs, head.value, true, tx.id⟩

def mayChange (state : State) (worker : Nat) (chain : List Version) (currentTs : Nat) :
    Option Bool × State :=
  match chain with
  | [] => (some true, state)
  | head :: _ => isVisibleForMe state worker head.workerId ⟨false, head.txTs⟩ true currentTs

def State.markAsWrite (state : State) (worker : Nat) : State :=
  state.setWorker worker
    { state.workers worker with
      tx := { (state.workers worker).tx with hasWrote := true } }

def State.pushVersion (state : State) (worker : Nat) (key : Bytes) (version : Version) :
    State :=
  { state.setWorker worker
      { state.workers worker with
        tx := { (state.workers worker).tx with
          wal := key :: (state.workers worker).tx.wal } } with
    tuples := Function.update state.tuples key (version :: state.tuples key) }

def WorkerPc.readKey? : WorkerPc → Option Bytes
  | .reading key _ => some key
  | _ => none

def State.notRead (config : Config) (state : State) (key : Bytes) : Bool :=
  (List.range config.workersCount).all fun reader =>
    decide ((state.workers reader).pc.readKey? ≠ some key)

def accessStep (config : Config) (state : State) (worker : Nat) :
    AccessAction → Option State
  | .isVisibleForMe other txTs toWrite currentTs =>
    match (state.workers worker).pc with
    | .running =>
      if currentTs ≤ state.globalClock + 1 then
        let test := isVisibleForMe state worker other txTs toWrite currentTs
        test.1.map fun _ => test.2
      else
        none
    | _ => none
  | .change key change currentTs =>
    let my := state.workers worker
    match my.pc with
    | .running =>
      if my.tx.isReadOnly = false ∧ currentTs ≤ state.globalClock + 1 ∧
          state.notRead config key then
        let test :=
          mayChange (state.markAsWrite worker) worker (state.tuples key) currentTs
        match test.1, change.version? worker my.tx (state.tuples key) with
        | none, _ => none
        | some true, some version => some (test.2.pushVersion worker key version)
        | some _, _ => some test.2
      else
        none
    | _ => none
  | .lookup key =>
    match (state.workers worker).pc with
    | .running => some (state.setPc worker (.reading key (state.tuples key)))
    | _ => none
  | .check currentTs =>
    match (state.workers worker).pc with
    | .reading key versions =>
      if currentTs ≤ state.globalClock + 1 then
        match versions with
        | [] => some (state.setPc worker .running)
        | version :: older =>
          let test := isVisibleForMe state worker version.workerId
            ⟨false, version.txTs⟩ false currentTs
          test.1.map fun isVisible =>
            test.2.setPc worker (if isVisible then .running else .reading key older)
      else
        none
    | _ => none
  | .commitTX =>
    let my := state.workers worker
    match my.pc with
    | .running =>
      if my.tx.hasWrote then
        some { state.setWorker worker
            { my with
              pc := .committed state.globalClock
              tx := { my.tx with commitTs := state.globalClock }
              commitTree := my.commitTree.commit state.globalClock my.tx.startTs
              history := my.history ++ [(state.globalClock, my.tx.startTs)] } with
          globalClock := state.globalClock + 1
          outcome := Function.update state.outcome my.tx.id (some .committed) }
      else
        some { state.setPc worker
            (if my.tx.level.atLeastSI then .beforeRefresh .finish else .idle) with
          outcome := Function.update state.outcome my.tx.id (some .committed) }
    | _ => none
  | .storeLatestWrite =>
    let my := state.workers worker
    match my.pc with
    | .committed commitTs =>
      some (state.setWorker worker
        { my with
          pc := if my.tx.level.atLeastSI then .beforeRefresh .finish else .idle
          latestWriteTx := commitTs })
    | _ => none
  | .abortTX =>
    match (state.workers worker).pc with
    | .running => some (state.setPc worker .aborting)
    | _ => none
  | .undoNext =>
    let my := state.workers worker
    match my.pc with
    | .aborting =>
      match my.tx.wal with
      | [] => none
      | key :: rest =>
        if state.notRead config key then
          some { state.setWorker worker { my with tx := { my.tx with wal := rest } } with
            tuples := Function.update state.tuples key (state.tuples key).tail }
        else
          none
    | _ => none
  | .abortDone =>
    let my := state.workers worker
    match my.pc with
    | .aborting =>
      if my.tx.wal = [] then
        some { state.setPc worker .idle with
          outcome := Function.update state.outcome my.tx.id (some .aborted) }
      else
        none
    | _ => none

inductive AccessStep (cfg : Config) (s : State) (w : Nat) :
    AccessAction → State → Prop
  | isVisibleForMe {other txTs toWrite currentTs}
    (pc : (s.workers w).pc = .running) (loaded : currentTs ≤ s.globalClock + 1) :
    AccessStep cfg s w (.isVisibleForMe other txTs toWrite currentTs)
      (isVisibleForMe s w other txTs toWrite currentTs).2
  | change {key change currentTs v} (pc : (s.workers w).pc = .running)
    (writes : (s.workers w).tx.isReadOnly = false)
    (loaded : currentTs ≤ s.globalClock + 1) (latched : s.notRead cfg key = true)
    (visible : (mayChange (s.markAsWrite w) w (s.tuples key) currentTs).1 = some true)
    (made : change.version? w (s.workers w).tx (s.tuples key) = some v) :
    AccessStep cfg s w (.change key change currentTs)
      ((mayChange (s.markAsWrite w) w (s.tuples key)
        currentTs).2.pushVersion w key v)
  | changeFails {key change currentTs}
    (pc : (s.workers w).pc = .running) (loaded : currentTs ≤ s.globalClock + 1) :
    AccessStep cfg s w (.change key change currentTs)
      (mayChange (s.markAsWrite w) w (s.tuples key) currentTs).2
  | lookup {key} (pc : (s.workers w).pc = .running) :
    AccessStep cfg s w (.lookup key)
      (s.setPc w (.reading key (s.tuples key)))
  | notFound {key currentTs} (pc : (s.workers w).pc = .reading key []) :
    AccessStep cfg s w (.check currentTs) (s.setPc w .running)
  | check {key v older currentTs isVisible}
    (pc : (s.workers w).pc = .reading key (v :: older)) (loaded : currentTs ≤ s.globalClock + 1)
    (tested : (isVisibleForMe s w v.workerId ⟨false, v.txTs⟩ false currentTs).1 =
      some isVisible) :
    AccessStep cfg s w (.check currentTs)
      ((isVisibleForMe s w v.workerId ⟨false, v.txTs⟩ false currentTs).2.setPc w
        (if isVisible then .running else .reading key older))
  | commitTX (pc : (s.workers w).pc = .running) (wrote : (s.workers w).tx.hasWrote = true) :
    AccessStep cfg s w .commitTX
      { s.setWorker w
          { s.workers w with
            pc := .committed s.globalClock
            tx := { (s.workers w).tx with commitTs := s.globalClock }
            commitTree := (s.workers w).commitTree.commit s.globalClock
              (s.workers w).tx.startTs
            history := (s.workers w).history ++
              [(s.globalClock, (s.workers w).tx.startTs)] } with
        globalClock := s.globalClock + 1
        outcome := Function.update s.outcome (s.workers w).tx.id
          (some .committed) }
  | commitReadOnly (pc : (s.workers w).pc = .running)
    (wroteNot : (s.workers w).tx.hasWrote = false) :
    AccessStep cfg s w .commitTX
      { s.setPc w
          (if (s.workers w).tx.level.atLeastSI then .beforeRefresh .finish else .idle) with
        outcome := Function.update s.outcome (s.workers w).tx.id
          (some .committed) }
  | storeLatestWrite {commitTs} (pc : (s.workers w).pc = .committed commitTs) :
    AccessStep cfg s w .storeLatestWrite
      (s.setWorker w
        { s.workers w with
          pc := if (s.workers w).tx.level.atLeastSI then .beforeRefresh .finish
            else .idle
          latestWriteTx := commitTs })
  | abortTX (pc : (s.workers w).pc = .running) :
    AccessStep cfg s w .abortTX (s.setPc w .aborting)
  | undoNext {key rest} (pc : (s.workers w).pc = .aborting)
    (next : (s.workers w).tx.wal = key :: rest) (latched : s.notRead cfg key = true) :
    AccessStep cfg s w .undoNext
      { s.setWorker w
          { s.workers w with
            tx := { (s.workers w).tx with wal := rest } } with
        tuples := Function.update s.tuples key (s.tuples key).tail }
  | abortDone (pc : (s.workers w).pc = .aborting) (undone : (s.workers w).tx.wal = []) :
    AccessStep cfg s w .abortDone
      { s.setPc w .idle with
        outcome := Function.update s.outcome (s.workers w).tx.id
          (some .aborted) }

theorem accessStep_cases {cfg : Config} {s s' : State} {w : Nat}
    {a : AccessAction} (taken : accessStep cfg s w a = some s') : AccessStep cfg s w a s' := by
  cases a with
  | check currentTs =>
    simp only [accessStep] at taken
    split at taken
    · rename_i key versions pc
      obtain ⟨loaded, taken⟩ := Option.ite_none_right_eq_some.mp taken
      cases versions with
      | nil =>
        cases taken
        exact .notFound pc
      | cons =>
        obtain ⟨_, tested, rfl⟩ := Option.map_eq_some_iff.mp taken
        exact .check pc loaded tested
    · contradiction
  | isVisibleForMe =>
    simp only [accessStep] at taken
    split at taken
    · obtain ⟨loaded, taken⟩ := Option.ite_none_right_eq_some.mp taken
      obtain ⟨_, _, rfl⟩ := Option.map_eq_some_iff.mp taken
      exact .isVisibleForMe ‹_› loaded
    · contradiction
  | commitTX =>
    simp only [accessStep] at taken
    split at taken
    · rename_i pc
      split at taken
      · cases taken
        exact .commitTX pc ‹_›
      · rename_i wroteNot
        cases taken
        exact .commitReadOnly pc (by simpa using wroteNot)
    · contradiction
  | storeLatestWrite =>
    simp only [accessStep] at taken
    split at taken
    · cases taken
      exact .storeLatestWrite ‹_›
    · contradiction
  | _ =>
    simp only [accessStep] at taken
    repeat' split at taken
    all_goals
      simp only [Option.some.injEq, reduceCtorEq] at taken <;> subst taken <;>
        constructor <;> first | assumption | simp_all

end TieredStore.ConcurrencyControl
