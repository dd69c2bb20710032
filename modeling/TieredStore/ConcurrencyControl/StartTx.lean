import TieredStore.ConcurrencyControl.State

/-!
`startTX`: the switches between the isolation levels, the publication of a
snapshot, and the compaction of the worker's commit tree.
-/

namespace TieredStore.ConcurrencyControl

inductive StartAction
  | startTX (level : TxIsolationLevel) (isOlap isReadOnly : Bool)
  | switchToSnapshotIsolationMode
  | switchToReadCommittedMode
  | latchSnapshot
  | drawStartTs
  | publishSnapshot
  | cleanIfNecessary
  | scanSnapshot
  | rewriteTree
  | loadLwm
  deriving DecidableEq, Repr

def afterStart (previous next : TxIsolationLevel) : WorkerPc :=
  if next.atLeastSI then
    if previous.atLeastSI then .snapshotting else .switchingToSI
  else
    if previous.atLeastSI then .switchingToRC else .beforeClean

def afterClean (level : TxIsolationLevel) : WorkerPc :=
  if level.atLeastSI then .loadingLwm else .running

def startStep (config : Config) (state : State) (worker : Nat) :
    StartAction → Option State
  | .startTX level isOlap isReadOnly =>
    let my := state.workers worker
    match my.pc with
    | .idle =>
      some { state.setWorker worker
        { my with
          pc := afterStart my.tx.level level
          tx := { my.tx with
            level := level
            isOlap := isOlap
            isReadOnly := isReadOnly
            hasWrote := false
            id := state.nextTransaction
            wal := [] } } with
        nextTransaction := state.nextTransaction + 1 }
    | _ => none
  | .switchToSnapshotIsolationMode =>
    match (state.workers worker).pc with
    | .switchingToSI =>
      if state.globalMutex = none then
        some ((state.setSnapshot worker ⟨state.globalClock, false, false, false⟩).setPc
          worker (.beforeRefresh .takeSnapshot))
      else
        none
    | _ => none
  | .switchToReadCommittedMode =>
    match (state.workers worker).pc with
    | .switchingToRC =>
      if state.globalMutex = none then
        some ((state.setSnapshot worker
            { state.currentSnapshot worker with rcBit := true }).setPc
          worker (.beforeRefresh .clean))
      else
        none
    | _ => none
  | .latchSnapshot =>
    match (state.workers worker).pc with
    | .snapshotting =>
      some ((state.setSnapshot worker
          ⟨(state.workers worker).tx.startTs, true, false, false⟩).setPc
        worker .latched)
    | _ => none
  | .drawStartTs =>
    let my := state.workers worker
    match my.pc with
    | .latched =>
      some { state.setWorker worker
        { my with pc := .drawn, tx := { my.tx with startTs := state.globalClock } } with
        globalClock := state.globalClock + 1 }
    | _ => none
  | .publishSnapshot =>
    let my := state.workers worker
    match my.pc with
    | .drawn =>
      some ((state.setSnapshot worker
          ⟨my.tx.startTs, false, false, config.olapMode && my.tx.isOlap⟩).setPc
        worker .beforeClean)
    | _ => none
  | .cleanIfNecessary =>
    let my := state.workers worker
    match my.pc with
    | .beforeClean =>
      some (state.setPc worker
        (if my.commitTree.mustClean then .cleaning 0 [] else afterClean my.tx.level))
    | _ => none
  | .scanSnapshot =>
    let my := state.workers worker
    match my.pc with
    | .cleaning next set =>
      if next < config.workersCount then
        if next = worker then
          some (state.setPc worker (.cleaning (next + 1) set))
        else if (state.currentSnapshot next).latchBit then
          none
        else
          some (state.setPc worker (.cleaning (next + 1)
            (my.commitTree.keepFor (state.currentSnapshot next).ts set)))
      else
        none
    | _ => none
  | .rewriteTree =>
    let my := state.workers worker
    match my.pc with
    | .cleaning next set =>
      if next = config.workersCount then
        some (state.setWorker worker
          { my with
            pc := afterClean my.tx.level
            commitTree := { my.commitTree with array := set } })
      else
        none
    | _ => none
  | .loadLwm =>
    let my := state.workers worker
    match my.pc with
    | .loadingLwm =>
      some (state.setWorker worker { my with pc := .running, globalAllLwmCache := state.allLwm })
    | _ => none

inductive StartStep (cfg : Config) (s : State) (w : Nat) :
    StartAction → State → Prop
  | startTX {level isOlap isReadOnly} (pc : (s.workers w).pc = .idle) :
    StartStep cfg s w (.startTX level isOlap isReadOnly)
      { s.setWorker w
          { s.workers w with
            pc := afterStart (s.workers w).tx.level level
            tx := { (s.workers w).tx with
              level := level
              isOlap := isOlap
              isReadOnly := isReadOnly
              hasWrote := false
              id := s.nextTransaction
              wal := [] } } with
        nextTransaction := s.nextTransaction + 1 }
  | switchToSI (pc : (s.workers w).pc = .switchingToSI) (free : s.globalMutex = none) :
    StartStep cfg s w .switchToSnapshotIsolationMode
      ((s.setSnapshot w ⟨s.globalClock, false, false, false⟩).setPc
        w (.beforeRefresh .takeSnapshot))
  | switchToRC (pc : (s.workers w).pc = .switchingToRC) (free : s.globalMutex = none) :
    StartStep cfg s w .switchToReadCommittedMode
      ((s.setSnapshot w
          { s.currentSnapshot w with rcBit := true }).setPc
        w (.beforeRefresh .clean))
  | latchSnapshot (pc : (s.workers w).pc = .snapshotting) :
    StartStep cfg s w .latchSnapshot
      ((s.setSnapshot w
          ⟨(s.workers w).tx.startTs, true, false, false⟩).setPc
        w .latched)
  | drawStartTs (pc : (s.workers w).pc = .latched) :
    StartStep cfg s w .drawStartTs
      { s.setWorker w
          { s.workers w with
            pc := .drawn
            tx := { (s.workers w).tx with startTs := s.globalClock } } with
        globalClock := s.globalClock + 1 }
  | publishSnapshot (pc : (s.workers w).pc = .drawn) :
    StartStep cfg s w .publishSnapshot
      ((s.setSnapshot w
          ⟨(s.workers w).tx.startTs, false, false,
            cfg.olapMode && (s.workers w).tx.isOlap⟩).setPc
        w .beforeClean)
  | cleanIfNecessary (pc : (s.workers w).pc = .beforeClean)
    (full : (s.workers w).commitTree.mustClean = true) :
    StartStep cfg s w .cleanIfNecessary
      (s.setPc w (.cleaning 0 []))
  | nothingToClean (pc : (s.workers w).pc = .beforeClean)
    (space : (s.workers w).commitTree.mustClean = false) :
    StartStep cfg s w .cleanIfNecessary
      (s.setPc w (afterClean (s.workers w).tx.level))
  | skipSelf {next set}
    (pc : (s.workers w).pc = .cleaning next set) (inside : next < cfg.workersCount)
    (self : next = w) :
    StartStep cfg s w .scanSnapshot
      (s.setPc w (.cleaning (next + 1) set))
  | scanSnapshot {next set}
    (pc : (s.workers w).pc = .cleaning next set) (inside : next < cfg.workersCount)
    (other : next ≠ w) (unlatched : (s.currentSnapshot next).latchBit = false) :
    StartStep cfg s w .scanSnapshot
      (s.setPc w (.cleaning (next + 1)
        ((s.workers w).commitTree.keepFor (s.currentSnapshot next).ts set)))
  | rewriteTree {next set}
    (pc : (s.workers w).pc = .cleaning next set) (all : next = cfg.workersCount) :
    StartStep cfg s w .rewriteTree
      (s.setWorker w
        { s.workers w with
          pc := afterClean (s.workers w).tx.level
          commitTree := { (s.workers w).commitTree with array := set } })
  | loadLwm (pc : (s.workers w).pc = .loadingLwm) :
    StartStep cfg s w .loadLwm
      (s.setWorker w
        { s.workers w with
          pc := .running, globalAllLwmCache := s.allLwm })

theorem startStep_cases {cfg : Config} {s s' : State} {w : Nat}
    {a : StartAction} (taken : startStep cfg s w a = some s') : StartStep cfg s w a s' := by
  cases a with
  | cleanIfNecessary =>
    simp only [startStep] at taken
    split at taken
    · rename_i pc
      cases taken
      cases full : (s.workers w).commitTree.mustClean with
      | true => exact .cleanIfNecessary pc full
      | false => exact .nothingToClean pc full
    · contradiction
  | scanSnapshot =>
    simp only [startStep] at taken
    split at taken
    · rename_i next set pc
      obtain ⟨inside, taken⟩ := Option.ite_none_right_eq_some.mp taken
      split at taken
      · rename_i self
        cases taken
        exact .skipSelf pc inside self
      · rename_i other
        split at taken
        · contradiction
        · rename_i unlatched
          cases taken
          exact .scanSnapshot pc inside other (by simpa using unlatched)
    · contradiction
  | _ =>
    simp only [startStep] at taken
    repeat' split at taken
    all_goals
      simp only [Option.some.injEq, reduceCtorEq] at taken <;> subst taken <;>
        constructor <;> assumption

end TieredStore.ConcurrencyControl
