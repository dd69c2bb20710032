import TieredStore.Lib.Transition
import TieredStore.ConcurrencyControl.StartTx
import TieredStore.ConcurrencyControl.Refresh
import TieredStore.ConcurrencyControl.Access

namespace TieredStore.ConcurrencyControl

open Transition

inductive Action
  | start (worker : Nat) (action : StartAction)
  | refresh (worker : Nat) (action : RefreshAction)
  | access (worker : Nat) (action : AccessAction)
  deriving DecidableEq, Repr

def Action.actor : Action → Nat
  | .start worker _ => worker
  | .refresh worker _ => worker
  | .access worker _ => worker

def step (config : Config) (state : State) (action : Action) : Option State :=
  if action.actor < config.workersCount then
    match action with
    | .start worker action => startStep config state worker action
    | .refresh worker action => refreshStep config state worker action
    | .access worker action => accessStep config state worker action
  else
    none

inductive Step (cfg : Config) (s : State) : Action → State → Prop
  | start {w a s'} (stepped : StartStep cfg s w a s') :
    Step cfg s (.start w a) s'
  | refresh {w a s'} (stepped : RefreshStep cfg s w a s') :
    Step cfg s (.refresh w a) s'
  | access {w a s'} (stepped : AccessStep cfg s w a s') :
    Step cfg s (.access w a) s'

theorem step_cases {cfg : Config} {s s' : State} {a : Action} (taken : step cfg s a = some s') :
    a.actor < cfg.workersCount ∧ Step cfg s a s' := by
  obtain ⟨inside, taken⟩ := Option.ite_none_right_eq_some.mp taken
  refine ⟨inside, ?_⟩
  cases a with
  | start w a => exact .start (startStep_cases taken)
  | refresh => exact .refresh (refreshStep_cases taken)
  | access => exact .access (accessStep_cases taken)

def workersIncrement : Nat := 2 ^ 8

structure Initial (cfg : Config) (s : State) : Prop where
  globalClock : s.globalClock = workersIncrement
  currentSnapshot : ∀ w, s.currentSnapshot w = ⟨0, false, false, false⟩
  globalMutex : s.globalMutex = none
  oldestAllStartTs : s.oldestAllStartTs = 0
  oldestOltpStartTs : s.oldestOltpStartTs = 0
  newestOlapStartTs : s.newestOlapStartTs = 0
  allLwm : s.allLwm = 0
  oltpLwm : s.oltpLwm = 0
  pc : ∀ w, (s.workers w).pc = .idle
  startTs : ∀ w, (s.workers w).tx.startTs = 0
  level : ∀ w, (s.workers w).tx.level = .snapshotIsolation
  id : ∀ w, (s.workers w).tx.id = 0
  wal : ∀ w, (s.workers w).tx.wal = []
  commitTree : ∀ w, (s.workers w).commitTree = ⟨cfg.workersCount + 1, []⟩
  history : ∀ w, (s.workers w).history = []
  snapshotCache : ∀ w other, (s.workers w).snapshotCache other = 0
  snapshotCacheTs : ∀ w other, (s.workers w).snapshotCacheTs other = 0
  globalAllLwmCache : ∀ w, (s.workers w).globalAllLwmCache = 0
  latestWriteTx : ∀ w, (s.workers w).latestWriteTx = 0
  latestLwmForTx : ∀ w, (s.workers w).latestLwmForTx = 0
  tuples : ∀ key, s.tuples key = []
  nextTransaction : s.nextTransaction = 1
  outcome : ∀ transaction, s.outcome transaction = none

def State.fresh (config : Config) : State where
  globalClock := workersIncrement
  currentSnapshot _ := ⟨0, false, false, false⟩
  globalMutex := none
  oldestAllStartTs := 0
  oldestOltpStartTs := 0
  newestOlapStartTs := 0
  allLwm := 0
  oltpLwm := 0
  workers _ :=
    { pc := .idle
      tx := ⟨0, 0, .snapshotIsolation, false, false, false, 0, []⟩
      commitTree := ⟨config.workersCount + 1, []⟩
      history := []
      snapshotCache := fun _ => 0
      snapshotCacheTs := fun _ => 0
      globalAllLwmCache := 0
      latestWriteTx := 0
      latestLwmForTx := 0
      allLwmReceiver := 0
      oltpLwmReceiver := 0 }
  tuples _ := []
  nextTransaction := 1
  outcome _ := none

theorem initial_fresh (cfg : Config) : Initial cfg (State.fresh cfg) := by
  constructor <;> intros <;> rfl

def startSI (worker : Nat) : List Action :=
  [.start worker (.startTX .snapshotIsolation false false), .start worker .latchSnapshot,
    .start worker .drawStartTs, .start worker .publishSnapshot,
    .start worker .cleanIfNecessary, .start worker .loadLwm]

def startRC (worker : Nat) : List Action :=
  [.start worker (.startTX .readCommitted false false),
    .start worker .switchToReadCommittedMode, .refresh worker .skip,
    .start worker .cleanIfNecessary]

abbrev Reaches (config : Config) (allowed : State → Action → Prop) : State → Prop :=
  Reachable (step config) (Initial config) allowed

end TieredStore.ConcurrencyControl
