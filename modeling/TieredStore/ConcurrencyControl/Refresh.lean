import TieredStore.ConcurrencyControl.State

/-!
`refreshGlobalState`, run by one worker at a time under the global mutex: the
oldest snapshots of all workers, and from them the low watermarks.
-/

namespace TieredStore.ConcurrencyControl

inductive RefreshAction
  | skip
  | tryLock
  | scanWord
  | publishOldest
  | compareLatest
  | queryTree
  | sendLwm
  | storeLwm
  deriving DecidableEq, Repr

def maxTxid : Nat := 2 ^ 64 - 1

def AfterRefresh.pc : AfterRefresh → WorkerPc
  | .takeSnapshot => .snapshotting
  | .clean => .beforeClean
  | .finish => .idle

def RefreshStage.see (word : SnapshotWord) (next newestOlap oldestOltp oldestTx : Nat) :
    RefreshStage :=
  if word.rcBit then
    .scanning (next + 1) newestOlap oldestOltp oldestTx
  else if word.olapBit then
    .scanning (next + 1) (max word.ts newestOlap) oldestOltp (min word.ts oldestTx)
  else
    .scanning (next + 1) newestOlap (min word.ts oldestOltp) (min word.ts oldestTx)

def RefreshStage.contribute (config : Config) (state : State)
    (next allLwm oltpLwm : Nat) (skippedAWorker : Bool) : RefreshStage :=
  let tree := (state.workers next).commitTree
  let itsAllLwm := tree.lcb state.oldestAllStartTs
  if config.olapMode ∧ state.oldestAllStartTs ≠ state.oldestOltpStartTs then
    let itsOltpLwm := tree.lcb state.oldestOltpStartTs
    .sending next itsAllLwm itsOltpLwm (min itsAllLwm allLwm) (min itsOltpLwm oltpLwm)
      skippedAWorker
  else
    .sending next itsAllLwm itsAllLwm (min itsAllLwm allLwm) oltpLwm skippedAWorker

def refreshStep (config : Config) (state : State) (worker : Nat) :
    RefreshAction → Option State
  | .skip =>
    match (state.workers worker).pc with
    | .beforeRefresh after => some (state.setPc worker after.pc)
    | _ => none
  | .tryLock =>
    match (state.workers worker).pc with
    | .beforeRefresh after =>
      if state.globalMutex = none then
        some { state.setPc worker (.refreshing after (.scanning 0 0 maxTxid maxTxid)) with
          globalMutex := some worker }
      else
        none
    | _ => none
  | .scanWord =>
    match (state.workers worker).pc with
    | .refreshing after (.scanning next newestOlap oldestOltp oldestTx) =>
      let word := state.currentSnapshot next
      if next < config.workersCount then
        if word.latchBit = true ∧ word.ts < (state.workers worker).tx.startTs then
          none
        else
          some (state.setPc worker
            (.refreshing after (.see word next newestOlap oldestOltp oldestTx)))
      else
        none
    | _ => none
  | .publishOldest =>
    match (state.workers worker).pc with
    | .refreshing after (.scanning next newestOlap oldestOltp oldestTx) =>
      if next = config.workersCount then
        some { state.setPc worker
            (.refreshing after (.comparing 0 maxTxid maxTxid false)) with
          oldestAllStartTs := oldestTx
          oldestOltpStartTs := oldestOltp
          newestOlapStartTs := newestOlap }
      else
        none
    | _ => none
  | .compareLatest =>
    match (state.workers worker).pc with
    | .refreshing after (.comparing next allLwm oltpLwm skippedAWorker) =>
      let its := state.workers next
      if next < config.workersCount then
        if its.latestLwmForTx = its.latestWriteTx then
          some (state.setPc worker (.refreshing after (.comparing (next + 1) allLwm oltpLwm true)))
        else
          some ((state.setWorker next
              { its with latestLwmForTx := its.latestWriteTx }).setPc worker
            (.refreshing after (.computing next allLwm oltpLwm skippedAWorker)))
      else
        none
    | _ => none
  | .queryTree =>
    match (state.workers worker).pc with
    | .refreshing after (.computing next allLwm oltpLwm skippedAWorker) =>
      some (state.setPc worker (.refreshing after
        (.contribute config state next allLwm oltpLwm skippedAWorker)))
    | _ => none
  | .sendLwm =>
    match (state.workers worker).pc with
    | .refreshing after
      (.sending next itsAllLwm itsOltpLwm allLwm oltpLwm skippedAWorker) =>
      some ((state.setWorker next
          { state.workers next with
            allLwmReceiver := itsAllLwm
            oltpLwmReceiver := itsOltpLwm }).setPc worker
        (.refreshing after (.comparing (next + 1) allLwm oltpLwm skippedAWorker)))
    | _ => none
  | .storeLwm =>
    match (state.workers worker).pc with
    | .refreshing after (.comparing next allLwm oltpLwm skippedAWorker) =>
      if next = config.workersCount then
        some { state.setPc worker after.pc with
          globalMutex := none
          allLwm := if skippedAWorker then state.allLwm else allLwm
          oltpLwm := if skippedAWorker then state.oltpLwm else oltpLwm }
      else
        none
    | _ => none

inductive RefreshStep (cfg : Config) (s : State) (w : Nat) :
    RefreshAction → State → Prop
  | skip {after} (pc : (s.workers w).pc = .beforeRefresh after) :
    RefreshStep cfg s w .skip (s.setPc w after.pc)
  | tryLock {after} (pc : (s.workers w).pc = .beforeRefresh after) (free : s.globalMutex = none) :
    RefreshStep cfg s w .tryLock
      { s.setPc w (.refreshing after (.scanning 0 0 maxTxid maxTxid)) with
        globalMutex := some w }
  | scanWord {after next newestOlap oldestOltp oldestTx} (pc : (s.workers w).pc =
      .refreshing after (.scanning next newestOlap oldestOltp oldestTx))
    (inside : next < cfg.workersCount) (settled : ¬ ((s.currentSnapshot next).latchBit = true ∧
      (s.currentSnapshot next).ts < (s.workers w).tx.startTs)) :
    RefreshStep cfg s w .scanWord
      (s.setPc w (.refreshing after
        (.see (s.currentSnapshot next) next newestOlap oldestOltp oldestTx)))
  | publishOldest {after next newestOlap oldestOltp oldestTx} (pc : (s.workers w).pc =
      .refreshing after (.scanning next newestOlap oldestOltp oldestTx))
    (all : next = cfg.workersCount) :
    RefreshStep cfg s w .publishOldest
      { s.setPc w (.refreshing after (.comparing 0 maxTxid maxTxid false)) with
        oldestAllStartTs := oldestTx
        oldestOltpStartTs := oldestOltp
        newestOlapStartTs := newestOlap }
  | skipWorker {after next allLwm oltpLwm skippedAWorker} (pc : (s.workers w).pc =
      .refreshing after (.comparing next allLwm oltpLwm skippedAWorker))
    (inside : next < cfg.workersCount)
    (same : (s.workers next).latestLwmForTx = (s.workers next).latestWriteTx) :
    RefreshStep cfg s w .compareLatest
      (s.setPc w (.refreshing after (.comparing (next + 1) allLwm oltpLwm true)))
  | compareLatest {after next allLwm oltpLwm skippedAWorker} (pc : (s.workers w).pc =
      .refreshing after (.comparing next allLwm oltpLwm skippedAWorker))
    (inside : next < cfg.workersCount)
    (newer : (s.workers next).latestLwmForTx ≠ (s.workers next).latestWriteTx) :
    RefreshStep cfg s w .compareLatest
      ((s.setWorker next
          { s.workers next with
            latestLwmForTx := (s.workers next).latestWriteTx }).setPc w
        (.refreshing after (.computing next allLwm oltpLwm skippedAWorker)))
  | queryTree {after next allLwm oltpLwm skippedAWorker} (pc : (s.workers w).pc =
      .refreshing after (.computing next allLwm oltpLwm skippedAWorker)) :
    RefreshStep cfg s w .queryTree
      (s.setPc w (.refreshing after
        (.contribute cfg s next allLwm oltpLwm skippedAWorker)))
  | sendLwm {after next itsAllLwm itsOltpLwm allLwm oltpLwm skippedAWorker}
    (pc : (s.workers w).pc = .refreshing after
      (.sending next itsAllLwm itsOltpLwm allLwm oltpLwm skippedAWorker)) :
    RefreshStep cfg s w .sendLwm
      ((s.setWorker next
          { s.workers next with
            allLwmReceiver := itsAllLwm
            oltpLwmReceiver := itsOltpLwm }).setPc w
        (.refreshing after (.comparing (next + 1) allLwm oltpLwm skippedAWorker)))
  | storeLwm {after next allLwm oltpLwm skippedAWorker} (pc : (s.workers w).pc =
      .refreshing after (.comparing next allLwm oltpLwm skippedAWorker))
    (all : next = cfg.workersCount) :
    RefreshStep cfg s w .storeLwm
      { s.setPc w after.pc with
        globalMutex := none
        allLwm := if skippedAWorker then s.allLwm else allLwm
        oltpLwm := if skippedAWorker then s.oltpLwm else oltpLwm }

theorem refreshStep_cases {cfg : Config} {s s' : State} {w : Nat}
    {a : RefreshAction} (taken : refreshStep cfg s w a = some s') : RefreshStep cfg s w a s' := by
  cases a with
  | storeLwm =>
    simp only [refreshStep] at taken
    split at taken
    · rename_i pc
      split at taken
      · cases taken
        exact .storeLwm pc ‹_›
      · contradiction
    · contradiction
  | _ =>
    simp only [refreshStep] at taken
    repeat' split at taken
    all_goals
      simp only [Option.some.injEq, reduceCtorEq] at taken <;> subst taken <;>
        constructor <;> assumption

end TieredStore.ConcurrencyControl
