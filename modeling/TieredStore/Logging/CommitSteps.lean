import TieredStore.Logging.GroupCommit

namespace TieredStore.Logging

open ConcurrencyControl (TxIsolationLevel)
open Transition

variable {cfg : LogConfig} {s s' : LogState} {a : LogAction}

inductive WorkerStep (cfg : LogConfig) (s : LogState) (w : Nat) :
    LogAction → LogWorker → Nat → Prop
  | startTX {level readOnly} (pc : (s.workers w).pc = .idle) :
    WorkerStep cfg s w (.startTX w level readOnly)
      ((s.workers w).startTX level readOnly) s.globalClock
  | syncClock (pc : (s.workers w).pc = .syncing) :
    WorkerStep cfg s w (.syncClock w)
      (((s.workers w).syncClock s.globalSyncToThisGsn).setPc .loading)
      s.globalClock
  | loadMinGsnFlushed {rfaGsnFlushed} (pc : (s.workers w).pc = .loading) :
    WorkerStep cfg s w (.loadMinGsnFlushed w)
      { s.workers w with
        pc := .beginning
        rfaGsnFlushed := rfaGsnFlushed
        remoteFlushDependency := !cfg.walRfa }
      s.globalClock
  | drawStartTs (pc : (s.workers w).pc = .beginning)
    (level : (s.workers w).tx.level.atLeastSI = true) :
    WorkerStep cfg s w (.drawStartTs w)
      { s.workers w with
        pc := .running
        tx := { (s.workers w).tx with startTs := s.globalClock } }
      (s.globalClock + 1)
  | keepStartTs (pc : (s.workers w).pc = .beginning)
    (level : (s.workers w).tx.level.atLeastSI = false) :
    WorkerStep cfg s w (.drawStartTs w)
      ((s.workers w).setPc .running) s.globalClock
  | syncGSN {page} (pc : (s.workers w).pc = .running) :
    WorkerStep cfg s w (.syncGSN w page)
      ((s.workers w).syncGSN cfg w (s.pages page)) s.globalClock
  | incrementGSN {page} (pc : (s.workers w).pc = .running) :
    WorkerStep cfg s w (.incrementGSN w page)
      (s.workers w).incrementGSN s.globalClock
  | submitDTEntry {page marksAsWrite gsn} (pc : (s.workers w).pc = .running) :
    WorkerStep cfg s w (.submitDTEntry w page marksAsWrite)
      (LogWorker.submitDTEntry
        { s.workers w with
          gsnClock := gsn
          tx :=
            { (s.workers w).tx with
              hasWrote := (s.workers w).tx.hasWrote || marksAsWrite } })
      s.globalClock
  | access {path writer i tx} (pc : (s.workers w).pc = .running)
    (found : (s.workers writer).finished[i]? = some tx) (wrote : tx.hasWrote = true)
    (sees : (s.workers w).tx.sees (tx.source writer) = true) :
    WorkerStep cfg s w (.access w path writer i)
      (s.access cfg w path (tx.source writer)) s.globalClock
  | readUncommitted {writer} (pc : (s.workers w).pc = .running)
    (level : (s.workers w).tx.level = .readUncommitted) :
    WorkerStep cfg s w (.readUncommitted w writer)
      ((s.workers w).checkLogDependency cfg w writer
        (s.workers writer).tx.startTs (s.workers writer).signaledCommitTs)
      s.globalClock
  | abortTX (pc : (s.workers w).pc = .running) :
    WorkerStep cfg s w (.abortTX w)
      (((s.workers w).submitWALMetaEntry .txAbort).setPc .idle) s.globalClock
  | commitTX (pc : (s.workers w).pc = .running) :
    WorkerStep cfg s w (.commitTX w)
      ((s.workers w).precommit cfg) s.globalClock
  | checksDone (pc : (s.workers w).pc = .prechecking []) :
    WorkerStep cfg s w (.checkDependency w)
      ((s.workers w).setPc .precommitting) s.globalClock
  | checkFails {other ts rest} (pc : (s.workers w).pc = .prechecking ((other, ts) :: rest))
    (unsignaled : (s.workers other).signaledCommitTs < ts) :
    WorkerStep cfg s w (.checkDependency w)
      { s.workers w with pc := .precommitting, remoteFlushDependency := true }
      s.globalClock
  | checkPasses {other ts rest} (pc : (s.workers w).pc = .prechecking ((other, ts) :: rest))
    (signaled : ts ≤ (s.workers other).signaledCommitTs) :
    WorkerStep cfg s w (.checkDependency w)
      ((s.workers w).setPc (.prechecking rest)) s.globalClock
  | drawCommitTs (pc : (s.workers w).pc = .precommitting) :
    WorkerStep cfg s w (.drawCommitTs w)
      ((s.workers w).drawCommitTs s.globalClock)
      (if (s.workers w).tx.hasWrote then s.globalClock + 1 else s.globalClock)
  | submitCommit (pc : (s.workers w).pc = .committing) :
    WorkerStep cfg s w (.submitCommit w)
      (((s.workers w).submitWALMetaEntry .txCommit).setPc .logged)
      s.globalClock
  | pushPrecommitted (pc : (s.workers w).pc = .logged) :
    WorkerStep cfg s w (.pushPrecommitted w)
      (s.workers w).pushPrecommitted s.globalClock

inductive CommitterStep (cfg : LogConfig) (s : LogState) : LogAction → LogState → Prop
  | takeCut {next} (pc : s.gct.pc = .cutting next) (below : next < cfg.workersCount) :
    CommitterStep cfg s .takeCut
      { s with
        gct := s.gct.takeCut next (s.workers next).precommittedQueueRfa.length }
  | takeCopy {next} (pc : s.gct.pc = .copying next) :
    CommitterStep cfg s .takeCopy
      { s with gct := s.gct.takeCopy next (s.workers next).wtToLw }
  | flush (pc : s.gct.pc = .cutting cfg.workersCount) :
    CommitterStep cfg s .flush s.flush
  | drain {next} (pc : s.gct.pc = .draining next) (below : next < cfg.workersCount) :
    CommitterStep cfg s .drain
      { s.setWorker next ((s.workers next).drain s.gct next) with
        gct := s.gct.setPc
          (.signaling next ((s.workers next).signaledUpTo s.gct next)) }
  | signal {next signaledUpTo} (pc : s.gct.pc = .signaling next signaledUpTo) :
    CommitterStep cfg s .signal
      { s.setWorker next ((s.workers next).signal signaledUpTo) with
        gct := s.gct.setPc (.draining (next + 1)) }
  | publishMinGsn (pc : s.gct.pc = .draining cfg.workersCount) :
    CommitterStep cfg s .publishMinGsn
      { s with
        globalMinGsnFlushed := s.gct.minAllWorkersGsn
        gct := s.gct.setPc .publishing }
  | publishSyncGsn (pc : s.gct.pc = .publishing) :
    CommitterStep cfg s .publishSyncGsn
      { s with
        globalSyncToThisGsn := s.gct.maxAllWorkersGsn
        gct := s.gct.restart }

inductive LogStep (cfg : LogConfig) (s : LogState) : LogAction → LogState → Prop
  | worker {a : LogAction} {w : Nat} {its : LogWorker} {clock : Nat}
    {pages : Nat → PageGsn} (below : w < cfg.workersCount)
    (moved : WorkerStep cfg s w a its clock) :
    LogStep cfg s a
      { s with
        globalClock := clock
        pages := pages
        workers := Function.update s.workers w its }
  | committer {a : LogAction} {s' : LogState} (moved : CommitterStep cfg s a s') :
    LogStep cfg s a s'

theorem workerStep_cases {w : Nat} (mine : a.worker? = some w)
    (taken : workerStep cfg s w a = some s') :
    ∃ its clock pages, WorkerStep cfg s w a its clock ∧
      s' =
        { s with
          globalClock := clock
          pages := pages
          workers := Function.update s.workers w its } := by
  cases a <;> simp only [workerStep, reduceCtorEq] at taken <;>
    simp only [LogAction.worker?, Option.some.injEq] at mine <;>
    subst mine
  case drawStartTs =>
    split at taken
    · rename_i pc
      cases taken
      unfold LogState.drawStartTs
      dsimp only
      split
      · exact ⟨_, _, _, .drawStartTs pc ‹_›, rfl⟩
      · rename_i level
        exact ⟨_, _, _, .keepStartTs pc (Bool.eq_false_iff.mpr level), rfl⟩
    · contradiction
  case submitDTEntry page marksAsWrite =>
    split at taken
    · rename_i pc
      split at taken
      · contradiction
      · cases taken
        unfold LogState.submitDTEntry
        split
        · exact ⟨_, _, _, .submitDTEntry pc, rfl⟩
        · exact ⟨_, _, _, .submitDTEntry pc, rfl⟩
    · contradiction
  all_goals
    repeat' split at taken
    all_goals
      simp only [Option.some.injEq, reduceCtorEq] at taken <;> subst taken <;>
        refine ⟨_, _, _, ?_, rfl⟩ <;> constructor <;> first | assumption | simp_all

theorem committerStep_cases (taken : committerStep cfg s a = some s') :
    CommitterStep cfg s a s' := by
  cases a <;> simp only [committerStep] at taken <;>
    (repeat' split at taken) <;>
    simp only [Option.some.injEq, reduceCtorEq] at taken <;> subst taken
  all_goals
    constructor <;> first | assumption | simp_all

theorem logStep_cases (taken : logStep cfg s a = some s') : LogStep cfg s a s' := by
  unfold logStep at taken
  split at taken
  · rename_i w mine
    split at taken
    · obtain ⟨its, clock, pages, moved, rfl⟩ := workerStep_cases mine taken
      exact .worker ‹_› moved
    · contradiction
  · exact .committer (committerStep_cases taken)

end TieredStore.Logging
