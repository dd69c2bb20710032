import TieredStore.RecordCache.Coherence
import TieredStore.RecordCache.References
import TieredStore.RecordCache.Rollback

namespace TieredStore.RecordCache

open Transition State

/-- Undos find no copy of their key in the cache, and nobody overwrites a
version of a transaction that is still running elsewhere. -/
def WritesCleanly (cfg : Config) (s : State) (a : Action) : Prop :=
  OverwritesSettled s a ∧
    ∀ w signal sect stage e data,
      a = .worker w (.write signal) →
      s.workers w = .busy sect stage → sect.op = .undo e →
      ¬ s.Exposes cfg sect.key data

/-- Besides, the blocks are fresh, and no latch returns to a version. -/
def UndoesUncached (cfg : Config) (s : State) (a : Action) : Prop :=
  (FreshBlocks s a ∧ ResetsFresh s a) ∧ WritesCleanly cfg s a

def SameWriter (data : ReadData) : Option ChainedTuple → Prop
  | none => False
  | some tuple => data.writer = tuple.writer

variable {cfg : Config} {s s' : State} {a : Action}

theorem LeafInv.absent_of_insert (leaf : LeafInv s) {w : Nat}
    {sect : LeafSection} {stage : WorkerStage} {value : Bytes} {tuple : ChainedTuple}
    (busy : s.workers w = .busy sect stage)
    (unwritten : stage ≠ .written) (op : sect.op = .insert value) :
    ¬ s.leaves.Stores sect.key tuple := by
  intro ⟨frame, live, mem⟩
  have occupies := leaf.occupies w sect stage busy
  have located := occupies.located unwritten
  simp only [LeafSection.Located, op] at located
  have routed := leaf.wellFormed.routed frame _ live mem
  rw [occupies.routed] at routed
  exact located.2 _ (routed ▸ mem) rfl

theorem CacheInv.tolerates_sameWriter {chains : Bytes → List Addr}
    (inv : CacheInv cfg s chains) (reads : ReadInv cfg s) (undoes : UndoesUncached cfg s a)
    (taken : RecordCache.step cfg s a = some s') : Tolerates cfg SameWriter s s' a where
  validated key data slot validates slotIs := by
    obtain ⟨_, _, _, -, -, rfl, rfl⟩ := inv.copied_of_validates reads validates slotIs
    rfl
  rewritten w signal sect stage data slot slot' isWrite busy quiet exposes slotIs
      _ agreed := by
    subst isWrite
    have mayWrite := (inv.leaf.write_of_step busy taken).1
    cases op : sect.op with
    | update | remove => simp [LeafSection.invalidates, op] at quiet
    | undo e => exact absurd exposes (undoes.2.2 w signal sect stage e data rfl busy op)
    | insert =>
      cases slot with
      | none => exact agreed.elim
      | some =>
        refine absurd slotIs (inv.leaf.absent_of_insert busy ?_ op)
        rintro rfl
        simp [LeafSection.mayWrite] at mayWrite

theorem coherent_of_undoesUncached (reached : Reaches cfg (UndoesUncached cfg) s) :
    (∃ chains, CacheInv cfg s chains) ∧ ReadInv cfg s ∧ LogInv s ∧
      Coherent cfg SameWriter s := by
  refine reached.invariant
    (fun s => (∃ chains, CacheInv cfg s chains) ∧ ReadInv cfg s ∧ LogInv s ∧
      Coherent cfg SameWriter s)
    (fun s initial => ⟨⟨_, initial.cacheInv⟩, initial.readInv, initial.logInv,
      initial.coherent SameWriter⟩) ?_
  intro s a s' ⟨⟨chains, inv⟩, reads, log, coherent⟩ undoes taken
  exact ⟨inv.step undoes.1.1 taken, reads.step inv.leaf undoes.1.2 taken,
    log.step taken inv.leaf undoes.2.1,
    coherent.step inv taken (inv.tolerates_sameWriter reads undoes taken) undoes.1.1⟩

def rollBack (worker : Nat) : List Action :=
  [.worker worker .abortTX, .worker worker .undoNext, .worker worker (.write false),
    .worker worker .unlatch, .worker worker .abortDone]

/-- A promotion between the write and its roll-back: afterwards the worker's next
lookup delivers the aborted value. -/
theorem aborted_write_served :
    ∃ state state', Reaches Config.small FreshBlocks state ∧
      state.outcome 1 = some .aborted ∧
      step Config.small state
        (.worker 0 (.lookup [1] [3] fun workerId _ => decide (workerId = 0))) =
        some state' ∧
      state.delivered?
        (.worker 0 (.lookup [1] [3] fun workerId _ => decide (workerId = 0))) =
        some ⟨5, 0, [9], 1⟩ := by
  obtain ⟨state, state', ran, aborted, taken, delivered⟩ :
      ∃ state state',
        run (step Config.small) small
          (.worker 0 (.startTX 5) :: (uncachedUpdate 0 [9] ++ promotion 0 3 ++
            rollBack 0)) = some state ∧
        state.outcome 1 = some .aborted ∧
        step Config.small state
          (.worker 0 (.lookup [1] [3] fun workerId _ => decide (workerId = 0))) =
          some state' ∧
        state.delivered?
          (.worker 0 (.lookup [1] [3] fun workerId _ => decide (workerId = 0))) =
          some ⟨5, 0, [9], 1⟩ :=
    ⟨_, _, rfl, by decide, rfl, by decide⟩
  exact ⟨state, state', reaches_of_run_fresh initial_small (by decide) ran, aborted, taken,
    delivered⟩

/--
In every run whose undos find no copy of their key in the cache, no lookup
delivers a value that an aborted transaction wrote.
-/
theorem aborted_write_not_delivered (config : Config) {state state' : State}
    (reached : Reaches config (UndoesUncached config) state) {transaction : Nat}
    (aborted : state.outcome transaction = some .aborted)
    {worker : Nat} {key : Bytes} {chain : List Addr} {isVisibleForMe : Nat → Nat → Bool}
    (taken : step config state (.worker worker (.lookup key chain isVisibleForMe)) = some state')
    {data : ReadData}
    (delivered : state.delivered? (.worker worker (.lookup key chain isVisibleForMe)) = some data) :
    data.writer ≠ transaction := by
  obtain ⟨⟨chains, inv⟩, -, log, coherent⟩ := coherent_of_undoesUncached reached
  obtain ⟨slot, slotIs⟩ := state.leaves.exists_slotIs key
  have sameWriter := coherent.exposed key data slot
    (inv.exposes_of_delivered taken delivered) slotIs
  cases slot with
  | none => exact sameWriter.elim
  | some tuple =>
    intro isTransaction
    refine (log.stored key tuple slotIs).kept ?_
    rw [← sameWriter, isTransaction]
    exact aborted

theorem writesCleanly_alone {signal : Bool} (alone : ∀ w, w ≠ 0 → (s.transactions w).active = false)
    (table : s.memory.table = small.memory.table) (promoters : s.promoters = small.promoters) :
    WritesCleanly Config.small s (.worker 0 (.write signal)) := by
  refine ⟨?_, ?_⟩
  · intro w signal' sect stage _ other isWrite _ _ _ runs
    cases isWrite
    by_contra ne
    simp [Running, alone other ne] at runs
  · intro w signal' sect stage e _ _ _ _ exposes
    rcases exposes with ⟨_, ⟨isHead, -⟩, -⟩ | ⟨t, _, _, -, holds⟩
    · simp [table, small] at isHead
    · simp [promoters, small] at holds

theorem writesCleanly_elsewhere {actions : List Action}
    (noWrite : ∀ w signal, .worker w (.write signal) ∉ actions)
    (ran : run (step cfg) s actions = some s') :
    AllowedAlong (step cfg) (WritesCleanly cfg) s actions := by
  refine allowedAlong_of_forall (fun a mem s => ⟨?_, ?_⟩) ran
  · intro w signal _ _ _ _ isWrite
    exact absurd (isWrite ▸ mem) (noWrite w signal)
  · intro w signal _ _ _ _ isWrite
    exact absurd (isWrite ▸ mem) (noWrite w signal)

theorem aborted_write_not_delivered_promoted :
    ∃ state state' data, Reaches Config.small (UndoesUncached Config.small) state ∧
      state.outcome 1 = some .aborted ∧
      step Config.small state (.worker 1 (.lookup [1] [3] fun _ _ => true)) = some state' ∧
      state.delivered? (.worker 1 (.lookup [1] [3] fun _ _ => true)) = some data ∧
      data.writer ≠ 1 := by
  obtain ⟨ready, updated, undoing, undone, state, state', ran₁, wrote₁, ran₂, wrote₂, ran₃,
      ran, alone₁, table₁, promoters₁, alone₂, table₂, promoters₂, aborted, taken,
      delivered⟩ :
      ∃ ready updated undoing undone state state',
        run (step Config.small) small
          (.worker 0 (.startTX 5) :: (uncachedUpdate 0 [9]).take 4) = some ready ∧
        step Config.small ready (.worker 0 (.write false)) = some updated ∧
        run (step Config.small) updated
          (.worker 0 .unlatch :: (rollBack 0).take 2) = some undoing ∧
        step Config.small undoing (.worker 0 (.write false)) = some undone ∧
        run (step Config.small) undone ((rollBack 0).drop 3 ++ promotion 0 3) = some state ∧
        run (step Config.small) small
          (.worker 0 (.startTX 5) :: (uncachedUpdate 0 [9]).take 4 ++
            .worker 0 (.write false) :: (.worker 0 .unlatch :: (rollBack 0).take 2 ++
              .worker 0 (.write false) :: ((rollBack 0).drop 3 ++ promotion 0 3))) =
          some state ∧
        (∀ worker, worker ≠ 0 → (ready.transactions worker).active = false) ∧
        ready.memory.table = small.memory.table ∧
        ready.promoters = small.promoters ∧
        (∀ worker, worker ≠ 0 → (undoing.transactions worker).active = false) ∧
        undoing.memory.table = small.memory.table ∧
        undoing.promoters = small.promoters ∧
        state.outcome 1 = some .aborted ∧
        step Config.small state (.worker 1 (.lookup [1] [3] fun _ _ => true)) = some state' ∧
        state.delivered? (.worker 1 (.lookup [1] [3] fun _ _ => true)) = some ⟨0, 0, [5], 0⟩ := by
    refine ⟨_, _, _, _, _, _, rfl, rfl, rfl, rfl, rfl, rfl, fun worker different => ?_, rfl,
      rfl, fun worker different => ?_, rfl, rfl, by decide, rfl, by decide⟩
    · simp only [setTransaction, setWorker, setEpoch,
        Function.update_of_ne different]
      rfl
    · simp only [setTransaction, setWorker, setEpoch,
        Function.update_of_ne different]
      rfl
  have reached : Reaches Config.small (UndoesUncached Config.small) state := by
    refine (Reachable.start initial_small).run_of_allowed (((freshBlocks_along
      initial_small.shapeInv (fun entry _ => initial_small.unreferenced entry) (by decide)
      ran).and (allowedAlong_of_forall (by simp [uncachedUpdate, rollBack, promotion,
        ResetsFresh]) ran)).and ?_) ran
    refine (writesCleanly_elsewhere (by simp [uncachedUpdate]) ran₁).append ran₁
      ⟨writesCleanly_alone alone₁ table₁ promoters₁, ?_⟩
    rw [wrote₁]
    refine (writesCleanly_elsewhere (by simp [rollBack]) ran₂).append ran₂
      ⟨writesCleanly_alone alone₂ table₂ promoters₂, ?_⟩
    rw [wrote₂]
    exact writesCleanly_elsewhere (by simp [rollBack, promotion]) ran₃
  exact ⟨state, state', _, reached, aborted, taken, delivered,
    aborted_write_not_delivered Config.small reached aborted taken delivered⟩

end TieredStore.RecordCache
