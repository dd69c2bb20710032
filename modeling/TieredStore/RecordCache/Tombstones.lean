import TieredStore.RecordCache.Coherence
import TieredStore.RecordCache.References

namespace TieredStore.RecordCache

open Transition

/-- No read of a promotion validates over a tombstone. -/
def SkipsTombstones (cfg : Config) (s : State) (a : Action) : Prop :=
  FreshBlocks s a ∧
    ∀ key data tuple, s.Validates a (cfg.buildPrefixedKey key) data →
      s.leaves.Stores key tuple → tuple.isRemoved = false

def NotRemoved (_data : ReadData) : Option ChainedTuple → Prop
  | none => True
  | some tuple => tuple.isRemoved = false

variable {cfg : Config} {s s' : State} {a : Action}

theorem notRemoved_of_outcome {sect : LeafSection} {tag : VersionTag}
    {slots : List LeafSlot} {tuple : ChainedTuple} (quiet : sect.invalidates = false)
    (outcome : sect.outcome tag slots tuple)
    (before : ∀ old, slots[sect.slot]? = some ⟨sect.key, old⟩ →
      old.isRemoved = false) : tuple.isRemoved = false := by
  unfold LeafSection.outcome at outcome
  cases op : sect.op with
  | insert =>
    simp only [op] at outcome
    simp [outcome, ChainedTuple.inserted]
  | update | remove => simp [LeafSection.invalidates, op] at quiet
  | undo e =>
    cases e with
    | insert => simp [op] at outcome
    | update =>
      simp only [op] at outcome
      obtain ⟨old, atSlot, rfl⟩ := outcome
      exact before old atSlot
    | remove =>
      simp only [op] at outcome
      obtain ⟨old, atSlot, rfl⟩ := outcome
      rfl

theorem CacheInv.tolerates_notRemoved {chains : Bytes → List Addr}
    (inv : CacheInv cfg s chains) (skips : SkipsTombstones cfg s a)
    (taken : RecordCache.step cfg s a = some s') : Tolerates cfg NotRemoved s s' a where
  validated key data slot validates slotIs := by
    cases slot with
    | none => trivial
    | some tuple => exact skips.2 key data tuple validates slotIs
  rewritten w signal sect stage data slot slot' isWrite busy quiet _ slotIs
      slotIs' agreed := by
    cases slot' with
    | none => trivial
    | some tuple =>
      rcases (inv.leaf.step taken).stores with
        same | ⟨w', signal', sect', stage', isWrite', busy', -, rewrites⟩
      · have stores := (same sect.key tuple).mp slotIs'
        cases slot with
        | none => exact absurd stores (slotIs tuple)
        | some => exact inv.leaf.wellFormed.unique stores slotIs ▸ agreed
      · cases isWrite.symm.trans isWrite'
        cases busy.symm.trans busy'
        refine notRemoved_of_outcome quiet (rewrites.own tuple slotIs') fun old atSlot => ?_
        have stores := inv.leaf.stores_old busy atSlot
        cases slot with
        | none => exact absurd stores (slotIs old)
        | some => exact inv.leaf.wellFormed.unique stores slotIs ▸ agreed

theorem coherent_of_skipsTombstones (reached : Reaches cfg (SkipsTombstones cfg) s) :
    (∃ chains, CacheInv cfg s chains) ∧ Coherent cfg NotRemoved s := by
  refine reached.invariant
    (fun s => (∃ chains, CacheInv cfg s chains) ∧ Coherent cfg NotRemoved s)
    (fun s initial => ⟨⟨_, initial.cacheInv⟩, initial.coherent NotRemoved⟩) ?_
  intro s a s' ⟨⟨chains, inv⟩, coherent⟩ skips taken
  exact ⟨inv.step skips.1 taken,
    coherent.step inv taken (inv.tolerates_notRemoved skips taken) skips.1⟩

def committedRemove : List Action :=
  [.worker 0 (.startTX 5), .worker 0 (.latch .remove [1] 0), .worker 0 .enterEpoch,
    .worker 0 .select, .worker 0 .leaveEpoch, .worker 0 (.write false),
    .worker 0 .unlatch, .worker 0 .commitTX]

/-- A promotion after the commit brings the removed value back: a lookup that
sees the remove still delivers it. -/
theorem promotion_serves_removed_key :
    ∃ state state' tuple, Reaches Config.small FreshBlocks state ∧
      state.leaves.Stores [1] tuple ∧ tuple.isRemoved = true ∧
      state.outcome tuple.writer = some .committed ∧
      step Config.small state (.worker 1 (.lookup [1] [3] fun workerId txTs =>
        decide (workerId = tuple.workerId ∧ txTs ≤ tuple.txTs))) = some state' ∧
      state.delivered? (.worker 1 (.lookup [1] [3] fun workerId txTs =>
        decide (workerId = tuple.workerId ∧ txTs ≤ tuple.txTs))) =
        some ⟨5, 0, [5], 1⟩ := by
  obtain ⟨state, state', ran, stored, hot, committed, taken, delivered⟩ :
      ∃ state state',
        run (step Config.small) State.small (committedRemove ++ promotion 0 3) = some state ∧
        (state.leaves.frames 0).slots = [⟨[1], ⟨[5], 1, 0, 5, true, 1⟩⟩] ∧
        (state.leaves.frames 0).state ≠ .free ∧
        state.outcome 1 = some .committed ∧
        step Config.small state (.worker 1 (.lookup [1] [3] fun workerId txTs =>
          decide (workerId = 0 ∧ txTs ≤ 5))) = some state' ∧
        state.delivered? (.worker 1 (.lookup [1] [3] fun workerId txTs =>
          decide (workerId = 0 ∧ txTs ≤ 5))) = some ⟨5, 0, [5], 1⟩ :=
    ⟨_, _, rfl, by decide, by decide, by decide, rfl, by decide⟩
  exact ⟨state, state', ⟨[5], 1, 0, 5, true, 1⟩,
    reaches_of_run_fresh initial_small (by decide) ran,
    ⟨0, hot, by simp [stored]⟩, rfl, committed, taken, delivered⟩

/--
As long as no promotion validates its read over a tombstone, no lookup of a
removed key returns OK, whatever its snapshot.
-/
theorem removed_key_not_delivered (config : Config) {state state' : State}
    (reached : Reaches config (SkipsTombstones config) state)
    {key : Bytes} {tuple : ChainedTuple} (stores : state.leaves.Stores key tuple)
    (removed : tuple.isRemoved = true) {worker : Nat} {chain : List Addr}
    {isVisibleForMe : Nat → Nat → Bool}
    (taken : step config state (.worker worker (.lookup key chain isVisibleForMe)) = some state') :
    state.delivered? (.worker worker (.lookup key chain isVisibleForMe)) = none := by
  obtain ⟨⟨chains, inv⟩, coherent⟩ := coherent_of_skipsTombstones reached
  cases delivered : state.delivered? (.worker worker (.lookup key chain isVisibleForMe)) with
  | none => rfl
  | some data =>
    have alive : tuple.isRemoved = false := coherent.exposed key data (some tuple)
      (inv.exposes_of_delivered taken delivered) stores
    simp [removed] at alive

theorem removed_key_not_delivered_committed :
    ∃ state state', Reaches Config.small (SkipsTombstones Config.small) state ∧
      state.leaves.Stores [1] ⟨[5], 1, 0, 5, true, 1⟩ ∧
      state.outcome 1 = some .committed ∧
      step Config.small state (.worker 1 (.lookup [1] [] fun _ _ => true)) = some state' ∧
      state.delivered? (.worker 1 (.lookup [1] [] fun _ _ => true)) = none := by
  obtain ⟨state, state', ran, stored, hot, committed, taken⟩ :
      ∃ state state',
        run (step Config.small) State.small committedRemove = some state ∧
        (state.leaves.frames 0).slots = [⟨[1], ⟨[5], 1, 0, 5, true, 1⟩⟩] ∧
        (state.leaves.frames 0).state ≠ .free ∧
        state.outcome 1 = some .committed ∧
        step Config.small state (.worker 1 (.lookup [1] [] fun _ _ => true)) = some state' :=
    ⟨_, _, rfl, by decide, by decide, by decide, rfl⟩
  have reached : Reaches Config.small (SkipsTombstones Config.small) state :=
    (Reachable.start initial_small).run_of_forall
      (by simp [committedRemove, SkipsTombstones, State.Validates, FreshBlocks,
        Action.allocated?]) ran
  have stores : state.leaves.Stores [1] ⟨[5], 1, 0, 5, true, 1⟩ :=
    ⟨0, hot, by simp [stored]⟩
  exact ⟨state, state', reached, stores, committed, taken,
    removed_key_not_delivered Config.small reached stores rfl taken⟩

end TieredStore.RecordCache
