import TieredStore.RecordCache.Frees

namespace TieredStore.RecordCache

open Transition Ownership PromotePc RescuePc State

variable {cfg : Config} {s s' state state' : State} {t thread : Nat}

def ForwardStage.item? : ForwardStage → Option InvalidationEntry
  | .scanning item _ => some item
  | .unlinking item => some item
  | .removed item => some item
  | .notRemoved item => some item
  | _ => none

structure BetweenEntries (s : State) : Prop where
  promoters : ∀ t, (s.promoters t).placeholder? = none
  sieves : ∀ t, (s.sieves t).entries = []
  forwards : ∀ t, (s.forwards t).stage.item? = none
  rescue : s.rescue.collected = []

theorem RescuesWholeSlab.stillQueued {a : Action}
    (whole : RescuesWholeSlab cfg s a) : CollectedStillQueued s a := by
  unfold CollectedStillQueued
  split
  · intro run shard holdsLock scanning
    by_cases empty : run.collected = []
    · exact empty ▸ List.nil_subperm
    · exact (whole run shard holdsLock scanning empty).subperm.trans
        List.filter_sublist.subperm
  · trivial

def Covered (s : State) : Prop :=
  ∀ e, s.memory.allocated e = true → ∃ keeper, e ∈ s.kept keeper

theorem Handover.covered {gained freed : List Addr}
    (handover : Handover s s' gained freed []) (covered : Covered s) : Covered s' := by
  intro e isAllocated
  obtain ⟨notFreed, before⟩ := (handover.allocated e).mp isAllocated
  have had : ∃ owner, e ∈ s.keptWith gained owner := by
    rcases before with isNew | before
    · exact ⟨none, isNew⟩
    · obtain ⟨keeper, mem⟩ := covered e before
      exact ⟨some keeper, mem⟩
  obtain ⟨owner, had⟩ := had
  obtain ⟨_, passes⟩ := handover.passes
  rcases passes.kept had with isLost | ⟨_ | keeper, has⟩
  · simp at isLost
  · exact absurd has notFreed
  · exact ⟨keeper, has⟩

theorem PromotePc.unqueued_eq_nil {pc : PromotePc} (empty : pc.placeholder? = none) :
    pc.unqueued = [] := by
  cases pc <;> simp_all [placeholder?, unqueued]

theorem RescuePc.takenOver_eq_nil {rescue : RescuePc} (empty : rescue.collected = []) :
    rescue.takenOver = [] := by
  cases rescue <;> simp_all [collected, takenOver]

theorem BetweenEntries.keeper_eq_fifo (between : BetweenEntries s) {keeper : Keeper}
    {e : Addr} (mem : e ∈ s.kept keeper) : keeper = .fifo := by
  cases keeper with
  | promoter t => simp [kept, unqueued_eq_nil (between.promoters t)] at mem
  | fifo => rfl
  | sieve t => simp [kept, between.sieves t] at mem
  | rescue => simp [kept, takenOver_eq_nil between.rescue] at mem

/-- The rescue gives up on the epoch and hands what it collected to the
invalidation queue; the forward-epoch thread finds the entry removed already and
forgets it. -/
def rescueTimesOut : List Action :=
  rescueCollects ++
    [.rescue .mark, .rescue .readEpoch, .rescue .advanceEpoch, .rescue .timeout,
      .rescue .finish, .promote 1 .reject, .forward 0 .advance, .forward 0 .popAll,
      .forward 0 .takeNext, .forward 0 .scan, .forward 0 .scan, .forward 0 .scan,
      .forward 0 (.unlink []), .forward 0 .loadType, .forward 0 .endPass]

/-- A promotion into block 3 fails to validate its read, which leaves the block
removed and queued.  Then block 4 is promoted, and the rescue of their slab
collects only block 4. -/
def rescueBesideRemoved : List Action :=
  (promotion 0 3).take 9 ++
    [.page (.cool 0), .promote 0 .recheck, .promote 0 (.unlinkFailed [3]),
      .promote 0 .setRemoved, .promote 0 .increment, .page (.heat 0)] ++
    promotion 0 4 ++
    [.page (.promoteRecordCacheEntry 0 0), .promote 1 .dequeue, .rescue (.begin 1 0),
      .rescue .lockShard, .rescue (.collect [1] 4 [4]), .rescue .unlockShard,
      .rescue .mark] ++ rescueWaits ++ [.rescue .free, .rescue .finish, .promote 1 .reject]

theorem betweenEntries_of_idle (promoters : ∀ t, s.promoters t = .idle)
    (sieves : ∀ t, s.sieves t = .idle) (forwards : ∀ t, (s.forwards t).stage = .resting)
    (rescue : s.rescue = .idle) : BetweenEntries s where
  promoters t := by rw [promoters]; rfl
  sieves t := by rw [sieves]; rfl
  forwards t := by rw [forwards]; rfl
  rescue := by rw [rescue]; rfl

def Lost (s : State) (e : Addr) : Prop :=
  BetweenEntries s ∧ s.memory.allocated e = true ∧
    s.sieveFifo.entries.count e = 0 ∧ s.invalidationQueue = []

/-- A rescue that times out and one of a slab with a removed entry lose a block. -/
theorem rescue_loses_entries :
    (∃ state, run (step Config.small) State.small rescueTimesOut = some state ∧
      Reaches Config.small FreshBlocks state ∧ Lost state 3) ∧
    ∃ state, run (step Config.small) State.small rescueBesideRemoved = some state ∧
      Reaches Config.small FreshBlocks state ∧ Lost state 3 := by
  constructor
  · obtain ⟨state, ran, lost⟩ : ∃ state,
        run (step Config.small) small rescueTimesOut = some state ∧ Lost state 3 := by
      refine ⟨_, rfl, betweenEntries_of_idle ?_ ?_ ?_ rfl, by decide, by decide, by decide⟩
      · rintro (_ | _ | thread) <;> rfl
      · intro thread
        rfl
      · rintro (_ | thread) <;> rfl
    exact ⟨state, ran, reaches_of_run_fresh initial_small (by decide) ran, lost⟩
  · obtain ⟨state, ran, lost⟩ : ∃ state,
        run (step Config.small) small rescueBesideRemoved = some state ∧ Lost state 3 := by
      refine ⟨_, rfl, betweenEntries_of_idle ?_ ?_ ?_ rfl, by decide, by decide, by decide⟩
      · rintro (_ | _ | thread) <;> rfl
      · intro thread
        rfl
      · intro thread
        rfl
    exact ⟨state, ran, reaches_of_run_fresh initial_small (by decide) ran, lost⟩

/--
In every run whose rescues take over exactly the slab's part of the SIEVE queue
and do not time out, every allocated block is in the SIEVE queue once whenever no
thread is in the middle of handling an entry.
-/
theorem allocated_blocks_queued_once (config : Config)
    (reached : Reaches config (RescuesWholeSlab config) state)
    (between : BetweenEntries state) {entry : Addr}
    (allocated : state.memory.allocated entry = true) :
    state.sieveFifo.entries.count entry = 1 := by
  obtain ⟨owned, covered⟩ : OwnInv config state ∧ Covered state := by
    apply reached.invariant fun state => OwnInv config state ∧ Covered state
    · intro state initial
      refine ⟨initial.ownInv, fun entry isAllocated => ?_⟩
      rw [initial.allocated entry] at isAllocated
      contradiction
    · rintro state action state' ⟨owned, covered⟩ whole taken
      obtain ⟨_, _, _, handover, lost⟩ :=
        handover_of_step owned.withinSlab whole.stillQueued taken
      cases lost whole
      exact ⟨owned.step whole.stillQueued taken, handover.covered covered⟩
  obtain ⟨keeper, member⟩ := covered entry allocated
  obtain rfl := between.keeper_eq_fifo member
  exact List.count_eq_one_of_mem (owned.linear.nodup .fifo) member

theorem allocated_blocks_queued_once_rescued :
    ∃ state, Reaches Config.small (RescuesWholeSlab Config.small) state ∧
      BetweenEntries state ∧ state.memory.allocated 4 = true ∧
      state.sieveFifo.entries.count 4 = 1 := by
  obtain ⟨scanned, marked, state, ran, taken, later, pc, entries, between, allocated⟩ :
      ∃ scanned marked state,
        run (step Config.small) small rescueCollects = some scanned ∧
        step Config.small scanned (.rescue .mark) = some marked ∧
        run (step Config.small) marked (rescueWaits ++
          [.rescue .free, .rescue .finish, .promote 1 .reject] ++ promotion 0 4) = some state ∧
        scanned.rescue = .scanning ⟨1, 0, [3]⟩ 1 false ∧
        scanned.sieveFifo.entries = [3] ∧
        BetweenEntries state ∧ state.memory.allocated 4 = true := by
    refine ⟨_, _, _, rfl, rfl, rfl, by decide, by decide, ?_, by decide⟩
    refine betweenEntries_of_idle ?_ ?_ ?_ rfl
    · rintro (_ | _ | thread) <;> rfl
    · intro thread
      rfl
    · intro thread
      rfl
  have collected : Reaches Config.small (RescuesWholeSlab Config.small) scanned :=
    (Reachable.start initial_small).run_of_forall
      (by simp [rescueCollects, promotion, RescuesWholeSlab]) ran
  have whole : RescuesWholeSlab Config.small scanned (.rescue .mark) := by
    intro run shard holdsLock isScanning _
    rw [pc] at isScanning
    cases isScanning
    rw [entries]
    decide
  have reached : Reaches Config.small (RescuesWholeSlab Config.small) state :=
    (Reachable.next collected whole taken).run_of_forall
      (by simp [rescueWaits, promotion, RescuesWholeSlab]) later
  exact ⟨state, reached, between, allocated,
    allocated_blocks_queued_once Config.small reached between allocated⟩

end TieredStore.RecordCache
