import TieredStore.Lib.Tally
import TieredStore.RecordCache.Leaks

namespace TieredStore.RecordCache

open Transition Ownership Function List Memory PromotePc RescuePc State

variable {cfg : Config} {s s' state state' : State} {e entry : Addr} {keeper : Keeper}
  {t thread : Nat}

def RescuePc.scanned : RescuePc → List Addr
  | .scanning run _ _ => run.collected
  | _ => []

def State.abandoned (state : State) : Action → List Addr
  | .rescue .timeout => state.rescue.collected
  | _ => []

def ScanQueued (s : State) : Prop :=
  s.rescue.scanned.Subperm s.sieveFifo.entries

/-- What a rescue collects stays in the SIEVE queue until the rescue takes it out, and it
does not give up on it. -/
def RescuesQueued (s : State) (a : Action) : Prop :=
  ScanQueued s ∧ s.abandoned a = []

instance (s : State) (a : Action) : Decidable (RescuesQueued s a) :=
  inferInstanceAs (Decidable (List.Subperm _ _ ∧ _))

structure NoneInside (s : State) : Prop where
  promoters : ∀ t, s.promoters t = .idle
  sieves : ∀ t, s.sieves t = .idle
  rescue : s.rescue = .idle

def Counted (s : State) (e : Addr) : Prop :=
  s.memory.allocated e = true ∧ (∀ t, e ∉ (s.promoters t).unqueued) ∧ e ∉ s.rescue.collected

def CountInv (s : State) : Prop := Tally (Counted s) s.activeEntryCount

theorem ScanQueued.stillQueued (queued : ScanQueued s) (a : Action) : CollectedStillQueued s a := by
  unfold CollectedStillQueued
  split
  · intro _ _ _ pc
    rw [ScanQueued, pc] at queued
    exact queued
  · trivial

theorem ScanQueued.kept (queued : ScanQueued s) (mem : e ∈ s.rescue.collected) :
    ∃ keeper, (keeper = .fifo ∨ keeper = .rescue) ∧ e ∈ s.kept keeper := by
  cases pc : s.rescue with
  | scanning =>
    rw [ScanQueued, pc] at queued
    rw [pc] at mem
    exact ⟨.fifo, .inl rfl, queued.subset mem⟩
  | _ =>
    refine ⟨.rescue, .inr rfl, ?_⟩
    rw [State.kept]
    rw [pc] at mem ⊢
    exact mem

theorem OwnInv.not_collected (own : OwnInv cfg s) (queued : ScanQueued s)
    (mem : e ∈ s.kept keeper) (notFifo : keeper ≠ .fifo)
    (notRescue : keeper ≠ .rescue) : e ∉ s.rescue.collected := by
  intro collected
  obtain ⟨other, isOther, member'⟩ := queued.kept collected
  obtain rfl := own.linear.unique keeper other e mem member'
  exact isOther.elim notFifo notRescue

theorem OwnInv.counted (own : OwnInv cfg s)
    (mem : e ∈ s.kept keeper) (notPromoter : ∀ t, keeper ≠ .promoter t)
    (uncollected : e ∉ s.rescue.collected) : Counted s e := by
  refine ⟨own.allocated keeper e mem, fun t unqueued => ?_, uncollected⟩
  exact notPromoter t (own.linear.unique keeper (.promoter t) e mem unqueued)

theorem after_setPromoter (s : State) (t : Nat) (pc : PromotePc) (e : Addr) :
    (∀ other, e ∉ ((s.setPromoter t pc).promoters other).unqueued) ↔
      e ∉ pc.unqueued ∧ ∀ other, other ≠ t → e ∉ (s.promoters other).unqueued :=
  forall_update_iff s.promoters fun _ pc => e ∉ pc.unqueued

theorem before_setPromoter {pc : PromotePc} (isPc : s.promoters t = pc) (e : Addr) :
    (∀ other, e ∉ (s.promoters other).unqueued) ↔ e ∉ pc.unqueued ∧
      ∀ other, other ≠ t → e ∉ (s.promoters other).unqueued := by
  rw [← after_setPromoter, ← isPc, setPromoter, update_eq_self]

namespace CountInv

variable (own : OwnInv cfg s)
include own

theorem promoteStep {a : PromoteAction} (inv : CountInv s) (queued : ScanQueued s)
    (taken : PromoteStep cfg s t a s') : CountInv s' := by
  cases taken with
  | @allocate req new pc available =>
    refine inv.congr fun e => ?_
    rw [Counted, Counted, before_setPromoter pc]
    refine trans (and_congr_right' (and_congr_left' (after_setPromoter ..))) ?_
    by_cases isNew : e = new <;>
      simp [isNew, available, unqueued, allocateNewEntry]
  | @freePreallocated req old pc =>
    refine inv.congr fun e => ?_
    rw [Counted, Counted, before_setPromoter pc]
    refine trans (and_congr_right' (and_congr_left' (after_setPromoter ..))) ?_
    by_cases isOld : e = old <;>
      simp [isOld, unqueued, deallocate]
  | @insertIntoFifo req new pc =>
    have mem : new ∈ s.kept (.promoter t) := by
      simp [kept, pc, unqueued]
    have uncounted : ¬ Counted s new := fun counted => counted.2.1 t mem
    refine inv.add uncounted fun e => ?_
    rw [Counted, Counted, before_setPromoter pc]
    refine trans (and_congr_right' (and_congr_left' (after_setPromoter ..))) ?_
    simp only [unqueued, mem_singleton, not_mem_nil, not_false_eq_true, true_and]
    constructor
    · rintro ⟨allocated, others, uncollected⟩
      exact (eq_or_ne e new).imp_right fun ne => ⟨allocated, ⟨ne, others⟩, uncollected⟩
    · rintro (rfl | ⟨allocated, ⟨-, others⟩, uncollected⟩)
      · refine ⟨own.allocated _ _ mem, fun other ne isOther => ne ?_,
          own.not_collected queued mem (by simp) (by simp)⟩
        exact Keeper.promoter.inj (own.linear.unique (.promoter other) _ _ isOther mem)
      · exact ⟨allocated, others, uncollected⟩
  | _ =>
    refine inv.congr fun e =>
      and_congr_right' (and_congr_left' (trans (after_setPromoter ..) ?_))
    refine trans ?_ (before_setPromoter (by assumption) e).symm
    simp [unqueued]

theorem rescueStep {a : RescueAction} (inv : CountInv s)
    (own' : OwnInv cfg s') (queued' : ScanQueued s') (gaveUp : s.abandoned (.rescue a) = [])
    (taken : RescueStep cfg s a s') : CountInv s' := by
  cases taken with
  | @collect run shard key new chain pc =>
    -- What is collected now was in the queue, and had not been collected before.
    have queued' : (run.collected ++ [new]).Subperm s.sieveFifo.entries := queued'
    have fifo : new ∈ s.kept .fifo := queued'.subset (by simp)
    have distinct := nodup_of_subperm queued' (own'.linear.nodup .fifo)
    have uncollected : new ∉ s.rescue.collected := by
      rw [pc]
      exact fun before => (nodup_append'.mp distinct).2.2 before (by simp)
    refine inv.drop (own.counted fifo (by simp) uncollected) fun other => ?_
    simp only [Counted, pc, collected, mem_append, mem_singleton, not_or]
    constructor
    · rintro ⟨allocated, unqueued, others, ne⟩
      exact ⟨ne, allocated, unqueued, others⟩
    · rintro ⟨ne, allocated, unqueued, others⟩
      exact ⟨allocated, unqueued, others, ne⟩
  | @free run old rest pc next =>
    refine inv.congr fun e => ?_
    simp only [Counted, collected, deallocate, update_apply]
    split <;> simp_all
  | timeout =>
    have nothing : s.rescue.collected = [] := gaveUp
    refine inv.congr fun e => ?_
    rw [Counted, Counted, nothing]
    rfl
  | begin idle caller | finish pc done caller =>
    refine inv.congr fun e => and_congr_right' (and_congr ?_ (by simp_all [collected]))
    exact Iff.trans (after_setPromoter ..) (before_setPromoter caller e).symm
  | _ =>
    refine inv.congr fun e => ?_
    simp_all [Counted, collected]

theorem step {a : Action} (inv : CountInv s) (allowed : RescuesQueued s a) (own' : OwnInv cfg s')
    (queued' : ScanQueued s') (taken : RecordCache.step cfg s a = some s') : CountInv s' := by
  cases step_cases taken with
  | worker stepped =>
    cases stepped with
    | selectNone | select =>
      refine inv.congr fun e => and_congr_left' ?_
      rw [allocated_afterSearch]
    | _ => exact inv
  | promote stepped => exact inv.promoteStep own allowed.1 stepped
  | forward stepped | page stepped => cases stepped <;> exact inv
  | @sieve t _ stepped =>
    cases stepped with
    | @freeDrained victim _ pc | @freeCaseA victim pc | @freeCaseB victim pc =>
      have mem : victim ∈ s.kept (.sieve t) := by simp [kept, pc, SievePc.entries]
      have uncollected := own.not_collected allowed.1 mem (by simp) (by simp)
      refine inv.drop (own.counted mem (by simp) uncollected) fun other => ?_
      simp only [Counted, deallocate, update_apply]
      split <;> simp_all
    | _ => exact inv
  | rescue stepped => exact inv.rescueStep own own' queued' allowed.2 stepped

end CountInv

/--
In every run whose rescues find what they collect in the SIEVE queue and do not give up on
it, `active_entry_count` is the number of allocated blocks whenever no thread is inside a
promotion, an eviction or a rescue.
-/
theorem active_entry_count_exact (config : Config) (reached : Reaches config RescuesQueued state)
    (none : NoneInside state) :
    Tally (fun entry => state.memory.allocated entry = true) state.activeEntryCount := by
  obtain ⟨-, counted⟩ : OwnInv config state ∧ (ScanQueued state → CountInv state) := by
    apply reached.invariant fun state => OwnInv config state ∧ (ScanQueued state → CountInv state)
    · intro state initial
      refine ⟨initial.ownInv, fun _ => ?_⟩
      rw [CountInv, initial.activeEntryCount]
      exact .empty fun entry counted => by simpa [initial.allocated] using counted.1
    · rintro state action state' ⟨own, counted⟩ allowed taken
      have own' := own.step (allowed.1.stillQueued action) taken
      exact ⟨own', fun queued' => (counted allowed.1).step own allowed own' queued' taken⟩
  have queued : ScanQueued state := by
    rw [ScanQueued, none.rescue]
    exact nil_subperm
  refine (counted queued).congr fun entry => ?_
  simp [Counted, none.promoters, none.rescue, unqueued, collected]

def rescueThenPromotion : List Action :=
  rescueCollects ++ .rescue .mark :: rescueWaits ++
    [.rescue .free, .rescue .finish, .promote 1 .reject] ++ promotion 0 4

theorem active_entry_count_exact_after_rescue : ∃ state,
    run (step Config.small) State.small rescueThenPromotion = some state ∧
      Tally (fun entry => state.memory.allocated entry = true) state.activeEntryCount ∧
      state.activeEntryCount = 1 ∧ state.memory.allocated 4 = true := by
  obtain ⟨state, ran, none, counted⟩ : ∃ state,
      run (step Config.small) small rescueThenPromotion = some state ∧
        NoneInside state ∧ state.activeEntryCount = 1 ∧ state.memory.allocated 4 = true := by
    refine ⟨_, rfl, ⟨?_, fun _ => rfl, rfl⟩, by decide, by decide⟩
    rintro (_ | _ | thread) <;> rfl
  have allowed : AllowedAlong (step Config.small) RescuesQueued small
      rescueThenPromotion := by
    decide
  have reached := (Reachable.start initial_small).run_of_allowed allowed ran
  exact ⟨state, ran, active_entry_count_exact Config.small reached none, counted⟩

/-- A rescue that times out has counted its block off, and nobody frees the block. -/
theorem active_entry_count_drifts : ∃ state, Reaches Config.small FreshBlocks state ∧
    NoneInside state ∧ state.memory.allocated 3 = true ∧ state.activeEntryCount = 0 := by
  obtain ⟨state, ran, drifted⟩ : ∃ state,
      run (step Config.small) small rescueTimesOut = some state ∧
        NoneInside state ∧ state.memory.allocated 3 = true ∧ state.activeEntryCount = 0 := by
    refine ⟨_, rfl, ⟨?_, fun _ => rfl, rfl⟩, by decide, by decide⟩
    rintro (_ | _ | thread) <;> rfl
  exact ⟨state, reaches_of_run_fresh initial_small (by decide) ran, drifted⟩

end TieredStore.RecordCache
