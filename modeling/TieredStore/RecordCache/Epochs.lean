import TieredStore.RecordCache.References

namespace TieredStore.RecordCache

open Transition Function WorkerPc

/-- The stages between `enterEpoch` and `leaveEpoch`. -/
def WorkerStage.inEpoch : WorkerStage → Bool
  | .entered => true
  | .selected _ => true
  | .loaded _ => true
  | .invalidated _ => true
  | .queueing _ _ => true
  | .leaving _ => true
  | _ => false

variable {sect leafSection : LeafSection} {stage : WorkerStage}

theorem inEpoch_of_target {e : Addr}
    (target : (busy sect stage).target? = some e) : stage.inEpoch = true := by
  cases stage <;> simp_all [target?, WorkerStage.inEpoch]

def Waits (s : State) : RescuePc → Prop
  | .unlinkEpoch run epoch => ∀ w e,
    (s.workers w).target? = some e → e ∈ run.collected →
    (s.workerEpochs w).currentEpoch ≤ epoch
  | .polling run epoch next => ∀ w e,
    (s.workers w).target? = some e → e ∈ run.collected →
    (s.workerEpochs w).currentEpoch ≤ epoch ∧ next ≤ w
  | .freeing run => ∀ w e,
    (s.workers w).target? = some e → e ∉ run.collected
  | _ => True

theorem Waits.mono {s s' : State} {rescue : RescuePc} (waits : Waits s rescue)
    (back : ∀ w e, (s'.workers w).target? = some e → e ∈ rescue.collected →
      (s.workers w).target? = some e ∧ s'.workerEpochs w = s.workerEpochs w) : Waits s' rescue := by
  cases rescue with
  | unlinkEpoch | polling =>
    intro w e target collected
    obtain ⟨before, same⟩ := back w e target collected
    rw [same]
    exact waits w e before collected
  | freeing =>
    intro w e target collected
    exact waits w e (back w e target collected).1 collected
  | _ => trivial

structure EpochInv (cfg : Config) (s : State) : Prop where
  idle : ∀ w, cfg.totalWorkersNumber ≤ w → s.workers w = .idle
  entered : ∀ w sect stage, s.workers w = .busy sect stage → stage.inEpoch = true →
    (s.workerEpochs w).active = true ∧ (s.workerEpochs w).currentEpoch ≤ s.globalEpoch
  waits : Waits s s.rescue

variable {cfg : Config} {s s' : State} {a : Action} {e : Addr}
  {chains : Bytes → List Addr} {w : Nat}

theorem globalEpoch_of_step (taken : step cfg s a = some s') : s.globalEpoch ≤ s'.globalEpoch := by
  cases step_cases taken with
  | worker stepped => cases stepped <;> exact le_refl _
  | promote stepped | sieve stepped | page stepped => cases stepped <;> exact le_refl _
  | forward stepped =>
    cases stepped with
    | advance => exact Nat.le_succ _
    | _ => exact le_refl _
  | rescue stepped =>
    cases stepped with
    | advanceEpoch => exact Nat.le_succ _
    | _ => exact le_refl _

theorem collected_target (inv : ShapeInv s chains) (taken : step cfg s a = some s')
    (target : (s'.workers w).target? = some e) (collected : e ∈ s.rescue.collected) :
    (s.workers w).target? = some e ∧ s'.workerEpochs w = s.workerEpochs w := by
  obtain ⟨_, _, busy⟩ := busy_of_target target
  have pin := inv.pins .rescue (.unlinked e .removed)
    (by simpa [State.pins, RescuePc.pins] using collected)
  rcases target_of_step inv taken busy target with ⟨_, busy₀, before⟩ | ⟨linked, -⟩
  · refine ⟨before, ?_⟩
    rcases epochs_of_step taken w with ⟨_, -, stepped⟩ | ⟨-, same⟩
    · cases stepped with
      | enterEpoch => simp [target?] at target
      | leaveEpoch => simp [target?] at target
      | lookupHit pc => simp [pc] at busy₀
      | lookupMiss pc => simp [pc] at busy₀
      | _ => rfl
    · exact same
  · obtain ⟨_, walked, mem⟩ := linked
    rw [inv.shaped.unique walked] at mem
    exact absurd mem (pin.1 _)

theorem stage_of_update {workers : Nat → WorkerPc} {sect' : LeafSection}
    {stage stage' : WorkerStage} (busy : update workers w (.busy sect stage) w =
      .busy sect' stage') : stage = stage' := by
  rw [update_self] at busy
  exact (WorkerPc.busy.inj busy).2

theorem inEpoch_of_step (taken : step cfg s a = some s')
    (busy : s'.workers w = .busy sect stage) (inside : stage.inEpoch = true) :
    s'.workerEpochs w = ⟨s.globalEpoch, true⟩ ∨
      (∃ leafSection₀ stage₀, s.workers w = .busy leafSection₀ stage₀ ∧ stage₀.inEpoch = true) ∧
      s'.workerEpochs w = s.workerEpochs w := by
  rcases epochs_of_step taken w with ⟨_, -, stepped⟩ | ⟨sameWorker, same⟩
  · cases stepped with
    | enterEpoch => exact .inl (update_self ..)
    | selectNone pc | select pc | loadType pc | loadOther pc | casType pc | casFails pc
    | readEpoch pc | push pc => exact .inr ⟨⟨_, _, pc, rfl⟩, rfl⟩
    | latch | undoNext | leaveEpoch | write =>
      rw [← stage_of_update busy] at inside
      contradiction
    | unlatch => simp at busy
    | startTX pc | touch pc | commitTX pc | abortTX pc | abortDone pc | lookupHit pc
    | lookupMiss pc => exact absurd (pc.symm.trans busy) (by simp)
  · exact .inr ⟨⟨sect, stage, sameWorker.symm.trans busy, inside⟩, same⟩

namespace EpochInv

variable (inv : EpochInv cfg s)
include inv

theorem idle_of_step (taken : step cfg s a = some s')
    (outside : cfg.totalWorkersNumber ≤ w) : s'.workers w = .idle := by
  rcases epochs_of_step taken w with ⟨_, rfl, -⟩ | ⟨same, -⟩
  · simp only [step] at taken
    split at taken
    · omega
    · simp at taken
  · rw [same]
    exact inv.idle w outside

theorem entered_of_step (taken : step cfg s a = some s')
    {sect : LeafSection} (busy : s'.workers w = .busy sect stage)
    (inside : stage.inEpoch = true) : (s'.workerEpochs w).active = true ∧
      (s'.workerEpochs w).currentEpoch ≤ s'.globalEpoch := by
  have later := globalEpoch_of_step taken
  rcases inEpoch_of_step taken busy inside with published | ⟨⟨_, _, busy₀, inside₀⟩, same⟩
  · rw [published]
    exact ⟨rfl, later⟩
  · rw [same]
    have before := inv.entered w _ _ busy₀ inside₀
    exact ⟨before.1, le_trans before.2 later⟩

theorem of_target (target : (s.workers w).target? = some e) :
    w < cfg.totalWorkersNumber ∧ (s.workerEpochs w).active = true ∧
      (s.workerEpochs w).currentEpoch ≤ s.globalEpoch := by
  obtain ⟨_, _, busy⟩ := busy_of_target target
  rw [busy] at target
  refine ⟨?_, inv.entered w _ _ busy (inEpoch_of_target target)⟩
  refine Nat.lt_of_not_le fun outside => ?_
  have idle := inv.idle w outside
  rw [busy] at idle
  contradiction

theorem waits_rescue {own : RescueAction}
    (stepped : RescueStep cfg s own s') : Waits s' s'.rescue := by
  have waits := inv.waits
  cases stepped with
  | readEpoch =>
    intro w e target _
    exact (inv.of_target target).2.2
  | advanceEpoch pc =>
    rw [pc] at waits
    intro w e target collected
    exact ⟨waits w e target collected, Nat.zero_le _⟩
  | blocked pc =>
    rw [pc] at waits
    intro w e target collected
    exact ⟨(waits w e target collected).1, Nat.zero_le _⟩
  | poll pc inside passes =>
    rw [pc] at waits
    intro w e target collected
    obtain ⟨behind, next⟩ := waits w e target collected
    refine ⟨behind, lt_of_le_of_ne next ?_⟩
    intro polled
    subst polled
    simp [blocksEpoch, (inv.of_target target).2.1, behind] at passes
  | safe pc beyond =>
    rw [pc] at waits
    intro w e target collected
    have next := (waits w e target collected).2
    have inside := (inv.of_target target).1
    omega
  | nothingCollected pc all empty =>
    intro w e _ collected
    rw [empty] at collected
    contradiction
  | timeout =>
    intro w e _ collected
    contradiction
  | free pc next =>
    rw [pc] at waits
    intro w e target collected
    apply waits w e target
    rw [next]
    exact List.mem_cons_of_mem _ collected
  | _ => trivial

theorem step (shape : ShapeInv s chains) (taken : step cfg s a = some s') : EpochInv cfg s' where
  idle _ outside := inv.idle_of_step taken outside
  entered _ _ _ busy inside := inv.entered_of_step taken busy inside
  waits := by
    rcases rescue_of_step taken with ⟨_, rfl, stepped⟩ | same
    · exact inv.waits_rescue stepped
    · rw [same]
      exact inv.waits.mono fun w e target collected => collected_target shape taken target collected

end EpochInv

theorem Initial.epochInv (initial : Initial s) : EpochInv cfg s where
  idle w _ := initial.workers w
  entered w sect stage busy _ := by
    rw [initial.workers] at busy
    contradiction
  waits := by
    rw [initial.rescue]
    trivial

end TieredStore.RecordCache
