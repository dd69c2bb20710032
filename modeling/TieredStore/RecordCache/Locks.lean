import TieredStore.RecordCache.System

namespace TieredStore.RecordCache

open Transition Function State

def State.lockedShard? (config : Config) (state : State) : LockHolder → Option Nat
  | .promoter thread =>
    match state.promoters thread with
    | .deciding request _ _ _ => some (config.shardOf request.key)
    | _ => none
  | .sieve thread =>
    match state.sieves thread with
    | .locked _ shard => some shard
    | .unlinked _ shard => some shard
    | _ => none
  | .rescue =>
    match state.rescue with
    | .scanning _ shard true => some shard
    | _ => none

def LockInv (cfg : Config) (s : State) : Prop :=
  ∀ holder shard, s.lockedShard? cfg holder = some shard → s.shardMutex shard = some holder

namespace LockInv

variable {cfg : Config} {s s' : State} {shard : Nat} {t : Nat}

theorem keep (inv : LockInv cfg s) (mutex : s'.shardMutex = s.shardMutex)
    (held : ∀ holder shard, s'.lockedShard? cfg holder = some shard →
      s.lockedShard? cfg holder = some shard) : LockInv cfg s' := by
  intro holder shard locked
  rw [mutex]
  exact inv holder shard (held holder shard locked)

theorem acquire (inv : LockInv cfg s) (holder : LockHolder) (free : s.shardMutex shard = none)
    (mutex : s'.shardMutex = update s.shardMutex shard (some holder))
    (own : s'.lockedShard? cfg holder = some shard) (others : ∀ other, other ≠ holder →
      s'.lockedShard? cfg other = s.lockedShard? cfg other) : LockInv cfg s' := by
  intro other shard' locked
  rw [mutex]
  by_cases same : other = holder
  · subst same
    rw [own, Option.some.injEq] at locked
    rw [locked, update_self]
  · have held := inv other shard' (others other same ▸ locked)
    have ne : shard' ≠ shard := by
      rintro rfl
      simp [free] at held
    rwa [update_of_ne ne]

theorem release (inv : LockInv cfg s) (holder : LockHolder)
    (before : s.lockedShard? cfg holder = some shard)
    (mutex : s'.shardMutex = update s.shardMutex shard none)
    (own : s'.lockedShard? cfg holder = none) (others : ∀ other, other ≠ holder →
      s'.lockedShard? cfg other = s.lockedShard? cfg other) : LockInv cfg s' := by
  intro other shard' locked
  rw [mutex]
  by_cases same : other = holder
  · subst same
    simp [own] at locked
  · have held := inv other shard' (others other same ▸ locked)
    have ne : shard' ≠ shard := by
      rintro rfl
      rw [inv holder shard' before, Option.some.injEq] at held
      exact same held.symm
    rwa [update_of_ne ne]

theorem others_promoter {pc : PromotePc}
    (same : s'.lockedShard? cfg = (s.setPromoter t pc).lockedShard? cfg)
    (other : LockHolder) (ne : other ≠ .promoter t) :
    s'.lockedShard? cfg other = s.lockedShard? cfg other := by
  rw [same]
  cases other with
  | promoter => simp [lockedShard?, mt (congrArg LockHolder.promoter) ne]
  | _ => rfl

theorem others_sieve {pc : SievePc}
    (same : s'.lockedShard? cfg = (s.setSieve t pc).lockedShard? cfg)
    (other : LockHolder) (ne : other ≠ .sieve t) :
    s'.lockedShard? cfg other = s.lockedShard? cfg other := by
  rw [same]
  cases other with
  | sieve => simp [lockedShard?, mt (congrArg LockHolder.sieve) ne]
  | _ => rfl

theorem others_rescue (promoters : s'.promoters = s.promoters)
    (sieves : s'.sieves = s.sieves) (other : LockHolder) (ne : other ≠ .rescue) :
    s'.lockedShard? cfg other = s.lockedShard? cfg other := by
  cases other with
  | rescue => exact absurd rfl ne
  | _ => simp only [lockedShard?, promoters, sieves]

variable (inv : LockInv cfg s)
include inv

theorem keepOwn (holder : LockHolder) (mutex : s'.shardMutex = s.shardMutex)
    (own : s'.lockedShard? cfg holder = none ∨
      s'.lockedShard? cfg holder = s.lockedShard? cfg holder) (others : ∀ other, other ≠ holder →
      s'.lockedShard? cfg other = s.lockedShard? cfg other) : LockInv cfg s' := by
  refine inv.keep mutex fun other shard locked => ?_
  by_cases same : other = holder
  · subst same
    rcases own with none | same
    · simp [none] at locked
    · exact same ▸ locked
  · exact others other same ▸ locked

theorem promoteStep {a : PromoteAction} (taken : PromoteStep cfg s t a s') : LockInv cfg s' := by
  cases taken with
  | decide pc free =>
      exact inv.acquire (.promoter t) free rfl
        (by simp [lockedShard?])
        (others_promoter rfl)
  | publish pc | cancel pc | nothing pc =>
    exact inv.release (.promoter t) (by simp [lockedShard?, pc]) rfl
      (by simp [lockedShard?])
      (others_promoter rfl)
  | _ =>
    exact inv.keepOwn (.promoter t) rfl
      (.inl (by simp [lockedShard?]))
      (others_promoter rfl)

theorem sieveStep {a : SieveAction} (taken : SieveStep cfg s t a s') : LockInv cfg s' := by
  cases taken with
  | lock pc free =>
    exact inv.acquire (.sieve t) free rfl (by simp [lockedShard?]) (others_sieve rfl)
  | unlink pc =>
    exact inv.keepOwn (.sieve t) rfl
      (.inr (by simp [lockedShard?, pc]))
      (others_sieve rfl)
  | pointerMismatch pc =>
    exact inv.release (.sieve t) (by simp [lockedShard?, pc]) rfl
      (by simp [lockedShard?]) (others_sieve rfl)
  | setRemoved pc =>
    exact inv.release (.sieve t) (by simp [lockedShard?, pc]) rfl
      (by simp [lockedShard?])
      (others_sieve rfl)
  | _ =>
    exact inv.keepOwn (.sieve t) rfl
      (.inl (by simp [lockedShard?]))
      (others_sieve rfl)

theorem rescueStep {a : RescueAction} (taken : RescueStep cfg s a s') : LockInv cfg s' := by
  cases taken with
  | begin idle pc | finish pc done caller =>
    refine inv.keep rfl fun other shard locked => ?_
    cases other with
    | promoter t' =>
      simp only [lockedShard?, setPromoter, update_apply] at locked ⊢
      split at locked
      · rename_i atPromoter
        split at atPromoter
        · contradiction
        · simpa [atPromoter] using locked
      · contradiction
    | sieve => exact locked
    | rescue => simp [lockedShard?] at locked
  | lockShard pc inside free =>
    exact inv.acquire .rescue free rfl (by simp [lockedShard?]) (others_rescue rfl rfl)
  | collect pc =>
    exact inv.keepOwn .rescue rfl (.inr (by simp [lockedShard?, pc])) (others_rescue rfl rfl)
  | unlockShard pc =>
    exact inv.release .rescue (by simp [lockedShard?, pc]) rfl
      (by simp [lockedShard?]) (others_rescue rfl rfl)
  | _ => exact inv.keepOwn .rescue rfl (.inl (by simp [lockedShard?])) (others_rescue rfl rfl)

theorem step {a : Action} (taken : RecordCache.step cfg s a = some s') : LockInv cfg s' := by
  cases step_cases taken with
  | worker stepped | forward stepped | page stepped => cases stepped <;> exact inv
  | promote stepped => exact inv.promoteStep stepped
  | sieve stepped => exact inv.sieveStep stepped
  | rescue stepped => exact inv.rescueStep stepped

end LockInv

theorem Initial.lockInv {cfg : Config} {s : State} (initial : Initial s) : LockInv cfg s := by
  intro holder _ locked
  cases holder <;>
    simp [lockedShard?, initial.promoters, initial.sieves, initial.rescue] at locked

end TieredStore.RecordCache
