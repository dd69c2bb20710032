import TieredStore.BufferManager.System

namespace TieredStore.BufferManager

open Ownership Function List Op State

variable {Data : Type} {cfg : Config Data} {s s' : State Data} {count : Nat}
  {nextPid : Nat → Pid}

inductive PidPlace
  | freed (partition : Nat)
  | op (thread : ThreadId)
  | linked (pid : Pid)
  deriving DecidableEq

def Op.pids : Op → List Pid
  | .allocated _ pid => [pid]
  | .unlinked _ pid => [pid]
  | _ => []

def State.pids (state : State Data) : PidPlace → List Pid
  | .freed partition => state.freedPids partition
  | .op thread => (state.threads thread).pids
  | .linked pid => if state.swips pid = none then [] else [pid]

structure PidsOwned (count : Nat) (pids : PidPlace → List Pid) (nextPid : Nat → Pid) : Prop where
  linear : Linear pids
  bounded : ∀ place pid, pid ∈ pids place → pid < nextPid (pid % count)
  aligned : ∀ partition, partition < count → nextPid partition % count = partition

theorem PidsOwned.keep {pids pids' : PidPlace → List Pid} (owned : PidsOwned count pids nextPid)
    (same : ∀ place, pids' place = pids place) : PidsOwned count pids' nextPid := by
  rw [funext same]
  exact owned

theorem ResolveStep.pids_eq {a : ResolveAction}
    (taken : ResolveStep cfg s a s') (place : PidPlace) : s'.pids place = s.pids place := by
  cases place with
  | freed => cases taken <;> rfl
  | op t =>
    cases taken <;>
      first | rfl | exact update_view (f := s.threads) pids (by simp only [Op.pids, *]) t
  | linked pid =>
    cases taken <;>
      first
      | rfl
      | exact update_view (f := s.swips) (fun swip => if swip = none then [] else [pid])
          (by simp only [*, reduceCtorEq]) pid

theorem ProviderStep.pids_eq {a : ProviderAction} (taken : ProviderStep s a s') (place : PidPlace) :
    s'.pids place = s.pids place := by
  cases place with
  | freed => cases taken <;> rfl
  | op t =>
    cases taken <;>
      first | rfl | exact update_view (f := s.threads) pids (by simp only [Op.pids, *]) t
  | linked pid =>
    cases taken <;>
      first
      | rfl
      | exact update_view (f := s.swips) (fun swip => if swip = none then [] else [pid])
          (by simp only [*, reduceCtorEq]) pid

theorem PidsOwned.pass {pids pids' : PidPlace → List Pid}
    (owned : PidsOwned count pids nextPid) {involved : List PidPlace}
    {lost : List Pid} (passes : Passes involved pids pids' lost) :
    PidsOwned count pids' nextPid where
  linear := passes.linear owned.linear
  aligned := owned.aligned
  bounded := by
    intro place pid has
    by_cases isInvolved : place ∈ involved
    · obtain ⟨owner, -, had⟩ := passes.before isInvolved has
      exact owned.bounded owner pid had
    · exact owned.bounded place pid (passes.others place isInvolved ▸ has)

variable {t : ThreadId} {pid : Pid} {op : Op} {partition : Nat}

theorem PidsOwned.unlinked (owned : PidsOwned cfg.dramPartitionsCount s.pids s.nextPid)
    (has : pid ∈ (s.threads t).pids) : s.swips pid = none := by
  by_contra linked
  have inTree : pid ∈ s.pids (.linked pid) := by simp [State.pids, linked]
  cases owned.linear.unique (.op t) (.linked pid) pid has inTree

theorem State.pids_of_not_mem {swip : Option Swip} (threads : s'.threads = update s.threads t op)
    (swips : s'.swips = update s.swips pid swip)
    (freedPids : s'.freedPids = s.freedPids) (place : PidPlace)
    (other : place ∉ [.op t, .linked pid]) : s'.pids place = s.pids place := by
  cases place with
  | freed partition => exact congrFun freedPids partition
  | op another =>
    have ne : another ≠ t := by simpa using other
    simp [pids, threads, ne]
  | linked another =>
    have ne : another ≠ pid := by simpa using other
    simp [pids, swips, ne]

theorem State.pids_of_not_mem_freed {freed : List Pid}
    (threads : s'.threads = update s.threads t op) (swips : s'.swips = s.swips)
    (freedPids : s'.freedPids = update s.freedPids partition freed)
    (place : PidPlace) (other : place ∉ [.op t, .freed partition]) :
    s'.pids place = s.pids place := by
  cases place with
  | freed another =>
    have ne : another ≠ partition := by simpa using other
    simp [pids, freedPids, ne]
  | op another =>
    have ne : another ≠ t := by simpa using other
    simp [pids, threads, ne]
  | linked => simp [pids, swips]

section

variable (owned : PidsOwned cfg.dramPartitionsCount s.pids s.nextPid)
include owned

theorem PidsOwned.keepOp (same : op.pids = (s.threads t).pids)
    (threads : s'.threads = update s.threads t op)
    (swips : s'.swips = s.swips) (freedPids : s'.freedPids = s.freedPids) :
    PidsOwned cfg.dramPartitionsCount s'.pids s.nextPid := by
  refine owned.keep fun place => ?_
  cases place with
  | freed partition => exact congrFun freedPids partition
  | op another =>
    simp only [State.pids, threads]
    exact update_view Op.pids same another
  | linked => simp only [State.pids, swips]

theorem PidsOwned.issueFresh {bf : FrameId} (inRange : partition < cfg.dramPartitionsCount)
    (threads : s'.threads = update s.threads t (.allocated bf (s.nextPid partition)))
    (swips : s'.swips = s.swips) (freedPids : s'.freedPids = s.freedPids) :
    PidsOwned cfg.dramPartitionsCount s'.pids (update s.nextPid partition
        (s.nextPid partition + cfg.dramPartitionsCount)) := by
  have aligned := owned.aligned partition inRange
  have gained : s'.pids (.op t) = [s.nextPid partition] := by
    simp [State.pids, threads, Op.pids]
  have others : ∀ place, place ≠ .op t → s'.pids place = s.pids place := by
    intro place other
    cases place with
    | freed another => exact congrFun freedPids another
    | op another =>
      have ne : another ≠ t := fun same => other (congrArg _ same)
      simp [State.pids, threads, ne]
    | linked => simp only [State.pids, swips]
  constructor
  · refine owned.linear.acquire (.op t) (nodup_singleton (s.nextPid partition)) ?_ ?_ others
    · intro pid isFresh place had
      have below := owned.bounded place pid had
      rw [mem_singleton.mp isFresh, aligned] at below
      exact lt_irrefl _ below
    · rw [gained]
      exact (sublist_append_left _ _).subperm
  · intro place pid has
    by_cases isOp : place = .op t
    · subst isOp
      rw [gained, mem_singleton] at has
      rw [has, aligned, update_self]
      exact Nat.lt_add_of_pos_right (Nat.zero_lt_of_lt inRange)
    · rw [others place isOp] at has
      have below := owned.bounded place pid has
      by_cases same : pid % cfg.dramPartitionsCount = partition
      · rw [same] at below ⊢
        rw [update_self]
        exact Nat.lt_add_right _ below
      · rwa [update_of_ne same]
  · intro another anotherInRange
    by_cases same : another = partition
    · subst same
      rw [update_self, Nat.add_mod_right, aligned]
    · rw [update_of_ne same]
      exact owned.aligned another anotherInRange

theorem PageStep.pidsOwned {a : PageAction Data} (taken : PageStep cfg s a s') :
    PidsOwned cfg.dramPartitionsCount s'.pids s'.nextPid := by
  cases taken with
  | tryPop _ isIdle => exact owned.keepOp (by rw [isIdle]; rfl) rfl rfl rfl
  | @initNewPage t partition bf pid _ isAllocating inRange issues =>
    cases issues with
    | freed isFreed =>
      refine owned.pass (?_ : Passes [.op t, .freed partition] s.pids _ [])
      refine ⟨by simp, ?_, pids_of_not_mem_freed rfl rfl rfl⟩
      simp [State.pids, isAllocating, isFreed, Op.pids, setOp, setFrame,
        countIssue, setLatest, setFreedPids]
    | fresh => exact owned.issueFresh inRange rfl rfl rfl
  | modifyNew => exact owned
  | @link t parent pid bf _ isAllocated =>
    have has : pid ∈ (s.threads t).pids := by simp [isAllocated, Op.pids]
    refine owned.pass (?_ : Passes [.op t, .linked pid] s.pids _ [])
    refine ⟨by simp, ?_, pids_of_not_mem rfl rfl rfl⟩
    simp [State.pids, isAllocated, owned.unlinked has, Op.pids, setOp, setSwip, setChildren]
  | @createMeta t pid bf isAllocated =>
    have has : pid ∈ (s.threads t).pids := by simp [isAllocated, Op.pids]
    refine owned.pass (?_ : Passes [.op t, .linked pid] s.pids _ [])
    refine ⟨by simp, ?_, pids_of_not_mem rfl rfl rfl⟩
    simp [State.pids, isAllocated, owned.unlinked has, Op.pids, setOp, setSwip]
  | discard isAllocated => exact owned.keepOp (by rw [isAllocated]; rfl) rfl rfl rfl
  | modify => exact owned
  | moveChild => exact owned
  | @unlink t parent pid bf isHot isIdle =>
    refine owned.pass (?_ : Passes [.op t, .linked pid] s.pids _ [])
    refine ⟨by simp, ?_, pids_of_not_mem rfl rfl rfl⟩
    simp [State.pids, isIdle, isHot, Op.pids, setOp, setSwip, setChildren]
  | @recycle t pid bf isUnlinked =>
    refine owned.pass (?_ : Passes [.op t, .freed (pid % cfg.dramPartitionsCount)] s.pids _ [])
    refine ⟨by simp, ?_, pids_of_not_mem_freed rfl rfl rfl⟩
    simp [State.pids, isUnlinked, Op.pids, setOp, setFreedPids]
  | @retire t pid bf isUnlinked =>
    refine owned.pass (?_ : Passes [.op t, .linked pid] s.pids _ [pid])
    refine ⟨by simp, ?_, pids_of_not_mem rfl
      (update_eq_self pid s.swips).symm rfl⟩
    simp [State.pids, isUnlinked, Op.pids, setOp]
  | reclaimWritten isReclaiming | reclaimFrame isReclaiming =>
    exact owned.keepOp (by rw [isReclaiming]; rfl) rfl rfl rfl

theorem Step.pidsOwned {a : Action Data} (taken : Step cfg s a s') :
    PidsOwned cfg.dramPartitionsCount s'.pids s'.nextPid := by
  cases taken with
  | resolve taken | provide taken =>
    have nextPid : s'.nextPid = s.nextPid := by cases taken <;> rfl
    rw [nextPid]
    exact owned.keep taken.pids_eq
  | page taken => exact taken.pidsOwned owned

end

theorem Initial.pidsOwned (initial : Initial cfg s) :
    PidsOwned cfg.dramPartitionsCount s.pids s.nextPid := by
  have none : ∀ place, s.pids place = [] := by
    intro place
    cases place with
    | freed partition => exact initial.noneFreed partition
    | op => simp [State.pids, initial.allIdle, Op.pids]
    | linked pid => simp [State.pids, (initial.noPage pid).1]
  refine ⟨⟨fun place => ?_, fun first second pid has => ?_⟩, fun place pid has => ?_,
    fun partition inRange => ?_⟩
  · rw [none]
    exact nodup_nil
  · rw [none] at has
    cases has
  · rw [none] at has
    cases has
  · rw [initial.firstPid, Nat.mod_eq_of_lt inRange]

end TieredStore.BufferManager
