import TieredStore.BufferManager.Invariant

namespace TieredStore.BufferManager

open Function (update update_self update_of_ne)
open Ownership List Op State

variable {Data : Type} {cfg : Config Data} {s s' : State Data}
  {a : Action Data} {pid : Pid}

def State.Present (s : State Data) : Prop :=
  ∀ bf, (s.frames bf).state ≠ .free → ∃ place, bf ∈ s.held place

theorem Moves.present {involved : List Place} {lost : List FrameId}
    (moves : Moves s s' involved lost) (present : s.Present)
    (lostFree : ∀ bf ∈ lost, (s'.frames bf).state = .free) : s'.Present := by
  intro bf hasPage
  have had : ∃ place, bf ∈ s.held place := by
    by_cases touched : ∃ place ∈ involved, bf ∈ s.held place
    · obtain ⟨place, -, had⟩ := touched
      exact ⟨place, had⟩
    · have elsewhere : ∀ place ∈ involved, bf ∉ s.held place := fun place isInvolved had =>
        touched ⟨place, isInvolved, had⟩
      rw [(moves.headers bf elsewhere).1] at hasPage
      exact present bf hasPage
  obtain ⟨place, had⟩ := had
  rcases moves.passes.kept had with isLost | has
  · exact absurd (lostFree bf isLost) hasPage
  · exact has

theorem Inv.present (inv : Inv cfg s) (present : s.Present)
    (reclaimsUnwritten : ReclaimsUnwritten s a) (taken : Step cfg s a s') : s'.Present := by
  obtain ⟨_, _, moves, lostFree, -⟩ := inv.moves reclaimsUnwritten taken
  exact moves.present present lostFree

def Op.uses : Op → List Pid
  | .allocated _ pid => [pid]
  | .unlinked _ pid => [pid]
  | .reclaiming _ pid => [pid]
  | _ => []

def State.uses (state : State Data) : PidPlace → List Pid
  | .freed _ => []
  | .op thread => (state.threads thread).uses
  | .linked pid => if state.swips pid = none then [] else [pid]

theorem ResolveStep.uses_eq {a : ResolveAction}
    (taken : ResolveStep cfg s a s') (place : PidPlace) : s'.uses place = s.uses place := by
  cases place with
  | freed => rfl
  | op t =>
    cases taken <;>
      first | rfl | exact update_view (f := s.threads) uses (by simp only [Op.uses, *]) t
  | linked pid => exact taken.pids_eq (.linked pid)

theorem ProviderStep.uses_eq {a : ProviderAction} (taken : ProviderStep s a s') (place : PidPlace) :
    s'.uses place = s.uses place := by
  cases place with
  | freed => rfl
  | op t =>
    cases taken <;>
      first | rfl | exact update_view (f := s.threads) uses (by simp only [Op.uses, *]) t
  | linked pid => exact taken.pids_eq (.linked pid)

theorem Issues.unused {partition : Nat} {issuing : State Data}
    (issues : Issues cfg s partition pid issuing) (inRange : partition < cfg.dramPartitionsCount)
    (owned : PidsOwned cfg.dramPartitionsCount s.pids s.nextPid)
    (reclaimed : ∀ t bf, s.threads t ≠ .reclaiming bf pid) (place : PidPlace) :
    pid ∉ s.uses place := by
  intro used
  have owner : ∃ place, (∀ partition, place ≠ .freed partition) ∧ pid ∈ s.pids place := by
    cases place with
    | freed => cases used
    | linked linked => exact ⟨.linked linked, by simp, used⟩
    | op t =>
      refine ⟨.op t, by simp, ?_⟩
      simp only [State.uses] at used
      simp only [State.pids]
      cases isOp : s.threads t with
      | reclaiming bf =>
        rw [isOp, Op.uses, mem_singleton] at used
        exact absurd (used ▸ isOp) (reclaimed t bf)
      | _ =>
        rw [isOp] at used
        exact used
  obtain ⟨place, notFreed, had⟩ := owner
  cases issues with
  | @freed _ _ isFreed =>
    have isIn : pid ∈ s.pids (.freed partition) := by simp [State.pids, isFreed]
    exact notFreed partition (owned.linear.unique place (.freed partition) pid had isIn)
  | fresh =>
    have below := owned.bounded place _ had
    rw [owned.aligned partition inRange] at below
    exact lt_irrefl _ below

section Uses

variable {t : ThreadId} {pid : Pid} {op : Op} {swip : Option Swip}

theorem State.uses_linear_pass (linear : Linear s.uses)
    (conserved : ((s.threads t).uses ++ s.uses (.linked pid)).Perm
      (op.uses ++ if swip = none then [] else [pid])) (threads : s'.threads = update s.threads t op)
    (swips : s'.swips = update s.swips pid swip) : Linear s'.uses := by
  have passes : Passes [.op t, .linked pid] s.uses s'.uses [] := by
    refine ⟨by simp, ?_, fun place other => ?_⟩
    · simpa [uses, threads, swips] using conserved
    · cases place with
      | freed => rfl
      | op another =>
        have ne : another ≠ t := by simpa using other
        simp [uses, threads, ne]
      | linked another =>
        have ne : another ≠ pid := by simpa using other
        simp [uses, swips, ne]
  exact passes.linear linear

theorem State.uses_linear_op (linear : Linear s.uses) (fewer : op.uses.Subperm (s.threads t).uses)
    (threads : s'.threads = update s.threads t op)
    (swips : s'.swips = s.swips) : Linear s'.uses := by
  refine linear.release (.op t) ?_ fun place other => ?_
  · simpa [uses, threads] using fewer
  · cases place with
    | freed => rfl
    | op another =>
      have ne : another ≠ t := fun same => other (same ▸ rfl)
      simp [uses, threads, ne]
    | linked => simp [uses, swips]

end Uses

section

variable (owned : PidsOwned cfg.dramPartitionsCount s.pids s.nextPid)
include owned

theorem PageStep.uses_linear {a : PageAction Data} (linear : Linear s.uses)
    (issuesReclaimed : IssuesReclaimed cfg s (.page a))
    (taken : PageStep cfg s a s') : Linear s'.uses := by
  cases taken with
  | tryPop _ isIdle => exact uses_linear_op linear (by rw [isIdle]; exact .refl _) rfl rfl
  | @initNewPage t _ bf pid _ _ inRange issues isNext =>
    have unused := issues.unused inRange owned fun other frame =>
      isNext ▸ issuesReclaimed other frame
    refine linear.acquire (.op t) (nodup_singleton pid) ?_ ?_ fun place other => ?_
    · intro _ isPid place
      exact mem_singleton.mp isPid ▸ unused place
    · simp [State.uses, setOp, Op.uses]
    · cases issues <;> cases place with
      | freed => rfl
      | op another =>
        have ne : another ≠ t := fun same => other (same ▸ rfl)
        simp [State.uses, setOp, setFrame, countIssue, setLatest, setFreedPids, setNextPid, ne]
      | linked => rfl
  | modifyNew => exact linear
  | @link t parent pid bf _ isAllocated | @createMeta t pid bf isAllocated =>
    have unlinked : s.swips pid = none :=
      owned.unlinked (by rw [isAllocated]; exact mem_singleton_self pid)
    exact uses_linear_pass linear (by simp [State.uses, isAllocated, unlinked, Op.uses]) rfl rfl
  | discard isAllocated => exact uses_linear_op linear (by rw [isAllocated]; exact .refl _) rfl rfl
  | modify => exact linear
  | moveChild => exact linear
  | @unlink t parent pid bf isHot isIdle =>
    exact uses_linear_pass linear (by simp [State.uses, isIdle, isHot, Op.uses]) rfl rfl
  | recycle isUnlinked | retire isUnlinked =>
    exact uses_linear_op linear (by rw [isUnlinked]; exact .refl _) rfl rfl
  | reclaimWritten | reclaimFrame =>
    refine uses_linear_op linear ?_ rfl rfl
    exact nil_subperm

theorem Step.uses_linear (linear : Linear s.uses) (issuesReclaimed : IssuesReclaimed cfg s a)
    (taken : Step cfg s a s') : Linear s'.uses := by
  cases taken with
  | resolve taken => exact funext taken.uses_eq ▸ linear
  | provide taken => exact funext taken.uses_eq ▸ linear
  | page taken => exact taken.uses_linear owned linear issuesReclaimed

end

theorem Initial.uses_linear (initial : Initial cfg s) : Linear s.uses := by
  have none : s.uses = fun _ => [] := by
    funext place
    cases place with
    | freed => rfl
    | op => simp [State.uses, initial.allIdle, Op.uses]
    | linked pid => simp [State.uses, (initial.noPage pid).1]
  exact none ▸ Linear.nothing

inductive State.Resident (s : State Data) (bf : FrameId) (pid : Pid) : Prop
  | op {t} (uses : (s.threads t).uses = [pid]) (holds : (s.threads t).holding.frames = [bf])
  | swizzled (isSwip : s.swips pid = some (.hot bf) ∨ s.swips pid = some (.cool bf))
  | loading {t stage e} (isLoading : s.threads t = .loading stage pid e bf)
  | ready (isReady : s.ready pid = some bf)

variable {bf : FrameId} {t : ThreadId}

theorem Op.resident {op : Op} {frame : BufferFrame Data} (has : bf ∈ op.holding.frames)
    (fits : op.holding.status.Fits frame) (hasPage : frame.state ≠ .free) :
    (op.uses = [frame.pid] ∧ op.holding.frames = [bf]) ∨
      ∃ stage e, op = .loading stage frame.pid e bf := by
  cases op with
  | loading stage pid e loaded =>
    cases stage with
    | reading => exact absurd fits hasPage
    | loaded | installing => exact .inr ⟨_, e, by rw [fits.2, mem_singleton.mp has]⟩
  | demoting => exact absurd fits hasPage
  | allocating => exact absurd fits hasPage
  | allocated | unlinked | reclaiming =>
    exact .inl ⟨by rw [fits.2, uses], by rw [mem_singleton.mp has, holding]⟩
  | _ => cases has

theorem State.Placed.resident (placed : s.Placed) (present : s.Present)
    (hasPage : (s.frames bf).state ≠ .free) : s.Resident bf (s.frames bf).pid := by
  obtain ⟨place, has⟩ := present bf hasPage
  have fits := placed.fits place bf has
  cases place with
  | free => exact absurd fits hasPage
  | batch => exact absurd fits hasPage
  | swip pid =>
    simp only [held, holding] at has fits
    cases isSwip : s.swips pid with
    | none => simp [isSwip, Swip.holding] at has
    | some swip =>
      cases swip with
      | evicted => simp [isSwip, Swip.holding] at has
      | hot | cool =>
        simp only [isSwip, Swip.holding, mem_singleton] at has fits
        rw [fits.2]
        exact .swizzled (by simp [isSwip, has])
  | ready =>
    simp only [held, holding, Option.mem_toList] at has
    rw [fits.2]
    exact .ready has
  | op =>
    rcases Op.resident has fits hasPage with ⟨uses, holds⟩ | ⟨_, e, isLoading⟩
    · exact .op uses holds
    · exact .loading isLoading

theorem State.IoInv.evicted_of_ready (io : s.IoInv)
    (isReady : s.ready pid = some bf) : s.swips pid = some .evicted := by
  cases present : s.ioTable pid with
  | none =>
    rw [ready_of_absent present] at isReady
    cases isReady
  | some e =>
    rw [ready_of_present present] at isReady
    obtain ⟨_, -, -, finished⟩ := io.entry pid e present
    by_contra swizzled
    rw [(finished swizzled).noFrame] at isReady
    cases isReady

theorem State.IoInv.evicted_of_loading (io : s.IoInv) {stage : LoadStage}
    {e : EntryId} (isLoading : s.threads t = .loading stage pid e bf) :
    s.swips pid = some .evicted := by
  obtain ⟨present, -, isLoader⟩ := io.partOf isLoading (if_pos ⟨rfl, rfl⟩)
  exact (io.entry pid e present).evicted_of_loader isLoader

theorem State.IoInv.loading_unique (io : s.IoInv) {t t' : ThreadId}
    {stage stage' : LoadStage} {e e' : EntryId} {bf' : FrameId}
    (isLoading : s.threads t = .loading stage pid e bf)
    (isLoading' : s.threads t' = .loading stage' pid e' bf') : bf = bf' := by
  obtain ⟨present, -, isLoader⟩ := io.partOf isLoading (if_pos ⟨rfl, rfl⟩)
  obtain ⟨present', -, isLoader'⟩ := io.partOf isLoading' (if_pos ⟨rfl, rfl⟩)
  obtain rfl : e = e' := by simpa [present] using present'
  obtain rfl := (io.entry pid e present).loader_unique isLoader isLoader'
  rw [isLoading] at isLoading'
  cases isLoading'
  rfl

theorem State.unlinked_of_uses (linear : Linear s.uses)
    (uses : (s.threads t).uses = [pid]) : s.swips pid = none := by
  by_contra linked
  have byOp : pid ∈ s.uses (.op t) := by simp [State.uses, uses]
  have byTree : pid ∈ s.uses (.linked pid) := by simp [State.uses, linked]
  cases linear.unique _ _ pid byOp byTree

namespace State.Resident

variable {bf bf' : FrameId} {pid : Pid}

theorem swip_eq (resident : s.Resident bf pid) (io : s.IoInv) (linear : Linear s.uses) :
    (s.swips pid = none ∧ ∃ t, (s.threads t).uses = [pid] ∧ (s.threads t).holding.frames = [bf]) ∨
    s.swips pid = some (.hot bf) ∨ s.swips pid = some (.cool bf) ∨
    (s.swips pid = some .evicted ∧ ((∃ t stage e,
      s.threads t = .loading stage pid e bf) ∨ s.ready pid = some bf)) := by
  cases resident with
  | op uses holds => exact .inl ⟨unlinked_of_uses linear uses, _, uses, holds⟩
  | swizzled isSwip =>
    rcases isSwip with isHot | isCool
    · exact .inr (.inl isHot)
    · exact .inr (.inr (.inl isCool))
  | loading isLoading =>
    exact .inr (.inr (.inr ⟨io.evicted_of_loading isLoading, .inl ⟨_, _, _, isLoading⟩⟩))
  | ready isReady => exact .inr (.inr (.inr ⟨io.evicted_of_ready isReady, .inr isReady⟩))

theorem unique (first : s.Resident bf pid) (second : s.Resident bf' pid)
    (io : s.IoInv) (linear : Linear s.uses) : bf = bf' := by
  have second := second.swip_eq io linear
  rcases first.swip_eq io linear with ⟨isSwip, t, uses, holds⟩ | isSwip | isSwip | ⟨isSwip, source⟩
  all_goals simp only [isSwip, reduceCtorEq, Option.some.injEq, Swip.hot.injEq, Swip.cool.injEq,
    false_and, true_and, false_or, or_false] at second
  · obtain ⟨t', uses', holds'⟩ := second
    have byOp : pid ∈ s.uses (.op t) := by simp [State.uses, uses]
    have byOp' : pid ∈ s.uses (.op t') := by simp [State.uses, uses']
    cases linear.unique _ _ pid byOp byOp'
    simpa [holds] using holds'
  · exact second
  · exact second
  · rcases source with ⟨_, _, _, isLoading⟩ | isReady <;>
      rcases second with ⟨_, _, _, isLoading'⟩ | isReady'
    · exact io.loading_unique isLoading isLoading'
    · rw [(io.ready_of_loader isLoading).2] at isReady'
      cases isReady'
    · rw [(io.ready_of_loader isLoading').2] at isReady
      cases isReady
    · exact Option.some.inj (isReady.symm.trans isReady')

end State.Resident

structure State.Residency (s : State Data) : Prop where
  unique : ∀ bf bf', (s.frames bf).state ≠ .free → (s.frames bf').state ≠ .free →
    (s.frames bf).pid = (s.frames bf').pid → bf = bf'
  used : ∀ bf, (s.frames bf).state ≠ .free → ∃ place, (s.frames bf).pid ∈ s.uses place
  evicted : ∀ bf, (s.frames bf).state ≠ .free →
    s.swips (s.frames bf).pid = some .evicted → (s.frames bf).state = .loaded

theorem Inv.residency (inv : Inv cfg s) (present : s.Present)
    (linear : Linear s.uses) : s.Residency := by
  refine ⟨fun bf bf' hasPage hasPage' same => ?_, fun bf hasPage => ?_,
    fun bf hasPage isEvicted => ?_⟩
  · have first := inv.placed.resident present hasPage
    rw [same] at first
    exact first.unique (inv.placed.resident present hasPage') inv.io linear
  · have linked : ∀ swip, s.swips (s.frames bf).pid = some swip →
        ∃ place, (s.frames bf).pid ∈ s.uses place := by
      intro swip isSwip
      exact ⟨.linked (s.frames bf).pid, by simp [State.uses, isSwip]⟩
    rcases (inv.placed.resident present hasPage).swip_eq inv.io linear with
      ⟨-, t, uses, -⟩ | isSwip | isSwip | ⟨isSwip, -⟩
    · exact ⟨.op t, by simp [State.uses, uses]⟩
    · exact linked _ isSwip
    · exact linked _ isSwip
    · exact linked _ isSwip
  · have resident := (inv.placed.resident present hasPage).swip_eq inv.io linear
    simp only [isEvicted, reduceCtorEq, Option.some.injEq, false_and, true_and, false_or]
      at resident
    rcases resident with ⟨t, stage, e, isLoading⟩ | isReady
    · have has : bf ∈ (loading stage (s.frames bf).pid e bf).holding.frames := by
        cases stage <;> exact mem_singleton_self bf
      have fits := inv.placed.op isLoading has
      cases stage with
      | reading => exact absurd fits hasPage
      | loaded => exact fits.1
      | installing => exact fits.1
    · exact (inv.placed.loaded isReady).1

end TieredStore.BufferManager
