import TieredStore.BufferManager.Guards

namespace TieredStore.BufferManager

open Function (update update_self update_of_ne)
open Ownership List State

variable {Data : Type} {cfg : Config Data} {s s' : State Data}
  {a : Action Data}

structure Inv (cfg : Config Data) (s : State Data) : Prop where
  pids : PidsOwned cfg.dramPartitionsCount s.pids s.nextPid
  io : s.IoInv
  placed : s.Placed
  guards : s.GuardInv
  linked : s.CoolLinked
  flags : s.FlagInv

theorem ProviderStep.unread {a : ProviderAction} (guards : s.GuardInv)
    (evictsUnread : EvictsUnread s (.provide a))
    (taken : ProviderStep s a s') (pid : Pid) (present : ¬ s.Evicted pid)
    (evicted : s'.Evicted pid) : s.ioTable pid = none := by
  cases taken with
  | @evict t parent evictedPid bf v isChecked _ _ unchanged =>
    by_cases same : pid = evictedPid
    · have valid : Guard.Valid ⟨.evict, bf, evictedPid, v⟩ s :=
        guards.valid t _ (by rw [isChecked]; rfl) unchanged
      exact same ▸ valid.unread
    · exact absurd ((evicted_setSwip rfl pid same).mp evicted) present
  | @evictWritten t parent bf isAfterWrite =>
    by_cases same : pid = (s.frames bf).pid
    · simp only [EvictsUnread, isAfterWrite] at evictsUnread
      exact same ▸ evictsUnread
    · exact absurd ((evicted_setSwip rfl pid same).mp evicted) present
  | @cool parent cooled =>
    by_cases same : pid = cooled
    · subst same
      simp [Evicted, setSwip] at evicted
    · exact absurd ((evicted_setSwip rfl pid same).mp evicted) present
  | @demote t parent demoted =>
    by_cases same : pid = demoted
    · subst same
      simp [Evicted, setOp, setBatch, setSwip] at evicted
    · exact absurd ((evicted_setSwip rfl pid same).mp evicted) present
  | @promote parent promoted =>
    by_cases same : pid = promoted
    · subst same
      simp [Evicted, push, setFree, setSwip] at evicted
    · exact absurd ((evicted_setSwip rfl pid same).mp evicted) present
  | _ => exact absurd evicted present

/-- What a step loses: nothing but the free frame of an abandoned demotion, if no frame is
reclaimed under write-back. -/
theorem Inv.moves (inv : Inv cfg s) (reclaimsUnwritten : ReclaimsUnwritten s a)
    (taken : Step cfg s a s') : ∃ involved lost, Moves s s' involved lost ∧
      (∀ bf ∈ lost, (s'.frames bf).state = .free) ∧ (KeepsTarget a → lost = []) := by
  cases taken with
  | resolve taken =>
    obtain ⟨involved, moves⟩ := taken.moves inv.placed inv.io
    exact ⟨involved, [], moves, by simp, fun _ => rfl⟩
  | page taken =>
    obtain ⟨involved, lost, moves, kept⟩ := taken.moves inv.pids inv.placed
    have noneLost := kept reclaimsUnwritten
    exact ⟨involved, lost, moves, by simp [noneLost], fun _ => noneLost⟩
  | @provide a _ taken =>
    by_cases isAbandon : ∃ t, a = .abandon t
    · obtain ⟨t, rfl⟩ := isAbandon
      cases taken with
      | @abandon _ _ bf target v isDemoting =>
        have isFree : (s.frames target).state = .free :=
          inv.placed.op isDemoting (mem_singleton_self target)
        exact ⟨_, _, .abandon isDemoting, forall_mem_singleton.mpr isFree, False.elim⟩
    · obtain ⟨involved, lost, moves, kept⟩ := taken.moves inv.placed
      have noneLost := kept fun t isThis => isAbandon ⟨t, isThis⟩
      exact ⟨involved, lost, moves, by simp [noneLost], fun _ => noneLost⟩

theorem Inv.step (inv : Inv cfg s) (evictsUnread : EvictsUnread s a)
    (clearsUnguarded : ClearsUnguarded s a) (taken : Step cfg s a s') : Inv cfg s' := by
  have pids := taken.pidsOwned inv.pids
  cases taken with
  | resolve taken =>
    obtain ⟨involved, moves⟩ := taken.moves inv.placed inv.io
    exact ⟨pids, taken.ioInv inv.io, moves.placed inv.placed,
      taken.guardInv inv.guards inv.linked inv.placed, taken.coolLinked inv.linked,
      taken.flagInv inv.flags inv.placed⟩
  | provide taken =>
    obtain ⟨involved, lost, moves, -⟩ := taken.moves inv.placed
    exact ⟨pids, taken.ioInv inv.io (taken.unread inv.guards evictsUnread), moves.placed inv.placed,
      taken.guardInv inv.guards inv.linked inv.placed inv.flags.written,
      taken.coolLinked inv.linked inv.placed, taken.flagInv inv.flags inv.guards⟩
  | page taken =>
    obtain ⟨involved, lost, moves, -⟩ := taken.moves inv.pids inv.placed
    exact ⟨pids, taken.ioInv inv.io inv.pids, moves.placed inv.placed,
      taken.guardInv inv.guards inv.linked inv.placed clearsUnguarded,
      taken.coolLinked inv.linked inv.pids, taken.flagInv inv.flags⟩

variable (initial : Initial cfg s)
include initial

theorem Initial.mem_held {place : Place} {bf : FrameId}
    (has : bf ∈ s.held place) : ∃ list, place = .free list ∧ bf ∈ s.free list := by
  cases place with
  | free list => exact ⟨list, rfl, has⟩
  | batch => simp [held, holding, initial.noBatch] at has
  | op => simp [held, holding, initial.allIdle, Op.holding] at has
  | swip pid => simp [held, holding, (initial.noPage pid).1, Swip.holding] at has
  | ready => simp [held, holding, ready, initial.noRead] at has

theorem Initial.placed : s.Placed := by
  refine ⟨⟨fun place => ?_, fun first second bf inFirst inSecond => ?_⟩, fun place bf has => ?_⟩
  · cases place with
    | free list => exact initial.linear.nodup list
    | batch => simp [held, holding, initial.noBatch]
    | op => simp [held, holding, initial.allIdle, Op.holding]
    | swip pid => simp [held, holding, (initial.noPage pid).1, Swip.holding]
    | ready => simp [held, holding, ready, initial.noRead]
  · obtain ⟨list, rfl, inList⟩ := initial.mem_held inFirst
    obtain ⟨list', rfl, inList'⟩ := initial.mem_held inSecond
    rw [initial.linear.unique list list' bf inList inList']
  · obtain ⟨list, rfl, -⟩ := initial.mem_held has
    exact (initial.allFree bf).1

theorem Initial.inv : Inv cfg s :=
  ⟨initial.pidsOwned, initial.ioInv, initial.placed, initial.guardInv, initial.coolLinked,
    initial.flagInv⟩

end TieredStore.BufferManager
