import TieredStore.BufferManager.Movement

namespace TieredStore.BufferManager

open List BufferFrame State

open Function (update update_self update_of_ne)

variable {Data : Type} {cfg : Config Data} {s s' : State Data} {bf : FrameId}
  {first second : FrameId}

structure Guard.Valid (guard : Guard) (s : State Data) : Prop where
  isCool : (s.frames guard.bf).state = .cool
  samePid : (s.frames guard.bf).pid = guard.pid
  unwritten : (s.frames guard.bf).isBeingWrittenBack = false
  unread : s.ioTable guard.pid = none
  admitted : guard.purpose.admits (s.frames guard.bf) = true

structure State.GuardInv (s : State Data) : Prop where
  version_le : ∀ t guard, (s.threads t).guard = some guard →
    guard.version ≤ (s.frames guard.bf).version
  valid : ∀ t guard, (s.threads t).guard = some guard →
    (s.frames guard.bf).version = guard.version → guard.Valid s

structure Quiet (frame frame' : BufferFrame Data) : Prop where
  version_le : frame.version ≤ frame'.version
  same : frame'.version = frame.version → frame.state = .cool →
    frame.isBeingWrittenBack = false → frame' = frame

namespace Quiet

variable {frame frame' : BufferFrame Data}

theorem refl (frame : BufferFrame Data) : Quiet frame frame := ⟨le_refl _, fun _ _ _ => rfl⟩

theorem of_unlock (bumped : frame'.version = frame.version + 1) : Quiet frame frame' :=
  ⟨by omega, fun same => by omega⟩

theorem of_state {frameState : FrameState} (isState : frame.state = frameState)
    (notCool : frameState ≠ .cool) (sameVersion : frame'.version = frame.version) :
    Quiet frame frame' :=
  ⟨le_of_eq sameVersion.symm, fun _ isCool => absurd (isState.symm.trans isCool) notCool⟩

theorem update (frames : s'.frames = Function.update s.frames bf frame')
    (quiet : Quiet (s.frames bf) frame') (other : FrameId) :
    Quiet (s.frames other) (s'.frames other) := by
  rw [frames]
  by_cases same : other = bf
  · rw [same, update_self]
    exact quiet
  · rw [update_of_ne same]
    exact refl _

theorem update_update {frame'' : BufferFrame Data} (frames : s'.frames =
      Function.update (Function.update s.frames first frame') second frame'')
    (firstQuiet : Quiet (s.frames first) frame')
    (secondQuiet : Quiet (s.frames second) frame'') (other : FrameId) :
    Quiet (s.frames other) (s'.frames other) := by
  rw [frames]
  by_cases same : other = second
  · rw [same, update_self]
    exact secondQuiet
  · rw [update_of_ne same]
    by_cases sameFirst : other = first
    · rw [sameFirst, update_self]
      exact firstQuiet
    · rw [update_of_ne sameFirst]
      exact refl _

end Quiet

variable {a : ResolveAction} {guard : Guard} {frame : BufferFrame Data}

theorem ResolveStep.quiet (placed : s.Placed) (taken : ResolveStep cfg s a s')
    (bf : FrameId) : Quiet (s.frames bf) (s'.frames bf) := by
  cases taken with
  | warm | takeReadyLast | takeReady => exact .update rfl (.of_unlock rfl) bf
  | @readPage _ _ _ read isReading =>
    have isFree : (s.frames read).state = .free := placed.op isReading (mem_singleton_self read)
    apply Quiet.update rfl
    exact .of_state isFree (by decide) rfl
  | @redirect _ _ _ _ _ read _ _ isLoaded isFree =>
    have loaded : (s.frames read).state = .loaded ∧ _ :=
      placed.op isLoaded (mem_singleton_self read)
    have targetFree := placed.free isFree
    apply Quiet.update_update rfl
    · exact .of_state targetFree (by decide) rfl
    · exact .of_state loaded.1 (by decide) rfl
  | @swizzleLast _ _ _ _ read isInstalling | @swizzle _ _ _ _ read isInstalling =>
    have loaded : (s.frames read).state = .loaded ∧ _ :=
      placed.op isInstalling (mem_singleton_self read)
    apply Quiet.update rfl
    exact .of_state loaded.1 (by decide) rfl
  | _ => exact .refl _

theorem ProviderStep.quiet {a : ProviderAction} (placed : s.Placed)
    (written : ∀ bf write, s.writes bf = some write → (s.frames bf).isBeingWrittenBack = true)
    (taken : ProviderStep s a s') (bf : FrameId) : Quiet (s.frames bf) (s'.frames bf) := by
  cases taken with
  | cool | submit | writtenBack | evict | evictWritten => exact .update rfl (.of_unlock rfl) bf
  | @demote _ _ _ _ target _ isDemoting =>
    have targetFree : (s.frames target).state = .free :=
      placed.op isDemoting (mem_singleton_self target)
    apply Quiet.update_update rfl
    · exact .of_state targetFree (by decide) rfl
    · exact .of_unlock rfl
  | @writtenBackLost _ lost write isWritten =>
    apply Quiet.update rfl
    refine ⟨le_refl _, fun _ _ unwritten => ?_⟩
    rw [written lost write isWritten] at unwritten
    cases unwritten
  | @promote _ _ _ _ _ target _ _ isFree =>
    have targetFree := placed.free isFree
    apply Quiet.update_update rfl
    · exact .of_state targetFree (by decide) rfl
    · exact .of_unlock rfl
  | _ => exact .refl _

theorem PageStep.quiet {a : PageAction Data} (placed : s.Placed)
    (unguarded : ClearsUnguarded s (.page a)) (taken : PageStep cfg s a s') {t : ThreadId}
    (isGuard : (s.threads t).guard = some guard) :
    Quiet (s.frames guard.bf) (s'.frames guard.bf) := by
  cases taken with
  | @initNewPage _ _ bf pid _ isAllocating _ issues =>
    have isFree : (s.frames bf).state = .free := placed.op isAllocating (mem_singleton_self bf)
    -- only the latch of a CXL frame is cleared
    simp only [ClearsUnguarded, isAllocating] at unguarded
    by_cases elsewhere : guard.bf = bf
    · have sameVersion : (if bf.tier = .cxl then 0 else (s.frames bf).version) =
          (s.frames bf).version := by
        by_cases inCxl : bf.tier = .cxl
        · rw [if_pos inCxl]
          exact ((unguarded inCxl).resolve_right fun none => none t guard isGuard elsewhere).symm
        · exact if_neg inCxl
      cases issues <;> exact .update rfl (.of_state isFree (by decide) sameVersion) _
    · have same : update s.frames bf
          ((s.frames bf).initNew bf.tier pid cfg.blank) guard.bf =
          s.frames guard.bf := update_of_ne elsewhere _ _
      cases issues <;> exact same ▸ .refl _
  | @modifyNew _ _ new _ isAllocated =>
    have isNew : (s.frames new).state = .hot ∧ _ := placed.op isAllocated (mem_singleton_self new)
    apply Quiet.update rfl
    exact .of_state isNew.1 (by decide) rfl
  | link | createMeta | modify | reclaimWritten | reclaimFrame =>
    exact .update rfl (.of_unlock rfl) guard.bf
  | _ => exact .refl _

def State.Cooled (s s' : State Data) : Prop :=
  ∀ bf, (s'.frames bf).state = .cool →
    (s.frames bf).state = .cool ∧ (s'.frames bf).pid = (s.frames bf).pid

theorem State.cooled_update (frames : s'.frames = update s.frames bf frame)
    (header : frame.state ≠ .cool ∨
      (frame.state = (s.frames bf).state ∧ frame.pid = (s.frames bf).pid)) : s.Cooled s' := by
  intro other isCool
  rw [frames] at isCool ⊢
  by_cases same : other = bf
  · subst same
    rw [update_self] at isCool ⊢
    rcases header with notCool | ⟨sameState, samePid⟩
    · exact absurd isCool notCool
    · exact ⟨sameState.symm.trans isCool, samePid⟩
  · rw [update_of_ne same] at isCool ⊢
    exact ⟨isCool, rfl⟩

theorem State.cooled_update_update {frame frame' : BufferFrame Data}
    (frames : s'.frames = update (update s.frames first frame) second frame')
    (firstNotCool : frame.state ≠ .cool) (secondNotCool : frame'.state ≠ .cool) : s.Cooled s' := by
  intro other isCool
  rw [frames] at isCool ⊢
  by_cases same : other = second
  · subst same
    rw [update_self] at isCool
    exact absurd isCool secondNotCool
  · rw [update_of_ne same] at isCool ⊢
    by_cases sameFirst : other = first
    · subst sameFirst
      rw [update_self] at isCool
      exact absurd isCool firstNotCool
    · rw [update_of_ne sameFirst] at isCool ⊢
      exact ⟨isCool, rfl⟩

theorem State.cooled_same (frames : s'.frames = s.frames) : s.Cooled s' := by
  intro bf isCool
  rw [frames] at isCool ⊢
  exact ⟨isCool, rfl⟩

def State.CoolLinked (s : State Data) : Prop :=
  ∀ bf, (s.frames bf).state = .cool → s.swips (s.frames bf).pid = some (.cool bf)

section

variable (linked : s.CoolLinked)
include linked

theorem State.CoolLinked.keep (cooled : s.Cooled s')
    (swips : s'.swips = s.swips) : s'.CoolLinked := by
  intro bf isCool
  obtain ⟨wasCool, samePid⟩ := cooled bf isCool
  rw [swips, samePid]
  exact linked bf wasCool

theorem State.CoolLinked.setSwip (cooled : s.Cooled s')
    {pid : Pid} {swip : Option Swip} (swips : s'.swips = update s.swips pid swip)
    (notCool : ∀ bf, s.swips pid = some (.cool bf) → (s'.frames bf).state ≠ .cool) :
    s'.CoolLinked := by
  intro bf isCool
  obtain ⟨wasCool, samePid⟩ := cooled bf isCool
  have isLinked := linked bf wasCool
  rw [swips, samePid]
  by_cases same : (s.frames bf).pid = pid
  · rw [same] at isLinked
    exact absurd isCool (notCool bf isLinked)
  · rw [update_of_ne same]
    exact isLinked

theorem ResolveStep.coolLinked (taken : ResolveStep cfg s a s') : s'.CoolLinked := by
  cases taken with
  | @warm _ _ bf isCool =>
    refine linked.setSwip (cooled_update rfl (.inl (by simp))) rfl fun other wasCool => ?_
    obtain rfl : bf = other := by simpa [isCool] using wasCool
    simp [setSwip, setFrame]
  | readPage => exact linked.keep (cooled_update rfl (.inl (by simp [load]))) rfl
  | redirect =>
    exact linked.keep (cooled_update_update rfl (by simp [copyLoaded])
      (by simp [reset])) rfl
  | swizzleLast _ isEvicted | swizzle _ isEvicted | takeReadyLast _ _ isEvicted
  | takeReady _ _ isEvicted =>
    exact linked.setSwip (cooled_update rfl (.inl (by simp))) rfl (by simp [isEvicted])
  | _ => exact linked.keep (cooled_same rfl) rfl

theorem ProviderStep.coolLinked {a : ProviderAction}
    (placed : s.Placed) (taken : ProviderStep s a s') : s'.CoolLinked := by
  cases taken with
  | @cool parent pid bf isHot =>
    have samePid := (placed.hot isHot).2
    intro other isCool
    by_cases same : other = bf
    · subst same
      simp [setSwip, setFrame, unlock, samePid]
    · simp only [setSwip, setFrame, update_of_ne same] at isCool ⊢
      have isLinked := linked other isCool
      rw [update_of_ne]
      · exact isLinked
      · intro samePid
        rw [samePid, isHot] at isLinked
        cases isLinked
  | @demote t parent pid bf _ v _ under wasCool =>
    refine linked.setSwip (cooled_update_update rfl (by simp [copyHot])
      (by simp [reset, unlock])) rfl fun other isCool => ?_
    obtain rfl : bf = other := by simpa [wasCool] using isCool
    simp [setOp, setBatch, setSwip, setFrame, reset, unlock]
  | @evict t parent pid bf v _ under wasCool
  | @evictWritten t parent bf _ under wasCool =>
    refine linked.setSwip (cooled_update rfl
      (.inl (by simp [reset, unlock]))) rfl fun other isCool => ?_
    obtain rfl : bf = other := by simpa [wasCool] using isCool
    simp [evictFrame, setOp, setBatch, setSwip, setFrame, reset, unlock]
  | submit | writtenBack | writtenBackLost =>
    exact linked.keep (cooled_update rfl (.inr ⟨rfl, rfl⟩)) rfl
  | promote isHot =>
    exact linked.setSwip (cooled_update_update rfl (by simp [copyHot])
      (by simp [reset, unlock])) rfl (by simp [isHot])
  | _ => exact linked.keep (cooled_same rfl) rfl

theorem PageStep.coolLinked {a : PageAction Data}
    (owned : PidsOwned cfg.dramPartitionsCount s.pids s.nextPid)
    (taken : PageStep cfg s a s') : s'.CoolLinked := by
  cases taken with
  | initNewPage _ _ issues =>
    cases issues <;>
      exact linked.keep (cooled_update rfl (.inl (by simp [initNew]))) rfl
  | modifyNew | modify | reclaimWritten =>
    exact linked.keep (cooled_update rfl (.inr ⟨rfl, rfl⟩)) rfl
  | @link t _ pid bf _ isAllocated | @createMeta t pid bf isAllocated =>
    have unlinked : s.swips pid = none :=
      owned.unlinked (by rw [isAllocated]; exact mem_singleton_self pid)
    exact linked.setSwip (cooled_update rfl (.inr ⟨rfl, rfl⟩)) rfl (by simp [unlinked])
  | unlink isHot => exact linked.setSwip (cooled_same rfl) rfl (by simp [isHot])
  | reclaimFrame => exact linked.keep (cooled_update rfl (.inl (by simp [reset, unlock]))) rfl
  | _ => exact linked.keep (cooled_same rfl) rfl

end

theorem State.GuardInv.step (inv : s.GuardInv) (linked : s.CoolLinked)
    (quiet : ∀ t guard, (s.threads t).guard = some guard →
      Quiet (s.frames guard.bf) (s'.frames guard.bf))
    (unread : ∀ pid bf, s.swips pid = some (.cool bf) → s.ioTable pid = none →
      s'.ioTable pid = none) (guards : ∀ t guard, (s'.threads t).guard = some guard →
      (∃ earlier, (s.threads earlier).guard = some guard) ∨
        (guard.version = (s'.frames guard.bf).version ∧ guard.Valid s')) : s'.GuardInv := by
  refine ⟨fun t guard isGuard => ?_, fun t guard isGuard unchanged => ?_⟩
  · rcases guards t guard isGuard with ⟨earlier, wasGuard⟩ | ⟨isNow, -⟩
    · exact le_trans (inv.version_le earlier guard wasGuard)
        (quiet earlier guard wasGuard).version_le
    · exact le_of_eq isNow
  · rcases guards t guard isGuard with ⟨earlier, wasGuard⟩ | ⟨-, valid⟩
    · have below := inv.version_le earlier guard wasGuard
      have quiet := quiet earlier guard wasGuard
      have notLater := quiet.version_le
      have valid := inv.valid earlier guard wasGuard (by omega)
      have same := quiet.same (by omega) valid.isCool valid.unwritten
      have isLinked := linked guard.bf valid.isCool
      rw [valid.samePid] at isLinked
      refine ⟨?_, ?_, ?_, unread guard.pid guard.bf isLinked valid.unread, ?_⟩
      · rw [same, valid.isCool]
      · rw [same, valid.samePid]
      · rw [same, valid.unwritten]
      · rw [same, valid.admitted]
    · exact valid

theorem guard_of_update {threads : ThreadId → Op} {t other : ThreadId} {op : Op}
    (kept : op.guard = none ∨ op.guard = (threads t).guard)
    (isGuard : (update threads t op other).guard = some guard) :
    (threads other).guard = some guard := by
  by_cases same : other = t
  · subst same
    rw [update_self] at isGuard
    rcases kept with gone | kept
    · rw [gone] at isGuard
      cases isGuard
    · exact kept ▸ isGuard
  · rw [update_of_ne same] at isGuard
    exact isGuard

theorem ResolveStep.guardInv (inv : s.GuardInv) (linked : s.CoolLinked)
    (placed : s.Placed) (taken : ResolveStep cfg s a s') : s'.GuardInv := by
  have guards : ∀ t, (s'.threads t).guard = (s.threads t).guard := by
    intro t
    cases taken <;>
      first | rfl | exact update_view (f := s.threads) Op.guard (by simp only [Op.guard, *]) t
  refine inv.step linked (fun _ guard _ => taken.quiet placed guard.bf) ?_
    fun t guard isGuard => .inl ⟨t, guards t ▸ isGuard⟩
  intro pid bf isCool absent
  cases taken with
  | @miss _ missed _ _ _ _ isEvicted =>
    refine (update_of_ne (fun same : pid = missed => ?_) _ _).trans absent
    rw [same, isEvicted] at isCool
    cases isCool
  | @swizzleLast _ _ removed | @leaveLast _ removed | @takeReadyLast _ removed
  | @dropDeleted removed =>
    by_cases same : pid = removed
    · exact same ▸ update_self _ _ _
    · exact (update_of_ne same _ _).trans absent
  | _ => exact absent

theorem ProviderStep.guardInv {a : ProviderAction} (inv : s.GuardInv)
    (linked : s.CoolLinked) (placed : s.Placed) (written : ∀ bf write, s.writes bf = some write →
      (s.frames bf).isBeingWrittenBack = true) (taken : ProviderStep s a s') : s'.GuardInv := by
  refine inv.step linked (fun _ guard _ => taken.quiet placed written guard.bf)
    (fun pid bf _ absent => ?_) fun t guard isGuard => ?_
  · cases taken <;> exact absent
  · cases taken with
    | @check checker _ bf _ _ isCool unwritten absent admitted =>
      by_cases same : t = checker
      · right
        subst same
        simp only [setOp, update_self, Op.guard, Option.some.injEq] at isGuard
        subst isGuard
        exact ⟨rfl, isCool, rfl, unwritten, absent, admitted⟩
      · left
        exact ⟨t, by simpa [setOp, update_of_ne same] using isGuard⟩
    | popTarget isChecked => exact .inl ⟨t, guard_of_update (.inr (by rw [isChecked]; rfl)) isGuard⟩
    | cool | finishWrite | pushBatch | promote => exact .inl ⟨t, isGuard⟩
    | _ => exact .inl ⟨t, guard_of_update (.inl rfl) isGuard⟩

theorem PageStep.guardInv {a : PageAction Data} (inv : s.GuardInv)
    (linked : s.CoolLinked) (placed : s.Placed) (unguarded : ClearsUnguarded s (.page a))
    (taken : PageStep cfg s a s') : s'.GuardInv := by
  have guards : ∀ t, (s'.threads t).guard = (s.threads t).guard := by
    intro t
    cases taken with
    | initNewPage isAllocating _ issues =>
      cases issues <;>
        exact update_view (f := s.threads) Op.guard (by simp only [Op.guard, isAllocating]) t
    | _ =>
      first
      | rfl
      | exact update_view (f := s.threads) Op.guard (by simp only [Op.guard, *]) t
  refine inv.step linked (fun _ guard isGuard => taken.quiet placed unguarded isGuard) ?_
    fun t guard isGuard => .inl ⟨t, guards t ▸ isGuard⟩
  intro _ bf _ absent
  cases taken with
  | initNewPage _ _ issues => cases issues <;> exact absent
  | _ => exact absent

theorem Initial.guardInv (initial : Initial cfg s) : s.GuardInv := by
  refine ⟨fun t guard isGuard => ?_, fun t guard isGuard => ?_⟩ <;>
  · rw [initial.allIdle] at isGuard
    cases isGuard

theorem Initial.coolLinked (initial : Initial cfg s) : s.CoolLinked := by
  intro bf isCool
  rw [(initial.allFree bf).1] at isCool
  cases isCool

structure State.FlagInv (s : State Data) : Prop where
  written : ∀ bf write, s.writes bf = some write → (s.frames bf).isBeingWrittenBack = true
  clear : ∀ bf, (s.frames bf).state = .free ∨ (s.frames bf).state = .loaded →
    (s.frames bf).isBeingWrittenBack = false

structure KeepsFlag (frame frame' : BufferFrame Data) : Prop where
  same : frame'.isBeingWrittenBack = frame.isBeingWrittenBack
  down : frame'.state = .free ∨ frame'.state = .loaded → frame.isBeingWrittenBack = false

namespace KeepsFlag

variable {frame frame' : BufferFrame Data}

theorem of_down (wasDown : frame.isBeingWrittenBack = false)
    (isDown : frame'.isBeingWrittenBack = false) : KeepsFlag frame frame' :=
  ⟨isDown.trans wasDown.symm, fun _ => wasDown⟩

theorem of_state (same : frame'.isBeingWrittenBack = frame.isBeingWrittenBack)
    (isPage : frame'.state = .hot ∨ frame'.state = .cool) : KeepsFlag frame frame' :=
  ⟨same, fun noPage => by rcases isPage with isPage | isPage <;> simp [isPage] at noPage⟩

end KeepsFlag

theorem State.FlagInv.keep (inv : s.FlagInv) (writes : s'.writes = s.writes)
    (keeps : ∀ bf, s'.frames bf = s.frames bf ∨
      KeepsFlag (s.frames bf) (s'.frames bf)) : s'.FlagInv := by
  refine ⟨fun bf write isWritten => ?_, fun bf noPage => ?_⟩
  · rw [writes] at isWritten
    have wasUp := inv.written bf write isWritten
    rcases keeps bf with same | keeps
    · rw [same, wasUp]
    · rw [keeps.same, wasUp]
  · rcases keeps bf with same | keeps
    · rw [same] at noPage ⊢
      exact inv.clear bf noPage
    · rw [keeps.same]
      exact keeps.down noPage

theorem State.FlagInv.setWrite (inv : s.FlagInv) {write : Option (Write Data)}
    (frames : s'.frames = update s.frames bf frame) (writes : s'.writes = update s.writes bf write)
    (up : write ≠ none → frame.isBeingWrittenBack = true)
    (down : frame.state = .free ∨ frame.state = .loaded → frame.isBeingWrittenBack = false) :
    s'.FlagInv := by
  constructor
  · intro other written isWritten
    rw [writes] at isWritten
    rw [frames]
    by_cases same : other = bf
    · rw [same, update_self] at isWritten ⊢
      exact up (by simp [isWritten])
    · rw [update_of_ne same] at isWritten ⊢
      exact inv.written other written isWritten
  · intro other noPage
    rw [frames] at noPage ⊢
    by_cases same : other = bf
    · rw [same, update_self] at noPage ⊢
      exact down noPage
    · rw [update_of_ne same] at noPage ⊢
      exact inv.clear other noPage

theorem State.FlagInv.keepsFlag (inv : s.FlagInv) (sameState : frame.state = (s.frames bf).state)
    (sameFlag : frame.isBeingWrittenBack = (s.frames bf).isBeingWrittenBack) :
    KeepsFlag (s.frames bf) frame :=
  ⟨sameFlag, fun noPage => inv.clear bf (sameState ▸ noPage)⟩

theorem keepsFlag_update (frames : s'.frames = update s.frames bf frame)
    (keeps : KeepsFlag (s.frames bf) frame) (other : FrameId) : s'.frames other = s.frames other ∨
      KeepsFlag (s.frames other) (s'.frames other) := by
  rw [frames]
  by_cases same : other = bf
  · subst same
    rw [update_self]
    exact .inr keeps
  · exact .inl (update_of_ne same _ _)

theorem keepsFlag_update_update {frame frame' : BufferFrame Data}
    (frames : s'.frames = update (update s.frames first frame) second frame')
    (firstKeeps : KeepsFlag (s.frames first) frame)
    (secondKeeps : KeepsFlag (s.frames second) frame') (other : FrameId) :
    s'.frames other = s.frames other ∨ KeepsFlag (s.frames other) (s'.frames other) := by
  rw [frames]
  by_cases same : other = second
  · subst same
    rw [update_self]
    exact .inr secondKeeps
  · rw [update_of_ne same]
    by_cases sameFirst : other = first
    · subst sameFirst
      rw [update_self]
      exact .inr firstKeeps
    · exact .inl (update_of_ne sameFirst _ _)

theorem ResolveStep.flagInv (inv : s.FlagInv) (placed : s.Placed)
    (taken : ResolveStep cfg s a s') : s'.FlagInv := by
  cases taken with
  | warm | swizzleLast | swizzle | takeReadyLast | takeReady =>
    exact inv.keep rfl (keepsFlag_update rfl (.of_state rfl (.inl rfl)))
  | @readPage _ _ _ read isReading =>
    have isFree : (s.frames read).state = .free := placed.op isReading (mem_singleton_self read)
    have wasDown := inv.clear read (.inl isFree)
    exact inv.keep rfl (keepsFlag_update rfl (.of_down wasDown wasDown))
  | @redirect _ _ _ _ _ read target _ isLoaded isFree =>
    have loaded : (s.frames read).state = .loaded ∧ _ :=
      placed.op isLoaded (mem_singleton_self read)
    have targetDown := inv.clear target (.inl (placed.free isFree))
    exact inv.keep rfl (keepsFlag_update_update rfl (.of_down targetDown targetDown)
      (.of_down (inv.clear read (.inr loaded.1)) rfl))
  | _ => exact inv.keep rfl fun _ => .inl rfl

theorem ProviderStep.flagInv {a : ProviderAction} (inv : s.FlagInv)
    (guards : s.GuardInv) (taken : ProviderStep s a s') : s'.FlagInv := by
  cases taken with
  | cool => exact inv.keep rfl (keepsFlag_update rfl (.of_state rfl (.inr rfl)))
  | @demote t _ pid bf _ v isDemoting _ _ unchanged =>
    have valid : Guard.Valid ⟨.demote, bf, pid, v⟩ s :=
      guards.valid t _ (by rw [isDemoting]; rfl) unchanged
    exact inv.keep rfl (keepsFlag_update_update rfl (.of_state rfl (.inl rfl))
      (.of_down valid.unwritten rfl))
  | @submit t bf pid v isChecked unchanged =>
    have valid : Guard.Valid ⟨.write, bf, pid, v⟩ s :=
      guards.valid t _ (by rw [isChecked]; rfl) unchanged
    refine inv.setWrite rfl rfl (fun _ => rfl) fun noPage => ?_
    simp [unlock, valid.isCool] at noPage
  | @finishWrite bf write isWritten =>
    exact inv.setWrite (Function.update_eq_self bf s.frames).symm rfl
      (fun _ => inv.written bf write isWritten) (inv.clear bf)
  | writtenBack => exact inv.setWrite rfl rfl (fun isWritten => absurd rfl isWritten) fun _ => rfl
  | writtenBackLost =>
    exact inv.setWrite rfl rfl (fun isWritten => absurd rfl isWritten) fun _ => rfl
  | @evict t _ pid bf v isChecked _ _ unchanged =>
    have valid : Guard.Valid ⟨.evict, bf, pid, v⟩ s :=
      guards.valid t _ (by rw [isChecked]; rfl) unchanged
    exact inv.keep rfl (keepsFlag_update rfl (.of_down valid.unwritten rfl))
  | evictWritten _ _ _ unwritten =>
    exact inv.keep rfl (keepsFlag_update rfl (.of_down unwritten rfl))
  | promote _ _ _ _ unwritten =>
    exact inv.keep rfl (keepsFlag_update_update rfl (.of_state rfl (.inl rfl))
      (.of_down unwritten rfl))
  | _ => exact inv.keep rfl fun _ => .inl rfl

theorem PageStep.flagInv {a : PageAction Data} (inv : s.FlagInv)
    (taken : PageStep cfg s a s') : s'.FlagInv := by
  cases taken with
  | initNewPage _ _ issues =>
    cases issues <;>
      exact inv.keep rfl (keepsFlag_update rfl (.of_state rfl (.inl rfl)))
  | modifyNew | link | createMeta | modify | reclaimWritten =>
    exact inv.keep rfl (keepsFlag_update rfl (inv.keepsFlag rfl rfl))
  | reclaimFrame _ unwritten => exact inv.keep rfl (keepsFlag_update rfl (.of_down unwritten rfl))
  | _ => exact inv.keep rfl fun _ => .inl rfl

theorem Initial.flagInv (initial : Initial cfg s) : s.FlagInv := by
  refine ⟨fun bf write isWritten => ?_, fun bf _ => (initial.allFree bf).2⟩
  rw [initial.noWrite] at isWritten
  cases isWritten

end TieredStore.BufferManager
