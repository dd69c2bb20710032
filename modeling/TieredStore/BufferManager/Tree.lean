import TieredStore.BufferManager.Invariant

namespace TieredStore.BufferManager

open Function (update update_self update_of_ne)
open Ownership List BufferFrame State

variable {Data : Type} {cfg : Config Data} {s s' : State Data}
  {a : Action Data}

def State.Meta (s : State Data) (pid : Pid) : Prop :=
  ∃ bf, s.swips pid = some (.hot bf) ∧ (s.frames bf).keepInMemory = true

structure State.TreeInv (s : State Data) : Prop where
  linear : Linear s.children
  linked : ∀ parent, ∀ child ∈ s.children parent, s.swips child ≠ none ∧ s.swips parent ≠ none
  unswizzled : ∀ parent, ∀ child ∈ s.children parent,
    s.swips child = some .evicted ∨ ∃ bf, s.swips parent = some (.hot bf)

def State.Rooted (s : State Data) : Prop :=
  ∀ pid, s.swips pid ≠ none → (∃ parent, pid ∈ s.children parent) ∨ s.Meta pid

section Swips

variable {parent pid : Pid} {bf : FrameId} (inv : s.TreeInv)
include inv

theorem State.TreeInv.keep (children : s'.children = s.children)
    (swips : s'.swips = s.swips) : s'.TreeInv := by
  refine ⟨?_, ?_, ?_⟩
  · rw [children]
    exact inv.linear
  · rw [children, swips]
    exact inv.linked
  · rw [children, swips]
    exact inv.unswizzled

theorem State.TreeInv.setSwip {swip : Swip} (children : s'.children = s.children)
    (swips : s'.swips = update s.swips pid (some swip)) (above : ∀ parent, pid ∈ s.children parent →
      swip = .evicted ∨ ∃ bf, s'.swips parent = some (.hot bf)) (below : ∀ child ∈ s.children pid,
      s'.swips child = some .evicted ∨ ∃ bf, swip = .hot bf) : s'.TreeInv := by
  have stillLinked : ∀ other, s.swips other ≠ none → s'.swips other ≠ none := by
    intro other _
    rw [swips]
    by_cases same : other = pid
    · simp [same]
    · rwa [update_of_ne same]
  refine ⟨children ▸ inv.linear, fun parent child isChild => ?_, fun parent child isChild => ?_⟩
  · rw [children] at isChild
    obtain ⟨childLinked, parentLinked⟩ := inv.linked parent child isChild
    exact ⟨stillLinked child childLinked, stillLinked parent parentLinked⟩
  · rw [children] at isChild
    by_cases isPid : child = pid
    · subst isPid
      rcases above parent isChild with isEvicted | isHot
      · rw [swips, update_self, isEvicted]
        exact .inl rfl
      · exact .inr isHot
    · by_cases isParent : parent = pid
      · subst isParent
        rcases below child isChild with isEvicted | ⟨bf, isHot⟩
        · exact .inl isEvicted
        · rw [swips, update_self parent, isHot]
          exact .inr ⟨bf, rfl⟩
      · rw [swips, update_of_ne isPid, update_of_ne isParent]
        exact inv.unswizzled parent child isChild

theorem State.TreeInv.parent_hot (under : s.Under parent pid)
    {other : Pid} (isChild : pid ∈ s.children other) : ∃ bf, s.swips other = some (.hot bf) := by
  rw [inv.linear.unique other parent pid isChild under.1]
  exact under.2

theorem State.TreeInv.toHot (under : s.Under parent pid) (children : s'.children = s.children)
    (swips : s'.swips = update s.swips pid (some (.hot bf))) : s'.TreeInv := by
  refine inv.setSwip children swips (fun other isChild => .inr ?_) fun _ _ => .inr ⟨bf, rfl⟩
  rw [swips]
  by_cases same : other = pid
  · rw [same, update_self]
    exact ⟨bf, rfl⟩
  · rw [update_of_ne same]
    exact inv.parent_hot under isChild

theorem State.TreeInv.toCool (under : s.Under parent pid) (isHot : s.swips pid = some (.hot bf))
    (unswizzled : ∀ child ∈ s.children pid, s.swips child = some .evicted)
    (children : s'.children = s.children)
    (swips : s'.swips = update s.swips pid (some (.cool bf))) : s'.TreeInv := by
  -- a page that is not evicted is no child of its own
  have notOwn : pid ∉ s.children pid := by
    intro isChild
    rw [unswizzled pid isChild] at isHot
    cases isHot
  refine inv.setSwip children swips (fun other isChild => .inr ?_) fun child isChild => .inl ?_
  · have ne : other ≠ pid := fun same => notOwn (same ▸ isChild)
    rw [swips, update_of_ne ne]
    exact inv.parent_hot under isChild
  · have ne : child ≠ pid := fun same => notOwn (same ▸ isChild)
    rw [swips, update_of_ne ne]
    exact unswizzled child isChild

theorem State.TreeInv.toEvicted
    (isCool : s.swips pid = some (.cool bf)) (children : s'.children = s.children)
    (swips : s'.swips = update s.swips pid (some .evicted)) : s'.TreeInv := by
  refine inv.setSwip children swips (fun _ _ => .inl rfl) fun child isChild => .inl ?_
  rw [swips]
  by_cases same : child = pid
  · rw [same, update_self]
  · rw [update_of_ne same]
    rcases inv.unswizzled pid child isChild with isEvicted | ⟨_, isHot⟩
    · exact isEvicted
    · rw [isCool] at isHot
      cases isHot

end Swips

theorem ResolveStep.treeInv {a : ResolveAction} (inv : s.TreeInv)
    (taken : ResolveStep cfg s a s') : s'.TreeInv := by
  cases taken with
  | warm _ under | swizzleLast isInstalling isEvicted under
  | swizzle isInstalling isEvicted under | takeReadyLast present hasFrame isEvicted under
  | takeReady present hasFrame isEvicted under => exact inv.toHot under rfl rfl
  | _ => exact inv.keep rfl rfl

theorem ProviderStep.treeInv {a : ProviderAction} (inv : s.TreeInv)
    (taken : ProviderStep s a s') : s'.TreeInv := by
  cases taken with
  | cool isHot under _ unswizzled => exact inv.toCool under isHot unswizzled rfl rfl
  | demote _ under | promote isHot isFree under => exact inv.toHot under rfl rfl
  | evict _ under isCool | evictWritten isAfterWrite under isCool =>
    exact inv.toEvicted isCool rfl rfl
  | _ => exact inv.keep rfl rfl

section Children

variable {parent pid : Pid} {bf : FrameId} (inv : s.TreeInv)
include inv

theorem State.TreeInv.unlinked (isNone : s.swips pid = none) :
    s.children pid = [] ∧ ∀ other, pid ∉ s.children other := by
  constructor
  · rw [eq_nil_iff_forall_not_mem]
    intro child isChild
    exact (inv.linked pid child isChild).2 isNone
  · intro other isChild
    exact (inv.linked other pid isChild).1 isNone

theorem State.TreeInv.createMeta (isNone : s.swips pid = none) (children : s'.children = s.children)
    (swips : s'.swips = update s.swips pid (some (.hot bf))) : s'.TreeInv := by
  obtain ⟨noChild, noParent⟩ := inv.unlinked isNone
  refine inv.setSwip children swips (fun other isChild => absurd isChild (noParent other))
    fun child isChild => ?_
  rw [noChild] at isChild
  cases isChild

theorem State.TreeInv.addChild {above : FrameId} (unowned : ∀ other, pid ∉ s.children other)
    (parentHot : s.swips parent = some (.hot above)) (isLinked : s.swips pid ≠ none)
    (children : s'.children = update s.children parent (pid :: s.children parent))
    (swips : s'.swips = s.swips) : s'.TreeInv := by
  have origin : ∀ other child, child ∈ s'.children other →
      (other = parent ∧ child = pid) ∨ child ∈ s.children other := by
    intro other child isChild
    rw [children] at isChild
    by_cases same : other = parent
    · rw [same, update_self, mem_cons] at isChild
      rcases isChild with isNew | isOld
      · exact .inl ⟨same, isNew⟩
      · exact .inr (same ▸ isOld)
    · rw [update_of_ne same] at isChild
      exact .inr isChild
  refine ⟨?_, fun other child isChild => ?_, fun other child isChild => ?_⟩
  · refine inv.linear.acquire parent (nodup_singleton pid) ?_ ?_ fun other ne => ?_
    · intro child isNew
      rw [mem_singleton.mp isNew]
      exact unowned
    · rw [children, update_self]
      exact .refl _
    · rw [children, update_of_ne ne]
  · rw [swips]
    rcases origin other child isChild with ⟨rfl, rfl⟩ | isOld
    · exact ⟨isLinked, by simp [parentHot]⟩
    · exact inv.linked other child isOld
  · rw [swips]
    rcases origin other child isChild with ⟨rfl, rfl⟩ | isOld
    · exact .inr ⟨above, parentHot⟩
    · exact inv.unswizzled other child isOld

theorem State.TreeInv.removeChild (children : s'.children = update s.children parent
      ((s.children parent).erase pid)) (swips : s'.swips = s.swips) : s'.TreeInv := by
  have wasChild : ∀ other child, child ∈ s'.children other →
      child ∈ s.children other := by
    intro other child isChild
    rw [children] at isChild
    by_cases same : other = parent
    · rw [same, update_self] at isChild
      exact same ▸ mem_of_mem_erase isChild
    · rwa [update_of_ne same] at isChild
  refine ⟨?_, fun other child isChild => ?_, fun other child isChild => ?_⟩
  · refine inv.linear.release parent ?_ fun other ne => ?_
    · rw [children, update_self]
      exact erase_sublist.subperm
    · rw [children, update_of_ne ne]
  · rw [swips]
    exact inv.linked other child (wasChild other child isChild)
  · rw [swips]
    exact inv.unswizzled other child (wasChild other child isChild)

theorem State.TreeInv.clearSwip
    (noParent : ∀ other, pid ∉ s.children other) (noChild : s.children pid = [])
    (children : s'.children = s.children)
    (swips : s'.swips = update s.swips pid none) : s'.TreeInv := by
  have apart : ∀ other, ∀ child ∈ s.children other, child ≠ pid ∧ other ≠ pid := by
    intro other child isChild
    refine ⟨fun same => noParent other (same ▸ isChild), fun same => ?_⟩
    rw [same, noChild] at isChild
    cases isChild
  refine ⟨children ▸ inv.linear, fun other child isChild => ?_, fun other child isChild => ?_⟩ <;>
  · rw [children] at isChild
    obtain ⟨childApart, otherApart⟩ := apart other child isChild
    rw [swips, update_of_ne childApart, update_of_ne otherApart]
    first
    | exact inv.linked other child isChild
    | exact inv.unswizzled other child isChild

theorem State.TreeInv.not_mem_erase (isChild : pid ∈ s.children parent) (other : Pid) :
    pid ∉ update s.children parent ((s.children parent).erase pid) other := by
  intro isIn
  by_cases same : other = parent
  · rw [same, update_self] at isIn
    exact (inv.linear.nodup parent).not_mem_erase isIn
  · rw [update_of_ne same] at isIn
    exact same (inv.linear.unique other parent pid isIn isChild)

end Children

section

variable (owned : PidsOwned cfg.dramPartitionsCount s.pids s.nextPid)
include owned

theorem PageStep.treeInv {a : PageAction Data} (inv : s.TreeInv)
    (taken : PageStep cfg s a s') : s'.TreeInv := by
  cases taken with
  | initNewPage _ _ issues => cases issues <;> exact inv.keep rfl rfl
  | @link t parent pid bf above isAllocated parentHot =>
    have isNone : s.swips pid = none :=
      owned.unlinked (by rw [isAllocated]; exact mem_singleton_self pid)
    have ne : parent ≠ pid := by
      intro same
      rw [same, isNone] at parentHot
      cases parentHot
    -- the swip is entered first, then the child
    have linked : (s.setSwip pid (some (.hot bf))).TreeInv := inv.createMeta isNone rfl rfl
    have stillHot : (s.setSwip pid (some (.hot bf))).swips parent = some (.hot above) :=
      (update_of_ne ne _ _).trans parentHot
    exact linked.addChild (inv.unlinked isNone).2 stillHot (by simp [setSwip]) rfl rfl
  | @createMeta t pid bf isAllocated =>
    have isNone : s.swips pid = none :=
      owned.unlinked (by rw [isAllocated]; exact mem_singleton_self pid)
    exact inv.createMeta isNone rfl rfl
  | @moveChild child source _ ne isChild _ targetHot =>
    obtain ⟨above, targetHot⟩ := targetHot
    have removed : (s.setChildren source ((s.children source).erase child)).TreeInv :=
      inv.removeChild rfl rfl
    refine removed.addChild (inv.not_mem_erase isChild) targetHot
      (inv.linked source child isChild).1 ?_ rfl
    simp [setChildren, update_of_ne ne.symm]
  | @unlink t parent pid bf _ _ under emptied =>
    have removed : (s.setChildren parent ((s.children parent).erase pid)).TreeInv :=
      inv.removeChild rfl rfl
    refine removed.clearSwip (inv.not_mem_erase under.1) ?_ rfl rfl
    have ne : pid ≠ parent := by
      intro same
      have isChild := under.1
      rw [← same, emptied] at isChild
      cases isChild
    exact (update_of_ne ne _ _).trans emptied
  | _ => exact inv.keep rfl rfl

theorem Step.treeInv (inv : s.TreeInv) (taken : Step cfg s a s') : s'.TreeInv := by
  cases taken with
  | resolve taken => exact taken.treeInv inv
  | provide taken => exact taken.treeInv inv
  | page taken => exact taken.treeInv owned inv

end

theorem Initial.treeInv (initial : Initial cfg s) : s.TreeInv := by
  have noChild : ∀ parent child, child ∉ s.children parent := by
    intro parent child isChild
    rw [(initial.noPage parent).2] at isChild
    cases isChild
  refine ⟨?_, fun parent child isChild => absurd isChild (noChild parent child),
    fun parent child isChild => absurd isChild (noChild parent child)⟩
  have none : s.children = fun _ => [] := funext fun parent => (initial.noPage parent).2
  exact none ▸ Linear.nothing

section Meta

variable {parent pid : Pid} {bf : FrameId} {frame : BufferFrame Data} {swip : Option Swip}

theorem State.Rooted.step (rooted : s.Rooted) (pid : Pid)
    (here : s'.swips pid ≠ none → (∃ parent, pid ∈ s'.children parent) ∨ s'.Meta pid)
    (swips : ∀ other, other ≠ pid → s'.swips other = s.swips other)
    (parents : ∀ other, other ≠ pid → ∀ parent, other ∈ s.children parent →
      ∃ parent, other ∈ s'.children parent)
    (flags : ∀ other, other ≠ pid → ∀ bf, s.swips other = some (.hot bf) →
      (s'.frames bf).keepInMemory = (s.frames bf).keepInMemory) : s'.Rooted := by
  intro other isLinked
  by_cases same : other = pid
  · subst same
    exact here isLinked
  · rw [swips other same] at isLinked
    rcases rooted other isLinked with ⟨parent, isChild⟩ | ⟨above, isHot, isKept⟩
    · exact .inl (parents other same parent isChild)
    · exact .inr ⟨above, (swips other same).trans isHot,
        (flags other same above isHot).trans isKept⟩

theorem State.Rooted.under (rooted : s.Rooted) (placed : s.Placed)
    (isChild : pid ∈ s.children parent) (children : s'.children = s.children)
    (swips : s'.swips = update s.swips pid swip)
    (frames : ∀ bf, (s.frames bf).state = .hot → (s.frames bf).pid ≠ pid →
      (s'.frames bf).keepInMemory = (s.frames bf).keepInMemory) : s'.Rooted := by
  refine rooted.step pid (fun _ => .inl ⟨parent, children ▸ isChild⟩) (fun other ne => ?_)
    (fun other _ parent isChild => ⟨parent, children ▸ isChild⟩) fun other ne bf isHot => ?_
  · rw [swips, update_of_ne ne]
  · obtain ⟨hot, samePid⟩ := placed.hot isHot
    exact frames bf hot (samePid ▸ ne)

theorem State.Rooted.frames (rooted : s.Rooted) (placed : s.Placed)
    (children : s'.children = s.children) (swips : s'.swips = s.swips)
    (frames : ∀ bf, (s.frames bf).state = .hot →
      (s'.frames bf).keepInMemory = (s.frames bf).keepInMemory) : s'.Rooted := by
  intro pid isLinked
  rw [swips] at isLinked
  rcases rooted pid isLinked with ⟨parent, isChild⟩ | ⟨above, isHot, isKept⟩
  · exact .inl ⟨parent, children ▸ isChild⟩
  · exact .inr ⟨above, swips ▸ isHot, (frames above (placed.hot isHot).1).trans isKept⟩

theorem State.Placed.swip_ne_op (placed : s.Placed) {t : ThreadId} {frame : FrameId}
    (isHot : s.swips pid = some (.hot frame))
    (has : bf ∈ (s.threads t).holding.frames) : frame ≠ bf := by
  have bySwip : frame ∈ s.held (.swip pid) := by
    rw [held, holding_hot isHot]
    exact mem_singleton_self frame
  have byOp : bf ∈ s.held (.op t) := has
  exact placed.ne bySwip byOp (by simp)

theorem State.keepInMemory_update (frames : s'.frames = update s.frames bf frame)
    (keeps : frame.keepInMemory = (s.frames bf).keepInMemory ∨ (s.frames bf).state ≠ .hot)
    (other : FrameId) (isHot : (s.frames other).state = .hot) :
    (s'.frames other).keepInMemory = (s.frames other).keepInMemory := by
  rw [frames]
  by_cases same : other = bf
  · subst same
    rw [update_self]
    exact keeps.resolve_right fun notHot => notHot isHot
  · rw [update_of_ne same]

theorem State.Rooted.underFrame (rooted : s.Rooted) (placed : s.Placed)
    (isChild : pid ∈ s.children parent) (children : s'.children = s.children)
    (swips : s'.swips = update s.swips pid swip) (frames : s'.frames = update s.frames bf frame)
    (keeps : frame.keepInMemory = (s.frames bf).keepInMemory ∨
      (s.frames bf).state ≠ .hot) : s'.Rooted :=
  rooted.under placed isChild children swips fun other isHot _ =>
    keepInMemory_update frames keeps other isHot

theorem mem_update {children : Pid → List Pid} {child : Pid} {pids : List Pid}
    (isChild : child ∈ children parent) (kept : child ∈ children pid → child ∈ pids) :
    child ∈ update children pid pids parent := by
  by_cases same : parent = pid
  · rw [same, update_self]
    exact kept (same ▸ isChild)
  · rwa [update_of_ne same]

end Meta

theorem ResolveStep.rooted {a : ResolveAction} (rooted : s.Rooted)
    (placed : s.Placed) (taken : ResolveStep cfg s a s') : s'.Rooted := by
  cases taken with
  | warm _ under => exact rooted.underFrame placed under.1 rfl rfl rfl (.inl rfl)
  | readPage => exact rooted.frames placed rfl rfl (keepInMemory_update rfl (.inl rfl))
  | @redirect _ _ _ _ _ bf _ _ isLoaded =>
    have loaded : (s.frames bf).state = .loaded ∧ _ := placed.op isLoaded (mem_singleton_self bf)
    refine rooted.frames placed rfl rfl fun other isHot => ?_
    have ne : other ≠ bf := fun same => by simp [same, loaded.1] at isHot
    refine (congrArg keepInMemory (update_of_ne ne _ _)).trans ?_
    refine keepInMemory_update rfl (.inl ?_) other isHot
    rfl
  | swizzleLast isInstalling isEvicted under | swizzle isInstalling isEvicted under
  | takeReadyLast present hasFrame isEvicted under
  | takeReady present hasFrame isEvicted under =>
    exact rooted.underFrame placed under.1 rfl rfl rfl (.inl rfl)
  | _ => exact rooted.frames placed rfl rfl fun _ _ => rfl

theorem ProviderStep.rooted {a : ProviderAction} (rooted : s.Rooted)
    (placed : s.Placed) (taken : ProviderStep s a s') : s'.Rooted := by
  cases taken with
  | cool isHot under => exact rooted.underFrame placed under.1 rfl rfl rfl (.inl rfl)
  | @demote t parent pid bf target v isDemoting under isCool =>
    have targetFree : (s.frames target).state = .free :=
      placed.op isDemoting (mem_singleton_self target)
    refine rooted.under placed under.1 rfl rfl fun other isHot otherPid => ?_
    have notSource : other ≠ bf := fun same => otherPid (same ▸ (placed.cool isCool).2)
    have notTarget : other ≠ target := fun same => by simp [same, targetFree] at isHot
    refine congrArg keepInMemory ?_
    exact (update_of_ne notSource _ _).trans (update_of_ne notTarget _ _)
  | submit | writtenBack | writtenBackLost =>
    exact rooted.frames placed rfl rfl (keepInMemory_update rfl (.inl rfl))
  | evict _ under isCool | evictWritten isAfterWrite under isCool =>
    exact rooted.underFrame placed under.1 rfl rfl rfl (.inr (by simp [(placed.cool isCool).1]))
  | @promote parent pid _ _ bf target _ isHot isFree under =>
    have targetFree := placed.free isFree
    refine rooted.under placed under.1 rfl rfl fun other otherHot otherPid => ?_
    have notSource : other ≠ bf := fun same => otherPid (same ▸ (placed.hot isHot).2)
    have notTarget : other ≠ target := fun same => by simp [same, targetFree] at otherHot
    refine congrArg keepInMemory ?_
    exact (update_of_ne notSource _ _).trans (update_of_ne notTarget _ _)
  | _ => exact rooted.frames placed rfl rfl fun _ _ => rfl

theorem PageStep.rooted {a : PageAction Data} (rooted : s.Rooted)
    (placed : s.Placed) (taken : PageStep cfg s a s') : s'.Rooted := by
  cases taken with
  | @initNewPage t partition bf pid _ _ _ issues =>
    cases issues <;>
      exact rooted.frames placed rfl rfl (keepInMemory_update rfl (.inl rfl))
  | modifyNew | modify | reclaimWritten =>
    exact rooted.frames placed rfl rfl (keepInMemory_update rfl (.inl rfl))
  | @link t parent pid =>
    refine rooted.step pid (fun _ => .inl ⟨parent, ?_⟩) (fun other ne => ?_)
      (fun other _ source isChild => ⟨source, ?_⟩) fun other _ frame isHot => ?_
    · simp [setOp, setChildren]
    · exact update_of_ne ne _ _
    · exact mem_update isChild (mem_cons_of_mem _)
    · refine keepInMemory_update rfl (.inl ?_) frame (placed.hot isHot).1
      rfl
  | @createMeta t pid bf isAllocated =>
    refine rooted.step pid (fun _ => .inr ⟨bf, update_self _ _ _, ?_⟩) (fun other ne => ?_)
      (fun other _ source isChild => ⟨source, isChild⟩) fun other _ frame isHot => ?_
    · simp [setOp, setSwip, setFrame]
    · exact update_of_ne ne _ _
    · have ne := placed.swip_ne_op isHot (by rw [isAllocated]; exact mem_singleton_self bf)
      exact congrArg keepInMemory (update_of_ne ne _ _)
  | @moveChild child source target ne isChild =>
    refine rooted.step child (fun _ => .inl ⟨target, ?_⟩) (fun _ _ => rfl)
      (fun other notChild parent isChild => ⟨parent, ?_⟩) fun _ _ _ _ => rfl
    · simp [setChildren]
    · refine mem_update (mem_update isChild (mem_erase_of_ne notChild).mpr) fun isOld => ?_
      have isOld : other ∈ update s.children source _ target := isOld
      rw [update_of_ne ne.symm] at isOld
      exact mem_cons_of_mem _ isOld
  | @unlink t parent pid =>
    refine rooted.step pid (fun isLinked => ?_) (fun other ne => ?_)
      (fun other ne source isChild => ⟨source, mem_update isChild (mem_erase_of_ne ne).mpr⟩)
      fun _ _ _ _ => rfl
    · simp [setOp, setChildren, setSwip] at isLinked
    · exact update_of_ne ne _ _
  | @reclaimFrame t partition pid bf isReclaiming =>
    intro other isLinked
    rcases rooted other isLinked with hasParent | ⟨above, isHot, isKept⟩
    · exact .inl hasParent
    · have ne := placed.swip_ne_op isHot (by rw [isReclaiming]; exact mem_singleton_self bf)
      exact .inr ⟨above, isHot, (congrArg keepInMemory (update_of_ne ne _ _)).trans isKept⟩
  | _ => exact rooted.frames placed rfl rfl fun _ _ => rfl

theorem Step.rooted (rooted : s.Rooted) (placed : s.Placed)
    (taken : Step cfg s a s') : s'.Rooted := by
  cases taken with
  | resolve taken | provide taken | page taken => exact taken.rooted rooted placed

theorem Initial.rooted (initial : Initial cfg s) : s.Rooted := by
  intro pid isLinked
  exact absurd (initial.noPage pid).1 isLinked

end TieredStore.BufferManager
