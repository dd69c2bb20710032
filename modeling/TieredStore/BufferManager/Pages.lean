import TieredStore.BufferManager.State

/-!
Pages come and go: `allocatePage` and `allocateSplitPage`, the links that splits and
merges make, and `reclaimPage`.
-/

namespace TieredStore.BufferManager

/-- A modification gives the whole page as it leaves it. -/
inductive PageAction (Data : Type)
  | tryPop (thread : ThreadId) (list : FreeListId)
  | initNewPage (thread : ThreadId) (partition : Nat)
  | modifyNew (thread : ThreadId) (page : Page Data)
  | link (thread : ThreadId) (parent : Pid)
  | createMeta (thread : ThreadId)
  | discard (thread : ThreadId)
  | modify (pid : Pid) (page : Page Data)
  | moveChild (child source target : Pid)
  | unlink (thread : ThreadId) (parent pid : Pid)
  | freePageID (thread : ThreadId)
  | reclaimFrame (thread : ThreadId) (partition : Nat)
  deriving DecidableEq, Repr

variable {Data : Type}

/-- `initNewPage` with the `markAsDirty` of the guard on the new page.
`allocateSplitPage` stores zero in the latch of its CXL frame before. -/
def BufferFrame.initNew (frame : BufferFrame Data) (tier : Tier) (pid : Pid) (blank : Data) :
    BufferFrame Data :=
  { frame with
    pid := pid
    lastWrittenPlsn := 0
    page := ⟨1, blank⟩
    state := .hot
    version := if tier = .cxl then 0 else frame.version }

namespace State

variable (config : Config Data) (state : State Data)

def nextPID (partition : Nat) : Pid × State Data :=
  match state.freedPids partition with
  | pid :: rest =>
    (pid, state.setFreedPids partition rest)
  | [] =>
    (state.nextPid partition,
      state.setNextPid partition (state.nextPid partition + config.dramPartitionsCount))

def tryPop (thread : ThreadId) (list : FreeListId) : Option (State Data) :=
  match state.free list with
  | bf :: rest =>
    if state.threads thread = .idle then
      some ((state.setFree list rest).setOp thread (.allocating bf))
    else none
  | [] => none

def initNewPage (thread : ThreadId) (partition : Nat) : Option (State Data) :=
  match state.threads thread with
  | .allocating bf =>
    if partition < config.dramPartitionsCount then
      let (pid, issuing) := state.nextPID config partition
      some ((((issuing.setLatest pid config.blank).countIssue pid).setFrame bf
        ((state.frames bf).initNew bf.tier pid config.blank)).setOp thread
        (.allocated bf pid))
    else none
  | _ => none

def modifyNew (thread : ThreadId) (page : Page Data) : Option (State Data) :=
  match state.threads thread with
  | .allocated bf pid =>
    if (state.frames bf).page.plsn < page.plsn then
      some ((state.setLatest pid page.data).setFrame bf { state.frames bf with page := page })
    else none
  | _ => none

/-- The new page's swip is put into a page above it. -/
def link (thread : ThreadId) (parent : Pid) : Option (State Data) :=
  match state.threads thread with
  | .allocated bf pid =>
    if ∃ above, state.swips parent = some (.hot above) then
      some ((((state.setFrame bf (state.frames bf).unlock).setSwip pid
        (some (.hot bf))).setChildren parent (pid :: state.children parent)).setOp thread
        .idle)
    else none
  | _ => none

/-- The meta node of a new tree: the tree itself has its swip. -/
def createMeta (thread : ThreadId) : Option (State Data) :=
  match state.threads thread with
  | .allocated bf pid =>
    some (((state.setFrame bf { (state.frames bf).unlock with keepInMemory := true }).setSwip
      pid (some (.hot bf))).setOp thread .idle)
  | _ => none

/-- The guard of a page with `keep_alive` off is dropped by a jump. -/
def discard (thread : ThreadId) : Option (State Data) :=
  match state.threads thread with
  | .allocated bf pid => some (state.setOp thread (.unlinked bf pid))
  | _ => none

def modify (pid : Pid) (page : Page Data) : Option (State Data) :=
  match state.swips pid with
  | some (.hot bf) =>
    if (state.frames bf).page.plsn < page.plsn then
      some ((state.setLatest pid page.data).setFrame bf
        { (state.frames bf).unlock with page := page })
    else none
  | _ => none

/-- A split or a merge moves a swip to another page. -/
def moveChild (child source target : Pid) : Option (State Data) :=
  if source ≠ target ∧ child ∈ state.children source ∧
      (∃ bf, state.swips source = some (.hot bf)) ∧
      ∃ bf, state.swips target = some (.hot bf) then
    some ((state.setChildren source ((state.children source).erase child)).setChildren target
      (child :: state.children target))
  else none

/-- A merge takes the emptied page out of its parent; its latch stays locked. -/
def unlink (thread : ThreadId) (parent pid : Pid) : Option (State Data) :=
  match state.swips pid with
  | some (.hot bf) =>
    if state.threads thread = .idle ∧ state.Under parent pid ∧ state.children pid = [] then
      some (((state.setSwip pid none).setChildren parent
        ((state.children parent).erase pid)).setOp thread (.unlinked bf pid))
    else none
  | _ => none

/-- The first step of `reclaimPage`. -/
def freePageID (thread : ThreadId) : Option (State Data) :=
  match state.threads thread with
  | .unlinked bf pid =>
    some ((if config.recyclePages then
        state.setFreedPids (pid % config.dramPartitionsCount)
          (pid :: state.freedPids (pid % config.dramPartitionsCount))
      else state).setOp thread (.reclaiming bf pid))
  | _ => none

/-- The second step of `reclaimPage`.  A frame under write-back is only unlocked. -/
def reclaimFrame (thread : ThreadId) (partition : Nat) : Option (State Data) :=
  match state.threads thread with
  | .reclaiming bf _ =>
    if (state.frames bf).isBeingWrittenBack then
      some ((state.setFrame bf (state.frames bf).unlock).setOp thread .idle)
    else
      some (((state.setFrame bf (state.frames bf).reset.unlock).push
        ⟨bf.tier, partition⟩ bf).setOp thread .idle)
  | _ => none

end State

def PageAction.step (config : Config Data) (state : State Data) :
    PageAction Data → Option (State Data)
  | .tryPop thread list => state.tryPop thread list
  | .initNewPage thread partition => state.initNewPage config thread partition
  | .modifyNew thread page => state.modifyNew thread page
  | .link thread parent => state.link thread parent
  | .createMeta thread => state.createMeta thread
  | .discard thread => state.discard thread
  | .modify pid page => state.modify pid page
  | .moveChild child source target => state.moveChild child source target
  | .unlink thread parent pid => state.unlink thread parent pid
  | .freePageID thread => state.freePageID config thread
  | .reclaimFrame thread partition => state.reclaimFrame thread partition

inductive Issues (cfg : Config Data) (s : State Data) (partition : Nat) :
    Pid → State Data → Prop
  | freed {pid rest} (isFreed : s.freedPids partition = pid :: rest) :
    Issues cfg s partition pid
      (s.setFreedPids partition rest)
  | fresh (noneFreed : s.freedPids partition = []) :
    Issues cfg s partition (s.nextPid partition)
      (s.setNextPid partition (s.nextPid partition + cfg.dramPartitionsCount))

theorem State.nextPID_issues (config : Config Data) (state : State Data) (partition : Nat) :
    Issues config state partition (state.nextPID config partition).1
      (state.nextPID config partition).2 := by
  simp only [nextPID]
  split
  · next isFreed => exact .freed isFreed
  · next noneFreed => exact .fresh noneFreed

inductive PageStep (cfg : Config Data) (s : State Data) :
    PageAction Data → State Data → Prop
  | tryPop {t list bf rest} (isFree : s.free list = bf :: rest) (isIdle : s.threads t = .idle) :
    PageStep cfg s (.tryPop t list)
      ((s.setFree list rest).setOp t (.allocating bf))
  | initNewPage {t partition bf pid issuing} (isAllocating : s.threads t = .allocating bf)
    (inRange : partition < cfg.dramPartitionsCount) (issues : Issues cfg s partition pid issuing)
    (isNext : pid = (s.nextPID cfg partition).1) :
    PageStep cfg s (.initNewPage t partition)
      ((((issuing.setLatest pid cfg.blank).countIssue pid).setFrame bf
        ((s.frames bf).initNew bf.tier pid cfg.blank)).setOp t
        (.allocated bf pid))
  | modifyNew {t page bf pid}
    (isAllocated : s.threads t = .allocated bf pid) (later : (s.frames bf).page.plsn < page.plsn) :
    PageStep cfg s (.modifyNew t page)
      ((s.setLatest pid page.data).setFrame bf { s.frames bf with page := page })
  | link {t parent pid bf above} (isAllocated : s.threads t = .allocated bf pid)
    (parentHot : s.swips parent = some (.hot above)) :
    PageStep cfg s (.link t parent)
      ((((s.setFrame bf (s.frames bf).unlock).setSwip pid
        (some (.hot bf))).setChildren parent (pid :: s.children parent)).setOp t
        .idle)
  | createMeta {t pid bf} (isAllocated : s.threads t = .allocated bf pid) :
    PageStep cfg s (.createMeta t)
      (((s.setFrame bf { (s.frames bf).unlock with keepInMemory := true }).setSwip
        pid (some (.hot bf))).setOp t .idle)
  | discard {t pid bf} (isAllocated : s.threads t = .allocated bf pid) :
    PageStep cfg s (.discard t) (s.setOp t (.unlinked bf pid))
  | modify {pid page bf}
    (isHot : s.swips pid = some (.hot bf)) (later : (s.frames bf).page.plsn < page.plsn) :
    PageStep cfg s (.modify pid page)
      ((s.setLatest pid page.data).setFrame bf { (s.frames bf).unlock with page := page })
  | moveChild {child source target} (different : source ≠ target)
    (isChild : child ∈ s.children source) (sourceHot : ∃ bf, s.swips source = some (.hot bf))
    (targetHot : ∃ bf, s.swips target = some (.hot bf)) :
    PageStep cfg s (.moveChild child source target)
      ((s.setChildren source ((s.children source).erase child)).setChildren target
        (child :: s.children target))
  | unlink {t parent pid bf} (isHot : s.swips pid = some (.hot bf)) (isIdle : s.threads t = .idle)
    (under : s.Under parent pid) (emptied : s.children pid = []) :
    PageStep cfg s (.unlink t parent pid)
      (((s.setSwip pid none).setChildren parent
        ((s.children parent).erase pid)).setOp t (.unlinked bf pid))
  | recycle {t pid bf}
    (isUnlinked : s.threads t = .unlinked bf pid) (recycles : cfg.recyclePages = true) :
    PageStep cfg s (.freePageID t)
      ((s.setFreedPids (pid % cfg.dramPartitionsCount)
        (pid :: s.freedPids (pid % cfg.dramPartitionsCount))).setOp t
        (.reclaiming bf pid))
  | retire {t pid bf} (isUnlinked : s.threads t = .unlinked bf pid) :
    PageStep cfg s (.freePageID t) (s.setOp t (.reclaiming bf pid))
  | reclaimWritten {t partition pid bf} (isReclaiming : s.threads t = .reclaiming bf pid)
    (written : (s.frames bf).isBeingWrittenBack = true) :
    PageStep cfg s (.reclaimFrame t partition)
      ((s.setFrame bf (s.frames bf).unlock).setOp t .idle)
  | reclaimFrame {t partition pid bf} (isReclaiming : s.threads t = .reclaiming bf pid)
    (unwritten : (s.frames bf).isBeingWrittenBack = false) :
    PageStep cfg s (.reclaimFrame t partition)
      (((s.setFrame bf (s.frames bf).reset.unlock).push
        ⟨bf.tier, partition⟩ bf).setOp t .idle)

theorem PageAction.step_sound {cfg : Config Data} {s s' : State Data}
    {a : PageAction Data} (taken : a.step cfg s = some s') : PageStep cfg s a s' := by
  cases a with
  | link t parent =>
    simp only [step, State.link] at taken
    split at taken
    · next isAllocated =>
        split at taken
        · next parentHot =>
            obtain ⟨above, parentHot⟩ := parentHot
            exact Option.some.inj taken ▸ .link isAllocated parentHot
        · cases taken
    · cases taken
  | _ =>
    simp only [step, State.tryPop, State.initNewPage, State.modifyNew, State.createMeta,
      State.discard, State.modify, State.moveChild, State.unlink, State.freePageID,
      State.reclaimFrame] at taken
    repeat' split at taken
    all_goals
      simp only [Option.some.injEq, reduceCtorEq] at taken <;> subst taken <;> constructor <;>
        first | assumption | exact s.nextPID_issues cfg _ | rfl | simp_all

end TieredStore.BufferManager
