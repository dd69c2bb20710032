import TieredStore.BufferManager.State

/-!
The page providers (`dramPageProviderThread`, `cxlPageProviderThread`) and
`promoteFullPage`.  A provider reads a cooled frame under an optimistic guard, lets go of
`ht_mutex`, and acts once the guard's version could be locked; else it jumps.
-/

namespace TieredStore.BufferManager

inductive ProviderAction
  | cool (parent pid : Pid)
  | check (thread : ThreadId) (purpose : Purpose) (bf : FrameId)
  | popTarget (thread : ThreadId) (cxlPartition : Nat)
  | demote (thread : ThreadId) (parent : Pid)
  | abandon (thread : ThreadId)
  | submit (thread : ThreadId)
  | finishWrite (bf : FrameId)
  | writtenBack (thread : ThreadId) (bf : FrameId)
  | writtenBackLost (thread : ThreadId) (bf : FrameId)
  | evict (thread : ThreadId) (parent : Pid)
  | evictWritten (thread : ThreadId) (parent : Pid)
  | giveUp (thread : ThreadId)
  | pushBatch (thread : ThreadId) (tier : Tier) (partition : Nat)
  | promote (parent pid : Pid) (dramPartition cxlPartition : Nat)
  deriving DecidableEq, Repr

variable {Data : Type}

def Purpose.tier : Purpose → Tier
  | .demote => .dram
  | .write => .cxl
  | .evict => .cxl

/-- Every cooled DRAM page is demoted; a CXL page is written if dirty, else evicted. -/
def Purpose.admits (purpose : Purpose) (frame : BufferFrame Data) : Bool :=
  match purpose with
  | .demote => true
  | .write => frame.isDirty
  | .evict => !frame.isDirty

/-- The page of `source` in a frame of the other pool.  `promoteFullPage` does not copy
`keep_in_memory`, which a CXL frame never has. -/
def BufferFrame.copyHot (frame source : BufferFrame Data) (keepInMemory : Bool) :
    BufferFrame Data :=
  { frame with
    page := source.page
    pid := source.pid
    lastWrittenPlsn := source.lastWrittenPlsn
    keepInMemory := keepInMemory
    state := .hot }

namespace State

variable (state : State Data)

def cool (parent pid : Pid) : Option (State Data) :=
  match state.swips pid with
  | some (.hot bf) =>
    if state.Under parent pid ∧ (state.frames bf).keepInMemory = false ∧
        (state.frames bf).isBeingWrittenBack = false ∧
        ∀ child ∈ state.children pid, state.swips child = some .evicted then
      some ((state.setFrame bf { (state.frames bf).unlock with state := .cool }).setSwip pid
        (some (.cool bf)))
    else none
  | _ => none

/-- The tests of phase 2, the look at `io_ht` included. -/
def check (thread : ThreadId) (purpose : Purpose) (bf : FrameId) : Option (State Data) :=
  if state.threads thread = .idle ∧ bf.tier = purpose.tier ∧
      (state.frames bf).state = .cool ∧ (state.frames bf).isBeingWrittenBack = false ∧
      state.ioTable (state.frames bf).pid = none ∧ purpose.admits (state.frames bf) then
    some (state.setOp thread (.checked purpose bf (state.frames bf).pid (state.frames bf).version))
  else none

/-- `demote_bf_to_cxl` takes its CXL frame before it has any latch. -/
def popTarget (thread : ThreadId) (cxlPartition : Nat) : Option (State Data) :=
  match state.threads thread, state.free ⟨.cxl, cxlPartition⟩ with
  | .checked .demote bf pid version, target :: rest =>
    some ((state.setFree ⟨.cxl, cxlPartition⟩ rest).setOp thread (.demoting bf pid version target))
  | _, _ => none

/-- `findParent` gives the swip that refers to the frame. -/
def demote (thread : ThreadId) (parent : Pid) : Option (State Data) :=
  match state.threads thread with
  | .demoting bf pid version target =>
    if state.Under parent pid ∧ state.swips pid = some (.cool bf) ∧
        (state.frames bf).version = version then
      some (((((state.setFrame target ((state.frames target).copyHot (state.frames bf)
            (state.frames bf).keepInMemory)).setFrame bf
            (state.frames bf).reset.unlock).setSwip pid (some (.hot target))).setBatch
          ⟨thread, .dram⟩ (bf :: state.batches ⟨thread, .dram⟩)).setOp thread .idle)
    else none
  | _ => none

/-- The latch of the parent or of the frame could not be had.  The jump leaves the
popped frame in a local variable. -/
def abandon (thread : ThreadId) : Option (State Data) :=
  match state.threads thread with
  | .demoting _ _ _ _ => some (state.setOp thread .idle)
  | _ => none

/-- The write-back of phase 2: the page is copied under the latch. -/
def submit (thread : ThreadId) : Option (State Data) :=
  match state.threads thread with
  | .checked .write bf pid version =>
    if (state.frames bf).version = version then
      some (((state.setFrame bf
            { (state.frames bf).unlock with isBeingWrittenBack := true }).setWrite bf
          (some ⟨pid, (state.frames bf).page, false, state.issued pid⟩)).setOp thread .idle)
    else none
  | _ => none

def finishWrite (bf : FrameId) : Option (State Data) :=
  match state.writes bf with
  | some write =>
    if write.finished then none
    else some ((state.setBlock write.pid write.page).setWrite bf
      (some { write with finished := true }))
  | none => none

def writtenBack (thread : ThreadId) (bf : FrameId) : Option (State Data) :=
  match state.writes bf with
  | some write =>
    if state.threads thread = .idle ∧ write.finished then
      some (((state.setFrame bf { (state.frames bf).unlock with
          lastWrittenPlsn := write.page.plsn
          isBeingWrittenBack := false }).setWrite bf none).setOp thread (.afterWrite bf))
    else none
  | none => none

/-- Phase 3 when the latch could not be had. -/
def writtenBackLost (thread : ThreadId) (bf : FrameId) : Option (State Data) :=
  match state.writes bf with
  | some write =>
    if state.threads thread = .idle ∧ write.finished then
      some (((state.setFrame bf
          { state.frames bf with isBeingWrittenBack := false }).setWrite bf none).setOp
        thread (.afterWrite bf))
    else none
  | none => none

def evictFrame (thread : ThreadId) (bf : FrameId) (pid : Pid) : State Data :=
  (((state.setFrame bf (state.frames bf).reset.unlock).setSwip pid (some .evicted)).setBatch
    ⟨thread, .cxl⟩ (bf :: state.batches ⟨thread, .cxl⟩)).setOp thread .idle

def evict (thread : ThreadId) (parent : Pid) : Option (State Data) :=
  match state.threads thread with
  | .checked .evict bf pid version =>
    if state.Under parent pid ∧ state.swips pid = some (.cool bf) ∧
        (state.frames bf).version = version then
      some (state.evictFrame thread bf pid)
    else none
  | _ => none

/-- A page of phase 3 that is still cool and now clean.  There is no look at `io_ht`
here. -/
def evictWritten (thread : ThreadId) (parent : Pid) : Option (State Data) :=
  match state.threads thread with
  | .afterWrite bf =>
    if state.Under parent (state.frames bf).pid ∧
        state.swips (state.frames bf).pid = some (.cool bf) ∧
        (state.frames bf).state = .cool ∧ (state.frames bf).isBeingWrittenBack = false ∧
        (state.frames bf).isDirty = false then
      some (state.evictFrame thread bf (state.frames bf).pid)
    else none
  | _ => none

/-- A jump before any frame is taken. -/
def giveUp (thread : ThreadId) : Option (State Data) :=
  match state.threads thread with
  | .checked _ _ _ _ => some (state.setOp thread .idle)
  | .afterWrite _ => some (state.setOp thread .idle)
  | _ => none

def pushBatch (thread : ThreadId) (tier : Tier) (partition : Nat) : Option (State Data) :=
  some ((state.setBatch ⟨thread, tier⟩ []).setFree ⟨tier, partition⟩
    (state.batches ⟨thread, tier⟩ ++ state.free ⟨tier, partition⟩))

/-- `promoteFullPage` under the latches of the parent and of the CXL frame. -/
def promote (parent pid : Pid) (dramPartition cxlPartition : Nat) : Option (State Data) :=
  match state.swips pid, state.free ⟨.dram, dramPartition⟩ with
  | some (.hot bf), target :: rest =>
    if state.Under parent pid ∧ bf.tier = .cxl ∧
        (state.frames bf).isBeingWrittenBack = false then
      some (((((state.setFrame target ((state.frames target).copyHot (state.frames bf)
            (state.frames target).keepInMemory)).setFrame bf
            (state.frames bf).reset.unlock).setSwip pid (some (.hot target))).setFree
          ⟨.dram, dramPartition⟩ rest).push ⟨.cxl, cxlPartition⟩ bf)
    else none
  | _, _ => none

end State

def ProviderAction.step (state : State Data) : ProviderAction → Option (State Data)
  | .cool parent pid => state.cool parent pid
  | .check thread purpose bf => state.check thread purpose bf
  | .popTarget thread cxlPartition => state.popTarget thread cxlPartition
  | .demote thread parent => state.demote thread parent
  | .abandon thread => state.abandon thread
  | .submit thread => state.submit thread
  | .finishWrite bf => state.finishWrite bf
  | .writtenBack thread bf => state.writtenBack thread bf
  | .writtenBackLost thread bf => state.writtenBackLost thread bf
  | .evict thread parent => state.evict thread parent
  | .evictWritten thread parent => state.evictWritten thread parent
  | .giveUp thread => state.giveUp thread
  | .pushBatch thread tier partition => state.pushBatch thread tier partition
  | .promote parent pid dramPartition cxlPartition =>
    state.promote parent pid dramPartition cxlPartition

inductive ProviderStep (s : State Data) : ProviderAction → State Data → Prop
  | cool {parent pid bf} (isHot : s.swips pid = some (.hot bf)) (under : s.Under parent pid)
    (unwritten : (s.frames bf).isBeingWrittenBack = false)
    (unswizzled : ∀ child ∈ s.children pid, s.swips child = some .evicted) :
    ProviderStep s (.cool parent pid)
      ((s.setFrame bf { (s.frames bf).unlock with state := .cool }).setSwip pid
        (some (.cool bf)))
  | check {t purpose bf} (isIdle : s.threads t = .idle) (inPool : bf.tier = purpose.tier)
    (isCool : (s.frames bf).state = .cool) (unwritten : (s.frames bf).isBeingWrittenBack = false)
    (absent : s.ioTable (s.frames bf).pid = none) (admitted : purpose.admits (s.frames bf)) :
    ProviderStep s (.check t purpose bf)
      (s.setOp t (.checked purpose bf (s.frames bf).pid (s.frames bf).version))
  | popTarget {t cxlPartition bf target pid v rest} (isChecked : s.threads t = .checked .demote bf pid v)
    (isFree : s.free ⟨.cxl, cxlPartition⟩ = target :: rest) :
    ProviderStep s (.popTarget t cxlPartition)
      ((s.setFree ⟨.cxl, cxlPartition⟩ rest).setOp t (.demoting bf pid v target))
  | demote {t parent pid bf target v} (isDemoting : s.threads t = .demoting bf pid v target)
    (under : s.Under parent pid) (isCool : s.swips pid = some (.cool bf))
    (unchanged : (s.frames bf).version = v) :
    ProviderStep s (.demote t parent)
      (((((s.setFrame target ((s.frames target).copyHot (s.frames bf)
          (s.frames bf).keepInMemory)).setFrame bf
          (s.frames bf).reset.unlock).setSwip pid (some (.hot target))).setBatch
        ⟨t, .dram⟩ (bf :: s.batches ⟨t, .dram⟩)).setOp t .idle)
  | abandon {t pid bf target v} (isDemoting : s.threads t = .demoting bf pid v target) :
    ProviderStep s (.abandon t) (s.setOp t .idle)
  | submit {t bf pid v}
    (isChecked : s.threads t = .checked .write bf pid v) (unchanged : (s.frames bf).version = v) :
    ProviderStep s (.submit t)
      (((s.setFrame bf
          { (s.frames bf).unlock with isBeingWrittenBack := true }).setWrite bf
        (some ⟨pid, (s.frames bf).page, false, s.issued pid⟩)).setOp t .idle)
  | finishWrite {bf write}
    (isWritten : s.writes bf = some write) (unfinished : write.finished = false) :
    ProviderStep s (.finishWrite bf)
      ((s.setBlock write.pid write.page).setWrite bf (some { write with finished := true }))
  | writtenBack {t bf write} (isWritten : s.writes bf = some write) (isIdle : s.threads t = .idle)
    (finished : write.finished = true) :
    ProviderStep s (.writtenBack t bf)
      (((s.setFrame bf { (s.frames bf).unlock with
          lastWrittenPlsn := write.page.plsn
          isBeingWrittenBack := false }).setWrite bf none).setOp t (.afterWrite bf))
  | writtenBackLost {t bf write}
    (isWritten : s.writes bf = some write) (isIdle : s.threads t = .idle)
    (finished : write.finished = true) :
    ProviderStep s (.writtenBackLost t bf)
      (((s.setFrame bf
          { s.frames bf with isBeingWrittenBack := false }).setWrite bf none).setOp
        t (.afterWrite bf))
  | evict {t parent pid bf v} (isChecked : s.threads t = .checked .evict bf pid v)
    (under : s.Under parent pid) (isCool : s.swips pid = some (.cool bf))
    (unchanged : (s.frames bf).version = v) :
    ProviderStep s (.evict t parent) (s.evictFrame t bf pid)
  | evictWritten {t parent bf}
    (isAfterWrite : s.threads t = .afterWrite bf) (under : s.Under parent (s.frames bf).pid)
    (isCool : s.swips (s.frames bf).pid = some (.cool bf))
    (unwritten : (s.frames bf).isBeingWrittenBack = false) (clean : (s.frames bf).isDirty = false) :
    ProviderStep s (.evictWritten t parent)
      (s.evictFrame t bf (s.frames bf).pid)
  | giveUpChecked {t purpose bf pid v} (isChecked : s.threads t = .checked purpose bf pid v) :
    ProviderStep s (.giveUp t) (s.setOp t .idle)
  | giveUpWritten {t bf} (isAfterWrite : s.threads t = .afterWrite bf) :
    ProviderStep s (.giveUp t) (s.setOp t .idle)
  | pushBatch {t tier partition} :
    ProviderStep s (.pushBatch t tier partition)
      ((s.setBatch ⟨t, tier⟩ []).setFree ⟨tier, partition⟩
        (s.batches ⟨t, tier⟩ ++ s.free ⟨tier, partition⟩))
  | promote {parent pid dramPartition cxlPartition bf target rest} (isHot : s.swips pid = some (.hot bf))
    (isFree : s.free ⟨.dram, dramPartition⟩ = target :: rest)
    (under : s.Under parent pid) (inCxl : bf.tier = .cxl)
    (unwritten : (s.frames bf).isBeingWrittenBack = false) :
    ProviderStep s (.promote parent pid dramPartition cxlPartition)
      (((((s.setFrame target ((s.frames target).copyHot (s.frames bf)
          (s.frames target).keepInMemory)).setFrame bf
          (s.frames bf).reset.unlock).setSwip pid (some (.hot target))).setFree
        ⟨.dram, dramPartition⟩ rest).push ⟨.cxl, cxlPartition⟩ bf)

theorem ProviderAction.step_sound {s s' : State Data} {a : ProviderAction}
    (taken : a.step s = some s') : ProviderStep s a s' := by
  cases a with
  | pushBatch t tier partition => exact Option.some.inj taken ▸ .pushBatch
  | giveUp t =>
    simp only [step, State.giveUp] at taken
    split at taken
    · next isChecked => exact Option.some.inj taken ▸ .giveUpChecked isChecked
    · next isAfterWrite => exact Option.some.inj taken ▸ .giveUpWritten isAfterWrite
    · cases taken
  | _ =>
    simp only [step, State.cool, State.check, State.popTarget, State.demote, State.abandon,
      State.submit, State.finishWrite, State.writtenBack, State.writtenBackLost, State.evict,
      State.evictWritten, State.promote] at taken
    repeat' split at taken
    all_goals
      simp only [Option.some.injEq, reduceCtorEq] at taken <;> subst taken <;>
        constructor <;> first | assumption | simp_all

end TieredStore.BufferManager
