import TieredStore.BufferManager.State

/-! `resolveSwip`, cut where it lets go of `ht_mutex` and of its latches. -/

namespace TieredStore.BufferManager

/-- `partition` and its like say which of the free lists is picked. -/
inductive ResolveAction
  | warm (parent pid : Pid)
  | miss (thread : ThreadId) (pid : Pid) (partition : Nat)
  | readPage (thread : ThreadId)
  | redirect (thread : ThreadId) (dramPartition cxlPartition : Nat)
  | keep (thread : ThreadId) (dramPartition : Nat)
  | swizzle (thread : ThreadId) (parent : Pid)
  | publish (thread : ThreadId)
  | wait (thread : ThreadId) (pid : Pid)
  | wake (thread : ThreadId)
  | leave (thread : ThreadId)
  | takeReady (parent pid : Pid)
  | dropDeleted (pid : Pid)
  deriving DecidableEq, Repr

variable {Data : Type}

def BufferFrame.load (frame : BufferFrame Data) (pid : Pid) (page : Page Data) :
    BufferFrame Data :=
  { frame with page := page, lastWrittenPlsn := page.plsn, state := .loaded, pid := pid }

/-- A copy of a page that was just read, in another frame. -/
def BufferFrame.copyLoaded (frame source : BufferFrame Data) (pid : Pid) :
    BufferFrame Data :=
  { frame with
    page := source.page
    lastWrittenPlsn := source.lastWrittenPlsn
    state := .loaded
    pid := pid }

def IOFrame.leaveReader (ioFrame : IOFrame) : IOFrame :=
  { ioFrame with readersCounter := ioFrame.readersCounter - 1 }

namespace State

variable (config : Config Data) (state : State Data)

/-- The COOL branch, under the latches of the parent and of the frame. -/
def warm (parent pid : Pid) : Option (State Data) :=
  match state.swips pid with
  | some (.cool bf) =>
    if state.Under parent pid then
      some ((state.setFrame bf { (state.frames bf).unlock with state := .hot }).setSwip pid
        (some (.hot bf)))
    else none
  | _ => none

/-- No entry in `io_ht`: pop a CXL frame, insert an entry and let go of `ht_mutex`. -/
def miss (thread : ThreadId) (pid : Pid) (partition : Nat) : Option (State Data) :=
  match state.free ⟨.cxl, partition⟩ with
  | [] => none
  | bf :: rest =>
    if state.threads thread = .idle ∧ state.swips pid = some .evicted ∧
        state.ioTable pid = none then
      some (((state.insertEntry pid ⟨.reading, true, none, 1⟩).setFree ⟨.cxl, partition⟩
        rest).setOp thread (.loading .reading pid state.nextEntry bf))
    else none

/-- `readPageSync` and the filling of the header. -/
def readPage (thread : ThreadId) : Option (State Data) :=
  match state.threads thread with
  | .loading .reading pid entry bf =>
    some ((state.setFrame bf ((state.frames bf).load pid (state.ssd pid))).setOp thread
      (.loading .loaded pid entry bf))
  | _ => none

def unlockEntry (entry : EntryId) : State Data :=
  state.setEntry entry { state.entries entry with locked := false }

/-- An index page goes to a DRAM frame at once and its CXL frame is given back. -/
def redirect (thread : ThreadId) (dramPartition cxlPartition : Nat) : Option (State Data) :=
  match state.threads thread, state.free ⟨.dram, dramPartition⟩ with
  | .loading .loaded pid entry bf, target :: rest =>
    if config.shouldDirectlyPromoteToDRAM (state.frames bf).page.data then
      some ((((((state.setFrame target
            ((state.frames target).copyLoaded (state.frames bf) pid)).setFrame bf
            (state.frames bf).reset).setFree ⟨.dram, dramPartition⟩ rest).push
          ⟨.cxl, cxlPartition⟩ bf).unlockEntry entry).setOp thread
        (.loading .installing pid entry target))
    else none
  | _, _ => none

/-- The page stays in the CXL frame: it is not an index page, or DRAM is full. -/
def keep (thread : ThreadId) (dramPartition : Nat) : Option (State Data) :=
  match state.threads thread with
  | .loading .loaded pid entry bf =>
    if config.shouldDirectlyPromoteToDRAM (state.frames bf).page.data = false ∨
        state.free ⟨.dram, dramPartition⟩ = [] then
      some ((state.unlockEntry entry).setOp thread (.loading .installing pid entry bf))
    else none
  | _ => none

def swizzleIn (pid : Pid) (bf : FrameId) (frame : BufferFrame Data) : State Data :=
  (state.setFrame bf { frame with state := .hot }).setSwip pid (some (.hot bf))

/-- The loader swizzles the page in, under `ht_mutex` and the latch of the parent. -/
def swizzle (thread : ThreadId) (parent : Pid) : Option (State Data) :=
  match state.threads thread with
  | .loading .installing pid entry bf =>
    if state.swips pid = some .evicted ∧ state.Under parent pid then
      let swizzled := ((state.swizzleIn pid bf (state.frames bf)).setEntry entry
        (state.entries entry).leaveReader).setOp thread .idle
      if (state.entries entry).readersCounter = 1 then
        if state.ioTable pid = none then none else some (swizzled.removeEntry pid)
      else some swizzled
    else none
  | _ => none

/-- The loader lost its guard and leaves the frame to the next reader. -/
def publish (thread : ThreadId) : Option (State Data) :=
  match state.threads thread with
  | .loading .installing _ entry bf =>
    some ((state.setEntry entry
      { state.entries entry with bf := some bf, state := .ready }).setOp thread .idle)
  | _ => none

/-- The READING branch, up to the loader's mutex. -/
def wait (thread : ThreadId) (pid : Pid) : Option (State Data) :=
  match state.ioTable pid with
  | none => none
  | some entry =>
    if state.threads thread = .idle ∧ state.swips pid = some .evicted ∧
        (state.entries entry).state = .reading then
      some ((state.setEntry entry { state.entries entry with
        readersCounter := (state.entries entry).readersCounter + 1 }).setOp thread
          (.waiting pid entry))
    else none

/-- The loader's mutex is free again.  The counter is decremented without `ht_mutex`. -/
def wake (thread : ThreadId) : Option (State Data) :=
  match state.threads thread with
  | .waiting pid entry =>
    if (state.entries entry).locked = false then
      some ((state.setEntry entry (state.entries entry).leaveReader).setOp thread
        (if (state.entries entry).readersCounter = 1 then .leaving pid entry else .idle))
    else none
  | _ => none

/-- The last reader looks at the counter again under `ht_mutex`. -/
def leave (thread : ThreadId) : Option (State Data) :=
  match state.threads thread with
  | .leaving pid entry =>
    if (state.entries entry).readersCounter = 0 then
      if state.ioTable pid = none then none
      else some ((state.removeEntry pid).setOp thread .idle)
    else some (state.setOp thread .idle)
  | _ => none

/-- The READY branch, under `ht_mutex` and the latches of the parent and the frame. -/
def takeReady (parent pid : Pid) : Option (State Data) :=
  match state.ioTable pid with
  | none => none
  | some entry =>
    match (state.entries entry).bf with
    | none => none
    | some bf =>
      if state.swips pid = some .evicted ∧ state.Under parent pid ∧
          (state.entries entry).state = .ready then
        let swizzled := state.swizzleIn pid bf (state.frames bf).unlock
        if (state.entries entry).readersCounter = 1 then
          some ((swizzled.setEntry entry
            { (state.entries entry).leaveReader with bf := none }).removeEntry pid)
        else
          some (swizzled.setEntry entry
            { (state.entries entry).leaveReader with bf := none, state := .toDelete })
      else none

def dropDeleted (pid : Pid) : Option (State Data) :=
  match state.ioTable pid with
  | none => none
  | some entry =>
    if state.swips pid = some .evicted ∧ (state.entries entry).state = .toDelete ∧
        (state.entries entry).readersCounter = 0 then
      some (state.removeEntry pid)
    else none

end State

def ResolveAction.step (config : Config Data) (state : State Data) :
    ResolveAction → Option (State Data)
  | .warm parent pid => state.warm parent pid
  | .miss thread pid partition => state.miss thread pid partition
  | .readPage thread => state.readPage thread
  | .redirect thread dramPartition cxlPartition =>
    state.redirect config thread dramPartition cxlPartition
  | .keep thread dramPartition => state.keep config thread dramPartition
  | .swizzle thread parent => state.swizzle thread parent
  | .publish thread => state.publish thread
  | .wait thread pid => state.wait thread pid
  | .wake thread => state.wake thread
  | .leave thread => state.leave thread
  | .takeReady parent pid => state.takeReady parent pid
  | .dropDeleted pid => state.dropDeleted pid

inductive ResolveStep (cfg : Config Data) (s : State Data) :
    ResolveAction → State Data → Prop
  | warm {parent pid bf} (isCool : s.swips pid = some (.cool bf)) (under : s.Under parent pid) :
    ResolveStep cfg s (.warm parent pid)
      ((s.setFrame bf { (s.frames bf).unlock with state := .hot }).setSwip pid
        (some (.hot bf)))
  | miss {t pid partition bf rest} (isIdle : s.threads t = .idle)
    (isEvicted : s.swips pid = some .evicted) (absent : s.ioTable pid = none)
    (isFree : s.free ⟨.cxl, partition⟩ = bf :: rest) :
    ResolveStep cfg s (.miss t pid partition)
      (((s.insertEntry pid ⟨.reading, true, none, 1⟩).setFree ⟨.cxl, partition⟩
        rest).setOp t (.loading .reading pid s.nextEntry bf))
  | readPage {t pid e bf} (isReading : s.threads t = .loading .reading pid e bf) :
    ResolveStep cfg s (.readPage t)
      ((s.setFrame bf ((s.frames bf).load pid (s.ssd pid))).setOp t
        (.loading .loaded pid e bf))
  | redirect {t dramPartition cxlPartition pid e bf target rest}
    (isLoaded : s.threads t = .loading .loaded pid e bf)
    (isFree : s.free ⟨.dram, dramPartition⟩ = target :: rest) :
    ResolveStep cfg s (.redirect t dramPartition cxlPartition)
      ((((((s.setFrame target
          ((s.frames target).copyLoaded (s.frames bf) pid)).setFrame bf
          (s.frames bf).reset).setFree ⟨.dram, dramPartition⟩ rest).push
        ⟨.cxl, cxlPartition⟩ bf).unlockEntry e).setOp t
      (.loading .installing pid e target))
  | keep {t dramPartition pid e bf} (isLoaded : s.threads t = .loading .loaded pid e bf) :
    ResolveStep cfg s (.keep t dramPartition)
      ((s.unlockEntry e).setOp t (.loading .installing pid e bf))
  | swizzleLast {t parent pid e bf} (isInstalling : s.threads t = .loading .installing pid e bf)
    (isEvicted : s.swips pid = some .evicted) (under : s.Under parent pid)
    (last : (s.entries e).readersCounter = 1) :
    ResolveStep cfg s (.swizzle t parent)
      ((((s.swizzleIn pid bf (s.frames bf)).setEntry e
        (s.entries e).leaveReader).setOp t .idle).removeEntry pid)
  | swizzle {t parent pid e bf} (isInstalling : s.threads t = .loading .installing pid e bf)
    (isEvicted : s.swips pid = some .evicted) (under : s.Under parent pid)
    (more : (s.entries e).readersCounter ≠ 1) :
    ResolveStep cfg s (.swizzle t parent)
      (((s.swizzleIn pid bf (s.frames bf)).setEntry e
        (s.entries e).leaveReader).setOp t .idle)
  | publish {t pid e bf} (isInstalling : s.threads t = .loading .installing pid e bf) :
    ResolveStep cfg s (.publish t)
      ((s.setEntry e
        { s.entries e with bf := some bf, state := .ready }).setOp t .idle)
  | wait {t pid e} (isIdle : s.threads t = .idle) (isEvicted : s.swips pid = some .evicted)
    (present : s.ioTable pid = some e) (isReading : (s.entries e).state = .reading) :
    ResolveStep cfg s (.wait t pid)
      ((s.setEntry e { s.entries e with
        readersCounter := (s.entries e).readersCounter + 1 }).setOp t
          (.waiting pid e))
  | wakeLast {t pid e} (isWaiting : s.threads t = .waiting pid e)
    (last : (s.entries e).readersCounter = 1) :
    ResolveStep cfg s (.wake t)
      ((s.setEntry e (s.entries e).leaveReader).setOp t (.leaving pid e))
  | wake {t pid e} (isWaiting : s.threads t = .waiting pid e)
    (more : (s.entries e).readersCounter ≠ 1) :
    ResolveStep cfg s (.wake t)
      ((s.setEntry e (s.entries e).leaveReader).setOp t .idle)
  | leaveLast {t pid e} (isLeaving : s.threads t = .leaving pid e)
    (last : (s.entries e).readersCounter = 0) :
    ResolveStep cfg s (.leave t) ((s.removeEntry pid).setOp t .idle)
  | leave {t pid e} (isLeaving : s.threads t = .leaving pid e)
    (more : (s.entries e).readersCounter ≠ 0) :
    ResolveStep cfg s (.leave t) (s.setOp t .idle)
  | takeReadyLast {parent pid e bf}
    (present : s.ioTable pid = some e) (hasFrame : (s.entries e).bf = some bf)
    (isEvicted : s.swips pid = some .evicted) (under : s.Under parent pid)
    (isReady : (s.entries e).state = .ready) (last : (s.entries e).readersCounter = 1) :
    ResolveStep cfg s (.takeReady parent pid)
      (((s.swizzleIn pid bf (s.frames bf).unlock).setEntry e
        { (s.entries e).leaveReader with bf := none }).removeEntry pid)
  | takeReady {parent pid e bf}
    (present : s.ioTable pid = some e) (hasFrame : (s.entries e).bf = some bf)
    (isEvicted : s.swips pid = some .evicted) (under : s.Under parent pid)
    (isReady : (s.entries e).state = .ready) (more : (s.entries e).readersCounter ≠ 1) :
    ResolveStep cfg s (.takeReady parent pid)
      ((s.swizzleIn pid bf (s.frames bf).unlock).setEntry e
        { (s.entries e).leaveReader with bf := none, state := .toDelete })
  | dropDeleted {pid e} (present : s.ioTable pid = some e) (isEvicted : s.swips pid = some .evicted)
    (isDeleted : (s.entries e).state = .toDelete) :
    ResolveStep cfg s (.dropDeleted pid) (s.removeEntry pid)

theorem ResolveAction.step_sound {cfg : Config Data} {s s' : State Data}
    {a : ResolveAction} (taken : a.step cfg s = some s') : ResolveStep cfg s a s' := by
  cases a <;>
    simp only [step, State.warm, State.miss, State.readPage, State.redirect, State.keep,
      State.swizzle, State.publish, State.wait, State.wake, State.leave, State.takeReady,
      State.dropDeleted] at taken <;>
    (repeat' split at taken) <;>
    simp only [Option.some.injEq, reduceCtorEq] at taken <;> subst taken
  all_goals
    constructor <;> first | assumption | simp_all

end TieredStore.BufferManager
