import TieredStore.RecordCache.State

/-! `processOnPromotionRequest`, cut at its accesses to shared state. -/

namespace TieredStore.RecordCache

inductive PromoteAction
  | dequeue
  | reject
  | allocate (entry : Addr)
  | allocFail
  | install
  | freePreallocated
  | insertIntoFifo
  | guard
  | check
  | readHeader
  | copyValue
  | recheck
  | unlinkFailed (chain : List Addr)
  | setRemoved
  | decide
  | finish (chain : List Addr)
  | increment
  deriving DecidableEq, Repr

def PromoteAction.allocated? : PromoteAction → Option Addr
  | .allocate entry => some entry
  | _ => none

def headAllowsInstall (memory : Memory) (key : Bytes) : Bool :=
  match memory.table key with
  | none => true
  | some head => decide (memory.typeOf head).Doomed

/-- The identity checks of phase 2: frame, page state, slot and key. -/
def slotStillHoldsKey (config : Config) (request : PromoteRequestMessage)
    (frame : BufferFrame) : Bool :=
  decide (frame.pid = request.pid) && decide (frame.state = .hot) &&
    match frame.slots[request.slotId]? with
    | none => false
    | some slot =>
      decide (config.prefixBytes ≤ request.keyLength) &&
        decide (slot.key.length = request.keyLength - config.prefixBytes) &&
        decide (slot.key.length ≤ 256) &&
        decide (slot.key = (request.key.drop config.prefixBytes).take slot.key.length)

def phase3Decision (memory : Memory) (entry : Addr) : Decision :=
  match memory.typeOf entry with
  | .promoteThreadHoldingThePosition =>
    if (memory.heap entry).updateDuringPromote then .cancel else .publish
  | .logicallyDeletedButStillInHashTable => .cancel
  | _ => .nothing

/-- The copied value bytes, and zeroes where the slot has disappeared: such a
read validates only if the frame's latch was reset. -/
def copyValueBytes (frame : BufferFrame) (request : PromoteRequestMessage) :
    Bytes :=
  match frame.slots[request.slotId]? with
  | none => List.replicate request.valueLength 0
  | some slot => (slot.tuple.copyOut request.valueLength).value

def promoteStep (config : Config) (state : State) (thread : Nat) :
    PromoteAction → Option State
  | .dequeue =>
    match state.promoters thread, state.requests with
    | .idle, request :: rest =>
      some { state.setPromoter thread (.allocating request) with
        requests := rest }
    | _, _ => none
  | .reject =>
    match state.promoters thread with
    | .allocating _ => some (state.setPromoter thread .idle)
    | _ => none
  | .allocate entry =>
    match state.promoters thread with
    | .allocating request =>
      if state.memory.allocated entry then
        none
      else
        some { state.setPromoter thread (.preallocated request entry) with
          memory := state.memory.allocateNewEntry entry request.key
            request.valueLength }
    | _ => none
  | .allocFail =>
    match state.promoters thread with
    | .allocating _ => some (state.setPromoter thread .idle)
    | _ => none
  | .install =>
    match state.promoters thread with
    | .preallocated request entry =>
      if state.shardMutex (config.shardOf request.key) = none then
        if headAllowsInstall state.memory request.key then
          some { state.setPromoter thread (.installed request entry) with
            memory := state.memory.install request.key entry }
        else
          some (state.setPromoter thread (.notConsumed request entry))
      else
        none
    | _ => none
  | .freePreallocated =>
    match state.promoters thread with
    | .notConsumed _ entry =>
      some { state.setPromoter thread .idle with
        memory := state.memory.deallocate entry }
    | _ => none
  | .insertIntoFifo =>
    match state.promoters thread with
    | .installed request entry =>
      some { state.setPromoter thread (.reading request entry .start) with
        activeEntryCount := state.activeEntryCount + 1
        memory := state.memory.setVisited entry false
        sieveFifo := state.sieveFifo.pushBack entry }
    | _ => none
  | .guard =>
    match state.promoters thread with
    | .reading request entry .start =>
      let frame := state.leaves.frames request.bf
      if frame.isExclusivelyLatched then
        some (state.setPromoter thread (.readFailed request entry))
      else
        some (state.setPromoter thread (.reading request entry (.guarded frame.version)))
    | _ => none
  | .check =>
    match state.promoters thread with
    | .reading request entry (.guarded version) =>
      if slotStillHoldsKey config request (state.leaves.frames request.bf) then
        some (state.setPromoter thread (.reading request entry (.checked version)))
      else
        -- jumpmu_return: the placeholder stays where phase 1 put it
        some (state.setPromoter thread .idle)
    | _ => none
  | .readHeader =>
    match state.promoters thread with
    | .reading request entry (.checked version) =>
      match (state.leaves.frames request.bf).slots[request.slotId]? with
      | none =>
        some (state.setPromoter thread (.reading request entry (.header version 0 0 0)))
      | some slot =>
        some (state.setPromoter thread
          (.reading request entry (.header version slot.tuple.txTs
            slot.tuple.workerId slot.tuple.writer)))
    | _ => none
  | .copyValue =>
    match state.promoters thread with
    | .reading request entry (.header version txTs workerId writer) =>
      some (state.setPromoter thread
        (.reading request entry (.copied version
          ⟨txTs, workerId, copyValueBytes (state.leaves.frames request.bf) request, writer⟩)))
    | _ => none
  | .recheck =>
    match state.promoters thread with
    | .reading request entry (.copied version data) =>
      if (state.leaves.frames request.bf).version = version then
        some (state.setPromoter thread (.validated request entry data))
      else
        some (state.setPromoter thread (.readFailed request entry))
    | _ => none
  | .unlinkFailed chain =>
    match state.promoters thread with
    | .readFailed request entry =>
      if state.shardMutex (config.shardOf request.key) = none ∧
          state.memory.ChainOf request.key chain then
        some { state.setPromoter thread (.unlinked request entry) with
          memory := (state.memory.unlink request.key entry chain).1 }
      else
        none
    | _ => none
  | .setRemoved =>
    match state.promoters thread with
    | .unlinked _ entry =>
      some { state.setPromoter thread .counting with
        memory := state.memory.setType entry
          .removedFromHashTableButWaitForPhysicalMemoryDeallocation }
    | _ => none
  | .decide =>
    match state.promoters thread with
    | .validated request entry data =>
      if state.shardMutex (config.shardOf request.key) = none then
        some ((state.setMutex (config.shardOf request.key)
            (some (.promoter thread))).setPromoter thread
          (.deciding request entry data (phase3Decision state.memory entry)))
      else
        none
    | _ => none
  | .finish chain =>
    match state.promoters thread with
    | .deciding request entry data decision =>
      let unlocked := (state.setMutex (config.shardOf request.key) none).setPromoter thread .idle
      match decision with
      | .publish =>
        some { unlocked with memory := state.memory.publish entry data }
      | .cancel =>
        -- The lock is held up to the increment, which does not need it.
        if state.memory.ChainOf request.key chain then
          some { (state.setMutex (config.shardOf request.key)
              none).setPromoter thread .counting with
            memory := (state.memory.unlink request.key entry chain).1.setType
              entry .removedFromHashTableButWaitForPhysicalMemoryDeallocation }
        else
          none
      | .nothing => some unlocked
    | _ => none
  | .increment =>
    match state.promoters thread with
    | .counting =>
      some { state.setPromoter thread .idle with
        pendingStateInvalidatedFromHash :=
          state.pendingStateInvalidatedFromHash + 1 }
    | _ => none

inductive PromoteStep (cfg : Config) (s : State) (t : Nat) :
    PromoteAction → State → Prop
  | dequeue {req rest} (pc : s.promoters t = .idle) (queue : s.requests = req :: rest) :
    PromoteStep cfg s t .dequeue
      { s.setPromoter t (.allocating req) with requests := rest }
  | reject {req} (pc : s.promoters t = .allocating req) :
    PromoteStep cfg s t .reject (s.setPromoter t .idle)
  | allocate {req e} (pc : s.promoters t = .allocating req)
    (available : s.memory.allocated e = false) :
    PromoteStep cfg s t (.allocate e)
      { s.setPromoter t (.preallocated req e) with
        memory := s.memory.allocateNewEntry e req.key
          req.valueLength }
  | allocFail {req} (pc : s.promoters t = .allocating req) :
    PromoteStep cfg s t .allocFail (s.setPromoter t .idle)
  | install {req e} (pc : s.promoters t = .preallocated req e)
    (free : s.shardMutex (cfg.shardOf req.key) = none)
    (allowed : headAllowsInstall s.memory req.key = true) :
    PromoteStep cfg s t .install
      { s.setPromoter t (.installed req e) with
        memory := s.memory.install req.key e }
  | headStillLive {req e} (pc : s.promoters t = .preallocated req e)
    (free : s.shardMutex (cfg.shardOf req.key) = none)
    (refused : headAllowsInstall s.memory req.key = false) :
    PromoteStep cfg s t .install
      (s.setPromoter t (.notConsumed req e))
  | freePreallocated {req e} (pc : s.promoters t = .notConsumed req e) :
    PromoteStep cfg s t .freePreallocated
      { s.setPromoter t .idle with
        memory := s.memory.deallocate e }
  | insertIntoFifo {req e} (pc : s.promoters t = .installed req e) :
    PromoteStep cfg s t .insertIntoFifo
      { s.setPromoter t (.reading req e .start) with
        activeEntryCount := s.activeEntryCount + 1
        memory := s.memory.setVisited e false
        sieveFifo := s.sieveFifo.pushBack e }
  | guardJumps {req e} (pc : s.promoters t = .reading req e .start)
    (latched : (s.leaves.frames req.bf).isExclusivelyLatched = true) :
    PromoteStep cfg s t .guard
      (s.setPromoter t (.readFailed req e))
  | guard {req e} (pc : s.promoters t = .reading req e .start)
    (unlatched : (s.leaves.frames req.bf).isExclusivelyLatched = false) :
    PromoteStep cfg s t .guard
      (s.setPromoter t (.reading req e
        (.guarded (s.leaves.frames req.bf).version)))
  | check {req e v} (pc : s.promoters t = .reading req e (.guarded v))
    (holds : slotStillHoldsKey cfg req (s.leaves.frames req.bf) = true) :
    PromoteStep cfg s t .check
      (s.setPromoter t (.reading req e (.checked v)))
  | earlyReturn {req e v} (pc : s.promoters t = .reading req e (.guarded v))
    (fails : slotStillHoldsKey cfg req (s.leaves.frames req.bf) = false) :
    PromoteStep cfg s t .check (s.setPromoter t .idle)
  | readHeaderMissing {req e v} (pc : s.promoters t = .reading req e (.checked v))
    (missing : (s.leaves.frames req.bf).slots[req.slotId]? = none) :
    PromoteStep cfg s t .readHeader
      (s.setPromoter t (.reading req e (.header v 0 0 0)))
  | readHeader {req e v slot} (pc : s.promoters t = .reading req e (.checked v))
    (found : (s.leaves.frames req.bf).slots[req.slotId]? = some slot) :
    PromoteStep cfg s t .readHeader
      (s.setPromoter t (.reading req e (.header v
        slot.tuple.txTs slot.tuple.workerId slot.tuple.writer)))
  | copyValue {req e v txTs workerId writer}
    (pc : s.promoters t = .reading req e (.header v txTs workerId writer)) :
    PromoteStep cfg s t .copyValue
      (s.setPromoter t (.reading req e (.copied v
        ⟨txTs, workerId, copyValueBytes (s.leaves.frames req.bf) req, writer⟩)))
  | recheck {req e v data} (pc : s.promoters t = .reading req e (.copied v data))
    (same : (s.leaves.frames req.bf).version = v) :
    PromoteStep cfg s t .recheck
      (s.setPromoter t (.validated req e data))
  | recheckJumps {req e v data} (pc : s.promoters t = .reading req e (.copied v data))
    (changed : (s.leaves.frames req.bf).version ≠ v) :
    PromoteStep cfg s t .recheck
      (s.setPromoter t (.readFailed req e))
  | unlinkFailed {req e chain} (pc : s.promoters t = .readFailed req e)
    (free : s.shardMutex (cfg.shardOf req.key) = none) (walked : s.memory.ChainOf req.key chain) :
    PromoteStep cfg s t (.unlinkFailed chain)
      { s.setPromoter t (.unlinked req e) with
        memory := (s.memory.unlink req.key e chain).1 }
  | setRemoved {req e} (pc : s.promoters t = .unlinked req e) :
    PromoteStep cfg s t .setRemoved
      { s.setPromoter t .counting with
        memory := s.memory.setType e
          .removedFromHashTableButWaitForPhysicalMemoryDeallocation }
  | decide {req e data} (pc : s.promoters t = .validated req e data)
    (free : s.shardMutex (cfg.shardOf req.key) = none) :
    PromoteStep cfg s t .decide
      ((s.setMutex (cfg.shardOf req.key)
          (some (.promoter t))).setPromoter t
        (.deciding req e data (phase3Decision s.memory e)))
  | publish {req e data chain} (pc : s.promoters t = .deciding req e data .publish) :
    PromoteStep cfg s t (.finish chain)
      { (s.setMutex (cfg.shardOf req.key)
          none).setPromoter t .idle with
        memory := s.memory.publish e data }
  | cancel {req e data chain} (pc : s.promoters t = .deciding req e data .cancel)
    (walked : s.memory.ChainOf req.key chain) :
    PromoteStep cfg s t (.finish chain)
      { (s.setMutex (cfg.shardOf req.key)
          none).setPromoter t .counting with
        memory := (s.memory.unlink req.key e chain).1.setType
          e .removedFromHashTableButWaitForPhysicalMemoryDeallocation }
  | nothing {req e data chain} (pc : s.promoters t = .deciding req e data .nothing) :
    PromoteStep cfg s t (.finish chain)
      ((s.setMutex (cfg.shardOf req.key) none).setPromoter t .idle)
  | increment (pc : s.promoters t = .counting) :
    PromoteStep cfg s t .increment
      { s.setPromoter t .idle with
        pendingStateInvalidatedFromHash :=
          s.pendingStateInvalidatedFromHash + 1 }

theorem promoteStep_cases {cfg : Config} {s s' : State} {t : Nat} {a : PromoteAction}
    (taken : promoteStep cfg s t a = some s') : PromoteStep cfg s t a s' := by
  cases a <;> simp only [promoteStep] at taken <;>
    (repeat' split at taken) <;>
    simp only [Option.some.injEq, reduceCtorEq] at taken <;> subst taken
  all_goals
    constructor <;> first | assumption | simp_all

end TieredStore.RecordCache
