import Mathlib

/-!
`HybridLatch` and the state changes of a `Guard` on it.  A blocking call that has
to wait, and a call that jumps, have no result.
-/

namespace TieredStore.FrameLatch

abbrev Pid := Nat
abbrev GuardId := Nat

/-- `mutex` of the source, by who holds it. -/
structure HybridLatch where
  version : UInt64
  holder : Option GuardId
  sharers : List GuardId
  deriving DecidableEq, Repr

inductive GuardState
  | uninitialized
  | optimistic
  | shared
  | exclusive
  | moved
  deriving DecidableEq, Repr

inductive FrameState
  | free
  | hot
  | cool
  | loaded
  deriving DecidableEq, Repr

/-- What a guard finds in the frame when it reads the version.  `tenure` and
`sections` are not part of the program: they number the pages the frame has held,
and the exclusive sections that have ended. -/
structure Seen where
  pid : Pid
  state : FrameState
  tenure : Nat
  sections : Nat
  deriving DecidableEq, Repr

structure Guard where
  state : GuardState
  version : UInt64
  seen : Option Seen
  deriving DecidableEq, Repr

namespace HybridLatch

def isExclusivelyLatched (latch : HybridLatch) : Bool := latch.version &&& 1 == 1

def lock (latch : HybridLatch) (id : GuardId) : Option HybridLatch :=
  if latch.holder = none ∧ latch.sharers = [] then
    some { latch with holder := some id }
  else
    none

def lockShared (latch : HybridLatch) (id : GuardId) : Option HybridLatch :=
  if latch.holder = none then some { latch with sharers := id :: latch.sharers } else none

end HybridLatch

namespace Guard

variable (guard : Guard) (latch : HybridLatch) (id : GuardId) (seen : Seen)

def new : Guard := ⟨.uninitialized, 0, none⟩

def recheck : Bool := guard.state != .optimistic || guard.version == latch.version

/-- `toOptimisticSpin`, `toOptimisticOrJump`, and the two fallback modes while the
latch is free. -/
def toOptimistic : Option Guard :=
  if guard.state = .uninitialized ∧ latch.isExclusivelyLatched = false then
    some ⟨.optimistic, latch.version, some seen⟩
  else
    none

/-- The contended case of `toOptimisticOrShared`. -/
def lockShared : Option (Guard × HybridLatch) :=
  if guard.state = .uninitialized then
    (latch.lockShared id).map fun latch => (⟨.shared, latch.version, some seen⟩, latch)
  else
    none

/-- The contended case of `toOptimisticOrExclusive`, and `toExclusive` without a
version to compare. -/
def lockExclusive : Option (Guard × HybridLatch) :=
  if guard.state = .uninitialized then
    (latch.lock id).map fun latch =>
      (⟨.exclusive, latch.version + 1, some seen⟩, { latch with version := latch.version + 1 })
  else
    none

/-- `toExclusive` and `tryToExclusive` from a version: the exchange succeeds on
that version only. -/
def toExclusive : Option (Guard × HybridLatch) :=
  if guard.state = .optimistic ∧ guard.version = latch.version then
    (latch.lock id).map fun latch =>
      ({ guard with state := .exclusive, version := guard.version + 1 },
        { latch with version := guard.version + 1 })
  else
    none

def toShared : Option (Guard × HybridLatch) :=
  if guard.state = .optimistic ∧ guard.version = latch.version then
    (latch.lockShared id).map fun latch => ({ guard with state := .shared }, latch)
  else
    none

/-- The end of an exclusive section stores the guard's own next version. -/
def unlockExclusive : Option (Guard × HybridLatch) :=
  if guard.state = .exclusive then
    some (⟨.optimistic, guard.version + 1, some seen⟩,
      { latch with version := guard.version + 1, holder := none })
  else
    none

def unlockShared : Option (Guard × HybridLatch) :=
  if guard.state = .shared then
    some ({ guard with state := .optimistic }, { latch with sharers := latch.sharers.erase id })
  else
    none

end Guard

end TieredStore.FrameLatch
