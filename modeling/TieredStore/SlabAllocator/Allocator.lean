import TieredStore.Lib.LinkQueue

/-!
`RecordCacheSlabAllocator`.  A region is cut into slabs of 2 MB, a slab into the
blocks of one size class.  The free blocks of a class are linked through their
own memory, and a slab without live blocks goes back to a pool that all classes
take from.
-/

namespace TieredStore.SlabAllocator

open LinkQueue

def hugePageSize : Nat := 2 * 1024 * 1024
def blockStep : Nat := 8
def minBlockSize : Nat := 24
def maxBlockSize : Nat := 16 * 1024
def numClasses : Nat := (maxBlockSize - minBlockSize) / blockStep + 1

/-- The mask `~(BLOCK_STEP - 1)` rounds down to a multiple of the step. -/
def alignUp (size : Nat) : Nat :=
  if size ≤ minBlockSize then minBlockSize
  else (size + blockStep - 1) / blockStep * blockStep

def getClassIndex (size : Nat) : Nat := (alignUp size - minBlockSize) / blockStep

structure SlabSizeClass where
  freeList : Option Nat
  freeListTail : Option Nat
  blockSize : Nat
  slabCount : Nat
  drainTargetIdx : Option Nat
  deriving DecidableEq, Repr

structure SlabMetadata where
  liveCount : Nat
  blockSize : Nat
  totalBlocks : Nat
  isDrainTarget : Bool
  deriving DecidableEq, Repr

/--
`memory` holds the `next` field of the `FreeNode` at an address, and the back of
`freeSlabPool` stands first.  `live` is a ghost: the blocks that were handed out
and not returned, with the sizes asked for.
-/
structure State where
  basePtr : Nat
  currentPtr : Nat
  endPtr : Nat
  totalCapacity : Nat
  bytesInUse : Nat
  classes : Nat → SlabSizeClass
  slabMetadata : Nat → SlabMetadata
  freeSlabPool : List Nat
  memory : Nat → Option Nat
  live : List (Nat × Nat)

/-- The constructor, which throws on a null pointer and on a region too small. -/
def construct (basePtr totalSize : Nat) (memory : Nat → Option Nat) : Option State :=
  if basePtr = 0 ∨ totalSize < hugePageSize then
    none
  else
    some
      { basePtr := basePtr
        currentPtr := basePtr
        endPtr := basePtr + totalSize
        totalCapacity := totalSize
        bytesInUse := 0
        classes := fun index => ⟨none, none, minBlockSize + index * blockStep, 0, none⟩
        slabMetadata := fun _ => ⟨0, 0, 0, false⟩
        freeSlabPool := []
        memory := memory
        live := [] }

namespace State

def setClass (state : State) (index : Nat) (sizeClass : SlabSizeClass) : State :=
  { state with classes := Function.update state.classes index sizeClass }

def setMetadata (state : State) (slabIdx : Nat) (metadata : SlabMetadata) : State :=
  { state with slabMetadata := Function.update state.slabMetadata slabIdx metadata }

def slab (state : State) (slabIdx : Nat) : Nat := state.basePtr + slabIdx * hugePageSize

def slabIdx (state : State) (address : Nat) : Nat :=
  (address - state.basePtr) / hugePageSize

end State

/-- The loop that links each block but the last one to its successor. -/
def linkBlocks (slab blockSize : Nat) : Nat → (Nat → Option Nat) → (Nat → Option Nat)
  | 0, memory => memory
  | count + 1, memory =>
    Function.update (linkBlocks slab blockSize count memory) (slab + count * blockSize)
      (some (slab + (count + 1) * blockSize))

/-- Cut the slab into the blocks of the class, whose free list is empty. -/
def carve (state : State) (index slabIdx : Nat) : State :=
  let sizeClass := state.classes index
  let blockSize := sizeClass.blockSize
  let numOfThatBlocks := hugePageSize / blockSize
  let slab := state.slab slabIdx
  let lastNode := slab + (numOfThatBlocks - 1) * blockSize
  { (state.setMetadata slabIdx
      { state.slabMetadata slabIdx with
        blockSize := blockSize, totalBlocks := numOfThatBlocks, liveCount := 0 }).setClass index
      { sizeClass with
        slabCount := sizeClass.slabCount + 1
        freeList := some slab
        freeListTail := some lastNode } with
    memory := Function.update
      (linkBlocks slab blockSize (numOfThatBlocks - 1) state.memory) lastNode none }

def allocateSlabForClass (state : State) (index : Nat) : Option State :=
  match state.freeSlabPool with
  | slabIdx :: pool => some (carve { state with freeSlabPool := pool } index slabIdx)
  | [] =>
    if state.currentPtr + hugePageSize > state.endPtr then
      none
    else
      let slabIdx := state.slabIdx state.currentPtr
      some (carve { state with currentPtr := state.currentPtr + hugePageSize } index slabIdx)

def halfUsed (state : State) : Bool := decide (state.totalCapacity ≤ 2 * state.bytesInUse)

def switchDrainTarget (state : State) (index slabIdx : Nat) : State :=
  let cleared :=
    match (state.classes index).drainTargetIdx with
    | some target =>
      if target = slabIdx then state
      else state.setMetadata target
        { state.slabMetadata target with isDrainTarget := false }
    | none => state
  (cleared.setMetadata slabIdx
      { cleared.slabMetadata slabIdx with isDrainTarget := true }).setClass index
    { cleared.classes index with drainTargetIdx := some slabIdx }

/-- Keep the drain target or switch to the slab, if it has fewer live blocks. -/
def selectDrainTarget (state : State) (index slabIdx liveAfter : Nat) : State :=
  let becomeTarget :=
    match (state.classes index).drainTargetIdx with
    | none => true
    | some target =>
      decide (target ≠ slabIdx ∧ liveAfter < (state.slabMetadata target).liveCount)
  if becomeTarget then switchDrainTarget state index slabIdx else state

def pushTail (state : State) (index node : Nat) : State :=
  let sizeClass := state.classes index
  let memory := Function.update state.memory node none
  match sizeClass.freeListTail with
  | none =>
    { state.setClass index
        { sizeClass with freeList := some node, freeListTail := some node } with
      memory := memory }
  | some tail =>
    { state.setClass index { sizeClass with freeListTail := some node } with
      memory := Function.update memory tail (some node) }

def pushHead (state : State) (index node : Nat) : State :=
  let sizeClass := state.classes index
  { state.setClass index
      { sizeClass with
        freeList := some node
        freeListTail :=
          if sizeClass.freeListTail = none then some node else sizeClass.freeListTail } with
    memory := Function.update state.memory node sizeClass.freeList }

/-- Put a block back: to the tail if its slab is the drain target of the class. -/
def pushBlock (state : State) (index slabIdx liveAfter node : Nat) : State :=
  if 0 < liveAfter ∧ halfUsed state = true then
    let selected := selectDrainTarget state index slabIdx liveAfter
    if (selected.classes index).drainTargetIdx = some slabIdx then
      pushTail selected index node
    else
      pushHead selected index node
  else
    pushHead state index node

def State.inSlab (state : State) (slabIdx address : Nat) : Bool :=
  decide (state.slab slabIdx ≤ address ∧ address < state.slab slabIdx + hugePageSize)

/-- The walk of `tryReclaimSlab` over the free list.  A free list has fewer nodes
than the region has bytes. -/
def reclaimWalk (state : State) (slabIdx index : Nat) : Option (Partition Nat) :=
  partitionFrom (state.inSlab slabIdx) state.totalCapacity state.memory
    (state.classes index).freeList none none 0

def reclaimed (state : State) (slabIdx index : Nat) (walked : Partition Nat) : State :=
  let sizeClass := state.classes index
  { (state.setMetadata slabIdx
      { state.slabMetadata slabIdx with
        blockSize := 0, totalBlocks := 0, isDrainTarget := false }).setClass index
      { sizeClass with
        freeList := walked.head
        freeListTail := walked.tail
        drainTargetIdx :=
          if sizeClass.drainTargetIdx = some slabIdx then none else sizeClass.drainTargetIdx
        slabCount := sizeClass.slabCount - 1 } with
    memory := walked.next
    freeSlabPool := slabIdx :: state.freeSlabPool }

def tryReclaimSlab (state : State) (slabIdx index : Nat) : Option State :=
  match reclaimWalk state slabIdx index with
  | none => none
  | some walked => some (reclaimed state slabIdx index walked)

def unaccount (state : State) (address bytes : Nat) : State :=
  let slabIdx := state.slabIdx address
  { state.setMetadata slabIdx
      { state.slabMetadata slabIdx with
        liveCount := (state.slabMetadata slabIdx).liveCount - 1 } with
    bytesInUse := state.bytesInUse - (state.classes (getClassIndex bytes)).blockSize
    live := state.live.erase (address, bytes) }

/-- A block smaller than the largest class, whose class lock is held throughout. -/
def doDeallocate (state : State) (address bytes : Nat) : Option State :=
  let index := getClassIndex bytes
  let slabIdx := state.slabIdx address
  let prevLive := (state.slabMetadata slabIdx).liveCount
  let pushed := pushBlock (unaccount state address bytes) index slabIdx (prevLive - 1) address
  if prevLive = 1 then tryReclaimSlab pushed slabIdx index else some pushed

/-- The calls of `deallocate` that the rescue callback makes, on live blocks. -/
def rescue (state : State) : List (Nat × Nat) → Option State
  | [] => some state
  | (address, bytes) :: calls =>
    if (address, bytes) ∈ state.live then
      match doDeallocate state address bytes with
      | none => none
      | some freed => rescue freed calls
    else
      none

def popBlock (state : State) (index bytes node : Nat) : State :=
  let sizeClass := state.classes index
  let slabIdx := state.slabIdx node
  let freeList := state.memory node
  { (state.setClass index
      { sizeClass with
        freeList := freeList
        freeListTail := if freeList = none then none else sizeClass.freeListTail }).setMetadata
      slabIdx
      { state.slabMetadata slabIdx with
        liveCount := (state.slabMetadata slabIdx).liveCount + 1 } with
    bytesInUse := state.bytesInUse + sizeClass.blockSize
    live := (node, bytes) :: state.live }

/-- A free list that has a block, by a new slab if need be. -/
def refill (state : State) (index : Nat) : Option State :=
  match (state.classes index).freeList with
  | some _ => some state
  | none => allocateSlabForClass state index

inductive Allocated
  | block (address : Nat)
  | badAlloc
  deriving DecidableEq, Repr

def finishAllocate (state : State) (index bytes : Nat) (refilled : Option State) :
    Allocated × State :=
  match refilled with
  | none => (.badAlloc, state)
  | some ready =>
    match (ready.classes index).freeList with
    | none => (.badAlloc, ready)  -- not reached: a refilled list has a block
    | some node => (.block node, popBlock ready index bytes node)

/-- A request not larger than the largest class.  When the pool and the region
are exhausted the rescue callback runs, without the class lock. -/
def doAllocate (state : State) (bytes : Nat) (rescueCalls : List (Nat × Nat)) :
    Option (Allocated × State) :=
  let index := getClassIndex bytes
  match refill state index with
  | some ready => some (finishAllocate state index bytes (some ready))
  | none =>
    match rescue state rescueCalls with
    | none => none
    | some rescued => some (finishAllocate rescued index bytes (refill rescued index))

inductive Action
  | allocate (bytes : Nat) (rescueCalls : List (Nat × Nat))
  | deallocate (address bytes : Nat)
  | write (address bytes : Nat) (written : Nat → Option Nat)

def freeNodeSize : Nat := 8

/-- Requests of at most the largest block size, and returns of live blocks with
the size they were asked for.  A client may also fill a live block, and then any
`next` field that overlaps it reads as something else. -/
def step (state : State) : Action → Option State
  | .allocate bytes rescueCalls =>
    if bytes ≤ maxBlockSize then
      (doAllocate state bytes rescueCalls).map Prod.snd
    else
      none
  | .deallocate address bytes =>
    if (address, bytes) ∈ state.live then doDeallocate state address bytes else none
  | .write address bytes written =>
    if (address, bytes) ∈ state.live then
      some
        { state with
          memory := fun cell =>
            if cell + freeNodeSize ≤ address ∨ address + bytes ≤ cell then
              state.memory cell
            else
              written cell }
    else
      none

end TieredStore.SlabAllocator
