import TieredStore.RecordCache.Memory

namespace TieredStore.RecordCache

open Function List

/-- The SIEVE queue: a vector of entry pointers, some of them nulled by a slab
rescue, and the hand. -/
structure SieveFIFOQueue where
  queue : List (Option Addr)
  handPointer : Nat
  deriving DecidableEq, Repr

namespace SieveFIFOQueue

def entries (fifo : SieveFIFOQueue) : List Addr :=
  fifo.queue.filterMap id

def pushBack (fifo : SieveFIFOQueue) (entry : Addr) : SieveFIFOQueue :=
  { fifo with queue := fifo.queue ++ [some entry] }

def eraseElementAtHandPosition (fifo : SieveFIFOQueue) : SieveFIFOQueue :=
  let rest := fifo.queue.eraseIdx fifo.handPointer
  { queue := rest
    handPointer := if fifo.handPointer ≥ rest.length then 0 else fifo.handPointer }

def advanceHandPointer (fifo : SieveFIFOQueue) : SieveFIFOQueue :=
  if fifo.queue = [] then
    { fifo with handPointer := 0 }
  else
    { fifo with handPointer := (fifo.handPointer + 1) % fifo.queue.length }

def clampHandPointer (fifo : SieveFIFOQueue) : SieveFIFOQueue :=
  if fifo.handPointer ≥ fifo.queue.length then
    { fifo with handPointer := 0 }
  else
    fifo

structure Eviction where
  victim : Option Addr
  fifo : SieveFIFOQueue
  visited : Addr → Bool

/-- What the two callbacks answer in a round of the scan. -/
structure Answers where
  tryMarkEvictable : Addr → Bool
  shouldForceEvict : Addr → Bool

def Answers.spares (answers : Answers) (visited : Addr → Bool) (current : Addr) : Bool :=
  visited current && !answers.shouldForceEvict current

inductive Round
  | stop (result : Eviction)
  | goOn (fifo : SieveFIFOQueue) (visited : Addr → Bool)

/-- One iteration of the loop of `evictOneFromSieveFIFO`. -/
def evictRound (answers : Answers) (fifo : SieveFIFOQueue) (visited : Addr → Bool) : Round :=
  let fifo := fifo.clampHandPointer
  match fifo.queue[fifo.handPointer]? with
  | none => .stop ⟨none, fifo, visited⟩          -- the queue has become empty
  | some none => .goOn fifo.eraseElementAtHandPosition visited
  | some (some current) =>
    let cleared := Function.update visited current false
    if answers.spares visited current then
      .goOn fifo.advanceHandPointer cleared
    else if answers.tryMarkEvictable current = false then
      .goOn (fifo.eraseElementAtHandPosition.pushBack current) cleared
    else
      .stop ⟨some current, fifo.eraseElementAtHandPosition, cleared⟩

/-- The loop with this many rounds left; a round is asked by the number of those that follow. -/
def evictRounds (answers : Nat → Answers) :
    (budget : Nat) → SieveFIFOQueue → (Addr → Bool) → Eviction
  | 0, fifo, visited => ⟨none, fifo, visited⟩
  | budget + 1, fifo, visited =>
    match evictRound (answers budget) fifo visited with
    | .stop result => result
    | .goOn fifo visited => evictRounds answers budget fifo visited

def evictOneFromSieveFIFO (tryMarkEvictable shouldForceEvict : Addr → Bool)
    (fifo : SieveFIFOQueue) (visited : Addr → Bool) : Eviction :=
  evictRounds (fun _ => ⟨tryMarkEvictable, shouldForceEvict⟩) (fifo.queue.length * 2) fifo visited

/-- The walk of `drainStateRemovedOnly`: victims taken, and pointers kept. -/
def drainScan (isRemoved : Addr → Bool) :
    (limit : Nat) → List (Option Addr) → List Addr × List (Option Addr)
  | _, [] => ([], [])
  | limit, none :: rest => drainScan isRemoved limit rest
  | 0, some entry :: rest =>
    let (victims, kept) := drainScan isRemoved 0 rest
    (victims, some entry :: kept)
  | limit + 1, some entry :: rest =>
    if isRemoved entry then
      let (victims, kept) := drainScan isRemoved limit rest
      (entry :: victims, kept)
    else
      let (victims, kept) := drainScan isRemoved (limit + 1) rest
      (victims, some entry :: kept)

def drainStateRemovedOnly (isRemoved : Addr → Bool) (limit : Nat)
    (fifo : SieveFIFOQueue) : List Addr × SieveFIFOQueue :=
  if fifo.queue = [] then
    ([], fifo)
  else
    let (victims, kept) := drainScan isRemoved limit fifo.queue
    (victims,
      { queue := kept
        handPointer := if fifo.handPointer ≥ kept.length then 0 else fifo.handPointer })

def markSlabEntriesAsNull (inSlab : Addr → Bool) (fifo : SieveFIFOQueue) :
    SieveFIFOQueue :=
  { fifo with
    queue := fifo.queue.map fun pointer =>
      pointer.bind fun entry => if inSlab entry then none else some entry }

@[simp] theorem entries_pushBack (fifo : SieveFIFOQueue) (e : Addr) :
    (fifo.pushBack e).entries = fifo.entries ++ [e] := by
  simp [entries, pushBack]

@[simp] theorem entries_advanceHandPointer (fifo : SieveFIFOQueue) :
    fifo.advanceHandPointer.entries = fifo.entries := by
  unfold advanceHandPointer
  split <;> rfl

@[simp] theorem entries_clampHandPointer (fifo : SieveFIFOQueue) :
    fifo.clampHandPointer.entries = fifo.entries := by
  unfold clampHandPointer
  split <;> rfl

private theorem filterMap_eraseIdx_perm : (pointers : List (Option Addr)) → (position : Nat) →
      (found : Option Addr) → pointers[position]? = some found → (pointers.filterMap id).Perm
        (found.toList ++ (pointers.eraseIdx position).filterMap id)
  | [], position, found, atPosition => by simp at atPosition
  | pointer :: rest, 0, found, atPosition => by
    have same : pointer = found := by simpa using atPosition
    subst same
    cases pointer <;> simp
  | pointer :: rest, position + 1, found, atPosition => by
    have later := filterMap_eraseIdx_perm rest position found (by simpa using atPosition)
    cases pointer with
    | none => simpa using later
    | some e =>
      exact (later.cons e).trans perm_middle.symm

theorem entries_eraseElementAtHandPosition {fifo : SieveFIFOQueue} {found : Option Addr}
    (atHand : fifo.queue[fifo.handPointer]? = some found) : fifo.entries.Perm
      (found.toList ++ fifo.eraseElementAtHandPosition.entries) :=
  filterMap_eraseIdx_perm _ _ _ atHand

theorem evictRounds_entries (answers : Nat → Answers) (budget : Nat) (fifo : SieveFIFOQueue)
    (visited : Addr → Bool) :
    let result := evictRounds answers budget fifo visited
    fifo.entries.Perm (result.victim.toList ++ result.fifo.entries) ∧
      ∀ victim, result.victim = some victim →
        ∃ round, (answers round).tryMarkEvictable victim = true := by
  induction budget generalizing fifo visited with
  | zero => simp [evictRounds]
  | succ budget ih =>
    unfold evictRounds evictRound
    simp only
    cases atHand : fifo.clampHandPointer.queue[fifo.clampHandPointer.handPointer]? with
    | none => simp
    | some found =>
      have erased := entries_eraseElementAtHandPosition atHand
      rw [entries_clampHandPointer] at erased
      cases found with
      | none =>
        obtain ⟨kept, accepted⟩ := ih fifo.clampHandPointer.eraseElementAtHandPosition visited
        exact ⟨erased.trans kept, accepted⟩
      | some current =>
        by_cases spared : (answers budget).spares visited current
        · obtain ⟨kept, accepted⟩ := ih
            fifo.clampHandPointer.advanceHandPointer
            (update visited current false)
          rw [entries_advanceHandPointer, entries_clampHandPointer] at kept
          simp only [if_pos spared]
          exact ⟨kept, accepted⟩
        · simp only [if_neg spared]
          by_cases rejects : (answers budget).tryMarkEvictable current = false
          · obtain ⟨kept, accepted⟩ := ih
              (fifo.clampHandPointer.eraseElementAtHandPosition.pushBack current)
              (update visited current false)
            rw [entries_pushBack] at kept
            simp only [if_pos rejects]
            exact ⟨(erased.trans perm_append_comm).trans kept, accepted⟩
          · simp only [if_neg rejects]
            refine ⟨erased, ?_⟩
            rintro victim ⟨rfl⟩
            exact ⟨budget, by simpa using rejects⟩

theorem evictOneFromSieveFIFO_entries (tryMarkEvictable shouldForceEvict : Addr → Bool)
    (fifo : SieveFIFOQueue) (visited : Addr → Bool) :
    let result := evictOneFromSieveFIFO tryMarkEvictable shouldForceEvict fifo visited
    fifo.entries.Perm (result.victim.toList ++ result.fifo.entries) ∧
      ∀ victim, result.victim = some victim → tryMarkEvictable victim = true := by
  obtain ⟨kept, accepted⟩ := evictRounds_entries
    (fun _ => ⟨tryMarkEvictable, shouldForceEvict⟩) (fifo.queue.length * 2) fifo visited
  refine ⟨kept, fun victim isVictim => ?_⟩
  obtain ⟨_, accepts⟩ := accepted victim isVictim
  exact accepts

private theorem drainScan_entries (isRemoved : Addr → Bool) (limit : Nat)
    (pointers : List (Option Addr)) : (pointers.filterMap id).Perm
        ((drainScan isRemoved limit pointers).1 ++
          (drainScan isRemoved limit pointers).2.filterMap id) ∧
      ∀ victim ∈ (drainScan isRemoved limit pointers).1, isRemoved victim = true := by
  induction pointers generalizing limit with
  | nil => simp [drainScan]
  | cons pointer rest ih =>
    cases pointer with
    | none => simpa [drainScan] using ih limit
    | some e =>
      cases limit with
      | zero =>
        obtain ⟨kept, accepted⟩ := ih 0
        exact ⟨(kept.cons e).trans perm_middle.symm, accepted⟩
      | succ limit =>
        simp only [drainScan]
        split
        · rename_i removed
          obtain ⟨kept, accepted⟩ := ih limit
          simp only [mem_cons, forall_eq_or_imp]
          exact ⟨kept.cons e, removed, accepted⟩
        · obtain ⟨kept, accepted⟩ := ih (limit + 1)
          exact ⟨(kept.cons e).trans perm_middle.symm, accepted⟩

theorem drainStateRemovedOnly_entries (isRemoved : Addr → Bool) (limit : Nat)
    (fifo : SieveFIFOQueue) : fifo.entries.Perm ((drainStateRemovedOnly isRemoved limit fifo).1 ++
          (drainStateRemovedOnly isRemoved limit fifo).2.entries) ∧
      ∀ victim ∈ (drainStateRemovedOnly isRemoved limit fifo).1, isRemoved victim = true := by
  unfold drainStateRemovedOnly
  split
  · simp
  · exact drainScan_entries isRemoved limit fifo.queue

theorem entries_markSlabEntriesAsNull (inSlab : Addr → Bool) (fifo : SieveFIFOQueue) :
    (fifo.markSlabEntriesAsNull inSlab).entries = fifo.entries.filter fun e => !inSlab e := by
  unfold entries markSlabEntriesAsNull
  induction fifo.queue with
  | nil => rfl
  | cons pointer _ ih =>
    cases pointer with
    | none => simpa using ih
    | some e =>
      by_cases inside : inSlab e <;>
        simp_all

end SieveFIFOQueue

end TieredStore.RecordCache
