import TieredStore.ConcurrencyControl.Trees

/-!
`cleanIfNecessary` keeps one entry for each other worker and the last one, so that a full
array has room for the next commit.
-/

namespace TieredStore.ConcurrencyControl

open List Transition State WorkerState WorkerPc

variable {cfg config : Config} {s s' state : State} {a : Action} {w : Nat} {tree : CommitTree}
  {pair : Nat × Nat} {found : Option (Nat × Nat)} {set : List (Nat × Nat)} {next startTs : Nat}

theorem insertPair_of_mem (sorted : SortedLog set) (mem : pair ∈ set) :
    insertPair pair set = set := by
  induction set with
  | nil => contradiction
  | cons first rest ih =>
    obtain ⟨below, sortedRest⟩ := pairwise_cons.mp sorted
    unfold insertPair
    rcases mem_cons.mp mem with rfl | inRest
    · rw [if_pos rfl]
    · have lt := below pair inRest
      rw [if_neg (by rintro rfl; omega), if_neg (by omega), ih sortedRest inRest]

theorem length_insertPair_le : (insertPair pair set).length ≤ set.length + 1 := by
  induction set with
  | nil => simp [insertPair]
  | cons =>
    unfold insertPair
    split
    · simp
    · split <;> simp_all

theorem length_insertFound_le : (insertFound found set).length ≤ set.length + 1 := by
  cases found with
  | none => exact Nat.le_succ _
  | some => exact length_insertPair_le

/-- What a scan that has seen this many other workers keeps of the array. -/
structure Kept (array : List (Nat × Nat)) (seen : Nat) (set : List (Nat × Nat)) : Prop where
  length : set.length ≤ if seen = 0 then 0 else seen + 1
  last : seen ≠ 0 → ∀ pair, array.getLast? = some pair → pair ∈ set

theorem Kept.keepFor {seen : Nat} (kept : Kept tree.array seen set) (sorted : SortedLog set) :
    Kept tree.array (seen + 1) (tree.keepFor startTs set) where
  length := by
    have withLast : (insertFound tree.array.getLast? set).length ≤ seen + 1 := by
      have length := kept.length
      by_cases none : seen = 0
      · rw [if_pos none] at length
        exact length_insertFound_le.trans (by omega)
      · rw [if_neg none] at length
        cases isLast : tree.array.getLast? with
        | none => exact length
        | some pair =>
          rw [insertFound, insertPair_of_mem sorted (kept.last none pair isLast)]
          exact length
    unfold CommitTree.keepFor
    split <;> exact length_insertFound_le.trans (Nat.succ_le_succ withLast)
  last _ pair isLast :=
    CommitTree.mem_keepFor_of_withLast (CommitTree.mem_insertFound.mpr (.inl isLast))

def othersBelow (worker next : Nat) : Nat := if next ≤ worker then next else next - 1

def WorkerPc.hasRoom : WorkerPc → Bool
  | .loadingLwm => true
  | .running => true
  | .reading _ _ => true
  | _ => false

structure RoomInv (cfg : Config) (s : State) : Prop where
  capacity : ∀ w, (s.workers w).commitTree.capacity = cfg.workersCount + 1
  bounded : ∀ w, (s.workers w).commitTree.array.length ≤ cfg.workersCount + 1
  room : ∀ w, (s.workers w).pc.hasRoom = true →
    (s.workers w).commitTree.array.length < cfg.workersCount + 1
  scan : ∀ w next set, (s.workers w).pc = .cleaning next set →
    Kept (s.workers w).commitTree.array (othersBelow w next) set

theorem PcMove.hasRoom {level level' : TxIsolationLevel} {pc pc' : WorkerPc}
    (move : PcMove level pc level' pc') (room : pc'.hasRoom = true) :
    pc.hasRoom = true ∨ pc = .beforeClean ∨ ∃ next set, pc = .cleaning next set := by
  cases move with
  | startTX =>
    unfold afterStart at room
    split at room <;> split at room <;> contradiction
  | @skipRefresh after | @endRefresh after => cases after <;> contradiction
  | finishReadOnly | finish => split at room <;> contradiction
  | _ => simp_all [WorkerPc.hasRoom]

theorem room_of_step (taken : step cfg s a = some s')
    (room : (s'.workers a.actor).pc.hasRoom = true) : (s.workers a.actor).pc.hasRoom = true ∨
      (s.workers a.actor).commitTree.mustClean = false ∨
      ∃ set, (s.workers a.actor).pc = .cleaning cfg.workersCount set ∧
        (s'.workers a.actor).commitTree.array = set := by
  have before := (pc_of_step taken).hasRoom room
  obtain ⟨-, stepped⟩ := step_cases taken
  cases stepped with
  | start stepped =>
    cases stepped with
    | nothingToClean _ space => exact .inr (.inl space)
    | rewriteTree pc all => exact .inr (.inr ⟨_, all ▸ pc, by simp [Action.actor]⟩)
    | loadLwm pc => exact .inl (by simp [Action.actor, pc, hasRoom])
    | _ => simp_all [Action.actor, hasRoom]
  | refresh stepped | access stepped => cases stepped <;> simp_all [Action.actor]

theorem set_of_skip {set' : List (Nat × Nat)} (taken : step cfg s a = some s')
    (pc : (s.workers a.actor).pc = .cleaning a.actor set)
    (pc' : (s'.workers a.actor).pc = .cleaning (a.actor + 1) set') : set' = set := by
  obtain ⟨-, stepped⟩ := step_cases taken
  cases stepped with
  | start stepped =>
    cases stepped with
    | rewriteTree =>
      simp only [Action.actor, workers_setWorker, afterClean] at pc'
      split at pc' <;> contradiction
    | _ => simp_all [Action.actor]
  | refresh stepped | access stepped => cases stepped <;> simp_all [Action.actor]

theorem capacity_of_step (taken : step cfg s a = some s') (w : Nat) :
    (s'.workers w).commitTree.capacity = (s.workers w).commitTree.capacity := by
  by_cases acts : w = a.actor
  · subst acts
    cases effect_of_step taken <;>
      exact congrArg (fun its => its.commitTree.capacity) ‹core _ = _›
  · exact congrArg (fun its => its.commitTree.capacity) (others_of_step taken acts).1

namespace RoomInv

variable (inv : RoomInv cfg s) (taken : step cfg s a = some s')
include inv taken

theorem room_step (room : (s'.workers w).pc.hasRoom = true) :
    (s'.workers w).commitTree.array.length < cfg.workersCount + 1 := by
  by_cases acts : w = a.actor
  · subst acts
    have rewritten : ∀ set, (s.workers a.actor).pc = .cleaning cfg.workersCount set →
        set.length < cfg.workersCount + 1 := by
      intro set pc
      have length := (inv.scan _ _ _ pc).length
      have isWorker := (step_cases taken).1
      unfold othersBelow at length
      split at length <;> split at length <;> omega
    cases tree_of_step taken a.actor with
    | same array =>
      rcases room_of_step taken room with before | space | ⟨set, pc, rfl⟩
      · rw [array]
        exact inv.room _ before
      · simpa [CommitTree.mustClean, inv.capacity, array] using space
      · exact rewritten _ pc
    | commit _ pc' => simp [pc', hasRoom] at room
    | rewrite next set pc all array =>
      rw [array]
      exact rewritten set (all ▸ pc)
  · obtain ⟨core, pc⟩ := others_of_step taken acts
    have tree := congrArg (fun its => its.commitTree) core
    simp only [core_commitTree] at tree
    rw [pc] at room
    rw [tree]
    exact inv.room w room

theorem scan_step (trees : TreeInv cfg s) (pc : (s'.workers w).pc = .cleaning next set) :
    Kept (s'.workers w).commitTree.array (othersBelow w next) set := by
  have array : (s'.workers w).commitTree.array = (s.workers w).commitTree.array :=
    congrArg (fun its => its.commitTree.array) (scan_of_step taken pc).2
  rw [array]
  by_cases acts : w = a.actor
  · subst acts
    cases (scan_of_actor taken pc).1 with
    | begins => exact ⟨by simp, by simp [othersBelow]⟩
    | stays was => exact inv.scan _ _ _ was
    | skips was => simpa [othersBelow] using inv.scan _ _ _ was
    | @scans next set was =>
      have kept := inv.scan _ _ _ was
      by_cases self : next = a.actor
      · subst self
        rw [set_of_skip taken was pc]
        simpa [othersBelow] using kept
      · have one : othersBelow a.actor (next + 1) = othersBelow a.actor next + 1 := by
          unfold othersBelow
          split <;> split <;> omega
        rw [one]
        exact kept.keepFor (trees.scan _ _ _ was).1
  · rw [(others_of_step taken acts).2] at pc
    exact inv.scan w next set pc

theorem step (trees : TreeInv cfg s) : RoomInv cfg s' where
  capacity w := (capacity_of_step taken w).trans (inv.capacity w)
  bounded w := by
    cases tree_of_step taken w with
    | same array =>
      rw [array]
      exact inv.bounded w
    | commit pc pc' array =>
      rw [array, length_append]
      exact inv.room w (by rw [pc]; rfl)
    | rewrite next set pc all array =>
      have length := (inv.scan w next set pc).length
      rw [array]
      unfold othersBelow at length
      split at length <;> split at length <;> omega
  room w := inv.room_step taken
  scan w next set := inv.scan_step taken trees

end RoomInv

theorem Initial.roomInv (initial : Initial cfg s) : RoomInv cfg s where
  capacity w := by rw [initial.commitTree]
  bounded w := by simp [initial.commitTree]
  room w _ := by simp [initial.commitTree]
  scan w next set pc := by simp [initial.pc] at pc

/-- A commit finds room in the array, which stays in order.  It tells the snapshots of the
other workers what the whole history would tell them. -/
theorem commit_tree_lossless (reached : Reaches config (fun _ _ => True) state) (owner : Nat) :
    (state.workers owner).commitTree.capacity = config.workersCount + 1 ∧
    (state.workers owner).commitTree.array.length ≤ config.workersCount + 1 ∧
    ((state.workers owner).pc = .running →
      (state.workers owner).commitTree.array.length < config.workersCount + 1) ∧
    SortedLog (state.workers owner).commitTree.array ∧
    ∀ reader < config.workersCount, reader ≠ owner → state.HasSnapshot reader →
      (state.workers owner).commitTree.lcb (state.workers reader).tx.startTs =
        CommitTree.lcb ⟨config.workersCount + 1, (state.workers owner).history⟩
          (state.workers reader).tx.startTs := by
  obtain ⟨commits, room⟩ : CommitInv config state ∧ RoomInv config state := by
    refine reached.invariant (fun s => CommitInv config s ∧ RoomInv config s)
      (fun s initial => ⟨initial.commitInv, initial.roomInv⟩) ?_
    intro s a s' inv _ taken
    exact ⟨inv.1.step taken, inv.2.step taken inv.1.trees⟩
  have trees := commits.trees
  refine ⟨room.capacity owner, room.bounded owner, fun pc => room.room owner (by rw [pc]; rfl),
    trees.sortedTree owner, fun reader isWorker ne holds => ?_⟩
  have same : (state.workers owner).commitTree.lcbUnsafe (state.workers reader).tx.startTs =
      CommitTree.lcbUnsafe ⟨config.workersCount + 1, (state.workers owner).history⟩
        (state.workers reader).tx.startTs := by
    refine Option.ext fun pair => ⟨fun found => ?_, fun found => ?_⟩
    · exact CommitTree.lcbUnsafe_of_isLcb (trees.sorted owner) <|
        (trees.isLcb_tree_iff ne isWorker holds).mp <|
          CommitTree.isLcb_of_lcbUnsafe (trees.sortedTree owner) found
    · exact CommitTree.lcbUnsafe_of_isLcb (trees.sortedTree owner) <|
        (trees.isLcb_tree_iff ne isWorker holds).mpr <|
          CommitTree.isLcb_of_lcbUnsafe (trees.sorted owner) found
  simp only [CommitTree.lcb, same]

def commitThrice : List Action :=
  (replicate 3 (startSI 0 ++ [.access 0 (.change [1] (.update [7]) 0), .access 0 .commitTX,
    .access 0 .storeLatestWrite, .refresh 0 .skip])).flatten ++
  (startSI 0).take 5 ++ [.start 0 .scanSnapshot, .start 0 .scanSnapshot, .start 0 .rewriteTree,
    .start 0 .loadLwm]

theorem commit_tree_lossless_compacted :
    ∃ state, run (step ⟨2, false⟩) (State.fresh ⟨2, false⟩) commitThrice = some state ∧
      (state.workers 0).history.length = 3 ∧ (state.workers 0).commitTree.array.length < 3 := by
  obtain ⟨state, ran, length, pc⟩ : ∃ state,
      run (step ⟨2, false⟩) (fresh ⟨2, false⟩) commitThrice = some state ∧
        (state.workers 0).history.length = 3 ∧ (state.workers 0).pc = .running :=
    ⟨_, rfl, rfl, rfl⟩
  have reached : Reaches ⟨2, false⟩ (fun _ _ => True) state :=
    (Reachable.start (initial_fresh _)).run_of_forall (fun _ _ _ => trivial) ran
  exact ⟨state, ran, length, (commit_tree_lossless reached 0).2.2.1 pc⟩

end TieredStore.ConcurrencyControl
