import TieredStore.GarbageCollection.RemoveTransactions

namespace TieredStore.GarbageCollection

open HistoryTree (keyOf)
open Transition Function List State Worker

section Handles

variable {WorkerId Key : Type} [DecidableEq Key] {s s' : State WorkerId Key}
  {id : WorkerId}

inductive Handles (s : State WorkerId Key) (id : WorkerId)
    (v : RemoveVersion WorkerId Key) (s' : State WorkerId Key) : Prop
  | unburies (called : v.calledBefore = true) (tuple : Tuple WorkerId)
    (found : s.graveyard v.key = some tuple) (tombstone : Tombstone id v tuple)
    (main : s'.main = s.main) (graveyard : s'.graveyard = Function.update s.graveyard v.key none)
  | deletes (uncalled : v.calledBefore = false) (row : Row WorkerId)
    (found : s.main v.key = some row) (tombstone : Tombstone id v row.toTuple)
    (settled : v.txId < (s.worker id).localAllLwm) (main : s'.main = (s.removeSlot v.key row).main)
    (graveyard : s'.graveyard = s.graveyard)
  | moves (uncalled : v.calledBefore = false) (row : Row WorkerId)
    (found : s.main v.key = some row) (tombstone : Tombstone id v row.toTuple)
    (recent : (s.worker id).localAllLwm ≤ v.txId) (settled : v.txId < (s.worker id).localOltpLwm)
    (main : s'.main = (s.removeSlot v.key row).main)
    (graveyard : s'.graveyard = Function.update s.graveyard v.key (some row.toTuple))

namespace Handles

variable {v : RemoveVersion WorkerId Key} (handles : Handles s id v s')
include handles

theorem elsewhere (latch : ∀ frame, s.latch frame ≤ s'.latch frame) : RowsElsewhere v.key s s' := by
  cases handles with
  | unburies _ _ _ _ main graveyard =>
    refine ⟨?_, ?_, latch⟩
    · intro other row _ found
      exact ⟨row, main ▸ found, rfl⟩
    · intro other differs
      rw [graveyard, update_of_ne differs]
  | deletes _ row _ _ _ main graveyard =>
    refine ⟨?_, fun _ _ => graveyard ▸ rfl, latch⟩
    rw [main]
    exact (RowsElsewhere.removeSlot row).main
  | moves _ row _ _ _ _ main graveyard =>
    refine ⟨?_, ?_, latch⟩
    · rw [main]
      exact (RowsElsewhere.removeSlot row).main
    · intro other differs
      rw [graveyard, update_of_ne differs]

theorem kept (inv : Inv s) (latch : ∀ frame, s.latch frame ≤ s'.latch frame) {other : WorkerId}
    (differs : other ≠ id) : RowsKept s s' other := by
  have owned : ∀ tuple : Tuple WorkerId, Tombstone id v tuple → tuple.workerId = id := by
    intro tuple tombstone
    rw [tombstone.tag]
  -- the key is in one of the trees only
  have byMain : ∀ row, s.main v.key = some row → Tombstone id v row.toTuple →
      RowsKept s s' other := by
    intro row found tombstone
    apply (handles.elsewhere latch).kept _ _ differs
    · intro _ found'
      rw [found] at found'
      cases found'
      exact owned _ tombstone
    · intro tuple buried
      rw [inv.disjoint _ _ found] at buried
      exact nomatch buried
  cases handles with
  | unburies called tuple found tombstone main graveyard =>
    apply RowsElsewhere.kept
      ((unburies called tuple found tombstone main graveyard).elsewhere latch) _ _
      differs
    · intro row found'
      rw [inv.disjoint _ _ found'] at found
      exact nomatch found
    · intro _ found'
      rw [found] at found'
      cases found'
      exact owned _ tombstone
  | deletes _ row found tombstone => exact byMain row found tombstone
  | moves _ row found tombstone => exact byMain row found tombstone

theorem disjoint (inv : Inv s) :
    ∀ other row, s'.main other = some row → s'.graveyard other = none := by
  intro other row present
  cases handles with
  | unburies _ _ _ _ main graveyard =>
    rw [main] at present
    have absent := inv.disjoint other row present
    rw [graveyard]
    by_cases its : other = v.key
    · rw [its, update_self]
    · rw [update_of_ne its, absent]
  | deletes _ _ _ _ _ main graveyard =>
    rw [main] at present
    obtain ⟨_, old, isOld⟩ := removeSlot_present present
    rw [graveyard]
    exact inv.disjoint other old isOld
  | moves _ _ _ _ _ _ main graveyard =>
    rw [main] at present
    obtain ⟨differs, old, isOld⟩ := removeSlot_present present
    rw [graveyard, update_of_ne differs]
    exact inv.disjoint other old isOld

end Handles

end Handles

variable {WorkerId Key : Type} [DecidableEq WorkerId] [DecidableEq Key] {flags : Flags}
  {s s' state : State WorkerId Key} {id : WorkerId} {key : Key} {a action : Action WorkerId Key}

/-- The watermarks that a collection starts with are sound: what committed below them is
seen by every snapshot that runs, or by every one that is not an OLAP snapshot. -/
def SoundWatermarks (s : State WorkerId Key) : Action WorkerId Key → Prop
  | .garbageCollection id localAllLwm localOltpLwm =>
    localAllLwm ≤ localOltpLwm ∧
      SeenBySnapshots s (s.worker id).commits localAllLwm localOltpLwm
  | _ => True

theorem Inv.garbageCollection (inv : Inv s) {localAllLwm localOltpLwm : Nat}
    (sound : SoundWatermarks s (.garbageCollection id localAllLwm localOltpLwm))
    (taken : step flags s (.garbageCollection id localAllLwm localOltpLwm) = some s') : Inv s' := by
  have own := inv.worker id
  obtain ⟨may, ⟨⟩⟩ := Option.ite_none_right_eq_some.mp taken
  have after : ∀ w : Worker WorkerId Key, w.started = false →
      SnapshotsAfter s (s.setWorker id w) :=
    fun w ended => .collect rfl ended
  split
  · rename_i wanted
    refine inv.setRecord (le_refl _) (after _ may.2.1) { own.tree with } { own.rows with }
      ⟨fun _ => may.2.1, fun _ => sound.2.after own.tree.commits (after _ may.2.1), ?_,
        fun _ _ isVisiting => nomatch isVisiting⟩
    intro position _
    exact lt_of_le_of_lt (Nat.zero_le _) wanted
  · rename_i purged
    exact inv.setRecord (le_refl _) (after _ may.2.1) { own.tree with } { own.rows with }
      (.toVisit may.2.1 (sound.2.after own.tree.commits (after _ may.2.1))
        (Nat.le_of_not_lt purged) own.tree.cleaned)

structure Collected (s : State WorkerId Key) (id : WorkerId)
    (v : RemoveVersion WorkerId Key) (w : Worker WorkerId Key)
    (s' : State WorkerId Key) : Prop where
  handles : Handles s id v s'
  worker : s'.worker = Function.update s.worker id w
  clock : s'.globalClock = s.globalClock
  latch : ∀ frame, s.latch frame ≤ s'.latch frame

section Collect

variable {v : RemoveVersion WorkerId Key} {position fromTxId : Nat} (inv : Inv s)
include inv

theorem Inv.todo_collected (w : Worker WorkerId Key) (flags : Flags)
    (pointed : Key) (mem : v ∈ (s.worker id).removes)
    (allLwm : w.localAllLwm = (s.worker id).localAllLwm)
    (oltpLwm : w.localOltpLwm = (s.worker id).localOltpLwm)
    (settled : (s.worker id).localAllLwm ≤ v.txId → v.txId < (s.worker id).localOltpLwm) :
    ∃ s', todo flags (s.setWorker id w) id v v.calledBefore pointed =
      some s' ∧ Collected s id v w s' := by
  have own := inv.worker id
  have closed := inv.closed mem
  cases called : v.calledBefore with
  | true =>
    obtain ⟨tuple, found, tombstone⟩ := own.rows.graveyard v mem called
    have runs : todo flags (s.setWorker id w) id v true pointed =
        some { s.setWorker id w with
          graveyard := update s.graveyard v.key none } := by
      simp [todo, setWorker, closed, found]
    exact ⟨_, runs, .unburies called tuple found tombstone rfl rfl, rfl, rfl,
      fun _ => le_refl _⟩
  | false =>
    obtain ⟨row, found, tombstone⟩ := own.rows.main v mem called
    obtain ⟨tag, format, unlocked, removed⟩ := tombstone
    by_cases old : v.txId < (s.worker id).localAllLwm
    · have runs : todo flags (s.setWorker id w) id v false pointed =
          some ((s.setWorker id w).removeSlot v.key row) := by
        simp [todo, setWorker, closed, found, buries, tag, format, unlocked, removed, allLwm, old]
      exact ⟨_, runs, .deletes called row found ⟨tag, format, unlocked, removed⟩ old rfl rfl,
        rfl, rfl, le_exclusive row.frame⟩
    · have recent := Nat.le_of_not_lt old
      have runs : todo flags (s.setWorker id w) id v false pointed =
          some { (s.setWorker id w).removeSlot v.key row with
            graveyard := update s.graveyard v.key (some row.toTuple) } := by
        simp [todo, setWorker, closed, found, inv.disjoint _ _ found, buries, tag, format,
          unlocked, removed, allLwm, old, oltpLwm, settled recent]
      exact ⟨_, runs, .moves called row found ⟨tag, format, unlocked, removed⟩ recent
        (settled recent) rfl rfl, rfl, rfl, le_exclusive row.frame⟩

variable (due : (s.worker id).due = some v)
include due

theorem Inv.purge_step (flags : Flags) (pointed : Key)
    (purging : (s.worker id).phase = .purging position) :
    ∃ s', step flags s (.collect id pointed) = some s' ∧
      Collected s id v ((s.worker id).purge v) s' := by
  obtain ⟨mem, _⟩ := due_purging purging due
  have positive := (inv.worker id).collect.purging position purging
  obtain ⟨s', runs, collected⟩ :=
    inv.todo_collected ((s.worker id).purge v) flags pointed mem rfl rfl (by omega)
  refine ⟨s', ?_, collected⟩
  simp only [step, purging, due, runs]

theorem Inv.visit_step (flags : Flags) (pointed : Key)
    (visiting : (s.worker id).phase = .visiting fromTxId position) :
    ∃ s', step flags s (.collect id pointed) = some s' ∧ v.calledBefore = false ∧
      Collected s id v ((s.worker id).visit fromTxId v) s' := by
  have own := inv.worker id
  obtain ⟨mem, _, _, _⟩ := due_visiting visiting own.tree.sorted due
  obtain ⟨_, _, marked⟩ := own.collect.visiting fromTxId position visiting
  have uncalled : v.calledBefore = false := by
    by_contra called
    rcases marked v mem (by simpa using called) with early | behind
    · omega
    · omega
  obtain ⟨s', runs, collected⟩ :=
    inv.todo_collected ((s.worker id).visit fromTxId v) flags pointed mem rfl rfl
      (by omega)
  refine ⟨s', ?_, uncalled, collected⟩
  simp only [step, visiting, due, uncalled, ← runs]
  rfl

theorem Inv.purge (purging : (s.worker id).phase = .purging position)
    (collected : Collected s id v ((s.worker id).purge v) s') : Inv s' := by
  have own := inv.worker id
  obtain ⟨handles, same, clock, latch⟩ := collected
  have running : (s.worker id).phase ≠ .idle := by rw [purging]; exact nofun
  have ended := own.collect.idle running
  obtain ⟨mem, _⟩ := due_purging purging due
  refine inv.of_worker same (handles.disjoint inv) (le_of_eq clock.symm)
    (fun other differs => handles.kept inv latch differs) (.collect same ended)
    (clock ▸ own.tree.purge v) ?_ ?_
  · refine own.rows.handled (handles.elsewhere latch) ended
      (fun found isFound => ⟨found, mem_of_mem_filter isFound, rfl⟩) ?_
    intro found isFound
    obtain ⟨isMember, differs⟩ := mem_filter.mp isFound
    exact .inl ⟨isMember, inv.version_key_ne mem isMember (by simpa using differs)⟩
  · refine ⟨fun _ => ended, ?_, fun _ _ => own.collect.purging position purging,
      fun _ _ isVisiting => nomatch isVisiting⟩
    intro _
    exact (own.collect.seen running).after own.tree.commits (.collect same ended)

theorem Inv.visit (visiting : (s.worker id).phase = .visiting fromTxId position)
    (uncalled : v.calledBefore = false)
    (collected : Collected s id v ((s.worker id).visit fromTxId v) s') : Inv s' := by
  have own := inv.worker id
  obtain ⟨handles, same, clock, latch⟩ := collected
  have running : (s.worker id).phase ≠ .idle := by rw [visiting]; exact nofun
  have ended := own.collect.idle running
  obtain ⟨mem, reached, _, _⟩ := due_visiting visiting own.tree.sorted due
  obtain ⟨positive, purged, marked⟩ := own.collect.visiting fromTxId position visiting
  refine inv.of_worker same (handles.disjoint inv) (le_of_eq clock.symm)
    (fun other differs => handles.kept inv latch differs) (.collect same ended)
    (clock ▸ own.tree.visit mem) ?_ ?_
  · refine own.rows.handled (handles.elsewhere latch) ended ?_ ?_
    · intro found isFound
      obtain ⟨old, isOld, ⟨_, rfl⟩ | ⟨_, rfl⟩⟩ := mem_visit isFound
      · exact ⟨old, isOld, rfl⟩
      · exact ⟨_, isOld, rfl⟩
    intro found isFound
    obtain ⟨old, isOld, ⟨isIt, rfl⟩ | ⟨differs, rfl⟩⟩ := mem_visit isFound
    · cases own.tree.sorted.eq_of_key isOld mem isIt
      refine .inr ⟨rfl, ?_⟩
      cases handles with
      | unburies called => rw [uncalled] at called; contradiction
      | deletes => omega
      | moves _ row _ tombstone _ _ _ graveyard =>
        refine ⟨row.toTuple, ?_, { tombstone with }⟩
        rw [graveyard]
        exact update_self ..
    · exact .inl ⟨isOld, inv.version_key_ne mem isOld differs⟩
  · refine ⟨fun _ => ended, ?_, (fun _ isPurging => nomatch isPurging), ?_⟩
    · intro _
      exact (own.collect.seen running).after own.tree.commits (.collect same ended)
    · intro _ _ isVisiting
      cases isVisiting
      refine ⟨positive, purged, ?_⟩
      intro found isFound called
      obtain ⟨old, isOld, ⟨isIt, rfl⟩ | ⟨differs, rfl⟩⟩ := mem_visit isFound
      · apply Or.inr
        change old.historyKey < v.historyKey + 1
        omega
      · rcases marked _ isOld called with early | behind
        · exact .inl early
        · exact .inr (lt_of_lt_of_le behind (Nat.le_succ_of_le reached))

end Collect

theorem Inv.collect (inv : Inv s) {pointed : Key}
    (taken : step flags s (.collect id pointed) = some s') : Inv s' := by
  have own := inv.worker id
  cases phase : (s.worker id).phase with
  | idle => simp [step, phase] at taken
  | purging =>
    have running : (s.worker id).phase ≠ .idle := by simp [phase]
    have ended := own.collect.idle running
    cases due : (s.worker id).due with
    | none =>
      simp only [step, phase, due, Option.some.injEq] at taken
      subst taken
      have cleaned : ∀ v ∈ (s.worker id).removes, v.calledBefore = true →
          v.txId < (s.worker id).cleaned.cleanedUntilOltpLwm :=
        fun v mem called =>
          lt_of_lt_of_le (own.tree.cleaned v mem called) (le_max_right _ _)
      refine inv.setRecord (le_refl _) (.collect rfl ended)
        { own.tree with cleaned := cleaned } { own.rows with } ?_
      refine .toVisit ended ?_ (le_max_left _ _) cleaned
      exact (own.collect.seen running).after own.tree.commits (.collect rfl ended)
    | some =>
      obtain ⟨_, runs, collected⟩ := inv.purge_step due flags pointed phase
      rw [taken] at runs
      cases runs
      exact inv.purge due phase collected
  | visiting =>
    have running : (s.worker id).phase ≠ .idle := by simp [phase]
    have ended := own.collect.idle running
    cases due : (s.worker id).due with
    | none =>
      simp only [step, phase, due, Option.some.injEq] at taken
      subst taken
      exact inv.setRecord (le_refl _) (.collect rfl ended) { own.tree with }
        { own.rows with } (.of_idle rfl)
    | some =>
      obtain ⟨_, runs, uncalled, collected⟩ := inv.visit_step due flags pointed phase
      rw [taken] at runs
      cases runs
      exact inv.visit due phase uncalled collected

theorem Inv.step (inv : Inv s) (sound : SoundWatermarks s a)
    (taken : step flags s a = some s') : Inv s' := by
  cases a with
  | startTX => exact inv.startTX taken
  | remove => exact inv.remove taken
  | commitTX => exact inv.commitTX taken
  | abortTX => exact inv.abortTX taken
  | garbageCollection => exact inv.garbageCollection sound taken
  | collect => exact inv.collect taken
  | relocate => exact inv.relocate taken
  | latch frame =>
    cases taken
    exact inv.latched frame

abbrev Reaches (flags : Flags) : State WorkerId Key → Prop :=
  Reachable (step flags) Initial SoundWatermarks

theorem Reaches.inv (reached : Reaches flags s) : Inv s :=
  reached.invariant Inv (fun _ initial => initial.inv)
    fun _ _ _ inv sound taken => inv.step sound taken

theorem Inv.due_step (inv : Inv s) {v : RemoveVersion WorkerId Key}
    (flags : Flags) (pointed : Key) (due : (s.worker id).due = some v) :
    ∃ s', GarbageCollection.step flags s (.collect id pointed) = some s' ∧
      Handles s id v s' ∧ ∀ frame, s.latch frame ≤ s'.latch frame := by
  cases phase : (s.worker id).phase with
  | idle => simp [Worker.due, phase] at due
  | purging =>
    obtain ⟨s', runs, collected⟩ := inv.purge_step due flags pointed phase
    exact ⟨s', runs, collected.handles, collected.latch⟩
  | visiting =>
    obtain ⟨s', runs, _, collected⟩ := inv.visit_step due flags pointed phase
    exact ⟨s', runs, collected.handles, collected.latch⟩

theorem Inv.leaves_by_collect (inv : Inv s) {row : Row WorkerId}
    (taken : GarbageCollection.step flags s a = some s')
    (found : s.main key = some row) (gone : s'.main key = none) :
    ∃ id pointed v, a = .collect id pointed ∧ (s.worker id).due = some v ∧ v.key = key ∧
      Handles s id v s' := by
  by_cases loops : ∃ id pointed, a = .collect id pointed
  · obtain ⟨id, pointed, rfl⟩ := loops
    cases due : (s.worker id).due with
    | none =>
      -- between the versions the trees are not touched
      cases phase : (s.worker id).phase with
      | idle => simp [GarbageCollection.step, phase] at taken
      | purging | visiting =>
        simp only [GarbageCollection.step, phase, due, Option.some.injEq] at taken
        subst taken
        cases found.symm.trans gone
    | some v =>
      obtain ⟨_, runs, handles, latch⟩ := inv.due_step flags pointed due
      rw [taken] at runs
      cases runs
      refine ⟨id, pointed, v, rfl, due, ?_, handles⟩
      by_contra differs
      obtain ⟨_, isRow, _⟩ := (handles.elsewhere latch).main key row (symm differs) found
      cases isRow.symm.trans gone
  · have present := step_present taken (fun id pointed is => loops ⟨id, pointed, is⟩) key
    rw [found, gone] at present
    cases present

/-- A row leaves the main tree only when the loops of its remover come to its version.  It is
deleted if the remove is below `local_all_lwm`, so that every running snapshot sees it, and
moved to the graveyard otherwise, when every OLTP snapshot sees it.  A version that is due
never stops `todo`, its row is gone afterwards, and if it was visited before, its key is in
the graveyard. -/
theorem removed_rows_collected (reached : Reaches flags state) :
    (∀ action state', step flags state action = some state' →
      ∀ key row, state.main key = some row → state'.main key = none →
      ∃ pointed commit, action = .collect row.workerId pointed ∧ row.isRemoved = true ∧
        (row.txTs, commit) ∈ (state.worker row.workerId).commits ∧
        ((row.txTs < (state.worker row.workerId).localAllLwm ∧
            state'.graveyard key = none ∧
            ∀ other, (state.worker other).started = true → commit < (state.worker other).startTs) ∨
          ((state.worker row.workerId).localAllLwm ≤ row.txTs ∧
            state'.graveyard key = some row.toTuple ∧
            ∀ other, (state.worker other).started = true →
              (state.worker other).isOLAP = false →
              commit < (state.worker other).startTs))) ∧
    (∀ id version pointed, (state.worker id).due = some version →
      (version.calledBefore = true → (state.graveyard version.key).isSome) ∧
      ∃ state', step flags state (.collect id pointed) = some state' ∧
        state'.main version.key = none) := by
  have inv := reached.inv
  refine ⟨?_, ?_⟩
  · intro action state' taken key row found gone
    obtain ⟨id, pointed, version, rfl, due, rfl, handles⟩ :=
      inv.leaves_by_collect taken found gone
    obtain ⟨commit, committed, seen⟩ := inv.due_committed due
    cases handles with
    | unburies _ _ _ _ main =>
      rw [main, found] at gone
      exact nomatch gone
    | deletes _ row' found' tombstone settled _ graveyard =>
      cases found.symm.trans found'
      obtain ⟨tag, _, _, removed⟩ := tombstone
      rw [tag]
      refine ⟨pointed, commit, rfl, removed, committed, .inl ⟨settled, ?_, ?_⟩⟩
      · rw [graveyard]
        exact inv.disjoint _ _ found
      · intro other running
        exact (seen other running).1 settled
    | moves _ row' found' tombstone recent settled _ graveyard =>
      cases found.symm.trans found'
      obtain ⟨tag, _, _, removed⟩ := tombstone
      have buried : state'.graveyard version.key = some row.toTuple := by
        rw [graveyard]
        exact update_self ..
      rw [tag]
      refine ⟨pointed, commit, rfl, removed, committed, .inr ⟨recent, buried, ?_⟩⟩
      intro other running isOLTP
      exact (seen other running).2 settled isOLTP
  · intro id version pointed due
    obtain ⟨state', runs, handles, _⟩ := inv.due_step flags pointed due
    refine ⟨?_, state', runs, ?_⟩
    · intro called
      cases handles with
      | unburies _ tuple found => simp [found]
      | deletes uncalled => rw [called] at uncalled; contradiction
      | moves uncalled => rw [called] at uncalled; contradiction
    · cases handles with
      | unburies _ tuple found _ main =>
        rw [main]
        by_contra present
        obtain ⟨row, isRow⟩ := Option.ne_none_iff_exists'.mp present
        rw [inv.disjoint _ _ isRow] at found
        exact nomatch found
      | deletes _ row _ _ _ main => rw [main, removeSlot_self]
      | moves _ row _ _ _ _ main => rw [main, removeSlot_self]

def oneRow : State (Fin 2) (Fin 1) where
  globalClock := 10
  latch _ := 0
  main _ := some ⟨⟨⟨1, 5, 0⟩, .chained, false, false, [7, 8]⟩, 3, 0⟩
  graveyard _ := none
  worker _ := ⟨false, false, 0, false, 0, [], [], 0, 0, 0, .idle, []⟩

def defaultFlags : Flags := ⟨true, true, true, true⟩

/-- Worker 1 reads in an OLAP transaction.  Worker 0 removes the row and collects: the row is
moved, and its version stays. -/
def moveToGraveyard : List (Action (Fin 2) (Fin 1)) :=
  [.startTX 1 true, .startTX 0 false, .remove 0 0 true, .commitTX 0,
    .garbageCollection 0 0 12, .collect 0 0, .collect 0 0]

def purgeAfterwards : List (Action (Fin 2) (Fin 1)) :=
  moveToGraveyard ++ [.commitTX 1, .startTX 0 false, .commitTX 0, .garbageCollection 0 13 13]

instance (s : State (Fin 2) (Fin 1)) (commits : List (Nat × Nat)) (all oltp : Nat) :
    Decidable (SeenBySnapshots s commits all oltp) := by
  unfold SeenBySnapshots
  infer_instance

instance (state : State (Fin 2) (Fin 1)) (action : Action (Fin 2) (Fin 1)) :
    Decidable (SoundWatermarks state action) := by
  cases action <;> dsimp only [SoundWatermarks] <;> infer_instance

theorem initial_oneRow : Initial oneRow where
  main key row found := by
    cases found
    rfl
  graveyard _ := rfl
  removes _ := rfl
  commits _ := rfl
  started _ := rfl
  startTs := by decide
  phase _ := rfl

theorem removed_rows_collected_purgeAfterwards :
    ∃ (state : State (Fin 2) (Fin 1)) (version : RemoveVersion (Fin 2) (Fin 1)),
      Reaches defaultFlags state ∧ (state.worker 0).due = some version ∧
      version.calledBefore = true ∧ (state.graveyard version.key).isSome := by
  have computed : (run (step defaultFlags) oneRow purgeAfterwards).map
      (fun state => (state.worker 0).due.map fun version => version.calledBefore) =
        some (some true) := by
    decide
  obtain ⟨state, ran, isDue⟩ := Option.map_eq_some_iff.mp computed
  obtain ⟨version, due, called⟩ := Option.map_eq_some_iff.mp isDue
  have start : Reaches defaultFlags oneRow := .start initial_oneRow
  have reached := start.run_of_allowed (by decide) ran
  exact ⟨state, version, reached, due, called,
    ((removed_rows_collected reached).2 0 version 0 due).1 called⟩

end TieredStore.GarbageCollection
