import TieredStore.GarbageCollection.RemoveInvariant

namespace TieredStore.GarbageCollection

open Function List State

open HistoryTree (keyOf newCommandId)

variable {WorkerId Key : Type} {s : State WorkerId Key}

theorem Inv.markAsWrite [DecidableEq WorkerId] {id : WorkerId} (inv : Inv s) :
    Inv (s.setWorker id { s.worker id with hasWrote := true }) := by
  have own := inv.worker id
  have after : SnapshotsAfter s
      (s.setWorker id { s.worker id with hasWrote := true }) :=
    .update rfl fun started => .inl ⟨started, rfl, rfl⟩
  refine inv.setRecord (le_refl _) after ?_ { own.rows with }
    { own.collect.after own.tree after with }
  exact
    { own.tree with
      origin := by
        intro v mem
        rcases own.tree.origin v mem with committed | ⟨started, _, logged⟩
        · exact .inl committed
        · exact .inr ⟨started, rfl, logged⟩ }

theorem Inv.latched (inv : Inv s) (frame : Nat) : Inv (s.latched frame) where
  disjoint := inv.disjoint
  worker other := (inv.worker other).kept (.of_eq rfl rfl (le_latched frame)) rfl
    (le_refl _) (.of_eq rfl)

section Steps

variable [DecidableEq WorkerId] [DecidableEq Key] {flags : Flags}
  {s s' : State WorkerId Key} {id : WorkerId} {key : Key}

section

variable (inv : Inv s)
include inv

theorem Inv.startTX {isOLAP : Bool}
    (taken : step flags s (.startTX id isOLAP) = some s') : Inv s' := by
  obtain ⟨may, ⟨⟩⟩ := Option.ite_none_right_eq_some.mp taken
  have own := inv.worker id
  refine inv.setRecord (Nat.le_succ _) (.update rfl fun _ => .inr (le_refl _)) ?_
    { own.rows with wal := fun _ _ mem => nomatch mem } (.of_idle may.2)
  have tree := own.tree.mono (Nat.le_succ s.globalClock)
  exact
    { tree with
      origin := by
        intro v mem
        rcases own.tree.origin v mem with committed | ⟨started, _⟩
        · exact .inl committed
        · rw [may.1] at started
          contradiction
      startTs := Nat.lt_succ_self _
      fresh := fun _ commit mem => (own.tree.commits commit mem).1 }

theorem Inv.commitTX (taken : step flags s (.commitTX id) = some s') : Inv s' := by
  have own := inv.worker id
  obtain ⟨started, taken⟩ := Option.ite_none_right_eq_some.mp taken
  have idle := own.collect.idle_of_started started
  split at taken
  · cases taken
    have tree := own.tree.mono (Nat.le_succ s.globalClock)
    refine inv.setRecord (Nat.le_succ _) (.update rfl fun running => nomatch running) ?_
      { own.rows with wal := fun running => nomatch running } (.of_idle idle)
    exact
      { tree with
        origin := by
          intro v mem
          apply Or.inl
          rcases own.tree.origin v mem with ⟨commit, committed⟩ | ⟨_, _, txId, _⟩
          · exact ⟨commit, mem_cons_of_mem _ committed⟩
          · exact ⟨s.globalClock, txId ▸ mem_cons_self⟩
        commits := by
          intro commit mem
          rcases mem_cons.mp mem with rfl | earlier
          · exact ⟨tree.startTs, Nat.lt_succ_self _⟩
          · exact tree.commits commit earlier
        fresh := fun running => nomatch running }
  · rename_i nothing
    cases taken
    refine inv.setRecord (le_refl _) (.update rfl fun running => nomatch running) ?_
      { own.rows with wal := fun running => nomatch running } (.of_idle idle)
    exact
      { own.tree with
        origin := by
          intro v mem
          rcases own.tree.origin v mem with committed | ⟨_, wrote, _⟩
          · exact .inl committed
          · exact absurd wrote nothing
        fresh := fun running => nomatch running }

theorem Inv.removeRow {row : Row WorkerId} {v : RemoveVersion WorkerId Key}
    (isVersion : v = (s.worker id).removeVersion key row (s.latch row.frame + 1))
    (started : (s.worker id).started = true) (found : s.main key = some row)
    (format : row.format = .chained) (alive : row.isRemoved = false) :
    Inv ((s.setRow key (row.tombstone ⟨id, v.txId, v.commandId⟩)).setWorker id
      ((s.worker id).pushRemove v)) := by
  have own := inv.worker id
  -- no version has a tombstone here yet, so all of them keep theirs
  have kept : ∀ other, RowsKept s
      (s.setRow key (row.tombstone ⟨id, v.txId, v.commandId⟩)) other := by
    intro other
    apply RowsKept.setRow
    intro _ isOld removed _
    rw [found] at isOld
    cases isOld
    rw [alive] at removed
    contradiction
  refine inv.of_worker rfl (inv.disjoint_setRow found)
    (le_refl _) ?_ ?_ ?_ ?_ (.of_idle (own.collect.idle_of_started started))
  · intro other _
    exact { kept other with }
  · exact .update rfl fun running => .inl ⟨running, rfl, rfl⟩
  · subst isVersion
    exact own.tree.pushRemove started _
  · have isRow : (s.setRow key (row.tombstone ⟨id, v.txId, v.commandId⟩)).main
        v.key = some (row.tombstone ⟨id, v.txId, v.commandId⟩) := by
      subst isVersion
      exact update_self ..
    -- the release of the latch moves its version on
    have held : v.danglingPointer.latchVersionShouldBe <
        (s.setRow key (row.tombstone ⟨id, v.txId, v.commandId⟩)).latch
          v.danglingPointer.bf := by
      subst isVersion
      simp [Worker.removeVersion, setRow, exclusive, State.latched, Row.tombstone]
    have rows := (own.rows.kept (kept id)).pushRemove isRow ⟨rfl, format, rfl, rfl⟩
      (by rw [isVersion]; rfl) (by rw [isVersion]; rfl) held
    exact { rows with }

theorem Inv.remove {visible : Bool}
    (taken : step flags s (.remove id key visible) = some s') : Inv s' := by
  obtain ⟨started, taken⟩ := Option.ite_none_right_eq_some.mp taken
  split at taken
  · cases taken
    exact inv.markAsWrite
  · rename_i row found
    split at taken
    · contradiction
    · rename_i format
      split at taken
      · cases taken
        exact inv.markAsWrite
      · split at taken
        · contradiction
        · rename_i alive
          cases taken
          exact inv.removeRow rfl started found (by simpa using format) (by simpa using alive)

theorem Inv.abortTX (taken : step flags s (.abortTX id) = some s') : Inv s' := by
  have own := inv.worker id
  obtain ⟨started, taken⟩ := Option.ite_none_right_eq_some.mp taken
  split at taken
  · contradiction
  · rename_i restored undone
    cases taken
    have restores := undoAll_restores undone
    -- the rows of the log are tombstones of this transaction
    have elsewhere : ∀ other row, s.main other = some row →
        (row.workerId ≠ id ∨ row.txTs ≠ (s.worker id).startTs) →
        restored.main other = some row := by
      intro other row found differs
      rw [restores.main other, found]
      rintro e mem rfl
      obtain ⟨row', found', w, txTs, _⟩ := own.rows.wal started e mem
      rw [found] at found'
      cases found'
      simp_all
    refine inv.of_worker (congrArg (update · id _) restores.worker)
      ?_ (le_of_eq restores.clock.symm) ?_ ?_ ?_ ?_
      (.of_idle (own.collect.idle_of_started started))
    · intro other row found
      have present := restores.present other
      have isRow : restored.main other = some row := found
      rw [isRow] at present
      obtain ⟨old, isOld⟩ := Option.isSome_iff_exists.mp present.symm
      exact (congrFun restores.graveyard other).trans (inv.disjoint other old isOld)
    · intro other notOwn
      constructor
      · intro place row found _ w
        exact ⟨row, elsewhere place row found (.inl (w ▸ notOwn)), rfl⟩
      · intro place tuple found _
        exact (congrFun restores.graveyard place).trans found
      · exact restores.latch
    · exact .update (congrArg (update · id _) restores.worker) fun running => nomatch running
    · exact (own.tree.purgeOwn).mono (le_of_eq restores.clock.symm)
    · constructor
      · intro v mem uncalled
        obtain ⟨isMember, notOwn⟩ := own.tree.mem_purgeOwn mem
        obtain ⟨row, found, tombstone⟩ := own.rows.main v isMember uncalled
        refine ⟨row, elsewhere _ row found (.inr ?_), tombstone⟩
        rw [tombstone.tag]
        exact notOwn
      · intro v mem called
        obtain ⟨isMember, _⟩ := own.tree.mem_purgeOwn mem
        obtain ⟨tuple, found, tombstone⟩ := own.rows.graveyard v isMember called
        exact ⟨tuple, (congrFun restores.graveyard _).trans found, tombstone⟩
      · intro v mem
        obtain ⟨isMember, _⟩ := own.tree.mem_purgeOwn mem
        exact lt_of_lt_of_le (own.rows.pointer v isMember) (restores.latch _)
      · exact fun running => nomatch running

theorem Inv.relocate {frame slot : Nat}
    (taken : step flags s (.relocate key frame slot) = some s') : Inv s' := by
  obtain ⟨row, found, rfl⟩ := Option.map_eq_some_iff.mp taken
  have kept : ∀ other, RowsKept (s.exclusive row.frame)
      ((s.exclusive row.frame).setRow key { row with frame := frame, slot := slot }) other :=
    fun other => .setRow fun old isOld _ _ => by
      cases found.symm.trans isOld
      rfl
  constructor
  · exact inv.disjoint_setRow found
  · intro other
    refine (inv.worker other).kept ⟨(kept other).main, (kept other).graveyard, ?_⟩ rfl
      (le_refl _) (.of_eq rfl)
    intro place
    exact le_trans (le_exclusive row.frame place) ((kept other).latch place)

end

theorem step_present {a : Action WorkerId Key} (taken : step flags s a = some s')
    (other : ∀ id pointed, a ≠ .collect id pointed) (key : Key) :
    (s'.main key).isSome = (s.main key).isSome := by
  cases a with
  | startTX | garbageCollection =>
    obtain ⟨-, ⟨⟩⟩ := Option.ite_none_right_eq_some.mp taken
    rfl
  | remove id place visible =>
    obtain ⟨-, taken⟩ := Option.ite_none_right_eq_some.mp taken
    split at taken
    · cases taken
      rfl
    · rename_i row found
      split at taken
      · contradiction
      · split at taken
        · cases taken
          rfl
        · split at taken
          · contradiction
          · cases taken
            exact setRow_present found key
  | commitTX =>
    obtain ⟨-, taken⟩ := Option.ite_none_right_eq_some.mp taken
    split at taken <;> cases taken <;> rfl
  | abortTX id =>
    obtain ⟨-, taken⟩ := Option.ite_none_right_eq_some.mp taken
    split at taken
    · contradiction
    · rename_i restored undone
      cases taken
      exact (undoAll_restores undone).present key
  | collect id pointed => exact absurd rfl (other id pointed)
  | relocate place frame =>
    obtain ⟨row, found, rfl⟩ := Option.map_eq_some_iff.mp taken
    have moved : (s.exclusive row.frame).main place = some row := found
    exact setRow_present moved key
  | latch =>
    cases taken
    rfl

end Steps

end TieredStore.GarbageCollection
