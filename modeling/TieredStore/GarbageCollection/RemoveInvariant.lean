import TieredStore.GarbageCollection.RemoveVersions

namespace TieredStore.GarbageCollection

open HistoryTree (keyOf newCommandId)
open Transition List KeyList State Worker

variable {WorkerId Key : Type} {row : Row WorkerId}

structure Tombstone (id : WorkerId) (v : RemoveVersion WorkerId Key)
    (tuple : Tuple WorkerId) : Prop where
  tag : tuple.toTag = ⟨id, v.txId, v.commandId⟩
  format : tuple.format = .chained
  unlocked : tuple.writeLocked = false
  removed : tuple.isRemoved = true

theorem Tombstone.historyKey_eq {id other : WorkerId}
    {v version' : RemoveVersion WorkerId Key} {tuple : Tuple WorkerId}
    (its : Tombstone id v tuple) (others : Tombstone other version' tuple) :
    v.historyKey = version'.historyKey := by
  have same := its.tag.symm.trans others.tag
  simp only [Tag.mk.injEq] at same
  simp only [RemoveVersion.historyKey, same.2]

structure TreeInv (globalClock : Nat) (w : Worker WorkerId Key) : Prop where
  sorted : KeyList.Sorted RemoveVersion.historyKey w.removes
  small : ∀ v ∈ w.removes, v.commandId < 2 ^ 32
  cleaned : ∀ v ∈ w.removes, v.calledBefore = true → v.txId < w.cleanedUntilOltpLwm
  origin : ∀ v ∈ w.removes, (∃ commit, (v.txId, commit) ∈ w.commits) ∨
      w.started = true ∧ w.hasWrote = true ∧ v.txId = w.startTs ∧ v.toWALRemove ∈ w.wal
  startTs : w.startTs < globalClock
  commits : ∀ commit ∈ w.commits, commit.1 < globalClock ∧ commit.2 < globalClock
  fresh : w.started = true → ∀ commit ∈ w.commits, commit.1 < w.startTs

/-- A row of each version, in the tree that the version says.  The pointer was taken while
the latch of the leaf was held, and a latch never comes back to a version. -/
structure RowsInv (s : State WorkerId Key) (id : WorkerId) (w : Worker WorkerId Key) : Prop where
  main : ∀ v ∈ w.removes, v.calledBefore = false →
    ∃ row, s.main v.key = some row ∧ Tombstone id v row.toTuple
  graveyard : ∀ v ∈ w.removes, v.calledBefore = true →
    ∃ tuple, s.graveyard v.key = some tuple ∧ Tombstone id v tuple
  pointer : ∀ v ∈ w.removes, v.danglingPointer.latchVersionShouldBe < s.latch v.danglingPointer.bf
  wal : w.started = true → ∀ e ∈ w.wal, ∃ row, s.main e.key = some row ∧ row.workerId = id ∧
      row.txTs = w.startTs ∧ row.isRemoved = true

def SeenBySnapshots (s : State WorkerId Key) (commits : List (Nat × Nat))
    (localAllLwm localOltpLwm : Nat) : Prop :=
  ∀ commit ∈ commits, ∀ other, (s.worker other).started = true →
    (commit.1 < localAllLwm → commit.2 < (s.worker other).startTs) ∧
    (commit.1 < localOltpLwm → (s.worker other).isOLAP = false →
      commit.2 < (s.worker other).startTs)

structure CollectInv (s : State WorkerId Key) (w : Worker WorkerId Key) : Prop where
  idle : w.phase ≠ .idle → w.started = false
  seen : w.phase ≠ .idle → SeenBySnapshots s w.commits w.localAllLwm w.localOltpLwm
  purging : ∀ position, w.phase = .purging position → 0 < w.localAllLwm
  visiting : ∀ fromTxId position, w.phase = .visiting fromTxId position →
    0 < w.localOltpLwm ∧ w.localAllLwm ≤ fromTxId ∧ ∀ v ∈ w.removes, v.calledBefore = true →
        v.txId < fromTxId ∨ v.historyKey < position

structure WorkerInv (s : State WorkerId Key) (id : WorkerId) : Prop where
  tree : TreeInv s.globalClock (s.worker id)
  rows : RowsInv s id (s.worker id)
  collect : CollectInv s (s.worker id)

structure Inv (s : State WorkerId Key) : Prop where
  disjoint : ∀ key row, s.main key = some row → s.graveyard key = none
  worker : ∀ id, WorkerInv s id

structure Initial (s : State WorkerId Key) : Prop where
  main : ∀ key row, s.main key = some row → row.isRemoved = false
  graveyard : ∀ key, s.graveyard key = none
  removes : ∀ id, (s.worker id).removes = []
  commits : ∀ id, (s.worker id).commits = []
  started : ∀ id, (s.worker id).started = false
  startTs : ∀ id, (s.worker id).startTs < s.globalClock
  phase : ∀ id, (s.worker id).phase = .idle

section Frames

variable {s s' : State WorkerId Key} {id : WorkerId} {w : Worker WorkerId Key}

def SnapshotsAfter (s s' : State WorkerId Key) : Prop :=
  ∀ other, (s'.worker other).started = true → ((s.worker other).started = true ∧
        (s'.worker other).startTs = (s.worker other).startTs ∧
        (s'.worker other).isOLAP = (s.worker other).isOLAP) ∨
      s.globalClock ≤ (s'.worker other).startTs

structure RowsKept (s s' : State WorkerId Key) (id : WorkerId) : Prop where
  main : ∀ key row, s.main key = some row → row.isRemoved = true → row.workerId = id →
    ∃ row', s'.main key = some row' ∧ row'.toTuple = row.toTuple
  graveyard : ∀ key tuple, s.graveyard key = some tuple → tuple.workerId = id →
    s'.graveyard key = some tuple
  latch : ∀ frame, s.latch frame ≤ s'.latch frame

theorem RowsKept.of_eq (main : s'.main = s.main) (graveyard : s'.graveyard = s.graveyard)
    (latch : ∀ frame, s.latch frame ≤ s'.latch frame) : RowsKept s s' id where
  main _ row found _ _ := ⟨row, main ▸ found, rfl⟩
  graveyard _ _ found _ := graveyard ▸ found
  latch := latch

theorem SnapshotsAfter.of_eq (same : s'.worker = s.worker) : SnapshotsAfter s s' := by
  intro _ started
  rw [same] at started ⊢
  exact .inl ⟨started, rfl, rfl⟩

theorem SeenBySnapshots.after {commits : List (Nat × Nat)} {all oltp : Nat}
    (seen : SeenBySnapshots s commits all oltp)
    (below : ∀ commit ∈ commits, commit.1 < s.globalClock ∧ commit.2 < s.globalClock)
    (after : SnapshotsAfter s s') : SeenBySnapshots s' commits all oltp := by
  intro commit mem other started
  rcases after other started with ⟨ran, startTs, isOLAP⟩ | isNew
  · rw [startTs, isOLAP]
    exact seen commit mem other ran
  · have drawn := lt_of_lt_of_le (below commit mem).2 isNew
    exact ⟨fun _ => drawn, fun _ _ => drawn⟩

theorem TreeInv.mono {clock clock' : Nat}
    (inv : TreeInv clock w) (later : clock ≤ clock') : TreeInv clock' w :=
  { inv with
    startTs := lt_of_lt_of_le inv.startTs later
    commits := fun commit mem =>
      ⟨lt_of_lt_of_le (inv.commits commit mem).1 later,
        lt_of_lt_of_le (inv.commits commit mem).2 later⟩ }

theorem CollectInv.after (inv : CollectInv s w)
    (tree : TreeInv s.globalClock w) (after : SnapshotsAfter s s') : CollectInv s' w where
  idle := inv.idle
  seen running := (inv.seen running).after tree.commits after
  purging := inv.purging
  visiting := inv.visiting

theorem CollectInv.of_idle (idle : w.phase = .idle) : CollectInv s w := by
  constructor
  · intro running
    exact absurd idle running
  · intro running
    exact absurd idle running
  · intro position running
    rw [idle] at running
    contradiction
  · intro _ position running
    rw [idle] at running
    contradiction

theorem CollectInv.idle_of_started (inv : CollectInv s w) (started : w.started = true) :
    w.phase = .idle := by
  by_contra running
  rw [inv.idle running] at started
  contradiction

theorem RowsInv.kept (inv : RowsInv s id w) (kept : RowsKept s s' id) : RowsInv s' id w := by
  constructor
  · intro v mem isFresh
    obtain ⟨row, found, tombstone⟩ := inv.main v mem isFresh
    obtain ⟨row', found', tuple⟩ := kept.main _ _ found tombstone.removed (by rw [tombstone.tag])
    exact ⟨row', found', tuple ▸ tombstone⟩
  · intro v mem called
    obtain ⟨tuple, found, tombstone⟩ := inv.graveyard v mem called
    exact ⟨tuple, kept.graveyard _ _ found (by rw [tombstone.tag]), tombstone⟩
  · intro v mem
    exact lt_of_lt_of_le (inv.pointer v mem) (kept.latch _)
  · intro started e mem
    obtain ⟨row, found, w, txTs, removed⟩ := inv.wal started e mem
    obtain ⟨row', found', tuple⟩ := kept.main _ _ found removed w
    refine ⟨row', found', ?_⟩
    rw [tuple]
    exact ⟨w, txTs, removed⟩

theorem WorkerInv.kept (inv : WorkerInv s id) (kept : RowsKept s s' id)
    (same : s'.worker id = s.worker id) (later : s.globalClock ≤ s'.globalClock)
    (after : SnapshotsAfter s s') : WorkerInv s' id where
  tree := same ▸ inv.tree.mono later
  rows := same ▸ inv.rows.kept kept
  collect := same ▸ inv.collect.after inv.tree after

theorem SnapshotsAfter.update [DecidableEq WorkerId]
    (same : s'.worker = Function.update s.worker id w) (own : w.started = true →
      ((s.worker id).started = true ∧ w.startTs = (s.worker id).startTs ∧
          w.isOLAP = (s.worker id).isOLAP) ∨ s.globalClock ≤ w.startTs) : SnapshotsAfter s s' := by
  intro other
  rw [same]
  by_cases its : other = id
  · subst its
    simpa using own
  · rw [Function.update_of_ne its]
    intro started
    exact .inl ⟨started, rfl, rfl⟩

theorem SnapshotsAfter.collect [DecidableEq WorkerId]
    (same : s'.worker = Function.update s.worker id w)
    (ended : w.started = false) : SnapshotsAfter s s' := by
  apply update same
  intro running
  rw [ended] at running
  contradiction

theorem Inv.of_worker [DecidableEq WorkerId] (inv : Inv s)
    (same : s'.worker = Function.update s.worker id w)
    (disjoint : ∀ key row, s'.main key = some row → s'.graveyard key = none)
    (later : s.globalClock ≤ s'.globalClock)
    (kept : ∀ other, other ≠ id → RowsKept s s' other) (after : SnapshotsAfter s s')
    (tree : TreeInv s'.globalClock w) (rows : RowsInv s' id w)
    (collect : CollectInv s' w) : Inv s' where
  disjoint := disjoint
  worker other := by
    by_cases its : other = id
    · subst its
      have own : s'.worker other = w := by rw [same, Function.update_self]
      exact ⟨own ▸ tree, own ▸ rows, own ▸ collect⟩
    · apply (inv.worker other).kept (kept other its) _ later after
      rw [same, Function.update_of_ne its]

theorem Inv.setRecord [DecidableEq WorkerId] (inv : Inv s)
    {clock : Nat} (later : s.globalClock ≤ clock)
    (after : SnapshotsAfter s { s.setWorker id w with globalClock := clock })
    (tree : TreeInv clock w) (rows : RowsInv s id w)
    (collect : CollectInv { s.setWorker id w with globalClock := clock } w) :
    Inv { s.setWorker id w with globalClock := clock } := by
  have kept : ∀ other,
      RowsKept s { s.setWorker id w with globalClock := clock } other :=
    fun _ => .of_eq rfl rfl fun _ => le_refl _
  exact inv.of_worker rfl inv.disjoint later (fun other _ => kept other) after tree
    (rows.kept (kept id)) collect

theorem Initial.inv (initial : Initial s) : Inv s where
  disjoint key _ _ := initial.graveyard key
  worker id := by
    have removes := initial.removes id
    have commits := initial.commits id
    refine ⟨⟨?_, ?_, ?_, ?_, initial.startTs id, ?_, ?_⟩, ⟨?_, ?_, ?_, ?_⟩,
      .of_idle (initial.phase id)⟩
    · rw [removes]
      exact Pairwise.nil
    all_goals simp [removes, commits, initial.started id]

end Frames

section Trees

variable {flags : Flags} {s : State WorkerId Key} {id : WorkerId} {key : Key} {clock : Nat}
  {w : Worker WorkerId Key} {v : RemoveVersion WorkerId Key} {fromTxId : Nat}

theorem State.le_latched (touched frame : Nat) :
    s.latch frame ≤ (s.latched touched).latch frame := by
  by_cases its : frame = touched
  · subst its
    simp [latched]
  · simp [latched, Function.update_of_ne its]

theorem State.le_exclusive (touched frame : Nat) :
    s.latch frame ≤ (s.exclusive touched).latch frame :=
  le_trans (le_latched touched frame) (le_latched touched frame)

theorem Inv.closed (inv : Inv s) (mem : v ∈ (s.worker id).removes) : s.latch v.danglingPointer.bf ≠
      v.danglingPointer.latchVersionShouldBe :=
  ne_of_gt ((inv.worker id).rows.pointer v mem)

theorem Inv.version_key_ne (inv : Inv s) {other : RemoveVersion WorkerId Key}
    (mem : v ∈ (s.worker id).removes) (isOther : other ∈ (s.worker id).removes)
    (differs : other.historyKey ≠ v.historyKey) : other.key ≠ v.key := by
  intro same
  have rows := (inv.worker id).rows
  cases its : v.calledBefore with
  | false =>
    obtain ⟨row, found, tombstone⟩ := rows.main v mem its
    cases others : other.calledBefore with
    | false =>
      obtain ⟨_, found', tombstone'⟩ := rows.main other isOther others
      rw [same, found] at found'
      cases found'
      exact differs (tombstone'.historyKey_eq tombstone)
    | true =>
      obtain ⟨tuple, buried, _⟩ := rows.graveyard other isOther others
      rw [same, inv.disjoint _ _ found] at buried
      exact nomatch buried
  | true =>
    obtain ⟨tuple, buried, tombstone⟩ := rows.graveyard v mem its
    cases others : other.calledBefore with
    | false =>
      obtain ⟨row, found, _⟩ := rows.main other isOther others
      rw [← same, inv.disjoint _ _ found] at buried
      exact nomatch buried
    | true =>
      obtain ⟨_, buried', tombstone'⟩ := rows.graveyard other isOther others
      rw [same, buried] at buried'
      cases buried'
      exact differs (tombstone'.historyKey_eq tombstone)

theorem TreeInv.pushRemove (inv : TreeInv clock w)
    (started : w.started = true) (latchVersion : Nat) :
    TreeInv clock (w.pushRemove (w.removeVersion key row latchVersion)) := by
  constructor
  case sorted => exact inv.sorted.upsert _
  case startTs => exact inv.startTs
  case commits => exact inv.commits
  case fresh => exact inv.fresh
  all_goals
    intro v mem
    rcases mem_upsert mem with rfl | earlier
  case small.inl => exact Nat.mod_lt _ (by decide)
  case small.inr => exact inv.small v earlier
  case cleaned.inl => exact fun called => nomatch called
  case cleaned.inr => exact inv.cleaned v earlier
  case origin.inl => exact .inr ⟨started, rfl, rfl, mem_cons_self⟩
  case origin.inr =>
    rcases inv.origin v earlier with committed | ⟨_, _, txId, logged⟩
    · exact .inl committed
    · exact .inr ⟨started, rfl, txId, mem_cons_of_mem _ logged⟩

theorem RowsInv.pushRemove (inv : RowsInv s id w)
    (found : s.main v.key = some row) (tombstone : Tombstone id v row.toTuple)
    (isFresh : v.calledBefore = false) (current : v.txId = w.startTs)
    (pointer : v.danglingPointer.latchVersionShouldBe < s.latch v.danglingPointer.bf) :
    RowsInv s id (w.pushRemove v) := by
  constructor
  · intro other mem uncalled
    rcases mem_upsert mem with rfl | earlier
    · exact ⟨row, found, tombstone⟩
    · exact inv.main other earlier uncalled
  · intro other mem called
    rcases mem_upsert mem with rfl | earlier
    · rw [isFresh] at called
      contradiction
    · exact inv.graveyard other earlier called
  · intro other mem
    rcases mem_upsert mem with rfl | earlier
    · exact pointer
    · exact inv.pointer other earlier
  · intro started e mem
    rcases mem_cons.mp mem with rfl | earlier
    · have tag := tombstone.tag
      refine ⟨row, found, ?_, ?_, tombstone.removed⟩
      · rw [tag]
      · rw [tag]
        exact current
    · exact inv.wal started e earlier

theorem TreeInv.mem_purgeOwn (inv : TreeInv clock w) (mem : v ∈ w.purgeOwn) :
    v ∈ w.removes ∧ v.txId ≠ w.startTs := by
  rcases mem_append.mp mem with earlier | later
  · have isMember := mem_of_mem_before earlier
    have below : v.historyKey < keyOf w.startTs 0 := lt_of_mem_before earlier
    refine ⟨isMember, ?_⟩
    simp only [RemoveVersion.historyKey, keyOf] at below
    omega
  · have inSeek := (dropWhile_sublist _).subset later
    have isMember := mem_of_mem_seek inSeek
    refine ⟨isMember, ?_⟩
    have sorted : Sorted RemoveVersion.historyKey
        (seek RemoveVersion.historyKey (keyOf w.startTs 0) w.removes) :=
      Pairwise.sublist (dropWhile_sublist _) inv.sorted
    have small : ∀ found ∈ seek RemoveVersion.historyKey (keyOf w.startTs 0)
        w.removes, found.commandId < 2 ^ 32 :=
      fun found inSeek => inv.small found (mem_of_mem_seek inSeek)
    revert later
    generalize seek RemoveVersion.historyKey (keyOf w.startTs 0) w.removes =
      entries at sorted small
    -- the first entry that is left belongs to a later transaction, and so do those behind it
    induction entries with
    | nil => intro later; contradiction
    | cons head _ ih =>
      obtain ⟨first, sortedRest⟩ := pairwise_cons.mp sorted
      intro later
      by_cases own : head.txId ≤ w.startTs
      · apply ih sortedRest fun found inRest => small found (by simp [inRest])
        simpa [own] using later
      · rcases mem_cons.mp ((dropWhile_sublist _).subset later) with rfl | inRest
        · omega
        · have above := first v inRest
          have := small v (by simp [inRest])
          simp only [RemoveVersion.historyKey, keyOf] at above
          omega

theorem TreeInv.purgeOwn (inv : TreeInv clock w) :
    TreeInv clock { w with started := false, removes := w.purgeOwn } := by
  have sub : ∀ v ∈ w.purgeOwn, v ∈ w.removes := fun v mem => (inv.mem_purgeOwn mem).1
  refine ⟨?_, ?_, ?_, ?_, inv.startTs, inv.commits, fun running => nomatch running⟩
  · have left : w.purgeOwn.Sublist
        (before RemoveVersion.historyKey (keyOf w.startTs 0) w.removes ++
          seek RemoveVersion.historyKey (keyOf w.startTs 0) w.removes) :=
      (dropWhile_sublist _).append_left _
    rw [before_append_seek] at left
    exact Pairwise.sublist left inv.sorted
  · intro v mem
    exact inv.small v (sub v mem)
  · intro v mem
    exact inv.cleaned v (sub v mem)
  · intro v mem
    obtain ⟨isMember, notOwn⟩ := inv.mem_purgeOwn mem
    rcases inv.origin v isMember with committed | ⟨_, _, txId, _⟩
    · exact .inl committed
    · exact absurd txId notOwn

theorem CollectInv.toVisit (ended : w.started = false)
    (seen : SeenBySnapshots s w.commits w.localAllLwm w.localOltpLwm)
    (purged : w.localAllLwm ≤ w.cleanedUntilOltpLwm)
    (called : ∀ v ∈ w.removes, v.calledBefore = true → v.txId < w.cleanedUntilOltpLwm) :
    CollectInv s (w.toVisit flags) := by
  refine ⟨fun _ => ended, fun _ => seen, ?_, ?_⟩
  · intro position isPurging
    simp only [Worker.toVisit] at isPurging
    split at isPurging <;> contradiction
  · intro fromTxId position isVisiting
    simp only [Worker.toVisit] at isVisiting
    split at isVisiting
    · rename_i wanted
      cases isVisiting
      exact ⟨wanted.2.2.2.1, purged, fun v mem its => .inl (called v mem its)⟩
    · contradiction

theorem Worker.due_purging {position : Nat} (purging : w.phase = .purging position)
    (due : w.due = some v) : v ∈ w.removes ∧ v.txId ≤ w.localAllLwm - 1 := by
  simp only [Worker.due, purging, Option.filter_eq_some_iff, decide_eq_true_eq] at due
  exact ⟨mem_of_mem_seek (mem_of_mem_head? due.1), due.2⟩

theorem Worker.due_visiting {fromTxId position : Nat}
    (visiting : w.phase = .visiting fromTxId position)
    (sorted : KeyList.Sorted RemoveVersion.historyKey w.removes) (due : w.due = some v) :
    v ∈ w.removes ∧ position ≤ v.historyKey ∧ fromTxId ≤ v.txId ∧ v.txId ≤ w.localOltpLwm - 1 := by
  simp only [Worker.due, visiting, Option.filter_eq_some_iff, decide_eq_true_eq] at due
  have inSeek := mem_of_mem_head? due.1
  exact ⟨mem_of_mem_seek inSeek, sorted.le_of_mem_seek inSeek, due.2⟩

theorem TreeInv.purge (inv : TreeInv clock w) (v : RemoveVersion WorkerId Key) :
    TreeInv clock (w.purge v) := by
  have sub : ∀ found ∈ (w.purge v).removes, found ∈ w.removes :=
    fun found mem => mem_of_mem_filter mem
  exact
    { sorted := Pairwise.filter _ inv.sorted
      small := fun found mem => inv.small found (sub found mem)
      cleaned := fun found mem => inv.cleaned found (sub found mem)
      origin := fun found mem => inv.origin found (sub found mem)
      startTs := inv.startTs
      commits := inv.commits
      fresh := inv.fresh }

theorem Worker.mem_visit {found : RemoveVersion WorkerId Key}
    (mem : found ∈ (w.visit fromTxId v).removes) : ∃ old ∈ w.removes,
      (old.historyKey = v.historyKey ∧ found = { old with calledBefore := true }) ∨
      (old.historyKey ≠ v.historyKey ∧ found = old) := by
  obtain ⟨old, isOld, isFound⟩ := mem_map.mp mem
  refine ⟨old, isOld, ?_⟩
  split at isFound
  · rename_i same
    exact .inl ⟨same, isFound.symm⟩
  · rename_i differs
    exact .inr ⟨differs, isFound.symm⟩

theorem TreeInv.visit (inv : TreeInv clock w)
    (mem : v ∈ w.removes) : TreeInv clock (w.visit fromTxId v) := by
  constructor
  case sorted =>
    apply pairwise_map.mpr
    apply inv.sorted.imp
    intro found later below
    split <;> split <;> exact below
  case startTs => exact inv.startTs
  case commits => exact inv.commits
  case fresh => exact inv.fresh
  all_goals
    intro found isFound
    obtain ⟨old, isOld, ⟨same, rfl⟩ | ⟨_, rfl⟩⟩ := mem_visit isFound
  case small.inl => exact inv.small old isOld
  case small.inr => exact inv.small _ isOld
  case cleaned.inl =>
    intro _
    cases inv.sorted.eq_of_key isOld mem same
    exact lt_of_lt_of_le (Nat.lt_succ_self _) (le_max_right _ _)
  case cleaned.inr =>
    intro called
    exact lt_of_lt_of_le (inv.cleaned _ isOld called) (le_max_left _ _)
  case origin.inl => exact inv.origin old isOld
  case origin.inr => exact inv.origin _ isOld

theorem Inv.due_committed (inv : Inv s) (due : (s.worker id).due = some v) :
    ∃ commit, (v.txId, commit) ∈ (s.worker id).commits ∧ ∀ other, (s.worker other).started = true →
        (v.txId < (s.worker id).localAllLwm → commit < (s.worker other).startTs) ∧
        (v.txId < (s.worker id).localOltpLwm → (s.worker other).isOLAP = false →
          commit < (s.worker other).startTs) := by
  have own := inv.worker id
  have running : (s.worker id).phase ≠ .idle := by
    intro idle
    simp [Worker.due, idle] at due
  have mem : v ∈ (s.worker id).removes := by
    cases phase : (s.worker id).phase with
    | idle => exact absurd phase running
    | purging => exact (due_purging phase due).1
    | visiting => exact (due_visiting phase own.tree.sorted due).1
  rcases own.tree.origin v mem with ⟨commit, committed⟩ | ⟨started, _⟩
  · refine ⟨commit, committed, ?_⟩
    intro other isRunning
    exact own.collect.seen running _ committed other isRunning
  · rw [own.collect.idle running] at started
    contradiction

end Trees

structure RowsElsewhere (key : Key) (s s' : State WorkerId Key) : Prop where
  main : ∀ other row, other ≠ key → s.main other = some row →
    ∃ row', s'.main other = some row' ∧ row'.toTuple = row.toTuple
  graveyard : ∀ other, other ≠ key → s'.graveyard other = s.graveyard other
  latch : ∀ frame, s.latch frame ≤ s'.latch frame

section Elsewhere

variable {s s' : State WorkerId Key} {id : WorkerId} {key : Key}

theorem RowsElsewhere.kept (elsewhere : RowsElsewhere key s s')
    (main : ∀ row, s.main key = some row → row.workerId = id)
    (graveyard : ∀ tuple, s.graveyard key = some tuple → tuple.workerId = id)
    {other : WorkerId} (differs : other ≠ id) : RowsKept s s' other where
  main place row found _ w := by
    apply elsewhere.main place row _ found
    rintro rfl
    exact differs (w.symm.trans (main row found))
  graveyard place tuple found w := by
    rw [elsewhere.graveyard place, found]
    rintro rfl
    exact differs (w.symm.trans (graveyard tuple found))
  latch := elsewhere.latch

theorem RowsInv.handled {w w' : Worker WorkerId Key}
    (inv : RowsInv s id w) (elsewhere : RowsElsewhere key s s')
    (ended : w'.started = false) (pointers : ∀ found ∈ w'.removes, ∃ old ∈ w.removes,
      old.danglingPointer = found.danglingPointer)
    (versions : ∀ found ∈ w'.removes, (found ∈ w.removes ∧ found.key ≠ key) ∨
      found.calledBefore = true ∧
        ∃ tuple, s'.graveyard found.key = some tuple ∧ Tombstone id found tuple) :
    RowsInv s' id w' := by
  constructor
  · intro found mem uncalled
    rcases versions found mem with ⟨isMember, differs⟩ | ⟨called, _⟩
    · obtain ⟨row, isRow, tombstone⟩ := inv.main found isMember uncalled
      obtain ⟨row', isRow', tuple⟩ := elsewhere.main _ row differs isRow
      exact ⟨row', isRow', tuple ▸ tombstone⟩
    · rw [uncalled] at called
      contradiction
  · intro found mem called
    rcases versions found mem with ⟨isMember, differs⟩ | ⟨_, buried⟩
    · obtain ⟨tuple, isTuple, tombstone⟩ := inv.graveyard found isMember called
      exact ⟨tuple, (elsewhere.graveyard _ differs).trans isTuple, tombstone⟩
    · exact buried
  · intro found mem
    obtain ⟨old, isOld, same⟩ := pointers found mem
    rw [← same]
    exact lt_of_lt_of_le (inv.pointer old isOld) (elsewhere.latch _)
  · intro running
    rw [ended] at running
    contradiction

end Elsewhere

section Rows

variable [DecidableEq Key] {s s' : State WorkerId Key} {id : WorkerId} {key : Key}

theorem RowsKept.setRow
    (same : ∀ old, s.main key = some old → old.isRemoved = true → old.workerId = id →
      row.toTuple = old.toTuple) : RowsKept s (s.setRow key row) id where
  main other old found removed w := by
    by_cases its : other = key
    · subst its
      exact ⟨row, Function.update_self .., same old found removed w⟩
    · exact ⟨old, (Function.update_of_ne its ..).trans found, rfl⟩
  graveyard _ _ found _ := found
  latch := le_exclusive _

theorem State.setRow_present {old row : Row WorkerId} (found : s.main key = some old)
    (other : Key) : ((s.setRow key row).main other).isSome = (s.main other).isSome := by
  by_cases its : other = key
  · subst its
    simp [setRow, found]
  · simp [setRow, Function.update_of_ne its]

theorem Inv.disjoint_setRow (inv : Inv s) {row old : Row WorkerId} (found : s.main key = some old) :
    ∀ other new, (s.setRow key row).main other = some new →
      (s.setRow key row).graveyard other = none := by
  intro other new isNew
  by_cases its : other = key
  · subst its
    exact inv.disjoint other old found
  · exact inv.disjoint other new ((Function.update_of_ne its ..).symm.trans isNew)

theorem RowsElsewhere.removeSlot (row : Row WorkerId) :
    RowsElsewhere key s (s.removeSlot key row) where
  main other found differs isFound := by
    simp only [State.removeSlot, Function.update_of_ne differs, isFound, Option.map_some,
      Option.some.injEq, exists_eq_left']
    split <;> rfl
  graveyard _ _ := rfl
  latch := le_exclusive _

theorem State.removeSlot_self (row : Row WorkerId) : (s.removeSlot key row).main key = none := by
  simp [removeSlot]

theorem State.removeSlot_present {row found : Row WorkerId} {other : Key}
    (present : (s.removeSlot key row).main other = some found) :
    other ≠ key ∧ ∃ old, s.main other = some old := by
  by_cases its : other = key
  · subst its
    simp [removeSlot] at present
  · refine ⟨its, ?_⟩
    simp only [removeSlot, Function.update_of_ne its, Option.map_eq_some_iff] at present
    obtain ⟨old, isOld, _⟩ := present
    exact ⟨old, isOld⟩

structure Restores (entries : List (WALRemove WorkerId Key))
    (s s' : State WorkerId Key) : Prop where
  clock : s'.globalClock = s.globalClock
  worker : s'.worker = s.worker
  graveyard : s'.graveyard = s.graveyard
  latch : ∀ frame, s.latch frame ≤ s'.latch frame
  main : ∀ other, (∀ e ∈ entries, e.key ≠ other) → s'.main other = s.main other
  present : ∀ other, (s'.main other).isSome = (s.main other).isSome

theorem undo_restores {e : WALRemove WorkerId Key} (undone : undo s e = some s') :
    Restores [e] s s' := by
  simp only [undo] at undone
  split at undone
  · contradiction
  · rename_i row found
    cases undone
    refine ⟨rfl, rfl, rfl, le_exclusive _, ?_, ?_⟩
    · intro other elsewhere
      exact Function.update_of_ne (symm (elsewhere e mem_cons_self)) ..
    · exact setRow_present found

theorem undoAll_restores {entries : List (WALRemove WorkerId Key)}
    (undone : undoAll s entries = some s') : Restores entries s s' := by
  induction entries generalizing s with
  | nil =>
    cases undone
    exact ⟨rfl, rfl, rfl, fun _ => le_refl _, fun _ _ => rfl, fun _ => rfl⟩
  | cons e older ih =>
    simp only [undoAll] at undone
    split at undone
    · contradiction
    · rename_i middle first
      have head := undo_restores first
      have tail := ih undone
      refine ⟨tail.clock.trans head.clock, tail.worker.trans head.worker,
        tail.graveyard.trans head.graveyard,
        fun frame => le_trans (head.latch frame) (tail.latch frame), ?_, ?_⟩
      · intro other elsewhere
        rw [tail.main other fun found mem => elsewhere found (by simp [mem])]
        apply head.main
        intro found mem
        exact elsewhere found (by simp_all)
      · intro other
        exact (tail.present other).trans (head.present other)

end Rows

end TieredStore.GarbageCollection
