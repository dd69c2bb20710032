import TieredStore.HistoryTree.Versions

namespace TieredStore.HistoryTree

open KeyList Transition Function List Version WorkerState

variable {s s' state : WorkerState} {a action : WorkerAction} {commandId : Nat}

theorem newCommandId_eq (small : commandId < 2 ^ 31) (isRemove : Bool) :
    newCommandId commandId isRemove = commandId + if isRemove then 2 ^ 31 else 0 := by
  cases isRemove with
  | false =>
    simp only [newCommandId, Bool.false_eq_true, if_false, Nat.or_zero]
    exact Nat.mod_eq_of_lt (by omega)
  | true =>
    simp only [newCommandId, if_true]
    have bit := Nat.two_pow_add_eq_or_of_lt small 1
    rw [mul_one] at bit
    rw [Nat.or_comm, ← bit]
    omega

structure Numbered (isRemove : Bool) (bound commandId : Nat) : Prop where
  bit : commandId / 2 ^ 31 = if isRemove then 1 else 0
  below : commandId % 2 ^ 31 < bound

variable {isRemove : Bool} {v version : Version} {pages : List Nat}

theorem Numbered.testBit {bound : Nat} (numbered : Numbered isRemove bound commandId) :
    commandId.testBit 31 = isRemove := by
  have bit := numbered.bit
  rw [Nat.testBit_eq_decide_div_mod_eq, bit]
  cases isRemove <;> rfl

theorem numbered_new (small : commandId < 2 ^ 31) (isRemove : Bool) :
    Numbered isRemove (commandId + 1) (newCommandId commandId isRemove) := by
  rw [newCommandId_eq small]
  cases isRemove with
  | false | true => exact ⟨by simp; omega, by simp; omega⟩

theorem Numbered.mono {bound bound' : Nat} (numbered : Numbered isRemove bound commandId)
    (le : bound ≤ bound') : Numbered isRemove bound' commandId :=
  ⟨numbered.bit, lt_of_lt_of_le numbered.below le⟩

theorem Numbered.lt_new {counter : Nat} (numbered : Numbered isRemove counter commandId)
    (small : counter < 2 ^ 31) : commandId < newCommandId counter isRemove := by
  obtain ⟨bit, _⟩ := numbered
  rw [newCommandId_eq small]
  cases isRemove with
  | false =>
    simp only [Bool.false_eq_true, if_false] at bit ⊢
    omega
  | true =>
    simp only [if_true] at bit ⊢
    omega

structure TreeInv (s : WorkerState) (isRemove : Bool) : Prop where
  sorted : Sorted Version.key (s.tree isRemove)
  ids : Sorted Version.id (s.tree isRemove)
  inserted : ∀ v ∈ s.tree isRemove, v.id < s.nextVersion
  numbered : ∀ v ∈ s.tree isRemove, Numbered isRemove (2 ^ 31) v.commandId
  past : ∀ v ∈ s.tree isRemove, v.txId ≤ s.startTs
  current : s.started = true → s.level.atLeastSI = true →
    ∀ v ∈ s.tree isRemove, v.txId = s.startTs →
      Numbered isRemove s.commandId v.commandId ∧ v.transaction = s.transaction
  session : ∀ session, s.session isRemove = some session →
    ∃ earlier last, s.tree isRemove = earlier ++ [last] ∧ last.id = session.rightmost
  written : ∀ v, v ∈ s.written isRemove ↔ v ∈ s.tree isRemove
  once : (s.written isRemove).Nodup

structure Inv (s : WorkerState) : Prop where
  clock : s.startTs < s.globalClock
  trees : ∀ isRemove, TreeInv s isRemove

/-- Versions are inserted, and transactions aborted, at snapshot isolation or above, and a
transaction's commands stay below the bit that marks removes. -/
def DrawsOwnTimestamp (s : WorkerState) : WorkerAction → Prop
  | .insertVersion _ _ _ => s.level.atLeastSI = true ∧ s.commandId < 2 ^ 31
  | .abortTX _ => s.level.atLeastSI = true
  | _ => True

instance (state : WorkerState) : DecidablePred (DrawsOwnTimestamp state) := fun action => by
  cases action <;> dsimp only [DrawsOwnTimestamp] <;> infer_instance

section Insert

variable {isRemove : Bool} {payload : ConcurrencyControl.Bytes}

theorem TreeInv.key_lt (inv : TreeInv s isRemove) (started : s.started = true)
    (strong : s.level.atLeastSI = true) (small : s.commandId < 2 ^ 31) :
    ∀ v ∈ s.tree isRemove, v.key < (s.newVersion isRemove payload).key := by
  intro v mem
  have narrow : v.commandId < 2 ^ 32 := by
    obtain ⟨bit, _⟩ := inv.numbered v mem
    cases isRemove <;> simp at bit <;> omega
  simp only [key, keyOf, newVersion]
  rcases lt_or_eq_of_le (inv.past v mem) with older | same
  · omega
  · have numbered := (inv.current started strong v mem same).1
    have less := numbered.lt_new small
    omega

variable {session : Option Session} {entries : List Version} (small : s.commandId < 2 ^ 31)
include small

theorem TreeInv.inserts_append (inv : TreeInv s isRemove)
    (started : s.started = true) (strong : s.level.atLeastSI = true)
    (inserts : InsertsInto s isRemove (s.newVersion isRemove payload) entries session) :
    entries = s.tree isRemove ++ [s.newVersion isRemove payload] ∧
      ∀ its, session = some its → its.rightmost = s.nextVersion := by
  have below : ∀ found ∈ s.tree isRemove,
      found.key < (s.newVersion isRemove payload).key := inv.key_lt started strong small
  cases inserts with
  | behind valid =>
    refine ⟨?_, fun its none => nomatch none⟩
    obtain ⟨_, last, tree, isLast⟩ := inv.session _ valid
    have ids := inv.ids
    rw [tree] at ids ⊢
    apply insertAfter_last
    intro found mem
    have less := (pairwise_append.mp ids).2.2 found mem last (by simp)
    simp only [decide_eq_false_iff_not]
    omega
  | inOrder => exact ⟨insert_of_forall_lt below, fun its none => nomatch none⟩
  | upserts =>
    refine ⟨upsert_of_forall_lt below, ?_⟩
    intro its same
    cases same
    rfl

theorem WorkerState.push_commandId :
    (s.push isRemove v entries session).commandId = s.commandId + 1 := by
  apply Nat.mod_eq_of_lt
  omega

theorem TreeInv.push_other (inv : TreeInv s isRemove) {other : Bool} (ne : isRemove ≠ other) :
    TreeInv (s.push other v entries session) isRemove := by
  have tree : (s.push other v entries session).tree isRemove =
      s.tree isRemove := update_of_ne ne _ _
  have its : (s.push other v entries session).session isRemove =
      s.session isRemove := update_of_ne ne _ _
  have written : (s.push other v entries session).written isRemove =
      s.written isRemove := update_of_ne ne _ _
  constructor
  · rw [tree]
    exact inv.sorted
  · rw [tree]
    exact inv.ids
  · intro found mem
    rw [tree] at mem
    exact Nat.lt_succ_of_lt (inv.inserted found mem)
  · rw [tree]
    exact inv.numbered
  · rw [tree]
    exact inv.past
  · intro started strong found mem same
    rw [tree] at mem
    obtain ⟨numbered, transaction⟩ := inv.current started strong found mem same
    rw [push_commandId small]
    exact ⟨numbered.mono (Nat.le_succ _), transaction⟩
  · rw [its, tree]
    exact inv.session
  · rw [written, tree]
    exact inv.written
  · rw [written]
    exact inv.once

theorem TreeInv.push (inv : TreeInv s isRemove) (started : s.started = true)
    (strong : s.level.atLeastSI = true)
    (remembered : ∀ its, session = some its → its.rightmost = s.nextVersion) :
    TreeInv (s.push isRemove (s.newVersion isRemove payload)
      (s.tree isRemove ++ [s.newVersion isRemove payload]) session) isRemove := by
  have below : ∀ v ∈ s.tree isRemove,
      v.key < (s.newVersion isRemove payload).key := inv.key_lt started strong small
  have numbered : Numbered isRemove (s.commandId + 1)
      (s.newVersion isRemove payload).commandId := numbered_new small isRemove
  have tree : (s.push isRemove (s.newVersion isRemove payload)
      (s.tree isRemove ++ [s.newVersion isRemove payload]) session).tree isRemove =
      s.tree isRemove ++ [s.newVersion isRemove payload] := update_self ..
  have its : (s.push isRemove (s.newVersion isRemove payload)
      (s.tree isRemove ++ [s.newVersion isRemove payload]) session).session isRemove =
      session := update_self ..
  have written : (s.push isRemove (s.newVersion isRemove payload)
      (s.tree isRemove ++ [s.newVersion isRemove payload]) session).written isRemove =
      s.newVersion isRemove payload :: s.written isRemove := update_self ..
  constructor
  · rw [tree]
    exact inv.sorted.append below
  · rw [tree]
    exact Sorted.append inv.ids inv.inserted
  · rw [tree, forall_mem_append, forall_mem_singleton]
    exact ⟨fun found mem => Nat.lt_succ_of_lt (inv.inserted found mem), Nat.lt_succ_self _⟩
  · rw [tree, forall_mem_append, forall_mem_singleton]
    exact ⟨inv.numbered, numbered.mono (by omega)⟩
  · rw [tree, forall_mem_append, forall_mem_singleton]
    exact ⟨inv.past, le_refl _⟩
  · intro _ _
    rw [tree, forall_mem_append, forall_mem_singleton, push_commandId small]
    refine ⟨?_, fun _ => ⟨numbered, rfl⟩⟩
    intro found mem same
    obtain ⟨before, transaction⟩ := inv.current started strong found mem same
    exact ⟨before.mono (Nat.le_succ _), transaction⟩
  · intro found remembers
    rw [its] at remembers
    exact ⟨_, _, tree, (remembered found remembers).symm⟩
  · intro found
    rw [written, tree, mem_cons, mem_append, mem_singleton, inv.written]
    exact or_comm
  · rw [written, nodup_cons]
    refine ⟨?_, inv.once⟩
    intro mem
    have inserted := inv.inserted _ ((inv.written _).mp mem)
    exact lt_irrefl _ inserted

end Insert

section Purge

variable {isRemove : Bool} {trees : Bool → List Version}

theorem purgeRemoves_sublist (fromTxId toTxId : Nat) (entries : List Version) :
    (purgeRemoves fromTxId toTxId entries).Sublist entries := by
  have whole : before key (keyOf fromTxId 0) entries ++
      seek key (keyOf fromTxId 0) entries = entries := before_append_seek
  conv_rhs => rw [← whole]
  exact (Sublist.refl _).append (dropWhile_sublist _)

theorem last_of_sublist {earlier entries : List Version} {last : Version}
    (ids : Sorted Version.id (earlier ++ [last])) (sublist : entries.Sublist (earlier ++ [last]))
    (kept : ∃ v ∈ entries, v.id = last.id) : ∃ earlier', entries = earlier' ++ [last] := by
  obtain ⟨first, _, rfl, fromEarlier, fromLast⟩ := sublist_append_iff.mp sublist
  obtain ⟨v, mem, _⟩ := kept
  rcases mem_append.mp mem with old | new
  · have less := (pairwise_append.mp ids).2.2 v (fromEarlier.subset old) last (by simp)
    omega
  · rcases sublist_singleton.mp fromLast with rfl | rfl
    · contradiction
    · exact ⟨first, rfl⟩

variable (inv : TreeInv s isRemove)
include inv

theorem TreeInv.purgeTo (sublist : (trees isRemove).Sublist (s.tree isRemove)) :
    TreeInv (s.purgeTo trees) isRemove where
  sorted := inv.sorted.sublist sublist
  ids := inv.ids.sublist sublist
  inserted v mem := inv.inserted v (sublist.subset mem)
  numbered v mem := inv.numbered v (sublist.subset mem)
  past v mem := inv.past v (sublist.subset mem)
  current started strong v mem := inv.current started strong v (sublist.subset mem)
  session session valid := by
    obtain ⟨was, kept⟩ := Option.filter_eq_some_iff.mp valid
    obtain ⟨_, last, tree, isLast⟩ := inv.session session was
    have ids := inv.ids
    rw [tree] at ids sublist
    simp only [any_eq_true, decide_eq_true_eq] at kept
    rw [← isLast] at kept
    obtain ⟨earlier', tree'⟩ := last_of_sublist ids sublist kept
    exact ⟨earlier', last, tree', isLast⟩
  written v := by
    simp only [WorkerState.purgeTo, mem_filter, inv.written, decide_eq_true_eq]
    constructor
    · rintro ⟨inTree, notInTree | kept⟩
      · exact absurd inTree notInTree
      · exact kept
    · intro kept
      exact ⟨sublist.subset kept, .inr kept⟩
  once := inv.once.filter _

theorem TreeInv.purgeVersions (fromTxId toTxId : Nat)
    (pages : List Nat) : TreeInv (s.purgeVersions fromTxId toTxId pages) isRemove := by
  apply inv.purgeTo
  cases isRemove with
  | false => exact filter_sublist
  | true => exact purgeRemoves_sublist fromTxId toTxId (s.tree true)

theorem TreeInv.mem_purgeVersions (mem : v ∈ s.tree isRemove) (older : v.txId < s.startTs) :
    v ∈ (s.purgeVersions s.startTs s.startTs pages).tree isRemove := by
  cases isRemove with
  | false =>
    apply mem_filter.mpr
    refine ⟨mem, ?_⟩
    simp only [decide_eq_true_eq]
    omega
  | true =>
    apply mem_append_left
    apply inv.sorted.mem_before mem
    have narrow : v.commandId < 2 ^ 32 := by
      obtain ⟨bit, _⟩ := inv.numbered v mem
      simp at bit
      omega
    simp only [key, keyOf]
    omega

end Purge

theorem Inv.step (inv : Inv s) (draws : DrawsOwnTimestamp s a)
    (taken : step s a = some s') : Inv s' := by
  cases step_cases taken with
  | draw drawn =>
    have clock := inv.clock
    refine ⟨Nat.lt_succ_self _, ?_⟩
    intro isRemove
    have tree := inv.trees isRemove
    exact { tree with
      past := fun v mem => le_trans (tree.past v mem)
        (le_of_lt (lt_of_lt_of_le clock drawn))
      current := by
        intro _ _ v mem same
        have past := tree.past v mem
        simp only at same
        omega }
  | keep weak =>
    refine ⟨inv.clock, ?_⟩
    intro isRemove
    exact { inv.trees isRemove with
      current := by
        intro _ strong
        simp only [weak] at strong
        contradiction }
  | @insertVersion isRemove _ _ _ _ started inserts =>
    obtain ⟨strong, small⟩ := draws
    refine ⟨inv.clock, ?_⟩
    intro other
    by_cases same : other = isRemove
    · subst same
      obtain ⟨rfl, remembered⟩ := (inv.trees other).inserts_append small started strong inserts
      exact (inv.trees other).push small started strong remembered
    · exact (inv.trees other).push_other small same
  | commitTX =>
    refine ⟨inv.clock, ?_⟩
    intro isRemove
    exact { inv.trees isRemove with
      current := by
        intro started
        contradiction }
  | @abortTX pages started =>
    refine ⟨inv.clock, ?_⟩
    intro isRemove
    exact { (inv.trees isRemove).purgeVersions s.startTs s.startTs pages with
      current := by
        intro started
        contradiction }
  | @garbageCollection _ pages =>
    exact ⟨inv.clock, fun isRemove => (inv.trees isRemove).purgeVersions _ _ pages⟩

theorem inv_of_reaches (reached : Reaches DrawsOwnTimestamp s) : Inv s := by
  apply reached.invariant Inv
  · intro s initial
    refine ⟨initial.startTs, ?_⟩
    intro _
    constructor <;> simp [initial.tree, initial.session, initial.written, Sorted]
  · intro s a s' inv draws taken
    exact inv.step draws taken

theorem Inv.insert_subset (inv : Inv s) {fast : Bool} {payload : ConcurrencyControl.Bytes}
    (draws : DrawsOwnTimestamp s (.insertVersion isRemove payload fast))
    (taken : HistoryTree.step s (.insertVersion isRemove payload fast) = some s')
    (tree : Bool) : s.tree tree ⊆ s'.tree tree := by
  obtain ⟨strong, small⟩ := draws
  cases step_cases taken with
  | insertVersion started inserts =>
    obtain ⟨rfl, -⟩ := (inv.trees isRemove).inserts_append small started strong inserts
    by_cases same : tree = isRemove
    · subst same
      simp only [push, update_self]
      exact subset_append_left _ _
    · simp only [push, update_of_ne same]
      exact Subset.refl _

theorem Inv.abort_keeps (inv : Inv s) (draws : DrawsOwnTimestamp s (.abortTX pages))
    (taken : HistoryTree.step s (.abortTX pages) = some s')
    (mem : v ∈ s.written isRemove) (other : v.transaction ≠ s.transaction) :
    v ∈ s'.written isRemove := by
  have tree := inv.trees isRemove
  cases step_cases taken with
  | abortTX started =>
    have inTree := (tree.written v).mp mem
    have older : v.txId < s.startTs := by
      apply lt_of_le_of_ne (tree.past v inTree)
      intro same
      exact other (tree.current started draws v inTree same).2
    exact ((tree.purgeVersions _ _ pages).written v).mpr (tree.mem_purgeVersions inTree older)

def updateRemoveAbort : List WorkerAction :=
  [.startTX .snapshotIsolation 256, .insertVersion false [1] false,
    .insertVersion false [2] true, .insertVersion true [3] false, .commitTX,
    .startTX .snapshotIsolation 258, .insertVersion false [4] false, .abortTX [3],
    .startTX .readCommitted 260, .commitTX]

/-- Two read committed transactions: the first updates two tuples, the second one more. -/
def twoReadCommitted : List WorkerAction :=
  [.startTX .readCommitted 256, .insertVersion false [1] false,
    .insertVersion false [2] true, .commitTX, .startTX .readCommitted 256,
    .insertVersion false [3] false]

end TieredStore.HistoryTree
