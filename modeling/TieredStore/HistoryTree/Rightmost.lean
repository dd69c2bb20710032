import TieredStore.Lib.LeafChain
import TieredStore.Lib.Transition

/-!
One history tree by its leaves.  The owner's `insertVersion` goes straight back to the leaf of
its last search, at the position behind its last version, as long as nobody has touched that
leaf.
-/

namespace TieredStore.HistoryTree.Rightmost

open LeafChain Transition List

abbrev Bytes := List UInt8

/-- The transaction id and the command id, each folded from the most significant byte on. -/
abbrev Key := Nat ×ₗ Nat

abbrev Version := Key × Bytes

/-- `stamp` stands for the frame of a leaf and the version of its latch, which is another one
after every change. -/
structure Page where
  stamp : Nat
  leaf : Leaf Version Key

structure Session where
  rightmostStamp : Nat
  rightmostPos : Nat
  lastTxId : Nat

/-- `inserted` and `written` are ghosts: every key so far, and what was last written under a
key and has not been purged. -/
structure Tree where
  pages : List Page
  session : Option Session
  nextStamp : Nat
  inserted : List Key
  written : Key → Option Bytes

def Tree.leaves (tree : Tree) : List (Leaf Version Key) := tree.pages.map Page.leaf

def keyInCurrentBoundaries (leaf : Leaf Version Key) (key : Key) : Bool :=
  (leaf.lowerFence.all fun fence => fence < key) && leaf.upperFence.all fun fence => key ≤ fence

def Page.put (page : Page) (stamp : Nat) (versions : List Version) : Page :=
  ⟨stamp, { page.leaf with entries := versions }⟩

/-- The leaf of the session, if its latch still has the version that was remembered.  `room`
is what `enoughSpaceInCurrentNode` finds there. -/
def insertFast (session : Session) (txId stamp : Nat) (room : Bool) (version : Version) :
    List Page → Option (List Page)
  | [] => none
  | page :: rest =>
    if page.stamp = session.rightmostStamp then
      if room && keyInCurrentBoundaries page.leaf version.1 then
        some (page.put stamp
          (if session.lastTxId = txId then
            page.leaf.entries.insertIdx session.rightmostPos version
          else
            KeyList.insert Prod.fst version page.leaf.entries) :: rest)
      else
        none
    else
      (insertFast session txId stamp room version rest).map (page :: ·)

/-- The leaf that a search for the key ends in, and the position there.  A version with the
same key is removed first. -/
def insertSlow (stamp : Nat) (version : Version) : List Page → List Page × Nat
  | [] => ([], 0)
  | page :: rest =>
    if page.leaf.upperFence.all fun fence => version.1 ≤ fence then
      (page.put stamp (KeyList.upsert Prod.fst version page.leaf.entries) :: rest,
        (KeyList.before Prod.fst version.1 page.leaf.entries).length)
    else
      (page :: (insertSlow stamp version rest).1, (insertSlow stamp version rest).2)

def Tree.store (tree : Tree) (version : Version) (pages : List Page) (session : Option Session) :
    Tree where
  pages := pages
  session := session
  nextStamp := tree.nextStamp + 1
  inserted := version.1 :: tree.inserted
  written := Function.update tree.written version.1 (some version.2)

def Tree.insertVersion (tree : Tree) (sameThread : Bool) (txId commandId : Nat)
    (payload : Bytes) (room : Bool) : Tree :=
  let version : Version := (toLex (txId, commandId), payload)
  let session := if sameThread then tree.session else none
  match session.bind fun its => insertFast its txId tree.nextStamp room version tree.pages with
  | some pages => tree.store version pages tree.session
  | none =>
    let slow := insertSlow tree.nextStamp version tree.pages
    tree.store version slow.1
      (if sameThread then some ⟨tree.nextStamp, slow.2 + 1, txId⟩ else tree.session)

/-- `seekExact`: the leaf of the key, and the slot that is equal to it. -/
def Tree.retrieveVersion (tree : Tree) (txId commandId : Nat) : Option Bytes :=
  (find Prod.fst (toLex (txId, commandId)) tree.leaves).bind fun cursor =>
    (KeyList.seekExact Prod.fst (toLex (txId, commandId)) cursor.leaf.entries).map Prod.snd

/-- `maintain` is what happens between the calls: purges, and splits, merges and evictions. -/
inductive Action
  | insertVersion (sameThread : Bool) (txId commandId : Nat) (payload : Bytes) (room : Bool)
  | maintain (kept : Key → Bool) (pages : List Page) (nextStamp : Nat)

def step (tree : Tree) : Action → Option Tree
  | .insertVersion sameThread txId commandId payload room =>
    some (tree.insertVersion sameThread txId commandId payload room)
  | .maintain kept pages nextStamp =>
    some { tree with
      pages := pages
      nextStamp := nextStamp
      written := fun key => if kept key then tree.written key else none }

/-- The versions that are kept stay in order, and a leaf with an old stamp is the leaf of that
stamp: validation is sound. -/
structure Maintains (tree : Tree) (kept : Key → Bool) (pages : List Page) (nextStamp : Nat) :
    Prop where
  tiles : Tiles Prod.fst none (pages.map Page.leaf)
  versions : entries (pages.map Page.leaf) =
    (entries tree.leaves).filter fun version => kept version.1
  stamps : ∀ page ∈ pages, (page ∈ tree.pages ∨ tree.nextStamp ≤ page.stamp) ∧
    page.stamp < nextStamp
  later : tree.nextStamp ≤ nextStamp

/-- The keys of the owner grow. -/
def OwnerAscends (tree : Tree) : Action → Prop
  | .insertVersion sameThread txId commandId _ _ =>
    sameThread = true → ∀ key ∈ tree.inserted, key < toLex (txId, commandId)
  | .maintain kept pages nextStamp => Maintains tree kept pages nextStamp

def Tree.empty : Tree := ⟨[⟨0, none, none, []⟩], none, 1, [], fun _ => none⟩

structure Inv (tree : Tree) : Prop where
  tiles : Tiles Prod.fst none tree.leaves
  stamps : ∀ page ∈ tree.pages, page.stamp < tree.nextStamp
  session : ∀ its, tree.session = some its → its.rightmostStamp < tree.nextStamp ∧
    ∀ page ∈ tree.pages, page.stamp = its.rightmostStamp →
      page.leaf.entries.length = its.rightmostPos
  inserted : ∀ version ∈ entries tree.leaves, version.1 ∈ tree.inserted
  written : ∀ version, version ∈ entries tree.leaves ↔ tree.written version.1 = some version.2

variable {tree : Tree} {version : Version} {old : List Version} {pages : List Page} {page : Page}
  {txId stamp : Nat} {room : Bool} {its : Session}

theorem insertFast_cut {pages' : List Page}
    (done : insertFast its txId stamp room version pages = some pages') :
    ∃ left page right, pages = left ++ page :: right ∧ page.stamp = its.rightmostStamp ∧
      page.leaf.InRange version.1 ∧ pages' = left ++ page.put stamp
        (if its.lastTxId = txId then page.leaf.entries.insertIdx its.rightmostPos version
          else KeyList.insert Prod.fst version page.leaf.entries) :: right := by
  induction pages generalizing pages' with
  | nil => contradiction
  | cons page rest ih =>
    simp only [insertFast] at done
    split at done
    · next isStamp =>
      split at done
      · next may =>
        cases done
        simp only [keyInCurrentBoundaries, Bool.and_eq_true, Option.all_eq_true,
          decide_eq_true_eq] at may
        exact ⟨[], page, rest, rfl, isStamp, may.2, rfl⟩
      · contradiction
    · obtain ⟨_, inRest, rfl⟩ := Option.map_eq_some_iff.mp done
      obtain ⟨left, found, right, rfl, isStamp, inRange, rfl⟩ := ih inRest
      exact ⟨page :: left, found, right, rfl, isStamp, inRange, rfl⟩

theorem insertSlow_cut {low : Option Key} (tiles : Tiles Prod.fst low (pages.map Page.leaf))
    (above : Above low version.1) :
    ∃ left page right, pages = left ++ page :: right ∧ page.leaf.InRange version.1 ∧
      insertSlow stamp version pages =
        (left ++ page.put stamp (KeyList.upsert Prod.fst version page.leaf.entries) :: right,
          (KeyList.before Prod.fst version.1 page.leaf.entries).length) := by
  induction pages generalizing low with
  | nil => cases tiles
  | cons page rest ih =>
    rw [map_cons] at tiles
    simp only [insertSlow]
    split
    · next within =>
      refine ⟨[], page, rest, rfl, ⟨tiles.lowerFence ▸ above, ?_⟩, rfl⟩
      simpa [Option.all_eq_true] using within
    · next beyond =>
      generalize isRest : rest.map Page.leaf = later at tiles
      cases tiles with
      | last _ upper => simp [upper] at beyond
      | cons _ upper _ _ tail =>
        simp only [upper] at beyond
        obtain ⟨left, found, right, rfl, inRange, slow⟩ :=
          ih (isRest ▸ tail) (by simpa [Above] using beyond)
        exact ⟨page :: left, found, right, rfl, inRange, by rw [slow]; rfl⟩

theorem Inv.store (inv : Inv tree) {left right : List Page} {new : List Version}
    {session : Option Session} (cut : tree.pages = left ++ page :: right)
    (inRange : page.leaf.InRange version.1) (puts : Puts Prod.fst version page.leaf.entries new)
    (remembers : ∀ its, session = some its → tree.session = some its ∨
      its.rightmostStamp = tree.nextStamp ∧ new.length = its.rightmostPos) :
    Inv (tree.store version (left ++ page.put tree.nextStamp new :: right) session) := by
  have leaves : tree.leaves = left.map Page.leaf ++ page.leaf :: right.map Page.leaf := by
    simp [Tree.leaves, cut]
  have leaves' : (tree.store version (left ++ page.put tree.nextStamp new :: right)
      session).leaves = left.map Page.leaf ++
        { page.leaf with entries := new } :: right.map Page.leaf := by
    simp [Tree.leaves, Tree.store, Page.put]
  obtain ⟨tiles, -, mem_iff⟩ := (leaves ▸ inv.tiles).put inRange puts
  rw [← leaves, ← leaves'] at mem_iff
  have origin : ∀ found ∈ left ++ page.put tree.nextStamp new :: right,
      found = page.put tree.nextStamp new ∨ found ∈ tree.pages := by
    intro found mem
    simp only [cut, mem_append, mem_cons] at mem ⊢
    tauto
  constructor
  · exact leaves' ▸ tiles
  · intro found mem
    rcases origin found mem with rfl | before
    · exact Nat.lt_succ_self _
    · exact Nat.lt_succ_of_lt (inv.stamps found before)
  · intro its isSession
    rcases remembers its isSession with was | ⟨isNew, length⟩
    · obtain ⟨older, matching⟩ := inv.session its was
      refine ⟨Nat.lt_succ_of_lt older, fun found mem same => ?_⟩
      rcases origin found mem with rfl | before
      · exact absurd same older.ne'
      · exact matching found before same
    · refine ⟨Nat.lt_succ_of_le isNew.le, fun found mem same => ?_⟩
      rcases origin found mem with rfl | before
      · exact length
      · exact absurd (same.trans isNew) (inv.stamps found before).ne
  · intro other mem
    rcases (mem_iff other).mp mem with rfl | ⟨before, -⟩
    · exact mem_cons_self
    · exact mem_cons_of_mem _ (inv.inserted other before)
  · intro other
    rw [mem_iff, inv.written, Tree.store]
    by_cases same : other.1 = version.1
    · simp [same, Prod.ext_iff, eq_comm]
    · have ne : other ≠ version := fun equal => same (equal ▸ rfl)
      simp [same, ne]

theorem Inv.insertVersion (inv : Inv tree) {sameThread : Bool} {commandId : Nat} {payload : Bytes}
    (ascends : OwnerAscends tree (.insertVersion sameThread txId commandId payload room)) :
    Inv (tree.insertVersion sameThread txId commandId payload room) := by
  have sorted : ∀ page ∈ tree.pages, KeyList.Sorted Prod.fst page.leaf.entries := fun page isPage =>
    (inv.tiles.wellFormed _ (mem_map_of_mem isPage)).sorted
  have below : sameThread = true → ∀ page ∈ tree.pages, ∀ other ∈ page.leaf.entries,
      other.1 < toLex (txId, commandId) := by
    intro own page isPage other mem
    exact ascends own _ (inv.inserted other
      (mem_flatMap.mpr ⟨page.leaf, mem_map_of_mem isPage, mem⟩))
  simp only [Tree.insertVersion]
  split
  · next done =>
    obtain ⟨its, isSession, done⟩ := Option.bind_eq_some_iff.mp done
    split at isSession
    · next own =>
      obtain ⟨left, page, right, cut, isStamp, inRange, rfl⟩ := insertFast_cut done
      have isPage : page ∈ tree.pages := by simp [cut]
      have length := (inv.session its isSession).2 page isPage isStamp
      -- the leaf is as the search left it, so the position is its end
      refine inv.store cut inRange ?_ fun _ => .inl
      split
      · rw [← length, insertIdx_length_self]
        exact puts_append (sorted page isPage) (below own page isPage)
      · rw [KeyList.insert_of_forall_lt (below own page isPage)]
        exact puts_append (sorted page isPage) (below own page isPage)
    · contradiction
  · obtain ⟨left, page, right, cut, inRange, slow⟩ :=
      insertSlow_cut inv.tiles (by simp [Above])
    have isPage : page ∈ tree.pages := by simp [cut]
    rw [slow]
    refine inv.store cut inRange ⟨(sorted page isPage).upsert _, fun _ =>
      (sorted page isPage).mem_upsert_iff⟩ fun its isSession => ?_
    split at isSession
    · next own =>
      cases isSession
      refine .inr ⟨rfl, ?_⟩
      rw [KeyList.upsert_of_forall_lt (below own page isPage),
        KeyList.before_of_forall_lt (below own page isPage), length_append]
      rfl
    · exact .inl isSession

theorem Inv.maintain (inv : Inv tree) {kept : Key → Bool} {nextStamp : Nat}
    (maintains : Maintains tree kept pages nextStamp) :
    Inv { tree with
      pages := pages
      nextStamp := nextStamp
      written := fun key => if kept key then tree.written key else none } where
  tiles := maintains.tiles
  stamps page isPage := (maintains.stamps page isPage).2
  session its isSession := by
    obtain ⟨older, matching⟩ := inv.session its isSession
    refine ⟨lt_of_lt_of_le older maintains.later, fun page isPage same => ?_⟩
    rcases (maintains.stamps page isPage).1 with before | new
    · exact matching page before same
    · omega
  inserted other mem := by
    rw [Tree.leaves, maintains.versions] at mem
    exact inv.inserted other (mem_filter.mp mem).1
  written other := by
    rw [Tree.leaves, maintains.versions, mem_filter, inv.written]
    by_cases isKept : kept other.1 <;> simp [isKept]

theorem inv_of_reachable (reached : Reachable step (· = Tree.empty) OwnerAscends tree) :
    Inv tree := by
  apply reached.invariant Inv
  · rintro _ rfl
    refine ⟨.last rfl rfl ⟨.nil, by simp⟩, ?_, ?_, ?_, ?_⟩ <;>
      simp [Tree.empty, Tree.leaves, entries]
  · intro tree action tree' inv ascends taken
    cases action with
    | insertVersion =>
      cases taken
      exact inv.insertVersion ascends
    | maintain =>
      cases taken
      exact inv.maintain ascends

theorem Inv.retrieveVersion (inv : Inv tree) (txId commandId : Nat) :
    tree.retrieveVersion txId commandId = tree.written (toLex (txId, commandId)) := by
  cases isWritten : tree.written (toLex (txId, commandId)) with
  | some payload =>
    obtain ⟨cursor, found, mem⟩ := inv.tiles.mem_find ((inv.written (_, payload)).mpr isWritten)
    have sorted := (inv.tiles.wellFormed _ (find_upperFence found).1).sorted
    simp only [Tree.retrieveVersion, found, Option.bind_some, sorted.seekExact mem,
      Option.map_some]
  | none =>
    refine Option.eq_none_iff_forall_ne_some.mpr fun payload isFound => ?_
    obtain ⟨cursor, found, isFound⟩ := Option.bind_eq_some_iff.mp isFound
    obtain ⟨other, isOther, -⟩ := Option.map_eq_some_iff.mp isFound
    obtain ⟨mem, same⟩ := KeyList.seekExact_eq_some isOther
    have stored := (inv.written other).mp
      (mem_flatMap.mpr ⟨_, (find_upperFence found).1, mem⟩)
    rw [same, isWritten] at stored
    contradiction

/-- The leaves stay sorted, and a version is found under its key exactly as it was last
written. -/
theorem rightmost_insert_keeps_map
    (reached : Reachable step (· = Tree.empty) OwnerAscends tree) :
    (∀ page ∈ tree.pages, KeyList.Sorted Prod.fst page.leaf.entries) ∧
      ∀ txId commandId,
        tree.retrieveVersion txId commandId = tree.written (toLex (txId, commandId)) := by
  have inv := inv_of_reachable reached
  refine ⟨fun page isPage => ?_, inv.retrieveVersion⟩
  exact (inv.tiles.wellFormed _ (mem_map_of_mem isPage)).sorted

/-- Two versions of the owner, the second one without a search, then one of another thread in
the same leaf, and two more of the owner. -/
def mixedInserts : List Action :=
  [.insertVersion true 5 0 [1] true, .insertVersion true 5 1 [2] true,
    .insertVersion false 4 7 [9] true, .insertVersion true 6 0 [3] true,
    .insertVersion true 7 0 [4] true]

/-- The first version of the owner is purged, and the leaf is split behind the second. -/
def purgeAndSplit : Action :=
  .maintain (fun key => key ≠ toLex (5, 0))
    [⟨6, none, some (toLex (5, 1)), [(toLex (4, 7), [9]), (toLex (5, 1), [2])]⟩,
      ⟨7, some (toLex (5, 1)), none, [(toLex (6, 0), [3]), (toLex (7, 0), [4])]⟩] 8

theorem rightmost_insert_keeps_map_mixed :
    ∃ tree, run step Tree.empty
        (mixedInserts ++ [purgeAndSplit, .insertVersion true 8 0 [5] true]) = some tree ∧
      tree.retrieveVersion 5 1 = some [2] ∧ tree.retrieveVersion 4 7 = some [9] ∧
        tree.retrieveVersion 7 0 = some [4] ∧ tree.retrieveVersion 5 0 = none ∧
        tree.retrieveVersion 8 0 = some [5] := by
  have start : Reachable step (· = Tree.empty) OwnerAscends Tree.empty := .start rfl
  have permitted : AllowedAlong step OwnerAscends Tree.empty
      (mixedInserts ++ [purgeAndSplit, .insertVersion true 8 0 [5] true]) := by
    refine ⟨?_, ?_, ?_, ?_, ?_, ⟨?_, ?_, ?_, by decide⟩, ?_, trivial⟩
    case refine_6 =>
      refine .cons rfl rfl nofun ⟨?_, ?_⟩ (.last rfl rfl ⟨?_, ?_⟩)
      all_goals
        simp only [KeyList.Sorted, Leaf.InRange, Above]
        decide
    case refine_7 => decide
    case refine_8 =>
      intro page isPage
      rcases mem_cons.mp isPage with rfl | isPage
      · exact ⟨.inr (by decide), by decide⟩
      · rw [mem_singleton.mp isPage]
        exact ⟨.inr (by decide), by decide⟩
    all_goals intro own; first | contradiction | decide
  obtain ⟨tree, ran⟩ : ∃ tree, run step Tree.empty
      (mixedInserts ++ [purgeAndSplit, .insertVersion true 8 0 [5] true]) = some tree := ⟨_, rfl⟩
  obtain ⟨-, retrieves⟩ := rightmost_insert_keeps_map (start.run_of_allowed permitted ran)
  refine ⟨tree, ran, ?_⟩
  simp only [retrieves]
  cases ran
  decide

end TieredStore.HistoryTree.Rightmost
