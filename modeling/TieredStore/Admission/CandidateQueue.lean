import TieredStore.Lib.Transition

/-!
The candidate queue of the `lru` and `page_only` modes: a list, most recent first, and an index
of iterators into it.
-/

namespace TieredStore.Admission.CandidateQueue

open Transition Function List

structure Node where
  node : Nat
  pageId : Nat
  cxlBf : Nat

structure State where
  candidates : List Node
  index : Nat → Option Nat
  nextNode : Nat

def State.empty : State := ⟨[], fun _ => none, 0⟩

/-- The block under the mutex; `none` is the use of an iterator that has no node. -/
def State.enqueue (state : State) (pageId cxlBf : Nat) : Option State :=
  match state.index pageId with
  | some iterator =>
    match state.candidates.find? (·.node = iterator) with
    | none => none
    | some found => some { state with
        candidates := { found with cxlBf := cxlBf } ::
          state.candidates.filter (·.node ≠ iterator) }
  | none => some {
      candidates := ⟨state.nextNode, pageId, cxlBf⟩ :: state.candidates
      index := Function.update state.index pageId (some state.nextNode)
      nextNode := state.nextNode + 1 }

inductive Mode
  | lru
  | pageOnly

structure Access where
  pageId : Nat
  isInDram : Bool
  cxlBf : Nat
  pageAdmissionThreshold : Nat
  currentPageVisitCount : Nat

def Access.passes (access : Access) : Mode → Bool
  | .lru => !access.isInDram
  | .pageOnly => !access.isInDram && 1 < access.pageAdmissionThreshold &&
      access.pageAdmissionThreshold ≤ access.currentPageVisitCount

inductive Call
  | onRecordAccess (access : Access)
  | onPageAccessForScan (access : Access)
  | backgroundRoutine (batch : Nat)

/-- The loop of `BackgroundRoutine`, with the candidates that it returns. -/
def State.promote (state : State) : Nat → State × List Node
  | 0 => (state, [])
  | batch + 1 =>
    match state.candidates with
    | [] => (state, [])
    | candidate :: rest =>
      let promoted := State.promote { state with
        candidates := rest
        index := Function.update state.index candidate.pageId none } batch
      (promoted.1, candidate :: promoted.2)

def step (mode : Mode) (state : State) : Call → Option State
  | .onRecordAccess access | .onPageAccessForScan access =>
    if access.passes mode then state.enqueue access.pageId access.cxlBf else some state
  | .backgroundRoutine batch => some (state.promote batch).1

/-- What the queue is for: the pages and frames of the accesses that came to it and were not
taken since, most recent first. -/
def recent (mode : Mode) (pages : List (Nat × Nat)) : Call → List (Nat × Nat)
  | .onRecordAccess access | .onPageAccessForScan access =>
    if access.passes mode then
      (access.pageId, access.cxlBf) :: pages.filter (·.1 ≠ access.pageId)
    else pages
  | .backgroundRoutine batch => pages.drop batch

def Node.access (candidate : Node) : Nat × Nat := (candidate.pageId, candidate.cxlBf)

structure Inv (s : State) (pages : List (Nat × Nat)) : Prop where
  listed : s.candidates.map Node.access = pages
  unique : (s.candidates.map Node.pageId).Nodup
  nodes : (s.candidates.map Node.node).Nodup
  old : ∀ candidate ∈ s.candidates, candidate.node < s.nextNode
  indexed : ∀ pageId iterator, s.index pageId = some iterator ↔
    ∃ candidate ∈ s.candidates, candidate.pageId = pageId ∧ candidate.node = iterator

namespace Inv

variable {s s' : State} {mode : Mode} {pages : List (Nat × Nat)} (inv : Inv s pages)
include inv

theorem accessed (candidate : Node) {rest : List Node} {nextNode : Nat}
    (isRest : rest = s.candidates.filter (·.pageId ≠ candidate.pageId))
    (apart : candidate.node ∉ rest.map Node.node) (known : candidate.node < nextNode)
    (grows : s.nextNode ≤ nextNode) : Inv ⟨candidate :: rest,
        update s.index candidate.pageId (some candidate.node), nextNode⟩
      (candidate.access :: pages.filter (·.1 ≠ candidate.pageId)) := by
  have kept : rest.Sublist s.candidates := isRest ▸ filter_sublist
  have others (other : Node) :
      other ∈ rest ↔ other ∈ s.candidates ∧ other.pageId ≠ candidate.pageId := by
    simp [isRest]
  refine ⟨?_, nodup_cons.mpr ⟨?_, inv.unique.sublist (kept.map _)⟩,
    nodup_cons.mpr ⟨apart, inv.nodes.sublist (kept.map _)⟩, ?_, ?_⟩
  · rw [map_cons, ← inv.listed, filter_map, isRest]
    rfl
  · simp [others]
  · exact forall_mem_cons.mpr ⟨known, fun other mem =>
      lt_of_lt_of_le (inv.old other (kept.mem mem)) grows⟩
  · intro pageId iterator
    by_cases same : pageId = candidate.pageId
    · subst same
      simp only [update_self, Option.some.injEq, exists_mem_cons_iff, true_and, others]
      exact (or_iff_left fun ⟨_, again⟩ => again.1.2 again.2.1).symm
    · simp only [update_of_ne same, inv.indexed, exists_mem_cons_iff, others, Ne.symm same,
        false_and, false_or]
      exact exists_congr fun other => ⟨fun ⟨mem, own⟩ => ⟨⟨mem, own.1 ▸ same⟩, own⟩,
        fun ⟨mem, own⟩ => ⟨mem.1, own⟩⟩

theorem enqueue (pageId cxlBf : Nat) : ∃ s', s.enqueue pageId cxlBf = some s' ∧
    Inv s' ((pageId, cxlBf) :: pages.filter (·.1 ≠ pageId)) := by
  unfold State.enqueue
  split
  · rename_i iterator isIndexed
    obtain ⟨candidate, mem, rfl, rfl⟩ := (inv.indexed _ _).mp isIndexed
    obtain ⟨found, isFound⟩ : ∃ found, s.candidates.find? (·.node = candidate.node) =
        some found :=
      Option.isSome_iff_exists.mp (find?_isSome.mpr ⟨candidate, mem, by simp⟩)
    obtain rfl : found = candidate := inj_on_of_nodup_map inv.nodes
      (mem_of_find?_eq_some isFound) mem (by simpa using find?_some isFound)
    simp only [isFound]
    have others : s.candidates.filter (·.node ≠ found.node) =
        s.candidates.filter (·.pageId ≠ found.pageId) := by
      refine filter_congr fun other listed => decide_eq_decide.mpr (not_congr ⟨?_, ?_⟩)
      · exact fun same => by rw [inj_on_of_nodup_map inv.nodes listed mem same]
      · exact fun same => by rw [inj_on_of_nodup_map inv.unique listed mem same]
    have front := inv.accessed { found with cxlBf := cxlBf } others (by simp)
      (inv.old found mem) (le_refl _)
    rw [← isIndexed, update_eq_self] at front
    exact ⟨_, rfl, front⟩
  · rename_i isAbsent
    have absent : ∀ other ∈ s.candidates, other.pageId ≠ pageId := fun other listed same => by
      simp [(inv.indexed _ _).mpr ⟨other, listed, same, rfl⟩] at isAbsent
    have all : s.candidates = s.candidates.filter (·.pageId ≠ pageId) :=
      (filter_eq_self.mpr fun other listed => by simpa using absent other listed).symm
    refine ⟨_, rfl, inv.accessed ⟨s.nextNode, pageId, cxlBf⟩ all ?_ (Nat.lt_succ_self _)
      (Nat.le_succ _)⟩
    intro again
    obtain ⟨other, listed, same⟩ := mem_map.mp again
    exact absurd (inv.old other listed) (by simp [same])

theorem promote (batch : Nat) : Inv (s.promote batch).1 (pages.drop batch) := by
  induction batch generalizing s pages with
  | zero => exact inv
  | succ batch ih =>
    obtain ⟨rfl, unique, nodes, old, indexed⟩ := inv
    unfold State.promote
    split
    · rename_i isEmpty
      rw [isEmpty]
      exact ⟨by rw [isEmpty]; rfl, unique, nodes, old, indexed⟩
    · rename_i candidate rest isList
      rw [isList] at unique nodes old ⊢
      obtain ⟨gone, unique⟩ := nodup_cons.mp unique
      refine ih ⟨rfl, unique, (nodup_cons.mp nodes).2, (forall_mem_cons.mp old).2, ?_⟩
      intro pageId iterator
      by_cases same : pageId = candidate.pageId
      · subst same
        simpa using fun other listed again => absurd (mem_map.mpr ⟨other, listed, again⟩) gone
      · dsimp only
        rw [update_of_ne same, indexed, isList]
        simp [Ne.symm same]

theorem step (call : Call) : ∃ s', CandidateQueue.step mode s call = some s' ∧
    Inv s' (recent mode pages call) := by
  cases call with
  | backgroundRoutine batch => exact ⟨_, rfl, inv.promote batch⟩
  | _ =>
    simp only [CandidateQueue.step, recent]
    split
    · exact inv.enqueue ..
    · exact ⟨s, rfl, inv⟩

theorem run (calls : List Call) :
    ∃ s', Transition.run (CandidateQueue.step mode) s calls = some s' ∧
      Inv s' (calls.foldl (recent mode) pages) := by
  induction calls generalizing s pages with
  | nil => exact ⟨s, rfl, inv⟩
  | cons call rest ih =>
    obtain ⟨next, taken, inv⟩ : ∃ next, CandidateQueue.step mode s call = some next ∧ _ :=
      inv.step call
    simpa only [run, taken, foldl_cons] using ih inv

end Inv

theorem State.promote_eq (s : State) (batch : Nat) :
    (s.promote batch).1.candidates = s.candidates.drop batch ∧
      (s.promote batch).2 = s.candidates.take batch := by
  induction batch generalizing s with
  | zero => simp [promote]
  | succ batch ih =>
    unfold promote
    split
    · rename_i isEmpty
      simp [isEmpty]
    · rename_i candidate rest isList
      simp [ih, isList]

/-- After any calls no iterator is stale, the list and the index agree, the list has the pages
and frames of the accesses that the calls made, most recent first, and a background routine
takes and returns the most recent ones. -/
theorem queue_most_recent_first (mode : Mode) (calls : List Call) :
    ∃ state, run (step mode) .empty calls = some state ∧
      (state.candidates.map Node.pageId).Nodup ∧ (state.candidates.map Node.node).Nodup ∧
      (∀ pageId iterator, state.index pageId = some iterator ↔
        ∃ candidate ∈ state.candidates, candidate.pageId = pageId ∧ candidate.node = iterator) ∧
      state.candidates.map Node.access = calls.foldl (recent mode) [] ∧
      ∀ batch, (state.promote batch).2.map Node.access =
          (calls.foldl (recent mode) []).take batch ∧
        (state.promote batch).2 ++ (state.promote batch).1.candidates = state.candidates := by
  have start : Inv .empty [] :=
    ⟨rfl, nodup_nil, nodup_nil, nofun, fun _ _ => by simp [State.empty]⟩
  obtain ⟨state, ran, inv⟩ := start.run calls
  refine ⟨state, ran, inv.unique, inv.nodes, inv.indexed, inv.listed, fun batch => ?_⟩
  obtain ⟨left, taken⟩ := state.promote_eq batch
  rw [left, taken, ← inv.listed, map_take]
  exact ⟨rfl, take_append_drop ..⟩

example : [.onRecordAccess ⟨5, false, 10, 0, 0⟩, .onPageAccessForScan ⟨6, false, 11, 0, 0⟩,
    .onRecordAccess ⟨5, false, 12, 0, 0⟩].foldl (recent .lru) [] = [(5, 12), (6, 11)] := rfl

end TieredStore.Admission.CandidateQueue
