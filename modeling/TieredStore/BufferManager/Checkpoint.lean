import TieredStore.BufferManager.Contents

namespace TieredStore.BufferManager

open Function (update update_self update_of_ne)
open Ownership List State

variable {Data : Type} {cfg config : Config Data} {s s' state : State Data}
  {a : Action Data} {latest : Pid → Data} {pid : Pid}

def State.flushBf (state : State Data) (bf : FrameId) : State Data :=
  if (state.frames bf).state = .free then state
  else state.setBlock (state.frames bf).pid ⟨0, (state.frames bf).page.data⟩

def State.writeAllBufferFrames (state : State Data) (order : List FrameId) : State Data :=
  order.foldl State.flushBf state

theorem State.flushBf_frames (s : State Data) (bf : FrameId) :
    (s.flushBf bf).frames = s.frames := by
  unfold flushBf
  split <;> rfl

theorem State.flushBf_latest {bf : FrameId} (isLatest : (s.frames bf).state ≠ .free →
      (s.frames bf).page.data = latest (s.frames bf).pid) (written : (s.ssd pid).data = latest pid ∨
      ((s.frames bf).state ≠ .free ∧ (s.frames bf).pid = pid)) :
    ((s.flushBf bf).ssd pid).data = latest pid := by
  unfold flushBf
  split
  · next isFree =>
      rcases written with isWritten | ⟨hasPage, -⟩
      · exact isWritten
      · exact absurd isFree hasPage
  · next hasPage =>
      simp only [setBlock]
      by_cases same : pid = (s.frames bf).pid
      · rw [same, update_self]
        exact isLatest hasPage
      · rw [update_of_ne same]
        rcases written with isWritten | ⟨-, isPid⟩
        · exact isWritten
        · exact absurd isPid.symm same

theorem State.writeAllBufferFrames_latest {order : List FrameId}
    (isLatest : ∀ bf, (s.frames bf).state ≠ .free →
      (s.frames bf).page.data = latest (s.frames bf).pid) (written : (s.ssd pid).data = latest pid ∨
      ∃ bf ∈ order, (s.frames bf).state ≠ .free ∧ (s.frames bf).pid = pid) :
    ((s.writeAllBufferFrames order).ssd pid).data = latest pid := by
  induction order generalizing s with
  | nil =>
    rcases written with isWritten | ⟨bf, isIn, -⟩
    · exact isWritten
    · cases isIn
  | cons first _ ih =>
    apply ih
    · rw [flushBf_frames]
      exact isLatest
    · rw [flushBf_frames]
      rcases written with isWritten | ⟨bf, isIn, hasPage⟩
      · exact .inl (flushBf_latest (isLatest first) (.inl isWritten))
      · rcases mem_cons.mp isIn with rfl | isLater
        · exact .inl (flushBf_latest (isLatest bf) (.inr hasPage))
        · exact .inr ⟨bf, isLater, hasPage⟩

def State.Pooled (cfg : Config Data) (s : State Data) : Prop :=
  ∀ place, ∀ bf ∈ s.held place, cfg.HasFrame bf

theorem Inv.pooled (inv : Inv cfg s) (pooled : s.Pooled cfg)
    (reclaimsUnwritten : ReclaimsUnwritten s a) (taken : Step cfg s a s') : s'.Pooled cfg := by
  obtain ⟨involved, _, moves, -⟩ := inv.moves reclaimsUnwritten taken
  intro place bf has
  by_cases isInvolved : place ∈ involved
  · obtain ⟨owner, -, had⟩ := moves.passes.before isInvolved has
    exact pooled owner bf had
  · rw [moves.passes.others place isInvolved] at has
    exact pooled place bf has

theorem Initial.pooled (initial : Initial cfg s) : s.Pooled cfg := by
  intro _ bf has
  obtain ⟨list, -, isIn⟩ := initial.mem_held has
  exact (initial.complete bf).mpr ⟨list, isIn⟩

theorem pooled_of_reachable
    (reached : Transition.Reachable (step cfg) (Initial cfg) (OwnsPids cfg) s) :
    PageInv cfg s ∧ s.Pooled cfg := by
  refine reached.invariant (fun s => PageInv cfg s ∧ s.Pooled cfg)
    (fun _ initial => ⟨initial.pageInv, initial.pooled⟩) ?_
  intro s a s' inv owns taken
  have taken := step_sound taken
  exact ⟨inv.1.step owns taken, inv.1.inv.pooled inv.2 owns.1 taken⟩

theorem PageInv.isLatest (pages : PageInv cfg s) (bf : FrameId)
    (hasPage : (s.frames bf).state ≠ .free) :
    (s.frames bf).page.data = s.latest (s.frames bf).pid :=
  (pages.contents.frames bf).isLatest hasPage

theorem PageInv.written_or_resident (pages : PageInv cfg s)
    (pooled : s.Pooled cfg) (isLinked : s.swips pid ≠ none) : (s.ssd pid).data = s.latest pid ∨
      ∃ bf, cfg.HasFrame bf ∧ (s.frames bf).state ≠ .free ∧ (s.frames bf).pid = pid := by
  cases isSwip : s.swips pid with
  | none => exact absurd isSwip isLinked
  | some swip =>
    cases swip with
    | evicted => exact .inl (pages.contents.evicted pid isSwip)
    | hot bf =>
      have hot := pages.inv.placed.hot isSwip
      have has : bf ∈ s.held (.swip pid) := by
        rw [held, holding_hot isSwip]
        exact mem_singleton_self bf
      exact .inr ⟨bf, pooled _ bf has, by simp [hot.1], hot.2⟩
    | cool bf =>
      have cool := pages.inv.placed.cool isSwip
      have has : bf ∈ s.held (.swip pid) := by
        rw [held, holding_cool isSwip]
        exact mem_singleton_self bf
      exact .inr ⟨bf, pooled _ bf has, by simp [cool.1], cool.2⟩

/-- A pid is in one frame, a write under way belongs to the pid's present page, and a
flush of all frames leaves each page's block up to date. -/
theorem pid_has_one_owner
    (reached : Transition.Reachable (step config) (Initial config) (fun state action =>
      OwnsPids config state action ∧ ClearsFresh state action) state) :
    (∀ bf bf', (state.frames bf).state ≠ .free → (state.frames bf').state ≠ .free →
      (state.frames bf).pid = (state.frames bf').pid → bf = bf') ∧
    (∀ bf write, state.writes bf = some write → write.finished = false →
      write.issue = state.issued write.pid) ∧
    ∀ order, (∀ bf, bf ∈ order ↔ config.HasFrame bf) → (∀ bf, state.writes bf = none) →
      ∀ pid, state.swips pid ≠ none →
        ((state.writeAllBufferFrames order).ssd pid).data = state.latest pid := by
  obtain ⟨pages, pooled⟩ := pooled_of_reachable (reached.mono fun _ _ => And.left)
  refine ⟨pages.residency.unique, fun bf write isWritten _ => ?_,
    fun order isPool _ pid isLinked => ?_⟩
  · have sound := pages.contents.frames bf
    rw [State.Sound, isWritten] at sound
    obtain ⟨-, samePid, isIssue⟩ := sound.of_write
    rw [samePid]
    exact isIssue
  · refine writeAllBufferFrames_latest pages.isLatest ?_
    rcases pages.written_or_resident pooled isLinked with isWritten | ⟨bf, inPool, hasPage⟩
    · exact .inl isWritten
    · exact .inr ⟨bf, (isPool bf).mpr inPool, hasPage⟩

def rootRun : List (Action Nat) :=
  [.page (.tryPop 0 ⟨.dram, 0⟩), .page (.initNewPage 0 0), .page (.createMeta 0),
    .page (.tryPop 0 ⟨.dram, 0⟩), .page (.initNewPage 0 0), .page (.link 0 0)]

/-- The root page is reclaimed, and its pid goes to the next page. -/
theorem pid_has_one_owner_reissued : ∃ state,
    Transition.Reachable (step smallConfig) (Initial smallConfig) (fun state action =>
        OwnsPids smallConfig state action ∧ ClearsFresh state action) state ∧
      state.issued 1 = 2 ∧
      (∀ bf bf', (state.frames bf).state ≠ .free → (state.frames bf').state ≠ .free →
        (state.frames bf).pid = (state.frames bf').pid → bf = bf') ∧
      (∀ bf write, state.writes bf = some write → write.finished = false →
        write.issue = state.issued write.pid) ∧
      ∀ order, (∀ bf, bf ∈ order ↔ smallConfig.HasFrame bf) → (∀ bf, state.writes bf = none) →
        ∀ pid, state.swips pid ≠ none →
          ((state.writeAllBufferFrames order).ssd pid).data = state.latest pid := by
  obtain ⟨rooted, ran, unlinked, unlinks, freed, frees, reclaimed, reclaims, isDown, popped, pops,
      state, issues, idle, isAllocating, isIssued⟩ : ∃ rooted,
      Transition.run (step smallConfig) smallStart rootRun = some rooted ∧
      ∃ unlinked, step smallConfig rooted (.page (.unlink 0 0 1)) = some unlinked ∧
      ∃ freed, step smallConfig unlinked (.page (.freePageID 0)) = some freed ∧
      ∃ reclaimed, step smallConfig freed (.page (.reclaimFrame 0 0)) = some reclaimed ∧
      ReclaimsUnwritten freed (.page (.reclaimFrame 0 0)) ∧
      ∃ popped, step smallConfig reclaimed (.page (.tryPop 0 ⟨.dram, 0⟩)) = some popped ∧
      ∃ state, step smallConfig popped (.page (.initNewPage 0 0)) = some state ∧
      (∀ thread, popped.threads (thread + 1) = .idle) ∧
      popped.threads 0 = .allocating ⟨.dram, 0⟩ ∧ state.issued 1 = 2 :=
    ⟨_, rfl, _, rfl, _, rfl, _, rfl, rfl, _, rfl, _, rfl, fun _ => rfl, rfl, rfl⟩
  have issuesReclaimed : IssuesReclaimed smallConfig popped (.page (.initNewPage 0 0)) := by
    intro thread bf
    cases thread with
    | zero => simp [isAllocating]
    | succ => simp [idle]
  have clearsFresh : ClearsFresh popped (.page (.initNewPage 0 0)) := by
    simp [ClearsFresh, isAllocating]
  have reached : Transition.Reachable (step smallConfig) (Initial smallConfig)
      (fun state action => OwnsPids smallConfig state action ∧ ClearsFresh state action) state := by
    have plain : ∀ (s : State Nat) a, a.isPlain s = true → KeepsContents s a ∧ ClearsFresh s a :=
      fun s a isPlain => ⟨keepsContents_of_isPlain s a isPlain, clearsFresh_of_isPlain isPlain⟩
    have reached := (ownsPids_of_reachable (fun _ _ => And.left)
      (smallStart_reaches plain (by decide) ran)).mono fun _ _ owns =>
        And.intro owns.1 owns.2.2
    have reached := reached.take unlinks ⟨⟨trivial, trivial, trivial, trivial⟩, trivial⟩
    have reached := reached.take frees ⟨⟨trivial, trivial, trivial, trivial⟩, trivial⟩
    have reached := reached.take reclaims ⟨⟨isDown, trivial, trivial, trivial⟩, trivial⟩
    have reached := reached.take pops ⟨⟨trivial, trivial, trivial, trivial⟩, trivial⟩
    exact reached.take issues
      ⟨⟨trivial, trivial, issuesReclaimed, clearsFresh.unguarded⟩, clearsFresh⟩
  exact ⟨state, reached, isIssued, pid_has_one_owner reached⟩

def reissueRun : List (Action Nat) :=
  rootRun ++ [.page (.tryPop 0 ⟨.cxl, 0⟩), .page (.initNewPage 0 0), .page (.link 0 1),
    .provide (.cool 1 2), .provide (.check 1 .write ⟨.cxl, 2⟩), .provide (.submit 1),
    .resolve (.warm 1 2), .page (.unlink 0 1 2), .page (.freePageID 0),
    .page (.reclaimFrame 0 0), .page (.tryPop 0 ⟨.cxl, 0⟩), .page (.initNewPage 0 0)]

/-- Two frames have the pid, and the write goes to the block of the new page. -/
theorem reissued_under_write : ∃ state,
    Transition.Reachable (step smallConfig) (Initial smallConfig) (fun _ _ => True) state ∧
      (∃ bf bf', (state.frames bf).state ≠ .free ∧ (state.frames bf').state ≠ .free ∧
        (state.frames bf).pid = (state.frames bf').pid ∧ bf ≠ bf') ∧
      ∃ bf write, state.writes bf = some write ∧ write.finished = false ∧
        write.issue ≠ state.issued write.pid := by
  obtain ⟨state, ran, first, second, isWritten, isIssued⟩ : ∃ state,
      Transition.run (step smallConfig) smallStart reissueRun = some state ∧
      ((state.frames ⟨.cxl, 2⟩).state = .hot ∧ (state.frames ⟨.cxl, 2⟩).pid = 2) ∧
      ((state.frames ⟨.cxl, 1⟩).state = .hot ∧ (state.frames ⟨.cxl, 1⟩).pid = 2) ∧
      state.writes ⟨.cxl, 2⟩ = some ⟨2, ⟨1, 0⟩, false, 1⟩ ∧ state.issued 2 = 2 :=
    ⟨_, rfl, ⟨rfl, rfl⟩, ⟨rfl, rfl⟩, rfl, rfl⟩
  refine ⟨state, ?_, ⟨⟨.cxl, 2⟩, ⟨.cxl, 1⟩, ?_, ?_, ?_, by decide⟩,
    ⟨.cxl, 2⟩, _, isWritten, rfl, ?_⟩
  · have start := start_initial smallConfig fun _ => 1
    exact (Transition.Reachable.start start).run_of_forall (fun _ _ _ => trivial) ran
  · simp [first.1]
  · simp [second.1]
  · rw [first.2, second.2]
  · rw [isIssued]
    decide

end TieredStore.BufferManager
