import TieredStore.BufferManager.Checkpoint
import TieredStore.BufferManager.Tree

namespace TieredStore.BufferManager

open Function (update update_self update_of_ne)
open Ownership

variable {Data : Type} {cfg config : Config Data} {s s' state : State Data} {pid : Pid}

structure State.Keeps (s : State Data) (pid : Pid) (bf : FrameId)
    (frameState : FrameState) : Prop where
  isState : (s.frames bf).state = frameState
  samePid : (s.frames bf).pid = pid
  only : ∀ other, (s.frames other).state ≠ .free → (s.frames other).pid = pid → other = bf
  isLatest : (s.frames bf).page.data = s.latest pid

def State.Designates (s : State Data) (pid : Pid) : Swip → Prop
  | .hot bf => s.Keeps pid bf .hot
  | .cool bf => s.Keeps pid bf .cool
  | .evicted => (s.ssd pid).data = s.latest pid

theorem PageInv.keeps (pages : PageInv cfg s) {bf : FrameId} {frameState : FrameState}
    (header : (s.frames bf).state = frameState ∧ (s.frames bf).pid = pid)
    (notFree : frameState ≠ .free) : s.Keeps pid bf frameState := by
  obtain ⟨isState, samePid⟩ := header
  have hasPage : (s.frames bf).state ≠ .free := isState ▸ notFree
  refine ⟨isState, samePid, fun other otherHasPage isPid => ?_, ?_⟩
  · exact pages.residency.unique other bf otherHasPage hasPage (isPid.trans samePid.symm)
  · rw [pages.isLatest bf hasPage, samePid]

theorem PageInv.designates (pages : PageInv cfg s) {swip : Swip}
    (isSwip : s.swips pid = some swip) : s.Designates pid swip := by
  cases swip with
  | hot => exact pages.keeps (pages.inv.placed.hot isSwip) (by decide)
  | cool => exact pages.keeps (pages.inv.placed.cool isSwip) (by decide)
  | evicted => exact pages.contents.evicted pid isSwip

theorem tree_of_reachable
    (reached : Transition.Reachable (step cfg) (Initial cfg) (OwnsPids cfg) s) :
    PageInv cfg s ∧ s.TreeInv ∧ s.Rooted := by
  refine reached.invariant (fun s => PageInv cfg s ∧ s.TreeInv ∧ s.Rooted)
    (fun _ initial => ⟨initial.pageInv, initial.treeInv, initial.rooted⟩) ?_
  intro s a s' inv owns taken
  obtain ⟨pages, tree, rooted⟩ := inv
  have taken := step_sound taken
  exact ⟨pages.step owns taken, taken.treeInv pages.inv.pids tree,
    taken.rooted rooted pages.inv.placed⟩

/-- Every page of a tree has one parent, unless it is the meta node.  The parent's swip
tells where the page is, and what is there is what its last modification left.  A page that
is not hot has only evicted children. -/
theorem page_designated
    (reached : Transition.Reachable (step config) (Initial config) KeepsContents state) :
    (∀ pid swip, state.swips pid = some swip → state.Designates pid swip) ∧
    (∀ pid, state.swips pid ≠ none → (∃ parent, pid ∈ state.children parent) ∨ state.Meta pid) ∧
    (∀ parent parent' child, child ∈ state.children parent → child ∈ state.children parent' →
      parent = parent') ∧
    ∀ parent, ∀ child ∈ state.children parent,
      state.swips child = some .evicted ∨ ∃ bf, state.swips parent = some (.hot bf) := by
  obtain ⟨pages, tree, rooted⟩ := tree_of_reachable
    ((ownsPids_of_reachable (fun _ _ => id) reached).mono fun _ _ => And.left)
  exact ⟨fun pid swip => pages.designates, rooted, tree.linear.unique, tree.unswizzled⟩

def migrationRun : List (Action Nat) :=
  rootRun ++ [.page (.modify 1 ⟨2, 7⟩), .provide (.cool 0 1),
    .provide (.check 8 .demote ⟨.dram, 0⟩), .provide (.popTarget 8 0), .provide (.demote 8 0),
    .provide (.cool 0 1), .provide (.check 1 .write ⟨.cxl, 2⟩), .provide (.submit 1),
    .provide (.finishWrite ⟨.cxl, 2⟩), .provide (.writtenBack 1 ⟨.cxl, 2⟩),
    .provide (.check 2 .evict ⟨.cxl, 2⟩), .provide (.evict 2 0), .provide (.pushBatch 2 .cxl 0),
    .resolve (.miss 3 1 0), .resolve (.wait 4 1), .resolve (.readPage 3), .resolve (.keep 3 0),
    .resolve (.swizzle 3 0)]

theorem page_designated_reread : ∃ state,
    Transition.Reachable (step smallConfig) (Initial smallConfig) KeepsContents state ∧
      state.swips 1 = some (.hot ⟨.cxl, 2⟩) ∧ state.latest 1 = 7 ∧
      (∀ pid swip, state.swips pid = some swip → state.Designates pid swip) ∧
      (∀ pid, state.swips pid ≠ none → (∃ parent, pid ∈ state.children parent) ∨ state.Meta pid) ∧
      (∀ parent parent' child, child ∈ state.children parent →
        child ∈ state.children parent' → parent = parent') ∧
      ∀ parent, ∀ child ∈ state.children parent,
        state.swips child = some .evicted ∨ ∃ bf, state.swips parent = some (.hot bf) := by
  obtain ⟨state, ran, isHot, isLatest⟩ : ∃ state,
      Transition.run (step smallConfig) smallStart migrationRun = some state ∧
      state.swips 1 = some (.hot ⟨.cxl, 2⟩) ∧ state.latest 1 = 7 :=
    ⟨_, rfl, rfl, rfl⟩
  have reached := smallStart_reaches keepsContents_of_isPlain (by decide) ran
  exact ⟨state, reached, isHot, isLatest, page_designated reached⟩

/-- Phase 3 evicts the page again while a reader still has to leave the entry.  Two readers
then take themselves for the last one, and the second removes the entry of a later read. -/
def staleEntryRun : List (Action Nat) :=
  migrationRun ++ [.provide (.cool 0 1), .provide (.evictWritten 1 0),
    .provide (.pushBatch 1 .cxl 0), .resolve (.wake 4), .resolve (.wait 5 1),
    .resolve (.wake 5), .resolve (.leave 5), .resolve (.miss 6 1 0), .resolve (.leave 4),
    .resolve (.miss 7 1 0), .resolve (.readPage 6), .resolve (.keep 6 0),
    .resolve (.swizzle 6 0), .resolve (.readPage 7)]

def Action.keepsPages (state : State Data) : Action Data → Bool
  | .provide (.evictWritten _ _) => true
  | action => action.isPlain state

theorem keepsPages_spec (s : State Data) (a : Action Data) (keeps : a.keepsPages s = true) :
    KeepsPages a ∧ ClearsFresh s a := by
  unfold Action.keepsPages at keeps
  split at keeps
  · exact ⟨trivial, trivial⟩
  · exact ⟨keepsPages_of_isPlain keeps, clearsFresh_of_isPlain keeps⟩

theorem page_read_twice : ∃ state,
    Transition.Reachable (step smallConfig) (Initial smallConfig) (fun state action =>
      KeepsPages action ∧ ClearsFresh state action) state ∧
    state.swips 1 = some (.hot ⟨.cxl, 2⟩) ∧
    ¬ state.Designates 1 (.hot ⟨.cxl, 2⟩) := by
  obtain ⟨state, ran, isHot, second⟩ : ∃ state,
      Transition.run (step smallConfig) smallStart staleEntryRun = some state ∧
      state.swips 1 = some (.hot ⟨.cxl, 2⟩) ∧
      (state.frames ⟨.cxl, 1⟩).state = .loaded ∧ (state.frames ⟨.cxl, 1⟩).pid = 1 :=
    ⟨_, rfl, rfl, rfl, rfl⟩
  refine ⟨state, smallStart_reaches keepsPages_spec (by decide) ran, isHot, fun keeps => ?_⟩
  have same := keeps.only ⟨.cxl, 1⟩ (by simp [second.1]) second.2
  cases same

end TieredStore.BufferManager
