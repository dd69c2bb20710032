import TieredStore.Lib.Transition
import TieredStore.FrameLatch.Frame

namespace TieredStore.FrameLatch

open Transition State

def Action.resetsVersion : Action → Bool
  | .storeZero _ => true
  | _ => false

def Action.beginsSection : Action → Bool
  | .lockExclusive _ | .toExclusive _ | .initNewPage _ _ | .promoteLock _ => true
  | _ => false

/-- What the versions rely on: an allocation resets the version of a latch that was
never used only, and no exclusive section starts at the end of the counter. -/
def VersionsAdvance (s : State) (a : Action) : Prop :=
  (a.resetsVersion = true → s.latch.version = 0) ∧
    (a.beginsSection = true → s.latch.version.toNat + 2 < 2 ^ 64)

instance (s : State) (a : Action) : Decidable (VersionsAdvance s a) :=
  inferInstanceAs (Decidable (_ ∧ _))

def Seen.Resident (seen : Seen) : Prop := seen.state = .hot ∨ seen.state = .cool

instance (seen : Seen) : Decidable seen.Resident := inferInstanceAs (Decidable (_ ∨ _))

def Guard.Reads (guard : Guard) : Prop := guard.state = .optimistic ∨ guard.state = .shared

/-- Where the version that a reader holds stands to the latch: two or more behind it,
or on it with the frame as it was seen, or one behind it during a section that will
count up. -/
def SoundAt (s : State) (v : UInt64) (seen : Seen) : Prop :=
  v.toNat % 2 = 0 ∧
    (v.toNat + 2 ≤ s.latch.version.toNat ∨
      (v = s.latch.version ∧ s.seen = seen) ∨
      (v.toNat + 1 = s.latch.version.toNat ∧ ∀ op, s.custody ≠ .promoting op))

def Custody.Allows : Custody → FrameState → Prop
  | .listed, s => s = .free
  | .taken _, s => s = .free ∨ s = .loaded
  | .promoting _, s => s = .free ∨ s = .hot
  | .installed, s => s ≠ .free
  | .orphan, s => s ≠ .free

structure Guard.Sound (s : State) (id : GuardId) (guard : Guard) : Prop where
  exclusive : guard.state = .exclusive → s.latch.holder = some id ∧ guard.version = s.latch.version
  held : ∀ seen, guard.state = .exclusive → guard.seen = some seen → seen.Resident → s.seen = seen
  reads : ∀ seen, guard.Reads → guard.seen = some seen → seen.Resident →
    SoundAt s guard.version seen

structure Inv (s : State) : Prop where
  odd_iff : s.latch.version.toNat % 2 = 1 ↔ s.latch.holder ≠ none
  room : s.latch.holder ≠ none → s.latch.version.toNat + 1 < 2 ^ 64
  promoting : ∀ op, s.custody = .promoting op →
    s.latch.holder = some op ∧ (s.guards op).state ≠ .exclusive
  custody : s.custody.Allows s.state
  guards : ∀ id, (s.guards id).Sound s id

theorem inv_initial : Inv initial where
  odd_iff := by decide
  room := by decide
  promoting := by
    intro op _
    contradiction
  custody := rfl
  guards := by
    intro id
    refine ⟨?_, ?_, ?_⟩
    · intro isExclusive
      contradiction
    · intro seen isExclusive
      contradiction
    · intro seen _ _
      contradiction

namespace HybridLatch

variable {latch latch' : HybridLatch} {id : GuardId}

theorem lock_eq_some (locked : latch.lock id = some latch') :
    latch.holder = none ∧ latch' = { latch with holder := some id } := by
  obtain ⟨isFree, locked⟩ := Option.ite_none_right_eq_some.mp locked
  exact ⟨isFree.1, (Option.some.inj locked).symm⟩

theorem lockShared_eq_some (locked : latch.lockShared id = some latch') :
    latch.holder = none ∧ latch' = { latch with sharers := id :: latch.sharers } := by
  obtain ⟨isFree, locked⟩ := Option.ite_none_right_eq_some.mp locked
  exact ⟨isFree, (Option.some.inj locked).symm⟩

theorem isExclusivelyLatched_eq_false :
    latch.isExclusivelyLatched = false ↔ latch.version.toNat % 2 = 0 := by
  have one : (latch.version &&& 1).toNat = latch.version.toNat % 2 := by
    exact Nat.and_one_is_mod _
  rw [isExclusivelyLatched, beq_eq_false_iff_ne, ne_eq, ← UInt64.toNat_inj, one]
  change ¬ latch.version.toNat % 2 = 1 ↔ _
  omega

end HybridLatch

theorem toNat_add_one {v : UInt64} (room : v.toNat + 1 < 2 ^ 64) : (v + 1).toNat = v.toNat + 1 := by
  exact Nat.mod_eq_of_lt room

theorem toNat_sub_one {v : UInt64} (positive : 1 ≤ v.toNat) : (v - 1).toNat = v.toNat - 1 := by
  rw [UInt64.toNat_sub_of_le]
  · rfl
  · exact UInt64.le_iff_toNat_le.mpr positive

variable {s s' state : State} {id other : GuardId} {guard : Guard} {latch : HybridLatch}
  {v version : UInt64} {seen : Seen} {op : GuardId} {pages : State} {pid : Pid}
  {frameState : FrameState}

theorem Inv.even_of_unheld (inv : Inv s) (unheld : s.latch.holder = none) :
    s.latch.version.toNat % 2 = 0 := by
  have := mt inv.odd_iff.mp (not_not.mpr unheld)
  omega

theorem SoundAt.of_even (sound : SoundAt s v seen) (even : s.latch.version.toNat % 2 = 0) :
    v.toNat + 2 ≤ s.latch.version.toNat ∨ (v = s.latch.version ∧ s.seen = seen) := by
  obtain ⟨_, behind | current | ⟨_, -⟩⟩ := sound
  · exact .inl behind
  · exact .inr current
  · omega

theorem SoundAt.of_odd (sound : SoundAt s v seen) (odd : s.latch.version.toNat % 2 = 1) :
    v.toNat + 2 ≤ s.latch.version.toNat ∨
      (v.toNat + 1 = s.latch.version.toNat ∧ ∀ op, s.custody ≠ .promoting op) := by
  obtain ⟨evenRead, behind | ⟨current, -⟩ | overtaken⟩ := sound
  · exact .inl behind
  · rw [current] at evenRead
    omega
  · exact .inr overtaken

namespace Guard.Sound

theorem not_exclusive_of_holder (sound : guard.Sound s other)
    (holder : s.latch.holder ≠ some other) : guard.state ≠ .exclusive :=
  fun isExclusive => holder (sound.exclusive isExclusive).1

theorem of_reads (idle : guard.state ≠ .exclusive)
    (reads : ∀ seen, guard.Reads → guard.seen = some seen → seen.Resident →
      SoundAt s guard.version seen) : guard.Sound s other where
  exclusive := fun isExclusive => absurd isExclusive idle
  held := fun _ isExclusive => absurd isExclusive idle
  reads := reads

variable (sound : guard.Sound s other)
include sound

theorem keep (v : s'.latch.version = s.latch.version)
    (holder : s'.latch.holder = s.latch.holder) (same : s'.seen = s.seen)
    (custody : ∀ op, s'.custody = .promoting op → s.custody = .promoting op) :
    guard.Sound s' other where
  exclusive := by
    rw [v, holder]
    exact sound.exclusive
  held := by
    rw [same]
    exact sound.held
  reads := by
    intro seen reads isSeen resident
    obtain ⟨even, behind | current | ⟨overtaken, unpromoted⟩⟩ :=
      sound.reads seen reads isSeen resident
    · exact ⟨even, .inl (v ▸ behind)⟩
    · exact ⟨even, .inr (.inl (v ▸ same ▸ current))⟩
    · exact ⟨even, .inr (.inr ⟨v ▸ overtaken, fun op isPromoting =>
        unpromoted op (custody op isPromoting)⟩)⟩

theorem change (v : s'.latch.version = s.latch.version)
    (holder : s'.latch.holder = s.latch.holder) (unseen : ¬ s.seen.Resident ∨
      (s.latch.version.toNat % 2 = 1 ∧ s.latch.holder ≠ some other))
    (custody : ∀ op, s'.custody = .promoting op → s.custody = .promoting op) :
    guard.Sound s' other where
  exclusive := by
    rw [v, holder]
    exact sound.exclusive
  held := by
    intro seen isExclusive isSeen resident
    rcases unseen with absent | ⟨-, elsewhere⟩
    · rw [sound.held seen isExclusive isSeen resident] at absent
      exact absurd resident absent
    · exact absurd isExclusive (sound.not_exclusive_of_holder elsewhere)
  reads := by
    intro seen reads isSeen resident
    obtain ⟨even, behind | ⟨current, same⟩ | ⟨overtaken, unpromoted⟩⟩ :=
      sound.reads seen reads isSeen resident
    · exact ⟨even, .inl (v ▸ behind)⟩
    · rcases unseen with absent | ⟨_, -⟩
      · rw [same] at absent
        exact absurd resident absent
      · rw [current] at even
        omega
    · exact ⟨even, .inr (.inr ⟨v ▸ overtaken, fun op isPromoting =>
        unpromoted op (custody op isPromoting)⟩)⟩

theorem begins (unheld : s.latch.holder = none) (even : s.latch.version.toNat % 2 = 0)
    (next : s'.latch.version.toNat = s.latch.version.toNat + 1)
    (counted : (∀ op, s'.custody ≠ .promoting op) ∨ ¬ s.seen.Resident) : guard.Sound s' other := by
  apply of_reads
  · exact sound.not_exclusive_of_holder (by simp [unheld])
  · intro seen reads isSeen resident
    have before := sound.reads seen reads isSeen resident
    refine ⟨before.1, ?_⟩
    obtain behind | ⟨current, same⟩ := before.of_even even
    · left
      omega
    · rcases counted with counted | absent
      · refine .inr (.inr ⟨?_, counted⟩)
        rw [current, next]
      · rw [same] at absent
        exact absurd resident absent

theorem ends (elsewhere : s.latch.holder ≠ some other) (odd : s.latch.version.toNat % 2 = 1)
    (next : s'.latch.version.toNat = s.latch.version.toNat + 1) : guard.Sound s' other := by
  apply of_reads (sound.not_exclusive_of_holder elsewhere)
  intro seen reads isSeen resident
  have before := sound.reads seen reads isSeen resident
  refine ⟨before.1, .inl ?_⟩
  obtain behind | ⟨overtaken, -⟩ := before.of_odd odd <;> omega

theorem endsPromotion (idle : guard.state ≠ .exclusive) (promoting : s.custody = .promoting op)
    (odd : s.latch.version.toNat % 2 = 1)
    (back : s'.latch.version.toNat + 1 = s.latch.version.toNat) : guard.Sound s' other := by
  apply of_reads idle
  intro seen reads isSeen resident
  have before := sound.reads seen reads isSeen resident
  refine ⟨before.1, .inl ?_⟩
  have even := before.1
  obtain behind | ⟨-, unpromoted⟩ := before.of_odd odd
  · omega
  · exact absurd promoting (unpromoted op)

end Guard.Sound

section

variable (inv : Inv s)
include inv

theorem Inv.setReader (v : latch.version = s.latch.version)
    (holder : latch.holder = s.latch.holder) (idle : guard.state ≠ .exclusive)
    (sound : ∀ seen, guard.Reads → guard.seen = some seen → seen.Resident →
      SoundAt s guard.version seen) : Inv (s.setGuard id guard latch) := by
  refine ⟨?_, ?_, ?_, inv.custody, ?_⟩
  · simpa only [setGuard, v, holder] using inv.odd_iff
  · simpa only [setGuard, v, holder] using inv.room
  · intro op isPromoting
    obtain ⟨isHolder, notExclusive⟩ := inv.promoting op isPromoting
    refine ⟨holder.trans isHolder, ?_⟩
    simp only [setGuard, Function.update_apply]
    split
    · exact idle
    · exact notExclusive
  · have bystander : ∀ (other : GuardId) (guard' : Guard), guard'.Sound s other →
        guard'.Sound (s.setGuard id guard latch) other :=
      fun other guard' before => before.keep v holder rfl fun _ isPromoting => isPromoting
    simp only [setGuard, Function.forall_update_iff] at bystander ⊢
    refine ⟨?_, ?_⟩
    · exact bystander id guard (.of_reads idle sound)
    · intro other _
      exact bystander other _ (inv.guards other)

theorem Inv.toOptimistic (taken : s.toOptimistic id = some s') : Inv s' := by
  obtain ⟨_, isGuard, rfl⟩ := Option.map_eq_some_iff.mp taken
  obtain ⟨ready, ⟨⟩⟩ := Option.ite_none_right_eq_some.mp isGuard
  have even := HybridLatch.isExclusivelyLatched_eq_false.mp ready.2
  refine inv.setReader rfl rfl (by simp) ?_
  rintro seen - ⟨⟩ -
  exact ⟨even, .inr (.inl ⟨rfl, rfl⟩)⟩

theorem Inv.lockShared (taken : s.lockShared id = some s') : Inv s' := by
  obtain ⟨⟨_, _⟩, isGuard, rfl⟩ := Option.map_eq_some_iff.mp taken
  obtain ⟨-, isGuard⟩ := Option.ite_none_right_eq_some.mp isGuard
  obtain ⟨_, isLocked, both⟩ := Option.map_eq_some_iff.mp isGuard
  obtain ⟨unheld, rfl⟩ := HybridLatch.lockShared_eq_some isLocked
  cases both
  refine inv.setReader rfl rfl (by simp) ?_
  rintro seen - ⟨⟩ -
  exact ⟨inv.even_of_unheld unheld, .inr (.inl ⟨rfl, rfl⟩)⟩

theorem Inv.toShared (taken : s.toShared id = some s') : Inv s' := by
  obtain ⟨⟨_, _⟩, isGuard, rfl⟩ := Option.map_eq_some_iff.mp taken
  obtain ⟨valid, isGuard⟩ := Option.ite_none_right_eq_some.mp isGuard
  obtain ⟨_, isLocked, both⟩ := Option.map_eq_some_iff.mp isGuard
  obtain ⟨_, rfl⟩ := HybridLatch.lockShared_eq_some isLocked
  cases both
  refine inv.setReader rfl rfl (by simp) ?_
  intro seen _ isSeen resident
  exact (inv.guards id).reads seen (.inl valid.1) isSeen resident

theorem Inv.unlockShared (taken : s.unlockShared id = some s') : Inv s' := by
  obtain ⟨⟨_, _⟩, isGuard, rfl⟩ := Option.map_eq_some_iff.mp taken
  obtain ⟨isShared, ⟨⟩⟩ := Option.ite_none_right_eq_some.mp isGuard
  refine inv.setReader rfl rfl (by simp) ?_
  intro seen _ isSeen resident
  exact (inv.guards id).reads seen (.inr isShared) isSeen resident

theorem Inv.drop (taken : s.drop id = some s') : Inv s' := by
  obtain ⟨-, ⟨⟩⟩ := Option.ite_none_right_eq_some.mp taken
  refine inv.setReader rfl rfl (by simp [Guard.new]) ?_
  rintro seen - ⟨⟩

theorem Inv.unpromoted_of_unheld (unheld : s.latch.holder = none) (op : GuardId) :
    s.custody ≠ .promoting op := by
  intro isPromoting
  rw [(inv.promoting op isPromoting).1] at unheld
  contradiction

theorem Inv.begin (unheld : s.latch.holder = none) (room : s.latch.version.toNat + 2 < 2 ^ 64)
    (untouched : pages.latch = s.latch ∧ pages.guards = s.guards)
    (custody : pages.custody.Allows pages.state) (counted : ∀ op, pages.custody ≠ .promoting op)
    (isExclusive : guard.state = .exclusive) (v : guard.version = s.latch.version + 1)
    (held : ∀ seen, guard.seen = some seen → seen.Resident → pages.seen = seen)
    (holder : latch.holder = some id) (next : latch.version = s.latch.version + 1) :
    Inv (pages.setGuard id guard latch) := by
  have even := inv.even_of_unheld unheld
  have isNext : latch.version.toNat = s.latch.version.toNat + 1 := by
    rw [next, toNat_add_one (by omega)]
  refine ⟨?_, ?_, ?_, custody, ?_⟩
  · simp only [setGuard, holder]
    refine iff_of_true (by omega) (by simp)
  · simp only [setGuard]
    omega
  · intro op isPromoting
    exact absurd isPromoting (counted op)
  · simp only [setGuard, Function.forall_update_iff, untouched.2]
    refine ⟨⟨?_, fun seen _ => held seen, ?_⟩, ?_⟩
    · intro _
      exact ⟨holder, v.trans next.symm⟩
    · intro seen reads
      rcases reads with isReader | isReader <;> rw [isExclusive] at isReader <;> contradiction
    · intro other _
      exact (inv.guards other).begins unheld even isNext (.inl counted)

section

variable (room : s.latch.version.toNat + 2 < 2 ^ 64)
include room

theorem Inv.lockExclusive (taken : s.lockExclusive id = some s') : Inv s' := by
  obtain ⟨⟨_, _⟩, isGuard, rfl⟩ := Option.map_eq_some_iff.mp taken
  obtain ⟨-, isGuard⟩ := Option.ite_none_right_eq_some.mp isGuard
  obtain ⟨_, isLocked, both⟩ := Option.map_eq_some_iff.mp isGuard
  obtain ⟨unheld, rfl⟩ := HybridLatch.lock_eq_some isLocked
  cases both
  refine inv.begin unheld room ⟨rfl, rfl⟩ inv.custody (inv.unpromoted_of_unheld unheld) rfl rfl ?_
    rfl rfl
  rintro seen ⟨⟩ -
  rfl

theorem Inv.toExclusive (taken : s.toExclusive id = some s') : Inv s' := by
  obtain ⟨⟨_, _⟩, isGuard, rfl⟩ := Option.map_eq_some_iff.mp taken
  obtain ⟨valid, isGuard⟩ := Option.ite_none_right_eq_some.mp isGuard
  obtain ⟨_, isLocked, both⟩ := Option.map_eq_some_iff.mp isGuard
  obtain ⟨unheld, rfl⟩ := HybridLatch.lock_eq_some isLocked
  cases both
  refine inv.begin unheld room ⟨rfl, rfl⟩ inv.custody (inv.unpromoted_of_unheld unheld) rfl ?_ ?_
    rfl ?_
  · rw [valid.2]
  · -- the exchange has compared the versions, so the reader is not behind
    intro seen isSeen resident
    have sound := (inv.guards id).reads seen (.inl valid.1) isSeen resident
    rcases sound.of_even (inv.even_of_unheld unheld) with behind | ⟨-, same⟩
    · rw [valid.2] at behind
      omega
    · exact same
  · rw [valid.2]

theorem Inv.initNewPage (taken : s.initNewPage op pid = some s') : Inv s' := by
  obtain ⟨-, taken⟩ := Option.ite_none_right_eq_some.mp taken
  obtain ⟨_, isLocked, rfl⟩ := Option.map_eq_some_iff.mp taken
  obtain ⟨unheld, rfl⟩ := HybridLatch.lock_eq_some isLocked
  refine inv.begin unheld room ⟨rfl, rfl⟩ ?_ (by simp) rfl rfl ?_ rfl rfl
  · simp [install, Custody.Allows]
  · rintro seen ⟨⟩ -
    rfl

theorem Inv.promoteLock (taken : s.promoteLock op = some s') : Inv s' := by
  obtain ⟨ready, taken⟩ := Option.ite_none_right_eq_some.mp taken
  obtain ⟨_, isLocked, rfl⟩ := Option.map_eq_some_iff.mp taken
  obtain ⟨unheld, rfl⟩ := HybridLatch.lock_eq_some isLocked
  have even := inv.even_of_unheld unheld
  have isNext : (s.latch.version + 1).toNat = s.latch.version.toNat + 1 := toNat_add_one (by omega)
  refine ⟨?_, ?_, ?_, .inl ready.2, ?_⟩
  · simp only
    exact iff_of_true (by omega) (by simp)
  · simp only
    omega
  · rintro other ⟨⟩
    refine ⟨rfl, ?_⟩
    exact (inv.guards op).not_exclusive_of_holder (by simp [unheld])
  · intro other
    refine (inv.guards other).begins unheld even isNext (.inr ?_)
    simp [seen, Seen.Resident, ready.2]

end

theorem Inv.end (holder : s.latch.holder = some id)
    (untouched : pages.guards = s.guards) (custody : pages.custody.Allows pages.state)
    (unpromoted : ∀ op, pages.custody ≠ .promoting op)
    (unheld : latch.holder = none) (next : latch.version = s.latch.version + 1)
    (idle : guard.state ≠ .exclusive) (reads : ∀ seen, guard.Reads → guard.seen = some seen →
      guard.version = latch.version ∧ pages.seen = seen) : Inv (pages.setGuard id guard latch) := by
  have isHeld : s.latch.holder ≠ none := by simp [holder]
  have odd := inv.odd_iff.mpr isHeld
  have isNext : latch.version.toNat = s.latch.version.toNat + 1 := by
    rw [next, toNat_add_one (inv.room isHeld)]
  refine ⟨?_, ?_, ?_, custody, ?_⟩
  · simp only [setGuard, unheld]
    refine iff_of_false (by omega) (by simp)
  · intro isHeld
    exact absurd unheld isHeld
  · intro op isPromoting
    exact absurd isPromoting (unpromoted op)
  · simp only [setGuard, Function.forall_update_iff, untouched]
    refine ⟨?_, ?_⟩
    · apply Guard.Sound.of_reads idle
      intro seen isReader isSeen _
      obtain ⟨v, same⟩ := reads seen isReader isSeen
      refine ⟨?_, .inr (.inl ⟨v, same⟩)⟩
      rw [v, isNext]
      omega
    · intro other isOther
      refine (inv.guards other).ends ?_ odd isNext
      rw [holder]
      exact fun same => isOther (Option.some.inj same).symm

theorem Inv.unpromoted_of_exclusive
    (isExclusive : (s.guards id).state = .exclusive) (op : GuardId) :
    s.custody ≠ .promoting op := by
  intro isPromoting
  obtain ⟨isHolder, notExclusive⟩ := inv.promoting op isPromoting
  rw [((inv.guards id).exclusive isExclusive).1] at isHolder
  cases isHolder
  exact notExclusive isExclusive

theorem Inv.unlockExclusive (taken : s.unlockExclusive id = some s') : Inv s' := by
  obtain ⟨⟨_, _⟩, isGuard, rfl⟩ := Option.map_eq_some_iff.mp taken
  obtain ⟨isExclusive, ⟨⟩⟩ := Option.ite_none_right_eq_some.mp isGuard
  obtain ⟨holder, v⟩ := (inv.guards id).exclusive isExclusive
  refine inv.end holder rfl inv.custody (inv.unpromoted_of_exclusive isExclusive) rfl ?_
    (by simp) ?_
  · rw [v]
  · rintro seen - ⟨⟩
    exact ⟨rfl, rfl⟩

theorem State.Holds.state_eq
    (holds : s.Holds id frameState) (resident : frameState = .hot ∨ frameState = .cool) :
    s.latch.holder = some id ∧ s.state = frameState := by
  obtain ⟨isExclusive, isSeen⟩ := holds
  obtain ⟨seen, found, rfl⟩ := Option.map_eq_some_iff.mp isSeen
  refine ⟨((inv.guards id).exclusive isExclusive).1, ?_⟩
  rw [← (inv.guards id).held seen isExclusive found resident]
  rfl

theorem Inv.reclaimPage (taken : s.reclaimPage id = some s') : Inv s' := by
  obtain ⟨holds, taken⟩ := Option.ite_none_right_eq_some.mp taken
  obtain ⟨holder, isHot⟩ := holds.state_eq inv (.inl rfl)
  simp only at taken
  split at taken
  · cases taken
    change Inv (setGuard { s with sections := s.sections + 1, custody := .orphan }
      id _ _)
    refine inv.end holder rfl ?_ (by simp) rfl rfl (by simp) ?_
    · simp [Custody.Allows, isHot]
    · rintro seen (isReader | isReader) <;> contradiction
  · cases taken
    change Inv (setGuard
      { s.reset with sections := s.sections + 1, custody := .taken id } id _ _)
    refine inv.end holder rfl (.inl rfl) (by simp) rfl rfl (by simp) ?_
    rintro seen (isReader | isReader) <;> contradiction

theorem Inv.promoteUnlock (taken : s.promoteUnlock op = some s') : Inv s' := by
  obtain ⟨ready, ⟨⟩⟩ := Option.ite_none_right_eq_some.mp taken
  have holder := (inv.promoting op ready.1).1
  have isHeld : s.latch.holder ≠ none := by simp [holder]
  have odd := inv.odd_iff.mpr isHeld
  have back : (s.latch.version - 1).toNat = s.latch.version.toNat - 1 := toNat_sub_one (by omega)
  refine ⟨?_, ?_, ?_, ?_, ?_⟩
  · simp only
    exact iff_of_false (by omega) (by simp)
  · intro isHeld
    contradiction
  · intro other _
    contradiction
  · simp [Custody.Allows, ready.2]
  · intro other
    refine (inv.guards other).endsPromotion
      (fun isExclusive => inv.unpromoted_of_exclusive isExclusive op ready.1) ready.1 odd ?_
    simp only
    omega

theorem Inv.changeHeld (isExclusive : (s.guards id).state = .exclusive)
    (untouched : pages.latch = s.latch ∧ pages.guards = s.guards)
    (custody : pages.custody.Allows pages.state)
    (unpromoted : ∀ op, pages.custody ≠ .promoting op) : Inv (pages.forget id) := by
  obtain ⟨holder, v⟩ := (inv.guards id).exclusive isExclusive
  have odd : s.latch.version.toNat % 2 = 1 := inv.odd_iff.mpr (by simp [holder])
  refine ⟨?_, ?_, ?_, custody, ?_⟩
  · simpa only [forget, untouched.1] using inv.odd_iff
  · simpa only [forget, untouched.1] using inv.room
  · intro op isPromoting
    exact absurd isPromoting (unpromoted op)
  · simp only [forget, Function.forall_update_iff, untouched]
    refine ⟨⟨fun _ => ⟨holder, v⟩, ?_, ?_⟩, ?_⟩
    · rintro seen - ⟨⟩
    · rintro seen - ⟨⟩
    · intro other isOther
      refine (inv.guards other).change rfl rfl (.inr ⟨odd, ?_⟩) ?_
      · rw [holder]
        exact fun same => isOther (Option.some.inj same).symm
      · intro op isPromoting
        exact absurd isPromoting (unpromoted op)

theorem Inv.changeFree (absent : ¬ s.seen.Resident)
    (untouched : s'.latch = s.latch ∧ s'.guards = s.guards) (custody : s'.custody.Allows s'.state)
    (promoting : ∀ op, s'.custody = .promoting op → s.custody = .promoting op) : Inv s' := by
  refine ⟨?_, ?_, ?_, custody, ?_⟩
  · simpa only [untouched.1] using inv.odd_iff
  · simpa only [untouched.1] using inv.room
  · intro op isPromoting
    rw [untouched.1, untouched.2]
    exact inv.promoting op (promoting op isPromoting)
  · intro other
    rw [untouched.2]
    exact (inv.guards other).change (by rw [untouched.1]) (by rw [untouched.1]) (.inl absent)
      promoting

theorem Inv.custody_of_resident (isExclusive : (s.guards id).state = .exclusive)
    (resident : s.state = .hot ∨ s.state = .cool) (full : frameState ≠ .free) :
    s.custody.Allows frameState := by
  have custody := inv.custody
  have unpromoted := inv.unpromoted_of_exclusive isExclusive
  cases isCustody : s.custody with
  | listed | taken =>
    rcases resident with isHot | isCool <;> simp_all [Custody.Allows]
  | promoting op => exact absurd isCustody (unpromoted op)
  | installed => exact full
  | orphan => exact full

theorem Inv.cool (taken : s.cool id = some s') : Inv s' := by
  obtain ⟨holds, ⟨⟩⟩ := Option.ite_none_right_eq_some.mp taken
  obtain ⟨-, isHot⟩ := holds.state_eq inv (.inl rfl)
  exact inv.changeHeld holds.1 ⟨rfl, rfl⟩
    (inv.custody_of_resident holds.1 (.inl isHot) (by simp)) (inv.unpromoted_of_exclusive holds.1)

theorem Inv.warm (taken : s.warm id = some s') : Inv s' := by
  obtain ⟨holds, ⟨⟩⟩ := Option.ite_none_right_eq_some.mp taken
  obtain ⟨-, isCool⟩ := holds.state_eq inv (.inr rfl)
  exact inv.changeHeld holds.1 ⟨rfl, rfl⟩
    (inv.custody_of_resident holds.1 (.inr isCool) (by simp)) (inv.unpromoted_of_exclusive holds.1)

theorem Inv.warmReady (taken : s.warmReady id = some s') : Inv s' := by
  obtain ⟨ready, ⟨⟩⟩ := Option.ite_none_right_eq_some.mp taken
  refine inv.changeHeld ready.1 ⟨rfl, rfl⟩ ?_ (inv.unpromoted_of_exclusive ready.1)
  simp [ready.2.2, Custody.Allows]

theorem Inv.takeOut (taken : s.takeOut id = some s') : Inv s' := by
  obtain ⟨ready, ⟨⟩⟩ := Option.ite_none_right_eq_some.mp taken
  exact inv.changeHeld ready.1.1 ⟨rfl, rfl⟩ (.inl rfl) (by simp)

theorem Inv.promoteAway (taken : s.promoteAway id = some s') : Inv s' := by
  obtain ⟨ready, ⟨⟩⟩ := Option.ite_none_right_eq_some.mp taken
  exact inv.changeHeld ready.1 ⟨rfl, rfl⟩ rfl (by simp)

theorem Inv.setWrittenBack (flag : Bool) : Inv { s with isBeingWrittenBack := flag } where
  odd_iff := inv.odd_iff
  room := inv.room
  promoting := inv.promoting
  custody := inv.custody
  guards := fun other => (inv.guards other).keep rfl rfl rfl fun _ isPromoting => isPromoting

theorem Inv.promoteInto (taken : s.promoteInto op pid = some s') : Inv s' := by
  obtain ⟨ready, ⟨⟩⟩ := Option.ite_none_right_eq_some.mp taken
  refine inv.changeFree ?_ ⟨rfl, rfl⟩ ?_ fun _ isPromoting => isPromoting
  · simp [seen, Seen.Resident, ready.2]
  · simp [install, ready.1, Custody.Allows]

theorem Inv.unlatched (taken : (∃ op, s.custody = .taken op) ∨ s.custody = .listed)
    (untouched : s'.latch = s.latch ∧ s'.guards = s.guards) (custody : s'.custody.Allows s'.state)
    (unpromoted : ∀ op, s'.custody ≠ .promoting op) : Inv s' := by
  refine inv.changeFree ?_ untouched custody fun op isPromoting =>
    absurd isPromoting (unpromoted op)
  have empty := inv.custody
  rcases taken with ⟨op, isTaken⟩ | isListed
  · rw [isTaken] at empty
    rcases empty with isFree | isLoaded <;> simp [seen, Seen.Resident, *]
  · simp_all [seen, Seen.Resident, Custody.Allows]

theorem Inv.step {a : Action} (permitted : VersionsAdvance s a)
    (taken : step s a = some s') : Inv s' := by
  cases a with
  | toOptimistic => exact inv.toOptimistic taken
  | lockShared => exact inv.lockShared taken
  | lockExclusive => exact inv.lockExclusive (permitted.2 rfl) taken
  | toExclusive => exact inv.toExclusive (permitted.2 rfl) taken
  | toShared => exact inv.toShared taken
  | unlockExclusive => exact inv.unlockExclusive taken
  | unlockShared => exact inv.unlockShared taken
  | drop => exact inv.drop taken
  | cool => exact inv.cool taken
  | warm => exact inv.warm taken
  | warmReady => exact inv.warmReady taken
  | writeBack =>
    obtain ⟨-, ⟨⟩⟩ := Option.ite_none_right_eq_some.mp taken
    exact inv.setWrittenBack true
  | written =>
    cases taken
    exact inv.setWrittenBack false
  | takeOut => exact inv.takeOut taken
  | promoteAway => exact inv.promoteAway taken
  | reclaimPage => exact inv.reclaimPage taken
  | pop =>
    obtain ⟨isListed, ⟨⟩⟩ := Option.ite_none_right_eq_some.mp taken
    have custody := inv.custody
    rw [isListed] at custody
    exact inv.unlatched (.inr isListed) ⟨rfl, rfl⟩ (.inl custody) (by simp)
  | push op =>
    obtain ⟨ready, ⟨⟩⟩ := Option.ite_none_right_eq_some.mp taken
    exact inv.unlatched (.inl ⟨op, ready.1⟩) ⟨rfl, rfl⟩ ready.2 (by simp)
  | storeZero =>
    obtain ⟨-, ⟨⟩⟩ := Option.ite_none_right_eq_some.mp taken
    have same : ({ s.latch with version := 0 } : HybridLatch) = s.latch := by
      rw [← permitted.1 rfl]
    rw [same]
    exact inv
  | initNewPage => exact inv.initNewPage (permitted.2 rfl) taken
  | readPage op =>
    obtain ⟨ready, ⟨⟩⟩ := Option.ite_none_right_eq_some.mp taken
    refine inv.unlatched (.inl ⟨op, ready.1⟩) ⟨rfl, rfl⟩ ?_ (by simp [install, ready.1])
    simp [install, ready.1, Custody.Allows]
  | giveUpLoaded op =>
    obtain ⟨ready, ⟨⟩⟩ := Option.ite_none_right_eq_some.mp taken
    refine inv.unlatched (.inl ⟨op, ready.1⟩) ⟨rfl, rfl⟩ ?_ (by simp [reset, ready.1])
    simp [reset, ready.1, Custody.Allows]
  | swizzle op =>
    obtain ⟨ready, ⟨⟩⟩ := Option.ite_none_right_eq_some.mp taken
    exact inv.unlatched (.inl ⟨op, ready.1⟩) ⟨rfl, rfl⟩ (by simp [Custody.Allows]) (by simp)
  | publishReady op =>
    obtain ⟨ready, ⟨⟩⟩ := Option.ite_none_right_eq_some.mp taken
    refine inv.unlatched (.inl ⟨op, ready.1⟩) ⟨rfl, rfl⟩ ?_ (by simp)
    simp [Custody.Allows, ready.2]
  | demoteInto op =>
    obtain ⟨ready, ⟨⟩⟩ := Option.ite_none_right_eq_some.mp taken
    refine inv.unlatched (.inl ⟨op, ready.1⟩) ⟨rfl, rfl⟩ ?_ (by simp)
    simp [install, Custody.Allows]
  | promoteLock => exact inv.promoteLock (permitted.2 rfl) taken
  | promoteInto => exact inv.promoteInto taken
  | promoteUnlock => exact inv.promoteUnlock taken

end

def Initial (s : State) : Prop := s = initial

def State.Validates (s : State) (id : GuardId) : Prop :=
  ((s.guards id).state = .optimistic ∧ (s.guards id).recheck s.latch = true) ∨
    (s.toExclusive id).isSome

instance (s : State) (id : GuardId) : Decidable (s.Validates id) :=
  inferInstanceAs (Decidable (_ ∨ _))

theorem State.Validates.current (valid : s.Validates id) :
    (s.guards id).state = .optimistic ∧ (s.guards id).version = s.latch.version := by
  rcases valid with ⟨isOptimistic, rechecked⟩ | upgraded
  · refine ⟨isOptimistic, ?_⟩
    simpa [Guard.recheck, isOptimistic] using rechecked
  · obtain ⟨s', taken⟩ := Option.isSome_iff_exists.mp upgraded
    obtain ⟨_, isBoth, -⟩ := Option.map_eq_some_iff.mp taken
    unfold Guard.toExclusive at isBoth
    split at isBoth
    · assumption
    · contradiction

/-- A split page that is evicted, and another split page in the same frame: the version
starts again at zero. -/
def splitTwice : List Action :=
  [.pop 0, .storeZero 0, .initNewPage 0 1, .unlockExclusive 0,
    .toOptimistic 9,
    .toOptimistic 1, .toExclusive 1, .cool 1, .unlockExclusive 1,
    .toOptimistic 2, .toExclusive 2, .takeOut 2, .unlockExclusive 2, .push 2,
    .pop 3, .storeZero 3, .initNewPage 3 2, .unlockExclusive 3]

theorem recheck_succeeds_on_other_page :
    ∃ state seen, Reachable step Initial (fun _ _ => True) state ∧
      (state.guards 9).seen = some seen ∧ seen.Resident ∧ state.Validates 9 ∧
      seen.pid = 1 ∧ state.pid = 2 := by
  obtain ⟨state, ran, seen, isSeen, rest⟩ : ∃ state, run step initial splitTwice = some state ∧
      ∃ seen, (state.guards 9).seen = some seen ∧ seen.Resident ∧ state.Validates 9 ∧
        seen.pid = 1 ∧ state.pid = 2 :=
    ⟨_, rfl, _, rfl, by decide, by decide, rfl, rfl⟩
  have start : Reachable step Initial (fun _ _ => True) initial := .start rfl
  exact ⟨state, seen, start.run_of_forall (by simp) ran, isSeen, rest⟩

/--
As long as versions only advance, a guard that read its version while a page was hot
or cool in the frame and validates it now finds that page there, in the same state,
never replaced, and no exclusive section has ended since.
-/
theorem validation_sound (reached : Reachable step Initial VersionsAdvance state)
    (isSeen : (state.guards id).seen = some seen) (resident : seen.Resident)
    (valid : state.Validates id) :
    state.pid = seen.pid ∧ state.state = seen.state ∧ state.tenure = seen.tenure ∧
      state.sections = seen.sections := by
  have inv : Inv state := by
    refine reached.invariant Inv ?_ fun _ _ _ inv => inv.step
    rintro _ rfl
    exact inv_initial
  obtain ⟨isOptimistic, version⟩ := valid.current
  have same : state.seen = seen := by
    obtain ⟨even, behind | ⟨-, same⟩ | ⟨overtaken, -⟩⟩ :=
      (inv.guards id).reads seen (.inl isOptimistic) isSeen resident
    · rw [version] at behind
      omega
    · exact same
    · rw [version] at overtaken
      omega
  rw [← same]
  exact ⟨rfl, rfl, rfl, rfl⟩

def promotedAfterEviction : List Action :=
  [.pop 0, .storeZero 0, .initNewPage 0 1, .unlockExclusive 0,
    .toOptimistic 1, .toExclusive 1, .cool 1, .unlockExclusive 1,
    .toOptimistic 2, .toExclusive 2, .takeOut 2, .unlockExclusive 2, .push 2,
    .pop 3, .promoteLock 3, .promoteInto 3 2, .promoteUnlock 3,
    .toOptimistic 9]

theorem validation_sound_promoted :
    ∃ state seen, Reachable step Initial VersionsAdvance state ∧
      (state.guards 9).seen = some seen ∧ seen.Resident ∧ state.Validates 9 ∧
      state.pid = seen.pid ∧ state.tenure = 2 ∧ seen.tenure = 2 := by
  obtain ⟨state, ran, seen, isSeen, resident, valid, isTenure⟩ :
      ∃ state, run step initial promotedAfterEviction = some state ∧
      ∃ seen, (state.guards 9).seen = some seen ∧ seen.Resident ∧ state.Validates 9 ∧
        seen.tenure = 2 :=
    ⟨_, rfl, _, rfl, by decide, by decide, rfl⟩
  have start : Reachable step Initial VersionsAdvance initial := .start rfl
  have reached := start.run_of_allowed
    (by decide : AllowedAlong step VersionsAdvance initial promotedAfterEviction) ran
  obtain ⟨pid, -, tenure, -⟩ := validation_sound reached isSeen resident valid
  exact ⟨state, seen, reached, isSeen, resident, valid, pid, tenure.trans isTenure, isTenure⟩

end TieredStore.FrameLatch
