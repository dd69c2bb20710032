import TieredStore.RecordCache.LeafSlots

namespace TieredStore.RecordCache

open Transition Function List LeafSection Leaves State

namespace Leaves

variable {leaves leaves' : Leaves} {frame : Nat} {s : FrameState}

def SameStores (leaves leaves' : Leaves) : Prop :=
  ∀ key tuple, leaves'.Stores key tuple ↔ leaves.Stores key tuple

/-- A frame whose version counter stands still is unchanged, unless it is
latched exclusively: the reason why a validated optimistic read is consistent. -/
def Advances (leaves leaves' : Leaves) : Prop :=
  ∀ frame, leaves'.frames frame = leaves.frames frame ∨
    (leaves.frames frame).version < (leaves'.frames frame).version ∨
    ((leaves'.frames frame).version = (leaves.frames frame).version ∧
      (leaves.frames frame).isExclusivelyLatched = true)

theorem advances_refl (leaves : Leaves) : leaves.Advances leaves := fun _ => .inl rfl

theorem advances_bumpVersion {amount : Nat} (positive : 0 < amount) (frame : Nat) :
    leaves.Advances (leaves.bumpVersion frame amount) := by
  intro other
  by_cases same : other = frame
  · subst same
    refine .inr (.inl ?_)
    simp only [bumpVersion, setFrame, update_self]
    omega
  · exact .inl (by simp [bumpVersion, setFrame, same])

theorem setState_wellFormed (wellFormed : leaves.WellFormed)
    (live : (leaves.frames frame).state ≠ .free) : (leaves.setState frame s).WellFormed := by
  have frames : ∀ other, ((leaves.setState frame s).frames other).slots =
      (leaves.frames other).slots := by
    intro other
    by_cases same : other = frame <;> simp [setState, setFrame, same]
  have states : ∀ other, ((leaves.setState frame s).frames other).state ≠ .free →
      (leaves.frames other).state ≠ .free := by
    intro other
    by_cases same : other = frame
    · exact fun _ => same ▸ live
    · simp [setState, setFrame, same]
  refine ⟨fun other slot live' mem => ?_, fun other live' => ?_⟩
  · exact wellFormed.routed other slot (states other live') (frames other ▸ mem)
  · rw [frames other]
    exact wellFormed.distinct other (states other live')

theorem setState_sameStores (before : (leaves.frames frame).state ≠ .free) (after : s ≠ .free) :
    leaves.SameStores (leaves.setState frame s) := by
  intro _ _
  refine exists_congr fun other => ?_
  by_cases same : other = frame
  · subst same
    simp [setState, setFrame, before, after]
  · simp [setState, setFrame, same]

theorem advances_setState (frame : Nat) (s : FrameState) :
    leaves.Advances (leaves.setState frame s) := by
  intro other
  by_cases same : other = frame
  · subst same
    refine .inr (.inl ?_)
    simp [setState, setFrame]
  · exact .inl (by simp [setState, setFrame, same])

structure Rearranges (leaves leaves' : Leaves) (frame fresh : Nat) : Prop where
  frames : ∀ other, other ≠ frame → other ≠ fresh → leaves'.frames other = leaves.frames other
  routes : ∀ key, leaves.route key ≠ frame → leaves'.route key = leaves.route key
  version : (leaves.frames frame).version < (leaves'.frames frame).version

namespace Rearranges

variable {frame fresh : Nat} (moved : leaves.Rearranges leaves' frame fresh)
include moved

theorem advances (counts : (leaves.frames fresh).version < (leaves'.frames fresh).version) :
    leaves.Advances leaves' := by
  intro other
  by_cases isOld : other = frame
  · exact .inr (.inl (isOld ▸ moved.version))
  · by_cases isFresh : other = fresh
    · exact .inr (.inl (isFresh ▸ counts))
    · exact .inl (moved.frames other isOld isFresh)

theorem sameStores
    (live : (leaves.frames frame).state ≠ .free) (free : (leaves.frames fresh).state = .free)
    (slots : ∀ slot, slot ∈ (leaves.frames frame).slots ↔
      ∃ other, (other = frame ∨ other = fresh) ∧ (leaves'.frames other).state ≠ .free ∧
        slot ∈ (leaves'.frames other).slots) : leaves.SameStores leaves' := by
  intro _ _
  constructor
  · rintro ⟨other, live', mem⟩
    by_cases changed : other = frame ∨ other = fresh
    · exact ⟨frame, live, (slots _).mpr ⟨other, changed, live', mem⟩⟩
    · rw [not_or] at changed
      rw [moved.frames other changed.1 changed.2] at live' mem
      exact ⟨other, live', mem⟩
  · rintro ⟨other, live', mem⟩
    by_cases isOld : other = frame
    · subst isOld
      obtain ⟨other, -, stored⟩ := (slots _).mp mem
      exact ⟨other, stored⟩
    · have notFresh : other ≠ fresh := by
        rintro rfl
        exact live' free
      rw [← moved.frames other isOld notFresh] at live' mem
      exact ⟨other, live', mem⟩

theorem wellFormed (before : leaves.WellFormed)
    (routed : ∀ other slot, other = frame ∨ other = fresh → (leaves'.frames other).state ≠ .free →
      slot ∈ (leaves'.frames other).slots → leaves'.route slot.key = other)
    (distinct : ∀ other, other = frame ∨ other = fresh → (leaves'.frames other).state ≠ .free →
      ((leaves'.frames other).slots.map LeafSlot.key).Nodup) : leaves'.WellFormed := by
  refine ⟨fun other slot live mem => ?_, fun other live => ?_⟩
  · by_cases changed : other = frame ∨ other = fresh
    · exact routed other slot changed live mem
    · rw [not_or] at changed
      rw [moved.frames other changed.1 changed.2] at live mem
      have old := before.routed other slot live mem
      exact (moved.routes _ (old ▸ changed.1)).trans old
  · by_cases changed : other = frame ∨ other = fresh
    · exact distinct other changed live
    · rw [not_or] at changed
      rw [moved.frames other changed.1 changed.2] at live ⊢
      exact before.distinct other live

end Rearranges

section Split

variable {frame fresh newPid separator : Nat} {isCXL : Bool} {separatorKey : Bytes}

theorem frames_split_fresh :
    ((leaves.split frame fresh newPid separator isCXL separatorKey).frames fresh).slots =
      (leaves.frames frame).slots.take (separator + 1) := by
  simp [split]

theorem frames_split_old (leaves : Leaves) (newPid separator : Nat) (isCXL : Bool)
    (separatorKey : Bytes) (ne : frame ≠ fresh) :
    ((leaves.split frame fresh newPid separator isCXL separatorKey).frames frame).slots =
        (leaves.frames frame).slots.drop (separator + 1) ∧
      ((leaves.split frame fresh newPid separator isCXL separatorKey).frames frame).state =
        (leaves.frames frame).state := by
  simp [split, ne]

theorem rearranges_split (leaves : Leaves) (newPid separator : Nat) (isCXL : Bool)
    (separatorKey : Bytes) (ne : frame ≠ fresh) :
    leaves.Rearranges (leaves.split frame fresh newPid separator isCXL separatorKey)
      frame fresh where
  frames other notOld notFresh := by simp [split, notOld, notFresh]
  routes key notOld := by simp [split, notOld]
  version := by simp [split, ne]

theorem split_sameStores (hot : (leaves.frames frame).state = .hot)
    (free : (leaves.frames fresh).state = .free) :
    leaves.SameStores (leaves.split frame fresh newPid separator isCXL separatorKey) := by
  have ne : frame ≠ fresh := by
    rintro rfl
    simp [hot] at free
  obtain ⟨slots, s⟩ := frames_split_old leaves newPid separator isCXL separatorKey ne
  refine (rearranges_split leaves newPid separator isCXL separatorKey ne).sameStores
    (by simp [hot]) free fun slot => ⟨fun mem => ?_, ?_⟩
  · rw [← take_append_drop (separator + 1) (leaves.frames frame).slots] at mem
    rcases mem_append.mp mem with lower | upper
    · exact ⟨fresh, .inr rfl, by simp [split], by rwa [frames_split_fresh]⟩
    · exact ⟨frame, .inl rfl, by simp [s, hot], by rwa [slots]⟩
  · rintro ⟨_, rfl | rfl, -, mem⟩
    · exact mem_of_mem_drop (slots ▸ mem)
    · rw [frames_split_fresh] at mem
      exact mem_of_mem_take mem

theorem split_wellFormed (wellFormed : leaves.WellFormed) (hot : (leaves.frames frame).state = .hot)
    (free : (leaves.frames fresh).state = .free)
    (separated : separates (leaves.frames frame).slots separator separatorKey = true) :
    (leaves.split frame fresh newPid separator isCXL separatorKey).WellFormed := by
  have ne : frame ≠ fresh := by
    rintro rfl
    simp [hot] at free
  have live : (leaves.frames frame).state ≠ .free := by simp [hot]
  obtain ⟨slots, s⟩ := frames_split_old leaves newPid separator isCXL separatorKey ne
  simp only [separates, Bool.and_eq_true, all_eq_true, decide_eq_true_eq] at separated
  apply (rearranges_split leaves newPid separator isCXL separatorKey ne).wellFormed wellFormed
  · rintro other slot (rfl | rfl) - mem
    · rw [slots] at mem
      have routed := wellFormed.routed other slot live (mem_of_mem_drop mem)
      simp only [split, routed, true_and, if_neg (separated.2 slot mem)]
    · rw [frames_split_fresh] at mem
      have routed := wellFormed.routed frame slot live (mem_of_mem_take mem)
      simp [split, routed, separated.1 slot mem]
  · rintro other (rfl | rfl) -
    · rw [slots]
      exact (wellFormed.distinct other live).sublist ((drop_sublist _ _).map _)
    · rw [frames_split_fresh]
      exact (wellFormed.distinct frame live).sublist ((take_sublist _ _).map _)

end Split

section Migrate

variable {frame fresh : Nat}

theorem frames_migrate_fresh (leaves : Leaves) (frame fresh : Nat) :
    ((leaves.migrate frame fresh).frames fresh).slots = (leaves.frames frame).slots ∧
      ((leaves.migrate frame fresh).frames fresh).state = (leaves.frames frame).state := by
  simp [migrate]

theorem frames_migrate_old (ne : frame ≠ fresh) :
    ((leaves.migrate frame fresh).frames frame).state = .free := by
  simp [migrate, ne]

theorem rearranges_migrate (leaves : Leaves) (ne : frame ≠ fresh) :
    leaves.Rearranges (leaves.migrate frame fresh) frame fresh where
  frames other notOld notFresh := by simp [migrate, notOld, notFresh]
  routes key notOld := by simp [migrate, notOld]
  version := by simp [migrate, ne]

theorem migrate_sameStores (hot : (leaves.frames frame).state = .hot)
    (free : (leaves.frames fresh).state = .free) :
    leaves.SameStores (leaves.migrate frame fresh) := by
  have ne : frame ≠ fresh := by
    rintro rfl
    simp [hot] at free
  obtain ⟨slots, s⟩ := frames_migrate_fresh leaves frame fresh
  refine (rearranges_migrate leaves ne).sameStores (by simp [hot]) free
    fun slot => ⟨fun mem => ?_, ?_⟩
  · exact ⟨fresh, .inr rfl, by simp [s, hot], by rwa [slots]⟩
  · rintro ⟨_, rfl | rfl, live, mem⟩
    · exact absurd (frames_migrate_old ne) live
    · rwa [slots] at mem

theorem migrate_wellFormed (wellFormed : leaves.WellFormed)
    (hot : (leaves.frames frame).state = .hot) (free : (leaves.frames fresh).state = .free) :
    (leaves.migrate frame fresh).WellFormed := by
  have ne : frame ≠ fresh := by
    rintro rfl
    simp [hot] at free
  obtain ⟨slots, s⟩ := frames_migrate_fresh leaves frame fresh
  apply (rearranges_migrate leaves ne).wellFormed wellFormed
  · rintro other slot (rfl | rfl) live mem
    · exact absurd (frames_migrate_old ne) live
    · have routed := wellFormed.routed frame slot (s ▸ live) (slots ▸ mem)
      simp [migrate, routed]
  · rintro other (rfl | rfl) live
    · exact absurd (frames_migrate_old ne) live
    · rw [slots]
      exact wellFormed.distinct frame (s ▸ live)

end Migrate

section Rewrite

variable {sect : LeafSection} {tag : VersionTag} {tuple : ChainedTuple}

def rewriteSlot (leaves : Leaves) (leafSection : LeafSection) (tag : VersionTag) :
    Leaves :=
  leaves.setFrame leafSection.frame
    { leaves.frames leafSection.frame with
      slots := leafSection.rewrite tag (leaves.frames leafSection.frame).slots }

theorem frames_rewriteSlot_other {other : Nat} (elsewhere : other ≠ sect.frame) :
    (leaves.rewriteSlot sect tag).frames other = leaves.frames other := by
  simp [rewriteSlot, setFrame, elsewhere]

theorem frames_rewriteSlot_own (leaves : Leaves) (sect : LeafSection) (tag : VersionTag) :
    (leaves.rewriteSlot sect tag).frames sect.frame =
      { leaves.frames sect.frame with
        slots := sect.rewrite tag (leaves.frames sect.frame).slots } := by
  simp [rewriteSlot, setFrame]

theorem advances_rewriteSlot (tag : VersionTag)
    (latched : (leaves.frames sect.frame).isExclusivelyLatched = true) :
    leaves.Advances (leaves.rewriteSlot sect tag) := by
  intro other
  by_cases same : other = sect.frame
  · subst same
    exact .inr (.inr ⟨by rw [frames_rewriteSlot_own], latched⟩)
  · exact .inl (frames_rewriteSlot_other same)

variable (located : sect.Located (leaves.frames sect.frame).slots)
include located

theorem rewriteSlot_wellFormed (wellFormed : leaves.WellFormed)
    (live : (leaves.frames sect.frame).state ≠ .free)
    (routed : leaves.route sect.key = sect.frame) : (leaves.rewriteSlot sect tag).WellFormed := by
  have distinct := wellFormed.distinct sect.frame live
  refine ⟨fun other slot live' mem => ?_, fun other live' => ?_⟩
  · show leaves.route slot.key = other
    by_cases same : other = sect.frame
    · subst same
      rw [frames_rewriteSlot_own] at mem
      rcases mem_rewrite located distinct mem with ⟨old, -⟩ | ⟨own, -⟩
      · exact wellFormed.routed _ slot live old
      · rw [own, routed]
    · rw [frames_rewriteSlot_other same] at live' mem
      exact wellFormed.routed other slot live' mem
  · by_cases same : other = sect.frame
    · subst same
      rw [frames_rewriteSlot_own]
      exact nodup_rewrite located distinct
    · rw [frames_rewriteSlot_other same] at live' ⊢
      exact wellFormed.distinct other live'

theorem rewriteSlot_stores_other {key : Bytes}
    (distinct : ((leaves.frames sect.frame).slots.map LeafSlot.key).Nodup) (ne : key ≠ sect.key) :
    (leaves.rewriteSlot sect tag).Stores key tuple ↔ leaves.Stores key tuple := by
  refine exists_congr fun other => ?_
  by_cases same : other = sect.frame
  · subst same
    rw [frames_rewriteSlot_own]
    refine and_congr_right fun _ => ⟨fun mem => ?_, fun mem => ?_⟩
    · rcases mem_rewrite located distinct mem with ⟨old, -⟩ | ⟨own, -⟩
      · exact old
      · exact absurd own ne
    · exact mem_rewrite_of_mem located mem ne
  · rw [frames_rewriteSlot_other same]

theorem rewriteSlot_stores_own (wellFormed : leaves.WellFormed)
    (live : (leaves.frames sect.frame).state ≠ .free) (routed : leaves.route sect.key = sect.frame)
    (stores : (leaves.rewriteSlot sect tag).Stores sect.key tuple) :
    sect.outcome tag (leaves.frames sect.frame).slots tuple := by
  obtain ⟨other, live', mem⟩ := stores
  by_cases same : other = sect.frame
  · subst same
    rw [frames_rewriteSlot_own] at mem
    rcases mem_rewrite located (wellFormed.distinct sect.frame live) mem with ⟨-, other⟩ | ⟨-, own⟩
    · exact absurd rfl other
    · exact own
  · rw [frames_rewriteSlot_other same] at live' mem
    exact absurd ((wellFormed.routed other _ live' mem).symm.trans routed) same

end Rewrite

end Leaves

structure Occupies (leaves : Leaves) (sect : LeafSection) (stage : WorkerStage) : Prop where
  latched : (leaves.frames sect.frame).isExclusivelyLatched = true
  hot : (leaves.frames sect.frame).state = .hot
  routed : leaves.route sect.key = sect.frame
  located : stage ≠ .written → sect.Located (leaves.frames sect.frame).slots

structure LeafInv (s : State) : Prop where
  wellFormed : s.leaves.WellFormed
  occupies : ∀ w sect stage, s.workers w = .busy sect stage → Occupies s.leaves sect stage
  exclusive : ∀ w w' sect sect' stage stage', s.workers w = .busy sect stage →
    s.workers w' = .busy sect' stage' → sect.frame = sect'.frame → w = w'

/-- A write is the only step that changes what the tree stores for a key, and
it changes only the key of its section. -/
structure Rewrites (s s' : State) (sect : LeafSection) (tag : VersionTag) : Prop where
  others : ∀ key tuple, key ≠ sect.key → (s'.leaves.Stores key tuple ↔ s.leaves.Stores key tuple)
  own : ∀ tuple, s'.leaves.Stores sect.key tuple →
    sect.outcome tag (s.leaves.frames sect.frame).slots tuple

structure LeafStep (s s' : State) (a : Action) : Prop where
  inv : LeafInv s'
  advances : ResetsFresh s a → s.leaves.Advances s'.leaves
  stores : s.leaves.SameStores s'.leaves ∨ ∃ w signal sect stage, a = .worker w (.write signal) ∧
      s.workers w = .busy sect stage ∧ sect.mayWrite stage = true ∧ Rewrites s s' sect (s.tagOf w)

namespace LeafInv

variable {s s' : State} {w : Nat} {sect : LeafSection} {stage : WorkerStage}
  {stage' : WorkerStage}

theorem occupies_congr {leaves leaves' : Leaves} (occupies : Occupies leaves sect stage)
    (frames : leaves'.frames sect.frame = leaves.frames sect.frame)
    (route : leaves'.route sect.key = leaves.route sect.key)
    (unwritten : stage' ≠ .written → stage ≠ .written) : Occupies leaves' sect stage' where
  latched := frames ▸ occupies.latched
  hot := frames ▸ occupies.hot
  routed := route.trans occupies.routed
  located notWritten := frames ▸ occupies.located (unwritten notWritten)

theorem frame_ne_of_unlatched (inv : LeafInv s) {frame : Nat}
    (busy : s.workers w = .busy sect stage)
    (unlatched : (s.leaves.frames frame).isExclusivelyLatched = false) : sect.frame ≠ frame := by
  rintro rfl
  simp [(inv.occupies w sect stage busy).latched] at unlatched

theorem sameLeaves (inv : LeafInv s) (a : Action) (leaves : s'.leaves = s.leaves)
    (workers : s'.workers = s.workers) : LeafStep s s' a where
  inv := ⟨leaves ▸ inv.wellFormed, workers ▸ leaves ▸ inv.occupies, workers ▸ inv.exclusive⟩
  advances _ := leaves ▸ advances_refl _
  stores := .inl fun _ _ => by rw [leaves]

theorem unlatchedPages (inv : LeafInv s) (a : Action)
    (workers : s'.workers = s.workers) (wellFormed : s'.leaves.WellFormed)
    (advances : ResetsFresh s a → s.leaves.Advances s'.leaves)
    (stores : s.leaves.SameStores s'.leaves) (away : ∀ w sect stage,
      s.workers w = .busy sect stage → s'.leaves.frames sect.frame = s.leaves.frames sect.frame ∧
        s'.leaves.route sect.key = s.leaves.route sect.key) : LeafStep s s' a where
  inv :=
    { wellFormed := wellFormed
      occupies := fun w sect stage busy => by
        rw [workers] at busy
        obtain ⟨frames, route⟩ := away w sect stage busy
        exact occupies_congr (inv.occupies w sect stage busy) frames route id
      exclusive := workers ▸ inv.exclusive }
  advances := advances
  stores := .inl stores

variable {cfg : Config}

theorem pageStep {a : PageAction} (inv : LeafInv s)
    (taken : PageStep cfg s a s') : LeafStep s s' (.page a) := by
  cases taken with
  | promoteRecordCacheEntry => exact inv.sameLeaves _ rfl rfl
  | @cool frame live unlatched | @heat frame live unlatched =>
    refine inv.unlatchedPages _ rfl
      (setState_wellFormed inv.wellFormed (by simp [live]))
      (fun _ => advances_setState _ _)
      (setState_sameStores (by simp [live]) (by simp))
      fun w sect stage busy => ⟨?_, rfl⟩
    have elsewhere := inv.frame_ne_of_unlatched busy unlatched
    simp [setState, setFrame, elsewhere]
  | @split frame fresh _ _ isCXL _ _ hot unlatched free unlatched' separated =>
    have ne : frame ≠ fresh := by
      rintro rfl
      simp [hot] at free
    refine inv.unlatchedPages _ rfl
      (split_wellFormed inv.wellFormed hot free separated)
      (fun resets => (rearranges_split _ _ _ _ _ ne).advances ?_) (split_sameStores hot free)
      fun w sect stage busy => ?_
    · cases isCXL with
      | false => simp [split]
      | true =>
        have zero : (s.leaves.frames fresh).version = 0 := resets
        simp [split, zero]
    have notOld := inv.frame_ne_of_unlatched busy unlatched
    have notFresh := inv.frame_ne_of_unlatched busy unlatched'
    refine ⟨(rearranges_split _ _ _ _ _ ne).frames _ notOld notFresh, ?_⟩
    simp [split, (inv.occupies w sect stage busy).routed, notOld]
  | @migrate frame fresh hot unlatched free unlatched' =>
    have ne : frame ≠ fresh := by
      rintro rfl
      simp [hot] at free
    refine inv.unlatchedPages _ rfl
      (migrate_wellFormed inv.wellFormed hot free)
      (fun _ => (rearranges_migrate _ ne).advances (by simp [migrate]))
      (migrate_sameStores hot free)
      fun w sect stage busy => ?_
    have notOld := inv.frame_ne_of_unlatched busy unlatched
    have notFresh := inv.frame_ne_of_unlatched busy unlatched'
    refine ⟨(rearranges_migrate _ ne).frames _ notOld notFresh, ?_⟩
    simp [migrate, (inv.occupies w sect stage busy).routed, notOld]

theorem moveWorker (inv : LeafInv s) {pc : WorkerPc} (workers : s'.workers = update s.workers w pc)
    (wellFormed : s'.leaves.WellFormed) (own : ∀ sect stage, pc = .busy sect stage →
      Occupies s'.leaves sect stage) (apart : ∀ other sect stage sect' stage', other ≠ w →
      pc = .busy sect stage → s.workers other = .busy sect' stage' →
      sect'.frame ≠ sect.frame) (others : ∀ other sect stage, other ≠ w →
      s.workers other = .busy sect stage →
      s'.leaves.frames sect.frame = s.leaves.frames sect.frame ∧
        s'.leaves.route sect.key = s.leaves.route sect.key) : LeafInv s' := by
  have before : ∀ other sect stage, s'.workers other = .busy sect stage →
      (other = w ∧ pc = .busy sect stage) ∨
        (other ≠ w ∧ s.workers other = .busy sect stage) := by
    intro other sect stage busy
    rw [workers, update_apply] at busy
    split at busy
    · exact .inl ⟨‹_›, busy⟩
    · exact .inr ⟨‹_›, busy⟩
  refine ⟨wellFormed, fun other sect stage busy => ?_,
    fun other other' _ _ _ _ busy busy' sameFrame => ?_⟩
  · rcases before _ _ _ busy with ⟨-, isPc⟩ | ⟨ne, old⟩
    · exact own _ _ isPc
    · obtain ⟨frames, route⟩ := others _ _ _ ne old
      exact occupies_congr (inv.occupies _ _ _ old) frames route id
  · rcases before _ _ _ busy with ⟨rfl, isPc⟩ | ⟨ne, old⟩ <;>
      rcases before _ _ _ busy' with ⟨rfl, isPc'⟩ | ⟨different', old'⟩
    · rfl
    · exact absurd sameFrame.symm (apart _ _ _ _ _ different' isPc old')
    · exact absurd sameFrame (apart _ _ _ _ _ ne isPc' old)
    · exact inv.exclusive _ _ _ _ _ _ old old' sameFrame

theorem advanceStage (inv : LeafInv s) (a : Action)
    (pc : s.workers w = .busy sect stage) (unwritten : stage ≠ .written)
    (workers : s'.workers = update s.workers w (.busy sect stage'))
    (leaves : s'.leaves = s.leaves) : LeafStep s s' a := by
  refine ⟨inv.moveWorker workers (leaves ▸ inv.wellFormed) ?_ ?_
    fun _ _ _ _ _ => leaves ▸ ⟨rfl, rfl⟩, fun _ => leaves ▸ advances_refl _,
    .inl fun _ _ => by rw [leaves]⟩
  · rintro _ _ ⟨⟩
    exact occupies_congr (inv.occupies _ _ _ pc) (by rw [leaves]) (by rw [leaves])
      fun _ => unwritten
  · rintro other _ _ _ _ ne ⟨⟩ busy sameFrame
    exact ne (inv.exclusive _ _ _ _ _ _ busy pc sameFrame)

private theorem latched_of_bump {frame : BufferFrame}
    (unlatched : frame.isExclusivelyLatched = false) :
    { frame with version := frame.version + 1 }.isExclusivelyLatched = true := by
  simp only [BufferFrame.isExclusivelyLatched, beq_eq_false_iff_ne, beq_iff_eq] at unlatched ⊢
  omega

section

variable (inv : LeafInv s)
include inv

theorem enterSection (a : Action) {op : WorkerOp} {key : Bytes}
    (sought : Sought s.leaves op key sect)
    (workers : s'.workers = update s.workers w (.busy sect .latched))
    (leaves : s'.leaves = s.leaves.bumpVersion sect.frame 1) : LeafStep s s' a := by
  have same := s.leaves.samePages_bumpVersion sect.frame 1
  rw [← leaves] at same
  refine ⟨inv.moveWorker workers (same.wellFormed inv.wellFormed) ?_ ?_ ?_,
    fun _ => leaves ▸ advances_bumpVersion (by omega) _, .inl same.stores⟩
  · rintro _ _ ⟨⟩
    obtain ⟨s, slots, -⟩ := same.2 sect.frame
    refine ⟨?_, s.trans sought.hot, ?_, fun _ => slots.symm ▸ sought.located⟩
    · rw [leaves]
      simpa [bumpVersion, setFrame] using latched_of_bump sought.unlatched
    · rw [same.1, sought.frame_eq, sought.key_eq]
  · rintro other _ _ _ _ - ⟨⟩ busy
    exact inv.frame_ne_of_unlatched busy sought.unlatched
  · intro other _ _ _ busy
    refine ⟨?_, by rw [same.1]⟩
    rw [leaves]
    simp [bumpVersion, setFrame, inv.frame_ne_of_unlatched busy sought.unlatched]

theorem touchLeaf (a : Action) {frame : Nat}
    (unlatched : (s.leaves.frames frame).isExclusivelyLatched = false)
    (workers : s'.workers = s.workers) (leaves : s'.leaves = s.leaves.bumpVersion frame 2) :
    LeafStep s s' a := by
  have same := s.leaves.samePages_bumpVersion frame 2
  rw [← leaves] at same
  refine inv.unlatchedPages a workers (same.wellFormed inv.wellFormed)
    (fun _ => leaves ▸ advances_bumpVersion (by omega) _) same.stores
    fun w sect stage busy => ⟨?_, by rw [same.1]⟩
  rw [leaves]
  simp [bumpVersion, setFrame, inv.frame_ne_of_unlatched busy unlatched]

theorem leaveSection (a : Action) (pc : s.workers w = .busy sect stage)
    (workers : s'.workers = update s.workers w .idle)
    (leaves : s'.leaves = s.leaves.bumpVersion sect.frame 1) : LeafStep s s' a := by
  have same := s.leaves.samePages_bumpVersion sect.frame 1
  rw [← leaves] at same
  refine ⟨inv.moveWorker workers (same.wellFormed inv.wellFormed)
    (fun _ _ isIdle => by cases isIdle) (fun _ _ _ _ _ _ isIdle => by cases isIdle) ?_,
    fun _ => leaves ▸ advances_bumpVersion (by omega) _, .inl same.stores⟩
  intro _ sect' _ ne busy
  have elsewhere : sect'.frame ≠ sect.frame := fun sameFrame =>
    ne (inv.exclusive _ _ _ _ _ _ busy pc sameFrame)
  refine ⟨?_, by rw [same.1]⟩
  rw [leaves]
  simp [bumpVersion, setFrame, elsewhere]

theorem rewrites (pc : s.workers w = .busy sect stage) (mayWrite : sect.mayWrite stage = true)
    (leaves : s'.leaves = s.leaves.rewriteSlot sect (s.tagOf w)) :
    Rewrites s s' sect (s.tagOf w) := by
  have occupies := inv.occupies w sect stage pc
  have located := occupies.located (by rintro rfl; simp [LeafSection.mayWrite] at mayWrite)
  have live : (s.leaves.frames sect.frame).state ≠ .free := by
    simp [occupies.hot]
  refine ⟨fun key tuple ne => ?_, fun tuple stores => ?_⟩
  · rw [leaves]
    exact rewriteSlot_stores_other located (inv.wellFormed.distinct sect.frame live) ne
  · rw [leaves] at stores
    exact rewriteSlot_stores_own located inv.wellFormed live occupies.routed stores

theorem writeSlot (signal : Bool) (pc : s.workers w = .busy sect stage)
    (mayWrite : sect.mayWrite stage = true)
    (workers : s'.workers = update s.workers w (.busy sect .written))
    (leaves : s'.leaves = s.leaves.rewriteSlot sect (s.tagOf w)) :
    LeafStep s s' (.worker w (.write signal)) := by
  have occupies := inv.occupies w sect stage pc
  have located := occupies.located (by rintro rfl; simp [LeafSection.mayWrite] at mayWrite)
  have live : (s.leaves.frames sect.frame).state ≠ .free := by
    simp [occupies.hot]
  have elsewhere : ∀ other sect' stage', other ≠ w →
      s.workers other = .busy sect' stage' →
      sect'.frame ≠ sect.frame :=
    fun other sect' stage' ne busy sameFrame => ne (inv.exclusive _ _ _ _ _ _ busy pc sameFrame)
  refine ⟨inv.moveWorker workers (leaves ▸ rewriteSlot_wellFormed located inv.wellFormed live
      occupies.routed) ?_ ?_ ?_,
    fun _ => leaves ▸ advances_rewriteSlot _ occupies.latched,
    .inr ⟨w, signal, sect, stage, rfl, pc, mayWrite, inv.rewrites pc mayWrite leaves⟩⟩
  · rintro _ _ ⟨⟩
    refine ⟨?_, ?_, leaves ▸ occupies.routed, fun unwritten => absurd rfl unwritten⟩
    · rw [leaves, frames_rewriteSlot_own]
      exact occupies.latched
    · rw [leaves, frames_rewriteSlot_own]
      exact occupies.hot
  · rintro other _ _ _ _ ne ⟨⟩ busy
    exact elsewhere _ _ _ ne busy
  · intro other sect' stage' ne busy
    rw [leaves]
    exact ⟨frames_rewriteSlot_other (elsewhere _ _ _ ne busy), rfl⟩

theorem workerStep {a : WorkerAction} (taken : WorkerStep cfg s w a s') :
    LeafStep s s' (.worker w a) := by
  cases taken with
  | startTX | commitTX | abortTX | abortDone | lookupHit | lookupMiss =>
    exact inv.sameLeaves _ rfl rfl
  | latch pc forward found | undoNext pc next active aborting found =>
    exact inv.enterSection _ (seek_spec found) rfl rfl
  | touch pc unlatched => exact inv.touchLeaf _ unlatched rfl rfl
  | enterEpoch pc | selectNone pc | select pc | loadType pc | loadOther pc | casType pc
  | casFails pc | readEpoch pc | push pc | leaveEpoch pc =>
    exact inv.advanceStage _ pc (by simp) rfl rfl
  | write pc mayWrite => exact inv.writeSlot _ pc mayWrite rfl rfl
  | unlatch pc => exact inv.leaveSection _ pc rfl rfl

theorem step {a : Action} (taken : RecordCache.step cfg s a = some s') : LeafStep s s' a := by
  cases step_cases taken with
  | worker stepped => exact inv.workerStep stepped
  | promote stepped | forward stepped | sieve stepped | rescue stepped =>
    cases stepped <;> exact inv.sameLeaves _ rfl rfl
  | page stepped => exact inv.pageStep stepped

end

theorem stores_old {old : ChainedTuple} (leaf : LeafInv s) (busy : s.workers w = .busy sect stage)
    (atSlot : (s.leaves.frames sect.frame).slots[sect.slot]? =
      some ⟨sect.key, old⟩) : s.leaves.Stores sect.key old := by
  have hot := (leaf.occupies w sect stage busy).hot
  exact ⟨sect.frame, by simp [hot], mem_of_getElem? atSlot⟩

theorem write_of_step {signal : Bool} (inv : LeafInv s) (busy : s.workers w = .busy sect stage)
    (taken : RecordCache.step cfg s (.worker w (.write signal)) = some s') :
    sect.mayWrite stage = true ∧
      Rewrites s s' sect (s.tagOf w) ∧
      s'.transactions = update s.transactions w
        { s.transactions w with
          wal := sect.logged
            (s.leaves.frames sect.frame).slots[sect.slot]?
            (s.transactions w).wal } := by
  simp only [RecordCache.step] at taken
  split at taken
  · cases workerStep_cases taken with
    | write pc mayWrite =>
      cases busy.symm.trans pc
      exact ⟨mayWrite, inv.rewrites pc mayWrite rfl, rfl⟩
  · simp at taken

end LeafInv

theorem section_of_step {cfg : Config} {s s' : State} {a : Action}
    (taken : RecordCache.step cfg s a = some s') {w : Nat}
    {sect : LeafSection} {stage : WorkerStage} (busy : s'.workers w = .busy sect stage) :
    (∃ stage₀, s.workers w = .busy sect stage₀ ∧ (stage = .latched → stage₀ = .latched)) ∨
      (stage = .latched ∧ (s.transactions w).active = true ∧
        ((∃ op key position, a = .worker w (.latch op key position) ∧
            (∀ e, op ≠ .undo e) ∧ Sought s.leaves op key sect ∧
            (s.transactions w).aborting = false) ∨ (∃ e rest, a = .worker w .undoNext ∧
            (s.transactions w).wal = e :: rest ∧ Sought s.leaves (.undo e) e.key sect ∧
            (s.transactions w).aborting = true))) := by
  rcases workers_of_step taken w with ⟨own, rfl, stepped⟩ | same
  · cases stepped with
    | @latch op key position sect' pc forward found active running =>
      simp only [setWorker, update_self] at busy
      obtain ⟨rfl, rfl⟩ := busy
      exact .inr ⟨rfl, active, .inl ⟨op, key, position, rfl, forward, seek_spec found, running⟩⟩
    | @undoNext e rest sect' pc next active aborting found =>
      simp only [setWorker, update_self] at busy
      obtain ⟨rfl, rfl⟩ := busy
      exact .inr ⟨rfl, active, .inr ⟨e, rest, rfl, next, seek_spec found, aborting⟩⟩
    | startTX | touch | commitTX | abortTX | abortDone | lookupHit | lookupMiss =>
      exact .inl ⟨stage, busy, id⟩
    | unlatch => simp at busy
    | _ =>
      rename s.workers w = _ => pc
      simp only [setWorker, setTransaction, update_self, WorkerPc.busy.injEq] at busy
      exact .inl ⟨_, busy.1 ▸ pc, by simp [← busy.2]⟩
  · exact .inl ⟨stage, same ▸ busy, id⟩

theorem Initial.leafInv {s : State} (initial : Initial s) : LeafInv s where
  wellFormed := initial.leaves
  occupies w sect stage busy := by
    simp [initial.workers] at busy
  exclusive w _ sect _ stage _ busy := by
    simp [initial.workers] at busy

end TieredStore.RecordCache
