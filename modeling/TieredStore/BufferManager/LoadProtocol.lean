import TieredStore.BufferManager.Migration

/-!
The reads of one page from one eviction to the next.  A provider evicts only what has no
entry in `io_ht`, so the readers of an entry are done with it when the next one starts.
-/

namespace TieredStore.BufferManager

open Op State

open Function (update update_self update_of_ne)

variable {Data : Type} {cfg config : Config Data} {s s' state : State Data} {pid : Pid}
  {bf : FrameId} {t : ThreadId} {e : EntryId}

/-- Every eviction has seen that `io_ht` has no entry for the page, and no version comes back
by a cleared latch. -/
def LooksUp (s : State Data) (a : Action Data) : Prop :=
  EvictsUnread s a ∧ ClearsFresh s a

/-- The step leaves the page where it is: only `resolveSwip` may swizzle it in, and a
provider may cool it. -/
def Stays (cfg : Config Data) (pid : Pid) (s : State Data) : Action Data → Prop
  | .resolve _ => True
  | a => ∀ s', step cfg s a = some s' →
    s'.swips pid = s.swips pid ∨
      ∃ bf, s.swips pid = some (.hot bf) ∧ s'.swips pid = some (.cool bf)

/-- A step between two evictions of the page. -/
def Between (cfg : Config Data) (pid : Pid) (s : State Data) (a : Action Data) :
    Prop :=
  LooksUp s a ∧ Stays cfg pid s a

def Op.reads (pid : Pid) : Op → Bool
  | .loading .reading loaded _ _ => loaded = pid
  | _ => false

def State.reads (state : State Data) (pid : Pid) : Action Data → Bool
  | .resolve (.readPage thread) => (state.threads thread).reads pid
  | _ => false

def readsAlong (config : Config Data) (pid : Pid) : State Data → List (Action Data) → Nat
  | _, [] => 0
  | state, action :: rest =>
    (state.reads pid action).toNat +
      match step config state action with
      | none => 0
      | some state' => readsAlong config pid state' rest

/-- The frame that a call for the page returns with this step.  A call that finds the swip
hot returns its frame and takes no step. -/
def State.returned (state : State Data) (pid : Pid) : Action Data → Option FrameId
  | .resolve (.warm _ warmed) =>
    match state.swips warmed with
    | some (.cool bf) => if warmed = pid then some bf else none
    | _ => none
  | .resolve (.swizzle thread _) =>
    match state.threads thread with
    | .loading .installing loaded _ bf => if loaded = pid then some bf else none
    | _ => none
  | .resolve (.takeReady _ ready) =>
    if ready = pid then (state.ioTable ready).bind fun entry => (state.entries entry).bf
    else none
  | _ => none

def State.Serves (s : State Data) (pid : Pid) (bf : FrameId) : Prop :=
  s.swips pid = some (.hot bf) ∨ s.swips pid = some (.cool bf)

/-- No read of the page is to come before it is evicted again. -/
structure State.Done (s : State Data) (pid : Pid) : Prop where
  noneReads : ∀ t, (s.threads t).reads pid = false
  noMiss : s.Evicted pid → s.ioTable pid ≠ none

theorem State.Serves.not_evicted (serves : s.Serves pid bf) : ¬ s.Evicted pid := by
  intro evicted
  rcases serves with isHot | isCool
  · cases evicted.symm.trans isHot
  · cases evicted.symm.trans isCool

theorem State.Serves.congr (serves : s.Serves pid bf) (same : s'.swips pid = s.swips pid) :
    s'.Serves pid bf := by
  rw [Serves, same]
  exact serves

theorem State.Serves.unique {bf' : FrameId} (serves : s.Serves pid bf)
    (serves' : s.Serves pid bf') : bf' = bf := by
  rcases serves with isSwip | isSwip <;> rcases serves' with isSwip' | isSwip' <;>
    cases isSwip.symm.trans isSwip' <;> rfl

theorem EntryInv.not_evicted_of_leaver {parts : ThreadId → Option IoPart} {isEvicted : Prop}
    {ioFrame : IOFrame} (inv : EntryInv parts isEvicted ioFrame)
    (isLeaver : parts t = some .leaver) : ¬ isEvicted := by
  obtain ⟨_, -, pending, -⟩ := inv
  exact fun evicted => (pending evicted).noneLeaves t isLeaver

theorem State.evicted_of_swizzled {swizzled : Pid}
    (swips : s'.swips = update s.swips swizzled (some (.hot bf))) (evicted : s'.Evicted pid) :
    pid ≠ swizzled ∧ s.Evicted pid := by
  have other : pid ≠ swizzled := by
    rintro rfl
    exact not_evicted_setSwip swips evicted
  exact ⟨other, (evicted_setSwip swips pid other).mp evicted⟩

theorem ResolveStep.entry_kept (io : s.IoInv) {a : ResolveAction}
    (taken : ResolveStep cfg s a s') (evicted : s'.Evicted pid) :
    s.Evicted pid ∧ (s.ioTable pid ≠ none → s'.ioTable pid = s.ioTable pid) := by
  cases taken with
  | warm | swizzle | takeReady => exact ⟨(evicted_of_swizzled rfl evicted).2, fun _ => rfl⟩
  | swizzleLast | takeReadyLast =>
    obtain ⟨other, evicted⟩ := evicted_of_swizzled rfl evicted
    exact ⟨evicted, fun _ => update_of_ne other _ _⟩
  | miss _ isEvicted absent =>
    refine ⟨evicted, fun present => update_of_ne ?_ _ _⟩
    rintro rfl
    exact present absent
  | @leaveLast t _ e isLeaving =>
    refine ⟨evicted, fun _ => update_of_ne ?_ _ _⟩
    rintro rfl
    obtain ⟨present, -, isLeaver⟩ := io.partOf isLeaving (if_pos ⟨rfl, rfl⟩)
    exact (io.entry pid e present).not_evicted_of_leaver isLeaver evicted
  | @dropDeleted dropped e present isEvicted isDeleted =>
    exact absurd isDeleted ((io.entry dropped e present).not_toDelete isEvicted)
  | _ => exact ⟨evicted, fun _ => rfl⟩

theorem ResolveStep.serves {a : ResolveAction} (taken : ResolveStep cfg s a s')
    (serves : s.Serves pid bf) : s'.Serves pid bf := by
  have swizzled : ∀ {other new}, s'.swips = update s.swips other (some (.hot new)) →
      s.Evicted other → s'.Serves pid bf := by
    intro other new swips evicted
    have ne : pid ≠ other := fun same => serves.not_evicted (same ▸ evicted)
    exact serves.congr (by rw [swips, update_of_ne ne])
  cases taken with
  | @warm _ warmed new isCool =>
    by_cases same : pid = warmed
    · subst same
      obtain rfl := serves.unique (.inr isCool)
      exact .inl (update_self _ _ _)
    · exact serves.congr (update_of_ne same _ _)
  | swizzleLast isInstalling isEvicted | swizzle isInstalling isEvicted =>
    exact swizzled rfl isEvicted
  | takeReadyLast present hasFrame isEvicted | takeReady present hasFrame isEvicted =>
    exact swizzled rfl isEvicted
  | _ => exact serves

theorem ResolveStep.returned {a : ResolveAction} (taken : ResolveStep cfg s a s')
    (returns : s.returned pid (.resolve a) = some bf) :
    s'.swips pid = some (.hot bf) ∧ (s.Evicted pid ∨ s.Serves pid bf) := by
  cases taken with
  | warm isCool =>
    simp only [returned, isCool, Option.ite_none_right_eq_some, Option.some.injEq] at returns
    obtain ⟨rfl, rfl⟩ := returns
    exact ⟨update_self _ _ _, .inr (.inr isCool)⟩
  | swizzleLast isInstalling isEvicted | swizzle isInstalling isEvicted =>
    simp only [returned, isInstalling, Option.ite_none_right_eq_some, Option.some.injEq] at returns
    obtain ⟨rfl, rfl⟩ := returns
    exact ⟨update_self _ _ _, .inl isEvicted⟩
  | takeReadyLast present hasFrame isEvicted | takeReady present hasFrame isEvicted =>
    simp only [returned, present, Option.bind_some, hasFrame,
      Option.ite_none_right_eq_some, Option.some.injEq] at returns
    obtain ⟨rfl, rfl⟩ := returns
    exact ⟨update_self _ _ _, .inl isEvicted⟩
  | _ => simp [returned] at returns

theorem Step.returned {a : Action Data} (taken : Step cfg s a s')
    (returns : s.returned pid a = some bf) :
    s'.swips pid = some (.hot bf) ∧ (s.Evicted pid ∨ s.Serves pid bf) := by
  cases taken with
  | resolve taken => exact taken.returned returns
  | provide | page => simp [State.returned] at returns

def State.Gone (s : State Data) (e : EntryId) : Prop :=
  e < s.nextEntry ∧ ∀ pid, s.ioTable pid ≠ some e

theorem Step.sameTable {a : Action Data} (taken : Step cfg s a s')
    (other : ∀ action, a ≠ .resolve action) :
    s'.ioTable = s.ioTable ∧ s'.nextEntry = s.nextEntry := by
  cases taken with
  | resolve => exact absurd rfl (other _)
  | provide taken | page taken => exact ⟨taken.sameTable.1, taken.sameTable.2.2⟩

theorem Step.table {a : Action Data} (taken : Step cfg s a s') : s.nextEntry ≤ s'.nextEntry ∧
      ∀ pid, s'.ioTable pid = s.ioTable pid ∨ s'.ioTable pid = none ∨
        s'.ioTable pid = some s.nextEntry := by
  have updated : ∀ {changed entry}, s'.ioTable = update s.ioTable changed entry →
      entry = none ∨ entry = some s.nextEntry → ∀ pid, s'.ioTable pid = s.ioTable pid ∨
        s'.ioTable pid = none ∨ s'.ioTable pid = some s.nextEntry := by
    intro changed entry table isEntry pid
    rw [table]
    by_cases same : pid = changed
    · rw [same, update_self]
      exact .inr isEntry
    · exact .inl (update_of_ne same _ _)
  by_cases other : ∀ action, a ≠ .resolve action
  · obtain ⟨table, next⟩ := taken.sameTable other
    exact ⟨next.ge, fun _ => .inl (by rw [table])⟩
  cases taken with
  | resolve taken =>
    cases taken with
    | miss => exact ⟨Nat.le_succ _, updated rfl (.inr rfl)⟩
    | swizzleLast | leaveLast | takeReadyLast | dropDeleted =>
      exact ⟨le_refl _, updated rfl (.inl rfl)⟩
    | _ => exact ⟨le_refl _, fun _ => .inl rfl⟩
  | provide | page => simp at other

theorem State.Gone.step {a : Action Data} (gone : s.Gone e) (taken : Step cfg s a s') :
    s'.Gone e := by
  obtain ⟨later, table⟩ := taken.table
  refine ⟨gone.1.trans_le later, fun pid => ?_⟩
  rcases table pid with same | absent | new
  · rw [same]
    exact gone.2 pid
  · simp [absent]
  · rw [new]
    exact fun same => gone.1.ne' (Option.some.inj same)

theorem State.IoInv.gone {a : Action Data} (io : s.IoInv) (taken : Step cfg s a s')
    (present : s.ioTable pid = some e) (removed : s'.ioTable pid ≠ some e) : s'.Gone e := by
  obtain ⟨later, table⟩ := taken.table
  have old := io.fresh pid e present
  refine ⟨old.trans_le later, fun other isEntry => ?_⟩
  rcases table other with same | absent | new
  · rw [same] at isEntry
    obtain rfl := io.distinct other pid e isEntry present
    exact removed (same.trans isEntry)
  · simp [absent] at isEntry
  · exact old.ne (Option.some.inj (isEntry.symm.trans new))

theorem State.reads_setOp {op : Op} (threads : s'.threads = update s.threads t op)
    (idle : op.reads pid = false) (none : ∀ thread, (s.threads thread).reads pid = false)
    (thread : ThreadId) : (s'.threads thread).reads pid = false := by
  rw [threads]
  by_cases same : thread = t
  · rw [same, update_self]
    exact idle
  · rw [update_of_ne same]
    exact none thread

theorem Op.loading_of_reads {op : Op} (reads : op.reads pid = true) :
    ∃ entry bf, op = .loading .reading pid entry bf := by
  unfold Op.reads at reads
  split at reads
  · next loaded entry bf => exact ⟨entry, bf, by rw [of_decide_eq_true reads]⟩
  · cases reads

theorem ResolveStep.noneReads {a : ResolveAction} (taken : ResolveStep cfg s a s')
    (done : s.Done pid) : ∀ thread, (s'.threads thread).reads pid = false := by
  have others := done.noneReads
  cases taken with
  | @miss t _ _ _ _ _ isEvicted absent =>
    refine reads_setOp rfl (decide_eq_false ?_) others
    rintro rfl
    exact done.noMiss isEvicted absent
  | warm | takeReadyLast | takeReady | dropDeleted => exact others
  | _ => exact reads_setOp rfl rfl others

theorem Step.noneReads {a : Action Data} (taken : Step cfg s a s')
    (other : ∀ action, a ≠ .resolve action)
    (others : ∀ thread, (s.threads thread).reads pid = false) (thread : ThreadId) :
    (s'.threads thread).reads pid = false := by
  cases taken with
  | resolve => exact absurd rfl (other _)
  | provide taken =>
    cases taken <;> first | exact others thread | exact reads_setOp rfl rfl others thread
  | page taken =>
    cases taken with
    | initNewPage _ _ issues => cases issues <;> exact reads_setOp rfl rfl others thread
    | _ => first | exact others thread | exact reads_setOp rfl rfl others thread

theorem Stays.swip {a : Action Data} (stays : Stays cfg pid s a) (taken : step cfg s a = some s')
    (other : ∀ action, a ≠ .resolve action) : s'.swips pid = s.swips pid ∨
      ∃ bf, s.swips pid = some (.hot bf) ∧ s'.swips pid = some (.cool bf) := by
  cases a with
  | resolve action => exact absurd rfl (other action)
  | provide | page => exact stays _ taken

theorem State.Serves.step {a : Action Data} (serves : s.Serves pid bf)
    (stays : Stays cfg pid s a) (taken : step cfg s a = some s') : s'.Serves pid bf := by
  cases a with
  | resolve action => exact (action.step_sound taken).serves serves
  | provide | page =>
    rcases stays.swip taken (by simp) with same | ⟨_, isHot, isCool⟩
    · exact serves.congr same
    · obtain rfl := serves.unique (.inl isHot)
      exact .inr isCool

theorem Stays.evicted {a : Action Data} (stays : Stays cfg pid s a)
    (taken : step cfg s a = some s') (other : ∀ action, a ≠ .resolve action)
    (evicted : s'.Evicted pid) : s.Evicted pid := by
  rcases stays.swip taken other with same | ⟨_, -, isCool⟩
  · exact same.symm.trans evicted
  · cases evicted.symm.trans isCool

theorem State.Done.step {a : Action Data} (done : s.Done pid) (io : s.IoInv)
    (stays : Stays cfg pid s a) (taken : BufferManager.step cfg s a = some s') : s'.Done pid := by
  by_cases other : ∀ action, a ≠ .resolve action
  · refine ⟨(step_sound taken).noneReads other done.noneReads, fun evicted => ?_⟩
    rw [((step_sound taken).sameTable other).1]
    exact done.noMiss (stays.evicted taken other evicted)
  cases step_sound taken with
  | resolve resolved =>
    refine ⟨resolved.noneReads done, fun evicted => ?_⟩
    obtain ⟨before, kept⟩ := resolved.entry_kept io evicted
    have present := done.noMiss before
    rwa [kept present]
  | provide | page => simp at other

/-- The loader of an entry is alone, so its read is the last one. -/
theorem State.IoInv.read_done {a : Action Data} (io : s.IoInv) (reads : s.reads pid a = true)
    (taken : Step cfg s a s') : s'.Done pid := by
  cases taken with
  | provide | page => simp [State.reads] at reads
  | resolve taken =>
    cases taken with
    | @readPage t loaded e bf isReading =>
      obtain rfl : loaded = pid := by simpa [State.reads, isReading, Op.reads] using reads
      obtain ⟨present, -, isLoader⟩ := io.partOf isReading (if_pos ⟨rfl, rfl⟩)
      refine ⟨fun thread => ?_, fun _ => by simp [setOp, setFrame, present]⟩
      by_cases same : thread = t
      · simp [setOp, same, Op.reads]
      · simp only [setOp, update_of_ne same]
        by_contra readsToo
        obtain ⟨e', _, isReadingToo⟩ := loading_of_reads (Bool.not_eq_false _ ▸ readsToo)
        obtain ⟨presentToo, -, isLoaderToo⟩ := io.partOf isReadingToo (if_pos ⟨rfl, rfl⟩)
        obtain rfl := Option.some.inj (present.symm.trans presentToo)
        exact same ((io.entry loaded e present).loader_unique isLoader isLoaderToo)
    | _ => simp [State.reads] at reads

theorem State.Done.not_reads {a : Action Data} (done : s.Done pid) : s.reads pid a = false := by
  unfold reads
  split
  · exact done.noneReads _
  · rfl

open Transition (Reachable AllowedAlong run run_keeps)

theorem io_of_reachable (reached : Reachable (step cfg) (Initial cfg) LooksUp s) : s.IoInv := by
  have inv : Inv cfg s := by
    refine reached.invariant (Inv cfg) (fun _ initial => initial.inv) ?_
    intro s a s' inv looksUp taken
    exact inv.step looksUp.1 looksUp.2.unguarded (step_sound taken)
  exact inv.io

section Runs

variable {actions : List (Action Data)}

theorem readsAlong_of_done (reached : Reachable (step cfg) (Initial cfg) LooksUp s)
    (allowed : AllowedAlong (step cfg) (Between cfg pid) s actions) (done : s.Done pid) :
    readsAlong cfg pid s actions = 0 := by
  induction actions generalizing s with
  | nil => rfl
  | cons a _ ih =>
    obtain ⟨between, allowed⟩ := allowed
    rw [readsAlong, done.not_reads]
    cases taken : step cfg s a with
    | none => rfl
    | some s' =>
      rw [taken] at allowed
      have later := done.step (io_of_reachable reached) between.2 taken
      simp [ih (reached.take taken between.1) allowed later]

theorem readsAlong_le_one (reached : Reachable (step cfg) (Initial cfg) LooksUp s)
    (allowed : AllowedAlong (step cfg) (Between cfg pid) s actions) :
    readsAlong cfg pid s actions ≤ 1 := by
  induction actions generalizing s with
  | nil => exact Nat.zero_le 1
  | cons a _ ih =>
    obtain ⟨between, allowed⟩ := allowed
    rw [readsAlong]
    cases taken : step cfg s a with
    | none => exact Bool.toNat_le _
    | some s' =>
      rw [taken] at allowed
      have reached' := reached.take taken between.1
      cases reads : s.reads pid a with
      | false => simpa using ih reached' allowed
      | true =>
        have done := (io_of_reachable reached).read_done reads (step_sound taken)
        simp [readsAlong_of_done reached' allowed done]

end Runs

/-- Until its next eviction a page is read at most once, and every call gets the frame that
the swip has from the first return on.  An entry that was removed never comes back, and who
works on an entry finds it in the table. -/
theorem page_loaded_once (reached : Reachable (step config) (Initial config) LooksUp state)
    (pid : Pid) :
    (∀ actions, AllowedAlong (step config) (Between config pid) state actions →
      readsAlong config pid state actions ≤ 1) ∧
    (∀ action bf state', state.returned pid action = some bf →
      step config state action = some state' →
      state'.swips pid = some (.hot bf) ∧
      ∀ actions state'', AllowedAlong (step config) (Between config pid) state' actions →
        run (step config) state' actions = some state'' →
        state''.Serves pid bf ∧
        ∀ action' bf', state''.returned pid action' = some bf' →
          step config state'' action' ≠ none → bf' = bf) ∧
    (∀ action entry state', state.ioTable pid = some entry →
      step config state action = some state' → state'.ioTable pid ≠ some entry →
      ∀ actions state'', run (step config) state' actions = some state'' →
        ∀ other, state''.ioTable other ≠ some entry) ∧
    ∀ thread entry, (state.threads thread).part pid entry ≠ none →
      state.ioTable pid = some entry := by
  have io := io_of_reachable reached
  refine ⟨fun actions => readsAlong_le_one reached, ?_, ?_, fun thread entry => ?_⟩
  · intro action bf state' returns taken
    obtain ⟨isHot, -⟩ := (step_sound taken).returned returns
    refine ⟨isHot, fun actions state'' allowed ran => ?_⟩
    have serves := allowed.keeps (fun s => s.Serves pid bf)
      (fun _ _ _ serves between taken => serves.step between.2 taken) (.inl isHot) ran
    refine ⟨serves, fun action' bf' returns' isTaken => ?_⟩
    obtain ⟨after, taken'⟩ := Option.ne_none_iff_exists'.mp isTaken
    rcases ((step_sound taken').returned returns').2 with evicted | serves'
    · exact absurd evicted serves.not_evicted
    · exact serves.unique serves'
  · intro action entry state' present taken removed actions state'' ran
    exact (run_keeps (Gone · entry) (fun _ _ _ gone taken => gone.step (step_sound taken))
      (io.gone (step_sound taken) present removed) ran).2
  · exact io.used pid entry thread

def writtenRun : List (Action Nat) :=
  rootRun ++ [.provide (.cool 0 1), .provide (.check 8 .demote ⟨.dram, 0⟩),
    .provide (.popTarget 8 0), .provide (.demote 8 0), .provide (.cool 0 1),
    .provide (.check 1 .write ⟨.cxl, 2⟩), .provide (.submit 1),
    .provide (.finishWrite ⟨.cxl, 2⟩), .provide (.writtenBack 1 ⟨.cxl, 2⟩)]

def evictionRun : List (Action Nat) :=
  writtenRun ++ [.provide (.check 2 .evict ⟨.cxl, 2⟩), .provide (.evict 2 0),
    .provide (.pushBatch 2 .cxl 0)]

/-- The reader finds its parent changed and publishes the frame, which the one that waited
takes with its second call. -/
def publishRun : List (Action Nat) :=
  [.resolve (.miss 3 1 0), .resolve (.wait 4 1), .resolve (.readPage 3), .resolve (.keep 3 0),
    .resolve (.publish 3), .resolve (.wake 4), .resolve (.takeReady 0 1)]

theorem page_loaded_once_published : ∃ state state',
    Reachable (step smallConfig) (Initial smallConfig) LooksUp state ∧
      state.swips 1 = some .evicted ∧ run (step smallConfig) state publishRun = some state' ∧
      state'.swips 1 = some (.hot ⟨.cxl, 2⟩) ∧ state'.ioTable 1 = none ∧
      readsAlong smallConfig 1 state publishRun ≤ 1 := by
  obtain ⟨state, ran, isEvicted, state', published, isHot, removed⟩ : ∃ state,
      run (step smallConfig) smallStart evictionRun = some state ∧
      state.swips 1 = some .evicted ∧
      ∃ state', run (step smallConfig) state publishRun = some state' ∧
        state'.swips 1 = some (.hot ⟨.cxl, 2⟩) ∧ state'.ioTable 1 = none :=
    ⟨_, rfl, rfl, _, rfl, rfl, rfl⟩
  have reached : Reachable (step smallConfig) (Initial smallConfig) LooksUp state :=
    smallStart_reaches (fun _ _ isPlain =>
      ⟨evictsUnread_of_isPlain isPlain, clearsFresh_of_isPlain isPlain⟩) (by decide) ran
  refine ⟨state, state', reached, isEvicted, published, isHot, removed,
    (page_loaded_once reached 1).1 publishRun (Transition.allowedAlong_of_forall ?_ published)⟩
  simp [publishRun, Between, LooksUp, EvictsUnread, ClearsFresh, Stays]

/-- Two providers have checked the page, and one evicts it.  A new page in its frame clears the
latch and is merged away, and when the page has been read into the frame again and cooled, the
version is that of the other provider's guard.  It evicts the page although the entry of the read
is still there, so two readers take themselves for the last one. -/
def clearedLatchRun : List (Action Nat) :=
  writtenRun ++ [.provide (.check 2 .evict ⟨.cxl, 2⟩), .provide (.check 9 .evict ⟨.cxl, 2⟩),
    .provide (.evict 2 0), .provide (.pushBatch 2 .cxl 0), .page (.tryPop 0 ⟨.cxl, 0⟩),
    .page (.initNewPage 0 0), .page (.link 0 0), .page (.unlink 0 0 2), .page (.freePageID 0),
    .page (.reclaimFrame 0 0), .resolve (.miss 3 1 0), .resolve (.wait 4 1),
    .resolve (.readPage 3), .resolve (.keep 3 0), .resolve (.swizzle 3 0), .provide (.cool 0 1),
    .provide (.evict 9 0), .resolve (.wake 4), .resolve (.wait 5 1), .resolve (.wake 5),
    .resolve (.leave 5)]

theorem removed_entry_in_use : ∃ state,
    Reachable (step smallConfig) (Initial smallConfig) EvictsUnread state ∧
      (state.threads 4).part 1 0 ≠ none ∧ state.ioTable 1 ≠ some 0 := by
  obtain ⟨state, ran, inUse, removed⟩ : ∃ state,
      run (step smallConfig) smallStart clearedLatchRun = some state ∧
      (state.threads 4).part 1 0 ≠ none ∧ state.ioTable 1 ≠ some 0 :=
    ⟨_, rfl, by decide, by decide⟩
  refine ⟨state, (Reachable.start (start_initial smallConfig fun _ => 1)).run_of_forall ?_ ran,
    inUse, removed⟩
  simp [clearedLatchRun, writtenRun, rootRun, EvictsUnread]

end TieredStore.BufferManager
