import TieredStore.Lib.Ownership
import TieredStore.RecordCache.References

/-!
Who may free an entry. The right to free passes from the promotion that allocated the entry to the
SIEVE queue, from there to the SIEVE thread that takes the entry out, and to the slab rescue when
it nulls the queue.
-/

namespace TieredStore.RecordCache

open Transition Ownership Function List Memory PromotePc RescuePc SievePc State

theorem Memory.allocated_afterSearch (memory : Memory) (head : Option Addr) :
    (memory.afterSearch head).allocated = memory.allocated := by
  unfold afterSearch
  cases head with
  | none => rfl
  | some =>
    simp only
    split <;> rfl

def PromotePc.unqueued : PromotePc → List Addr
  | .preallocated _ entry => [entry]
  | .notConsumed _ entry => [entry]
  | .installed _ entry => [entry]
  | _ => []

def RescuePc.takenOver : RescuePc → List Addr
  | .marked run => run.collected
  | .unlinkEpoch run _ => run.collected
  | .polling run _ _ => run.collected
  | .freeing run => run.collected
  | _ => []

def RescuePc.WithinSlab (cfg : Config) : RescuePc → Prop
  | .scanning run _ _ => ∀ e ∈ run.collected, inSlab cfg run.slab e = true
  | _ => True

inductive Keeper
  | promoter (thread : Nat)
  | fifo
  | sieve (thread : Nat)
  | rescue
  deriving DecidableEq

def State.kept (state : State) : Keeper → List Addr
  | .promoter thread => (state.promoters thread).unqueued
  | .fifo => state.sieveFifo.entries
  | .sieve thread => (state.sieves thread).entries
  | .rescue => state.rescue.takenOver

def State.freed? (state : State) : Action → Option Addr
  | .promote thread .freePreallocated =>
    match state.promoters thread with
    | .notConsumed _ entry => some entry
    | _ => none
  | .sieve thread .freeDrained =>
    match state.sieves thread with
    | .draining victims => victims.head?
    | _ => none
  | .sieve thread .free =>
    match state.sieves thread with
    | .freeing victim _ => some victim
    | _ => none
  | .rescue .free =>
    match state.rescue with
    | .freeing run => run.collected.head?
    | _ => none
  | _ => none

/-- When the rescue nulls the SIEVE queue, what it collected still stands there:
no SIEVE thread took one of the entries out in the meantime. -/
def CollectedStillQueued (s : State) : Action → Prop
  | .rescue .mark => ∀ run shard holdsLock,
    s.rescue = .scanning run shard holdsLock →
    run.collected.Subperm s.sieveFifo.entries
  | _ => True

/-- When the rescue nulls the slab's pointers in the SIEVE queue, these are the
entries it collected, and it does not give up on the epoch.  A rescue that has collected
nothing leaves the queue alone. -/
def RescuesWholeSlab (cfg : Config) (s : State) : Action → Prop
  | .rescue .mark => ∀ run shard holdsLock,
    s.rescue = .scanning run shard holdsLock → run.collected ≠ [] →
    run.collected.Perm (s.sieveFifo.entries.filter (inSlab cfg run.slab))
  | .rescue .timeout => False
  | _ => True

variable {cfg : Config} {s s' : State} {t : Nat} {fifo : SieveFIFOQueue}

def State.keptWith (state : State) (entries : List Addr) : Option Keeper → List Addr
  | none => entries
  | some keeper => state.kept keeper

structure Handover (s s' : State) (gained freed lost : List Addr) : Prop where
  passes : ∃ involved, Passes involved (s.keptWith gained) (s'.keptWith freed) lost
  distinct : gained.Nodup
  available : ∀ e ∈ gained, s.memory.allocated e = false
  allocated : ∀ e, s'.memory.allocated e = true ↔
    e ∉ freed ∧ (e ∈ gained ∨ s.memory.allocated e = true)

namespace Handover

variable {gained freed lost : List Addr} {e : Addr}

theorem keep (kept : ∀ keeper, s'.kept keeper = s.kept keeper)
    (allocated : s'.memory.allocated = s.memory.allocated) : Handover s s' [] [] [] where
  passes := ⟨[], .unchanged fun
    | none => rfl
    | some keeper => kept keeper⟩
  distinct := nodup_nil
  available := by simp
  allocated := by simp [allocated]

theorem keepBut (keeper : Keeper) (own : s'.kept keeper = s.kept keeper)
    (fifo : s'.sieveFifo = s.sieveFifo)
    (others : ∀ other, other ≠ keeper → other ≠ .fifo → s'.kept other = s.kept other)
    (allocated : s'.memory.allocated = s.memory.allocated) : Handover s s' [] [] [] := by
  refine .keep (fun other => ?_) allocated
  by_cases isKeeper : other = keeper
  · rw [isKeeper, own]
  · by_cases isFifo : other = .fifo
    · rw [isFifo, kept, kept, fifo]
    · exact others other isKeeper isFifo

theorem move (source target : Keeper) (ne : source ≠ target)
    (moved : (s.kept source ++ s.kept target).Perm (lost ++ (s'.kept source ++ s'.kept target)))
    (others : ∀ other, other ≠ source → other ≠ target → s'.kept other = s.kept other)
    (allocated : s'.memory.allocated = s.memory.allocated) : Handover s s' [] [] lost where
  passes := by
    refine ⟨[some source, some target], by simpa using ne, ?_, ?_⟩
    · simpa [keptWith] using moved
    · rintro (_ | other) outside
      · rfl
      · simp only [mem_cons, Option.some.injEq, not_mem_nil, or_false, not_or] at outside
        exact others other outside.1 outside.2
  distinct := nodup_nil
  available := by simp
  allocated := by simp [allocated]

theorem passes_own (keeper : Keeper) (conserved : (gained ++ s.kept keeper).Perm
      (freed ++ s'.kept keeper)) (fifo : s'.kept .fifo = s.kept .fifo)
    (others : ∀ other, other ≠ keeper → other ≠ .fifo → s'.kept other = s.kept other) :
    ∃ involved, Passes involved (s.keptWith gained) (s'.keptWith freed) [] := by
  refine ⟨[none, some keeper], by simp, by simpa [keptWith] using conserved, ?_⟩
  rintro (_ | other) outside
  · simp at outside
  · simp only [mem_cons, reduceCtorEq, Option.some.injEq, not_mem_nil, or_false,
      false_or] at outside
    by_cases isFifo : other = .fifo
    · rw [isFifo]
      exact fifo
    · exact others other outside isFifo

theorem free (keeper : Keeper) (mine : s.kept keeper = e :: s'.kept keeper)
    (fifo : s'.kept .fifo = s.kept .fifo)
    (others : ∀ other, other ≠ keeper → other ≠ .fifo → s'.kept other = s.kept other)
    (allocated : s'.memory.allocated = update s.memory.allocated e false) :
    Handover s s' [] [e] [] where
  passes := passes_own keeper (by simp [mine]) fifo others
  distinct := nodup_nil
  available := by simp
  allocated token := by
    rw [allocated, update_apply]
    split <;> simp_all

theorem ownInv (handover : Handover s s' gained freed lost) (linear : Linear s.kept)
    (allocated : ∀ keeper, ∀ e ∈ s.kept keeper, s.memory.allocated e = true) : Linear s'.kept ∧
      ∀ keeper, ∀ e ∈ s'.kept keeper, s'.memory.allocated e = true := by
  have new : ∀ e ∈ gained, ∀ keeper, e ∉ s.kept keeper := by
    intro e isNew keeper mem
    simpa [handover.available e isNew] using allocated keeper e mem
  have before : Linear (s.keptWith gained) := by
    refine ⟨?_, ?_⟩
    · rintro (_ | keeper)
      · exact handover.distinct
      · exact linear.nodup keeper
    · rintro (_ | keeper) (_ | keeper') e has has'
      · rfl
      · exact absurd has' (new e has keeper')
      · exact absurd has (new e has' keeper)
      · rw [linear.unique keeper keeper' e has has']
  obtain ⟨involved, passes⟩ := handover.passes
  have after := passes.linear before
  refine ⟨⟨fun keeper => after.nodup (some keeper), fun keeper keeper' e has has' =>
    Option.some.inj (after.unique (some keeper) (some keeper') e has has')⟩, ?_⟩
  intro keeper e has
  have notFreed : e ∉ freed := fun isFreed => nomatch after.unique none (some keeper) e isFreed has
  have had : ∃ owner, e ∈ s.keptWith gained owner := by
    by_cases isInvolved : some keeper ∈ involved
    · obtain ⟨owner, -, had⟩ := passes.before isInvolved has
      exact ⟨owner, had⟩
    · exact ⟨some keeper, passes.others _ isInvolved ▸ has⟩
  refine (handover.allocated e).mpr ⟨notFreed, ?_⟩
  obtain ⟨_ | owner, had⟩ := had
  · exact .inl had
  · exact .inr (allocated owner e had)

end Handover

theorem kept_setPromoter {pc : PromotePc}
    (same : s'.kept = ({ s.setPromoter t pc with sieveFifo := fifo }).kept)
    (other : Keeper) (notThread : other ≠ .promoter t) (notFifo : other ≠ .fifo) :
    s'.kept other = s.kept other := by
  rw [same]
  cases other with
  | promoter => simp [kept, mt (congrArg Keeper.promoter) notThread]
  | fifo => exact absurd rfl notFifo
  | _ => rfl

theorem kept_setSieve {pc : SievePc}
    (same : s'.kept = ({ s.setSieve t pc with sieveFifo := fifo }).kept)
    (other : Keeper) (notThread : other ≠ .sieve t) (notFifo : other ≠ .fifo) :
    s'.kept other = s.kept other := by
  rw [same]
  cases other with
  | sieve => simp [kept, mt (congrArg Keeper.sieve) notThread]
  | fifo => exact absurd rfl notFifo
  | _ => rfl

theorem kept_rescue (promoters : ∀ t, (s'.promoters t).unqueued = (s.promoters t).unqueued)
    (sieves : s'.sieves = s.sieves) (other : Keeper)
    (notRescue : other ≠ .rescue) (notFifo : other ≠ .fifo) : s'.kept other = s.kept other := by
  cases other with
  | promoter t => exact promoters t
  | fifo => exact absurd rfl notFifo
  | sieve => simp only [kept, sieves]
  | rescue => exact absurd rfl notRescue

theorem promoteStep_handover {a : PromoteAction} (taken : PromoteStep cfg s t a s') :
    ∃ gained freed, Handover s s' gained freed [] := by
  cases taken with
  | @allocate req e pc available =>
    refine ⟨[e], [], Handover.passes_own (.promoter t) ?_ rfl
      (kept_setPromoter rfl), nodup_singleton e, by simpa using available, ?_⟩
    · simp [kept, unqueued, pc]
    · intro token
      by_cases isNew : token = e <;> simp [allocateNewEntry, isNew]
  | @freePreallocated req e pc =>
    refine ⟨[], [e], .free (.promoter t) ?_ rfl (kept_setPromoter rfl) rfl⟩
    simp [kept, unqueued, pc]
  | @insertIntoFifo req e pc =>
    refine ⟨[], [], .move (.promoter t) .fifo (by simp) ?_ (kept_setPromoter rfl) rfl⟩
    simp only [kept, setPromoter, update_self, pc,
      SieveFIFOQueue.entries_pushBack]
    exact perm_append_comm
  | _ =>
    refine ⟨[], [], .keepBut (.promoter t) ?_ rfl (kept_setPromoter rfl) rfl⟩
    simp_all [kept, unqueued]

theorem sieveStep_handover {a : SieveAction} (taken : SieveStep cfg s t a s') :
    ∃ freed, Handover s s' [] freed [] := by
  have scanned (shouldForceEvict : Addr → Bool) :=
    (SieveFIFOQueue.evictOneFromSieveFIFO_entries (tryMarkEvictable s.memory)
      shouldForceEvict s.sieveFifo fun e => (s.memory.heap e).visited).1
  cases taken with
  | drain pc =>
    refine ⟨[], .move (.sieve t) .fifo (by simp) ?_ (kept_setSieve rfl) rfl⟩
    simp only [kept, setSieve, update_self, pc]
    exact (SieveFIFOQueue.drainStateRemovedOnly_entries (isRemovedType s.memory)
      kSieveBatchLimit s.sieveFifo).1
  | freeDrained pc | freeCaseA pc | freeCaseB pc =>
    refine ⟨_, .free (.sieve t) ?_ rfl (kept_setSieve rfl) rfl⟩
    simp [kept, pc, entries]
  | @evictNone shouldForceEvict pc missed =>
    have scanned := scanned shouldForceEvict
    refine ⟨[], .move (.sieve t) .fifo (by simp) ?_ (kept_setSieve rfl) rfl⟩
    simp only [missed, Option.toList_none] at scanned
    simpa only [kept, setSieve, update_self, entries, pc, nil_append] using scanned
  | @evict shouldForceEvict _ pc found =>
    have scanned := scanned shouldForceEvict
    refine ⟨[], .move (.sieve t) .fifo (by simp) ?_ (kept_setSieve rfl) rfl⟩
    simp only [found, Option.toList_some] at scanned
    simpa only [kept, setSieve, update_self, entries, pc, nil_append] using scanned
  | reinsert pc =>
    refine ⟨[], .move (.sieve t) .fifo (by simp) ?_ (kept_setSieve rfl) rfl⟩
    simp only [kept, setSieve, update_self, pc,
      SieveFIFOQueue.entries_pushBack]
    exact perm_append_comm
  | _ =>
    refine ⟨[], .keepBut (.sieve t) ?_ rfl (kept_setSieve rfl) rfl⟩
    simp_all [kept, entries]

theorem perm_takeOver {collected entries : List Addr} {inSlab : Addr → Bool}
    (queued : collected.Subperm entries) (within : ∀ e ∈ collected, inSlab e = true) :
    ∃ lost, entries.Perm (lost ++ (collected ++ entries.filter fun e => !inSlab e)) := by
  have kept : collected.Subperm (entries.filter inSlab) := by
    have filtered := queued.filter inSlab
    rwa [filter_eq_self.mpr within] at filtered
  obtain ⟨_, perm, sublist⟩ := kept
  obtain ⟨lost, whole⟩ := sublist.exists_perm_append
  refine ⟨lost, (filter_append_perm inSlab entries).symm.trans ?_⟩
  rw [← append_assoc]
  exact ((whole.trans (perm.append_right lost)).trans perm_append_comm).append_right _

theorem rescueStep_handover {a : RescueAction} (withinSlab : s.rescue.WithinSlab cfg)
    (queued : CollectedStillQueued s (.rescue a)) (taken : RescueStep cfg s a s') :
    ∃ freed lost, Handover s s' [] freed lost ∧
      (RescuesWholeSlab cfg s (.rescue a) → lost = []) := by
  have keeps {s' : State}
      (promoters : ∀ t, (s'.promoters t).unqueued = (s.promoters t).unqueued)
      (sieves : s'.sieves = s.sieves) (fifo : s'.sieveFifo = s.sieveFifo)
      (takenOver : s'.rescue.takenOver = s.rescue.takenOver)
      (allocated : s'.memory.allocated = s.memory.allocated) :
      Handover s s' [] [] [] :=
    .keepBut .rescue takenOver fifo (kept_rescue promoters sieves) allocated
  cases taken with
  | @begin promoter slab req idle pc =>
    refine ⟨[], [], keeps (fun t => ?_) rfl rfl (by simp [takenOver, idle]) rfl,
      fun _ => rfl⟩
    by_cases same : t = promoter
    · subst same
      simp [unqueued, pc]
    · simp [same]
  | @mark run shard pc all some =>
    rw [pc] at withinSlab
    obtain ⟨lost, perm⟩ := perm_takeOver (queued run shard false pc) withinSlab
    refine ⟨[], lost, .move .rescue .fifo (by simp) ?_ (kept_rescue (fun _ => rfl) rfl) rfl,
      fun whole => ?_⟩
    · simpa only [kept, takenOver, pc, nil_append,
        SieveFIFOQueue.entries_markSlabEntriesAsNull] using perm
    · have slab := (whole run shard false pc some).length_eq
      have all := (filter_append_perm (inSlab cfg run.slab) s.sieveFifo.entries).length_eq
      have parts := perm.length_eq
      simp only [length_append] at all parts
      exact eq_nil_of_length_eq_zero (by omega)
  | @timeout run epoch w pc =>
    refine ⟨[], run.collected, .move .rescue .fifo (by simp) ?_
      (kept_rescue (fun _ => rfl) rfl) rfl, fun whole => whole.elim⟩
    simp [kept, pc, takenOver]
  | @free run e rest pc next =>
    refine ⟨[e], [], .free .rescue ?_ rfl (kept_rescue (fun _ => rfl) rfl) rfl, fun _ => rfl⟩
    simp [kept, takenOver, pc, next]
  | @finish run req pc done caller =>
    refine ⟨[], [], keeps (fun t => ?_) rfl rfl (by simp [takenOver, pc, done])
      rfl, fun _ => rfl⟩
    by_cases same : t = run.promoter
    · subst same
      simp [unqueued, caller]
    · simp [same]
  | _ =>
    exact ⟨[], [], keeps (fun _ => rfl) rfl rfl (by simp_all [takenOver]) rfl,
      fun _ => rfl⟩

variable {a : Action} {e entry : Addr}

theorem handover_of_step (withinSlab : s.rescue.WithinSlab cfg)
    (queued : CollectedStillQueued s a) (taken : step cfg s a = some s') :
    ∃ gained freed lost, Handover s s' gained freed lost ∧
      (RescuesWholeSlab cfg s a → lost = []) := by
  cases step_cases taken with
  | worker stepped =>
    cases stepped with
    | selectNone | select =>
      exact ⟨[], [], [], .keep (fun _ => rfl) (allocated_afterSearch ..), fun _ => rfl⟩
    | _ => exact ⟨[], [], [], .keep (fun _ => rfl) rfl, fun _ => rfl⟩
  | promote stepped =>
    obtain ⟨gained, freed, handover⟩ := promoteStep_handover stepped
    exact ⟨gained, freed, [], handover, fun _ => rfl⟩
  | forward stepped | page stepped =>
    refine ⟨[], [], [], ?_, fun _ => rfl⟩
    cases stepped <;> exact .keep (fun _ => rfl) rfl
  | sieve stepped =>
    obtain ⟨freed, handover⟩ := sieveStep_handover stepped
    exact ⟨[], freed, [], handover, fun _ => rfl⟩
  | rescue stepped => exact ⟨[], rescueStep_handover withinSlab queued stepped⟩

theorem withinSlab_of_step (withinSlab : s.rescue.WithinSlab cfg)
    (taken : step cfg s a = some s') : s'.rescue.WithinSlab cfg := by
  rcases rescue_of_step taken with ⟨_, rfl, stepped⟩ | same
  · cases stepped with
    | @collect _ _ _ e _ pc _ _ _ inside =>
      rw [pc] at withinSlab
      exact forall_mem_append.mpr ⟨withinSlab, forall_mem_singleton.mpr inside⟩
    | _ => simp_all [WithinSlab]
  · rwa [same]

structure OwnInv (cfg : Config) (s : State) : Prop where
  linear : Linear s.kept
  allocated : ∀ keeper, ∀ e ∈ s.kept keeper, s.memory.allocated e = true
  withinSlab : s.rescue.WithinSlab cfg

theorem OwnInv.step (inv : OwnInv cfg s) (queued : CollectedStillQueued s a)
    (taken : RecordCache.step cfg s a = some s') : OwnInv cfg s' := by
  obtain ⟨_, _, _, handover, -⟩ := handover_of_step inv.withinSlab queued taken
  obtain ⟨linear, allocated⟩ := handover.ownInv inv.linear inv.allocated
  exact ⟨linear, allocated, withinSlab_of_step inv.withinSlab taken⟩

theorem Initial.ownInv (initial : Initial s) : OwnInv cfg s := by
  have nothing : ∀ keeper, s.kept keeper = [] := by
    intro keeper
    cases keeper <;>
      simp [kept, initial.promoters, initial.sieves, initial.sieveFifo,
        initial.rescue, unqueued, entries, SieveFIFOQueue.entries,
        takenOver]
  refine ⟨?_, fun keeper e mem => ?_, by simp [initial.rescue, WithinSlab]⟩
  · rw [show s.kept = fun _ => [] from funext nothing]
    exact .nothing
  · simp [nothing keeper] at mem

theorem kept_of_freed (freed : s.freed? a = some e) : ∃ keeper, e ∈ s.kept keeper := by
  unfold freed? at freed
  split at freed
  · rename_i t
    split at freed
    · rename_i req e' pc
      cases freed
      exact ⟨.promoter t, by simp [kept, pc, unqueued]⟩
    · simp at freed
  · rename_i t
    split at freed
    · rename_i victims pc
      refine ⟨.sieve t, ?_⟩
      simpa [kept, pc, entries] using mem_of_mem_head? freed
    · simp at freed
  · rename_i t
    split at freed
    · rename_i victim wasPending pc
      cases freed
      exact ⟨.sieve t, by simp [kept, pc, entries]⟩
    · simp at freed
  · split at freed
    · rename_i run pc
      refine ⟨.rescue, ?_⟩
      simpa [kept, pc, takenOver] using mem_of_mem_head? freed
    · simp at freed
  · simp at freed

theorem returned_of_freed (taken : step cfg s a = some s')
    (freed : s.freed? a = some e) : s'.memory.allocated e = false := by
  unfold freed? at freed
  split at freed <;> simp only [step] at taken
  · cases promoteStep_cases taken with
    | freePreallocated pc =>
      simp only [pc, Option.some.injEq] at freed
      simp [deallocate, freed]
  · cases sieveStep_cases taken with
    | drained pc => simp [pc] at freed
    | freeDrained pc =>
      simp only [pc, head?_cons, Option.some.injEq] at freed
      simp [deallocate, freed]
  · cases sieveStep_cases taken with
    | freeCaseA pc | freeCaseB pc =>
      simp only [pc, Option.some.injEq] at freed
      simp [deallocate, freed]
  · cases rescueStep_cases taken with
    | free pc next =>
      simp only [pc, next, head?_cons, Option.some.injEq] at freed
      simp [deallocate, freed]
  · simp at freed

def rescueCollects : List Action :=
  promotion 0 3 ++
    [.page (.promoteRecordCacheEntry 0 0), .promote 1 .dequeue, .rescue (.begin 1 0),
      .rescue .lockShard, .rescue (.collect [1] 3 [3]), .rescue .unlockShard]

def rescueWaits : List Action :=
  [.rescue .readEpoch, .rescue .advanceEpoch, .rescue .poll, .rescue .poll, .rescue .poll]

def evictCollected : List Action :=
  [.sieve 0 (.evict fun _ => true), .sieve 0 .loadType, .sieve 0 .free]

theorem rescue_frees_evicted_entry :
    ∃ state state', Reaches Config.small FreshBlocks state ∧
      step Config.small state (.rescue .free) = some state' ∧
      state.freed? (.rescue .free) = some 3 ∧ state.memory.allocated 3 = false := by
  obtain ⟨state, state', ran, taken, freed, twice⟩ : ∃ state state',
      run (step Config.small) small
        (rescueCollects ++ evictCollected ++ .rescue .mark :: rescueWaits) = some state ∧
      step Config.small state (.rescue .free) = some state' ∧
      state.freed? (.rescue .free) = some 3 ∧ state.memory.allocated 3 = false :=
    ⟨_, _, rfl, rfl, by decide, by decide⟩
  have reached : Reaches Config.small FreshBlocks state :=
    reaches_of_run_fresh initial_small (by decide) ran
  exact ⟨state, state', reached, taken, freed, twice⟩

/--
Every run in which a rescue finds its collected entries still in the SIEVE queue
frees only blocks that are allocated: no block is freed twice before it is
allocated again.
-/
theorem freed_blocks_are_allocated (config : Config) {state state' : State}
    (reached : Reaches config CollectedStillQueued state) {action : Action}
    (taken : step config state action = some state') {entry : Addr}
    (freed : state.freed? action = some entry) :
    state.memory.allocated entry = true ∧ state'.memory.allocated entry = false := by
  have inv : OwnInv config state :=
    reached.invariant (OwnInv config) (fun _ initial => initial.ownInv)
      fun _ _ _ inv queued taken => inv.step queued taken
  obtain ⟨keeper, member⟩ := kept_of_freed freed
  exact ⟨inv.allocated keeper entry member, returned_of_freed taken freed⟩

theorem freed_blocks_are_allocated_rescued :
    ∃ state state', Reaches Config.small CollectedStillQueued state ∧
      step Config.small state (.rescue .free) = some state' ∧
      state.memory.allocated 3 = true ∧ state'.memory.allocated 3 = false := by
  obtain ⟨scanned, marked, state, state', ran, taken, waited, frees, pc, entries, freed⟩ :
      ∃ scanned marked state state',
        run (step Config.small) small rescueCollects = some scanned ∧
        step Config.small scanned (.rescue .mark) = some marked ∧
        run (step Config.small) marked rescueWaits = some state ∧
        step Config.small state (.rescue .free) = some state' ∧
        scanned.rescue = .scanning ⟨1, 0, [3]⟩ 1 false ∧
        scanned.sieveFifo.entries = [3] ∧
        state.freed? (.rescue .free) = some 3 :=
    ⟨_, _, _, _, rfl, rfl, rfl, rfl, by decide, by decide, by decide⟩
  have collected : Reaches Config.small CollectedStillQueued scanned :=
    (Reachable.start initial_small).run_of_forall
      (by simp [rescueCollects, promotion, CollectedStillQueued]) ran
  have queued : CollectedStillQueued scanned (.rescue .mark) := by
    intro run shard holdsLock isScanning
    rw [pc] at isScanning
    cases isScanning
    exact entries ▸ Subperm.refl _
  have reached : Reaches Config.small CollectedStillQueued state :=
    (Reachable.next collected queued taken).run_of_forall
      (by simp [rescueWaits, CollectedStillQueued]) waited
  exact ⟨state, state', reached, frees, freed_blocks_are_allocated Config.small reached frees freed⟩

end TieredStore.RecordCache
