import TieredStore.RecordCache.Footprint

namespace TieredStore.RecordCache

open LinkChain Transition Function RecordCache.Action ForwardState PromotePc RescuePc SievePc State
  WorkerPc

variable {cfg : Config} {s s' : State} {a action : Action} {e entry : Addr} {t : Nat}
  {item : InvalidationEntry} {memory : Memory} {chains : Bytes → List Addr} {actions : List Action}

theorem placeholder_of_step (taken : step cfg s a = some s')
    (owns : (s'.promoters t).placeholder? = some e) :
    (s.promoters t).placeholder? = some e ∨ a.allocated? = some e := by
  rcases promoters_of_step taken t with ⟨_, rfl⟩ | same | ⟨_, ⟨-, after⟩ | ⟨-, after⟩⟩
  · cases promoteStep_cases taken <;>
      simp_all [placeholder?, allocated?, PromoteAction.allocated?]
  · exact .inl (same ▸ owns)
  · simp [after, placeholder?] at owns
  · simp [after, placeholder?] at owns

theorem fifo_of_step (taken : step cfg s a = some s') (mem : e ∈ s'.sieveFifo.entries) :
    e ∈ s.sieveFifo.entries ∨ (∃ t req, s.promoters t = .installed req e) ∨
      ∃ t, e ∈ (s.sieves t).entries := by
  cases step_cases taken with
  | worker stepped | forward stepped | page stepped => cases stepped <;> exact .inl mem
  | @promote t _ stepped =>
    cases stepped with
    | insertIntoFifo pc =>
      simp only [SieveFIFOQueue.entries_pushBack, List.mem_append, List.mem_singleton] at mem
      rcases mem with old | rfl
      · exact .inl old
      · exact .inr (.inl ⟨t, _, pc⟩)
    | _ => exact .inl mem
  | @sieve t _ stepped =>
    cases stepped with
    | drain =>
      have drained := (SieveFIFOQueue.drainStateRemovedOnly_entries
        (isRemovedType s.memory) kSieveBatchLimit s.sieveFifo).1
      exact .inl (drained.mem_iff.mpr (List.mem_append_right _ mem))
    | @evictNone shouldForceEvict | @evict shouldForceEvict =>
      have scanned := (SieveFIFOQueue.evictOneFromSieveFIFO_entries
        (tryMarkEvictable s.memory) shouldForceEvict s.sieveFifo
        (fun e => (s.memory.heap e).visited)).1
      exact .inl (scanned.mem_iff.mpr (List.mem_append_right _ mem))
    | reinsert pc =>
      simp only [SieveFIFOQueue.entries_pushBack, List.mem_append, List.mem_singleton] at mem
      rcases mem with old | rfl
      · exact .inl old
      · exact .inr (.inr ⟨t, by simp [pc, entries]⟩)
    | _ => exact .inl mem
  | rescue stepped =>
    cases stepped with
    | mark =>
      simp only [SieveFIFOQueue.entries_markSlabEntriesAsNull, List.mem_filter] at mem
      exact .inl mem.1
    | _ => exact .inl mem

def Action.TakesOut : Action → Prop
  | .sieve _ .drain => True
  | .sieve _ (.evict _) => True
  | _ => False

section

variable (taken : step cfg s a = some s')
include taken

theorem sieves_of_step (mem : e ∈ (s'.sieves t).entries) : e ∈ (s.sieves t).entries ∨
      (e ∈ s.sieveFifo.entries ∧ a.TakesOut) := by
  cases step_cases taken with
  | worker stepped | promote stepped | forward stepped | rescue stepped | page stepped =>
    cases stepped <;> exact .inl mem
  | @sieve actor _ stepped =>
    by_cases acts : t = actor
    · subst acts
      cases stepped with
      | drain =>
        have drained := (SieveFIFOQueue.drainStateRemovedOnly_entries
          (isRemovedType s.memory) kSieveBatchLimit s.sieveFifo).1
        simp only [setSieve, update_self] at mem
        exact .inr ⟨drained.mem_iff.mpr (List.mem_append_left _ mem), trivial⟩
      | @evict shouldForceEvict _ pc found =>
        have scanned := (SieveFIFOQueue.evictOneFromSieveFIFO_entries
          (tryMarkEvictable s.memory) shouldForceEvict s.sieveFifo
          (fun e => (s.memory.heap e).visited)).1
        simp only [setSieve, update_self, entries, List.mem_singleton] at mem
        exact .inr ⟨scanned.mem_iff.mpr (by simp [found, mem]), trivial⟩
      | freeDrained pc =>
        simp only [setSieve, update_self, entries] at mem
        exact .inl (by simp [pc, entries, mem])
      | _ =>
        left
        simp_all [entries]
    · left
      cases stepped <;>
        simpa [acts] using mem

theorem queue_of_step (mem : item ∈ s'.invalidationQueue) : item ∈ s.invalidationQueue ∨
      (∃ w sect epoch, s.workers w = .busy sect (.queueing item.entryPointer epoch)) ∨
      (item.entryPointer ∈ s.rescue.collected ∧ a = .rescue .timeout) := by
  cases step_cases taken with
  | @worker w _ stepped =>
    cases stepped with
    | push pc =>
      simp only [List.mem_append, List.mem_singleton] at mem
      rcases mem with old | rfl
      · exact .inl old
      · exact .inr (.inl ⟨w, _, _, pc⟩)
    | _ => exact .inl mem
  | promote stepped | sieve stepped | page stepped => cases stepped <;> exact .inl mem
  | forward stepped =>
    cases stepped with
    | popAll => simp at mem
    | _ => exact .inl mem
  | rescue stepped =>
    cases stepped with
    | timeout pc =>
      simp only [List.mem_append, List.mem_map] at mem
      rcases mem with old | ⟨e, inCollected, rfl⟩
      · exact .inl old
      · exact .inr (.inr ⟨by rw [pc]; exact inCollected, rfl⟩)
    | _ => exact .inl mem

theorem forwards_of_step (mem : item ∈ (s'.forwards t).items) :
    item ∈ (s.forwards t).items ∨ item ∈ s.invalidationQueue := by
  cases step_cases taken with
  | worker stepped | promote stepped | sieve stepped | rescue stepped | page stepped =>
    cases stepped <;> exact .inl mem
  | @forward actor _ stepped =>
    by_cases acts : t = actor
    · cases stepped <;>
        simp only [items] at mem ⊢ <;>
        simp_all <;> grind
    · left
      cases stepped <;>
        simpa [acts] using mem

theorem collected_of_step (mem : e ∈ s'.rescue.collected) : e ∈ s.rescue.collected ∨
      ∃ key chain, a = .rescue (.collect key e chain) ∧ s.memory.Linked key e := by
  cases step_cases taken with
  | worker stepped | promote stepped | forward stepped | sieve stepped | page stepped =>
    cases stepped <;> exact .inl mem
  | rescue stepped =>
    cases stepped with
    | @collect _ _ key _ chain pc _ walked inChain =>
      simp only [collected, List.mem_append, List.mem_singleton] at mem
      rcases mem with old | rfl
      · exact .inl (by rw [pc]; exact old)
      · exact .inr ⟨key, chain, rfl, chain, walked, inChain⟩
    | free pc =>
      left
      simp_all [collected]
    | _ =>
      left
      simp_all [collected]

end

theorem Shaped.target_mem {key : Bytes} {target : Addr} (shaped : Shaped memory chains)
    (found : (memory.findFirstUpdatableEntry (memory.table key)).target = some target) :
    target ∈ chains key := by
  have walked := shaped.chain key
  unfold Memory.ChainOf at walked
  cases isHead : memory.table key with
  | none => simp [isHead, Memory.findFirstUpdatableEntry] at found
  | some head =>
    rw [isHead] at found walked
    cases cells : chains key with
    | nil => simp [cells] at walked
    | cons first rest =>
      rw [cells, isChain_cons] at walked
      obtain ⟨sameHead, after⟩ := walked
      cases sameHead
      unfold Memory.findFirstUpdatableEntry at found
      simp only at found
      split at found
      · simp only [Option.some.injEq] at found
        simp [found]
      · split at found
        · simp at found
        · rename_i second isSecond
          split at found
          · rw [isSecond] at after
            cases rest with
            | nil => simp at after
            | cons =>
              simp_all
          · simp at found

theorem target_of_step (inv : ShapeInv s chains) (taken : step cfg s a = some s') {w : Nat}
    {sect : LeafSection} {stage : WorkerStage}
    (busy : s'.workers w = .busy sect stage) (target : (s'.workers w).target? = some e) :
    (∃ stage₀, s.workers w = .busy sect stage₀ ∧ (s.workers w).target? = some e) ∨
      (s.memory.Linked (cfg.buildPrefixedKey sect.key) e ∧
        s.memory.typeOf e = .readOnlyMode ∧ stage = .selected e ∧ a = .worker w .select) := by
  rcases workers_of_step taken w with ⟨_, rfl, stepped⟩ | same
  · cases stepped with
    | select pc _ found =>
      simp only [setWorker, update_self] at busy
      obtain ⟨rfl, rfl⟩ := busy
      simp only [setWorker, update_self, target?, Option.some.injEq] at target
      subst target
      exact .inr ⟨⟨_, inv.shaped.chain _, inv.shaped.target_mem found⟩,
        ShapeInv.readOnly_of_target found, rfl, rfl⟩
    | loadType pc | casType pc | readEpoch pc =>
      left
      simp only [setWorker, update_self] at busy
      obtain ⟨rfl, rfl⟩ := busy
      exact ⟨_, pc, by simpa [target?, pc] using target⟩
    | startTX | touch | commitTX | abortTX | abortDone | lookupHit | lookupMiss =>
      exact .inl ⟨stage, busy, target⟩
    | _ => simp [target?] at target
  · exact .inl ⟨stage, same ▸ busy, same ▸ target⟩

theorem WorkerPc.busy_of_target {pc : WorkerPc} (target : pc.target? = some e) :
    ∃ sect stage, pc = .busy sect stage := by
  cases pc with
  | idle => simp [target?] at target
  | busy sect stage => exact ⟨sect, stage, rfl⟩

theorem State.Unreferenced.step (unreferenced : s.Unreferenced e) (inv : ShapeInv s chains)
    (fresh : FreshBlocks s a) (taken : RecordCache.step cfg s a = some s')
    (old : a.allocated? ≠ some e) : s'.Unreferenced e where
  chains key linked := by
    rcases (inv.cacheStep fresh taken).linked key e linked with before | ⟨t, req, pc, -⟩
    · exact unreferenced.chains key before
    · exact unreferenced.promoters t (by rw [pc]; rfl)
  sieveFifo mem := by
    rcases fifo_of_step taken mem with before | ⟨t, req, pc⟩ | ⟨t, inHand⟩
    · exact unreferenced.sieveFifo before
    · exact unreferenced.promoters t (by rw [pc]; rfl)
    · exact unreferenced.sieves t inHand
  queue item mem isEntry := by
    rcases queue_of_step taken mem with before | ⟨w, sect, _, pc⟩ | ⟨collected, -⟩
    · exact unreferenced.queue item before isEntry
    · exact unreferenced.workers w (by rw [pc, ← isEntry]; rfl)
    · exact unreferenced.rescue (isEntry ▸ collected)
  forwards t item mem isEntry := by
    rcases forwards_of_step taken mem with before | queued
    · exact unreferenced.forwards t item before isEntry
    · exact unreferenced.queue item queued isEntry
  promoters t owns := by
    rcases placeholder_of_step taken owns with before | new
    · exact unreferenced.promoters t before
    · exact old new
  workers w target := by
    obtain ⟨sect, _, busy⟩ := busy_of_target target
    rcases target_of_step inv taken busy target with ⟨_, -, before⟩ | ⟨linked, -⟩
    · exact unreferenced.workers w before
    · exact unreferenced.chains _ linked
  sieves t mem := by
    rcases sieves_of_step taken mem with before | ⟨queued, -⟩
    · exact unreferenced.sieves t before
    · exact unreferenced.sieveFifo queued
  rescue mem := by
    rcases collected_of_step taken mem with before | ⟨key, _, -, linked⟩
    · exact unreferenced.rescue before
    · exact unreferenced.chains key linked

theorem Initial.unreferenced (initial : Initial s) (e : Addr) : s.Unreferenced e where
  chains key := by
    rintro ⟨_, walked, mem⟩
    rw [initial.shapeInv.shaped.unique walked] at mem
    simp at mem
  sieveFifo := by simp [initial.sieveFifo, SieveFIFOQueue.entries]
  queue := by simp [initial.invalidationQueue]
  forwards t := by simp [initial.forwards, items]
  promoters t := by simp [initial.promoters, placeholder?]
  workers w := by simp [initial.workers, target?]
  sieves t := by simp [initial.sieves, entries]
  rescue := by simp [initial.rescue, collected]

theorem freshBlocks_along (inv : ShapeInv s chains)
    (unreferenced : ∀ e ∈ actions.filterMap allocated?, s.Unreferenced e)
    (once : (actions.filterMap allocated?).Nodup)
    (ran : run (RecordCache.step cfg) s actions = some s') :
    AllowedAlong (RecordCache.step cfg) FreshBlocks s actions := by
  induction actions generalizing s chains with
  | nil => trivial
  | cons a rest ih =>
    simp only [run] at ran
    have fresh : FreshBlocks s a := fun e new => unreferenced e (by simp [new])
    refine ⟨fresh, ?_⟩
    cases taken : step cfg s a with
    | none => simp [taken] at ran
    | some =>
      rw [taken] at ran
      obtain ⟨⟨_, inv'⟩, -⟩ := inv.step fresh taken
      have once' : (rest.filterMap allocated?).Nodup :=
        once.sublist ((List.sublist_cons_self a rest).filterMap _)
      refine ih inv' (fun e mem => ?_) once' ran
      refine Unreferenced.step (unreferenced e ?_) inv fresh taken fun new => ?_
      · exact ((List.sublist_cons_self a rest).filterMap _).mem mem
      · simp only [List.filterMap_cons, new, List.nodup_cons] at once
        exact once.1 mem

theorem reaches_of_run (permitted : State → Action → Prop) (initial : Initial s)
    (once : (actions.filterMap allocated?).Nodup) (allowed : ∀ a ∈ actions, ∀ s, permitted s a)
    (ran : run (step cfg) s actions = some s') :
    Reaches cfg (fun s a => FreshBlocks s a ∧ permitted s a) s' :=
  (Reachable.start initial).run_of_allowed
    ((freshBlocks_along initial.shapeInv (fun e _ => initial.unreferenced e) once
      ran).and (allowedAlong_of_forall allowed ran)) ran

theorem reaches_of_run_fresh (initial : Initial s) (once : (actions.filterMap allocated?).Nodup)
    (ran : run (step cfg) s actions = some s') : Reaches cfg FreshBlocks s' :=
  (reaches_of_run (fun _ _ => True) initial once (fun _ _ _ => trivial) ran).mono
    fun _ _ permitted => permitted.1

/-- A chain with at most one read-only or placeholder entry, at its head, and
logically deleted entries otherwise. -/
structure WellShaped (memory : Memory) (chain : List Addr) : Prop where
  distinct : chain.Nodup
  live_is_head : ∀ e ∈ chain,
    memory.typeOf e = .readOnlyMode ∨ memory.typeOf e = .promoteThreadHoldingThePosition →
    chain.head? = some e
  others_deleted : ∀ e ∈ chain, memory.typeOf e ≠ .readOnlyMode →
    memory.typeOf e ≠ .promoteThreadHoldingThePosition →
    memory.typeOf e = .logicallyDeletedButStillInHashTable

theorem Shaped.wellShaped (shaped : Shaped memory chains) (key : Bytes) :
    WellShaped memory (chains key) where
  distinct := (shaped.chain key).nodup
  live_is_head e mem live := by
    refine shaped.head_of_live mem fun deleted => ?_
    rcases live with type | type <;> simp [deleted] at type
  others_deleted e mem notReadOnly notPlaceholder := by
    rcases mem_head_or_tail mem with isHead | inTail
    · rcases shaped.head key e isHead with type | type | type
      · exact absurd type notReadOnly
      · exact absurd type notPlaceholder
      · exact type
    · exact shaped.tail key e inTail

/--
Along every interleaving with fresh blocks each key has a well-shaped version
chain, types move only along the protocol's edges, and a search that returns no
target has overlooked no read-only entry.
-/
theorem version_chains_well_shaped (config : Config) {state : State}
    (reached : Reaches config FreshBlocks state) :
    (∀ key, ∃ chain, state.memory.ChainOf key chain ∧ WellShaped state.memory chain) ∧
    (∀ action state' entry, FreshBlocks state action →
      step config state action = some state' →
      action.allocated? ≠ some entry →
      state'.memory.typeOf entry = state.memory.typeOf entry ∨
        RecordCacheType.Moves (state.memory.typeOf entry)
          (state'.memory.typeOf entry)) ∧
    (∀ key chain, state.memory.ChainOf key chain →
      (state.memory.findFirstUpdatableEntry (state.memory.table key)).target = none →
      ∀ entry ∈ chain, state.memory.typeOf entry ≠ .readOnlyMode) := by
  obtain ⟨chains, inv⟩ :=
    shapeInv_of_reaches (fun _ _ permitted => permitted) reached
  refine ⟨fun key => ⟨chains key, inv.shaped.chain key, inv.shaped.wellShaped key⟩,
    fun action state' entry fresh taken old => ?_,
    fun key chain walked missed => ?_⟩
  · exact (inv.step fresh taken).types entry old
  · rw [inv.shaped.unique walked]
    exact inv.shaped.no_readOnly_of_no_target missed

def selectTarget : List Action :=
  [.worker 0 (.startTX 5), .worker 0 (.latch (.update [9]) [1] 0), .worker 0 .enterEpoch,
    .worker 0 .select]

def finishUpdate : List Action :=
  [.worker 0 .loadType, .worker 0 .casType, .worker 0 .readEpoch, .worker 0 .push,
    .worker 0 .leaveEpoch, .worker 0 (.write false), .worker 0 .unlatch]

/-- The key is promoted, updated and promoted again. -/
theorem version_chains_well_shaped_promoted :
    ∃ state, Reaches Config.small FreshBlocks state ∧
      state.memory.typeOf 4 = .readOnlyMode ∧
      state.memory.typeOf 3 = .logicallyDeletedButStillInHashTable ∧
      WellShaped state.memory [4, 3] := by
  obtain ⟨state, ran, walked, readOnly, deleted⟩ :
      ∃ state, run (step Config.small) small
          (promotion 0 3 ++ selectTarget ++ finishUpdate ++ promotion 0 4) = some state ∧
        state.memory.ChainOf [1] [4, 3] ∧ state.memory.typeOf 4 = .readOnlyMode ∧
        state.memory.typeOf 3 = .logicallyDeletedButStillInHashTable :=
    ⟨_, rfl, by decide, by decide, by decide⟩
  have reached : Reaches Config.small FreshBlocks state :=
    reaches_of_run_fresh initial_small (by decide) ran
  obtain ⟨chain, walked', wellShaped⟩ :=
    (version_chains_well_shaped Config.small reached).1 [1]
  have same : chain = [4, 3] := IsChain.unique walked' walked
  exact ⟨state, reached, readOnly, deleted, same ▸ wellShaped⟩

end TieredStore.RecordCache
