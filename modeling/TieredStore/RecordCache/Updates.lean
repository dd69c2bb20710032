import TieredStore.RecordCache.Coherence
import TieredStore.RecordCache.References

/-!
No lost invalidation: as long as transactions only update records in place and
none aborts, whatever the cache serves for a key is what the key's leaf slot
holds.
-/

namespace TieredStore.RecordCache

open Transition Function List State

/-- Workers only run `updateSameSizeInPlace`, and no transaction aborts. -/
def UpdatesOnly : Action → Prop
  | .worker _ (.latch op _ _) => ∃ value, op = .update value
  | .worker _ .abortTX => False
  | _ => True

/-- The copy is exactly the tuple: value bytes, `tx_ts` and `worker_id`. -/
def SameVersion (data : ReadData) : Option ChainedTuple → Prop
  | none => True
  | some tuple =>
    data.value = tuple.value ∧ data.txTs = tuple.txTs ∧ data.workerId = tuple.workerId

def LengthOf (cfg : Config) (leaves : Leaves) (req : PromoteRequestMessage) : Prop :=
  ∀ key tuple, req.key = cfg.buildPrefixedKey key →
    leaves.Stores key tuple → req.valueLength = tuple.payloadLength

structure UpdateInv (cfg : Config) (s : State) : Prop where
  updates : ∀ w sect stage, s.workers w = .busy sect stage → ∃ value, sect.op = .update value
  running : ∀ w, (s.transactions w).active = true → (s.transactions w).aborting = false
  queued : ∀ req ∈ s.requests, LengthOf cfg s.leaves req
  held : ∀ t req, (s.promoters t).request? = some req → LengthOf cfg s.leaves req

namespace UpdateInv

variable {cfg : Config} {s s' : State} {a : Action}
  {req : PromoteRequestMessage}

theorem lengthOf_step (inv : UpdateInv cfg s) (leaf : LeafInv s)
    (taken : RecordCache.step cfg s a = some s') (lengthOf : LengthOf cfg s.leaves req) :
    LengthOf cfg s'.leaves req := by
  intro key tuple keyed stores
  rcases (leaf.step taken).stores with same | ⟨w, _, sect, stage, -, busy, -, rewrites⟩
  · exact lengthOf key tuple keyed ((same key tuple).mp stores)
  · by_cases sameKey : key = sect.key
    · subst sameKey
      obtain ⟨_, op⟩ := inv.updates w sect stage busy
      have outcome := rewrites.own tuple stores
      simp only [LeafSection.outcome, op] at outcome
      obtain ⟨old, atSlot, rfl⟩ := outcome
      have hot := (leaf.occupies w sect stage busy).hot
      exact lengthOf sect.key old keyed ⟨sect.frame, by simp [hot], mem_of_getElem? atSlot⟩
    · exact lengthOf key tuple keyed ((rewrites.others key tuple sameKey).mp stores)

theorem lengthOf_slot {leaves : Leaves} (wellFormed : leaves.WellFormed)
    {frame : Nat} {slot : LeafSlot} (live : (leaves.frames frame).state ≠ .free)
    (mem : slot ∈ (leaves.frames frame).slots) (keyed : req.key = cfg.buildPrefixedKey slot.key)
    (length : req.valueLength = slot.tuple.payloadLength) : LengthOf cfg leaves req := by
  intro key tuple keyed' stores
  cases cfg.buildPrefixedKey_injective (keyed.symm.trans keyed')
  rw [length, wellFormed.unique ⟨frame, live, mem⟩ stores]

variable (inv : UpdateInv cfg s)
include inv

section

variable (taken : RecordCache.step cfg s a = some s')
include taken

theorem queued_step (leaf : LeafInv s) : ∀ req ∈ s'.requests, LengthOf cfg s.leaves req := by
  intro req mem
  cases step_cases taken with
  | @worker w _ stepped =>
    cases stepped with
    | @write _ sect stage pc mayWrite =>
      split at mem
      · rcases mem_append.mp mem with old | new
        · exact inv.queued req old
        · rw [mem_singleton.mp new]
          obtain ⟨_, op⟩ := inv.updates w sect stage pc
          have occupies := leaf.occupies w sect stage pc
          have located := occupies.located (by rintro rfl; simp [LeafSection.mayWrite] at mayWrite)
          simp only [LeafSection.Located, op] at located
          obtain ⟨_, atSlot⟩ := located
          exact lengthOf_slot leaf.wellFormed (by simp [occupies.hot])
            (mem_of_getElem? atSlot) rfl
            (by simp [directUpdateRequest, atSlot])
      · exact inv.queued req mem
    | _ => exact inv.queued req mem
  | promote stepped =>
    cases stepped with
    | dequeue pc queue => exact inv.queued req (by simp [queue, mem])
    | _ => exact inv.queued req mem
  | forward stepped | sieve stepped | rescue stepped => cases stepped <;> exact inv.queued req mem
  | page stepped =>
    cases stepped with
    | promoteRecordCacheEntry found hot =>
      rcases mem_append.mp mem with old | new
      · exact inv.queued req old
      · rw [mem_singleton.mp new]
        exact lengthOf_slot leaf.wellFormed (by simp [hot]) (mem_of_getElem? found) rfl rfl
    | _ => exact inv.queued req mem

theorem updates_step (permitted : UpdatesOnly a) : ∀ w sect stage, s'.workers w = .busy sect stage →
      ∃ value, sect.op = .update value := by
  intro w sect stage busy
  rcases section_of_step taken busy with
    ⟨stage₀, old, -⟩ | ⟨-, active, ⟨op, key, position, rfl, -, sought, -⟩ |
      ⟨e, rest, -, -, -, aborting⟩⟩
  · exact inv.updates w sect stage₀ old
  · obtain ⟨value, isUpdate⟩ := permitted
    exact ⟨value, sought.op_eq.trans isUpdate⟩
  · simp [inv.running w active] at aborting

theorem running_step (permitted : UpdatesOnly a) : ∀ w, (s'.transactions w).active = true →
      (s'.transactions w).aborting = false := by
  intro w active
  cases step_cases taken with
  | @worker actor _ stepped =>
    by_cases acts : w = actor
    · subst acts
      cases stepped with
      | startTX => simp
      | write =>
        simp only [setTransaction, update_self] at active ⊢
        exact inv.running w active
      | commitTX => simp at active
      | abortTX => exact absurd permitted id
      | abortDone => simp at active
      | _ => exact inv.running w active
    · cases stepped with
      | _ =>
        simp only [setTransaction, setWorker, setEpoch, update_of_ne acts] at active ⊢
        exact inv.running w active
  | promote stepped | forward stepped | sieve stepped | rescue stepped | page stepped =>
    cases stepped <;> exact inv.running w active

theorem step (leaf : LeafInv s) (permitted : UpdatesOnly a) : UpdateInv cfg s' where
  updates := inv.updates_step taken permitted
  running := inv.running_step taken permitted
  queued req mem := inv.lengthOf_step leaf taken (inv.queued_step taken leaf req mem)
  held t req holds := by
    rcases request_of_step taken holds with own | queued
    · exact inv.lengthOf_step leaf taken (inv.held t req own)
    · exact inv.lengthOf_step leaf taken (inv.queued req queued)

end

theorem tolerates {chains : Bytes → List Addr} (cache : CacheInv cfg s chains)
    (reads : ReadInv cfg s) : Tolerates cfg SameVersion s s' a where
  validated key data slot validates slotIs := by
    obtain ⟨t, req, tuple, holds, keyed, rfl, rfl⟩ :=
      cache.copied_of_validates reads validates slotIs
    rw [inv.held t req holds key tuple keyed slotIs]
    exact ⟨rfl, rfl, rfl⟩
  rewritten w signal sect stage data slot slot' _ busy invalidates := by
    obtain ⟨_, op⟩ := inv.updates w sect stage busy
    simp [LeafSection.invalidates, op] at invalidates

end UpdateInv

theorem Initial.updateInv {cfg : Config} {s : State} (initial : Initial s) : UpdateInv cfg s where
  updates w sect stage busy := by simp [initial.workers] at busy
  running w active := by simp [initial.transactions w] at active
  queued := by simp [initial.requests]
  held t req holds := by simp [initial.promoters, PromotePc.request?] at holds

/-- Blocks that nobody else references, latches that never return to a version, and in-place
updates only. -/
def FreshUpdates (s : State) (a : Action) : Prop :=
  FreshBlocks s a ∧ ResetsFresh s a ∧ UpdatesOnly a

theorem coherent_of_updates {cfg : Config} {s : State} (reached : Reaches cfg FreshUpdates s) :
    Coherent cfg SameVersion s := by
  suffices combined : (∃ chains, CacheInv cfg s chains) ∧ ReadInv cfg s ∧
      UpdateInv cfg s ∧ Coherent cfg SameVersion s from combined.2.2.2
  refine reached.invariant
    (fun s => (∃ chains, CacheInv cfg s chains) ∧ ReadInv cfg s ∧
      UpdateInv cfg s ∧ Coherent cfg SameVersion s)
    (fun s initial => ⟨⟨_, initial.cacheInv⟩, initial.readInv, initial.updateInv,
      initial.coherent SameVersion⟩) ?_
  rintro s a s' ⟨⟨chains, cache⟩, reads, updates, coherent⟩ ⟨fresh, resets, permitted⟩ taken
  exact ⟨cache.step fresh taken, reads.step cache.leaf resets taken,
    updates.step taken cache.leaf permitted,
    coherent.step cache taken (updates.tolerates cache reads) fresh⟩

/--
No lost invalidation: in every interleaving of in-place updates, promotions,
forward-epoch passes, evictions and rescues, a linked read-only entry holds
exactly what the key's slot holds, whenever the slot's leaf is not latched.
-/
theorem read_only_entry_matches_leaf (config : Config) {state : State}
    (reached : Reaches config FreshUpdates state)
    {key : Bytes} {frame slot : Nat} {tuple : ChainedTuple} {entry : Addr}
    (holds : state.leaves.Holds key frame slot tuple)
    (_unlatched : (state.leaves.frames frame).isExclusivelyLatched = false)
    (linked : state.memory.Linked (config.buildPrefixedKey key) entry)
    (readOnly : state.memory.typeOf entry = .readOnlyMode) :
    (state.memory.heap entry).getValueSpan = tuple.value ∧
      (state.memory.heap entry).txTs = tuple.txTs ∧
      (state.memory.heap entry).lastModifiedWorkerId = tuple.workerId := by
  obtain ⟨chains, cache⟩ :=
    cacheInv_of_reaches (fun _ _ permitted => permitted.1) reached
  obtain ⟨chain, walked, member⟩ := linked
  rw [cache.shape.shaped.unique walked] at member
  exact (coherent_of_updates reached).exposed key _ (some tuple)
    (.inl ⟨entry, cache.shape.shaped.serves member readOnly, rfl⟩) holds.stores

def updateThenPromote : List Action :=
  .worker 0 (.startTX 5) :: (uncachedUpdate 0 [9] ++ promotion 0 3)

theorem read_only_entry_matches_leaf_updated :
    ∃ state, Reaches Config.small FreshUpdates state ∧
      state.leaves.Holds [1] 0 0 ⟨[9], 1, 0, 5, false, 1⟩ ∧
      state.memory.Linked [1] 3 ∧
      (state.memory.heap 3).getValueSpan = [9] := by
  obtain ⟨state, ran, live, found, unlatched, walked, readOnly⟩ :
      ∃ state, run (step Config.small) small updateThenPromote = some state ∧
        (state.leaves.frames 0).state ≠ .free ∧
        (state.leaves.frames 0).slots[0]? = some ⟨[1], ⟨[9], 1, 0, 5, false, 1⟩⟩ ∧
        (state.leaves.frames 0).isExclusivelyLatched = false ∧
        state.memory.ChainOf [1] [3] ∧ state.memory.typeOf 3 = .readOnlyMode :=
    ⟨_, rfl, by decide, by decide, by decide, by decide, by decide⟩
  have reached : Reaches Config.small FreshUpdates state :=
    reaches_of_run (fun s a => ResetsFresh s a ∧ UpdatesOnly a) initial_small (by decide)
      (by simp [updateThenPromote, uncachedUpdate, promotion, ResetsFresh, UpdatesOnly]) ran
  have linked : state.memory.Linked [1] 3 := ⟨[3], walked, by simp⟩
  exact ⟨state, reached, ⟨live, found⟩, linked,
    (read_only_entry_matches_leaf Config.small reached ⟨live, found⟩ unlatched linked readOnly).1⟩

end TieredStore.RecordCache
