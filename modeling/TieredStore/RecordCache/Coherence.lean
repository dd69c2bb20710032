import TieredStore.RecordCache.Locks
import TieredStore.RecordCache.Promotions

/-!
Coherence of the cache with the tree, for any relation between a copy and the tuple it was made
from.
-/

namespace TieredStore.RecordCache

open Transition Function PromotePc State

structure CacheInv (cfg : Config) (s : State) (chains : Bytes → List Addr) : Prop where
  shape : ShapeInv s chains
  leaf : LeafInv s
  lock : LockInv cfg s
  promotion : PromotionInv cfg s

variable {cfg : Config} {s : State} {s' : State} {chains : Bytes → List Addr}
  {data : ReadData} {key : Bytes} {slot : Option ChainedTuple} {w worker : Nat}

theorem CacheInv.step {a : Action} (inv : CacheInv cfg s chains) (fresh : FreshBlocks s a)
    (taken : RecordCache.step cfg s a = some s') : ∃ chains', CacheInv cfg s' chains' := by
  obtain ⟨⟨chains', shape⟩, -⟩ := inv.shape.step fresh taken
  exact ⟨chains', shape, (inv.leaf.step taken).inv, inv.lock.step taken,
    inv.promotion.step inv.shape fresh taken⟩

theorem Initial.cacheInv (initial : Initial s) : CacheInv cfg s fun _ => [] :=
  ⟨initial.shapeInv, initial.leafInv, initial.lockInv, initial.promotionInv⟩

theorem cacheInv_of_reaches {allowed : State → Action → Prop}
    (fresh : ∀ s a, allowed s a → FreshBlocks s a)
    (reached : Reaches cfg allowed s) : ∃ chains, CacheInv cfg s chains := by
  refine Reachable.invariant (fun s => ∃ chains, CacheInv cfg s chains)
    (fun s initial => ⟨_, initial.cacheInv⟩) ?_ reached
  rintro s a s' ⟨chains, inv⟩ permitted taken
  exact inv.step (fresh s a permitted) taken

def State.Carries (s : State) (key : Bytes) (data : ReadData) : Prop :=
  ∃ t req e, req.key = key ∧ ((s.promoters t = .validated req e data ∧
        (s.memory.heap e).updateDuringPromote = false) ∨
      s.promoters t = .deciding req e data .publish)

namespace WorkerStage

def searched : WorkerStage → Bool
  | .selected _ => true
  | .loaded _ => true
  | .invalidated _ => true
  | .queueing _ _ => true
  | .leaving _ => true
  | .ready _ => true
  | _ => false

def pending? : WorkerStage → Option Addr
  | .selected target => some target
  | .loaded target => some target
  | _ => none

end WorkerStage

/-- A recheck that succeeds, with no update of the key signalled up to it. -/
def State.Validates (s : State) (a : Action) (key : Bytes) (data : ReadData) : Prop :=
  ∃ t req e v, a = .promote t .recheck ∧ s.promoters t = .reading req e (.copied v data) ∧
    req.key = key ∧ (s.leaves.frames req.bf).version = v ∧
    (s.memory.heap e).updateDuringPromote = false

namespace CacheInv

variable {cfg : Config} {s s' : State} {a : Action} {chains : Bytes → List Addr}
  {key : Bytes} (taken : RecordCache.step cfg s a = some s')
include taken

theorem carries_step (inv : CacheInv cfg s chains) (fresh : FreshBlocks s a)
    (carries : s'.Carries key data) : s.Carries key data ∨ s.Validates a key data := by
  have cache := inv.shape.cacheStep fresh taken
  obtain ⟨t, req, e, rfl, holds⟩ := carries
  rcases promoters_of_step taken t with ⟨_, rfl⟩ | same | ⟨request', waits⟩
  · cases promoteStep_cases taken with
    | @recheck request' e' v data' pc same =>
      simp only [setPromoter, update_self, validated.injEq, reduceCtorEq, or_false] at holds
      obtain ⟨⟨rfl, rfl, rfl⟩, unflagged⟩ := holds
      exact .inr ⟨t, request', e', v, rfl, pc, rfl, same, unflagged⟩
    | @decide request' e' data' pc =>
      simp only [setPromoter, update_self, reduceCtorEq,
        false_and, deciding.injEq, false_or] at holds
      obtain ⟨rfl, rfl, rfl, publishes⟩ := holds
      refine .inl ⟨t, request', e', rfl, .inl ⟨pc, ?_⟩⟩
      unfold phase3Decision at publishes
      split at publishes
      · split at publishes <;> simp_all
      · simp at publishes
      · simp at publishes
    | _ => simp at holds
  · rw [same] at holds
    refine .inl ⟨t, req, e, rfl, ?_⟩
    rcases holds with ⟨pc, unflagged⟩ | pc
    · refine .inl ⟨pc, ?_⟩
      have keeps : s.memory.KeepsData s'.memory e :=
        PromotionInv.keeps_owned cache inv.shape t fresh
          (by rw [pc]; rfl) fun chain isFinish => by
            subst isFinish
            simp [RecordCache.step, promoteStep, pc] at taken
      exact keeps.unflagged unflagged
    · exact .inr pc
  · rcases waits with ⟨-, pc⟩ | ⟨-, pc⟩ <;> simp [pc] at holds

theorem serves_step (inv : CacheInv cfg s chains) (fresh : FreshBlocks s a)
    {e : Addr} (serves : s'.memory.Serves key e) : (s.memory.Serves key e ∧
        s'.memory.dataOf e = s.memory.dataOf e) ∨ s.Carries key (s'.memory.dataOf e) := by
  have cache := inv.shape.cacheStep fresh taken
  rcases cache.serves key e serves with old | ⟨t, chain, req, data, rfl, pc, rfl, memory⟩
  · refine .inl ⟨old, (cache.keeps e (fun new => ?_) fun published => ?_).dataOf⟩
    · exact (fresh e new).chains key
        ⟨chains key, inv.shape.shaped.chain key, inv.shape.shaped.mem_of_table old.1⟩
    · -- the entry that is being published is still a placeholder
      obtain ⟨t, chain, req, data, -, pc⟩ := published?_eq_some published
      have owns : (s.promoters t).placeholder? = some e := by rw [pc]; rfl
      exact absurd ((inv.shape.type_of_promoter owns).symm.trans old.2) (by simp)
  · have sound := inv.promotion.sound t
    rw [pc] at sound
    have published := (sound.header req e rfl rfl).dataOf_publish (sound.sized req data rfl rfl)
    rw [memory, published]
    exact .inr ⟨t, req, e, rfl, .inr pc⟩

end CacheInv

def Leaves.SlotIs (leaves : Leaves) (key : Bytes) : Option ChainedTuple → Prop
  | none => ∀ tuple, ¬ leaves.Stores key tuple
  | some tuple => leaves.Stores key tuple

theorem Leaves.slotIs_congr {leaves leaves' : Leaves}
    (same : ∀ tuple, leaves'.Stores key tuple ↔ leaves.Stores key tuple)
    (slotIs : leaves'.SlotIs key slot) : leaves.SlotIs key slot := by
  cases slot with
  | none => exact fun tuple stores => slotIs tuple ((same tuple).mpr stores)
  | some tuple => exact (same tuple).mp slotIs

theorem Leaves.exists_slotIs (leaves : Leaves) (key : Bytes) : ∃ slot, leaves.SlotIs key slot := by
  by_cases stored : ∃ tuple, leaves.Stores key tuple
  · obtain ⟨tuple, stores⟩ := stored
    exact ⟨some tuple, stores⟩
  · exact ⟨none, fun tuple stores => stored ⟨tuple, stores⟩⟩

def State.Exposes (cfg : Config) (s : State) (key : Bytes) (data : ReadData) : Prop :=
  (∃ e, s.memory.Serves (cfg.buildPrefixedKey key) e ∧ data = s.memory.dataOf e) ∨
    s.Carries (cfg.buildPrefixedKey key) data

def State.delivered? (state : State) : Action → Option ReadData
  | .worker _ (.lookup _ chain isVisibleForMe) =>
    (state.memory.firstVisible isVisibleForMe chain).map state.memory.dataOf
  | _ => none

theorem CacheInv.exposes_of_delivered (inv : CacheInv cfg s chains) {chain : List Addr}
    {isVisibleForMe : Nat → Nat → Bool} (taken : RecordCache.step cfg s
      (.worker w (.lookup key chain isVisibleForMe)) = some s')
    (delivered : s.delivered? (.worker w (.lookup key chain isVisibleForMe)) =
      some data) : s.Exposes cfg key data := by
  obtain ⟨e, found, rfl⟩ := Option.map_eq_some_iff.mp delivered
  obtain ⟨mem, readOnly⟩ := Memory.mem_of_firstVisible found
  have walked : s.memory.ChainOf (cfg.buildPrefixedKey key) chain := by
    simp only [RecordCache.step] at taken
    split at taken
    · cases workerStep_cases taken <;> assumption
    · simp at taken
  rw [inv.shape.shaped.unique walked] at mem
  exact .inl ⟨e, inv.shape.shaped.serves mem readOnly, rfl⟩

/-- A read that has not found its key yet and will not find it in the latched frame. -/
def ReadStage.Misses (frame latched : Nat) : ReadStage → Prop
  | .start => True
  | .guarded _ => frame ≠ latched
  | _ => False

structure Shielded (cfg : Config) (s : State) (sect : LeafSection)
    (stage : WorkerStage) : Prop where
  serves : ∀ e, s.memory.Serves (cfg.buildPrefixedKey sect.key) e → stage.pending? = some e
  carries : ∀ data, ¬ s.Carries (cfg.buildPrefixedKey sect.key) data
  reads : ∀ t req e read, s.promoters t = .reading req e read →
    req.key = cfg.buildPrefixedKey sect.key →
    (s.memory.heap e).updateDuringPromote = true ∨ read.Misses req.bf sect.frame

theorem Shielded.lower {sect : LeafSection} {stage stage' : WorkerStage}
    (shielded : Shielded cfg s sect stage) (invalid : ∀ target, stage.pending? = some target →
      s.memory.typeOf target ≠ .readOnlyMode) : Shielded cfg s sect stage' where
  serves e serves := absurd serves.2 (invalid e (shielded.serves e serves))
  carries := shielded.carries
  reads := shielded.reads

structure Coherent (cfg : Config) (agrees : ReadData → Option ChainedTuple → Prop)
    (s : State) : Prop where
  exposed : ∀ key data slot, s.Exposes cfg key data → s.leaves.SlotIs key slot → agrees data slot
  shielded : ∀ w sect stage, s.workers w = .busy sect stage → stage.searched = true →
    Shielded cfg s sect stage

/-- What a relation between copies and tuples has to survive: the validation
of a read, and the writes that do not invalidate the cache. -/
structure Tolerates (cfg : Config) (agrees : ReadData → Option ChainedTuple → Prop)
    (s s' : State) (a : Action) : Prop where
  validated : ∀ key data slot, s.Validates a (cfg.buildPrefixedKey key) data →
    s.leaves.SlotIs key slot → agrees data slot
  rewritten : ∀ w signal sect stage data slot slot', a = .worker w (.write signal) →
    s.workers w = .busy sect stage → sect.invalidates = false → s.Exposes cfg sect.key data →
    s.leaves.SlotIs sect.key slot → s'.leaves.SlotIs sect.key slot' →
    agrees data slot → agrees data slot'

namespace Coherent

variable {cfg : Config} {s s' : State} {a : Action}
  {chains : Bytes → List Addr} {agrees : ReadData → Option ChainedTuple → Prop}

theorem exposes_step (inv : CacheInv cfg s chains) (fresh : FreshBlocks s a)
    (taken : RecordCache.step cfg s a = some s') (exposes : s'.Exposes cfg key data) :
    s.Exposes cfg key data ∨ s.Validates a (cfg.buildPrefixedKey key) data := by
  rcases exposes with ⟨e, serves, rfl⟩ | carries
  · rcases inv.serves_step taken fresh serves with ⟨old, same⟩ | carried
    · exact .inl (.inl ⟨e, old, same⟩)
    · exact .inl (.inr carried)
  · rcases inv.carries_step taken fresh carries with old | validates
    · exact .inl (.inr old)
    · exact .inr validates

variable {sect : LeafSection} {stage : WorkerStage}

section

variable (inv : CacheInv cfg s chains)
include inv

/-- The worker's latch keeps the key where it is, so a read that begins behind the search
does not find the key. -/
theorem reads_step (fresh : FreshBlocks s a) (taken : RecordCache.step cfg s a = some s')
    (busy : s.workers w = .busy sect stage) (shielded : Shielded cfg s sect stage)
    {t : Nat} {req : PromoteRequestMessage} {e : Addr} {read : ReadStage}
    (after : s'.promoters t = .reading req e read)
    (keyed : req.key = cfg.buildPrefixedKey sect.key) :
    (s'.memory.heap e).updateDuringPromote = true ∨ read.Misses req.bf sect.frame := by
  have occupies := inv.leaf.occupies w sect stage busy
  rcases promoters_of_step taken t with ⟨_, rfl⟩ | same | ⟨_, ⟨-, pc⟩ | ⟨-, pc⟩⟩
  · cases promoteStep_cases taken with
    | insertIntoFifo =>
      simp only [setPromoter, update_self] at after
      cases after
      exact .inr trivial
    | guard pc unlatched =>
      simp only [setPromoter, update_self] at after
      cases after
      refine .inr fun isFrame => ?_
      simp [isFrame, occupies.latched] at unlatched
    | check pc holds =>
      simp only [setPromoter, update_self] at after
      cases after
      refine (shielded.reads t _ _ _ pc keyed).imp_right fun elsewhere => ?_
      cases found : (s.leaves.frames req.bf).slots[req.slotId]? with
      | none => simp [slotStillHoldsKey, found] at holds
      | some slot =>
        obtain ⟨keyed', -, routed⟩ := inv.promotion.stores_of_holds inv.leaf pc holds found
        have sameKey := cfg.buildPrefixedKey_injective (keyed.symm.trans keyed')
        exact elsewhere (routed.symm.trans (sameKey ▸ occupies.routed))
    | readHeaderMissing pc | readHeader pc | copyValue pc =>
      simp only [setPromoter, update_self] at after
      cases after
      exact .inl ((shielded.reads t _ _ _ pc keyed).resolve_right id)
    | _ => simp at after
  · rw [same] at after
    refine (shielded.reads t req e read after keyed).imp_left fun flagged => ?_
    have keeps : s.memory.KeepsData s'.memory e :=
      PromotionInv.keeps_owned (inv.shape.cacheStep fresh taken) inv.shape t fresh
        (by rw [after]; rfl) fun chain isFinish => by
          subst isFinish
          simp [RecordCache.step, promoteStep, after] at taken
    exact keeps.flag flagged
  · simp [pc] at after
  · simp [pc] at after

theorem shielded_step (coherent : Coherent cfg agrees s)
    (fresh : FreshBlocks s a) (taken : RecordCache.step cfg s a = some s')
    (busy : s.workers w = .busy sect stage) (searched : stage.searched = true) :
    Shielded cfg s' sect stage ∧ ∀ e, s'.memory.Serves (cfg.buildPrefixedKey sect.key) e →
        s.memory.Serves (cfg.buildPrefixedKey sect.key) e := by
  have shielded := coherent.shielded w sect stage busy searched
  have before : ∀ e,
      s'.memory.Serves (cfg.buildPrefixedKey sect.key) e →
      s.memory.Serves (cfg.buildPrefixedKey sect.key) e := by
    intro e isServed
    rcases inv.serves_step taken fresh isServed with ⟨old, -⟩ | carried
    · exact old
    · exact absurd carried (shielded.carries _)
  refine ⟨⟨fun e isServed => shielded.serves e (before e isServed), fun data isCarried => ?_,
    fun _ _ _ _ => reads_step inv fresh taken busy shielded⟩, before⟩
  rcases inv.carries_step taken fresh isCarried with old | validates
  · exact shielded.carries data old
  · obtain ⟨t, req, e, v, -, pc, keyed, -, unflagged⟩ := validates
    rcases shielded.reads t req e _ pc keyed with flagged | missed
    · simp [flagged] at unflagged
    · exact missed

/-- The search under the shard lock raises the shield: phase 3 of every promotion
is out of the way, and the placeholder of a validated one gets its flag. -/
theorem shielded_search (free : s.shardMutex (cfg.shardOf (cfg.buildPrefixedKey sect.key)) = none)
    (memory : s'.memory = s.memory.afterSearch (s.memory.table (cfg.buildPrefixedKey sect.key)))
    (promoters : s'.promoters = s.promoters)
    (target : stage.pending? = (s.memory.findFirstUpdatableEntry
      (s.memory.table (cfg.buildPrefixedKey sect.key))).target) : Shielded cfg s' sect stage := by
  have shape := Memory.SameShape.afterSearch s.memory
    (s.memory.table (cfg.buildPrefixedKey sect.key))
  have flagged : ∀ t (req : PromoteRequestMessage) e, .headOf req.key e ∈ s.pins (.promoter t) →
      req.key = cfg.buildPrefixedKey sect.key →
      (s'.memory.heap e).updateDuringPromote = true := by
    intro t req e pinned sameKey
    obtain ⟨isHead, placeholder⟩ := inv.shape.pins (.promoter t) _ pinned
    rw [inv.shape.shaped.head?_eq_table, sameKey] at isHead
    simp [memory, Memory.afterSearch, isHead, placeholder, Memory.setUpdateDuringPromote,
      Memory.modify]
  refine ⟨fun e serves => ?_, fun data carries => ?_, fun t req e read pc sameKey => ?_⟩
  · obtain ⟨isHead, readOnly⟩ := serves
    rw [memory, shape.table] at isHead
    rw [memory, shape.types] at readOnly
    rw [target]
    simp [Memory.findFirstUpdatableEntry, isHead, readOnly]
  · obtain ⟨t, req, e, sameKey, holds⟩ := carries
    rw [promoters] at holds
    rcases holds with ⟨pc, unflagged⟩ | pc
    · simp [flagged t req e (by simp [State.pins, pc, PromotePc.pins]) sameKey] at unflagged
    · have locked := inv.lock (.promoter t) (cfg.shardOf req.key) (by simp [lockedShard?, pc])
      rw [sameKey, free] at locked
      simp at locked
  · rw [promoters] at pc
    exact .inl (flagged t req e (by simp [State.pins, pc, PromotePc.pins]) sameKey)

end

variable (coherent : Coherent cfg agrees s) (inv : CacheInv cfg s chains)
include coherent inv

theorem workerShielded {own : WorkerAction} (fresh : FreshBlocks s (.worker w own))
    (taken : RecordCache.step cfg s (.worker w own) = some s') (stepped : WorkerStep cfg s w own s')
    (busy : s'.workers w = .busy sect stage) (searched : stage.searched = true) :
    Shielded cfg s' sect stage := by
  have kept : ∀ sect' stage',
      s.workers w = .busy sect' stage' → stage'.searched = true →
      Shielded cfg s' sect' stage' :=
    fun _ _ busy searched => (coherent.shielded_step inv fresh taken busy searched).1
  cases stepped with
  | selectNone pc free missed =>
    simp only [setWorker, update_self] at busy
    obtain ⟨rfl, rfl⟩ := busy
    exact shielded_search inv free rfl rfl missed.symm
  | select pc free found =>
    simp only [setWorker, update_self] at busy
    obtain ⟨rfl, rfl⟩ := busy
    exact shielded_search inv free rfl rfl found.symm
  | loadType pc | readEpoch pc | push pc | leaveEpoch pc =>
    simp only [setWorker, update_self] at busy
    obtain ⟨rfl, rfl⟩ := busy
    exact ⟨(kept _ _ pc rfl).serves, (kept _ _ pc rfl).carries, (kept _ _ pc rfl).reads⟩
  | loadOther pc type | casFails pc type =>
    simp only [setWorker, update_self] at busy
    obtain ⟨rfl, rfl⟩ := busy
    exact (kept _ _ pc rfl).lower fun target isTarget => by
      simp only [WorkerStage.pending?, Option.some.injEq] at isTarget
      exact isTarget ▸ type
  | casType pc =>
    simp only [setWorker, update_self] at busy
    obtain ⟨rfl, rfl⟩ := busy
    exact (kept _ _ pc rfl).lower fun target isTarget => by
      simp only [WorkerStage.pending?, Option.some.injEq] at isTarget
      simp [isTarget]
  | startTX pc | touch pc | commitTX pc | abortTX pc | abortDone pc | lookupHit pc
  | lookupMiss pc => exact absurd (pc.symm.trans busy) (by simp)
  | unlatch => simp at busy
  | _ =>
    -- the other stages come before the search or after the write
    simp only [setWorker, setTransaction, update_self, WorkerPc.busy.injEq] at busy
    simp [← busy.2, WorkerStage.searched] at searched

variable (taken : RecordCache.step cfg s a = some s')
  (tolerates : Tolerates cfg agrees s s' a)
include taken tolerates

theorem exposed_step (fresh : FreshBlocks s a)
    (exposes : s'.Exposes cfg key data) (slotIs : s'.leaves.SlotIs key slot) :
    agrees data slot := by
  rcases (inv.leaf.step taken).stores with
    same | ⟨w, signal, sect, stage, rfl, busy, mayWrite, rewrites⟩
  · have slotIs := Leaves.slotIs_congr (same key) slotIs
    rcases exposes_step inv fresh taken exposes with old | validates
    · exact coherent.exposed key data slot old slotIs
    · exact tolerates.validated key data slot validates slotIs
  · -- a write validates no read
    have old : s.Exposes cfg key data := by
      rcases exposes_step inv fresh taken exposes with old | ⟨_, _, _, _, isRecheck, _⟩
      · exact old
      · simp at isRecheck
    by_cases sameKey : key = sect.key
    · subst sameKey
      cases invalidates : sect.invalidates with
      | false =>
        obtain ⟨slot₀, slotIs₀⟩ := s.leaves.exists_slotIs sect.key
        exact tolerates.rewritten w signal sect stage data slot₀ slot rfl busy
          invalidates old slotIs₀ slotIs (coherent.exposed _ data slot₀ old slotIs₀)
      | true =>
        -- an invalidating section writes behind its shield
        cases stage with
        | ready =>
          have shield := coherent.shielded w sect _ busy rfl
          rcases old with ⟨e, serves, -⟩ | carries
          · exact absurd (shield.serves e serves) (by simp [WorkerStage.pending?])
          · exact absurd carries (shield.carries data)
        | _ => simp [LeafSection.mayWrite, invalidates] at mayWrite
    · exact coherent.exposed key data slot old
        (Leaves.slotIs_congr (fun tuple => rewrites.others key tuple sameKey) slotIs)

theorem step (fresh : FreshBlocks s a) : Coherent cfg agrees s' where
  exposed _ _ _ exposes slotIs := coherent.exposed_step inv taken tolerates fresh exposes slotIs
  shielded w sect stage busy searched := by
    rcases workers_of_step taken w with ⟨_, rfl, stepped⟩ | same
    · exact coherent.workerShielded inv fresh taken stepped busy searched
    · exact (coherent.shielded_step inv fresh taken (same ▸ busy) searched).1

end Coherent

/-- What a validated read has copied is what the slot holds, if no latch was reset. -/
theorem CacheInv.copied_of_validates {a : Action} (inv : CacheInv cfg s chains)
    (reads : ReadInv cfg s) (validates : s.Validates a (cfg.buildPrefixedKey key) data)
    (slotIs : s.leaves.SlotIs key slot) :
    ∃ t req tuple, (s.promoters t).request? = some req ∧ req.key = cfg.buildPrefixedKey key ∧
      slot = some tuple ∧ data = tuple.copyOut req.valueLength := by
  obtain ⟨t, req, e, v, -, pc, sameKey, still, -⟩ := validates
  obtain ⟨_, tuple, keyed, stores, copied⟩ := reads.validated inv.promotion inv.leaf pc still
  cases cfg.buildPrefixedKey_injective (keyed.symm.trans sameKey)
  refine ⟨t, req, tuple, by rw [pc]; rfl, sameKey, ?_, copied⟩
  cases slot with
  | none => exact absurd stores (slotIs tuple)
  | some => rw [inv.leaf.wellFormed.unique stores slotIs]

theorem Initial.coherent (initial : Initial s) (agrees : ReadData → Option ChainedTuple → Prop) :
    Coherent cfg agrees s where
  exposed key data slot exposes := by
    rcases exposes with ⟨e, ⟨isHead, -⟩, -⟩ | ⟨t, _, e, -, holds⟩
    · simp [initial.table] at isHead
    · simp [initial.promoters] at holds
  shielded w sect stage busy := by
    simp [initial.workers] at busy

end TieredStore.RecordCache
