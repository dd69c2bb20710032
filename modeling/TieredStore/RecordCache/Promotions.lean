import TieredStore.RecordCache.Footprint
import TieredStore.RecordCache.Latches

namespace TieredStore.RecordCache

open Transition Function List BufferFrame ChainedTuple PromotePc State

def PromoteRequestMessage.WellKeyed (cfg : Config) (req : PromoteRequestMessage) : Prop :=
  ∃ key, req.key = cfg.buildPrefixedKey key ∧ req.keyLength = req.key.length

structure HeaderOf (memory : Memory) (e : Addr) (req : PromoteRequestMessage) : Prop where
  keyLength : (memory.heap e).keyLength = req.key.length
  valueLength : (memory.heap e).valueLength = req.valueLength
  key : (memory.heap e).getKeySpan = req.key

variable {req request : PromoteRequestMessage} {e entry : Addr} {data : ReadData}

theorem HeaderOf.keep {memory memory' : Memory}
    (header : HeaderOf memory e req) (keeps : memory.KeepsData memory' e) :
    HeaderOf memory' e req where
  keyLength := keeps.keyLength.trans header.keyLength
  valueLength := keeps.valueLength.trans header.valueLength
  key := by
    simp only [RecordCacheEntry.getKeySpan, keeps.keyLength, keeps.payload]
    exact header.key

theorem headerOf_allocateNewEntry (memory : Memory) (e : Addr) (req : PromoteRequestMessage) :
    HeaderOf (memory.allocateNewEntry e req.key req.valueLength) e req := by
  constructor <;> simp [Memory.allocateNewEntry, RecordCacheEntry.getKeySpan]

theorem HeaderOf.dataOf_publish {memory : Memory}
    (header : HeaderOf memory e req) (sized : data.value.length ≤ req.valueLength) :
    (memory.publish e data).dataOf e = data := by
  have keyBytes : ((memory.heap e).payload.take (memory.heap e).keyLength).length =
      (memory.heap e).keyLength := by
    have := congrArg length header.key
    rw [RecordCacheEntry.getKeySpan] at this
    rw [this, header.keyLength]
  simp only [Memory.dataOf, Memory.publish, Memory.modify, update_self,
    RecordCacheEntry.getValueSpan]
  rw [drop_left' keyBytes, take_of_length_le (header.valueLength ▸ sized)]

def ReadStage.version? : ReadStage → Option Nat
  | .start => none
  | .guarded version => some version
  | .checked version => some version
  | .header version _ _ _ => some version
  | .copied version _ => some version

def ReadStage.Matches (cfg : Config) (req : PromoteRequestMessage)
    (frame : BufferFrame) : ReadStage → Prop
  | .start => True
  | .guarded _ => True
  | .checked _ => slotStillHoldsKey cfg req frame = true
  | .header _ txTs workerId writer =>
    slotStillHoldsKey cfg req frame = true ∧
      ∃ slot, frame.slots[req.slotId]? = some slot ∧ txTs = slot.tuple.txTs ∧
        workerId = slot.tuple.workerId ∧ writer = slot.tuple.writer
  | .copied _ data =>
    slotStillHoldsKey cfg req frame = true ∧
      ∃ slot, frame.slots[req.slotId]? = some slot ∧
        data = slot.tuple.copyOut req.valueLength

/-- The read's version is even and not ahead of the leaf, and while the leaf's
version stands there, the read matches the leaf. -/
def ReadStage.Consistent (cfg : Config) (req : PromoteRequestMessage)
    (frame : BufferFrame) (stage : ReadStage) : Prop :=
  ∀ v, stage.version? = some v →
    v % 2 = 0 ∧ v ≤ frame.version ∧
      (frame.version = v → stage.Matches cfg req frame)

variable {cfg : Config} {t thread : Nat} {s : State}

theorem ReadStage.Consistent.advance {stage : ReadStage} {leaves leaves' : Leaves} {position : Nat}
    (consistent : stage.Consistent cfg req (leaves.frames position))
    (advances : leaves.Advances leaves') : stage.Consistent cfg req (leaves'.frames position) := by
  intro v atVersion
  obtain ⟨even, behind, isMatch⟩ := consistent v atVersion
  rcases advances position with same | later | ⟨same, latched⟩
  · rw [same]
    exact ⟨even, behind, isMatch⟩
  · exact ⟨even, by omega, fun still => by omega⟩
  · -- an even version is not the version of a latched leaf
    simp only [isExclusivelyLatched, beq_iff_eq] at latched
    exact ⟨even, by omega, fun still => by omega⟩

theorem slotStillHoldsKey_slot {frame : BufferFrame} {slot : LeafSlot}
    (holds : slotStillHoldsKey cfg req frame = true)
    (found : frame.slots[req.slotId]? = some slot) {key : Bytes}
    (keyed : req.key = cfg.buildPrefixedKey key)
    (keyLength : req.keyLength = req.key.length) : frame.state = .hot ∧ slot.key = key := by
  simp only [slotStillHoldsKey, found, Bool.and_eq_true, decide_eq_true_eq] at holds
  obtain ⟨⟨-, hot⟩, ⟨⟨-, length⟩, -⟩, bytes⟩ := holds
  refine ⟨hot, ?_⟩
  have keyBytes : key.length = slot.key.length := by
    rw [length, keyLength, ← length_drop, keyed, Config.drop_buildPrefixedKey]
  rw [bytes, keyed, Config.drop_buildPrefixedKey, ← keyBytes, take_length]

namespace PromotePc

def request? : PromotePc → Option PromoteRequestMessage
  | .idle => none
  | .counting => none
  | .allocating request => some request
  | .rescuing request => some request
  | .preallocated request _ => some request
  | .notConsumed request _ => some request
  | .installed request _ => some request
  | .reading request _ _ => some request
  | .readFailed request _ => some request
  | .unlinked request _ => some request
  | .validated request _ _ => some request
  | .deciding request _ _ _ => some request

def data? : PromotePc → Option ReadData
  | .reading _ _ (.copied _ data) => some data
  | .validated _ _ data => some data
  | .deciding _ _ data _ => some data
  | _ => none

structure Sound (cfg : Config) (memory : Memory) (pc : PromotePc) : Prop where
  keyed : ∀ req, pc.request? = some req → req.WellKeyed cfg
  header : ∀ req e, pc.request? = some req → pc.placeholder? = some e → HeaderOf memory e req
  sized : ∀ req data, pc.request? = some req → pc.data? = some data →
    data.value.length ≤ req.valueLength

variable {cfg : Config} {memory memory' : Memory} {pc pc' : PromotePc}

theorem Sound.transport (sound : pc.Sound cfg memory)
    (keeps : ∀ e, pc.placeholder? = some e → memory.KeepsData memory' e) :
    pc.Sound cfg memory' where
  keyed := sound.keyed
  header req e isRequest isEntry := (sound.header req e isRequest isEntry).keep (keeps e isEntry)
  sized := sound.sized

theorem Sound.finished (finished : pc.request? = none) : pc.Sound cfg memory := by
  cases pc <;> simp only [request?, reduceCtorEq] at finished
  all_goals constructor <;> simp [request?]

theorem Sound.next (sound : pc.Sound cfg memory)
    (req : ∀ req, pc'.request? = some req → pc.request? = some req)
    (e : ∀ e, pc'.placeholder? = some e → pc.placeholder? = some e)
    (data : ∀ data, pc'.data? = some data → pc.data? = some data) : pc'.Sound cfg memory where
  keyed request' isRequest := sound.keyed request' (req request' isRequest)
  header request' e' isRequest isEntry :=
    sound.header request' e' (req request' isRequest) (e e' isEntry)
  sized request' data' isRequest isData :=
    sound.sized request' data' (req request' isRequest) (data data' isData)

end PromotePc

theorem request_of_step {s s' : State} {a : Action} (taken : step cfg s a = some s')
    (holds : (s'.promoters t).request? = some req) :
    (s.promoters t).request? = some req ∨ req ∈ s.requests := by
  rcases promoters_of_step taken t with
    ⟨own, rfl⟩ | same | ⟨request', ⟨before, after⟩ | ⟨before, after⟩⟩
  · cases promoteStep_cases taken with
    | dequeue pc queue =>
      simp only [setPromoter, update_self, request?, Option.some.injEq] at holds
      exact .inr (by simp [queue, holds])
    | _ =>
      left
      simp_all [request?]
  · exact .inl (same ▸ holds)
  · rw [after] at holds
    exact .inl (by rw [before]; exact holds)
  · rw [after] at holds
    exact .inl (by rw [before]; exact holds)

structure PromotionInv (cfg : Config) (s : State) : Prop where
  queued : ∀ req ∈ s.requests, req.WellKeyed cfg
  sound : ∀ t, (s.promoters t).Sound cfg s.memory

namespace PromotionInv

variable {cfg : Config} {s s' : State} {chains : Bytes → List Addr}
  {t : Nat} {a : Action}

section

variable (cache : CacheStep s s' a)
include cache

theorem keeps_owned (shape : ShapeInv s chains) (t : Nat)
    (fresh : FreshBlocks s a) (owns : (s.promoters t).placeholder? = some e)
    (other : ∀ chain, a ≠ .promote t (.finish chain)) : s.memory.KeepsData s'.memory e := by
  refine cache.keeps e (fun new => (fresh e new).promoters t owns) fun published => ?_
  obtain ⟨t', chain, _, _, rfl, pc⟩ := published?_eq_some published
  have same := shape.apart t t' e owns (by rw [pc]; rfl)
  exact other chain (by rw [same])

variable (fresh : FreshBlocks s a) (shape : ShapeInv s chains) (inv : PromotionInv cfg s)
include fresh shape inv

theorem others (other : ∀ chain, a ≠ .promote t (.finish chain)) :
    (s.promoters t).Sound cfg s'.memory :=
  (inv.sound t).transport fun _ owns => keeps_owned cache shape t fresh owns other

theorem next (t : Nat) (requests : ∀ req ∈ s'.requests, req.WellKeyed cfg)
    (same : ∀ other, other ≠ t → s'.promoters other = s.promoters other)
    (actor : ∀ other chain, other ≠ t → a ≠ .promote other (.finish chain))
    (own : (s'.promoters t).Sound cfg s'.memory) : PromotionInv cfg s' := by
  refine ⟨requests, fun other => ?_⟩
  by_cases isThread : other = t
  · exact isThread ▸ own
  · rw [same other isThread]
    exact inv.others cache fresh shape fun chain isFinish =>
      actor other chain isThread isFinish

theorem sameThreads (requests : ∀ req ∈ s'.requests, req.WellKeyed cfg)
    (promoters : s'.promoters = s.promoters) (actor : ∀ t chain, a ≠ .promote t (.finish chain)) :
    PromotionInv cfg s' := by
  refine ⟨requests, fun t => ?_⟩
  rw [promoters]
  exact inv.others cache fresh shape fun chain isFinish => actor t chain isFinish

end

theorem sized_copyValueBytes (frame : BufferFrame) (req : PromoteRequestMessage) :
    (copyValueBytes frame req).length ≤ req.valueLength := by
  unfold copyValueBytes
  split
  · simp
  · simp only [copyOut, length_take]
    omega

theorem ownSound {a : PromoteAction} (inv : PromotionInv cfg s)
    (shape : ShapeInv s chains) (fresh : FreshBlocks s (.promote t a))
    (cache : CacheStep s s' (.promote t a)) (unfinished : ∀ chain, a ≠ .finish chain)
    (taken : PromoteStep cfg s t a s') : (s'.promoters t).Sound cfg s'.memory := by
  have sound : (s.promoters t).Sound cfg s'.memory :=
    inv.others cache fresh shape fun chain isFinish => by
      simp only [Action.promote.injEq, true_and] at isFinish
      exact unfinished chain isFinish
  generalize after : s'.promoters t = pc'
  cases taken with
  | @dequeue req rest pc queue =>
    simp only [setPromoter, update_self] at after
    subst after
    refine ⟨fun request' isRequest => ?_, by simp [placeholder?], by simp [data?]⟩
    simp only [request?, Option.some.injEq] at isRequest
    exact inv.queued request' (by simp [queue, isRequest])
  | @allocate req e pc =>
    rw [pc] at sound
    simp only [setPromoter, update_self] at after
    subst after
    refine ⟨sound.keyed, fun request' e' isRequest isEntry => ?_, by simp [data?]⟩
    simp only [request?, placeholder?, Option.some.injEq] at isRequest isEntry
    subst isRequest
    subst isEntry
    exact headerOf_allocateNewEntry ..
  | @copyValue req e v txTs workerId writer pc =>
    rw [pc] at sound
    simp only [setPromoter, update_self] at after
    subst after
    refine ⟨sound.keyed, sound.header, fun request' data' isRequest isData => ?_⟩
    cases isRequest
    cases isData
    exact sized_copyValueBytes ..
  | publish | cancel | nothing => exact absurd rfl (unfinished _)
  | _ =>
    rename s.promoters t = _ => pc
    rw [pc] at sound
    subst after
    exact sound.next (by simp [request?]) (by simp [placeholder?]) (by simp [data?])

theorem promoteStep {a : PromoteAction} (inv : PromotionInv cfg s)
    (shape : ShapeInv s chains) (fresh : FreshBlocks s (.promote t a))
    (taken : PromoteStep cfg s t a s') : PromotionInv cfg s' := by
  have cache := shape.promoteCacheStep fresh taken
  refine inv.next cache fresh shape t ?_ ?_ ?_ ?_
  · cases taken with
    | dequeue pc queue => exact fun req mem => inv.queued req (by simp [queue, mem])
    | _ => exact inv.queued
  · intro other ne
    cases taken <;>
      simp [update_of_ne ne]
  · intro other chain ne isFinish
    simp only [Action.promote.injEq] at isFinish
    exact ne isFinish.1.symm
  · cases taken with
    | publish | cancel | nothing => simpa using Sound.finished rfl
    | _ => exact inv.ownSound shape fresh cache (by simp) (by constructor <;> assumption)

theorem wellKeyed_directUpdateRequest (sect : LeafSection) (frame : BufferFrame) :
    (directUpdateRequest cfg sect frame).WellKeyed cfg :=
  ⟨sect.key, rfl, rfl⟩

theorem wellKeyed_admissionRequest (frame slotId pid : Nat) (slot : LeafSlot) :
    (admissionRequest cfg frame slotId pid slot).WellKeyed cfg :=
  ⟨slot.key, rfl, rfl⟩

theorem step {a : Action} (inv : PromotionInv cfg s)
    (shape : ShapeInv s chains) (fresh : FreshBlocks s a)
    (taken : RecordCache.step cfg s a = some s') : PromotionInv cfg s' := by
  have cache := shape.cacheStep fresh taken
  cases step_cases taken with
  | @worker w _ stepped =>
    refine inv.sameThreads cache fresh shape ?_ ?_ (by simp)
    · cases stepped with
      | write =>
        intro req mem
        split at mem
        · rcases mem_append.mp mem with old | new
          · exact inv.queued req old
          · rw [mem_singleton.mp new]
            exact wellKeyed_directUpdateRequest ..
        · exact inv.queued req mem
      | _ => exact inv.queued
    · cases stepped <;> rfl
  | promote stepped => exact inv.promoteStep shape fresh stepped
  | forward stepped | sieve stepped =>
    refine inv.sameThreads cache fresh shape ?_ ?_ (by simp)
    · cases stepped <;> exact inv.queued
    · cases stepped <;> rfl
  | rescue stepped =>
    have queued : ∀ req ∈ s'.requests, req.WellKeyed cfg := by
      cases stepped <;> exact inv.queued
    cases stepped with
    | @begin promoter slab req idle pc =>
      refine inv.next cache fresh shape promoter queued ?_ (by simp) ?_
      · intro other ne
        simp [ne]
      · have sound := inv.sound promoter
        rw [pc] at sound
        have after : Sound cfg s.memory (.rescuing req) :=
          sound.next (by simp [request?]) (by simp [placeholder?]) (by simp [data?])
        simpa using after
    | @finish run req pc done caller =>
      refine inv.next cache fresh shape run.promoter queued ?_ (by simp) ?_
      · intro other ne
        simp [ne]
      · have sound := inv.sound run.promoter
        rw [caller] at sound
        have after : Sound cfg s.memory (.allocating req) :=
          sound.next (by simp [request?]) (by simp [placeholder?]) (by simp [data?])
        simpa using after
    | _ => exact inv.sameThreads cache fresh shape queued rfl (by simp)
  | page stepped =>
    refine inv.sameThreads cache fresh shape ?_ ?_ (by simp)
    · cases stepped with
      | promoteRecordCacheEntry =>
        exact forall_mem_append.mpr
          ⟨inv.queued, forall_mem_singleton.mpr (wellKeyed_admissionRequest ..)⟩
      | _ => exact inv.queued
    · cases stepped <;> rfl

end PromotionInv

/-- The key that a promotion reads is the one that its checks have found in the frame. -/
theorem PromotionInv.stores_of_holds (inv : PromotionInv cfg s) (leaf : LeafInv s)
    {stage : ReadStage} {slot : LeafSlot} (pc : s.promoters t = .reading req e stage)
    (holds : slotStillHoldsKey cfg req (s.leaves.frames req.bf) = true)
    (found : (s.leaves.frames req.bf).slots[req.slotId]? = some slot) :
    req.key = cfg.buildPrefixedKey slot.key ∧ s.leaves.Stores slot.key slot.tuple ∧
      s.leaves.route slot.key = req.bf := by
  have sound := inv.sound t
  rw [pc] at sound
  obtain ⟨key, keyed, keyLength⟩ := sound.keyed req rfl
  obtain ⟨hot, rfl⟩ := slotStillHoldsKey_slot holds found keyed keyLength
  have live : (s.leaves.frames req.bf).state ≠ .free := by simp [hot]
  have mem := mem_of_getElem? found
  exact ⟨keyed, ⟨req.bf, live, mem⟩, leaf.wellFormed.routed _ slot live mem⟩

/-- The reads of the promotions, as long as no latch comes back to a version it had. -/
def ReadInv (cfg : Config) (s : State) : Prop :=
  ∀ t req e stage, s.promoters t = .reading req e stage →
    stage.Consistent cfg req (s.leaves.frames req.bf)

namespace ReadInv

variable {s' : State} {a : Action}

theorem own {own : PromoteAction} (reads : ReadInv cfg s) (taken : PromoteStep cfg s t own s')
    {stage : ReadStage} (after : s'.promoters t = .reading req e stage) :
    stage.Consistent cfg req (s.leaves.frames req.bf) := by
  intro v atVersion
  cases taken with
  | insertIntoFifo =>
    simp only [setPromoter, update_self] at after
    cases after
    contradiction
  | guard pc unlatched =>
    simp only [setPromoter, update_self] at after
    cases after
    cases atVersion
    simp only [isExclusivelyLatched, beq_eq_false_iff_ne] at unlatched
    exact ⟨by omega, le_refl _, fun _ => trivial⟩
  | check pc holds =>
    simp only [setPromoter, update_self] at after
    cases after
    obtain ⟨even, behind, -⟩ := reads t _ _ _ pc v atVersion
    exact ⟨even, behind, fun _ => holds⟩
  | readHeaderMissing pc missing =>
    -- the slot is gone, so the version has moved on
    simp only [setPromoter, update_self] at after
    cases after
    obtain ⟨even, behind, holds⟩ := reads t _ _ _ pc v atVersion
    refine ⟨even, behind, fun still => ?_⟩
    have held : slotStillHoldsKey cfg req (s.leaves.frames req.bf) = true := holds still
    simp [slotStillHoldsKey, missing] at held
  | readHeader pc found =>
    simp only [setPromoter, update_self] at after
    cases after
    obtain ⟨even, behind, holds⟩ := reads t _ _ _ pc v atVersion
    exact ⟨even, behind, fun still => ⟨holds still, _, found, rfl, rfl, rfl⟩⟩
  | copyValue pc =>
    simp only [setPromoter, update_self] at after
    cases after
    obtain ⟨even, behind, holds⟩ := reads t _ _ _ pc v atVersion
    refine ⟨even, behind, fun still => ?_⟩
    obtain ⟨held, slot, found, rfl, rfl, rfl⟩ := holds still
    exact ⟨held, slot, found, by simp only [copyValueBytes, found, copyOut]⟩
  | _ => simp at after

theorem step (reads : ReadInv cfg s) (leaf : LeafInv s) (resets : ResetsFresh s a)
    (taken : RecordCache.step cfg s a = some s') : ReadInv cfg s' := by
  intro t req e stage after
  have advances := (leaf.step taken).advances resets
  rcases promoters_of_step taken t with ⟨_, rfl⟩ | same | ⟨_, ⟨-, pc⟩ | ⟨-, pc⟩⟩
  · exact (reads.own (promoteStep_cases taken) after).advance advances
  · exact (reads t req e stage (same ▸ after)).advance advances
  · simp [pc] at after
  · simp [pc] at after

theorem validated (reads : ReadInv cfg s) (inv : PromotionInv cfg s) (leaf : LeafInv s) {v : Nat}
    (pc : s.promoters t = .reading req e (.copied v data))
    (same : (s.leaves.frames req.bf).version = v) :
    ∃ key tuple, req.key = cfg.buildPrefixedKey key ∧
      s.leaves.Stores key tuple ∧ data = tuple.copyOut req.valueLength := by
  obtain ⟨-, -, isMatch⟩ := reads t req e _ pc v rfl
  obtain ⟨holds, slot, found, rfl⟩ := isMatch same
  obtain ⟨keyed, stores, -⟩ := inv.stores_of_holds leaf pc holds found
  exact ⟨slot.key, slot.tuple, keyed, stores, rfl⟩

end ReadInv

theorem Initial.readInv (initial : Initial s) : ReadInv cfg s := by
  intro t req e stage pc
  simp [initial.promoters] at pc

theorem Initial.promotionInv (initial : Initial s) : PromotionInv cfg s where
  queued := by simp [initial.requests]
  sound t := by
    rw [initial.promoters t]
    exact .finished rfl

end TieredStore.RecordCache
