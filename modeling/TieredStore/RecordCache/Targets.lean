import TieredStore.RecordCache.Coherence
import TieredStore.RecordCache.References

namespace TieredStore.RecordCache

open Transition List WorkerPc

def Memory.keyOf (memory : Memory) (entry : Addr) : Bytes :=
  (memory.heap entry).getKeySpan

theorem Memory.KeepsData.keyOf {memory memory' : Memory} {e : Addr}
    (keeps : memory.KeepsData memory' e) : memory'.keyOf e = memory.keyOf e := by
  simp only [Memory.keyOf, RecordCacheEntry.getKeySpan, keeps.keyLength, keeps.payload]

theorem HeaderOf.keyOf_publish {memory : Memory} {e : Addr}
    {req : PromoteRequestMessage} (header : HeaderOf memory e req)
    (data : ReadData) : (memory.publish e data).keyOf e = memory.keyOf e := by
  have length := congrArg length header.key
  rw [← header.keyLength] at length
  simp only [RecordCacheEntry.getKeySpan] at length
  simp only [Memory.keyOf, Memory.publish, Memory.modify, Function.update_self,
    RecordCacheEntry.getKeySpan]
  rw [take_left' length]

structure KeyInv (cfg : Config) (s : State) : Prop where
  linked : ∀ key e, s.memory.Linked key e → s.memory.keyOf e = key
  target : ∀ w sect stage e, s.workers w = .busy sect stage → (s.workers w).target? = some e →
    s.memory.keyOf e = cfg.buildPrefixedKey sect.key

variable {cfg : Config} {s s' : State} {a : Action}
  {chains : Bytes → List Addr} {e : Addr}

theorem CacheInv.keyOf_step (inv : CacheInv cfg s chains) (fresh : FreshBlocks s a)
    (taken : RecordCache.step cfg s a = some s') (old : a.allocated? ≠ some e) :
    s'.memory.keyOf e = s.memory.keyOf e := by
  cases published : s.published? a with
  | none =>
    have cache := inv.shape.cacheStep fresh taken
    exact (cache.keeps e old (by simp [published])).keyOf
  | some other =>
    obtain ⟨t, _, req, data, rfl, pc⟩ := State.published?_eq_some published
    by_cases same : e = other
    · subst same
      have sound := inv.promotion.sound t
      rw [pc] at sound
      have header := sound.header req e rfl rfl
      simp only [RecordCache.step, promoteStep, pc, Option.some.injEq] at taken
      subst taken
      exact header.keyOf_publish data
    · have cache := inv.shape.cacheStep fresh taken
      refine (cache.keeps e old ?_).keyOf
      rw [published]
      exact fun isOther => same (Option.some.inj isOther).symm

theorem Initial.keyInv (initial : Initial s) : KeyInv cfg s where
  linked key e linked := by
    exact absurd linked ((initial.unreferenced e).chains key)
  target w sect stage e busy := by simp [initial.workers] at busy

namespace KeyInv

theorem step (keys : KeyInv cfg s) (inv : CacheInv cfg s chains) (fresh : FreshBlocks s a)
    (taken : RecordCache.step cfg s a = some s') : KeyInv cfg s' where
  linked key e linked := by
    rcases (inv.shape.cacheStep fresh taken).linked key e linked with before | ⟨t, req, pc, rfl⟩
    · rw [inv.keyOf_step fresh taken fun new => (fresh e new).chains key before]
      exact keys.linked key e before
    · have owns : (s.promoters t).placeholder? = some e := by rw [pc]; rfl
      rw [inv.keyOf_step fresh taken fun new => (fresh e new).promoters t owns]
      exact ((inv.promotion.sound t).header req e (by rw [pc]; rfl) owns).key
  target w sect stage e busy target := by
    rcases target_of_step inv.shape taken busy target with ⟨stage₀, busy₀, before⟩ | ⟨linked, -⟩
    · rw [inv.keyOf_step fresh taken fun new => (fresh e new).workers w before]
      exact keys.target w sect stage₀ e busy₀ before
    · rw [inv.keyOf_step fresh taken fun new => (fresh e new).chains _ linked]
      exact keys.linked _ e linked

theorem target_unique (keys : KeyInv cfg s) (leaf : LeafInv s)
    {w w' : Nat} (target : (s.workers w).target? = some e)
    (target' : (s.workers w').target? = some e) : w = w' := by
  cases busy : s.workers w with
  | idle => simp [busy, target?] at target
  | busy sect stage =>
    cases busy' : s.workers w' with
    | idle => simp [busy', target?] at target'
    | busy sect' stage' =>
      have sameKey := cfg.buildPrefixedKey_injective
        ((keys.target w sect stage e busy target).symm.trans
          (keys.target w' sect' stage' e busy' target'))
      have occupies := leaf.occupies w sect stage busy
      have occupies' := leaf.occupies w' sect' stage' busy'
      refine leaf.exclusive w w' sect sect' stage stage' busy busy' ?_
      rw [← occupies.routed, ← occupies'.routed, sameKey]

end KeyInv

end TieredStore.RecordCache
