import Mathlib

/-!
Linear ownership: tokens that are handed from holder to holder and never
duplicated.
-/

namespace TieredStore.Ownership

open List

universe u v w

variable {Holder : Type u} {Token : Type v} {held held' : Holder → List Token}
  {some all : List Token}

theorem nodup_of_subperm (fewer : some.Subperm all) (nodup : all.Nodup) : some.Nodup := by
  obtain ⟨_, perm, sublist⟩ := fewer
  exact perm.nodup_iff.mp (nodup.sublist sublist)

theorem subperm_map {Image : Type w} (fewer : some.Subperm all)
    (image : Token → Image) : (some.map image).Subperm (all.map image) := by
  obtain ⟨kept, perm, sublist⟩ := fewer
  exact ⟨kept.map image, perm.map image, sublist.map image⟩

structure Linear (held : Holder → List Token) : Prop where
  nodup : ∀ holder, (held holder).Nodup
  unique : ∀ holder holder' token, token ∈ held holder → token ∈ held holder' → holder = holder'

namespace Linear

theorem nothing : Linear fun _ : Holder => ([] : List Token) :=
  ⟨fun _ => nodup_nil, fun _ _ _ mem => absurd mem not_mem_nil⟩

variable (linear : Linear held)
include linear

theorem disjoint {first second : Holder}
    (ne : first ≠ second) : (held first).Disjoint (held second) :=
  fun token inFirst inSecond => ne (linear.unique first second token inFirst inSecond)

theorem release (holder : Holder) (fewer : (held' holder).Subperm (held holder))
    (others : ∀ other, other ≠ holder → held' other = held other) : Linear held' := by
  have before : ∀ other token, token ∈ held' other → token ∈ held other := by
    intro other token mem
    by_cases same : other = holder
    · subst same
      exact fewer.subset mem
    · exact others other same ▸ mem
  refine ⟨fun other => ?_, fun first second token inFirst inSecond => ?_⟩
  · by_cases same : other = holder
    · subst same
      exact nodup_of_subperm fewer (linear.nodup other)
    · rw [others other same]
      exact linear.nodup other
  · exact linear.unique first second token (before first token inFirst)
      (before second token inSecond)

theorem acquire (holder : Holder) {tokens : List Token}
    (distinct : tokens.Nodup) (new : ∀ token ∈ tokens, ∀ other, token ∉ held other)
    (gained : (held' holder).Subperm (tokens ++ held holder))
    (others : ∀ other, other ≠ holder → held' other = held other) : Linear held' := by
  have before : ∀ other other' token, token ∈ held' other → token ∈ held other' →
      token ∈ held other := by
    intro other other' token mem elsewhere
    by_cases same : other = holder
    · subst same
      rcases mem_append.mp (gained.subset mem) with isNew | old
      · exact absurd elsewhere (new token isNew other')
      · exact old
    · exact others other same ▸ mem
  refine ⟨fun other => ?_, fun first second token inFirst inSecond => ?_⟩
  · by_cases same : other = holder
    · subst same
      refine nodup_of_subperm gained (nodup_append'.mpr
        ⟨distinct, linear.nodup other, fun token isNew old => new token isNew other old⟩)
    · rw [others other same]
      exact linear.nodup other
  · by_cases isFirst : first = holder
    · by_cases isSecond : second = holder
      · rw [isFirst, isSecond]
      · rw [others second isSecond] at inSecond
        exact linear.unique first second token (before first second token inFirst inSecond) inSecond
    · rw [others first isFirst] at inFirst
      exact linear.unique first second token inFirst (before second first token inSecond inFirst)

theorem move {source target : Holder} (ne : source ≠ target)
    (moved : (held' source ++ held' target).Subperm (held source ++ held target))
    (others : ∀ other, other ≠ source → other ≠ target → held' other = held other) :
    Linear held' := by
  have nodup : (held' source ++ held' target).Nodup :=
    nodup_of_subperm moved (nodup_append'.mpr
      ⟨linear.nodup source, linear.nodup target, linear.disjoint ne⟩)
  obtain ⟨nodupSource, nodupTarget, disjoint⟩ := nodup_append'.mp nodup
  -- what a holder has now was among the two, or is what it had before
  have before : ∀ holder token, token ∈ held' holder →
      ∃ owner, token ∈ held owner ∧
        (owner = holder ∨ ((holder = source ∨ holder = target) ∧
          (owner = source ∨ owner = target))) := by
    intro holder token mem
    by_cases either : holder = source ∨ holder = target
    · have inBoth : token ∈ held' source ++ held' target := by
        rcases either with rfl | rfl <;> simp [mem]
      rcases mem_append.mp (moved.subset inBoth) with old | old
      · exact ⟨source, old, .inr ⟨either, .inl rfl⟩⟩
      · exact ⟨target, old, .inr ⟨either, .inr rfl⟩⟩
    · rw [not_or] at either
      exact ⟨holder, others holder either.1 either.2 ▸ mem, .inl rfl⟩
  refine ⟨fun other => ?_, fun first second token inFirst inSecond => ?_⟩
  · by_cases isSource : other = source
    · exact isSource ▸ nodupSource
    · by_cases isTarget : other = target
      · exact isTarget ▸ nodupTarget
      · rw [others other isSource isTarget]
        exact linear.nodup other
  · obtain ⟨owner, old, origin⟩ := before first token inFirst
    obtain ⟨owner', old', origin'⟩ := before second token inSecond
    have same := linear.unique owner owner' token old old'
    subst same
    have apart : ∀ one other, (one = source ∨ one = target) →
        (other = source ∨ other = target) → token ∈ held' one → token ∈ held' other →
        one = other := by
      rintro one other (rfl | rfl) (rfl | rfl) inOne inOther
      · rfl
      · exact absurd inOther (disjoint inOne)
      · exact absurd inOne (disjoint inOther)
      · rfl
    rcases origin with rfl | ⟨isEither, ownerEither⟩ <;>
      rcases origin' with rfl | ⟨isEither', ownerEither'⟩
    · rfl
    · exact apart _ _ ownerEither' isEither' inFirst inSecond
    · exact apart _ _ isEither ownerEither inFirst inSecond
    · exact apart _ _ isEither isEither' inFirst inSecond

theorem nodup_flatMap {holders : List Holder}
    (distinct : holders.Nodup) : (holders.flatMap held).Nodup := by
  refine List.nodup_flatMap.mpr ⟨fun holder _ => linear.nodup holder, ?_⟩
  exact distinct.imp fun ne => linear.disjoint ne

end Linear

/-- Tokens pass among the holders `involved`, and those of `lost` are dropped. -/
structure Passes (involved : List Holder) (held held' : Holder → List Token)
    (lost : List Token) : Prop where
  distinct : involved.Nodup
  conserved : (involved.flatMap held).Perm (lost ++ involved.flatMap held')
  others : ∀ holder, holder ∉ involved → held' holder = held holder

namespace Passes

variable {involved : List Holder} {lost : List Token} {holder : Holder} {token : Token}

theorem unchanged (same : ∀ holder, held' holder = held holder) : Passes [] held held' [] :=
  ⟨nodup_nil, .refl _, fun holder _ => same holder⟩

variable (passes : Passes involved held held' lost)
include passes

theorem before (isInvolved : holder ∈ involved) (has : token ∈ held' holder) :
    ∃ owner ∈ involved, token ∈ held owner := by
  have inAll : token ∈ lost ++ involved.flatMap held' :=
    mem_append_right _ (mem_flatMap.mpr ⟨holder, isInvolved, has⟩)
  exact mem_flatMap.mp (passes.conserved.mem_iff.mpr inAll)

theorem kept (had : token ∈ held holder) : token ∈ lost ∨ ∃ owner, token ∈ held' owner := by
  by_cases isInvolved : holder ∈ involved
  · have inAll : token ∈ lost ++ involved.flatMap held' :=
      passes.conserved.mem_iff.mp (mem_flatMap.mpr ⟨holder, isInvolved, had⟩)
    rcases mem_append.mp inAll with isLost | isHeld
    · exact .inl isLost
    · obtain ⟨owner, -, has⟩ := mem_flatMap.mp isHeld
      exact .inr ⟨owner, has⟩
  · exact .inr ⟨holder, passes.others holder isInvolved ▸ had⟩

theorem linear (linear : Linear held) : Linear held' := by
  have nodup : (lost ++ involved.flatMap held').Nodup :=
    passes.conserved.nodup_iff.mp (linear.nodup_flatMap passes.distinct)
  obtain ⟨each, apart⟩ := nodup_flatMap.mp (nodup_append'.mp nodup).2.1
  -- a holder that is not involved shares nothing with one that is
  have separate : ∀ inside ∈ involved, ∀ outside ∉ involved, ∀ token,
      token ∈ held' inside → token ∉ held' outside := by
    intro inside isInvolved outside notInvolved token has hasToo
    obtain ⟨owner, ownerInvolved, had⟩ := passes.before isInvolved has
    rw [passes.others outside notInvolved] at hasToo
    exact notInvolved (linear.unique owner outside token had hasToo ▸ ownerInvolved)
  refine ⟨fun holder => ?_, fun first second token inFirst inSecond => ?_⟩
  · by_cases isInvolved : holder ∈ involved
    · exact each holder isInvolved
    · exact passes.others holder isInvolved ▸ linear.nodup holder
  · by_cases firstInvolved : first ∈ involved
    · by_cases secondInvolved : second ∈ involved
      · by_contra ne
        have : Std.Symm (Function.onFun Disjoint held') :=
          ⟨fun _ _ disjoint _ inSecond inFirst => disjoint inFirst inSecond⟩
        exact apart.forall firstInvolved secondInvolved ne inFirst inSecond
      · exact absurd inSecond (separate first firstInvolved second secondInvolved _ inFirst)
    · by_cases secondInvolved : second ∈ involved
      · exact absurd inFirst (separate second secondInvolved first firstInvolved _ inSecond)
      · rw [passes.others first firstInvolved] at inFirst
        rw [passes.others second secondInvolved] at inSecond
        exact linear.unique first second token inFirst inSecond

end Passes

end TieredStore.Ownership
