import Mathlib

/-! Wrapping counters of finite sets. -/

namespace TieredStore

open List

universe u

variable {Token : Type u} {isToken isToken' : Token → Prop} {count : UInt64} {token : Token}

def Tally (isToken : Token → Prop) (count : UInt64) : Prop :=
  ∃ tokens : List Token, tokens.Nodup ∧ (∀ token, token ∈ tokens ↔ isToken token) ∧
    count = UInt64.ofNat tokens.length

namespace Tally

theorem empty (none : ∀ token, ¬ isToken token) : Tally isToken 0 :=
  ⟨[], nodup_nil, by simpa using none, rfl⟩

section

variable (tally : Tally isToken count)
include tally

theorem congr (same : ∀ token, isToken' token ↔ isToken token) : Tally isToken' count := by
  obtain ⟨tokens, nodup, mem_iff, length⟩ := tally
  exact ⟨tokens, nodup, fun token => (mem_iff token).trans (same token).symm, length⟩

theorem add (new : ¬ isToken token)
    (added : ∀ other, isToken' other ↔ other = token ∨ isToken other) :
    Tally isToken' (count + 1) := by
  obtain ⟨tokens, nodup, mem_iff, rfl⟩ := tally
  refine ⟨token :: tokens, nodup_cons.mpr ⟨(mem_iff token).not.mpr new, nodup⟩, fun other => ?_, ?_⟩
  · rw [mem_cons, mem_iff, added]
  · rw [length_cons, UInt64.ofNat_add]
    rfl

theorem drop [DecidableEq Token] (old : isToken token)
    (dropped : ∀ other, isToken' other ↔ other ≠ token ∧ isToken other) :
    Tally isToken' (count - 1) := by
  obtain ⟨tokens, nodup, mem_iff, rfl⟩ := tally
  have mem : token ∈ tokens := (mem_iff token).mpr old
  refine ⟨tokens.erase token, nodup.erase token, fun other => ?_, ?_⟩
  · rw [nodup.mem_erase_iff, mem_iff, dropped]
  · have length := length_erase_add_one mem
    rw [← length, UInt64.ofNat_add]
    exact UInt64.add_sub_cancel _ _

theorem eq_length {tokens : List Token} (nodup : tokens.Nodup)
    (mem_iff : ∀ token, token ∈ tokens ↔ isToken token) : count = UInt64.ofNat tokens.length := by
  obtain ⟨tokens', nodup', mem_iff', rfl⟩ := tally
  have perm : tokens'.Perm tokens := (perm_ext_iff_of_nodup nodup' nodup).mpr fun token =>
    (mem_iff' token).trans (mem_iff token).symm
  rw [perm.length_eq]

end

theorem ne_zero {isToken : Nat → Prop} {token : Nat} (tally : Tally isToken count)
    (old : isToken token) (pointers : ∀ token, isToken token → 0 < token ∧ token < 2 ^ 64) :
    count ≠ 0 := by
  obtain ⟨tokens, nodup, mem_iff, rfl⟩ := tally
  have few : tokens.length ≤ (range' 1 (2 ^ 64 - 1)).length := by
    refine (subperm_of_subset nodup fun other mem => ?_).length_le
    have bounds := pointers other ((mem_iff other).mp mem)
    exact mem_range'_1.mpr ⟨bounds.1, by omega⟩
  have some : 0 < tokens.length := length_pos_of_mem ((mem_iff token).mpr old)
  rw [length_range'] at few
  intro zero
  have := congrArg UInt64.toNat zero
  simp at this
  omega

end Tally

end TieredStore
