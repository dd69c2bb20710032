import TieredStore.Lib.LinkChain

/-!
Linked queues: a chain of cells with a pointer to its last one.  Cells are taken
from the front and put at either end, and a loop can drop the cells that meet a
test.
-/

namespace TieredStore.LinkQueue

open LinkChain Function List

universe u

variable {Cell : Type u}

structure IsQueue (next : Cell → Option Cell) (head tail : Option Cell)
    (cells : List Cell) : Prop where
  chain : IsChain next head cells
  tail_eq : cells.getLast? = tail

namespace IsQueue

variable {next next' : Cell → Option Cell} {head tail : Option Cell} {cells : List Cell}
  {cell last : Cell}

theorem nodup (queue : IsQueue next head tail cells) : cells.Nodup := queue.chain.nodup

theorem empty (next : Cell → Option Cell) : IsQueue next none none [] := ⟨isChain_nil.mpr rfl, rfl⟩

theorem eq_nil (queue : IsQueue next none tail cells) : cells = [] := by
  cases cells with
  | nil => rfl
  | cons => simpa using queue.chain

theorem tail_eq_none_iff (queue : IsQueue next head tail cells) : tail = none ↔ cells = [] := by
  rw [← queue.tail_eq, getLast?_eq_none_iff]

theorem congr (queue : IsQueue next head tail cells)
    (agree : ∀ cell ∈ cells, next' cell = next cell) : IsQueue next' head tail cells :=
  ⟨queue.chain.congr agree, queue.tail_eq⟩

theorem pop (queue : IsQueue next (some cell) tail cells) : ∃ rest, cells = cell :: rest ∧
      IsQueue next (next cell) (if next cell = none then none else tail) rest := by
  cases cells with
  | nil => simpa using queue.chain
  | cons first rest =>
    obtain ⟨same, chain⟩ := isChain_cons.mp queue.chain
    cases same
    refine ⟨rest, rfl, chain, ?_⟩
    cases rest with
    | nil => simp [isChain_nil.mp chain]
    | cons =>
      rw [(isChain_cons.mp chain).1, if_neg (by simp), ← queue.tail_eq]
      rfl

theorem singleton (ends : next cell = none) : IsQueue next (some cell) (some cell) [cell] := by
  refine ⟨isChain_cons.mpr ⟨rfl, ?_⟩, rfl⟩
  rw [ends]
  exact isChain_nil.mpr rfl

theorem append (queue : IsQueue next head (some last) cells) (link : next' last = some cell)
    (ends : next' cell = none) (agree : ∀ other ∈ cells, other ≠ last → next' other = next other) :
    IsQueue next' head (some cell) (cells ++ [cell]) := by
  refine ⟨?_, by simp⟩
  obtain ⟨chain, isLast⟩ := queue
  induction cells generalizing head with
  | nil => simp at isLast
  | cons first rest ih =>
    obtain ⟨same, tailChain⟩ := isChain_cons.mp chain
    refine isChain_cons.mpr ⟨same, ?_⟩
    cases rest with
    | nil =>
      simp only [getLast?_singleton, Option.some.injEq] at isLast
      subst isLast
      rw [link]
      exact isChain_cons.mpr ⟨rfl, ends ▸ isChain_nil.mpr rfl⟩
    | cons second others =>
      have inRest : last ∈ second :: others := by
        apply mem_of_getLast?
        simpa using isLast
      have differs : first ≠ last := by
        rintro rfl
        exact (nodup_cons.mp chain.nodup).1 inRest
      rw [agree first mem_cons_self differs]
      apply ih _ tailChain
      · simpa using isLast
      · intro other mem
        exact agree other (mem_cons_of_mem _ mem)

theorem of_links {cellAt : Nat → Cell} {count : Nat}
    (links : ∀ i < count, next (cellAt i) = some (cellAt (i + 1)))
    (ends : next (cellAt count) = none) : IsQueue next (some (cellAt 0)) (some (cellAt count))
      ((range (count + 1)).map cellAt) := by
  have fromIndex (length first : Nat) (total : first + length = count) :
      IsChain next (some (cellAt first)) ((range' first (length + 1)).map cellAt) := by
    induction length generalizing first with
    | zero =>
      have isLast : first = count := by omega
      subst isLast
      exact isChain_cons.mpr ⟨rfl, ends ▸ isChain_nil.mpr rfl⟩
    | succ length ih =>
      refine isChain_cons.mpr ⟨rfl, ?_⟩
      rw [links first (by omega)]
      exact ih (first + 1) (by omega)
  refine ⟨?_, by simp [range_succ]⟩
  rw [range_eq_range']
  exact fromIndex count 0 (by omega)

variable [DecidableEq Cell]

theorem pushFront (queue : IsQueue next head tail cells) (outside : cell ∉ cells) :
    IsQueue (update next cell head) (some cell)
      (if tail = none then some cell else tail) (cell :: cells) := by
  refine ⟨queue.chain.push outside, ?_⟩
  cases cells with
  | nil => simp [← queue.tail_eq]
  | cons => simp [← queue.tail_eq]

end IsQueue

structure Partition (Cell : Type u) where
  next : Cell → Option Cell
  head : Option Cell
  tail : Option Cell
  removed : Nat

section Partition

variable [DecidableEq Cell]

def closeTail (next : Cell → Option Cell) : Option Cell → Cell → Option Cell
  | some tail => Function.update next tail none
  | none => next

/--
The loop `while (cur != nullptr)` that relinks the cells it keeps.  It gives up
when the fuel is spent before the end of the chain.
-/
def partitionFrom (drop : Cell → Bool) :
    Nat → (Cell → Option Cell) → (cur newHead newTail : Option Cell) → Nat → Option (Partition Cell)
  | _, next, none, newHead, newTail, removed =>
    some ⟨closeTail next newTail, newHead, newTail, removed⟩
  | 0, _, some _, _, _, _ => none
  | fuel + 1, next, some cur, newHead, newTail, removed =>
    if drop cur then
      partitionFrom drop fuel next (next cur) newHead newTail (removed + 1)
    else
      match newHead, newTail with
      | some head, some tail =>
        partitionFrom drop fuel (Function.update next tail (some cur)) (next cur)
          (some head) (some cur) removed
      | _, _ => partitionFrom drop fuel next (next cur) (some cur) (some cur) removed

variable {drop : Cell → Bool} {next : Cell → Option Cell} {cur newHead newTail : Option Cell}
  {kept rest : List Cell} {removed fuel : Nat}

theorem partitionFrom_spec (enough : rest.length ≤ fuel) (chain : IsChain next cur rest)
    (queue : IsQueue (closeTail next newTail) newHead newTail kept) (apart : kept.Disjoint rest) :
    ∃ result, partitionFrom drop fuel next cur newHead newTail removed = some result ∧
      IsQueue result.next result.head result.tail (kept ++ rest.filter fun cell => !drop cell) ∧
      result.removed = removed + rest.countP drop ∧
      ∀ cell, cell ∉ kept → cell ∉ rest → result.next cell = next cell := by
  induction rest generalizing fuel next cur newHead newTail kept removed with
  | nil =>
    rw [isChain_nil.mp chain]
    refine ⟨_, by rw [partitionFrom], by simpa using queue, by simp, ?_⟩
    intro cell notKept _
    cases newTail with
    | none => rfl
    | some =>
      apply update_of_ne
      rintro rfl
      exact notKept (mem_of_getLast? queue.tail_eq)
  | cons first others ih =>
    obtain ⟨same, chain'⟩ := isChain_cons.mp chain
    have fresh : first ∉ others := (nodup_cons.mp chain.nodup).1
    have notKept : first ∉ kept := fun mem => apart mem mem_cons_self
    have apart' : kept.Disjoint others := fun _ mem later => apart mem (mem_cons_of_mem _ later)
    obtain ⟨fuel, rfl⟩ : ∃ less, fuel = less + 1 := ⟨fuel - 1, by simp at enough; omega⟩
    have enough' : others.length ≤ fuel := by simpa using enough
    subst same
    cases dropped : drop first with
    | true =>
      obtain ⟨result, ran, isQueue, count, frame⟩ : ∃ result,
          partitionFrom drop fuel next (next first) newHead newTail (removed + 1) =
            some result ∧ _ := ih enough' chain' queue apart'
      refine ⟨result, by simp [partitionFrom, dropped, ran], by simpa [dropped], ?_, ?_⟩
      · rw [count, countP_cons_of_pos dropped]
        omega
      · intro cell notInKept notInRest
        exact frame cell notInKept fun later => notInRest (mem_cons_of_mem _ later)
    | false =>
      have apart'' : (kept ++ [first]).Disjoint others := by
        intro cell mem later
        rcases mem_append.mp mem with inKept | isFirst
        · exact apart' inKept later
        · exact fresh (mem_singleton.mp isFirst ▸ later)
      -- the cell becomes the first one that is kept, or is linked behind the last one
      have relinked : ∃ next' newHead',
          partitionFrom drop (fuel + 1) next (some first) newHead newTail removed =
            partitionFrom drop fuel next' (next first) newHead' (some first) removed ∧
          IsQueue (closeTail next' (some first)) newHead' (some first) (kept ++ [first]) ∧
          ∀ cell, cell ∉ kept → next' cell = next cell := by
        cases newTail with
        | none =>
          obtain rfl := queue.tail_eq_none_iff.mp rfl
          refine ⟨next, some first, by simp [partitionFrom, dropped], ?_, fun _ _ => rfl⟩
          exact IsQueue.singleton (update_self ..)
        | some tail =>
          have inKept : tail ∈ kept := mem_of_getLast? queue.tail_eq
          have differs : tail ≠ first := ne_of_mem_of_not_mem inKept notKept
          cases newHead with
          | none => exact absurd inKept (by simp [queue.eq_nil])
          | some head =>
            refine ⟨update next tail (some first), some head,
              by simp [partitionFrom, dropped], ?_, ?_⟩
            · apply queue.append
              · rw [closeTail, update_of_ne differs, update_self]
              · exact update_self ..
              · intro other mem notTail
                have notFirst := ne_of_mem_of_not_mem mem notKept
                rw [closeTail, closeTail, update_of_ne notFirst,
                  update_of_ne notTail, update_of_ne notTail]
            · intro cell outside
              exact update_of_ne (ne_of_mem_of_not_mem inKept outside).symm _ _
      obtain ⟨next', newHead', steps, queue', frame'⟩ := relinked
      have chain'' : IsChain next' (next first) others := chain'.congr
        fun cell later => frame' cell fun inKept => apart' inKept later
      obtain ⟨result, ran, isQueue, count, frame⟩ : ∃ result,
          partitionFrom drop fuel next' (next first) newHead' (some first) removed =
            some result ∧ _ := ih enough' chain'' queue' apart''
      refine ⟨result, steps.trans ran, by simpa [dropped] using isQueue, ?_, ?_⟩
      · rw [count, countP_cons_of_neg (by simp [dropped])]
      · intro cell notInKept notInRest
        rw [frame cell, frame' cell notInKept]
        · simp only [mem_append, mem_singleton, not_or]
          exact ⟨notInKept, fun isFirst => notInRest (isFirst ▸ mem_cons_self)⟩
        · exact fun later => notInRest (mem_cons_of_mem _ later)

theorem partition_spec {head tail : Option Cell} {cells : List Cell}
    (queue : IsQueue next head tail cells) (enough : cells.length ≤ fuel) :
    ∃ result, partitionFrom drop fuel next head none none 0 = some result ∧
      IsQueue result.next result.head result.tail (cells.filter fun cell => !drop cell) ∧
      result.removed = cells.countP drop ∧ ∀ cell, cell ∉ cells → result.next cell = next cell := by
  obtain ⟨result, ran, isQueue, count, frame⟩ : ∃ result,
      partitionFrom drop fuel next head none none 0 = some result ∧ _ :=
    partitionFrom_spec enough queue.chain (IsQueue.empty _)
      (disjoint_nil_left _)
  refine ⟨result, ran, by simpa using isQueue, by simpa using count, ?_⟩
  intro cell outside
  exact frame cell not_mem_nil outside

end Partition

end TieredStore.LinkQueue
