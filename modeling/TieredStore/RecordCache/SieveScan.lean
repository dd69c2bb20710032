import TieredStore.RecordCache.Sieve

/-!
The scan of `evictOneFromSieveFIFO` round by round, with callbacks whose answers may change
from round to round, and what becomes of the hand.
-/

namespace TieredStore.RecordCache.SieveFIFOQueue

open Function List

def InRange (fifo : SieveFIFOQueue) : Prop :=
  fifo.handPointer < fifo.queue.length ∨ fifo.queue = [] ∧ fifo.handPointer = 0

def handAt (front : List (Option Addr)) (slot : Option Addr) (back : List (Option Addr)) :
    SieveFIFOQueue :=
  ⟨front ++ slot :: back, front.length⟩

/-- The hand stands at the first slot of `back`, or at the start if there is none. -/
def resume (front back : List (Option Addr)) : SieveFIFOQueue :=
  ⟨front ++ back, if back = [] then 0 else front.length⟩

section Resume

variable {answers : Answers} {visited : Addr → Bool} {front back : List (Option Addr)}
  {slot : Option Addr}

theorem resume_nil : resume front [] = resume [] front := by
  simp [resume]

theorem inRange_resume : InRange (resume front back) := by
  cases back with
  | nil => cases front <;> simp [InRange, resume]
  | cons => exact .inl (by simp [resume])

theorem clampHandPointer_handAt :
    (handAt front slot back).clampHandPointer = handAt front slot back := by
  simp [clampHandPointer, handAt]

theorem eraseElementAtHandPosition_handAt :
    (handAt front slot back).eraseElementAtHandPosition = resume front back := by
  cases back with
  | nil => simp [handAt, resume, eraseElementAtHandPosition, eraseIdx_append_of_length_le]
  | cons next rest =>
    simp [handAt, resume, eraseElementAtHandPosition, eraseIdx_append_of_length_le]

theorem advanceHandPointer_handAt :
    (handAt front slot back).advanceHandPointer = resume (front ++ [slot]) back := by
  cases back with
  | nil => simp [handAt, resume, advanceHandPointer]
  | cons next rest =>
    have inside : front.length + 1 < front.length + (rest.length + 1 + 1) := by omega
    simp [handAt, resume, advanceHandPointer, Nat.mod_eq_of_lt inside]

theorem clampHandPointer_cases (fifo : SieveFIFOQueue) :
    fifo.queue = [] ∧ fifo.clampHandPointer = resume [] [] ∨
      ∃ front slot back, fifo.clampHandPointer = handAt front slot back ∧
        fifo.queue = front ++ slot :: back := by
  cases queue : fifo.queue with
  | nil => exact .inl ⟨rfl, by simp [clampHandPointer, resume, queue]⟩
  | cons first rest =>
    right
    unfold clampHandPointer
    split
    · exact ⟨[], first, rest, by simp [handAt, queue], rfl⟩
    · rename_i inside
      refine ⟨fifo.queue.take fifo.handPointer, fifo.queue[fifo.handPointer],
        fifo.queue.drop (fifo.handPointer + 1), ?_, ?_⟩
      · cases fifo
        simp only [handAt, mk.injEq]
        exact ⟨by simp, by simp at inside ⊢; omega⟩
      · rw [← queue]
        simp

theorem InRange.eq_resume {fifo : SieveFIFOQueue} (inRange : fifo.InRange) :
    ∃ front back, fifo = resume front back := by
  have clamped : fifo.clampHandPointer = fifo := by
    unfold clampHandPointer
    split
    · cases fifo
      simp_all [InRange]
      omega
    · rfl
  rcases fifo.clampHandPointer_cases with ⟨-, empty⟩ | ⟨front, slot, back, hand, -⟩
  · exact ⟨[], [], clamped ▸ empty⟩
  · exact ⟨front, slot :: back, clamped ▸ hand⟩

theorem evictRound_handAt : evictRound answers (handAt front slot back) visited =
    match slot with
    | none => .goOn (resume front back) visited
    | some entry =>
      if answers.spares visited entry then
        .goOn (resume (front ++ [some entry]) back) (update visited entry false)
      else if answers.tryMarkEvictable entry = false then
        .goOn (if back = [] then resume (front ++ [some entry]) []
          else resume front (back ++ [some entry])) (update visited entry false)
      else .stop ⟨some entry, resume front back, update visited entry false⟩ := by
  have atHand : (handAt front slot back).queue[(handAt front slot back).handPointer]? =
      some slot := by
    simp [handAt]
  simp only [evictRound, clampHandPointer_handAt, atHand, eraseElementAtHandPosition_handAt,
    advanceHandPointer_handAt]
  cases slot with
  | none => rfl
  | some entry =>
    have pushed : (resume front back).pushBack entry = if back = []
        then resume (front ++ [some entry]) [] else resume front (back ++ [some entry]) := by
      cases back <;> simp [resume, pushBack]
    simp only [pushed]

end Resume

inductive Comes (answers : Nat → Answers) :
    Nat → SieveFIFOQueue → (Addr → Bool) → Nat → SieveFIFOQueue → (Addr → Bool) → Prop
  | here {budget fifo visited} : Comes answers budget fifo visited budget fifo visited
  | later {budget fifo visited fifo' visited' rounds fifo'' visited''}
    (goes : evictRound (answers budget) fifo visited = .goOn fifo' visited')
    (comes : Comes answers budget fifo' visited' rounds fifo'' visited'') :
    Comes answers (budget + 1) fifo visited rounds fifo'' visited''

/-- The victim was at the hand in a round in which it was accepted, and its bit was not set
there or it was forced. -/
def Due (answers : Nat → Answers) (budget : Nat) (fifo : SieveFIFOQueue) (visited : Addr → Bool)
    (victim : Addr) : Prop :=
  ∃ rounds fifo' visited' front back,
    Comes answers budget fifo visited (rounds + 1) fifo' visited' ∧
    fifo'.clampHandPointer = handAt front (some victim) back ∧
    (answers rounds).tryMarkEvictable victim = true ∧
    (visited' victim = false ∨ (answers rounds).shouldForceEvict victim = true)

theorem evictRounds_due (answers : Nat → Answers) (budget : Nat)
    (front back : List (Option Addr)) (visited : Addr → Bool) :
    let result := evictRounds answers budget (resume front back) visited
    (∀ victim ∈ result.victim, Due answers budget (resume front back) visited victim) ∧
      result.fifo.InRange := by
  induction budget generalizing front back visited with
  | zero =>
    exact ⟨fun victim isVictim => absurd isVictim (Option.not_mem_none victim), inRange_resume⟩
  | succ budget ih =>
    -- A round that goes on leaves the same call with a round less.
    have goesOn : ∀ {fifo front' back' visited'},
        evictRound (answers budget) fifo visited = .goOn (resume front' back') visited' →
        let result := evictRounds answers (budget + 1) fifo visited
        (∀ victim ∈ result.victim, Due answers (budget + 1) fifo visited victim) ∧
          result.fifo.InRange := by
      intro fifo front' back' visited' goes
      obtain ⟨due, ends⟩ := ih front' back' visited'
      simp only [evictRounds, goes]
      refine ⟨fun victim isVictim => ?_, ends⟩
      obtain ⟨rounds, _, _, _, _, comes, atHand, accepted⟩ := due victim isVictim
      exact ⟨rounds, _, _, _, _, .later goes comes, atHand, accepted⟩
    have hand : ∀ front slot back,
        let result := evictRounds answers (budget + 1) (handAt front slot back) visited
        (∀ victim ∈ result.victim, Due answers (budget + 1) (handAt front slot back) visited
          victim) ∧ result.fifo.InRange := by
      intro front slot back
      have round := @evictRound_handAt (answers budget) visited front back slot
      cases slot with
      | none => exact goesOn round
      | some entry =>
        by_cases spared : (answers budget).spares visited entry
        · exact goesOn (round.trans (if_pos spared))
        simp only [if_neg spared] at round
        by_cases rejects : (answers budget).tryMarkEvictable entry = false
        · rw [if_pos rejects, ← apply_ite₂ resume] at round
          exact goesOn round
        · rw [if_neg rejects] at round
          simp only [evictRounds, round]
          refine ⟨?_, inRange_resume⟩
          rintro victim ⟨⟩
          refine ⟨budget, _, visited, front, back, .here, clampHandPointer_handAt,
            by simpa using rejects, ?_⟩
          simpa [Answers.spares, imp_iff_not_or] using spared
    cases back with
    | nil =>
      rw [resume_nil]
      cases front with
      | nil =>
        exact ⟨fun victim isVictim => absurd isVictim (Option.not_mem_none victim),
          .inr ⟨rfl, rfl⟩⟩
      | cons slot front => exact hand [] slot front
    | cons slot back => exact hand front slot back

theorem drainScan_victims (isRemoved : Addr → Bool) (limit : Nat) (pointers : List (Option Addr)) :
    (drainScan isRemoved limit pointers).1 = ((pointers.filterMap id).filter isRemoved).take limit ∧
      (drainScan isRemoved limit pointers).2.Sublist pointers := by
  induction pointers generalizing limit with
  | nil => simp [drainScan]
  | cons pointer _ ih =>
    cases pointer with
    | none => exact ⟨(ih limit).1, (ih limit).2.cons none⟩
    | some e =>
      cases limit with
      | zero =>
        refine ⟨?_, (ih 0).2.cons_cons _⟩
        simpa [drainScan] using (ih 0).1
      | succ limit =>
        cases removed : isRemoved e with
        | true =>
          obtain ⟨victims, kept⟩ := ih limit
          simp only [drainScan, removed]
          exact ⟨by simp [victims, removed], kept.cons _⟩
        | false =>
          obtain ⟨victims, kept⟩ := ih (limit + 1)
          simp only [drainScan, removed]
          exact ⟨by simp [victims, removed], kept.cons_cons _⟩

/-- Both operations take the victims out of the queue and nothing else, and the hand stays in
range; a drain leaves the entries themselves as they are. -/
theorem sieve_conserves_entries {fifo : SieveFIFOQueue} (inRange : fifo.InRange)
    (visited : Addr → Bool) (answers : Nat → Answers) (isRemoved : Addr → Bool) (limit : Nat) :
    (let result := evictRounds answers (fifo.queue.length * 2) fifo visited
     fifo.entries.Perm (result.victim.toList ++ result.fifo.entries) ∧
        (∀ victim ∈ result.victim, Due answers (fifo.queue.length * 2) fifo visited victim) ∧
        result.fifo.InRange) ∧
    (let drained := drainStateRemovedOnly isRemoved limit fifo
     fifo.entries.Perm (drained.1 ++ drained.2.entries) ∧
        drained.1 = (fifo.entries.filter isRemoved).take limit ∧
        drained.2.entries.Sublist fifo.entries ∧ drained.2.InRange) ∧
    ∀ (config : Config) (state : State) (thread : Nat),
      ((sieveStep config state thread .drain).getD state).memory = state.memory := by
  obtain ⟨front, back, start⟩ := inRange.eq_resume
  refine ⟨⟨(evictRounds_entries answers _ fifo visited).1,
    start ▸ evictRounds_due answers _ front back visited⟩,
    ⟨(drainStateRemovedOnly_entries isRemoved limit fifo).1, ?_⟩, ?drain⟩
  case drain =>
    intro config state thread
    simp only [sieveStep]
    split
    · split <;> rfl
    · rfl
  obtain ⟨victims, kept⟩ := drainScan_victims isRemoved limit fifo.queue
  unfold drainStateRemovedOnly
  split
  · rename_i empty
    have none : fifo.queue = [] := empty
    exact ⟨by simp [entries, none], .refl _, inRange⟩
  · refine ⟨victims, kept.filterMap id, ?_⟩
    unfold InRange
    simp only
    split <;> grind

theorem sieve_conserves_entries_rotated :
    let answers : Nat → Answers := fun _ => ⟨fun entry => entry = 3, fun _ => false⟩
    let result := evictRounds answers 6 ⟨[some 1, none, some 3], 0⟩ fun _ => false
    result.victim = some 3 ∧ [1, 3].Perm (result.victim.toList ++ result.fifo.entries) ∧
      result.fifo.InRange := by
  have inRange : InRange ⟨[some 1, none, some 3], 0⟩ := .inl (by decide)
  obtain ⟨⟨kept, -, ends⟩, -⟩ := sieve_conserves_entries inRange (fun _ => false)
    (fun _ => ⟨fun entry => entry = 3, fun _ => false⟩) (fun _ => false) 0
  exact ⟨by decide, kept, ends⟩

section Complete

/-- The entries that a pass over the slots finds unvisited or forced. -/
def dueIn (answers : Answers) : (Addr → Bool) → List (Option Addr) → List Addr
  | _, [] => []
  | visited, none :: slots => dueIn answers visited slots
  | visited, some entry :: slots =>
    let later := dueIn answers (update visited entry false) slots
    if answers.spares visited entry then later else entry :: later

/-- The visited bits behind a pass over the slots. -/
def clearIn (visited : Addr → Bool) (slots : List (Option Addr)) (entry : Addr) : Bool :=
  visited entry && !slots.contains (some entry)

/-- What the scan finds if its answers stay the same. -/
def scan (answers : Answers) (budget : Nat) (front back : List (Option Addr))
    (visited : Addr → Bool) : Option Addr :=
  (evictRounds (fun _ => answers) budget (resume front back) visited).victim

variable {answers : Answers} {budget : Nat} {visited : Addr → Bool}
  {front back slots : List (Option Addr)} {entry : Addr}

theorem clearIn_nil : clearIn visited [] = visited := by
  funext entry
  simp [clearIn]

theorem clearIn_of_false (unvisited : visited entry = false) :
    clearIn visited slots entry = false := by
  simp [clearIn, unvisited]

theorem clearIn_of_mem (mem : some entry ∈ slots) : clearIn visited slots entry = false := by
  simp [clearIn, mem]

theorem clearIn_none : clearIn visited (none :: slots) = clearIn visited slots := by
  funext entry
  simp [clearIn]

theorem clearIn_some :
    clearIn visited (some entry :: slots) = clearIn (update visited entry false) slots := by
  funext other
  by_cases same : other = entry <;> simp [clearIn, same]

theorem clearIn_concat :
    clearIn (update visited entry false) (slots ++ [some entry]) =
      clearIn visited (some entry :: slots) := by
  funext other
  by_cases same : other = entry <;> simp [clearIn, same]

theorem dueIn_append (more : List (Option Addr)) :
    dueIn answers visited (slots ++ more) =
      dueIn answers visited slots ++ dueIn answers (clearIn visited slots) more := by
  induction slots generalizing visited with
  | nil => simp [dueIn, clearIn_nil]
  | cons slot slots ih =>
    cases slot with
    | none => simpa [dueIn, clearIn_none] using ih
    | some entry =>
      simp only [cons_append, dueIn, ih, clearIn_some]
      split <;> rfl

theorem dueIn_map_some {entries : List Addr} (unvisited : ∀ e ∈ entries, visited e = false) :
    dueIn answers visited (entries.map some) = entries := by
  induction entries generalizing visited with
  | nil => rfl
  | cons entry entries ih =>
    rw [forall_mem_cons] at unvisited
    have kept : update visited entry false = visited := by
      rw [update_eq_self_iff, unvisited.1]
    simp [dueIn, Answers.spares, kept, unvisited.1, ih unvisited.2]

theorem dueIn_concat (unvisited : visited entry = false) :
    dueIn answers visited (slots ++ [some entry]) = dueIn answers visited slots ++ [entry] := by
  rw [dueIn_append]
  have later : ∀ e ∈ [entry], clearIn visited slots e = false := by
    simpa using clearIn_of_false unvisited
  exact congrArg _ (dueIn_map_some later)

theorem dueIn_spared (spared : answers.spares visited entry) :
    dueIn answers visited (some entry :: slots) =
      dueIn answers (update visited entry false) slots := by
  rw [dueIn, if_pos spared]

theorem dueIn_due (isDue : ¬ answers.spares visited entry) :
    dueIn answers visited (some entry :: slots) =
      entry :: dueIn answers (update visited entry false) slots := by
  rw [dueIn, if_neg isDue]

theorem dueIn_sublist : (dueIn answers visited slots).Sublist (slots.filterMap id) := by
  induction slots generalizing visited with
  | nil => exact .slnil
  | cons slot slots ih =>
    cases slot with
    | none => exact ih
    | some entry =>
      rw [dueIn]
      split
      · exact ih.cons entry
      · exact ih.cons_cons entry

theorem scan_nil : scan answers budget front [] visited = scan answers budget [] front visited := by
  rw [scan, resume_nil, scan]

theorem scan_cons {slot : Option Addr} : scan answers (budget + 1) front (slot :: back) visited =
    (evictRounds (fun _ => answers) (budget + 1) (handAt front slot back) visited).victim := rfl

theorem scan_null : scan answers (budget + 1) front (none :: back) visited =
    scan answers budget front back visited := by
  rw [scan_cons]
  simp only [evictRounds, evictRound_handAt, scan]

theorem scan_spared (spared : answers.spares visited entry) :
    scan answers (budget + 1) front (some entry :: back) visited =
      scan answers budget (front ++ [some entry]) back (update visited entry false) := by
  rw [scan_cons]
  simp only [evictRounds, evictRound_handAt, if_pos spared, scan]

theorem scan_due (isDue : ¬ answers.spares visited entry) :
    scan answers (budget + 1) front (some entry :: back) visited =
      if answers.tryMarkEvictable entry = false then
        if back = [] then scan answers budget (front ++ [some entry]) []
          (update visited entry false)
        else scan answers budget front (back ++ [some entry]) (update visited entry false)
      else some entry := by
  rw [scan_cons]
  by_cases rejects : answers.tryMarkEvictable entry = false
  · simp only [evictRounds, evictRound_handAt, if_neg isDue, if_pos rejects]
    split <;> rfl
  · simp only [evictRounds, evictRound_handAt, if_neg isDue, if_neg rejects]

/-- Two rejected entries go round behind the hand for good. -/
theorem scan_rotates
    (rejects : ∀ e ∈ dueIn answers visited back, answers.tryMarkEvictable e = false)
    (two : 2 ≤ (dueIn answers visited back).length) :
    scan answers budget front back visited = none := by
  induction budget generalizing front back visited with
  | zero => rfl
  | succ budget ih =>
    cases back with
    | nil => simp [dueIn] at two
    | cons slot back =>
      cases slot with
      | none =>
        rw [scan_null]
        exact ih rejects two
      | some entry =>
        by_cases spared : answers.spares visited entry
        · rw [dueIn_spared spared] at rejects two
          rw [scan_spared spared]
          exact ih rejects two
        · rw [dueIn_due spared] at rejects two
          rw [forall_mem_cons] at rejects
          have more : back ≠ [] := by
            rintro rfl
            simp [dueIn] at two
          rw [scan_due spared, if_pos rejects.1, if_neg more]
          apply ih <;> rw [dueIn_concat (update_self ..)]
          · simpa [or_imp, forall_and] using And.intro rejects.2 rejects.1
          · simpa using two

/-- The entries from the hand on, and those in front of it that are unvisited or forced when
the hand comes there. -/
def ahead (answers : Answers) (visited : Addr → Bool) (front back : List (Option Addr)) :
    List Addr :=
  back.filterMap id ++ dueIn answers (clearIn visited back) front

theorem ahead_nil : ahead answers visited front [] = dueIn answers visited front := by
  rw [ahead, clearIn_nil, filterMap_nil, nil_append]

theorem ahead_none :
    ahead answers visited front (none :: back) = ahead answers visited front back := by
  rw [ahead, clearIn_none, filterMap_cons_none rfl, ahead]

theorem ahead_passed :
    (ahead answers (update visited entry false) (front ++ [some entry]) back).Perm
      (ahead answers visited front (some entry :: back)) := by
  rw [ahead, dueIn_concat (clearIn_of_false (update_self ..)), ahead, clearIn_some, ← append_assoc]
  exact perm_append_singleton ..

theorem ahead_rotated :
    (ahead answers (update visited entry false) front (back ++ [some entry])).Perm
      (ahead answers visited front (some entry :: back)) := by
  rw [ahead, clearIn_concat, filterMap_append]
  exact (perm_append_singleton ..).append_right _

/-- The hand comes to the start of the queue, where two rejected entries go round. -/
theorem scan_passes
    (rejects : ∀ e ∈ ahead answers visited front back, answers.tryMarkEvictable e = false)
    (two : 2 ≤ (ahead answers visited front back).length) :
    scan answers budget front back visited = none := by
  induction budget generalizing front back visited with
  | zero => rfl
  | succ budget ih =>
    have permuted : ∀ {front' back' visited'}, (ahead answers visited' front' back').Perm
          (ahead answers visited front back) →
        scan answers budget front' back' visited' = none :=
      fun perm => ih (fun e mem => rejects e (perm.mem_iff.mp mem)) (perm.length_eq ▸ two)
    cases back with
    | nil =>
      rw [ahead_nil] at rejects two
      rw [scan_nil]
      exact scan_rotates rejects two
    | cons slot back =>
      cases slot with
      | none =>
        rw [scan_null]
        exact permuted (ahead_none ▸ .refl _)
      | some entry =>
        by_cases spared : answers.spares visited entry
        · rw [scan_spared spared]
          exact permuted ahead_passed
        · rw [scan_due spared, if_pos (rejects entry (by simp [ahead]))]
          split
          · next isLast =>
            subst isLast
            exact permuted ahead_passed
          · exact permuted ahead_rotated

/-- A pass over the slots finds an entry that it need not spare. -/
theorem scan_finds {tail : List (Option Addr)}
    (accepts : ∃ e ∈ dueIn answers visited slots, answers.tryMarkEvictable e = true)
    (enough : slots.length ≤ budget) :
    scan answers budget front (slots ++ tail) visited ≠ none := by
  induction slots generalizing front tail visited budget with
  | nil => simp [dueIn] at accepts
  | cons slot slots ih =>
    obtain ⟨budget, rfl⟩ := Nat.exists_eq_add_of_le' enough
    have less : slots.length ≤ budget + slots.length := Nat.le_add_left ..
    rw [length_cons, ← add_assoc, cons_append]
    cases slot with
    | none =>
      rw [scan_null]
      exact ih accepts less
    | some entry =>
      by_cases spared : answers.spares visited entry
      · rw [dueIn_spared spared] at accepts
        rw [scan_spared spared]
        exact ih accepts less
      · rw [dueIn_due spared] at accepts
        rw [scan_due spared]
        split
        · next rejects =>
          have later : ∃ e ∈ dueIn answers (update visited entry false) slots,
              answers.tryMarkEvictable e = true := by
            simpa [rejects] using accepts
          have more : slots ++ tail ≠ [] := by
            obtain ⟨e, mem, -⟩ := later
            rintro empty
            simp [(append_eq_nil_iff.mp empty).1, dueIn] at mem
          rw [if_neg more, append_assoc]
          exact ih later less
        · exact Option.some_ne_none entry

/-- A pass over the slots that finds nothing and rejects at most one entry brings the hand to
the start of the queue.  `tail` has the entry rejected before. -/
theorem scan_wraps {tail : List Addr}
    (rejects : ∀ e ∈ dueIn answers visited slots ++ tail, answers.tryMarkEvictable e = false)
    (unvisited : ∀ e ∈ tail, visited e = false)
    (one : tail.length + (dueIn answers visited slots).length ≤ 1) :
    ∃ spent passed, (passed ++ dueIn answers visited slots).Perm (slots.filterMap id) ∧
      spent ≤ slots.length + tail.length + (dueIn answers visited slots).length ∧
      (tail = [] → spent + (dueIn answers visited slots).length ≤ 2 * slots.length) ∧
      ∀ budget, scan answers (budget + spent) front (slots ++ tail.map some) visited =
        scan answers budget [] (front ++ (passed ++
          (tail ++ dueIn answers visited slots)).map some) (clearIn visited slots) := by
  induction slots generalizing front tail visited with
  | nil =>
    cases tail with
    | nil => exact ⟨0, [], by simp [dueIn], by simp, by simp [dueIn], fun budget => by
        simp only [map_nil, append_nil, dueIn, clearIn_nil, add_zero]
        exact scan_nil⟩
    | cons entry tail =>
      obtain rfl : tail = [] := by simpa [dueIn] using one
      have kept : update visited entry false = visited := by
        rw [update_eq_self_iff, unvisited entry (by simp)]
      refine ⟨1, [], by simp [dueIn], by simp, by simp, fun budget => ?_⟩
      have rejected := @scan_due answers budget visited front [] entry
        (by simp [Answers.spares, unvisited entry])
      rw [if_pos (rejects entry (by simp)), if_pos rfl, scan_nil, kept] at rejected
      simpa [dueIn, clearIn_nil] using rejected
  | cons slot slots ih =>
    cases slot with
    | none =>
      obtain ⟨spent, passed, perm, bound, sharp, wraps⟩ := ih rejects unvisited one
      refine ⟨spent + 1, passed, perm, ?_, fun empty => ?_, fun budget => ?_⟩
      · simp only [dueIn, length_cons] at bound ⊢
        omega
      · have := sharp empty
        simp only [dueIn, length_cons] at this ⊢
        omega
      · rw [← add_assoc, cons_append, scan_null, wraps, clearIn_none]
        rfl
    | some entry =>
      have cleared : ∀ e ∈ tail, update visited entry false e = false := by
        intro e mem
        rw [update_apply, unvisited e mem, ite_self]
      by_cases spared : answers.spares visited entry
      · rw [dueIn_spared spared] at rejects one ⊢
        obtain ⟨spent, passed, perm, bound, sharp, wraps⟩ := ih rejects cleared one
        refine ⟨spent + 1, entry :: passed, perm.cons entry, ?_, fun empty => ?_,
          fun budget => ?_⟩
        · rw [length_cons]
          omega
        · have := sharp empty
          rw [length_cons]
          omega
        · rw [← add_assoc, cons_append, scan_spared spared, wraps, clearIn_some]
          simp
      · rw [dueIn_due spared] at rejects one ⊢
        have own : answers.tryMarkEvictable entry = false := rejects entry (by simp)
        have none : tail = [] ∧ dueIn answers (update visited entry false) slots = [] := by
          simpa [Nat.add_eq_zero_iff, ← add_assoc] using one
        obtain ⟨rfl, later⟩ := none
        cases slots with
        | nil =>
          refine ⟨1, [], by simp [later], by simp, by simp [later], fun budget => ?_⟩
          rw [map_nil, append_nil, scan_due spared, if_pos own, if_pos rfl, scan_nil, clearIn_some,
            clearIn_nil, later]
          simp
        | cons next slots =>
          obtain ⟨spent, passed, perm, bound, -, wraps⟩ := @ih (update visited entry false) front
            [entry] (by simp [later, own]) (by simp) (by simp [later])
          refine ⟨spent + 1, passed, ?_, ?_, fun _ => ?_, fun budget => ?_⟩
          · rw [later, append_nil] at perm
            rw [later]
            exact (perm_append_singleton ..).trans (perm.cons entry)
          · simp only [later, length_cons, length_nil] at bound ⊢
            omega
          · simp only [later, length_cons, length_nil] at bound ⊢
            omega
          · rw [map_nil, append_nil, ← add_assoc, scan_due spared, if_pos own,
              if_neg (cons_ne_nil _ _), clearIn_some]
            refine (wraps budget).trans ?_
            simp [later]

/-- After a pass the entries that it has passed are unvisited, so the next one finds them all. -/
theorem scan_again {passed rest : List Addr} (off : ∀ e ∈ passed, visited e = false)
    (accepts : ∃ e ∈ dueIn answers visited front ++ passed, answers.tryMarkEvictable e = true)
    (enough : front.length + passed.length ≤ budget) :
    scan answers budget [] (front ++ (passed ++ rest).map some) visited ≠ none := by
  rw [map_append, ← append_assoc]
  apply scan_finds
  · rwa [dueIn_append, dueIn_map_some fun e mem => clearIn_of_false (off e mem)]
  · simpa using enough

/-- The scan meets an entry that may be evicted: in its pass to the end of the queue, in one
from the start if the first has rejected at most one entry, or later if there is at most one to
reject. -/
def Meets (answers : Answers) (visited : Addr → Bool) (front back : List (Option Addr)) : Prop :=
  (∃ e ∈ dueIn answers visited back, answers.tryMarkEvictable e = true) ∨
    (dueIn answers visited back).length ≤ 1 ∧
      (∃ e ∈ ahead answers visited front back, answers.tryMarkEvictable e = true) ∨
    (ahead answers visited front back).length ≤ 1

theorem scan_misses (misses : ¬ Meets answers visited front back) :
    scan answers budget front back visited = none := by
  simp only [Meets, not_or, not_and, not_exists, Bool.not_eq_true, not_le] at misses
  obtain ⟨first, second, two⟩ := misses
  by_cases one : (dueIn answers visited back).length ≤ 1
  · exact scan_passes (second one) two
  · exact scan_rotates first (not_le.mp one)

theorem scan_meets (meets : Meets answers visited front back)
    (accepts : ∃ e ∈ (front ++ back).filterMap id, answers.tryMarkEvictable e = true) :
    scan answers ((front ++ back).length * 2) front back visited ≠ none := by
  by_cases first : ∃ e ∈ dueIn answers visited back, answers.tryMarkEvictable e = true
  · rw [← append_nil back]
    exact scan_finds first (by simp only [length_append]; omega)
  have rejects : ∀ e ∈ dueIn answers visited back, answers.tryMarkEvictable e = false := by
    simpa using first
  have one : (dueIn answers visited back).length ≤ 1 := by
    rcases meets.resolve_left first with second | few
    · exact second.1
    · rw [ahead, length_append] at few
      exact dueIn_sublist.length_le.trans (by omega)
  obtain ⟨spent, passed, perm, bound, sharp, wraps⟩ := @scan_wraps answers visited front back []
    (by simpa using rejects) (by simp) (by simpa using one)
  have off : ∀ e ∈ passed ++ dueIn answers visited back, clearIn visited back e = false := by
    intro e mem
    exact clearIn_of_mem (by simpa using perm.mem_iff.mp mem)
  have lengths := perm.length_eq
  have slots := length_filterMap_le id back
  simp only [length_append, length_nil, append_nil, map_nil, nil_append, forall_const]
    at lengths bound sharp wraps
  by_cases second : ∃ e ∈ ahead answers visited front back, answers.tryMarkEvictable e = true
  · obtain ⟨budget, enough⟩ : ∃ budget, (front ++ back).length * 2 = budget + spent :=
      Nat.exists_eq_add_of_le' (by rw [length_append]; omega)
    rw [enough, wraps]
    refine scan_again (fun e mem => off e (mem_append_left _ mem)) ?_ (by
      simp only [length_append] at enough
      omega)
    obtain ⟨e, mem, accepted⟩ := second
    refine ⟨e, ?_, accepted⟩
    rcases mem_append.mp mem with mem | mem
    · rcases mem_append.mp (perm.mem_iff.mpr mem) with mem | mem
      · exact mem_append_right _ mem
      · simp [rejects e mem] at accepted
    · exact mem_append_left _ mem
  · have none : ∀ e ∈ ahead answers visited front back, answers.tryMarkEvictable e = false := by
      simpa using second
    have few : (ahead answers visited front back).length ≤ 1 :=
      (meets.resolve_left first).resolve_left fun met => second met.2
    simp only [ahead, forall_mem_append, length_append] at none few
    obtain ⟨spent', passed', perm', bound', -, wraps'⟩ := @scan_wraps answers
      (clearIn visited back) [] front (passed ++ dueIn answers visited back)
      (forall_mem_append.mpr ⟨none.2, fun e mem => none.1 e (perm.mem_iff.mp mem)⟩) off
      (by rw [length_append]; omega)
    have lengths' := perm'.length_eq
    have slots' := length_filterMap_le id front
    simp only [length_append, nil_append] at lengths' bound' wraps'
    obtain ⟨budget, enough⟩ : ∃ budget, (front ++ back).length * 2 =
        budget + (spent' + spent) := Nat.exists_eq_add_of_le' (by rw [length_append]; omega)
    rw [enough, ← add_assoc, wraps, wraps', ← nil_append (map some _)]
    refine scan_again (fun e mem => ?_) ?_ (by
      simp only [length_append, length_nil] at enough ⊢
      omega)
    · exact clearIn_of_mem (by simpa using perm'.mem_iff.mp (mem_append_left _ mem))
    · obtain ⟨e, mem, accepted⟩ := accepts
      refine ⟨e, ?_, accepted⟩
      rw [filterMap_append] at mem
      rcases mem_append.mp mem with mem | mem
      · rcases mem_append.mp (perm'.mem_iff.mpr mem) with mem | mem
        · exact mem
        · simp [none.2 e mem] at accepted
      · simp [none.1 e mem] at accepted

theorem victim_clampHandPointer {fifo : SieveFIFOQueue} :
    (evictRounds (fun _ => answers) budget fifo visited).victim =
      (evictRounds (fun _ => answers) budget fifo.clampHandPointer visited).victim := by
  have twice : fifo.clampHandPointer.clampHandPointer = fifo.clampHandPointer := by
    simp only [clampHandPointer]
    split <;> simp_all
  cases budget with
  | zero => rfl
  | succ => simp only [evictRounds, evictRound, twice]

/-- The scan overlooks no entry that may be evicted, just if it meets one. -/
theorem evictOneFromSieveFIFO_complete (tryMarkEvictable shouldForceEvict : Addr → Bool)
    (fifo : SieveFIFOQueue) (visited : Addr → Bool) :
    ((evictOneFromSieveFIFO tryMarkEvictable shouldForceEvict fifo visited).victim = none →
      ∀ entry ∈ fifo.entries, tryMarkEvictable entry = false) ↔
    ((∃ entry ∈ fifo.entries, tryMarkEvictable entry = true) →
      Meets ⟨tryMarkEvictable, shouldForceEvict⟩ visited
        (fifo.queue.take fifo.clampHandPointer.handPointer)
        (fifo.queue.drop fifo.clampHandPointer.handPointer)) := by
  rw [evictOneFromSieveFIFO, victim_clampHandPointer]
  rcases fifo.clampHandPointer_cases with ⟨empty, -⟩ | ⟨front, slot, back, hand, queue⟩
  · simp [entries, empty]
  have taken : fifo.queue.take fifo.clampHandPointer.handPointer = front := by
    rw [hand, queue]
    exact take_left
  have dropped : fifo.queue.drop fifo.clampHandPointer.handPointer = slot :: back := by
    rw [hand, queue]
    exact drop_left
  rw [taken, dropped, hand, entries, queue]
  constructor
  · rintro complete ⟨entry, mem, accepted⟩
    by_contra misses
    rw [complete (scan_misses misses) entry mem] at accepted
    cases accepted
  · intro meets missed entry mem
    rw [← Bool.not_eq_true]
    intro accepted
    exact scan_meets (meets ⟨entry, mem, accepted⟩) ⟨entry, mem, accepted⟩ missed

/-- The entry in front of the hand could be evicted, but the two others go round behind it. -/
theorem evictOneFromSieveFIFO_overlooks :
    (evictOneFromSieveFIFO (fun entry => entry = 1) (fun _ => false) ⟨[some 1, some 2, some 3], 1⟩
      fun _ => false).victim = none ∧
    1 ∈ (⟨[some 1, some 2, some 3], 1⟩ : SieveFIFOQueue).entries := by
  decide

end Complete

def designated (fifo : SieveFIFOQueue) : Option Addr :=
  (fifo.queue[fifo.handPointer]?).join

def survivor (isRemoved : Addr → Bool) (limit : Nat) (fifo : SieveFIFOQueue) : Option Addr :=
  let front := drainScan isRemoved limit (fifo.queue.take fifo.handPointer)
  let back := drainScan isRemoved (limit - front.1.length) (fifo.queue.drop fifo.handPointer)
  ((back.2 ++ front.2).filterMap id).head?

theorem drainScan_append (isRemoved : Addr → Bool) (limit : Nat) (front back : List (Option Addr)) :
    drainScan isRemoved limit (front ++ back) = let first := drainScan isRemoved limit front
      let second := drainScan isRemoved (limit - first.1.length) back
      (first.1 ++ second.1, first.2 ++ second.2) := by
  induction front generalizing limit with
  | nil => rfl
  | cons pointer _ ih =>
    cases pointer with
    | none => exact ih limit
    | some =>
      cases limit with
      | zero => simp [drainScan, ih]
      | succ =>
        simp only [cons_append, drainScan]
        split <;> simp [ih]

section Drain

variable {isRemoved : Addr → Bool} {limit : Nat} {slots : List (Option Addr)}

/-- The entries of the slots that a drain takes. -/
def drained (isRemoved : Addr → Bool) (limit : Nat) (slots : List (Option Addr)) : Nat :=
  min limit ((slots.filterMap id).countP isRemoved)

theorem length_drainScan : (drainScan isRemoved limit slots).1.length =
    drained isRemoved limit slots := by
  rw [(drainScan_victims isRemoved limit slots).1, length_take, drained, countP_eq_length_filter]

theorem drainScan_kept : ∃ kept : List Addr, (drainScan isRemoved limit slots).2 = kept.map some ∧
    (drainScan isRemoved limit slots).1.length + kept.length = (slots.filterMap id).length := by
  induction slots generalizing limit with
  | nil => exact ⟨[], by simp [drainScan]⟩
  | cons slot slots ih =>
    cases slot with
    | none => exact ih
    | some entry =>
      cases limit with
      | zero =>
        obtain ⟨kept, isKept, total⟩ := @ih 0
        exact ⟨entry :: kept, by simp [drainScan, isKept], congrArg Nat.succ total⟩
      | succ limit =>
        simp only [drainScan]
        split
        · obtain ⟨kept, isKept, total⟩ := @ih limit
          exact ⟨kept, isKept, (Nat.add_right_comm ..).trans (congrArg Nat.succ total)⟩
        · obtain ⟨kept, isKept, total⟩ := @ih (limit + 1)
          exact ⟨entry :: kept, by simp [isKept], congrArg Nat.succ total⟩

/-- An index into what is kept in front of it and behind it. -/
theorem getElem?_kept {α : Type} {front back : List α} {hand : Nat}
    (short : front.length ≤ hand) :
    let designates := (front ++ back)[if (front ++ back).length ≤ hand then 0 else hand]? =
      (back ++ front).head?
    let stays := front.length = hand ∨ back = [] ∨ front = [] ∧ back.length ≤ hand
    (stays → designates) ∧ ((front ++ back).Nodup → designates → stays) := by
  cases back with
  | nil => simp [short, head?_eq_getElem?]
  | cons first rest =>
    simp only [reduceCtorEq, false_or]
    split
    · next beyond =>
      simp only [length_append, length_cons] at beyond
      cases front with
      | nil => exact ⟨fun _ => rfl, fun _ _ => .inr ⟨rfl, by simpa using beyond⟩⟩
      | cons other front =>
        refine ⟨fun stays => ?_, fun distinct same => ?_⟩
        · simp only [length_cons, reduceCtorEq, false_and, or_false] at stays beyond
          omega
        · have same : other = first := by simpa using same
          simp [same] at distinct
    · next inside =>
      rw [length_append] at inside
      rw [getElem?_append_right short]
      refine ⟨fun stays => ?_, fun distinct same => ?_⟩
      · rcases stays with rfl | ⟨rfl, beyond⟩
        · simp
        · exact absurd (by simpa using beyond) inside
      · left
        by_contra shifted
        obtain ⟨index, later⟩ : ∃ index, hand - front.length = index + 1 :=
          Nat.exists_eq_succ_of_ne_zero (by omega)
        rw [later, getElem?_cons_succ] at same
        have repeated : first ∈ rest := mem_of_getElem? same
        exact (nodup_cons.mp (nodup_append.mp distinct).2.1).1 repeated

/-- Nothing in front of the hand is drained or null, or all from the hand on is drained, or all
in front of it, and no more entries are left than the hand's index. -/
def KeepsHand (isRemoved : Addr → Bool) (limit : Nat) (fifo : SieveFIFOQueue) : Prop :=
  let front := fifo.queue.take fifo.handPointer
  let back := fifo.queue.drop fifo.handPointer
  let gone := drained isRemoved limit front
  let gone' := drained isRemoved (limit - gone) back
  front.length + gone = (front.filterMap id).length ∨ (back.filterMap id).length = gone' ∨
    (front.filterMap id).length = gone ∧ (back.filterMap id).length ≤ fifo.handPointer + gone'

instance (isRemoved : Addr → Bool) (limit : Nat) (fifo : SieveFIFOQueue) :
    Decidable (fifo.KeepsHand isRemoved limit) :=
  inferInstanceAs (Decidable (_ ∨ _ ∨ _ ∧ _))

/-- The condition is enough, and it is necessary if no entry stands in the queue twice. -/
theorem designated_drainStateRemovedOnly (isRemoved : Addr → Bool) (limit : Nat)
    (fifo : SieveFIFOQueue) :
    (fifo.KeepsHand isRemoved limit →
      designated (drainStateRemovedOnly isRemoved limit fifo).2 =
        survivor isRemoved limit fifo) ∧
    (fifo.entries.Nodup → designated (drainStateRemovedOnly isRemoved limit fifo).2 =
        survivor isRemoved limit fifo → fifo.KeepsHand isRemoved limit) := by
  let front := fifo.queue.take fifo.handPointer
  let back := fifo.queue.drop fifo.handPointer
  let gone := drained isRemoved limit front
  obtain ⟨kept, isKept, total⟩ := @drainScan_kept isRemoved limit front
  obtain ⟨kept', isKept', total'⟩ := @drainScan_kept isRemoved (limit - gone) back
  have scan := congrArg Prod.snd (drainScan_append isRemoved limit front back)
  simp only [length_drainScan] at scan total total'
  rw [take_append_drop, isKept, isKept', ← map_append] at scan
  have short : (front.filterMap id).length ≤ front.length := length_filterMap_le ..
  have length : front.length = min fifo.handPointer fifo.queue.length := length_take
  have length' : (back.filterMap id).length ≤ back.length := length_filterMap_le ..
  have length'' : back.length = fifo.queue.length - fifo.handPointer := length_drop
  have survives : survivor isRemoved limit fifo = (kept' ++ kept).head? := by
    simp only [survivor, length_drainScan, filterMap_append]
    rw [isKept, isKept']
    simp
  have keeps : fifo.KeepsHand isRemoved limit ↔ kept.length = fifo.handPointer ∨ kept' = [] ∨
      kept = [] ∧ kept'.length ≤ fifo.handPointer := by
    rw [← length_eq_zero_iff, ← length_eq_zero_iff]
    change front.length + gone = (front.filterMap id).length ∨
      (back.filterMap id).length = drained isRemoved (limit - gone) back ∨
        (front.filterMap id).length = gone ∧ (back.filterMap id).length ≤
          fifo.handPointer + drained isRemoved (limit - gone) back ↔ _
    omega
  have isDesignated : designated (drainStateRemovedOnly isRemoved limit fifo).2 =
      (kept ++ kept')[if (kept ++ kept').length ≤ fifo.handPointer then 0
        else fifo.handPointer]? := by
    unfold drainStateRemovedOnly
    split
    · next empty =>
      rw [empty] at scan
      simp [designated, empty, map_eq_nil_iff.mp scan.symm]
    · simp only [designated, scan, length_map, getElem?_map, ge_iff_le]
      have plain : ∀ found : Option Addr, (found.map some).join = found := by
        intro found
        cases found <;> rfl
      exact plain _
  obtain ⟨sufficient, necessary⟩ := @getElem?_kept Addr kept kept' fifo.handPointer (by omega)
  rw [keeps, isDesignated, survives]
  refine ⟨sufficient, fun distinct => necessary ?_⟩
  have part : (((kept ++ kept').map some).filterMap id).Sublist fifo.entries :=
    scan ▸ (drainScan_victims isRemoved limit fifo.queue).2.filterMap id
  rw [filterMap_map, Function.id_comp, filterMap_some] at part
  exact part.nodup distinct

end Drain

theorem designated_drainStateRemovedOnly_last :
    designated (drainStateRemovedOnly (fun entry => entry = 1) 1 ⟨[some 1, some 2], 1⟩).2 =
      survivor (fun entry => entry = 1) 1 ⟨[some 1, some 2], 1⟩ :=
  (designated_drainStateRemovedOnly _ 1 ⟨[some 1, some 2], 1⟩).1 (by decide)

/-- A removed entry in front of the hand is drained, and the hand slips over the next one. -/
theorem hand_slips_after_drain :
    designated ⟨[some 1, some 2, some 3], 1⟩ = some 2 ∧
    designated (drainStateRemovedOnly (fun entry => entry = 1) 1
      ⟨[some 1, some 2, some 3], 1⟩).2 = some 3 := by
  decide

end TieredStore.RecordCache.SieveFIFOQueue
