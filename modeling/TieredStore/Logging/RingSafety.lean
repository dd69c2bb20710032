import TieredStore.Logging.Ring

namespace TieredStore.Logging

open Arc Transition List

variable {size : Nat} {ring ring' : Ring} {a action : RingAction}

def freeBytes (size gct wt : Nat) : Nat :=
  if gct = wt then size
  else if gct < wt then gct + (size - wt)
  else gct - wt

def contiguousBytes (size gct wt : Nat) : Nat :=
  if wt < gct then gct - wt else size - wt

theorem freeBytes_cases (size gct wt : Nat) : (gct = wt ∧ freeBytes size gct wt = size) ∨
      (gct < wt ∧ freeBytes size gct wt = gct + (size - wt)) ∨
      (wt < gct ∧ freeBytes size gct wt = gct - wt) := by
  unfold freeBytes
  split
  · omega
  · split <;> omega

theorem contiguousBytes_cases (size gct wt : Nat) :
    (wt < gct ∧ contiguousBytes size gct wt = gct - wt) ∨
      (gct ≤ wt ∧ contiguousBytes size gct wt = size - wt) := by
  unfold contiguousBytes
  split <;> omega

theorem walFreeSpace_le (gct wt : Nat) : walFreeSpace size gct wt ≤ freeBytes size gct wt := by
  unfold walFreeSpace freeBytes u32
  split
  · omega
  · split <;> omega

variable {gct : Nat} {wt requested : Nat} {pc : RingPc} {span : Span}

theorem walContiguousFreeSpace_eq {wt : Nat} (small : size < 2 ^ 32) (inside : gct ≤ size) :
    walContiguousFreeSpace size gct wt = contiguousBytes size gct wt := by
  unfold walContiguousFreeSpace contiguousBytes u32
  split <;> omega

theorem waitUntilFreeBytes_cases (wt requested : Nat)
    (small : size + requested + crEntrySize < 2 ^ 32) : (size - wt < requested + crEntrySize ∧
        waitUntilFreeBytes size wt requested = requested + crEntrySize + (size - wt)) ∨
      (requested + crEntrySize ≤ size - wt ∧
        waitUntilFreeBytes size wt requested = requested + crEntrySize) := by
  unfold waitUntilFreeBytes u32
  dsimp only
  split <;> omega

/-- Before the worker writes, there is room for the request where the cursor stands,
or there is room at the start of the buffer. -/
def HasRoom (size gct wt requested : Nat) : Prop :=
  (requested + crEntrySize ≤ size - wt ∧ requested + crEntrySize ≤ freeBytes size gct wt) ∨
    (gct ≤ wt ∧ requested + crEntrySize ≤ gct)

def HasContiguous (size gct wt requested : Nat) : Prop :=
  wt + requested + crEntrySize ≤ size ∧ requested + crEntrySize ≤ contiguousBytes size gct wt

def RingPc.Knows (size gct wt : Nat) : RingPc → Prop
  | .waiting requested untilFree =>
    untilFree = waitUntilFreeBytes size wt requested ∧ size + requested + crEntrySize < 2 ^ 32
  | .checking requested => HasRoom size gct wt requested ∧ size < 2 ^ 32
  | .returning requested => gct ≤ wt ∧ requested + crEntrySize ≤ gct
  | .ensuring requested => HasContiguous size gct wt requested
  | .ready room => room = 0 ∨ HasContiguous size gct wt room
  | .writing room total => 0 < total ∧ total ≤ room ∧ HasContiguous size gct wt room

/-- What a round knows of the offset it has copied: the pending writes up to it are
those that the round flushes. -/
structure CopyInv (size gct wt : Nat) (pending : List Span) (copy : RoundCopy) : Prop where
  between : Between gct copy.offset wt
  inside : copy.offset ≤ size
  even : aligned (flushRanges size gct copy.offset) = true
  published : copy.published ≤ pending.length
  flushed : ∀ span ∈ pending.take copy.published, span.Within size gct copy.offset
  later : ∀ span ∈ pending.drop copy.published, span.Within size copy.offset wt

structure RingInv (size : Nat) (ring : Ring) : Prop where
  published : ring.writtenOffset = ring.wtCursor
  gctInside : ring.gctCursor ≤ size
  wtInside : ring.wtCursor ≤ size
  reserve : crEntrySize ≤ size → ring.wtCursor + crEntrySize ≤ size
  knows : ring.pc.Knows size ring.gctCursor ring.wtCursor
  positive : ∀ span ∈ ring.pending, 0 < span.length
  within : ∀ span ∈ ring.pending, span.Within size ring.gctCursor ring.wtCursor
  copied : ∀ copy, ring.copy = some copy →
    CopyInv size ring.gctCursor ring.wtCursor ring.pending copy

theorem hasRoom_of_spin (inside : gct ≤ size) (wtInside : wt ≤ size)
    (small : size + requested + crEntrySize < 2 ^ 32)
    (free : waitUntilFreeBytes size wt requested ≤ walFreeSpace size gct wt) :
    HasRoom size gct wt requested := by
  have le := le_trans free (walFreeSpace_le gct wt)
  have wait := waitUntilFreeBytes_cases wt requested small
  have spec := freeBytes_cases size gct wt
  unfold HasRoom
  omega

theorem mustReturn_room (inside : gct ≤ size) (small : size < 2 ^ 32)
    (room : HasRoom size gct wt requested)
    (short : walContiguousFreeSpace size gct wt < requested + crEntrySize) :
    gct ≤ wt ∧ requested + crEntrySize ≤ gct := by
  rw [walContiguousFreeSpace_eq small inside] at short
  have free := freeBytes_cases size gct wt
  have contiguous := contiguousBytes_cases size gct wt
  unfold HasRoom at room
  omega

theorem mayStay_contiguous (inside : gct ≤ size) (wtInside : wt ≤ size) (small : size < 2 ^ 32)
    (enough : requested + crEntrySize ≤ walContiguousFreeSpace size gct wt) :
    HasContiguous size gct wt requested := by
  rw [walContiguousFreeSpace_eq small inside] at enough
  have contiguous := contiguousBytes_cases size gct wt
  unfold HasContiguous
  omega

/-- The group committer's cursor only moves towards the worker's, so what the worker
knows stays true. -/
theorem RingPc.Knows.moveCursor {offset wt : Nat} (knows : pc.Knows size gct wt)
    (between : Between gct offset wt) (inside : gct ≤ size) (offsetInside : offset ≤ size) :
    pc.Knows size offset wt := by
  rw [between_iff] at between
  have contiguous : ∀ requested, HasContiguous size gct wt requested →
      HasContiguous size offset wt requested := by
    intro requested _
    have before := contiguousBytes_cases size gct wt
    have after := contiguousBytes_cases size offset wt
    unfold HasContiguous at *
    omega
  cases pc with
  | waiting => exact knows
  | checking =>
    refine ⟨?_, knows.2⟩
    have room := knows.1
    have before := freeBytes_cases size gct wt
    have after := freeBytes_cases size offset wt
    unfold HasRoom at *
    omega
  | returning =>
    unfold Knows at *
    omega
  | ensuring requested => exact contiguous requested knows
  | ready room => exact knows.imp_right (contiguous room)
  | writing room => exact ⟨knows.1, knows.2.1, contiguous room knows.2.2⟩

namespace RingInv

variable (inv : RingInv size ring)
include inv

theorem setPc
    (knows : pc.Knows size ring.gctCursor ring.wtCursor) : RingInv size { ring with pc := pc } :=
  { inv with knows := knows }

theorem advance {written : Span} {cursor : Nat}
    (onward : Onward size ring.gctCursor ring.wtCursor cursor)
    (positive : 0 < written.length) (begins : written.start = ring.wtCursor)
    (ends : written.stop ≤ cursor ∨ (cursor < ring.wtCursor ∧ written.stop ≤ size))
    (reserve : cursor + crEntrySize ≤ size) (knows : pc.Knows size ring.gctCursor cursor) :
    RingInv size (ring.advance written cursor pc) where
  published := rfl
  gctInside := inv.gctInside
  wtInside := le_trans (Nat.le_add_right _ _) reserve
  reserve := fun _ => reserve
  knows := knows
  positive := forall_mem_append.mpr ⟨inv.positive, forall_mem_singleton.mpr positive⟩
  within := forall_mem_append.mpr
    ⟨fun span old => (inv.within span old).mono fun _ => onward.inside,
      forall_mem_singleton.mpr (onward.within begins ends)⟩
  copied copy isCopy := by
    have round := inv.copied copy isCopy
    have onwardCopy := onward.of_between round.between
    exact
      { between := onward.between round.between
        inside := round.inside
        even := round.even
        published := by
          rw [Ring.advance, length_append]
          exact Nat.le_add_right_of_le round.published
        flushed := by
          rw [Ring.advance, take_append_of_le_length round.published]
          exact round.flushed
        later := by
          rw [Ring.advance, drop_append_of_le_length round.published]
          exact forall_mem_append.mpr
            ⟨fun span old => (round.later span old).mono fun _ => onwardCopy.inside,
              forall_mem_singleton.mpr (onwardCopy.within begins ends)⟩ }

theorem carriageReturn {requested : Nat} (pc : ring.pc = .returning requested) :
    RingInv size (ring.advance ⟨ring.wtCursor, crEntrySize⟩ 0 (.ensuring requested)) := by
  have knows := inv.knows
  rw [pc] at knows
  obtain ⟨ahead, _⟩ := knows
  have inside := inv.gctInside
  have reserve := inv.reserve (by omega)
  have positive : 0 < crEntrySize := by decide
  have contiguous := contiguousBytes_cases size ring.gctCursor 0
  refine inv.advance (.inr ⟨rfl, by omega, ahead, inv.wtInside⟩) positive rfl
    (.inr ⟨by omega, reserve⟩) (by omega) ?_
  unfold RingPc.Knows HasContiguous
  omega

theorem submit {room total : Nat} (pc : ring.pc = .writing room total) :
    RingInv size (ring.advance ⟨ring.wtCursor, total⟩ (ring.wtCursor + total)
      (.ready (room - total))) := by
  have knows := inv.knows
  rw [pc] at knows
  obtain ⟨positive, _, _, _⟩ := knows
  have before := contiguousBytes_cases size ring.gctCursor ring.wtCursor
  have after := contiguousBytes_cases size ring.gctCursor (ring.wtCursor + total)
  have reserve : 0 < crEntrySize := by decide
  refine inv.advance (.inl ⟨by omega, by omega, by omega⟩) positive rfl
    (.inl (le_refl _)) (by omega) (.inr ?_)
  unfold HasContiguous
  omega

theorem moveCursor {copy : RoundCopy} (copied : ring.copy = some copy) :
    RingInv size
      { ring with
        gctCursor := copy.offset
        copy := none
        pending := ring.pending.drop copy.published } := by
  have round := inv.copied copy copied
  exact
    { published := inv.published
      gctInside := round.inside
      wtInside := inv.wtInside
      reserve := inv.reserve
      knows := inv.knows.moveCursor round.between inv.gctInside round.inside
      positive := fun span mem => inv.positive span (mem_of_mem_drop mem)
      within := round.later
      copied := by
        intro _ _
        contradiction }

theorem copyOffset (even : aligned (flushRanges size ring.gctCursor ring.writtenOffset) = true) :
    RingInv size { ring with copy := some ⟨ring.writtenOffset, ring.pending.length⟩ } :=
  { inv with
    copied := by
      intro copy isCopy
      cases isCopy
      rw [inv.published] at even ⊢
      exact
        { between := between_stop
          inside := inv.wtInside
          even := even
          published := le_refl _
          flushed := fun span mem => inv.within span (mem_of_mem_take mem)
          later := by simp } }

end RingInv

/-- A request that leaves the `u32` arithmetic of the free space exact. -/
def RequestFits (size : Nat) (_ : Ring) : RingAction → Prop
  | .walEnsureEnoughSpace requested => size + requested + crEntrySize < 2 ^ 32
  | _ => True

instance (size : Nat) (ring : Ring) : DecidablePred (RequestFits size ring) := fun action => by
  cases action <;> dsimp only [RequestFits] <;> infer_instance

theorem RingInv.step (inv : RingInv size ring) (fits : RequestFits size ring a)
    (taken : ringStep size ring a = some ring') : RingInv size ring' := by
  have knows := inv.knows
  cases ringStep_cases taken with
  | walEnsureEnoughSpace => exact inv.setPc ⟨rfl, fits⟩
  | @stopSpinning _ _ pc free =>
    rw [pc] at knows
    obtain ⟨rfl, small⟩ := knows
    exact inv.setPc ⟨hasRoom_of_spin inv.gctInside inv.wtInside small free, by omega⟩
  | mustReturn pc short =>
    rw [pc] at knows
    exact inv.setPc (mustReturn_room inv.gctInside knows.2 knows.1 short)
  | mayStay pc enough =>
    rw [pc] at knows
    exact inv.setPc (mayStay_contiguous inv.gctInside inv.wtInside knows.2 enough)
  | carriageReturn pc => exact inv.carriageReturn pc
  | ensureSpace pc =>
    rw [pc] at knows
    exact inv.setPc (.inr knows)
  | reserveDTEntry pc e fitsRoom =>
    rw [pc] at knows
    have positive : 0 < sizeofWALDTEntry := by decide
    exact inv.setPc ⟨by omega, fitsRoom, knows.resolve_left (by omega)⟩
  | reserveWALMetaEntry pc fitsRoom =>
    rw [pc] at knows
    have positive : 0 < crEntrySize := by decide
    exact inv.setPc ⟨positive, fitsRoom, knows.resolve_left (by omega)⟩
  | submit pc => exact inv.submit pc
  | copyOffset free even => exact inv.copyOffset even
  | moveCursor copied => exact inv.moveCursor copied

theorem ringInv_fresh (size : Nat) : RingInv size Ring.fresh where
  published := rfl
  gctInside := Nat.zero_le _
  wtInside := Nat.zero_le _
  reserve := by simp [Ring.fresh]
  knows := .inl rfl
  positive := by simp [Ring.fresh]
  within := by simp [Ring.fresh]
  copied := by simp [Ring.fresh]

theorem ringInv_of_reaches (reached : RingReaches size (RequestFits size) ring) :
    RingInv size ring := by
  apply reached.invariant (RingInv size)
  · intro ring fresh
    exact fresh ▸ ringInv_fresh size
  · intro ring a _ inv fits taken
    exact inv.step fits taken

section

variable (inv : RingInv size ring)
include inv

theorem RingInv.writes (writes : ring.writes = some span) : span.stop ≤ size ∧
      ∀ position, span.Covers position → ¬Inside size ring.gctCursor ring.wtCursor position := by
  have knows := inv.knows
  have inside := inv.gctInside
  have reserve := inv.reserve
  have contiguous := contiguousBytes_cases size ring.gctCursor ring.wtCursor
  unfold Ring.writes at writes
  split at writes
  · rename_i requested pc
    cases writes
    rw [pc] at knows
    unfold RingPc.Knows at knows
    unfold Span.Covers Span.stop Inside
    refine ⟨reserve (by omega), ?_⟩
    intro position covers
    dsimp only at covers
    split <;> omega
  · rename_i room total pc
    cases writes
    rw [pc] at knows
    unfold RingPc.Knows HasContiguous at knows
    unfold Span.Covers Span.stop Inside
    refine ⟨by dsimp only; omega, ?_⟩
    intro position covers
    dsimp only at covers
    split <;> omega
  · contradiction

theorem RingInv.pending_apart {span old : Span}
    (writes : ring.writes = some span) (mem : old ∈ ring.pending) : span.Apart old := by
  intro position covers oldCovers
  exact (inv.writes writes).2 position covers (inv.within old mem position oldCovers)

theorem RingInv.pending_inside (mem : span ∈ ring.pending) : span.stop ≤ size := by
  have positive := inv.positive span mem
  have last := inv.within span mem (span.stop - 1) (by unfold Span.Covers Span.stop; omega)
  have := last.lt_size inv.gctInside inv.wtInside
  omega

theorem RingInv.pending_nil (equal : ring.wtCursor = ring.gctCursor) : ring.pending = [] := by
  rw [eq_nil_iff_forall_not_mem]
  intro span mem
  have positive := inv.positive span mem
  have first := inv.within span mem span.start (by unfold Span.Covers Span.stop; omega)
  rw [equal] at first
  exact not_inside_self first

end

theorem mem_blocks_iff {lower upper : Nat} (position : Nat) (le : lower ≤ upper)
    (empty : lower = upper → lower % 512 = 0) :
    (downAlign lower ≤ position ∧ position < upAlign upper) ↔
      ∃ byte, (lower ≤ byte ∧ byte < upper) ∧ position / 512 = byte / 512 := by
  unfold downAlign upAlign
  constructor
  · intro _
    by_cases before : position < lower
    · exact ⟨lower, by omega, by omega⟩
    · by_cases past : upper ≤ position
      · exact ⟨upper - 1, by omega, by omega⟩
      · exact ⟨position, by omega, rfl⟩
  · rintro ⟨byte, _, _⟩
    omega

theorem mem_flushRanges_iff {offset position : Nat} (inside : gct ≤ size)
    (even : aligned (flushRanges size gct offset) = true) :
    (∃ range ∈ flushRanges size gct offset, range.1 ≤ position ∧ position < range.2) ↔
      ∃ byte, Inside size gct offset byte ∧ position / 512 = byte / 512 := by
  rcases lt_trichotomy gct offset with ahead | equal | wrapped
  · have blocks := mem_blocks_iff position (le_of_lt ahead) (by omega)
    simpa [flushRanges, ahead, Inside, le_of_lt ahead] using blocks
  · subst equal
    simp [flushRanges, not_inside_self]
  · have notAhead : ¬gct < offset := by omega
    simp only [flushRanges, notAhead, wrapped, if_false, if_true] at even ⊢
    -- both ensures hold of the first range, so the buffer ends at a block
    have whole : size % 512 = 0 := by
      simp only [aligned, all_cons, Bool.and_eq_true, decide_eq_true_eq] at even
      have down : downAlign gct ≤ gct := Nat.sub_le _ _
      omega
    have atEnd : upAlign size = size := by
      unfold upAlign
      omega
    have first := mem_blocks_iff position inside (by omega)
    have second := mem_blocks_iff position (Nat.zero_le offset) (by omega)
    rw [atEnd] at first
    have zero : downAlign 0 = 0 := rfl
    rw [zero] at second
    simp only [mem_cons, exists_eq_left,
      Inside, Nat.not_le_of_lt wrapped, if_false, or_and_right, exists_or]
    rw [first, second]
    simp

/-- In every state that is reached while the requests leave the `u32` arithmetic exact:
what the worker writes lies in the buffer and on no pending byte, equal cursors mean
that nothing is pending, and a round flushes the blocks from the old cursor to the new
one, with all that it takes from the pending bytes in them. -/
theorem ring_keeps_pending_bytes {size : Nat} {ring : Ring}
    (reached : RingReaches size (RequestFits size) ring) :
    (∀ span, ring.writes = some span →
        span.stop ≤ size ∧ ∀ old ∈ ring.pending, span.Apart old) ∧
      (∀ old ∈ ring.pending, old.stop ≤ size) ∧
      (ring.wtCursor = ring.gctCursor → ring.pending = []) ∧
      ∀ copy, ring.copy = some copy →
        (∀ span ∈ ring.pending.take copy.published, span.Within size ring.gctCursor copy.offset) ∧
        ∀ position,
          (∃ range ∈ flushRanges size ring.gctCursor copy.offset,
            range.1 ≤ position ∧ position < range.2) ↔
          ∃ byte, Inside size ring.gctCursor copy.offset byte ∧ position / 512 = byte / 512 := by
  have inv := ringInv_of_reaches reached
  refine ⟨?_, ?_, inv.pending_nil, ?_⟩
  · intro span writes
    refine ⟨(inv.writes writes).1, ?_⟩
    intro old member
    exact inv.pending_apart writes member
  · intro old member
    exact inv.pending_inside member
  · intro copy copied
    have round := inv.copied copy copied
    refine ⟨round.flushed, ?_⟩
    intro position
    exact mem_flushRanges_iff inv.gctInside round.even

def ringEntry (total : Nat) : List RingAction :=
  [.walEnsureEnoughSpace total, .stopSpinning, .checkContiguous, .ensureSpace,
    .reserveDTEntry total, .submit]

theorem ring_keeps_pending_bytes_flush :
    ∃ ring, RingReaches 4096 (RequestFits 4096) ring ∧
      ring.pending = [⟨0, 1000⟩] ∧
      (∀ span, ring.writes = some span →
        span.stop ≤ 4096 ∧ ∀ old ∈ ring.pending, span.Apart old) := by
  let actions := ringEntry 1000 ++ [.copyOffset] ++ (ringEntry 1000).take 5
  obtain ⟨ring, ran, pending⟩ : ∃ ring, run (ringStep 4096) Ring.fresh actions = some ring ∧
      ring.pending = [⟨0, 1000⟩] := ⟨_, rfl, rfl⟩
  have start : RingReaches 4096 (RequestFits 4096) Ring.fresh := .start rfl
  have permitted : AllowedAlong (ringStep 4096) (RequestFits 4096) Ring.fresh actions := by
    decide
  have reached := start.run_of_allowed permitted ran
  exact ⟨ring, reached, pending, (ring_keeps_pending_bytes reached).1⟩

/-- In a buffer of 4 GiB and 4096 bytes the free space is truncated: a carriage return
is made with room at the start of the buffer for the request alone, the cursors meet
while everything is pending, and the next entry goes over pending bytes. -/
theorem large_ring_overwrites_pending :
    ∃ ring, RingReaches (2 ^ 32 + 4096) (fun _ _ => True) ring ∧
      ring.wtCursor = ring.gctCursor ∧
      ring.writes = some ⟨1000, 1000⟩ ∧
      ⟨1000, 2500⟩ ∈ ring.pending := by
  let actions := ringEntry 1000 ++ [.copyOffset, .moveCursor] ++ ringEntry 2500 ++
    [.walEnsureEnoughSpace 1000, .stopSpinning, .checkContiguous, .carriageReturn, .ensureSpace,
      .reserveDTEntry 1000, .submit] ++ (ringEntry 1000).take 5
  obtain ⟨ring, ran, equal, writes, pending⟩ :
      ∃ ring, run (ringStep (2 ^ 32 + 4096)) Ring.fresh actions = some ring ∧
        ring.wtCursor = ring.gctCursor ∧ ring.writes = some ⟨1000, 1000⟩ ∧
        ring.pending = [⟨1000, 2500⟩, ⟨3500, crEntrySize⟩, ⟨0, 1000⟩] :=
    ⟨_, rfl, rfl, rfl, rfl⟩
  have start : RingReaches (2 ^ 32 + 4096) (fun _ _ => True) Ring.fresh := .start rfl
  have reached := start.run_of_forall (fun _ _ _ => trivial) ran
  refine ⟨ring, reached, equal, writes, ?_⟩
  rw [pending]
  exact mem_cons_self

end TieredStore.Logging
