import TieredStore.Lib.Arc
import TieredStore.Lib.Transition

/-!
The write-ahead log of one worker is a ring of bytes.  The worker appends at
`wal_wt_cursor`; the group committer writes what lies behind it to the device and
moves `wal_gct_cursor` up.  A step is one access of either thread to a cursor of
the other.
-/

namespace TieredStore.Logging

open Arc Transition

def crEntrySize : Nat := 24

def sizeofWALDTEntry : Nat := 48

def u32 (value : Nat) : Nat := value % 2 ^ 32

/-- Where the worker is in `walEnsureEnoughSpace` and in writing an entry. -/
inductive RingPc
  | waiting (requested untilFree : Nat)
  | checking (requested : Nat)
  | returning (requested : Nat)
  | ensuring (requested : Nat)
  | ready (room : Nat)
  | writing (room total : Nat)
  deriving DecidableEq, Repr

/-- What the group committer took of the worker in this round; `published` is a
ghost, the number of pending writes that the offset covers. -/
structure RoundCopy where
  offset : Nat
  published : Nat
  deriving DecidableEq, Repr

/-- `pending` is a ghost: the bytes that were written and that `wal_gct_cursor` does
not cover yet, in the order in which they were written. -/
structure Ring where
  wtCursor : Nat
  gctCursor : Nat
  writtenOffset : Nat
  pc : RingPc
  copy : Option RoundCopy
  pending : List Span
  deriving DecidableEq, Repr

def Ring.fresh : Ring := ⟨0, 0, 0, .ready 0, none, []⟩

def walFreeSpace (size gct wt : Nat) : Nat :=
  if gct = wt then u32 size
  else if gct < wt then u32 (gct + (size - wt))
  else u32 (gct - wt)

def walContiguousFreeSpace (size gct wt : Nat) : Nat :=
  if wt < gct then u32 (gct - wt) else u32 (size - wt)

def waitUntilFreeBytes (size wt requested : Nat) : Nat :=
  let needed := u32 (requested + crEntrySize)
  if size - wt < needed then u32 (needed + (size - wt)) else needed

def downAlign (offset : Nat) : Nat := offset - offset % 512

def upAlign (offset : Nat) : Nat := (offset + 511) / 512 * 512

/-- The ranges of the buffer that a round writes, each from a lower to an upper
offset. -/
def flushRanges (size gct offset : Nat) : List (Nat × Nat) :=
  if gct < offset then [(downAlign gct, upAlign offset)]
  else if offset < gct then [(downAlign gct, size), (0, upAlign offset)]
  else []

def aligned (ranges : List (Nat × Nat)) : Bool :=
  ranges.all fun range => decide (range.1 % 512 = 0) && decide ((range.2 - range.1) % 512 = 0)

inductive RingAction
  | walEnsureEnoughSpace (requested : Nat)
  | stopSpinning
  | checkContiguous
  | carriageReturn
  | ensureSpace
  | reserveDTEntry (total : Nat)
  | reserveWALMetaEntry
  | submit
  | copyOffset
  | moveCursor
  deriving DecidableEq, Repr

def Ring.writes (ring : Ring) : Option Span :=
  match ring.pc with
  | .returning _ => some ⟨ring.wtCursor, crEntrySize⟩
  | .writing _ total => some ⟨ring.wtCursor, total⟩
  | _ => none

def Ring.advance (ring : Ring) (written : Span) (cursor : Nat) (pc : RingPc) : Ring :=
  { ring with
    wtCursor := cursor
    writtenOffset := cursor
    pc := pc
    pending := ring.pending ++ [written] }

/-- One step; an `ensure` that fails ends the program.  The entries reserved after a
request fit in what was requested. -/
def ringStep (size : Nat) (ring : Ring) : RingAction → Option Ring
  | .walEnsureEnoughSpace requested =>
    match ring.pc with
    | .ready _ =>
      if requested < 2 ^ 32 then
        some { ring with
          pc := .waiting requested (waitUntilFreeBytes size ring.wtCursor requested) }
      else
        none
    | _ => none
  | .stopSpinning =>
    match ring.pc with
    | .waiting requested untilFree =>
      if untilFree ≤ walFreeSpace size ring.gctCursor ring.wtCursor then
        some { ring with pc := .checking requested }
      else
        none
    | _ => none
  | .checkContiguous =>
    match ring.pc with
    | .checking requested =>
      if walContiguousFreeSpace size ring.gctCursor ring.wtCursor <
          requested + crEntrySize then
        some { ring with pc := .returning requested }
      else
        some { ring with pc := .ensuring requested }
    | _ => none
  | .carriageReturn =>
    match ring.pc with
    | .returning requested =>
      some (ring.advance ⟨ring.wtCursor, crEntrySize⟩ 0 (.ensuring requested))
    | _ => none
  | .ensureSpace =>
    match ring.pc with
    | .ensuring requested =>
      if requested ≤ walContiguousFreeSpace size ring.gctCursor ring.wtCursor ∧
          ring.wtCursor + requested + crEntrySize ≤ size then
        some { ring with pc := .ready requested }
      else
        none
    | _ => none
  | .reserveDTEntry total =>
    match ring.pc with
    | .ready room =>
      if sizeofWALDTEntry ≤ total ∧ total ≤ room ∧
          total ≤ walContiguousFreeSpace size ring.gctCursor ring.wtCursor then
        some { ring with pc := .writing room total }
      else
        none
    | _ => none
  | .reserveWALMetaEntry =>
    match ring.pc with
    | .ready room =>
      if crEntrySize ≤ room then
        some { ring with pc := .writing room crEntrySize }
      else
        none
    | _ => none
  | .submit =>
    match ring.pc with
    | .writing room total =>
      some (ring.advance ⟨ring.wtCursor, total⟩ (ring.wtCursor + total) (.ready (room - total)))
    | _ => none
  | .copyOffset =>
    if ring.copy = none ∧ aligned (flushRanges size ring.gctCursor ring.writtenOffset) then
      some { ring with copy := some ⟨ring.writtenOffset, ring.pending.length⟩ }
    else
      none
  | .moveCursor =>
    match ring.copy with
    | some copy =>
      some { ring with
        gctCursor := copy.offset
        copy := none
        pending := ring.pending.drop copy.published }
    | none => none

inductive RingStep (size : Nat) (ring : Ring) : RingAction → Ring → Prop
  | walEnsureEnoughSpace {requested room} (pc : ring.pc = .ready room) (fits : requested < 2 ^ 32) :
    RingStep size ring (.walEnsureEnoughSpace requested)
      { ring with
        pc := .waiting requested (waitUntilFreeBytes size ring.wtCursor requested) }
  | stopSpinning {requested untilFree} (pc : ring.pc = .waiting requested untilFree)
    (free : untilFree ≤ walFreeSpace size ring.gctCursor ring.wtCursor) :
    RingStep size ring .stopSpinning { ring with pc := .checking requested }
  | mustReturn {requested} (pc : ring.pc = .checking requested)
    (short : walContiguousFreeSpace size ring.gctCursor ring.wtCursor < requested + crEntrySize) :
    RingStep size ring .checkContiguous { ring with pc := .returning requested }
  | mayStay {requested} (pc : ring.pc = .checking requested)
    (enough : requested + crEntrySize ≤ walContiguousFreeSpace size ring.gctCursor ring.wtCursor) :
    RingStep size ring .checkContiguous { ring with pc := .ensuring requested }
  | carriageReturn {requested} (pc : ring.pc = .returning requested) :
    RingStep size ring .carriageReturn
      (ring.advance ⟨ring.wtCursor, crEntrySize⟩ 0 (.ensuring requested))
  | ensureSpace {requested}
    (pc : ring.pc = .ensuring requested) (inside : ring.wtCursor + requested + crEntrySize ≤ size) :
    RingStep size ring .ensureSpace { ring with pc := .ready requested }
  | reserveDTEntry {room total}
    (pc : ring.pc = .ready room) (e : sizeofWALDTEntry ≤ total) (fits : total ≤ room) :
    RingStep size ring (.reserveDTEntry total) { ring with pc := .writing room total }
  | reserveWALMetaEntry {room} (pc : ring.pc = .ready room) (fits : crEntrySize ≤ room) :
    RingStep size ring .reserveWALMetaEntry { ring with pc := .writing room crEntrySize }
  | submit {room total} (pc : ring.pc = .writing room total) :
    RingStep size ring .submit
      (ring.advance ⟨ring.wtCursor, total⟩ (ring.wtCursor + total) (.ready (room - total)))
  | copyOffset (free : ring.copy = none)
    (even : aligned (flushRanges size ring.gctCursor ring.writtenOffset) = true) :
    RingStep size ring .copyOffset
      { ring with copy := some ⟨ring.writtenOffset, ring.pending.length⟩ }
  | moveCursor {copy} (copied : ring.copy = some copy) :
    RingStep size ring .moveCursor
      { ring with
        gctCursor := copy.offset
        copy := none
        pending := ring.pending.drop copy.published }

theorem ringStep_cases {size : Nat} {ring ring' : Ring} {a : RingAction}
    (taken : ringStep size ring a = some ring') : RingStep size ring a ring' := by
  cases a <;> simp only [ringStep] at taken <;>
    (repeat' split at taken) <;>
    simp only [Option.some.injEq, reduceCtorEq] at taken <;> subst taken
  all_goals
    constructor <;> first | assumption | simp_all

abbrev RingReaches (size : Nat) (allowed : Ring → RingAction → Prop) : Ring → Prop :=
  Reachable (ringStep size) (fun ring => ring = Ring.fresh) allowed

end TieredStore.Logging
