import Mathlib

/-!
Bytes behind a pointer.  A record is laid out as a list of bytes, fields are
little-endian, and a read beyond the record sees whatever the memory holds.
-/

namespace TieredStore.ByteMemory

open Function List

abbrev Memory := Nat → UInt8

def slice (memory : Memory) (offset length : Nat) : List UInt8 :=
  (List.range' offset length).map memory

@[simp] theorem length_slice (memory : Memory) (offset length : Nat) :
    (slice memory offset length).length = length := by
  simp [slice]

theorem slice_succ (memory : Memory) (offset length : Nat) :
    slice memory offset (length + 1) = memory offset :: slice memory (offset + 1) length := by
  simp [slice, range'_succ]

theorem slice_add (memory : Memory) (offset first second : Nat) :
    slice memory offset (first + second) =
      slice memory offset first ++ slice memory (offset + first) second := by
  simp only [slice, ← map_append]
  rw [range'_append_1]

def Stores (memory : Memory) (offset : Nat) (bytes : List UInt8) : Prop :=
  slice memory offset bytes.length = bytes

instance (memory : Memory) (offset : Nat) (bytes : List UInt8) :
    Decidable (Stores memory offset bytes) := inferInstanceAs (Decidable (_ = _))

variable {offset : Nat} {memory : Memory} {width value : Nat}

theorem stores_append {first second : List UInt8} : Stores memory offset (first ++ second) ↔
      Stores memory offset first ∧ Stores memory (offset + first.length) second := by
  simp only [Stores, length_append, slice_add]
  constructor
  · intro whole
    exact append_inj whole (by simp)
  · rintro ⟨front, back⟩
    rw [front, back]

theorem stores_cons {byte : UInt8} {rest : List UInt8} : Stores memory offset (byte :: rest) ↔
      memory offset = byte ∧ Stores memory (offset + 1) rest := by
  simp [Stores, slice_succ]

def ofBytes (bytes : List UInt8) : Memory := fun position => bytes.getD position 0

theorem stores_ofBytes (bytes : List UInt8) : Stores (ofBytes bytes) 0 bytes := by
  apply ext_getElem
  · simp
  · intro _ _ inBytes
    simp [slice, ofBytes, inBytes]

/-! ### Copies

A copy is the list of its stores, in order: an offset and a byte. -/

def memcpy (offset : Nat) : List UInt8 → List (Nat × UInt8)
  | [] => []
  | byte :: rest => (offset, byte) :: memcpy (offset + 1) rest

def put (memory : Memory) : List (Nat × UInt8) → Memory
  | [] => memory
  | (offset, byte) :: rest => put (Function.update memory offset byte) rest

theorem forall_mem_memcpy {size : Nat} {bytes : List UInt8} :
    (∀ store ∈ memcpy offset bytes, store.1 < size) ↔
      bytes = [] ∨ offset + bytes.length ≤ size := by
  induction bytes generalizing offset with
  | nil => simp [memcpy]
  | cons byte rest ih =>
    simp only [memcpy, forall_mem_cons, ih, length_cons, reduceCtorEq, false_or]
    cases rest with
    | nil => simp
    | cons => simp; omega

theorem put_memcpy_of_lt {position : Nat} (before : position < offset) (memory : Memory)
    (bytes : List UInt8) : put memory (memcpy offset bytes) position = memory position := by
  induction bytes generalizing memory offset with
  | nil => rfl
  | cons _ _ ih => rw [memcpy, put, ih (by omega), update_of_ne (by omega)]

theorem stores_put_memcpy (memory : Memory) (offset : Nat) (bytes : List UInt8) :
    Stores (put memory (memcpy offset bytes)) offset bytes := by
  induction bytes generalizing memory offset with
  | nil => rfl
  | cons _ _ ih =>
    rw [stores_cons, memcpy, put]
    refine ⟨?_, ih _ _⟩
    rw [put_memcpy_of_lt (Nat.lt_succ_self offset), update_self]

def encodeLE : (width value : Nat) → List UInt8
  | 0, _ => []
  | width + 1, value => UInt8.ofNat value :: encodeLE width (value / 256)

def decodeLE : List UInt8 → Nat
  | [] => 0
  | byte :: rest => byte.toNat + 256 * decodeLE rest

@[simp] theorem length_encodeLE (width value : Nat) : (encodeLE width value).length = width := by
  induction width generalizing value with
  | zero => rfl
  | succ width ih => simp [encodeLE, ih]

theorem decodeLE_encodeLE (fits : value < 256 ^ width) :
    decodeLE (encodeLE width value) = value := by
  induction width generalizing value with
  | zero =>
    simp only [encodeLE, decodeLE]
    omega
  | succ width ih =>
    have high : value / 256 < 256 ^ width := by
      rw [pow_succ'] at fits
      exact Nat.div_lt_of_lt_mul fits
    simp only [encodeLE, decodeLE, ih high, UInt8.toNat_ofNat']
    omega

def readLE (memory : Memory) (offset width : Nat) : Nat :=
  decodeLE (slice memory offset width)

theorem Stores.readLE
    (stores : Stores memory offset (encodeLE width value)) (fits : value < 256 ^ width) :
    readLE memory offset width = value := by
  unfold Stores at stores
  rw [length_encodeLE] at stores
  rw [ByteMemory.readLE, stores, decodeLE_encodeLE fits]

end TieredStore.ByteMemory
