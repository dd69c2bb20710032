import Mathlib

/-! The count-min sketch of the page and record accesses, with its aging. -/

namespace TieredStore.Admission

structure CountMinSketch (Key : Type) where
  cmsRowNum : Nat
  cmsColNum : Nat
  rows : 0 < cmsRowNum
  columns : 0 < cmsColNum
  hasher : Key → UInt64
  cmsHashSeeds : Nat → UInt64

/-- The cells by row and column, as `at(i, j)` names them. -/
abbrev CmsMatrix := Nat → Nat → UInt64

namespace CountMinSketch

variable {Key : Type} (sketch : CountMinSketch Key)

def hash (key : Key) (hashIndex : Nat) : UInt64 :=
  let mixed := sketch.hasher key + sketch.cmsHashSeeds hashIndex
  let mixed := (mixed ^^^ (mixed >>> 33)) * 0xff51afd7e558ccd
  let mixed := (mixed ^^^ (mixed >>> 33)) * 0xc4ceb9fe1a85ec53
  mixed ^^^ (mixed >>> 33)

def colIndex (key : Key) (i : Nat) : Nat := (sketch.hash key i).toNat % sketch.cmsColNum

-- each row has one cell of the key
def cmsUpdate (matrix : CmsMatrix) (key : Key) : CmsMatrix := fun i j =>
  if i < sketch.cmsRowNum ∧ j = sketch.colIndex key i then matrix i j + 1 else matrix i j

def cmsQuery (matrix : CmsMatrix) (key : Key) : UInt64 :=
  (List.range sketch.cmsRowNum).foldl
    (fun minCount i => min minCount (matrix i (sketch.colIndex key i))) 18446744073709551615

def cmsAging (matrix : CmsMatrix) : CmsMatrix := fun i j =>
  if i < sketch.cmsRowNum ∧ j < sketch.cmsColNum then matrix i j >>> 1 else matrix i j

def cmsReset (matrix : CmsMatrix) : CmsMatrix := fun i j =>
  if i < sketch.cmsRowNum ∧ j < sketch.cmsColNum then 0 else matrix i j

inductive Call (Key : Type)
  | update (key : Key)
  | aging
  | reset

def apply (matrix : CmsMatrix) : Call Key → CmsMatrix
  | .update key => sketch.cmsUpdate matrix key
  | .aging => sketch.cmsAging matrix
  | .reset => sketch.cmsReset matrix

def run (calls : List (Call Key)) : CmsMatrix := calls.foldl sketch.apply fun _ _ => 0

/-- What an exact counter of the updates in `counted` does at a call. -/
def Call.age (counted : Key → Bool) (count : Nat) : Call Key → Nat
  | .update key => if counted key then count + 1 else count
  | .aging => count / 2
  | .reset => 0

def agedCount (counted : Key → Bool) (calls : List (Call Key)) : Nat :=
  calls.foldl (Call.age counted) 0

def Call.isUpdate : Call Key → Bool
  | .update _ => true
  | _ => false

theorem Call.age_le (counted : Key → Bool) (count : Nat) (call : Call Key) :
    call.age counted count ≤ count + if call.isUpdate then 1 else 0 := by
  cases call with
  | update =>
    simp only [age, isUpdate, if_true]
    split <;> omega
  | aging => exact Nat.div_le_self count 2
  | reset => exact Nat.zero_le _

structure Bounds (matrix : CmsMatrix) (count : Key → Nat) (total : Nat) : Prop where
  lower : ∀ key, ∀ i < sketch.cmsRowNum, count key ≤ (matrix i (sketch.colIndex key i)).toNat
  upper : ∀ i < sketch.cmsRowNum, ∀ j < sketch.cmsColNum, (matrix i j).toNat ≤ total

section Bounds

variable {sketch} [DecidableEq Key] {matrix : CmsMatrix} {count : Key → Nat} {total : Nat}

theorem Bounds.apply (bounds : sketch.Bounds matrix count total) (call : Call Key)
    (few : total + (if call.isUpdate then 1 else 0) < 2 ^ 64) :
    sketch.Bounds (sketch.apply matrix call) (fun key => call.age (· = key) (count key))
      (call.age (fun _ => true) total) := by
  have inside (key : Key) (i : Nat) : sketch.colIndex key i < sketch.cmsColNum :=
    Nat.mod_lt _ sketch.columns
  cases call with
  | update updated =>
    have added {i j : Nat} (row : i < sketch.cmsRowNum) (column : j < sketch.cmsColNum) :
        (sketch.cmsUpdate matrix updated i j).toNat =
          (matrix i j).toNat + if j = sketch.colIndex updated i then 1 else 0 := by
      have above := bounds.upper i row j column
      by_cases hit : j = sketch.colIndex updated i
      · simp only [cmsUpdate, row, hit] at above ⊢
        exact Nat.mod_eq_of_lt (lt_of_le_of_lt (Nat.add_le_add_right above 1) few)
      · simp [cmsUpdate, hit]
    constructor
    · intro key i row
      have before := bounds.lower key i row
      simp only [CountMinSketch.apply, added row (inside key i), Call.age, decide_eq_true_eq]
      by_cases same : updated = key
      · simp [same, before]
      · rw [if_neg same]
        omega
    · intro i row j column
      have before := bounds.upper i row j column
      simp only [CountMinSketch.apply, added row column, Call.age, if_true]
      split <;> omega
  | aging =>
    have halved {i j : Nat} (row : i < sketch.cmsRowNum) (column : j < sketch.cmsColNum) :
        (sketch.cmsAging matrix i j).toNat = (matrix i j).toNat / 2 := by
      simp [cmsAging, row, column, Nat.shiftRight_eq_div_pow]
    constructor
    · intro key i row
      rw [CountMinSketch.apply, halved row (inside key i)]
      exact Nat.div_le_div_right (bounds.lower key i row)
    · intro i row j column
      rw [CountMinSketch.apply, halved row column]
      exact Nat.div_le_div_right (bounds.upper i row j column)
  | reset =>
    refine ⟨fun _ _ _ => Nat.zero_le _, fun i row j column => ?_⟩
    simp [CountMinSketch.apply, cmsReset, row, column]

theorem Bounds.run (calls : List (Call Key)) (bounds : sketch.Bounds matrix count total)
    (few : total + calls.countP Call.isUpdate < 2 ^ 64) :
    sketch.Bounds (calls.foldl sketch.apply matrix)
      (fun key => calls.foldl (Call.age (· = key)) (count key))
      (calls.foldl (Call.age fun _ => true) total) := by
  induction calls generalizing matrix count total with
  | nil => exact bounds
  | cons call _ ih =>
    have grows := call.age_le (fun _ => true) total
    rw [List.countP_cons] at few
    exact ih (bounds.apply call (by omega)) (by omega)

theorem le_foldl_min {cells : Nat → UInt64} {value : Nat} (rows : List Nat) (start : UInt64) :
    value ≤ (rows.foldl (fun least i => min least (cells i)) start).toNat ↔
      value ≤ start.toNat ∧ ∀ i ∈ rows, value ≤ (cells i).toNat := by
  induction rows generalizing start with
  | nil => simp
  | cons row _ ih =>
    have least : (min start (cells row)).toNat = min start.toNat (cells row).toNat := by
      change (if start ≤ cells row then start else cells row).toNat = _
      simp only [UInt64.le_iff_toNat_le, apply_ite UInt64.toNat, min_def]
    simp [ih, least, and_assoc]

/-- `CMSQuery` lies between the exact aged count of the key and the exact aged total. -/
theorem cmsQuery_bounds (sketch : CountMinSketch Key) (calls : List (Call Key))
    (few : calls.countP Call.isUpdate < 2 ^ 64) (key : Key) :
    agedCount (· = key) calls ≤ (sketch.cmsQuery (sketch.run calls) key).toNat ∧
      (sketch.cmsQuery (sketch.run calls) key).toNat ≤ agedCount (fun _ => true) calls := by
  have start : sketch.Bounds (fun _ _ => 0) (fun _ => 0) 0 :=
    ⟨fun _ _ _ => Nat.zero_le _, fun _ _ _ _ => le_rfl⟩
  have bounds := start.run calls (by omega)
  constructor
  · have fits := (bounds.lower key 0 sketch.rows).trans_lt (UInt64.toNat_lt _)
    refine (le_foldl_min _ _).mpr ⟨Nat.le_pred_of_lt fits, fun i member => ?_⟩
    exact bounds.lower key i (List.mem_range.mp member)
  · have first := bounds.upper 0 sketch.rows (sketch.colIndex key 0) (Nat.mod_lt _ sketch.columns)
    exact (((le_foldl_min _ _).mp le_rfl).2 0 (List.mem_range.mpr sketch.rows)).trans first

theorem cmsQuery_bounds_collision :
    let sketch : CountMinSketch Nat := ⟨2, 1, by decide, by decide, Nat.toUInt64, fun _ => 0⟩
    let calls := [Call.update 7, .update 8, .aging, .update 7]
    agedCount (· = 7) calls ≤ (sketch.cmsQuery (sketch.run calls) 7).toNat ∧
      (sketch.cmsQuery (sketch.run calls) 7).toNat ≤ agedCount (fun _ => true) calls :=
  cmsQuery_bounds _ _ (by decide) 7

end Bounds

end CountMinSketch

end TieredStore.Admission
