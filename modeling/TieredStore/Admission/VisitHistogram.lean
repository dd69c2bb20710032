import Mathlib

/-! The histogram of the sampled visit counts and the admission thresholds read off it. -/

namespace TieredStore.Admission

open Function List

-- `1ULL << i`, where the machine takes the shift modulo 64
def bucketRangeLowerBound (i : Nat) : Nat := 2 ^ (i % 64)

def bucketRangeUpperBound (i : Nat) : Nat := 2 ^ ((i + 1) % 64) - 1

/-- `count i` is `page_in_range_count` of bucket `i`. -/
structure VisitFrequencyBucketArray (totalBucketNum : Nat) where
  count : Nat → Nat

/-- `static_cast<u64>(total * ratio)` for a ratio of at most one. -/
structure DramRatio where
  pages : Nat → Nat
  pages_le : ∀ total, pages total ≤ total

namespace VisitFrequencyBucketArray

variable {n : Nat} (array : VisitFrequencyBucketArray n)

def fresh (n : Nat) : VisitFrequencyBucketArray n := ⟨fun _ => 0⟩

def calculateBucketIndex (n visitCount : Nat) : Nat :=
  if visitCount = 1 then 0
  else if n ≤ Nat.log 2 visitCount then n - 1
  else Nat.log 2 visitCount

def updateVisitFrequencyBucket (visitCount : Nat) : VisitFrequencyBucketArray n :=
  let index := calculateBucketIndex n visitCount
  ⟨Function.update array.count index (array.count index + 1)⟩

def agingVisitFrequencyBuckets : VisitFrequencyBucketArray n :=
  ⟨fun i => if i + 1 < n then array.count (i + 1) else 0⟩

-- the samples with a count of zero are left out
def addSample (visitCount : Nat) : VisitFrequencyBucketArray n :=
  if 0 < visitCount then array.updateVisitFrequencyBucket visitCount else array

/-- Steps 3 and 4 of `UpdateSampledVisitHistogram`. -/
def window (samples : List Nat) : VisitFrequencyBucketArray n :=
  samples.foldl addSample array.agingVisitFrequencyBuckets

def getCumulativePageCount (begin : Nat) : Nat := ∑ i ∈ Finset.Ico begin n, array.count i

def getTotalSampledPages : Nat := ∑ i ∈ Finset.range n, array.count i

def targetPageCount (ratio : DramRatio) : Nat := ratio.pages array.getTotalSampledPages

/-- The loop of the coarse threshold with `i` buckets to go. -/
def coarseFrom (target : Nat) : Nat → Nat → Nat
  | 0, _ => bucketRangeLowerBound 0
  | i + 1, cumulative =>
    let cumulative := cumulative + array.count i
    if target ≤ cumulative then bucketRangeLowerBound i else coarseFrom target i cumulative

def calculateAdmissionThresholdCoarse (ratio : DramRatio) : Nat :=
  if array.getTotalSampledPages = 0 then 1 else array.coarseFrom (array.targetPageCount ratio) n 0

/-- The loop of the fine threshold: the critical bucket and the count of the buckets above it. -/
def criticalFrom (target : Nat) : Nat → Nat → Option (Nat × Nat)
  | 0, _ => none
  | i + 1, cumulative =>
    if target ≤ cumulative + array.count i then some (i, cumulative)
    else criticalFrom target i (cumulative + array.count i)

def visitCountInRanges (snapshot : List (Nat × Nat)) (critical : Nat) : List Nat :=
  (snapshot.map Prod.snd).filter fun visits =>
    bucketRangeLowerBound critical ≤ visits ∧ visits ≤ bucketRangeUpperBound critical

/-- The choice in the critical bucket; `none` is a read outside `visit_count_in_ranges`. -/
def fineInBucket (snapshot : List (Nat × Nat)) (critical remaining : Nat) : Option Nat :=
  let inRanges := visitCountInRanges snapshot critical
  if inRanges = [] then some (bucketRangeLowerBound critical) else
  let sorted := inRanges.mergeSort fun more less => less ≤ more
  if sorted.length ≤ remaining then some (bucketRangeLowerBound critical)
  -- the unsigned index 0 - 1 is past every element
  else if remaining = 0 then none else sorted[remaining - 1]?

def calculateAdmissionThresholdFine (ratio : DramRatio) (snapshot : List (Nat × Nat)) :
    Option Nat :=
  if array.getTotalSampledPages = 0 then some 1 else
  match array.criticalFrom (array.targetPageCount ratio) n 0 with
  | none => some (bucketRangeLowerBound 0)
  | some (critical, before) =>
    fineInBucket snapshot critical (array.targetPageCount ratio - before)

def inBucket (b visits : Nat) : Bool := 2 ^ b ≤ visits ∧ visits ≤ 2 ^ (b + 1) - 1

def Holds (samples : List Nat) : Prop := ∀ b < n, array.count b = samples.countP (inBucket b)

section Aging

variable {array} {b : Nat} {samples more : List Nat}

theorem inBucket_iff {visits : Nat} (positive : 0 < visits) :
    inBucket b visits ↔ Nat.log 2 visits = b := by
  simp only [inBucket, decide_eq_true_eq]
  rw [Nat.log_eq_iff (Or.inr ⟨by decide, by omega⟩)]
  omega

theorem inBucket_half (visits : Nat) : inBucket b (visits / 2) = inBucket (b + 1) visits := by
  have bound := Nat.one_le_two_pow (n := b + 1)
  simp only [inBucket, decide_eq_decide] at bound ⊢
  omega

theorem calculateBucketIndex_eq {visits : Nat} (nonempty : 0 < n) (small : visits < 2 ^ n) :
    calculateBucketIndex n visits = Nat.log 2 visits := by
  have inside := Nat.log_lt_of_lt_pow' nonempty.ne' small
  unfold calculateBucketIndex
  split
  · rename_i one
    rw [one, Nat.log_one_right]
  · rw [if_neg (not_le.mpr inside)]

theorem holds_addSample (holds : array.Holds samples) {visits : Nat} (nonempty : 0 < n)
    (small : visits < 2 ^ n) : (array.addSample visits).Holds (samples ++ [visits]) := by
  intro b inside
  rw [countP_append, countP_singleton, ← holds b inside]
  unfold addSample
  split
  · rename_i positive
    simp only [updateVisitFrequencyBucket, calculateBucketIndex_eq nonempty small,
      update_apply, inBucket_iff positive, eq_comm (a := b)]
    split
    · rename_i here
      rw [here]
    · rfl
  · rename_i zero
    simp [inBucket, Nat.eq_zero_of_not_pos zero]

theorem holds_aging (holds : array.Holds samples) (small : ∀ visits ∈ samples, visits < 2 ^ n) :
    array.agingVisitFrequencyBuckets.Holds (samples.map (· / 2)) := by
  intro b inside
  have half : inBucket b ∘ (· / 2) = inBucket (b + 1) := funext inBucket_half
  rw [countP_map, half, agingVisitFrequencyBuckets]
  dsimp only
  split
  · exact holds (b + 1) ‹_›
  · rename_i top
    have last : b + 1 = n := le_antisymm inside (not_lt.mp top)
    symm
    rw [countP_eq_zero, last]
    intro visits mem
    simp [inBucket, small visits mem]

theorem holds_foldl (holds : array.Holds samples) (nonempty : 0 < n)
    (small : ∀ visits ∈ more, visits < 2 ^ n) :
    (more.foldl addSample array).Holds (samples ++ more) := by
  induction more generalizing array samples with
  | nil => simpa using holds
  | cons visits rest ih =>
    obtain ⟨first, rest⟩ := forall_mem_cons.mp small
    simpa using ih (holds_addSample holds nonempty first) rest

/-- The samples of all windows, each halved once for every later window. -/
def agedSamples : List (List Nat) → List Nat
  | [] => []
  | samples :: later =>
    samples.map (fun visits => (· / 2)^[later.length] visits) ++ agedSamples later

theorem agedSamples_concat (windows : List (List Nat)) (samples : List Nat) :
    agedSamples (windows ++ [samples]) = (agedSamples windows).map (· / 2) ++ samples := by
  induction windows with
  | nil => simp [agedSamples]
  | cons _ _ ih => simp [agedSamples, ih, iterate_succ_apply']

/-- After any windows, the buckets of a fresh histogram hold the aged samples. -/
theorem windows_hold_agedSamples (nonempty : 0 < n) (windows : List (List Nat))
    (small : ∀ samples ∈ windows, ∀ visits ∈ samples, visits < 2 ^ n) (inside : b < n) :
    (windows.foldl window (fresh n)).count b = (agedSamples windows).countP fun visits =>
      2 ^ b ≤ visits ∧ visits ≤ 2 ^ (b + 1) - 1 := by
  suffices holds : (windows.foldl window (fresh n)).Holds (agedSamples windows) ∧
      ∀ visits ∈ agedSamples windows, visits < 2 ^ n from
    holds.1 b inside
  induction windows using reverseRecOn with
  | nil => exact ⟨fun _ _ => rfl, by simp [agedSamples]⟩
  | append_singleton windows samples ih =>
    simp only [mem_append, mem_singleton, or_imp, forall_and, forall_eq] at small
    obtain ⟨holds, bounded⟩ := ih small.1
    rw [foldl_append, foldl_cons, foldl_nil, agedSamples_concat]
    refine ⟨holds_foldl (holds_aging holds bounded) nonempty small.2, ?_⟩
    rw [forall_mem_append, forall_mem_map]
    exact ⟨fun visits member => (Nat.div_le_self _ _).trans_lt (bounded visits member), small.2⟩

theorem windows_hold_agedSamples_two :
    ([[4, 1], [7, 2]].foldl window (fresh 3)).count 1 =
      (agedSamples [[4, 1], [7, 2]]).countP fun visits =>
        2 ^ 1 ≤ visits ∧ visits ≤ 2 ^ (1 + 1) - 1 :=
  windows_hold_agedSamples (by decide) _ (by decide) (by decide)

end Aging

section Thresholds

variable {ratio : DramRatio} {k : Nat}

theorem bucketRangeUpperBound_le (i : Nat) : bucketRangeUpperBound i ≤ 2 ^ (i + 1) - 1 :=
  Nat.sub_le_sub_right (Nat.pow_le_pow_right (by decide) (Nat.mod_le _ _)) 1

theorem getCumulativePageCount_succ (inside : k < n) :
    array.getCumulativePageCount k = array.count k + array.getCumulativePageCount (k + 1) :=
  Finset.sum_eq_sum_Ico_succ_bot inside _

theorem searches_agree {target i : Nat} (inside : i ≤ n)
    (short : array.getCumulativePageCount i < target)
    (reached : target ≤ array.getCumulativePageCount 0) :
    ∃ k < n, array.criticalFrom target i (array.getCumulativePageCount i) =
        some (k, array.getCumulativePageCount (k + 1)) ∧
      array.coarseFrom target i (array.getCumulativePageCount i) = bucketRangeLowerBound k ∧
      array.getCumulativePageCount (k + 1) < target ∧ target ≤ array.getCumulativePageCount k := by
  induction i with
  | zero => omega
  | succ i ih =>
    have more : array.getCumulativePageCount (i + 1) + array.count i =
        array.getCumulativePageCount i := by
      rw [getCumulativePageCount_succ array inside, add_comm]
    simp only [criticalFrom, coarseFrom, more]
    by_cases stops : target ≤ array.getCumulativePageCount i
    · exact ⟨i, inside, by rw [if_pos stops], by rw [if_pos stops], short, stops⟩
    · rw [if_neg stops, if_neg stops]
      exact ih (by omega) (by omega)

variable {array}

theorem thresholds_eq (snapshot : List (Nat × Nat)) (wanted : 1 ≤ array.targetPageCount ratio) :
    ∃ k < n, array.calculateAdmissionThresholdCoarse ratio = bucketRangeLowerBound k ∧
      array.calculateAdmissionThresholdFine ratio snapshot = fineInBucket snapshot k
        (array.targetPageCount ratio - array.getCumulativePageCount (k + 1)) ∧
      array.getCumulativePageCount (k + 1) < array.targetPageCount ratio ∧
      array.targetPageCount ratio ≤ array.getCumulativePageCount k := by
  have total : array.getTotalSampledPages = array.getCumulativePageCount 0 := by
    rw [getTotalSampledPages, getCumulativePageCount, Finset.range_eq_Ico]
  have most : array.targetPageCount ratio ≤ array.getTotalSampledPages := ratio.pages_le _
  have none : array.getCumulativePageCount n = 0 := by simp [getCumulativePageCount]
  obtain ⟨k, inside, critical, coarse, short, stops⟩ :=
    array.searches_agree le_rfl (by omega) (most.trans total.le)
  rw [none] at critical coarse
  have sampled : array.getTotalSampledPages ≠ 0 := by omega
  refine ⟨k, inside, ?_, ?_, short, stops⟩
  · rw [calculateAdmissionThresholdCoarse, if_neg sampled, coarse]
  · rw [calculateAdmissionThresholdFine, if_neg sampled, critical]

theorem countP_getElem {sorted : List Nat} (descending : sorted.Pairwise (· ≥ ·)) {i : Nat}
    (inside : i < sorted.length) :
    i + 1 ≤ sorted.countP (sorted[i] ≤ ·) ∧ sorted.countP (sorted[i] < ·) ≤ i := by
  induction sorted generalizing i with
  | nil => simp at inside
  | cons first rest ih =>
    obtain ⟨most, descending⟩ := pairwise_cons.mp descending
    cases i with
    | zero =>
      have none : rest.countP (first < ·) = 0 :=
        countP_eq_zero.mpr fun visits mem => by simpa using most visits mem
      simp [none]
    | succ i =>
      have inside : i < rest.length := Nat.lt_of_succ_lt_succ inside
      have before : rest[i] ≤ first := most _ (getElem_mem inside)
      obtain ⟨_, _⟩ := ih descending inside
      simp only [getElem_cons_succ, countP_cons, before, decide_true, if_true]
      refine ⟨by omega, ?_⟩
      split <;> omega

theorem fineInBucket_spec (snapshot : List (Nat × Nat)) (k : Nat) {remaining : Nat}
    (needed : 1 ≤ remaining) : ∃ threshold, fineInBucket snapshot k remaining = some threshold ∧
      (threshold = bucketRangeLowerBound k ∨ threshold ∈ visitCountInRanges snapshot k) ∧
      (remaining ≤ (visitCountInRanges snapshot k).length →
        remaining ≤ (visitCountInRanges snapshot k).countP (threshold ≤ ·) ∧
          (visitCountInRanges snapshot k).countP (threshold < ·) ≤ remaining) := by
  have lowest : ∀ visits ∈ visitCountInRanges snapshot k, bucketRangeLowerBound k ≤ visits := by
    intro visits mem
    simp only [visitCountInRanges, mem_filter, decide_eq_true_eq] at mem
    exact mem.2.1
  unfold fineInBucket
  dsimp only
  generalize visitCountInRanges snapshot k = inRanges at lowest ⊢
  have sortedPerm := mergeSort_perm inRanges fun more less => less ≤ more
  have descending : (inRanges.mergeSort fun more less => less ≤ more).Pairwise
      fun more less => decide (less ≤ more) :=
    pairwise_mergeSort (by simp; omega) (by simp; omega) inRanges
  simp only [decide_eq_true_eq] at descending
  split
  · rename_i empty
    refine ⟨_, rfl, .inl rfl, fun enough => ?_⟩
    rw [empty] at enough
    exact absurd needed (not_le.mpr (Nat.lt_succ_of_le enough))
  split
  · rename_i few
    rw [sortedPerm.length_eq] at few
    refine ⟨_, rfl, .inl rfl, fun enough => ⟨?_, countP_le_length.trans few⟩⟩
    rwa [countP_eq_length.mpr fun visits mem => decide_eq_true (lowest visits mem)]
  · rename_i many
    have inside := (Nat.sub_le remaining 1).trans_lt (not_le.mp many)
    rw [if_neg (by omega), getElem?_eq_getElem inside]
    refine ⟨_, rfl, .inr (sortedPerm.mem_iff.mp (getElem_mem inside)), fun _ => ?_⟩
    obtain ⟨atLeast, atMost⟩ := countP_getElem descending inside
    rw [sortedPerm.countP_eq] at atLeast atMost
    omega

theorem countP_split {samples : List Nat} {counted : Nat → Bool}
    (above : ∀ visits, 2 ^ (k + 1) ≤ visits → counted visits)
    (below : ∀ visits, counted visits → 2 ^ k ≤ visits) :
    samples.countP counted = samples.countP (2 ^ (k + 1) ≤ ·) +
      (samples.filter (inBucket k)).countP counted := by
  rw [countP_filter]
  induction samples with
  | nil => rfl
  | cons visits rest ih =>
    have next := Nat.two_pow_pos (k + 1)
    have share : (if counted visits then 1 else 0) = (if 2 ^ (k + 1) ≤ visits then 1 else 0) +
        if counted visits && inBucket k visits then 1 else 0 := by
      by_cases high : 2 ^ (k + 1) ≤ visits
      · simp [high, above visits high, inBucket]
        omega
      · by_cases hit : counted visits
        · simp [high, hit, below visits hit, inBucket]
          omega
        · simp [high, hit]
    simp only [countP_cons, decide_eq_true_eq]
    omega

theorem getCumulativePageCount_eq {samples : List Nat} (holds : array.Holds samples)
    (small : ∀ visits ∈ samples, visits < 2 ^ n) (inside : k ≤ n) :
    array.getCumulativePageCount k = samples.countP (2 ^ k ≤ ·) := by
  induction inside using Nat.decreasingInduction with
  | self =>
    symm
    simpa [getCumulativePageCount] using small
  | of_succ k inside ih =>
    have higher (visits : Nat) (above : 2 ^ (k + 1) ≤ visits) : decide (2 ^ k ≤ visits) := by
      simp only [decide_eq_true_eq]
      omega
    have bucket : (samples.filter (inBucket k)).countP (2 ^ k ≤ ·) = array.count k := by
      rw [holds k inside, countP_eq_length_filter (p := inBucket k), countP_eq_length]
      intro visits mem
      simp only [mem_filter, inBucket, decide_eq_true_eq] at mem
      simpa using mem.2.1
    rw [getCumulativePageCount_succ array inside, ih, countP_split higher (by simp), bucket,
      add_comm]

theorem visitCountInRanges_eq (snapshot : List (Nat × Nat)) (low : k < 63) :
    visitCountInRanges snapshot k = (snapshot.map Prod.snd).filter (inBucket k) := by
  rw [visitCountInRanges, bucketRangeLowerBound, bucketRangeUpperBound,
    Nat.mod_eq_of_lt (by omega), Nat.mod_eq_of_lt (by omega)]
  rfl

theorem fineInBucket_zero (snapshot : List (Nat × Nat)) :
    fineInBucket snapshot k 0 = none ↔ visitCountInRanges snapshot k ≠ [] := by
  simp only [fineInBucket, length_mergeSort]
  split
  · simp_all
  · next some => simp [some]

/-- Only a target of no page is read outside, in a top bucket that is not empty. -/
theorem fine_eq_none_iff (few : n ≤ 63) (snapshot : List (Nat × Nat)) :
    array.calculateAdmissionThresholdFine ratio snapshot = none ↔
      array.getTotalSampledPages ≠ 0 ∧ array.targetPageCount ratio = 0 ∧
        ∃ visits ∈ snapshot.map Prod.snd, inBucket (n - 1) visits := by
  by_cases wanted : 1 ≤ array.targetPageCount ratio
  · obtain ⟨k, -, -, fine, short, -⟩ := thresholds_eq snapshot wanted
    obtain ⟨threshold, found, -⟩ := fineInBucket_spec snapshot k (Nat.sub_pos_of_lt short)
    simp [fine, found]
    omega
  · obtain none : array.targetPageCount ratio = 0 := by omega
    rw [calculateAdmissionThresholdFine, none]
    cases n with
    | zero => simp [getTotalSampledPages]
    | succ n =>
      have critical : array.criticalFrom 0 (n + 1) 0 = some (n, 0) := rfl
      rw [critical]
      split
      · next total => simp [total]
      · next total => simp [total, fineInBucket_zero, visitCountInRanges_eq snapshot few]

/-- The counts are read outside just if the target is no page and the top bucket's range holds
a count.  For a target of at least one page, if the buckets hold the snapshot, the threshold
separates the target from the rest of the pages. -/
theorem fine_order_statistic (array : VisitFrequencyBucketArray n) (few : n ≤ 63)
    (ratio : DramRatio) (snapshot : List (Nat × Nat)) :
    (array.calculateAdmissionThresholdFine ratio snapshot = none ↔
      array.getTotalSampledPages ≠ 0 ∧ array.targetPageCount ratio = 0 ∧
        ∃ visits ∈ snapshot.map Prod.snd, inBucket (n - 1) visits) ∧
    (1 ≤ array.targetPageCount ratio → array.Holds (snapshot.map Prod.snd) →
      (∀ visits ∈ snapshot.map Prod.snd, 0 < visits ∧ visits < 2 ^ n) →
      ∃ threshold, array.calculateAdmissionThresholdFine ratio snapshot = some threshold ∧
        array.targetPageCount ratio ≤ (snapshot.map Prod.snd).countP (threshold ≤ ·) ∧
          (snapshot.map Prod.snd).countP (threshold < ·) ≤ array.targetPageCount ratio) := by
  refine ⟨fine_eq_none_iff few snapshot, fun wanted holds small => ?_⟩
  obtain ⟨k, inside, -, fine, short, stops⟩ := thresholds_eq snapshot wanted
  obtain ⟨threshold, found, range, separates⟩ :=
    fineInBucket_spec snapshot k (Nat.sub_pos_of_lt short)
  refine ⟨threshold, fine.trans found, ?_⟩
  have lower : bucketRangeLowerBound k = 2 ^ k := by
    rw [bucketRangeLowerBound, Nat.mod_eq_of_lt (by omega)]
  have inRanges := visitCountInRanges_eq snapshot (inside.trans_le few)
  have above := getCumulativePageCount_eq holds (fun visits member => (small visits member).2)
    (k := k + 1) inside
  have bucket := getCumulativePageCount_succ array inside
  rw [holds k inside, countP_eq_length_filter] at bucket
  rw [inRanges] at range separates
  obtain ⟨atLeast, atMost⟩ := separates (by omega)
  have within : 2 ^ k ≤ threshold ∧ threshold < 2 ^ (k + 1) := by
    have next : 2 ^ (k + 1) = 2 * 2 ^ k := Nat.pow_succ'
    have positive := Nat.two_pow_pos k
    rcases range with rfl | member
    · omega
    · simp only [mem_filter, inBucket, decide_eq_true_eq] at member
      omega
  have reaching := @countP_split k (snapshot.map Prod.snd) (threshold ≤ ·)
    (by simp; omega) (by simp; omega)
  have exceeding := @countP_split k (snapshot.map Prod.snd) (threshold < ·)
    (by simp; omega) (by simp; omega)
  rw [reaching, exceeding, ← above]
  omega

theorem fine_order_statistic_third :
    let array := (fresh 2).window [3, 3, 1]
    let ratio : DramRatio := ⟨fun total => total / 3, fun _ => Nat.div_le_self _ _⟩
    let snapshot := [(5, 3), (6, 3), (7, 1)]
    (array.Holds (snapshot.map Prod.snd) →
      (∀ visits ∈ snapshot.map Prod.snd, 0 < visits ∧ visits < 2 ^ 2) →
      ∃ threshold, array.calculateAdmissionThresholdFine ratio snapshot = some threshold ∧
        array.targetPageCount ratio ≤ (snapshot.map Prod.snd).countP (threshold ≤ ·) ∧
          (snapshot.map Prod.snd).countP (threshold < ·) ≤ array.targetPageCount ratio) :=
  (fine_order_statistic _ (by decide) _ _).2 (by decide)

/-- A target of no page reads the counts of the top bucket at index -1. -/
theorem fine_reads_outside :
    ((fresh 1).window [1]).calculateAdmissionThresholdFine
      ⟨fun total => total / 9, fun _ => Nat.div_le_self _ _⟩ [(5, 1)] = none := by
  decide +kernel

inductive Change
  | updateVisitFrequencyBucket (visitCount : UInt64)
  | agingVisitFrequencyBuckets
  | resetAll

def change (array : VisitFrequencyBucketArray n) : Change → VisitFrequencyBucketArray n
  | .updateVisitFrequencyBucket visitCount => array.addSample visitCount.toNat
  | .agingVisitFrequencyBuckets => array.agingVisitFrequencyBuckets
  | .resetAll => fresh n

theorem change_high_empty (empty : ∀ i, 64 ≤ i → array.count i = 0) (change : Change) {i : Nat}
    (high : 64 ≤ i) : (array.change change).count i = 0 := by
  cases change with
  | updateVisitFrequencyBucket visitCount =>
    simp only [change, addSample]
    split
    · have log : Nat.log 2 visitCount.toNat < 64 :=
        Nat.log_lt_of_lt_pow' (by decide) visitCount.toNat_lt
      have index : calculateBucketIndex n visitCount.toNat ≠ i := by
        unfold calculateBucketIndex
        split_ifs <;> omega
      exact (update_of_ne index.symm _ _).trans (empty i high)
    · exact empty i high
  | agingVisitFrequencyBuckets =>
    simp only [change, agingVisitFrequencyBuckets]
    split
    · exact empty (i + 1) (by omega)
    · rfl
  | resetAll => rfl

theorem changes_high_empty (changes : List Change) {i : Nat} (high : 64 ≤ i) :
    (changes.foldl change (fresh n)).count i = 0 := by
  induction changes using reverseRecOn generalizing i with
  | nil => rfl
  | append_singleton changes change ih =>
    rw [foldl_append]
    exact change_high_empty (fun _ => ih) change high

/-- In every state of the buckets both thresholds lie in the same bucket. -/
theorem coarse_fine_agree (changes : List Change) (ratio : DramRatio)
    (snapshot : List (Nat × Nat)) :
    let array := changes.foldl change (fresh n)
    1 ≤ array.targetPageCount ratio →
    ∃ i, IsGreatest {i | i < n ∧ array.targetPageCount ratio ≤ array.getCumulativePageCount i} i ∧
      array.calculateAdmissionThresholdCoarse ratio = 2 ^ i ∧
      ∃ fine, array.calculateAdmissionThresholdFine ratio snapshot = some fine ∧
        2 ^ i ≤ fine ∧ fine ≤ 2 ^ (i + 1) - 1 := by
  intro array wanted
  obtain ⟨i, inside, coarse, fine, short, stops⟩ := thresholds_eq snapshot wanted
  -- the bucket is not empty, so its lower bound is not cut off at 64 bits
  have counted : array.count i ≠ 0 := by
    have bucket := getCumulativePageCount_succ array inside
    omega
  have low : i < 64 := not_le.mp fun high => counted (changes_high_empty changes high)
  have lower : bucketRangeLowerBound i = 2 ^ i := by
    rw [bucketRangeLowerBound, Nat.mod_eq_of_lt low]
  obtain ⟨threshold, found, range, -⟩ :=
    fineInBucket_spec snapshot i (Nat.sub_pos_of_lt short)
  refine ⟨i, ⟨⟨inside, stops⟩, fun j reaches => ?_⟩, coarse.trans lower, threshold,
    fine.trans found, ?_⟩
  · by_contra higher
    have fewer : array.getCumulativePageCount j ≤ array.getCumulativePageCount (i + 1) :=
      Finset.sum_le_sum_of_subset (Finset.Ico_subset_Ico_left (not_le.mp higher))
    exact absurd (reaches.2.trans fewer) (not_le.mpr short)
  · have next : 2 ^ (i + 1) = 2 * 2 ^ i := Nat.pow_succ'
    have positive := Nat.two_pow_pos i
    rcases range with rfl | member
    · omega
    · simp only [visitCountInRanges, mem_filter, decide_eq_true_eq, lower] at member
      exact ⟨member.2.1, member.2.2.trans (bucketRangeUpperBound_le i)⟩

theorem coarse_fine_agree_aged :
    let array := [.updateVisitFrequencyBucket 5, .agingVisitFrequencyBuckets,
      .updateVisitFrequencyBucket 1].foldl change (fresh 3)
    let ratio : DramRatio := ⟨fun total => total / 2, fun _ => Nat.div_le_self _ _⟩
    ∃ i, IsGreatest {i | i < 3 ∧ array.targetPageCount ratio ≤ array.getCumulativePageCount i} i ∧
      array.calculateAdmissionThresholdCoarse ratio = 2 ^ i ∧
      ∃ fine, array.calculateAdmissionThresholdFine ratio [(8, 1)] = some fine ∧
        2 ^ i ≤ fine ∧ fine ≤ 2 ^ (i + 1) - 1 :=
  coarse_fine_agree _ _ _ (by decide)

end Thresholds

end VisitFrequencyBucketArray

end TieredStore.Admission
