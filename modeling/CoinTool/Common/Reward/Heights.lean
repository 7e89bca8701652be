import CoinTool.Common.Reward.Calls

/-!
# The heights of a report

The bounds of a row are products of `int`s.  While the last product fits an `int` the rows cover the
heights from 0 on; a larger one wraps, and a row may then be empty or hold negative heights.
-/

namespace CoinTool

open Framework

def IsInt (z : Int) : Prop := -2 ^ 31 ≤ z ∧ z < 2 ^ 31

instance (z : Int) : Decidable (IsInt z) := inferInstanceAs (Decidable (_ ∧ _))

theorem int32_of_isInt {z : Int} (h : IsInt z) : int32 z = z := by
  obtain ⟨hlow, hhigh⟩ := h
  exact Int.bmod_eq_of_le (by omega) (by omega)

theorem int32_isInt (z : Int) : IsInt (int32 z) := by
  have hlow : -((2 ^ 32 : Nat) / 2 : Int) ≤ int32 z := Int.le_bmod (by decide)
  have hhigh : int32 z < ((2 ^ 32 : Nat) + 1) / 2 := Int.bmod_lt (by decide)
  constructor
  · omega
  · omega

theorem int32_mul_left (x y : Int) : int32 (int32 x * y) = int32 (x * y) := Int.bmod_mul_bmod

theorem int32_mul_right (x y : Int) : int32 (x * int32 y) = int32 (x * y) := Int.mul_bmod_bmod ..

/-- The heights that a report passes to a reward function, in order. -/
def rewardHeights (wrap : Int → Int) (c : Chain) (iyears isum : Int) (fn : RewardFn) : List Int :=
  valuesOf fn ((rewardStatisticsRecorded wrap c iyears isum).run []).2

def periodHeights (iyears isum : Int) : List Int :=
  if iyears ≤ 0 ∨ isum ≤ 0 then [] else Int.range 0 (isum * 210240 * iyears)

/-- A positive period must end within an `int`.  A negative one leaves all rows empty as long as its
`int` value is not positive and takes `isum` steps downwards without a wrap. -/
def HeightsFit (iyears isum : Int) : Prop :=
  isum ≤ 0 ∨ iyears = 0 ∨ (0 < iyears ∧ isum * 210240 * iyears < 2 ^ 31) ∨
    (iyears < 0 ∧ (isum = 2 ^ 31 - 1 ∨
      (int32 (210240 * iyears) ≤ 0 ∧ -2 ^ 31 ≤ isum * int32 (210240 * iyears))))

instance (iyears isum : Int) : Decidable (HeightsFit iyears isum) :=
  inferInstanceAs (Decidable (_ ∨ _))

def rowHeights (iyears isum : Int) : List Int :=
  (Int.range 1 (int32 (isum + 1))).flatMap fun i =>
    Int.range (int32 ((i - 1) * int32 (210240 * iyears))) (int32 (i * int32 (210240 * iyears)))

theorem int32_row (c : Chain) (iyears i : Int) :
    (rowOf int32 c iyears i).iHl = int32 ((i - 1) * int32 (210240 * iyears)) ∧
      (rowOf int32 c iyears i).iHh = int32 (i * int32 (210240 * iyears)) := by
  constructor
  · simp only [rowOf, int32_mul_left, int32_mul_right, mul_assoc]
  · simp only [rowOf, int32_mul_left, int32_mul_right, mul_assoc]

theorem rewardHeights_eq (c : Chain) (iyears isum : Int) (fn : RewardFn) :
    rewardHeights int32 c iyears isum fn = (rowHeights iyears isum).filter (c.calls fn) := by
  rw [rewardHeights, rewardStatisticsRecorded_run, valuesOf_flatMap_callsAt, rowHeights]
  simp only [int32_row]

theorem rowHeights_nil_iff (iyears isum : Int) :
    rowHeights iyears isum = [] ↔ ∀ i, 1 ≤ i → i < int32 (isum + 1) →
      int32 (i * int32 (210240 * iyears)) ≤ int32 ((i - 1) * int32 (210240 * iyears)) := by
  rw [rowHeights, List.flatMap_eq_nil_iff]
  constructor
  · intro hnil i hlow hhigh
    have hrow := hnil i (Int.mem_range_iff.mpr ⟨hlow, hhigh⟩)
    by_contra hlt
    have hmem : int32 ((i - 1) * int32 (210240 * iyears)) ∈
        Int.range (int32 ((i - 1) * int32 (210240 * iyears)))
          (int32 (i * int32 (210240 * iyears))) :=
      Int.mem_range_iff.mpr ⟨le_refl _, not_le.mp hlt⟩
    rw [hrow] at hmem
    cases hmem
  · intro hle i hmem
    obtain ⟨hlow, hhigh⟩ := Int.mem_range_iff.mp hmem
    exact intRange_nil (hle i hlow hhigh)

theorem lt_of_mem_rowHeights {iyears isum h : Int} (hmem : h ∈ rowHeights iyears isum) :
    h < 2 ^ 31 - 1 := by
  rw [rowHeights] at hmem
  obtain ⟨i, _, hrow⟩ := List.mem_flatMap.mp hmem
  have hlt := (Int.mem_range_iff.mp hrow).2
  have hbound := (int32_isInt (i * int32 (210240 * iyears))).2
  omega

/-- Going down by the same step, the first product that wraps would end a row above its start. -/
theorem rows_descend_iff (w n : Int) (hw : IsInt w) :
    (∀ i, 1 ≤ i → i ≤ n → int32 (i * w) ≤ int32 ((i - 1) * w)) ↔
      n ≤ 0 ∨ (w ≤ 0 ∧ -2 ^ 31 ≤ n * w) := by
  have hzero : int32 0 = 0 := by decide
  constructor
  · intro hrows
    by_cases hn : n ≤ 0
    · exact Or.inl hn
    · right
      have hfirst := hrows 1 (le_refl 1) (by omega)
      rw [one_mul, sub_self, zero_mul, hzero, int32_of_isInt hw] at hfirst
      have hdown : ∀ k : Nat, (k : Int) ≤ n → -2 ^ 31 ≤ (k : Int) * w := by
        intro k
        induction k with
        | zero =>
            intro _
            simp
        | succ k ih =>
            intro hk
            have hprev := ih (by omega)
            have hstep := hrows (k + 1) (by omega) (by omega)
            have hnonpos : (k : Int) * w ≤ 0 :=
              Int.mul_nonpos_of_nonneg_of_nonpos (by omega) hfirst
            have hsucc : ((k : Int) + 1) * w = (k : Int) * w + w := by ring
            rw [add_sub_cancel_right, int32_of_isInt ⟨hprev, by omega⟩, hsucc] at hstep
            rw [Nat.cast_succ, hsucc]
            by_contra hwrapped
            have hlow := hw.1
            have hup : int32 ((k : Int) * w + w) = (k : Int) * w + w + 2 ^ 32 := by
              rw [int32, ← Int.add_bmod_right]
              exact Int.bmod_eq_of_le (by omega) (by omega)
            omega
      obtain ⟨k, rfl⟩ := Int.eq_ofNat_of_zero_le (by omega : 0 ≤ n)
      exact ⟨hfirst, hdown k (le_refl _)⟩
  · intro hfit i hlow hhigh
    rcases hfit with hn | ⟨hnonpos, hlast⟩
    · omega
    · have hi : n * w ≤ i * w := Int.mul_le_mul_of_nonpos_right hhigh hnonpos
      have hnext : i * w = (i - 1) * w + w := by ring
      have hprev : (i - 1) * w ≤ 0 :=
        Int.mul_nonpos_of_nonneg_of_nonpos (by omega) hnonpos
      rw [int32_of_isInt ⟨by omega, by omega⟩, int32_of_isInt ⟨by omega, by omega⟩]
      omega

section

variable {iyears isum : Int}

theorem rows_of_fit (hy : 0 < iyears) (hs : 0 < isum)
    (hfit : isum * 210240 * iyears < 2 ^ 31) : isum * 210240 < 2 ^ 31 := by
  have hle : isum * 210240 ≤ isum * 210240 * iyears := le_mul_of_one_le_right (by omega) hy
  omega

theorem int32_bound_of_fit (hy : 0 < iyears) (hfit : isum * 210240 * iyears < 2 ^ 31)
    {i : Int} (hlow : 0 ≤ i) (hhigh : i ≤ isum) :
    int32 (i * int32 (210240 * iyears)) = i * (210240 * iyears) := by
  have hwidth : 0 < 210240 * iyears := by omega
  have hnonneg : 0 ≤ i * (210240 * iyears) := mul_nonneg hlow hwidth.le
  have hle : i * (210240 * iyears) ≤ isum * (210240 * iyears) :=
    Int.mul_le_mul_of_nonneg_right hhigh hwidth.le
  rw [mul_assoc] at hfit
  rw [int32_mul_right]
  exact int32_of_isInt ⟨by omega, by omega⟩

theorem rowHeights_of_fit (hy : 0 < iyears) (hs : 0 < isum)
    (hfit : isum * 210240 * iyears < 2 ^ 31) :
    rowHeights iyears isum = Int.range 0 (isum * 210240 * iyears) := by
  have hcount := rows_of_fit hy hs hfit
  have hrows : int32 (isum + 1) = isum + 1 := int32_of_isInt ⟨by omega, by omega⟩
  obtain ⟨n, rfl⟩ := Int.eq_ofNat_of_zero_le hs.le
  have hwidth : 0 ≤ 210240 * iyears := by omega
  rw [rowHeights, hrows, mul_assoc, ← intRange_flatMap_blocks _ hwidth]
  apply List.flatMap_congr
  intro i hmem
  obtain ⟨hlow, hhigh⟩ := Int.mem_range_iff.mp hmem
  rw [int32_bound_of_fit hy hfit (by omega : 0 ≤ i - 1) (by omega),
    int32_bound_of_fit hy hfit (by omega : 0 ≤ i) (by omega)]

end

theorem rowHeights_pos_iff {iyears isum : Int} (hy : 0 < iyears) (hs : 0 < isum) :
    rowHeights iyears isum = Int.range 0 (isum * 210240 * iyears) ↔
      isum * 210240 * iyears < 2 ^ 31 := by
  constructor
  · intro hheights
    have hpos : 0 < isum * 210240 * iyears := by positivity
    have hlast : isum * 210240 * iyears - 1 ∈ rowHeights iyears isum := by
      rw [hheights]
      exact Int.mem_range_iff.mpr ⟨by omega, by omega⟩
    have hlt := lt_of_mem_rowHeights hlast
    omega
  · intro hfit
    exact rowHeights_of_fit hy hs hfit

theorem rowHeights_neg_iff {iyears isum : Int} (hs : 0 < isum) (hsum : IsInt isum) :
    rowHeights iyears isum = [] ↔ isum = 2 ^ 31 - 1 ∨
      (int32 (210240 * iyears) ≤ 0 ∧ -2 ^ 31 ≤ isum * int32 (210240 * iyears)) := by
  rw [rowHeights_nil_iff]
  by_cases hmax : isum = 2 ^ 31 - 1
  · -- the bound `isum + 1` of the row loop wraps
    subst hmax
    have hwrap : int32 (2 ^ 31 - 1 + 1) = -2 ^ 31 := by decide
    constructor
    · intro _
      exact Or.inl rfl
    · intro _ i hlow hhigh
      omega
  · have hbound : int32 (isum + 1) = isum + 1 :=
      int32_of_isInt ⟨by omega, by have := hsum.2; omega⟩
    have hdescend := rows_descend_iff (int32 (210240 * iyears)) isum (int32_isInt _)
    simp only [hmax, false_or, hbound, Int.lt_add_one_iff]
    simp only [hs.not_ge, false_or] at hdescend
    exact hdescend

theorem rowHeights_no_rows {iyears isum : Int} (hs : isum ≤ 0) (hsum : IsInt isum) :
    rowHeights iyears isum = [] := by
  have hlow := hsum.1
  have hbound : int32 (isum + 1) = isum + 1 := int32_of_isInt ⟨by omega, by omega⟩
  rw [rowHeights, hbound, intRange_nil (by omega), List.flatMap_nil]

theorem rowHeights_eq_iff (iyears isum : Int) (hsum : IsInt isum) :
    rowHeights iyears isum = periodHeights iyears isum ↔ HeightsFit iyears isum := by
  rw [periodHeights, HeightsFit]
  by_cases hs : isum ≤ 0
  · simp [hs, rowHeights_no_rows hs hsum]
  · rcases lt_trichotomy iyears 0 with hneg | hzero | hpos
    · rw [if_pos (Or.inl hneg.le), rowHeights_neg_iff (not_le.mp hs) hsum]
      simp [hs, hneg, hneg.ne, hneg.not_gt]
    · subst hzero
      have hzero : int32 0 = 0 := by decide
      simp [rowHeights_nil_iff, hzero]
    · have hperiods : ¬(iyears ≤ 0 ∨ isum ≤ 0) := by omega
      rw [if_neg hperiods, rowHeights_pos_iff hpos (not_le.mp hs)]
      simp [hs, hpos, hpos.ne', hpos.not_gt]

theorem rewardHeights_getMinerSubsidy (c : Chain) (iyears isum : Int) :
    rewardHeights int32 c iyears isum .getMinerSubsidy = rowHeights iyears isum := by
  rw [rewardHeights_eq, List.filter_eq_self]
  intro h _
  rfl

/-- The recorded calls are those of the report, and every reward function is passed the heights of
the periods, as far as its gate lets them through, exactly when the products fit an `int`. -/
theorem rewardHeights_eq_iff (c : Chain) (iyears isum : Int) (hsum : IsInt isum) :
    ((rewardStatisticsRecorded int32 c iyears isum).run []).1 =
      rewardStatistics int32 c iyears isum ∧
    (rewardHeights int32 c iyears isum .getMinerSubsidy = periodHeights iyears isum ∧
      rewardHeights int32 c iyears isum .getMasternodePayment = periodHeights iyears isum ∧
      (rewardHeights int32 c iyears isum .getFoundersReward =
        (periodHeights iyears isum).filter fun h => c.isSuperblockTriggered h) ∧
      (rewardHeights int32 c iyears isum .getBudget =
        (periodHeights iyears isum).filter fun h =>
          c.isSuperblockTriggered h && decide (h ≥ c.nMasternodePaymentsStartBlock)) ↔
      HeightsFit iyears isum) := by
  constructor
  · rw [rewardStatisticsRecorded_run]
  · rw [← rowHeights_eq_iff iyears isum hsum, rewardHeights_getMinerSubsidy]
    constructor
    · intro hpassed
      exact hpassed.1
    · intro hrows
      refine ⟨hrows, ?_, ?_, ?_⟩
      · rw [rewardHeights_eq, ← hrows, List.filter_eq_self]
        intro h _
        rfl
      · rw [rewardHeights_eq, hrows]
        rfl
      · rw [rewardHeights_eq, hrows]
        rfl

theorem rewardHeights_eq_iff_sample :
    rewardHeights int32 sampleChain 4 5 .getMinerSubsidy = periodHeights 4 5 ∧
      rewardHeights int32 sampleChain 4 5 .getMasternodePayment = periodHeights 4 5 := by
  have hpassed := (rewardHeights_eq_iff sampleChain 4 5 (by decide)).2.mpr (by decide)
  exact ⟨hpassed.1, hpassed.2.1⟩

/-- One period of 20000 years ends at height 4204800000, beyond an `int`. -/
theorem rewardHeights_wraps :
    ¬ ∀ (c : Chain) (iyears isum : Int), IsInt iyears → IsInt isum →
      rewardHeights int32 c iyears isum .getMinerSubsidy = periodHeights iyears isum := by
  intro h
  have hheights := h sampleChain 20000 1 (by decide) (by decide)
  rw [rewardHeights_getMinerSubsidy, rowHeights_eq_iff 20000 1 (by decide)] at hheights
  exact absurd hheights (by decide)

end CoinTool
