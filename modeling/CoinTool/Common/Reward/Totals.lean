import Mathlib.Algebra.Order.BigOperators.Group.List
import CoinTool.Common.Reward.Conservation

/-!
# The category totals

The rest of every row is added to the total of its category but never carried into the coins that
are printed.  A purse that `AddReward` fills from non-negative amounts carries as soon as its rest
exceeds one coin, which leaves a rest in `(0, COIN]` once any amount was not whole coins.
-/

namespace CoinTool

open Framework

/-- What `AddReward` leaves of these amounts below the coins. -/
def restOf (c : Chain) (amounts : List Int) : Int :=
  if ∀ value ∈ amounts, value % c.COIN = 0 then 0
  else (amounts.sum - 1) % c.COIN + 1

/-- A purse filled from non-negative amounts: `whole` says that all of them were whole coins. -/
structure Carried (c : Chain) (whole : Prop) (p : Purse) : Prop where
  nonneg : 0 ≤ p.small
  le : p.small ≤ c.COIN
  zero : p.small = 0 ↔ whole

theorem Carried.addReward {c : Chain} {whole : Prop} {p : Purse} (h : Carried c whole p)
    {value : Int} (hv : 0 ≤ value) :
    Carried c (whole ∧ value % c.COIN = 0) (addReward c value p) := by
  have hpos := c.coin_pos
  have hlow := Int.emod_nonneg value hpos.ne'
  have hhigh := Int.emod_lt_of_pos value hpos
  have hnonneg := h.nonneg
  have hle := h.le
  have hzero := h.zero
  have hmod : value.tmod c.COIN = value % c.COIN := Int.tmod_eq_emod_of_nonneg hv
  simp only [CoinTool.addReward, hmod]
  by_cases hcarry : p.small + value % c.COIN > c.COIN
  · obtain ⟨-, hrest⟩ := addReward_carry hle hcarry
    rw [if_pos hcarry, hrest]
    refine ⟨?_, ?_, ?_⟩
    · dsimp only
      omega
    · dsimp only
      omega
    · constructor
      · intro hsmall
        dsimp only at hsmall
        omega
      · intro hnew
        rcases hnew with ⟨hw, hdiv⟩
        have := hzero.mpr hw
        omega
  · rw [if_neg hcarry]
    refine ⟨?_, ?_, ?_⟩
    · dsimp only
      omega
    · dsimp only
      omega
    · rw [← hzero]
      dsimp only
      omega

theorem carried_addRewards (c : Chain) (amounts : List Int) (hv : ∀ value ∈ amounts, 0 ≤ value) :
    Carried c (∀ value ∈ amounts, value % c.COIN = 0) (addRewards c ⟨0, 0⟩ amounts) := by
  induction amounts using List.reverseRecOn with
  | nil => exact ⟨le_refl 0, c.coin_pos.le, by simp [addRewards]⟩
  | append_singleton amounts value ih =>
      have hlast : 0 ≤ value := hv value (by simp)
      have hprev := ih fun other hmem => hv other (by simp [hmem])
      have hstep := hprev.addReward hlast
      have hfold : addRewards c ⟨0, 0⟩ (amounts ++ [value]) =
          CoinTool.addReward c value (addRewards c ⟨0, 0⟩ amounts) := by
        simp [addRewards]
      rw [hfold]
      simpa [or_imp, forall_and] using hstep

theorem addRewards_small (c : Chain) (amounts : List Int) (hv : ∀ value ∈ amounts, 0 ≤ value) :
    (addRewards c ⟨0, 0⟩ amounts).small = restOf c amounts := by
  have hcarried := carried_addRewards c amounts hv
  have hvalue := addRewards_value c ⟨0, 0⟩ amounts
  simp only [Purse.value, zero_mul, zero_add] at hvalue
  rw [restOf]
  split
  · rename_i hwhole
    exact hcarried.zero.mpr hwhole
  · rename_i hwhole
    have hne : (addRewards c ⟨0, 0⟩ amounts).small ≠ 0 := fun hz => hwhole (hcarried.zero.mp hz)
    have hnonneg := hcarried.nonneg
    have hle := hcarried.le
    have hsplit : amounts.sum - 1 =
        ((addRewards c ⟨0, 0⟩ amounts).small - 1) +
          (addRewards c ⟨0, 0⟩ amounts).coin * c.COIN := by linarith
    rw [hsplit, Int.add_mul_emod_self_right, Int.emod_eq_of_lt (by omega) (by omega)]
    omega

structure Chain.NonNegative (c : Chain) : Prop where
  miner : ∀ h, 0 ≤ c.getMinerSubsidy h
  masternode : ∀ h, 0 ≤ c.getMasternodePayment h
  founders : ∀ h, 0 ≤ c.getFoundersReward h
  budget : ∀ h, 0 ≤ c.getBudget h

theorem added_nonneg {c : Chain} (hc : c.NonNegative) (h : Int) (k : Category) :
    ∀ value ∈ added c h k, 0 ≤ value := by
  intro value hmem
  have hminer := hc.miner h
  have hmasternode := hc.masternode h
  have hfounders := hc.founders h
  have hbudget := hc.budget h
  cases k <;> simp only [added] at hmem <;> grind

def rowAmounts (c : Chain) (lo hi : Int) (k : Category) : List Int :=
  (Int.range lo hi).flatMap fun h => added c h k

def rowRests (c : Chain) (iyears isum : Int) (k : Category) : List Int :=
  (Int.range 1 (isum + 1)).map fun i =>
    restOf c (rowAmounts c ((i - 1) * (210240 * iyears)) (i * (210240 * iyears)) k)

theorem rewardStatistics_small {c : Chain} (hc : c.NonNegative) (iyears isum : Int)
    (k : Category) :
    ((rewardStatistics unbounded c iyears isum).sums.get k).small =
      (rowRests c iyears isum k).sum := by
  have hzero : (emptyPurses.get k).small = 0 := by cases k <;> rfl
  have hsums := rewardStatistics_sums unbounded c iyears isum (fun x => (x.get k).small) hzero
    fun x y => addPurses_get_small x y k
  rw [hsums, rewardStatistics_rows, List.map_map, rowRests]
  congr 1
  apply List.map_congr_left
  intro i _
  obtain ⟨hlo, hhi⟩ := unbounded_row c iyears i
  show ((heightLoop c (rowOf unbounded c iyears i).iHl (rowOf unbounded c iyears i).iHh).get
    k).small = _
  rw [hlo, hhi, heightLoop_get, addRewards_small]
  · rfl
  · intro value hmem
    obtain ⟨h, _, hadded⟩ := List.mem_flatMap.mp hmem
    exact added_nonneg hc h k value hadded

theorem rewardStatistics_category_value (c : Chain) (iyears isum : Int) (hy : 0 ≤ iyears)
    (hs : 0 ≤ isum) (k : Category) :
    ((rewardStatistics unbounded c iyears isum).sums.get k).value c =
      addedSum c 0 (isum * 210240 * iyears) k := by
  have hsums := rewardStatistics_sums unbounded c iyears isum (fun x => (x.get k).value c)
    (emptyPurses_value c k) fun x y => addPurses_get_value c x y k
  have hrow : ∀ row ∈ (rewardStatistics unbounded c iyears isum).rows,
      (row.purses.get k).value c = addedSum c row.iHl row.iHh k := by
    intro row hmem
    rw [(mem_rewardStatistics_rows hmem).1, heightLoop_value]
  rw [hsums, List.map_congr_left hrow, addedSum, ← rewardStatistics_heights c iyears isum hy hs]
  exact (sum_map_flatMap _ _ _).symm

/-- Every printed total is within one coin of the exact sum of the amounts of its category. -/
def TotalsWithinCoin (c : Chain) (iyears isum : Int) : Prop :=
  ∀ k : Category,
    |((rewardStatistics unbounded c iyears isum).sums.get k).coin * c.COIN -
      ((Int.range 0 (isum * 210240 * iyears)).map fun h => (added c h k).sum).sum| ≤ c.COIN

theorem rewardStatistics_shortfall {c : Chain} (hc : c.NonNegative) (iyears isum : Int)
    (hy : 0 ≤ iyears) (hs : 0 ≤ isum) (k : Category) :
    ((rewardStatistics unbounded c iyears isum).sums.get k).coin * c.COIN -
      ((Int.range 0 (isum * 210240 * iyears)).map fun h => (added c h k).sum).sum =
        -(rowRests c iyears isum k).sum := by
  have hvalue := rewardStatistics_category_value c iyears isum hy hs k
  have hsmall := rewardStatistics_small hc iyears isum k
  simp only [Purse.value, addedSum] at hvalue
  rw [← hsmall]
  linarith

theorem rowRests_sum_nonneg (c : Chain) (iyears isum : Int) (k : Category) :
    0 ≤ (rowRests c iyears isum k).sum := by
  apply List.sum_nonneg
  intro rest hmem
  obtain ⟨i, _, rfl⟩ := List.mem_map.mp hmem
  unfold restOf
  split
  · exact le_refl 0
  · have := Int.emod_nonneg ((rowAmounts c ((i - 1) * (210240 * iyears))
      (i * (210240 * iyears)) k).sum - 1) c.coin_pos.ne'
    omega

/-- The printed totals account for every coin exactly when, in each category, the rests of the rows
together make at most one coin. -/
theorem rewardStatistics_totals_iff (c : Chain) (hc : c.NonNegative) (iyears isum : Int)
    (hy : 0 ≤ iyears) (hs : 0 ≤ isum) :
    TotalsWithinCoin c iyears isum ↔
      ∀ k : Category, (rowRests c iyears isum k).sum ≤ c.COIN := by
  unfold TotalsWithinCoin
  apply forall_congr'
  intro k
  rw [rewardStatistics_shortfall hc iyears isum hy hs k, abs_neg,
    abs_of_nonneg (rowRests_sum_nonneg c iyears isum k)]

theorem sampleChain_nonNegative : sampleChain.NonNegative where
  miner _ := by norm_num [sampleChain]
  masternode _ := by norm_num [sampleChain]
  founders _ := by norm_num [sampleChain]
  budget _ := by norm_num [sampleChain]

theorem restOf_le (c : Chain) (amounts : List Int) : restOf c amounts ≤ c.COIN := by
  have hpos := c.coin_pos
  rw [restOf]
  split
  · exact hpos.le
  · have hlt := Int.emod_lt_of_pos (amounts.sum - 1) hpos
    omega

/-- A single row has a single rest. -/
theorem rewardStatistics_totals_iff_sample : TotalsWithinCoin sampleChain 1 1 := by
  rw [rewardStatistics_totals_iff sampleChain sampleChain_nonNegative 1 1 (by decide) (by decide)]
  intro k
  have hrange : Int.range 1 (1 + 1) = [1] := by decide
  rw [rowRests, hrange, List.map_singleton, List.sum_singleton]
  exact restOf_le sampleChain _

private theorem sampleChain_masternode_rest (lo : Int) :
    restOf sampleChain (rowAmounts sampleChain lo (lo + 210240) .masternode) = 99864000 := by
  have hamounts : rowAmounts sampleChain lo (lo + 210240) .masternode =
      List.replicate 210240 475 := by
    have hlen : (lo + 210240 - lo).toNat = 210240 := by omega
    show (Int.range lo (lo + 210240)).flatMap (fun _ => [475]) = _
    rw [← List.map_eq_flatMap, List.map_const', intRange_length, hlen]
  have hsome : ¬ ∀ value ∈ List.replicate 210240 (475 : Int), value % sampleChain.COIN = 0 := by
    intro h
    have := h 475 (List.mem_replicate.mpr ⟨by decide, rfl⟩)
    exact absurd this (by decide)
  rw [hamounts, restOf, if_neg hsome, List.sum_replicate]
  decide

/-- Three years of a masternode payment of 475 leave almost three uncounted coins. -/
theorem rewardStatistics_totals_short :
    ¬ ∀ (c : Chain), c.NonNegative → ∀ iyears isum : Int, 0 ≤ iyears → 0 ≤ isum →
      TotalsWithinCoin c iyears isum := by
  intro h
  have hthree := h sampleChain sampleChain_nonNegative 1 3 (by decide) (by decide) .masternode
  rw [rewardStatistics_shortfall sampleChain_nonNegative 1 3 (by decide) (by decide)] at hthree
  have hrests : rowRests sampleChain 1 3 .masternode = [99864000, 99864000, 99864000] := by
    have hrange : Int.range 1 (3 + 1) = [1, 2, 3] := by decide
    have hfirst := sampleChain_masternode_rest 0
    have hsecond := sampleChain_masternode_rest 210240
    have hthird := sampleChain_masternode_rest 420480
    simp only [rowRests, hrange, List.map_cons, List.map_nil]
    norm_num at hfirst hsecond hthird ⊢
    exact ⟨hfirst, hsecond, hthird⟩
  rw [hrests] at hthree
  exact absurd hthree (by decide)

end CoinTool
