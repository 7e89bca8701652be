import CoinTool.Common.Reward.Agreement
import CoinTool.Common.Reward.Heights
import CoinTool.Common.Reward.Totals

/-!
# The columns of the tables

The report rounds each purse down to whole coins.  The rests of a row reach its block column through
one more call of `AddReward`, so that this column is exact, and so is its total, although the totals
of the categories are not.
-/

namespace CoinTool

open Framework

section

variable {c : Chain} {iyears isum : Int}

theorem int32_product (hy : 0 < iyears) (hfit : isum * 210240 * iyears < 2 ^ 31) {i : Int}
    (hlow : 0 ≤ i) (hhigh : i ≤ isum) :
    int32 (int32 (int32 i * 210240) * iyears) = i * 210240 * iyears := by
  have hbound := int32_bound_of_fit hy hfit hlow hhigh
  rw [int32_mul_right] at hbound
  rw [int32_mul_left, mul_assoc, int32_mul_left, hbound, mul_assoc]

theorem rewardStatistics_int32 (c : Chain) (hy : 0 < iyears) (hs : 0 < isum)
    (hfit : isum * 210240 * iyears < 2 ^ 31) :
    rewardStatistics int32 c iyears isum = rewardStatistics unbounded c iyears isum := by
  have hcount := rows_of_fit hy hs hfit
  have hrows : int32 (isum + 1) = isum + 1 := int32_of_isInt ⟨by omega, by omega⟩
  have hstep : ∀ t : Totals, ∀ i ∈ Int.range 1 (isum + 1),
      rowStep int32 c iyears t i = rowStep unbounded c iyears t i := by
    intro t i hi
    obtain ⟨hlow, hhigh⟩ := Int.mem_range_iff.mp hi
    have hfirst := int32_product hy hfit (by omega : 0 ≤ i - 1) (by omega)
    have hend := int32_product hy hfit (by omega : 0 ≤ i) (by omega)
    have hi32 : int32 i = i := int32_of_isInt ⟨by omega, by omega⟩
    rw [hi32] at hend
    have hnonneg : 0 ≤ i * 210240 * iyears := by positivity
    have hle : i * 210240 * iyears ≤ isum * 210240 * iyears := by
      apply Int.mul_le_mul_of_nonneg_right _ hy.le
      omega
    have hlast : int32 (i * 210240 * iyears - 1) = i * 210240 * iyears - 1 :=
      int32_of_isInt ⟨by omega, by omega⟩
    simp only [rowStep, hfirst, hend, hlast, id]
  simp only [rewardStatistics, hrows, id, List.foldl_ext _ _ _ hstep]

theorem addReward_coin {c : Chain} {rest coin : Int} (hrest : 0 ≤ rest) :
    (addReward c rest ⟨coin, 0⟩).coin = (coin * c.COIN + rest) / c.COIN := by
  have hpos := c.coin_pos
  have hlt := Int.emod_lt_of_pos rest hpos
  have hmod : rest.tmod c.COIN = rest % c.COIN := Int.tmod_eq_emod_of_nonneg hrest
  have hcarry : ¬ 0 + rest.tmod c.COIN > c.COIN := by
    rw [hmod]
    omega
  simp only [addReward, if_neg hcarry]
  rw [Int.tdiv_eq_ediv_of_nonneg hrest, add_comm, add_comm (coin * c.COIN),
    Int.add_mul_ediv_right _ _ hpos.ne']

def Columns.rests (x : Columns Purse) : Int :=
  x.miner.small + x.budget.small + x.masternode.small + x.founders.small

theorem Columns.rests_nonneg {x : Columns Purse} (h : ∀ k : Category, 0 ≤ (x.get k).small) :
    0 ≤ x.rests := by
  have hminer := h .miner
  have hbudget := h .budget
  have hmasternode := h .masternode
  have hfounders := h .founders
  simp only [Columns.get] at hminer hbudget hmasternode hfounders
  rw [Columns.rests]
  omega

theorem blockPurse_coin {x : Columns Purse} (hrests : 0 ≤ x.rests) :
    (blockPurse c x).coin = (blockPurse c x).value c / c.COIN := by
  rw [Columns.rests] at hrests
  rw [blockPurse, addReward_value, addReward_coin hrests]
  simp [Purse.value]

theorem heightLoop_rests (hc : c.NonNegative) (lo hi : Int) : 0 ≤ (heightLoop c lo hi).rests := by
  apply Columns.rests_nonneg
  intro k
  rw [heightLoop_get]
  apply (carried_addRewards c _ _).nonneg
  intro value hmem
  obtain ⟨h, _, hadded⟩ := List.mem_flatMap.mp hmem
  exact added_nonneg hc h k value hadded

theorem rewardStatistics_rests (hc : c.NonNegative) (iyears isum : Int) :
    0 ≤ (rewardStatistics unbounded c iyears isum).sums.rests := by
  apply Columns.rests_nonneg
  intro k
  rw [rewardStatistics_small hc iyears isum k]
  exact rowRests_sum_nonneg c iyears isum k

theorem row_coin (hc : c.NonNegative) {row : Row}
    (hrow : row ∈ (rewardStatistics unbounded c iyears isum).rows) :
    row.aBlocks.coin = blockSum c row.iHl row.iHh / c.COIN := by
  obtain ⟨hpurses, hblocks⟩ := mem_rewardStatistics_rows hrow
  rw [hblocks, hpurses, blockPurse_coin (heightLoop_rests hc _ _), heightLoop_block_value]

theorem rewardStatistics_total_value (c : Chain) (hy : 0 ≤ iyears) (hs : 0 ≤ isum) :
    (rewardStatistics unbounded c iyears isum).aSumbk.value c =
      blockSum c 0 (isum * 210240 * iyears) := by
  show (blockPurse c (rewardStatistics unbounded c iyears isum).sums).value c = _
  rw [sum_get_value, rewardStatistics_category_value c iyears isum hy hs,
    rewardStatistics_category_value c iyears isum hy hs,
    rewardStatistics_category_value c iyears isum hy hs,
    rewardStatistics_category_value c iyears isum hy hs, addedSum_total]

theorem total_coin (hc : c.NonNegative) (hy : 0 ≤ iyears) (hs : 0 ≤ isum) :
    (rewardStatistics unbounded c iyears isum).aSumbk.coin =
      blockSum c 0 (isum * 210240 * iyears) / c.COIN := by
  rw [← rewardStatistics_total_value c hy hs]
  exact blockPurse_coin (rewardStatistics_rests hc iyears isum)

theorem rows_blockSum (c : Chain) (hy : 0 ≤ iyears) (hs : 0 ≤ isum) :
    ((rewardStatistics unbounded c iyears isum).rows.map fun row =>
      blockSum c row.iHl row.iHh).sum = blockSum c 0 (isum * 210240 * iyears) := by
  rw [blockSum, ← rewardStatistics_heights c iyears isum hy hs]
  exact (sum_map_flatMap _ _ _).symm

end

theorem sum_map_ediv {α : Type*} {d : Int} (hd : 0 < d) (f : α → Int) (l : List α) :
    (l.map fun x => f x / d).sum * d ≤ (l.map f).sum ∧
      (l ≠ [] → (l.map f).sum < ((l.map fun x => f x / d).sum + l.length) * d) := by
  induction l with
  | nil => simp
  | cons x l ih =>
      obtain ⟨hle, hlt⟩ := ih
      have hlow := Int.ediv_mul_le (f x) hd.ne'
      have hhigh := Int.lt_ediv_add_one_mul_self (f x) hd
      simp only [List.map_cons, List.sum_cons, List.length_cons]
      push_cast
      constructor
      · linarith
      · intro _
        by_cases hl : l = []
        · subst hl
          simp only [List.map_nil, List.sum_nil, List.length_nil]
          push_cast
          linarith
        · have hrest := hlt hl
          linarith

section

variable {c : Chain} {iyears isum : Int}

theorem rows_coin_sum (hc : c.NonNegative) :
    ((rewardStatistics unbounded c iyears isum).rows.map fun row => row.aBlocks.coin).sum =
      ((rewardStatistics unbounded c iyears isum).rows.map fun row =>
        blockSum c row.iHl row.iHh / c.COIN).sum := by
  congr 1
  apply List.map_congr_left
  intro row hrow
  exact row_coin hc hrow

theorem rows_length (c : Chain) (hs : 0 < isum) :
    ((rewardStatistics unbounded c iyears isum).rows.length : Int) = isum := by
  rw [rewardStatistics_rows, List.length_map, intRange_length]
  simp only [id]
  omega

end

end CoinTool
