import CoinTool.Common.Reward.Conservation

/-!
# Agreement of the reward commands

`RewardStatistics` books the miner subsidy of height 1 under the founders, which `BlockReward` does
not; every other payment goes to the same column.  `RewardHandle` shows the budget of a superblock
without the start block gate of `BlockReward`.
-/

namespace CoinTool

open Framework

/-- What `RewardStatistics` books at height `h` beyond the column of `BlockReward`. -/
def premineShift (c : Chain) (h : Int) : Category → Int
  | .miner => if 1 = h then -c.getMinerSubsidy h else 0
  | .founders => if 1 = h then c.getMinerSubsidy h else 0
  | .budget | .masternode => 0

theorem added_sum_category (c : Chain) (h : Int) (k : Category) :
    (added c h k).sum = (blockAmounts c h).get k + premineShift c h k := by
  by_cases hone : 1 = h <;> by_cases hsuper : c.isSuperblockTriggered h = true <;>
    by_cases hstart : h ≥ c.nMasternodePaymentsStartBlock <;>
    cases k <;> simp [added, blockAmounts, premineShift, Columns.get, hone, hsuper, hstart, add_comm]

theorem premineShift_sum (c : Chain) (lo hi : Int) (k : Category) :
    ((Int.range lo hi).map fun h => premineShift c h k).sum =
      if lo ≤ 1 ∧ 1 < hi then premineShift c 1 k else 0 := by
  have hother : ∀ a b : Int, (b ≤ 1 ∨ 1 < a) →
      ((Int.range a b).map fun h => premineShift c h k).sum = 0 := by
    intro a b hab
    apply List.sum_eq_zero
    intro shift hmem
    obtain ⟨h, hrange, rfl⟩ := List.mem_map.mp hmem
    have hbounds := Int.mem_range_iff.mp hrange
    have hne : ¬ (1 = h) := by omega
    cases k <;> simp [premineShift, hne]
  by_cases hin : lo ≤ 1 ∧ 1 < hi
  · have hsplit : Int.range lo hi = Int.range lo 1 ++ (Int.range 1 (1 + 1) ++ Int.range 2 hi) := by
      rw [show (1 : Int) + 1 = 2 from rfl, intRange_append (by omega) (by omega),
        intRange_append hin.1 (by omega)]
    have hone : Int.range 1 (1 + 1) = [1] := by decide
    rw [if_pos hin, hsplit, List.map_append, List.map_append, List.sum_append, List.sum_append,
      hother lo 1 (Or.inl (le_refl 1)), hother 2 hi (Or.inr (by decide)), hone]
    simp
  · rw [if_neg hin]
    by_cases hlo : lo ≤ 1
    · exact hother lo hi (Or.inl (by omega))
    · exact hother lo hi (Or.inr (by omega))

theorem row_category_value {wrap : Int → Int} {c : Chain} {iyears isum : Int} {row : Row}
    (hmem : row ∈ (rewardStatistics wrap c iyears isum).rows) (k : Category) :
    (row.purses.get k).value c =
      ((Int.range row.iHl row.iHh).map fun h => (blockAmounts c h).get k).sum +
        if row.iHl ≤ 1 ∧ 1 < row.iHh then premineShift c 1 k else 0 := by
  have hvalue : (row.purses.get k).value c = addedSum c row.iHl row.iHh k := by
    rw [(mem_rewardStatistics_rows hmem).1, heightLoop_value]
  have hsum : addedSum c row.iHl row.iHh k =
      ((Int.range row.iHl row.iHh).map fun h => (blockAmounts c h).get k).sum +
        ((Int.range row.iHl row.iHh).map fun h => premineShift c h k).sum := by
    simp only [addedSum, ← List.sum_map_add, added_sum_category]
  rw [hvalue, hsum, premineShift_sum]

/-- What a row holds in one category is what `BlockReward` assigns to it at the heights of the row,
except that a row with height 1 holds the miner subsidy of that height under the founders. -/
theorem rewardStatistics_category_agrees (c : Chain) (iyears isum : Int) :
    ∀ row ∈ (rewardStatistics unbounded c iyears isum).rows, ∀ k : Category,
      (row.purses.get k).coin * c.COIN + (row.purses.get k).small =
        ((Int.range row.iHl row.iHh).map fun h => (blockAmounts c h).get k).sum +
          if row.iHl ≤ 1 ∧ 1 < row.iHh then
            match k with
            | .miner => -c.getMinerSubsidy 1
            | .founders => c.getMinerSubsidy 1
            | .budget | .masternode => 0
          else 0 := by
  intro row hmem k
  have hvalue := row_category_value hmem k
  show (row.purses.get k).value c = _
  rw [hvalue]
  cases k <;> simp [premineShift]

private theorem sampleChain_first_row :
    rowOf unbounded sampleChain 1 1 ∈ (rewardStatistics unbounded sampleChain 1 1).rows := by
  rw [rewardStatistics_rows]
  exact List.mem_map_of_mem (by decide)

theorem rewardStatistics_category_agrees_sample :
    ((rowOf unbounded sampleChain 1 1).purses.get .founders).coin * sampleChain.COIN +
        ((rowOf unbounded sampleChain 1 1).purses.get .founders).small =
      ((Int.range 0 210240).map fun h => (blockAmounts sampleChain h).get .founders).sum +
        300000000 := by
  have hrow := rewardStatistics_category_agrees sampleChain 1 1 _ sampleChain_first_row .founders
  rw [if_pos ⟨by decide, by decide⟩] at hrow
  exact hrow

/-- The first row of the report books the subsidy of height 1 under the founders. -/
theorem rewardStatistics_premine_differs :
    ¬ ∀ (c : Chain) (iyears isum : Int), 0 ≤ iyears → 0 ≤ isum →
      ∀ row ∈ (rewardStatistics unbounded c iyears isum).rows, ∀ k : Category,
        (row.purses.get k).coin * c.COIN + (row.purses.get k).small =
          ((Int.range row.iHl row.iHh).map fun h => (blockAmounts c h).get k).sum := by
  intro h
  have hall := h sampleChain 1 1 (by decide) (by decide) _ sampleChain_first_row .miner
  have hvalue := row_category_value sampleChain_first_row .miner
  rw [if_pos ⟨by decide, by decide⟩] at hvalue
  have hshift : premineShift sampleChain 1 .miner = -300000000 := by decide
  simp only [Purse.value] at hvalue
  omega

/-- Both single-height tables show the same categories exactly when a superblock below the start
block has a budget of less than one coin. -/
theorem rewardHandle_agrees_iff (c : Chain) (h : Int) :
    (rewardHandleLine c h).columns = (blockRewardLine c h).columns ↔
      (c.isSuperblockTriggered h = true → h < c.nMasternodePaymentsStartBlock →
        (c.getBudget h).tdiv c.COIN = 0) := by
  by_cases hsuper : c.isSuperblockTriggered h = true
  · by_cases hstart : h ≥ c.nMasternodePaymentsStartBlock
    · simp [rewardHandleLine, blockRewardLine, blockAmounts, hsuper, hstart]
    · have hlt : h < c.nMasternodePaymentsStartBlock := by omega
      have hgate : ¬ c.nMasternodePaymentsStartBlock ≤ h := by omega
      simp [rewardHandleLine, blockRewardLine, blockAmounts, hsuper, hlt, hgate]
  · simp [rewardHandleLine, blockRewardLine, blockAmounts, hsuper]

/-- The superblock 50 lies before the start block 100 and has a budget of one coin. -/
theorem rewardHandle_skips_gate :
    ¬ ∀ (c : Chain) (h : Int), (rewardHandleLine c h).columns = (blockRewardLine c h).columns := by
  intro h
  exact absurd (h sampleChain 50) (by decide)

theorem rewardHandle_lines {preset : KeyMap Str Str} {history : List (Str × Str)} {s : Settings}
    (hm : Merged preset history s) (c : Chain) :
    (rewardHandle c s).1 =
      (valuesOf "-height".toList history).map fun str => rewardHandleLine c (atoi str) := by
  rw [rewardHandle, hm.visited]

end CoinTool
