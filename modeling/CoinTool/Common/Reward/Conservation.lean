import Mathlib.Data.List.Chain
import Mathlib.Data.List.Range
import CoinTool.Common.Reward.Model

/-!
# Conservation of the reward report

Every call of `AddReward` adds its argument to the exact value of a pair of coins and rest.  The
argument lists of the calls at one height determine each purse of a row, and their sum is the
amount that `BlockReward` computes for the height.
-/

namespace CoinTool

open Framework

def Purse.value (c : Chain) (p : Purse) : Int := p.coin * c.COIN + p.small

theorem addReward_value (c : Chain) (value : Int) (p : Purse) :
    (addReward c value p).value c = p.value c + value := by
  have hvalue := Int.mul_tdiv_add_tmod value c.COIN
  have hsmall := Int.mul_tdiv_add_tmod (p.small + value.tmod c.COIN) c.COIN
  simp only [addReward, Purse.value]
  split
  · linarith
  · dsimp only
    linarith

theorem addReward_carry {c : Chain} {value : Int} {p : Purse} (hsmall : p.small ≤ c.COIN)
    (hcarry : p.small + value % c.COIN > c.COIN) :
    (p.small + value % c.COIN).tdiv c.COIN = 1 ∧
      (p.small + value % c.COIN).tmod c.COIN = p.small + value % c.COIN - c.COIN := by
  have hpos := c.coin_pos
  have hrestlt := Int.emod_lt_of_pos value hpos
  constructor
  · rw [Int.tdiv_eq_ediv_of_nonneg (by omega), Int.ediv_eq_iff_of_pos hpos]
    constructor
    · omega
    · omega
  · rw [Int.tmod_eq_emod_of_nonneg (by omega), ← Int.sub_emod_right,
      Int.emod_eq_of_lt (by omega) (by omega)]

/-- The arguments of the `AddReward` calls on the purse of category `k` at height `h`. -/
def added (c : Chain) (h : Int) : Category → List Int
  | .miner => if 1 = h then [] else [c.getMinerSubsidy h]
  | .budget =>
      if c.isSuperblockTriggered h ∧ h ≥ c.nMasternodePaymentsStartBlock then [c.getBudget h]
      else []
  | .masternode => [c.getMasternodePayment h]
  | .founders =>
      (if 1 = h then [c.getMinerSubsidy h] else []) ++
        (if c.isSuperblockTriggered h then [c.getFoundersReward h] else [])

def addRewards (c : Chain) (p : Purse) (values : List Int) : Purse :=
  values.foldl (fun p value => addReward c value p) p

theorem addRewards_value (c : Chain) (p : Purse) (values : List Int) :
    (addRewards c p values).value c = p.value c + values.sum := by
  have hweighs : Weighs (fun p value => addReward c value p) (Purse.value c) id :=
    fun p value => addReward_value c value p
  simpa [addRewards] using hweighs.foldl p values

theorem heightStep_get (c : Chain) (row : Columns Purse) (h : Int) (k : Category) :
    (heightStep c row h).get k = addRewards c (row.get k) (added c h k) := by
  by_cases hone : 1 = h <;> by_cases hsuper : c.isSuperblockTriggered h = true <;>
    by_cases hstart : h ≥ c.nMasternodePaymentsStartBlock <;>
    cases k <;> simp [heightStep, added, addRewards, hone, hsuper, hstart]

theorem heightLoop_get (c : Chain) (lo hi : Int) (k : Category) :
    (heightLoop c lo hi).get k =
      addRewards c ⟨0, 0⟩ ((Int.range lo hi).flatMap fun h => added c h k) := by
  have hget : emptyPurses.get k = ⟨0, 0⟩ := by cases k <;> rfl
  rw [addRewards, List.foldl_flatMap, ← hget]
  exact (List.foldl_hom (fun row : Columns Purse => row.get k)
    fun row h => (heightStep_get c row h k).symm).symm

def addedSum (c : Chain) (lo hi : Int) (k : Category) : Int :=
  ((Int.range lo hi).map fun h => (added c h k).sum).sum

theorem heightLoop_value (c : Chain) (lo hi : Int) (k : Category) :
    ((heightLoop c lo hi).get k).value c = addedSum c lo hi k := by
  rw [heightLoop_get, addRewards_value]
  have hflat := sum_map_flatMap (fun h => added c h k) (id : Int → Int) (Int.range lo hi)
  simpa [addedSum, Purse.value] using hflat

theorem sum_get_value (c : Chain) (x : Columns Purse) :
    (blockPurse c x).value c =
      (x.get .miner).value c + (x.get .budget).value c + (x.get .masternode).value c +
        (x.get .founders).value c := by
  rw [blockPurse, addReward_value]
  simp only [Purse.value, Columns.get]
  ring

theorem added_total (c : Chain) (h : Int) :
    (added c h .miner).sum + (added c h .budget).sum + (added c h .masternode).sum +
      (added c h .founders).sum = (blockAmounts c h).total := by
  by_cases hone : 1 = h <;> by_cases hsuper : c.isSuperblockTriggered h = true <;>
    by_cases hstart : h ≥ c.nMasternodePaymentsStartBlock <;>
    simp [added, blockAmounts, Columns.total, hone, hsuper, hstart] <;> ring

def blockSum (c : Chain) (lo hi : Int) : Int :=
  ((Int.range lo hi).map fun h => (blockAmounts c h).total).sum

theorem addedSum_total (c : Chain) (lo hi : Int) :
    addedSum c lo hi .miner + addedSum c lo hi .budget + addedSum c lo hi .masternode +
      addedSum c lo hi .founders = blockSum c lo hi := by
  simp only [addedSum, blockSum, ← List.sum_map_add, added_total]

theorem heightLoop_block_value (c : Chain) (lo hi : Int) :
    (blockPurse c (heightLoop c lo hi)).value c = blockSum c lo hi := by
  simp only [sum_get_value, heightLoop_value, addedSum_total]

section

variable (wrap : Int → Int) (c : Chain) (iyears : Int)

def rowOf (i : Int) : Row :=
  let iHl := wrap (wrap (wrap (i - 1) * 210240) * iyears)
  let iHh := wrap (wrap (i * 210240) * iyears)
  ⟨i, iHl, iHh, heightLoop c iHl iHh, blockPurse c (heightLoop c iHl iHh)⟩

theorem rowLoop_rows (t : Totals) (l : List Int) :
    (l.foldl (rowStep wrap c iyears) t).rows = t.rows ++ l.map (rowOf wrap c iyears) := by
  induction l generalizing t with
  | nil => simp
  | cons i l ih =>
      rw [List.foldl_cons, ih]
      simp [rowStep, rowOf]

theorem rowLoop_sums (t : Totals) (l : List Int) :
    (l.foldl (rowStep wrap c iyears) t).sums =
      (l.map (rowOf wrap c iyears)).foldl (fun sums row => addPurses sums row.purses) t.sums := by
  rw [List.foldl_map]
  exact (List.foldl_hom Totals.sums (by intro t i; rfl)).symm

end

theorem addPurses_get_coin (x y : Columns Purse) (k : Category) :
    ((addPurses x y).get k).coin = (x.get k).coin + (y.get k).coin := by
  cases k <;> rfl

theorem addPurses_get_small (x y : Columns Purse) (k : Category) :
    ((addPurses x y).get k).small = (x.get k).small + (y.get k).small := by
  cases k <;> rfl

theorem addPurses_get_value (c : Chain) (x y : Columns Purse) (k : Category) :
    ((addPurses x y).get k).value c = (x.get k).value c + (y.get k).value c := by
  simp only [Purse.value, addPurses_get_coin, addPurses_get_small]
  ring

theorem rewardStatistics_rows (wrap : Int → Int) (c : Chain) (iyears isum : Int) :
    (rewardStatistics wrap c iyears isum).rows =
      (Int.range 1 (wrap (isum + 1))).map (rowOf wrap c iyears) := by
  simp [rewardStatistics, rowLoop_rows]

theorem emptyPurses_value (c : Chain) (k : Category) : (emptyPurses.get k).value c = 0 := by
  cases k <;> simp [emptyPurses, Columns.get, Purse.value]

theorem rewardStatistics_sums (wrap : Int → Int) (c : Chain) (iyears isum : Int)
    (μ : Columns Purse → Int) (hzero : μ emptyPurses = 0)
    (hadd : ∀ x y, μ (addPurses x y) = μ x + μ y) :
    μ (rewardStatistics wrap c iyears isum).sums =
      ((rewardStatistics wrap c iyears isum).rows.map fun row => μ row.purses).sum := by
  have hweighs : Weighs (fun sums (row : Row) => addPurses sums row.purses) μ
      (fun row => μ row.purses) := fun sums row => hadd sums row.purses
  rw [rewardStatistics_rows]
  simp only [rewardStatistics, rowLoop_sums]
  rw [hweighs.foldl, hzero, zero_add]

theorem unbounded_row (c : Chain) (iyears i : Int) :
    (rowOf unbounded c iyears i).iHl = (i - 1) * (210240 * iyears) ∧
      (rowOf unbounded c iyears i).iHh = i * (210240 * iyears) := by
  constructor
  · simp only [rowOf, id]
    ring
  · simp only [rowOf, id]
    ring

theorem mem_rewardStatistics_rows {wrap : Int → Int} {c : Chain} {iyears isum : Int} {row : Row}
    (h : row ∈ (rewardStatistics wrap c iyears isum).rows) :
    row.purses = heightLoop c row.iHl row.iHh ∧ row.aBlocks = blockPurse c row.purses := by
  rw [rewardStatistics_rows] at h
  obtain ⟨i, _, rfl⟩ := List.mem_map.mp h
  exact ⟨rfl, rfl⟩

theorem rewardStatistics_heights (c : Chain) (iyears isum : Int) (hy : 0 ≤ iyears)
    (hs : 0 ≤ isum) :
    ((rewardStatistics unbounded c iyears isum).rows.flatMap fun row =>
      Int.range row.iHl row.iHh) = Int.range 0 (isum * 210240 * iyears) := by
  obtain ⟨n, rfl⟩ := Int.eq_ofNat_of_zero_le hs
  have hblocks := intRange_flatMap_blocks (210240 * iyears) (by positivity) n
  rw [rewardStatistics_rows, List.flatMap_map]
  simp only [unbounded_row]
  rw [mul_assoc]
  exact hblocks

/-- The height ranges of the rows follow one another from height 0 without gap or overlap, and the
coins and rest of every row, and of the grand total, are exactly the amounts that `BlockReward`
computes for their heights. -/
theorem rewardStatistics_conserves (c : Chain) (iyears isum : Int) (hy : 0 ≤ iyears)
    (hs : 0 ≤ isum) :
    let r := rewardStatistics unbounded c iyears isum
    (r.rows.map Row.i = Int.range 1 (isum + 1) ∧
      r.rows.IsChain (fun row next => row.iHh = next.iHl) ∧
      r.rows.Pairwise (fun row later => row.iHh ≤ later.iHl) ∧
      (r.rows.flatMap fun row => Int.range row.iHl row.iHh) =
        Int.range 0 (isum * 210240 * iyears)) ∧
    (∀ row ∈ r.rows, row.aBlocks.coin * c.COIN + row.aBlocks.small =
      ((Int.range row.iHl row.iHh).map fun h => (blockAmounts c h).total).sum) ∧
    r.aSumbk.coin * c.COIN + r.aSumbk.small =
      ((Int.range 0 (isum * 210240 * iyears)).map fun h => (blockAmounts c h).total).sum := by
  intro r
  have hheights := rewardStatistics_heights c iyears isum hy hs
  have hrow : ∀ row ∈ r.rows, row.aBlocks.value c = blockSum c row.iHl row.iHh := by
    intro row hmem
    obtain ⟨hpurses, hblocks⟩ := mem_rewardStatistics_rows hmem
    rw [hblocks, hpurses]
    exact heightLoop_block_value c row.iHl row.iHh
  refine ⟨⟨?_, ?_, ?_, hheights⟩, hrow, ?_⟩
  · show (rewardStatistics unbounded c iyears isum).rows.map Row.i = _
    rw [rewardStatistics_rows, List.map_map]
    exact List.map_id _
  · show (rewardStatistics unbounded c iyears isum).rows.IsChain _
    rw [rewardStatistics_rows, Int.range, List.map_map, List.isChain_map, List.isChain_range]
    intro m _
    simp only [Function.comp_apply, unbounded_row]
    push_cast
    ring
  · show (rewardStatistics unbounded c iyears isum).rows.Pairwise _
    rw [rewardStatistics_rows, Int.range, List.map_map, List.pairwise_map]
    apply List.pairwise_lt_range.imp
    intro m n hmn
    simp only [Function.comp_apply, unbounded_row]
    have hwidth : 0 ≤ 210240 * iyears := by positivity
    have hle : (1 : Int) + m ≤ 1 + n - 1 := by omega
    exact Int.mul_le_mul_of_nonneg_right hle hwidth
  · have htotal : r.aSumbk.value c = (r.rows.map fun row => row.aBlocks.value c).sum := by
      have hsums := rewardStatistics_sums unbounded c iyears isum
        (fun x => (blockPurse c x).value c) (by simp only [sum_get_value, emptyPurses_value, add_zero])
        (by
          intro x y
          simp only [sum_get_value, addPurses_get_value]
          ring)
      show (blockPurse c (rewardStatistics unbounded c iyears isum).sums).value c = _
      rw [hsums]
      congr 1
      apply List.map_congr_left
      intro row hmem
      rw [(mem_rewardStatistics_rows hmem).2]
    show r.aSumbk.value c = _
    rw [htotal, List.map_congr_left hrow, ← hheights]
    exact (sum_map_flatMap _ _ _).symm

def sampleChain : Chain where
  COIN := 100000000
  coin_pos := by decide
  nMasternodePaymentsStartBlock := 100
  getMinerSubsidy _ := 300000000
  getMasternodePayment _ := 475
  getFoundersReward _ := 50000000
  getBudget _ := 100000000
  getBlockSubsidy _ := 300000475
  isSuperblockTriggered h := h = 50

theorem rewardStatistics_conserves_sample :
    (rewardStatistics unbounded sampleChain 1 2).aSumbk.coin * sampleChain.COIN +
        (rewardStatistics unbounded sampleChain 1 2).aSumbk.small =
      ((Int.range 0 (2 * 210240 * 1)).map fun h => (blockAmounts sampleChain h).total).sum :=
  (rewardStatistics_conserves sampleChain 1 2 (by decide) (by decide)).2.2

end CoinTool
