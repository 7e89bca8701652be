import CoinTool.Common.Reward.Heights

/-!
# The width of the accumulators

A `CAmount` is an `int64_t`.  The report is run once more over sums that fail outside that range: for
four payments of at most 10^9 coins each, over heights that fit an `int`, none of them fails.
-/

namespace CoinTool

open Framework

def int64 (z : Int) : Option Int := if -2 ^ 63 ≤ z ∧ z < 2 ^ 63 then some z else none

def addRewardChecked (c : Chain) (value : Int) (p : Purse) : Option Purse := do
  let value ← int64 value
  let coin ← int64 (p.coin + (← int64 (value.tdiv c.COIN)))
  let small ← int64 (p.small + (← int64 (value.tmod c.COIN)))
  if small > c.COIN then
    let coin ← int64 (coin + (← int64 (small.tdiv c.COIN)))
    let small ← int64 (small.tmod c.COIN)
    some ⟨coin, small⟩
  else some ⟨coin, small⟩

def Columns.modifyChecked (x : Columns Purse) (k : Category) (f : Purse → Option Purse) :
    Option (Columns Purse) := do
  let p ← f (x.get k)
  some (x.modify k fun _ => p)

def heightStepChecked (c : Chain) (row : Columns Purse) (h : Int) : Option (Columns Purse) := do
  let row ← (
    if 1 = h then row.modifyChecked .founders (addRewardChecked c (c.getMinerSubsidy h))
    else row.modifyChecked .miner (addRewardChecked c (c.getMinerSubsidy h)))
  let row ← row.modifyChecked .masternode (addRewardChecked c (c.getMasternodePayment h))
  if c.isSuperblockTriggered h then
    let row ← row.modifyChecked .founders (addRewardChecked c (c.getFoundersReward h))
    if h ≥ c.nMasternodePaymentsStartBlock then
      row.modifyChecked .budget (addRewardChecked c (c.getBudget h))
    else some row
  else some row

def heightLoopChecked (c : Chain) (iHl iHh : Int) : Option (Columns Purse) :=
  (Int.range iHl iHh).foldlM (heightStepChecked c) emptyPurses

def sumChecked (a b d e : Int) : Option Int := do
  let s ← int64 (a + b)
  let s ← int64 (s + d)
  int64 (s + e)

def blockPurseChecked (c : Chain) (x : Columns Purse) : Option Purse := do
  let coin ← sumChecked x.miner.coin x.budget.coin x.masternode.coin x.founders.coin
  let small ← sumChecked x.miner.small x.budget.small x.masternode.small x.founders.small
  addRewardChecked c small ⟨coin, 0⟩

def addPursesChecked (x y : Columns Purse) : Option (Columns Purse) := do
  let add (p q : Purse) : Option Purse := do
    some ⟨← int64 (p.coin + q.coin), ← int64 (p.small + q.small)⟩
  some ⟨← add x.miner y.miner, ← add x.budget y.budget, ← add x.masternode y.masternode,
    ← add x.founders y.founders⟩

def rowStepChecked (wrap : Int → Int) (c : Chain) (iyears : Int) (t : Totals) (i : Int) :
    Option Totals := do
  let iHl := wrap (wrap (wrap (i - 1) * 210240) * iyears)
  let iHh := wrap (wrap (i * 210240) * iyears)
  let purses ← heightLoopChecked c iHl iHh
  let aBlocks ← blockPurseChecked c purses
  let sums ← addPursesChecked t.sums purses
  some
    { rows := t.rows ++ [⟨i, iHl, iHh, purses, aBlocks⟩]
      sums
      lasth := wrap (iHh - 1) }

def rewardStatisticsChecked (wrap : Int → Int) (c : Chain) (iyears isum : Int) :
    Option Report := do
  let t ← (Int.range 1 (wrap (isum + 1))).foldlM (rowStepChecked wrap c iyears) ⟨[], emptyPurses, 0⟩
  let aSumbk ← blockPurseChecked c t.sums
  some { iyears, rank := getRankString isum, rows := t.rows, sums := t.sums, aSumbk
         lasth := t.lasth }

theorem int64_some {y z : Int} (h : int64 z = some y) : y = z := by
  rw [int64] at h
  split at h
  · exact (Option.some.inj h).symm
  · cases h

theorem addRewardChecked_some {c : Chain} {value : Int} {p q : Purse}
    (h : addRewardChecked c value p = some q) : q = addReward c value p := by
  simp only [addRewardChecked, Option.bind_eq_bind, Option.bind_eq_some_iff] at h
  obtain ⟨v, hv, quotient, hquotient, coin, hcoin, rest, hrest, small, hsmall, h⟩ := h
  obtain rfl := int64_some hv
  obtain rfl := int64_some hquotient
  obtain rfl := int64_some hcoin
  obtain rfl := int64_some hrest
  obtain rfl := int64_some hsmall
  rw [addReward]
  split at h
  · rename_i hcarry
    simp only [Option.bind_eq_some_iff] at h
    obtain ⟨carry, hcarried, coin, hcoin, small, hsmall, h⟩ := h
    obtain rfl := int64_some hcarried
    obtain rfl := int64_some hcoin
    obtain rfl := int64_some hsmall
    rw [if_pos hcarry]
    exact (Option.some.inj h).symm
  · rename_i hcarry
    rw [if_neg hcarry]
    exact (Option.some.inj h).symm

theorem modifyChecked_some {c : Chain} {value : Int} {x y : Columns Purse} {k : Category}
    (h : x.modifyChecked k (addRewardChecked c value) = some y) :
    y = x.modify k (addReward c value) := by
  simp only [Columns.modifyChecked, Option.bind_eq_bind, Option.bind_eq_some_iff] at h
  obtain ⟨p, hp, h⟩ := h
  obtain rfl := addRewardChecked_some hp
  rw [← Option.some.inj h]
  cases k <;> rfl

theorem heightStepChecked_some {c : Chain} {row next : Columns Purse} {h : Int}
    (hrun : heightStepChecked c row h = some next) : next = heightStep c row h := by
  simp only [heightStepChecked, Option.bind_eq_bind, Option.bind_eq_some_iff] at hrun
  obtain ⟨first, hfirst, second, hsecond, hrun⟩ := hrun
  have hminer : first = if 1 = h then row.modify .founders (addReward c (c.getMinerSubsidy h))
      else row.modify .miner (addReward c (c.getMinerSubsidy h)) := by
    split at hfirst
    · rename_i hone
      rw [if_pos hone]
      exact modifyChecked_some hfirst
    · rename_i hone
      rw [if_neg hone]
      exact modifyChecked_some hfirst
  obtain rfl := modifyChecked_some hsecond
  rw [heightStep, ← hminer]
  split at hrun
  · rename_i hsuper
    simp only [Option.bind_eq_some_iff] at hrun
    obtain ⟨third, hthird, hrun⟩ := hrun
    obtain rfl := modifyChecked_some hthird
    rw [if_pos hsuper]
    split at hrun
    · rename_i hstart
      rw [if_pos hstart]
      exact modifyChecked_some hrun
    · rename_i hstart
      rw [if_neg hstart]
      exact (Option.some.inj hrun).symm
  · rename_i hsuper
    rw [if_neg hsuper]
    exact (Option.some.inj hrun).symm

theorem sumChecked_some {a b d e s : Int} (h : sumChecked a b d e = some s) :
    s = a + b + d + e := by
  simp only [sumChecked, Option.bind_eq_bind, Option.bind_eq_some_iff] at h
  obtain ⟨first, hfirst, second, hsecond, h⟩ := h
  rw [int64_some h, int64_some hsecond, int64_some hfirst]

theorem blockPurseChecked_some {c : Chain} {x : Columns Purse} {p : Purse}
    (h : blockPurseChecked c x = some p) : p = blockPurse c x := by
  simp only [blockPurseChecked, Option.bind_eq_bind, Option.bind_eq_some_iff] at h
  obtain ⟨coin, hcoin, small, hsmall, h⟩ := h
  rw [addRewardChecked_some h, sumChecked_some hcoin, sumChecked_some hsmall]
  rfl

theorem addPursesChecked_some {x y sums : Columns Purse} (h : addPursesChecked x y = some sums) :
    sums = addPurses x y := by
  have hadd {p q r : Purse} (h : (int64 (p.coin + q.coin)).bind (fun coin =>
      (int64 (p.small + q.small)).bind fun small => some (⟨coin, small⟩ : Purse)) = some r) :
      r = ⟨p.coin + q.coin, p.small + q.small⟩ := by
    simp only [Option.bind_eq_some_iff] at h
    obtain ⟨coin, hcoin, small, hsmall, h⟩ := h
    rw [← Option.some.inj h, int64_some hcoin, int64_some hsmall]
  simp only [addPursesChecked, Option.bind_eq_bind] at h
  rw [Option.bind_eq_some_iff] at h
  obtain ⟨miner, hminer, h⟩ := h
  rw [Option.bind_eq_some_iff] at h
  obtain ⟨budget, hbudget, h⟩ := h
  rw [Option.bind_eq_some_iff] at h
  obtain ⟨masternode, hmasternode, h⟩ := h
  rw [Option.bind_eq_some_iff] at h
  obtain ⟨founders, hfounders, h⟩ := h
  rw [← Option.some.inj h, hadd hminer, hadd hbudget, hadd hmasternode, hadd hfounders]
  rfl

theorem rowStepChecked_some {wrap : Int → Int} {c : Chain} {iyears i : Int} {t u : Totals}
    (h : rowStepChecked wrap c iyears t i = some u) : u = rowStep wrap c iyears t i := by
  simp only [rowStepChecked, Option.bind_eq_bind, Option.bind_eq_some_iff] at h
  obtain ⟨purses, hpurses, aBlocks, hblocks, sums, hsums, h⟩ := h
  obtain rfl := foldlM_some heightStepChecked_some hpurses
  obtain rfl := blockPurseChecked_some hblocks
  obtain rfl := addPursesChecked_some hsums
  exact (Option.some.inj h).symm

/-- Wherever no amount leaves `int64_t`, the report with the checks is the report over integers. -/
theorem rewardStatisticsChecked_some {wrap : Int → Int} {c : Chain} {iyears isum : Int} {r : Report}
    (h : rewardStatisticsChecked wrap c iyears isum = some r) :
    r = rewardStatistics wrap c iyears isum := by
  simp only [rewardStatisticsChecked, Option.bind_eq_bind, Option.bind_eq_some_iff] at h
  obtain ⟨t, ht, aSumbk, hsum, h⟩ := h
  obtain rfl := foldlM_some rowStepChecked_some ht
  obtain rfl := blockPurseChecked_some hsum
  exact (Option.some.inj h).symm

theorem int64_eq {z : Int} (hlow : 0 ≤ z) (hhigh : z < 2 ^ 63) : int64 z = some z :=
  if_pos ⟨by omega, hhigh⟩

structure Purse.Within (p : Purse) (small : Int) : Prop where
  coin_nonneg : 0 ≤ p.coin
  small_nonneg : 0 ≤ p.small
  small_le : p.small ≤ small

def Columns.coins (x : Columns Purse) : Int :=
  x.miner.coin + x.budget.coin + x.masternode.coin + x.founders.coin

structure Columns.Within (x : Columns Purse) (coins small : Int) : Prop where
  purse : ∀ k, (x.get k).Within small
  coins_le : x.coins ≤ coins

theorem Columns.Within.mono {x : Columns Purse} {coins coins' small : Int}
    (h : x.Within coins small) (hle : coins ≤ coins') : x.Within coins' small :=
  ⟨h.purse, h.coins_le.trans hle⟩

theorem Columns.Within.coin_le {x : Columns Purse} {coins small : Int} (h : x.Within coins small)
    (k : Category) : (x.get k).coin ≤ coins := by
  have hsum := h.coins_le
  have hminer := (h.purse .miner).coin_nonneg
  have hbudget := (h.purse .budget).coin_nonneg
  have hmasternode := (h.purse .masternode).coin_nonneg
  have hfounders := (h.purse .founders).coin_nonneg
  simp only [Columns.get, Columns.coins] at *
  cases k <;> dsimp only <;> omega

theorem Columns.coins_modify (x : Columns Purse) (k : Category) (f : Purse → Purse) :
    (x.modify k f).coins = x.coins + ((f (x.get k)).coin - (x.get k).coin) := by
  cases k <;> simp only [Columns.modify, Columns.coins, Columns.get] <;> omega

/-- Adding at most 10^9 coins: the quotient is smaller when a carry adds one. -/
theorem addReward_within {c : Chain} {value : Int} {p : Purse} (hp : p.Within c.COIN)
    (hlow : 0 ≤ value) (hhigh : value ≤ 10 ^ 9 * c.COIN) :
    (addReward c value p).Within c.COIN ∧ (addReward c value p).coin ≤ p.coin + 10 ^ 9 := by
  have hpos := c.coin_pos
  obtain ⟨hcoin, hsmall, hsmallle⟩ := hp
  have hquot : 0 ≤ value / c.COIN := Int.ediv_nonneg hlow hpos.le
  have hrest := Int.emod_nonneg value hpos.ne'
  have hquotle : value / c.COIN ≤ 10 ^ 9 := by
    rw [← Int.mul_ediv_cancel (10 ^ 9) hpos.ne']
    exact Int.ediv_le_ediv hpos hhigh
  simp only [addReward, Int.tdiv_eq_ediv_of_nonneg hlow, Int.tmod_eq_emod_of_nonneg hlow]
  by_cases hcarry : p.small + value % c.COIN > c.COIN
  · have hstrict : value / c.COIN < 10 ^ 9 := by
      apply Int.ediv_lt_of_lt_mul hpos
      by_contra hfull
      have heq : value = 10 ^ 9 * c.COIN := by omega
      rw [heq, Int.mul_emod_left] at hcarry
      omega
    obtain ⟨hone, hleft⟩ := addReward_carry hsmallle hcarry
    have hrestlt := Int.emod_lt_of_pos value hpos
    rw [if_pos hcarry, hone, hleft]
    refine ⟨⟨?_, ?_, ?_⟩, ?_⟩ <;> dsimp only <;> omega
  · rw [if_neg hcarry]
    refine ⟨⟨?_, ?_, ?_⟩, ?_⟩ <;> dsimp only <;> omega

theorem addRewardChecked_eq {c : Chain} {value : Int} {p : Purse} (hc : c.COIN = 10 ^ 8)
    (hv : 0 ≤ value) (hvalue : value < 2 ^ 63) (hcoin : 0 ≤ p.coin) (hsmall : 0 ≤ p.small)
    (hsmallle : p.small ≤ c.COIN) (hfit : p.coin + value / c.COIN + 1 < 2 ^ 63) :
    addRewardChecked c value p = some (addReward c value p) := by
  have hpos := c.coin_pos
  have hquot : 0 ≤ value / c.COIN := Int.ediv_nonneg hv hpos.le
  have hrest := Int.emod_nonneg value hpos.ne'
  have hrestlt := Int.emod_lt_of_pos value hpos
  have hdiv : value.tdiv c.COIN = value / c.COIN := Int.tdiv_eq_ediv_of_nonneg hv
  have hmod : value.tmod c.COIN = value % c.COIN := Int.tmod_eq_emod_of_nonneg hv
  simp only [addRewardChecked, addReward, Option.bind_eq_bind]
  rw [int64_eq hv hvalue, Option.bind_some, hdiv, hmod, int64_eq hquot (by omega),
    Option.bind_some, int64_eq (by omega) (by omega), Option.bind_some, int64_eq hrest (by omega),
    Option.bind_some, int64_eq (by omega) (by omega), Option.bind_some]
  by_cases hcarry : p.small + value % c.COIN > c.COIN
  · obtain ⟨hone, hleft⟩ := addReward_carry hsmallle hcarry
    rw [if_pos hcarry, if_pos hcarry, hone, hleft, int64_eq (by omega) (by omega),
      Option.bind_some, int64_eq (by omega) (by omega), Option.bind_some,
      int64_eq (by omega) (by omega), Option.bind_some]
  · rw [if_neg hcarry, if_neg hcarry]

/-- The coins have the size the sources give them and a payment is at most 10^9 of them. -/
structure Chain.Limited (c : Chain) : Prop where
  coin : c.COIN = 10 ^ 8
  miner : ∀ h, 0 ≤ c.getMinerSubsidy h ∧ c.getMinerSubsidy h ≤ 10 ^ 9 * c.COIN
  masternode : ∀ h, 0 ≤ c.getMasternodePayment h ∧ c.getMasternodePayment h ≤ 10 ^ 9 * c.COIN
  founders : ∀ h, 0 ≤ c.getFoundersReward h ∧ c.getFoundersReward h ≤ 10 ^ 9 * c.COIN
  budget : ∀ h, 0 ≤ c.getBudget h ∧ c.getBudget h ≤ 10 ^ 9 * c.COIN

theorem modifyChecked_eq {c : Chain} (hc : c.Limited) {x : Columns Purse} {coins value : Int}
    (hx : x.Within coins c.COIN) (hvalue : 0 ≤ value ∧ value ≤ 10 ^ 9 * c.COIN)
    (hfit : coins + 10 ^ 9 + 1 < 2 ^ 63) (k : Category) :
    x.modifyChecked k (addRewardChecked c value) = some (x.modify k (addReward c value)) ∧
      (x.modify k (addReward c value)).Within (coins + 10 ^ 9) c.COIN := by
  obtain ⟨hlow, hhigh⟩ := hvalue
  have hcoin := hc.coin
  have hpurse := hx.purse k
  have hle := hx.coin_le k
  obtain ⟨hnext, hgrow⟩ := addReward_within hpurse hlow hhigh
  have hquot : value / c.COIN ≤ 10 ^ 9 := by
    rw [← Int.mul_ediv_cancel (10 ^ 9) c.coin_pos.ne']
    exact Int.ediv_le_ediv c.coin_pos hhigh
  have hrun := addRewardChecked_eq hcoin hlow (by omega) hpurse.coin_nonneg hpurse.small_nonneg
    hpurse.small_le (by omega)
  constructor
  · rw [Columns.modifyChecked, hrun]
    cases k <;> rfl
  · constructor
    · intro k'
      rw [Columns.get_modify]
      by_cases he : k' = k
      · rw [if_pos he]
        exact hnext
      · rw [if_neg he]
        exact hx.purse k'
    · have hsum := hx.coins_le
      rw [Columns.coins_modify]
      omega

theorem heightStepChecked_eq {c : Chain} (hc : c.Limited) {row : Columns Purse} {coins : Int}
    (hrow : row.Within coins c.COIN) (h : Int) (hfit : coins + 4 * 10 ^ 9 + 1 < 2 ^ 63) :
    heightStepChecked c row h = some (heightStep c row h) ∧
      (heightStep c row h).Within (coins + 4 * 10 ^ 9) c.COIN := by
  have hminer : (if 1 = h then row.modifyChecked .founders (addRewardChecked c (c.getMinerSubsidy h))
        else row.modifyChecked .miner (addRewardChecked c (c.getMinerSubsidy h))) =
      some (if 1 = h then row.modify .founders (addReward c (c.getMinerSubsidy h))
        else row.modify .miner (addReward c (c.getMinerSubsidy h))) ∧
      (if 1 = h then row.modify .founders (addReward c (c.getMinerSubsidy h))
        else row.modify .miner (addReward c (c.getMinerSubsidy h))).Within
        (coins + 10 ^ 9) c.COIN := by
    split
    · exact modifyChecked_eq hc hrow (hc.miner h) (by omega) .founders
    · exact modifyChecked_eq hc hrow (hc.miner h) (by omega) .miner
  obtain ⟨hrun, hfirst⟩ := hminer
  obtain ⟨hrun', hsecond⟩ :=
    modifyChecked_eq hc hfirst (hc.masternode h) (by omega) .masternode
  simp only [heightStepChecked, heightStep, hrun, hrun', Option.bind_eq_bind, Option.bind_some]
  by_cases hsuper : c.isSuperblockTriggered h
  · obtain ⟨hrun'', hthird⟩ := modifyChecked_eq hc hsecond (hc.founders h) (by omega) .founders
    rw [if_pos hsuper, if_pos hsuper, hrun'', Option.bind_some]
    by_cases hstart : h ≥ c.nMasternodePaymentsStartBlock
    · rw [if_pos hstart, if_pos hstart]
      obtain ⟨hlast, hfourth⟩ := modifyChecked_eq hc hthird (hc.budget h) (by omega) .budget
      exact ⟨hlast, hfourth.mono (by omega)⟩
    · rw [if_neg hstart, if_neg hstart]
      exact ⟨rfl, hthird.mono (by omega)⟩
  · rw [if_neg hsuper, if_neg hsuper]
    exact ⟨rfl, hsecond.mono (by omega)⟩

theorem emptyPurses_within (coins : Int) (hcoins : 0 ≤ coins) {small : Int} (hsmall : 0 ≤ small) :
    emptyPurses.Within coins small := by
  constructor
  · intro k
    cases k <;> exact ⟨le_refl 0, le_refl 0, hsmall⟩
  · exact hcoins

theorem heightLoopChecked_eq {c : Chain} (hc : c.Limited) {lo hi : Int} (hle : lo ≤ hi)
    (hfit : (hi - lo) * (4 * 10 ^ 9) + 1 < 2 ^ 63) :
    heightLoopChecked c lo hi = some (heightLoop c lo hi) ∧
      (heightLoop c lo hi).Within ((hi - lo) * (4 * 10 ^ 9)) c.COIN := by
  rw [heightLoopChecked, heightLoop]
  apply intRange_foldlM (fun h (row : Columns Purse) => row.Within ((h - lo) * (4 * 10 ^ 9)) c.COIN) hle
  · exact emptyPurses_within _ (by omega) c.coin_pos.le
  · intro h row hlow hhigh hrow
    obtain ⟨hrun, hnext⟩ := heightStepChecked_eq hc hrow h (by omega)
    exact ⟨hrun, hnext.mono (by omega)⟩

theorem sumChecked_eq {a b d e : Int} (ha : 0 ≤ a) (hb : 0 ≤ b) (hd : 0 ≤ d) (he : 0 ≤ e)
    (hfit : a + b + d + e < 2 ^ 63) : sumChecked a b d e = some (a + b + d + e) := by
  simp only [sumChecked, Option.bind_eq_bind]
  rw [int64_eq (by omega) (by omega), Option.bind_some, int64_eq (by omega) (by omega),
    Option.bind_some, int64_eq (by omega) hfit]

theorem blockPurseChecked_eq {c : Chain} (hc : c.Limited) {x : Columns Purse} {coins small : Int}
    (hx : x.Within coins small) (hfit : coins + 4 * small + 1 < 2 ^ 63) :
    blockPurseChecked c x = some (blockPurse c x) := by
  obtain ⟨hminer, hminer', hminerle⟩ := hx.purse .miner
  obtain ⟨hbudget, hbudget', hbudgetle⟩ := hx.purse .budget
  obtain ⟨hmasternode, hmasternode', hmasternodele⟩ := hx.purse .masternode
  obtain ⟨hfounders, hfounders', hfoundersle⟩ := hx.purse .founders
  have hsum := hx.coins_le
  simp only [Columns.get, Columns.coins] at *
  have hrest : 0 ≤ x.miner.small + x.budget.small + x.masternode.small + x.founders.small := by
    omega
  have hquot := Int.ediv_le_self c.COIN hrest
  have hpos := c.coin_pos
  simp only [blockPurseChecked, blockPurse, Option.bind_eq_bind]
  rw [sumChecked_eq hminer hbudget hmasternode hfounders (by omega), Option.bind_some,
    sumChecked_eq hminer' hbudget' hmasternode' hfounders' (by omega), Option.bind_some]
  apply addRewardChecked_eq hc.coin hrest
  · omega
  · dsimp only
    omega
  · exact le_refl 0
  · exact hpos.le
  · dsimp only
    omega

theorem addPursesChecked_eq {x y : Columns Purse} {coins coins' small small' : Int}
    (hx : x.Within coins small) (hy : y.Within coins' small')
    (hcoins : coins + coins' < 2 ^ 63) (hsmall : small + small' < 2 ^ 63) :
    addPursesChecked x y = some (addPurses x y) ∧
      (addPurses x y).Within (coins + coins') (small + small') := by
  have hadd : ∀ k, int64 ((x.get k).coin + (y.get k).coin) =
        some ((x.get k).coin + (y.get k).coin) ∧
      int64 ((x.get k).small + (y.get k).small) = some ((x.get k).small + (y.get k).small) := by
    intro k
    obtain ⟨hcoin, hrest, hle⟩ := hx.purse k
    obtain ⟨hcoin', hrest', hle'⟩ := hy.purse k
    have hbound := hx.coin_le k
    have hbound' := hy.coin_le k
    exact ⟨int64_eq (by omega) (by omega), int64_eq (by omega) (by omega)⟩
  constructor
  · obtain ⟨hminer, hminer'⟩ := hadd .miner
    obtain ⟨hbudget, hbudget'⟩ := hadd .budget
    obtain ⟨hmasternode, hmasternode'⟩ := hadd .masternode
    obtain ⟨hfounders, hfounders'⟩ := hadd .founders
    simp only [Columns.get] at *
    simp only [addPursesChecked, addPurses, Option.bind_eq_bind, hminer, hminer', hbudget,
      hbudget', hmasternode, hmasternode', hfounders, hfounders', Option.bind_some]
  · constructor
    · intro k
      obtain ⟨hcoin, hrest, hle⟩ := hx.purse k
      obtain ⟨hcoin', hrest', hle'⟩ := hy.purse k
      constructor
      · rw [addPurses_get_coin]
        omega
      · rw [addPurses_get_small]
        omega
      · rw [addPurses_get_small]
        omega
    · have hsum := hx.coins_le
      have hsum' := hy.coins_le
      simp only [Columns.coins, addPurses] at *
      omega

section

variable {c : Chain} {iyears isum : Int}

/-- The totals before row `i` hold what `i - 1` rows of `210240 * iyears` heights can add. -/
def RowsWithin (c : Chain) (iyears i : Int) (t : Totals) : Prop :=
  t.sums.Within ((i - 1) * (210240 * iyears) * (4 * 10 ^ 9)) ((i - 1) * c.COIN)

theorem rowStepChecked_eq (hc : c.Limited) (hy : 0 < iyears) (hs : 0 < isum)
    (hfit : isum * 210240 * iyears < 2 ^ 31) {i : Int} {t : Totals} (hlow : 1 ≤ i)
    (hhigh : i < isum + 1) (ht : RowsWithin c iyears i t) :
    rowStepChecked int32 c iyears t i = some (rowStep int32 c iyears t i) ∧
      RowsWithin c iyears (i + 1) (rowStep int32 c iyears t i) := by
  have hcoin := hc.coin
  have hcount := rows_of_fit hy hs hfit
  have hstart := int32_bound_of_fit hy hfit (by omega : 0 ≤ i - 1) (by omega)
  have hend := int32_bound_of_fit hy hfit (by omega : 0 ≤ i) (by omega)
  have hbefore : 0 ≤ (i - 1) * (210240 * iyears) := mul_nonneg (by omega) (by omega)
  have hnext : i * (210240 * iyears) = (i - 1) * (210240 * iyears) + 210240 * iyears := by ring
  have hlast : i * (210240 * iyears) ≤ isum * (210240 * iyears) :=
    Int.mul_le_mul_of_nonneg_right (by omega) (by omega)
  rw [mul_assoc] at hfit
  obtain ⟨hHl, hHh⟩ := int32_row c iyears i
  rw [hstart] at hHl
  rw [hend] at hHh
  simp only [rowOf] at hHl hHh
  have hwidth : (i - 1) * (210240 * iyears) ≤ i * (210240 * iyears) := by omega
  obtain ⟨hloop, hpurses⟩ := heightLoopChecked_eq hc hwidth (by omega)
  have hblock := blockPurseChecked_eq hc hpurses (by omega)
  obtain ⟨hadd, hsums⟩ := addPursesChecked_eq ht hpurses (by omega) (by rw [hcoin]; omega)
  constructor
  · simp only [rowStepChecked, rowStep, hHl, hHh, hloop, hblock, hadd, Option.bind_eq_bind,
      Option.bind_some]
  · have hsmalls : (i - 1) * c.COIN + c.COIN = (i + 1 - 1) * c.COIN := by ring
    rw [RowsWithin, rowStep, hHl, hHh, ← hsmalls]
    apply hsums.mono
    rw [add_sub_cancel_right]
    omega

/-- No sum, quotient, rest, carry or argument of a report leaves `int64_t`: with the checks the
report is the one without them. -/
theorem rewardStatisticsChecked_eq (hc : c.Limited) (hy : 1 ≤ iyears) (hs : 1 ≤ isum)
    (hfit : isum * 210240 * iyears < 2 ^ 31) :
    rewardStatisticsChecked int32 c iyears isum = some (rewardStatistics int32 c iyears isum) := by
  have hcoin := hc.coin
  have hcount := rows_of_fit hy hs hfit
  have hrows : int32 (isum + 1) = isum + 1 := int32_of_isInt ⟨by omega, by omega⟩
  have hempty : RowsWithin c iyears 1 ⟨[], emptyPurses, 0⟩ := by
    rw [RowsWithin, sub_self, zero_mul, zero_mul, zero_mul]
    exact emptyPurses_within 0 (le_refl 0) (le_refl 0)
  obtain ⟨hrun, htotals⟩ := intRange_foldlM (RowsWithin c iyears) (by omega : 1 ≤ isum + 1) hempty
    fun i t hlow hhigh ht => rowStepChecked_eq hc hy hs hfit hlow hhigh ht
  rw [mul_assoc] at hfit
  rw [RowsWithin, add_sub_cancel_right] at htotals
  have hsum := blockPurseChecked_eq hc htotals (by rw [hcoin]; omega)
  simp only [rewardStatisticsChecked, rewardStatistics, hrows, hrun, hsum, Option.bind_eq_bind,
    Option.bind_some]

end

theorem sampleChain_limited : sampleChain.Limited := by
  constructor
  · rfl
  all_goals
    intro h
    simp [sampleChain]

theorem rewardStatisticsChecked_eq_sample :
    rewardStatisticsChecked int32 sampleChain 4 5 =
      some (rewardStatistics int32 sampleChain 4 5) :=
  rewardStatisticsChecked_eq sampleChain_limited (by decide) (by decide) (by decide)

end CoinTool
