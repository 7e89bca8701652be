import Mathlib.Algebra.BigOperators.Ring.List
import CoinTool.Common.Reward.Totals

/-!
# The pair of coins and rest

`AddReward` carries when the rest is more than one coin, not when it is one coin.  A rest of exactly
one coin is left when the total comes to whole coins through amounts that are not whole.
-/

namespace CoinTool

def Purse.IsCanonical (c : Chain) (total : Int) (p : Purse) : Prop :=
  0 ≤ p.small ∧ p.small < c.COIN ∧ p.coin = total / c.COIN

def WholeCoins (c : Chain) (amounts : List Int) : Prop := ∀ value ∈ amounts, value % c.COIN = 0

theorem WholeCoins.sum {c : Chain} {amounts : List Int} (h : WholeCoins c amounts) :
    amounts.sum % c.COIN = 0 := by
  have hdvd : c.COIN ∣ amounts.sum := by
    apply List.dvd_sum
    intro value hmem
    exact Int.dvd_of_emod_eq_zero (h value hmem)
  exact Int.emod_eq_zero_of_dvd hdvd

theorem restOf_of_not_dvd {c : Chain} {amounts : List Int} (h : amounts.sum % c.COIN ≠ 0) :
    restOf c amounts = amounts.sum % c.COIN := by
  have hpos := c.coin_pos
  have hlow := Int.emod_nonneg amounts.sum hpos.ne'
  have hhigh := Int.emod_lt_of_pos amounts.sum hpos
  have hsome : ¬∀ value ∈ amounts, value % c.COIN = 0 := fun hwhole => h (WholeCoins.sum hwhole)
  rw [restOf, if_neg hsome]
  have hpred : (amounts.sum - 1) % c.COIN = amounts.sum % c.COIN - 1 := by
    rw [← Int.emod_sub_emod, Int.emod_eq_of_lt (by omega) (by omega)]
  omega

theorem restOf_of_dvd {c : Chain} {amounts : List Int} (h : amounts.sum % c.COIN = 0)
    (hsome : ¬WholeCoins c amounts) : restOf c amounts = c.COIN := by
  have hpos := c.coin_pos
  rw [WholeCoins] at hsome
  rw [restOf, if_neg hsome]
  have hpred : (amounts.sum - 1) % c.COIN = c.COIN - 1 := by
    rw [← Int.emod_sub_emod, h, ← Int.add_emod_right, Int.emod_eq_of_lt (by omega) (by omega)]
    omega
  omega

theorem addRewards_isCanonical_iff (c : Chain) (amounts : List Int)
    (hv : ∀ value ∈ amounts, 0 ≤ value) :
    (addRewards c ⟨0, 0⟩ amounts).IsCanonical c amounts.sum ↔
      (amounts.sum % c.COIN = 0 → WholeCoins c amounts) := by
  have hpos := c.coin_pos
  have hvalue := addRewards_value c ⟨0, 0⟩ amounts
  have hsmall := addRewards_small c amounts hv
  simp only [Purse.value, zero_mul, zero_add] at hvalue
  have hcoin : ∀ rest, restOf c amounts = rest → 0 ≤ rest → rest < c.COIN →
      (addRewards c ⟨0, 0⟩ amounts).IsCanonical c amounts.sum := by
    intro rest hrest hnonneg hlt
    refine ⟨by omega, by omega, ?_⟩
    rw [← hvalue, hsmall, hrest, add_comm, Int.add_mul_ediv_right _ _ hpos.ne',
      Int.ediv_eq_zero_of_lt hnonneg hlt, zero_add]
  constructor
  · intro hcanonical hdvd
    by_contra hsome
    have hfull := hcanonical.2.1
    rw [hsmall, restOf_of_dvd hdvd hsome] at hfull
    exact lt_irrefl _ hfull
  · intro hwhole
    by_cases hdvd : amounts.sum % c.COIN = 0
    · exact hcoin 0 (if_pos (hwhole hdvd)) (le_refl 0) hpos
    · exact hcoin _ (restOf_of_not_dvd hdvd) (Int.emod_nonneg _ hpos.ne')
        (Int.emod_lt_of_pos _ hpos)

theorem addRewards_eq_iff (c : Chain) (amounts amounts' : List Int)
    (hv : ∀ value ∈ amounts, 0 ≤ value) (hv' : ∀ value ∈ amounts', 0 ≤ value)
    (hsum : amounts.sum = amounts'.sum) :
    addRewards c ⟨0, 0⟩ amounts = addRewards c ⟨0, 0⟩ amounts' ↔
      (amounts.sum % c.COIN = 0 → (WholeCoins c amounts ↔ WholeCoins c amounts')) := by
  have hpos := c.coin_pos
  have hcarried := carried_addRewards c amounts hv
  have hcarried' := carried_addRewards c amounts' hv'
  have hvalue := addRewards_value c ⟨0, 0⟩ amounts
  have hvalue' := addRewards_value c ⟨0, 0⟩ amounts'
  rw [← hsum, ← hvalue] at hvalue'
  constructor
  · intro heq _
    have hzero := hcarried.zero
    rw [heq, hcarried'.zero] at hzero
    exact hzero.symm
  · intro hagree
    have hsmall : (addRewards c ⟨0, 0⟩ amounts).small = (addRewards c ⟨0, 0⟩ amounts').small := by
      rw [addRewards_small c amounts hv, addRewards_small c amounts' hv']
      by_cases hdvd : amounts.sum % c.COIN = 0
      · by_cases hwhole : WholeCoins c amounts
        · have hwhole' := (hagree hdvd).mp hwhole
          exact (if_pos hwhole).trans (if_pos hwhole').symm
        · have hsome' : ¬WholeCoins c amounts' := fun h => hwhole ((hagree hdvd).mpr h)
          rw [restOf_of_dvd hdvd hwhole, restOf_of_dvd (hsum ▸ hdvd) hsome']
      · rw [restOf_of_not_dvd hdvd, restOf_of_not_dvd (hsum ▸ hdvd), hsum]
    have hcoin : (addRewards c ⟨0, 0⟩ amounts).coin = (addRewards c ⟨0, 0⟩ amounts').coin := by
      simp only [Purse.value, hsmall] at hvalue'
      exact (mul_right_cancel₀ hpos.ne' (add_right_cancel hvalue')).symm
    exact congrArg₂ Purse.mk hcoin hsmall

/-- After every call the pair is that of the total exactly when no total of whole coins is reached
through amounts that are not whole; and two sequences with the same total leave the same pair
exactly when that total is not whole, or both sequences are of whole coins or neither is. -/
theorem addRewards_canonical_iff (c : Chain) (amounts : List Int)
    (hv : ∀ value ∈ amounts, 0 ≤ value) :
    ((∀ calls, calls <+: amounts → (addRewards c ⟨0, 0⟩ calls).IsCanonical c calls.sum) ↔
      ∀ calls, calls <+: amounts → calls.sum % c.COIN = 0 → WholeCoins c calls) ∧
    ∀ amounts' : List Int, (∀ value ∈ amounts', 0 ≤ value) → amounts.sum = amounts'.sum →
      (addRewards c ⟨0, 0⟩ amounts = addRewards c ⟨0, 0⟩ amounts' ↔
        (amounts.sum % c.COIN = 0 → (WholeCoins c amounts ↔ WholeCoins c amounts'))) := by
  constructor
  · apply forall₂_congr
    intro calls hcalls
    exact addRewards_isCanonical_iff c calls fun value hmem => hv value (hcalls.subset hmem)
  · intro amounts' hv' hsum
    exact addRewards_eq_iff c amounts amounts' hv hv' hsum

theorem addRewards_canonical_iff_sample :
    (∀ calls, calls <+: [70000000, 50000000] →
      (addRewards sampleChain ⟨0, 0⟩ calls).IsCanonical sampleChain calls.sum) ↔
      ∀ calls, calls <+: [70000000, 50000000] → calls.sum % sampleChain.COIN = 0 →
        WholeCoins sampleChain calls :=
  (addRewards_canonical_iff sampleChain [70000000, 50000000] (by decide)).1

/-- Two amounts that make one coin together are left as a rest of one coin. -/
theorem addRewards_not_canonical :
    ¬ ∀ (c : Chain) (amounts : List Int), (∀ value ∈ amounts, 0 ≤ value) →
      (∀ calls, calls <+: amounts → (addRewards c ⟨0, 0⟩ calls).IsCanonical c calls.sum) ∧
      ∀ amounts' : List Int, (∀ value ∈ amounts', 0 ≤ value) → amounts.sum = amounts'.sum →
        addRewards c ⟨0, 0⟩ amounts = addRewards c ⟨0, 0⟩ amounts' := by
  intro h
  have hfull := (h sampleChain [99999999, 1] (by decide)).1 [99999999, 1] (List.prefix_refl _)
  exact absurd hfull.2.1 (by decide)

end CoinTool
