import CoinTool.Common.Reward.Conservation

/-!
# The calls of a report

`rewardstatistics` again, with every call of a reward function recorded under the height that it is
passed.  The recorded functions have the bodies of the plain ones and get a payment from a recorded
call only.
-/

namespace CoinTool

open Framework

inductive RewardFn where
  | getMinerSubsidy
  | getMasternodePayment
  | getFoundersReward
  | getBudget
  deriving DecidableEq, Repr

abbrev Recorded := StateM (List (RewardFn × Int))

def Chain.payment (c : Chain) : RewardFn → Int → Int
  | .getMinerSubsidy => c.getMinerSubsidy
  | .getMasternodePayment => c.getMasternodePayment
  | .getFoundersReward => c.getFoundersReward
  | .getBudget => c.getBudget

def Chain.call (c : Chain) (fn : RewardFn) (h : Int) : Recorded Int := do
  modify fun calls => calls ++ [(fn, h)]
  return c.payment fn h

def heightStepRecorded (c : Chain) (row : Columns Purse) (h : Int) : Recorded (Columns Purse) := do
  let subsidy ← c.call .getMinerSubsidy h
  let row :=
    if 1 = h then row.modify .founders (addReward c subsidy)
    else row.modify .miner (addReward c subsidy)
  let payment ← c.call .getMasternodePayment h
  let row := row.modify .masternode (addReward c payment)
  if c.isSuperblockTriggered h then
    let reward ← c.call .getFoundersReward h
    let row := row.modify .founders (addReward c reward)
    if h ≥ c.nMasternodePaymentsStartBlock then
      let budget ← c.call .getBudget h
      return row.modify .budget (addReward c budget)
    else return row
  else return row

def heightLoopRecorded (c : Chain) (iHl iHh : Int) : Recorded (Columns Purse) :=
  (Int.range iHl iHh).foldlM (heightStepRecorded c) emptyPurses

def rowStepRecorded (wrap : Int → Int) (c : Chain) (iyears : Int) (t : Totals) (i : Int) :
    Recorded Totals := do
  let iHl := wrap (wrap (wrap (i - 1) * 210240) * iyears)
  let iHh := wrap (wrap (i * 210240) * iyears)
  let purses ← heightLoopRecorded c iHl iHh
  return { rows := t.rows ++ [⟨i, iHl, iHh, purses, blockPurse c purses⟩]
           sums := addPurses t.sums purses
           lasth := wrap (iHh - 1) }

def rewardStatisticsRecorded (wrap : Int → Int) (c : Chain) (iyears isum : Int) :
    Recorded Report := do
  let t ← (Int.range 1 (wrap (isum + 1))).foldlM (rowStepRecorded wrap c iyears)
    ⟨[], emptyPurses, 0⟩
  return { iyears, rank := getRankString isum, rows := t.rows, sums := t.sums
           aSumbk := blockPurse c t.sums, lasth := t.lasth }

def Chain.callsAt (c : Chain) (h : Int) : List (RewardFn × Int) :=
  [(.getMinerSubsidy, h), (.getMasternodePayment, h)] ++
    if c.isSuperblockTriggered h then
      (.getFoundersReward, h) ::
        if h ≥ c.nMasternodePaymentsStartBlock then [(.getBudget, h)] else []
    else []

theorem heightStepRecorded_run (c : Chain) (row : Columns Purse) (h : Int)
    (calls : List (RewardFn × Int)) :
    (heightStepRecorded c row h).run calls = (heightStep c row h, calls ++ c.callsAt h) := by
  rw [heightStepRecorded, heightStep, Chain.callsAt]
  cases hsuper : c.isSuperblockTriggered h with
  | false =>
      simp [Chain.call, Chain.payment]
      rfl
  | true =>
      by_cases hstart : h ≥ c.nMasternodePaymentsStartBlock
      · simp [Chain.call, Chain.payment, hstart]
        rfl
      · simp [Chain.call, Chain.payment, hstart]
        rfl

theorem heightLoopRecorded_run (c : Chain) (iHl iHh : Int) (calls : List (RewardFn × Int)) :
    (heightLoopRecorded c iHl iHh).run calls =
      (heightLoop c iHl iHh, calls ++ (Int.range iHl iHh).flatMap c.callsAt) :=
  foldlM_recorded (heightStepRecorded_run c) _ _ _

theorem rowStepRecorded_run (wrap : Int → Int) (c : Chain) (iyears : Int) (t : Totals) (i : Int)
    (calls : List (RewardFn × Int)) :
    (rowStepRecorded wrap c iyears t i).run calls =
      (rowStep wrap c iyears t i, calls ++ (Int.range (rowOf wrap c iyears i).iHl
        (rowOf wrap c iyears i).iHh).flatMap c.callsAt) := by
  rw [rowStepRecorded, StateT.run_bind, heightLoopRecorded_run]
  rfl

/-- The recorded report is the report, and its calls are those of the heights of its rows. -/
theorem rewardStatisticsRecorded_run (wrap : Int → Int) (c : Chain) (iyears isum : Int) :
    (rewardStatisticsRecorded wrap c iyears isum).run [] =
      (rewardStatistics wrap c iyears isum,
        ((Int.range 1 (wrap (isum + 1))).flatMap fun i => Int.range (rowOf wrap c iyears i).iHl
          (rowOf wrap c iyears i).iHh).flatMap c.callsAt) := by
  have hrows := foldlM_recorded (rowStepRecorded_run wrap c iyears)
    (Int.range 1 (wrap (isum + 1))) ⟨[], emptyPurses, 0⟩ []
  rw [List.nil_append, ← List.flatMap_assoc] at hrows
  rw [rewardStatisticsRecorded, StateT.run_bind, hrows]
  rfl

def Chain.calls (c : Chain) (fn : RewardFn) (h : Int) : Bool :=
  match fn with
  | .getMinerSubsidy => true
  | .getMasternodePayment => true
  | .getFoundersReward => c.isSuperblockTriggered h
  | .getBudget => c.isSuperblockTriggered h && decide (h ≥ c.nMasternodePaymentsStartBlock)

theorem valuesOf_callsAt (c : Chain) (fn : RewardFn) (h : Int) :
    valuesOf fn (c.callsAt h) = if c.calls fn h then [h] else [] := by
  rw [Chain.callsAt]
  cases hsuper : c.isSuperblockTriggered h with
  | false => cases fn <;> simp [Chain.calls, valuesOf, hsuper]
  | true =>
      by_cases hstart : h ≥ c.nMasternodePaymentsStartBlock
      · cases fn <;> simp [Chain.calls, valuesOf, hsuper, hstart]
      · cases fn <;> simp [Chain.calls, valuesOf, hsuper, hstart]

theorem valuesOf_flatMap_callsAt (c : Chain) (fn : RewardFn) (heights : List Int) :
    valuesOf fn (heights.flatMap c.callsAt) = heights.filter (c.calls fn) := by
  induction heights with
  | nil => rfl
  | cons h heights ih =>
      rw [List.flatMap_cons, valuesOf_append, ih, valuesOf_callsAt, List.filter_cons]
      cases c.calls fn h with
      | false => rfl
      | true => rfl

end CoinTool
