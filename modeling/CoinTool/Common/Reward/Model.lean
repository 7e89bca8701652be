import CoinTool.Framework.ForLoop
import CoinTool.Common.Utils.Config

/-!
# The reward commands

`rewardstatistics` adds up the payments of ranges of heights in pairs of whole coins and a sub-coin
rest, `blockreward` shows the payments of one height, and `rewardexample` shows both from a file.
A `CAmount` is an integer; the height arithmetic of the report is a parameter, so that it can be read
over unbounded integers or over the 32-bit `int` of the code.
-/

namespace CoinTool

open Framework

/-- What the commands take from the chain they are built with: the size of a coin, the consensus
parameters, and the payments of a height. -/
structure Chain where
  COIN : Int
  coin_pos : 0 < COIN
  nMasternodePaymentsStartBlock : Int
  getMinerSubsidy : Int → Int
  getMasternodePayment : Int → Int
  getFoundersReward : Int → Int
  getBudget : Int → Int
  getBlockSubsidy : Int → Int
  isSuperblockTriggered : Int → Bool

inductive Category where
  | miner
  | budget
  | masternode
  | founders
  deriving DecidableEq, Repr

structure Columns (α : Type) where
  miner : α
  budget : α
  masternode : α
  founders : α
  deriving DecidableEq, Repr

namespace Columns

variable {α : Type}

def get (x : Columns α) : Category → α
  | .miner => x.miner
  | .budget => x.budget
  | .masternode => x.masternode
  | .founders => x.founders

def modify (x : Columns α) (k : Category) (f : α → α) : Columns α :=
  match k with
  | .miner => { x with miner := f x.miner }
  | .budget => { x with budget := f x.budget }
  | .masternode => { x with masternode := f x.masternode }
  | .founders => { x with founders := f x.founders }

@[simp] theorem get_modify (x : Columns α) (k k' : Category) (f : α → α) :
    (x.modify k f).get k' = if k' = k then f (x.get k) else x.get k' := by
  cases k <;> cases k' <;> rfl

def total (x : Columns Int) : Int := x.budget + x.founders + x.miner + x.masternode

end Columns

structure Purse where
  coin : Int
  small : Int
  deriving DecidableEq, Repr

def addReward (c : Chain) (value : Int) (p : Purse) : Purse :=
  let coin := p.coin + value.tdiv c.COIN
  let small := p.small + value.tmod c.COIN
  if small > c.COIN then ⟨coin + small.tdiv c.COIN, small.tmod c.COIN⟩
  else ⟨coin, small⟩

/-- The body of the height loop, on the purses `aMiner`, `aBud`, `aMnode` and `aFounders`. -/
def heightStep (c : Chain) (row : Columns Purse) (h : Int) : Columns Purse :=
  let row :=
    if 1 = h then row.modify .founders (addReward c (c.getMinerSubsidy h))
    else row.modify .miner (addReward c (c.getMinerSubsidy h))
  let row := row.modify .masternode (addReward c (c.getMasternodePayment h))
  if c.isSuperblockTriggered h then
    let row := row.modify .founders (addReward c (c.getFoundersReward h))
    if h ≥ c.nMasternodePaymentsStartBlock then
      row.modify .budget (addReward c (c.getBudget h))
    else row
  else row

def emptyPurses : Columns Purse := ⟨⟨0, 0⟩, ⟨0, 0⟩, ⟨0, 0⟩, ⟨0, 0⟩⟩

def heightLoop (c : Chain) (iHl iHh : Int) : Columns Purse :=
  (Int.range iHl iHh).foldl (heightStep c) emptyPurses

structure Row where
  i : Int
  iHl : Int
  iHh : Int
  purses : Columns Purse
  aBlocks : Purse

structure Totals where
  rows : List Row
  sums : Columns Purse
  lasth : Int

/-- The whole coins of four purses, and their uncarried rests through `AddReward`. -/
def blockPurse (c : Chain) (x : Columns Purse) : Purse :=
  addReward c (x.miner.small + x.budget.small + x.masternode.small + x.founders.small)
    ⟨x.miner.coin + x.budget.coin + x.masternode.coin + x.founders.coin, 0⟩

/-- The sums of a row are added to the totals without a carry. -/
def addPurses (x y : Columns Purse) : Columns Purse :=
  let add (p q : Purse) : Purse := ⟨p.coin + q.coin, p.small + q.small⟩
  ⟨add x.miner y.miner, add x.budget y.budget, add x.masternode y.masternode,
    add x.founders y.founders⟩

/-- The body of the row loop; `wrap` is what an `int` makes of a result. -/
def rowStep (wrap : Int → Int) (c : Chain) (iyears : Int) (t : Totals) (i : Int) : Totals :=
  let iHl := wrap (wrap (wrap (i - 1) * 210240) * iyears)
  let iHh := wrap (wrap (i * 210240) * iyears)
  let purses := heightLoop c iHl iHh
  { rows := t.rows ++ [⟨i, iHl, iHh, purses, blockPurse c purses⟩]
    sums := addPurses t.sums purses
    lasth := wrap (iHh - 1) }

/-- What the report shows: its rows, the totals of the categories, the grand total with its rest
`asbksmall`, and the last height. -/
structure Report where
  iyears : Int
  rank : Str
  rows : List Row
  sums : Columns Purse
  aSumbk : Purse
  lasth : Int

def rewardStatistics (wrap : Int → Int) (c : Chain) (iyears isum : Int) : Report :=
  let t := (Int.range 1 (wrap (isum + 1))).foldl (rowStep wrap c iyears) ⟨[], emptyPurses, 0⟩
  { iyears, rank := getRankString isum, rows := t.rows, sums := t.sums
    aSumbk := blockPurse c t.sums, lasth := t.lasth }

abbrev unbounded : Int → Int := id

def rewardStatisticsHandle (c : Chain) (argv : List Str) : Option Report :=
  if argv.length < cmdindex + 3 then none
  else some (rewardStatistics int32 c (atoi (argv.getD (cmdindex + 1) []))
    (atoi (argv.getD (cmdindex + 2) [])))

def blockAmounts (c : Chain) (h : Int) : Columns Int :=
  let gated := c.isSuperblockTriggered h
  { miner := c.getMinerSubsidy h
    budget := if gated then
        if h ≥ c.nMasternodePaymentsStartBlock then c.getBudget h else 0
      else 0
    masternode := c.getMasternodePayment h
    founders := if gated then c.getFoundersReward h else 0 }

structure RewardLine where
  height : Int
  columns : Columns Int
  blockSubsidy : Int
  deriving DecidableEq, Repr

def blockRewardLine (c : Chain) (h : Int) : RewardLine :=
  let amounts := blockAmounts c h
  { height := h
    columns := ⟨amounts.miner.tdiv c.COIN, amounts.budget.tdiv c.COIN,
      amounts.masternode.tdiv c.COIN, amounts.founders.tdiv c.COIN⟩
    blockSubsidy := amounts.total.tdiv c.COIN }

def blockReward (c : Chain) (argv : List Str) : Option RewardLine :=
  if argv.length < cmdindex + 2 then none
  else some (blockRewardLine c (atoi (argv.getD (cmdindex + 1) [])))

def rewardHandleLine (c : Chain) (h : Int) : RewardLine :=
  let isSuper := c.isSuperblockTriggered h
  { height := h
    columns := ⟨(c.getMinerSubsidy h).tdiv c.COIN,
      if isSuper then (c.getBudget h).tdiv c.COIN else 0,
      (c.getMasternodePayment h).tdiv c.COIN,
      if isSuper then (c.getFoundersReward h).tdiv c.COIN else 0⟩
    blockSubsidy := (c.getBlockSubsidy h).tdiv c.COIN }

def rewardHandle (c : Chain) (s : Settings) : List RewardLine × Report × Report :=
  ((s.visited "-height".toList).map fun str => rewardHandleLine c (atoi str),
    rewardStatistics int32 c 1 4, rewardStatistics int32 c 4 5)

end CoinTool
