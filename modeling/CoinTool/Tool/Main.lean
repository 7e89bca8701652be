import Mathlib.Data.Char
import Mathlib.Data.List.Nodup
import CoinTool.Framework.OrderedMap
import CoinTool.Common.Utils.Text

/-!
# The commands of the tool

`main` looks its first argument up in the map that `RegisterCmd` fills, and runs the function found
there on all arguments.
-/

namespace CoinTool

open Framework

inductive FpCmd where
  | showCmds
  | signMsg
  | signVerify
  | compactSignHandle
  | compactVerifyHandle
  | newAddress
  | sendAlertHandle
  | getTimeHandle
  | blockReward
  | rewardStatisticsHandle
  | rewardExample
  | genesisLookFor
  | findAddress
  | privKey
  | showVersion
  | getTust
  | getRPCAuthorization
  | getMemPoolInfo
  deriving DecidableEq, Repr

/-- The insertions of `RegisterCmd`. -/
def commandTable : List (Str × FpCmd) :=
  [("help".toList, .showCmds),
    ("signmsg".toList, .signMsg),
    ("verifymsg".toList, .signVerify),
    ("compactsign".toList, .compactSignHandle),
    ("compactverify".toList, .compactVerifyHandle),
    ("newaddress".toList, .newAddress),
    ("sendalert".toList, .sendAlertHandle),
    ("gettime".toList, .getTimeHandle),
    ("blockreward".toList, .blockReward),
    ("rewardstatistics".toList, .rewardStatisticsHandle),
    ("rewardexample".toList, .rewardExample),
    ("genesis".toList, .genesisLookFor),
    ("findaddress".toList, .findAddress),
    ("privkey".toList, .privKey),
    ("version".toList, .showVersion),
    ("getdust".toList, .getTust),
    ("getrpc".toList, .getRPCAuthorization),
    ("getmempoolinfo".toList, .getMemPoolInfo)]

def registerCmd (mapCommand : OrderedMap Str FpCmd) : OrderedMap Str FpCmd :=
  mapCommand.insertAll commandTable

def showCmds (mapCommand : OrderedMap Str FpCmd) : List Str :=
  "********* commands *********".toList ::
    (mapCommand.keys ++ ["********* commands *********".toList])

/-- What `main` does after its preparations, and what it returns. -/
inductive MainResult where
  | listed (lines : List Str) (status : Int)
  | ran (command : FpCmd) (argv : List Str) (status : Int)
  | unknown (message : Str) (status : Int)
  deriving DecidableEq, Repr

def mainTool (argv : List Str) : MainResult :=
  let mapCommand := registerCmd .empty
  if argv.length < 2 then .listed (showCmds mapCommand) (-1)
  else
    let strcmd := argv.getD cmdindex []
    match mapCommand.find strcmd with
    | some command => .ran command argv 0
    | none => .unknown ("Error: unknown method ".toList ++ strcmd) 0

theorem commandTable_names : (commandTable.map Prod.fst).Nodup := by decide

theorem commandTable_commands : (commandTable.map Prod.snd).Nodup := by decide

theorem registerCmd_find (name : Str) (command : FpCmd) :
    (registerCmd .empty).find name = some command ↔ (name, command) ∈ commandTable :=
  OrderedMap.find_empty_insertAll commandTable_names name command

theorem registerCmd_keys (name : Str) :
    name ∈ (registerCmd .empty).keys ↔ ∃ command, (name, command) ∈ commandTable := by
  rw [OrderedMap.mem_keys_iff]
  exact exists_congr fun command => registerCmd_find name command

theorem mainTool_ran {argv : List Str} (hargs : ¬ argv.length < 2) {command : FpCmd}
    (hfind : (registerCmd .empty).find (argv.getD cmdindex []) = some command) :
    mainTool argv = .ran command argv 0 := by
  simp only [mainTool, if_neg hargs, hfind]

theorem mainTool_unknown {argv : List Str} (hargs : ¬ argv.length < 2)
    (hfind : (registerCmd .empty).find (argv.getD cmdindex []) = none) :
    mainTool argv = .unknown ("Error: unknown method ".toList ++ argv.getD cmdindex []) 0 := by
  simp only [mainTool, if_neg hargs, hfind]

theorem mainTool_ran_iff (argv : List Str) (command : FpCmd) :
    (∃ status, mainTool argv = .ran command argv status) ↔
      2 ≤ argv.length ∧ (argv.getD cmdindex [], command) ∈ commandTable := by
  rw [← registerCmd_find]
  by_cases hargs : argv.length < 2
  · have hlisted : mainTool argv = .listed (showCmds (registerCmd .empty)) (-1) := by
      rw [mainTool, if_pos hargs]
    simp [hlisted, Nat.not_le.mpr hargs]
  · cases hfind : (registerCmd .empty).find (argv.getD cmdindex []) with
    | none => simp [mainTool_unknown hargs hfind]
    | some found =>
        rw [mainTool_ran hargs hfind, Option.some.injEq]
        constructor
        · rintro ⟨status, hran⟩
          injection hran with hfound
          exact ⟨Nat.le_of_not_lt hargs, hfound⟩
        · rintro ⟨-, rfl⟩
          exact ⟨0, rfl⟩

/-- The names listed without arguments are in strictly ascending order, and they are exactly the
first arguments with which `main` runs a command; with any other it prints an error and returns
zero.  Different names run different commands. -/
theorem mainTool_lists_what_it_runs :
    (∃ names : List Str,
      (∀ argv, argv.length < 2 → mainTool argv =
        .listed ("********* commands *********".toList ::
          (names ++ ["********* commands *********".toList])) (-1)) ∧
      names.Pairwise (· < ·) ∧
      ∀ tool name arguments,
        (name ∈ names ↔ ∃ command status, mainTool (tool :: name :: arguments) =
          .ran command (tool :: name :: arguments) status) ∧
        (name ∉ names → mainTool (tool :: name :: arguments) =
          .unknown ("Error: unknown method ".toList ++ name) 0)) ∧
    ∀ argv argv' command status status', mainTool argv = .ran command argv status →
      mainTool argv' = .ran command argv' status' →
        argv.getD cmdindex [] = argv'.getD cmdindex [] := by
  refine ⟨⟨(registerCmd .empty).keys, ?_, OrderedMap.keys_sorted _, ?_⟩, ?_⟩
  · intro argv hargs
    rw [mainTool, if_pos hargs]
    rfl
  · intro tool name arguments
    constructor
    · rw [registerCmd_keys]
      apply exists_congr
      intro command
      rw [mainTool_ran_iff]
      simp [cmdindex]
    · intro hname
      have hnone : (registerCmd .empty).find name = none := by
        rw [OrderedMap.mem_keys_iff] at hname
        push Not at hname
        exact Option.eq_none_iff_forall_ne_some.mpr hname
      exact mainTool_unknown (by simp) hnone
  · intro argv argv' command status status' hran hran'
    have hmem := ((mainTool_ran_iff argv command).mp ⟨status, hran⟩).2
    have hmem' := ((mainTool_ran_iff argv' command).mp ⟨status', hran'⟩).2
    exact congrArg Prod.fst (List.inj_on_of_nodup_map commandTable_commands hmem hmem' rfl)

end CoinTool
