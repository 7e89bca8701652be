import CoinTool.Common.Reward.Columns
import CoinTool.Common.Utils.Startup

/-!
# `rewardexample`

The command merges a file into the maps that the tool was started with, shows a line for each
configured height, and adds the reports of four single years and of five times four years.
-/

namespace CoinTool

open Framework

def rewardExampleHelp : List Str :=
  ["Command \"rewardexample\" example :\n\nrewardexample filename\n\n".toList]

/-- How the command ends; an exception of the load ends the program. -/
inductive RewardExampleResult where
  | message (printed : List Str)
  | exception
  | tables (lines : List RewardLine) (yearly fourYearly : Report)

def rewardExample (c : Chain) (fs : FileSystem) (argv : List Str) (settings : Settings) :
    RewardExampleResult × Settings :=
  if argv.length < cmdindex + 2 then (.message rewardExampleHelp, settings)
  else
    let strfile := argv.getD (cmdindex + 1) []
    match readCurrentFile fs settings strfile with
    | (.ok, settings) =>
        let (lines, yearly, fourYearly) := rewardHandle c settings
        (.tables lines yearly fourYearly, settings)
    | (.failed message, settings) =>
        (.message [showerror message, "read file ".toList ++ strfile ++ " failed\n".toList],
          settings)
    | (.exception, settings) => (.exception, settings)

variable {c : Chain}

theorem report_rows {iyears isum : Int} (hy : 0 < iyears) (hs : 0 < isum)
    (hfit : isum * 210240 * iyears < 2 ^ 31) :
    (rewardStatistics int32 c iyears isum).rows =
      (Int.range 1 (isum + 1)).map (rowOf unbounded c iyears) := by
  rw [rewardStatistics_int32 c hy hs hfit, rewardStatistics_rows]
  rfl

theorem fourYearly_first :
    ∃ row rest, (rewardStatistics int32 c 4 5).rows = row :: rest ∧ row.iHl = 0 ∧
      row.iHh = 4 * 210240 := by
  have hrange : Int.range 1 (5 + 1) = 1 :: Int.range 2 6 := by decide
  have hrows := @report_rows c 4 5 (by decide) (by decide) (by decide)
  rw [hrange, List.map_cons] at hrows
  obtain ⟨hlow, hhigh⟩ := unbounded_row c 4 1
  exact ⟨_, _, hrows, hlow, hhigh⟩

theorem yearly_total (hc : c.NonNegative) {row : Row} {rest : List Row}
    (hrows : (rewardStatistics int32 c 4 5).rows = row :: rest) :
    row.aBlocks.coin = (rewardStatistics int32 c 1 4).aSumbk.coin := by
  obtain ⟨first, others, hfirst, hlow, hhigh⟩ := @fourYearly_first c
  have hsame : first = row := List.head_eq_of_cons_eq (hfirst.symm.trans hrows)
  have hmem : row ∈ (rewardStatistics unbounded c 4 5).rows := by
    rw [← rewardStatistics_int32 c (by decide) (by decide) (by decide), hrows]
    exact List.mem_cons_self
  rw [row_coin hc hmem, ← hsame, hlow, hhigh,
    rewardStatistics_int32 c (by decide) (by decide) (by decide),
    total_coin hc (by decide) (by decide)]
  rfl

theorem rewardExample_of_file {fs : FileSystem} {argv : List Str} {strfile : Str}
    {file : ConfigFile} (settings : Settings) (hargv : argv[cmdindex + 1]? = some strfile)
    (hfile : fs.stream strfile = some file) (hwell : file.malformed = false) :
    rewardExample c fs argv settings =
      (.tables (rewardHandle c (file.entries.foldl loadEntry settings)).1
        (rewardStatistics int32 c 1 4) (rewardStatistics int32 c 4 5),
        file.entries.foldl loadEntry settings) := by
  have hlength := (List.getElem?_eq_some_iff.mp hargv).1
  have hargs : ¬ argv.length < cmdindex + 2 := by omega
  have hname : argv.getD (cmdindex + 1) [] = strfile := by
    rw [List.getD_eq_getElem?_getD, hargv, Option.getD_some]
  rw [rewardExample, if_neg hargs, hname]
  simp only [readCurrentFile_ok settings hfile hwell]
  rfl

/-- With a file that opens and has no malformed line, the command shows a line for every `height` of
`tool.conf` and then of the file.  For payments that are not negative, the total of its first report
is what the first row of its second report shows for the same heights. -/
theorem rewardExample_tables (c : Chain) (hc : c.NonNegative)
    (readConfigFile : Settings → Settings) (conf : List (Str × Str))
    (hconf : ReadsConfig readConfigFile conf) (fs : FileSystem) (argv : List Str) (strfile : Str)
    (file : ConfigFile) (hargv : argv[cmdindex + 1]? = some strfile)
    (hfile : fs.stream strfile = some file) (hwell : file.malformed = false) :
    ∃ lines yearly fourYearly settings,
      rewardExample c fs argv (startSettings fs.home readConfigFile) =
        (.tables lines yearly fourYearly, settings) ∧
      lines = (valuesOf "-height".toList (conf ++ file.entries.map settingOf)).map (fun str =>
        rewardHandleLine c (atoi str)) ∧
      yearly.rows.length = 4 ∧ fourYearly.rows.length = 5 ∧
      ∃ row rest, fourYearly.rows = row :: rest ∧ row.iHl = 0 ∧ row.iHh = 4 * 210240 ∧
        row.aBlocks.coin = yearly.aSumbk.coin ∧
        yearly.aSumbk.coin = blockSum c 0 (4 * 210240) / c.COIN := by
  have hlines := rewardHandle_lines (startSettings_merged hconf fs.home file.entries) c
  have hyearly := @report_rows c 1 4 (by decide) (by decide) (by decide)
  have hfourYearly := @report_rows c 4 5 (by decide) (by decide) (by decide)
  obtain ⟨row, rest, hrows, hlow, hhigh⟩ := @fourYearly_first c
  refine ⟨_, _, _, _, rewardExample_of_file _ hargv hfile hwell, hlines, ?_, ?_, row, rest, hrows,
    hlow, hhigh, yearly_total hc hrows, ?_⟩
  · rw [hyearly, List.length_map, intRange_length]
    rfl
  · rw [hfourYearly, List.length_map, intRange_length]
    rfl
  · rw [rewardStatistics_int32 c (by decide) (by decide) (by decide),
      total_coin hc (by decide) (by decide)]
    rfl

def heightFiles : FileSystem :=
  ⟨none, fun path =>
    if path = "reward.conf".toList then some ⟨[("height".toList, "60".toList)], false⟩ else none⟩

theorem rewardExample_tables_sample :
    ∃ yearly fourYearly settings,
      rewardExample sampleChain heightFiles
          ["cointool".toList, "rewardexample".toList, "reward.conf".toList]
          (startSettings none (loadConf [("height".toList, "50".toList)])) =
        (.tables [rewardHandleLine sampleChain 50, rewardHandleLine sampleChain 60] yearly
          fourYearly, settings) := by
  obtain ⟨lines, yearly, fourYearly, settings, hrun, hlines, -⟩ :=
    rewardExample_tables sampleChain sampleChain_nonNegative
      (loadConf [("height".toList, "50".toList)]) _ (loadConf_reads _) heightFiles
      ["cointool".toList, "rewardexample".toList, "reward.conf".toList] _ _ rfl rfl rfl
  refine ⟨yearly, fourYearly, settings, ?_⟩
  rw [hlines] at hrun
  exact hrun

end CoinTool
