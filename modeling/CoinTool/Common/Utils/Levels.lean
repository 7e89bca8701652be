import Mathlib.Data.Finset.Insert
import CoinTool.Common.Utils.Config

/-!
# Log levels

`InitSys` fills the two level sets from the configuration, and `ToolLog` routes a message by them.
The collecting loops run over all values of the option but insert the first one every time.
-/

namespace CoinTool

open Framework

inductive Network where
  | main
  | testnet
  deriving DecidableEq, Repr

structure SysState where
  network : Network
  sDebuglist : Finset Int
  sLoglist : Finset Int

/-- One collecting loop: its variable `str` is not used in its body. -/
def collectLevels (s : Settings) (option : Str) (levels : Finset Int) : Finset Int :=
  if s.mapArgs.count option then
    (s.mapMultiArgs.lookup option).foldl
      (fun levels _str => insert (atoi (s.mapArgs.lookup option)) levels) levels
  else levels

/-- `getBoolArg` is the chain library's reading of a boolean option. -/
def initSys (getBoolArg : KeyMap Str Str → Str → Bool → Bool) (s : Settings) (sys : SysState) :
    SysState :=
  { network := if getBoolArg s.mapArgs "-testnet".toList false then .testnet else .main
    sDebuglist := collectLevels s "-debug".toList sys.sDebuglist
    sLoglist := collectLevels s "-log".toList sys.sLoglist }

inductive LogCall where
  | printStr (str : Str)
  | writeStr (str : Str)
  deriving DecidableEq, Repr

/-- `buf` is the text that `vsprintf` left in the buffer. -/
def toolLog (sys : SysState) (debug : Int) (buf : Str) : Option LogCall :=
  if 0 = debug then some (.printStr buf)
  else if debug ∈ sys.sDebuglist then some (.printStr buf)
  else if debug ∈ sys.sLoglist then some (.writeStr buf)
  else none

theorem toolLog_printStr_iff (sys : SysState) (debug : Int) (buf : Str) :
    toolLog sys debug buf = some (.printStr buf) ↔ debug = 0 ∨ debug ∈ sys.sDebuglist := by
  by_cases h0 : debug = 0
  · simp [toolLog, h0]
  · by_cases hd : debug ∈ sys.sDebuglist
    · simp [toolLog, Ne.symm h0, hd]
    · by_cases hl : debug ∈ sys.sLoglist <;> simp [toolLog, h0, Ne.symm h0, hd, hl]

theorem toolLog_writeStr_iff (sys : SysState) (debug : Int) (buf : Str)
    (h : ¬ (debug = 0 ∨ debug ∈ sys.sDebuglist)) :
    toolLog sys debug buf = some (.writeStr buf) ↔ debug ∈ sys.sLoglist := by
  simp only [not_or] at h
  by_cases hl : debug ∈ sys.sLoglist <;> simp [toolLog, Ne.symm h.1, h.2, hl]

theorem mem_collectLevels {preset : KeyMap Str Str} {history : List (Str × Str)} {s : Settings}
    (hm : Merged preset history s) {option : Str} (hp : preset option = none) (d : Int) :
    d ∈ collectLevels s option ∅ ↔ ∃ v, (valuesOf option history).head? = some v ∧ atoi v = d := by
  have hinsert (level : Int) (values : List Str) (levels : Finset Int) :
      d ∈ values.foldl (fun levels _ => insert level levels) levels ↔
        d ∈ levels ∨ (values ≠ [] ∧ d = level) := by
    induction values generalizing levels with
    | nil => simp
    | cons v values ih =>
        rw [List.foldl_cons, ih, Finset.mem_insert]
        simp only [ne_eq, reduceCtorEq, not_false_eq_true, true_and]
        tauto
  have hargs := hm.fresh hp
  have hmulti := hm.multi option
  rw [hmulti] at hargs
  cases hv : valuesOf option history with
  | nil =>
      rw [hv] at hargs
      simp [collectLevels, KeyMap.count, hargs]
  | cons v values =>
      rw [hv] at hargs hmulti
      simp only [List.head?_cons] at hargs
      have hlookup : s.mapArgs.lookup option = v := by simp [KeyMap.lookup, hargs]
      simp only [collectLevels, KeyMap.count, hargs, Option.isSome_some, if_true, hmulti, hlookup,
        hinsert]
      simp [eq_comm]

theorem head_collects_iff (f : Str → Int) (values : List Str) :
    (∀ d, (∃ v, values.head? = some v ∧ f v = d) ↔ ∃ v ∈ values, f v = d) ↔
      ∀ v ∈ values, ∀ v' ∈ values, f v = f v' := by
  cases values with
  | nil => simp
  | cons first rest =>
      simp only [List.head?_cons, Option.some.injEq, exists_eq_left']
      constructor
      · intro h v hv v' hv'
        rw [← (h (f v)).mpr ⟨v, hv, rfl⟩, ← (h (f v')).mpr ⟨v', hv', rfl⟩]
      · intro h d
        constructor
        · intro hd
          exact ⟨first, List.mem_cons_self, hd⟩
        · intro hmem
          rcases hmem with ⟨v, hv, rfl⟩
          exact h first List.mem_cons_self v hv

/-- The maps after a `SetFilePath` and a `ReadFile` of a file with these entries. -/
def configured (home : Option Str) (filename : Str) (entries : List (Str × Str)) : Settings :=
  entries.foldl loadEntry (setFilePath home filename Settings.empty)

def CollectsLevels (debug log : List Str) (sys : SysState) : Prop :=
  (∀ d, d ∈ sys.sDebuglist ↔ ∃ v ∈ debug, atoi v = d) ∧
  (∀ d, d ∈ sys.sLoglist ↔ ∃ v ∈ log, atoi v = d) ∧
  (∀ d buf,
    (toolLog sys d buf = some (.printStr buf) ↔ d = 0 ∨ ∃ v ∈ debug, atoi v = d) ∧
    (¬ (d = 0 ∨ ∃ v ∈ debug, atoi v = d) →
      (toolLog sys d buf = some (.writeStr buf) ↔ ∃ v ∈ log, atoi v = d)))

theorem collectsLevels_iff_sets (debug log : List Str) (sys : SysState) :
    CollectsLevels debug log sys ↔
      (∀ d, d ∈ sys.sDebuglist ↔ ∃ v ∈ debug, atoi v = d) ∧
      (∀ d, d ∈ sys.sLoglist ↔ ∃ v ∈ log, atoi v = d) := by
  constructor
  · intro hcollects
    rcases hcollects with ⟨hd, hl, _⟩
    exact ⟨hd, hl⟩
  · intro hsets
    rcases hsets with ⟨hd, hl⟩
    refine ⟨hd, hl, fun d buf => ⟨?_, fun hn => ?_⟩⟩
    · rw [toolLog_printStr_iff, hd]
    · rw [toolLog_writeStr_iff _ _ _ (by rwa [hd]), hl]

/-- `InitSys` collects the configured levels exactly when the `-debug` values all read as one
integer and the `-log` values do. -/
theorem initSys_collects_iff (getBoolArg : KeyMap Str Str → Str → Bool → Bool) (network : Network)
    (home : Option Str) (filename : Str) (entries : List (Str × Str)) :
    CollectsLevels (valuesOf "-debug".toList (entries.map settingOf))
        (valuesOf "-log".toList (entries.map settingOf))
        (initSys getBoolArg (configured home filename entries) ⟨network, ∅, ∅⟩) ↔
      (∀ v ∈ valuesOf "-debug".toList (entries.map settingOf),
        ∀ v' ∈ valuesOf "-debug".toList (entries.map settingOf), atoi v = atoi v') ∧
      (∀ v ∈ valuesOf "-log".toList (entries.map settingOf),
        ∀ v' ∈ valuesOf "-log".toList (entries.map settingOf), atoi v = atoi v') := by
  have hm := (setFilePath_merged home filename).loadEntries entries
  rw [List.nil_append] at hm
  have hdebug : (setFilePath home filename Settings.empty).mapArgs "-debug".toList = none := by
    rw [setFilePath_preset, if_neg (by decide), if_neg (by decide)]
  have hlog : (setFilePath home filename Settings.empty).mapArgs "-log".toList = none := by
    rw [setFilePath_preset, if_neg (by decide), if_neg (by decide)]
  rw [collectsLevels_iff_sets, ← head_collects_iff, ← head_collects_iff]
  simp only [initSys, configured, mem_collectLevels hm hdebug, mem_collectLevels hm hlog]

/-- Two `debug` lines: only the first level is collected. -/
theorem initSys_drops_second_level :
    ¬ ∀ (getBoolArg : KeyMap Str Str → Str → Bool → Bool) (network : Network)
        (home : Option Str) (filename : Str) (entries : List (Str × Str)),
      CollectsLevels (valuesOf "-debug".toList (entries.map settingOf))
        (valuesOf "-log".toList (entries.map settingOf))
        (initSys getBoolArg (configured home filename entries) ⟨network, ∅, ∅⟩) := by
  intro h
  have hlines := h (fun _ _ value => value) .main none "tool.conf".toList
    [("debug".toList, "1".toList), ("debug".toList, "2".toList)]
  have htwo := (hlines.1 2).mpr ⟨"2".toList, by decide, by decide⟩
  revert htwo
  decide

end CoinTool
