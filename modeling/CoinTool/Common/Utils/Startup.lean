import CoinTool.Common.Utils.Config

/-!
# The maps at the start of the tool

`main` points `-conf` to `tool.conf` and lets `ReadConfigFile` fill the maps from it.  That loader
belongs to the node's library, so it is a parameter here.
-/

namespace CoinTool

open Framework

/-- What is assumed of `ReadConfigFile` where `tool.conf` gives the settings `conf`, in its order: a
key that is stored keeps its value, another one gets the first of its settings, and all values are
appended. -/
structure ReadsConfig (readConfigFile : Settings → Settings) (conf : List (Str × Str)) : Prop where
  mapArgs : ∀ s k, (readConfigFile s).mapArgs k = (s.mapArgs k).or (valuesOf k conf).head?
  mapMultiArgs : ∀ s k, (readConfigFile s).mapMultiArgs.lookup k =
    s.mapMultiArgs.lookup k ++ valuesOf k conf

/-- The maps that `main` runs a command with. -/
def startSettings (home : Option Str) (readConfigFile : Settings → Settings) : Settings :=
  readConfigFile (setFilePath home "tool.conf".toList Settings.empty)

variable {readConfigFile : Settings → Settings} {conf : List (Str × Str)}

theorem startSettings_merged (h : ReadsConfig readConfigFile conf) (home : Option Str)
    (file : List (Str × Str)) :
    Merged (setFilePath home "tool.conf".toList Settings.empty).mapArgs (conf ++ file.map settingOf)
      (file.foldl loadEntry (startSettings home readConfigFile)) := by
  have hstart : Merged (setFilePath home "tool.conf".toList Settings.empty).mapArgs conf
      (startSettings home readConfigFile) := by
    constructor
    · intro k
      exact h.mapArgs _ k
    · intro k
      exact h.mapMultiArgs _ k
  exact hstart.loadEntries file

def presetOptions : List Str := ["-conf".toList, "-datadir".toList]

theorem setFilePath_presets_no_option (home : Option Str) (filename : Str) (option : Str)
    (h : option ∉ presetOptions) :
    (setFilePath home filename Settings.empty).mapArgs option = none := by
  have hconf : option ≠ "-conf".toList := fun he => h (by simp [presetOptions, he])
  have hdatadir : option ≠ "-datadir".toList := fun he => h (by simp [presetOptions, he])
  rw [setFilePath_preset, if_neg hconf, if_neg hdatadir]

/-- A loader that knows the entries of `tool.conf` and merges them as `ReadFile` does. -/
def loadConf (entries : List (Str × Str)) (s : Settings) : Settings := entries.foldl loadEntry s

theorem loadConf_reads (entries : List (Str × Str)) :
    ReadsConfig (loadConf entries) (entries.map settingOf) where
  mapArgs s k := by rw [loadConf, loadEntries_mapArgs, KeyMap.foldl_assignIfNew]
  mapMultiArgs s k := by rw [loadConf, loadEntries_mapMultiArgs, KeyMap.foldl_pushBack]

end CoinTool
