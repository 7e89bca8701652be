import CoinTool.Common.Alert.Release
import CoinTool.Common.Utils.Startup

/-!
# What an alert is filled from

The tool starts with the settings of `tool.conf`, and `sendalert` merges its file into the same
maps.  So an alert is filled from both, `tool.conf` first.
-/

namespace CoinTool

open Framework

variable {Secret Key PubKey Hash KeyID Addr : Type}
variable (env : AlertLib Secret Key PubKey Hash KeyID Addr)

/-- The first value of an option among these settings, read, or what stands for a missing one. -/
def firstOr {α : Type} (history : List (Str × Str)) (option : Str) (read : Str → α) (missing : α) :
    α :=
  ((valuesOf option history).head?.map read).getD missing

def alertOf (PROTOCOL_VERSION : Int) (history : List (Str × Str)) : Alert where
  nVersion := firstOr history "-version".toList atoi PROTOCOL_VERSION
  nRelayUntil := firstOr history "-relayuntil".toList strtol 4070908800
  nExpiration := firstOr history "-expiration".toList strtol 4070908800
  nID := firstOr history "-id".toList atoi 1
  nCancel := firstOr history "-cancel".toList atoi 0
  setCancel := ((valuesOf "-setcancel".toList history).map atoi).toFinset
  nMinVer := firstOr history "-minver".toList atoi 0
  nMaxVer := firstOr history "-maxver".toList atoi 0x7fffffff
  setSubVer := (valuesOf "-setsubver".toList history).toFinset
  nPriority := firstOr history "-priority".toList atoi 1
  strComment := firstOr history "-comment".toList id "TEST: alert test".toList
  strStatusBar := firstOr history "-statusbar".toList id
    "URGENT: Alert key compromised, upgrade required".toList

/-- The maps of a tool that has been started and has merged the file of an alert. -/
def alertConfigured (home : Option Str) (readConfigFile : Settings → Settings)
    (file : List (Str × Str)) : Settings :=
  file.foldl loadEntry (startSettings home readConfigFile)

/-- The settings of `tool.conf` and of the file. -/
def alertLines (conf file : List (Str × Str)) : List (Str × Str) := conf ++ file.map settingOf

section

variable {preset : KeyMap Str Str} {history : List (Str × Str)} {s : Settings}

theorem argOr_of_merged (hm : Merged preset history s) {α : Type} {option : Str}
    (h : preset option = none) (read : Str → α) (missing : α) :
    argOr s option read missing = firstOr history option read missing := by
  rw [argOr, hm.args, h, Option.none_or, firstOr]
  cases (valuesOf option history).head? <;> rfl

theorem createAlert_of_merged (hm : Merged preset history s)
    (hpreset : ∀ option, option ∉ presetOptions → preset option = none) :
    createAlert env s = alertOf env.PROTOCOL_VERSION history := by
  have hfield {α : Type} {option : Str} (h : option ∉ presetOptions) (read : Str → α)
      (missing : α) := argOr_of_merged hm (hpreset option h) read missing
  rw [createAlert, alertOf, hm.visited, hm.visited]
  rw [hfield (by decide), hfield (by decide), hfield (by decide), hfield (by decide),
    hfield (by decide), hfield (by decide), hfield (by decide), hfield (by decide),
    hfield (by decide), hfield (by decide)]

end

section

variable {readConfigFile : Settings → Settings} {conf : List (Str × Str)}

theorem alertConfigured_merged (hconf : ReadsConfig readConfigFile conf) (home : Option Str)
    (file : List (Str × Str)) :
    Merged (setFilePath home "tool.conf".toList Settings.empty).mapArgs (alertLines conf file)
      (alertConfigured home readConfigFile file) :=
  startSettings_merged hconf home file

theorem createAlert_configured (hconf : ReadsConfig readConfigFile conf) (home : Option Str)
    (file : List (Str × Str)) :
    createAlert env (alertConfigured home readConfigFile file) =
      alertOf env.PROTOCOL_VERSION (alertLines conf file) :=
  createAlert_of_merged env (alertConfigured_merged hconf home file)
    (setFilePath_presets_no_option home "tool.conf".toList)

end

def alertFiles : FileSystem :=
  ⟨none, fun path =>
    if path = "alert.conf".toList then
      some ⟨[("id".toList, "8".toList), ("comment".toList, "test".toList)], false⟩
    else none⟩

theorem sendAlert_congr {settings settings' : Settings}
    (hargs : settings.mapArgs = settings'.mapArgs)
    (hmulti : settings.mapMultiArgs.lookup = settings'.mapMultiArgs.lookup) (s : NetState Addr) :
    sendAlert env settings s = sendAlert env settings' s := by
  have hvisited (option : Str) : settings.visited option = settings'.visited option := by
    rw [Settings.visited, Settings.visited, hargs, hmulti]
  have halert : createAlert env settings = createAlert env settings' := by
    simp only [createAlert, argOr, hargs, hvisited]
  rw [sendAlert, sendAlert, hargs, hmulti, halert]

theorem valuesOf_moved {before : List (Str × Str)} {line : Str × Str}
    (h : ∀ other ∈ before, other.1 ≠ line.1) (option : Str) :
    valuesOf option (before ++ [line]) = valuesOf option (line :: before) := by
  rw [valuesOf_append, valuesOf_cons option line before, valuesOf_cons, valuesOf_nil,
    List.append_nil]
  by_cases hoption : option = line.1
  · have hnone : valuesOf option before = [] := by
      rw [List.eq_nil_iff_forall_not_mem]
      intro value hvalue
      exact h _ ((mem_valuesOf_iff option value before).mp hvalue) hoption
    rw [hnone, List.append_nil, List.nil_append]
  · rw [if_neg hoption, List.append_nil, List.nil_append]

end CoinTool
