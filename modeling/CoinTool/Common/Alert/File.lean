import Mathlib.Data.Finset.Insert
import CoinTool.Common.Alert.Fields
import CoinTool.Common.Utils.Decimal

/-!
# The file of an alert

Whatever is to be sent has a file: a line for each single value of the alert, a line for each member
of its sets, the key and the nodes.  `sendalert` reads all of it back.
-/

namespace CoinTool

open Framework

/-- The lines of a file that has these values for each name. -/
def blockLines (blocks : List (Str × List Str)) : List (Str × Str) :=
  blocks.flatMap fun block => block.2.map fun value => (block.1, value)

/-- A name that no `-no` turns into another option. -/
def Plain (name : Str) : Prop := name.take 2 ≠ "no".toList

instance (name : Str) : Decidable (Plain name) := inferInstanceAs (Decidable (_ ≠ _))

theorem settingOf_plain {name : Str} (h : Plain name) (value : Str) :
    settingOf (name, value) = ('-' :: name, value) := by
  rw [settingOf, toolsInterpretNegativeSetting, if_neg]
  rintro ⟨-, -, hn, ho⟩
  apply h
  cases name with
  | nil => cases hn
  | cons first rest =>
      cases rest with
      | nil => cases ho
      | cons second rest =>
          cases hn
          cases ho
          rfl

theorem valuesOf_block {name : Str} (h : Plain name) (option : Str) (values : List Str) :
    valuesOf ('-' :: option) ((values.map fun value => (name, value)).map settingOf) =
      if option = name then values else [] := by
  induction values with
  | nil => simp
  | cons value values ih =>
      rw [List.map_cons, List.map_cons, settingOf_plain h, valuesOf_cons, ih]
      by_cases hoption : option = name
      · simp [hoption]
      · simp [hoption]

theorem valuesOf_blockLines_cons (option : Str) {block : Str × List Str}
    {blocks : List (Str × List Str)} (h : Plain block.1) :
    valuesOf ('-' :: option) ((blockLines (block :: blocks)).map settingOf) =
      (if option = block.1 then block.2 else []) ++
        valuesOf ('-' :: option) ((blockLines blocks).map settingOf) := by
  rw [blockLines, List.flatMap_cons, List.map_append, valuesOf_append, valuesOf_block h, blockLines]

theorem valuesOf_blockLines_absent {blocks : List (Str × List Str)} {option : Str}
    (hplain : ∀ block ∈ blocks, Plain block.1) (habsent : option ∉ blocks.map Prod.fst) :
    valuesOf ('-' :: option) ((blockLines blocks).map settingOf) = [] := by
  induction blocks with
  | nil => rfl
  | cons block blocks ih =>
      rw [List.map_cons, List.mem_cons, not_or] at habsent
      rw [valuesOf_blockLines_cons option (hplain block List.mem_cons_self), if_neg habsent.1,
        List.nil_append]
      exact ih (fun other hmem => hplain other (List.mem_cons_of_mem block hmem)) habsent.2

theorem valuesOf_blockLines {blocks : List (Str × List Str)} {option : Str} {values : List Str}
    (hplain : ∀ block ∈ blocks, Plain block.1) (hnames : (blocks.map Prod.fst).Nodup)
    (hmem : (option, values) ∈ blocks) :
    valuesOf ('-' :: option) ((blockLines blocks).map settingOf) = values := by
  induction blocks with
  | nil => cases hmem
  | cons block blocks ih =>
      obtain ⟨hnew, hnodup⟩ := List.nodup_cons.mp hnames
      have hrest : ∀ other ∈ blocks, Plain other.1 := fun other hother =>
        hplain other (List.mem_cons_of_mem block hother)
      rw [valuesOf_blockLines_cons option (hplain block List.mem_cons_self)]
      rcases List.mem_cons.mp hmem with rfl | hmem
      · rw [if_pos rfl, valuesOf_blockLines_absent hrest hnew, List.append_nil]
      · have hother : option ≠ block.1 := by
          rintro rfl
          exact hnew (List.mem_map.mpr ⟨_, hmem, rfl⟩)
        rw [if_neg hother, List.nil_append]
        exact ih hrest hnodup hmem

structure Alert.Fits (alert : Alert) : Prop where
  nVersion : int32 alert.nVersion = alert.nVersion
  nRelayUntil : -2 ^ 63 ≤ alert.nRelayUntil ∧ alert.nRelayUntil < 2 ^ 63
  nExpiration : -2 ^ 63 ≤ alert.nExpiration ∧ alert.nExpiration < 2 ^ 63
  nID : int32 alert.nID = alert.nID
  nCancel : int32 alert.nCancel = alert.nCancel
  setCancel : ∀ id ∈ alert.setCancel, int32 id = id
  nMinVer : int32 alert.nMinVer = alert.nMinVer
  nMaxVer : int32 alert.nMaxVer = alert.nMaxVer
  nPriority : int32 alert.nPriority = alert.nPriority

/-- An alert that is to be sent: with its sets listed in some order, the key that signs it, and the
nodes. -/
structure AlertRequest where
  alert : Alert
  cancels : List Int
  subVers : List Str
  privkey : Str
  nodes : List Str
  fits : alert.Fits
  cancels_eq : cancels.toFinset = alert.setCancel
  subVers_eq : subVers.toFinset = alert.setSubVer
  nodes_ne : nodes ≠ []

namespace AlertRequest

def blocks (request : AlertRequest) : List (Str × List Str) :=
  [("version".toList, [decimal request.alert.nVersion]),
    ("relayuntil".toList, [decimal request.alert.nRelayUntil]),
    ("expiration".toList, [decimal request.alert.nExpiration]),
    ("id".toList, [decimal request.alert.nID]),
    ("cancel".toList, [decimal request.alert.nCancel]),
    ("setcancel".toList, request.cancels.map decimal),
    ("minver".toList, [decimal request.alert.nMinVer]),
    ("maxver".toList, [decimal request.alert.nMaxVer]),
    ("setsubver".toList, request.subVers),
    ("priority".toList, [decimal request.alert.nPriority]),
    ("comment".toList, [request.alert.strComment]),
    ("statusbar".toList, [request.alert.strStatusBar]),
    ("privkey".toList, [request.privkey]),
    ("addnode".toList, request.nodes)]

def file (request : AlertRequest) : List (Str × Str) := blockLines request.blocks

def names : List Str :=
  ["version".toList, "relayuntil".toList, "expiration".toList, "id".toList, "cancel".toList,
    "setcancel".toList, "minver".toList, "maxver".toList, "setsubver".toList, "priority".toList,
    "comment".toList, "statusbar".toList, "privkey".toList, "addnode".toList]

theorem names_plain : ∀ name ∈ names, Plain name := by decide

theorem names_nodup : names.Nodup := by decide

theorem blocks_names (request : AlertRequest) : request.blocks.map Prod.fst = names := rfl

end AlertRequest

/-- These settings say nothing about an alert, its key or its nodes. -/
def SilentOnAlerts (conf : List (Str × Str)) : Prop :=
  ∀ name ∈ AlertRequest.names, valuesOf ('-' :: name) conf = []

section

variable {request : AlertRequest} {conf : List (Str × Str)}

theorem valuesOf_request (hsilent : SilentOnAlerts conf) {option : Str} {values : List Str} (i : Nat)
    (h : request.blocks[i]? = some (option, values)) :
    valuesOf ('-' :: option) (alertLines conf request.file) = values := by
  have hmem : (option, values) ∈ request.blocks := List.mem_of_getElem? h
  have hname : option ∈ AlertRequest.names :=
    request.blocks_names ▸ List.mem_map.mpr ⟨_, hmem, rfl⟩
  have hplain : ∀ block ∈ request.blocks, Plain block.1 := by
    intro block hblock
    exact AlertRequest.names_plain _ (request.blocks_names ▸ List.mem_map.mpr ⟨_, hblock, rfl⟩)
  rw [alertLines, valuesOf_append, hsilent option hname, List.nil_append]
  exact valuesOf_blockLines hplain (request.blocks_names ▸ AlertRequest.names_nodup) hmem

theorem firstOr_request (hsilent : SilentOnAlerts conf) {option value : Str} (i : Nat)
    (h : request.blocks[i]? = some (option, [value])) {α : Type} (read : Str → α) (missing : α) :
    firstOr (alertLines conf request.file) ('-' :: option) read missing = read value := by
  rw [firstOr, valuesOf_request hsilent i h]
  rfl

theorem alertOf_request (PROTOCOL_VERSION : Int) (hsilent : SilentOnAlerts conf) :
    alertOf PROTOCOL_VERSION (alertLines conf request.file) = request.alert := by
  have hfits := request.fits
  have hfirst {option value : Str} (i : Nat) (h : request.blocks[i]? = some (option, [value]))
      {α : Type} (read : Str → α) (missing : α) := firstOr_request hsilent i h read missing
  have hcancelValues : valuesOf "-setcancel".toList (alertLines conf request.file) =
      request.cancels.map decimal := valuesOf_request hsilent 5 rfl
  have hsubVerValues : valuesOf "-setsubver".toList (alertLines conf request.file) =
      request.subVers := valuesOf_request hsilent 8 rfl
  generalize alertLines conf request.file = lines at *
  have hversion : firstOr lines "-version".toList atoi PROTOCOL_VERSION = request.alert.nVersion :=
    (hfirst 0 rfl atoi _).trans (atoi_decimal hfits.nVersion)
  have hrelayUntil : firstOr lines "-relayuntil".toList strtol 4070908800 =
      request.alert.nRelayUntil :=
    (hfirst 1 rfl strtol _).trans (strtol_decimal hfits.nRelayUntil.1 hfits.nRelayUntil.2)
  have hexpiration : firstOr lines "-expiration".toList strtol 4070908800 =
      request.alert.nExpiration :=
    (hfirst 2 rfl strtol _).trans (strtol_decimal hfits.nExpiration.1 hfits.nExpiration.2)
  have hid : firstOr lines "-id".toList atoi 1 = request.alert.nID :=
    (hfirst 3 rfl atoi _).trans (atoi_decimal hfits.nID)
  have hcancel : firstOr lines "-cancel".toList atoi 0 = request.alert.nCancel :=
    (hfirst 4 rfl atoi _).trans (atoi_decimal hfits.nCancel)
  have hsetCancel : ((valuesOf "-setcancel".toList lines).map atoi).toFinset =
      request.alert.setCancel := by
    have hread : ∀ cancel ∈ request.cancels, (atoi ∘ decimal) cancel = id cancel := by
      intro cancel hmem
      rw [← List.mem_toFinset, request.cancels_eq] at hmem
      exact atoi_decimal (hfits.setCancel cancel hmem)
    rw [hcancelValues, List.map_map, List.map_congr_left hread, List.map_id, request.cancels_eq]
  have hminVer : firstOr lines "-minver".toList atoi 0 = request.alert.nMinVer :=
    (hfirst 6 rfl atoi _).trans (atoi_decimal hfits.nMinVer)
  have hmaxVer : firstOr lines "-maxver".toList atoi 0x7fffffff = request.alert.nMaxVer :=
    (hfirst 7 rfl atoi _).trans (atoi_decimal hfits.nMaxVer)
  have hsetSubVer : (valuesOf "-setsubver".toList lines).toFinset = request.alert.setSubVer := by
    rw [hsubVerValues, request.subVers_eq]
  have hpriority : firstOr lines "-priority".toList atoi 1 = request.alert.nPriority :=
    (hfirst 9 rfl atoi _).trans (atoi_decimal hfits.nPriority)
  have hcomment : firstOr lines "-comment".toList id "TEST: alert test".toList =
      request.alert.strComment := hfirst 10 rfl id _
  have hstatusBar : firstOr lines "-statusbar".toList id
      "URGENT: Alert key compromised, upgrade required".toList = request.alert.strStatusBar :=
    hfirst 11 rfl id _
  rw [alertOf, hversion, hrelayUntil, hexpiration, hid, hcancel, hsetCancel, hminVer, hmaxVer,
    hsetSubVer, hpriority, hcomment, hstatusBar]

end

variable {Secret Key PubKey Hash KeyID Addr : Type}

def sampleRequest : AlertRequest where
  alert :=
    { nVersion := 1, nRelayUntil := 4000000000000, nExpiration := 4000000000000, nID := 20
      nCancel := -10, setCancel := {11, 12}, nMinVer := 1000, nMaxVer := 1879048192
      setSubVer := {"70208".toList}, nPriority := 98, strComment := "test".toList
      strStatusBar := "upgrade required".toList }
  cancels := [11, 12]
  subVers := ["70208".toList]
  privkey := "0501".toList
  nodes := ["a:1".toList, "b:2".toList]
  fits := by constructor <;> decide
  cancels_eq := rfl
  subVers_eq := rfl
  nodes_ne := List.cons_ne_nil _ _

end CoinTool
