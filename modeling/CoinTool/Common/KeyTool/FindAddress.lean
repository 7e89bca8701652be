import CoinTool.Framework.Substring
import CoinTool.Common.Utils.Text

/-!
# Matching an address

`_getaddress` counts the targets that an address contains and reports the address when the counter
is the number of targets.
-/

namespace CoinTool

open Framework

/-- `my_equal` in the locale of a program that sets none. -/
def myEqual (ch1 ch2 : Char) : Bool := sameKey Char.toUpper ch1 ch2

/-- `-1` is the result for a text that is not found; the offset is returned as an `int`. -/
def ciFindSubstr (str1 str2 : Str) : Int :=
  let it := search myEqual str1 str2
  if it ≠ str1.length then int32 it else -1

/-- `str1.find(str2)`, where `none` is `npos`. -/
def stringFind (str1 str2 : Str) : Option Nat :=
  let pos := search (sameKey id) str1 str2
  if str2 = [] ∨ pos ≠ str1.length then some pos else none

/-- The values of `vTarget`: what `FindAddress` collects from an `argv` that an `int` counts. -/
structure Targets where
  list : List Str
  nonempty : list ≠ []
  counted : list.length < 2 ^ 31

/-- The text of a `CBitcoinAddress`: it is not empty, and far shorter than an `int` can count. -/
structure AddressText where
  text : Str
  nonempty : text ≠ []
  counted : text.length < 2 ^ 31

def bfind (bIsCase : Bool) (addrPro var : Str) : Bool :=
  if !bIsCase then decide (-1 ≠ ciFindSubstr addrPro var) else (stringFind addrPro var).isSome

def matchLoop (size : Nat) (bIsCase : Bool) (addrPro : Str) : List Str → Nat → Bool
  | [], _ => false
  | var :: rest, imatch =>
      if bfind bIsCase addrPro var then
        let imatch := (imatch + 1) % 2 ^ 32
        if size = imatch then true else matchLoop size bIsCase addrPro rest imatch
      else false

def reports (vTarget : List Str) (bIsCase : Bool) (addrPro : Str) : Bool :=
  matchLoop vTarget.length bIsCase addrPro vTarget 0

/-- What `FindAddress` passes to its workers; `none` is the help text. -/
def findAddressArguments (argv : List Str) : Option (Bool × List Str) :=
  if argv.length < cmdindex + 3 then none
  else some (atob (argv.getD (cmdindex + 1) []), argv.drop (cmdindex + 2))

theorem findAddressArguments_targets {argv : List Str} (hargc : argv.length < 2 ^ 31)
    {bIsCase : Bool} {vTarget : List Str}
    (h : findAddressArguments argv = some (bIsCase, vTarget)) : ∃ T : Targets, T.list = vTarget := by
  rw [findAddressArguments] at h
  split at h
  · cases h
  · rename_i hhelp
    cases h
    refine ⟨⟨argv.drop (cmdindex + 2), ?_, ?_⟩, rfl⟩
    · rw [Ne, List.drop_eq_nil_iff]
      omega
    · rw [List.length_drop]
      omega

def Occurs (bIsCase : Bool) (addrPro target : Str) : Prop :=
  if bIsCase then target <:+: addrPro
  else target.map Char.toUpper <:+: addrPro.map Char.toUpper

instance (bIsCase : Bool) (addrPro target : Str) : Decidable (Occurs bIsCase addrPro target) :=
  inferInstanceAs (Decidable (if bIsCase then _ else _))

theorem ciFindSubstr_iff (address : AddressText) (target : Str) :
    -1 ≠ ciFindSubstr address.text target ↔
      target.map Char.toUpper <:+: address.text.map Char.toUpper := by
  have hle : search myEqual address.text target ≤ address.text.length := search_le _ _ _
  have hfound : search myEqual address.text target < address.text.length ↔
      target.map Char.toUpper <:+: address.text.map Char.toUpper :=
    search_sameKey_lt_iff Char.toUpper address.nonempty target
  have hsize := address.counted
  rw [← hfound, ciFindSubstr]
  by_cases hend : search myEqual address.text target = address.text.length
  · simp [hend]
  · have hint : int32 (search myEqual address.text target) = search myEqual address.text target :=
      Int.bmod_eq_of_le (by omega) (by omega)
    simp only [ne_eq, hend, not_false_eq_true, if_true, hint]
    constructor
    · intro _
      omega
    · intro _
      omega

theorem stringFind_iff (address : AddressText) (target : Str) :
    (stringFind address.text target).isSome = true ↔ target <:+: address.text := by
  have hle := search_le (sameKey id) address.text target
  have hfound := search_sameKey_lt_iff id address.nonempty target
  rw [List.map_id, List.map_id] at hfound
  rw [← hfound, stringFind]
  by_cases hempty : target = []
  · rw [hfound, hempty]
    simp
  · simp only [hempty, false_or, Option.isSome_ite]
    omega

theorem bfind_iff (bIsCase : Bool) (address : AddressText) (target : Str) :
    bfind bIsCase address.text target = true ↔ Occurs bIsCase address.text target := by
  cases bIsCase with
  | false => simp [bfind, Occurs, ← ciFindSubstr_iff]
  | true => simp [bfind, Occurs, ← stringFind_iff]

/-- The counter and the targets that are left add up to the number of targets, so it reaches that
number exactly at the last of them. -/
theorem matchLoop_iff (size : Nat) (hsize : size < 2 ^ 32) (bIsCase : Bool) (address : AddressText)
    (rest : List Str) (imatch : Nat) (hrest : rest ≠ []) (hcount : imatch + rest.length = size) :
    matchLoop size bIsCase address.text rest imatch = true ↔
      ∀ target ∈ rest, Occurs bIsCase address.text target := by
  induction rest generalizing imatch with
  | nil => exact absurd rfl hrest
  | cons var rest ih =>
      have hnext : (imatch + 1) % 2 ^ 32 = imatch + 1 := by
        rw [List.length_cons] at hcount
        exact Nat.mod_eq_of_lt (by omega)
      rw [matchLoop]
      rw [List.forall_mem_cons, ← bfind_iff, hnext]
      cases bfind bIsCase address.text var with
      | false => simp
      | true =>
          rw [if_pos rfl, eq_self, true_and]
          by_cases hlast : rest = []
          · subst hlast
            have hfull : size = imatch + 1 := hcount.symm
            simp [hfull]
          · have hlen := List.length_pos_iff.mpr hlast
            rw [List.length_cons] at hcount
            rw [if_neg (by omega)]
            exact ih (imatch + 1) hlast (by omega)

theorem reports_iff_occurs (vTarget : Targets) (bIsCase : Bool) (address : AddressText) :
    reports vTarget.list bIsCase address.text = true ↔
      ∀ target ∈ vTarget.list, Occurs bIsCase address.text target := by
  have hcounted := vTarget.counted
  exact matchLoop_iff _ (by omega) bIsCase address _ 0 vTarget.nonempty (Nat.zero_add _)

/-- An address is reported exactly when every target occurs in it; only which targets there are
matters, and what is found with the case is found without it. -/
theorem reports_iff (vTarget : Targets) (address : AddressText) (bIsCase : Bool) :
    (reports vTarget.list bIsCase address.text = true ↔
      ∀ target ∈ vTarget.list, Occurs bIsCase address.text target) ∧
    (∀ vTarget' : Targets, (∀ target, target ∈ vTarget.list ↔ target ∈ vTarget'.list) →
      reports vTarget'.list bIsCase address.text = reports vTarget.list bIsCase address.text) ∧
    (reports vTarget.list true address.text = true →
      reports vTarget.list false address.text = true) := by
  refine ⟨reports_iff_occurs vTarget bIsCase address, ?_, ?_⟩
  · intro vTarget' hsame
    rw [Bool.eq_iff_iff, reports_iff_occurs, reports_iff_occurs]
    simp only [hsame]
  · rw [reports_iff_occurs, reports_iff_occurs]
    intro hexact target hmem
    have hinfix : target <:+: address.text := hexact target hmem
    exact hinfix.map Char.toUpper

theorem reports_iff_sample :
    reports ["z1".toList, "A".toList] false "UZ1a".toList = true ∧
      reports ["z1".toList, "A".toList] true "UZ1a".toList = false := by
  let vTarget : Targets := ⟨["z1".toList, "A".toList], by decide, by decide⟩
  let address : AddressText := ⟨"UZ1a".toList, by decide, by decide⟩
  constructor
  · exact (reports_iff vTarget address false).1.mpr (by decide)
  · rw [Bool.eq_false_iff, Ne, (reports_iff vTarget address true).1]
    decide

end CoinTool
