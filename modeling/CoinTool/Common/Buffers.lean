import CoinTool.Common.Alert.Model
import CoinTool.Common.KeyTool.CheckKey
import CoinTool.Common.KeyTool.PrivKey

/-!
# What the formatters are called with

Every call of a formatter in the tools has a bound that does not depend on its arguments, except the
path of a file that does not open and an uncompressed key that cannot be verified.
-/

namespace CoinTool

open Framework

section

variable {Secret Key PubKey Hash KeyID Addr : Type}

theorem showerrorCall_text {format : Str} (h : '%' ∉ format) :
    (showerrorCall format []).text = format :=
  vsprintf_literal format [] h

theorem showerrorCall_shown {format : Str} (h : '%' ∉ format) (printed : List Str) :
    ∃ c ∈ [showerrorCall format []], showerror c.text ∈ printed ++ [showerror format] := by
  refine ⟨_, List.mem_singleton_self _, ?_⟩
  rw [showerrorCall_text h]
  exact List.mem_append_right _ (List.mem_singleton_self _)

theorem checkKey_missing [DecidableEq KeyID] {lib : KeyLib Secret Key PubKey Hash KeyID}
    {address : KeyID → Str} {s : Settings} {printed : List Str}
    (h : checkKey lib address s = some (printed, false)) :
    ∃ c ∈ checkKeyCalls s, showerror c.text ∈ printed := by
  rw [checkKeyCalls, firstMissing, firstMissing, firstMissing]
  rw [checkKey] at h
  split at h
  · rename_i hprivkey
    rw [if_pos hprivkey]
    split at h
    · cases h
    · split at h
      · rename_i hpubkey
        rw [if_pos hpubkey]
        split at h
        · cases h
        · rename_i hmessage
          cases h
          have hcount : ¬ s.mapArgs.count "-message".toList = true := by
            rw [KeyMap.count, hmessage]
            exact Bool.false_ne_true
          rw [if_neg hcount]
          exact showerrorCall_shown (by decide) _
      · rename_i hpubkey
        cases h
        rw [if_neg hpubkey]
        exact showerrorCall_shown (by decide) _
  · rename_i hprivkey
    cases h
    rw [if_neg hprivkey]
    exact showerrorCall_shown (by decide) []

theorem sendAlert_missing (env : AlertLib Secret Key PubKey Hash KeyID Addr) (settings : Settings)
    (s : NetState Addr) (h : settings.mapArgs.count "-privkey".toList = false) :
    ∃ c ∈ sendAlertCalls settings,
      sendAlert env settings s = some (false, s.print [showerror c.text]) := by
  have hnone : settings.mapArgs "-privkey".toList = none := by
    rw [KeyMap.count, Option.isSome_eq_false_iff, Option.isNone_iff_eq_none] at h
    exact h
  rw [sendAlertCalls, firstMissing, firstMissing, h]
  refine ⟨_, List.mem_singleton_self _, ?_⟩
  rw [showerrorCall_text (by decide), sendAlert, hnone]

/-- A load stays inside the buffer when the file opens or its path has at most 79 characters, and a new
key when it is compressed or can be verified.  All other calls do whatever they are given. -/
theorem formatted_fits_iff {lib : KeyLib Secret Key PubKey Hash KeyID} {address : KeyID → Str}
    {isCompressed : Key → Bool} (texts : KeyTexts lib address isCompressed)
    (verifyPubKey : Key → PubKey → Bool) (secret : Bool → Key)
    (hsecret : ∀ b, isCompressed (secret b) = b) :
    (∀ (l : Load) (s : Settings), (∀ c ∈ l.calls s, c.Fits) ↔
      (l.fs.stream l.path).isSome = true ∨ (cStr l.path).length ≤ 79) ∧
    (∀ fCompressed,
      (∀ c ∈ formattedCalls (makeNewKey lib verifyPubKey address secret fCompressed), c.Fits) ↔
        fCompressed = true ∨ ∀ P, lib.getPubKey (secret fCompressed) = some P →
          verifyPubKey (secret fCompressed) P = true) ∧
    (∀ argv, ∀ c ∈ formattedCalls (privKey lib address argv), c.Fits) ∧
    (∀ s, ∀ c ∈ checkKeyCalls s, c.Fits) ∧ ∀ s, ∀ c ∈ sendAlertCalls s, c.Fits :=
  ⟨Load.calls_fit_iff, makeNewKey_calls_fit_iff texts secret hsecret, privKey_calls_fit texts,
    checkKeyCalls_fit, sendAlertCalls_fit⟩

end

theorem hexEncode_length (bytes : List UInt8) : (hexEncode bytes).length = 2 * bytes.length := by
  induction bytes with
  | nil => rfl
  | cons b rest ih =>
      rw [hexEncode, List.length_cons, List.length_cons, ih, List.length_cons]
      omega

theorem hexEncode_digits (bytes : List UInt8) : '\x00' ∉ hexEncode bytes := by
  have hdigit (n : Nat) (hn : n < 16) : '\x00' ≠ digitChar hexDigits n :=
    (digitChar_ne (by decide) hn).symm
  induction bytes with
  | nil => exact List.not_mem_nil
  | cons b rest ih =>
      have hlt := b.toNat_lt
      rw [hexEncode, List.mem_cons, List.mem_cons, not_or, not_or]
      exact ⟨hdigit _ (by omega), hdigit _ (by omega), ih⟩

/-- The sample library with keys of the real sizes. -/
def sizedLib : KeyLib SampleKey SampleKey Bytes Bytes Bytes :=
  { sampleLib with
    pubKeyBytes := fun P => P ++ List.replicate (if P.head? = some 2 then 31 else 63) 0 }

theorem sizedLib_texts : KeyTexts sizedLib hexEncode Prod.snd where
  hexStr_length := hexEncode_length
  hexStr_digits := hexEncode_digits
  pubKey_size sk P h := by
    by_cases hsk : sk.1 = 0
    · simp [sizedLib, sampleLib, hsk] at h
    · simp only [sizedLib, sampleLib, hsk, if_false, Option.some.injEq] at h
      subst h
      cases hcompressed : sk.2 <;> simp [sizedLib]
  secret_length sk := by
    have hlength : (sizedLib.secretToString sk).length = 2 * 2 := hexEncode_length _
    omega
  address_length sk P h := by
    by_cases hsk : sk.1 = 0
    · simp [sizedLib, sampleLib, hsk] at h
    · simp only [sizedLib, sampleLib, hsk, if_false, Option.some.injEq] at h
      subst h
      have hlength : (hexEncode (sizedLib.getID [if sk.2 then 2 else 4, sk.1])).length = 2 * 2 :=
        hexEncode_length _
      rw [sizedLib, sampleLib] at hlength
      exact hlength.trans_le (by decide)

def noFiles : FileSystem := ⟨none, fun _ => none⟩

theorem formatted_fits_iff_sizedLib :
    (∀ c ∈ Load.calls ⟨noFiles, true, "a.conf".toList⟩ Settings.empty, c.Fits) ∧
    ∀ c ∈ formattedCalls (makeNewKey sizedLib (fun _ _ => false) hexEncode (fun b => (7, b)) true),
      c.Fits := by
  have hfits := formatted_fits_iff sizedLib_texts (fun _ _ => false) (fun b => (7, b)) (fun _ => rfl)
  constructor
  · exact (hfits.1 ⟨noFiles, true, "a.conf".toList⟩ Settings.empty).mpr (Or.inr (by decide))
  · exact (hfits.2.1 true).mpr (Or.inl rfl)

/-- The error for a missing file with a path of 80 characters needs 101 bytes. -/
theorem showerror_overflows :
    ¬ ∀ (l : Load) (s : Settings), ∀ c ∈ l.calls s, c.Fits := by
  intro h
  have hfits := (Load.calls_fit_iff ⟨noFiles, true, List.replicate 80 'a'⟩ Settings.empty).mp (h _ _)
  exact absurd hfits (by decide)

end CoinTool
