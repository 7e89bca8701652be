import CoinTool.Common.KeyTool.Sign
import CoinTool.Common.Utils.Format

/-!
# New keys and keys of secrets

`MakeNewKey` formats the hexadecimal text of a key that it could not verify, and `PrivKey` the texts
of a secret, its key and its address.
-/

namespace CoinTool

open Framework

/-- What a command writes: a text of its own, or one that goes through a formatter. -/
inductive Output where
  | printed (text : Str)
  | formatted (call : FormatCall)

def formattedCalls (outputs : Option (List Output)) : List FormatCall :=
  (outputs.getD []).filterMap fun
    | .formatted call => some call
    | .printed _ => none

section

variable {Secret Key PubKey Hash KeyID : Type}
variable (lib : KeyLib Secret Key PubKey Hash KeyID) (verifyPubKey : Key → PubKey → Bool)
variable (address : KeyID → Str)

def verifyFailed (pubkey : PubKey) : FormatCall :=
  showerrorCall "VerifyPubKey failed %s".toList [lib.hexStr (lib.pubKeyBytes pubkey)]

/-- `secret` is the key that `secret.MakeNewKey(fCompressed)` draws. -/
def makeNewKey (secret : Bool → Key) (fCompressed : Bool) : Option (List Output) :=
  let secret := secret fCompressed
  match lib.getPubKey secret with
  | none => none
  | some pubkey =>
      if !verifyPubKey secret pubkey then some [.formatted (verifyFailed lib pubkey)]
      else
        let name := if fCompressed then "compressed pubkey : ".toList
          else "uncompressed pubkey : ".toList
        some
          [.printed ("\nprivkey : ".toList ++ lib.secretToString secret ++ "\n".toList),
            .printed (name ++ lib.hexStr (lib.pubKeyBytes pubkey) ++ "\n".toList),
            .printed ("pubkey2 : ".toList ++ lib.idToString (lib.getID pubkey) ++ "\n".toList),
            .printed ("address : ".toList ++ address (lib.getID pubkey) ++ "\n\n".toList)]

def privKeyHelp : Str := "Command \"privkey\" example :\n\nprivkey privatekey\n\n".toList

def privKeyLine (privkey : Key) (retpubkey : PubKey) : FormatCall :=
  toolLogCall
    "private key    %s\n\x7b\n\tpublic key    %s\n\taddress       %s\n\x7d\n".toList
    [lib.secretToString privkey, lib.hexStr (lib.pubKeyBytes retpubkey),
      address (lib.getID retpubkey)]

def privKey (argv : List Str) : Option (List Output) :=
  if argv.length < cmdindex + 2 then some [.printed privKeyHelp]
  else
    let strprivkey := argv.getD (cmdindex + 1) []
    match getKeysFromSecret lib strprivkey with
    | none => none
    | some none => some ((getPubKeyFailed strprivkey).map .printed)
    | some (some (privkey, retpubkey)) =>
        some [.formatted (privKeyLine lib address privkey retpubkey)]

/-- What is assumed of the texts of the library: `HexStr` has two digits a byte, a public key has 33
or 65 bytes, and the Base58 texts of a secret and of an address are short. -/
structure KeyTexts (isCompressed : Key → Bool) : Prop where
  hexStr_length : ∀ bytes, (lib.hexStr bytes).length = 2 * bytes.length
  hexStr_digits : ∀ bytes, '\x00' ∉ lib.hexStr bytes
  pubKey_size : ∀ sk P, lib.getPubKey sk = some P →
    (lib.pubKeyBytes P).length = if isCompressed sk then 33 else 65
  secret_length : ∀ sk, (lib.secretToString sk).length ≤ 60
  address_length : ∀ sk P, lib.getPubKey sk = some P → (address (lib.getID P)).length ≤ 60

end

section

variable {Secret Key PubKey Hash KeyID : Type} {lib : KeyLib Secret Key PubKey Hash KeyID}
variable {verifyPubKey : Key → PubKey → Bool} {address : KeyID → Str} {isCompressed : Key → Bool}

theorem verifyFailed_fits_iff (texts : KeyTexts lib address isCompressed) {sk : Key} {P : PubKey}
    (h : lib.getPubKey sk = some P) : (verifyFailed lib P).Fits ↔ isCompressed sk = true := by
  have hformat : "VerifyPubKey failed %s".toList =
      "VerifyPubKey failed ".toList ++ '%' :: 's' :: [] := rfl
  have htext : (verifyFailed lib P).text =
      "VerifyPubKey failed ".toList ++ lib.hexStr (lib.pubKeyBytes P) := by
    rw [verifyFailed, showerrorCall, hformat, vsprintf_conversion _ _ _ _ (by decide), vsprintf,
      cStr_of_not_mem (texts.hexStr_digits _), List.append_nil]
  have hbefore : "VerifyPubKey failed ".toList.length = 20 := rfl
  have hsize : (verifyFailed lib P).size = 100 := rfl
  rw [FormatCall.fits_iff, htext, List.length_append, texts.hexStr_length, hbefore, hsize,
    texts.pubKey_size sk P h]
  cases isCompressed sk <;> decide

theorem privKeyLine_text (sk : Key) (P : PubKey) :
    (privKeyLine lib address sk P).text = "private key    ".toList ++ (cStr (lib.secretToString sk) ++
      ("\n\x7b\n\tpublic key    ".toList ++ (cStr (lib.hexStr (lib.pubKeyBytes P)) ++
        ("\n\taddress       ".toList ++ (cStr (address (lib.getID P)) ++ "\n\x7d\n".toList))))) := by
  have hformat : "private key    %s\n\x7b\n\tpublic key    %s\n\taddress       %s\n\x7d\n".toList =
      "private key    ".toList ++ '%' :: 's' :: ("\n\x7b\n\tpublic key    ".toList ++
        '%' :: 's' :: ("\n\taddress       ".toList ++ '%' :: 's' :: "\n\x7d\n".toList)) := rfl
  rw [privKeyLine, toolLogCall, hformat, vsprintf_conversion _ _ _ _ (by decide),
    vsprintf_conversion _ _ _ _ (by decide), vsprintf_conversion _ _ _ _ (by decide),
    vsprintf_literal _ _ (by decide)]

theorem privKeyLine_fits (texts : KeyTexts lib address isCompressed) {sk : Key} {P : PubKey}
    (h : lib.getPubKey sk = some P) : (privKeyLine lib address sk P).Fits := by
  have hsecret : (cStr (lib.secretToString sk)).length ≤ 60 :=
    (cStr_length_le _).trans (texts.secret_length sk)
  have hkey : (cStr (lib.hexStr (lib.pubKeyBytes P))).length ≤ 130 := by
    apply (cStr_length_le _).trans
    rw [texts.hexStr_length, texts.pubKey_size sk P h]
    split <;> decide
  have haddress : (cStr (address (lib.getID P))).length ≤ 60 :=
    (cStr_length_le _).trans (texts.address_length sk P h)
  have hfixed : "private key    ".toList.length + "\n\x7b\n\tpublic key    ".toList.length +
      "\n\taddress       ".toList.length + "\n\x7d\n".toList.length = 52 := rfl
  have hsize : (privKeyLine lib address sk P).size = 1000 := rfl
  rw [FormatCall.fits_iff, privKeyLine_text, hsize]
  simp only [List.length_append]
  omega

theorem makeNewKey_calls_fit_iff (texts : KeyTexts lib address isCompressed)
    (secret : Bool → Key) (hsecret : ∀ b, isCompressed (secret b) = b) (fCompressed : Bool) :
    (∀ c ∈ formattedCalls (makeNewKey lib verifyPubKey address secret fCompressed), c.Fits) ↔
      fCompressed = true ∨ ∀ P, lib.getPubKey (secret fCompressed) = some P →
        verifyPubKey (secret fCompressed) P = true := by
  rw [makeNewKey]
  cases hkey : lib.getPubKey (secret fCompressed) with
  | none => simp [formattedCalls]
  | some P =>
      have hfits := verifyFailed_fits_iff texts hkey
      rw [hsecret] at hfits
      cases hverify : verifyPubKey (secret fCompressed) P with
      | false =>
          have hcalls : formattedCalls (some [.formatted (verifyFailed lib P)]) =
              [verifyFailed lib P] := rfl
          simp only [Bool.not_false, if_true, hcalls, List.forall_mem_singleton, hfits,
            Option.some.injEq, forall_eq', hverify, Bool.false_eq_true, or_false]
      | true =>
          simp only [Bool.not_true, Bool.false_eq_true, if_false, Option.some.injEq, forall_eq',
            hverify, or_true, iff_true]
          intro c hc
          cases hc

theorem privKey_calls_fit (texts : KeyTexts lib address isCompressed) (argv : List Str) :
    ∀ c ∈ formattedCalls (privKey lib address argv), c.Fits := by
  intro c hc
  rw [privKey] at hc
  split at hc
  · simp [formattedCalls] at hc
  · dsimp only at hc
    split at hc
    · simp [formattedCalls] at hc
    · simp [formattedCalls, getPubKeyFailed] at hc
    · rename_i privkey retpubkey hkeys
      simp only [formattedCalls, Option.getD_some, List.filterMap_cons, List.filterMap_nil,
        List.mem_singleton] at hc
      rw [hc]
      exact privKeyLine_fits texts (getKeysFromSecret_getPubKey hkeys)

end

end CoinTool
