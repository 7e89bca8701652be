import CoinTool.Common.KeyTool.Model

/-!
# Signing and verifying agree

Both schemes sign the same digest of the message, and the digest decides the message.  The schemes
differ in how they accept: `verifymsg` verifies with the given key, `compactverify` recovers a key
from the signature and compares key ids.
-/

namespace CoinTool

open Framework

variable {Secret Key PubKey Hash KeyID : Type}

def KeyLib.digest (lib : KeyLib Secret Key PubKey Hash KeyID) (strMessage : Str) : Hash :=
  lib.getHash (lib.write (lib.write [] strMessageCustom) strMessage)

section

variable {lib : KeyLib Secret Key PubKey Hash KeyID} {EncodesPointOf : PubKey → Key → Prop}

theorem KeyLib.Lawful.digest_inj (hlib : lib.Lawful EncodesPointOf) {m m' : Str} :
    lib.digest m = lib.digest m' ↔ m = m' := by
  constructor
  · intro h
    have hwritten := hlib.getHash_injective h
    have hcode : [strMessageCustom, m].flatMap (lengthPrefixed lib.writeCompactSize) ++ [] =
        [strMessageCustom, m'].flatMap (lengthPrefixed lib.writeCompactSize) ++ [] := by
      simpa [KeyLib.write, lengthPrefixed] using hwritten
    have hstring := lengthPrefixed_selfDelimiting hlib.writeCompactSize_delimits
    have hlen : [strMessageCustom, m].length = [strMessageCustom, m'].length := rfl
    obtain ⟨hlist, -⟩ := hstring.flatMap_inj hlen hcode
    simpa using hlist
  · intro h
    rw [h]

theorem getKeysFromSecret_getPubKey {strSecret : Str} {key : Key} {P : PubKey}
    (h : getKeysFromSecret lib strSecret = some (some (key, P))) : lib.getPubKey key = some P := by
  unfold getKeysFromSecret at h
  cases hsecret : lib.setString strSecret with
  | none => simp [hsecret] at h
  | some vchSecret =>
      cases hkey : lib.getPubKey (lib.getKey vchSecret) with
      | none => simp [hsecret, hkey] at h
      | some pubkeyRet =>
          simp only [hsecret, hkey, Option.some.injEq, Prod.mk.injEq] at h
          obtain ⟨rfl, rfl⟩ := h
          exact hkey

theorem msgSign_eq (privkey : Key) (strMessage : Str) :
    msgSign lib privkey strMessage false = ([], lib.sign privkey (lib.digest strMessage)) := by
  simp only [msgSign, ← KeyLib.digest.eq_1]
  cases lib.sign privkey (lib.digest strMessage) with
  | none => rfl
  | some vchSig => rfl

theorem msgVerify_eq (pubkey : PubKey) (strMessage : Str) (vchSig : Bytes) :
    msgVerify lib pubkey strMessage vchSig false =
      ([], lib.verify pubkey (lib.digest strMessage) vchSig) := by
  simp only [msgVerify, ← KeyLib.digest.eq_1]
  cases lib.verify pubkey (lib.digest strMessage) vchSig with
  | false => rfl
  | true => rfl

theorem msgVerify_msgSign (hlib : lib.Lawful EncodesPointOf) {sk : Key} {P : PubKey}
    (hkey : lib.getPubKey sk = some P) {m : Str} {sig : Bytes}
    (hsign : lib.sign sk (lib.digest m) = some sig) (m' : Str) :
    (msgVerify lib P m' sig false).2 = true ↔ m = m' := by
  rw [msgVerify_eq, hlib.verify_sign P sk _ _ sig hsign, hlib.digest_inj]
  constructor
  · intro h
    exact h.1.symm
  · intro h
    exact ⟨h.symm, hlib.getPubKey_encodes sk P hkey⟩

theorem compactVerify_accepts [DecidableEq KeyID] (pubkey : PubKey) (strMessage : Str)
    (vchSig : Bytes) (blog : Bool) :
    (compactVerify lib pubkey strMessage vchSig blog).2 = true ↔
      ∃ Q, lib.recoverCompact (lib.digest strMessage) vchSig = some Q ∧
        lib.getID Q = lib.getID pubkey := by
  simp only [compactVerify, ← KeyLib.digest.eq_1]
  cases lib.recoverCompact (lib.digest strMessage) vchSig with
  | none => simp
  | some Q => by_cases hid : lib.getID Q = lib.getID pubkey <;> simp [hid]

theorem verifySuccess_ne {ch : Char} (h : ch ≠ 'V') (rest : Str) : verifySuccess ≠ ch :: rest := by
  intro hs
  have hhead : verifySuccess.head? = some 'V' := by decide
  rw [hs, List.head?_cons, Option.some.injEq] at hhead
  exact h hhead

theorem compactVerify_not_success [DecidableEq KeyID] (pubkey : PubKey) (strMessage : Str)
    (vchSig : Bytes) (blog : Bool) :
    verifySuccess ∉ (compactVerify lib pubkey strMessage vchSig blog).1 := by
  simp only [compactVerify, ← KeyLib.digest.eq_1]
  cases lib.recoverCompact (lib.digest strMessage) vchSig with
  | none => simp [verifySuccess_ne]
  | some Q =>
      by_cases hid : lib.getID Q = lib.getID pubkey <;> cases blog <;>
        simp [hid, verifySuccess_ne]

theorem compactVerify_compactSign [DecidableEq KeyID] (hlib : lib.Lawful EncodesPointOf) {sk : Key}
    {P : PubKey} (hkey : lib.getPubKey sk = some P) {m : Str} {sig : Bytes}
    (hsign : compactSign lib sk m = some sig) (m' : Str) (blog : Bool) :
    (compactVerify lib P m' sig blog).2 = true ↔ m = m' := by
  rw [compactVerify_accepts]
  constructor
  · intro haccept
    rcases haccept with ⟨Q, hrecover, hid⟩
    by_contra hne
    have hdigest : lib.digest m' ≠ lib.digest m := by
      intro h
      exact hne (hlib.digest_inj.mp h).symm
    exact hlib.recover_other sk _ _ sig P Q hdigest hsign hkey hrecover hid
  · intro hm
    subst hm
    -- the recovered key is the signer's with the same compression, so the ids agree
    have hrecover := hlib.recover_sign sk _ sig hsign
    exact ⟨P, hrecover.trans hkey, rfl⟩

theorem signMsg_prints (hlib : lib.Lawful EncodesPointOf) {strprivkey : Str} {key : Key}
    {P : PubKey} (hkeys : getKeysFromSecret lib strprivkey = some (some (key, P)))
    (tool cmd m : Str) :
    ∃ sig, lib.sign key (lib.digest m) = some sig ∧
      signMsg lib [tool, cmd, strprivkey, m] = some [base64Line (lib.encodeBase64 sig)] := by
  have hvalid := hlib.getPubKey_valid key P (getKeysFromSecret_getPubKey hkeys)
  obtain ⟨sig, hsig⟩ := Option.isSome_iff_exists.mp (hlib.sign_valid key (lib.digest m) hvalid)
  refine ⟨sig, hsig, ?_⟩
  simp [signMsg, cmdindex, hkeys, msgSign_eq, hsig]

theorem compactSignHandle_prints (hlib : lib.Lawful EncodesPointOf) {strprivkey : Str} {key : Key}
    {P : PubKey} (hkeys : getKeysFromSecret lib strprivkey = some (some (key, P)))
    (tool cmd m : Str) :
    ∃ sig, compactSign lib key m = some sig ∧
      compactSignHandle lib [tool, cmd, strprivkey, m] =
        some [base64Line (lib.encodeBase64 sig)] := by
  have hvalid := hlib.getPubKey_valid key P (getKeysFromSecret_getPubKey hkeys)
  obtain ⟨sig, hsig⟩ := Option.isSome_iff_exists.mp
    (hlib.signCompact_valid key (lib.digest m) hvalid)
  have hsign : compactSign lib key m = some sig := hsig
  refine ⟨sig, hsign, ?_⟩
  simp [compactSignHandle, cmdindex, hkeys, hsign]

theorem signVerify_success (tool cmd hex m text : Str) :
    PrintsSuccess (signVerify lib [tool, cmd, hex, m, text]) ↔
      (msgVerify lib (lib.cPubKey (lib.parseHex hex)) m (lib.decodeBase64 text) false).2 = true := by
  simp only [signVerify, cmdindex, msgVerify_eq]
  cases hverify : lib.verify (lib.cPubKey (lib.parseHex hex)) (lib.digest m)
      (lib.decodeBase64 text) <;> simp [PrintsSuccess, hverify, verifySuccess_ne]

theorem compactVerifyHandle_success [DecidableEq KeyID] (tool cmd hex m text : Str) :
    PrintsSuccess (compactVerifyHandle lib [tool, cmd, hex, m, text]) ↔
      (compactVerify lib (lib.cPubKey (lib.parseHex hex)) m (lib.decodeBase64 text) true).2 =
        true := by
  have hsilent : verifySuccess ∉ (compactVerify lib (lib.cPubKey (lib.parseHex hex)) m
      (lib.decodeBase64 text) true).1 := compactVerify_not_success _ _ _ _
  simp only [compactVerifyHandle, cmdindex]
  cases hverify : compactVerify lib (lib.cPubKey (lib.parseHex hex)) m (lib.decodeBase64 text) true
    with
  | mk printed result =>
      rw [hverify] at hsilent
      cases result <;> simp [PrintsSuccess, hverify, hsilent]

theorem signVerify_hex_base64 (hlib : lib.Lawful EncodesPointOf) {sk : Key} {P : PubKey}
    (hkey : lib.getPubKey sk = some P) {m : Str} {sig : Bytes}
    (hsign : lib.sign sk (lib.digest m) = some sig) (tool cmd m' : Str) :
    PrintsSuccess (signVerify lib
      [tool, cmd, lib.hexStr (lib.pubKeyBytes P), m', lib.encodeBase64 sig]) ↔ m = m' := by
  rw [signVerify_success, hlib.parseHex_hexStr, hlib.cPubKey_bytes sk P hkey,
    hlib.decodeBase64_encodeBase64]
  exact msgVerify_msgSign hlib hkey hsign m'

theorem compactVerifyHandle_hex_base64 [DecidableEq KeyID] (hlib : lib.Lawful EncodesPointOf)
    {sk : Key} {P : PubKey} (hkey : lib.getPubKey sk = some P) {m : Str} {sig : Bytes}
    (hsign : compactSign lib sk m = some sig) (tool cmd m' : Str) :
    PrintsSuccess (compactVerifyHandle lib
      [tool, cmd, lib.hexStr (lib.pubKeyBytes P), m', lib.encodeBase64 sig]) ↔ m = m' := by
  rw [compactVerifyHandle_success, hlib.parseHex_hexStr, hlib.cPubKey_bytes sk P hkey,
    hlib.decodeBase64_encodeBase64]
  exact compactVerify_compactSign hlib hkey hsign m' true

end

/-- For an accepted private key with public key `P`, each signing command prints a Base64 text, and
the verifying command accepts `P` and that text for exactly the message signed. -/
theorem sign_verify_commands_agree [DecidableEq KeyID] (lib : KeyLib Secret Key PubKey Hash KeyID)
    (EncodesPointOf : PubKey → Key → Prop) (hlib : lib.Lawful EncodesPointOf)
    (strprivkey : Str) (key : Key) (P : PubKey)
    (hkeys : getKeysFromSecret lib strprivkey = some (some (key, P))) (tool m m' : Str) :
    (∃ text, signMsg lib [tool, "signmsg".toList, strprivkey, m] = some [base64Line text] ∧
      (PrintsSuccess (signVerify lib
        [tool, "verifymsg".toList, lib.hexStr (lib.pubKeyBytes P), m', text]) ↔ m = m')) ∧
    ∃ text, compactSignHandle lib [tool, "compactsign".toList, strprivkey, m] =
        some [base64Line text] ∧
      (PrintsSuccess (compactVerifyHandle lib
        [tool, "compactverify".toList, lib.hexStr (lib.pubKeyBytes P), m', text]) ↔ m = m') := by
  have hkey := getKeysFromSecret_getPubKey hkeys
  constructor
  · obtain ⟨sig, hsign, hprint⟩ := signMsg_prints hlib hkeys tool "signmsg".toList m
    exact ⟨lib.encodeBase64 sig, hprint, signVerify_hex_base64 hlib hkey hsign tool _ m'⟩
  · obtain ⟨sig, hsign, hprint⟩ := compactSignHandle_prints hlib hkeys tool "compactsign".toList m
    exact ⟨lib.encodeBase64 sig, hprint, compactVerifyHandle_hex_base64 hlib hkey hsign tool _ m'⟩

theorem sign_verify_commands_agree_sample :
    (∃ text, signMsg sampleLib ["tool".toList, "signmsg".toList, "0501".toList, "pay".toList] =
        some [base64Line text] ∧
      PrintsSuccess (signVerify sampleLib
        ["tool".toList, "verifymsg".toList, hexEncode [2, 5], "pay".toList, text])) ∧
    ∃ text, compactSignHandle sampleLib
        ["tool".toList, "compactsign".toList, "0501".toList, "pay".toList] =
        some [base64Line text] ∧
      ¬PrintsSuccess (compactVerifyHandle sampleLib
        ["tool".toList, "compactverify".toList, hexEncode [2, 5], "pay more".toList, text]) := by
  have hkeys : getKeysFromSecret sampleLib "0501".toList = some (some ((5, true), [2, 5])) := by
    decide
  constructor
  · obtain ⟨⟨text, hprint, hverify⟩, -⟩ := sign_verify_commands_agree sampleLib SampleEncodes
      sampleLib_lawful "0501".toList (5, true) [2, 5] hkeys "tool".toList "pay".toList "pay".toList
    exact ⟨text, hprint, hverify.mpr rfl⟩
  · obtain ⟨-, text, hprint, hverify⟩ := sign_verify_commands_agree sampleLib SampleEncodes
      sampleLib_lawful "0501".toList (5, true) [2, 5] hkeys "tool".toList "pay".toList
      "pay more".toList
    refine ⟨text, hprint, ?_⟩
    intro hsuccess
    exact absurd (hverify.mp hsuccess) (by decide)

end CoinTool
