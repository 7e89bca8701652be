import CoinTool.Common.KeyTool.Sign

/-!
# Pairs of keys

A private key and a public key are a pair when both signature schemes agree: plain verification
accepts any encoding of the point, the recovered key only the encoding of the private key.
-/

namespace CoinTool

section

variable {Secret Key PubKey Hash KeyID : Type}

def isPairOfKey [DecidableEq KeyID] (lib : KeyLib Secret Key PubKey Hash KeyID) (privkey : Key)
    (pubkey : PubKey) (msg : Str) : List Str × Bool :=
  match msgSign lib privkey msg false with
  | (signed, none) => (signed, false)
  | (signed, some vchSig1) =>
      match msgVerify lib pubkey msg vchSig1 false with
      | (verified, false) => (signed ++ verified, false)
      | (verified, true) =>
          match compactSign lib privkey msg with
          | none => (signed ++ verified, false)
          | some vchSig =>
              let (compared, result) := compactVerify lib pubkey msg vchSig false
              (signed ++ verified ++ compared, result)

/-- What is assumed of the library here.  `EncodesPointOf bytes sk` says that these bytes are a
compressed, uncompressed or hybrid encoding of the point of `sk`. -/
structure KeyLib.PairLaws (lib : KeyLib Secret Key PubKey Hash KeyID)
    (EncodesPointOf : Bytes → Key → Prop) : Prop where
  sign_valid : ∀ sk h, (lib.sign sk h).isSome = lib.isValid sk
  signCompact_valid : ∀ sk h, (lib.signCompact sk h).isSome = lib.isValid sk
  getPubKey_valid : ∀ sk, (lib.getPubKey sk).isSome = lib.isValid sk
  getPubKey_encodes : ∀ sk P, lib.getPubKey sk = some P → EncodesPointOf (lib.pubKeyBytes P) sk
  verify_sign : ∀ bytes sk h sig, lib.sign sk h = some sig →
    (lib.verify (lib.cPubKey bytes) h sig = true ↔ EncodesPointOf bytes sk)
  recover_sign : ∀ sk h sig, lib.signCompact sk h = some sig →
    lib.recoverCompact h sig = lib.getPubKey sk
  getID_bytes : ∀ P Q, lib.getID P = lib.getID Q → lib.pubKeyBytes P = lib.pubKeyBytes Q
  pubKeyBytes_cPubKey : ∀ bytes sk, EncodesPointOf bytes sk →
    lib.pubKeyBytes (lib.cPubKey bytes) = bytes
  cPubKey_bytes : ∀ sk P, lib.getPubKey sk = some P → lib.cPubKey (lib.pubKeyBytes P) = P

variable {lib : KeyLib Secret Key PubKey Hash KeyID} {EncodesPointOf : Bytes → Key → Prop}

theorem isPairOfKey_eq [DecidableEq KeyID] (privkey : Key) (pubkey : PubKey) (msg : Str) :
    (isPairOfKey lib privkey pubkey msg).2 = true ↔
      ∃ vchSig1 vchSig, lib.sign privkey (lib.digest msg) = some vchSig1 ∧
        lib.verify pubkey (lib.digest msg) vchSig1 = true ∧
        compactSign lib privkey msg = some vchSig ∧
        (compactVerify lib pubkey msg vchSig false).2 = true := by
  simp only [isPairOfKey, msgSign_eq, msgVerify_eq]
  cases lib.sign privkey (lib.digest msg) with
  | none => simp
  | some vchSig1 =>
      cases hverify : lib.verify pubkey (lib.digest msg) vchSig1 with
      | false => simp [hverify]
      | true =>
          cases compactSign lib privkey msg with
          | none => simp [hverify]
          | some vchSig => simp [hverify]

theorem isPairOfKey_iff_bytes [DecidableEq KeyID] (hlib : lib.PairLaws EncodesPointOf) (sk : Key)
    (pk : Bytes) (msg : Str) :
    (isPairOfKey lib sk (lib.cPubKey pk) msg).2 = true ↔
      lib.isValid sk = true ∧ (lib.getPubKey sk).map lib.pubKeyBytes = some pk := by
  rw [isPairOfKey_eq]
  constructor
  · rintro ⟨vchSig1, vchSig, hsign, hverify, hcompact, haccept⟩
    have hvalid : lib.isValid sk = true := by
      rw [← hlib.sign_valid sk (lib.digest msg), hsign]
      rfl
    have hencodes := (hlib.verify_sign pk sk _ vchSig1 hsign).mp hverify
    obtain ⟨Q, hrecover, hid⟩ := (compactVerify_accepts _ msg vchSig false).mp haccept
    have hpub : lib.getPubKey sk = some Q := by
      rw [← hrecover]
      exact (hlib.recover_sign sk _ vchSig hcompact).symm
    refine ⟨hvalid, ?_⟩
    rw [hpub, Option.map_some, hlib.getID_bytes _ _ hid, hlib.pubKeyBytes_cPubKey pk sk hencodes]
  · rintro ⟨hvalid, hbytes⟩
    obtain ⟨P, hpub, rfl⟩ := Option.map_eq_some_iff.mp hbytes
    obtain ⟨vchSig1, hsign⟩ := Option.isSome_iff_exists.mp
      ((hlib.sign_valid sk (lib.digest msg)).trans hvalid)
    obtain ⟨vchSig, hcompact⟩ := Option.isSome_iff_exists.mp
      ((hlib.signCompact_valid sk (lib.digest msg)).trans hvalid)
    have hencodes := hlib.getPubKey_encodes sk P hpub
    refine ⟨vchSig1, vchSig, hsign, (hlib.verify_sign _ sk _ _ hsign).mpr hencodes, hcompact, ?_⟩
    rw [compactVerify_accepts, hlib.cPubKey_bytes sk P hpub]
    exact ⟨P, (hlib.recover_sign sk _ vchSig hcompact).trans hpub, rfl⟩

end

/-- Whether two keys are a pair does not depend on the message, and another encoding of the same
point is refused. -/
theorem isPairOfKey_decides {Secret Key PubKey Hash KeyID : Type} [DecidableEq KeyID]
    (lib : KeyLib Secret Key PubKey Hash KeyID) (EncodesPointOf : Bytes → Key → Prop)
    (hlib : lib.PairLaws EncodesPointOf) (sk : Key) (pk : Bytes) (msg : Str) :
    ((isPairOfKey lib sk (lib.cPubKey pk) msg).2 = true ↔
      lib.isValid sk = true ∧ (lib.getPubKey sk).map lib.pubKeyBytes = some pk) ∧
    (∀ msg', (isPairOfKey lib sk (lib.cPubKey pk) msg').2 =
      (isPairOfKey lib sk (lib.cPubKey pk) msg).2) ∧
    (EncodesPointOf pk sk → (lib.getPubKey sk).map lib.pubKeyBytes ≠ some pk →
      (isPairOfKey lib sk (lib.cPubKey pk) msg).2 = false) := by
  have hpair := isPairOfKey_iff_bytes hlib sk pk msg
  refine ⟨hpair, ?_, ?_⟩
  · intro msg'
    rw [Bool.eq_iff_iff, hpair]
    exact isPairOfKey_iff_bytes hlib sk pk msg'
  · intro _ hother
    rw [Bool.eq_false_iff, Ne, hpair]
    intro hboth
    exact hother hboth.2

theorem sampleLib_pairLaws : sampleLib.PairLaws SampleEncodes where
  sign_valid sk h := by
    by_cases hsk : sk.1 = 0 <;> simp [sampleLib, hsk]
  signCompact_valid sk h := by
    by_cases hsk : sk.1 = 0 <;> simp [sampleLib, hsk]
  getPubKey_valid sk := by
    by_cases hsk : sk.1 = 0 <;> simp [sampleLib, hsk]
  getPubKey_encodes := sampleLib_lawful.getPubKey_encodes
  verify_sign bytes sk h sig hsign := by
    have hverify := sampleLib_lawful.verify_sign bytes sk h h sig hsign
    rw [eq_self, true_and] at hverify
    exact hverify
  recover_sign := sampleLib_lawful.recover_sign
  getID_bytes _ _ h := h
  pubKeyBytes_cPubKey _ _ _ := rfl
  cPubKey_bytes _ _ _ := rfl

theorem isPairOfKey_decides_sample :
    (isPairOfKey sampleLib (5, true) [2, 5] "pay".toList).2 = true ∧
      (isPairOfKey sampleLib (5, true) [4, 5] "pay".toList).2 = false := by
  constructor
  · exact (isPairOfKey_decides sampleLib SampleEncodes sampleLib_pairLaws (5, true) [2, 5]
      "pay".toList).1.mpr (by decide)
  · exact (isPairOfKey_decides sampleLib SampleEncodes sampleLib_pairLaws (5, true) [4, 5]
      "pay".toList).2.2 (Or.inr rfl) (by decide)

end CoinTool
