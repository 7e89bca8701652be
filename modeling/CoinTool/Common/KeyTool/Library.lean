import CoinTool.Framework.LengthPrefix
import CoinTool.Framework.TextCodec
import CoinTool.Common.Utils.Text

/-!
# The library behind the key tool

Keys, hashing and text encodings come from the chain's library.  They are parameters, with what the
key tool relies on as named assumptions, and a small library shows that these can be met together.
-/

namespace CoinTool

open Framework

abbrev Bytes := List UInt8

structure KeyLib (Secret Key PubKey Hash KeyID : Type) where
  setString : Str → Option Secret
  getKey : Secret → Key
  secretToString : Key → Str
  keyBytes : Key → Bytes
  isValid : Key → Bool
  /-- `CKey::GetPubKey` asserts that the key is valid. -/
  getPubKey : Key → Option PubKey
  sign : Key → Hash → Option Bytes
  signCompact : Key → Hash → Option Bytes
  cPubKey : Bytes → PubKey
  pubKeyBytes : PubKey → Bytes
  verify : PubKey → Hash → Bytes → Bool
  recoverCompact : Hash → Bytes → Option PubKey
  getID : PubKey → KeyID
  idToString : KeyID → Str
  /-- The length that a `CHashWriter` writes before a string. -/
  writeCompactSize : Nat → Str
  /-- The hash of what has been written to a `CHashWriter`. -/
  getHash : Str → Hash
  encodeBase64 : Bytes → Str
  decodeBase64 : Str → Bytes
  hexStr : Bytes → Str
  parseHex : Str → Bytes

section

variable {Secret Key PubKey Hash KeyID : Type}

/-- What is assumed of the library.  `EncodesPointOf pk sk` says that `pk` encodes the point of
`sk`, in any form. -/
structure KeyLib.Lawful (lib : KeyLib Secret Key PubKey Hash KeyID)
    (EncodesPointOf : PubKey → Key → Prop) : Prop where
  getPubKey_valid : ∀ sk P, lib.getPubKey sk = some P → lib.isValid sk = true
  getPubKey_encodes : ∀ sk P, lib.getPubKey sk = some P → EncodesPointOf P sk
  sign_valid : ∀ sk h, lib.isValid sk = true → (lib.sign sk h).isSome
  signCompact_valid : ∀ sk h, lib.isValid sk = true → (lib.signCompact sk h).isSome
  verify_sign : ∀ pk sk h h' sig, lib.sign sk h' = some sig →
    (lib.verify pk h sig = true ↔ h = h' ∧ EncodesPointOf pk sk)
  recover_sign : ∀ sk h sig, lib.signCompact sk h = some sig →
    lib.recoverCompact h sig = lib.getPubKey sk
  recover_other : ∀ sk h h' sig P Q, h ≠ h' → lib.signCompact sk h' = some sig →
    lib.getPubKey sk = some P → lib.recoverCompact h sig = some Q → lib.getID Q ≠ lib.getID P
  getHash_injective : Function.Injective lib.getHash
  writeCompactSize_delimits : SelfDelimiting lib.writeCompactSize
  decodeBase64_encodeBase64 : ∀ bytes, lib.decodeBase64 (lib.encodeBase64 bytes) = bytes
  parseHex_hexStr : ∀ bytes, lib.parseHex (lib.hexStr bytes) = bytes
  cPubKey_bytes : ∀ sk P, lib.getPubKey sk = some P → lib.cPubKey (lib.pubKeyBytes P) = P

end

/-- A length below 253 is one character; each 253 more puts a marker in front. -/
def sampleSize (n : Nat) : Str :=
  if n < 253 then [Char.ofNat n] else Char.ofNat 255 :: sampleSize (n - 253)

theorem sampleSize_of_lt {n : Nat} (h : n < 253) : sampleSize n = [Char.ofNat n] := by
  rw [sampleSize, if_pos h]

theorem sampleSize_of_ge {n : Nat} (h : ¬n < 253) :
    sampleSize n = Char.ofNat 255 :: sampleSize (n - 253) := by
  rw [sampleSize, if_neg h]

theorem toNat_ofNat_of_le {n : Nat} (h : n ≤ 255) : (Char.ofNat n).toNat = n := by
  rw [Char.ofNat, dif_pos (Or.inl (by omega))]
  rfl

theorem ofNat_inj_of_le {m n : Nat} (hm : m ≤ 255) (hn : n ≤ 255)
    (h : Char.ofNat m = Char.ofNat n) : m = n := by
  have hcode := congrArg Char.toNat h
  rwa [toNat_ofNat_of_le hm, toNat_ofNat_of_le hn] at hcode

theorem sampleSize_selfDelimiting : SelfDelimiting sampleSize := by
  intro a b x y h
  induction a using Nat.strong_induction_on generalizing b with
  | _ a ih =>
      by_cases ha : a < 253 <;> by_cases hb : b < 253
      · rw [sampleSize_of_lt ha, sampleSize_of_lt hb] at h
        obtain ⟨hab, hxy⟩ := List.cons_eq_cons.mp h
        exact ⟨ofNat_inj_of_le (by omega) (by omega) hab, hxy⟩
      · rw [sampleSize_of_lt ha, sampleSize_of_ge hb] at h
        have hmark := ofNat_inj_of_le (by omega) (by omega) (List.cons_eq_cons.mp h).1
        omega
      · rw [sampleSize_of_ge ha, sampleSize_of_lt hb] at h
        have hmark := ofNat_inj_of_le (by omega) (by omega) (List.cons_eq_cons.mp h).1
        omega
      · rw [sampleSize_of_ge ha, sampleSize_of_ge hb] at h
        obtain ⟨hab, hxy⟩ := ih (a - 253) (by omega) (b - 253) (List.cons_eq_cons.mp h).2
        exact ⟨by omega, hxy⟩

abbrev SampleKey := UInt8 × Bool

/-- The number of a key stands for its point, a signature is the key's number with the digest, and
texts are those of the real encodings. -/
def sampleLib : KeyLib SampleKey SampleKey Bytes Bytes Bytes where
  setString str :=
    match hexDecode str with
    | [number, compressed] => some (number, compressed == 1)
    | _ => none
  getKey secret := secret
  secretToString sk := hexEncode [sk.1, if sk.2 then 1 else 0]
  keyBytes sk := [sk.1]
  isValid sk := sk.1 != 0
  getPubKey sk := if sk.1 = 0 then none else some [if sk.2 then 2 else 4, sk.1]
  sign sk h := if sk.1 = 0 then none else some (sk.1 :: h)
  signCompact sk h := if sk.1 = 0 then none else some ((if sk.2 then 2 else 4) :: sk.1 :: h)
  cPubKey bytes := bytes
  pubKeyBytes pk := pk
  verify pk h sig := decide ((pk = [2, sig.headD 0] ∨ pk = [4, sig.headD 0]) ∧ sig.tail = h)
  recoverCompact h sig := if sig.drop 2 = h then some (sig.take 2) else none
  getID pk := pk
  idToString id := hexEncode id
  writeCompactSize := sampleSize
  getHash str := (String.ofList str).toByteArray.data.toList
  encodeBase64 := base64Encode
  decodeBase64 := base64Decode
  hexStr := hexEncode
  parseHex := hexDecode

def SampleEncodes (pk : Bytes) (sk : SampleKey) : Prop := pk = [2, sk.1] ∨ pk = [4, sk.1]

theorem sampleLib_lawful : sampleLib.Lawful SampleEncodes where
  getPubKey_valid sk P h := by
    by_cases hsk : sk.1 = 0
    · simp [sampleLib, hsk] at h
    · simp [sampleLib, hsk]
  getPubKey_encodes sk P h := by
    by_cases hsk : sk.1 = 0
    · simp [sampleLib, hsk] at h
    · simp only [sampleLib, hsk, if_false, Option.some.injEq] at h
      subst h
      cases sk.2 <;> simp [SampleEncodes]
  sign_valid sk h hsk := by
    simpa [sampleLib] using hsk
  signCompact_valid sk h hsk := by
    simpa [sampleLib] using hsk
  verify_sign pk sk h h' sig hsign := by
    by_cases hsk : sk.1 = 0
    · simp [sampleLib, hsk] at hsign
    · simp only [sampleLib, hsk, if_false, Option.some.injEq] at hsign
      subst hsign
      show decide ((pk = [2, sk.1] ∨ pk = [4, sk.1]) ∧ h' = h) = true ↔
        h = h' ∧ (pk = [2, sk.1] ∨ pk = [4, sk.1])
      rw [decide_eq_true_eq]
      constructor
      · intro hverify
        rcases hverify with ⟨hpk, hh⟩
        exact ⟨hh.symm, hpk⟩
      · intro hverify
        rcases hverify with ⟨hh, hpk⟩
        exact ⟨hpk, hh.symm⟩
  recover_sign sk h sig hsign := by
    by_cases hsk : sk.1 = 0
    · simp [sampleLib, hsk] at hsign
    · simp only [sampleLib, hsk, if_false, Option.some.injEq] at hsign
      subst hsign
      simp [sampleLib, hsk]
  recover_other sk h h' sig P Q hne hsign _ hrecover := by
    by_cases hsk : sk.1 = 0
    · simp [sampleLib, hsk] at hsign
    · simp only [sampleLib, hsk, if_false, Option.some.injEq] at hsign
      subst hsign
      simp [sampleLib, hne.symm] at hrecover
  getHash_injective a b h := by
    simp only [sampleLib, Array.toList_inj] at h
    exact String.ofList_injective (String.toByteArray_inj.mp (ByteArray.ext h))
  writeCompactSize_delimits := sampleSize_selfDelimiting
  decodeBase64_encodeBase64 := base64Decode_base64Encode
  parseHex_hexStr := hexDecode_hexEncode
  cPubKey_bytes _ _ _ := rfl

end CoinTool
