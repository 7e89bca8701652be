import Mathlib.Data.List.Nodup
import Mathlib.Data.List.GetD

/-!
# Bytes as text

Hexadecimal and Base64 text over an alphabet of digits.  Reading undoes writing because the digits
of an alphabet differ.
-/

namespace CoinTool.Framework

def digitChar (alphabet : List Char) (n : Nat) : Char := alphabet.getD n '='

def charDigit (alphabet : List Char) (ch : Char) : Nat := alphabet.idxOf ch

theorem charDigit_digitChar {alphabet : List Char} (h : alphabet.Nodup) {n : Nat}
    (hn : n < alphabet.length) : charDigit alphabet (digitChar alphabet n) = n := by
  rw [charDigit, digitChar, List.getD_eq_getElem _ _ hn]
  exact h.idxOf_getElem n hn

theorem digitChar_ne {alphabet : List Char} {ch : Char} (h : ch ∉ alphabet) {n : Nat}
    (hn : n < alphabet.length) : digitChar alphabet n ≠ ch := by
  rw [digitChar, List.getD_eq_getElem _ _ hn]
  intro hch
  exact h (hch ▸ List.getElem_mem hn)

def hexDigits : List Char := "0123456789abcdef".toList

def hexEncode : List UInt8 → List Char
  | [] => []
  | b :: rest =>
      digitChar hexDigits (b.toNat / 16) :: digitChar hexDigits (b.toNat % 16) :: hexEncode rest

def hexDecode : List Char → List UInt8
  | high :: low :: rest =>
      UInt8.ofNat (charDigit hexDigits high * 16 + charDigit hexDigits low) :: hexDecode rest
  | _ => []

theorem hexDecode_hexEncode (bytes : List UInt8) : hexDecode (hexEncode bytes) = bytes := by
  have hvalue (n : Nat) (hn : n < 16) : charDigit hexDigits (digitChar hexDigits n) = n :=
    charDigit_digitChar (by decide) hn
  induction bytes with
  | nil => rfl
  | cons b rest ih =>
      have hlt := b.toNat_lt
      rw [hexEncode, hexDecode, hvalue _ (by omega), hvalue _ (by omega), ih, Nat.div_add_mod',
        UInt8.ofNat_toNat]

def base64Digits : List Char :=
  "ABCDEFGHIJKLMNOPQRSTUVWXYZabcdefghijklmnopqrstuvwxyz0123456789+/".toList

/-- Three bytes make four digits; a group cut short is filled up with `=`. -/
def base64Encode : List UInt8 → List Char
  | a :: b :: c :: rest =>
      digitChar base64Digits (a.toNat / 4) ::
        digitChar base64Digits (a.toNat % 4 * 16 + b.toNat / 16) ::
        digitChar base64Digits (b.toNat % 16 * 4 + c.toNat / 64) ::
        digitChar base64Digits (c.toNat % 64) :: base64Encode rest
  | [a, b] =>
      [digitChar base64Digits (a.toNat / 4),
        digitChar base64Digits (a.toNat % 4 * 16 + b.toNat / 16),
        digitChar base64Digits (b.toNat % 16 * 4), '=']
  | [a] =>
      [digitChar base64Digits (a.toNat / 4), digitChar base64Digits (a.toNat % 4 * 16), '=', '=']
  | [] => []

def base64Decode : List Char → List UInt8
  | w :: x :: y :: z :: rest =>
      let value := charDigit base64Digits
      let first := UInt8.ofNat (value w * 4 + value x / 16)
      let second := UInt8.ofNat (value x % 16 * 16 + value y / 4)
      let third := UInt8.ofNat (value y % 4 * 64 + value z)
      if y = '=' then [first]
      else if z = '=' then [first, second]
      else first :: second :: third :: base64Decode rest
  | _ => []

theorem base64Decode_base64Encode (bytes : List UInt8) :
    base64Decode (base64Encode bytes) = bytes := by
  have hvalue (n : Nat) (hn : n < 64) : charDigit base64Digits (digitChar base64Digits n) = n :=
    charDigit_digitChar (by decide) hn
  have hpad (n : Nat) (hn : n < 64) : digitChar base64Digits n ≠ '=' :=
    digitChar_ne (by decide) hn
  have hbyte (n : Nat) (b : UInt8) (h : n = b.toNat) : UInt8.ofNat n = b := by
    rw [h, UInt8.ofNat_toNat]
  fun_induction base64Encode bytes with
  | case1 a b c rest ih =>
      have ha := a.toNat_lt
      have hb := b.toNat_lt
      have hc := c.toNat_lt
      rw [base64Decode]
      simp only [if_neg (hpad _ (by omega : b.toNat % 16 * 4 + c.toNat / 64 < 64)),
        if_neg (hpad _ (by omega : c.toNat % 64 < 64)), ih]
      rw [hvalue _ (by omega), hvalue _ (by omega), hvalue _ (by omega), hvalue _ (by omega),
        hbyte _ a (by omega), hbyte _ b (by omega), hbyte _ c (by omega)]
  | case2 a b =>
      have ha := a.toNat_lt
      have hb := b.toNat_lt
      rw [base64Decode]
      simp only [if_neg (hpad _ (by omega : b.toNat % 16 * 4 < 64)), if_true]
      rw [hvalue _ (by omega), hvalue _ (by omega), hvalue _ (by omega),
        hbyte _ a (by omega), hbyte _ b (by omega)]
  | case3 a =>
      have ha := a.toNat_lt
      rw [base64Decode]
      simp only [if_true]
      rw [hvalue _ (by omega), hvalue _ (by omega), hbyte _ a (by omega)]
  | case4 => rfl

end CoinTool.Framework
