import Mathlib.Data.List.TakeWhile
import Mathlib.Algebra.Ring.Int.Defs
import Mathlib.Algebra.Ring.Nat

/-!
# Strings and numbers of the command line

`atoi` follows the C library the tool is built with:
leading white space, one optional sign and the longest run of digits, read as a `long` and then
cut down to an `int`.
-/

namespace CoinTool

/-- A `std::string`.  A `Char` stands for one `char` of it, so that lengths count bytes. -/
abbrev Str := List Char

def int32 (z : Int) : Int := z.bmod (2 ^ 32)

def isSpace (ch : Char) : Bool := ch.toNat = 32 || (9 ≤ ch.toNat && ch.toNat ≤ 13)

def leadingDigits : Int → Str → Int
  | acc, [] => acc
  | acc, ch :: rest =>
      if ch.isDigit then leadingDigits (acc * 10 + (ch.toNat - 48 : Nat)) rest else acc

/-- `strtol(str, NULL, 10)`: out of range numbers end at the bounds of `long`. -/
def strtol (str : Str) : Int :=
  let value := match str.dropWhile isSpace with
    | '-' :: rest => -leadingDigits 0 rest
    | '+' :: rest => leadingDigits 0 rest
    | rest => leadingDigits 0 rest
  max (-2 ^ 63) (min value (2 ^ 63 - 1))

def atoi (str : Str) : Int := int32 (strtol str)

example : atoi " -17x".toList = -17 := by decide

/-- What `%s` prints of a `c_str()`: the characters before the first zero. -/
def cStr (str : Str) : Str := str.takeWhile fun ch => ch ≠ '\x00'

theorem cStr_of_not_mem {str : Str} (h : '\x00' ∉ str) : cStr str = str := by
  rw [cStr, List.takeWhile_eq_self_iff]
  intro ch hch
  rw [decide_eq_true_eq]
  rintro rfl
  exact h hch

def atob (str : Str) : Bool := "true".toList = str

def decimal (z : Int) : Str := (toString z).toList

def getRankString (index : Int) : Str :=
  if index = 1 then "1st".toList
  else if index = 2 then "2nd".toList
  else if index = 3 then "3rd".toList
  else if index < 1 then []
  else decimal index ++ "th".toList

def showerror (text : Str) : Str := "ERROR: ".toList ++ text ++ "\n".toList

/-- The positions of the command and of its arguments in `argv`. -/
def cmdindex : Nat := 1

end CoinTool
