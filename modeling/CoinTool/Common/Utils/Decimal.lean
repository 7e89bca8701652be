import CoinTool.Common.Utils.Text

/-!
# Numbers that are read back

`atoi` and `strtol` read what a stream prints of an integer, which begins with a digit or a minus
sign and holds nothing but digits after it.
-/

namespace CoinTool

theorem leadingDigits_eq (digits : List Char) (h : ∀ ch ∈ digits, ch.isDigit = true) (acc : Nat) :
    leadingDigits acc digits = Nat.ofDigitChars 10 digits acc := by
  induction digits generalizing acc with
  | nil => rw [leadingDigits, Nat.ofDigitChars_nil]
  | cons ch digits ih =>
      have hdigit := h ch List.mem_cons_self
      have hrest := ih (fun ch' hmem => h ch' (List.mem_cons_of_mem ch hmem))
        (10 * acc + (ch.toNat - 48))
      rw [leadingDigits, if_pos hdigit, Nat.ofDigitChars_cons]
      have hacc : (acc : Int) * 10 + (ch.toNat - 48 : Nat) =
          (10 * acc + (ch.toNat - 48) : Nat) := by
        omega
      rw [hacc]
      exact hrest

theorem leadingDigits_toDigits (n : Nat) : leadingDigits 0 (Nat.toDigits 10 n) = n := by
  have hdigits : ∀ ch ∈ Nat.toDigits 10 n, ch.isDigit = true := fun ch hmem =>
    Nat.isDigit_of_mem_toDigits (by decide) (by decide) hmem
  have hread := leadingDigits_eq (Nat.toDigits 10 n) hdigits 0
  rwa [Nat.ofDigitChars_ten_toDigits] at hread

theorem digit_not_space {ch : Char} (h : ch.isDigit = true) :
    isSpace ch = false ∧ ch ≠ '-' ∧ ch ≠ '+' := by
  rw [Char.isDigit_iff_toNat] at h
  refine ⟨?_, ?_, ?_⟩
  · simp only [isSpace, Bool.or_eq_false_iff, decide_eq_false_iff_not, Bool.and_eq_false_iff]
    have hzero : '0'.toNat = 48 := rfl
    omega
  · rintro rfl
    exact absurd h (by decide)
  · rintro rfl
    exact absurd h (by decide)

def clampLong (z : Int) : Int := max (-2 ^ 63) (min z (2 ^ 63 - 1))

theorem clampLong_of_fits {z : Int} (hlow : -2 ^ 63 ≤ z) (hhigh : z < 2 ^ 63) :
    clampLong z = z := by
  rw [clampLong]
  omega

theorem strtol_digits {digits : List Char} (h : ∀ ch ∈ digits, ch.isDigit = true) :
    strtol digits = clampLong (leadingDigits 0 digits) := by
  cases digits with
  | nil => rfl
  | cons ch digits =>
      obtain ⟨hspace, hminus, hplus⟩ := digit_not_space (h ch List.mem_cons_self)
      have hdrop : (ch :: digits).dropWhile isSpace = ch :: digits :=
        List.dropWhile_cons_of_neg (by rw [hspace]; exact Bool.false_ne_true)
      rw [strtol, hdrop]
      split
      · rename_i heq
        exact absurd (List.head_eq_of_cons_eq heq) hminus
      · rename_i heq
        exact absurd (List.head_eq_of_cons_eq heq) hplus
      · rfl

theorem strtol_minus (digits : List Char) :
    strtol ('-' :: digits) = clampLong (-leadingDigits 0 digits) := rfl

theorem decimal_natCast (n : Nat) : decimal n = Nat.toDigits 10 n := by
  rw [decimal, Int.toString_eq_repr, Int.repr_eq_if, if_pos (Int.natCast_nonneg n),
    Int.toNat_natCast, Nat.toList_repr]

theorem decimal_neg {n : Nat} (h : 0 < n) : decimal (-(n : Int)) = '-' :: Nat.toDigits 10 n := by
  rw [decimal, Int.toString_eq_repr, Int.repr_eq_if, if_neg (by omega), Int.neg_neg,
    Int.toNat_natCast, String.toList_append, Nat.toList_repr]
  rfl

theorem strtol_decimal {z : Int} (hlow : -2 ^ 63 ≤ z) (hhigh : z < 2 ^ 63) :
    strtol (decimal z) = z := by
  obtain ⟨n, rfl | rfl⟩ := Int.eq_nat_or_neg z
  · rw [decimal_natCast, strtol_digits fun ch hmem =>
      Nat.isDigit_of_mem_toDigits (by decide) (by decide) hmem, leadingDigits_toDigits]
    exact clampLong_of_fits hlow hhigh
  · by_cases hzero : n = 0
    · subst hzero
      rfl
    · rw [decimal_neg (Nat.pos_of_ne_zero hzero), strtol_minus, leadingDigits_toDigits]
      exact clampLong_of_fits hlow hhigh

theorem atoi_decimal {z : Int} (h : int32 z = z) : atoi (decimal z) = z := by
  have hlow : -2 ^ 31 ≤ z := by
    rw [← h, int32]
    exact Int.le_bmod (by decide)
  have hhigh : z < 2 ^ 31 := by
    rw [← h, int32]
    exact Int.bmod_lt (by decide)
  rw [atoi, strtol_decimal (by omega) (by omega), h]

end CoinTool
