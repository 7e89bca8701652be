import Mathlib.Data.List.Basic
import Mathlib.Order.Bounds.Defs

/-!
# Searching a text

`std::search` tries every offset of a text from the first on, and returns the end of the text when
the pattern matches nowhere.  Characters are compared after a key function, such as `toupper`.
-/

namespace CoinTool.Framework

variable {α β : Type*}

def startsWith (eq : α → α → Bool) : List α → List α → Bool
  | _, [] => true
  | [], _ :: _ => false
  | a :: text, b :: pattern => eq a b && startsWith eq text pattern

/-- The offset of the first match, or the length of the text. -/
def search (eq : α → α → Bool) : List α → List α → Nat
  | [], _ => 0
  | a :: text, pattern =>
      if startsWith eq (a :: text) pattern then 0 else search eq text pattern + 1

variable [DecidableEq β] (key : α → β)

def sameKey (a b : α) : Bool := key a = key b

theorem startsWith_sameKey_iff (text pattern : List α) :
    startsWith (sameKey key) text pattern = true ↔ pattern.map key <+: text.map key := by
  induction text generalizing pattern with
  | nil => cases pattern <;> simp [startsWith]
  | cons a text ih =>
      cases pattern with
      | nil => simp [startsWith]
      | cons b pattern =>
          rw [startsWith, Bool.and_eq_true, ih, List.map_cons, List.map_cons,
            List.cons_prefix_cons, sameKey, decide_eq_true_eq, eq_comm]

theorem search_le (eq : α → α → Bool) (text pattern : List α) :
    search eq text pattern ≤ text.length := by
  induction text with
  | nil => exact Nat.le_refl 0
  | cons a text ih =>
      rw [search]
      split
      · exact Nat.zero_le _
      · exact Nat.succ_le_succ ih

theorem search_sameKey_lt_iff {text : List α} (htext : text ≠ []) (pattern : List α) :
    search (sameKey key) text pattern < text.length ↔ pattern.map key <:+: text.map key := by
  induction text with
  | nil => exact absurd rfl htext
  | cons a text ih =>
      rw [search, List.map_cons, List.infix_cons_iff, ← List.map_cons,
        ← startsWith_sameKey_iff]
      by_cases hstart : startsWith (sameKey key) (a :: text) pattern = true
      · simp [hstart]
      · rw [if_neg hstart, List.length_cons, Nat.succ_lt_succ_iff]
        simp only [hstart, Bool.false_eq_true, false_or]
        by_cases hrest : text = []
        · subst hrest
          cases pattern with
          | nil => exact absurd rfl hstart
          | cons b pattern => simp [search]
        · exact ih hrest

def MatchesAt (text pattern : List α) (i : Nat) : Prop :=
  i ≤ text.length ∧ pattern.map key <+: (text.drop i).map key

instance (text pattern : List α) (i : Nat) : Decidable (MatchesAt key text pattern i) :=
  inferInstanceAs (Decidable (_ ∧ _))

theorem matchesAt_zero (text pattern : List α) :
    MatchesAt key text pattern 0 ↔ startsWith (sameKey key) text pattern = true := by
  rw [startsWith_sameKey_iff, MatchesAt, List.drop_zero]
  exact and_iff_right (Nat.zero_le _)

omit [DecidableEq β] in
theorem matchesAt_succ (a : α) (text pattern : List α) (i : Nat) :
    MatchesAt key (a :: text) pattern (i + 1) ↔ MatchesAt key text pattern i := by
  rw [MatchesAt, MatchesAt, List.length_cons, Nat.add_le_add_iff_right, List.drop_succ_cons]

omit [DecidableEq β] in
theorem matchesAt_length (text pattern : List α) :
    MatchesAt key text pattern text.length ↔ pattern = [] := by
  simp [MatchesAt]

theorem not_matchesAt_of_lt_search {text pattern : List α} {i : Nat}
    (h : i < search (sameKey key) text pattern) : ¬ MatchesAt key text pattern i := by
  induction text generalizing i with
  | nil => exact absurd h (Nat.not_lt_zero i)
  | cons a text ih =>
      rw [search] at h
      split at h
      · exact absurd h (Nat.not_lt_zero i)
      · rename_i hstart
        cases i with
        | zero =>
            rw [matchesAt_zero]
            exact hstart
        | succ i =>
            rw [matchesAt_succ]
            apply ih
            exact Nat.lt_of_succ_lt_succ h

theorem search_matchesAt {text pattern : List α}
    (h : search (sameKey key) text pattern < text.length) :
    MatchesAt key text pattern (search (sameKey key) text pattern) := by
  induction text with
  | nil => exact absurd h (Nat.not_lt_zero _)
  | cons a text ih =>
      rw [search] at h ⊢
      split
      · rename_i hstart
        rw [matchesAt_zero]
        exact hstart
      · rename_i hstart
        rw [if_neg hstart] at h
        rw [matchesAt_succ]
        exact ih (Nat.lt_of_succ_lt_succ h)

theorem search_isLeast {text pattern : List α}
    (h : search (sameKey key) text pattern < text.length) :
    IsLeast {i | MatchesAt key text pattern i} (search (sameKey key) text pattern) := by
  constructor
  · exact search_matchesAt key h
  · intro i hi
    by_contra hlt
    exact not_matchesAt_of_lt_search key (Nat.lt_of_not_le hlt) hi

/-- The end of the text means that there is no match, unless both texts are empty. -/
theorem not_matchesAt_of_search_eq {text pattern : List α}
    (h : search (sameKey key) text pattern = text.length) (hne : ¬ (text = [] ∧ pattern = []))
    (i : Nat) : ¬ MatchesAt key text pattern i := by
  intro hi
  have hend : i = text.length := by
    have hle : i ≤ text.length := hi.1
    by_contra hlt
    exact not_matchesAt_of_lt_search key (by omega) hi
  have hpattern : pattern = [] := by
    rw [hend] at hi
    exact (matchesAt_length key text pattern).mp hi
  cases text with
  | nil => exact hne ⟨rfl, hpattern⟩
  | cons a text =>
      subst hpattern
      cases h

end CoinTool.Framework
