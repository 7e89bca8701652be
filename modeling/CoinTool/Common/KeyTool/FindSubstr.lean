import Mathlib.Data.Nat.Find
import Mathlib.Order.Bounds.Basic
import CoinTool.Common.KeyTool.FindAddress

/-!
# The first match without the case

`ci_find_substr` against `find`: the least offset of a match, which an `int` has to hold, and `-1`
for the end of the text, which is also where an empty text is found in an empty text.
-/

namespace CoinTool

open Framework

def CiMatchesAt (str1 str2 : Str) (i : Nat) : Prop := MatchesAt Char.toUpper str1 str2 i

instance (str1 str2 : Str) (i : Nat) : Decidable (CiMatchesAt str1 str2 i) :=
  inferInstanceAs (Decidable (MatchesAt _ _ _ _))

/-- What a result of `ci_find_substr` should be. -/
structure FindsFirst (str1 str2 : Str) (result : Int) : Prop where
  least : ∀ i : Nat, IsLeast {i | CiMatchesAt str1 str2 i} i → result = i
  absent : result = -1 ↔ ∀ i, ¬ CiMatchesAt str1 str2 i
  npos : result = -1 → stringFind str1 str2 = none
  notAfter : result ≠ -1 → ∀ pos, stringFind str1 str2 = some pos → result ≤ pos

theorem search_myEqual (str1 str2 : Str) :
    search myEqual str1 str2 = search (sameKey Char.toUpper) str1 str2 := rfl

theorem stringFind_matchesAt {str1 str2 : Str} {pos : Nat} (h : stringFind str1 str2 = some pos) :
    MatchesAt id str1 str2 pos := by
  rw [stringFind] at h
  have hle : search (sameKey id) str1 str2 ≤ str1.length := search_le _ _ _
  split at h
  · rename_i hfound
    cases h
    by_cases hempty : str2 = []
    · subst hempty
      exact ⟨hle, List.nil_prefix⟩
    · have hne := hfound.resolve_left hempty
      exact search_matchesAt id (by omega)
  · cases h

theorem ciMatchesAt_of_stringFind {str1 str2 : Str} {pos : Nat}
    (h : stringFind str1 str2 = some pos) : CiMatchesAt str1 str2 pos := by
  obtain ⟨hle, hprefix⟩ := stringFind_matchesAt h
  rw [List.map_id, List.map_id] at hprefix
  exact ⟨hle, hprefix.map Char.toUpper⟩

theorem ciMatchesAt_exists_least {str1 str2 : Str} (h : ∃ i, CiMatchesAt str1 str2 i) :
    ∃ i, IsLeast {i | CiMatchesAt str1 str2 i} i := by
  refine ⟨Nat.find h, Nat.find_spec h, ?_⟩
  intro i hi
  exact Nat.find_min' h hi

theorem ciFindSubstr_cases (str1 str2 : Str) (hne : ¬ (str1 = [] ∧ str2 = [])) :
    (ciFindSubstr str1 str2 = -1 ∧ ∀ i, ¬ CiMatchesAt str1 str2 i) ∨
    ∃ i : Nat, ciFindSubstr str1 str2 = int32 i ∧ IsLeast {i | CiMatchesAt str1 str2 i} i := by
  have hle : search (sameKey Char.toUpper) str1 str2 ≤ str1.length := search_le _ _ _
  by_cases hend : search (sameKey Char.toUpper) str1 str2 = str1.length
  · left
    constructor
    · rw [ciFindSubstr, search_myEqual]
      simp only [hend, ne_eq, not_true, if_false]
    · exact not_matchesAt_of_search_eq Char.toUpper hend hne
  · right
    refine ⟨search (sameKey Char.toUpper) str1 str2, ?_, ?_⟩
    · rw [ciFindSubstr, search_myEqual]
      exact if_pos hend
    · exact search_isLeast Char.toUpper (by omega)

theorem ciFindSubstr_of_least {str1 str2 : Str} {i : Nat} (hne : ¬ (str1 = [] ∧ str2 = []))
    (hleast : IsLeast {i | CiMatchesAt str1 str2 i} i) : ciFindSubstr str1 str2 = int32 i := by
  rcases ciFindSubstr_cases str1 str2 hne with ⟨-, hnone⟩ | ⟨j, hresult, hj⟩
  · exact absurd hleast.1 (hnone i)
  · rw [hresult, hleast.unique hj]

/-- An `int` holds the offsets below `2 ^ 31` and no others. -/
theorem int32_natCast_iff (i : Nat) : int32 i = i ↔ i < 2 ^ 31 := by
  have hhigh : int32 i < ((2 ^ 32 : Nat) + 1) / 2 := Int.bmod_lt (by decide)
  constructor
  · intro h
    rw [h] at hhigh
    omega
  · intro h
    exact Int.bmod_eq_of_le (by omega) (by omega)

theorem findsFirst_of_least {str1 str2 : Str} {i : Nat}
    (hleast : IsLeast {i | CiMatchesAt str1 str2 i} i) : FindsFirst str1 str2 i where
  least := by
    intro j hj
    rw [hleast.unique hj]
  absent := by
    constructor
    · intro h
      omega
    · intro hnone
      exact absurd hleast.1 (hnone i)
  npos := by
    intro h
    omega
  notAfter := by
    intro _ pos hpos
    have hle : i ≤ pos := hleast.2 (ciMatchesAt_of_stringFind hpos)
    omega

theorem findsFirst_of_absent {str1 str2 : Str} (hnone : ∀ i, ¬ CiMatchesAt str1 str2 i) :
    FindsFirst str1 str2 (-1) where
  least := by
    intro i hi
    exact absurd hi.1 (hnone i)
  absent := iff_of_true rfl hnone
  npos := by
    intro _
    rw [Option.eq_none_iff_forall_ne_some]
    intro pos hpos
    exact hnone pos (ciMatchesAt_of_stringFind hpos)
  notAfter := by
    intro h
    exact absurd rfl h

/-- The result is right for texts that are not both empty and whose first match, if there is one,
is at an offset that an `int` can hold. -/
theorem ciFindSubstr_findsFirst_iff (str1 str2 : Str) :
    FindsFirst str1 str2 (ciFindSubstr str1 str2) ↔
      ¬ (str1 = [] ∧ str2 = []) ∧
        ((∃ i, CiMatchesAt str1 str2 i) → ∃ i < 2 ^ 31, CiMatchesAt str1 str2 i) := by
  constructor
  · intro h
    have hne : ¬ (str1 = [] ∧ str2 = []) := by
      intro hempty
      obtain ⟨rfl, rfl⟩ := hempty
      have hzero : IsLeast {i | CiMatchesAt [] [] i} 0 :=
        ⟨(by decide : CiMatchesAt [] [] 0), fun i _ => Nat.zero_le i⟩
      exact absurd (h.least 0 hzero) (by decide)
    refine ⟨hne, ?_⟩
    intro hmatch
    obtain ⟨i, hi⟩ := ciMatchesAt_exists_least hmatch
    have hint : int32 i = i := by
      rw [← ciFindSubstr_of_least hne hi]
      exact h.least i hi
    exact ⟨i, (int32_natCast_iff i).mp hint, hi.1⟩
  · intro h
    obtain ⟨hne, hsmall⟩ := h
    rcases ciFindSubstr_cases str1 str2 hne with ⟨hresult, hnone⟩ | ⟨i, hresult, hi⟩
    · rw [hresult]
      exact findsFirst_of_absent hnone
    · obtain ⟨j, hj, hmatch⟩ := hsmall ⟨i, hi.1⟩
      have hle : i ≤ j := hi.2 hmatch
      rw [hresult, (int32_natCast_iff i).mpr (by omega)]
      exact findsFirst_of_least hi

/-- The empty text matches itself at offset `0`, where `find` finds it too. -/
theorem ciFindSubstr_empty :
    ¬ ∀ str1 str2 : Str, FindsFirst str1 str2 (ciFindSubstr str1 str2) := by
  intro h
  have hnpos : stringFind [] [] = none := (h [] []).npos (by decide)
  exact absurd hnpos (by decide)

end CoinTool
