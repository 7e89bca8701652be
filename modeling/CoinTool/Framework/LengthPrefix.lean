import Mathlib.Data.List.Basic

/-!
# Self-delimiting encodings

An encoding is self-delimiting when what follows it cannot change where it ends.  A length written
before the data makes any data self-delimiting, and so do several such encodings in a row.
-/

namespace CoinTool.Framework

variable {α β : Type*}

def SelfDelimiting (encode : α → List β) : Prop :=
  ∀ a b x y, encode a ++ x = encode b ++ y → a = b ∧ x = y

def lengthPrefixed (size : Nat → List β) (data : List β) : List β := size data.length ++ data

theorem lengthPrefixed_selfDelimiting {size : Nat → List β} (h : SelfDelimiting size) :
    SelfDelimiting (lengthPrefixed size) := by
  intro a b x y hab
  simp only [lengthPrefixed, List.append_assoc] at hab
  obtain ⟨hlen, hdata⟩ := h _ _ _ _ hab
  exact List.append_inj hdata hlen

theorem SelfDelimiting.flatMap_inj {encode : α → List β} (h : SelfDelimiting encode)
    {as bs : List α} {x y : List β} (hlen : as.length = bs.length)
    (hcode : as.flatMap encode ++ x = bs.flatMap encode ++ y) : as = bs ∧ x = y := by
  induction as generalizing bs with
  | nil =>
      cases List.length_eq_zero_iff.mp hlen.symm
      exact ⟨rfl, hcode⟩
  | cons a as ih =>
      cases bs with
      | nil => cases hlen
      | cons b bs =>
          simp only [List.flatMap_cons, List.append_assoc] at hcode
          obtain ⟨rfl, hrest⟩ := h a b _ _ hcode
          obtain ⟨rfl, rfl⟩ := ih (Nat.succ.inj hlen) hrest
          exact ⟨rfl, rfl⟩

end CoinTool.Framework
