import Mathlib.Data.List.Basic

/-!
# Sieves

A list of tests is applied to a list one after the other, and each test takes out what it accepts of
what the earlier ones have left.
-/

namespace CoinTool.Framework

variable {α : Type*}

def sieveRest (ps : List (α → Bool)) (l : List α) : List α :=
  l.filter fun a => !ps.any fun p => p a

theorem sieveRest_nil (l : List α) : sieveRest [] l = l := by simp [sieveRest]

theorem sieveRest_cons (p : α → Bool) (ps : List (α → Bool)) (l : List α) :
    sieveRest (p :: ps) l = sieveRest ps (l.filter fun a => !p a) := by
  rw [sieveRest, sieveRest, List.filter_filter]
  apply List.filter_congr
  intro a _
  cases hp : p a <;> simp [hp]

/-- What each test takes, and what is left at the end. -/
def sieve : List (α → Bool) → List α → List (List α) × List α
  | [], l => ([], l)
  | p :: ps, l =>
      let later := sieve ps (l.filter fun a => !p a)
      (l.filter p :: later.1, later.2)

theorem sieve_eq (ps : List (α → Bool)) (l : List α) :
    sieve ps l =
      (ps.zipIdx.map fun p => (sieveRest (ps.take p.2) l).filter p.1, sieveRest ps l) := by
  induction ps generalizing l with
  | nil => simp [sieve, sieveRest_nil]
  | cons p ps ih =>
      rw [sieve, ih, sieveRest_cons, List.zipIdx_cons, List.zipIdx_succ]
      simp [sieveRest_cons, sieveRest_nil, Function.comp_def]

theorem sieve_perm (ps : List (α → Bool)) (l : List α) :
    ((sieve ps l).1.flatten ++ (sieve ps l).2).Perm l := by
  induction ps generalizing l with
  | nil => exact List.Perm.refl l
  | cons p ps ih =>
      rw [sieve, List.flatten_cons, List.append_assoc]
      exact ((ih _).append_left _).trans (List.filter_append_perm p l)

end CoinTool.Framework
