import Mathlib.Data.Int.Range
import Mathlib.Algebra.BigOperators.Group.List.Basic
import Mathlib.Tactic.Linarith
import Mathlib.Tactic.Ring

/-!
# Counting loops

A loop `for (x = lo; x < hi; x++)` is a left fold over `Int.range lo hi`.  This module collects
how such folds split, and what a measure of the loop state is worth at the end of a loop whose
every step adds a known weight to it.
-/

namespace CoinTool.Framework

variable {σ α β M : Type*}

theorem intRange_nil {lo hi : Int} (h : hi ≤ lo) : Int.range lo hi = [] := by
  have hz : (hi - lo).toNat = 0 := by omega
  simp [Int.range, hz]

theorem intRange_length (lo hi : Int) : (Int.range lo hi).length = (hi - lo).toNat := by
  simp [Int.range]

theorem intRange_append {a b c : Int} (hab : a ≤ b) (hbc : b ≤ c) :
    Int.range a b ++ Int.range b c = Int.range a c := by
  have hlen : (c - a).toNat = (b - a).toNat + (c - b).toNat := by omega
  simp only [Int.range, hlen, List.range_add, List.map_append, List.map_map]
  congr 1
  apply List.map_congr_left
  intro n _
  simp only [Function.comp_apply, Nat.cast_add]
  omega

theorem intRange_succ_right {lo hi : Int} (h : lo ≤ hi) :
    Int.range lo (hi + 1) = Int.range lo hi ++ [hi] := by
  have hone : Int.range hi (hi + 1) = [hi] := by
    have hlen : (hi + 1 - hi).toNat = 1 := by omega
    simp only [Int.range, hlen]
    simp [List.range_succ]
  rw [← intRange_append h (by omega), hone]

theorem intRange_flatMap_blocks (width : Int) (hw : 0 ≤ width) (n : Nat) :
    (Int.range 1 (n + 1)).flatMap (fun i => Int.range ((i - 1) * width) (i * width)) =
      Int.range 0 (n * width) := by
  induction n with
  | zero => simp [intRange_nil]
  | succ n ih =>
      have hn : (0 : Int) ≤ n * width := by positivity
      have hnext : ((n : Int) + 1) * width = n * width + width := by ring
      rw [Nat.cast_succ, intRange_succ_right (by omega), List.flatMap_append, ih]
      simp only [List.flatMap_cons, List.flatMap_nil, List.append_nil, add_sub_cancel_right]
      exact intRange_append hn (by omega)

/-- A loop whose body can fail runs through like the loop that cannot, when an invariant of the loop
state at every index keeps its body from failing. -/
theorem intRange_foldlM {step? : σ → Int → Option σ} {step : σ → Int → σ} (I : Int → σ → Prop)
    {lo hi : Int} (hle : lo ≤ hi) {s : σ} (hstart : I lo s)
    (hstep : ∀ i s, lo ≤ i → i < hi → I i s → step? s i = some (step s i) ∧ I (i + 1) (step s i)) :
    (Int.range lo hi).foldlM step? s = some ((Int.range lo hi).foldl step s) ∧
      I hi ((Int.range lo hi).foldl step s) := by
  induction hi, hle using Int.leInduction with
  | base =>
      rw [intRange_nil (le_refl lo)]
      exact ⟨rfl, hstart⟩
  | succ hi hle ih =>
      obtain ⟨hrun, hinv⟩ := ih fun i s hlow hhigh => hstep i s hlow (by omega)
      obtain ⟨hlast, hnext⟩ := hstep hi _ hle (by omega) hinv
      rw [intRange_succ_right hle, List.foldlM_append, hrun, List.foldl_append]
      simp only [Option.bind_eq_bind, Option.bind_some, List.foldlM_cons, List.foldlM_nil, hlast,
        Option.pure_def, List.foldl_cons, List.foldl_nil]
      exact ⟨trivial, hnext⟩

theorem foldlM_some {step? : σ → α → Option σ} {step : σ → α → σ}
    (h : ∀ {s a t}, step? s a = some t → t = step s a) {l : List α} {s t : σ}
    (hrun : l.foldlM step? s = some t) : t = l.foldl step s := by
  induction l generalizing s with
  | nil => exact (Option.some.inj hrun).symm
  | cons a l ih =>
      rw [List.foldlM_cons, Option.bind_eq_bind, Option.bind_eq_some_iff] at hrun
      obtain ⟨u, hfirst, hrest⟩ := hrun
      rw [List.foldl_cons, ← h hfirst]
      exact ih hrest

/-- A loop whose steps append to a record what their index says is the plain loop, and its record is
that of the indices in order. -/
theorem foldlM_recorded {σ β : Type _} {step : σ → α → StateM (List β) σ} {plain : σ → α → σ}
    {log : α → List β} (h : ∀ s a record, (step s a).run record = (plain s a, record ++ log a))
    (l : List α) (s : σ) (record : List β) :
    (l.foldlM step s).run record = (l.foldl plain s, record ++ l.flatMap log) := by
  induction l generalizing s record with
  | nil =>
      rw [List.flatMap_nil, List.append_nil]
      rfl
  | cons a l ih =>
      have hrun := ih (plain s a) (record ++ log a)
      rw [List.foldlM_cons, StateT.run_bind, h]
      simp only [List.foldl_cons, List.flatMap_cons, ← List.append_assoc]
      exact hrun

/-- Each step of a loop adds the weight of its index to the measure `μ` of the loop state. -/
def Weighs [Add M] (step : σ → α → σ) (μ : σ → M) (weight : α → M) : Prop :=
  ∀ s a, μ (step s a) = μ s + weight a

theorem Weighs.foldl [AddMonoid M] {step : σ → α → σ} {μ : σ → M} {weight : α → M}
    (h : Weighs step μ weight) (s : σ) (l : List α) :
    μ (l.foldl step s) = μ s + (l.map weight).sum := by
  induction l generalizing s with
  | nil => simp
  | cons a l ih =>
      rw [List.foldl_cons, ih, h s a, List.map_cons, List.sum_cons, add_assoc]

theorem sum_map_flatMap [AddMonoid M] (f : α → List β) (weight : β → M) (l : List α) :
    ((l.flatMap f).map weight).sum = (l.map fun a => ((f a).map weight).sum).sum := by
  induction l with
  | nil => simp
  | cons a l ih => simp [ih]

end CoinTool.Framework
