import Mathlib.Algebra.Order.BigOperators.Group.Finset
import CoinTool.Framework.Machine

/-!
# Simulation and completion of machines

A machine is simulated by another when a view of its reachable states turns every step into a step
of the other one or into none.  A machine completes from a state when a rank falls with every step
from there on and no state but a final one is stuck.
-/

namespace CoinTool.Framework.Machine

variable {σ τ α β : Type*}

/-- Every run of `C`, seen through `view`, is a run of `A` that may pause. -/
structure Simulates (C : Machine σ α) (A : Machine τ β) (view : σ → τ) : Prop where
  start : ∀ s, C.start s → A.start (view s)
  next : ∀ s a t, C.Reachable s → C.next s a = some t →
    view t = view s ∨ ∃ b, A.next (view s) b = some (view t)

theorem Simulates.reachable {C : Machine σ α} {A : Machine τ β} {view : σ → τ}
    (h : Simulates C A view) {s : σ} (hs : C.Reachable s) : A.Reachable (view s) := by
  induction hs with
  | start hs => exact .start (h.start _ hs)
  | next hs hok hn ih =>
      rcases h.next _ _ _ hs hn with hsame | hstep
      · rw [hsame]
        exact ih
      · obtain ⟨b, hb⟩ := hstep
        exact .next ih trivial hb

/-- From the states of `I` on, every step stays in `I` and lowers the rank, and a step is possible
in every state that is not final. -/
structure Completes (M : Machine σ α) (I final : σ → Prop) (rank : σ → Nat) : Prop where
  kept : ∀ s a t, I s → M.next s a = some t → I t
  falls : ∀ s a t, I s → M.next s a = some t → rank t < rank s
  moves : ∀ s, I s → ¬ final s → ∃ a t, M.next s a = some t

theorem sum_range_lt {ω : Type*} (left : ω → Nat) {f g : Nat → ω} {k n : Nat} (hk : k < n)
    (hother : ∀ j, j ≠ k → g j = f j) (hless : left (g k) < left (f k)) :
    ((Finset.range n).sum fun i => left (g i)) < (Finset.range n).sum fun i => left (f i) := by
  apply Finset.sum_lt_sum
  · intro i _
    by_cases he : i = k
    · rw [he]
      exact hless.le
    · rw [hother i he]
  · exact ⟨k, Finset.mem_range.mpr hk, hless⟩

variable {M : Machine σ α} {I final : σ → Prop} {rank : σ → Nat}

theorem Completes.exec_le (h : M.Completes I final rank) {actions : List α} {s t : σ} (hs : I s)
    (hrun : M.exec s actions = some t) : I t ∧ actions.length + rank t ≤ rank s := by
  induction actions generalizing s with
  | nil =>
      cases hrun
      exact ⟨hs, by simp⟩
  | cons a actions ih =>
      rw [exec] at hrun
      split at hrun
      · rename_i u hn
        obtain ⟨ht, hle⟩ := ih (h.kept s a u hs hn) hrun
        have hless := h.falls s a u hs hn
        refine ⟨ht, ?_⟩
        rw [List.length_cons]
        omega
      · cases hrun

theorem Completes.final_of_stuck (h : M.Completes I final rank) {actions : List α} {s t : σ}
    (hs : I s) (hrun : M.exec s actions = some t) (hstuck : ∀ a, M.next t a = none) : final t := by
  by_contra hfinal
  obtain ⟨a, u, hn⟩ := h.moves t (h.exec_le hs hrun).1 hfinal
  rw [hstuck a] at hn
  cases hn

theorem Completes.exists_final (h : M.Completes I final rank) {s : σ} (hs : I s) :
    ∃ actions t, M.exec s actions = some t ∧ final t := by
  induction hrank : rank s using Nat.strongRecOn generalizing s with
  | _ n ih =>
      by_cases hfinal : final s
      · exact ⟨[], s, rfl, hfinal⟩
      · obtain ⟨a, u, hn⟩ := h.moves s hs hfinal
        have hless := h.falls s a u hs hn
        rw [hrank] at hless
        obtain ⟨actions, t, hrun, ht⟩ := ih (rank u) hless (h.kept s a u hs hn) rfl
        refine ⟨a :: actions, t, ?_, ht⟩
        rw [exec, hn]
        exact hrun

end CoinTool.Framework.Machine
