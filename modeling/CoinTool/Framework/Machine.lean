import Mathlib.Data.List.Basic

/-!
# Machines and their runs

A machine is deterministic once its actions are given: an action says which thread takes the next
step and what that step reads from outside.  A run may be restricted to steps that meet a condition
in the state before them, so that a law can be stated of the runs that avoid a bad step.
-/

namespace CoinTool.Framework

variable {σ α β : Type*}

structure Machine (σ α : Type*) where
  start : σ → Prop
  next : σ → α → Option σ

namespace Machine

/-- The states of the runs whose every step meets `ok` in the state before it. -/
inductive Reach (M : Machine σ α) (ok : σ → α → Prop) : σ → Prop
  | start {s : σ} (hs : M.start s) : Reach M ok s
  | next {s t : σ} {a : α} (hs : Reach M ok s) (hok : ok s a) (hn : M.next s a = some t) :
      Reach M ok t

abbrev Reachable (M : Machine σ α) : σ → Prop := M.Reach fun _ _ => True

theorem Reach.invariant {M : Machine σ α} {ok : σ → α → Prop} {I : σ → Prop}
    (hstart : ∀ s, M.start s → I s)
    (hnext : ∀ s a t, M.Reach ok s → I s → ok s a → M.next s a = some t → I t)
    {s : σ} (hs : M.Reach ok s) : I s := by
  induction hs with
  | start hs => exact hstart _ hs
  | next hs hok hn ih => exact hnext _ _ _ hs ih hok hn

/-- The machine with a history, to which a step appends what is recorded of it. -/
def recorded (M : Machine σ α) (record : σ → α → List β) : Machine (σ × List β) α where
  start s := M.start s.1 ∧ s.2 = []
  next s a := (M.next s.1 a).map fun t => (t, s.2 ++ record s.1 a)

theorem recorded_next {M : Machine σ α} {record : σ → α → List β} {s t : σ × List β} {a : α}
    (h : (M.recorded record).next s a = some t) :
    M.next s.1 a = some t.1 ∧ t.2 = s.2 ++ record s.1 a := by
  obtain ⟨u, hu, rfl⟩ := Option.map_eq_some_iff.mp h
  exact ⟨hu, rfl⟩

theorem Reachable.of_recorded {M : Machine σ α} {record : σ → α → List β} {s : σ × List β}
    (hs : (M.recorded record).Reachable s) : M.Reachable s.1 := by
  induction hs with
  | start hs => exact .start hs.1
  | next hs hok hn ih => exact .next ih hok (recorded_next hn).1

def exec (M : Machine σ α) : σ → List α → Option σ
  | s, [] => some s
  | s, a :: rest =>
      match M.next s a with
      | some t => M.exec t rest
      | none => none

def execWhile (M : Machine σ α) (ok : σ → α → Prop) [∀ s a, Decidable (ok s a)] :
    σ → List α → Option σ
  | s, [] => some s
  | s, a :: rest =>
      if ok s a then
        match M.next s a with
        | some t => M.execWhile ok t rest
        | none => none
      else none

theorem Reach.execWhile {M : Machine σ α} {ok : σ → α → Prop} [∀ s a, Decidable (ok s a)]
    {s t : σ} {actions : List α} (hs : M.Reach ok s) (h : M.execWhile ok s actions = some t) :
    M.Reach ok t := by
  induction actions generalizing s with
  | nil =>
      cases h
      exact hs
  | cons a rest ih =>
      rw [Machine.execWhile] at h
      split at h
      · rename_i hok
        split at h
        · rename_i u hn
          exact ih (.next hs hok hn) h
        · cases h
      · cases h

theorem Reachable.exec {M : Machine σ α} {s t : σ} {actions : List α}
    (hs : M.Reachable s) (h : M.exec s actions = some t) : M.Reachable t := by
  induction actions generalizing s with
  | nil =>
      cases h
      exact hs
  | cons a rest ih =>
      rw [Machine.exec] at h
      split at h
      · rename_i u hn
        exact ih (.next hs trivial hn) h
      · cases h

theorem exec_exists (M : Machine σ α) (s : σ) (actions : List α) (check : σ → Bool)
    (h : (M.exec s actions).any check = true) :
    ∃ t, M.exec s actions = some t ∧ check t = true := by
  cases ht : M.exec s actions with
  | none => simp [ht] at h
  | some t => exact ⟨t, rfl, by simpa [ht] using h⟩

theorem execWhile_exists (M : Machine σ α) (ok : σ → α → Prop) [∀ s a, Decidable (ok s a)]
    (s : σ) (actions : List α) (check : σ → Bool)
    (h : (M.execWhile ok s actions).any check = true) :
    ∃ t, M.execWhile ok s actions = some t ∧ check t = true := by
  cases ht : M.execWhile ok s actions with
  | none => simp [ht] at h
  | some t => exact ⟨t, rfl, by simpa [ht] using h⟩

end Machine

end CoinTool.Framework
