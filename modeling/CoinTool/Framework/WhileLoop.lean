import Mathlib.Data.List.Basic

/-!
# Loops that end when their state says so

The body of a loop reads an input from outside in every iteration, such as a clock, and either goes
on or leaves the loop.  A loop has ended on every list of inputs that is long enough when a variant
of its state falls with every iteration.
-/

namespace CoinTool.Framework

variable {ι σ : Type*}

inductive Iteration (σ : Type*) where
  | again (s : σ)
  | ended (s : σ)
  deriving Repr

def Iteration.state : Iteration σ → σ
  | .again s | .ended s => s

def Iteration.andThen (f : σ → σ) : Iteration σ → Iteration σ
  | .again s => .again s
  | .ended s => .ended (f s)

theorem Iteration.andThen_ended {f : σ → σ} {r : Iteration σ} {t : σ} (h : r.andThen f = .ended t) :
    ∃ s, r = .ended s ∧ t = f s := by
  cases r with
  | again s => cases h
  | ended s =>
      cases h
      exact ⟨s, rfl, rfl⟩

theorem Iteration.andThen_invariant {I : σ → Prop} {f : σ → σ} (hf : ∀ s, I s → I (f s))
    {r : Iteration σ} (h : I r.state) : I (r.andThen f).state := by
  cases r with
  | again s => exact h
  | ended s => exact hf s h

/-- The loop with these inputs, one for each iteration; it goes on when they are used up. -/
def whileLoop (body : ι → σ → Iteration σ) : List ι → σ → Iteration σ
  | [], s => .again s
  | input :: inputs, s =>
      match body input s with
      | .again t => whileLoop body inputs t
      | .ended t => .ended t

variable {body : ι → σ → Iteration σ}

theorem whileLoop_again {input : ι} {s t : σ} (h : body input s = .again t) (inputs : List ι) :
    whileLoop body (input :: inputs) s = whileLoop body inputs t := by
  rw [whileLoop, h]

theorem whileLoop_ended {input : ι} {s t : σ} (h : body input s = .ended t) (inputs : List ι) :
    whileLoop body (input :: inputs) s = .ended t := by
  rw [whileLoop, h]

theorem whileLoop_invariant {I : σ → Prop} (hstep : ∀ input s, I s → I (body input s).state)
    (inputs : List ι) {s : σ} (hs : I s) : I (whileLoop body inputs s).state := by
  induction inputs generalizing s with
  | nil => exact hs
  | cons input inputs ih =>
      have hnext := hstep input s hs
      cases hbody : body input s with
      | again t =>
          rw [whileLoop_again hbody]
          rw [hbody] at hnext
          exact ih hnext
      | ended t =>
          rw [whileLoop_ended hbody]
          rw [hbody] at hnext
          exact hnext

/-- An invariant that knows which input comes next: what the last iteration makes of it holds after
the loop. -/
theorem whileLoop_indexed {I : Nat → σ → Prop} {Q : σ → Prop} {inputs : List ι}
    (hagain : ∀ n input s t, inputs[n]? = some input → I n s → body input s = .again t →
      I (n + 1) t)
    (hended : ∀ n input s t, inputs[n]? = some input → I n s → body input s = .ended t → Q t)
    {s t : σ} (hs : I 0 s) (h : whileLoop body inputs s = .ended t) : Q t := by
  induction inputs generalizing I s with
  | nil => cases h
  | cons input inputs ih =>
      cases hbody : body input s with
      | again u =>
          rw [whileLoop_again hbody] at h
          have hnext := hagain 0 input s u rfl hs hbody
          apply @ih (fun n => I (n + 1)) _ _ _ hnext h
          · intro n input s t hinput
            exact hagain (n + 1) input s t hinput
          · intro n input s t hinput
            exact hended (n + 1) input s t hinput
      | ended u =>
          rw [whileLoop_ended hbody] at h
          cases h
          exact hended 0 input s t rfl hs hbody

theorem whileLoop_post {I Q : σ → Prop} (hagain : ∀ input s t, I s → body input s = .again t → I t)
    (hended : ∀ input s t, I s → body input s = .ended t → Q t) {inputs : List ι} {s t : σ} (hs : I s)
    (h : whileLoop body inputs s = .ended t) : Q t :=
  @whileLoop_indexed _ _ body (fun _ => I) Q inputs (fun _ input s t _ => hagain input s t)
    (fun _ input s t _ => hended input s t) s t hs h

theorem whileLoop_ends (variant : σ → Nat)
    (hless : ∀ input s t, body input s = .again t → variant t < variant s) {inputs : List ι} {s : σ}
    (hlong : variant s < inputs.length) : ∃ t, whileLoop body inputs s = .ended t := by
  induction inputs generalizing s with
  | nil => exact absurd hlong (Nat.not_lt_zero _)
  | cons input inputs ih =>
      cases hbody : body input s with
      | again t =>
          rw [whileLoop_again hbody]
          apply ih
          exact Nat.lt_of_lt_of_le (hless input s t hbody) (Nat.le_of_lt_succ hlong)
      | ended t => exact ⟨t, whileLoop_ended hbody inputs⟩

end CoinTool.Framework
