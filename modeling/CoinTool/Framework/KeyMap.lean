import Mathlib.Data.List.Basic

/-!
# Keyed maps and their merges

A `std::map` is the partial function it stores.  Two merges of a list of entries into a map are
developed here: the first value of a key wins, and every value of a key is appended.
-/

namespace CoinTool.Framework

variable {κ α : Type*}

/-- A finite map as the function from keys to stored values. -/
abbrev KeyMap (κ α : Type*) := κ → Option α

namespace KeyMap

def empty : KeyMap κ α := fun _ => none

def count (m : KeyMap κ α) (k : κ) : Bool := (m k).isSome

/-- `map[k]` as a value: a missing key reads as the default of the element type. -/
def lookup [Inhabited α] (m : KeyMap κ α) (k : κ) : α := (m k).getD default

@[simp] theorem empty_apply (k : κ) : (empty : KeyMap κ α) k = none := rfl

variable [DecidableEq κ]

def assign (m : KeyMap κ α) (k : κ) (v : α) : KeyMap κ α :=
  fun k' => if k' = k then some v else m k'

def pushBack (m : KeyMap κ (List α)) (k : κ) (v : α) : KeyMap κ (List α) :=
  m.assign k (m.lookup k ++ [v])

@[simp] theorem assign_apply (m : KeyMap κ α) (k k' : κ) (v : α) :
    m.assign k v k' = if k' = k then some v else m k' := rfl

theorem pushBack_apply (m : KeyMap κ (List α)) (k k' : κ) (v : α) :
    m.pushBack k v k' = if k' = k then some (m.lookup k ++ [v]) else m k' := rfl

def assignIfNew (m : KeyMap κ α) (k : κ) (v : α) : KeyMap κ α :=
  if m.count k then m else m.assign k v

theorem assignIfNew_apply (m : KeyMap κ α) (k k' : κ) (v : α) :
    m.assignIfNew k v k' = (m k').or (if k' = k then some v else none) := by
  by_cases hk : k' = k
  · subst k'
    cases hm : m k <;> simp [assignIfNew, count, hm]
  · cases hc : m.count k <;> simp [assignIfNew, hc, hk]

end KeyMap

variable [DecidableEq κ]

def valuesOf (k : κ) (entries : List (κ × α)) : List α :=
  (entries.filter fun e => e.1 = k).map Prod.snd

@[simp] theorem valuesOf_nil (k : κ) : valuesOf k ([] : List (κ × α)) = [] := rfl

theorem valuesOf_cons (k : κ) (e : κ × α) (entries : List (κ × α)) :
    valuesOf k (e :: entries) = (if k = e.1 then [e.2] else []) ++ valuesOf k entries := by
  by_cases hk : k = e.1
  · simp [valuesOf, hk]
  · simp [valuesOf, hk, Ne.symm hk]

theorem mem_valuesOf_iff (k : κ) (v : α) (entries : List (κ × α)) :
    v ∈ valuesOf k entries ↔ (k, v) ∈ entries := by
  simp [valuesOf]

theorem valuesOf_append (k : κ) (first second : List (κ × α)) :
    valuesOf k (first ++ second) = valuesOf k first ++ valuesOf k second := by
  simp [valuesOf]

namespace KeyMap

theorem foldl_assignIfNew (entries : List (κ × α)) (m : KeyMap κ α) (k : κ) :
    (entries.foldl (fun m e => m.assignIfNew e.1 e.2) m) k =
      (m k).or (valuesOf k entries).head? := by
  induction entries generalizing m with
  | nil => simp
  | cons e entries ih =>
      rw [List.foldl_cons, ih, assignIfNew_apply, Option.or_assoc, valuesOf_cons]
      by_cases hk : k = e.1 <;> simp [hk]

theorem foldl_pushBack (entries : List (κ × α)) (m : KeyMap κ (List α)) (k : κ) :
    (entries.foldl (fun m e => m.pushBack e.1 e.2) m).lookup k =
      m.lookup k ++ valuesOf k entries := by
  induction entries generalizing m with
  | nil => simp
  | cons e entries ih =>
      have hstep : (m.pushBack e.1 e.2).lookup k =
          m.lookup k ++ (if k = e.1 then [e.2] else []) := by
        by_cases hk : k = e.1
        · subst hk
          simp [lookup, pushBack_apply]
        · simp [lookup, pushBack_apply, hk]
      rw [List.foldl_cons, ih, hstep, valuesOf_cons, List.append_assoc]

theorem count_assignIfNew (m : KeyMap κ α) (k k' : κ) (v : α) :
    (m.assignIfNew k v).count k' = true ↔ m.count k' = true ∨ k = k' := by
  rw [count, assignIfNew_apply, Option.isSome_or, Bool.or_eq_true, count]
  by_cases hk : k' = k
  · simp [hk]
  · simp [hk, Ne.symm hk]

theorem count_pushBack (m : KeyMap κ (List α)) (k k' : κ) (v : α) :
    (m.pushBack k v).count k' = true ↔ m.count k' = true ∨ k = k' := by
  rw [count, pushBack_apply, count]
  by_cases hk : k' = k
  · simp [hk]
  · simp [hk, Ne.symm hk]

omit [DecidableEq κ] in
theorem count_foldl_iff {β : Type*} (merge : KeyMap κ β → κ × α → KeyMap κ β) (k : κ)
    (hmerge : ∀ m e, (merge m e).count k = true ↔ m.count k = true ∨ e.1 = k)
    (entries : List (κ × α)) (m : KeyMap κ β) :
    (entries.foldl merge m).count k = true ↔ m.count k = true ∨ ∃ e ∈ entries, e.1 = k := by
  induction entries generalizing m with
  | nil => simp
  | cons e entries ih => rw [List.foldl_cons, ih, hmerge, List.exists_mem_cons_iff, or_assoc]

end KeyMap

end CoinTool.Framework
