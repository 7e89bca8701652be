import Mathlib.Data.List.Nodup
import Mathlib.Logic.Function.Basic
import CoinTool.Framework.Simulation

/-!
# A search by several workers

What the two searches of the tool have in common: workers are started, each finds something at most
once, and a worker stops when something has been found.  A worker may also give up.  The search ends
when every worker has stopped or given up.
-/

namespace CoinTool

open Framework

inductive Status where
  | waiting
  | searching
  | found
  | stopped
  | failed
  deriving DecidableEq, Repr

/-- `finds` lists what has been found, each with its worker. -/
@[ext]
structure HuntState (R : Type) where
  status : Nat → Status
  finds : List (Nat × R)
  ended : Bool

inductive HuntEvent (R : Type) where
  | start (i : Nat)
  | find (i : Nat) (r : R)
  | stop (i : Nat)
  | fail (i : Nat)
  | finish

variable {R : Type}

def HuntState.initial : HuntState R := ⟨fun _ => .waiting, [], false⟩

def HuntState.set (s : HuntState R) (i : Nat) (status : Status) : HuntState R :=
  { s with status := Function.update s.status i status }

theorem HuntState.set_same (s : HuntState R) {i : Nat} {status : Status} (h : s.status i = status) :
    s.set i status = s := by
  rw [HuntState.set, ← h, Function.update_eq_self]

@[simp] theorem HuntState.set_status_same (s : HuntState R) (i : Nat) (status : Status) :
    (s.set i status).status i = status := Function.update_self ..

theorem HuntState.set_status_ne (s : HuntState R) {i j : Nat} (status : Status) (h : j ≠ i) :
    (s.set i status).status j = s.status j := Function.update_of_ne h ..

@[simp] theorem HuntState.set_finds (s : HuntState R) (i : Nat) (status : Status) :
    (s.set i status).finds = s.finds := rfl

@[simp] theorem HuntState.set_ended (s : HuntState R) (i : Nat) (status : Status) :
    (s.set i status).ended = s.ended := rfl

def Status.Over (status : Status) : Prop := status = .stopped ∨ status = .failed

def Status.Fresh : Status → Prop
  | .waiting | .searching | .failed => True
  | .found | .stopped => False

open Classical in
/-- The searches of `n` workers for what is `good`. -/
noncomputable def hunt (n : Nat) (good : R → Prop) : Machine (HuntState R) (HuntEvent R) where
  start s := s = .initial
  next s e :=
    match e with
    | .start i => if i < n ∧ s.status i = .waiting then some (s.set i .searching) else none
    | .find i r =>
        if s.status i = .searching ∧ good r then
          some { s.set i .found with finds := s.finds ++ [(i, r)] }
        else none
    | .stop i =>
        if (s.status i = .searching ∨ s.status i = .found) ∧ s.finds ≠ [] then
          some (s.set i .stopped)
        else none
    | .fail i => if s.status i = .searching then some (s.set i .failed) else none
    | .finish =>
        if s.ended = false ∧ ∀ i, i < n → (s.status i).Over then some { s with ended := true }
        else none

variable {n : Nat} {good : R → Prop} {s t : HuntState R} {i : Nat}

theorem hunt_start (hi : i < n) (h : s.status i = .waiting) :
    (hunt n good).next s (.start i) = some (s.set i .searching) := if_pos ⟨hi, h⟩

theorem hunt_find {r : R} (h : s.status i = .searching) (hr : good r) :
    (hunt n good).next s (.find i r) =
      some { s.set i .found with finds := s.finds ++ [(i, r)] } := if_pos ⟨h, hr⟩

theorem hunt_stop (h : s.status i = .searching ∨ s.status i = .found) (hfinds : s.finds ≠ []) :
    (hunt n good).next s (.stop i) = some (s.set i .stopped) := if_pos ⟨h, hfinds⟩

theorem hunt_fail (h : s.status i = .searching) :
    (hunt n good).next s (.fail i) = some (s.set i .failed) := if_pos h

theorem hunt_finish (h : s.ended = false) (hover : ∀ i, i < n → (s.status i).Over) :
    (hunt n good).next s .finish = some { s with ended := true } := if_pos ⟨h, hover⟩

structure HuntInv (n : Nat) (good : R → Prop) (s : HuntState R) : Prop where
  good : ∀ find ∈ s.finds, good find.2
  nodup : (s.finds.map Prod.fst).Nodup
  fresh : ∀ i, (s.status i).Fresh → i ∉ s.finds.map Prod.fst
  working : ∀ i, s.status i ≠ .waiting → i < n
  finder : ∀ find ∈ s.finds, find.1 < n
  stopped : ∀ i, s.status i = .stopped → s.finds ≠ []
  ended : s.ended = true → ∀ i, i < n → (s.status i).Over

theorem huntInv_initial : HuntInv n good (HuntState.initial : HuntState R) where
  good find hfind := by cases hfind
  nodup := List.nodup_nil
  fresh i _ := List.not_mem_nil
  working i h := absurd rfl h
  finder find hfind := by cases hfind
  stopped i h := by cases h
  ended h := by cases h

theorem HuntInv.set (h : HuntInv n good s) {status : Status} (hi : i < n)
    (hold : ¬ (s.status i).Over)
    (hfresh : status.Fresh → i ∉ s.finds.map Prod.fst)
    (hstopped : status = .stopped → s.finds ≠ []) : HuntInv n good (s.set i status) where
  good := h.good
  nodup := h.nodup
  fresh j hj := by
    by_cases he : j = i
    · subst j
      rw [HuntState.set_status_same] at hj
      exact hfresh hj
    · rw [HuntState.set_status_ne s status he] at hj
      exact h.fresh j hj
  working j hj := by
    by_cases he : j = i
    · rw [he]
      exact hi
    · rw [HuntState.set_status_ne s status he] at hj
      exact h.working j hj
  finder := h.finder
  stopped j hj := by
    by_cases he : j = i
    · subst j
      rw [HuntState.set_status_same] at hj
      exact hstopped hj
    · rw [HuntState.set_status_ne s status he] at hj
      exact h.stopped j hj
  ended hended j hj := by
    by_cases he : j = i
    · exact absurd (h.ended hended i hi) hold
    · rw [HuntState.set_status_ne s status he]
      exact h.ended hended j hj

theorem HuntInv.find (h : HuntInv n good s) (hi : i < n) (hstatus : s.status i = .searching) {r : R}
    (hr : good r) : HuntInv n good { s.set i .found with finds := s.finds ++ [(i, r)] } := by
  have hnew : i ∉ s.finds.map Prod.fst := h.fresh i (by rw [hstatus]; trivial)
  have hset : HuntInv n good (s.set i .found) := by
    apply h.set hi
    · rw [hstatus]
      rintro (hover | hover) <;> cases hover
    · intro hfresh
      cases hfresh
    · intro hfound
      cases hfound
  refine { hset with good := ?_, nodup := ?_, fresh := ?_, finder := ?_, stopped := ?_ }
  · intro find hfind
    rcases List.mem_append.mp hfind with hold | hlast
    · exact h.good find hold
    · rw [List.mem_singleton.mp hlast]
      exact hr
  · rw [List.map_append, List.nodup_append]
    refine ⟨h.nodup, List.nodup_singleton _, ?_⟩
    intro j hj k hk he
    rw [List.mem_singleton.mp hk] at he
    rw [he] at hj
    exact hnew hj
  · intro j hj
    have hold := hset.fresh j hj
    rw [List.map_append, List.mem_append]
    rintro (hmem | hlast)
    · exact hold hmem
    · have hfound : ((s.set i .found).status j).Fresh := hj
      rw [List.mem_singleton.mp hlast, HuntState.set_status_same] at hfound
      cases hfound
  · intro find hfind
    rcases List.mem_append.mp hfind with hold | hlast
    · exact h.finder find hold
    · rw [List.mem_singleton.mp hlast]
      exact hi
  · intro j _
    exact List.append_ne_nil_of_right_ne_nil _ (List.cons_ne_nil _ _)

theorem huntInv_next {e : HuntEvent R} (h : HuntInv n good s)
    (hn : (hunt n good).next s e = some t) : HuntInv n good t := by
  cases e with
  | start i =>
      simp only [hunt, Option.ite_none_right_eq_some, Option.some.injEq] at hn
      obtain ⟨⟨hi, hstatus⟩, rfl⟩ := hn
      apply h.set hi
      · rw [hstatus]
        rintro (hover | hover) <;> cases hover
      · intro _
        exact h.fresh i (by rw [hstatus]; trivial)
      · intro hstopped
        cases hstopped
  | find i r =>
      simp only [hunt, Option.ite_none_right_eq_some, Option.some.injEq] at hn
      obtain ⟨⟨hstatus, hr⟩, rfl⟩ := hn
      have hi : i < n := h.working i (by rw [hstatus]; decide)
      exact h.find hi hstatus hr
  | stop i =>
      simp only [hunt, Option.ite_none_right_eq_some, Option.some.injEq] at hn
      obtain ⟨⟨hstatus, hfinds⟩, rfl⟩ := hn
      have hi : i < n := h.working i (by rcases hstatus with hst | hst <;> rw [hst] <;> decide)
      apply h.set hi
      · rcases hstatus with hst | hst <;> rw [hst] <;> rintro (hover | hover) <;> cases hover
      · intro hfresh
        cases hfresh
      · intro _
        exact hfinds
  | fail i =>
      simp only [hunt, Option.ite_none_right_eq_some, Option.some.injEq] at hn
      obtain ⟨hstatus, rfl⟩ := hn
      have hi : i < n := h.working i (by rw [hstatus]; decide)
      apply h.set hi
      · rw [hstatus]
        rintro (hover | hover) <;> cases hover
      · intro _
        exact h.fresh i (by rw [hstatus]; trivial)
      · intro hfailed
        cases hfailed
  | finish =>
      simp only [hunt, Option.ite_none_right_eq_some, Option.some.injEq] at hn
      obtain ⟨⟨_, hover⟩, rfl⟩ := hn
      exact { h with ended := fun _ => hover }

theorem huntInv_reachable (hs : (hunt n good).Reachable s) : HuntInv n good s := by
  apply hs.invariant
  · intro s hs
    rw [hs]
    exact huntInv_initial
  · intro s e t _ h _ hn
    exact huntInv_next h hn

theorem HuntInv.finds_nil_iff (h : HuntInv n good s) (hended : s.ended = true) :
    s.finds = [] ↔ ∀ i, i < n → s.status i = .failed := by
  constructor
  · intro hnil i hi
    rcases h.ended hended i hi with hstopped | hfailed
    · exact absurd hnil (h.stopped i hstopped)
    · exact hfailed
  · intro hall
    by_contra hne
    obtain ⟨find, hfind⟩ := List.exists_mem_of_ne_nil _ hne
    have hi : find.1 < n := h.finder find hfind
    apply h.fresh find.1
    · rw [hall find.1 hi]
      trivial
    · exact List.mem_map_of_mem hfind

end CoinTool
