import CoinTool.Framework.Machine
import CoinTool.Common.KeyTool.FindAddress
import Mathlib.Logic.Function.Basic

/-!
# The search for an address

`FindAddress` starts the workers, joins them and announces a success.  A worker leaves its loop when
it has found an address, when the shared counter shows that another one has, or when a key that it
has made fails `VerifyPubKey`; the main thread does not look at which of these it was.
-/

namespace CoinTool

open Framework

variable {Key : Type}

/-- What a search is given; `address` is the text of the address of a key. -/
structure AddressSearch (Key : Type) where
  vTarget : Targets
  bIsCase : Bool
  icpu : Nat
  address : Key → AddressText

/-- The next step of `_getaddress`; `write` holds the value of `*result` read for the increment. -/
inductive FinderPc (Key : Type) where
  | idle
  | test
  | make
  | compare (secret : Key)
  | report (secret : Key)
  | read
  | write (value : Int)
  | failed
  | left
  deriving DecidableEq, Repr

inductive FindMain where
  | spawn (i : Nat)
  | join (i : Nat)
  | returned
  deriving DecidableEq, Repr

inductive FindOutput (Key : Type) where
  | verifyFailed (index : Nat)
  | target (index : Nat) (secret : Key)
  | congratulations
  deriving DecidableEq, Repr

structure FindState (Key : Type) where
  main : FindMain
  result : Int
  output : List (FindOutput Key)
  workers : Nat → FinderPc Key

def FindState.goto (s : FindState Key) (index : Nat) (pc : FinderPc Key) : FindState Key :=
  { s with workers := Function.update s.workers index pc }

/-- The next step of main or of a worker, which makes the key `drawn` if it makes one, with this
outcome of `VerifyPubKey`. -/
inductive FindAction (Key : Type) where
  | main
  | worker (index : Nat) (drawn : Key) (verified : Bool)

def FindState.initial : FindState Key where
  main := .spawn 0
  result := 0
  output := []
  workers _ := .idle

/-- One step of `_getaddress(vTarget, index, bIsCase, result)`. -/
def getaddressStep (P : AddressSearch Key) (index : Nat) (drawn : Key) (verified : Bool)
    (s : FindState Key) : Option (FindState Key) :=
  match s.workers index with
  | .idle => none
  | .test => some (s.goto index (if s.result = 0 then .make else .left))
  | .make =>
      if verified then some (s.goto index (.compare drawn))
      else some { s.goto index .failed with output := s.output ++ [.verifyFailed index] }
  | .compare secret =>
      some (s.goto index
        (if reports P.vTarget.list P.bIsCase (P.address secret).text then .report secret
        else .test))
  | .report secret =>
      some { s.goto index .read with output := s.output ++ [.target index secret] }
  -- `(*result)++` reads and writes in two steps
  | .read => some (s.goto index (.write s.result))
  | .write value => some { s.goto index .left with result := value + 1 }
  | .failed => none
  | .left => none

def findAddressStep (P : AddressSearch Key) (s : FindState Key) : Option (FindState Key) :=
  match s.main with
  | .spawn i =>
      if i < P.icpu then some { s.goto i .test with main := .spawn (i + 1) }
      else some { s with main := .join 0 }
  | .join i =>
      if i < P.icpu then
        match s.workers i with
        | .failed | .left => some { s with main := .join (i + 1) }
        | _ => none
      else some { s with main := .returned, output := s.output ++ [.congratulations] }
  | .returned => none

def findAddress (P : AddressSearch Key) : Machine (FindState Key) (FindAction Key) where
  start s := s = .initial
  next s a :=
    match a with
    | .main => findAddressStep P s
    | .worker index drawn verified => getaddressStep P index drawn verified s

/-- A worker has printed a private key whose address contains every target. -/
def AddressSearch.Found (P : AddressSearch Key) (output : List (FindOutput Key)) : Prop :=
  ∃ index secret, .target index secret ∈ output ∧
    ∀ target ∈ P.vTarget.list, Occurs P.bIsCase (P.address secret).text target

/-- A failed verification is no step of a worker when all the others have failed before. -/
def AddressSearch.StepOk (P : AddressSearch Key) (s : FindState Key) : FindAction Key → Prop
  | .main => True
  | .worker index _ verified =>
      s.workers index = .make → verified = false →
        ∃ j, j < P.icpu ∧ j ≠ index ∧ s.workers j ≠ .failed

instance [DecidableEq Key] (P : AddressSearch Key) (s : FindState Key) (a : FindAction Key) :
    Decidable (P.StepOk s a) :=
  match a with
  | .main => isTrue trivial
  | .worker index _ verified =>
      inferInstanceAs (Decidable (s.workers index = .make → verified = false →
        ∃ j, j < P.icpu ∧ j ≠ index ∧ s.workers j ≠ .failed))

def FinderOk (P : AddressSearch Key) (output : List (FindOutput Key)) : FinderPc Key → Prop
  | .report secret => ∀ target ∈ P.vTarget.list, Occurs P.bIsCase (P.address secret).text target
  | .read => P.Found output
  | .write _ => P.Found output
  | .left => P.Found output
  | _ => True

theorem AddressSearch.Found.append {P : AddressSearch Key} {output : List (FindOutput Key)}
    (h : P.Found output) (more : List (FindOutput Key)) : P.Found (output ++ more) := by
  obtain ⟨index, secret, hmem, hoccurs⟩ := h
  exact ⟨index, secret, List.mem_append_left more hmem, hoccurs⟩

theorem FinderOk.append {P : AddressSearch Key} {output : List (FindOutput Key)} {pc : FinderPc Key}
    (h : FinderOk P output pc) (more : List (FindOutput Key)) : FinderOk P (output ++ more) pc := by
  cases pc with
  | read => exact AddressSearch.Found.append h more
  | write value => exact AddressSearch.Found.append h more
  | left => exact AddressSearch.Found.append h more
  | report secret => exact h
  | idle => trivial
  | test => trivial
  | make => trivial
  | compare secret => trivial
  | failed => trivial

def FinderPc.Over (pc : FinderPc Key) : Prop := pc = .failed ∨ pc = .left

def FindMain.joined (icpu : Nat) : FindMain → Nat
  | .spawn _ => 0
  | .join i => i
  | .returned => icpu

structure FindInv (P : AddressSearch Key) (s : FindState Key) : Prop where
  workers : ∀ i, FinderOk P s.output (s.workers i)
  result : s.result ≠ 0 → P.Found s.output
  joined : ∀ i, i < s.main.joined P.icpu → (s.workers i).Over
  hopeful : ∃ i, i < P.icpu ∧ s.workers i ≠ .failed
  announced : .congratulations ∈ s.output → P.Found s.output

structure FinderStep (P : AddressSearch Key) (index : Nat) (verified : Bool) (s : FindState Key)
    (pc : FinderPc Key) (result : Int) (more : List (FindOutput Key)) : Prop where
  running : ¬(s.workers index).Over
  silent : .congratulations ∉ more
  worker : FinderOk P s.output (s.workers index) → (s.result ≠ 0 → P.Found s.output) →
    FinderOk P (s.output ++ more) pc
  counter : FinderOk P s.output (s.workers index) → (s.result ≠ 0 → P.Found s.output) →
    result ≠ 0 → P.Found (s.output ++ more)
  failed : pc = .failed → s.workers index = .make ∧ verified = false

theorem FinderStep.quiet {P : AddressSearch Key} {index : Nat} {verified : Bool}
    {s : FindState Key} {pc : FinderPc Key} (hrunning : ¬(s.workers index).Over)
    (hworker : FinderOk P s.output (s.workers index) → (s.result ≠ 0 → P.Found s.output) →
      FinderOk P s.output pc)
    (hfailed : pc ≠ .failed) : FinderStep P index verified s pc s.result [] := by
  constructor
  · exact hrunning
  · exact List.not_mem_nil
  · rw [List.append_nil]
    exact hworker
  · rw [List.append_nil]
    intro _ hresult
    exact hresult
  · intro hpc
    exact absurd hpc hfailed

theorem getaddressStep_running {P : AddressSearch Key} {index : Nat} {drawn : Key}
    {verified : Bool} {s t : FindState Key}
    (h : getaddressStep P index drawn verified s = some t) : ¬(s.workers index).Over := by
  intro hleft
  rcases hleft with hpc | hpc <;> simp [getaddressStep, hpc] at h

theorem getaddressStep_cases {P : AddressSearch Key} {index : Nat} {drawn : Key} {verified : Bool}
    {s t : FindState Key} (h : getaddressStep P index drawn verified s = some t) :
    ∃ pc result more, t = { s.goto index pc with result := result, output := s.output ++ more } ∧
      FinderStep P index verified s pc result more := by
  have hgoto : ∀ pc, s.goto index pc =
      { s.goto index pc with result := s.result, output := s.output ++ [] } := by
    intro pc
    simp [FindState.goto]
  have hrunning := getaddressStep_running h
  rw [getaddressStep] at h
  cases hpc : s.workers index with
  | idle => simp [hpc] at h
  | failed => simp [hpc] at h
  | left => simp [hpc] at h
  | test =>
      simp only [hpc, Option.some.injEq] at h
      refine ⟨_, _, _, h.symm.trans (hgoto _), ?_⟩
      apply FinderStep.quiet
      · exact hrunning
      · intro _ hresult
        split
        · trivial
        · rename_i hfound
          exact hresult hfound
      · split <;> simp
  | make =>
      simp only [hpc] at h
      cases verified with
      | true =>
          simp only [if_true, Option.some.injEq] at h
          refine ⟨_, _, _, h.symm.trans (hgoto _), ?_⟩
          apply FinderStep.quiet
          · exact hrunning
          · intro _ _
            trivial
          · simp
      | false =>
          simp only [Bool.false_eq_true, if_false, Option.some.injEq] at h
          refine ⟨.failed, s.result, _, h.symm, ?_⟩
          constructor
          · exact hrunning
          · simp
          · intro _ _
            trivial
          · intro _ hresult hne
            apply AddressSearch.Found.append
            exact hresult hne
          · intro _
            exact ⟨hpc, rfl⟩
  | compare secret =>
      simp only [hpc, Option.some.injEq] at h
      refine ⟨_, _, _, h.symm.trans (hgoto _), ?_⟩
      apply FinderStep.quiet
      · exact hrunning
      · intro _ _
        split
        · rename_i hreports
          exact (reports_iff_occurs P.vTarget P.bIsCase (P.address secret)).mp hreports
        · trivial
      · split <;> simp
  | report secret =>
      simp only [hpc, Option.some.injEq] at h
      have hfound : FinderOk P s.output (s.workers index) →
          P.Found (s.output ++ [.target index secret]) := by
        intro hoccurs
        rw [hpc] at hoccurs
        exact ⟨index, secret, by simp, hoccurs⟩
      refine ⟨.read, s.result, _, h.symm, ?_⟩
      constructor
      · exact hrunning
      · simp
      · intro hworker _
        exact hfound hworker
      · intro hworker _ _
        exact hfound hworker
      · simp
  | read =>
      simp only [hpc, Option.some.injEq] at h
      refine ⟨_, _, _, h.symm.trans (hgoto _), ?_⟩
      apply FinderStep.quiet
      · exact hrunning
      · intro hworker _
        rw [hpc] at hworker
        exact hworker
      · simp
  | write value =>
      simp only [hpc, Option.some.injEq] at h
      have hleft : t = { s.goto index .left with result := value + 1, output := s.output ++ [] } := by
        rw [← h, List.append_nil]
        rfl
      refine ⟨.left, value + 1, [], hleft, ?_⟩
      constructor
      · exact hrunning
      · simp
      · intro hworker _
        rw [hpc] at hworker
        exact AddressSearch.Found.append hworker []
      · intro hworker _ _
        rw [hpc] at hworker
        exact AddressSearch.Found.append hworker []
      · simp

section

variable {P : AddressSearch Key} {s t : FindState Key}

theorem findInv_initial (hicpu : 0 < P.icpu) : FindInv P FindState.initial where
  workers _ := trivial
  result h := absurd rfl h
  joined i h := absurd h (Nat.not_lt_zero i)
  hopeful := ⟨0, hicpu, by simp [FindState.initial]⟩
  announced h := by cases h

theorem FindInv.worker (h : FindInv P s) {index : Nat} {drawn : Key} {verified : Bool}
    (hok : P.StepOk s (.worker index drawn verified))
    (hn : getaddressStep P index drawn verified s = some t) : FindInv P t := by
  obtain ⟨pc, result, more, rfl, hstep⟩ := getaddressStep_cases hn
  have hpc := hstep.worker (h.workers index) h.result
  have hsame : (s.goto index pc).workers index = pc := Function.update_self ..
  have hother : ∀ j, j ≠ index → (s.goto index pc).workers j = s.workers j :=
    fun j hj => Function.update_of_ne hj ..
  constructor
  · intro i
    by_cases he : i = index
    · subst i
      rw [← hsame] at hpc
      exact hpc
    · show FinderOk P (s.output ++ more) ((s.goto index pc).workers i)
      rw [hother i he]
      apply FinderOk.append
      exact h.workers i
  · exact hstep.counter (h.workers index) h.result
  · intro i hi
    have hi' := h.joined i hi
    have he : i ≠ index := by
      rintro rfl
      exact hstep.running hi'
    show ((s.goto index pc).workers i).Over
    rw [hother i he]
    exact hi'
  · show ∃ i, i < P.icpu ∧ (s.goto index pc).workers i ≠ .failed
    by_cases hfailed : pc = .failed
    · obtain ⟨hmake, hverified⟩ := hstep.failed hfailed
      obtain ⟨j, hj, hne, hhope⟩ := hok hmake hverified
      rw [← hother j hne] at hhope
      exact ⟨j, hj, hhope⟩
    · obtain ⟨i, hi, hhope⟩ := h.hopeful
      have hstill : (s.goto index pc).workers i ≠ .failed := by
        by_cases he : i = index
        · subst i
          rw [hsame]
          exact hfailed
        · rw [hother i he]
          exact hhope
      exact ⟨i, hi, hstill⟩
  · intro hmem
    rcases List.mem_append.mp hmem with hbefore | hnow
    · apply AddressSearch.Found.append
      exact h.announced hbefore
    · exact absurd hnow hstep.silent

theorem FindInv.spawn (h : FindInv P s) (i : Nat) :
    FindInv P { s.goto i .test with main := .spawn (i + 1) } := by
  have hsame : (s.goto i .test).workers i = .test := Function.update_self ..
  have hother : ∀ j, j ≠ i → (s.goto i .test).workers j = s.workers j :=
    fun j hj => Function.update_of_ne hj ..
  constructor
  · intro j
    show FinderOk P s.output ((s.goto i .test).workers j)
    by_cases he : j = i
    · subst j
      rw [hsame]
      trivial
    · rw [hother j he]
      exact h.workers j
  · exact h.result
  · intro j hj
    exact absurd hj (Nat.not_lt_zero j)
  · obtain ⟨j, hj, hhope⟩ := h.hopeful
    have hstill : (s.goto i .test).workers j ≠ .failed := by
      by_cases he : j = i
      · subst j
        rw [hsame]
        simp
      · rw [hother j he]
        exact hhope
    exact ⟨j, hj, hstill⟩
  · exact h.announced

theorem FindInv.found (h : FindInv P s) (hall : P.icpu ≤ s.main.joined P.icpu) :
    P.Found s.output := by
  obtain ⟨j, hj, hhope⟩ := h.hopeful
  have hworker := h.workers j
  rcases h.joined j (by omega) with hfailed | hleft
  · exact absurd hfailed hhope
  · rw [hleft] at hworker
    exact hworker

theorem FindInv.join (h : FindInv P s) {i : Nat} (hmain : s.main = .join i)
    (hworker : (s.workers i).Over) : FindInv P { s with main := .join (i + 1) } := by
  have hjoined : ∀ j, j < i + 1 → (s.workers j).Over := by
    intro j hj
    rcases Nat.lt_succ_iff_lt_or_eq.mp hj with hlt | rfl
    · apply h.joined j
      rw [hmain]
      exact hlt
    · exact hworker
  exact ⟨h.workers, h.result, hjoined, h.hopeful, h.announced⟩

theorem FindInv.announce (h : FindInv P s) {i : Nat} (hmain : s.main = .join i)
    (hlast : P.icpu ≤ i) :
    FindInv P { s with main := .returned, output := s.output ++ [.congratulations] } := by
  have hjoined : ∀ j, j < i → (s.workers j).Over := by
    intro j hj
    apply h.joined j
    rw [hmain]
    exact hj
  have hfound : P.Found s.output := by
    apply h.found
    rw [hmain]
    exact hlast
  constructor
  · intro j
    apply FinderOk.append
    exact h.workers j
  · intro _
    apply AddressSearch.Found.append
    exact hfound
  · intro j hj
    apply hjoined
    exact lt_of_lt_of_le hj hlast
  · exact h.hopeful
  · intro _
    apply AddressSearch.Found.append
    exact hfound

theorem FindInv.main (h : FindInv P s) (hn : findAddressStep P s = some t) : FindInv P t := by
  rw [findAddressStep] at hn
  cases hmain : s.main with
  | returned => simp [hmain] at hn
  | spawn i =>
      simp only [hmain] at hn
      split at hn
      · cases hn
        exact h.spawn i
      · cases hn
        have hjoined : ∀ j, j < 0 → (s.workers j).Over :=
          fun j hj => absurd hj (Nat.not_lt_zero j)
        exact ⟨h.workers, h.result, hjoined, h.hopeful, h.announced⟩
  | join i =>
      simp only [hmain] at hn
      split at hn
      · split at hn
        · rename_i hpc
          cases hn
          exact h.join hmain (Or.inl hpc)
        · rename_i hpc
          cases hn
          exact h.join hmain (Or.inr hpc)
        · cases hn
      · rename_i hlast
        cases hn
        exact h.announce hmain (not_lt.mp hlast)

end

/-- With at least one worker, in every interleaving in which not all workers leave through a failed
verification, the success is announced only after a worker has printed a private key whose address
contains every target. -/
theorem findAddress_announces_found (P : AddressSearch Key) (hicpu : 0 < P.icpu)
    (s : FindState Key) (hs : (findAddress P).Reach P.StepOk s)
    (hannounced : .congratulations ∈ s.output) :
    ∃ index secret, .target index secret ∈ s.output ∧
      ∀ target ∈ P.vTarget.list, Occurs P.bIsCase (P.address secret).text target := by
  have hinv : FindInv P s := by
    apply hs.invariant
    · rintro s rfl
      exact findInv_initial hicpu
    · intro s a t _ h hok hn
      cases a with
      | main => exact h.main hn
      | worker index drawn verified => exact h.worker hok hn
  exact hinv.announced hannounced

/-- One worker, which is to find `Z1`; the keys are `true` with the address `UZ1a` and `false`. -/
def sampleSearch : AddressSearch Bool where
  vTarget := ⟨["Z1".toList], by decide, by decide⟩
  bIsCase := true
  icpu := 1
  address secret :=
    if secret then ⟨"UZ1a".toList, by decide, by decide⟩ else ⟨"UQ7b".toList, by decide, by decide⟩

theorem findAddress_announces_found_sample :
    ∃ s, (findAddress sampleSearch).Reach sampleSearch.StepOk s ∧ .congratulations ∈ s.output ∧
      ∃ index secret, .target index secret ∈ s.output ∧
        ∀ target ∈ sampleSearch.vTarget.list,
          Occurs sampleSearch.bIsCase (sampleSearch.address secret).text target := by
  obtain ⟨s, hexec, hend⟩ := Machine.execWhile_exists (findAddress sampleSearch)
    sampleSearch.StepOk .initial
    [.main, .main, .worker 0 false true, .worker 0 false true, .worker 0 false true,
      .worker 0 true true, .worker 0 true true, .worker 0 true true, .worker 0 true true,
      .worker 0 true true, .worker 0 true true, .main, .main]
    (fun s => .congratulations ∈ s.output) (by decide)
  have hannounced := of_decide_eq_true hend
  have hs : (findAddress sampleSearch).Reach sampleSearch.StepOk s := .execWhile (.start rfl) hexec
  exact ⟨s, hs, hannounced,
    findAddress_announces_found sampleSearch (by decide) s hs hannounced⟩

/-- The only worker leaves through a failed verification, and the success is announced. -/
theorem findAddress_announces_nothing :
    ¬ ∀ (P : AddressSearch Bool) (s : FindState Bool), (findAddress P).Reachable s →
      .congratulations ∈ s.output → P.Found s.output := by
  intro h
  obtain ⟨s, hexec, hend⟩ := Machine.exec_exists (findAddress sampleSearch) .initial
    [.main, .main, .worker 0 true true, .worker 0 true false, .main, .main]
    (fun s => s.output = [.verifyFailed 0, .congratulations]) (by decide)
  have houtput := of_decide_eq_true hend
  have hs : (findAddress sampleSearch).Reachable s := .exec (.start rfl) hexec
  obtain ⟨index, secret, hmem, _⟩ := h sampleSearch s hs (by simp [houtput])
  simp [houtput] at hmem

end CoinTool
