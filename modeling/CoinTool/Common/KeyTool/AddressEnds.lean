import CoinTool.Common.KeyTool.AddressHunt

/-!
# How a search for an address ends

The counter is never zero again once a worker has written it, and from there on every thread has a
bounded number of steps left.  What is announced then is true unless every worker has given up.
-/

namespace CoinTool

open Framework

variable {Key : Type}

/-- The steps that a worker can still take when the counter is not zero. -/
def FinderPc.stepsLeft : FinderPc Key → Nat
  | .idle => 6
  | .make => 5
  | .compare _ => 4
  | .report _ => 3
  | .read => 2
  | .write _ => 1
  | .test => 1
  | .failed => 0
  | .left => 0

theorem FinderPc.stepsLeft_le (pc : FinderPc Key) : pc.stepsLeft ≤ 6 := by
  cases pc <;> simp [FinderPc.stepsLeft]

def FindMain.stepsLeft (icpu : Nat) : FindMain → Nat
  | .spawn i => icpu - i + icpu + 2
  | .join i => icpu - i + 1
  | .returned => 0

def FindState.stepsLeft (P : AddressSearch Key) (s : FindState Key) : Nat :=
  s.main.stepsLeft P.icpu + (Finset.range P.icpu).sum fun i => (s.workers i).stepsLeft

theorem FindState.stepsLeft_le (P : AddressSearch Key) (s : FindState Key) :
    s.stepsLeft P ≤ 8 * P.icpu + 2 := by
  have hmain : s.main.stepsLeft P.icpu ≤ 2 * P.icpu + 2 := by
    cases s.main <;> simp only [FindMain.stepsLeft] <;> omega
  have hworkers : ((Finset.range P.icpu).sum fun i => (s.workers i).stepsLeft) ≤ P.icpu * 6 := by
    have hsum := Finset.sum_le_card_nsmul (Finset.range P.icpu) (fun i => (s.workers i).stepsLeft) 6
      fun i _ => (s.workers i).stepsLeft_le
    rwa [Finset.card_range, Nat.nsmul_eq_mul] at hsum
  rw [FindState.stepsLeft]
  omega

section

variable {P : AddressSearch Key} {s t : FindState Key} {index : Nat} {drawn : Key} {verified : Bool}

theorem getaddressStep_left (h : FindRun P s) (hne : s.result ≠ 0)
    (hn : getaddressStep P index drawn verified s = some t) :
    t.main = s.main ∧ t.result ≠ 0 ∧ (∀ j, j ≠ index → t.workers j = s.workers j) ∧
      (t.workers index).stepsLeft < (s.workers index).stepsLeft := by
  have hstep (pc : FinderPc Key) (result : Int) (output : List (FindOutput Key))
      (ht : { s.goto index pc with result := result, output := output } = t) (hresult : result ≠ 0)
      {n : Nat} (hless : pc.stepsLeft < n) :
      t.main = s.main ∧ t.result ≠ 0 ∧ (∀ j, j ≠ index → t.workers j = s.workers j) ∧
        (t.workers index).stepsLeft < n := by
    subst ht
    refine ⟨rfl, hresult, fun j hj => goto_other s pc hj, ?_⟩
    show ((s.goto index pc).workers index).stepsLeft < _
    rw [goto_same]
    exact hless
  rw [getaddressStep] at hn
  cases hpc : s.workers index with
  | idle => simp [hpc] at hn
  | failed => simp [hpc] at hn
  | left => simp [hpc] at hn
  | test =>
      simp only [hpc, if_neg hne, Option.some.injEq] at hn
      exact hstep _ _ _ hn hne (by simp [FinderPc.stepsLeft])
  | make =>
      cases verified with
      | true =>
          simp only [hpc, if_true, Option.some.injEq] at hn
          exact hstep _ _ _ hn hne (by simp [FinderPc.stepsLeft])
      | false =>
          simp only [hpc, Bool.false_eq_true, if_false, Option.some.injEq] at hn
          exact hstep _ _ _ hn hne (by simp [FinderPc.stepsLeft])
  | compare secret =>
      simp only [hpc, Option.some.injEq] at hn
      refine hstep _ _ _ hn hne ?_
      split <;> simp [FinderPc.stepsLeft]
  | report secret =>
      simp only [hpc, Option.some.injEq] at hn
      exact hstep _ _ _ hn hne (by simp [FinderPc.stepsLeft])
  | read =>
      simp only [hpc, Option.some.injEq] at hn
      exact hstep _ _ _ hn hne (by simp [FinderPc.stepsLeft])
  | write value =>
      simp only [hpc, Option.some.injEq] at hn
      have hvalue := h.pending index value hpc
      exact hstep _ _ _ hn (by omega) (by simp [FinderPc.stepsLeft])

theorem findAddressStep_left (h : FindRun P s) (hn : findAddressStep P s = some t) :
    t.result = s.result ∧ t.stepsLeft P < s.stepsLeft P := by
  have hstarted := h.started
  rcases findAddressStep_cases hn with ⟨i, hmain, hi, rfl⟩ | ⟨i, hmain, hi, rfl⟩ |
    ⟨i, hmain, hi, hover, rfl⟩ | ⟨i, hmain, hi, rfl⟩
  · have hidle : s.workers i = .idle := by
      by_contra hne
      have hlt := (hstarted i).mp hne
      rw [hmain] at hlt
      exact lt_irrefl i hlt
    have hless := Machine.sum_range_lt FinderPc.stepsLeft (g := (s.goto i .test).workers) hi
      (fun j hj => goto_other s .test hj) (by
        rw [goto_same, hidle]
        simp [FinderPc.stepsLeft])
    refine ⟨rfl, Nat.add_lt_add ?_ hless⟩
    rw [hmain]
    simp only [FindMain.stepsLeft]
    omega
  · refine ⟨rfl, ?_⟩
    simp only [FindState.stepsLeft, hmain, FindMain.stepsLeft]
    omega
  · refine ⟨rfl, ?_⟩
    simp only [FindState.stepsLeft, hmain, FindMain.stepsLeft]
    omega
  · refine ⟨rfl, ?_⟩
    simp only [FindState.stepsLeft, hmain, FindMain.stepsLeft]
    omega

theorem getaddressStep_moves (P : AddressSearch Key) (drawn : Key) (verified : Bool)
    (hidle : s.workers index ≠ .idle) (hover : ¬ (s.workers index).Over) :
    ∃ t, getaddressStep P index drawn verified s = some t := by
  rw [← Option.isSome_iff_exists]
  cases hpc : s.workers index with
  | idle => exact absurd hpc hidle
  | failed => exact absurd (Or.inl hpc) hover
  | left => exact absurd (Or.inr hpc) hover
  | make => cases verified <;> simp [getaddressStep, hpc]
  | test => simp [getaddressStep, hpc]
  | compare secret => simp [getaddressStep, hpc]
  | report secret => simp [getaddressStep, hpc]
  | read => simp [getaddressStep, hpc]
  | write value => simp [getaddressStep, hpc]

theorem findAddress_moves (hs : (findAddress P).Reachable s) (hmain : s.main ≠ .returned) :
    (∃ t, (findAddress P).next s .main = some t) ∨
      ∃ i, i < P.icpu ∧ s.main = .join i ∧
        ∀ drawn verified, ∃ t, (findAddress P).next s (.worker i drawn verified) = some t := by
  have h := findRun_reachable hs
  have hgo : (findAddressStep P s).isSome → ∃ t, (findAddress P).next s .main = some t :=
    Option.isSome_iff_exists.mp
  cases hat : s.main with
  | returned => exact absurd hat hmain
  | spawn i =>
      left
      apply hgo
      by_cases hi : i < P.icpu <;> simp [findAddressStep, hat, hi]
  | join i =>
      by_cases hi : i < P.icpu
      · by_cases hover : (s.workers i).Over
        · left
          apply hgo
          rcases hover with hpc | hpc <;> simp [findAddressStep, hat, hi, hpc]
        · right
          have hidle : s.workers i ≠ .idle := by
            rw [h.started i, hat]
            exact hi
          exact ⟨i, hi, rfl, fun drawn verified => getaddressStep_moves P drawn verified hidle hover⟩
      · left
        apply hgo
        simp [findAddressStep, hat, hi]

theorem findAddress_completes (P : AddressSearch Key) (key : Key) :
    (findAddress P).Completes (fun s => (findAddress P).Reachable s ∧ s.result ≠ 0)
      (fun s => s.main = .returned) (FindState.stepsLeft P) where
  kept s a t hs hn := by
    have h := findRun_reachable hs.1
    refine ⟨.next hs.1 trivial hn, ?_⟩
    cases a with
    | main =>
        rw [(findAddressStep_left h hn).1]
        exact hs.2
    | worker index drawn verified => exact (getaddressStep_left h hs.2 hn).2.1
  falls s a t hs hn := by
    have h := findRun_reachable hs.1
    cases a with
    | main => exact (findAddressStep_left h hn).2
    | worker index drawn verified =>
        obtain ⟨hmain, -, hother, hless⟩ := getaddressStep_left h hs.2 hn
        have hindex : index < P.icpu :=
          lt_of_lt_of_le ((h.started index).mp (getaddressStep_values h hn).1) h.started_le
        rw [FindState.stepsLeft, FindState.stepsLeft, hmain]
        exact Nat.add_lt_add_left (Machine.sum_range_lt FinderPc.stepsLeft hindex hother hless) _
  moves s hs hfinal := by
    rcases findAddress_moves hs.1 hfinal with hmain | ⟨i, -, -, hworker⟩
    · obtain ⟨t, ht⟩ := hmain
      exact ⟨.main, t, ht⟩
    · obtain ⟨t, ht⟩ := hworker key true
      exact ⟨.worker i key true, t, ht⟩

end

/-- No reachable state but the last is stuck.  Once the counter is not zero, no run has more than
eight steps for each worker and two more, a run that cannot go on has announced a success, truly,
and there is such a run. -/
theorem findAddress_ends (P : AddressSearch Key) (key : Key) (s : FindState Key)
    (hs : (findAddress P).Reachable s) :
    (s.main ≠ .returned →
      (∃ t, (findAddress P).next s .main = some t) ∨
        ∃ i, i < P.icpu ∧ s.main = .join i ∧
          ∀ drawn verified, ∃ t, (findAddress P).next s (.worker i drawn verified) = some t) ∧
    (s.result ≠ 0 →
      (∀ actions t, (findAddress P).exec s actions = some t →
        actions.length ≤ 8 * P.icpu + 2 ∧
          ((∀ a, (findAddress P).next t a = none) →
            .congratulations ∈ t.output ∧ P.Found t.output)) ∧
      ∃ actions t, (findAddress P).exec s actions = some t ∧ t.main = .returned) := by
  have hends := findAddress_completes P key
  refine ⟨findAddress_moves hs, ?_⟩
  intro hne
  refine ⟨?_, hends.exists_final ⟨hs, hne⟩⟩
  intro actions t hrun
  obtain ⟨⟨ht, htne⟩, hlength⟩ := hends.exec_le ⟨hs, hne⟩ hrun
  have hbound := s.stepsLeft_le P
  refine ⟨by omega, ?_⟩
  intro hstuck
  have h := findRun_reachable ht
  exact ⟨h.announced.mpr (hends.final_of_stuck ⟨hs, hne⟩ hrun hstuck), h.result htne⟩

theorem findAddress_ends_sample :
    ∃ s, (findAddress sampleSearch).Reachable s ∧ s.result ≠ 0 ∧
      ∀ actions t, (findAddress sampleSearch).exec s actions = some t →
        actions.length ≤ 10 := by
  obtain ⟨s, hexec, hne⟩ := Machine.exec_exists (findAddress sampleSearch) .initial
    [.main, .worker 0 true true, .worker 0 true true, .worker 0 true true, .worker 0 true true,
      .worker 0 true true, .worker 0 true true]
    (fun s => s.result ≠ 0) (by decide)
  rw [decide_eq_true_eq] at hne
  have hs : (findAddress sampleSearch).Reachable s := Machine.Reachable.exec (.start rfl) hexec
  obtain ⟨-, hafter⟩ := findAddress_ends sampleSearch true s hs
  obtain ⟨hbounded, -⟩ := hafter hne
  exact ⟨s, hs, hne, fun actions t hrun => (hbounded actions t hrun).1⟩

/-- No worker prints more than one key, and every key printed matches.  The success is announced
when the search returns, and then no key has been printed exactly when every worker has met a key
that it could not verify. -/
theorem findAddress_prints_once (P : AddressSearch Key) (s : FindState Key)
    (hs : (findAddress P).Reachable s) :
    ((reported s.output).map Prod.fst).Nodup ∧
      (∀ p ∈ reported s.output, p.1 < P.icpu ∧ P.Matches p.2) ∧
      (.congratulations ∈ s.output ↔ s.main = .returned) ∧
      (s.main = .returned →
        (reported s.output = [] ↔ ∀ i, i < P.icpu → s.workers i = .failed)) := by
  have h := findRun_reachable hs
  have hhunt := huntInv_finderView hs
  refine ⟨hhunt.nodup, ?_, h.announced, ?_⟩
  · intro p hp
    exact ⟨hhunt.finder p hp, hhunt.good p hp⟩
  · intro hmain
    have hended : (finderView s).ended = true := by simp [finderView, hmain]
    have hstatus (pc : FinderPc Key) : pc.status = .failed ↔ pc = .failed := by
      cases pc <;> simp [FinderPc.status]
    have hnil := hhunt.finds_nil_iff hended
    simp only [finderView, hstatus] at hnil
    exact hnil

theorem findAddress_prints_once_sample :
    ∃ s, (findAddress sampleSearch).Reachable s ∧ reported s.output = [(0, true)] ∧
      .congratulations ∈ s.output ∧ sampleSearch.Matches true ∧
      ¬ ∀ i, i < sampleSearch.icpu → s.workers i = .failed := by
  obtain ⟨s, hexec, hend⟩ := Machine.exec_exists (findAddress sampleSearch) .initial
    [.main, .main, .worker 0 false true, .worker 0 false true, .worker 0 false true,
      .worker 0 true true, .worker 0 true true, .worker 0 true true, .worker 0 true true,
      .worker 0 true true, .worker 0 true true, .main, .main]
    (fun s => s.main = .returned ∧ reported s.output = [(0, true)]) (by decide)
  obtain ⟨hmain, hreported⟩ := of_decide_eq_true hend
  have hs : (findAddress sampleSearch).Reachable s := .exec (.start rfl) hexec
  obtain ⟨-, hmatches, hannounced, hfailed⟩ := findAddress_prints_once sampleSearch s hs
  refine ⟨s, hs, hreported, hannounced.mpr hmain, ?_, ?_⟩
  · exact (hmatches (0, true) (by simp [hreported])).2
  · rw [← hfailed hmain, hreported]
    simp

end CoinTool
