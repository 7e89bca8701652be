import CoinTool.Common.Hunt
import CoinTool.Common.KeyTool.AddressSearch

/-!
# The search for an address as a search by several workers

A worker has found its key when it prints it, and it stops when it has counted it or has read that
the counter is not zero.  A worker that cannot verify a key gives up.
-/

namespace CoinTool

open Framework

variable {Key : Type}

def FinderPc.status : FinderPc Key → Status
  | .idle => .waiting
  | .test | .make | .compare _ | .report _ => .searching
  | .read | .write _ => .found
  | .failed => .failed
  | .left => .stopped

def reported (output : List (FindOutput Key)) : List (Nat × Key) :=
  output.filterMap fun
    | .target index secret => some (index, secret)
    | .verifyFailed _ | .congratulations => none

def finderView (s : FindState Key) : HuntState Key where
  status index := (s.workers index).status
  finds := reported s.output
  ended :=
    match s.main with
    | .returned => true
    | .spawn _ | .join _ => false

/-- The address of the key contains every target. -/
def AddressSearch.Matches (P : AddressSearch Key) (secret : Key) : Prop :=
  ∀ target ∈ P.vTarget.list, Occurs P.bIsCase (P.address secret).text target

theorem reported_append (first second : List (FindOutput Key)) :
    reported (first ++ second) = reported first ++ reported second :=
  List.filterMap_append ..

theorem AddressSearch.Found.reported_ne {P : AddressSearch Key} {output : List (FindOutput Key)}
    (h : P.Found output) : reported output ≠ [] := by
  obtain ⟨index, secret, hmem, -⟩ := h
  have hreported : (index, secret) ∈ reported output :=
    List.mem_filterMap.mpr ⟨.target index secret, hmem, rfl⟩
  exact List.ne_nil_of_mem hreported

def FindMain.started (icpu : Nat) : FindMain → Nat
  | .spawn i => i
  | .join _ | .returned => icpu

/-- What every run keeps, however many verifications fail. -/
structure FindRun (P : AddressSearch Key) (s : FindState Key) : Prop where
  workers : ∀ i, FinderOk P s.output (s.workers i)
  result : s.result ≠ 0 → P.Found s.output
  nonneg : 0 ≤ s.result
  pending : ∀ i value, s.workers i = .write value → 0 ≤ value
  started_le : s.main.started P.icpu ≤ P.icpu
  started : ∀ i, s.workers i ≠ .idle ↔ i < s.main.started P.icpu
  joined : ∀ i, i < s.main.joined P.icpu → (s.workers i).Over
  announced : .congratulations ∈ s.output ↔ s.main = .returned

section

variable {P : AddressSearch Key} {s t : FindState Key} {index : Nat} {drawn : Key} {verified : Bool}

theorem goto_same (s : FindState Key) (index : Nat) (pc : FinderPc Key) :
    (s.goto index pc).workers index = pc := Function.update_self ..

theorem goto_other (s : FindState Key) {i index : Nat} (pc : FinderPc Key) (h : i ≠ index) :
    (s.goto index pc).workers i = s.workers i := Function.update_of_ne h ..

theorem findRun_initial (P : AddressSearch Key) : FindRun P FindState.initial where
  workers _ := trivial
  result h := absurd rfl h
  nonneg := Int.le_refl 0
  pending i value h := by cases h
  started_le := Nat.zero_le _
  started i := ⟨fun h => absurd rfl h, fun h => absurd h (Nat.not_lt_zero i)⟩
  joined i h := absurd h (Nat.not_lt_zero i)
  announced := by simp [FindState.initial]

theorem getaddressStep_values (h : FindRun P s)
    (hn : getaddressStep P index drawn verified s = some t) :
    s.workers index ≠ .idle ∧ t.workers index ≠ .idle ∧ 0 ≤ t.result ∧
      ∀ value, t.workers index = .write value → 0 ≤ value := by
  have hstep (pc : FinderPc Key) (result : Int) (output : List (FindOutput Key))
      (ht : { s.goto index pc with result := result, output := output } = t) (hidle : pc ≠ .idle)
      (hresult : 0 ≤ result) (hwrite : ∀ value, pc = .write value → 0 ≤ value) :
      t.workers index ≠ .idle ∧ 0 ≤ t.result ∧ ∀ value, t.workers index = .write value → 0 ≤ value := by
    subst ht
    show (s.goto index pc).workers index ≠ .idle ∧ 0 ≤ result ∧
      ∀ value, (s.goto index pc).workers index = .write value → 0 ≤ value
    rw [goto_same]
    exact ⟨hidle, hresult, hwrite⟩
  rw [getaddressStep] at hn
  cases hpc : s.workers index with
  | idle => simp [hpc] at hn
  | failed => simp [hpc] at hn
  | left => simp [hpc] at hn
  | test =>
      simp only [hpc, Option.some.injEq] at hn
      exact ⟨by simp, hstep _ _ _ hn (by split <;> simp) h.nonneg (by split <;> simp)⟩
  | make =>
      cases verified with
      | true =>
          simp only [hpc, if_true, Option.some.injEq] at hn
          exact ⟨by simp, hstep _ _ _ hn (by simp) h.nonneg (by simp)⟩
      | false =>
          simp only [hpc, Bool.false_eq_true, if_false, Option.some.injEq] at hn
          exact ⟨by simp, hstep _ _ _ hn (by simp) h.nonneg (by simp)⟩
  | compare secret =>
      simp only [hpc, Option.some.injEq] at hn
      exact ⟨by simp, hstep _ _ _ hn (by split <;> simp) h.nonneg (by split <;> simp)⟩
  | report secret =>
      simp only [hpc, Option.some.injEq] at hn
      exact ⟨by simp, hstep _ _ _ hn (by simp) h.nonneg (by simp)⟩
  | read =>
      simp only [hpc, Option.some.injEq] at hn
      refine ⟨by simp, hstep _ _ _ hn (by simp) h.nonneg ?_⟩
      intro value hvalue
      cases hvalue
      exact h.nonneg
  | write value =>
      simp only [hpc, Option.some.injEq] at hn
      have hvalue := h.pending index value hpc
      exact ⟨by simp, hstep _ _ _ hn (by simp) (by omega) (by simp)⟩

theorem findRun_getaddressStep (h : FindRun P s)
    (hn : getaddressStep P index drawn verified s = some t) : FindRun P t := by
  obtain ⟨hstarted, hidle, hnonneg, hvalue⟩ := getaddressStep_values h hn
  obtain ⟨pc, result, more, rfl, hstep⟩ := getaddressStep_cases hn
  change (s.goto index pc).workers index ≠ .idle at hidle
  change ∀ value, (s.goto index pc).workers index = .write value → 0 ≤ value at hvalue
  rw [goto_same] at hidle hvalue
  refine ⟨?_, hstep.counter (h.workers index) h.result, hnonneg, ?_, h.started_le, ?_, ?_, ?_⟩
  · intro i
    show FinderOk P (s.output ++ more) ((s.goto index pc).workers i)
    by_cases he : i = index
    · rw [he, goto_same]
      exact hstep.worker (h.workers index) h.result
    · rw [goto_other s pc he]
      exact (h.workers i).append more
  · intro i value hi
    change (s.goto index pc).workers i = .write value at hi
    by_cases he : i = index
    · rw [he, goto_same] at hi
      exact hvalue value hi
    · rw [goto_other s pc he] at hi
      exact h.pending i value hi
  · intro i
    show (s.goto index pc).workers i ≠ .idle ↔ i < s.main.started P.icpu
    rw [← h.started i]
    by_cases he : i = index
    · rw [he, goto_same]
      exact iff_of_true hidle hstarted
    · rw [goto_other s pc he]
  · intro i hi
    show ((s.goto index pc).workers i).Over
    have hover := h.joined i hi
    have he : i ≠ index := by
      rintro rfl
      exact hstep.running hover
    rw [goto_other s pc he]
    exact hover
  · show .congratulations ∈ s.output ++ more ↔ s.main = .returned
    rw [← h.announced, List.mem_append]
    exact or_iff_left hstep.silent

theorem findAddressStep_cases (hn : findAddressStep P s = some t) :
    (∃ i, s.main = .spawn i ∧ i < P.icpu ∧ t = { s.goto i .test with main := .spawn (i + 1) }) ∨
    (∃ i, s.main = .spawn i ∧ ¬ i < P.icpu ∧ t = { s with main := .join 0 }) ∨
    (∃ i, s.main = .join i ∧ i < P.icpu ∧ (s.workers i).Over ∧ t = { s with main := .join (i + 1) }) ∨
    ∃ i, s.main = .join i ∧ ¬ i < P.icpu ∧
      t = { s with main := .returned, output := s.output ++ [.congratulations] } := by
  rw [findAddressStep] at hn
  cases hmain : s.main with
  | returned => simp [hmain] at hn
  | spawn i =>
      simp only [hmain] at hn
      split at hn
      · rename_i hi
        cases hn
        exact Or.inl ⟨i, rfl, hi, rfl⟩
      · rename_i hi
        cases hn
        exact Or.inr (Or.inl ⟨i, rfl, hi, rfl⟩)
  | join i =>
      simp only [hmain] at hn
      split at hn
      · rename_i hi
        split at hn
        · rename_i hpc
          cases hn
          exact Or.inr (Or.inr (Or.inl ⟨i, rfl, hi, Or.inl hpc, rfl⟩))
        · rename_i hpc
          cases hn
          exact Or.inr (Or.inr (Or.inl ⟨i, rfl, hi, Or.inr hpc, rfl⟩))
        · cases hn
      · rename_i hi
        cases hn
        exact Or.inr (Or.inr (Or.inr ⟨i, rfl, hi, rfl⟩))

theorem findRun_findAddressStep (h : FindRun P s) (hn : findAddressStep P s = some t) :
    FindRun P t := by
  have hle := h.started_le
  have hstarted := h.started
  have hjoined := h.joined
  have hannounced := h.announced
  rcases findAddressStep_cases hn with ⟨i, hmain, hi, rfl⟩ | ⟨i, hmain, hi, rfl⟩ |
    ⟨i, hmain, hi, hover, rfl⟩ | ⟨i, hmain, hi, rfl⟩
  · rw [hmain] at hstarted hannounced
    refine { h with
      workers := ?_
      pending := ?_
      started_le := hi
      started := ?_
      joined := ?_
      announced := by simpa [FindState.goto] using hannounced }
    · intro j
      show FinderOk P s.output ((s.goto i .test).workers j)
      by_cases he : j = i
      · rw [he, goto_same]
        trivial
      · rw [goto_other s _ he]
        exact h.workers j
    · intro j value hj
      change (s.goto i .test).workers j = .write value at hj
      by_cases he : j = i
      · rw [he, goto_same] at hj
        cases hj
      · rw [goto_other s _ he] at hj
        exact h.pending j value hj
    · intro j
      show (s.goto i .test).workers j ≠ .idle ↔ j < i + 1
      by_cases he : j = i
      · rw [he, goto_same]
        exact iff_of_true (by simp) (Nat.lt_succ_self i)
      · rw [goto_other s _ he, hstarted j]
        show j < i ↔ j < i + 1
        omega
    · intro j hj
      exact absurd hj (Nat.not_lt_zero j)
  · rw [hmain] at hstarted hle hannounced
    have hlast : i = P.icpu := le_antisymm hle (Nat.le_of_not_lt hi)
    rw [hlast] at hstarted
    refine { h with
      started_le := le_refl _
      started := hstarted
      joined := ?_
      announced := by simpa using hannounced }
    intro j hj
    exact absurd hj (Nat.not_lt_zero j)
  · rw [hmain] at hstarted hjoined hannounced
    refine { h with
      started_le := le_refl _
      started := hstarted
      joined := ?_
      announced := by simpa using hannounced }
    intro j hj
    rcases Nat.lt_succ_iff_lt_or_eq.mp hj with hlt | rfl
    · exact hjoined j hlt
    · exact hover
  · rw [hmain] at hstarted hjoined
    refine ⟨fun j => (h.workers j).append _, fun hne => (h.result hne).append _, h.nonneg, h.pending,
      le_refl _, hstarted, ?_, ?_⟩
    · intro j hj
      exact hjoined j (lt_of_lt_of_le hj (Nat.le_of_not_lt hi))
    · simp

theorem findRun_reachable (hs : (findAddress P).Reachable s) : FindRun P s := by
  apply hs.invariant
  · intro s hs
    rw [hs]
    exact findRun_initial P
  · intro s a t _ h _ hn
    cases a with
    | main => exact findRun_findAddressStep h hn
    | worker index drawn verified => exact findRun_getaddressStep h hn

theorem finderView_step (s : FindState Key) (index : Nat) (pc : FinderPc Key) (result : Int)
    (more : List (FindOutput Key)) :
    finderView { s.goto index pc with result := result, output := s.output ++ more } =
      { (finderView s).set index pc.status with finds := (finderView s).finds ++ reported more } := by
  apply HuntState.ext
  · funext i
    show ((s.goto index pc).workers i).status = ((finderView s).set index pc.status).status i
    by_cases he : i = index
    · rw [he, goto_same, HuntState.set_status_same]
    · rw [goto_other s pc he, HuntState.set_status_ne _ _ he]
      rfl
  · exact reported_append s.output more
  · rfl

theorem finderView_quiet (s : FindState Key) (index : Nat) (pc : FinderPc Key) (result : Int)
    {more : List (FindOutput Key)} (hmore : reported more = []) :
    finderView { s.goto index pc with result := result, output := s.output ++ more } =
      (finderView s).set index pc.status := by
  rw [finderView_step, hmore, List.append_nil]
  rfl

theorem finderView_goto (s : FindState Key) (index : Nat) (pc : FinderPc Key) (result : Int) :
    finderView { s.goto index pc with result := result } = (finderView s).set index pc.status := by
  have hquiet := finderView_quiet s index pc result (rfl : reported [] = [])
  rw [List.append_nil] at hquiet
  exact hquiet

theorem finderView_pause (s : FindState Key) (index : Nat) {pc : FinderPc Key}
    (hstatus : (s.workers index).status = pc.status) :
    finderView (s.goto index pc) = finderView s := by
  have hgoto := finderView_goto s index pc s.result
  rw [HuntState.set_same _ hstatus] at hgoto
  exact hgoto

theorem finderView_getaddressStep (h : FindRun P s)
    (hn : getaddressStep P index drawn verified s = some t) :
    finderView t = finderView s ∨
      ∃ e, (hunt P.icpu P.Matches).next (finderView s) e = some (finderView t) := by
  have hworker := h.workers index
  rw [getaddressStep] at hn
  cases hpc : s.workers index with
  | idle => simp [hpc] at hn
  | failed => simp [hpc] at hn
  | left => simp [hpc] at hn
  | test =>
      simp only [hpc, Option.some.injEq] at hn
      subst hn
      by_cases hzero : s.result = 0
      · left
        apply finderView_pause
        rw [hpc, if_pos hzero]
        rfl
      · right
        have hsearching : (finderView s).status index = .searching := by
          show (s.workers index).status = .searching
          rw [hpc]
          rfl
        refine ⟨.stop index, ?_⟩
        rw [hunt_stop (Or.inl hsearching) (h.result hzero).reported_ne, if_neg hzero]
        exact congrArg some (finderView_goto s index .left s.result).symm
  | make =>
      have hsearching : (finderView s).status index = .searching := by
        show (s.workers index).status = .searching
        rw [hpc]
        rfl
      cases verified with
      | true =>
          simp only [hpc, if_true, Option.some.injEq] at hn
          subst hn
          left
          apply finderView_pause
          rw [hpc]
          rfl
      | false =>
          simp only [hpc, Bool.false_eq_true, if_false, Option.some.injEq] at hn
          subst hn
          right
          refine ⟨.fail index, ?_⟩
          rw [hunt_fail hsearching]
          exact congrArg some (finderView_quiet s index .failed s.result rfl).symm
  | compare secret =>
      simp only [hpc, Option.some.injEq] at hn
      subst hn
      left
      apply finderView_pause
      rw [hpc]
      split <;> rfl
  | report secret =>
      simp only [hpc, Option.some.injEq] at hn
      subst hn
      right
      have hsearching : (finderView s).status index = .searching := by
        show (s.workers index).status = .searching
        rw [hpc]
        rfl
      have hmatches : P.Matches secret := by
        rw [hpc] at hworker
        exact hworker
      refine ⟨.find index secret, ?_⟩
      rw [hunt_find hsearching hmatches]
      exact congrArg some (finderView_step s index .read s.result [.target index secret]).symm
  | read =>
      simp only [hpc, Option.some.injEq] at hn
      subst hn
      left
      apply finderView_pause
      rw [hpc]
      rfl
  | write value =>
      simp only [hpc, Option.some.injEq] at hn
      subst hn
      right
      have hfound : (finderView s).status index = .found := by
        show (s.workers index).status = .found
        rw [hpc]
        rfl
      have hfinds : (finderView s).finds ≠ [] := by
        rw [hpc] at hworker
        exact AddressSearch.Found.reported_ne hworker
      refine ⟨.stop index, ?_⟩
      rw [hunt_stop (Or.inr hfound) hfinds]
      exact congrArg some (finderView_goto s index .left (value + 1)).symm

theorem finderView_findAddressStep (h : FindRun P s) (hn : findAddressStep P s = some t) :
    finderView t = finderView s ∨
      ∃ e, (hunt P.icpu P.Matches).next (finderView s) e = some (finderView t) := by
  have hstarted := h.started
  have hjoined := h.joined
  rcases findAddressStep_cases hn with ⟨i, hmain, hi, rfl⟩ | ⟨i, hmain, hi, rfl⟩ |
    ⟨i, hmain, hi, hover, rfl⟩ | ⟨i, hmain, hi, rfl⟩
  · right
    have hidle : s.workers i = .idle := by
      by_contra hne
      have hlt := (hstarted i).mp hne
      rw [hmain] at hlt
      exact lt_irrefl i hlt
    have hwaiting : (finderView s).status i = .waiting := by
      show (s.workers i).status = .waiting
      rw [hidle]
      rfl
    refine ⟨.start i, ?_⟩
    rw [hunt_start hi hwaiting]
    have hgoto := finderView_goto s i .test s.result
    congr 1
    change _ = (finderView s).set i .searching at hgoto
    rw [← hgoto]
    apply HuntState.ext
    · rfl
    · rfl
    · simp [finderView, FindState.goto, hmain]
  · left
    simp [finderView, hmain]
  · left
    simp [finderView, hmain]
  · right
    refine ⟨.finish, ?_⟩
    rw [hunt_finish]
    · congr 1
      apply HuntState.ext
      · rfl
      · show reported s.output = reported (s.output ++ [.congratulations])
        rw [reported_append]
        exact (List.append_nil _).symm
      · rfl
    · simp [finderView, hmain]
    · intro j hj
      rw [hmain] at hjoined
      show (s.workers j).status.Over
      rcases hjoined j (lt_of_lt_of_le hj (Nat.le_of_not_lt hi)) with hpc | hpc
      · rw [hpc]
        exact Or.inr rfl
      · rw [hpc]
        exact Or.inl rfl

theorem finderView_next {a : FindAction Key} (hs : (findAddress P).Reachable s)
    (hn : (findAddress P).next s a = some t) :
    finderView t = finderView s ∨
      ∃ e, (hunt P.icpu P.Matches).next (finderView s) e = some (finderView t) := by
  have h := findRun_reachable hs
  cases a with
  | main => exact finderView_findAddressStep h hn
  | worker index drawn verified => exact finderView_getaddressStep h hn

theorem huntInv_finderView (hs : (findAddress P).Reachable s) :
    HuntInv P.icpu P.Matches (finderView s) := by
  have hsimulates : (findAddress P).Simulates (hunt P.icpu P.Matches) finderView :=
    ⟨fun _ hs => congrArg finderView hs, fun _ _ _ hs hn => finderView_next hs hn⟩
  exact huntInv_reachable (hsimulates.reachable hs)

end

/-- Every run of `FindAddress` and its workers is, step by step, one of as many workers that search
for keys whose address contains every target. -/
theorem findAddress_simulates (P : AddressSearch Key) :
    (findAddress P).Simulates (hunt P.icpu P.Matches) finderView where
  start s hs := by
    rw [show s = .initial from hs]
    rfl
  next _ _ _ hs hn := finderView_next hs hn

end CoinTool
