import CoinTool.Framework.Simulation
import CoinTool.Common.Genesis.Search

/-!
# How a search for a genesis block ends

No search is ever stuck.  Once the counter is positive it stays so, and from there on every thread
has a bounded number of steps left.
-/

namespace CoinTool

open Framework

/-- The steps that a worker can still take when the counter is positive. -/
def WorkerPc.stepsLeft : WorkerPc → Nat
  | .idle => 8
  | .copy => 7
  | .offset => 6
  | .hash => 5
  | .read => 4
  | .write _ => 3
  | .print => 2
  | .test => 1
  | .nonce => 7
  | .time => 6
  | .done => 0

theorem WorkerPc.stepsLeft_le (pc : WorkerPc) : pc.stepsLeft ≤ 8 := by
  cases pc <;> simp [WorkerPc.stepsLeft]

def MainPc.stepsLeft (icpu : Nat) : MainPc → Nat
  | .loop i => 2 * (icpu - i) + icpu + 2
  | .spawn i => 2 * (icpu - i) + icpu + 1
  | .join i => icpu - i + 1
  | .returned => 0

def SearchState.stepsLeft (P : Search) (s : SearchState) : Nat :=
  s.main.stepsLeft P.icpu + (Finset.range P.icpu).sum fun i => (s.workers i).pc.stepsLeft

theorem SearchState.stepsLeft_le (P : Search) (s : SearchState) : s.stepsLeft P ≤ 11 * P.icpu + 2 := by
  have hmain : s.main.stepsLeft P.icpu ≤ 3 * P.icpu + 2 := by
    cases s.main <;> simp only [MainPc.stepsLeft] <;> omega
  have hworkers : ((Finset.range P.icpu).sum fun i => (s.workers i).pc.stepsLeft) ≤ P.icpu * 8 := by
    have hsum := Finset.sum_le_card_nsmul (Finset.range P.icpu) (fun i => (s.workers i).pc.stepsLeft) 8
      fun i _ => (s.workers i).pc.stepsLeft_le
    rwa [Finset.card_range, Nat.nsmul_eq_mul] at hsum
  rw [SearchState.stepsLeft]
  omega

section

variable {P : Search} {s t : SearchState} {index : Nat} {now : Int}

theorem getStep_pos (h : SearchInv P s) (hpos : 0 < s.result)
    (hn : getStep P index now s = some t) : 0 < t.result := by
  have hw := h.workers index
  cases hpc : (s.workers index).pc <;> simp only [WorkerOk, hpc] at hw <;>
    simp only [getStep, hpc, reduceCtorEq, Option.some.injEq] at hn
  case write value =>
    subst hn
    show 0 < value + 1
    omega
  all_goals
    subst hn
    exact hpos

theorem getStep_left (hpos : 0 < s.result) (hn : getStep P index now s = some t) :
    (t.workers index).pc.stepsLeft < (s.workers index).pc.stepsLeft := by
  have hset (w : Worker) : ((s.setWorker index w).workers index).pc = w.pc := by
    rw [s.setWorker_same]
  cases hpc : (s.workers index).pc <;>
    simp only [getStep, hpc, reduceCtorEq, Option.some.injEq] at hn <;> subst hn <;>
    simp only [hset]
  case hash => split <;> decide
  case test =>
    rw [if_pos hpos]
    decide
  all_goals simp [WorkerPc.stepsLeft]

theorem findGenesisStep_pos (hpos : 0 < s.result) (hn : findGenesisStep P s = some t) :
    0 < t.result := by
  rcases findGenesisStep_cases hn with ⟨i, _, _, rfl⟩ | ⟨i, _, rfl⟩ | ⟨i, _, rfl⟩ |
    ⟨i, _, _, rfl⟩ | ⟨i, _, _, rfl⟩ <;> exact hpos

theorem findGenesisStep_left (h : SearchInv P s) (hn : findGenesisStep P s = some t) :
    t.stepsLeft P < s.stepsLeft P := by
  have hspawning := h.spawning
  have hstarted := h.started
  rcases findGenesisStep_cases hn with ⟨i, hmain, hi, rfl⟩ | ⟨i, hmain, rfl⟩ | ⟨i, hmain, rfl⟩ |
    ⟨i, hmain, hdone, rfl⟩ | ⟨i, hmain, hi, rfl⟩
  · simp only [SearchState.stepsLeft, hmain, MainPc.stepsLeft]
    omega
  · simp only [SearchState.stepsLeft, hmain, MainPc.stepsLeft]
    omega
  · have hi : i < P.icpu := hspawning i hmain
    rw [hmain] at hstarted
    have hidle : (s.workers i).pc = .idle := by
      by_contra hpc
      exact lt_irrefl i (hstarted i hpc)
    have hless := Machine.sum_range_lt (fun w : Worker => w.pc.stepsLeft) (k := i) (n := P.icpu)
      (f := s.workers) (g := (s.setWorker i { s.workers i with pc := .copy }).workers) hi
      (fun j hj => s.setWorker_ne i _ hj) (by
        rw [s.setWorker_same, hidle]
        exact Nat.lt_add_one 7)
    refine Nat.add_lt_add ?_ hless
    rw [hmain]
    simp only [MainPc.stepsLeft]
    omega
  · have hi : i < P.icpu := by
      have hlt := hstarted i (by rw [hdone]; decide)
      rwa [hmain] at hlt
    simp only [SearchState.stepsLeft, hmain, MainPc.stepsLeft]
    omega
  · simp only [SearchState.stepsLeft, hmain, MainPc.stepsLeft]
    omega

def Spawned (P : Search) (s : SearchState) : Prop :=
  ∀ i, i < s.main.started P.icpu → (s.workers i).pc ≠ .idle

theorem spawned_reachable (hs : (findGenesis P).Reachable s) : Spawned P s := by
  apply hs.invariant
  · intro s hs i hi
    rw [show s = .initial P from hs] at hi
    exact absurd hi (Nat.not_lt_zero i)
  · intro s a t hs h _ hn
    cases a with
    | worker index now =>
        obtain ⟨hmain, -, hother, -, -, hidle, -⟩ := getStep_frame hn
        intro i hi
        rw [hmain] at hi
        by_cases he : i = index
        · rw [he]
          exact hidle
        · rw [hother i he]
          exact h i hi
    | main =>
        have hle := (searchInv_reachable hs).started_le
        rw [Spawned] at h
        rcases findGenesisStep_cases hn with ⟨i, hmain, _, rfl⟩ | ⟨i, hmain, rfl⟩ |
          ⟨i, hmain, rfl⟩ | ⟨i, hmain, _, rfl⟩ | ⟨i, hmain, _, rfl⟩
        · rw [hmain] at h
          exact h
        · have hend : ¬ i < P.icpu := by
            intro hlt
            simp [findGenesis, findGenesisStep, hmain, hlt] at hn
          rw [hmain] at h
          intro j hj
          exact h j (lt_of_lt_of_le hj (Nat.le_of_not_lt hend))
        · rw [hmain] at h
          intro j hj
          by_cases he : j = i
          · rw [he]
            show ((s.setWorker i _).workers i).pc ≠ .idle
            rw [s.setWorker_same]
            exact WorkerPc.noConfusion
          · show ((s.setWorker i _).workers j).pc ≠ .idle
            rw [s.setWorker_ne i _ he]
            exact h j (lt_of_le_of_ne (Nat.le_of_lt_succ hj) he)
        · rw [hmain] at h
          exact h
        · rw [hmain] at h
          exact h

theorem getStep_moves (P : Search) (now : Int) (hidle : (s.workers index).pc ≠ .idle)
    (hdone : (s.workers index).pc ≠ .done) : ∃ t, getStep P index now s = some t := by
  cases hpc : (s.workers index).pc with
  | idle => exact absurd hpc hidle
  | done => exact absurd hpc hdone
  | copy => exact ⟨_, by rw [getStep, hpc]⟩
  | offset => exact ⟨_, by rw [getStep, hpc]⟩
  | hash => exact ⟨_, by rw [getStep, hpc]⟩
  | read => exact ⟨_, by rw [getStep, hpc]⟩
  | write value => exact ⟨_, by rw [getStep, hpc]⟩
  | print => exact ⟨_, by rw [getStep, hpc]⟩
  | test => exact ⟨_, by rw [getStep, hpc]⟩
  | nonce => exact ⟨_, by rw [getStep, hpc]⟩
  | time => exact ⟨_, by rw [getStep, hpc]⟩

theorem findGenesisStep_moves (hreturned : s.main ≠ .returned)
    (hdone : ∀ i, s.main = .join i → i < P.icpu → (s.workers i).pc = .done) :
    ∃ t, findGenesisStep P s = some t := by
  rw [← Option.isSome_iff_exists]
  cases hmain : s.main with
  | returned => exact absurd hmain hreturned
  | loop i => by_cases hi : i < P.icpu <;> simp [findGenesisStep, hmain, hi]
  | spawn i => simp [findGenesisStep, hmain]
  | join i =>
      by_cases hi : i < P.icpu
      · simp [findGenesisStep, hmain, hi, hdone i hmain hi]
      · simp [findGenesisStep, hmain, hi]

theorem findGenesis_moves (hs : (findGenesis P).Reachable s) (hmain : s.main ≠ .returned) :
    (∃ t, (findGenesis P).next s .main = some t) ∨
      ∃ i, i < P.icpu ∧ s.main = .join i ∧
        ∀ now, ∃ t, (findGenesis P).next s (.worker i now) = some t := by
  have hspawned := spawned_reachable hs
  by_cases hwait : ∃ i, s.main = .join i ∧ i < P.icpu ∧ (s.workers i).pc ≠ .done
  · right
    obtain ⟨i, hat, hi, hdone⟩ := hwait
    refine ⟨i, hi, hat, ?_⟩
    intro now
    have hstarted : i < s.main.started P.icpu := by
      rw [hat]
      exact hi
    exact getStep_moves P now (hspawned i hstarted) hdone
  · left
    push Not at hwait
    exact findGenesisStep_moves hmain hwait

theorem findGenesis_completes (P : Search) :
    (findGenesis P).Completes (fun s => (findGenesis P).Reachable s ∧ 0 < s.result)
      (fun s => s.main = .returned) (SearchState.stepsLeft P) where
  kept s a t hs hn := by
    refine ⟨.next hs.1 trivial hn, ?_⟩
    cases a with
    | main => exact findGenesisStep_pos hs.2 hn
    | worker index now => exact getStep_pos (searchInv_reachable hs.1) hs.2 hn
  falls s a t hs hn := by
    have hinv := searchInv_reachable hs.1
    cases a with
    | main => exact findGenesisStep_left hinv hn
    | worker index now =>
        obtain ⟨hmain, -, hother, hidle, -⟩ := getStep_frame hn
        have hindex : index < P.icpu := lt_of_lt_of_le (hinv.started index hidle) hinv.started_le
        have hless := Machine.sum_range_lt (fun w : Worker => w.pc.stepsLeft) hindex hother
          (getStep_left hs.2 hn)
        rw [SearchState.stepsLeft, SearchState.stepsLeft, hmain]
        exact Nat.add_lt_add_left hless _
  moves s hs hfinal := by
    rcases findGenesis_moves hs.1 hfinal with hmain | ⟨i, -, -, hworker⟩
    · obtain ⟨t, ht⟩ := hmain
      exact ⟨.main, t, ht⟩
    · obtain ⟨t, ht⟩ := hworker 0
      exact ⟨.worker i 0, t, ht⟩

end

/-- No reachable state but the last is stuck.  From a state with a positive counter on, no run has
more than eleven steps for each worker and two more, a run that cannot go on has returned with a
header printed, and such a run exists. -/
theorem findGenesis_ends (P : Search) (s : SearchState) (hs : (findGenesis P).Reachable s) :
    (s.main ≠ .returned →
      (∃ t, (findGenesis P).next s .main = some t) ∨
        ∃ i, i < P.icpu ∧ s.main = .join i ∧
          ∀ now, ∃ t, (findGenesis P).next s (.worker i now) = some t) ∧
    (0 < s.result →
      (∀ actions t, (findGenesis P).exec s actions = some t →
        actions.length ≤ 11 * P.icpu + 2 ∧
          ((∀ a, (findGenesis P).next t a = none) → t.main = .returned ∧ t.printed ≠ [])) ∧
      ∃ actions t, (findGenesis P).exec s actions = some t ∧ t.main = .returned ∧
        t.printed ≠ []) := by
  have hends := findGenesis_completes P
  refine ⟨findGenesis_moves hs, ?_⟩
  intro hpos
  have hprinted {actions : List SearchAction} {t : SearchState}
      (hrun : (findGenesis P).exec s actions = some t) (hreturned : t.main = .returned) :
      t.printed ≠ [] := by
    obtain ⟨⟨ht, htpos⟩, -⟩ := hends.exec_le ⟨hs, hpos⟩ hrun
    have hicpu : 1 ≤ P.icpu := by
      have hle := (result_le_icpu ht).2
      omega
    exact (searchInv_reachable ht).printed_of_returned hreturned hicpu
  constructor
  · intro actions t hrun
    obtain ⟨-, hlength⟩ := hends.exec_le ⟨hs, hpos⟩ hrun
    have hbound := s.stepsLeft_le P
    refine ⟨by omega, ?_⟩
    intro hstuck
    have hreturned := hends.final_of_stuck ⟨hs, hpos⟩ hrun hstuck
    exact ⟨hreturned, hprinted hrun hreturned⟩
  · obtain ⟨actions, t, hrun, hreturned⟩ := hends.exists_final ⟨hs, hpos⟩
    exact ⟨actions, t, hrun, hreturned, hprinted hrun hreturned⟩

theorem findGenesis_ends_twoWorkers :
    ∃ s, (findGenesis twoWorkers).Reachable s ∧ 0 < s.result ∧
      ∀ actions t, (findGenesis twoWorkers).exec s actions = some t → actions.length ≤ 24 := by
  obtain ⟨s, hexec, hpos⟩ := Machine.exec_exists (findGenesis twoWorkers) (.initial twoWorkers)
    [.main, .main, .worker 0 5, .worker 0 5, .worker 0 5, .worker 0 5, .worker 0 5]
    (fun s => 0 < s.result) (by decide)
  rw [decide_eq_true_eq] at hpos
  have hs : (findGenesis twoWorkers).Reachable s := Machine.Reachable.exec (.start rfl) hexec
  obtain ⟨-, hafter⟩ := findGenesis_ends twoWorkers s hs
  obtain ⟨hbounded, -⟩ := hafter hpos
  exact ⟨s, hs, hpos, fun actions t hrun => (hbounded actions t hrun).1⟩

end CoinTool
