import Mathlib.Data.List.Nodup
import Mathlib.Data.List.Perm.Subperm
import Mathlib.Data.List.Range
import CoinTool.Common.Genesis.Model

/-!
# What a search finds

Increments of `*result` may be lost, but a worker never leaves a value behind that is not positive.
The invariant counts the workers that have written the counter: each of them holds a header that
passed the test, and prints it before it can stop.
-/

namespace CoinTool

open Framework

/-- The header is the given one except for its nonce and its time. -/
def SameBlock (header h : Header) : Prop :=
  h = { header with nNonce := h.nNonce, nTime := h.nTime }

theorem SameBlock.refl (header : Header) : SameBlock header header := rfl

theorem SameBlock.setNonce {header h : Header} (hsame : SameBlock header h) (n : BitVec 256) :
    SameBlock header { h with nNonce := n } := by
  rw [SameBlock] at hsame ⊢
  rw [hsame]

theorem SameBlock.setTime {header h : Header} (hsame : SameBlock header h) (time : BitVec 32) :
    SameBlock header { h with nTime := time } := by
  rw [SameBlock] at hsame ⊢
  rw [hsame]

def Search.IsTarget (P : Search) (h : Header) : Prop :=
  P.getHash h ≤ P.hashTarget ∧ SameBlock P.header h

def WorkerOk (P : Search) (result : Int) (found : List Nat) (printed : List (Nat × Header))
    (index : Nat) (w : Worker) : Prop :=
  match w.pc with
  | .idle | .copy => index ∉ found
  | .offset | .hash | .nonce | .time => SameBlock P.header w.pb ∧ index ∉ found
  | .read => P.IsTarget w.pb ∧ index ∉ found
  | .write value => P.IsTarget w.pb ∧ index ∉ found ∧ 0 ≤ value ∧ value ≤ found.length
  | .print => P.IsTarget w.pb ∧ index ∈ found
  | .test => SameBlock P.header w.pb ∧ (index ∈ found → index ∈ printed.map Prod.fst)
  | .done => 0 < result ∧ (index ∈ found → index ∈ printed.map Prod.fst)

theorem WorkerOk.print {P : Search} {result : Int} {found : List Nat}
    {printed : List (Nat × Header)} {index : Nat} {w : Worker}
    (h : WorkerOk P result found printed index w) (j : Nat) (header : Header) :
    WorkerOk P result found (printed ++ [(j, header)]) index w := by
  unfold WorkerOk at h ⊢
  cases hpc : w.pc <;> simp only [hpc] at h ⊢ <;> try exact h
  all_goals
    refine ⟨h.1, fun hmem => ?_⟩
    rw [List.map_append]
    exact List.mem_append_left _ (h.2 hmem)

theorem WorkerOk.write {P : Search} {result : Int} {found : List Nat}
    {printed : List (Nat × Header)} {index : Nat} {w : Worker}
    (h : WorkerOk P result found printed index w) {j : Nat} (hj : index ≠ j) {value : Int}
    (hvalue : 0 < value) : WorkerOk P value (found ++ [j]) printed index w := by
  have hmem : index ∈ found ++ [j] ↔ index ∈ found := by simp [hj]
  unfold WorkerOk at h ⊢
  cases hpc : w.pc <;> simp only [hpc, hmem] at h ⊢ <;> try exact h
  case write v =>
    obtain ⟨htarget, hfresh, hpos, hle⟩ := h
    refine ⟨htarget, hfresh, hpos, ?_⟩
    rw [List.length_append, List.length_singleton]
    omega
  case done => exact ⟨hvalue, h.2⟩

def MainPc.started (icpu : Nat) : MainPc → Nat
  | .loop i | .spawn i => i
  | .join _ | .returned => icpu

def MainPc.joined (icpu : Nat) : MainPc → Nat
  | .loop _ | .spawn _ => 0
  | .join i => i
  | .returned => icpu

structure SearchInv (P : Search) (s : SearchState) : Prop where
  header : SameBlock P.header s.pb
  printed : ∀ p ∈ s.printed, P.IsTarget p.2
  result_nonneg : 0 ≤ s.result
  result_le : s.result ≤ s.found.length
  result_pos : s.found ≠ [] → 0 < s.result
  nodup : s.found.Nodup
  workers : ∀ i, WorkerOk P s.result s.found s.printed i (s.workers i)
  started_le : s.main.started P.icpu ≤ P.icpu
  spawning : ∀ i, s.main = .spawn i → i < P.icpu
  started : ∀ i, (s.workers i).pc ≠ .idle → i < s.main.started P.icpu
  joined : ∀ i, i < s.main.joined P.icpu → (s.workers i).pc = .done

section

variable {P : Search} {s t : SearchState}

theorem searchInv_initial (P : Search) : SearchInv P (.initial P) where
  header := .refl _
  printed p hp := by simp [SearchState.initial] at hp
  result_nonneg := Int.le_refl 0
  result_le := Int.le_refl 0
  result_pos h := absurd rfl h
  nodup := List.nodup_nil
  workers i := by simp [WorkerOk, SearchState.initial]
  started_le := Nat.zero_le _
  spawning i h := by cases h
  started i h := absurd rfl h
  joined i h := absurd h (Nat.not_lt_zero i)

theorem SearchInv.main_kept (h : SearchInv P s) {index : Nat} {now : Int}
    (hn : getStep P index now s = some t) :
    SameBlock P.header t.pb ∧ t.main.started P.icpu ≤ P.icpu ∧
      (∀ i, t.main = .spawn i → i < P.icpu) ∧
      (∀ i, (t.workers i).pc ≠ .idle → i < t.main.started P.icpu) ∧
      (∀ i, i < t.main.joined P.icpu → (t.workers i).pc = .done) := by
  obtain ⟨hmain, hpb, hother, hidle, hdone, -⟩ := getStep_frame hn
  rw [hmain, hpb]
  refine ⟨h.header, h.started_le, h.spawning, ?_, ?_⟩
  · intro i hi
    by_cases he : i = index
    · subst i
      exact h.started index hidle
    · rw [hother i he] at hi
      exact h.started i hi
  · intro i hi
    by_cases he : i = index
    · subst i
      exact absurd (h.joined index hi) hdone
    · rw [hother i he]
      exact h.joined i hi

theorem SearchInv.setWorker (h : SearchInv P s) {index : Nat} {now : Int} {w : Worker}
    (hn : getStep P index now s = some (s.setWorker index w))
    (hw : WorkerOk P s.result s.found s.printed index w) : SearchInv P (s.setWorker index w) := by
  obtain ⟨hheader, hle, hspawning, hstarted, hjoined⟩ := h.main_kept hn
  refine ⟨hheader, h.printed, h.result_nonneg, h.result_le, h.result_pos, h.nodup, ?_, hle,
    hspawning, hstarted, hjoined⟩
  intro i
  by_cases he : i = index
  · subst i
    simpa using hw
  · simpa [s.setWorker_ne index w he] using h.workers i

theorem SearchInv.write (h : SearchInv P s) {index : Nat} {now value : Int}
    (hpc : (s.workers index).pc = .write value) (hn : getStep P index now s = some t) :
    SearchInv P t := by
  obtain ⟨hheader, hle, hspawning, hstarted, hjoined⟩ := h.main_kept hn
  have hw := h.workers index
  simp only [WorkerOk, hpc] at hw
  obtain ⟨htarget, hfresh, hpos, hlen⟩ := hw
  simp only [getStep, hpc, Option.some.injEq] at hn
  subst hn
  refine ⟨hheader, h.printed, ?_, ?_, ?_, ?_, ?_, hle, hspawning, hstarted, hjoined⟩
  · show 0 ≤ value + 1
    omega
  · show value + 1 ≤ ((s.found ++ [index]).length : Int)
    rw [List.length_append, List.length_singleton]
    omega
  · intro _
    show 0 < value + 1
    omega
  · show (s.found ++ [index]).Nodup
    simpa [List.nodup_append] using ⟨h.nodup, fun j hj he => hfresh (he ▸ hj)⟩
  · intro i
    by_cases he : i = index
    · subst i
      simp [WorkerOk, htarget]
    · have hother := (h.workers i).write he (by omega : 0 < value + 1)
      simpa [s.setWorker_ne index _ he] using hother

theorem SearchInv.print (h : SearchInv P s) {index : Nat} {now : Int}
    (hpc : (s.workers index).pc = .print) (hn : getStep P index now s = some t) :
    SearchInv P t := by
  obtain ⟨hheader, hle, hspawning, hstarted, hjoined⟩ := h.main_kept hn
  have hw := h.workers index
  simp only [WorkerOk, hpc] at hw
  obtain ⟨htarget, hfound⟩ := hw
  simp only [getStep, hpc, Option.some.injEq] at hn
  subst hn
  refine ⟨hheader, ?_, h.result_nonneg, h.result_le, h.result_pos, h.nodup, ?_, hle, hspawning,
    hstarted, hjoined⟩
  · intro p hp
    change p ∈ s.printed ++ [(index, (s.workers index).pb)] at hp
    rw [List.mem_append, List.mem_singleton] at hp
    rcases hp with hp | rfl
    · exact h.printed p hp
    · exact htarget
  · intro i
    by_cases he : i = index
    · subst i
      simp [WorkerOk, htarget.2]
    · have hother := (h.workers i).print index (s.workers index).pb
      simpa [s.setWorker_ne index _ he] using hother

theorem searchInv_getStep (h : SearchInv P s) {index : Nat} {now : Int}
    (hn : getStep P index now s = some t) : SearchInv P t := by
  have hw := h.workers index
  have hstep := hn
  cases hpc : (s.workers index).pc <;> simp only [WorkerOk, hpc] at hw <;>
    simp only [getStep, hpc, reduceCtorEq, Option.some.injEq] at hstep
  -- only the counter and the output are shared: the other steps change one worker
  case write => exact h.write hpc hn
  case print => exact h.print hpc hn
  all_goals
    subst hstep
    apply h.setWorker hn
  case copy => exact ⟨h.header, hw⟩
  case offset => exact hw
  case hash =>
    by_cases hhash : P.getHash (s.workers index).pb ≤ P.hashTarget
    · simpa [WorkerOk, hhash] using ⟨⟨hhash, hw.1⟩, hw.2⟩
    · simpa [WorkerOk, hhash] using ⟨hw.1, fun hmem => absurd hmem hw.2⟩
  case read => exact ⟨hw.1, hw.2, h.result_nonneg, h.result_le⟩
  case test =>
    by_cases hpos : s.result > 0
    · simpa [WorkerOk, hpos] using hw.2
    · have hnone : s.found = [] := by
        by_contra hfound
        exact hpos (h.result_pos hfound)
      simpa [WorkerOk, hpos, hnone] using hw.1
  case nonce => exact ⟨hw.1.setNonce _, hw.2⟩
  case time =>
    refine ⟨?_, hw.2⟩
    split
    · exact hw.1.setTime _
    · exact hw.1

theorem SearchInv.setMain (h : SearchInv P s) (main : MainPc)
    (hle : main.started P.icpu ≤ P.icpu)
    (hstarted : s.main.started P.icpu ≤ main.started P.icpu)
    (hspawning : ∀ i, main = .spawn i → i < P.icpu)
    (hjoined : ∀ i, i < main.joined P.icpu → (s.workers i).pc = .done) :
    SearchInv P { s with main := main } where
  header := h.header
  printed := h.printed
  result_nonneg := h.result_nonneg
  result_le := h.result_le
  result_pos := h.result_pos
  nodup := h.nodup
  workers := h.workers
  started_le := hle
  spawning := hspawning
  started i hi := lt_of_lt_of_le (h.started i hi) hstarted
  joined := hjoined

theorem SearchInv.spawn (h : SearchInv P s) {i : Nat} (hmain : s.main = .spawn i) :
    SearchInv P { s.setWorker i { s.workers i with pc := .copy } with main := .loop (i + 1) } := by
  have hstarted := h.started
  rw [hmain] at hstarted
  have hidle : (s.workers i).pc = .idle := by
    by_contra hpc
    exact lt_irrefl i (hstarted i hpc)
  have hfresh : i ∉ s.found := by
    have hw := h.workers i
    simpa only [WorkerOk, hidle] using hw
  refine { h with
    workers := ?_
    started_le := h.spawning i hmain
    spawning := fun j hj => by cases hj
    started := ?_
    joined := fun j hj => absurd hj (Nat.not_lt_zero j) }
  · intro j
    by_cases he : j = i
    · subst j
      simpa [WorkerOk] using hfresh
    · simpa [s.setWorker_ne i _ he] using h.workers j
  · intro j hj
    show j < i + 1
    by_cases he : j = i
    · omega
    · simp only [s.setWorker_ne i _ he] at hj
      exact Nat.lt_succ_of_lt (hstarted j hj)

theorem searchInv_findGenesisStep (h : SearchInv P s) (hn : findGenesisStep P s = some t) :
    SearchInv P t := by
  have hle := h.started_le
  have hjoined := h.joined
  rcases findGenesisStep_cases hn with ⟨i, hmain, hi, rfl⟩ | ⟨i, hmain, rfl⟩ | ⟨i, hmain, rfl⟩ |
    ⟨i, hmain, hdone, rfl⟩ | ⟨i, hmain, hi, rfl⟩
  · rw [hmain] at hle
    have hmoved : SearchInv P { s with main := .spawn i } := by
      apply h.setMain (.spawn i) hle (by rw [hmain]; exact le_refl i)
      · intro j hj
        cases hj
        exact hi
      · intro j hj
        exact absurd hj (Nat.not_lt_zero j)
    exact { hmoved with header := h.header.setNonce _ }
  · apply h.setMain (.join 0) (le_refl _) hle
    · intro j hj
      cases hj
    · intro j hj
      exact absurd hj (Nat.not_lt_zero j)
  · exact h.spawn hmain
  · rw [hmain] at hle hjoined
    apply h.setMain (.join (i + 1)) hle (by rw [hmain]; exact le_refl _)
    · intro j hj
      cases hj
    · intro j hj
      rcases Nat.lt_succ_iff_lt_or_eq.mp hj with hlt | rfl
      · exact hjoined j hlt
      · exact hdone
  · rw [hmain] at hjoined
    apply h.setMain .returned (le_refl _) hle
    · intro j hj
      cases hj
    · intro j hj
      exact hjoined j (lt_of_lt_of_le hj (Nat.le_of_not_lt hi))

theorem searchInv_reachable (hs : (findGenesis P).Reachable s) : SearchInv P s := by
  apply hs.invariant
  · intro s hs
    rw [hs]
    exact searchInv_initial P
  · intro s a t _ h _ hn
    cases a with
    | main => exact searchInv_findGenesisStep h hn
    | worker index now => exact searchInv_getStep h hn

theorem SearchInv.found_lt (h : SearchInv P s) : ∀ i ∈ s.found, i < P.icpu := by
  intro i hi
  refine lt_of_lt_of_le (h.started i ?_) h.started_le
  intro hidle
  have hw := h.workers i
  simp only [WorkerOk, hidle] at hw
  exact hw hi

/-- The counter stays within the number of workers, so that it does not overflow an `int`. -/
theorem result_le_icpu (hs : (findGenesis P).Reachable s) : 0 ≤ s.result ∧ s.result ≤ P.icpu := by
  have h := searchInv_reachable hs
  have hsub : s.found ⊆ List.range P.icpu := by
    intro i hi
    exact List.mem_range.mpr (h.found_lt i hi)
  have hlen : s.found.length ≤ P.icpu := by
    have hperm := (h.nodup.subperm hsub).length_le
    rwa [List.length_range] at hperm
  have hle := h.result_le
  exact ⟨h.result_nonneg, by omega⟩

/-- A worker that has stopped has seen a positive counter, so some worker wrote it; when all have
stopped that worker has printed. -/
theorem SearchInv.printed_of_returned (h : SearchInv P s) (hmain : s.main = .returned)
    (hicpu : 1 ≤ P.icpu) : s.printed ≠ [] := by
  have hdone : ∀ i, i < P.icpu → (s.workers i).pc = .done := by
    intro i hi
    apply h.joined
    rwa [hmain]
  have hzero := h.workers 0
  simp only [WorkerOk, hdone 0 hicpu] at hzero
  have hlen : 0 < s.found.length := by
    have hpos := hzero.1
    have hle := h.result_le
    omega
  obtain ⟨i, hi⟩ := List.exists_mem_of_length_pos hlen
  have hw := h.workers i
  simp only [WorkerOk, hdone i (h.found_lt i hi)] at hw
  have hprinted := hw.2 hi
  intro hnil
  simp [hnil] at hprinted

end

/-- Every header printed is the given one with a hash that meets the target, and when all workers
have been joined there is one. -/
theorem findGenesis_prints_targets (P : Search) (s : SearchState)
    (hs : (findGenesis P).Reachable s) :
    (∀ index h, (index, h) ∈ s.printed → P.getHash h ≤ P.hashTarget ∧ SameBlock P.header h) ∧
      (1 ≤ P.icpu → s.main = .returned →
        ∃ index h, (index, h) ∈ s.printed ∧ P.getHash h ≤ P.hashTarget ∧ SameBlock P.header h) := by
  have h := searchInv_reachable hs
  refine ⟨fun index header hp => h.printed _ hp, ?_⟩
  intro hicpu hmain
  obtain ⟨p, hp⟩ := List.exists_mem_of_ne_nil _ (h.printed_of_returned hmain hicpu)
  exact ⟨p.1, p.2, hp, h.printed p hp⟩

def twoWorkers : Search where
  header := ⟨1, 0, 0, 1, 1526947200, 0x207fffff, 1⟩
  icpu := 2
  getRandHash _ := 0
  getHash h := h.nNonce
  setCompact nBits := nBits.zeroExtend 256

/-- The workers read the counter before either writes it, and one increment is lost. -/
theorem findGenesis_prints_targets_twoWorkers :
    ∃ s, (findGenesis twoWorkers).Reachable s ∧ s.main = .returned ∧ s.result = 1 ∧
      ∃ index h, (index, h) ∈ s.printed ∧ twoWorkers.getHash h ≤ twoWorkers.hashTarget ∧
        SameBlock twoWorkers.header h := by
  obtain ⟨s, hexec, hend⟩ := Machine.exec_exists (findGenesis twoWorkers) (.initial twoWorkers)
    [.main, .main, .main, .main, .main, .worker 0 5, .worker 1 5, .worker 0 5, .worker 1 5,
      .worker 0 5, .worker 1 5, .worker 0 5, .worker 1 5, .worker 0 5, .worker 1 5, .worker 0 5,
      .worker 0 5, .worker 1 5, .worker 1 5, .main, .main, .main]
    (fun s => s.main = .returned ∧ s.result = 1) (by decide)
  simp only [decide_eq_true_eq] at hend
  have hs : (findGenesis twoWorkers).Reachable s := Machine.Reachable.exec (.start rfl) hexec
  exact ⟨s, hs, hend.1, hend.2,
    (findGenesis_prints_targets twoWorkers s hs).2 (by decide) hend.1⟩

end CoinTool
