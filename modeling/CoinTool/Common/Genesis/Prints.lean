import CoinTool.Common.Hunt
import CoinTool.Common.Genesis.Search

/-!
# The search for a genesis block as a search by several workers

A worker has found its header when it writes the counter, and it stops when it has read that the
counter is positive.  In between it prints, so that the headers printed in a finished search are
those that were found.
-/

namespace CoinTool

open Framework

def WorkerPc.status (pc : WorkerPc) (found : Bool) : Status :=
  match pc with
  | .idle => .waiting
  | .copy | .offset | .hash | .read | .write _ | .nonce | .time => .searching
  | .print => .found
  | .test => if found then .found else .searching
  | .done => .stopped

def SearchState.status (s : SearchState) (index : Nat) : Status :=
  (s.workers index).pc.status (index ∈ s.found)

/-- What a state of the search is for a search by several workers: the header of a worker that has
found is the one it holds. -/
def huntView (s : SearchState) : HuntState Header where
  status := s.status
  finds := s.found.map fun i => (i, (s.workers i).pb)
  ended := s.main = .returned

section

variable {P : Search} {s t : SearchState} {index : Nat} {now : Int}

theorem huntView_setWorker (s : SearchState) (index : Nat) (w : Worker)
    (hpb : index ∈ s.found → w.pb = (s.workers index).pb) :
    huntView (s.setWorker index w) = (huntView s).set index (w.pc.status (index ∈ s.found)) := by
  have hstatus : (s.setWorker index w).status =
      Function.update s.status index (w.pc.status (index ∈ s.found)) := by
    funext i
    by_cases he : i = index
    · subst i
      rw [Function.update_self, SearchState.status, s.setWorker_same, s.setWorker_found]
    · rw [Function.update_of_ne he, SearchState.status, s.setWorker_ne index w he,
        s.setWorker_found, SearchState.status]
  have hfinds : (s.found.map fun i => (i, ((s.setWorker index w).workers i).pb)) =
      s.found.map fun i => (i, (s.workers i).pb) := by
    apply List.map_congr_left
    intro i hi
    by_cases he : i = index
    · subst i
      rw [s.setWorker_same, hpb hi]
    · rw [s.setWorker_ne index w he]
  rw [huntView, hstatus, s.setWorker_found, hfinds]
  rfl

theorem huntView_pause {w : Worker} (hpb : index ∈ s.found → w.pb = (s.workers index).pb)
    (hstatus : w.pc.status (index ∈ s.found) = s.status index) :
    huntView (s.setWorker index w) = huntView s := by
  rw [huntView_setWorker s index w hpb]
  exact HuntState.set_same _ hstatus.symm

theorem huntView_write (h : SearchInv P s) {value : Int}
    (hpc : (s.workers index).pc = .write value) (hn : getStep P index now s = some t) :
    (hunt P.icpu P.IsTarget).next (huntView s) (.find index (s.workers index).pb) =
      some (huntView t) := by
  have hw := h.workers index
  simp only [WorkerOk, hpc] at hw
  obtain ⟨htarget, hfresh, -, -⟩ := hw
  have hstatus : (huntView s).status index = .searching := by
    show s.status index = .searching
    rw [SearchState.status, hpc]
    rfl
  let w : Worker := { s.workers index with pc := .print }
  have hset := huntView_setWorker s index w fun _ => rfl
  rw [hunt_find hstatus htarget]
  simp only [getStep, hpc, Option.some.injEq] at hn
  subst hn
  congr 1
  apply HuntState.ext
  · funext i
    by_cases he : i = index
    · subst i
      show ((huntView s).set index .found).status index =
        ((s.setWorker index w).workers index).pc.status _
      rw [HuntState.set_status_same, s.setWorker_same]
      rfl
    · show ((huntView s).set index .found).status i =
        ((s.setWorker index w).workers i).pc.status (decide (i ∈ s.found ++ [index]))
      rw [HuntState.set_status_ne _ _ he, s.setWorker_ne index w he]
      show (s.workers i).pc.status (decide (i ∈ s.found)) = _
      simp [he]
  · show (huntView s).finds ++ [(index, (s.workers index).pb)] =
      (s.found ++ [index]).map fun i => (i, ((s.setWorker index w).workers i).pb)
    rw [List.map_append, List.map_singleton, s.setWorker_same]
    congr 1
    exact (congrArg HuntState.finds hset).symm
  · rfl

theorem huntView_getStep (h : SearchInv P s) (hn : getStep P index now s = some t) :
    huntView t = huntView s ∨
      ∃ e, (hunt P.icpu P.IsTarget).next (huntView s) e = some (huntView t) := by
  have hw := h.workers index
  have hstep := hn
  cases hpc : (s.workers index).pc <;> simp only [WorkerOk, hpc] at hw <;>
    simp only [getStep, hpc, reduceCtorEq, Option.some.injEq] at hstep
  case write value => exact Or.inr ⟨_, huntView_write h hpc hn⟩
  case test =>
    subst hstep
    by_cases hpos : s.result > 0
    · right
      refine ⟨.stop index, ?_⟩
      have hfound : s.found ≠ [] := by
        intro hnil
        have hle := h.result_le
        rw [hnil] at hle
        exact absurd hle (by simpa using hpos)
      rw [hunt_stop]
      · have hset := huntView_setWorker s index { s.workers index with pc := .done } fun _ => rfl
        rw [if_pos hpos]
        exact congrArg some hset.symm
      · show s.status index = .searching ∨ s.status index = .found
        rw [SearchState.status, hpc, WorkerPc.status]
        split
        · exact Or.inr rfl
        · exact Or.inl rfl
      · show s.found.map _ ≠ []
        simpa using hfound
    · left
      have hnone : s.found = [] := by
        by_contra hfound
        exact hpos (h.result_pos hfound)
      apply huntView_pause
      · intro _
        rfl
      · simp [SearchState.status, hpc, WorkerPc.status, hpos, hnone]
  case print =>
    left
    subst hstep
    apply huntView_pause
    · intro _
      rfl
    · simp [SearchState.status, hpc, WorkerPc.status, hw.2]
  all_goals
    left
    subst hstep
    apply huntView_pause
  case hash.hpb => exact fun _ => rfl
  case hash.hstatus =>
    simp only [SearchState.status, hpc]
    split <;> simp [WorkerPc.status, hw.2]
  case copy.hpb => exact fun hmem => absurd hmem hw
  case nonce.hpb => exact fun hmem => absurd hmem hw.2
  case time.hpb => exact fun hmem => absurd hmem hw.2
  all_goals first
    | exact fun _ => rfl
    | simp [SearchState.status, hpc, WorkerPc.status]

theorem huntView_setMain {main : MainPc} {pb : Header} (hold : s.main ≠ .returned)
    (hnew : main ≠ .returned) : huntView { s with main := main, pb := pb } = huntView s := by
  apply HuntState.ext
  · rfl
  · rfl
  · show decide (main = .returned) = decide (s.main = .returned)
    rw [decide_eq_false hold, decide_eq_false hnew]

theorem huntView_spawn (h : SearchInv P s) {i : Nat} (hmain : s.main = .spawn i) :
    (hunt P.icpu P.IsTarget).next (huntView s) (.start i) = some (huntView
      { s.setWorker i { s.workers i with pc := .copy } with main := .loop (i + 1) }) := by
  have hstarted := h.started i
  rw [hmain] at hstarted
  have hidle : (s.workers i).pc = .idle := by
    by_contra hpc
    exact lt_irrefl i (hstarted hpc)
  have hwaiting : (huntView s).status i = .waiting := by
    show (s.workers i).pc.status _ = .waiting
    rw [hidle]
    rfl
  rw [hunt_start (h.spawning i hmain) hwaiting]
  have hset := huntView_setWorker s i { s.workers i with pc := .copy } fun _ => rfl
  have hmoved : huntView (s.setWorker i { s.workers i with pc := .copy }) = huntView
      { s.setWorker i { s.workers i with pc := .copy } with main := .loop (i + 1) } :=
    (huntView_setMain (by simp [hmain]) (by simp)).symm
  rw [← hmoved, hset]
  rfl

theorem huntView_findGenesisStep (h : SearchInv P s) (hn : findGenesisStep P s = some t) :
    huntView t = huntView s ∨
      ∃ e, (hunt P.icpu P.IsTarget).next (huntView s) e = some (huntView t) := by
  have hjoined := h.joined
  rcases findGenesisStep_cases hn with ⟨i, hmain, hi, rfl⟩ | ⟨i, hmain, rfl⟩ | ⟨i, hmain, rfl⟩ |
    ⟨i, hmain, hdone, rfl⟩ | ⟨i, hmain, hi, rfl⟩
  · exact Or.inl (huntView_setMain (by simp [hmain]) (by simp))
  · exact Or.inl (huntView_setMain (by simp [hmain]) (by simp))
  · exact Or.inr ⟨_, huntView_spawn h hmain⟩
  · exact Or.inl (huntView_setMain (by simp [hmain]) (by simp))
  · right
    refine ⟨.finish, ?_⟩
    rw [hmain] at hjoined
    rw [hunt_finish]
    · rfl
    · show decide (s.main = .returned) = false
      simp [hmain]
    · intro j hj
      have hdone := hjoined j (lt_of_lt_of_le hj (Nat.le_of_not_lt hi))
      left
      show (s.workers j).pc.status _ = .stopped
      rw [hdone]
      rfl

theorem huntView_initial (P : Search) : huntView (.initial P) = HuntState.initial := rfl

theorem huntView_next {a : SearchAction} (hs : (findGenesis P).Reachable s)
    (hn : (findGenesis P).next s a = some t) :
    huntView t = huntView s ∨
      ∃ e, (hunt P.icpu P.IsTarget).next (huntView s) e = some (huntView t) := by
  have h := searchInv_reachable hs
  cases a with
  | main => exact huntView_findGenesisStep h hn
  | worker index now => exact huntView_getStep h hn

theorem huntInv_huntView (hs : (findGenesis P).Reachable s) :
    HuntInv P.icpu P.IsTarget (huntView s) := by
  have hsimulates : (findGenesis P).Simulates (hunt P.icpu P.IsTarget) huntView :=
    ⟨fun _ hs => congrArg huntView hs, fun _ _ _ hs hn => huntView_next hs hn⟩
  exact huntInv_reachable (hsimulates.reachable hs)

end

/-- Every run of `findGenesis` and its workers is, step by step, one of as many workers that search
for headers with a hash at most the target. -/
theorem findGenesis_simulates (P : Search) :
    (findGenesis P).Simulates (hunt P.icpu P.IsTarget) huntView where
  start s hs := by
    rw [show s = .initial P from hs]
    exact huntView_initial P
  next _ _ _ hs hn := huntView_next hs hn

/-- A worker that has printed has found, holds the header it printed and does not print again. -/
structure PrintInv (s : SearchState) : Prop where
  nodup : (s.printed.map Prod.fst).Nodup
  printed : ∀ p ∈ s.printed, p.1 ∈ s.found ∧
    ((s.workers p.1).pc = .test ∨ (s.workers p.1).pc = .done) ∧ p.2 = (s.workers p.1).pb

section

variable {P : Search} {s t : SearchState} {index : Nat} {now : Int}

theorem printInv_initial (P : Search) : PrintInv (.initial P) where
  nodup := List.nodup_nil
  printed p hp := by cases hp

theorem PrintInv.not_mem (h : PrintInv s) {pc : WorkerPc} (hpc : (s.workers index).pc = pc)
    (htest : pc ≠ .test) (hdone : pc ≠ .done) : index ∉ s.printed.map Prod.fst := by
  intro hmem
  obtain ⟨p, hp, rfl⟩ := List.mem_map.mp hmem
  obtain ⟨-, hover, -⟩ := h.printed p hp
  rw [hpc] at hover
  rcases hover with hover | hover
  · exact htest hover
  · exact hdone hover

theorem PrintInv.other (h : PrintInv s) (hfresh : index ∉ s.printed.map Prod.fst)
    (hprinted : t.printed = s.printed) (hfound : s.found ⊆ t.found)
    (hworkers : ∀ j, j ≠ index → t.workers j = s.workers j) : PrintInv t where
  nodup := by
    rw [hprinted]
    exact h.nodup
  printed p hp := by
    rw [hprinted] at hp
    obtain ⟨hmem, hover, hpb⟩ := h.printed p hp
    have hne : p.1 ≠ index := by
      rintro rfl
      exact hfresh (List.mem_map_of_mem hp)
    rw [hworkers p.1 hne]
    exact ⟨hfound hmem, hover, hpb⟩

theorem PrintInv.print (h : PrintInv s) (hinv : SearchInv P s)
    (hpc : (s.workers index).pc = .print) (hn : getStep P index now s = some t) : PrintInv t := by
  have hw := hinv.workers index
  simp only [WorkerOk, hpc] at hw
  have hfresh : index ∉ s.printed.map Prod.fst := h.not_mem hpc (by decide) (by decide)
  simp only [getStep, hpc, Option.some.injEq] at hn
  subst hn
  let w : Worker := { s.workers index with pc := .test }
  constructor
  · show ((s.printed ++ [(index, (s.workers index).pb)]).map Prod.fst).Nodup
    rw [List.map_append, List.nodup_append]
    refine ⟨h.nodup, List.nodup_singleton _, ?_⟩
    intro i hi j hj he
    rw [List.mem_singleton.mp hj] at he
    rw [he] at hi
    exact hfresh hi
  · intro p hp
    show p.1 ∈ s.found ∧ (((s.setWorker index w).workers p.1).pc = .test ∨
      ((s.setWorker index w).workers p.1).pc = .done) ∧
        p.2 = ((s.setWorker index w).workers p.1).pb
    rcases List.mem_append.mp hp with hold | hlast
    · have hne : p.1 ≠ index := by
        rintro rfl
        exact hfresh (List.mem_map_of_mem hold)
      rw [s.setWorker_ne index w hne]
      exact h.printed p hold
    · rw [List.mem_singleton.mp hlast, s.setWorker_same]
      exact ⟨hw.2, Or.inl rfl, rfl⟩

theorem PrintInv.test (h : PrintInv s) (hinv : SearchInv P s)
    (hpc : (s.workers index).pc = .test) (hn : getStep P index now s = some t) : PrintInv t := by
  simp only [getStep, hpc, Option.some.injEq] at hn
  by_cases hmem : index ∈ s.printed.map Prod.fst
  · obtain ⟨p, hp, rfl⟩ := List.mem_map.mp hmem
    obtain ⟨hfound, -, hpb⟩ := h.printed p hp
    have hpos : s.result > 0 := hinv.result_pos (List.ne_nil_of_mem hfound)
    rw [if_pos hpos] at hn
    subst hn
    refine ⟨h.nodup, ?_⟩
    intro q hq
    by_cases he : q.1 = p.1
    · obtain ⟨hqfound, -, hqpb⟩ := h.printed q hq
      rw [he, s.setWorker_same]
      refine ⟨hfound, Or.inr rfl, ?_⟩
      rw [hqpb, he]
    · rw [s.setWorker_ne p.1 _ he]
      exact h.printed q hq
  · subst hn
    exact h.other hmem rfl (List.Subset.refl _) fun j hj => s.setWorker_ne index _ hj

theorem printInv_getStep (h : PrintInv s) (hinv : SearchInv P s)
    (hn : getStep P index now s = some t) : PrintInv t := by
  obtain ⟨-, -, hworkers, -⟩ := getStep_frame hn
  have hstep := hn
  cases hpc : (s.workers index).pc <;>
    simp only [getStep, hpc, reduceCtorEq, Option.some.injEq] at hstep
  case print => exact h.print hinv hpc hn
  case test => exact h.test hinv hpc hn
  all_goals
    refine h.other (h.not_mem hpc (by simp) (by simp)) ?_ ?_ hworkers
    · rw [← hstep]
      rfl
    · rw [← hstep]
      intro i hi
      simp [hi]

theorem printInv_findGenesisStep (h : PrintInv s) (hinv : SearchInv P s)
    (hn : findGenesisStep P s = some t) : PrintInv t := by
  rcases findGenesisStep_cases hn with ⟨i, _, _, rfl⟩ | ⟨i, _, rfl⟩ | ⟨i, hmain, rfl⟩ |
    ⟨i, _, _, rfl⟩ | ⟨i, _, _, rfl⟩
  · exact ⟨h.nodup, h.printed⟩
  · exact ⟨h.nodup, h.printed⟩
  · have hidle : (s.workers i).pc = .idle := by
      by_contra hpc
      have hlt := hinv.started i hpc
      rw [hmain] at hlt
      exact lt_irrefl i hlt
    exact h.other (h.not_mem hidle (by decide) (by decide)) rfl (List.Subset.refl _)
      fun j hj => s.setWorker_ne i _ hj
  · exact ⟨h.nodup, h.printed⟩
  · exact ⟨h.nodup, h.printed⟩

theorem printInv_reachable (hs : (findGenesis P).Reachable s) : PrintInv s := by
  apply hs.invariant
  · intro s hs
    rw [hs]
    exact printInv_initial P
  · intro s a t hs h _ hn
    have hinv := searchInv_reachable hs
    cases a with
    | main => exact printInv_findGenesisStep h hinv hn
    | worker index now => exact printInv_getStep h hinv hn

theorem PrintInv.mem_finds (h : PrintInv s) {p : Nat × Header} (hp : p ∈ s.printed) :
    p ∈ (huntView s).finds := by
  obtain ⟨hfound, -, hpb⟩ := h.printed p hp
  refine List.mem_map.mpr ⟨p.1, hfound, ?_⟩
  rw [← hpb]

theorem PrintInv.perm_finds (h : PrintInv s) (hinv : SearchInv P s) (hmain : s.main = .returned) :
    s.printed.Perm (huntView s).finds := by
  have hfinds : (huntView s).finds.Nodup := hinv.nodup.map fun i j he => (Prod.ext_iff.mp he).1
  rw [List.perm_ext_iff_of_nodup h.nodup.of_map hfinds]
  intro p
  constructor
  · exact h.mem_finds
  · intro hp
    obtain ⟨i, hi, rfl⟩ := List.mem_map.mp hp
    have hdone : (s.workers i).pc = .done := by
      apply hinv.joined
      rw [hmain]
      exact hinv.found_lt i hi
    have hw := hinv.workers i
    simp only [WorkerOk, hdone] at hw
    obtain ⟨q, hq, hqi⟩ := List.mem_map.mp (hw.2 hi)
    obtain ⟨-, -, hpb⟩ := h.printed q hq
    have hsame : q = (i, (s.workers i).pb) := by
      rw [← hqi, ← hpb]
    rw [← hsame]
    exact hq

end

/-- No worker prints more than one header, and every header printed was found by the worker that
prints it.  When the search returns, the headers printed are those found, and the counter, from
which increments may be missing, is at most their number. -/
theorem findGenesis_prints_once (P : Search) (s : SearchState) (hs : (findGenesis P).Reachable s) :
    (s.printed.map Prod.fst).Nodup ∧
      (∀ p ∈ s.printed, p.1 < P.icpu ∧ p ∈ (huntView s).finds ∧ P.IsTarget p.2) ∧
      (s.main = .returned →
        s.printed.Perm (huntView s).finds ∧ s.result ≤ s.printed.length) := by
  have h := printInv_reachable hs
  have hinv := searchInv_reachable hs
  have hhunt := huntInv_huntView hs
  refine ⟨h.nodup, ?_, ?_⟩
  · intro p hp
    have hfind := h.mem_finds hp
    exact ⟨hinv.found_lt p.1 (h.printed p hp).1, hfind, hhunt.good p hfind⟩
  · intro hmain
    have hperm := h.perm_finds hinv hmain
    refine ⟨hperm, ?_⟩
    have hlength : (huntView s).finds.length = s.found.length := List.length_map ..
    rw [hperm.length_eq, hlength]
    exact hinv.result_le

/-- Both workers print, and one of the two increments is lost. -/
theorem findGenesis_prints_once_twoWorkers :
    ∃ s, (findGenesis twoWorkers).Reachable s ∧ s.result = 1 ∧
      s.printed.map Prod.fst = [0, 1] ∧ s.printed.Perm (huntView s).finds := by
  obtain ⟨s, hexec, hend⟩ := Machine.exec_exists (findGenesis twoWorkers) (.initial twoWorkers)
    [.main, .main, .worker 0 5, .worker 0 5, .worker 0 5, .main, .main, .worker 1 5, .worker 1 5,
      .worker 1 5, .worker 0 5, .worker 1 5, .worker 0 5, .worker 1 5, .worker 0 5, .worker 1 5,
      .worker 0 5, .worker 1 5, .main, .main, .main, .main]
    (fun s => s.main = .returned ∧ s.result = 1 ∧ s.printed.map Prod.fst = [0, 1]) (by decide)
  obtain ⟨hmain, hresult, hprinted⟩ := of_decide_eq_true hend
  have hs : (findGenesis twoWorkers).Reachable s := .exec (.start rfl) hexec
  obtain ⟨-, -, hall⟩ := findGenesis_prints_once twoWorkers s hs
  exact ⟨s, hs, hresult, hprinted, (hall hmain).1⟩

end CoinTool
