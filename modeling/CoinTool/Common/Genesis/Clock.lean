import Mathlib.Data.List.ReduceOption
import CoinTool.Common.Genesis.Prints
import CoinTool.Common.Genesis.Ranges

/-!
# The times of the headers

A worker reads the clock before its search and again whenever its loop counter has passed 1000, and
moves the time of its header by what has gone by since it first read the clock.
-/

namespace CoinTool

open Framework

/-- What a step shows of the clock: the reading before the loop, and for each iteration the reading
it makes, if it makes one. -/
def clockEntry (s : SearchState) : SearchAction → List (Nat × Option Int)
  | .main => []
  | .worker index now =>
      match (s.workers index).pc with
      | .offset => [(index, some now)]
      | .time => [(index, if (s.workers index).cnt > 1000 then some now else none)]
      | _ => []

def findGenesisClock (P : Search) : Machine (SearchState × List (Nat × Option Int)) SearchAction :=
  (findGenesis P).recorded clockEntry

def latest (first : Int) (later : List (Option Int)) : Int := later.reduceOption.getLastD first

/-- The header's time is the given one moved by the time that went by between these readings. -/
def TimeMoved (P : Search) (first last : Int) (h : Header) : Prop :=
  h.nTime = BitVec.ofInt 32 (P.header.nTime.toNat + (last - first))

/-- The iterations of a loop that read the clock are those whose index is a positive multiple of
1001. -/
def ReadsAt (later : List (Option Int)) : Prop :=
  ∀ k (hk : k < later.length), later[k].isSome = true ↔ 0 < k ∧ 1001 ∣ k

/-- A worker that read `first` before its loop, and then has gone through an iteration for each
element of `later`. -/
structure Ticking (P : Search) (w : Worker) (first : Int) (later : List (Option Int)) : Prop where
  offset : w.timeoffset = P.header.nTime.toNat - first
  cnt : w.cnt = (later.length - 1001 * ((later.length - 1) / 1001) : Nat)
  readings : later.reduceOption.length = (later.length - 1) / 1001
  reads : ReadsAt later
  time : TimeMoved P first (latest first later) w.pb

def WorkerPc.looping : WorkerPc → Bool
  | .idle | .copy | .offset => false
  | .hash | .read | .write _ | .print | .test | .nonce | .time | .done => true

def ClockOk (P : Search) (w : Worker) (entries : List (Option Int)) : Prop :=
  if w.pc.looping then ∃ first later, entries = some first :: later ∧ Ticking P w first later
  else entries = [] ∧ w.cnt = 0 ∧ (w.pc = .offset → w.pb.nTime = P.header.nTime)

theorem timeMoved_self (P : Search) {h : Header} (htime : h.nTime = P.header.nTime) (first : Int) :
    TimeMoved P first first h := by
  rw [TimeMoved, htime, Int.sub_self, Int.add_zero]
  exact (BitVec.ofInt_natCast 32 _).trans (BitVec.ofNat_toNat ..) |>.trans (by simp) |>.symm

theorem ReadsAt.append {later : List (Option Int)} (h : ReadsAt later) {reading : Option Int}
    (hlast : reading.isSome = true ↔ 0 < later.length ∧ 1001 ∣ later.length) :
    ReadsAt (later ++ [reading]) := by
  intro k hk
  by_cases hold : k < later.length
  · rw [List.getElem_append_left hold]
    exact h k hold
  · obtain rfl : k = later.length := by
      rw [List.length_append, List.length_singleton] at hk
      omega
    rw [List.getElem_concat_length rfl]
    exact hlast

section

variable {P : Search} {s t : SearchState} {index : Nat} {now : Int} {w : Worker}

theorem Ticking.start (now : Int) (htime : w.pb.nTime = P.header.nTime) :
    Ticking P { w with pc := .hash, timeoffset := P.header.nTime.toNat - now, cnt := 0 } now [] where
  offset := rfl
  cnt := rfl
  readings := rfl
  reads := fun k hk => absurd hk (Nat.not_lt_zero k)
  time := timeMoved_self P htime now

theorem Ticking.keep {first : Int} {later : List (Option Int)} (h : Ticking P w first later)
    {w' : Worker} (hoffset : w'.timeoffset = w.timeoffset) (hcnt : w'.cnt = w.cnt)
    (htime : w'.pb.nTime = w.pb.nTime) : Ticking P w' first later := by
  refine ⟨hoffset.trans h.offset, hcnt.trans h.cnt, h.readings, h.reads, ?_⟩
  rw [TimeMoved, htime]
  exact h.time

theorem Ticking.refresh {first : Int} {later : List (Option Int)} (h : Ticking P w first later)
    (hcnt : w.cnt > 1000) (now : Int) {pc : WorkerPc} :
    Ticking P { w with
      pc := pc
      pb := { w.pb with nTime := BitVec.ofInt 32 (now + w.timeoffset) }
      cnt := 0 + 1 } first (later ++ [some now]) := by
  have hold := h.cnt
  have hreadings := h.readings
  refine ⟨h.offset, ?_, ?_, ?_, ?_⟩
  · show (0 + 1 : Int) = _
    rw [List.length_append, List.length_singleton]
    omega
  · rw [List.reduceOption_append, List.length_append, List.length_append, hreadings]
    simp only [List.reduceOption_singleton, Option.toList_some, List.length_singleton]
    omega
  · apply h.reads.append
    rw [Option.isSome_some, eq_self, true_iff]
    omega
  · have hlatest : latest first (later ++ [some now]) = now := by
      rw [latest, List.reduceOption_append]
      simp
    rw [hlatest]
    show BitVec.ofInt 32 (now + w.timeoffset) = BitVec.ofInt 32 _
    rw [h.offset]
    congr 1
    omega

theorem Ticking.count {first : Int} {later : List (Option Int)} (h : Ticking P w first later)
    (hcnt : ¬ w.cnt > 1000) {pc : WorkerPc} :
    Ticking P { w with pc := pc, cnt := w.cnt + 1 } first (later ++ [none]) := by
  have hold := h.cnt
  have hreadings := h.readings
  have hreduce : (later ++ [none]).reduceOption = later.reduceOption := by
    rw [List.reduceOption_append]
    simp
  refine ⟨h.offset, ?_, ?_, ?_, ?_⟩
  · show w.cnt + 1 = _
    rw [List.length_append, List.length_singleton]
    omega
  · rw [hreduce, hreadings, List.length_append, List.length_singleton]
    omega
  · apply h.reads.append
    rw [Option.isSome_none, iff_false_left (by decide)]
    omega
  · rw [latest, hreduce]
    exact h.time

theorem clockEntry_ne (s : SearchState) {i : Nat} (now : Int) (h : i ≠ index) :
    valuesOf i (clockEntry s (.worker index now)) = [] := by
  rw [clockEntry]
  split <;> simp [valuesOf, Ne.symm h]

theorem getStep_clock (h : getStep P index now s = some t) :
    ((s.workers index).pc = .copy ∧ (t.workers index).pc = .offset ∧
      (t.workers index).cnt = (s.workers index).cnt ∧ (t.workers index).pb = s.pb) ∨
    ((s.workers index).pc = .offset ∧ t.workers index =
      { s.workers index with pc := .hash, timeoffset := s.pb.nTime.toNat - now, cnt := 0 }) ∨
    ((s.workers index).pc = .time ∧ (s.workers index).cnt > 1000 ∧ t.workers index =
      { s.workers index with
        pc := .hash
        pb := { (s.workers index).pb with
          nTime := BitVec.ofInt 32 (now + (s.workers index).timeoffset) }
        cnt := 0 + 1 }) ∨
    ((s.workers index).pc = .time ∧ ¬ (s.workers index).cnt > 1000 ∧ t.workers index =
      { s.workers index with pc := .hash, cnt := (s.workers index).cnt + 1 }) ∨
    ((s.workers index).pc.looping = true ∧ (s.workers index).pc ≠ .time ∧
      (t.workers index).pc.looping = true ∧
      (t.workers index).timeoffset = (s.workers index).timeoffset ∧
      (t.workers index).cnt = (s.workers index).cnt ∧
      (t.workers index).pb.nTime = (s.workers index).pb.nTime) := by
  cases hpc : (s.workers index).pc <;> simp only [getStep, hpc, reduceCtorEq] at h <;> cases h
  case hash => split <;> simp [WorkerPc.looping]
  case test => split <;> simp [WorkerPc.looping]
  case time => split <;> simp_all
  all_goals simp [WorkerPc.looping]

theorem ClockOk.step {entries : List (Option Int)} (h : ClockOk P (s.workers index) entries)
    (hshared : s.pb.nTime = P.header.nTime) (hn : getStep P index now s = some t) :
    ClockOk P (t.workers index)
      (entries ++ valuesOf index (clockEntry s (.worker index now))) := by
  unfold ClockOk at h ⊢
  rcases getStep_clock hn with ⟨hpc, hafter, hcnt, hpb⟩ | ⟨hpc, hafter⟩ | ⟨hpc, hcnt, hafter⟩ |
    ⟨hpc, hcnt, hafter⟩ | ⟨hpc, htime, hafter, hoffset, hcnt, hpb⟩
  · rw [hpc] at h
    rw [clockEntry, hpc, hafter, hcnt, hpb, valuesOf_nil, List.append_nil]
    exact ⟨h.1, h.2.1, fun _ => hshared⟩
  · rw [hpc] at h
    obtain ⟨rfl, -, htime⟩ := h
    rw [clockEntry, hpc, hafter, valuesOf_cons, if_pos rfl, valuesOf_nil, hshared]
    exact ⟨now, [], rfl, Ticking.start now (htime rfl)⟩
  · rw [hpc] at h
    obtain ⟨first, later, rfl, hticking⟩ := h
    rw [clockEntry, hpc, hafter, valuesOf_cons, if_pos rfl, valuesOf_nil, List.append_nil,
      if_pos hcnt, List.cons_append]
    exact ⟨first, _, rfl, hticking.refresh hcnt now⟩
  · rw [hpc] at h
    obtain ⟨first, later, rfl, hticking⟩ := h
    rw [clockEntry, hpc, hafter, valuesOf_cons, if_pos rfl, valuesOf_nil, List.append_nil,
      if_neg hcnt, List.cons_append]
    exact ⟨first, _, rfl, hticking.count hcnt⟩
  · rw [if_pos hpc] at h
    obtain ⟨first, later, rfl, hticking⟩ := h
    have hnone : clockEntry s (.worker index now) = [] := by
      cases hbefore : (s.workers index).pc <;> simp_all [clockEntry, WorkerPc.looping]
    rw [hnone, valuesOf_nil, List.append_nil, if_pos hafter]
    exact ⟨first, later, rfl, hticking.keep hoffset hcnt hpb⟩

theorem ClockOk.spawn {entries : List (Option Int)} (h : ClockOk P w entries)
    (hidle : w.pc = .idle) : ClockOk P { w with pc := .copy } entries := by
  rw [ClockOk, hidle] at h
  exact ⟨h.1, h.2.1, fun hpc => by cases hpc⟩

theorem findGenesisStep_time (hn : findGenesisStep P s = some t) : t.pb.nTime = s.pb.nTime := by
  rcases findGenesisStep_cases hn with ⟨i, -, -, rfl⟩ | ⟨i, -, rfl⟩ | ⟨i, -, rfl⟩ |
    ⟨i, -, -, rfl⟩ | ⟨i, -, -, rfl⟩ <;> rfl

theorem sharedTime_reachable (hs : (findGenesis P).Reachable s) :
    s.pb.nTime = P.header.nTime := by
  apply hs.invariant
  · intro s hs
    rw [hs]
    rfl
  · intro s a t _ h _ hn
    cases a with
    | main => rw [findGenesisStep_time hn, h]
    | worker index now => rw [(getStep_frame hn).2.1, h]

theorem clockOk_reachable {r : SearchState × List (Nat × Option Int)}
    (hr : (findGenesisClock P).Reachable r) (i : Nat) :
    ClockOk P (r.1.workers i) (valuesOf i r.2) := by
  revert i
  apply hr.invariant
  · intro r hr i
    obtain ⟨hs, hnil⟩ := hr
    rw [hs, hnil]
    exact ⟨rfl, rfl, fun hpc => by cases hpc⟩
  · intro r a u hr h _ hn i
    obtain ⟨hstep, hlog⟩ := Machine.recorded_next hn
    have hs := Machine.Reachable.of_recorded hr
    rw [hlog, valuesOf_append]
    cases a with
    | main =>
        rw [clockEntry, valuesOf_nil, List.append_nil]
        rcases findGenesisStep_workers hstep with hsame | ⟨j, hmain, hspawn⟩
        · rw [hsame]
          exact h i
        · rw [hspawn]
          by_cases he : i = j
          · subst i
            rw [SearchState.setWorker_same]
            apply (h j).spawn
            by_contra hbusy
            have hstarted := (searchInv_reachable hs).started j hbusy
            rw [hmain] at hstarted
            exact Nat.lt_irrefl j hstarted
          · rw [r.1.setWorker_ne j _ he]
            exact h i
    | worker index now =>
        by_cases he : i = index
        · subst i
          exact (h index).step (sharedTime_reachable hs) hstep
        · rw [clockEntry_ne r.1 now he, List.append_nil, (getStep_frame hstep).2.2.1 i he]
          exact h i

theorem ClockOk.cnt_le {entries : List (Option Int)} (h : ClockOk P w entries) :
    0 ≤ w.cnt ∧ w.cnt ≤ 1001 := by
  rw [ClockOk] at h
  split at h
  · obtain ⟨first, later, -, hticking⟩ := h
    have hcnt := hticking.cnt
    omega
  · omega

end

/-- No worker reads the clock before its loop is set up.  From then on its first reading is the one
before its first iteration, and of its iterations exactly those read the clock whose index is a
positive multiple of 1001.  The time of its header, and of a header it has printed, is the given one
moved by what went by between the first and the latest reading. -/
theorem findGenesis_clock (P : Search) (s : SearchState) (readings : List (Nat × Option Int))
    (hr : (findGenesisClock P).Reachable (s, readings)) :
    (∀ i, 0 ≤ (s.workers i).cnt ∧ (s.workers i).cnt ≤ 1001) ∧
    (∀ i, (s.workers i).pc.looping = false → valuesOf i readings = []) ∧
    (∀ i, (s.workers i).pc.looping = true →
      ∃ first later, valuesOf i readings = some first :: later ∧
        (∀ k (hk : k < later.length), later[k].isSome = true ↔ 0 < k ∧ 1001 ∣ k) ∧
        later.reduceOption.length = (later.length - 1) / 1001 ∧
        (s.workers i).pb.nTime =
          BitVec.ofInt 32 (P.header.nTime.toNat + (latest first later - first))) ∧
    ∀ i h, (i, h) ∈ s.printed → ∃ first later, valuesOf i readings = some first :: later ∧
      (∀ k (hk : k < later.length), later[k].isSome = true ↔ 0 < k ∧ 1001 ∣ k) ∧
      later.reduceOption.length = (later.length - 1) / 1001 ∧
      h.nTime = BitVec.ofInt 32 (P.header.nTime.toNat + (latest first later - first)) := by
  have hloop (i : Nat) (hpc : (s.workers i).pc.looping = true) :
      ∃ first later, valuesOf i readings = some first :: later ∧
        Ticking P (s.workers i) first later := by
    have hclock := clockOk_reachable hr i
    rw [ClockOk, if_pos hpc] at hclock
    exact hclock
  refine ⟨fun i => (clockOk_reachable hr i).cnt_le, ?_, ?_, ?_⟩
  · intro i hpc
    have hclock := clockOk_reachable hr i
    rw [ClockOk, if_neg (by simp [hpc])] at hclock
    exact hclock.1
  · intro i hpc
    obtain ⟨first, later, hentries, hticking⟩ := hloop i hpc
    exact ⟨first, later, hentries, hticking.reads, hticking.readings, hticking.time⟩
  · intro i h hmem
    obtain ⟨-, hpc, hpb⟩ := (printInv_reachable (Machine.Reachable.of_recorded hr)).printed _ hmem
    have hloops : (s.workers i).pc.looping = true := by
      rcases hpc with hpc | hpc <;>
        · rw [hpc]
          rfl
    obtain ⟨first, later, hentries, hticking⟩ := hloop i hloops
    refine ⟨first, later, hentries, hticking.reads, hticking.readings, ?_⟩
    rw [show h = (s.workers i).pb from hpb]
    exact hticking.time

/-- The nonce 0, with which both workers begin, has no hash below the target. -/
def lateSearch : Search := { twoWorkers with getHash := fun h => if h.nNonce = 0 then -1 else 0 }

/-- Worker 0 goes through its first iteration without a find and prints in its second, and worker 1
has just read the clock. -/
theorem findGenesis_clock_lateSearch :
    ∃ s readings, (findGenesisClock lateSearch).Reachable (s, readings) ∧
      (0, (s.workers 0).pb) ∈ s.printed ∧ valuesOf 0 readings = [some 7, none] ∧
      valuesOf 1 readings = [some 9] ∧
      (s.workers 0).pb.nTime = BitVec.ofInt 32 (lateSearch.header.nTime.toNat + (7 - 7)) := by
  obtain ⟨⟨s, readings⟩, hexec, hend⟩ := Machine.exec_exists (findGenesisClock lateSearch)
    (.initial lateSearch, [])
    [.main, .main, .main, .main, .worker 0 5, .worker 0 7, .worker 0 8, .worker 0 8, .worker 0 8,
      .worker 0 8, .worker 1 8, .worker 1 9, .worker 0 9, .worker 0 9, .worker 0 9, .worker 0 9]
    (fun r => (0, (r.1.workers 0).pb) ∈ r.1.printed ∧ valuesOf 0 r.2 = [some 7, none] ∧
      valuesOf 1 r.2 = [some 9] ∧ (r.1.workers 0).pc.looping) (by decide)
  simp only [decide_eq_true_eq] at hend
  obtain ⟨hmem, hzero, hone, hloops⟩ := hend
  have hstart : (findGenesisClock lateSearch).Reachable (.initial lateSearch, []) :=
    .start ⟨rfl, rfl⟩
  have hr := Machine.Reachable.exec hstart hexec
  obtain ⟨-, -, hworkers, -⟩ := findGenesis_clock lateSearch s readings hr
  obtain ⟨first, later, hentries, -, -, htime⟩ := hworkers 0 hloops
  obtain ⟨rfl, rfl⟩ : first = 7 ∧ later = [none] := by
    rw [hzero] at hentries
    simpa [eq_comm] using hentries
  exact ⟨s, readings, hr, hmem, hzero, hone, htime⟩

end CoinTool
