import Mathlib.Algebra.Ring.Nat
import CoinTool.Framework.KeyMap
import CoinTool.Common.Genesis.Search

/-!
# Where the workers search

The low 16 bits of a start nonce are zero, so that a worker can count in them: its first `2 ^ 16`
nonces differ in these bits only, and no worker with another start nonce tries any of them.
-/

namespace CoinTool

open Framework

def WorkerPc.hashed : WorkerPc → Bool
  | .read | .write _ | .print | .test | .nonce | .done => true
  | .idle | .copy | .offset | .hash | .time => false

def triedNonce (s : SearchState) : SearchAction → List (Nat × BitVec 256)
  | .main => []
  | .worker index _ =>
      if (s.workers index).pc = .hash then [(index, (s.workers index).pb.nNonce)] else []

def findGenesisTried (P : Search) : Machine (SearchState × List (Nat × BitVec 256)) SearchAction :=
  (findGenesis P).recorded triedNonce

/-- How often the nonce that a worker holds was increased, after it has hashed so many. -/
def Worker.increments (w : Worker) (tried : Nat) : Nat := if w.pc.hashed then tried - 1 else tried

theorem nonce_toNat (P : Search) (i : Nat) :
    (P.nonce i).toNat = (P.getRandHash i).toNat % 2 ^ 224 * 2 ^ 16 := by
  rw [Search.nonce, BitVec.toNat_ushiftRight, BitVec.toNat_shiftLeft, Nat.shiftLeft_eq,
    Nat.shiftRight_eq_div_pow]
  omega

theorem nonce_low (P : Search) (i : Nat) : (P.nonce i).toNat % 2 ^ 16 = 0 := by
  rw [nonce_toNat]
  exact Nat.mul_mod_left _ _

theorem nonce_lt (P : Search) (i : Nat) : (P.nonce i).toNat < 2 ^ 240 := by
  rw [nonce_toNat]
  omega

theorem add_ofNat_toNat (P : Search) (i : Nat) {k : Nat} (hk : k < 65536) :
    (P.nonce i + BitVec.ofNat 256 k).toNat = (P.nonce i).toNat + k := by
  have hlt := nonce_lt P i
  rw [BitVec.toNat_add, BitVec.toNat_ofNat]
  omega

theorem add_ofNat_upper (P : Search) (i : Nat) {k : Nat} (hk : k < 65536) :
    (P.nonce i + BitVec.ofNat 256 k) >>> 16 = P.nonce i >>> 16 := by
  have hlow := nonce_low P i
  apply BitVec.eq_of_toNat_eq
  rw [BitVec.toNat_ushiftRight, BitVec.toNat_ushiftRight, add_ofNat_toNat P i hk,
    Nat.shiftRight_eq_div_pow, Nat.shiftRight_eq_div_pow]
  omega

theorem nonce_eq_of_upper {P : Search} {i j : Nat} (h : P.nonce i >>> 16 = P.nonce j >>> 16) :
    P.nonce i = P.nonce j := by
  have hi := nonce_low P i
  have hj := nonce_low P j
  have hupper := congrArg BitVec.toNat h
  apply BitVec.eq_of_toNat_eq
  rw [BitVec.toNat_ushiftRight, BitVec.toNat_ushiftRight, Nat.shiftRight_eq_div_pow,
    Nat.shiftRight_eq_div_pow] at hupper
  omega

def noncesFrom (start : BitVec 256) (iterations : Nat) : List (BitVec 256) :=
  (List.range iterations).map fun k => start + BitVec.ofNat 256 k

theorem noncesFrom_succ (start : BitVec 256) (iterations : Nat) :
    noncesFrom start (iterations + 1) =
      noncesFrom start iterations ++ [start + BitVec.ofNat 256 iterations] := by
  rw [noncesFrom, List.range_succ, List.map_append]
  rfl

/-- A worker that began with this nonce has tried so many nonces and holds the last of them or the
next. -/
structure SearchedFrom (start : BitVec 256) (w : Worker) (iterations : Nat) : Prop where
  notIdle : w.pc ≠ .idle
  notCopy : w.pc ≠ .copy
  hashed : w.pc.hashed = true → 0 < iterations
  held : w.pb.nNonce = start + BitVec.ofNat 256 (w.increments iterations)

def Searching (w : Worker) (tried : List (BitVec 256)) : Prop :=
  match w.start with
  | none => (w.pc = .idle ∨ w.pc = .copy) ∧ tried = []
  | some start =>
      tried = noncesFrom start tried.length ∧ SearchedFrom start w tried.length

section

variable {P : Search} {s t : SearchState} {index : Nat} {now : Int}

theorem getStep_nonce (h : getStep P index now s = some t) :
    ((s.workers index).pc = .copy ∧ (t.workers index).pc.hashed = false ∧
      (t.workers index).pb.nNonce = s.pb.nNonce) ∨
    ((s.workers index).pc = .hash ∧ (t.workers index).pc.hashed = true ∧
      (t.workers index).pb.nNonce = (s.workers index).pb.nNonce) ∨
    ((s.workers index).pc = .nonce ∧ (t.workers index).pc.hashed = false ∧
      (t.workers index).pb.nNonce = (s.workers index).pb.nNonce + 1) ∨
    ((s.workers index).pc ≠ .copy ∧ (s.workers index).pc ≠ .hash ∧
      (t.workers index).pc.hashed = (s.workers index).pc.hashed ∧
      (t.workers index).pb.nNonce = (s.workers index).pb.nNonce) := by
  cases hpc : (s.workers index).pc <;> simp only [getStep, hpc, reduceCtorEq] at h <;> cases h
  case hash => split <;> simp [WorkerPc.hashed]
  case test => split <;> simp [WorkerPc.hashed]
  case time => split <;> simp [WorkerPc.hashed]
  all_goals simp [WorkerPc.hashed]

theorem SearchedFrom.step {start : BitVec 256} {iterations : Nat}
    (h : SearchedFrom start (s.workers index) iterations)
    (hn : getStep P index now s = some t) :
    SearchedFrom start (t.workers index)
      (if (s.workers index).pc = .hash then iterations + 1 else iterations) := by
  obtain ⟨-, -, -, -, -, hidle, hcopy, -⟩ := getStep_frame hn
  have hheld := h.held
  rcases getStep_nonce hn with ⟨hpc, -⟩ | ⟨hpc, hafter, hnonce⟩ | ⟨hpc, hafter, hnonce⟩ |
    ⟨-, hpc, hafter, hnonce⟩
  · exact absurd hpc h.notCopy
  · -- the nonce that is hashed here is the next of the range
    refine ⟨hidle, hcopy, fun _ => by simp [hpc], ?_⟩
    rw [hnonce, hheld, Worker.increments, Worker.increments, hpc, hafter]
    rfl
  · have hpos : 0 < iterations := h.hashed (by rw [hpc]; rfl)
    refine ⟨hidle, hcopy, fun hhashed => by simp [hafter] at hhashed, ?_⟩
    have hnext : BitVec.ofNat 256 (iterations - 1) + 1 = BitVec.ofNat 256 iterations := by
      show BitVec.ofNat 256 (iterations - 1) + BitVec.ofNat 256 1 = _
      rw [← BitVec.ofNat_add, Nat.sub_add_cancel hpos]
    rw [hnonce, hheld, Worker.increments, Worker.increments, hpc, hafter]
    simp only [WorkerPc.hashed, if_true, BitVec.add_assoc, hnext, reduceCtorEq, if_false,
      Bool.false_eq_true]
  · rw [if_neg hpc]
    refine ⟨hidle, hcopy, ?_, ?_⟩
    · rw [hafter]
      exact h.hashed
    · rw [hnonce, hheld, Worker.increments, Worker.increments, hafter]

theorem Searching.step {tried : List (BitVec 256)} (h : Searching (s.workers index) tried)
    (hn : getStep P index now s = some t) :
    Searching (t.workers index)
      (tried ++ valuesOf index (triedNonce s (.worker index now))) := by
  obtain ⟨-, -, -, hidle, -, hidle', hcopy', hstart⟩ := getStep_frame hn
  unfold Searching at h ⊢
  cases hbefore : (s.workers index).start with
  | none =>
      rw [hbefore] at h
      obtain ⟨hpc, rfl⟩ := h
      have hcopy : (s.workers index).pc = .copy := hpc.resolve_left hidle
      rw [if_pos hcopy] at hstart
      rcases getStep_nonce hn with ⟨-, hafter, hnonce⟩ | ⟨hpc, -⟩ | ⟨hpc, -⟩ | ⟨hpc, -⟩
      · simp only [hstart, triedNonce, hcopy, reduceCtorEq, if_false, valuesOf_nil, List.append_nil]
        refine ⟨rfl, hidle', hcopy', fun hhashed => by simp [hafter] at hhashed, ?_⟩
        rw [hnonce, Worker.increments, hafter]
        exact (BitVec.add_zero _).symm
      · simp [hcopy] at hpc
      · simp [hcopy] at hpc
      · exact absurd hcopy hpc
  | some start =>
      rw [hbefore] at h
      obtain ⟨htried, hsearched⟩ := h
      rw [if_neg hsearched.notCopy, hbefore] at hstart
      have hstep := hsearched.step hn
      rw [hstart]
      by_cases hpc : (s.workers index).pc = .hash
      · have hheld := hsearched.held
        rw [Worker.increments, hpc] at hheld
        rw [if_pos hpc] at hstep
        simp only [triedNonce, hpc, if_true, valuesOf_cons, valuesOf_nil, List.append_nil,
          List.length_append, List.length_singleton, noncesFrom_succ]
        refine ⟨?_, hstep⟩
        rw [← htried, hheld]
        rfl
      · rw [if_neg hpc] at hstep
        simp only [triedNonce, hpc, if_false, valuesOf_nil, List.append_nil]
        exact ⟨htried, hstep⟩

theorem findGenesisStep_workers (h : findGenesisStep P s = some t) :
    t.workers = s.workers ∨ ∃ i, s.main = .spawn i ∧
      t.workers = (s.setWorker i { s.workers i with pc := .copy }).workers := by
  rcases findGenesisStep_cases h with ⟨i, -, -, rfl⟩ | ⟨i, -, rfl⟩ | ⟨i, hmain, rfl⟩ |
    ⟨i, -, -, rfl⟩ | ⟨i, -, -, rfl⟩
  · exact Or.inl rfl
  · exact Or.inl rfl
  · exact Or.inr ⟨i, hmain, rfl⟩
  · exact Or.inl rfl
  · exact Or.inl rfl

theorem Searching.start {w : Worker} {tried : List (BitVec 256)} (h : Searching w tried)
    (hidle : w.pc = .idle) : Searching { w with pc := .copy } tried := by
  unfold Searching at h ⊢
  cases hstart : w.start with
  | none =>
      rw [hstart] at h
      exact ⟨Or.inr rfl, h.2⟩
  | some start =>
      rw [hstart] at h
      exact absurd hidle h.2.notIdle

theorem searching_reachable {r : SearchState × List (Nat × BitVec 256)}
    (hr : (findGenesisTried P).Reachable r) (i : Nat) :
    Searching (r.1.workers i) (valuesOf i r.2) := by
  revert i
  apply hr.invariant
  · intro r hr i
    obtain ⟨hs, hnil⟩ := hr
    rw [hs, hnil]
    exact ⟨Or.inl rfl, rfl⟩
  · intro r a u hr h _ hn i
    obtain ⟨hstep, hlog⟩ := Machine.recorded_next hn
    rw [hlog, valuesOf_append]
    cases a with
    | main =>
        rw [triedNonce, valuesOf_nil, List.append_nil]
        rcases findGenesisStep_workers hstep with hsame | ⟨j, hmain, hspawn⟩
        · rw [hsame]
          exact h i
        · rw [hspawn]
          by_cases he : i = j
          · subst i
            rw [SearchState.setWorker_same]
            apply (h j).start
            by_contra hbusy
            have hstarted := (searchInv_reachable (Machine.Reachable.of_recorded hr)).started j hbusy
            rw [hmain] at hstarted
            exact Nat.lt_irrefl j hstarted
          · rw [r.1.setWorker_ne j _ he]
            exact h i
    | worker index now =>
        by_cases he : i = index
        · subst i
          exact (h index).step hstep
        · have hnone : valuesOf i (triedNonce r.1 (.worker index now)) = [] := by
            rw [triedNonce]
            split <;> simp [valuesOf, Ne.symm he]
          rw [hnone, List.append_nil, (getStep_frame hstep).2.2.1 i he]
          exact h i

structure DrawnNonces (P : Search) (s : SearchState) : Prop where
  copying : ∀ i, (s.workers i).pc = .copy → ∃ k, s.pb.nNonce = P.nonce k
  spawning : ∀ i, s.main = .spawn i → ∃ k, s.pb.nNonce = P.nonce k
  start : ∀ i n, (s.workers i).start = some n → ∃ k, n = P.nonce k

theorem drawnNonces_getStep (h : DrawnNonces P s) (hn : getStep P index now s = some t) :
    DrawnNonces P t := by
  obtain ⟨hmain, hpb, -⟩ := getStep_frame hn
  refine ⟨?_, ?_, ?_⟩
  · intro i hi
    rw [hpb]
    exact h.copying i (getStep_copy hn hi)
  · rw [hmain, hpb]
    exact h.spawning
  · intro i n hi
    rcases getStep_start hn hi with hold | ⟨hpc, rfl⟩
    · exact h.start i n hold
    · exact h.copying i hpc

theorem DrawnNonces.setMain (h : DrawnNonces P s) (main : MainPc) (hspawn : ∀ k, main ≠ .spawn k) :
    DrawnNonces P { s with main := main } :=
  ⟨h.copying, fun k hk => absurd hk (hspawn k), h.start⟩

theorem drawnNonces_findGenesisStep (h : DrawnNonces P s) (hn : findGenesisStep P s = some t) :
    DrawnNonces P t := by
  rcases findGenesisStep_cases hn with ⟨i, -, -, rfl⟩ | ⟨i, -, rfl⟩ | ⟨i, hmain, rfl⟩ |
    ⟨i, -, -, rfl⟩ | ⟨i, -, -, rfl⟩
  · exact ⟨fun _ _ => ⟨i, rfl⟩, fun _ _ => ⟨i, rfl⟩, h.start⟩
  · exact h.setMain (.join 0) (by simp)
  · refine ⟨fun _ _ => h.spawning i hmain, fun _ _ => h.spawning i hmain, ?_⟩
    intro j n hj
    by_cases he : j = i
    · subst j
      exact h.start i n (by simpa using hj)
    · exact h.start j n (by simpa [s.setWorker_ne i _ he] using hj)
  · exact h.setMain (.join (i + 1)) (by simp)
  · exact h.setMain .returned (by simp)

theorem drawnNonces_reachable (hs : (findGenesis P).Reachable s) : DrawnNonces P s := by
  apply hs.invariant
  · intro s hs
    rw [hs]
    refine ⟨?_, ?_, ?_⟩
    · intro i hi
      cases hi
    · intro i hi
      cases hi
    · intro i n hi
      cases hi
  · intro s a t _ h _ hn
    cases a with
    | main => exact drawnNonces_findGenesisStep h hn
    | worker index now => exact drawnNonces_getStep h hn

theorem mem_noncesFrom_upper {i iterations : Nat} {n : BitVec 256}
    (hn : n ∈ (noncesFrom (P.nonce i) iterations).take 65536) :
    n >>> 16 = P.nonce i >>> 16 := by
  rw [noncesFrom, ← List.map_take, List.take_range] at hn
  obtain ⟨k, hk, rfl⟩ := List.mem_map.mp hn
  rw [List.mem_range] at hk
  exact add_ofNat_upper P i (by omega)

/-- The first `2 ^ 16` nonces of a worker keep the upper bits of its start nonce, and so does the
nonce it holds until it is increased so often. -/
theorem upper_kept {r : SearchState × List (Nat × BitVec 256)}
    (hr : (findGenesisTried P).Reachable r) {i : Nat} {start : BitVec 256}
    (hstart : (r.1.workers i).start = some start) :
    (∀ n ∈ (valuesOf i r.2).take 65536, n >>> 16 = start >>> 16) ∧
    ((r.1.workers i).increments (valuesOf i r.2).length < 65536 →
      (r.1.workers i).pb.nNonce >>> 16 = start >>> 16) := by
  obtain ⟨k, rfl⟩ :=
    (drawnNonces_reachable (Machine.Reachable.of_recorded hr)).start i start hstart
  have hsearching := searching_reachable hr i
  rw [Searching, hstart] at hsearching
  obtain ⟨htried, hsearched⟩ := hsearching
  constructor
  · intro n hn
    rw [htried] at hn
    exact mem_noncesFrom_upper hn
  · intro hfew
    rw [hsearched.held]
    exact add_ofNat_upper P k hfew

theorem starts_apart {r : SearchState × List (Nat × BitVec 256)}
    (hr : (findGenesisTried P).Reachable r) {i j : Nat} {a b : BitVec 256}
    (hi : (r.1.workers i).start = some a) (hj : (r.1.workers j).start = some b) (hne : a ≠ b) :
    ∀ n ∈ (valuesOf i r.2).take 65536, n ∉ (valuesOf j r.2).take 65536 := by
  have hdrawn := (drawnNonces_reachable (Machine.Reachable.of_recorded hr)).start
  obtain ⟨k, rfl⟩ := hdrawn i a hi
  obtain ⟨l, rfl⟩ := hdrawn j b hj
  intro n hn hn'
  apply hne
  apply nonce_eq_of_upper
  rw [← (upper_kept hr hi).1 n hn, ← (upper_kept hr hj).1 n hn']

end

/-- A drawn nonce is the random number without its top 32 bits, moved up by 16.  The first `2 ^ 16`
nonces of a search from it, and what the worker holds meanwhile, differ from it in the 16 low bits
only, so that workers with different start nonces try no nonce in common. -/
theorem findGenesis_ranges (P : Search) :
    (∀ i, (P.nonce i).toNat = (P.getRandHash i).toNat % 2 ^ 224 * 2 ^ 16 ∧
      (P.nonce i).toNat < 2 ^ 240 ∧ (P.nonce i).toNat % 2 ^ 16 = 0) ∧
    ∀ s tried, (findGenesisTried P).Reachable (s, tried) →
      (∀ i start, (s.workers i).start = some start →
        (∃ k, start = P.nonce k) ∧
        (∀ n ∈ (valuesOf i tried).take 65536, n >>> 16 = start >>> 16) ∧
        ((s.workers i).increments (valuesOf i tried).length < 65536 →
          (s.workers i).pb.nNonce >>> 16 = start >>> 16)) ∧
      ∀ i j a b, (s.workers i).start = some a → (s.workers j).start = some b → a ≠ b →
        ∀ n ∈ (valuesOf i tried).take 65536, n ∉ (valuesOf j tried).take 65536 := by
  refine ⟨fun i => ⟨nonce_toNat P i, nonce_lt P i, nonce_low P i⟩, ?_⟩
  intro s tried hr
  refine ⟨?_, fun i j a b hi hj hne => starts_apart hr hi hj hne⟩
  intro i start hstart
  exact ⟨(drawnNonces_reachable (Machine.Reachable.of_recorded hr)).start i start hstart,
    upper_kept hr hstart⟩

def twoRanges : Search where
  header := ⟨1, 0, 0, 1, 1526947200, 0x207fffff, 1⟩
  icpu := 2
  getRandHash i := BitVec.ofNat 256 (i + 1)
  getHash h := ~~~h.nNonce
  setCompact nBits := nBits.zeroExtend 256

theorem findGenesis_ranges_twoRanges :
    ∃ r, (findGenesisTried twoRanges).exec (.initial twoRanges, [])
        [.main, .main, .worker 0 5, .worker 0 5, .worker 0 5, .worker 0 5, .worker 0 5, .worker 0 5,
          .worker 0 5, .main, .main, .worker 1 5, .worker 1 5, .worker 1 5] = some r ∧
      valuesOf 0 r.2 = [0x10000, 0x10001] ∧ valuesOf 1 r.2 = [0x20000] ∧
      ∀ n ∈ (valuesOf 0 r.2).take 65536, n ∉ (valuesOf 1 r.2).take 65536 := by
  obtain ⟨⟨s, tried⟩, hexec, hend⟩ := Machine.exec_exists (findGenesisTried twoRanges)
    (.initial twoRanges, [])
    [.main, .main, .worker 0 5, .worker 0 5, .worker 0 5, .worker 0 5, .worker 0 5, .worker 0 5,
      .worker 0 5, .main, .main, .worker 1 5, .worker 1 5, .worker 1 5]
    (fun r => (r.1.workers 0).start = some 0x10000 ∧ (r.1.workers 1).start = some 0x20000 ∧
      valuesOf 0 r.2 = [0x10000, 0x10001] ∧ valuesOf 1 r.2 = [0x20000]) (by decide)
  simp only [decide_eq_true_eq] at hend
  have hstart : (findGenesisTried twoRanges).Reachable (.initial twoRanges, []) :=
    .start ⟨rfl, rfl⟩
  have hreach : (findGenesisTried twoRanges).Reachable (s, tried) :=
    Machine.Reachable.exec hstart hexec
  exact ⟨(s, tried), hexec, hend.2.2.1, hend.2.2.2, ((findGenesis_ranges twoRanges).2 s tried
    hreach).2 0 1 0x10000 0x20000 hend.1 hend.2.1 (by decide)⟩

end CoinTool
