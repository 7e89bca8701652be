import Mathlib.Logic.Function.Basic
import CoinTool.Framework.Machine

/-!
# The search for a genesis block

`findGenesis` writes a nonce into the shared header and starts a worker, once for each processor,
and then joins the workers.  A worker copies the shared header and searches from the nonce it finds
there until the shared counter `*result` is positive.  The threads share memory without a lock: the
lock of `_get` covers only its output.
-/

namespace CoinTool

open Framework

structure Header where
  nVersion : BitVec 32
  hashPrevBlock : BitVec 256
  hashMerkleRoot : BitVec 256
  hashClaimTrie : BitVec 256
  nTime : BitVec 32
  nBits : BitVec 32
  nNonce : BitVec 256
  deriving DecidableEq, Repr

/-- What a search is given: the header passed to `findGenesis`, the number of processors used, the
random numbers drawn, and the functions of the chain's library. -/
structure Search where
  header : Header
  icpu : Nat
  getRandHash : Nat → BitVec 256
  getHash : Header → BitVec 256
  setCompact : BitVec 32 → BitVec 256

def Search.hashTarget (P : Search) : BitVec 256 := P.setCompact P.header.nBits

/-- The i-th nonce: the random number without its top 32 bits, moved up by 16. -/
def Search.nonce (P : Search) (i : Nat) : BitVec 256 := (P.getRandHash i <<< 32) >>> 16

/-- The next step of `_get`; `write` holds the value of `*result` read for the increment. -/
inductive WorkerPc where
  | idle
  | copy
  | offset
  | hash
  | read
  | write (value : Int)
  | print
  | test
  | nonce
  | time
  | done
  deriving DecidableEq, Repr

/-- The variables of a worker.  `start` records the nonce its search begins with. -/
structure Worker where
  pc : WorkerPc
  pb : Header
  timeoffset : Int
  cnt : Int
  start : Option (BitVec 256)

inductive MainPc where
  | loop (i : Nat)
  | spawn (i : Nat)
  | join (i : Nat)
  | returned
  deriving DecidableEq, Repr

/-- `printed` lists the headers printed, each with its worker; `found` records the workers that
have written the counter. -/
structure SearchState where
  main : MainPc
  pb : Header
  result : Int
  printed : List (Nat × Header)
  found : List Nat
  workers : Nat → Worker

def SearchState.setWorker (s : SearchState) (index : Nat) (w : Worker) : SearchState :=
  { s with workers := Function.update s.workers index w }

section

variable (s : SearchState) (index : Nat) (w : Worker)

@[simp] theorem SearchState.setWorker_main : (s.setWorker index w).main = s.main := rfl

@[simp] theorem SearchState.setWorker_pb : (s.setWorker index w).pb = s.pb := rfl

@[simp] theorem SearchState.setWorker_result : (s.setWorker index w).result = s.result := rfl

@[simp] theorem SearchState.setWorker_printed : (s.setWorker index w).printed = s.printed := rfl

@[simp] theorem SearchState.setWorker_found : (s.setWorker index w).found = s.found := rfl

@[simp] theorem SearchState.setWorker_same : (s.setWorker index w).workers index = w := by
  simp [SearchState.setWorker]

theorem SearchState.setWorker_ne {j : Nat} (h : j ≠ index) :
    (s.setWorker index w).workers j = s.workers j := by
  simp [SearchState.setWorker, Function.update_of_ne h]

end

/-- The next step of main or of a worker, `now` being what `GetTime` returns there. -/
inductive SearchAction where
  | main
  | worker (index : Nat) (now : Int)

def SearchState.initial (P : Search) : SearchState where
  main := .loop 0
  pb := P.header
  result := 0
  printed := []
  found := []
  workers _ := ⟨.idle, P.header, 0, 0, none⟩

/-- One step of `_get(pblock, hashTarget, index, result)`. -/
def getStep (P : Search) (index : Nat) (now : Int) (s : SearchState) : Option SearchState :=
  let w := s.workers index
  match w.pc with
  | .idle => none
  | .copy =>
      some (s.setWorker index { w with pc := .offset, pb := s.pb, start := some s.pb.nNonce })
  | .offset =>
      some (s.setWorker index { w with pc := .hash, timeoffset := s.pb.nTime.toNat - now, cnt := 0 })
  | .hash =>
      some (s.setWorker index
        { w with pc := if P.getHash w.pb ≤ P.hashTarget then .read else .test })
  -- `(*result)++` reads and writes in two steps
  | .read => some (s.setWorker index { w with pc := .write s.result })
  | .write value =>
      some { s.setWorker index { w with pc := .print } with
        result := value + 1
        found := s.found ++ [index] }
  | .print =>
      some { s.setWorker index { w with pc := .test } with
        printed := s.printed ++ [(index, w.pb)] }
  | .test => some (s.setWorker index { w with pc := if s.result > 0 then .done else .nonce })
  | .nonce =>
      some (s.setWorker index
        { w with pc := .time, pb := { w.pb with nNonce := w.pb.nNonce + 1 } })
  -- the reset of `cnt` comes before the `++cnt` of the loop
  | .time =>
      let w := if w.cnt > 1000 then
          { w with pb := { w.pb with nTime := BitVec.ofInt 32 (now + w.timeoffset) }, cnt := 0 }
        else w
      some (s.setWorker index { w with pc := .hash, cnt := w.cnt + 1 })
  | .done => none

def findGenesisStep (P : Search) (s : SearchState) : Option SearchState :=
  match s.main with
  | .loop i =>
      if i < P.icpu then
        some { s with main := .spawn i, pb := { s.pb with nNonce := P.nonce i } }
      else some { s with main := .join 0 }
  | .spawn i =>
      some { s.setWorker i { s.workers i with pc := .copy } with main := .loop (i + 1) }
  | .join i =>
      if i < P.icpu then
        if (s.workers i).pc = .done then some { s with main := .join (i + 1) } else none
      else some { s with main := .returned }
  | .returned => none

def findGenesis (P : Search) : Machine SearchState SearchAction where
  start s := s = .initial P
  next s a :=
    match a with
    | .main => findGenesisStep P s
    | .worker index now => getStep P index now s

theorem getStep_frame {P : Search} {index : Nat} {now : Int} {s t : SearchState}
    (h : getStep P index now s = some t) :
    t.main = s.main ∧ t.pb = s.pb ∧ (∀ j, j ≠ index → t.workers j = s.workers j) ∧
      (s.workers index).pc ≠ .idle ∧ (s.workers index).pc ≠ .done ∧
      (t.workers index).pc ≠ .idle ∧ (t.workers index).pc ≠ .copy ∧
      (t.workers index).start =
        if (s.workers index).pc = .copy then some s.pb.nNonce else (s.workers index).start := by
  have hother (w : Worker) (j : Nat) (hj : j ≠ index) :
      (s.setWorker index w).workers j = s.workers j := s.setWorker_ne index w hj
  cases hpc : (s.workers index).pc <;> simp only [getStep, hpc, reduceCtorEq] at h <;> cases h
  case hash => refine ⟨rfl, rfl, hother _, ?_⟩; split <;> simp
  case test => refine ⟨rfl, rfl, hother _, ?_⟩; split <;> simp
  case time => refine ⟨rfl, rfl, hother _, ?_⟩; split <;> simp
  all_goals exact ⟨rfl, rfl, hother _, by simp⟩

theorem getStep_copy {P : Search} {index : Nat} {now : Int} {s t : SearchState}
    (h : getStep P index now s = some t) {i : Nat} (hi : (t.workers i).pc = .copy) :
    (s.workers i).pc = .copy := by
  obtain ⟨-, -, hother, -, -, -, hcopied, -⟩ := getStep_frame h
  by_cases he : i = index
  · subst i
    exact absurd hi hcopied
  · rwa [hother i he] at hi

theorem getStep_start {P : Search} {index : Nat} {now : Int} {s t : SearchState}
    (h : getStep P index now s = some t) {i : Nat} {n : BitVec 256}
    (hi : (t.workers i).start = some n) :
    (s.workers i).start = some n ∨ (s.workers i).pc = .copy ∧ n = s.pb.nNonce := by
  obtain ⟨-, -, hother, -, -, -, -, hstart⟩ := getStep_frame h
  by_cases he : i = index
  · subst i
    rw [hstart] at hi
    split at hi
    · rename_i hpc
      cases hi
      exact Or.inr ⟨hpc, rfl⟩
    · exact Or.inl hi
  · rw [hother i he] at hi
    exact Or.inl hi

theorem findGenesisStep_cases {P : Search} {s t : SearchState}
    (h : findGenesisStep P s = some t) :
    (∃ i, s.main = .loop i ∧ i < P.icpu ∧
      t = { s with main := .spawn i, pb := { s.pb with nNonce := P.nonce i } }) ∨
    (∃ i, s.main = .loop i ∧ t = { s with main := .join 0 }) ∨
    (∃ i, s.main = .spawn i ∧
      t = { s.setWorker i { s.workers i with pc := .copy } with main := .loop (i + 1) }) ∨
    (∃ i, s.main = .join i ∧ (s.workers i).pc = .done ∧ t = { s with main := .join (i + 1) }) ∨
    ∃ i, s.main = .join i ∧ ¬ i < P.icpu ∧ t = { s with main := .returned } := by
  unfold findGenesisStep at h
  cases hmain : s.main with
  | loop i =>
      rw [hmain] at h
      dsimp only at h
      split at h
      · rename_i hi
        cases h
        exact Or.inl ⟨i, rfl, hi, rfl⟩
      · cases h
        exact Or.inr (Or.inl ⟨i, rfl, rfl⟩)
  | spawn i =>
      rw [hmain] at h
      cases h
      exact Or.inr (Or.inr (Or.inl ⟨i, rfl, rfl⟩))
  | join i =>
      rw [hmain] at h
      dsimp only at h
      split at h
      · split at h
        · rename_i hdone
          cases h
          exact Or.inr (Or.inr (Or.inr (Or.inl ⟨i, rfl, hdone, rfl⟩)))
        · cases h
      · rename_i hi
        cases h
        exact Or.inr (Or.inr (Or.inr (Or.inr ⟨i, rfl, hi, rfl⟩)))
  | returned =>
      rw [hmain] at h
      cases h

end CoinTool
