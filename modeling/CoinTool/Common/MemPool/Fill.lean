import CoinTool.Common.MemPool.Model

/-!
# How far the pool is filled

Every iteration builds the same transaction, because nothing that it is built from changes in the
loop.  The total size grows nevertheless, and it is the total size that ends the loop.
-/

namespace CoinTool

open Framework

section

variable {Pool Entry Hash Script PubKey Double : Type}
variable (lib : MemPoolLib Pool Entry Hash Script PubKey Double) (pubkey : PubKey)

def loopTX (prevtx : Transaction Hash Script) (fee : Int) : Transaction Hash Script × Nat :=
  buildTX lib pubkey 1000 ⟨lib.getHash prevtx, 0⟩ fee 0

def loopEntry (prevtx : Transaction Hash Script) (fee now : Int) : Entry :=
  let tx := (loopTX lib pubkey prevtx fee).1
  lib.makeEntry ⟨tx, fee, now, lib.computePriority tx, 100000, false, 1000 * lib.COIN + fee, false,
    (loopTX lib pubkey prevtx fee).2⟩

variable {lib pubkey} {maxmempool : Int} {prevtx : Transaction Hash Script} {fee now : Int}
variable {is : Bool} {val : Double} {s t : FillState Pool Hash}

theorem newTX_eq (laws : lib.Lawful) :
    newTX lib pubkey prevtx 0 fee = ([], some (loopTX lib pubkey prevtx fee)) := by
  simp only [newTX, laws.decodeHexTx_encodeHexTx]
  rfl

theorem fillBody_ended (laws : lib.Lawful)
    (h : fillBody lib pubkey maxmempool prevtx fee is val now s = .ended t) :
    (t.pool = s.pool ∨ t.pool = lib.enableFeeCalc s.pool is val) ∧ t.added = s.added ∧
      maxMempoolTimes maxmempool 1000000 ≤
        lib.getTotalTxSize s.pool + lib.getTxSize (loopEntry lib pubkey prevtx fee now) := by
  have hpos := laws.getTxSize_pos (loopEntry lib pubkey prevtx fee now)
  rw [fillBody] at h
  split at h
  · rename_i hfull
    rw [isFull, decide_eq_true_eq] at hfull
    cases h
    exact ⟨Or.inl rfl, rfl, by omega⟩
  · rw [newTX_eq laws] at h
    dsimp only at h
    rw [← loopEntry] at h
    split at h
    · rename_i hsize
      rw [laws.enableFeeCalc_total] at hsize
      cases h
      exact ⟨Or.inr rfl, rfl, by omega⟩
    · cases h

theorem fillBody_again (laws : lib.Lawful)
    (h : fillBody lib pubkey maxmempool prevtx fee is val now s = .again t) :
    t.pool = lib.addUnchecked (lib.enableFeeCalc s.pool is val)
        (lib.getHash (loopTX lib pubkey prevtx fee).1) (loopEntry lib pubkey prevtx fee now) ∧
      t.added = s.added ++
        [(lib.getHash (loopTX lib pubkey prevtx fee).1, lib.getTotalTxSize t.pool)] ∧
      lib.getTotalTxSize t.pool =
        lib.getTotalTxSize s.pool + lib.getTxSize (loopEntry lib pubkey prevtx fee now) ∧
      lib.getTotalTxSize t.pool < maxMempoolTimes maxmempool 1000000 := by
  rw [fillBody] at h
  split at h
  · cases h
  · rw [newTX_eq laws] at h
    dsimp only at h
    rw [← loopEntry] at h
    split at h
    · cases h
    · rename_i hsize
      rw [laws.enableFeeCalc_total] at hsize
      cases h
      have htotal : lib.getTotalTxSize (lib.addUnchecked (lib.enableFeeCalc s.pool is val)
          (lib.getHash (loopTX lib pubkey prevtx fee).1) (loopEntry lib pubkey prevtx fee now)) =
          lib.getTotalTxSize s.pool + lib.getTxSize (loopEntry lib pubkey prevtx fee now) := by
        rw [laws.addUnchecked_total, laws.enableFeeCalc_total]
      exact ⟨rfl, rfl, htotal, htotal.trans_lt (by omega)⟩

def FillState.room (lib : MemPoolLib Pool Entry Hash Script PubKey Double) (maxmempool : Int)
    (s : FillState Pool Hash) : Nat :=
  (maxMempoolTimes maxmempool 1000000 - lib.getTotalTxSize s.pool).toNat

theorem fillBody_room (laws : lib.Lawful)
    (h : fillBody lib pubkey maxmempool prevtx fee is val now s = .again t) :
    t.room lib maxmempool < s.room lib maxmempool := by
  obtain ⟨-, -, htotal, hlt⟩ := fillBody_again laws h
  have hpos := laws.getTxSize_pos (loopEntry lib pubkey prevtx fee now)
  rw [FillState.room, FillState.room]
  omega

def AddedBelow (maxmempool : Int) (s : FillState Pool Hash) : Prop :=
  ∀ call ∈ s.added, call.2 < maxMempoolTimes maxmempool 1000000

theorem fillBody_addedBelow (laws : lib.Lawful) (h : AddedBelow maxmempool s) :
    AddedBelow maxmempool (fillBody lib pubkey maxmempool prevtx fee is val now s).state := by
  cases hbody : fillBody lib pubkey maxmempool prevtx fee is val now s with
  | again t =>
      obtain ⟨-, hadded, -, hlt⟩ := fillBody_again laws hbody
      intro call hcall
      rw [Iteration.state, hadded, List.mem_append, List.mem_singleton] at hcall
      rcases hcall with hcall | rfl
      · exact h call hcall
      · exact hlt
  | ended t =>
      obtain ⟨-, hadded, -⟩ := fillBody_ended laws hbody
      intro call hcall
      rw [Iteration.state, hadded] at hcall
      exact h call hcall

section

variable {argv : List Str} {times : List Int} {testmempool : Pool}

theorem getMemPoolInfo_loop (lib : MemPoolLib Pool Entry Hash Script PubKey Double)
    (pubkey : PubKey) (maxmempool : Int) (times : List Int) (testmempool : Pool)
    (hargs : ¬ argv.length < cmdindex + 3) :
    ∃ (is : Bool) (val : Double) (start : FillState Pool Hash), start.pool = testmempool ∧
      start.added = [] ∧
      getMemPoolInfo lib pubkey maxmempool argv times testmempool =
        (whileLoop (fillBody lib pubkey maxmempool (getPrevTX lib pubkey 10000 0).2.1 10000 is val)
          times start).andThen
            fun s => { s with printed := s.printed ++ outputInfo lib maxmempool s.pool } := by
  rw [getMemPoolInfo, if_neg hargs]
  exact ⟨_, _, _, rfl, rfl, rfl⟩

theorem getMemPoolInfo_help (hargs : argv.length < cmdindex + 3) :
    getMemPoolInfo lib pubkey maxmempool argv times testmempool =
      .ended ⟨testmempool, 0, ["Example: getmempoolinfo 0.0 true\n".toList], []⟩ := by
  rw [getMemPoolInfo, if_pos hargs]

theorem getMemPoolInfo_ends (laws : lib.Lawful) (pubkey : PubKey) (maxmempool : Int)
    (argv : List Str) (times : List Int) (testmempool : Pool)
    (hlong : (maxMempoolTimes maxmempool 1000000 - lib.getTotalTxSize testmempool).toNat <
      times.length) :
    ∃ s, getMemPoolInfo lib pubkey maxmempool argv times testmempool = .ended s := by
  by_cases hargs : argv.length < cmdindex + 3
  · exact ⟨_, getMemPoolInfo_help hargs⟩
  · obtain ⟨is, val, start, hpool, -, hloop⟩ :=
      getMemPoolInfo_loop lib pubkey maxmempool times testmempool hargs
    have hroom : start.room lib maxmempool < times.length := by
      rw [FillState.room, hpool]
      exact hlong
    obtain ⟨t, ht⟩ := whileLoop_ends (FillState.room lib maxmempool)
      (fun now s t hbody => fillBody_room laws hbody) hroom
    rw [hloop, ht]
    exact ⟨_, rfl⟩

theorem getMemPoolInfo_addedBelow (laws : lib.Lawful) :
    AddedBelow maxmempool
      (getMemPoolInfo lib pubkey maxmempool argv times testmempool).state := by
  by_cases hargs : argv.length < cmdindex + 3
  · rw [getMemPoolInfo_help hargs]
    intro call hcall
    cases hcall
  · obtain ⟨is, val, start, -, hadded, hloop⟩ :=
      getMemPoolInfo_loop lib pubkey maxmempool times testmempool hargs
    have hstart : AddedBelow maxmempool start := by
      rw [AddedBelow, hadded]
      intro call hcall
      cases hcall
    rw [hloop]
    apply Iteration.andThen_invariant (I := AddedBelow maxmempool)
    · intro s hs
      exact hs
    · exact whileLoop_invariant (fun now s hs => fillBody_addedBelow laws hs) times hstart

end

end

/-- For every limit the loop has ended after one iteration more than there are bytes below the limit,
and after every call of `addUnchecked`, in ended runs and others, the total size is below the
limit. -/
theorem getMemPoolInfo_terminates {Pool Entry Hash Script PubKey Double : Type}
    {lib : MemPoolLib Pool Entry Hash Script PubKey Double} (laws : lib.Lawful) (pubkey : PubKey)
    (maxmempool : Int) (argv : List Str) (testmempool : Pool) :
    (∃ n, ∀ times : List Int, n ≤ times.length →
      ∃ s, getMemPoolInfo lib pubkey maxmempool argv times testmempool = .ended s) ∧
    ∀ times : List Int,
      ∀ call ∈ (getMemPoolInfo lib pubkey maxmempool argv times testmempool).state.added,
        call.2 < maxMempoolTimes maxmempool 1000000 :=
  ⟨⟨_, fun _ hlong => getMemPoolInfo_ends laws _ _ _ _ _ hlong⟩, fun _ => getMemPoolInfo_addedBelow laws⟩

theorem getMemPoolInfo_terminates_sample :
    ∃ times s, getMemPoolInfo samplePoolLib 7 1 fillArguments times emptyPool = .ended s ∧
      ∀ call ∈ s.added, call.2 < 1000000 := by
  obtain ⟨⟨n, hends⟩, hbelow⟩ :=
    getMemPoolInfo_terminates samplePoolLib_lawful 7 1 fillArguments emptyPool
  obtain ⟨s, hs⟩ := hends (List.replicate n 0) (by rw [List.length_replicate])
  have hadded := hbelow (List.replicate n 0)
  rw [hs] at hadded
  exact ⟨_, s, hs, hadded⟩

end CoinTool
