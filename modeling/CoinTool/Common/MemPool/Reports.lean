import CoinTool.Common.MemPool.Distinct

/-!
# What a run adds and reports

All entries of a run have one size, so the number of entries is a quotient.  The loop counts the
bytes since its last report and starts again when they exceed a tenth of the limit, so that it
reports before the last of every `reportEvery` entries.
-/

namespace CoinTool

open Framework

theorem succ_round {n k : Nat} (h : n % k + 1 = k) :
    (n + 1) / k = n / k + 1 ∧ (n + 1) % k = 0 ∧ (n / k + 1) * k - 1 = n := by
  have hk : 0 < k := by omega
  have hn := Nat.mod_add_div n k
  have hround : (n / k + 1) * k = k * (n / k) + k := by rw [Nat.succ_mul, Nat.mul_comm]
  have hnext : (n + 1) / k = n / k + 1 ∧ (n + 1) % k = 0 := by
    apply (Nat.div_mod_unique hk).mpr
    refine ⟨?_, hk⟩
    rw [Nat.mul_add, Nat.mul_one]
    omega
  exact ⟨hnext.1, hnext.2, by omega⟩

theorem succ_within {n k : Nat} (h : n % k + 1 < k) :
    (n + 1) / k = n / k ∧ (n + 1) % k = n % k + 1 := by
  have hk : 0 < k := by omega
  apply (Nat.div_mod_unique hk).mpr
  refine ⟨?_, h⟩
  have hn := Nat.mod_add_div n k
  omega

section

variable {Pool Entry Hash Script PubKey Double : Type}
variable {lib : MemPoolLib Pool Entry Hash Script PubKey Double}
variable {txSize : Transaction Hash Script → Int}

theorem outputInfo_length (maxmempool : Int) (pool : Pool) :
    (outputInfo lib maxmempool pool).length = 1 := rfl

theorem outputInfo_not_full (maxmempool : Int) (pool : Pool) :
    "MemPool is Full\n".toList ∉ outputInfo lib maxmempool pool := by
  intro hmem
  have hline := List.mem_singleton.mp hmem
  have hhead : 'M' = 'T' := List.head_eq_of_cons_eq hline
  exact absurd hhead (by decide)

/-- The number of entries from one report of the loop to the next. -/
def reportEvery (maxmempool bytes : Int) : Nat :=
  (maxMempoolTimes maxmempool 100000).toNat / bytes.toNat + 1

theorem report_due_iff (maxmempool : Int) {bytes : Int} (hpos : 0 < bytes) (n : Nat) :
    bytes * (n % reportEvery maxmempool bytes : Nat) + bytes > maxMempoolTimes maxmempool 100000 ↔
      n % reportEvery maxmempool bytes + 1 = reportEvery maxmempool bytes := by
  obtain ⟨size, rfl⟩ := Int.eq_ofNat_of_zero_le hpos.le
  have hsize : 0 < size := Int.natCast_pos.mp hpos
  have hround : n % reportEvery maxmempool size < reportEvery maxmempool size :=
    Nat.mod_lt _ (Nat.succ_pos _)
  rw [reportEvery, Int.toNat_natCast] at *
  have hlow := Nat.mul_div_le (maxMempoolTimes maxmempool 100000).toNat size
  have hhigh := Nat.lt_mul_div_succ (maxMempoolTimes maxmempool 100000).toNat hsize
  generalize maxMempoolTimes maxmempool 100000 = tenth at *
  generalize tenth.toNat / size = quotient at *
  generalize n % (quotient + 1) = r at *
  have hsum : (size : Int) * r + size = (size * (r + 1) : Nat) := by
    rw [Nat.mul_succ, Nat.cast_add, Nat.cast_mul]
  rw [hsum]
  constructor
  · intro hdue
    by_contra hless
    have hle : size * (r + 1) ≤ size * quotient := Nat.mul_le_mul_left size (by omega)
    have hquotient : 0 < size * (r + 1) := Nat.mul_pos hsize (Nat.succ_pos r)
    omega
  · intro hlast
    rw [hlast]
    omega

variable {pubkey : PubKey} {maxmempool : Int} {prevtx : Transaction Hash Script} {fee now : Int}
variable {is : Bool} {val : Double} {s t : FillState Pool Hash}

theorem fillBody_again_reports (laws : lib.Lawful)
    (h : fillBody lib pubkey maxmempool prevtx fee is val now s = .again t) :
    (s.size + lib.getTxSize (loopEntry lib pubkey prevtx fee now) >
        maxMempoolTimes maxmempool 100000 →
      t.size = 0 ∧
        t.printed = s.printed ++ outputInfo lib maxmempool (lib.enableFeeCalc s.pool is val)) ∧
    (s.size + lib.getTxSize (loopEntry lib pubkey prevtx fee now) ≤
        maxMempoolTimes maxmempool 100000 →
      t.size = s.size + lib.getTxSize (loopEntry lib pubkey prevtx fee now) ∧
        t.printed = s.printed) := by
  rw [fillBody] at h
  split at h
  · cases h
  · rw [newTX_eq laws] at h
    dsimp only at h
    rw [← loopEntry, List.append_nil] at h
    split at h
    · cases h
    · split at h
      · rename_i hdue
        cases h
        exact ⟨fun _ => ⟨rfl, rfl⟩, fun hle => absurd hle (by omega)⟩
      · rename_i hdue
        cases h
        exact ⟨fun hgt => absurd hgt hdue, fun _ => ⟨rfl, rfl⟩⟩

theorem fillBody_ended_full (laws : lib.Lawful)
    (h : fillBody lib pubkey maxmempool prevtx fee is val now s = .ended t) :
    t.added = s.added ∧ lib.getTotalTxSize t.pool = lib.getTotalTxSize s.pool ∧
      t.printed = s.printed ++
        if lib.getTotalTxSize s.pool < maxMempoolTimes maxmempool 1000000 then
          ["MemPool is Full\n".toList]
        else [] := by
  rw [fillBody] at h
  split at h
  · rename_i hfull
    rw [isFull, decide_eq_true_eq] at hfull
    cases h
    rw [if_neg (by omega), List.append_nil]
    exact ⟨rfl, rfl, rfl⟩
  · rename_i hfull
    rw [isFull, decide_eq_true_eq] at hfull
    rw [newTX_eq laws] at h
    dsimp only at h
    rw [List.append_nil] at h
    split at h
    · cases h
      rw [if_pos (by omega)]
      exact ⟨rfl, laws.enableFeeCalc_total _ _ _, rfl⟩
    · cases h

def filledPool (lib : MemPoolLib Pool Entry Hash Script PubKey Double) (pubkey : PubKey)
    (prevtx : Transaction Hash Script) (fee : Int) (is : Bool) (val : Double) (testmempool : Pool)
    (times : List Int) : Pool :=
  times.foldl (fun pool now => lib.addUnchecked (lib.enableFeeCalc pool is val)
    (lib.getHash (loopTX lib pubkey prevtx fee).1) (loopEntry lib pubkey prevtx fee now)) testmempool

/-- The pools that are reported before the last entry of each of the first `rounds` rounds, where
`pools n` is the pool after `n` entries. -/
def reportedPools (lib : MemPoolLib Pool Entry Hash Script PubKey Double) (is : Bool) (val : Double)
    (pools : Nat → Pool) (every rounds : Nat) : List Pool :=
  (List.range rounds).map fun k => lib.enableFeeCalc (pools ((k + 1) * every - 1)) is val

theorem reportedPools_succ (pools : Nat → Pool) (every rounds : Nat) :
    reportedPools lib is val pools every (rounds + 1) =
      reportedPools lib is val pools every rounds ++
        [lib.enableFeeCalc (pools ((rounds + 1) * every - 1)) is val] := by
  rw [reportedPools, List.range_succ, List.map_append, reportedPools]
  rfl

theorem reportedPools_length (pools : Nat → Pool) (every rounds : Nat) :
    (reportedPools lib is val pools every rounds).length = rounds := by
  rw [reportedPools, List.length_map, List.length_range]

theorem flatMap_outputInfo_length (reported : List Pool) :
    (reported.flatMap (outputInfo lib maxmempool)).length = reported.length := by
  induction reported with
  | nil => rfl
  | cons pool reported ih =>
      rw [List.flatMap_cons, List.length_append, ih, outputInfo_length, List.length_cons,
        Nat.add_comm]

/-- After `n` iterations the run has added `n` entries of `bytes` bytes and reported in every full
round of `reportEvery` entries. -/
structure Reporting (lib : MemPoolLib Pool Entry Hash Script PubKey Double) (maxmempool : Int)
    (is : Bool) (val : Double) (pools : Nat → Pool) (bytes : Int) (n : Nat)
    (s : FillState Pool Hash) : Prop where
  added : s.added.length = n
  pool : s.pool = pools n
  total : lib.getTotalTxSize s.pool = lib.getTotalTxSize (pools 0) + bytes * n
  size : s.size = bytes * (n % reportEvery maxmempool bytes : Nat)
  printed : s.printed = outputInfo lib maxmempool (pools 0) ++
    (reportedPools lib is val pools (reportEvery maxmempool bytes)
      (n / reportEvery maxmempool bytes)).flatMap (outputInfo lib maxmempool)
  below : n ≠ 0 → lib.getTotalTxSize s.pool < maxMempoolTimes maxmempool 1000000

variable {pools : Nat → Pool} {n : Nat}

theorem Reporting.again (laws : lib.Lawful)
    (hsize : ∀ args, lib.getTxSize (lib.makeEntry args) = txSize args.tx)
    (h : Reporting lib maxmempool is val pools (txSize (loopTX lib pubkey prevtx fee).1) n s)
    (hpools : pools (n + 1) = lib.addUnchecked (lib.enableFeeCalc (pools n) is val)
      (lib.getHash (loopTX lib pubkey prevtx fee).1) (loopEntry lib pubkey prevtx fee now))
    (hbody : fillBody lib pubkey maxmempool prevtx fee is val now s = .again t) :
    Reporting lib maxmempool is val pools (txSize (loopTX lib pubkey prevtx fee).1) (n + 1) t := by
  obtain ⟨hpool, hadded, htotal, hlt⟩ := fillBody_again laws hbody
  obtain ⟨hdue, hnot⟩ := fillBody_again_reports laws hbody
  have hentry : lib.getTxSize (loopEntry lib pubkey prevtx fee now) =
      txSize (loopTX lib pubkey prevtx fee).1 := hsize _
  have hpos := laws.getTxSize_pos (loopEntry lib pubkey prevtx fee now)
  have hlength : t.added.length = n + 1 := by
    rw [hadded, List.length_append, List.length_singleton, h.added]
  rw [h.pool, ← hpools] at hpool
  rw [hentry] at htotal hdue hnot hpos
  generalize txSize (loopTX lib pubkey prevtx fee).1 = bytes at *
  have hround := report_due_iff maxmempool hpos n
  have hbytes : lib.getTotalTxSize t.pool =
      lib.getTotalTxSize (pools 0) + bytes * (n + 1 : Nat) := by
    rw [htotal, h.total, Nat.cast_add, Nat.cast_one, Int.mul_add, Int.mul_one, Int.add_assoc]
  rw [h.size] at hdue hnot
  rw [h.printed, h.pool] at hdue
  rw [h.printed] at hnot
  have hmod : n % reportEvery maxmempool bytes < reportEvery maxmempool bytes :=
    Nat.mod_lt _ (Nat.succ_pos _)
  by_cases hlast : n % reportEvery maxmempool bytes + 1 = reportEvery maxmempool bytes
  · obtain ⟨hzero, hprinted⟩ := hdue (hround.mpr hlast)
    obtain ⟨hquotient, hrest, hat⟩ := succ_round hlast
    refine ⟨hlength, hpool, hbytes, ?_, ?_, fun _ => hlt⟩
    · rw [hzero, hrest, Nat.cast_zero, Int.mul_zero]
    · rw [hprinted, hquotient, reportedPools_succ, hat, List.append_assoc, List.flatMap_append,
        List.flatMap_singleton]
  · have hle : bytes * (n % reportEvery maxmempool bytes : Nat) + bytes ≤
        maxMempoolTimes maxmempool 100000 := Int.not_lt.mp fun hgt => hlast (hround.mp hgt)
    obtain ⟨hgrown, hprinted⟩ := hnot hle
    obtain ⟨hquotient, hrest⟩ := succ_within (by omega :
      n % reportEvery maxmempool bytes + 1 < reportEvery maxmempool bytes)
    refine ⟨hlength, hpool, hbytes, ?_, ?_, fun _ => hlt⟩
    · rw [hgrown, hrest, Nat.cast_add, Nat.cast_one, Int.mul_add, Int.mul_one]
    · rw [hprinted, hquotient]

structure Reported (lib : MemPoolLib Pool Entry Hash Script PubKey Double) (maxmempool : Int)
    (is : Bool) (val : Double) (pools : Nat → Pool) (bytes : Int) (s : FillState Pool Hash) :
    Prop where
  calls : (s.added.length : Int) =
    max 0 ((maxMempoolTimes maxmempool 1000000 - lib.getTotalTxSize (pools 0) - 1) / bytes)
  pool : s.pool = pools s.added.length ∨
    s.pool = lib.enableFeeCalc (pools s.added.length) is val
  total : lib.getTotalTxSize s.pool = lib.getTotalTxSize (pools 0) + bytes * s.added.length
  printed : s.printed = outputInfo lib maxmempool (pools 0) ++
    (reportedPools lib is val pools (reportEvery maxmempool bytes)
      (s.added.length / reportEvery maxmempool bytes)).flatMap (outputInfo lib maxmempool) ++
    if lib.getTotalTxSize (pools 0) < maxMempoolTimes maxmempool 1000000 then
      ["MemPool is Full\n".toList]
    else []

theorem Reporting.ended (laws : lib.Lawful)
    (hsize : ∀ args, lib.getTxSize (lib.makeEntry args) = txSize args.tx)
    (h : Reporting lib maxmempool is val pools (txSize (loopTX lib pubkey prevtx fee).1) n s)
    (hbody : fillBody lib pubkey maxmempool prevtx fee is val now s = .ended t) :
    Reported lib maxmempool is val pools (txSize (loopTX lib pubkey prevtx fee).1) t := by
  obtain ⟨hpool, -, hfull⟩ := fillBody_ended laws hbody
  obtain ⟨hadded, htotal, hprinted⟩ := fillBody_ended_full laws hbody
  have hentry : lib.getTxSize (loopEntry lib pubkey prevtx fee now) =
      txSize (loopTX lib pubkey prevtx fee).1 := hsize _
  have hpos := laws.getTxSize_pos (loopEntry lib pubkey prevtx fee now)
  have hlength : t.added.length = n := by rw [hadded, h.added]
  rw [hentry] at hfull hpos
  generalize txSize (loopTX lib pubkey prevtx fee).1 = bytes at *
  have hgrown : 0 ≤ bytes * n := Int.mul_nonneg hpos.le (Int.natCast_nonneg _)
  have hsum := h.total
  have hroom : lib.getTotalTxSize s.pool < maxMempoolTimes maxmempool 1000000 ↔
      lib.getTotalTxSize (pools 0) < maxMempoolTimes maxmempool 1000000 := by
    constructor
    · omega
    · intro hlt
      by_cases hzero : n = 0
      · rw [hsum, hzero, Nat.cast_zero, Int.mul_zero, Int.add_zero]
        exact hlt
      · exact h.below hzero
  simp only [hroom] at hprinted
  refine ⟨?_, ?_, ?_, ?_⟩
  · rw [hlength]
    by_cases hlt : lib.getTotalTxSize (pools 0) < maxMempoolTimes maxmempool 1000000
    · have hbelow := hroom.mpr hlt
      have hcalls : (maxMempoolTimes maxmempool 1000000 - lib.getTotalTxSize (pools 0) - 1) /
          bytes = n := by
        apply (Int.ediv_eq_iff_of_pos hpos).mpr
        rw [Int.mul_comm]
        omega
      rw [hcalls]
      omega
    · have hzero : n = 0 := by
        by_contra hne
        exact hlt (hroom.mp (h.below hne))
      have hneg : (maxMempoolTimes maxmempool 1000000 - lib.getTotalTxSize (pools 0) - 1) /
          bytes < 0 := Int.ediv_neg_of_neg_of_pos (by omega) hpos
      rw [hzero]
      omega
  · rw [hlength, ← h.pool]
    exact hpool
  · rw [htotal, hlength, hsum]
  · rw [hprinted, h.printed, hlength]

variable {argv : List Str} {times : List Int} {testmempool : Pool} {bytes : Int}

theorem getPrevTX_prints_nothing (laws : lib.Lawful) (pubkey : PubKey) (fee : Int) (nSigOps : Nat) :
    (getPrevTX lib pubkey fee nSigOps).1 = [] := by
  rw [getPrevTX]
  simp only [laws.decodeHexTx_encodeHexTx]

def poolAfter (lib : MemPoolLib Pool Entry Hash Script PubKey Double) (pubkey : PubKey)
    (argv : List Str) (times : List Int) (testmempool : Pool) (n : Nat) : Pool :=
  filledPool lib pubkey (getPrevTX lib pubkey 10000 0).2.1 10000
    (atoi (argv.getD (cmdindex + 2) []) == 1) (lib.atof (argv.getD (cmdindex + 1) [])) testmempool
    (times.take n)

theorem getMemPoolInfo_reported (laws : lib.Lawful)
    (hsize : ∀ args, lib.getTxSize (lib.makeEntry args) = txSize args.tx)
    (hargs : ¬ argv.length < cmdindex + 3)
    (hended : getMemPoolInfo lib pubkey maxmempool argv times testmempool = .ended s) :
    ∃ t, Reported lib maxmempool (atoi (argv.getD (cmdindex + 2) []) == 1)
        (lib.atof (argv.getD (cmdindex + 1) [])) (poolAfter lib pubkey argv times testmempool)
        (txSize (filledTX lib pubkey)) t ∧
      s = { t with printed := t.printed ++ outputInfo lib maxmempool t.pool } := by
  rw [getMemPoolInfo, if_neg hargs] at hended
  dsimp only at hended
  rw [getPrevTX_prints_nothing laws, List.append_nil] at hended
  obtain ⟨t, hrun, rfl⟩ := Iteration.andThen_ended hended
  have hstart : Reporting lib maxmempool (atoi (argv.getD (cmdindex + 2) []) == 1)
      (lib.atof (argv.getD (cmdindex + 1) [])) (poolAfter lib pubkey argv times testmempool)
      (txSize (filledTX lib pubkey)) 0
      ⟨testmempool, 0, outputInfo lib maxmempool testmempool, []⟩ := by
    refine ⟨rfl, rfl, ?_, ?_, ?_, ?_⟩
    · rw [Nat.cast_zero, Int.mul_zero, Int.add_zero]
      rfl
    · rw [Nat.zero_mod, Nat.cast_zero, Int.mul_zero]
    · rw [Nat.zero_div]
      exact (List.append_nil _).symm
    · intro hne
      exact absurd rfl hne
  refine ⟨t, ?_, rfl⟩
  apply whileLoop_indexed _ _ hstart hrun
  · intro n now s t hnow hs hbody
    apply hs.again laws hsize _ hbody
    obtain ⟨hn, rfl⟩ := List.getElem?_eq_some_iff.mp hnow
    rw [poolAfter, filledPool, List.take_succ_eq_append_getElem hn, List.foldl_append]
    rfl
  · intro n now s t _ hs hbody
    exact hs.ended laws hsize hbody

theorem Reported.rounds (hpos : 0 < bytes) (hlow : 0 ≤ maxmempool)
    (hfit : maxmempool * 1000000 < 2 ^ 63) (htotal : 0 ≤ lib.getTotalTxSize (pools 0))
    (h : Reported lib maxmempool is val pools bytes s) :
    s.added.length / reportEvery maxmempool bytes ≤ 9 := by
  have hlimit : maxMempoolTimes maxmempool 1000000 = maxmempool * 1000000 :=
    Int.bmod_eq_of_le (by omega) (by omega)
  have htenth : maxMempoolTimes maxmempool 100000 = maxmempool * 100000 :=
    Int.bmod_eq_of_le (by omega) (by omega)
  have hevery : maxmempool * 100000 < bytes * reportEvery maxmempool bytes := by
    obtain ⟨size, rfl⟩ := Int.eq_ofNat_of_zero_le hpos.le
    have hround := Nat.lt_mul_div_succ (maxmempool * 100000).toNat (Int.natCast_pos.mp hpos)
    rw [reportEvery, htenth, Int.toNat_natCast, ← Int.natCast_mul]
    omega
  have hround : 0 < reportEvery maxmempool bytes := Nat.succ_pos _
  suffices hless : s.added.length / reportEvery maxmempool bytes < 10 from Nat.le_of_lt_succ hless
  rw [Nat.div_lt_iff_lt_mul hround]
  by_contra hmany
  have hcalls := h.calls
  rw [hlimit] at hcalls
  have hquotient : (s.added.length : Int) =
      (maxmempool * 1000000 - lib.getTotalTxSize (pools 0) - 1) / bytes := by
    omega
  have hbytes : bytes * s.added.length ≤
      maxmempool * 1000000 - lib.getTotalTxSize (pools 0) - 1 := by
    rw [hquotient]
    exact Int.mul_ediv_self_le hpos.ne'
  have hrounds : bytes * (10 * reportEvery maxmempool bytes : Nat) ≤ bytes * s.added.length := by
    apply Int.mul_le_mul_of_nonneg_left _ hpos.le
    omega
  rw [Nat.cast_mul, Nat.cast_ofNat, Int.mul_left_comm] at hrounds
  linarith

end

end CoinTool
