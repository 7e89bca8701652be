import CoinTool.Common.MemPool.Fill

/-!
# What the pool is filled with

The pool has an entry for every hash that was passed to `addUnchecked`, and the loop passes one hash
however often it goes round.  So the entries are as many as the calls only while there is at most
one call.
-/

namespace CoinTool

open Framework

section

variable {Pool Entry Hash Script PubKey Double : Type} [DecidableEq Hash]
variable {lib : MemPoolLib Pool Entry Hash Script PubKey Double}
variable {hashes : Pool → Finset Hash} {txSize : Transaction Hash Script → Int}

/-- The loop has added this transaction again and again to the pool that it began with. -/
structure Refilled (lib : MemPoolLib Pool Entry Hash Script PubKey Double)
    (hashes : Pool → Finset Hash) (txSize : Transaction Hash Script → Int) (maxmempool : Int)
    (testmempool : Pool) (tx : Transaction Hash Script) (s : FillState Pool Hash) : Prop where
  stored : hashes s.pool = (s.added.map Prod.fst).toFinset
  same : ∀ call ∈ s.added, call.1 = lib.getHash tx
  total : lib.getTotalTxSize s.pool =
    lib.getTotalTxSize testmempool + txSize tx * s.added.length
  below : s.added ≠ [] → lib.getTotalTxSize s.pool < maxMempoolTimes maxmempool 1000000

def AddedDistinct (lib : MemPoolLib Pool Entry Hash Script PubKey Double)
    (s : FillState Pool Hash) : Prop :=
  (s.added.map Prod.fst).Nodup ∧ lib.size s.pool = s.added.length

variable {pubkey : PubKey} {maxmempool : Int} {prevtx : Transaction Hash Script} {fee now : Int}
variable {is : Bool} {val : Double} {testmempool : Pool} {tx : Transaction Hash Script}
variable {s t : FillState Pool Hash}

theorem loopEntry_size (keeps : lib.KeepsOne hashes txSize) :
    lib.getTxSize (loopEntry lib pubkey prevtx fee now) =
      txSize (loopTX lib pubkey prevtx fee).1 :=
  keeps.getTxSize_makeEntry _

theorem Refilled.again (laws : lib.Lawful) (keeps : lib.KeepsOne hashes txSize)
    (h : Refilled lib hashes txSize maxmempool testmempool (loopTX lib pubkey prevtx fee).1 s)
    (hbody : fillBody lib pubkey maxmempool prevtx fee is val now s = .again t) :
    Refilled lib hashes txSize maxmempool testmempool (loopTX lib pubkey prevtx fee).1 t := by
  obtain ⟨hpool, hadded, htotal, hlt⟩ := fillBody_again laws hbody
  refine ⟨?_, ?_, ?_, fun _ => hlt⟩
  · rw [hadded, hpool, keeps.addUnchecked_hashes, keeps.enableFeeCalc_hashes, h.stored]
    ext hash
    simp
  · intro call hcall
    rw [hadded, List.mem_append, List.mem_singleton] at hcall
    rcases hcall with hcall | rfl
    · exact h.same call hcall
    · rfl
  · rw [htotal, h.total, loopEntry_size keeps, hadded, List.length_append, List.length_singleton,
      Nat.cast_add, Nat.cast_one, Int.mul_add, Int.mul_one, Int.add_assoc]

theorem Refilled.distinct_iff_nodup (keeps : lib.KeepsOne hashes txSize)
    (h : Refilled lib hashes txSize maxmempool testmempool tx s) :
    AddedDistinct lib s ↔ (s.added.map Prod.fst).Nodup := by
  rw [AddedDistinct, keeps.size_eq, h.stored]
  constructor
  · exact And.left
  · intro hnodup
    rw [List.toFinset_card_of_nodup hnodup, List.length_map]
    exact ⟨hnodup, rfl⟩

theorem Refilled.nodup_iff (h : Refilled lib hashes txSize maxmempool testmempool tx s) :
    (s.added.map Prod.fst).Nodup ↔ s.added.length ≤ 1 := by
  have hsame : s.added.map Prod.fst = List.replicate s.added.length (lib.getHash tx) := by
    rw [List.eq_replicate_iff, List.length_map]
    refine ⟨rfl, ?_⟩
    intro hash hhash
    obtain ⟨call, hcall, rfl⟩ := List.mem_map.mp hhash
    exact h.same call hcall
  rw [hsame, List.nodup_replicate]

theorem Refilled.length_le_one_iff (hpos : 0 < txSize tx)
    (h : Refilled lib hashes txSize maxmempool testmempool tx s)
    (hfull : maxMempoolTimes maxmempool 1000000 ≤ lib.getTotalTxSize s.pool + txSize tx) :
    s.added.length ≤ 1 ↔
      maxMempoolTimes maxmempool 1000000 ≤
        lib.getTotalTxSize testmempool + 2 * txSize tx := by
  have htotal := h.total
  constructor
  · intro hlength
    have hmul : txSize tx * s.added.length ≤ txSize tx * 1 := by
      apply Int.mul_le_mul_of_nonneg_left _ hpos.le
      omega
    omega
  · intro hroom
    by_contra hmany
    have hmul : txSize tx * 2 ≤ txSize tx * s.added.length := by
      apply Int.mul_le_mul_of_nonneg_left _ hpos.le
      omega
    have hbelow := h.below (by
      intro hnil
      rw [hnil] at hmany
      exact hmany (Nat.zero_le 1))
    omega

theorem Refilled.ended (laws : lib.Lawful) (keeps : lib.KeepsOne hashes txSize)
    (h : Refilled lib hashes txSize maxmempool testmempool (loopTX lib pubkey prevtx fee).1 s)
    (hbody : fillBody lib pubkey maxmempool prevtx fee is val now s = .ended t) :
    AddedDistinct lib t ↔ maxMempoolTimes maxmempool 1000000 ≤
      lib.getTotalTxSize testmempool + 2 * txSize (loopTX lib pubkey prevtx fee).1 := by
  obtain ⟨hpool, hadded, hfull⟩ := fillBody_ended laws hbody
  have hpos := laws.getTxSize_pos (loopEntry lib pubkey prevtx fee now)
  rw [loopEntry_size keeps] at hpos hfull
  have hsize : lib.size t.pool = lib.size s.pool := by
    rcases hpool with hpool | hpool
    · rw [hpool]
    · rw [hpool, keeps.size_eq, keeps.size_eq, keeps.enableFeeCalc_hashes]
  have hsame : AddedDistinct lib t ↔ AddedDistinct lib s := by
    rw [AddedDistinct, AddedDistinct, hadded, hsize]
  rw [hsame, h.distinct_iff_nodup keeps, h.nodup_iff, h.length_le_one_iff hpos hfull]

def filledTX (lib : MemPoolLib Pool Entry Hash Script PubKey Double) (pubkey : PubKey) :
    Transaction Hash Script :=
  (loopTX lib pubkey (getPrevTX lib pubkey 10000 0).2.1 10000).1

theorem addedDistinct_iff_room (laws : lib.Lawful) (keeps : lib.KeepsOne hashes txSize)
    {argv : List Str} {times : List Int} (hargs : ¬ argv.length < cmdindex + 3)
    (hempty : hashes testmempool = ∅)
    (hended : getMemPoolInfo lib pubkey maxmempool argv times testmempool = .ended s) :
    AddedDistinct lib s ↔ maxMempoolTimes maxmempool 1000000 ≤
      lib.getTotalTxSize testmempool + 2 * txSize (filledTX lib pubkey) := by
  obtain ⟨is, val, start, hpool, hadded, hloop⟩ :=
    getMemPoolInfo_loop lib pubkey maxmempool times testmempool hargs
  rw [hloop] at hended
  obtain ⟨t, hrun, rfl⟩ := Iteration.andThen_ended hended
  have hstart : Refilled lib hashes txSize maxmempool testmempool (filledTX lib pubkey) start := by
    refine ⟨?_, ?_, ?_, ?_⟩
    · rw [hpool, hadded, hempty]
      rfl
    · rw [hadded]
      exact List.forall_mem_nil _
    · rw [hpool, hadded]
      simp
    · intro hne
      exact absurd hadded hne
  have hend : AddedDistinct lib t ↔ maxMempoolTimes maxmempool 1000000 ≤
      lib.getTotalTxSize testmempool + 2 * txSize (filledTX lib pubkey) := by
    apply whileLoop_post _ _ hstart hrun
    · intro now s t hs hbody
      exact hs.again laws keeps hbody
    · intro now s t hs hbody
      exact hs.ended laws keeps hbody
  exact hend

end

/-- The transactions of a run have different hashes, and the pool an entry for each call, exactly when
the help text is printed or there is no room below the limit for two transactions. -/
theorem getMemPoolInfo_distinct_iff {Pool Entry Hash Script PubKey Double : Type} [DecidableEq Hash]
    {lib : MemPoolLib Pool Entry Hash Script PubKey Double} {hashes : Pool → Finset Hash}
    {txSize : Transaction Hash Script → Int} (laws : lib.Lawful)
    (keeps : lib.KeepsOne hashes txSize) (pubkey : PubKey) (maxmempool : Int) (argv : List Str)
    (testmempool : Pool) (hempty : hashes testmempool = ∅) (times : List Int)
    (s : FillState Pool Hash)
    (hended : getMemPoolInfo lib pubkey maxmempool argv times testmempool = .ended s) :
    AddedDistinct lib s ↔ argv.length < cmdindex + 3 ∨
      maxMempoolTimes maxmempool 1000000 ≤
        lib.getTotalTxSize testmempool + 2 * txSize (filledTX lib pubkey) := by
  by_cases hargs : argv.length < cmdindex + 3
  · rw [getMemPoolInfo_help hargs] at hended
    cases hended
    refine iff_of_true ⟨List.nodup_nil, ?_⟩ (Or.inl hargs)
    rw [keeps.size_eq, hempty]
    rfl
  · rw [addedDistinct_iff_room laws keeps hargs hempty hended]
    exact (or_iff_right hargs).symm

/-- A limit of `0` leaves no room. -/
theorem getMemPoolInfo_distinct_iff_sample :
    ∃ times s, getMemPoolInfo samplePoolLib 7 0 fillArguments times emptyPool = .ended s ∧
      AddedDistinct samplePoolLib s := by
  obtain ⟨s, hended⟩ := getMemPoolInfo_ends samplePoolLib_lawful 7 0 fillArguments [0] emptyPool
    (by decide)
  refine ⟨[0], s, hended, ?_⟩
  rw [getMemPoolInfo_distinct_iff samplePoolLib_lawful samplePoolLib_keepsOne 7 0 fillArguments
    emptyPool rfl [0] s hended]
  exact Or.inr (by decide)

/-- A megabyte has room for many transactions of 85 bytes, which all have one hash. -/
theorem getMemPoolInfo_repeats :
    ¬ ∀ (times : List Int) (s : FillState SamplePool Nat),
      getMemPoolInfo samplePoolLib 7 1 fillArguments times emptyPool = .ended s →
        AddedDistinct samplePoolLib s := by
  intro h
  obtain ⟨s, hended⟩ := getMemPoolInfo_ends samplePoolLib_lawful 7 1 fillArguments
    (List.replicate 1000001 0) emptyPool (by rw [List.length_replicate]; decide)
  have hdistinct := h _ s hended
  rw [addedDistinct_iff_room samplePoolLib_lawful samplePoolLib_keepsOne (by decide) rfl hended]
    at hdistinct
  exact absurd hdistinct (by decide)

end CoinTool
