import Mathlib.Data.Finset.Card
import Mathlib.Data.Nat.Digits.Defs
import Mathlib.Logic.Equiv.List
import CoinTool.Framework.TextCodec
import CoinTool.Framework.WhileLoop
import CoinTool.Common.Utils.Text

/-!
# `getmempoolinfo`

The command fills a memory pool with transactions that spend one transaction of its own making, until
the pool is as large as `-maxmempool` allows.
-/

namespace CoinTool

open Framework

structure OutPoint (Hash : Type) where
  hash : Hash
  n : Nat

structure TxIn (Hash Script : Type) where
  prevout : OutPoint Hash
  scriptSig : Script
  nSequence : Nat

structure TxOut (Script : Type) where
  nValue : Int
  scriptPubKey : Script

structure Transaction (Hash Script : Type) where
  nVersion : Int
  nLockTime : Nat
  vin : List (TxIn Hash Script)
  vout : List (TxOut Script)

structure EntryArgs (Hash Script Double : Type) where
  tx : Transaction Hash Script
  nFee : Int
  nTime : Int
  dPriority : Double
  nHeight : Int
  poolHasNoInputsOf : Bool
  inChainInputValue : Int
  spendsCoinbase : Bool
  nSigOps : Nat

/-- What the command takes from the chain's library.  Sizes are exact integers. -/
structure MemPoolLib (Pool Entry Hash Script PubKey Double : Type) where
  COIN : Int
  CURRENT_VERSION : Int
  nullHash : Hash
  emptyScript : Script
  /-- A default `CTransaction`. -/
  emptyTx : Transaction Hash Script
  getSigOpCount : Script → Nat
  /-- The script that pays the address of a key. -/
  getScriptForDestination : PubKey → Script
  encodeHexTx : Transaction Hash Script → Str
  decodeHexTx : Str → Option (Transaction Hash Script)
  getHash : Transaction Hash Script → Hash
  computePriority : Transaction Hash Script → Double
  atof : Str → Double
  makeEntry : EntryArgs Hash Script Double → Entry
  getTxSize : Entry → Int
  size : Pool → Nat
  getTotalTxSize : Pool → Int
  dynamicMemoryUsage : Pool → Int
  /-- `GetMinFee(sizelimit).GetFee(nBytes)`. -/
  getMinFee : Pool → Int → Int → Int
  enableFeeCalc : Pool → Bool → Double → Pool
  /-- The insertion of an entry that has no ancestors, under a hash. -/
  addUnchecked : Pool → Hash → Entry → Pool

/-- The product of `GetArg("-maxmempool", DEFAULT_MAX_MEMPOOL_SIZE)` in 64 bits. -/
def maxMempoolTimes (maxmempool factor : Int) : Int := (maxmempool * factor).bmod (2 ^ 64)

def nSequenceOf (nLockTime : Nat) : Nat := if nLockTime ≠ 0 then 2 ^ 32 - 1 - 1 else 2 ^ 32 - 1

section

variable {Pool Entry Hash Script PubKey Double : Type}
variable (lib : MemPoolLib Pool Entry Hash Script PubKey Double) (pubkey : PubKey)
variable (maxmempool : Int)

/-- A transaction with one input and one output, which pays the global key, and the signature
operations added to `nSigOps`: what `GetPrevTX` and `NewTX` build alike. -/
def buildTX (nLockTime : Nat) (prevout : OutPoint Hash) (fee : Int) (nSigOps : Nat) :
    Transaction Hash Script × Nat :=
  let txin : TxIn Hash Script := ⟨prevout, lib.emptyScript, nSequenceOf nLockTime⟩
  let nSigOps := (nSigOps + lib.getSigOpCount txin.scriptSig) % 2 ^ 32
  let out : TxOut Script := ⟨1000 * lib.COIN + fee, lib.getScriptForDestination pubkey⟩
  let nSigOps := (nSigOps + lib.getSigOpCount out.scriptPubKey) % 2 ^ 32
  (⟨lib.CURRENT_VERSION, nLockTime, [txin], [out]⟩, nSigOps)

/-- `tx` keeps its default when the decoding fails. -/
def getPrevTX (fee : Int) (nSigOps : Nat) : List Str × Transaction Hash Script × Nat :=
  let (rawTx, nSigOps) := buildTX lib pubkey 100 ⟨lib.nullHash, 0⟩ fee nSigOps
  match lib.decodeHexTx (lib.encodeHexTx rawTx) with
  | none => (["TX decode failed\n".toList], lib.emptyTx, nSigOps)
  | some tx => ([], tx, nSigOps)

def newTX (prevtx : Transaction Hash Script) (nSigOps : Nat) (fee : Int) :
    List Str × Option (Transaction Hash Script × Nat) :=
  let (rawTx, nSigOps) := buildTX lib pubkey 1000 ⟨lib.getHash prevtx, 0⟩ fee nSigOps
  match lib.decodeHexTx (lib.encodeHexTx rawTx) with
  | none => (["TX decode failed\n".toList], none)
  | some newtx => ([], some (newtx, nSigOps))

def outputInfo (pool : Pool) : List Str :=
  let limit := maxMempoolTimes maxmempool 1000000
  ["Test MemPool :\n".toList ++
    "size : ".toList ++ decimal (lib.size pool) ++
    ", bytes : ".toList ++ decimal (lib.getTotalTxSize pool) ++
    ", usage : ".toList ++ decimal (lib.dynamicMemoryUsage pool) ++
    ", Max size : ".toList ++ decimal limit ++ "\n".toList ++
    "1 byte minifee : ".toList ++ decimal (lib.getMinFee pool limit 1) ++
    ", 1000 minifee : ".toList ++ decimal (lib.getMinFee pool limit 1000) ++
    ", 10000 minifee : ".toList ++ decimal (lib.getMinFee pool limit 10000) ++ "\n\n".toList]

def isFull (pool : Pool) : Bool :=
  lib.getTotalTxSize pool ≥ maxMempoolTimes maxmempool 1000000

/-- `added` records the calls of `addUnchecked`: the hash that was passed and the total size after
the call. -/
structure FillState (Pool Hash : Type) where
  pool : Pool
  size : Int
  printed : List Str
  added : List (Hash × Int)

/-- An iteration of `while (!IsFull())`, with what `GetTime` returns in it. -/
def fillBody (prevtx : Transaction Hash Script) (fee : Int) (is : Bool) (val : Double) (now : Int)
    (s : FillState Pool Hash) : Iteration (FillState Pool Hash) :=
  if isFull lib maxmempool s.pool then .ended s
  else
    match newTX lib pubkey prevtx 0 fee with
    | (printed, none) => .again { s with printed := s.printed ++ printed }
    | (printed, some (tx, nSigOps)) =>
        let pool := lib.enableFeeCalc s.pool is val
        let entry := lib.makeEntry
          ⟨tx, fee, now, lib.computePriority tx, 100000, false, 1000 * lib.COIN + fee, false, nSigOps⟩
        let size := s.size + lib.getTxSize entry
        let printed := s.printed ++ printed
        if lib.getTxSize entry + lib.getTotalTxSize pool ≥ maxMempoolTimes maxmempool 1000000 then
          .ended ⟨pool, size, printed ++ ["MemPool is Full\n".toList], s.added⟩
        else
          let (size, printed) :=
            if size > maxMempoolTimes maxmempool 100000 then
              (0, printed ++ outputInfo lib maxmempool pool)
            else (size, printed)
          let pool := lib.addUnchecked pool (lib.getHash tx) entry
          .again ⟨pool, size, printed, s.added ++ [(lib.getHash tx, lib.getTotalTxSize pool)]⟩

/-- The command with the times that its loop reads; `pubkey` is the key that `GetPrevTX` draws. -/
def getMemPoolInfo (argv : List Str) (times : List Int) (testmempool : Pool) :
    Iteration (FillState Pool Hash) :=
  if argv.length < cmdindex + 3 then
    .ended ⟨testmempool, 0, ["Example: getmempoolinfo 0.0 true\n".toList], []⟩
  else
    let fee := 10000
    let (printed, prevtx, _) := getPrevTX lib pubkey fee 0
    let val := lib.atof (argv.getD (cmdindex + 1) [])
    let is := atoi (argv.getD (cmdindex + 2) []) == 1
    (whileLoop (fillBody lib pubkey maxmempool prevtx fee is val) times
      ⟨testmempool, 0, outputInfo lib maxmempool testmempool ++ printed, []⟩).andThen
        fun s => { s with printed := s.printed ++ outputInfo lib maxmempool s.pool }

/-- What is assumed of the library: decoding undoes encoding, an entry has a size, and the total
grows by it with every insertion, also under a hash that the pool has already. -/
structure MemPoolLib.Lawful : Prop where
  decodeHexTx_encodeHexTx : ∀ tx, lib.decodeHexTx (lib.encodeHexTx tx) = some tx
  getTxSize_pos : ∀ entry, 0 < lib.getTxSize entry
  enableFeeCalc_total : ∀ pool is val,
    lib.getTotalTxSize (lib.enableFeeCalc pool is val) = lib.getTotalTxSize pool
  addUnchecked_total : ∀ pool hash entry,
    lib.getTotalTxSize (lib.addUnchecked pool hash entry) =
      lib.getTotalTxSize pool + lib.getTxSize entry

/-- A pool keeps one entry for each hash; `hashes` are those it has entries for, and an entry is as
large as its transaction. -/
structure MemPoolLib.KeepsOne [DecidableEq Hash] (hashes : Pool → Finset Hash)
    (txSize : Transaction Hash Script → Int) : Prop where
  size_eq : ∀ pool, lib.size pool = (hashes pool).card
  enableFeeCalc_hashes : ∀ pool is val, hashes (lib.enableFeeCalc pool is val) = hashes pool
  addUnchecked_hashes : ∀ pool hash entry,
    hashes (lib.addUnchecked pool hash entry) = insert hash (hashes pool)
  getTxSize_makeEntry : ∀ args, lib.getTxSize (lib.makeEntry args) = txSize args.tx

end

section

variable {Hash Script : Type} [Encodable Hash] [Encodable Script]

instance : Encodable (TxIn Hash Script) :=
  .ofLeftInverse (fun txin => (txin.prevout.hash, txin.prevout.n, txin.scriptSig, txin.nSequence))
    (fun fields => ⟨⟨fields.1, fields.2.1⟩, fields.2.2.1, fields.2.2.2⟩) fun _ => rfl

instance : Encodable (TxOut Script) :=
  .ofLeftInverse (fun out => (out.nValue, out.scriptPubKey)) (fun fields => ⟨fields.1, fields.2⟩)
    fun _ => rfl

instance : Encodable (Transaction Hash Script) :=
  .ofLeftInverse (fun tx => (tx.nVersion, tx.nLockTime, tx.vin, tx.vout))
    (fun fields => ⟨fields.1, fields.2.1, fields.2.2.1, fields.2.2.2⟩) fun _ => rfl

end

def sampleHex (tx : Transaction Nat Nat) : Str :=
  (Nat.digits 16 (Encodable.encode tx)).map (digitChar hexDigits)

def sampleTx (str : Str) : Option (Transaction Nat Nat) :=
  Encodable.decode (Nat.ofDigits 16 (str.map (charDigit hexDigits)))

theorem sampleTx_sampleHex (tx : Transaction Nat Nat) : sampleTx (sampleHex tx) = some tx := by
  have hdigits : (sampleHex tx).map (charDigit hexDigits) = Nat.digits 16 (Encodable.encode tx) := by
    have hread : ∀ digit ∈ Nat.digits 16 (Encodable.encode tx),
        (charDigit hexDigits ∘ digitChar hexDigits) digit = id digit := by
      intro digit hdigit
      exact charDigit_digitChar (by decide) (Nat.digits_lt_base (by decide) hdigit)
    rw [sampleHex, List.map_map, List.map_congr_left hread, List.map_id]
  rw [sampleTx, hdigits, Nat.ofDigits_digits, Encodable.encodek]

def sampleTxSize (tx : Transaction Nat Nat) : Int := 10 + 41 * tx.vin.length + 34 * tx.vout.length

structure SamplePool where
  hashes : Finset Nat
  total : Int

/-- Keys are numbers, the script that pays a key is the number after it, and the hash of a
transaction is its number. -/
def samplePoolLib : MemPoolLib SamplePool (EntryArgs Nat Nat Nat) Nat Nat Nat Nat where
  COIN := 100000000
  CURRENT_VERSION := 1
  nullHash := 0
  emptyScript := 0
  emptyTx := ⟨1, 0, [], []⟩
  getSigOpCount script := if script = 0 then 0 else 1
  getScriptForDestination pubkey := pubkey + 1
  encodeHexTx := sampleHex
  decodeHexTx := sampleTx
  getHash := Encodable.encode
  computePriority _ := 0
  atof str := (strtol str).toNat
  makeEntry args := args
  getTxSize args := sampleTxSize args.tx
  size pool := pool.hashes.card
  getTotalTxSize pool := pool.total
  dynamicMemoryUsage pool := pool.total
  getMinFee _ _ nBytes := 10 * nBytes
  enableFeeCalc pool _ _ := pool
  addUnchecked pool hash args := ⟨insert hash pool.hashes, pool.total + sampleTxSize args.tx⟩

theorem samplePoolLib_lawful : samplePoolLib.Lawful where
  decodeHexTx_encodeHexTx := sampleTx_sampleHex
  getTxSize_pos args := by
    show 0 < sampleTxSize args.tx
    rw [sampleTxSize]
    omega
  enableFeeCalc_total _ _ _ := rfl
  addUnchecked_total _ _ _ := rfl

theorem samplePoolLib_keepsOne : samplePoolLib.KeepsOne SamplePool.hashes sampleTxSize where
  size_eq _ := rfl
  enableFeeCalc_hashes _ _ _ := rfl
  addUnchecked_hashes _ _ _ := rfl
  getTxSize_makeEntry _ := rfl

def emptyPool : SamplePool := ⟨∅, 0⟩

def fillArguments : List Str :=
  ["cointool".toList, "getmempoolinfo".toList, "0.0".toList, "true".toList]

end CoinTool
