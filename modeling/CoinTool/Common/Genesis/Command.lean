import Mathlib.Data.List.Infix
import CoinTool.Common.KeyTool.Library
import CoinTool.Common.Genesis.Prints

/-!
# The command that looks for genesis blocks

`GenesisLookFor` makes the block of a stamp and a time, and searches for its nonce with the proof of
work of the chain; on the main network it then searches for that of the regression test.
-/

namespace CoinTool

open Framework

inductive NetworkID where
  | main
  | testnet
  | regtest
  deriving DecidableEq, Repr

inductive ScriptItem where
  | int (n : Int)
  | num (n : Int)
  | data (bytes : Bytes)
  | op (code : Nat)
  deriving DecidableEq, Repr

abbrev CScript := List ScriptItem

/-- `CMutableTransaction` with its one input and its one output. -/
structure MutableTransaction where
  nVersion : Int
  scriptSig : CScript
  nValue : Int
  scriptPubKey : CScript
  deriving DecidableEq, Repr

structure GenesisChain where
  network : NetworkID
  powLimit : BitVec 256
  genesisReward : Int
  coin : Int
  getCompact : BitVec 256 → BitVec 32
  setCompact : BitVec 32 → BitVec 256
  getHash : Header → BitVec 256
  blockMerkleRoot : MutableTransaction → BitVec 256
  parseHex : Str → Bytes
  getNumCores : Nat

def unsignedChars (str : Str) : Bytes := str.map fun ch => UInt8.ofNat ch.toNat

def createGenesisBlock (c : GenesisChain) (pszTimestamp : Str) (genesisOutputScript : CScript)
    (nTime : BitVec 32) (nNonce : BitVec 256) (nBits nVersion : BitVec 32) (genesisReward : Int) :
    Header :=
  let txNew : MutableTransaction :=
    { nVersion := 1
      scriptSig := [.int 486604799, .num 4, .data (unsignedChars pszTimestamp)]
      nValue := genesisReward
      scriptPubKey := genesisOutputScript }
  { nVersion := nVersion
    hashPrevBlock := 0
    hashMerkleRoot := c.blockMerkleRoot txNew
    hashClaimTrie := 1
    nTime := nTime
    nBits := nBits
    nNonce := nNonce }

def GenesisChain.search (c : GenesisChain) (genesis : Header) (getRandHash : Nat → BitVec 256) :
    Search where
  header := genesis
  icpu := min c.getNumCores 100
  getRandHash := getRandHash
  getHash := c.getHash
  setCompact := c.setCompact

inductive GenesisLine where
  | help
  | pow (a nTempBit : BitVec 32)
  | hashMerkleRoot (root : BitVec 256)
  | findingGenesis (hashTarget : BitVec 256)
  | cpus (icpu : Nat)
  | found (index : Nat) (h : Header)
  | lookingForRegtest
  | createEnd
  deriving DecidableEq, Repr

/-- What the command does next. -/
inductive GenesisStep where
  | print (line : GenesisLine)
  | search (P : Search)

def mainOutputKey : Str :=
  ("041c508f27e982c369486c0f1a42779208b3f5dc96c21a2af6004cb18d1529f42182425db1e1632dc6e73ff687592e1"
    ++ "48569022cee52b4b4eb10e8bb11bd927ec0").toList

def testnetOutputKey : Str :=
  "034c73d75f59061a08032b68369e5034390abc5215b3df79be01fb4319173a88f8".toList

def GenesisChain.outputScript (c : GenesisChain) (key : Str) : CScript :=
  [.data (c.parseHex key), .op 0xac]

def GenesisChain.printedLimit (c : GenesisChain) : BitVec 256 :=
  if c.network = .main then 0x000009b173000000000000000000000000000000000000000000000000000000
  else 0x000fffffff000000000000000000000000000000000000000000000000000000

/-- The lines of `findGenesis` before its workers start, and the search. -/
def Search.steps (P : Search) : List GenesisStep :=
  [.print (.findingGenesis P.hashTarget), .print (.cpus P.icpu), .search P]

/-- The steps of `GenesisLookFor`; `draws` are the random numbers of its searches. -/
def genesisLookFor (c : GenesisChain) (draws : Nat → Nat → BitVec 256) (argv : List Str) :
    List GenesisStep :=
  if argv.length < cmdindex + 3 then [.print .help]
  else
    let pszTimestamp := argv.getD (cmdindex + 2) []
    let nTime := BitVec.ofInt 32 (atoi (argv.getD (cmdindex + 1) []))
    let nTempBit := c.getCompact c.powLimit
    let opening (genesis : Header) : List GenesisStep :=
      [.print (.pow (c.getCompact c.printedLimit) nTempBit),
        .print (.hashMerkleRoot genesis.hashMerkleRoot)] ++ (c.search genesis (draws 0)).steps
    match c.network with
    | .main =>
        let genesisOutputScript := c.outputScript mainOutputKey
        let genesis :=
          createGenesisBlock c pszTimestamp genesisOutputScript nTime 1 nTempBit 1 c.genesisReward
        let regtest :=
          createGenesisBlock c pszTimestamp genesisOutputScript nTime 1 0x200f0f0f 1 (1 * c.coin)
        opening genesis ++ [.print .lookingForRegtest] ++ (c.search regtest (draws 1)).steps ++
          [.print .createEnd]
    | .testnet =>
        let genesis := createGenesisBlock c pszTimestamp (c.outputScript testnetOutputKey) nTime 1
          nTempBit 1 (1 * c.coin)
        opening genesis ++ [.print .createEnd]
    | .regtest => []

inductive Printed : List GenesisStep → List GenesisLine → Prop
  | start (steps : List GenesisStep) : Printed steps []
  | print {line : GenesisLine} {rest : List GenesisStep} {out : List GenesisLine}
      (h : Printed rest out) : Printed (.print line :: rest) (line :: out)
  | searching {P : Search} {rest : List GenesisStep} {s : SearchState}
      (hs : (findGenesis P).Reachable s) :
      Printed (.search P :: rest) (s.printed.map fun p => .found p.1 p.2)
  | searched {P : Search} {rest : List GenesisStep} {s : SearchState} {out : List GenesisLine}
      (hs : (findGenesis P).Reachable s) (hreturned : s.main = .returned) (h : Printed rest out) :
      Printed (.search P :: rest) (s.printed.map (fun p => .found p.1 p.2) ++ out)

def GenesisStep.search? : GenesisStep → Option Search
  | .print _ => none
  | .search P => some P

def searchesOf (steps : List GenesisStep) : List Search := steps.filterMap GenesisStep.search?

@[simp] theorem searchesOf_print (line : GenesisLine) (rest : List GenesisStep) :
    searchesOf (.print line :: rest) = searchesOf rest := rfl

@[simp] theorem searchesOf_search (P : Search) (rest : List GenesisStep) :
    searchesOf (.search P :: rest) = P :: searchesOf rest := rfl

theorem searchesOf_append (first second : List GenesisStep) :
    searchesOf (first ++ second) = searchesOf first ++ searchesOf second :=
  List.filterMap_append

def GenesisLine.found? : GenesisLine → Option (Nat × Header)
  | .found index h => some (index, h)
  | _ => none

/-- What a search prints: headers that differ from the given one in nonce and time and meet its
target, of different workers. -/
structure Finds (P : Search) (found : List (Nat × Header)) : Prop where
  nodup : (found.map Prod.fst).Nodup
  worker : ∀ p ∈ found, p.1 < P.icpu
  target : ∀ p ∈ found, P.IsTarget p.2

theorem finds_printed {P : Search} {s : SearchState} (hs : (findGenesis P).Reachable s) :
    Finds P s.printed where
  nodup := (printInv_reachable hs).nodup
  worker p hp := (searchInv_reachable hs).found_lt p.1 ((printInv_reachable hs).printed p hp).1
  target := (searchInv_reachable hs).printed

/-- The headers of a run, search by search, of which only the last may be going on. -/
structure RunFinds (steps : List GenesisStep) (out : List GenesisLine)
    (finds : List (List (Nat × Header))) : Prop where
  each : List.Forall₂ Finds ((searchesOf steps).take finds.length) finds
  printed : out.filterMap GenesisLine.found? = finds.flatten
  /-- A line comes after the ends of the searches before it. -/
  line : ∀ l ∈ out, l.found? = none → ∃ before after,
    steps = before ++ .print l :: after ∧ (searchesOf before).length ≤ finds.length ∧
      ((∀ P ∈ searchesOf steps, 0 < P.icpu) →
        ∀ found ∈ finds.take (searchesOf before).length, found ≠ [])

section

variable {P : Search} {s : SearchState} {rest steps : List GenesisStep} {out : List GenesisLine}
  {finds : List (List (Nat × Header))}

theorem filterMap_found (found : List (Nat × Header)) :
    (found.map fun p => GenesisLine.found p.1 p.2).filterMap GenesisLine.found? = found := by
  rw [List.filterMap_map]
  exact List.filterMap_some

theorem found_of_mem {found : List (Nat × Header)} {l : GenesisLine}
    (hl : l ∈ found.map fun p => GenesisLine.found p.1 p.2) : l.found? ≠ none := by
  obtain ⟨p, -, rfl⟩ := List.mem_map.mp hl
  exact Option.some_ne_none _

theorem RunFinds.print (h : RunFinds rest out finds) {line : GenesisLine}
    (hline : line.found? = none) : RunFinds (.print line :: rest) (line :: out) finds where
  each := h.each
  printed := by
    rw [List.filterMap_cons_none hline]
    exact h.printed
  line l hl hnone := by
    rcases List.mem_cons.mp hl with rfl | hl
    · refine ⟨[], rest, rfl, Nat.zero_le _, ?_⟩
      intro _ found hfound
      cases hfound
    · obtain ⟨before, after, hsteps, hle, hends⟩ := h.line l hl hnone
      exact ⟨.print line :: before, after, congrArg _ hsteps, hle, hends⟩

theorem RunFinds.searching (hs : (findGenesis P).Reachable s) :
    RunFinds (.search P :: rest) (s.printed.map fun p => .found p.1 p.2) [s.printed] where
  each := List.Forall₂.cons (finds_printed hs) (by simp)
  printed := by
    rw [filterMap_found]
    simp
  line l hl hnone := absurd hnone (found_of_mem hl)

theorem RunFinds.searched (h : RunFinds rest out finds) (hs : (findGenesis P).Reachable s)
    (hreturned : s.main = .returned) :
    RunFinds (.search P :: rest) (s.printed.map (fun p => .found p.1 p.2) ++ out)
      (s.printed :: finds) where
  each := List.Forall₂.cons (finds_printed hs) h.each
  printed := by
    rw [List.filterMap_append, filterMap_found, h.printed]
    rfl
  line l hl hnone := by
    rcases List.mem_append.mp hl with hl | hl
    · exact absurd hnone (found_of_mem hl)
    · obtain ⟨before, after, hsteps, hle, hends⟩ := h.line l hl hnone
      refine ⟨.search P :: before, after, congrArg _ hsteps, Nat.succ_le_succ hle, ?_⟩
      intro hicpu found hfound
      rcases List.mem_cons.mp hfound with rfl | hfound
      · have hpos : 0 < P.icpu := hicpu P List.mem_cons_self
        exact (searchInv_reachable hs).printed_of_returned hreturned hpos
      · exact hends (fun Q hQ => hicpu Q (List.mem_cons_of_mem _ hQ)) found hfound

theorem Printed.runFinds (h : Printed steps out)
    (hlines : ∀ l, .print l ∈ steps → l.found? = none) : ∃ finds, RunFinds steps out finds := by
  induction h with
  | start steps => exact ⟨[], List.Forall₂.nil, rfl, fun l hl => by cases hl⟩
  | print h ih =>
      obtain ⟨finds, hfinds⟩ := ih fun l hl => hlines l (List.mem_cons_of_mem _ hl)
      exact ⟨finds, hfinds.print (hlines _ List.mem_cons_self)⟩
  | searching hs => exact ⟨_, RunFinds.searching hs⟩
  | searched hs hreturned h ih =>
      obtain ⟨finds, hfinds⟩ := ih fun l hl => hlines l (List.mem_cons_of_mem _ hl)
      exact ⟨_, hfinds.searched hs hreturned⟩

theorem RunFinds.after {front back : List GenesisStep} {l : GenesisLine}
    (h : RunFinds (front ++ .print l :: back) out finds) (hfresh : .print l ∉ front)
    (hnone : l.found? = none) (hl : l ∈ out)
    (hicpu : ∀ P ∈ searchesOf (front ++ .print l :: back), 0 < P.icpu) :
    (searchesOf front).length ≤ finds.length ∧
      ∀ found ∈ finds.take (searchesOf front).length, found ≠ [] := by
  obtain ⟨before, after, hsteps, hle, hends⟩ := h.line l hl hnone
  have hfront : ∃ more, before = front ++ more := by
    rcases List.append_eq_append_iff.mp hsteps with ⟨more, hbefore, -⟩ | ⟨more, hsplit, hrest⟩
    · exact ⟨more, hbefore⟩
    · cases more with
      | nil => exact ⟨[], by rw [hsplit, List.append_nil, List.append_nil]⟩
      | cons x xs =>
          rw [List.cons_append, List.cons.injEq] at hrest
          exact absurd (by rw [hsplit, hrest.1]; simp) hfresh
  obtain ⟨more, rfl⟩ := hfront
  have hlength : (searchesOf (front ++ more)).length =
      (searchesOf front).length + (searchesOf more).length := by
    rw [searchesOf_append, List.length_append]
  rw [hlength] at hle hends
  refine ⟨by omega, ?_⟩
  intro found hfound
  apply hends hicpu found
  exact List.take_subset_take_left _ (Nat.le_add_right _ _) hfound

end

def genesisBlocks (c : GenesisChain) (argv : List Str) : List Header :=
  let pszTimestamp := argv.getD (cmdindex + 2) []
  let nTime := BitVec.ofInt 32 (atoi (argv.getD (cmdindex + 1) []))
  let nTempBit := c.getCompact c.powLimit
  if argv.length < cmdindex + 3 then []
  else
    match c.network with
    | .main =>
        let script := c.outputScript mainOutputKey
        [createGenesisBlock c pszTimestamp script nTime 1 nTempBit 1 c.genesisReward,
          createGenesisBlock c pszTimestamp script nTime 1 0x200f0f0f 1 c.coin]
    | .testnet =>
        [createGenesisBlock c pszTimestamp (c.outputScript testnetOutputKey) nTime 1 nTempBit 1
          c.coin]
    | .regtest => []

/-- What may be printed of the search for a block: blocks that differ from it in nonce and time and
meet their own target, of different workers. -/
structure BlocksFound (c : GenesisChain) (genesis : Header) (found : List (Nat × Header)) : Prop where
  nodup : (found.map Prod.fst).Nodup
  worker : ∀ p ∈ found, p.1 < min c.getNumCores 100
  proof : ∀ p ∈ found, c.getHash p.2 ≤ c.setCompact p.2.nBits
  block : ∀ p ∈ found, p.2 = { genesis with nNonce := p.2.nNonce, nTime := p.2.nTime }

section

variable {c : GenesisChain} {draws : Nat → Nat → BitVec 256} {argv : List Str}

theorem Finds.blocksFound {genesis : Header} {getRandHash : Nat → BitVec 256}
    {found : List (Nat × Header)} (h : Finds (c.search genesis getRandHash) found) :
    BlocksFound c genesis found where
  nodup := h.nodup
  worker := h.worker
  proof p hp := by
    obtain ⟨hhash, hblock⟩ := h.target p hp
    have hbits : p.2.nBits = (c.search genesis getRandHash).header.nBits := by
      rw [hblock]
    rw [hbits]
    exact hhash
  block p hp := (h.target p hp).2

theorem searchesOf_genesisLookFor (c : GenesisChain) (draws : Nat → Nat → BitVec 256)
    (argv : List Str) :
    searchesOf (genesisLookFor c draws argv) =
      (genesisBlocks c argv).mapIdx fun k genesis => c.search genesis (draws k) := by
  rw [genesisLookFor, genesisBlocks]
  by_cases hargs : argv.length < cmdindex + 3
  · rw [if_pos hargs, if_pos hargs]
    rfl
  · rw [if_neg hargs, if_neg hargs]
    cases c.network with
    | main =>
        simp only [List.cons_append, List.nil_append, searchesOf_print,
          Search.steps, searchesOf_search, Int.one_mul]
        rfl
    | testnet =>
        simp only [List.cons_append, List.nil_append, searchesOf_print,
          Search.steps, searchesOf_search, Int.one_mul]
        rfl
    | regtest => rfl

theorem genesisLookFor_lines {l : GenesisLine} (hl : .print l ∈ genesisLookFor c draws argv) :
    l.found? = none := by
  rw [genesisLookFor] at hl
  by_cases hargs : argv.length < cmdindex + 3
  · rw [if_pos hargs] at hl
    cases List.mem_singleton.mp hl
    rfl
  · rw [if_neg hargs] at hl
    cases hnetwork : c.network <;> simp only [hnetwork, Search.steps, List.mem_append, List.mem_cons,
      GenesisStep.print.injEq, reduceCtorEq, List.not_mem_nil, or_false] at hl
    case main => rcases hl with ((((rfl | rfl) | rfl | rfl) | rfl) | rfl | rfl) | rfl <;> rfl
    case testnet => rcases hl with ((rfl | rfl) | rfl | rfl) | rfl <;> rfl

theorem genesisLookFor_root {root : BitVec 256}
    (hl : .print (.hashMerkleRoot root) ∈ genesisLookFor c draws argv) :
    (genesisBlocks c argv).head?.map Header.hashMerkleRoot = some root := by
  rw [genesisLookFor] at hl
  rw [genesisBlocks]
  by_cases hargs : argv.length < cmdindex + 3
  · rw [if_pos hargs] at hl
    simp at hl
  · rw [if_neg hargs] at hl ⊢
    cases hnetwork : c.network <;> simp [hnetwork, Search.steps] at hl
    · rw [hl]
      rfl
    · rw [hl]
      rfl

def PrintedAfter (steps : List GenesisStep) (l : GenesisLine) (searches : Nat) : Prop :=
  ∃ front back, steps = front ++ .print l :: back ∧ .print l ∉ front ∧
    (searchesOf front).length = searches

theorem genesisLookFor_regtest
    (h : .print .lookingForRegtest ∈ genesisLookFor c draws argv) :
    PrintedAfter (genesisLookFor c draws argv) .lookingForRegtest 1 := by
  rw [genesisLookFor] at h ⊢
  by_cases hargs : argv.length < cmdindex + 3
  · rw [if_pos hargs] at h
    simp at h
  · rw [if_neg hargs] at h ⊢
    cases hnetwork : c.network with
    | main =>
        refine ⟨_, _, List.append_assoc _ _ _ |>.trans (List.append_assoc _ _ _), ?_, rfl⟩
        simp [Search.steps]
    | testnet => simp [hnetwork, Search.steps] at h
    | regtest => simp [hnetwork] at h

theorem genesisLookFor_end (h : .print .createEnd ∈ genesisLookFor c draws argv) :
    PrintedAfter (genesisLookFor c draws argv) .createEnd (genesisBlocks c argv).length := by
  rw [genesisLookFor] at h ⊢
  rw [genesisBlocks]
  by_cases hargs : argv.length < cmdindex + 3
  · rw [if_pos hargs] at h
    simp at h
  · rw [if_neg hargs] at h ⊢
    rw [if_neg hargs]
    cases hnetwork : c.network with
    | main => exact ⟨_, [], rfl, by simp [Search.steps], rfl⟩
    | testnet => exact ⟨_, [], rfl, by simp [Search.steps], rfl⟩
    | regtest => simp [hnetwork] at h

theorem PrintedAfter.ended {l : GenesisLine} {out : List GenesisLine}
    {finds : List (List (Nat × Header))} {searches : Nat}
    (h : PrintedAfter (genesisLookFor c draws argv) l searches)
    (hfinds : RunFinds (genesisLookFor c draws argv) out finds) (hnone : l.found? = none)
    (hl : l ∈ out) (hcores : 0 < c.getNumCores) :
    searches ≤ finds.length ∧ ∀ found ∈ finds.take searches, found ≠ [] := by
  obtain ⟨front, back, hsteps, hfresh, rfl⟩ := h
  have hicpu : ∀ P ∈ searchesOf (genesisLookFor c draws argv), 0 < P.icpu := by
    intro P hP
    rw [searchesOf_genesisLookFor, List.mem_mapIdx] at hP
    obtain ⟨k, hk, rfl⟩ := hP
    exact Nat.lt_min.mpr ⟨hcores, by decide⟩
  rw [hsteps] at hfinds hicpu
  exact hfinds.after hfresh hnone hl hicpu

theorem genesisBlocks_finds {out : List GenesisLine} {finds : List (List (Nat × Header))}
    (h : RunFinds (genesisLookFor c draws argv) out finds) :
    List.Forall₂ (BlocksFound c) ((genesisBlocks c argv).take finds.length) finds := by
  have heach := h.each
  rw [searchesOf_genesisLookFor] at heach
  rw [List.forall₂_iff_get] at heach ⊢
  obtain ⟨hlength, hget⟩ := heach
  rw [List.length_take, List.length_mapIdx] at hlength
  refine ⟨by rwa [List.length_take], ?_⟩
  intro i hi hfinds
  have hfind := hget i (by simpa using hi) hfinds
  simp only [List.get_eq_getElem, List.getElem_take, List.getElem_mapIdx] at hfind ⊢
  exact hfind.blocksFound

end

/-- In every interleaving, the headers that the command prints are those of its searches in order.
Those of a search differ in nonce and time from the block made for it, meet their own target and
come from different workers; the Merkle root announced is that of the first block.  With a core at
least, the first search has printed a header before that for the regression test begins, and every
search has when the command says that it has ended. -/
theorem genesisLookFor_prints (c : GenesisChain) (draws : Nat → Nat → BitVec 256)
    (argv : List Str) (out : List GenesisLine) (hout : Printed (genesisLookFor c draws argv) out) :
    ∃ finds : List (List (Nat × Header)),
      List.Forall₂ (BlocksFound c) ((genesisBlocks c argv).take finds.length) finds ∧
      out.filterMap GenesisLine.found? = finds.flatten ∧
      (∀ root, .hashMerkleRoot root ∈ out →
        (genesisBlocks c argv).head?.map Header.hashMerkleRoot = some root) ∧
      (0 < c.getNumCores → .lookingForRegtest ∈ out →
        1 ≤ finds.length ∧ ∀ found ∈ finds.take 1, found ≠ []) ∧
      (0 < c.getNumCores → .createEnd ∈ out →
        finds.length = (genesisBlocks c argv).length ∧ ∀ found ∈ finds, found ≠ []) := by
  obtain ⟨finds, hfinds⟩ := hout.runFinds fun _ => genesisLookFor_lines
  have hsteps (l : GenesisLine) (hl : l ∈ out) (hnone : l.found? = none) :
      .print l ∈ genesisLookFor c draws argv := by
    obtain ⟨before, after, heq, -⟩ := hfinds.line l hl hnone
    rw [heq]
    simp
  refine ⟨finds, genesisBlocks_finds hfinds, hfinds.printed, ?_, ?_, ?_⟩
  · intro root hroot
    exact genesisLookFor_root (hsteps _ hroot rfl)
  · intro hcores hlooking
    have hafter := genesisLookFor_regtest (hsteps _ hlooking rfl)
    exact hafter.ended hfinds rfl hlooking hcores
  · intro hcores hend
    have hafter := genesisLookFor_end (hsteps _ hend rfl)
    obtain ⟨hle, hfound⟩ := hafter.ended hfinds rfl hend hcores
    have hlength := (genesisBlocks_finds hfinds).length_eq
    rw [List.length_take] at hlength
    have hall : finds.length = (genesisBlocks c argv).length := by omega
    refine ⟨hall, ?_⟩
    rwa [← hall, List.take_length] at hfound

def easyChain : GenesisChain where
  network := .testnet
  powLimit := 7
  genesisReward := 50
  coin := 100
  getCompact target := target.truncate 32
  setCompact nBits := nBits.zeroExtend 256
  getHash _ := 0
  blockMerkleRoot tx := BitVec.ofInt 256 tx.nValue
  parseHex _ := []
  getNumCores := 1

theorem genesisLookFor_prints_easyChain :
    ∃ out, Printed (genesisLookFor easyChain (fun _ _ => 1)
        ["coin-tool".toList, "genesis".toList, "0".toList, "stamp".toList]) out ∧
      ∃ found, BlocksFound easyChain
          (createGenesisBlock easyChain "stamp".toList (easyChain.outputScript testnetOutputKey) 0
            1 7 1 100) found ∧
        found ≠ [] ∧ out.filterMap GenesisLine.found? = found := by
  let argv : List Str := ["coin-tool".toList, "genesis".toList, "0".toList, "stamp".toList]
  let block := createGenesisBlock easyChain "stamp".toList
    (easyChain.outputScript testnetOutputKey) 0 1 7 1 100
  have hblocks : genesisBlocks easyChain argv = [block] := by decide
  let P := easyChain.search block fun _ => 1
  obtain ⟨s, hexec, hend⟩ := Machine.exec_exists (findGenesis P) (.initial P)
    [.main, .main, .worker 0 5, .worker 0 5, .worker 0 5, .worker 0 5, .worker 0 5, .worker 0 5,
      .worker 0 5, .main, .main, .main] (fun s => s.main = .returned) (by decide)
  have hreturned : s.main = .returned := of_decide_eq_true hend
  have hs := Machine.Reachable.exec (.start rfl) hexec
  have hprinted : Printed (genesisLookFor easyChain (fun _ _ => 1) argv) _ :=
    .print (.print (.print (.print (.searched hs hreturned (.print (.start []))))))
  obtain ⟨finds, heach, hfound, -, -, hall⟩ :=
    genesisLookFor_prints easyChain (fun _ _ => 1) argv _ hprinted
  obtain ⟨hlength, hne⟩ := hall (by decide) (by simp)
  rw [hlength, List.take_length, hblocks] at heach
  cases heach with
  | cons hblock hrest =>
      cases hrest
      refine ⟨_, hprinted, _, hblock, hne _ List.mem_cons_self, ?_⟩
      rw [hfound]
      simp

end CoinTool
