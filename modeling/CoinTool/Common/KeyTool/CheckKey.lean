import CoinTool.Framework.Sieve
import CoinTool.Common.KeyTool.Pairing
import CoinTool.Common.Utils.Config

/-!
# `checkkey`

The public keys of a file are sorted under the private keys they pair with.  A public key that is
shown under a private key is erased from the list that the later private keys go through.
-/

namespace CoinTool

open Framework

/-- What a block shows between its braces: what `IsPairOfKey` prints, and the paired keys. -/
inductive BlockLine (PubKey : Type) where
  | note (text : Str)
  | publickey (pubkey : PubKey)

structure PairLoop (PubKey : Type) where
  vPublic : List PubKey
  bIsPair : Bool
  lines : List (BlockLine PubKey)

/-- What is printed for one private key; `fallback` is the key of a `get publickey` line. -/
structure KeyBlock (Key PubKey : Type) where
  secret : Key
  lines : List (BlockLine PubKey)
  bIsPair : Bool
  fallback : Option PubKey

structure KeyReport (Key PubKey : Type) where
  blocks : List (KeyBlock Key PubKey)
  vPublic : List PubKey

variable {Secret Key PubKey Hash KeyID : Type}

/-- `iter` is the offset of the iterator; erasing leaves it at the element behind. -/
def pairLoop (pair : PubKey → List Str × Bool) (st : PairLoop PubKey) (iter : Nat) :
    PairLoop PubKey :=
  if h : iter < st.vPublic.length then
    let pubkey := st.vPublic[iter]
    let lines := st.lines ++ (pair pubkey).1.map .note
    if (pair pubkey).2 then
      pairLoop pair ⟨st.vPublic.eraseIdx iter, true, lines ++ [.publickey pubkey]⟩ iter
    else pairLoop pair { st with lines } (iter + 1)
  else st
termination_by st.vPublic.length - iter
decreasing_by
  · rw [List.length_eraseIdx_of_lt h]
    omega
  · exact Nat.sub_succ_lt_self _ _ h

/-- A key that `GetKeysFromSecret` has accepted, so that `GetPubKey` does not fail on it. -/
abbrev DecodedKey (lib : KeyLib Secret Key PubKey Hash KeyID) : Type :=
  { sk : Key // (lib.getPubKey sk).isSome }

section

variable (lib : KeyLib Secret Key PubKey Hash KeyID)

def secretStep (pair : Key → PubKey → Str → List Str × Bool) (msg : Str)
    (r : KeyReport Key PubKey) (secret : DecodedKey lib) : KeyReport Key PubKey :=
  let st := pairLoop (fun pubkey => pair secret.1 pubkey msg) ⟨r.vPublic, false, []⟩ 0
  let retPub := (lib.getPubKey secret.1).get secret.2
  { blocks := r.blocks ++
      [⟨secret.1, st.lines, st.bIsPair, if st.bIsPair then none else some retPub⟩]
    vPublic := st.vPublic }

def secretLoop (pair : Key → PubKey → Str → List Str × Bool) (msg : Str)
    (vSecret : List (DecodedKey lib)) (vPublic : List PubKey) : KeyReport Key PubKey :=
  vSecret.foldl (secretStep lib pair msg) ⟨[], vPublic⟩

/-- `address` is the text of a `CBitcoinAddress`. -/
def publicKeyLine (address : KeyID → Str) (start middle finish : Str) (pubkey : PubKey) : Str :=
  start ++ lib.hexStr (lib.pubKeyBytes pubkey) ++ middle ++ address (lib.getID pubkey) ++ finish

def BlockLine.print (address : KeyID → Str) : BlockLine PubKey → Str
  | .note text => text
  | .publickey pubkey =>
      publicKeyLine lib address "    publickey <".toList "> address ".toList "\n".toList pubkey

def KeyBlock.print (address : KeyID → Str) (block : KeyBlock Key PubKey) : List Str :=
  ["private key <".toList ++ lib.secretToString block.secret ++ ">\n\x7b\n".toList] ++
    block.lines.map (BlockLine.print lib address) ++ ["\x7d\n".toList] ++
    block.fallback.toList.map
      (publicKeyLine lib address "get publickey <".toList "> address ".toList "\n\n".toList)

def KeyReport.print (address : KeyID → Str) (r : KeyReport Key PubKey) : List Str :=
  r.blocks.flatMap (KeyBlock.print lib address) ++
    if r.vPublic.length ≠ 0 then
      "\nGet address from pubkey:\n".toList :: r.vPublic.map
        (publicKeyLine lib address "publickey <".toList "> get address ".toList "\n".toList)
    else []

/-- The loop over the values of `-privkey`: what it prints and the keys it collects.  A failed
assertion of the library ends the program. -/
def decodeSecrets : List Str → Option (List Str × List (DecodedKey lib))
  | [] => some ([], [])
  | str :: values =>
      match h : getKeysFromSecret lib str with
      | none => none
      | some none =>
          (decodeSecrets values).map fun (printed, vSecret) => (getPubKeyFailed str ++ printed, vSecret)
      | some (some (privkey, retpubkey)) =>
          (decodeSecrets values).map fun (printed, vSecret) =>
            (printed, ⟨privkey, by rw [getKeysFromSecret_getPubKey h]; rfl⟩ :: vSecret)

def checkKey [DecidableEq KeyID] (address : KeyID → Str) (s : Settings) :
    Option (List Str × Bool) :=
  if s.mapArgs.count "-privkey".toList then
    match decodeSecrets lib (s.mapMultiArgs.lookup "-privkey".toList) with
    | none => none
    | some (printed, vSecret) =>
        if s.mapArgs.count "-pubkey".toList then
          let vPublic := (s.mapMultiArgs.lookup "-pubkey".toList).map fun str =>
            lib.cPubKey (lib.parseHex str)
          match s.mapArgs "-message".toList with
          | some msg =>
              let report := secretLoop lib (isPairOfKey lib) msg vSecret vPublic
              some (printed ++ report.print lib address, true)
          | none =>
              some (printed ++
                [showerror "File without message, add message= frist!".toList], false)
        else some (printed ++ [showerror "File without pubkey, add pubkey= frist!".toList], false)
  else some ([showerror "File without privkey, add privkey= frist!".toList], false)

end

def pairLines (pair : PubKey → List Str × Bool) (pubkey : PubKey) : List (BlockLine PubKey) :=
  (pair pubkey).1.map .note ++ if (pair pubkey).2 then [.publickey pubkey] else []

/-- The loop from an iterator behind `passed`: it takes the pairs out of the rest. -/
theorem pairLoop_eq (pair : PubKey → List Str × Bool) (passed ahead : List PubKey) (bIsPair : Bool)
    (lines : List (BlockLine PubKey)) :
    pairLoop pair ⟨passed ++ ahead, bIsPair, lines⟩ passed.length =
      ⟨passed ++ ahead.filter fun pk => !(pair pk).2,
        bIsPair || ahead.any fun pk => (pair pk).2,
        lines ++ ahead.flatMap (pairLines pair)⟩ := by
  induction ahead generalizing passed bIsPair lines with
  | nil =>
      rw [pairLoop]
      simp
  | cons pubkey ahead ih =>
      have hlt : passed.length < (passed ++ pubkey :: ahead).length := by simp
      have hget : (passed ++ pubkey :: ahead)[passed.length] = pubkey := by simp
      rw [pairLoop, dif_pos hlt]
      dsimp only
      rw [hget]
      cases hpair : (pair pubkey).2 with
      | true =>
          have herase : (passed ++ pubkey :: ahead).eraseIdx passed.length = passed ++ ahead := by
            rw [List.eraseIdx_append_of_length_le (le_refl _), Nat.sub_self, List.eraseIdx_zero,
              List.tail_cons]
          rw [if_pos rfl, herase, ih]
          simp [hpair, pairLines]
      | false =>
          have hnext : passed ++ pubkey :: ahead = (passed ++ [pubkey]) ++ ahead := by simp
          have hlen : passed.length + 1 = (passed ++ [pubkey]).length := by simp
          rw [if_neg Bool.false_ne_true, hnext, hlen, ih]
          simp [hpair, pairLines]

theorem checkKey_prints [DecidableEq KeyID] {lib : KeyLib Secret Key PubKey Hash KeyID}
    {address : KeyID → Str} {s : Settings} {lines : List Str}
    (h : checkKey lib address s = some (lines, true)) :
    ∃ printed vSecret msg,
      decodeSecrets lib (s.mapMultiArgs.lookup "-privkey".toList) = some (printed, vSecret) ∧
      s.mapArgs "-message".toList = some msg ∧
      lines = printed ++ (secretLoop lib (isPairOfKey lib) msg vSecret
        ((s.mapMultiArgs.lookup "-pubkey".toList).map fun str =>
          lib.cPubKey (lib.parseHex str))).print lib address := by
  rw [checkKey] at h
  split at h
  · split at h
    · cases h
    · rename_i printed vSecret hdecode
      split at h
      · cases hmsg : s.mapArgs "-message".toList with
        | none =>
            rw [hmsg] at h
            simp at h
        | some msg =>
            simp only [hmsg, Option.some.injEq, Prod.mk.injEq, and_true] at h
            exact ⟨printed, vSecret, msg, hdecode, rfl, h.symm⟩
      · simp at h
  · simp at h

section

variable (lib : KeyLib Secret Key PubKey Hash KeyID)
variable (pair : Key → PubKey → Str → List Str × Bool) (msg : Str)

def pairs (secret : DecodedKey lib) (pubkey : PubKey) : Bool := (pair secret.1 pubkey msg).2

/-- The public keys that none of the private keys pairs with. -/
def leftBy (secrets : List (DecodedKey lib)) (vPublic : List PubKey) : List PubKey :=
  vPublic.filter fun pk => !secrets.any fun secret => pairs lib pair msg secret pk

theorem leftBy_eq_sieveRest (secrets : List (DecodedKey lib)) (vPublic : List PubKey) :
    leftBy lib pair msg secrets vPublic =
      sieveRest (secrets.map (pairs lib pair msg)) vPublic := by
  simp [leftBy, sieveRest, List.any_map, Function.comp_def]

def keyBlock (secret : DecodedKey lib) (vPublic : List PubKey) : KeyBlock Key PubKey where
  secret := secret.1
  lines := vPublic.flatMap (pairLines fun pubkey => pair secret.1 pubkey msg)
  bIsPair := vPublic.any (pairs lib pair msg secret)
  fallback := if vPublic.any (pairs lib pair msg secret) then none else lib.getPubKey secret.1

theorem secretStep_eq (r : KeyReport Key PubKey) (secret : DecodedKey lib) :
    secretStep lib pair msg r secret =
      ⟨r.blocks ++ [keyBlock lib pair msg secret r.vPublic],
        r.vPublic.filter fun pk => !pairs lib pair msg secret pk⟩ := by
  have hloop := pairLoop_eq (fun pubkey => pair secret.1 pubkey msg) [] r.vPublic false []
  simp only [List.nil_append, List.length_nil, Bool.false_or] at hloop
  rw [secretStep, hloop, keyBlock]
  simp only [Option.some_get]
  rfl

/-- The loop from any report, by induction on the private keys with the list generalised. -/
theorem secretLoop_eq (vSecret : List (DecodedKey lib)) (r : KeyReport Key PubKey) :
    vSecret.foldl (secretStep lib pair msg) r =
      ⟨r.blocks ++ vSecret.zipIdx.map fun p =>
          keyBlock lib pair msg p.1 (leftBy lib pair msg (vSecret.take p.2) r.vPublic),
        leftBy lib pair msg vSecret r.vPublic⟩ := by
  induction vSecret generalizing r with
  | nil => simp [leftBy_eq_sieveRest, sieveRest_nil]
  | cons secret vSecret ih =>
      rw [List.foldl_cons, ih, secretStep_eq, List.zipIdx_cons, List.zipIdx_succ]
      simp [leftBy_eq_sieveRest, sieveRest_cons, sieveRest_nil, Function.comp_def]

theorem secretLoop_block (vSecret : List (DecodedKey lib)) (vPublic : List PubKey) (i : Nat)
    (hi : i < vSecret.length) :
    (secretLoop lib pair msg vSecret vPublic).blocks[i]? = some
      (keyBlock lib pair msg vSecret[i] (leftBy lib pair msg (vSecret.take i) vPublic)) := by
  rw [secretLoop, secretLoop_eq]
  simp [hi]

theorem keyBlock_unpaired_iff (earlier : List (DecodedKey lib)) (secret : DecodedKey lib)
    (vPublic : List PubKey) :
    (keyBlock lib pair msg secret (leftBy lib pair msg earlier vPublic)).bIsPair = false ↔
      ∀ pk ∈ vPublic, pairs lib pair msg secret pk = true →
        ∃ before ∈ earlier, pairs lib pair msg before pk = true := by
  rw [keyBlock, List.any_eq_false]
  constructor
  · intro hnone pk hpk hpairs
    by_contra hno
    refine hnone pk (List.mem_filter.mpr ⟨hpk, ?_⟩) hpairs
    simpa using hno
  · intro hall pk hpk hpairs
    obtain ⟨hpk, hleft⟩ := List.mem_filter.mp hpk
    obtain ⟨before, hbefore, hearlier⟩ := hall pk hpk hpairs
    have hany : (earlier.any fun secret => pairs lib pair msg secret pk) = true :=
      List.any_eq_true.mpr ⟨before, hbefore, hearlier⟩
    rw [hany] at hleft
    cases hleft

theorem pairLines_print (address : KeyID → Str) (secret : DecodedKey lib) (pk : PubKey) :
    (pairLines (fun pubkey => pair secret.1 pubkey msg) pk).map (BlockLine.print lib address) =
      (pair secret.1 pk msg).1 ++
        if pairs lib pair msg secret pk then
          ["    publickey <".toList ++ lib.hexStr (lib.pubKeyBytes pk) ++ "> address ".toList ++
            address (lib.getID pk) ++ "\n".toList]
        else [] := by
  rw [pairLines, List.map_append, List.map_map]
  congr 1
  · simp [Function.comp_def, BlockLine.print]
  · rw [pairs]
    cases (pair secret.1 pk msg).2 with
    | false => rfl
    | true => rfl

/-- The lines that `CheckKey` prints: `left i` are the public keys that pair with none of the first
`i` private keys.  The block of a private key goes through what the earlier ones have left and shows
the keys that it pairs with, and the end of the report shows what all of them leave.  Every
occurrence is in one of these lists. -/
theorem checkKey_shows_once [DecidableEq KeyID] (address : KeyID → Str)
    (vSecret : List (DecodedKey lib)) (vPublic : List PubKey) :
    let left := fun i : Nat => leftBy lib pair msg (vSecret.take i) vPublic
    let hex := fun pk => lib.hexStr (lib.pubKeyBytes pk)
    let addr := fun pk => address (lib.getID pk)
    ((secretLoop lib pair msg vSecret vPublic).print lib address =
      (vSecret.zipIdx.flatMap fun p =>
        ["private key <".toList ++ lib.secretToString p.1.1 ++ ">\n\x7b\n".toList] ++
        ((left p.2).flatMap fun pk => (pair p.1.1 pk msg).1 ++
          if pairs lib pair msg p.1 pk then
            ["    publickey <".toList ++ hex pk ++ "> address ".toList ++ addr pk ++ "\n".toList]
          else []) ++
        ["\x7d\n".toList] ++
        if (left p.2).any (pairs lib pair msg p.1) then []
        else (lib.getPubKey p.1.1).toList.map fun retPub =>
          "get publickey <".toList ++ hex retPub ++ "> address ".toList ++ addr retPub ++
            "\n\n".toList) ++
      if left vSecret.length = [] then []
      else "\nGet address from pubkey:\n".toList :: (left vSecret.length).map fun pk =>
        "publickey <".toList ++ hex pk ++ "> get address ".toList ++ addr pk ++ "\n".toList) ∧
    ((vSecret.zipIdx.flatMap fun p => (left p.2).filter (pairs lib pair msg p.1)) ++
      left vSecret.length).Perm vPublic ∧
    ∀ (s : Settings) (lines : List Str), checkKey lib address s = some (lines, true) →
      ∃ printed vSecret msg,
        decodeSecrets lib (s.mapMultiArgs.lookup "-privkey".toList) = some (printed, vSecret) ∧
        s.mapArgs "-message".toList = some msg ∧
        lines = printed ++ (secretLoop lib (isPairOfKey lib) msg vSecret
          ((s.mapMultiArgs.lookup "-pubkey".toList).map fun str =>
            lib.cPubKey (lib.parseHex str))).print lib address := by
  intro left hex addr
  have hrest : left vSecret.length = leftBy lib pair msg vSecret vPublic := by
    simp only [left, List.take_length]
  refine ⟨?_, ?_, fun s lines => checkKey_prints⟩
  · rw [secretLoop, secretLoop_eq, KeyReport.print, List.nil_append, List.flatMap_map]
    congr 1
    · apply List.flatMap_congr
      intro p _
      rw [KeyBlock.print, keyBlock]
      dsimp only
      rw [List.map_flatMap]
      simp only [pairLines_print]
      congr 1
      cases (leftBy lib pair msg (vSecret.take p.2) vPublic).any (pairs lib pair msg p.1) with
      | true => rfl
      | false => rfl
    · rw [hrest]
      by_cases hnil : leftBy lib pair msg vSecret vPublic = []
      · simp [hnil]
      · rw [if_neg hnil, if_pos (by simpa using hnil)]
        rfl
  · have hperm := sieve_perm (vSecret.map (pairs lib pair msg)) vPublic
    rw [sieve_eq, ← leftBy_eq_sieveRest, ← hrest, List.zipIdx_map, List.map_map] at hperm
    simpa [List.flatMap_def, left, leftBy_eq_sieveRest, Function.comp_def] using hperm

/-- A private key is left unpaired exactly when every public key that pairs with it also pairs with
an earlier private key, and then its own public key is printed behind the block. -/
theorem checkKey_unpaired_iff (vSecret : List (DecodedKey lib)) (vPublic : List PubKey) (i : Nat)
    (hi : i < vSecret.length) :
    ∃ block, (secretLoop lib pair msg vSecret vPublic).blocks[i]? = some block ∧
      (block.bIsPair = false ↔ ∀ pk ∈ vPublic, pairs lib pair msg vSecret[i] pk = true →
        ∃ earlier ∈ vSecret.take i, pairs lib pair msg earlier pk = true) ∧
      (block.fallback.isSome = true ↔ block.bIsPair = false) ∧
      ∃ retPub, lib.getPubKey vSecret[i].1 = some retPub ∧ ∀ address : KeyID → Str,
        block.print lib address =
          ["private key <".toList ++ lib.secretToString vSecret[i].1 ++ ">\n\x7b\n".toList] ++
          block.lines.map (BlockLine.print lib address) ++ ["\x7d\n".toList] ++
          if block.bIsPair = false then
            ["get publickey <".toList ++ lib.hexStr (lib.pubKeyBytes retPub) ++
              "> address ".toList ++ address (lib.getID retPub) ++ "\n\n".toList]
          else [] := by
  obtain ⟨retPub, hretPub⟩ := Option.isSome_iff_exists.mp vSecret[i].2
  refine ⟨_, secretLoop_block lib pair msg vSecret vPublic i hi,
    keyBlock_unpaired_iff lib pair msg _ _ _, ?_, retPub, hretPub, ?_⟩
  · rw [keyBlock, hretPub]
    cases (leftBy lib pair msg (vSecret.take i) vPublic).any (pairs lib pair msg vSecret[i]) with
    | false => simp
    | true => simp
  · intro address
    rw [KeyBlock.print, keyBlock, hretPub]
    cases (leftBy lib pair msg (vSecret.take i) vPublic).any (pairs lib pair msg vSecret[i]) with
    | false => rfl
    | true => rfl

end

def sampleSecret : DecodedKey sampleLib := ⟨(5, true), rfl⟩

theorem sampleSecret_pairs : pairs sampleLib (isPairOfKey sampleLib) [] sampleSecret [2, 5] = true :=
  (isPairOfKey_iff_bytes sampleLib_pairLaws (5, true) [2, 5] []).mpr (by decide)

def checkKeySettings : Settings :=
  [("privkey".toList, "0501".toList), ("privkey".toList, "0501".toList),
    ("pubkey".toList, "0207".toList), ("pubkey".toList, "0205".toList),
    ("pubkey".toList, "0205".toList), ("message".toList, [])].foldl loadEntry Settings.empty

theorem checkKey_shows_once_sample :
    ∃ lines, checkKey sampleLib hexEncode checkKeySettings = some (lines, true) ∧
      lines = ["private key <0501>\n\x7b\n".toList,
        "    publickey <0205> address 0205\n".toList, "    publickey <0205> address 0205\n".toList,
        "\x7d\n".toList, "private key <0501>\n\x7b\n".toList, "\x7d\n".toList,
        "get publickey <0205> address 0205\n\n".toList, "\nGet address from pubkey:\n".toList,
        "publickey <0207> get address 0207\n".toList] := by
  have hdecode : decodeSecrets sampleLib ["0501".toList, "0501".toList] =
      some ([], [sampleSecret, sampleSecret]) := rfl
  have hdone : ∃ lines, checkKey sampleLib hexEncode checkKeySettings = some (lines, true) :=
    ⟨_, rfl⟩
  obtain ⟨lines, hlines⟩ := hdone
  obtain ⟨hprint, -, hrun⟩ := checkKey_shows_once sampleLib (isPairOfKey sampleLib) [] hexEncode
    [sampleSecret, sampleSecret] [[2, 7], [2, 5], [2, 5]]
  obtain ⟨printed, vSecret, msg, hsecrets, hmsg, htext⟩ := hrun checkKeySettings lines hlines
  obtain ⟨rfl, rfl⟩ : printed = [] ∧ vSecret = [sampleSecret, sampleSecret] := by
    have h := hsecrets.symm.trans hdecode
    simpa using h
  obtain rfl : msg = [] := Option.some.inj (hmsg.symm.trans rfl)
  refine ⟨lines, hlines, htext.trans (hprint.trans ?_)⟩
  decide +kernel

theorem checkKey_unpaired_iff_sample :
    ∃ block, (secretLoop sampleLib (isPairOfKey sampleLib) [] [sampleSecret, sampleSecret]
        [[2, 5]]).blocks[1]? = some block ∧ block.bIsPair = false := by
  obtain ⟨block, hblock, hunpaired, -⟩ := checkKey_unpaired_iff sampleLib (isPairOfKey sampleLib) []
    [sampleSecret, sampleSecret] [[2, 5]] 1 (by decide)
  refine ⟨block, hblock, hunpaired.mpr ?_⟩
  intro pk _ hpairs
  exact ⟨sampleSecret, List.mem_cons_self, hpairs⟩

theorem checkKey_unpaired_pairs :
    ¬ ∀ (pair : SampleKey → Bytes → Str → List Str × Bool) (msg : Str)
      (vSecret : List (DecodedKey sampleLib)) (vPublic : List Bytes) (i : Nat)
      (hi : i < vSecret.length), ∃ block,
        (secretLoop sampleLib pair msg vSecret vPublic).blocks[i]? = some block ∧
        (block.bIsPair = false ↔
          ∀ pk ∈ vPublic, ¬pairs sampleLib pair msg vSecret[i] pk = true) := by
  intro h
  obtain ⟨block, hblock, hall⟩ := h (isPairOfKey sampleLib) [] [sampleSecret, sampleSecret]
    [[2, 5]] 1 (by decide)
  have hsecond := hblock.symm.trans (secretLoop_block sampleLib (isPairOfKey sampleLib) []
    [sampleSecret, sampleSecret] [[2, 5]] 1 (by decide))
  have hunpaired : block.bIsPair = false := by
    rw [Option.some.inj hsecond, keyBlock_unpaired_iff]
    intro pk _ hpairs
    exact ⟨sampleSecret, List.mem_cons_self, hpairs⟩
  exact hall.mp hunpaired [2, 5] List.mem_cons_self sampleSecret_pairs

end CoinTool
