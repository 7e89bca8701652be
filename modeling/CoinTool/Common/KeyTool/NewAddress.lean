import CoinTool.Common.KeyTool.AddressHunt
import CoinTool.Common.KeyTool.PrivKey

/-!
# New keys in the other commands

What `newaddress` and `findaddress` print of a key is what the other commands of the tool take: the
text of the private key is read by `privkey` and the signing commands, and the text of the public
key by the verifying ones.
-/

namespace CoinTool

open Framework

section

variable {Secret Key PubKey Hash KeyID : Type}
variable (lib : KeyLib Secret Key PubKey Hash KeyID) (verifyPubKey : Key → PubKey → Bool)
variable (address : KeyID → Str)

def newAddressHelp : Str :=
  "Command \"newaddress\" example :\n\nnewaddress Ifcompressed number\n\n".toList

/-- The calls of `MakeNewKey` from the i-th on; `draws` are the keys that the library makes. -/
def newAddressLoop (draws : Nat → Bool → Key) (fCompressed : Bool) (i : Nat) :
    Nat → Option (List Output)
  | 0 => some []
  | left + 1 =>
      match makeNewKey lib verifyPubKey address (draws i) fCompressed with
      | none => none
      | some outputs =>
          (newAddressLoop draws fCompressed (i + 1) left).map (outputs ++ ·)

def newAddress (draws : Nat → Bool → Key) (argv : List Str) : Option (List Output) :=
  if argv.length < cmdindex + 3 then some [.printed newAddressHelp]
  else
    let num := atoi (argv.getD (cmdindex + 2) [])
    newAddressLoop lib verifyPubKey address draws (atob (argv.getD (cmdindex + 1) [])) 0 num.toNat

def newKeyLines (fCompressed : Bool) (privkey pubkey keyID addr : Str) : List Output :=
  [.printed ("\nprivkey : ".toList ++ privkey ++ "\n".toList),
    .printed ((if fCompressed then "compressed pubkey : ".toList
      else "uncompressed pubkey : ".toList) ++ pubkey ++ "\n".toList),
    .printed ("pubkey2 : ".toList ++ keyID ++ "\n".toList),
    .printed ("address : ".toList ++ addr ++ "\n\n".toList)]

/-- The other commands know the key of these texts: `privkey` shows the three of them, and what is
signed with the private key is accepted with the public key, for the message signed only. -/
structure Usable [DecidableEq KeyID] (privkey pubkey addr : Str) : Prop where
  shown : ∀ tool, privKey lib address [tool, "privkey".toList, privkey] =
    some [.formatted (toolLogCall
      "private key    %s\n\x7b\n\tpublic key    %s\n\taddress       %s\n\x7d\n".toList
      [privkey, pubkey, addr])]
  signed : ∀ tool m m', ∃ text,
    signMsg lib [tool, "signmsg".toList, privkey, m] = some [base64Line text] ∧
      (PrintsSuccess (signVerify lib [tool, "verifymsg".toList, pubkey, m', text]) ↔ m = m')
  compact : ∀ tool m m', ∃ text,
    compactSignHandle lib [tool, "compactsign".toList, privkey, m] = some [base64Line text] ∧
      (PrintsSuccess (compactVerifyHandle lib
        [tool, "compactverify".toList, pubkey, m', text]) ↔ m = m')

def KeyLib.ReadsSecrets : Prop :=
  ∀ sk P, lib.getPubKey sk = some P →
    ∃ vchSecret, lib.setString (lib.secretToString sk) = some vchSecret ∧ lib.getKey vchSecret = sk

variable {lib verifyPubKey address} {EncodesPointOf : PubKey → Key → Prop}

theorem KeyLib.ReadsSecrets.keys (hreads : lib.ReadsSecrets) {sk : Key} {P : PubKey}
    (hkey : lib.getPubKey sk = some P) :
    getKeysFromSecret lib (lib.secretToString sk) = some (some (sk, P)) := by
  obtain ⟨vchSecret, hset, hget⟩ := hreads sk P hkey
  simp only [getKeysFromSecret, hset, hget, hkey]

theorem usable_of_key [DecidableEq KeyID] (hlib : lib.Lawful EncodesPointOf)
    (hreads : lib.ReadsSecrets) {sk : Key}
    {P : PubKey} (hkey : lib.getPubKey sk = some P) :
    Usable lib address (lib.secretToString sk) (lib.hexStr (lib.pubKeyBytes P))
      (address (lib.getID P)) := by
  have hkeys := hreads.keys hkey
  refine ⟨?_, ?_, ?_⟩
  · intro tool
    simp [privKey, cmdindex, hkeys, privKeyLine]
  · intro tool m m'
    obtain ⟨sig, hsign, hprint⟩ := signMsg_prints hlib hkeys tool "signmsg".toList m
    exact ⟨lib.encodeBase64 sig, hprint, signVerify_hex_base64 hlib hkey hsign tool _ m'⟩
  · intro tool m m'
    obtain ⟨sig, hsign, hprint⟩ := compactSignHandle_prints hlib hkeys tool "compactsign".toList m
    exact ⟨lib.encodeBase64 sig, hprint, compactVerifyHandle_hex_base64 hlib hkey hsign tool _ m'⟩

def PrintsKey [DecidableEq KeyID] (lib : KeyLib Secret Key PubKey Hash KeyID)
    (verifyPubKey : Key → PubKey → Bool) (address : KeyID → Str) (fCompressed : Bool) (sk : Key)
    (outputs : List Output) : Prop :=
  ∃ P, lib.getPubKey sk = some P ∧
    if verifyPubKey sk P then
      ∃ privkey pubkey keyID addr, outputs = newKeyLines fCompressed privkey pubkey keyID addr ∧
        Usable lib address privkey pubkey addr
    else outputs = [.formatted (verifyFailed lib P)]

theorem makeNewKey_prints [DecidableEq KeyID] (hlib : lib.Lawful EncodesPointOf)
    (hreads : lib.ReadsSecrets) {secret : Bool → Key} {fCompressed : Bool} {P : PubKey}
    (hkey : lib.getPubKey (secret fCompressed) = some P) :
    ∃ outputs, makeNewKey lib verifyPubKey address secret fCompressed = some outputs ∧
      PrintsKey lib verifyPubKey address fCompressed (secret fCompressed) outputs := by
  rw [makeNewKey]
  simp only [hkey]
  cases hverify : verifyPubKey (secret fCompressed) P with
  | false => exact ⟨_, rfl, P, hkey, by simp [hverify]⟩
  | true =>
      refine ⟨_, rfl, P, hkey, ?_⟩
      rw [if_pos hverify]
      exact ⟨_, _, _, _, rfl, usable_of_key hlib hreads hkey⟩

variable (verifyPubKey address)

theorem newAddressLoop_prints [DecidableEq KeyID] (hlib : lib.Lawful EncodesPointOf)
    (hreads : lib.ReadsSecrets) {draws : Nat → Bool → Key} {fCompressed : Bool}
    (hdraws : ∀ i, ∃ P, lib.getPubKey (draws i fCompressed) = some P) (left i : Nat) :
    ∃ blocks, newAddressLoop lib verifyPubKey address draws fCompressed i left =
        some blocks.flatten ∧
      List.Forall₂ (fun j => PrintsKey lib verifyPubKey address fCompressed (draws j fCompressed))
        (List.range' i left) blocks := by
  induction left generalizing i with
  | zero => exact ⟨[], rfl, List.Forall₂.nil⟩
  | succ left ih =>
      obtain ⟨P, hkey⟩ := hdraws i
      obtain ⟨outputs, hmade, hprints⟩ := makeNewKey_prints hlib hreads hkey
      obtain ⟨blocks, hrest, hall⟩ := ih (i + 1)
      refine ⟨outputs :: blocks, ?_, ?_⟩
      · rw [newAddressLoop, hmade]
        simp only [hrest, Option.map_some, List.flatten_cons]
      · rw [List.range'_succ]
        exact List.Forall₂.cons hprints hall

end

section

variable {Secret Key PubKey Hash KeyID : Type} [DecidableEq KeyID]

/-- `newaddress` prints as many keys as its argument counts, each in four lines unless its check has
failed.  Whatever it prints of a key can be given to the other commands: `privkey` shows the same
texts, and a message signed with it is accepted, and no other one, in both schemes. -/
theorem newAddress_usable (lib : KeyLib Secret Key PubKey Hash KeyID)
    (EncodesPointOf : PubKey → Key → Prop) (hlib : lib.Lawful EncodesPointOf)
    (hreads : lib.ReadsSecrets) (verifyPubKey : Key → PubKey → Bool) (address : KeyID → Str)
    (draws : Nat → Bool → Key) (argv : List Str) (hargs : cmdindex + 3 ≤ argv.length)
    (hdraws : ∀ i, ∃ P,
      lib.getPubKey (draws i (atob (argv.getD (cmdindex + 1) []))) = some P) :
    let fCompressed := atob (argv.getD (cmdindex + 1) [])
    let num := atoi (argv.getD (cmdindex + 2) [])
    ∃ blocks, newAddress lib verifyPubKey address draws argv = some blocks.flatten ∧
      List.Forall₂
        (fun i => PrintsKey lib verifyPubKey address fCompressed (draws i fCompressed))
        (List.range num.toNat) blocks := by
  intro fCompressed num
  obtain ⟨blocks, hloop, hall⟩ :=
    newAddressLoop_prints verifyPubKey address hlib hreads hdraws num.toNat 0
  rw [← List.range_eq_range'] at hall
  refine ⟨blocks, ?_, hall⟩
  rw [newAddress, if_neg (Nat.not_lt.mpr hargs)]
  exact hloop

theorem sampleLib_readsSecrets : sampleLib.ReadsSecrets := by
  intro sk P _
  refine ⟨sk, ?_, rfl⟩
  simp only [sampleLib, hexDecode_hexEncode]
  obtain ⟨number, compressed⟩ := sk
  cases compressed <;> rfl

/-- Two compressed keys, the second of which fails its check. -/
theorem newAddress_usable_sample :
    ∃ first second, newAddress sampleLib (fun sk _ => sk.1 = 5) hexEncode
        (fun i fCompressed => (if i = 0 then 5 else 6, fCompressed))
        ["tool".toList, "newaddress".toList, "true".toList, "2".toList] =
          some (first ++ second) ∧
      PrintsKey sampleLib (fun sk _ => sk.1 = 5) hexEncode true (5, true) first ∧
      PrintsKey sampleLib (fun sk _ => sk.1 = 5) hexEncode true (6, true) second := by
  obtain ⟨blocks, hprinted, hall⟩ := newAddress_usable sampleLib SampleEncodes sampleLib_lawful
    sampleLib_readsSecrets (fun sk _ => sk.1 = 5) hexEncode
    (fun i fCompressed => (if i = 0 then 5 else 6, fCompressed))
    ["tool".toList, "newaddress".toList, "true".toList, "2".toList] (by decide) (by
      intro i
      by_cases hi : i = 0
      · exact ⟨[2, 5], by rw [if_pos hi]; decide⟩
      · exact ⟨[2, 6], by rw [if_neg hi]; decide⟩)
  have hrange : List.range (atoi "2".toList).toNat = [0, 1] := by decide
  have hflag : atob "true".toList = true := by decide
  change List.Forall₂ (fun i => PrintsKey sampleLib _ hexEncode (atob "true".toList)
    (if i = 0 then 5 else 6, atob "true".toList)) (List.range (atoi "2".toList).toNat) _ at hall
  rw [hrange, hflag] at hall
  cases hall with
  | cons hfirst hrest =>
      cases hrest with
      | @cons _ second _ _ hsecond hnil =>
          cases hnil
          refine ⟨_, second, ?_, hfirst, hsecond⟩
          rw [hprinted, List.flatten_cons, List.flatten_cons, List.flatten_nil, List.append_nil]

/-- The key and the address that `findaddress` prints belong together for the other commands too,
and the address contains every target. -/
theorem findAddress_usable (lib : KeyLib Secret Key PubKey Hash KeyID)
    (EncodesPointOf : PubKey → Key → Prop) (hlib : lib.Lawful EncodesPointOf)
    (hreads : lib.ReadsSecrets) (address : KeyID → Str) (P : AddressSearch Key)
    (haddress : ∀ sk Q, lib.getPubKey sk = some Q → (P.address sk).text = address (lib.getID Q))
    (s : FindState Key) (hs : (findAddress P).Reachable s) (index : Nat) (sk : Key) (Q : PubKey)
    (hreported : (index, sk) ∈ reported s.output) (hkey : lib.getPubKey sk = some Q) :
    Usable lib address (lib.secretToString sk) (lib.hexStr (lib.pubKeyBytes Q))
        (P.address sk).text ∧
      ∀ target ∈ P.vTarget.list, Occurs P.bIsCase (P.address sk).text target := by
  refine ⟨?_, (huntInv_finderView hs).good (index, sk) hreported⟩
  rw [haddress sk Q hkey]
  exact usable_of_key hlib hreads hkey

def sampleAddresses : AddressSearch SampleKey where
  vTarget := ⟨["05".toList], by decide, by decide⟩
  bIsCase := true
  icpu := 1
  address sk := ⟨hexEncode [if sk.2 then 2 else 4, sk.1], by simp [hexEncode], by simp [hexEncode]⟩

theorem findAddress_usable_sample :
    ∃ s, (findAddress sampleAddresses).Reachable s ∧ (0, (5, true)) ∈ reported s.output ∧
      Usable sampleLib hexEncode "0501".toList "0205".toList "0205".toList := by
  obtain ⟨s, hexec, hend⟩ := Machine.exec_exists (findAddress sampleAddresses) .initial
    [.main, .main, .worker 0 (5, true) true, .worker 0 (5, true) true, .worker 0 (5, true) true,
      .worker 0 (5, true) true]
    (fun s => (0, (5, true)) ∈ reported s.output) (by decide)
  have hreported := of_decide_eq_true hend
  have hs : (findAddress sampleAddresses).Reachable s := .exec (.start rfl) hexec
  have haddress : ∀ sk Q, sampleLib.getPubKey sk = some Q →
      (sampleAddresses.address sk).text = hexEncode (sampleLib.getID Q) := by
    intro sk Q hkey
    by_cases hsk : sk.1 = 0
    · simp [sampleLib, hsk] at hkey
    · simp only [sampleLib, hsk, if_false, Option.some.injEq] at hkey
      rw [← hkey]
      rfl
  obtain ⟨husable, -⟩ := findAddress_usable sampleLib SampleEncodes sampleLib_lawful
    sampleLib_readsSecrets hexEncode sampleAddresses haddress s hs 0 (5, true) [2, 5] hreported
    (by decide)
  exact ⟨s, hs, hreported, husable⟩

end

end CoinTool
