import CoinTool.Common.KeyTool.Library

/-!
# Signing and verifying messages

A command gets `argv` and returns the texts that it prints, or nothing when an assertion of the
library ends the program.
-/

namespace CoinTool

def strMessageCustom : Str := "Ulord Signed Message:\n".toList

section

variable {Secret Key PubKey Hash KeyID : Type} [DecidableEq KeyID]
variable (lib : KeyLib Secret Key PubKey Hash KeyID)

def KeyLib.write (ss str : Str) : Str := ss ++ (lib.writeCompactSize str.length ++ str)

/-- The inner `none` is the result `false`, the outer one the failed assertion. -/
def getKeysFromSecret (strSecret : Str) : Option (Option (Key × PubKey)) :=
  match lib.setString strSecret with
  | none => some none
  | some vchSecret =>
      let keyRet := lib.getKey vchSecret
      match lib.getPubKey keyRet with
      | none => none
      | some pubkeyRet => some (some (keyRet, pubkeyRet))

def compactSign (privkey : Key) (strMessage : Str) : Option Bytes :=
  let ss : Str := []
  let ss := lib.write ss strMessageCustom
  let ss := lib.write ss strMessage
  lib.signCompact privkey (lib.getHash ss)

def compactVerify (pubkey : PubKey) (strMessage : Str) (vchSig : Bytes) (blog : Bool) :
    List Str × Bool :=
  let ss : Str := []
  let ss := lib.write ss strMessageCustom
  let ss := lib.write ss strMessage
  match lib.recoverCompact (lib.getHash ss) vchSig with
  | none => (["Error recovering public key.\n".toList], false)
  | some pubkeyFromSig =>
      if lib.getID pubkeyFromSig ≠ lib.getID pubkey then
        (if blog then
          ["Keys don't match : pubkey = ".toList ++ lib.hexStr (lib.pubKeyBytes pubkey) ++
            ", pubkeyFromSig=".toList ++ lib.hexStr (lib.pubKeyBytes pubkeyFromSig) ++
            ", strMessage=".toList ++ strMessage ++
            ", vchSig=".toList ++ lib.encodeBase64 vchSig ++ "\n".toList]
        else [], false)
      else ([], true)

def msgSign (privkey : Key) (strMessage : Str) (blog : Bool) : List Str × Option Bytes :=
  let ss : Str := []
  let ss := lib.write ss strMessageCustom
  let ss := lib.write ss strMessage
  match lib.sign privkey (lib.getHash ss) with
  | none =>
      (if blog then
        ["Error: CheckSign: Sign msg failed! privkey = ".toList ++
          lib.hexStr (lib.keyBytes privkey) ++ "\n".toList]
      else [], none)
  | some vchSig => ([], some vchSig)

def msgVerify (pubkey : PubKey) (strMessage : Str) (vchSig : Bytes) (blog : Bool) :
    List Str × Bool :=
  let ss : Str := []
  let ss := lib.write ss strMessageCustom
  let ss := lib.write ss strMessage
  if lib.verify pubkey (lib.getHash ss) vchSig then ([], true)
  else
    (if blog then
      ["Error: CheckSign: Verify failed! pubkey = ".toList ++ lib.idToString (lib.getID pubkey) ++
        "\n".toList]
    else [], false)

def signMsgHelp : List Str :=
  ["Command \"signmsg\" example :\n\nsignmsg privatekey \"message\"\n\n".toList]

def signVerifyHelp : List Str :=
  ["Command \"verifymsg\" example :\n\nverifymsg publickey \"message\" \"signature\"\n\n".toList]

def compactSignHelp : List Str :=
  ["Command \"compactsign\" example :\n\ncompactsign privatekey \"message\"\n\n".toList]

def compactVerifyHelp : List Str :=
  ["Command \"compactverify\" example :\n\n".toList ++
    "compactverify publickey \"message\" \"signature\"\n\n".toList]

def getPubKeyFailed (strprivkey : Str) : List Str :=
  ["Error: privkey <".toList ++ strprivkey ++ "> getpubkey failed!\n".toList]

def base64Line (text : Str) : Str := "Base64Code: ".toList ++ text ++ "\n".toList

def verifySuccess : Str := "Verify Success !\n".toList

def signMsg (argv : List Str) : Option (List Str) :=
  if h : argv.length < cmdindex + 3 then some signMsgHelp
  else
    let strprivkey := argv[cmdindex + 1]
    let strMessage := argv[cmdindex + 2]
    match getKeysFromSecret lib strprivkey with
    | none => none
    | some none => some (getPubKeyFailed strprivkey)
    | some (some (privkey, _)) =>
        match msgSign lib privkey strMessage false with
        | (printed, none) =>
            some (printed ++ ["Error: Sign msg failed! privkey = ".toList ++
              lib.secretToString privkey ++ "\n".toList])
        | (printed, some vchSig) => some (printed ++ [base64Line (lib.encodeBase64 vchSig)])

def signVerify (argv : List Str) : Option (List Str) :=
  if h : argv.length < cmdindex + 4 then some signVerifyHelp
  else
    let strSig := argv[cmdindex + 3]
    let vchSig := lib.decodeBase64 strSig
    let pubkey := lib.cPubKey (lib.parseHex argv[cmdindex + 1])
    match msgVerify lib pubkey argv[cmdindex + 2] vchSig false with
    | (printed, false) =>
        some (printed ++ ["Error: Verify failed! pubkey = ".toList ++
          lib.hexStr (lib.pubKeyBytes pubkey) ++ "\n".toList])
    | (printed, true) => some (printed ++ [verifySuccess])

def compactSignHandle (argv : List Str) : Option (List Str) :=
  if h : argv.length < cmdindex + 3 then some compactSignHelp
  else
    let strprivkey := argv[cmdindex + 1]
    let strMessage := argv[cmdindex + 2]
    match getKeysFromSecret lib strprivkey with
    | none => none
    | some none => some (getPubKeyFailed strprivkey)
    | some (some (privkey, _)) =>
        match compactSign lib privkey strMessage with
        | none =>
            some ["Error: Sign msg failed! privkey = ".toList ++
              lib.secretToString privkey ++ "\n".toList]
        | some vchSig => some [base64Line (lib.encodeBase64 vchSig)]

def compactVerifyHandle (argv : List Str) : Option (List Str) :=
  if h : argv.length < cmdindex + 4 then some compactVerifyHelp
  else
    let strSig := argv[cmdindex + 3]
    let vchSig := lib.decodeBase64 strSig
    let pubkey := lib.cPubKey (lib.parseHex argv[cmdindex + 1])
    match compactVerify lib pubkey argv[cmdindex + 2] vchSig true with
    | (printed, false) => some printed
    | (printed, true) => some (printed ++ [verifySuccess])

def PrintsSuccess (printed : Option (List Str)) : Prop := ∃ lines ∈ printed, verifySuccess ∈ lines

end

end CoinTool
