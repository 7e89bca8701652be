import Mathlib.Data.Finset.Dedup
import CoinTool.Common.KeyTool.Model
import CoinTool.Common.Utils.Config
import CoinTool.Common.Utils.Net

/-!
# `sendalert`

An alert is filled from a file, signed with the key of the file and relayed to the nodes of the file.
The connections are opened before the key is decoded.
-/

namespace CoinTool

structure Alert where
  nVersion : Int
  nRelayUntil : Int
  nExpiration : Int
  nID : Int
  nCancel : Int
  setCancel : Finset Int
  nMinVer : Int
  nMaxVer : Int
  setSubVer : Finset Str
  nPriority : Int
  strComment : Str
  strStatusBar : Str

/-- What `sendalert` takes from the chain it is built with, from its library and from the network. -/
structure AlertLib (Secret Key PubKey Hash KeyID Addr : Type) where
  lib : KeyLib Secret Key PubKey Hash KeyID
  net : NodeNet Addr
  PROTOCOL_VERSION : Int
  alertKey : Bytes
  alertToString : Alert → Str
  /-- The bytes of the unsigned part of an alert. -/
  serialize : Alert → Bytes
  hash : Bytes → Hash
  checkSignature : Alert → Bytes → Bytes → Bytes → Bool
  relayTo : Alert → Node Addr → Bool

variable {Secret Key PubKey Hash KeyID Addr : Type}
variable (env : AlertLib Secret Key PubKey Hash KeyID Addr)

def argOr {α : Type} (s : Settings) (name : Str) (read : Str → α) (missing : α) : α :=
  match s.mapArgs name with
  | some value => read value
  | none => missing

def createAlert (s : Settings) : Alert where
  nVersion := argOr s "-version".toList atoi env.PROTOCOL_VERSION
  nRelayUntil := argOr s "-relayuntil".toList strtol 4070908800
  nExpiration := argOr s "-expiration".toList strtol 4070908800
  nID := argOr s "-id".toList atoi 1
  nCancel := argOr s "-cancel".toList atoi 0
  setCancel := ((s.visited "-setcancel".toList).map atoi).toFinset
  nMinVer := argOr s "-minver".toList atoi 0
  nMaxVer := argOr s "-maxver".toList atoi 0x7fffffff
  setSubVer := (s.visited "-setsubver".toList).toFinset
  nPriority := argOr s "-priority".toList atoi 1
  strComment := argOr s "-comment".toList id "TEST: alert test".toList
  strStatusBar := argOr s "-statusbar".toList id
    "URGENT: Alert key compromised, upgrade required".toList

def addNodeStep (s : NetState Addr) (strNode : Str) : NetState Addr :=
  let (added, s) := addOneNode env.net strNode false s
  if added then s.print ["add node : ".toList ++ strNode ++ "\n".toList]
  else s.print ["add node failed : ".toList ++ strNode ++ "\n".toList]

def relayLoop (alert : Alert) (vNodes : List (Node Addr)) : List Str × Nat :=
  vNodes.foldl (fun (printed, iSuccess) pnode =>
    if env.relayTo alert pnode then
      (printed ++ ["Send success to Node ".toList ++ env.net.addrToString pnode.addr ++
        "\n".toList], iSuccess + 1)
    else
      (printed ++ ["Send failed to Node ".toList ++ env.net.addrToString pnode.addr ++
        "\n".toList], iSuccess)) ([], 0)

/-- What follows the loop that opens the connections. -/
def signAndRelay (alert : Alert) (strPrikey : Str) (s : NetState Addr) :
    Option (Bool × NetState Addr) :=
  let vchMsg := env.serialize alert
  match getKeysFromSecret env.lib strPrikey with
  | none => none
  | some none =>
      some (false, s.print
        ["Error: getKeys failed by privkey = ".toList ++ strPrikey ++ "\n".toList])
  | some (some (prikey, pubkey)) =>
      let s := s.print
        ["pubkey from prikey ".toList ++ env.lib.idToString (env.lib.getID pubkey) ++ "\n".toList]
      match env.lib.sign prikey (env.hash vchMsg) with
      | none => some (false, s.print ["Error: Sign msg failed!\n".toList])
      | some vchSig =>
          let paramkey := env.lib.cPubKey env.alertKey
          let s := s.print ["pubkey from params ".toList ++
            env.lib.idToString (env.lib.getID paramkey) ++ "\n".toList]
          if !env.checkSignature alert vchMsg vchSig env.alertKey then
            some (false, s.print ["Error: Check signature failed!\n".toList])
          else
            let (printed, iSuccess) := relayLoop env alert s.vNodes
            let s := s.print (printed ++ ["wait for message sending \n".toList,
              "send alert finished. total send to ".toList ++ decimal s.vNodes.length ++
                " nodes. ".toList ++ decimal iSuccess ++ " successes!\n".toList])
            some (true, freeNode s)

/-- `none` when an assertion of the library ends the program. -/
def sendAlert (settings : Settings) (s : NetState Addr) : Option (Bool × NetState Addr) :=
  match settings.mapArgs "-privkey".toList with
  | none =>
      some (false, s.print [showerror "File without privkey, add privkey= frist!".toList])
  | some strPrikey =>
      let alert := createAlert env settings
      let s := s.print ["alert message \n".toList ++ env.alertToString alert ++ "\n".toList]
      if settings.mapArgs.count "-addnode".toList then
        signAndRelay env alert strPrikey
          ((settings.mapMultiArgs.lookup "-addnode".toList).foldl (addNodeStep env) s)
      else
        some (false, s.print
          ["add one node by write as :  node=10.175.0.100:9888   in config file frist\n".toList])

def sendAlertHelp : List Str :=
  ["Command \"sendalert\" example :\n\nsendalert alertconfigurefile\n\n".toList]

/-- The maps after the command and what it leaves of the network; an exception of the load, like a
failed assertion, ends the program. -/
def sendAlertHandle (fs : FileSystem) (argv : List Str) (settings : Settings)
    (s : NetState Addr) : Option (Settings × NetState Addr) :=
  if argv.length < cmdindex + 2 then some (settings, s.print sendAlertHelp)
  else
    match readCurrentFile fs settings (argv.getD (cmdindex + 1) []) with
    | (.ok, settings) => (sendAlert env settings s).map fun (_, s) => (settings, s)
    | (.failed message, settings) => some (settings, s.print [showerror message])
    | (.exception, _) => none

end CoinTool
