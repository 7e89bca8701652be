import CoinTool.Common.Alert.Release

/-!
# Whom an alert is relayed to

The nodes of an alert are those of the connections that are kept, in the order of the lines of the
file.  An alert whose signature the chain accepts is tried on each of them once, and the last line
counts them.
-/

namespace CoinTool

variable {Secret Key PubKey Hash KeyID Addr : Type}

/-- The nodes that these lines give, the calls of `ConnectSocket` being numbered from `calls` on. -/
def connectedNodes (net : NodeNet Addr) (calls : Nat) : List Str → List (Node Addr)
  | [] => []
  | strNode :: nodes =>
      (if net.connects calls strNode then [⟨calls, net.cService strNode, false⟩] else []) ++
        connectedNodes net (calls + 1) nodes

variable (env : AlertLib Secret Key PubKey Hash KeyID Addr)

def relayLine (alert : Alert) (pnode : Node Addr) : Str :=
  if env.relayTo alert pnode then
    "Send success to Node ".toList ++ env.net.addrToString pnode.addr ++ "\n".toList
  else "Send failed to Node ".toList ++ env.net.addrToString pnode.addr ++ "\n".toList

def relayLines (alert : Alert) (vNodes : List (Node Addr)) : List Str :=
  vNodes.map (relayLine env alert) ++
    ["wait for message sending \n".toList,
      "send alert finished. total send to ".toList ++ decimal vNodes.length ++ " nodes. ".toList ++
        decimal (vNodes.countP (env.relayTo alert)) ++ " successes!\n".toList]

theorem foldl_listing {α β : Type*} (test : α → Bool) (pass fail : α → β) (xs : List α)
    (listed : List β) (count : Nat) :
    xs.foldl (fun (listed, count) x =>
      if test x then (listed ++ [pass x], count + 1) else (listed ++ [fail x], count))
        (listed, count) =
      (listed ++ xs.map fun x => if test x then pass x else fail x, count + xs.countP test) := by
  induction xs generalizing listed count with
  | nil => simp
  | cons x xs ih =>
      rw [List.foldl_cons]
      dsimp only
      cases htest : test x with
      | true =>
          rw [if_pos rfl, ih, List.map_cons, htest, if_pos rfl, List.countP_cons_of_pos htest,
            List.append_assoc, List.singleton_append, Nat.add_assoc, Nat.add_comm 1]
      | false =>
          have hfail : ¬ test x = true := by rw [htest]; exact Bool.false_ne_true
          rw [if_neg Bool.false_ne_true, ih, List.map_cons, if_neg hfail,
            List.countP_cons_of_neg hfail, List.append_assoc, List.singleton_append]

theorem relayLoop_eq (alert : Alert) (vNodes : List (Node Addr)) :
    relayLoop env alert vNodes =
      (vNodes.map (relayLine env alert), vNodes.countP (env.relayTo alert)) := by
  have hloop := foldl_listing (env.relayTo alert)
    (fun pnode => "Send success to Node ".toList ++ env.net.addrToString pnode.addr ++ "\n".toList)
    (fun pnode => "Send failed to Node ".toList ++ env.net.addrToString pnode.addr ++ "\n".toList)
    vNodes [] 0
  rw [List.nil_append, Nat.zero_add] at hloop
  exact hloop

theorem addNodeStep_vNodes (s : NetState Addr) (strNode : Str) :
    (addNodeStep env s strNode).calls = s.calls + 1 ∧
      (addNodeStep env s strNode).vNodes = s.vNodes ++
        if env.net.connects s.calls strNode then [⟨s.calls, env.net.cService strNode, false⟩]
        else [] := by
  obtain ⟨hcalls, -, hnodes⟩ := addOneNode_spec env.net strNode false s
  rw [addNodeStep]
  cases hadd : addOneNode env.net strNode false s with
  | mk added t =>
      rw [hadd] at hcalls hnodes
      cases added with
      | true => exact ⟨hcalls, hnodes⟩
      | false => exact ⟨hcalls, hnodes⟩

theorem addNodes_connected (nodes : List Str) (s : NetState Addr) :
    (nodes.foldl (addNodeStep env) s).vNodes =
      s.vNodes ++ connectedNodes env.net s.calls nodes := by
  induction nodes generalizing s with
  | nil => exact (List.append_nil _).symm
  | cons strNode nodes ih =>
      obtain ⟨hcalls, hnodes⟩ := addNodeStep_vNodes env s strNode
      rw [List.foldl_cons, ih, hcalls, hnodes, connectedNodes, List.append_assoc]

variable {env}

theorem signAndRelay_relays {alert : Alert} {strPrikey : Str} {s t : NetState Addr} {ok : Bool}
    (h : signAndRelay env alert strPrikey s = some (ok, t)) :
    (ok = true ↔ env.Signs alert strPrikey) ∧
      (ok = true → ∃ before, t.output = before ++ relayLines env alert s.vNodes) := by
  rw [signAndRelay] at h
  cases hkeys : getKeysFromSecret env.lib strPrikey with
  | none => simp [hkeys] at h
  | some keys =>
      cases keys with
      | none =>
          simp only [hkeys, Option.some.injEq, Prod.mk.injEq] at h
          rw [← h.1]
          refine ⟨?_, fun hok => Bool.noConfusion hok⟩
          simp [AlertLib.Signs, hkeys]
      | some keys =>
          obtain ⟨prikey, pubkey⟩ := keys
          rw [signs_iff hkeys]
          simp only [hkeys] at h
          cases hsign : env.lib.sign prikey (env.hash (env.serialize alert)) with
          | none =>
              simp only [hsign, Option.some.injEq, Prod.mk.injEq] at h
              rw [← h.1]
              simp
          | some vchSig =>
              simp only [hsign] at h
              cases hcheck : env.checkSignature alert (env.serialize alert) vchSig env.alertKey with
              | false =>
                  simp only [hcheck, Bool.not_false, if_true, Option.some.injEq,
                    Prod.mk.injEq] at h
                  rw [← h.1]
                  simp [hcheck]
              | true =>
                  simp only [hcheck, Bool.not_true, Bool.false_eq_true, if_false,
                    Option.some.injEq, Prod.mk.injEq, relayLoop_eq] at h
                  rw [← h.1, ← h.2]
                  refine ⟨by simp [hcheck], fun _ => ⟨_, rfl⟩⟩

variable (env)

/-- `sendalert` succeeds exactly when the file has a key and nodes and the chain accepts what the
key signs.  It then tries each connection that was kept once, in the order of the lines of the file,
prints a line for each, and counts all of them and those that were served. -/
theorem sendAlert_relays (settings : Settings) (s t : NetState Addr) (ok : Bool)
    (hs : s.vNodes = []) (h : sendAlert env settings s = some (ok, t)) :
    (ok = true ↔ settings.mapArgs.count "-addnode".toList = true ∧
      ∃ strPrikey, settings.mapArgs "-privkey".toList = some strPrikey ∧
        env.Signs (createAlert env settings) strPrikey) ∧
    (ok = true → ∃ before, t.output = before ++ relayLines env (createAlert env settings)
      (connectedNodes env.net s.calls (settings.mapMultiArgs.lookup "-addnode".toList))) := by
  rw [sendAlert] at h
  cases hkey : settings.mapArgs "-privkey".toList with
  | none =>
      simp only [hkey, Option.some.injEq, Prod.mk.injEq] at h
      rw [← h.1]
      simp
  | some strPrikey =>
      simp only [hkey] at h
      cases hnode : settings.mapArgs.count "-addnode".toList with
      | false =>
          simp only [hnode, Bool.false_eq_true, if_false, Option.some.injEq, Prod.mk.injEq] at h
          rw [← h.1]
          simp
      | true =>
          simp only [hnode, if_true] at h
          obtain ⟨hsigns, houtput⟩ := signAndRelay_relays h
          rw [addNodes_connected, NetState.print_vNodes, NetState.print_calls, hs,
            List.nil_append] at houtput
          refine ⟨?_, houtput⟩
          rw [hsigns]
          simp

def twoNodes : Settings :=
  [("privkey".toList, "0501".toList), ("addnode".toList, "a:1".toList),
    ("addnode".toList, "b:2".toList)].foldl loadEntry Settings.empty

/-- The second node is connected but not served. -/
def unevenAlertLib : AlertLib SampleKey SampleKey Bytes Bytes Bytes Str :=
  { sampleAlertLib with relayTo := fun _ node => node.addr == "a:1".toList }

theorem sendAlert_relays_sample :
    ∃ t before, sendAlert unevenAlertLib twoNodes .initial = some (true, t) ∧
      t.output = before ++ ["Send success to Node a:1\n".toList, "Send failed to Node b:2\n".toList,
        "wait for message sending \n".toList,
        "send alert finished. total send to 2 nodes. 1 successes!\n".toList] := by
  obtain ⟨-, hrelays⟩ := sendAlert_relays unevenAlertLib twoNodes .initial _ true rfl rfl
  obtain ⟨before, houtput⟩ := hrelays rfl
  exact ⟨_, before, rfl, houtput⟩

end CoinTool
