import CoinTool.Common.Alert.Model

/-!
# The connections of an alert

`sendalert` frees its nodes where it ends with a success.  The returns between the loop that opens
the connections and that place leave them open.
-/

namespace CoinTool

variable {Secret Key PubKey Hash KeyID Addr : Type}
variable (env : AlertLib Secret Key PubKey Hash KeyID Addr)

def AlertLib.Signs (alert : Alert) (strPrikey : Str) : Prop :=
  ∃ prikey pubkey vchSig, getKeysFromSecret env.lib strPrikey = some (some (prikey, pubkey)) ∧
    env.lib.sign prikey (env.hash (env.serialize alert)) = some vchSig ∧
    env.checkSignature alert (env.serialize alert) vchSig env.alertKey = true

/-- No call of `ConnectSocket` for these nodes, numbered from `calls` on, gives a connection that is
kept. -/
def AlertLib.NoneConnects (calls : Nat) (nodes : List Str) : Prop :=
  ∀ i strNode, nodes[i]? = some strNode → env.net.connects (calls + i) strNode = false

/-- The file has no key or no nodes, or none of the nodes connects, or the alert gets as far as being
relayed. -/
def AlertLib.Settles (settings : Settings) (calls : Nat) : Prop :=
  settings.mapArgs "-privkey".toList = none ∨ settings.mapArgs.count "-addnode".toList = false ∨
    env.NoneConnects calls (settings.mapMultiArgs.lookup "-addnode".toList) ∨
    ∃ strPrikey, settings.mapArgs "-privkey".toList = some strPrikey ∧
      env.Signs (createAlert env settings) strPrikey

variable {env}

theorem noneConnects_cons (calls : Nat) (strNode : Str) (nodes : List Str) :
    env.NoneConnects calls (strNode :: nodes) ↔
      env.net.connects calls strNode = false ∧ env.NoneConnects (calls + 1) nodes := by
  constructor
  · intro h
    refine ⟨h 0 strNode rfl, ?_⟩
    intro i later hlater
    have hnext := h (i + 1) later hlater
    rw [← hnext]
    congr 1
    omega
  · rintro ⟨hfirst, hrest⟩ i later hlater
    cases i with
    | zero =>
        cases hlater
        exact hfirst
    | succ i =>
        have hnext := hrest i later hlater
        rw [← hnext]
        congr 1
        omega

variable (env)

theorem addNodeStep_spec (s : NetState Addr) (strNode : Str) :
    (addNodeStep env s strNode).calls = s.calls + 1 ∧
      (s.Kept → (addNodeStep env s strNode).Kept) ∧
      ((addNodeStep env s strNode).vNodes = [] ↔
        s.vNodes = [] ∧ env.net.connects s.calls strNode = false) := by
  obtain ⟨hcalls, hkept, hnodes⟩ := addOneNode_spec env.net strNode false s
  have hprinted : ∃ lines, addNodeStep env s strNode =
      (addOneNode env.net strNode false s).2.print lines := by
    cases hadd : addOneNode env.net strNode false s with
    | mk added t =>
        simp only [addNodeStep, hadd]
        cases added with
        | true => exact ⟨_, rfl⟩
        | false => exact ⟨_, rfl⟩
  obtain ⟨lines, hstep⟩ := hprinted
  rw [hstep]
  refine ⟨hcalls, hkept, ?_⟩
  rw [NetState.print_vNodes, hnodes, List.append_eq_nil_iff]
  cases env.net.connects s.calls strNode <;> simp

theorem addNodes_kept (nodes : List Str) {s : NetState Addr} (h : s.Kept) :
    (nodes.foldl (addNodeStep env) s).Kept := by
  induction nodes generalizing s with
  | nil => exact h
  | cons strNode nodes ih =>
      obtain ⟨_, hkept, _⟩ := addNodeStep_spec env s strNode
      apply ih
      exact hkept h

theorem addNodes_vNodes (nodes : List Str) (s : NetState Addr) :
    (nodes.foldl (addNodeStep env) s).vNodes = [] ↔
      s.vNodes = [] ∧ env.NoneConnects s.calls nodes := by
  induction nodes generalizing s with
  | nil => simp [AlertLib.NoneConnects]
  | cons strNode nodes ih =>
      obtain ⟨hcalls, _, hnodes⟩ := addNodeStep_spec env s strNode
      rw [List.foldl_cons, ih, hnodes, hcalls, and_assoc, noneConnects_cons]

variable {env}

theorem signs_iff {alert : Alert} {strPrikey : Str} {prikey : Key} {pubkey : PubKey}
    (hkeys : getKeysFromSecret env.lib strPrikey = some (some (prikey, pubkey))) :
    env.Signs alert strPrikey ↔
      ∃ vchSig, env.lib.sign prikey (env.hash (env.serialize alert)) = some vchSig ∧
        env.checkSignature alert (env.serialize alert) vchSig env.alertKey = true := by
  constructor
  · rintro ⟨prikey', pubkey', vchSig, hkeys', hsigned, hchecked⟩
    rw [hkeys] at hkeys'
    cases hkeys'
    exact ⟨vchSig, hsigned, hchecked⟩
  · rintro ⟨vchSig, hsigned, hchecked⟩
    exact ⟨prikey, pubkey, vchSig, hkeys, hsigned, hchecked⟩

theorem signAndRelay_spec {alert : Alert} {strPrikey : Str} {s t : NetState Addr} {ok : Bool}
    (hs : s.Kept) (h : signAndRelay env alert strPrikey s = some (ok, t)) :
    t.Released ↔ s.vNodes = [] ∨ env.Signs alert strPrikey := by
  have hfails : ∀ {u : NetState Addr}, t = u → u.Kept → u.vNodes = s.vNodes →
      ¬env.Signs alert strPrikey → (t.Released ↔ s.vNodes = [] ∨ env.Signs alert strPrikey) := by
    intro u htu hu hnodes hsigns
    rw [htu, hu.released_iff, hnodes]
    simp [hsigns]
  rw [signAndRelay] at h
  cases hkeys : getKeysFromSecret env.lib strPrikey with
  | none => simp [hkeys] at h
  | some keys =>
      cases keys with
      | none =>
          simp only [hkeys, Option.some.injEq, Prod.mk.injEq] at h
          apply hfails h.2.symm hs rfl
          rintro ⟨prikey, pubkey, vchSig, hdecoded, _⟩
          rw [hkeys] at hdecoded
          cases hdecoded
      | some keys =>
          obtain ⟨prikey, pubkey⟩ := keys
          simp only [hkeys] at h
          cases hsign : env.lib.sign prikey (env.hash (env.serialize alert)) with
          | none =>
              simp only [hsign, Option.some.injEq, Prod.mk.injEq] at h
              apply hfails h.2.symm hs rfl
              rw [signs_iff hkeys, hsign]
              simp
          | some vchSig =>
              simp only [hsign] at h
              cases hcheck : env.checkSignature alert (env.serialize alert) vchSig env.alertKey with
              | false =>
                  simp only [hcheck, Bool.not_false, if_true, Option.some.injEq,
                    Prod.mk.injEq] at h
                  apply hfails h.2.symm hs rfl
                  rw [signs_iff hkeys, hsign]
                  simp [hcheck]
              | true =>
                  simp only [hcheck, Bool.not_true, Bool.false_eq_true, if_false,
                    Option.some.injEq, Prod.mk.injEq] at h
                  rw [← h.2]
                  have hsigns : env.Signs alert strPrikey :=
                    (signs_iff hkeys).mpr ⟨vchSig, hsign, hcheck⟩
                  constructor
                  · intro _
                    exact Or.inr hsigns
                  · intro _
                    apply NetState.Kept.freeNode
                    exact hs

variable (env)

/-- After `sendalert` the nodes are freed and every socket that was opened is closed exactly when no
node connects or the alert is relayed: the returns in between free nothing. -/
theorem sendAlert_releases_iff (settings : Settings) (s t : NetState Addr) (ok : Bool)
    (hs : s.Released) (h : sendAlert env settings s = some (ok, t)) :
    t.Released ↔ env.Settles settings s.calls := by
  rw [sendAlert] at h
  cases hkey : settings.mapArgs "-privkey".toList with
  | none =>
      simp only [hkey, Option.some.injEq, Prod.mk.injEq] at h
      rw [← h.2]
      constructor
      · intro _
        exact Or.inl hkey
      · intro _
        exact hs
  | some strPrikey =>
      simp only [hkey] at h
      cases hnode : settings.mapArgs.count "-addnode".toList with
      | false =>
          simp only [hnode, Bool.false_eq_true, if_false, Option.some.injEq, Prod.mk.injEq] at h
          rw [← h.2]
          constructor
          · intro _
            exact Or.inr (Or.inl hnode)
          · intro _
            exact hs
      | true =>
          simp only [hnode, if_true] at h
          let printed := s.print
            ["alert message \n".toList ++ env.alertToString (createAlert env settings) ++ "\n".toList]
          let nodes := settings.mapMultiArgs.lookup "-addnode".toList
          have hkept : printed.Kept := hs.kept
          have hempty := addNodes_vNodes env nodes printed
          rw [NetState.print_vNodes, NetState.print_calls] at hempty
          rw [signAndRelay_spec (addNodes_kept env nodes hkept) h, hempty, AlertLib.Settles]
          simp only [nodes, hkey, hnode, hs.1, reduceCtorEq, Bool.true_eq_false, false_or, true_and,
            Option.some.injEq, exists_eq_left']

/-- Every node connects, every signature is accepted and every message is sent. -/
def sampleAlertLib : AlertLib SampleKey SampleKey Bytes Bytes Bytes Str where
  lib := sampleLib
  net := ⟨id, id, fun _ _ => true, fun _ => true⟩
  PROTOCOL_VERSION := 70212
  alertKey := [2, 5]
  alertToString _ := []
  serialize _ := []
  hash bytes := bytes
  checkSignature _ _ _ _ := true
  relayTo _ _ := true

def alertSettings (privkey : Str) : Settings :=
  [("privkey".toList, privkey), ("addnode".toList, "10.175.0.100:9888".toList)].foldl loadEntry
    Settings.empty

theorem sendAlert_releases_iff_sample :
    ∃ t, sendAlert sampleAlertLib (alertSettings "0501".toList) .initial = some (true, t) ∧
      t.Released := by
  have hkeys : getKeysFromSecret sampleLib "0501".toList = some (some ((5, true), [2, 5])) := by
    decide
  refine ⟨_, rfl, ?_⟩
  apply (sendAlert_releases_iff sampleAlertLib (alertSettings "0501".toList) .initial _ true
    ⟨rfl, by simp [NetState.initial]⟩ rfl).mpr
  exact Or.inr (Or.inr (Or.inr ⟨"0501".toList, rfl, (5, true), [2, 5], _, hkeys, rfl, rfl⟩))

/-- The key `05` is not decoded, and the connection stays open. -/
theorem sendAlert_leaks :
    ¬ ∀ (env : AlertLib SampleKey SampleKey Bytes Bytes Bytes Str) (settings : Settings)
      (s t : NetState Str) (ok : Bool), s.Released → sendAlert env settings s = some (ok, t) →
      t.Released := by
  intro h
  have hreleased := h sampleAlertLib (alertSettings "05".toList) .initial _ false
    ⟨rfl, by simp [NetState.initial]⟩ rfl
  exact absurd hreleased.1 (by decide)

end CoinTool
