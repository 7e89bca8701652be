import CoinTool.Common.Utils.Text

/-!
# Connections to nodes

`AddOneNode` opens a socket and keeps it in `vNodes`, `FreeNode` closes the sockets that are kept.  A
socket is named by the number of the call that opened it.
-/

namespace CoinTool

variable {Addr : Type}

structure NodeNet (Addr : Type) where
  cService : Str → Addr
  addrToString : Addr → Str
  connectSocket : Nat → Addr → Bool
  isSelectableSocket : Nat → Bool

structure Node (Addr : Type) where
  hSocket : Nat
  addr : Addr
  fMasternode : Bool

/-- `calls` counts the calls of `ConnectSocket`, and `output` holds the printed lines. -/
structure NetState (Addr : Type) where
  calls : Nat
  opened : List Nat
  closed : List Nat
  vNodes : List (Node Addr)
  output : List Str

def NetState.initial : NetState Addr := ⟨0, [], [], [], []⟩

def NetState.print (s : NetState Addr) (lines : List Str) : NetState Addr :=
  { s with output := s.output ++ lines }

def NetState.closeSockets (s : NetState Addr) (sockets : List Nat) : NetState Addr :=
  { s with closed := s.closed ++ sockets }

section

variable (s : NetState Addr) (lines : List Str)

@[simp] theorem NetState.print_calls : (s.print lines).calls = s.calls := rfl

@[simp] theorem NetState.print_vNodes : (s.print lines).vNodes = s.vNodes := rfl

end

def NodeNet.connects (net : NodeNet Addr) (call : Nat) (strNode : Str) : Bool :=
  net.connectSocket call (net.cService strNode) && net.isSelectableSocket call

def addOneNode (net : NodeNet Addr) (strNode : Str) (fConnectToMasternode : Bool)
    (s : NetState Addr) : Bool × NetState Addr :=
  let destaddr := net.cService strNode
  let hSocket := s.calls
  let s := { s with calls := s.calls + 1 }
  if net.connectSocket hSocket destaddr then
    let s := { s with opened := s.opened ++ [hSocket] }
    if !net.isSelectableSocket hSocket then
      let s := s.print
        ["Cannot create connection: non-selectable socket created (fd >= FD_SETSIZE ?)\n".toList]
      (false, s.closeSockets [hSocket])
    else
      let pnode : Node Addr := ⟨hSocket, destaddr, fConnectToMasternode⟩
      (true, { s with vNodes := s.vNodes ++ [pnode] })
  else (false, s.print ["ConnectSocket failed!\n".toList])

def freeNode (s : NetState Addr) : NetState Addr :=
  { s.closeSockets (s.vNodes.map Node.hSocket) with vNodes := [] }

/-- Every socket that was opened is closed or belongs to a node. -/
def NetState.Kept (s : NetState Addr) : Prop :=
  ∀ hSocket ∈ s.opened, hSocket ∈ s.closed ∨ hSocket ∈ s.vNodes.map Node.hSocket

def NetState.Released (s : NetState Addr) : Prop :=
  s.vNodes = [] ∧ ∀ hSocket ∈ s.opened, hSocket ∈ s.closed

theorem NetState.Released.kept {s : NetState Addr} (h : s.Released) : s.Kept :=
  fun hSocket hmem => Or.inl (h.2 hSocket hmem)

theorem NetState.Kept.released_iff {s : NetState Addr} (h : s.Kept) :
    s.Released ↔ s.vNodes = [] := by
  constructor
  · intro hreleased
    exact hreleased.1
  · intro hnodes
    refine ⟨hnodes, ?_⟩
    intro hSocket hmem
    rcases h hSocket hmem with hclosed | hnode
    · exact hclosed
    · rw [hnodes] at hnode
      cases hnode

theorem NetState.Kept.freeNode {s : NetState Addr} (h : s.Kept) : (freeNode s).Released :=
  ⟨rfl, fun hSocket hmem => List.mem_append.mpr (h hSocket hmem)⟩

theorem addOneNode_spec (net : NodeNet Addr) (strNode : Str) (fConnectToMasternode : Bool)
    (s : NetState Addr) :
    let t := (addOneNode net strNode fConnectToMasternode s).2
    t.calls = s.calls + 1 ∧ (s.Kept → t.Kept) ∧
      t.vNodes = s.vNodes ++
        if net.connects s.calls strNode then
          [⟨s.calls, net.cService strNode, fConnectToMasternode⟩]
        else [] := by
  intro t
  have ht : t = (addOneNode net strNode fConnectToMasternode s).2 := rfl
  clear_value t
  cases hconnect : net.connectSocket s.calls (net.cService strNode) with
  | false =>
      simp only [addOneNode, hconnect, Bool.false_eq_true, if_false] at ht
      subst ht
      refine ⟨rfl, fun h => h, ?_⟩
      simp [NodeNet.connects, hconnect]
  | true =>
      cases hselect : net.isSelectableSocket s.calls with
      | false =>
          simp only [addOneNode, hconnect, hselect, Bool.not_false, if_true] at ht
          subst ht
          refine ⟨rfl, ?_, ?_⟩
          · intro h hSocket hmem
            rcases List.mem_append.mp hmem with hbefore | hnew
            · rcases h hSocket hbefore with hclosed | hnode
              · exact Or.inl (List.mem_append_left _ hclosed)
              · exact Or.inr hnode
            · exact Or.inl (List.mem_append_right _ hnew)
          · simp [NodeNet.connects, hselect, NetState.closeSockets, NetState.print]
      | true =>
          simp only [addOneNode, hconnect, hselect, if_true, Bool.not_true, Bool.false_eq_true,
            if_false] at ht
          subst ht
          refine ⟨rfl, ?_, ?_⟩
          · intro h hSocket hmem
            rw [List.map_append]
            rcases List.mem_append.mp hmem with hbefore | hnew
            · rcases h hSocket hbefore with hclosed | hnode
              · exact Or.inl hclosed
              · exact Or.inr (List.mem_append_left _ hnode)
            · exact Or.inr (List.mem_append_right _ hnew)
          · simp [NodeNet.connects, hconnect, hselect]

end CoinTool
