import Husarnet.NgSocket.Moves
import Husarnet.Node
import Husarnet.SecurityPaths

/-! # The moves of a node

One event is a sequence of moves: those of the socket layer's handlers, and what the layers above do
in between. Which moves there can be depends on the event and on the state it finds.
-/

namespace Husarnet
open Octets Containers PeerContainer Runs
set_option autoImplicit false

/-- A step within an event: one of the socket layer, a packet that is opened, anything else the layers
above do, or a change outside the node. -/
inductive NodeMove where
  | socket (m : Move)
  | opened (peer : PeerRef) (now : Time)
  | above
  | outside

inductive NodeMoves (S : Sodium) : Node → NodeMove → Node → Prop where
  | socket {n n' : Node} {m : Move} (h : SocketMove S n m n') : NodeMoves S n (.socket m) n'
  | layer (n : Node) {sl : SecurityLayer} (h : n.securityLayer.PeersKept sl) :
      NodeMoves S n .above (n.withSecurityLayer sl)
  | opened (n : Node) (peer : PeerRef) (now : Time) :
      NodeMoves S n (.opened peer now)
        (n.withSecurityLayer (n.securityLayer.modify peer fun p => { p with lastValidPacket := now }))
  | tun (n : Node) (packets : List Bytes) :
      NodeMoves S n .above { n with sent := n.sent ++ packets.map .tun }
  | reachable (n : Node) (baseReachable : Bool) :
      NodeMoves S n .outside { n with baseReachable := baseReachable }

namespace Node
variable (S : Sodium) (T : JsonText) (now : Time)

/-- The socket layer has data for the layer above, which handles it so. -/
structure HandsUp (n : Node) (e : NodeEvent) (n₁ : Node) (peerAddress : HusarnetAddress)
    (r : SecurityLayer × List LayerOutput) : Prop where
  handled : ∃ data, n.receive S now e = .ok (n₁, some (peerAddress, data)) ∧
    n₁.securityLayer.onLowerLayerData S now peerAddress data = .ok r

/-- A data packet of the peer is opened: its data goes to the layer above. -/
def OpensPacket (n : Node) (e : NodeEvent) (peer : PeerRef) : Prop :=
  ∃ n₁ peerAddress r data, n.HandsUp S now e n₁ peerAddress r ∧
    (n₁.securityLayer.getOrCreatePeer peerAddress).2 = some peer ∧ .toUpper peerAddress data ∈ r.2

end Node

namespace NodeMove
variable (S : Sodium) (now : Time)

/-- The moves of the socket layer that an event can lead to. -/
def SocketExpected (n : Node) (e : NodeEvent) (m : Move) : Prop :=
  m.Routine ∨ match e with
    | .udpPacket source data => Node.TakesDatagram now n source data m
    | .tcpFrame data => ∃ msg, parseBaseToPeerMessage data = .ok msg ∧ Node.TakesCookie msg m
    | .worker => Node.DoesTask S now n m
    | _ => False

/-- The moves that an event can lead to. -/
def Expected (n : Node) (e : NodeEvent) : NodeMove → Prop
  | .socket m => SocketExpected S now n e m
  | .opened peer time => time = now ∧ n.OpensPacket S now e peer
  | .above => True
  | .outside => ∃ reachable, e = .baseReachable reachable

/-- The moves that any event can lead to. -/
def Routine : NodeMove → Prop
  | .socket m => m.Routine
  | .opened _ _ | .outside => False
  | .above => True

variable {S now}

theorem Routine.expected {m : NodeMove} (h : m.Routine) (n : Node) (e : NodeEvent) : m.Expected S now n e := by
  cases m with
  | socket m => exact Or.inl h
  | opened peer time => cases h
  | above => trivial
  | outside => cases h

end NodeMove

/-! ## Which event a move belongs to -/

namespace Node

/-- A NAT_OK of the base is handled. -/
def GetsNatOk (n : Node) (e : NodeEvent) : Prop :=
  ∃ data, e = .udpPacket n.baseUdpAddress data ∧ parseBaseToPeerMessage data = .ok .NAT_OK

/-- The worker does a refresh. -/
def Refreshing (n : Node) (e : NodeEvent) : Prop := e = .worker ∧ n.workerQueue.head? = some .refresh

/-- The worker handles a message of a peer. -/
def GetsMessage (S : Sodium) (n : Node) (e : NodeEvent) (source : InetAddress) (msg : PeerToPeerMessage) : Prop :=
  e = .worker ∧ ∃ data slow, n.workerQueue.head? = some (.peerMessage source data slow) ∧
    parsePeerToPeerMessage S data = .ok msg

end Node

namespace NodeMove
variable {S : Sodium} {now : Time} {n : Node} {e : NodeEvent}

/-- What the moves that are not routine need. -/
def Origin (S : Sodium) (now : Time) (n : Node) (e : NodeEvent) : Move → Prop
  | .greeted cookie => ∃ data, e = .tcpFrame data ∧ parseBaseToPeerMessage data = .ok (.HELLO cookie)
  | .confirmed time => time = now ∧ n.GetsNatOk e
  | .expired _ time => time = now ∧ n.Refreshing e
  | .answered source => ∃ myId yourId helloCookie, n.GetsMessage S e source (.HELLO myId yourId helloCookie) ∧
      n.Welcomes myId yourId
  | .call (.replied source myId yourId helloCookie) =>
      n.GetsMessage S e source (.HELLO_REPLY myId yourId helloCookie) ∧ ∃ peer, n.Accepts myId yourId helloCookie peer
  | .call _ => True

theorem Origin.of_routine {m : Move} (h : m.Routine) : Origin S now n e m := by
  cases m with
  | call c =>
    cases c with
    | rest => trivial
    | attempted _ _ => trivial
    | queued _ _ => trivial
    | claimed _ _ => trivial
    | replied _ _ _ _ => cases h
  | answered _ => cases h
  | confirmed _ => cases h
  | greeted _ => cases h
  | expired _ _ => cases h

theorem SocketExpected.origin {m : Move} (h : SocketExpected S now n e m) : Origin S now n e m := by
  obtain h | h := h
  · exact .of_routine h
  · cases e with
    | udpPacket source data =>
      obtain rfl | ⟨msg, rfl, hmsg, h | ⟨rfl, rfl⟩⟩ := h
      · trivial
      · exact .of_routine h
      · exact ⟨rfl, data, rfl, hmsg⟩
    | tcpFrame data =>
      obtain ⟨msg, hmsg, h | ⟨cookie, rfl, rfl⟩⟩ := h
      · exact .of_routine h
      · exact ⟨data, rfl, hmsg⟩
    | worker =>
      obtain h | ⟨hq, h | ⟨peer, rfl⟩⟩ | ⟨source, data, slow, hq, h | ⟨msg, hmsg, h⟩⟩ := h
      · exact .of_routine h
      · exact .of_routine h
      · exact ⟨rfl, rfl, hq⟩
      · exact .of_routine h
      · obtain h | ⟨peer, myId, yourId, helloCookie, rfl, hw, rfl | rfl⟩ | ⟨peer, myId, yourId, helloCookie, rfl, ha, rfl⟩ := h
        · exact .of_routine h
        · trivial
        · exact ⟨myId, yourId, helloCookie, ⟨rfl, data, slow, hq, hmsg⟩, hw⟩
        · exact ⟨⟨rfl, data, slow, hq, hmsg⟩, peer, ha⟩
    | multicastPacket _ _ => cases h
    | tcpClosed => cases h
    | tunPacket _ => cases h
    | periodic _ => cases h
    | getLatency _ => cases h
    | configChange _ => cases h
    | baseReachable _ => cases h

end NodeMove

namespace Node
variable (S : Sodium) (T : JsonText) {now : Time}

theorem socket_moves {P : Move → Prop} {n n' : Node} (h : Moves S P n n') :
    Leads (NodeMoves S) (fun m => ∃ m', m = .socket m' ∧ P m') n n' :=
  h.map (g := .socket) fun _ m _ hm hstep => ⟨.socket hstep, m, rfl, hm⟩

theorem routine_moves {n n' : Node} (h : Moves S Move.Routine n n') : Leads (NodeMoves S) NodeMove.Routine n n' :=
  (socket_moves S h).mono fun m hm => by
    obtain ⟨m', rfl, hm⟩ := hm
    exact hm

/-! ## The layers above -/

theorem layer_moves {n : Node} {sl : SecurityLayer} (h : n.securityLayer.PeersKept sl) :
    Leads (NodeMoves S) NodeMove.Routine n (n.withSecurityLayer sl) := .one (.layer n h) trivial

theorem toTun_moves {n n' : Node} {source : HusarnetAddress} {data : Bytes} (h : n.toTun source data = .ok n') :
    Leads (NodeMoves S) NodeMove.Routine n n' := by
  obtain ⟨packets, -, h⟩ := Checked.bind_eq_ok.mp h
  cases h
  have htun := NodeMoves.tun (S := S) n (packets.map Prod.snd)
  rw [List.map_map] at htun
  exact .one htun trivial

theorem handOver_moves {n n' : Node} {out : List LayerOutput} (h : n.handOver S now out = .ok n') :
    Leads (NodeMoves S) NodeMove.Routine n n' := by
  induction out generalizing n with
  | nil =>
    cases h
    exact .refl _
  | cons o out ih =>
    cases o with
    | toLower peerAddress data =>
      exact (routine_moves S (onUpperLayerData_moves S now n peerAddress data)).trans (ih h)
    | toUpper peerAddress data =>
      obtain ⟨n₁, htun, hrest⟩ := Checked.bind_eq_ok.mp h
      exact (toTun_moves S htun).trans (ih hrest)
    | wroteKeys _ => exact ih h
    | negotiated _ => exact ih h

theorem passDown_moves {n n' : Node} {packets : List (HusarnetAddress × Bytes)}
    (h : n.passDown S now packets = .ok n') : Leads (NodeMoves S) NodeMove.Routine n n' := by
  induction packets generalizing n with
  | nil =>
    cases h
    exact .refl _
  | cons packet packets ih =>
    obtain ⟨n₁, hover, hrest⟩ := Checked.bind_eq_ok.mp h
    have hlayer := layer_moves S (SecurityLayer.onUpperLayerData_peers (S := S) n.securityLayer packet.1 packet.2)
    exact hlayer.trans ((handOver_moves S hover).trans (ih hrest))

/-! ## Events -/

theorem receive_moves {n n' : Node} {e : NodeEvent} {up : Option (HusarnetAddress × Bytes)}
    (h : n.receive S now e = .ok (n', up)) : Moves S (NodeMove.SocketExpected S now n e) n n' := by
  have hroutine {n' : Node} (h : Moves S Move.Routine n n') : Moves S (NodeMove.SocketExpected S now n e) n n' :=
    h.mono fun _ => Or.inl
  cases e with
  | udpPacket source data => exact (udpPacketReceived_moves S now h).mono fun _ => Or.inr
  | worker => exact (workerStep_moves S now h).mono fun _ => Or.inr
  | tcpFrame data =>
    obtain ⟨msg, hmsg, hmoves⟩ := tcpFrameReceived_moves S now h
    exact hmoves.mono fun _ hm => Or.inr ⟨msg, hmsg, hm⟩
  | multicastPacket address packet =>
    obtain ⟨n₁, hn, h⟩ := Checked.bind_eq_ok.mp h
    cases h
    exact hroutine (multicastPacketReceived_moves S now hn)
  | tcpClosed =>
    cases h
    exact hroutine (tcpClosed_moves S now n)
  | periodic addresses =>
    cases h
    exact hroutine (periodic_moves S now n addresses)
  | tunPacket _ =>
    cases h
    exact .refl n
  | getLatency _ =>
    cases h
    exact .refl n
  | configChange _ =>
    cases h
    exact .refl n
  | baseReachable _ =>
    cases h
    exact .refl n

/-- Data for the layers above: a packet may be opened, the rest can be done at any event. -/
theorem passUp_moves {n n₁ n' : Node} {e : NodeEvent} {up : Option (HusarnetAddress × Bytes)}
    (hr : n.receive S now e = .ok (n₁, up)) (h : n₁.passUp S now up = .ok n') :
    Leads (NodeMoves S) (NodeMove.Expected S now n e) n₁ n' := by
  have hroutine {n₁ n' : Node} (h : Leads (NodeMoves S) NodeMove.Routine n₁ n') :
      Leads (NodeMoves S) (NodeMove.Expected S now n e) n₁ n' := h.mono fun _ hm => hm.expected n e
  cases up with
  | none =>
    cases h
    exact .refl n₁
  | some up =>
    obtain ⟨r, hr', hover⟩ := Checked.bind_eq_ok.mp h
    refine Leads.trans ?_ (hroutine (handOver_moves S hover))
    have hhands : n.HandsUp S now e n₁ up.1 r := ⟨up.2, hr, hr'⟩
    have hafter := SecurityLayer.onLowerLayerData_peers hr'
    generalize hpa : up.1 = peerAddress at hafter hhands
    cases hafter with
    | kept hk _ => exact hroutine (layer_moves S hk)
    | @opened sl' peer hk hp _ data =>
      have hopened := NodeMoves.opened (S := S) (n₁.withSecurityLayer sl') peer now
      have hexpected : (NodeMove.opened peer now).Expected S now n e :=
        ⟨rfl, n₁, peerAddress, _, data, hhands, hp, List.mem_singleton_self _⟩
      exact (hroutine (layer_moves S hk)).trans (.one hopened hexpected)

/-- **One event** is a sequence of moves that it can lead to. -/
theorem act_moves {n n' : Node} {e : NodeEvent} (h : n.act S T now e = .ok n') :
    Leads (NodeMoves S) (NodeMove.Expected S now n e) n n' := by
  have hroutine (h : Leads (NodeMoves S) NodeMove.Routine n n') :
      Leads (NodeMoves S) (NodeMove.Expected S now n e) n n' := h.mono fun _ hm => hm.expected n e
  have hsocket (he : IsSocketEvent e) : Leads (NodeMoves S) (NodeMove.Expected S now n e) n n' := by
    rw [act_of_socket S T he] at h
    obtain ⟨⟨n₁, up⟩, hreceive, hpass⟩ := Checked.bind_eq_ok.mp h
    have hfirst : Leads (NodeMoves S) (NodeMove.Expected S now n e) n n₁ :=
      (socket_moves S (receive_moves S hreceive)).mono fun m hm => by
        obtain ⟨m', rfl, hm⟩ := hm
        exact hm
    exact hfirst.trans (passUp_moves S hreceive hpass)
  cases e with
  | tunPacket packet =>
    obtain ⟨packets, -, hpass⟩ := Checked.bind_eq_ok.mp h
    exact hroutine (passDown_moves S hpass)
  | getLatency peerAddress =>
    have hlayer := layer_moves S (SecurityLayer.getLatency_peers now n.securityLayer peerAddress)
    exact hroutine (hlayer.trans (handOver_moves S h))
  | configChange change =>
    cases h
    exact hroutine (layer_moves S (PeersKept.reconfigure n.peerContainer _))
  | baseReachable reachable =>
    cases h
    exact .one (.reachable n reachable) ⟨reachable, rfl⟩
  | udpPacket _ _ => exact hsocket trivial
  | multicastPacket _ _ => exact hsocket trivial
  | tcpFrame _ => exact hsocket trivial
  | tcpClosed => exact hsocket trivial
  | worker => exact hsocket trivial
  | periodic _ => exact hsocket trivial

end Node
end Husarnet
