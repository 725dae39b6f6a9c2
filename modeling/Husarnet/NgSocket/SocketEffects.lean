import Husarnet.Lib.Runs
import Husarnet.NgSocket.Socket
import Husarnet.PeerPaths

/-! # What the socket layer does to a node

Every handler is a sequence of steps: it notes something in the socket's own fields, it sends to
the network, it uses the peer container, and then it keeps every session and every path, or it
makes one of the three calls that write paths. `SocketStep` names these; `SocketEffect` is what
they have in common. That the handlers take such steps only is shown in `Moves`.
-/

namespace Husarnet
open Octets Containers PeerContainer Runs
set_option autoImplicit false

inductive SocketEffect : Node → Node → Prop where
  | note {n n' : Node} (hs : n'.securityLayer = n.securityLayer) (ht : n'.sent = n.sent) : SocketEffect n n'
  | transmit (n : Node) {t : Transmission} (ht : ∀ packet, t ≠ .tun packet) : SocketEffect n (n.transmit t)
  | container (n : Node) {c : PeerContainer} (h : Evolves n.peerContainer c) : SocketEffect n (n.withContainer c)
  | trans {n n' n'' : Node} : SocketEffect n n' → SocketEffect n' n'' → SocketEffect n n''

def tunPackets (sent : List Transmission) : List Bytes := sent.filterMap fun t => match t with
  | .tun packet => some packet
  | _ => none

namespace SocketEffect

theorem refl (n : Node) : SocketEffect n n := .note rfl rfl

theorem modify (n : Node) (peer : PeerRef) {f : Peer → Peer} (hf : KeepsSession f) : SocketEffect n (n.modify peer f) :=
  .container n (.write _ peer hf)

theorem draw (n : Node) : SocketEffect n (n.withContainer n.peerContainer.draw) := .container n (.draw _)

theorem foldl {α : Type} {f : Node → α → Node} (h : ∀ n a, SocketEffect n (f n a)) (n : Node) (as : List α) :
    SocketEffect n (as.foldl f n) := by
  induction as generalizing n with
  | nil => exact .refl n
  | cons a as ih => exact (h n a).trans (ih (f n a))

/-- The layers above change in their container only. -/
theorem evolves {n n' : Node} (h : SocketEffect n n') :
    Evolves n.peerContainer n'.peerContainer ∧
      n'.securityLayer = { n.securityLayer with peerContainer := n'.peerContainer } := by
  induction h with
  | note hs _ =>
    rw [Node.peerContainer, Node.peerContainer, hs]
    exact ⟨.refl _, rfl⟩
  | transmit n _ => exact ⟨.refl _, rfl⟩
  | container n h => exact ⟨h, rfl⟩
  | trans _ _ ih ih' =>
    refine ⟨ih.1.trans ih'.1, ?_⟩
    rw [ih'.2, ih.2]

/-- Nothing goes to the TUN device. -/
theorem tunPackets_eq {n n' : Node} (h : SocketEffect n n') : tunPackets n'.sent = tunPackets n.sent := by
  induction h with
  | note _ ht => rw [ht]
  | @transmit n t ht =>
    rw [Node.transmit, tunPackets, List.filterMap_append]
    cases t with
    | tun packet => exact absurd rfl (ht packet)
    | udp _ _ => exact List.append_nil _
    | multicast _ _ => exact List.append_nil _
    | tcpConnect _ => exact List.append_nil _
    | tcpClose => exact List.append_nil _
    | tcp _ => exact List.append_nil _
  | container n _ => rfl
  | trans _ _ ih ih' => exact ih'.trans ih

end SocketEffect

namespace Node
variable (S : Sodium) (now : Time)

/-! ## The calls that write paths -/

theorem sendHelloTo_effect (peer : PeerRef) (n : Node) (address : InetAddress) :
    SocketEffect n (sendHelloTo S peer n address) := by
  have hsend (n : Node) (msg : PeerToPeerMessage) : SocketEffect n (n.sendToPeer S address msg) :=
    (SocketEffect.transmit n fun _ h => by cases h).trans (.note rfl rfl)
  unfold sendHelloTo
  split
  · exact .refl n
  · dsimp only
    split
    · exact (hsend n _).trans (hsend _ _)
    · exact hsend n _

theorem attemptReestablish_effect (n : Node) (peer : PeerRef) : SocketEffect n (n.attemptReestablish S now peer) := by
  have hwrite (n : Node) (cookie : Bytes) : SocketEffect n (n.modify peer fun p => { p with
      failedEstablishments := p.failedEstablishments + 1
      lastReestablish := now
      reestablishing := true
      helloCookie := cookie }) := .modify n peer fun p => ⟨rfl, rfl, rfl, rfl, rfl, fun h => h⟩
  exact (SocketEffect.draw n).trans ((hwrite _ _).trans (.foldl (sendHelloTo_effect S peer) _ _))

theorem writeSourceAddresses_effect (n : Node) (peer : PeerRef) (f : List InetAddress → List InetAddress) :
    SocketEffect n (n.modify peer fun p => { p with sourceAddresses := f p.sourceAddresses }) :=
  .modify n peer fun _ => ⟨rfl, rfl, rfl, rfl, rfl, fun h => h⟩

theorem removeRandomSourceAddress_effect (n : Node) (peer : PeerRef) :
    SocketEffect n (n.removeRandomSourceAddress peer) :=
  (SocketEffect.draw n).trans ((writeSourceAddresses_effect _ peer fun addresses => addresses.erase _).trans
    (.note rfl rfl))

theorem addSourceAddress_effect (n : Node) (peer : PeerRef) (source : InetAddress) :
    SocketEffect n (n.addSourceAddress peer source) := by
  have hroom : SocketEffect n
      (if (n.deref peer).sourceAddresses.length ≥ MAX_SOURCE_ADDRESSES then n.removeRandomSourceAddress peer
        else n) := by
    split
    · exact removeRandomSourceAddress_effect n peer
    · exact .refl n
  have hadd (n : Node) := writeSourceAddresses_effect n peer fun addresses => addresses ++ [source]
  have hlast (n : Node) (lastPeer : PeerRef) :=
    writeSourceAddresses_effect n lastPeer fun addresses => addresses.erase source
  unfold addSourceAddress
  split
  · exact .refl n
  · dsimp only
    split
    · exact hroom.trans ((hadd _).trans ((hlast _ _).trans (.note rfl rfl)))
    · exact hroom.trans ((hadd _).trans (.note rfl rfl))

theorem helloReplyReceived_effect (n : Node) (source : InetAddress) (myId yourId : HusarnetAddress)
    (helloCookie : Bytes) : SocketEffect n (n.helloReplyReceived source myId yourId helloCookie) := by
  have hget : SocketEffect n (n.getPeer myId).1 := .container n (.getPeer _ myId)
  unfold helloReplyReceived
  split
  · exact .refl n
  · split
    · rename_i n' hg
      rw [hg] at hget
      exact hget
    · rename_i n' peer hg
      rw [hg] at hget
      split
      · exact hget
      · split
        · exact hget
        · exact hget.trans (.modify n' peer fun p => ⟨rfl, rfl, rfl, rfl, rfl, fun h => h⟩)

end Node

/-! ## The steps of a handler -/

/-- What a step does to the paths of peers: nothing, or one of these. -/
inductive SocketCall where
  | rest
  | queued (source : InetAddress) (data : Bytes)
  | claimed (peer : PeerRef) (source : InetAddress)
  | attempted (peer : PeerRef) (helloCookie : Bytes)
  | replied (source : InetAddress) (myId yourId : HusarnetAddress) (helloCookie : Bytes)

namespace SocketCall

/-- The steps that need no message from a peer. -/
def Routine : SocketCall → Prop
  | .rest | .attempted _ _ => True
  | _ => False

/-- The steps with which a message from a peer is handled. -/
def AnswersTo (source : InetAddress) (msg : PeerToPeerMessage) (c : SocketCall) : Prop :=
  c.Routine ∨ (∃ peer myId yourId helloCookie, msg = .HELLO myId yourId helloCookie ∧ c = .claimed peer source) ∨
    ∃ myId yourId helloCookie, msg = .HELLO_REPLY myId yourId helloCookie ∧
      c = .replied source myId yourId helloCookie

/-- The steps with which a datagram from a peer is handled. -/
def Handles (S : Sodium) (source : InetAddress) (data : Bytes) (c : SocketCall) : Prop :=
  c.Routine ∨ ∃ msg, parsePeerToPeerMessage S data = .ok msg ∧ c.AnswersTo source msg

end SocketCall

/-- The cookie that an attempt draws. -/
def Node.nextCookie (n : Node) : Bytes := (n.peerContainer.random.tape.cookie n.peerContainer.random.draws).bytes

/-- The steps of the handlers. An attempt draws its cookie; a refresh is the only task that the
worker is given without a datagram. -/
inductive SocketStep (S : Sodium) : Node → SocketCall → Node → Prop where
  | note {n n' : Node} (hs : n'.securityLayer = n.securityLayer) (ht : n'.sent = n.sent)
      (hi : n'.peerSourceAddresses = n.peerSourceAddresses)
      (hq : ∀ task ∈ n'.workerQueue, task ∈ n.workerQueue ∨ task = .refresh) : SocketStep S n .rest n'
  | transmit (n : Node) {t : Transmission} (ht : ∀ packet, t ≠ .tun packet) : SocketStep S n .rest (n.transmit t)
  | container (n : Node) {c : PeerContainer} (h : Evolves n.peerContainer c) (hp : PathsKept n.peerContainer c) :
      SocketStep S n .rest (n.withContainer c)
  | queued (n : Node) (source : InetAddress) (data : Bytes) (slow : data.getD 0 2 = 0 ∨ data.getD 0 2 = 1) :
      SocketStep S n (.queued source data)
        { n with workerQueue := n.workerQueue ++ [.peerMessage source data slow] }
  | claimed (n : Node) (peer : PeerRef) (source : InetAddress) (h : n.peerContainer.Allocated peer) :
      SocketStep S n (.claimed peer source) (n.addSourceAddress peer source)
  | attempted (now : Time) (n : Node) (peer : PeerRef) :
      SocketStep S n (.attempted peer n.nextCookie) (n.attemptReestablish S now peer)
  | replied (n : Node) (source : InetAddress) (myId yourId : HusarnetAddress) (helloCookie : Bytes) :
      SocketStep S n (.replied source myId yourId helloCookie) (n.helloReplyReceived source myId yourId helloCookie)

theorem SocketStep.effect {S : Sodium} {n n' : Node} {c : SocketCall} (h : SocketStep S n c n') : SocketEffect n n' := by
  cases h with
  | note hs ht _ _ => exact .note hs ht
  | transmit _ ht => exact .transmit n ht
  | container _ h _ => exact .container n h
  | queued _ _ _ _ => exact .note rfl rfl
  | claimed _ peer source _ => exact Node.addSourceAddress_effect n peer source
  | attempted now _ peer => exact Node.attemptReestablish_effect S now n peer
  | replied _ source myId yourId helloCookie =>
    exact Node.helloReplyReceived_effect n source myId yourId helloCookie

abbrev Does (S : Sodium) (P : SocketCall → Prop) : Node → Node → Prop := Leads (SocketStep S) P

/-- **What the steps of a handler have in common.** -/
theorem SocketEffect.of_does {S : Sodium} {P : SocketCall → Prop} {n n' : Node} (h : Does S P n n') : SocketEffect n n' :=
  h.relates (R := SocketEffect) .refl (fun _ _ _ => .trans) fun _ _ _ _ => SocketStep.effect

abbrev Routinely (S : Sodium) : Node → Node → Prop := Does S SocketCall.Routine

namespace Routinely
variable {S : Sodium}

theorem refl (n : Node) : Routinely S n n := Leads.refl n

theorem trans {n n' n'' : Node} (h : Routinely S n n') (h' : Routinely S n' n'') : Routinely S n n'' := Leads.trans h h'

end Routinely

end Husarnet
