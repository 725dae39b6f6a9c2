import Husarnet.Config.UserWhitelist
import Husarnet.DirectPath
import Husarnet.NodeMoves

/-! # Addresses inside the tunnel

The UDP socket takes datagrams from any address, also from one of the tunnel. Hellos are not sent to such
an address, but the answer to a hello goes back to where it came from, and a reply to a hello makes its
source the target of the peer.
-/

namespace Husarnet
open Octets Containers PeerContainer Runs
set_option autoImplicit false

/-- No peer is reached through the tunnel, and no message to a peer went into it. -/
structure Outside (n : Node) : Prop where
  target (peer : PeerRef) : (n.deref peer).targetAddress.ip.isFC94 = false
  sent : ∀ dest msg, .sentToPeer dest msg ∈ n.calls → dest.ip.isFC94 = false

/-- A hello that is answered, or a reply that is accepted, comes from the tunnel. -/
def IntoTunnel (S : Sodium) (n : Node) (e : NodeEvent) : Prop :=
  ∃ source, source.ip.isFC94 = true ∧ ∃ myId yourId helloCookie,
    (n.GetsMessage S e source (.HELLO myId yourId helloCookie) ∧ n.Welcomes myId yourId) ∨
    (n.GetsMessage S e source (.HELLO_REPLY myId yourId helloCookie) ∧ ∃ peer, n.Accepts myId yourId helloCookie peer)

/-- The address that a move takes over from a message. -/
def Move.takes : Move → Option InetAddress
  | .answered source => some source
  | .call (.replied source _ _ _) => some source
  | _ => none

namespace Outside
variable {S : Sodium} {n n' : Node}

/-- The targets are the same, and what was sent went outside. -/
theorem of_records (hn : Outside n) (ht : ∀ peer, (n'.deref peer).targetAddress = (n.deref peer).targetAddress)
    (records : List CallRecord) (hc : n'.calls = n.calls ++ records)
    (hr : ∀ dest msg, .sentToPeer dest msg ∈ records → dest.ip.isFC94 = false) : Outside n' := by
  constructor
  · intro peer
    rw [ht]
    exact hn.target peer
  · intro dest msg hm
    rw [hc] at hm
    exact (List.mem_append.mp hm).elim (hn.sent dest msg) (hr dest msg)

theorem of_target (hn : Outside n) (ht : ∀ peer, (n'.deref peer).targetAddress = (n.deref peer).targetAddress)
    (hc : n'.calls = n.calls) : Outside n' :=
  hn.of_records ht [] (by rw [hc, List.append_nil]) fun _ _ hm => by cases hm

theorem sendToPeer (hn : Outside n) {dest : InetAddress} (msg : PeerToPeerMessage) (hd : dest.ip.isFC94 = false) :
    Outside (n.sendToPeer S dest msg) := by
  refine hn.of_records (fun _ => rfl) [.sentToPeer dest msg] rfl fun dest' msg' hm => ?_
  cases List.mem_singleton.mp hm
  exact hd

theorem attempted (hn : Outside n) (now : Time) (peer : PeerRef) : Outside (n.attemptReestablish S now peer) := by
  obtain ⟨added, records, hsent, -, hr⟩ := Node.attemptReestablish_sent S now n peer
  refine hn.of_records (fun other => ?_) records (congrArg Node.calls hsent) fun dest msg hm => ?_
  · cases PathEffect.attempt S now n peer other with
    | kept h _ => exact h.targetAddress
    | attempted _ h => exact (congrArg Peer.targetAddress h).trans rfl
  · obtain ⟨dest', msg', he, hout⟩ := hr _ hm
    cases he
    exact hout

theorem replied (hn : Outside n) {source : InetAddress} (hs : source.ip.isFC94 = false) (myId yourId : HusarnetAddress)
    (helloCookie : Bytes) : Outside (n.helloReplyReceived source myId yourId helloCookie) := by
  have hlink := (Node.helloReplyReceived_onlyPeers n source myId yourId helloCookie).link
  constructor
  · intro peer
    cases PathEffect.reply n source myId yourId helloCookie peer with
    | kept h _ =>
      rw [h.targetAddress]
      exact hn.target peer
    | reached _ _ h =>
      have htarget := congrArg Peer.targetAddress h
      rw [htarget]
      exact hs
  · intro dest msg hm
    have hcalls : (n.helloReplyReceived source myId yourId helloCookie).calls = n.calls := congrArg LinkState.calls hlink
    exact hn.sent dest msg (hcalls ▸ hm)

/-- **One move** leads into the tunnel only with an address that it takes over. -/
theorem socketMove (hn : Outside n) {m : Move} (h : SocketMove S n m n')
    (hm : ∀ source, m.takes = some source → source.ip.isFC94 = false) : Outside n' := by
  have hsame {n' : Node} (hs : n'.securityLayer = n.securityLayer) (hc : n'.calls = n.calls) : Outside n' :=
    hn.of_target (fun peer => congrArg (fun sl => (sl.peerContainer.deref peer).targetAddress) hs) hc
  have hwrite (peer : PeerRef) (f : Peer → Peer) (hf : ∀ p, (f p).targetAddress = p.targetAddress) :
      Outside (n.modify peer f) := hn.of_target (read_modify Peer.targetAddress n.peerContainer peer f hf) rfl
  cases h with
  | note h _ => exact hsame (congrArg Lasting.securityLayer h) (congrArg (fun l => l.link.calls) h)
  | udp _ _ _ => exact hsame rfl rfl
  | multicast _ _ _ => exact hsame rfl rfl
  | toPeer _ dest msg hd =>
    obtain hd | ⟨peer, rfl⟩ := hd
    · exact hn.sendToPeer msg hd
    · exact hn.sendToPeer msg (hn.target peer)
  | tcp _ _ _ _ _ => exact hsame rfl rfl
  | connected now _ =>
    rw [Node.connectToBase_eq]
    exact hsame rfl rfl
  | disconnected now _ hc =>
    rw [Node.tcpClosed, if_pos hc]
    exact hsame rfl rfl
  | container _ _ hp => exact hn.of_target (fun peer => (hp.peer peer).targetAddress) rfl
  | sentData _ peer now _ =>
    have hlast := hwrite peer (fun p => { p with lastPacket := now }) fun _ => rfl
    refine hlast.of_records (fun _ => rfl) [.sentData peer now _] rfl fun dest msg hm => ?_
    cases List.mem_singleton.mp hm
  | queued _ _ _ _ => exact hsame rfl rfl
  | claimed _ peer source _ =>
    have hlink := (Node.addSourceAddress_onlyPeers n peer source).link
    exact hn.of_target (fun other => ((Node.addSourceAddress_targets n peer source).targets.peer other).targetAddress)
      (congrArg LinkState.calls hlink)
  | attempted now _ peer => exact hn.attempted now peer
  | replied _ source myId yourId helloCookie => exact hn.replied (hm source rfl) myId yourId helloCookie
  | answered _ source msg => exact hn.sendToPeer msg (hm source rfl)
  | confirmed _ _ => exact hsame rfl rfl
  | greeted _ _ => exact hsame rfl rfl
  | expired _ _ peer _ => exact hwrite peer _ fun _ => rfl

theorem nodeMove (hn : Outside n) {m : NodeMove} (h : NodeMoves S n m n')
    (hm : ∀ m' source, m = .socket m' → m'.takes = some source → source.ip.isFC94 = false) : Outside n' := by
  cases h with
  | socket h => exact hn.socketMove h fun source => hm _ source rfl
  | layer hk => exact hn.of_target (fun peer => (hk.peer peer).targetAddress) rfl
  | opened peer now => exact hn.of_target (read_modify Peer.targetAddress n.peerContainer peer _ fun _ => rfl) rfl
  | tun _ => exact hn.of_target (fun _ => rfl) rfl
  | reachable _ => exact hn.of_target (fun _ => rfl) rfl

end Outside

/-! ## One event -/

section Events
variable {S : Sodium} {T : JsonText} {n n' : Node} {now : Time} {e : NodeEvent}

/-- An address that is taken over comes from a message that is answered or accepted. -/
theorem NodeMove.SocketExpected.takes {m : Move} (h : NodeMove.SocketExpected S now n e m) {source : InetAddress}
    (hm : m.takes = some source) (hs : source.ip.isFC94 = true) : IntoTunnel S n e := by
  have horigin := h.origin
  cases m with
  | call c =>
    cases c with
    | replied source' myId yourId helloCookie =>
      cases hm
      exact ⟨source, hs, myId, yourId, helloCookie, Or.inr horigin⟩
    | rest => cases hm
    | attempted _ _ => cases hm
    | queued _ _ => cases hm
    | claimed _ _ => cases hm
  | answered source' =>
    cases hm
    obtain ⟨myId, yourId, helloCookie, hwelcome⟩ := horigin
    exact ⟨source, hs, myId, yourId, helloCookie, Or.inl hwelcome⟩
  | confirmed _ => cases hm
  | greeted _ => cases hm
  | expired _ _ => cases hm

theorem Outside.act (hn : Outside n) (h : { n with sent := [] }.act S T now e = .ok n') (hi : ¬ IntoTunnel S n e) :
    Outside n' := by
  have hstart : Outside { n with sent := [] } := ⟨hn.target, hn.sent⟩
  refine (Node.act_moves S T h).relates (R := fun n n' => Outside n → Outside n') (fun _ h => h)
    (fun _ _ _ h₁ h₂ h => h₂ (h₁ h)) (fun n₁ m n₂ hm hstep h => ?_) hstart
  refine h.nodeMove hstep fun m' source he ht => ?_
  subst he
  by_contra hs
  obtain ⟨source, hs, myId, yourId, helloCookie, hhello | ⟨hg, peer, ha⟩⟩ := hm.takes ht (Bool.not_eq_false _ ▸ hs)
  · exact hi ⟨source, hs, myId, yourId, helloCookie, Or.inl hhello⟩
  · exact hi ⟨source, hs, myId, yourId, helloCookie, Or.inr ⟨hg, peer, ha.own, ha.found, ha.reestablishing, ha.cookie⟩⟩

/-- The worker handles a hello or a reply and is done with its event. -/
theorem act_message {source : InetAddress} {msg : PeerToPeerMessage}
    (h : { n with sent := [] }.act S T now e = .ok n') (hg : n.GetsMessage S e source msg)
    (hm : ∀ data, msg ≠ .DATA data) :
    ∃ tasks, n' = ({ n with sent := [], workerQueue := tasks }.peerMessageReceived S now source msg).1 := by
  obtain ⟨rfl, data, slow, hq, hmsg⟩ := hg
  obtain ⟨tasks, hq⟩ := List.head?_eq_some_iff.mp hq
  have hreceive : { n with sent := [] }.receive S now .worker =
      .ok ({ n with sent := [], workerQueue := tasks }.peerMessageReceived S now source msg) :=
    Node.workerStep_message S now (n := { n with sent := [] }) hq hmsg
  have hnone : ({ n with sent := [], workerQueue := tasks }.peerMessageReceived S now source msg).2 = none := by
    cases msg with
    | DATA data => exact absurd rfl (hm data)
    | HELLO _ _ _ => rfl
    | HELLO_REPLY _ _ _ => rfl
    | INVALID => rfl
  have hevent : Node.IsSocketEvent .worker := trivial
  rw [Node.act_of_socket S T hevent, hreceive] at h
  refine ⟨tasks, ?_⟩
  generalize { n with sent := [], workerQueue := tasks }.peerMessageReceived S now source msg = r at hnone h
  obtain ⟨n₁, up⟩ := r
  cases hnone
  exact (Except.ok.inj h).symm

theorem helloReceived_answers (S : Sodium) (now : Time) (source : InetAddress) {myId yourId : HusarnetAddress}
    (helloCookie : Bytes) (hw : n.Welcomes myId yourId) :
    ∃ (n₁ : Node) (msg : PeerToPeerMessage), n.helloReceived S now source myId yourId helloCookie = n₁.sendToPeer S source msg := by
  unfold Node.helloReceived
  rw [if_neg (not_not.mpr hw.1)]
  split
  · rename_i hg
    exact absurd (congrArg Prod.snd hg) hw.2
  · exact ⟨_, _, rfl⟩

theorem helloReplyReceived_reaches (source : InetAddress) {myId yourId : HusarnetAddress} {helloCookie : Bytes}
    {peer : PeerRef} (ha : n.Accepts myId yourId helloCookie peer) :
    ((n.helloReplyReceived source myId yourId helloCookie).deref peer).targetAddress = source := by
  have h := Node.helloReplyReceived_handling n source myId yourId helloCookie
  generalize n.helloReplyReceived source myId yourId helloCookie = n' at h ⊢
  cases h with
  | foreign h => exact absurd ha.own h
  | ignored h => exact absurd ha (h peer)
  | accepted peer' ha' =>
    have hsame : peer' = peer := Option.some.inj (ha'.found.symm.trans ha.found)
    have hpoints : PointsTo (n.getPeer myId).1.peerContainer.heap peer myId :=
      (PathsKept.getPeer n.peerContainer myId).pointsTo peer myId (getPeer_pointsTo ha.found)
    subst hsame
    exact congrArg Peer.targetAddress (deref_modify_self (allocated_of_pointsTo hpoints) (Node.reached source))

theorem IntoTunnel.not_outside (hi : IntoTunnel S n e) (h : { n with sent := [] }.act S T now e = .ok n') : ¬ Outside n' := by
  obtain ⟨source, hs, myId, yourId, helloCookie, ⟨hg, hw⟩ | ⟨hg, peer, ha⟩⟩ := hi
  · obtain ⟨tasks, rfl⟩ := act_message h hg fun _ hm => by cases hm
    have hwelcome : { n with sent := [], workerQueue := tasks }.Welcomes myId yourId := hw
    obtain ⟨n₁, msg, he⟩ := helloReceived_answers S now source helloCookie hwelcome
    intro hout
    have hsent : .sentToPeer source msg ∈
        ({ n with sent := [], workerQueue := tasks }.helloReceived S now source myId yourId helloCookie).calls := by
      rw [he]
      exact List.mem_append_right _ (List.mem_singleton_self _)
    have houtside := hout.sent source msg hsent
    rw [hs] at houtside
    cases houtside
  · obtain ⟨tasks, rfl⟩ := act_message h hg fun _ hm => by cases hm
    have hacc : { n with sent := [], workerQueue := tasks }.Accepts myId yourId helloCookie peer :=
      ⟨ha.own, ha.found, ha.reestablishing, ha.cookie⟩
    intro hout
    have houtside := hout.target peer
    have hreached := helloReplyReceived_reaches source hacc
    have htarget : ((({ n with sent := [], workerQueue := tasks }.peerMessageReceived S now source
        (.HELLO_REPLY myId yourId helloCookie)).1).deref peer).targetAddress = source := hreached
    rw [htarget, hs] at houtside
    cases houtside

end Events

/-- **When no tunnel runs inside the tunnel.** In a run of a node from its start, no message to a peer goes to an
address of the tunnel and no peer has one for its target, if and only if no hello that is answered and no reply
that is accepted comes from such an address. -/
theorem outside_tunnel_iff (S : Sodium) (T : JsonText) (configManager : ConfigManager) (identity : Identity)
    (tape : Tape) (myFlags : PeerFlags) (boot : UInt64) (userAgent : Bytes) (workerQueueSize : ℕ) (sourcePort : UInt16)
    (events : List (Time × NodeEvent)) :
    let n₀ := Node.new configManager identity tape myFlags boot userAgent workerQueueSize sourcePort
    let run := n₀.run S T events
    (∀ u ∈ states n₀ run, Outside u) ↔ ∀ x ∈ transitions n₀ run, ¬ IntoTunnel S x.1 x.2.1.2 := by
  intro n₀ run
  have hrun := n₀.isRun_run S T events
  constructor
  · intro hout x hx hi
    exact hi.not_outside (hrun.of_mem hx).2 (hout _ (target_mem_states hx))
  · intro hi
    have hstart : Outside n₀ := ⟨fun _ => rfl, fun _ _ hm => by cases hm⟩
    exact hrun.invariant (G := fun n e _ => ¬ IntoTunnel S n e.2) hstart (fun _ _ _ hn hg hstep => hn.act hstep hg) hi

/-- A hello of a peer comes from the tunnel address of that peer. -/
def helloFromTunnel : List (Time × NodeEvent) :=
  [(0, .udpPacket ⟨(clearIdentity 2).deviceId, 5582⟩ (serializePeerToPeerMessage clearSodium (clearIdentity 2)
      (.HELLO .invalid (clearIdentity 1).deviceId (List.replicate 16 0)))),
    (0, .worker)]

/-- The answer goes into the tunnel. -/
theorem hello_answered_into_tunnel :
    let n₀ := openNode (clearIdentity 1)
    ¬ ∀ u ∈ states n₀ (n₀.run clearSodium ConfigManager.plainText helloFromTunnel), Outside u := by
  intro n₀ hall
  have hout := hall _ (mem_states_last n₀ _)
  have hsent : (last n₀ (n₀.run clearSodium ConfigManager.plainText helloFromTunnel)).calls =
      [.sentToPeer ⟨(clearIdentity 2).deviceId, 5582⟩
        (.HELLO_REPLY .invalid (clearIdentity 2).deviceId (List.replicate 16 0))] := by decide +kernel
  have houtside := hout.sent _ _ (hsent ▸ List.mem_singleton_self _)
  have hinside : (clearIdentity 2).deviceId.isFC94 = true := by decide +kernel
  rw [hinside] at houtside
  cases houtside

end Husarnet
