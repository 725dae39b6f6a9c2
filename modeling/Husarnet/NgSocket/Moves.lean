import Husarnet.NgSocket.Paths

/-! # The moves of the handlers

The steps of the socket layer in full: what `SocketStep` leaves open about the cookie, the base
connection, the timers and the calls of a handler is said here, for every handler. Each move is a
sequence of the coarser steps.
-/

namespace Husarnet
open Octets Containers PeerContainer Runs
set_option autoImplicit false

/-- What a node has sent, and what it knows of its connection to the base server. -/
structure LinkState where
  userAgent : Bytes
  cookie : Bytes
  lastNatInitConfirmation : Time
  baseConnection : Bool
  baseReachable : Bool
  sent : List Transmission
  calls : List CallRecord

/-- What the notes of a handler in the socket's own fields leave alone. -/
structure Lasting where
  securityLayer : SecurityLayer
  peerSourceAddresses : List (InetAddress × PeerRef)
  link : LinkState

def Node.link (n : Node) : LinkState where
  userAgent := n.userAgent
  cookie := n.cookie
  lastNatInitConfirmation := n.lastNatInitConfirmation
  baseConnection := n.baseConnection
  baseReachable := n.baseReachable
  sent := n.sent
  calls := n.calls

def Node.lasting (n : Node) : Lasting := ⟨n.securityLayer, n.peerSourceAddresses, n.link⟩

theorem Node.OnlyPeers.link {n n' : Node} (h : n.OnlyPeers n') : n'.link = n.link := by
  obtain ⟨sl, index, rfl⟩ := h
  rfl

/-- The hello is for this node, which has the peer or creates it. -/
def Node.Welcomes (n : Node) (myId yourId : HusarnetAddress) : Prop :=
  yourId = n.myIdentity.deviceId ∧ (n.getOrCreatePeer myId).2 ≠ none

/-- A step of a handler: a coarse one, the answer to a hello, the write that a NAT_OK or a HELLO of the
base makes, or the end of a session that was silent for too long. -/
inductive Move where
  | call (c : SocketCall)
  | answered (source : InetAddress)
  | confirmed (now : Time)
  | greeted (cookie : FString 16)
  | expired (peer : PeerRef) (now : Time)

namespace Move

def toCall : Move → SocketCall
  | .call c => c
  | _ => .rest

def Routine : Move → Prop
  | .call c => c.Routine
  | _ => False

theorem Routine.toCall {m : Move} (h : m.Routine) : m.toCall.Routine := by
  cases m with
  | call c => exact h
  | answered _ => cases h
  | confirmed _ => cases h
  | greeted _ => cases h
  | expired _ _ => cases h

/-- The moves with which a message from a peer is handled. -/
def AnswersTo (n : Node) (source : InetAddress) (msg : PeerToPeerMessage) (m : Move) : Prop :=
  m.Routine ∨
    (∃ peer myId yourId helloCookie, msg = .HELLO myId yourId helloCookie ∧ n.Welcomes myId yourId ∧
      (m = .call (.claimed peer source) ∨ m = .answered source)) ∨
    ∃ peer myId yourId helloCookie, msg = .HELLO_REPLY myId yourId helloCookie ∧
      n.Accepts myId yourId helloCookie peer ∧ m = .call (.replied source myId yourId helloCookie)

/-- The moves with which a datagram from a peer is handled. -/
def Handles (S : Sodium) (n : Node) (source : InetAddress) (data : Bytes) (m : Move) : Prop :=
  m.Routine ∨ ∃ msg, parsePeerToPeerMessage S data = .ok msg ∧ m.AnswersTo n source msg

end Move

/-- The moves of the handlers. A message to a peer goes to its target or outside the tunnel, but for the
answer to a hello. -/
inductive SocketMove (S : Sodium) : Node → Move → Node → Prop where
  | note {n n' : Node} (h : n'.lasting = n.lasting)
      (hq : ∀ task ∈ n'.workerQueue, task ∈ n.workerQueue ∨ task = .refresh) : SocketMove S n (.call .rest) n'
  | udp (n : Node) (dest : InetAddress) (data : Bytes) : SocketMove S n (.call .rest) (n.transmit (.udp dest data))
  | multicast (n : Node) (dest : InetAddress) (data : Bytes) :
      SocketMove S n (.call .rest) (n.transmit (.multicast dest data))
  | toPeer (n : Node) (dest : InetAddress) (msg : PeerToPeerMessage)
      (h : dest.ip.isFC94 = false ∨ ∃ peer, dest = (n.deref peer).targetAddress) :
      SocketMove S n (.call .rest) (n.sendToPeer S dest msg)
  | tcp (n : Node) (msg : PeerToBaseMessage) (hc : n.baseConnection = true) (hk : n.cookie ≠ [])
      (hm : ∀ userAgent, msg ≠ .USER_AGENT userAgent) :
      SocketMove S n (.call .rest) (n.transmit (.tcp (serializePeerToBaseMessage S n.baseSession msg)))
  | connected (now : Time) (n : Node) : SocketMove S n (.call .rest) (n.connectToBase S now)
  | disconnected (now : Time) (n : Node) (hc : n.baseConnection = true) :
      SocketMove S n (.call .rest) (n.tcpClosed now)
  | container (n : Node) {c : PeerContainer} (h : Evolves n.peerContainer c) (hp : PeersKept n.peerContainer c) :
      SocketMove S n (.call .rest) (n.withContainer c)
  | sentData (n : Node) (peer : PeerRef) (now : Time) (h : n.peerContainer.Allocated peer) :
      SocketMove S n (.call .rest)
        ((n.modify peer fun p => { p with lastPacket := now }).record
          (.sentData peer now (!(n.deref peer).isActive now)))
  | queued (n : Node) (source : InetAddress) (data : Bytes) (slow : data.getD 0 2 = 0 ∨ data.getD 0 2 = 1) :
      SocketMove S n (.call (.queued source data))
        { n with workerQueue := n.workerQueue ++ [.peerMessage source data slow] }
  | claimed (n : Node) (peer : PeerRef) (source : InetAddress) (h : n.peerContainer.Allocated peer) :
      SocketMove S n (.call (.claimed peer source)) (n.addSourceAddress peer source)
  | attempted (now : Time) (n : Node) (peer : PeerRef) :
      SocketMove S n (.call (.attempted peer n.nextCookie)) (n.attemptReestablish S now peer)
  | replied (n : Node) (source : InetAddress) (myId yourId : HusarnetAddress) (helloCookie : Bytes) :
      SocketMove S n (.call (.replied source myId yourId helloCookie))
        (n.helloReplyReceived source myId yourId helloCookie)
  | answered (n : Node) (source : InetAddress) (msg : PeerToPeerMessage) :
      SocketMove S n (.answered source) (n.sendToPeer S source msg)
  | confirmed (now : Time) (n : Node) :
      SocketMove S n (.confirmed now) { n with lastNatInitConfirmation := now, natInitConfirmed := true }
  | greeted (n : Node) (cookie : FString 16) : SocketMove S n (.greeted cookie) { n with cookie := cookie.bytes }
  | expired (now : Time) (n : Node) (peer : PeerRef)
      (h : (n.deref peer).negotiated = true ∧ (n.deref peer).lastValidPacket < now - RENEGOTIATION_TIMEOUT) :
      SocketMove S n (.expired peer now) (n.modify peer fun p => { p with negotiated := false, connected := false })

abbrev Moves (S : Sodium) (P : Move → Prop) : Node → Node → Prop := Leads (SocketMove S) P

/-! ## The coarser steps of a move -/

namespace SocketMove
variable {S : Sodium}

theorem connectToBase_routinely (now : Time) (n : Node) : Routinely S n (n.connectToBase S now) := by
  have hsend (n : Node) (t : Transmission) (ht : ∀ packet, t ≠ .tun packet) : Routinely S n (n.transmit t) :=
    .one (.transmit n ht) trivial
  have hnote (n : Node) (baseAddress : InetAddress) (retries : ℕ) :
      Routinely S n { n with baseAddress := baseAddress, baseConnectRetries := retries } :=
    .one (.note rfl rfl rfl fun _ => Or.inl) trivial
  have hclose (n : Node) : Routinely S n (if n.baseConnection then n.transmit .tcpClose else n) := by
    split
    · exact hsend n _ (by simp)
    · exact .refl n
  have hopened (n : Node) (reachable : Bool) :
      Routinely S n { n with baseConnection := reachable, lastBaseTcpAction := now } :=
    .one (.note rfl rfl rfl fun _ => Or.inl) trivial
  have hagent (n : Node) (msg : PeerToBaseMessage) : Routinely S n (n.sendToBaseTcp S msg) := by
    unfold Node.sendToBaseTcp
    split
    · exact .refl n
    · exact hsend n _ (by simp)
  exact (hnote n _ _).trans ((hclose _).trans ((hsend _ _ (by simp)).trans ((hopened _ _).trans (hagent _ _))))

theorem does {n n' : Node} {m : Move} (h : SocketMove S n m n') {Q : SocketCall → Prop} (hr : ∀ c, c.Routine → Q c)
    (hm : Q m.toCall) : Does S Q n n' := by
  have hsend (n : Node) (t : Transmission) (ht : ∀ packet, t ≠ .tun packet) : Does S Q n (n.transmit t) :=
    .one (.transmit n ht) (hr _ trivial)
  have hrecord (n : Node) (r : CallRecord) : Does S Q n (n.record r) :=
    .one (.note rfl rfl rfl fun _ => Or.inl) (hr _ trivial)
  have hpeer (n : Node) (dest : InetAddress) (msg : PeerToPeerMessage) : Does S Q n (n.sendToPeer S dest msg) :=
    (hsend n _ (by simp)).trans (hrecord _ _)
  have hwrite (n : Node) (peer : PeerRef) (f : Peer → Peer) (hf : KeepsSession f) (hp : KeepsPath f) :
      Does S Q n (n.modify peer f) :=
    .one (.container n (.write _ peer hf) (Kept.modify PathKept.refl _ peer hp)) (hr _ trivial)
  cases h with
  | note h hq =>
    exact .one (.note (congrArg Lasting.securityLayer h) (congrArg (fun l => l.link.sent) h)
      (congrArg Lasting.peerSourceAddresses h) hq) hm
  | udp _ dest data => exact hsend n _ (by simp)
  | multicast _ dest data => exact hsend n _ (by simp)
  | toPeer _ dest msg _ => exact hpeer n dest msg
  | tcp _ msg _ _ _ => exact hsend n _ (by simp)
  | connected now _ => exact (connectToBase_routinely now n).mono fun c => hr c
  | disconnected now _ hc =>
    unfold Node.tcpClosed
    rw [if_pos hc]
    exact (hsend n _ (by simp)).trans (.one (.note rfl rfl rfl fun _ => Or.inl) (hr _ trivial))
  | container _ h hp => exact .one (.container n h hp.paths) hm
  | sentData _ peer now _ =>
    have hlast : Does S Q n (n.modify peer fun p => { p with lastPacket := now }) :=
      hwrite n peer _ (fun _ => ⟨rfl, rfl, rfl, rfl, rfl, fun h => h⟩)
        fun _ => ⟨⟨rfl, rfl, rfl, rfl, rfl, fun h => h⟩, rfl⟩
    exact hlast.trans (hrecord _ _)
  | queued _ source data slow => exact .one (.queued n source data slow) hm
  | claimed _ peer source h => exact .one (.claimed n peer source h) hm
  | attempted now _ peer => exact .one (.attempted now n peer) hm
  | replied _ source myId yourId helloCookie => exact .one (.replied n source myId yourId helloCookie) hm
  | answered _ source msg => exact hpeer n source msg
  | confirmed now _ => exact .one (.note rfl rfl rfl fun _ => Or.inl) hm
  | greeted _ cookie => exact .one (.note rfl rfl rfl fun _ => Or.inl) hm
  | expired now _ peer _ =>
    refine hwrite n peer _ (fun _ => ⟨rfl, rfl, rfl, rfl, rfl, fun h => by cases h⟩) fun _ => ?_
    exact ⟨⟨rfl, rfl, rfl, rfl, rfl, fun h => by cases h⟩, rfl⟩

end SocketMove

namespace Moves
variable {S : Sodium} {P : Move → Prop}

theorem does {Q : SocketCall → Prop} (hr : ∀ c, c.Routine → Q c) (hq : ∀ m, P m → Q m.toCall) {n n' : Node}
    (h : Moves S P n n') : Does S Q n n' :=
  h.relates (R := Does S Q) .refl (fun _ _ _ => .trans) fun _ m _ hm hstep => hstep.does hr (hq m hm)

theorem routinely {n n' : Node} (h : Moves S Move.Routine n n') : Routinely S n n' :=
  h.does (fun _ hc => hc) fun _ => Move.Routine.toCall

theorem effect {n n' : Node} (h : Moves S P n n') : SocketEffect n n' :=
  .of_does (h.does (Q := fun _ => True) (fun _ _ => trivial) fun _ _ => trivial)

theorem allocated {n n' : Node} (h : Moves S P n n') {peer : PeerRef} (ha : n.peerContainer.Allocated peer) :
    n'.peerContainer.Allocated peer := by
  obtain ⟨p, hp, -⟩ := h.effect.evolves.1.keepsEntries.old peer _ ha.entry
  exact (List.getElem?_eq_some_iff.mp hp).1

theorem note {n n' : Node} (h : n'.lasting = n.lasting) (hq : n'.workerQueue = n.workerQueue) :
    Moves S Move.Routine n n' := .one (.note h fun _ ht => Or.inl (hq ▸ ht)) trivial

theorem modify (n : Node) (peer : PeerRef) {f : Peer → Peer} (hf : KeepsSession f) (hp : KeepsPeer f) :
    Moves S Move.Routine n (n.modify peer f) := .one (.container n (.write _ peer hf) (.modify _ peer hp)) trivial

theorem getPeer (n : Node) (id : HusarnetAddress) : Moves S Move.Routine n (n.getPeer id).1 :=
  .one (.container n (.getPeer _ id) (.getPeer _ id)) trivial

theorem getOrCreatePeer (n : Node) (id : HusarnetAddress) : Moves S Move.Routine n (n.getOrCreatePeer id).1 :=
  .one (.container n (.getOrCreatePeer _ id) (.getOrCreatePeer _ id)) trivial

theorem answers {n n' : Node} (h : Moves S Move.Routine n n') (m : Node) (source : InetAddress)
    (msg : PeerToPeerMessage) : Moves S (Move.AnswersTo m source msg) n n' := h.mono fun _ => Or.inl

end Moves

namespace Node
variable (S : Sodium) (now : Time)

/-! ## Sending -/

theorem sendToPeer_routinely (n : Node) (dest : InetAddress) (msg : PeerToPeerMessage) :
    Routinely S n (n.sendToPeer S dest msg) := (SocketMove.answered n dest msg).does (fun _ hc => hc) trivial

theorem sendToBaseTcp_moves (n : Node) (msg : PeerToBaseMessage) (hm : ∀ userAgent, msg ≠ .USER_AGENT userAgent) :
    Moves S Move.Routine n (n.sendToBaseTcp S msg) := by
  unfold sendToBaseTcp
  split
  · exact .refl n
  · rename_i h
    have hopen : n.baseConnection = true ∧ n.cookie ≠ [] := by simpa using h
    exact .one (.tcp n msg hopen.1 hopen.2 hm) trivial

/-- Nothing is written without a connection or without a cookie. -/
theorem sendToBaseTcp_eq (n : Node) (msg : PeerToBaseMessage) : n.sendToBaseTcp S msg = { n with
    sent := n.sent ++ if n.baseConnection = true ∧ n.cookie ≠ [] then
      [.tcp (serializePeerToBaseMessage S n.baseSession msg)] else [] } := by
  unfold sendToBaseTcp
  by_cases hopen : n.baseConnection = true ∧ n.cookie ≠ []
  · rw [if_pos hopen, if_neg (by simpa using hopen)]
    rfl
  · rw [if_neg hopen, if_pos (by simpa [or_iff_not_imp_left] using hopen), List.append_nil]

theorem sendToBaseTcp_securityLayer (n : Node) (msg : PeerToBaseMessage) :
    (n.sendToBaseTcp S msg).securityLayer = n.securityLayer := by rw [sendToBaseTcp_eq]

/-- The address that the next call of `connectToBase` connects to. -/
def connectTarget (n : Node) : InetAddress :=
  let addresses := n.configManager.getBaseAddresses
  ⟨addresses.getD (n.baseConnectRetries % addresses.length) default, BASESERVER_PORT⟩

def userAgentFrame (userAgent : Bytes) : Bytes := [4] ++ userAgent

/-- What `connectToBase` sends. -/
def connectSends (n : Node) : List Transmission :=
  (if n.baseConnection then [.tcpClose] else []) ++ .tcpConnect n.connectTarget ::
    if n.baseReachable = true ∧ n.cookie ≠ [] then [.tcp (userAgentFrame n.userAgent)] else []

/-- The USER_AGENT message is dropped on a connection of a node without a cookie. -/
theorem connectToBase_eq (n : Node) : n.connectToBase S now = { n with
    baseAddress := n.connectTarget
    baseConnectRetries := n.baseConnectRetries + 1
    baseConnection := n.baseReachable
    lastBaseTcpAction := now
    sent := n.sent ++ n.connectSends } := by
  unfold connectToBase connectSends
  rw [sendToBaseTcp_eq]
  cases n.baseConnection with
  | true => simp [transmit, connectTarget, serializePeerToBaseMessage, userAgentFrame]
  | false => simp [transmit, connectTarget, serializePeerToBaseMessage, userAgentFrame]

theorem foldl_transmit (n : Node) (addresses : List InetAddress) (data : Bytes) :
    addresses.foldl (fun n address => n.transmit (.udp address data)) n =
      { n with sent := n.sent ++ addresses.map fun address => .udp address data } := by
  induction addresses generalizing n with
  | nil => simp
  | cons address addresses ih =>
    rw [List.foldl_cons, ih]
    simp [transmit]

theorem sendToBaseUdp_sent (n : Node) (msg : PeerToBaseMessage) :
    ∃ sent, n.sendToBaseUdp S msg = { n with sent := sent } := by
  unfold sendToBaseUdp
  split
  · exact ⟨_, rfl⟩
  · simp only [foldl_transmit]
    cases msg with
    | NAT_INIT => exact ⟨_, rfl⟩
    | NAT_OK_CONFIRM => exact ⟨_, rfl⟩
    | NAT_INIT_TRANSIENT => exact ⟨_, rfl⟩
    | REQUEST_INFO _ => exact ⟨_, rfl⟩
    | DATA _ _ => exact ⟨_, rfl⟩
    | INFO => exact ⟨_, rfl⟩
    | USER_AGENT _ => exact ⟨_, rfl⟩

theorem sendToBaseUdp_moves (n : Node) (msg : PeerToBaseMessage) : Moves S Move.Routine n (n.sendToBaseUdp S msg) := by
  have hudp (n : Node) (dest : InetAddress) (data : Bytes) : Moves S Move.Routine n (n.transmit (.udp dest data)) :=
    .one (.udp n dest data) trivial
  unfold sendToBaseUdp
  split
  · exact .refl n
  · have hall (data : Bytes) : Moves S Move.Routine n
        (n.allBaseUdpAddresses.foldl (fun n address => n.transmit (.udp address data)) n) :=
      .foldl (fun n address => hudp n address data) n _
    cases msg with
    | NAT_INIT => exact hall _
    | NAT_OK_CONFIRM => exact hall _
    | NAT_INIT_TRANSIENT => exact .refl n
    | REQUEST_INFO _ => exact hudp n _ _
    | DATA _ _ => exact hudp n _ _
    | INFO => exact hudp n _ _
    | USER_AGENT _ => exact hudp n _ _

theorem resendInfoRequests_moves (n : Node) : Moves S Move.Routine n (n.resendInfoRequests S now) := by
  refine .foldl (fun n peer => ?_) n _
  split
  · exact sendToBaseTcp_moves S n _ (by simp)
  · exact .refl n

theorem sendMulticast_moves (n : Node) : Moves S Move.Routine n n.sendMulticast := by
  have hsend (n : Node) (dest : InetAddress) (data : Bytes) :
      Moves S Move.Routine n (n.transmit (.multicast dest data)) := .one (.multicast n dest data) trivial
  exact (hsend n _ _).trans (hsend _ _ _)

theorem sendNatInitToBase_moves (n : Node) : Moves S Move.Routine n (n.sendNatInitToBase S now) := by
  unfold sendNatInitToBase
  split
  · exact .refl n
  · have hnote : Moves S Move.Routine n { n with
        lastNatInitSent := now
        natInitConfirmed := false
        natInitCounter := n.natInitCounter + 1 } := .note rfl rfl
    have hinit := hnote.trans (sendToBaseUdp_moves S _ .NAT_INIT)
    dsimp only
    split
    · exact hinit.trans ((sendToBaseUdp_moves S _ _).trans (Moves.note rfl rfl))
    · exact hinit

/-! ## Peers -/

theorem attemptReestablish_moves (n : Node) (peer : PeerRef) :
    Moves S Move.Routine n (n.attemptReestablish S now peer) := .one (.attempted now n peer) trivial

theorem disconnect_moves (n : Node) (peer : PeerRef) :
    Moves S Move.Routine n (n.modify peer fun p => { p with connected := false }) :=
  .modify n peer (fun _ => ⟨rfl, rfl, rfl, rfl, rfl, fun h => h⟩)
    fun _ => ⟨⟨⟨rfl, rfl, rfl, rfl, rfl, fun h => by cases h⟩, rfl⟩, ⟨rfl, rfl, fun h => h⟩⟩

/-- The moves of a refresh. -/
def Refreshes (now : Time) (m : Move) : Prop := m.Routine ∨ ∃ peer, m = .expired peer now

theorem periodicPeer_moves (n : Node) (peer : PeerRef) :
    Moves S (Refreshes now) n (n.periodicPeer S now peer) := by
  have hroutine {n n' : Node} (h : Moves S Move.Routine n n') : Moves S (Refreshes now) n n' := h.mono fun _ => Or.inl
  unfold periodicPeer
  dsimp only
  split
  · rename_i hsilent
    exact .one (.expired now n peer hsilent) (Or.inr ⟨peer, rfl⟩)
  · split
    · exact hroutine (disconnect_moves S n peer)
    · split
      · exact hroutine ((disconnect_moves S n peer).trans (attemptReestablish_moves S now _ peer))
      · exact hroutine (attemptReestablish_moves S now n peer)

theorem refresh_moves (n : Node) : Moves S (Refreshes now) n (n.refresh S now) := by
  have hnote : Moves S Move.Routine n { n with lastRefresh := now } := .note rfl rfl
  have hsend := hnote.trans ((sendToBaseTcp_moves S _ .INFO (by simp)).trans ((sendNatInitToBase_moves S now _).trans
    (sendMulticast_moves S _)))
  exact (hsend.mono fun _ => Or.inl).trans (.foldl (periodicPeer_moves S now) _ _)

theorem requestRefresh_moves (n : Node) : Moves S Move.Routine n n.requestRefresh := by
  unfold requestRefresh
  split
  · refine .one (.note rfl fun task h => ?_) trivial
    rw [List.mem_append, List.mem_singleton] at h
    exact h
  · exact .refl n

theorem relayDataToPeer_moves (n : Node) (peer : PeerRef) (data : Bytes) :
    Moves S Move.Routine n (n.relayDataToPeer S now peer data) := by
  unfold relayDataToPeer
  dsimp only
  split
  · refine (attemptReestablish_moves S now n peer).trans ?_
    split
    · exact sendToBaseUdp_moves S _ _
    · exact sendToBaseTcp_moves S _ _ (by simp)
  · split
    · exact sendToBaseUdp_moves S n _
    · exact sendToBaseTcp_moves S n _ (by simp)

theorem sendDataToPeer_moves (n : Node) {peer : PeerRef} (ha : n.peerContainer.Allocated peer) (data : Bytes) :
    Moves S Move.Routine n (n.sendDataToPeer S now peer data) := by
  -- the request for addresses changes no peer
  have hend (n : Node) (ha : n.peerContainer.Allocated peer) : Moves S Move.Routine n
      (((if !(n.deref peer).isActive now then n.sendInfoRequestToBase S (n.deref peer).id else n).modify peer
        fun p => { p with lastPacket := now }).record (.sentData peer now (!(n.deref peer).isActive now))) := by
    cases hactive : (n.deref peer).isActive now with
    | true =>
      have hlast := SocketMove.sentData (S := S) n peer now ha
      rw [hactive] at hlast
      exact .one hlast trivial
    | false =>
      have hsame := sendToBaseTcp_securityLayer S n (.REQUEST_INFO (n.deref peer).id)
      have hlast := SocketMove.sentData (S := S) (n.sendInfoRequestToBase S (n.deref peer).id) peer now
        (by rw [peerContainer, sendInfoRequestToBase, hsame]; exact ha)
      have hpeer : (n.sendInfoRequestToBase S (n.deref peer).id).deref peer = n.deref peer := by
        rw [deref, peerContainer, sendInfoRequestToBase, hsame, deref, peerContainer]
      rw [hpeer, hactive] at hlast
      exact (sendToBaseTcp_moves S n (.REQUEST_INFO (n.deref peer).id) (by simp)).trans (.one hlast trivial)
  unfold sendDataToPeer
  dsimp only
  by_cases hc : (n.deref peer).connected = true
  · rw [if_pos hc]
    exact (Leads.one (.toPeer n _ _ (Or.inr ⟨peer, rfl⟩)) trivial).trans (hend _ ha)
  · rw [if_neg hc]
    have hrelay := relayDataToPeer_moves S now n peer data
    exact hrelay.trans (hend _ (hrelay.allocated ha))

theorem getOrCreatePeer_allocated {n n' : Node} {id : HusarnetAddress} {peer : PeerRef}
    (h : n.getOrCreatePeer id = (n', some peer)) : n'.peerContainer.Allocated peer := by
  have hpoints := getOrCreatePeer_pointsTo (congrArg Prod.snd h)
  have hn : n' = (n.getOrCreatePeer id).1 := (congrArg Prod.fst h).symm
  rw [hn]
  exact allocated_of_pointsTo hpoints

theorem onUpperLayerData_moves (n : Node) (peerAddress : HusarnetAddress) (data : Bytes) :
    Moves S Move.Routine n (n.onUpperLayerData S now peerAddress data) := by
  have hget := Moves.getOrCreatePeer (S := S) n peerAddress
  unfold onUpperLayerData
  split
  · rename_i n' hg
    rw [hg] at hget
    exact hget
  · rename_i n' peer hg
    have ha : n'.peerContainer.Allocated peer := getOrCreatePeer_allocated hg
    rw [hg] at hget
    exact hget.trans (sendDataToPeer_moves S now n' ha data)

theorem changePeerTargetAddresses_moves (n : Node) (peer : PeerRef) (addresses : List InetAddress) :
    Moves S Move.Routine n (n.changePeerTargetAddresses S now peer addresses) := by
  have hwrite (addresses : List InetAddress) :
      Moves S Move.Routine n (n.modify peer fun p => { p with targetAddresses := addresses }) :=
    .modify n peer (fun _ => ⟨rfl, rfl, rfl, rfl, rfl, fun h => h⟩)
      fun _ => ⟨⟨⟨rfl, rfl, rfl, rfl, rfl, fun h => h⟩, rfl⟩, ⟨rfl, rfl, fun h => h⟩⟩
  unfold changePeerTargetAddresses
  dsimp only
  split
  · exact (hwrite _).trans (attemptReestablish_moves S now _ peer)
  · exact .refl n

/-! ## Messages -/

theorem linkLocal_moves (n : Node) (peer : PeerRef) (address : InetAddress) :
    Moves S Move.Routine n (n.modify peer fun p => { p with linkLocalAddress := address }) :=
  .modify n peer (fun _ => ⟨rfl, rfl, rfl, rfl, rfl, fun h => h⟩)
    fun _ => ⟨⟨⟨rfl, rfl, rfl, rfl, rfl, fun h => h⟩, rfl⟩, ⟨rfl, rfl, fun h => h⟩⟩

theorem helloReceived_moves (n : Node) (source : InetAddress) (myId yourId : HusarnetAddress) (helloCookie : Bytes) :
    Moves S (Move.AnswersTo n source (.HELLO myId yourId helloCookie)) n
      (n.helloReceived S now source myId yourId helloCookie) := by
  have hget := (Moves.getOrCreatePeer (S := S) n myId).answers n source (.HELLO myId yourId helloCookie)
  unfold helloReceived
  split
  · exact .refl n
  · rename_i hown
    split
    · rename_i n' hg
      rw [hg] at hget
      exact hget
    · rename_i n' peer hg
      have ha : n'.peerContainer.Allocated peer := getOrCreatePeer_allocated hg
      have hwelcome : n.Welcomes myId yourId := ⟨not_not.mp hown, by rw [hg]; simp⟩
      rw [hg] at hget
      have hadd := hget.trans (.one (.claimed n' peer source ha)
        (Or.inr (Or.inl ⟨peer, _, _, _, rfl, hwelcome, Or.inl rfl⟩)))
      have hanswer (m : Node) (msg : PeerToPeerMessage) :
          Moves S (Move.AnswersTo n source (.HELLO myId yourId helloCookie)) m (m.sendToPeer S source msg) :=
        .one (.answered m source msg) (Or.inr (Or.inl ⟨peer, _, _, _, rfl, hwelcome, Or.inr rfl⟩))
      refine hadd.trans ?_
      dsimp only
      split
      · have hlink := linkLocal_moves S (n'.addSourceAddress peer source) peer source
        split
        · exact (Moves.answers (hlink.trans (attemptReestablish_moves S now _ peer)) n source _).trans (hanswer _ _)
        · exact (hlink.answers n source _).trans (hanswer _ _)
      · exact hanswer _ _

theorem helloReplyReceived_moves (n : Node) (source : InetAddress) (myId yourId : HusarnetAddress)
    (helloCookie : Bytes) : Moves S (Move.AnswersTo n source (.HELLO_REPLY myId yourId helloCookie)) n
      (n.helloReplyReceived source myId yourId helloCookie) := by
  by_cases hacc : ∃ peer, n.Accepts myId yourId helloCookie peer
  · obtain ⟨peer, hacc⟩ := hacc
    exact .one (.replied n source myId yourId helloCookie) (Or.inr (Or.inr ⟨peer, _, _, _, rfl, hacc, rfl⟩))
  · have h := helloReplyReceived_handling n source myId yourId helloCookie
    generalize n.helloReplyReceived source myId yourId helloCookie = n' at h ⊢
    cases h with
    | foreign _ => exact .refl n
    | ignored _ => exact (Moves.getPeer n myId).answers n source _
    | accepted peer h => exact absurd ⟨peer, h⟩ hacc

theorem peerMessageReceived_moves (n : Node) (source : InetAddress) (msg : PeerToPeerMessage) :
    Moves S (Move.AnswersTo n source msg) n (n.peerMessageReceived S now source msg).1 := by
  cases msg with
  | HELLO myId yourId helloCookie => exact helloReceived_moves S now n source myId yourId helloCookie
  | HELLO_REPLY myId yourId helloCookie => exact helloReplyReceived_moves S n source myId yourId helloCookie
  | DATA data => exact .refl n
  | INVALID => exact .refl n

theorem connectToBase_moves (n : Node) : Moves S Move.Routine n (n.connectToBase S now) :=
  .one (.connected now n) trivial

/-- The moves with which a UDP message of the base is handled. -/
def ConfirmsNat (now : Time) (msg : BaseToPeerMessage) (m : Move) : Prop :=
  m.Routine ∨ (msg = .NAT_OK ∧ m = .confirmed now)

theorem baseMessageReceivedUdp_moves (n : Node) (msg : BaseToPeerMessage) :
    Moves S (ConfirmsNat now msg) n (n.baseMessageReceivedUdp S now msg).1 := by
  cases msg with
  | NAT_OK =>
    have hconfirmed : Moves S (ConfirmsNat now .NAT_OK) n
        { n with lastNatInitConfirmation := now, natInitConfirmed := true } :=
      .one (.confirmed now n) (Or.inr ⟨rfl, rfl⟩)
    exact hconfirmed.trans ((sendToBaseUdp_moves S _ .NAT_OK_CONFIRM).mono fun _ => Or.inl)
  | HELLO _ => exact .refl n
  | DEVICE_ADDRESSES _ _ => exact .refl n
  | DATA _ _ => exact .refl n
  | STATE _ _ => exact .refl n
  | REDIRECT _ => exact .refl n
  | INVALID => exact .refl n

theorem stateReceived_moves (n : Node) (udpAddress : List InetAddress) (natTransientRange : ℕ × ℕ) :
    Moves S Move.Routine n (n.stateReceived udpAddress natTransientRange) := by
  unfold stateReceived
  dsimp only
  split
  · exact .note rfl rfl
  · exact .note rfl rfl

/-- The moves with which a TCP message of the base is handled. -/
def TakesCookie (msg : BaseToPeerMessage) (m : Move) : Prop :=
  m.Routine ∨ ∃ cookie, msg = .HELLO cookie ∧ m = .greeted cookie

theorem baseMessageReceivedTcp_moves (n : Node) (msg : BaseToPeerMessage) :
    Moves S (TakesCookie msg) n (n.baseMessageReceivedTcp S now msg).1 := by
  have hroutine {n' : Node} (h : Moves S Move.Routine n n') : Moves S (TakesCookie msg) n n' := h.mono fun _ => Or.inl
  have hnote : Moves S Move.Routine n { n with lastBaseTcpMessage := now, lastBaseTcpAction := now, baseConnectRetries := 0 } :=
    .note rfl rfl
  unfold baseMessageReceivedTcp
  cases msg with
  | DATA _ _ => exact hroutine hnote
  | HELLO cookie =>
    have hcookie (n : Node) : Moves S (TakesCookie (.HELLO cookie)) n { n with cookie := cookie.bytes } :=
      .one (.greeted n cookie) (Or.inr ⟨cookie, rfl, rfl⟩)
    have hsend (n : Node) : Moves S Move.Routine n ((n.resendInfoRequests S now).sendLocalAddressesToBase S).requestRefresh :=
      (resendInfoRequests_moves S now n).trans ((sendToBaseTcp_moves S _ .INFO (by simp)).trans (requestRefresh_moves S _))
    exact (hroutine hnote).trans ((hcookie _).trans ((hsend _).mono fun _ => Or.inl))
  | DEVICE_ADDRESSES deviceId addresses =>
    have hget := hnote.trans (Moves.getPeer _ deviceId)
    dsimp only
    split
    · rename_i n' hg
      rw [hg] at hget
      exact hroutine hget
    · rename_i n' peer hg
      rw [hg] at hget
      exact hroutine (hget.trans (changePeerTargetAddresses_moves S now n' peer addresses))
  | STATE udpAddress natTransientRange => exact hroutine (hnote.trans (stateReceived_moves S _ udpAddress natTransientRange))
  | REDIRECT newBaseAddress =>
    have haddress (n : Node) : Moves S Move.Routine n { n with baseAddress := newBaseAddress } := .note rfl rfl
    exact hroutine (hnote.trans ((haddress _).trans (connectToBase_moves S now _)))
  | NAT_OK => exact hroutine hnote
  | INVALID => exact hroutine hnote

/-! ## Packets, tasks and the timer -/

theorem parsePeerToPeerMessage_fast {data : Bytes} {msg : PeerToPeerMessage} (hfast : ¬ (data.getD 0 2 = 0 ∨ data.getD 0 2 = 1))
    (h : parsePeerToPeerMessage S data = .ok msg) : (∃ payload, msg = .DATA payload) ∨ msg = .INVALID := by
  unfold parsePeerToPeerMessage at h
  split at h
  · cases h
    exact Or.inr rfl
  · rename_i hl
    have hget : StringView.get data 0 = .ok (data.getD 0 2) := by
      cases data with
      | nil => exact absurd rfl hl
      | cons b data => exact StringView.get_of_lt (by simp)
    rw [hget] at h
    simp only [Except.bind, bind, if_neg hfast] at h
    split at h
    · obtain ⟨payload, -, h⟩ := Checked.bind_eq_ok.mp h
      cases h
      exact Or.inl ⟨payload, rfl⟩
    · cases h
      exact Or.inr rfl

/-- The moves with which a datagram is handled: one of the base can confirm the NAT mapping, one of a peer
can be queued. -/
def TakesDatagram (now : Time) (n : Node) (source : InetAddress) (data : Bytes) (m : Move) : Prop :=
  m = .call (.queued source data) ∨
    ∃ msg, source = n.baseUdpAddress ∧ parseBaseToPeerMessage data = .ok msg ∧ ConfirmsNat now msg m

theorem udpPacketReceived_moves {n n' : Node} {source : InetAddress} {data : Bytes}
    {up : Option (HusarnetAddress × Bytes)} (h : n.udpPacketReceived S now source data = .ok (n', up)) :
    Moves S (TakesDatagram now n source data) n n' := by
  unfold udpPacketReceived at h
  split at h
  · rename_i hbase
    obtain ⟨msg, hmsg, h⟩ := Checked.bind_eq_ok.mp h
    have hn : (n.baseMessageReceivedUdp S now msg).1 = n' := congrArg Prod.fst (Except.ok.inj h)
    have hmoves : Moves S (ConfirmsNat now msg) n n' := hn ▸ baseMessageReceivedUdp_moves S now n msg
    exact hmoves.mono fun _ hm => Or.inr ⟨msg, hbase, hmsg, hm⟩
  · obtain ⟨_, -, h⟩ := Checked.bind_eq_ok.mp h
    split at h
    · rename_i slow
      split at h
      · cases h
        exact .one (.queued n source data slow) (Or.inl rfl)
      · cases h
        exact .refl n
    · rename_i hfast
      obtain ⟨msg, hmsg, h⟩ := Checked.bind_eq_ok.mp h
      have hn : (n.peerMessageReceived S now source msg).1 = n' := congrArg Prod.fst (Except.ok.inj h)
      subst hn
      obtain ⟨payload, rfl⟩ | rfl := parsePeerToPeerMessage_fast S hfast hmsg
      · exact .refl n
      · exact .refl n

theorem tcpFrameReceived_moves {n n' : Node} {data : Bytes} {up : Option (HusarnetAddress × Bytes)}
    (h : n.tcpFrameReceived S now data = .ok (n', up)) :
    ∃ msg, parseBaseToPeerMessage data = .ok msg ∧ Moves S (TakesCookie msg) n n' := by
  obtain ⟨msg, hmsg, h⟩ := Checked.bind_eq_ok.mp h
  have hn : (n.baseMessageReceivedTcp S now msg).1 = n' := congrArg Prod.fst (Except.ok.inj h)
  exact ⟨msg, hmsg, hn ▸ baseMessageReceivedTcp_moves S now n msg⟩

theorem tcpClosed_moves (n : Node) : Moves S Move.Routine n (n.tcpClosed now) := by
  by_cases hc : n.baseConnection = true
  · exact .one (.disconnected now n hc) trivial
  · rw [tcpClosed, if_neg hc]
    exact .refl n

theorem multicastPacketReceived_moves {n n' : Node} {address : InetAddress} {packet : Bytes}
    (h : n.multicastPacketReceived S now address packet = .ok n') : Moves S Move.Routine n n' := by
  unfold multicastPacketReceived at h
  split at h
  · cases h
    exact .refl n
  · split at h
    · cases h
      exact .refl n
    · obtain ⟨devId, -, h⟩ := Checked.bind_eq_ok.mp h
      obtain ⟨port, -, h⟩ := Checked.bind_eq_ok.mp h
      have hget := Moves.getPeer (S := S) n devId
      split at h
      · cases h
        exact .refl n
      · split at h
        · rename_i n₁ hg
          rw [hg] at hget
          cases h
          exact hget
        · rename_i n₁ peer hg
          rw [hg] at hget
          dsimp only at h
          split at h
          · cases h
            exact hget.trans ((linkLocal_moves S n₁ peer _).trans (attemptReestablish_moves S now _ peer))
          · cases h
            exact hget

theorem workerStep_refresh {n : Node} {tasks : List WorkerTask} (hq : n.workerQueue = .refresh :: tasks) :
    n.workerStep S now = .ok ({ n with workerQueue := tasks }.refresh S now, none) := by
  unfold workerStep
  simp only [hq]
  rfl

theorem workerStep_message {n : Node} {source : InetAddress} {data : Bytes} {slow : data.getD 0 2 = 0 ∨ data.getD 0 2 = 1}
    {tasks : List WorkerTask} (hq : n.workerQueue = .peerMessage source data slow :: tasks) {msg : PeerToPeerMessage}
    (hmsg : parsePeerToPeerMessage S data = .ok msg) :
    n.workerStep S now = .ok ({ n with workerQueue := tasks }.peerMessageReceived S now source msg) := by
  unfold workerStep
  simp only [hq]
  rw [hmsg]
  rfl

/-- The moves with which a task of the worker is done. -/
def DoesTask (n : Node) (m : Move) : Prop :=
  m.Routine ∨ (n.workerQueue.head? = some .refresh ∧ Refreshes now m) ∨
    ∃ source data slow, n.workerQueue.head? = some (.peerMessage source data slow) ∧ m.Handles S n source data

theorem workerStep_moves {n n' : Node} {up : Option (HusarnetAddress × Bytes)}
    (h : n.workerStep S now = .ok (n', up)) : Moves S (DoesTask S now n) n n' := by
  have htake {task : WorkerTask} {tasks : List WorkerTask} (hq : n.workerQueue = task :: tasks) :
      Moves S (DoesTask S now n) n { n with workerQueue := tasks } :=
    .one (.note rfl fun _ h => Or.inl (hq ▸ List.mem_cons_of_mem task h)) (Or.inl trivial)
  unfold workerStep at h
  split at h
  · cases h
    exact .refl n
  · rename_i tasks hq
    cases h
    refine (htake hq).trans ((refresh_moves S now _).mono fun m hm => Or.inr (Or.inl ⟨?_, hm⟩))
    rw [hq, List.head?_cons]
  · rename_i source data slow tasks hq
    obtain ⟨msg, hmsg, h⟩ := Checked.bind_eq_ok.mp h
    have hn : ({ n with workerQueue := tasks }.peerMessageReceived S now source msg).1 = n' :=
      congrArg Prod.fst (Except.ok.inj h)
    have hpeer : Moves S (Move.AnswersTo { n with workerQueue := tasks } source msg) { n with workerQueue := tasks } n' :=
      hn ▸ peerMessageReceived_moves S now _ source msg
    refine (htake hq).trans (hpeer.mono fun m hm => Or.inr (Or.inr ⟨source, data, slow, ?_, Or.inr ⟨msg, hmsg, ?_⟩⟩))
    · rw [hq, List.head?_cons]
    -- the look-ups do not read the queue
    · obtain hm | hm | ⟨peer, myId, yourId, helloCookie, hmsg, ha, hm⟩ := hm
      · exact Or.inl hm
      · exact Or.inr (Or.inl hm)
      · exact Or.inr (Or.inr ⟨peer, myId, yourId, helloCookie, hmsg, ⟨ha.own, ha.found, ha.reestablishing, ha.cookie⟩, hm⟩)

theorem reloadLocalAddresses_moves (n : Node) (addresses : List IpAddress) :
    Moves S Move.Routine n (n.reloadLocalAddresses addresses).1 := by
  unfold reloadLocalAddresses
  dsimp only
  split
  · exact .note rfl rfl
  · exact .refl n

theorem periodic_moves (n : Node) (addresses : List IpAddress) :
    Moves S Move.Routine n (n.periodic S now addresses) := by
  have hnote : Moves S Move.Routine n { n with lastPeriodic := now } := .note rfl rfl
  have hreload := hnote.trans (reloadLocalAddresses_moves S _ addresses)
  have hconnect (n : Node) (c : Prop) [Decidable c] : Moves S Move.Routine n (if c then n.connectToBase S now else n) := by
    split
    · exact connectToBase_moves S now n
    · exact .refl n
  have hrequest (n : Node) (c : Prop) [Decidable c] : Moves S Move.Routine n (if c then n.requestRefresh else n) := by
    split
    · exact requestRefresh_moves S n
    · exact .refl n
  have hinit (n : Node) (c : Prop) [Decidable c] :
      Moves S Move.Routine n (if c then n.sendNatInitToBase S now else n) := by
    split
    · exact sendNatInitToBase_moves S now n
    · exact .refl n
  unfold periodic
  split
  · exact .refl n
  · generalize { n with lastPeriodic := now }.reloadLocalAddresses addresses = r at hreload ⊢
    obtain ⟨n₁, reloaded⟩ := r
    dsimp only
    split
    · exact hreload.trans ((requestRefresh_moves S n₁).trans ((hconnect _ _).trans
        ((hrequest _ _).trans ((hinit _ _).trans (hconnect _ _)))))
    · exact hreload.trans ((hrequest _ _).trans ((hinit _ _).trans (hconnect _ _)))

end Node

/-! ## What a move does to the link -/

/-- What a move does to the link: it sends, records calls and opens or ends the connection, or it is one of the
two writes that a message of the base makes. -/
inductive LinkChange (l : LinkState) : Move → LinkState → Prop where
  | rest (m : Move) (sent : List Transmission) (calls : List CallRecord) (baseConnection : Bool) :
      LinkChange l m { l with sent := sent, calls := calls, baseConnection := baseConnection }
  | greeted (cookie : FString 16) : LinkChange l (.greeted cookie) { l with cookie := cookie.bytes }
  | confirmed (now : Time) : LinkChange l (.confirmed now) { l with lastNatInitConfirmation := now }

theorem SocketMove.link {S : Sodium} {n n' : Node} {m : Move} (h : SocketMove S n m n') : LinkChange n.link m n'.link := by
  have hsame {n' : Node} (h : n'.link = n.link) : LinkChange n.link m n'.link := by
    rw [h]
    exact .rest m _ _ _
  cases h with
  | note h _ => exact hsame (congrArg Lasting.link h)
  | udp _ _ _ => exact .rest _ _ _ _
  | multicast _ _ _ => exact .rest _ _ _ _
  | toPeer _ _ _ _ => exact .rest _ _ _ _
  | answered _ _ _ => exact .rest _ _ _ _
  | tcp _ _ _ _ _ => exact .rest _ _ _ _
  | connected now _ =>
    rw [Node.connectToBase_eq]
    exact .rest _ _ _ _
  | disconnected now _ hc =>
    rw [Node.tcpClosed, if_pos hc]
    exact .rest _ _ _ _
  | container _ _ _ => exact hsame rfl
  | sentData _ _ _ _ => exact .rest _ _ _ _
  | queued _ _ _ _ => exact hsame rfl
  | claimed _ peer source _ => exact hsame (Node.addSourceAddress_onlyPeers n peer source).link
  | attempted now _ peer =>
    obtain ⟨added, records, hn, -, -⟩ := Node.attemptReestablish_sent S now n peer
    rw [hn]
    exact .rest _ _ _ _
  | replied _ source myId yourId helloCookie =>
    exact hsame (Node.helloReplyReceived_onlyPeers n source myId yourId helloCookie).link
  | confirmed now _ => exact .confirmed now
  | greeted _ cookie => exact .greeted cookie
  | expired _ _ _ _ => exact hsame rfl

/-! ## What a move does to the timers -/

/-- What a move does to the timers and the sessions of peers: nothing, or it notes data that was sent, or it
ends a session that was silent for too long. Data that is sent is the only other call on record. -/
inductive TimerChange (n : Node) : Move → Node → Prop where
  | kept (m : Move) {n' : Node} (h : Kept TimersKept n.peerContainer n'.peerContainer) (records : List CallRecord)
      (hc : n'.calls = n.calls ++ records) (hr : ∀ r ∈ records, ∃ dest msg, r = .sentToPeer dest msg) : TimerChange n m n'
  | sentData (m : Move) (peer : PeerRef) (now : Time) (h : n.peerContainer.Allocated peer) :
      TimerChange n m ((n.modify peer fun p => { p with lastPacket := now }).record
        (.sentData peer now (!(n.deref peer).isActive now)))
  | expired (peer : PeerRef) (now : Time)
      (h : (n.deref peer).negotiated = true ∧ (n.deref peer).lastValidPacket < now - RENEGOTIATION_TIMEOUT) :
      TimerChange n (.expired peer now) (n.modify peer fun p => { p with negotiated := false, connected := false })

theorem SocketMove.timers {S : Sodium} {n n' : Node} {m : Move} (h : SocketMove S n m n') : TimerChange n m n' := by
  have hquiet {n' : Node} (h : Kept TimersKept n.peerContainer n'.peerContainer) (hc : n'.calls = n.calls) :
      TimerChange n m n' := .kept m h [] (by rw [hc, List.append_nil]) (List.forall_mem_nil _)
  have hsame {n' : Node} (h : n'.securityLayer = n.securityLayer) (hc : n'.calls = n.calls) : TimerChange n m n' := by
    refine hquiet ?_ hc
    rw [Node.peerContainer, Node.peerContainer, h]
    exact (PeersKept.refl _).timers
  have hsent (dest : InetAddress) (msg : PeerToPeerMessage) : TimerChange n m (n.sendToPeer S dest msg) :=
    .kept m (PeersKept.refl _).timers [.sentToPeer dest msg] rfl (List.forall_mem_singleton.mpr ⟨dest, msg, rfl⟩)
  cases h with
  | note h _ => exact hsame (congrArg Lasting.securityLayer h) (congrArg (fun l => l.link.calls) h)
  | udp _ _ _ => exact hsame rfl rfl
  | multicast _ _ _ => exact hsame rfl rfl
  | toPeer _ dest msg _ => exact hsent dest msg
  | answered _ source msg => exact hsent source msg
  | tcp _ _ _ _ _ => exact hsame rfl rfl
  | connected now _ =>
    rw [Node.connectToBase_eq]
    exact hsame rfl rfl
  | disconnected now _ hc =>
    rw [Node.tcpClosed, if_pos hc]
    exact hsame rfl rfl
  | container _ _ hp => exact hquiet hp.timers rfl
  | sentData _ peer now h => exact .sentData _ peer now h
  | queued _ _ _ _ => exact hsame rfl rfl
  | claimed _ peer source _ =>
    exact hquiet (Node.addSourceAddress_targets n peer source).timers
      (congrArg LinkState.calls (Node.addSourceAddress_onlyPeers n peer source).link)
  | attempted now _ peer =>
    obtain ⟨added, records, hn, -, hr⟩ := Node.attemptReestablish_sent S now n peer
    refine .kept _ (Node.attemptReestablish_timers S now n peer) records (congrArg Node.calls hn) fun r hm => ?_
    obtain ⟨dest, msg, he, -⟩ := hr r hm
    exact ⟨dest, msg, he⟩
  | replied _ source myId yourId helloCookie =>
    exact hquiet (Node.helloReplyReceived_timers n source myId yourId helloCookie)
      (congrArg LinkState.calls (Node.helloReplyReceived_onlyPeers n source myId yourId helloCookie).link)
  | confirmed _ _ => exact hsame rfl rfl
  | greeted _ _ => exact hsame rfl rfl
  | expired now _ peer h => exact .expired peer now h

end Husarnet
