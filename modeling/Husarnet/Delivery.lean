import Husarnet.Node
import Husarnet.SecurityEffects
import Husarnet.TunPackets

/-! # A packet on the direct path

What the layers of the sender make of a packet from its TUN device, as one datagram, and what the
layers of the receiver make of that datagram.
-/

namespace Husarnet
open Octets Containers PeerContainer SecurityLayer
set_option autoImplicit false

structure HoldsPeer (n : Node) (id : HusarnetAddress) (peer : PeerRef) (p : Peer) : Prop where
  known : (n.peerContainer.getPeer id).2 = some peer
  entry : n.peerContainer.heap[peer]? = some p
  negotiated : p.negotiated = true

namespace HoldsPeer
variable {n : Node} {id : HusarnetAddress} {peer : PeerRef} {p : Peer}

theorem id_eq (h : HoldsPeer n id peer p) : p.id = id := by
  have hpoints := getPeer_pointsTo h.known
  rw [PointsTo, h.entry, Option.map_some, Option.some.injEq] at hpoints
  exact hpoints

/-- The security layer after the look-up. -/
def lookedUp (n : Node) (id : HusarnetAddress) : SecurityLayer :=
  { n.securityLayer with peerContainer := (n.peerContainer.getPeer id).1 }

theorem getOrCreatePeer (h : HoldsPeer n id peer p) :
    n.securityLayer.getOrCreatePeer id = (lookedUp n id, some peer) := by
  have hfound : n.securityLayer.peerContainer.getOrCreatePeer id = ((n.peerContainer.getPeer id).1, some peer) :=
    getOrCreatePeer_of_known h.known
  rw [SecurityLayer.getOrCreatePeer, hfound]
  rfl

theorem entry_lookedUp (h : HoldsPeer n id peer p) : (lookedUp n id).peerContainer.heap[peer]? = some p := by
  obtain ⟨-, -, -, hheap, -⟩ := getPeer_frame n.peerContainer id
  show (n.peerContainer.getPeer id).1.heap[peer]? = some p
  rw [hheap]
  exact h.entry

theorem deref_lookedUp (h : HoldsPeer n id peer p) : (lookedUp n id).deref peer = p := deref_of_entry h.entry_lookedUp

end HoldsPeer

namespace SecurityLayer
variable {S : Sodium}

/-- A data packet: its type, the nonce and the box of a sequence number, which is always zero, and
the data. -/
def sealedPacket (S : Sodium) (key : FString 32) (nonce : FString 24) (data : Bytes) : Bytes :=
  [0] ++ nonce.bytes ++ S.secretbox key nonce (pack64 0 ++ data)

theorem doSendDataPacket_eq (sl : SecurityLayer) {peer : PeerRef} {p : Peer} {data : Bytes}
    (hp : sl.deref peer = p) (hl : data.length < 2002) : sl.doSendDataPacket S peer data =
      (sl.withContainer sl.peerContainer.draw, [.toLower p.id
        (sealedPacket S p.txKey (sl.peerContainer.random.tape.nonce sl.peerContainer.random.draws) data)]) := by
  rw [doSendDataPacket, if_neg (by omega), if_neg (by omega), if_neg (by omega), hp]
  rfl

theorem sealedPacket_length (hS : S.BoxOpens) (key : FString 32) (nonce : FString 24) (data : Bytes) :
    (sealedPacket S key nonce data).length = data.length + 49 := by
  simp only [sealedPacket, List.length_append, List.length_cons, List.length_nil, FString.length_bytes,
    hS.length, pack64_length]
  omega

theorem sealedPacket_nonce (S : Sodium) (key : FString 32) (nonce : FString 24) (data : Bytes)
    (h : 1 + 24 ≤ (sealedPacket S key nonce data).length) : sliceF (sealedPacket S key nonce data) 1 24 h = nonce := by
  refine FString.ext ?_
  show slice (sealedPacket S key nonce data) 1 24 = nonce.bytes
  have htype : ([0] : Bytes).length = 1 := rfl
  rw [sealedPacket, List.append_assoc, slice_field_next _ 24 htype le_rfl]
  exact slice_field_first _ nonce.size_eq

theorem sealedPacket_box (S : Sodium) (key : FString 32) (nonce : FString 24) (data : Bytes) :
    (sealedPacket S key nonce data).drop 25 = S.secretbox key nonce (pack64 0 ++ data) := by
  refine List.drop_left' ?_
  rw [List.length_append, nonce.size_eq]
  rfl

theorem sealedPacket_opens (hS : S.BoxOpens) (key : FString 32) (nonce : FString 24) (data : Bytes)
    (h : 1 + 24 ≤ (sealedPacket S key nonce data).length) :
    S.secretboxOpen key (sliceF (sealedPacket S key nonce data) 1 24 h) ((sealedPacket S key nonce data).drop 25) =
      some (pack64 0 ++ data) := by
  rw [sealedPacket_nonce, sealedPacket_box]
  exact hS.opens _ _ _

/-- A data packet goes to `handleDataPacket`. -/
theorem onLowerLayerData_dataPacket (hS : S.BoxOpens) (now : Time) (sl : SecurityLayer) (id : HusarnetAddress)
    (key : FString 32) (nonce : FString 24) {data : Bytes} (hl : data.length ≤ 1950) :
    sl.onLowerLayerData S now id (sealedPacket S key nonce data) =
      sl.handleDataPacket S now id (sealedPacket S key nonce data) := by
  have hlen := sealedPacket_length hS key nonce data
  have hget : StringView.get (sealedPacket S key nonce data) 0 = .ok 0 := StringView.get_of_lt (by omega)
  rw [onLowerLayerData, if_neg (by omega), hget]
  simp only [Except.bind, bind]
  rw [if_pos trivial, if_neg (by omega)]

/-- A data packet of the peer that was sealed under its receive key is opened. -/
theorem onLowerLayerData_sealed (hS : S.BoxOpens) (now : Time) {sl sl' : SecurityLayer} {id : HusarnetAddress}
    {peer : PeerRef} (hg : sl.getOrCreatePeer id = (sl', some peer)) (hn : (sl'.deref peer).negotiated = true)
    (nonce : FString 24) {data : Bytes} (hpos : 0 < data.length) (hl : data.length ≤ 1950) :
    ∃ sl'', sl.onLowerLayerData S now id (sealedPacket S (sl'.deref peer).rxKey nonce data) =
      .ok (sl'', [.toUpper id data]) := by
  have hlen := sealedPacket_length hS (sl'.deref peer).rxKey nonce data
  have hopens := sealedPacket_opens hS (sl'.deref peer).rxKey nonce data
  obtain ⟨r, hr, hd⟩ := handleDataPacket_handling (S := S) now sl id (sealedPacket S (sl'.deref peer).rxKey nonce data)
  rw [onLowerLayerData_dataPacket hS _ _ _ _ _ hl, hr]
  cases hd with
  | short h =>
    rw [hlen, headerSize] at h
    omega
  | unknown sl₁ hg₁ =>
    rw [hg] at hg₁
    cases hg₁
  | early sl₁ peer₁ hg₁ hearly =>
    rw [hg] at hg₁
    cases hg₁
    rw [hn] at hearly
    cases hearly
  | large sl₁ peer₁ hg₁ h =>
    rw [hlen, headerSize] at h
    omega
  | forged sl₁ peer₁ hg₁ h hforged =>
    rw [hg] at hg₁
    cases hg₁
    rw [hopens] at hforged
    cases hforged
  | opened sl₁ peer₁ hg₁ hn₁ h hsize text htext =>
    rw [hg] at hg₁
    cases hg₁
    rw [hopens, Option.some.injEq] at htext
    have htextlen : text.length = data.length + 8 := by
      rw [← htext, List.length_append, pack64_length]
      omega
    have hread : slice (sl'.decryptedBuffer.overwrite text).bytes 8
        ((sealedPacket S (sl'.deref peer).rxKey nonce data).length - headerSize - 8) = data := by
      have hsub : (sealedPacket S (sl'.deref peer).rxKey nonce data).length - headerSize - 8 = text.length - 8 := by
        rw [hlen, headerSize]
        omega
      rw [hsub, slice_overwrite _ (by omega) (by omega), ← htext]
      exact List.drop_left' (pack64_length 0)
    rw [hread]
    exact ⟨_, rfl⟩

end SecurityLayer

namespace Node
variable {S : Sodium} (now : Time)

/-! ## Down the stack -/

def OnlyFrames (sent : List Transmission) : Prop := ∀ t ∈ sent, ∃ frame, t = .tcp frame

theorem sendInfoRequestToBase_sent (n : Node) (id : HusarnetAddress) :
    ∃ frames, (n.sendInfoRequestToBase S id).sent = n.sent ++ frames ∧ OnlyFrames frames := by
  unfold sendInfoRequestToBase sendToBaseTcp
  split
  · exact ⟨[], (List.append_nil _).symm, fun _ h => by cases h⟩
  · refine ⟨[_], rfl, fun t ht => ?_⟩
    rw [List.mem_singleton] at ht
    exact ⟨_, ht⟩

theorem sendDataToPeer_sent {n : Node} {peer : PeerRef} {p : Peer} (hp : n.deref peer = p) (hc : p.connected = true)
    (data : Bytes) : ∃ frames, (n.sendDataToPeer S now peer data).sent =
      n.sent ++ .udp p.targetAddress (2 :: data) :: frames ∧ OnlyFrames frames := by
  have hsame : (n.sendToPeer S p.targetAddress (.DATA data)).deref peer = p := hp
  have hsent : (n.sendToPeer S p.targetAddress (.DATA data)).sent =
      n.sent ++ [.udp p.targetAddress (2 :: data)] := rfl
  have hfirst : (if (n.deref peer).connected then n.sendToPeer S (n.deref peer).targetAddress (.DATA data)
      else n.relayDataToPeer S now peer data) = n.sendToPeer S p.targetAddress (.DATA data) := by
    rw [hp, if_pos hc]
  simp only [sendDataToPeer, hfirst]
  split
  · obtain ⟨frames, hframes, honly⟩ := sendInfoRequestToBase_sent (S := S)
      (n.sendToPeer S p.targetAddress (.DATA data)) ((n.sendToPeer S p.targetAddress (.DATA data)).deref peer).id
    refine ⟨frames, ?_, honly⟩
    show ((n.sendToPeer S p.targetAddress (.DATA data)).sendInfoRequestToBase S _).sent = _
    rw [hframes, hsent, List.append_assoc]
    rfl
  · exact ⟨[], hsent, fun _ h => by cases h⟩

/-- **The way down**: one datagram, with the protocol and the payload under the transmit key. -/
theorem tunPacketReceived_direct {n : Node} {id : HusarnetAddress} {peer : PeerRef} {p : Peer}
    (h : HoldsPeer n id peer p) (hc : p.connected = true) (hfc : id.isFC94 = true) {packet : Bytes}
    (hl : 40 < packet.length) (hmax : packet.length ≤ 1500) (hversion : packet.getD 0 0 >>> 4 = 6)
    (hsource : slice packet 8 16 = n.myIdentity.deviceId.data.bytes) (hdest : slice packet 24 16 = id.data.bytes) :
    ∃ n' nonce frames, n.tunPacketReceived S now packet = .ok n' ∧ OnlyFrames frames ∧
      n'.sent = n.sent ++ .udp p.targetAddress
        (2 :: sealedPacket S p.txKey nonce (packet.getD 6 0 :: packet.drop 40)) :: frames := by
  have hdown := MulticastLayer.onUpperLayerData_unicast n.configManager hl hversion hsource hdest hfc
  have hlen : (packet.getD 6 0 :: packet.drop 40).length < 2002 := by
    rw [List.length_cons, List.length_drop]
    omega
  have hsend := doSendDataPacket_eq (S := S) (HoldsPeer.lookedUp n id) h.deref_lookedUp hlen
  have hsecurity : n.securityLayer.onUpperLayerData S id (packet.getD 6 0 :: packet.drop 40) =
      (HoldsPeer.lookedUp n id).doSendDataPacket S peer (packet.getD 6 0 :: packet.drop 40) := by
    rw [SecurityLayer.onUpperLayerData, h.getOrCreatePeer]
    dsimp only
    rw [h.deref_lookedUp, if_pos h.negotiated]
  rw [hsend] at hsecurity
  generalize (HoldsPeer.lookedUp n id).peerContainer.random.tape.nonce
    (HoldsPeer.lookedUp n id).peerContainer.random.draws = nonce at hsecurity
  -- the look-up of the socket layer finds the cached peer
  let n₁ := n.withSecurityLayer ((HoldsPeer.lookedUp n id).withContainer (HoldsPeer.lookedUp n id).peerContainer.draw)
  have hcached : n₁.peerContainer.getOrCreatePeer id = (n₁.peerContainer, some peer) :=
    getOrCreatePeer_of_cached (getPeer_cached h.known).1 (getPeer_cached h.known).2
  have hentry : n₁.deref peer = p := h.deref_lookedUp
  obtain ⟨frames, hsent, honly⟩ := sendDataToPeer_sent (S := S) now hentry hc
    (sealedPacket S p.txKey nonce (packet.getD 6 0 :: packet.drop 40))
  refine ⟨n₁.onUpperLayerData S now id (sealedPacket S p.txKey nonce (packet.getD 6 0 :: packet.drop 40)), nonce,
    frames, ?_, honly, ?_⟩
  · rw [tunPacketReceived, hdown]
    show n.passDown S now [(id, packet.getD 6 0 :: packet.drop 40)] = _
    rw [passDown, hsecurity, h.id_eq]
    rfl
  · rw [onUpperLayerData, Node.getOrCreatePeer, hcached]
    exact hsent

/-! ## Up the stack -/

/-- **The way up**: a sealed packet from a known source address is opened and written to the TUN device. -/
theorem udpPacket_sealed (hS : S.BoxOpens) (T : JsonText) {n : Node} {id : HusarnetAddress} {peer : PeerRef} {p : Peer}
    (h : HoldsPeer n id peer p) {source : InetAddress} (hbase : source ≠ n.baseUdpAddress) {ref : PeerRef}
    (hknown : n.findPeerBySourceAddress source = some ref) (hid : (n.deref ref).id = id) (nonce : FString 24)
    (data : Bytes) (hl : 2 ≤ data.length) (hmax : data.length ≤ 1500)
    (hprotocol : ¬ (data.getD 0 0 = 0xff ∧ data.getD 1 0 = 0x01)) :
    ∃ n', n.act S T now (.udpPacket source (2 :: sealedPacket S p.rxKey nonce data)) = .ok n' ∧
      n'.sent = n.sent ++ [.tun (ipv6Packet (data.getD 0 0) id.data n.myIdentity.deviceId.data (data.drop 1))] := by
  have hreceive : n.receive S now (.udpPacket source (2 :: sealedPacket S p.rxKey nonce data)) =
      .ok (n, some (id, sealedPacket S p.rxKey nonce data)) := by
    obtain ⟨msg, hmsg, hdata⟩ := parsePeerToPeerMessage_ok S (2 :: sealedPacket S p.rxKey nonce data)
    have hkind : msg = .DATA (sealedPacket S p.rxKey nonce data) := (hdata _).mpr rfl
    rw [receive, udpPacketReceived, if_neg hbase, hmsg, hkind]
    simp only [peerMessageReceived, peerDataPacketReceived, hknown, Option.map_some, hid]
    rfl
  have hn : ((HoldsPeer.lookedUp n id).deref peer).negotiated = true := by
    rw [h.deref_lookedUp]
    exact h.negotiated
  obtain ⟨sl, hopen⟩ := onLowerLayerData_sealed hS now h.getOrCreatePeer hn nonce (Nat.lt_of_lt_of_le Nat.two_pos hl)
    (hmax.trans (by decide))
  rw [h.deref_lookedUp] at hopen
  have hidentity : (n.withSecurityLayer sl).myIdentity = n.myIdentity := (PacketHandling.of_ok hopen).identity
  have htun : (n.withSecurityLayer sl).toTun id data = .ok { n.withSecurityLayer sl with
      sent := n.sent ++ [.tun (ipv6Packet (data.getD 0 0) id.data n.myIdentity.deviceId.data (data.drop 1))] } := by
    rw [toTun, hidentity, MulticastLayer.onLowerLayerData_unicast hl hprotocol]
    rfl
  refine ⟨{ n.withSecurityLayer sl with
    sent := n.sent ++ [.tun (ipv6Packet (data.getD 0 0) id.data n.myIdentity.deviceId.data (data.drop 1))] }, ?_, rfl⟩
  refine Checked.bind_eq_ok.mpr ⟨_, hreceive, ?_⟩
  refine Checked.bind_eq_ok.mpr ⟨_, hopen, ?_⟩
  exact Checked.bind_eq_ok.mpr ⟨_, htun, rfl⟩

end Node

/-! ## End to end -/

/-- Nodes that hold each other, and the addresses of the direct path from `a` to `b`. -/
structure DirectPath (a b : Node) (pa pb : Peer) (source : InetAddress) : Prop where
  toB : ∃ peer, HoldsPeer a b.myIdentity.deviceId peer pa
  toA : ∃ peer, HoldsPeer b a.myIdentity.deviceId peer pb
  isFC94 : b.myIdentity.isValid = true
  keys : pa.txKey = pb.rxKey
  connected : pa.connected = true
  notBase : source ≠ b.baseUdpAddress
  sourceKnown : ∃ ref, b.findPeerBySourceAddress source = some ref ∧ (b.deref ref).id = a.myIdentity.deviceId

/-- A packet of `a` for `b` that is no multicast in disguise. -/
structure UnicastPacket (a b : Node) (packet : Bytes) : Prop where
  long : 41 ≤ packet.length
  short : packet.length ≤ 1500
  version : packet.getD 0 0 >>> 4 = 6
  source : slice packet 8 16 = a.myIdentity.deviceId.data.bytes
  destination : slice packet 24 16 = b.myIdentity.deviceId.data.bytes
  protocol : ¬ (packet.getD 6 0 = 0xff ∧ packet.getD 40 0 = 0x01)

/-- The packet with traffic class and flow label zero, the length of its payload and hop limit 3. -/
def asDelivered (packet : Bytes) : Bytes :=
  [0x60, 0, 0, 0, UInt8.ofNat ((packet.length - 40) / 256), UInt8.ofNat (packet.length - 40), packet.getD 6 0, 3] ++
    packet.drop 8

theorem UnicastPacket.asDelivered_eq {a b : Node} {packet : Bytes} (h : UnicastPacket a b packet) :
    ipv6Packet (packet.getD 6 0) a.myIdentity.deviceId.data b.myIdentity.deviceId.data (packet.drop 40) =
      asDelivered packet := by
  have hlen : (packet.drop 40).length = packet.length - 40 := List.length_drop
  have htail : packet.drop 8 =
      a.myIdentity.deviceId.data.bytes ++ (b.myIdentity.deviceId.data.bytes ++ packet.drop 40) := by
    rw [drop_eq_slice_append packet 8 16, drop_eq_slice_append packet 24 16, h.source, h.destination]
  rw [ipv6Packet, hlen, asDelivered, htail]
  rfl

/-- **End-to-end delivery on the direct path.** The sender's node makes one datagram of the packet,
for the target address of the peer, and no other; the receiver's node writes one packet to its TUN
device when it gets the datagram, and this is the sender's packet with a new header. -/
theorem delivered_on_direct_path (S : Sodium) (T : JsonText) (hS : S.BoxOpens) {a b : Node} {pa pb : Peer}
    {source : InetAddress} (h : DirectPath a b pa pb source) {packet : Bytes} (hp : UnicastPacket a b packet)
    (sentAt receivedAt : Time) :
    ∃ a' b' datagram frames, a.act S T sentAt (.tunPacket packet) = .ok a' ∧
      a'.sent = a.sent ++ .udp pa.targetAddress datagram :: frames ∧ Node.OnlyFrames frames ∧
      b.act S T receivedAt (.udpPacket source datagram) = .ok b' ∧ b'.sent = b.sent ++ [.tun (asDelivered packet)] := by
  obtain ⟨peer, hpeer⟩ := h.toB
  obtain ⟨peer', hpeer'⟩ := h.toA
  obtain ⟨ref, hknown, hid⟩ := h.sourceKnown
  have hlong := hp.long
  have hshort := hp.short
  obtain ⟨a', nonce, frames, hdown, honly, hsent⟩ := Node.tunPacketReceived_direct (S := S) sentAt hpeer
    h.connected h.isFC94 (by omega) hshort hp.version hp.source hp.destination
  have hlen : (packet.getD 6 0 :: packet.drop 40).length = packet.length - 39 := by
    rw [List.length_cons, List.length_drop]
    omega
  have hbyte : (packet.getD 6 0 :: packet.drop 40).getD 1 0 = packet.getD 40 0 := by
    rw [List.getD_cons_succ]
    simp only [List.getD_eq_getElem?_getD, List.getElem?_drop]
  have hprotocol : ¬ ((packet.getD 6 0 :: packet.drop 40).getD 0 0 = 0xff ∧
      (packet.getD 6 0 :: packet.drop 40).getD 1 0 = 0x01) := by
    rw [hbyte]
    exact hp.protocol
  obtain ⟨b', hup, htun⟩ := Node.udpPacket_sealed receivedAt hS T hpeer' h.notBase hknown hid nonce
    (packet.getD 6 0 :: packet.drop 40) (by omega) (by omega) hprotocol
  rw [← h.keys] at hup
  refine ⟨a', b', _, frames, hdown, hsent, honly, hup, ?_⟩
  rw [htun, ← hp.asDelivered_eq]
  rfl

def nodeWithPeer (identity : Identity) (id : HusarnetAddress) (rxKey txKey : FString 32) (address : InetAddress) : Node :=
  { ((openNode identity).getOrCreatePeer id).1.modify 0 fun p =>
      { p with negotiated := true, connected := true, targetAddress := address, rxKey := rxKey, txKey := txKey } with
    peerSourceAddresses := [(address, 0)] }

/-- Two such nodes, under two keys. -/
def sender : Node :=
  nodeWithPeer (clearIdentity 1) (clearIdentity 2).deviceId (.pad 32 [1]) (.pad 32 [2]) ⟨.parse (ascii "::2"), 5002⟩

def receiver : Node :=
  nodeWithPeer (clearIdentity 2) (clearIdentity 1).deviceId (.pad 32 [2]) (.pad 32 [1]) ⟨.parse (ascii "::1"), 5001⟩

/-- A packet with traffic class 0xab, a flow label and hop limit 64. -/
def packetToReceiver : Bytes :=
  [0x6a, 0xb1, 2, 3, 0, 3, 17, 64] ++ (clearIdentity 1).deviceId.data.bytes ++ (clearIdentity 2).deviceId.data.bytes ++
    [1, 2, 3]

theorem delivered_on_direct_path_packet :
    ∃ a' b' datagram frames, sender.act clearSodium ConfigManager.plainText 0 (.tunPacket packetToReceiver) = .ok a' ∧
      a'.sent = sender.sent ++ .udp ⟨.parse (ascii "::2"), 5002⟩ datagram :: frames ∧ Node.OnlyFrames frames ∧
      receiver.act clearSodium ConfigManager.plainText 7 (.udpPacket ⟨.parse (ascii "::1"), 5001⟩ datagram) = .ok b' ∧
      b'.sent = receiver.sent ++ [.tun (asDelivered packetToReceiver)] := by
  have hpath : DirectPath sender receiver (sender.deref 0) (receiver.deref 0) ⟨.parse (ascii "::1"), 5001⟩ :=
    ⟨⟨0, by decide +kernel, rfl, by decide +kernel⟩, ⟨0, by decide +kernel, rfl, by decide +kernel⟩,
      by decide +kernel, by decide +kernel, by decide +kernel, by decide +kernel,
      ⟨0, by decide +kernel, by decide +kernel⟩⟩
  have hpacket : UnicastPacket sender receiver packetToReceiver :=
    ⟨by decide +kernel, by decide +kernel, by decide +kernel, by decide +kernel, by decide +kernel, by decide +kernel⟩
  exact delivered_on_direct_path clearSodium ConfigManager.plainText boxOpens_clearSodium hpath hpacket 0 7

end Husarnet
