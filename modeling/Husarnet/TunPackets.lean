import Husarnet.Config.UserWhitelist
import Husarnet.Handshake
import Husarnet.NodeMoves

/-! # What reaches the TUN device

A packet for the TUN device is made of one data packet, that the socket layer attributes to a peer
and the security layer opens under the receive key of that peer. The source address of the packet
is the peer's id, and never a field of the data packet.
-/

namespace Husarnet
open Octets Containers PeerContainer SecurityLayer Runs
set_option autoImplicit false

/-- The data packet `data`, for a peer with the id that is negotiated, opens under its receive key. -/
def OpensFrom (S : Sodium) (n : Node) (id : HusarnetAddress) (data text : Bytes) : Prop :=
  ∃ sl peer, n.securityLayer.getOrCreatePeer id = (sl, some peer) ∧ (sl.deref peer).id = id ∧
    (sl.deref peer).negotiated = true ∧ data.getD 0 0 = 0 ∧ ∃ h : 25 ≤ data.length,
      S.secretboxOpen (sl.deref peer).rxKey (sliceF data 1 24 h) (data.drop 25) = some text

/-- `packet` is an IPv6 packet from `id` for this node, and carries what was in the box, whose text
comes behind eight bytes of a sequence number. -/
structure CarriesFrom (n : Node) (id : HusarnetAddress) (data text packet : Bytes) : Prop where
  isIpv6 : IsIpv6 n.myIdentity.deviceId id packet
  text : text.length + headerSize = data.length → ∃ dest,
    MulticastLayer.onLowerLayerData n.myIdentity.deviceId id (text.drop 8) = .ok [(dest, packet)]

theorem mem_tunPackets {sent : List Transmission} {packet : Bytes} :
    packet ∈ tunPackets sent ↔ .tun packet ∈ sent := by
  rw [tunPackets, List.mem_filterMap]
  constructor
  · rintro ⟨t, ht, h⟩
    cases t with
    | tun p =>
      cases h
      exact ht
    | udp _ _ => cases h
    | multicast _ _ => cases h
    | tcpConnect _ => cases h
    | tcpClose => cases h
    | tcp _ => cases h
  · intro h
    exact ⟨_, h, rfl⟩

theorem tunPackets_append (sent sent' : List Transmission) :
    tunPackets (sent ++ sent') = tunPackets sent ++ tunPackets sent' := List.filterMap_append

theorem tunPackets_map_tun (packets : List (HusarnetAddress × Bytes)) :
    tunPackets (packets.map fun packet => .tun packet.2) = packets.map Prod.snd := by
  induction packets with
  | nil => rfl
  | cons packet packets ih => exact congrArg (packet.2 :: ·) ih

namespace SecurityLayer
variable {S : Sodium} {now : Time}

/-- The security layer hands up nothing, or the text of one data packet that opened. -/
theorem PacketHandling.handsUp {sl : SecurityLayer} {peerAddress : HusarnetAddress} {data : Bytes}
    {r : SecurityLayer × List LayerOutput} (h : PacketHandling S now sl peerAddress data r) :
    (∀ a d, .toUpper a d ∉ r.2) ∨ ∃ sl' peer text, sl.getOrCreatePeer peerAddress = (sl', some peer) ∧
      (sl'.deref peer).negotiated = true ∧ data.getD 0 0 = 0 ∧ data.length < 2000 ∧ headerSize + 8 < data.length ∧
      (∃ h : 25 ≤ data.length,
        S.secretboxOpen (sl'.deref peer).rxKey (sliceF data 1 24 h) (data.drop 25) = some text) ∧
      r.2 = [.toUpper peerAddress
        (slice (sl'.decryptedBuffer.overwrite text).bytes 8 (data.length - headerSize - 8))] := by
  cases h with
  | ignored => exact Or.inl fun _ _ => List.not_mem_nil
  | dataPacket hsize hkind h =>
    cases h with
    | short _ => exact Or.inl fun _ _ => List.not_mem_nil
    | unknown _ _ => exact Or.inl fun _ _ => List.not_mem_nil
    | early _ _ _ _ =>
      refine Or.inl fun a d hm => ?_
      rw [List.mem_singleton, sendHelloPacket] at hm
      cases hm
    | large _ _ _ _ => exact Or.inl fun _ _ => List.not_mem_nil
    | forged _ _ _ _ _ => exact Or.inl fun _ _ => List.not_mem_nil
    | opened sl' peer hg hn hlong _ text hopen =>
      have h25 : 25 ≤ data.length := by
        simp only [headerSize] at hlong
        omega
      exact Or.inr ⟨sl', peer, text, hg, hn, hkind, hsize, hlong, ⟨h25, hopen⟩, rfl⟩
  | unknown _ => exact Or.inl fun _ _ => List.not_mem_nil
  | hello hk hl hg =>
    obtain ⟨-, p, hp, -⟩ := getOrCreatePeer_entry (S := S) hg
    rcases acceptHello_cases (S := S) peerAddress hp (.read data hl) (data.getD 0 0) with
      hc | ⟨-, -, -, -, hn⟩
    · exact Or.inl hc.downward
    · exact Or.inl hn.downward
  | heartbeat ident =>
    refine Or.inl fun a d hm => ?_
    rw [handleHeartbeat, List.mem_singleton] at hm
    cases hm
  | heartbeatReply ident => exact Or.inl (handleHeartbeatReply_calm (S := S) now sl peerAddress ident).downward

theorem PacketHandling.identity {sl : SecurityLayer} {peerAddress : HusarnetAddress} {data : Bytes}
    {r : SecurityLayer × List LayerOutput} (h : PacketHandling S now sl peerAddress data r) :
    r.1.myIdentity = sl.myIdentity := by
  rcases h.effect with hq | ⟨sl', peer, hello, ha, hn⟩
  · exact hq.evolves.1.sameNode.identity
  · have hcalm := Calm.getOrCreatePeer (S := S) sl peerAddress
    rw [ha.known] at hcalm
    exact hn.identity.trans hcalm.evolves.1.sameNode.identity

end SecurityLayer

/-- The text of a box behind the sequence number, as it is read from the buffer it was opened into. -/
theorem slice_overwrite (buffer : FString 2000) {text : Bytes} (hl : text.length ≤ 2000) (h8 : 8 ≤ text.length) :
    slice (buffer.overwrite text).bytes 8 (text.length - 8) = text.drop 8 := by
  have hbytes : (buffer.overwrite text).bytes = (text ++ buffer.bytes.drop text.length).take 2000 := rfl
  rw [hbytes, slice_take _ (by omega), slice_append_left _ _ (by omega), slice_to_end (by omega)]

namespace Node
variable {S : Sodium} {T : JsonText} {now : Time}

/-! ## What leaves the stack -/

/-- The sender's identity stays, and nothing new goes to the TUN device. -/
structure Silent (n n' : Node) : Prop where
  identity : n'.myIdentity = n.myIdentity
  tun : tunPackets n'.sent = tunPackets n.sent

theorem silent_of_effect {n n' : Node} (h : SocketEffect n n') : Silent n n' :=
  ⟨h.evolves.1.sameNode.identity, h.tunPackets_eq⟩

theorem handOver_silent {n n' : Node} {out : List LayerOutput} (hd : ∀ a d, .toUpper a d ∉ out)
    (h : n.handOver S now out = .ok n') : Silent n n' := by
  induction out generalizing n with
  | nil =>
    cases h
    exact ⟨rfl, rfl⟩
  | cons o out ih =>
    have hrest : ∀ a d, .toUpper a d ∉ out := fun a d hm => hd a d (List.mem_cons_of_mem _ hm)
    cases o with
    | toLower peerAddress data =>
      have hfirst := silent_of_effect (onUpperLayerData_moves S now n peerAddress data).effect
      have hlater := ih hrest h
      exact ⟨hlater.identity.trans hfirst.identity, hlater.tun.trans hfirst.tun⟩
    | toUpper peerAddress data => exact absurd (List.mem_cons_self ..) (hd peerAddress data)
    | wroteKeys _ => exact ih hrest h
    | negotiated _ => exact ih hrest h

theorem withSecurityLayer_silent {n n' : Node} {sl : SecurityLayer} {out : List LayerOutput}
    (hid : sl.myIdentity = n.myIdentity) (hd : ∀ a d, .toUpper a d ∉ out)
    (h : (n.withSecurityLayer sl).handOver S now out = .ok n') : Silent n n' := by
  have hover := handOver_silent hd h
  exact ⟨hover.identity.trans hid, hover.tun⟩

theorem passDown_silent {n n' : Node} {packets : List (HusarnetAddress × Bytes)}
    (h : n.passDown S now packets = .ok n') : Silent n n' := by
  induction packets generalizing n with
  | nil =>
    cases h
    exact ⟨rfl, rfl⟩
  | cons packet packets ih =>
    obtain ⟨n₁, hn, h⟩ := Checked.bind_eq_ok.mp h
    have hcalm := onUpperLayerData_calm (S := S) n.securityLayer packet.1 packet.2
    have hfirst := withSecurityLayer_silent hcalm.evolves.1.sameNode.identity hcalm.downward hn
    have hlater := ih h
    exact ⟨hlater.identity.trans hfirst.identity, hlater.tun.trans hfirst.tun⟩

theorem toTun_tun {n n' : Node} {source : HusarnetAddress} {data : Bytes} (hl : data.length < 65536)
    (h : n.toTun source data = .ok n') : n'.myIdentity = n.myIdentity ∧ ∃ packets,
      MulticastLayer.onLowerLayerData n.myIdentity.deviceId source data = .ok packets ∧
      tunPackets n'.sent = tunPackets n.sent ++ packets.map Prod.snd ∧ packets.length ≤ 1 ∧
      ∀ packet ∈ packets, IsIpv6 n.myIdentity.deviceId source packet.2 := by
  obtain ⟨packets, hp, h⟩ := Checked.bind_eq_ok.mp h
  obtain ⟨_, hp', hup⟩ := MulticastLayer.onLowerLayerData_upPackets n.myIdentity.deviceId source data
  rw [hp, Except.ok.injEq] at hp'
  subst hp'
  cases h
  refine ⟨rfl, packets, hp, ?_, hup.length_le, hup.isIpv6 hl⟩
  rw [tunPackets_append, tunPackets_map_tun]

/-- **What goes up the stack**: nothing reaches the TUN device, or one data packet opens and all
that does is made of it. -/
theorem passUp_tun {n n' : Node} {up : Option (HusarnetAddress × Bytes)} (h : n.passUp S now up = .ok n') :
    n'.myIdentity = n.myIdentity ∧ ∀ packet ∈ tunPackets n'.sent, packet ∈ tunPackets n.sent ∨
      ∃ id data text, up = some (id, data) ∧ OpensFrom S n id data text ∧ CarriesFrom n id data text packet := by
  cases up with
  | none =>
    cases h
    exact ⟨rfl, fun packet hm => Or.inl hm⟩
  | some up =>
    obtain ⟨id, data⟩ := up
    obtain ⟨⟨sl, out⟩, hsl, hover⟩ := Checked.bind_eq_ok.mp h
    have hp := PacketHandling.of_ok hsl
    have hid : sl.myIdentity = n.myIdentity := hp.identity
    rcases hp.handsUp with hdown | ⟨sl', peer, text, hg, hn, hkind, hsize, hlong, ⟨h25, hopen⟩, rfl⟩
    · have hsilent := withSecurityLayer_silent hid hdown hover
      exact ⟨hsilent.identity, fun packet hm => Or.inl (hsilent.tun ▸ hm)⟩
    · obtain ⟨-, p, hentry, hpid⟩ := getOrCreatePeer_entry (S := S) hg
      obtain ⟨n₁, htun, hrest⟩ := Checked.bind_eq_ok.mp hover
      cases hrest
      simp only [headerSize] at hlong
      have hlen : (slice (sl'.decryptedBuffer.overwrite text).bytes 8 (data.length - headerSize - 8)).length < 65536 :=
        lt_of_le_of_lt (slice_length_le _ _ _) (by omega)
      obtain ⟨hidentity, packets, hup, hsent, hone, hipv6⟩ := toTun_tun hlen htun
      have hself : (n.withSecurityLayer sl).myIdentity = n.myIdentity := hid
      rw [hself] at hup hipv6 hidentity
      refine ⟨hidentity, fun packet hm => ?_⟩
      rw [hsent] at hm
      rcases List.mem_append.mp hm with hm | hm
      · exact Or.inl hm
      · obtain ⟨⟨dest, packet'⟩, hin, rfl⟩ := List.mem_map.mp hm
        have hopens : OpensFrom S n id data text := by
          refine ⟨sl', peer, hg, ?_, hn, hkind, h25, hopen⟩
          rw [SecurityLayer.deref, deref_of_entry hentry]
          exact hpid
        refine Or.inr ⟨id, data, text, rfl, hopens, hipv6 _ hin, fun htext => ⟨dest, ?_⟩⟩
        have hbuffer : slice (sl'.decryptedBuffer.overwrite text).bytes 8 (data.length - headerSize - 8) =
            text.drop 8 := by
          rw [← htext, Nat.add_sub_cancel]
          exact slice_overwrite _ (by omega) (by simp only [headerSize] at htext; omega)
        rw [hbuffer] at hup
        rw [hup]
        cases packets with
        | nil => cases hin
        | cons first packets =>
          have hnil : packets = [] := List.length_eq_zero_iff.mp (by simp only [List.length_cons] at hone; omega)
          subst hnil
          rw [List.mem_singleton] at hin
          rw [hin]

/-- A data packet of an event, that opens when the layer above the socket layer gets it and
carries the IPv6 packet. -/
def Opened (S : Sodium) (n : Node) (now : Time) (e : NodeEvent) (packet : Bytes) : Prop :=
  ∃ n₁ id data text, n.receive S now e = .ok (n₁, some (id, data)) ∧ OpensFrom S n₁ id data text ∧
    CarriesFrom n id data text packet

theorem receive_passUp_tun {n n₁ n' : Node} {e : NodeEvent} {up : Option (HusarnetAddress × Bytes)}
    (hreceive : n.receive S now e = .ok (n₁, up)) (h : n₁.passUp S now up = .ok n') :
    n'.myIdentity = n.myIdentity ∧
      ∀ packet ∈ tunPackets n'.sent, packet ∈ tunPackets n.sent ∨ Opened S n now e packet := by
  have hsocket := silent_of_effect (receive_moves S hreceive).effect
  obtain ⟨hidentity, hpackets⟩ := passUp_tun h
  refine ⟨hidentity.trans hsocket.identity, fun packet hm => ?_⟩
  rcases hpackets packet hm with hm | ⟨id, data, text, rfl, hopens, hcarries⟩
  · exact Or.inl (hsocket.tun ▸ hm)
  · refine Or.inr ⟨n₁, id, data, text, hreceive, hopens, ?_, ?_⟩
    · exact hsocket.identity ▸ hcarries.isIpv6
    · exact hsocket.identity ▸ hcarries.text

/-- **One event** keeps the node's identity, and all that it writes to the TUN device was opened. -/
theorem act_tun {n n' : Node} {e : NodeEvent} (h : n.act S T now e = .ok n') : n'.myIdentity = n.myIdentity ∧
    ∀ packet ∈ tunPackets n'.sent, packet ∈ tunPackets n.sent ∨ Opened S n now e packet := by
  have hsilent : Silent n n' → n'.myIdentity = n.myIdentity ∧
      ∀ packet ∈ tunPackets n'.sent, packet ∈ tunPackets n.sent ∨ Opened S n now e packet :=
    fun hs => ⟨hs.identity, fun packet hm => Or.inl (hs.tun ▸ hm)⟩
  have hsocket (he : IsSocketEvent e) : n'.myIdentity = n.myIdentity ∧
        ∀ packet ∈ tunPackets n'.sent, packet ∈ tunPackets n.sent ∨ Opened S n now e packet := by
    rw [act_of_socket S T he] at h
    obtain ⟨⟨n₁, up⟩, hreceive, hpass⟩ := Checked.bind_eq_ok.mp h
    exact receive_passUp_tun hreceive hpass
  cases e with
  | tunPacket packet =>
    obtain ⟨packets, -, hpass⟩ := Checked.bind_eq_ok.mp h
    exact hsilent (passDown_silent hpass)
  | getLatency peerAddress =>
    have hcalm := getLatency_calm (S := S) now n.securityLayer peerAddress
    exact hsilent (withSecurityLayer_silent hcalm.evolves.1.sameNode.identity hcalm.downward h)
  | configChange change =>
    cases h
    exact hsilent ⟨rfl, rfl⟩
  | baseReachable reachable =>
    cases h
    exact hsilent ⟨rfl, rfl⟩
  | udpPacket _ _ => exact hsocket trivial
  | multicastPacket _ _ => exact hsocket trivial
  | tcpFrame _ => exact hsocket trivial
  | tcpClosed => exact hsocket trivial
  | worker => exact hsocket trivial
  | periodic _ => exact hsocket trivial

end Node

/-- **Source authenticity at the TUN device.** In every run of a node, from any state and on any
events, a packet that a step writes to the TUN device is an IPv6 packet for this node whose source
is the id of a negotiated peer, under whose receive key the data packet of the step opened. -/
theorem tun_packets_authentic (S : Sodium) (T : JsonText) (n₀ : Node) (events : List (Time × NodeEvent)) :
    ∀ x ∈ transitions n₀ (Node.run S T n₀ events), ∀ packet, .tun packet ∈ x.2.2.sent →
      ∃ n₁ id data text, Node.receive S x.2.1.1 { x.1 with sent := [] } x.2.1.2 = .ok (n₁, some (id, data)) ∧
        OpensFrom S n₁ id data text ∧ CarriesFrom n₀ id data text packet := by
  have hrun := n₀.isRun_run S T events
  -- the address of the node is the same along the run
  have hidentity : ∀ n ∈ states n₀ (Node.run S T n₀ events), n.myIdentity = n₀.myIdentity :=
    hrun.keeps rfl fun n _ n' hn hstep => (Node.act_tun hstep).1.trans hn
  intro x hx packet hm
  obtain ⟨hmem, hstep⟩ := hrun.of_mem hx
  rcases (Node.act_tun hstep).2 packet (mem_tunPackets.mpr hm) with hm | ⟨n₁, id, data, text, hr, hopens, hc⟩
  · cases hm
  · have hself : (Node.myIdentity { x.1 with sent := [] }) = n₀.myIdentity := hidentity x.1 hmem
    exact ⟨n₁, id, data, text, hr, hopens, hself ▸ hc.isIpv6, hself ▸ hc.text⟩

/-- A frame of the base server with data from another node. -/
def frameOf (data : Bytes) : Time × NodeEvent := (0, .tcpFrame ([2] ++ (clearIdentity 2).deviceId.data.bytes ++ data))

/-- The receive key for the other node, after a hello from it. -/
def keyAfterHello : FString 32 :=
  ((last (openNode (clearIdentity 1)) (Node.run clearSodium ConfigManager.plainText (openNode (clearIdentity 1)) [frameOf replyToFresh])).deref 0).rxKey

/-- A hello packet, and a data packet that carries `[1, 2]` under protocol 17. -/
def helloAndData : List (Time × NodeEvent) :=
  [frameOf replyToFresh,
    frameOf ([0] ++ List.replicate 24 0 ++ clearSodium.secretbox keyAfterHello (.zero 24)
      (List.replicate 8 0 ++ [17, 1, 2]))]

theorem tun_packets_authentic_data :
    ∃ x ∈ transitions (openNode (clearIdentity 1)) (Node.run clearSodium ConfigManager.plainText (openNode (clearIdentity 1)) helloAndData), ∃ packet,
      .tun packet ∈ x.2.2.sent ∧ ∃ n₁ id data text,
        Node.receive clearSodium x.2.1.1 { x.1 with sent := [] } x.2.1.2 = .ok (n₁, some (id, data)) ∧
        OpensFrom clearSodium n₁ id data text ∧ CarriesFrom (openNode (clearIdentity 1)) id data text packet := by
  obtain ⟨x, hx, hsent⟩ : ∃ x ∈ transitions (openNode (clearIdentity 1)) (Node.run clearSodium ConfigManager.plainText (openNode (clearIdentity 1)) helloAndData),
      .tun (ipv6Packet 17 (clearIdentity 2).deviceId.data (clearIdentity 1).deviceId.data [1, 2]) ∈ x.2.2.sent := by
    decide +kernel
  exact ⟨x, hx, _, hsent, tun_packets_authentic clearSodium ConfigManager.plainText (openNode (clearIdentity 1)) helloAndData x hx _ hsent⟩

end Husarnet
