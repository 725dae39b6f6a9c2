import Husarnet.MulticastLayer

/-! # Framing of the multicast layer

A unicast message is the protocol and the payload, a multicast message a marker, the protocol, the
group and the payload. A unicast packet whose protocol and first payload byte are the marker is
taken for a multicast one; all others come out as they went in.
-/

namespace Husarnet
open Octets
set_option autoImplicit false

namespace MulticastLayer

/-! ## Packets by their destination -/

def protocolOf (packet : Bytes) : UInt8 := packet.getD 6 0

def payloadOf (packet : Bytes) : Bytes := packet.drop 40

def IsUnicast (packet : Bytes) : Prop := packet.getD 24 0 = 0xfc ∧ packet.getD 25 0 = 0x94

def IsMulticast (packet : Bytes) : Prop := packet.getD 24 0 = 0xff

/-- The group is the destination address. -/
def groupOf (packet : Bytes) (h : 40 < packet.length) : FString 16 := sliceF packet 24 16 (by omega)

/-- What comes out on a node is the one packet that went in, from `source`, for the node or for the group. -/
structure DeliversAs (packet : Bytes) (long : 40 < packet.length) (source myDeviceId : HusarnetAddress)
    (result : Checked (List (HusarnetAddress × Bytes))) : Prop where
  unicast : IsUnicast packet →
    result = .ok [(source, ipv6Packet (protocolOf packet) source.data myDeviceId.data (payloadOf packet))]
  multicast : IsMulticast packet →
    result = .ok [(.invalid, ipv6Packet (protocolOf packet) source.data (groupOf packet long) (payloadOf packet))]

/-- A unicast packet whose message begins with the marker of multicast messages. -/
def MarkedUnicast (packet : Bytes) : Prop :=
  IsUnicast packet ∧ protocolOf packet = 0xff ∧ packet.getD 40 0 = 0x01

/-! ## Messages of a packet -/

/-- The messages that a packet can give. -/
inductive Framed (packet : Bytes) (long : 40 < packet.length) : Bytes → Prop where
  | multicast (h : IsMulticast packet) :
      Framed packet long ([0xff, 0x01] ++ [protocolOf packet] ++ (groupOf packet long).bytes ++ payloadOf packet)
  | unicast (h : IsUnicast packet) : Framed packet long (protocolOf packet :: payloadOf packet)

theorem destination_byte {packet : Bytes} (h : 40 < packet.length) {i : ℕ} (hi : i < 16) :
    IpAddress.byte ⟨sliceF packet 24 16 (by omega)⟩ i = packet.getD (24 + i) 0 :=
  getD_slice packet hi

theorem not_multicast_of_unicast {packet : Bytes} (h : IsUnicast packet) : ¬ IsMulticast packet := by
  intro hm
  rw [IsMulticast, h.1] at hm
  exact absurd hm (by decide)

theorem onUpperLayerData_framed {configManager : ConfigManager} {myDeviceId : HusarnetAddress} {packet : Bytes}
    {messages : List (HusarnetAddress × Bytes)} (h : onUpperLayerData configManager myDeviceId packet = .ok messages)
    {message : HusarnetAddress × Bytes} (hm : message ∈ messages) :
    ∃ long : 40 < packet.length, Framed packet long message.2 := by
  unfold onUpperLayerData at h
  by_cases hl : packet.length ≤ 40
  · rw [dif_pos hl] at h
    cases h
    cases hm
  · have long : 40 < packet.length := by omega
    have hbyte : StringView.get (packet.drop 39) 0 = .ok ((packet.drop 39).getD 0 0) :=
      StringView.get_of_lt (by rw [List.length_drop]; omega)
    refine ⟨long, ?_⟩
    rw [dif_neg hl, StringView.get_of_lt (by omega), StringView.get_of_lt (by omega),
      StringView.drop_of_le (by omega), StringView.drop_of_le (by omega)] at h
    simp only [Except.bind, bind, hbyte, destination_byte long (by decide : 0 < 16),
      destination_byte long (by decide : 1 < 16), pure, Except.pure] at h
    by_cases hversion : packet.getD 0 0 >>> 4 = 6
    · rw [if_neg (not_not.mpr hversion)] at h
      by_cases hff : IsMulticast packet
      · have hfc : ¬ IsUnicast packet := fun hu => not_multicast_of_unicast hu hff
        rw [IsMulticast] at hff
        rw [IsUnicast] at hfc
        simp only [if_pos hff, if_neg hfc, Except.ok.injEq] at h
        rw [← h] at hm
        obtain ⟨dest, -, rfl⟩ := List.mem_map.mp hm
        exact .multicast hff
      · rw [IsMulticast] at hff
        simp only [if_neg hff] at h
        by_cases hfc : IsUnicast packet
        · have hbytes : packet.getD (24 + 0) 0 = 0xfc ∧ packet.getD (24 + 1) 0 = 0x94 := hfc
          rw [if_pos hbytes] at h
          split at h
          · cases h
            cases hm
          · rw [List.nil_append, Except.ok.injEq] at h
            rw [← h, List.mem_singleton] at hm
            subst hm
            rw [List.tail_drop]
            exact .unicast hfc
        · have hbytes : ¬ (packet.getD (24 + 0) 0 = 0xfc ∧ packet.getD (24 + 1) 0 = 0x94) := hfc
          rw [if_neg hbytes] at h
          cases h
          cases hm
    · rw [if_pos hversion] at h
      cases h
      cases hm

/-! ## Messages at the other node -/

/-- A message with the marker comes out as a multicast packet, or not at all. -/
theorem onLowerLayerData_marked (myDeviceId source : HusarnetAddress) {data : Bytes} (hl : 2 ≤ data.length)
    (hmarker : data.getD 0 0 = 0xff ∧ data.getD 1 0 = 0x01) :
    onLowerLayerData myDeviceId source data =
      .ok (if h : 20 ≤ data.length ∧ data.getD 3 0 = 0xff then
          [(.invalid, ipv6Packet (data.getD 2 0) source.data (sliceF data 3 16 (by omega)) (data.drop 19))]
        else []) := by
  rw [onLowerLayerData, if_neg (by omega), StringView.get_of_lt (by omega), StringView.get_of_lt (by omega)]
  simp only [Except.bind, bind]
  rw [if_pos hmarker]
  by_cases hlong : data.length < 20
  · rw [if_pos hlong, dif_neg fun h => by omega]
    rfl
  · have hbyte : (slice data 3 16).getD 0 0 = data.getD 3 0 := getD_slice data (by decide)
    have hget : StringView.get (slice data 3 16) 0 = .ok (data.getD 3 0) := by
      rw [← hbyte]
      exact StringView.get_of_lt (by rw [slice_length (by omega)]; decide)
    rw [if_neg hlong, StringView.get_of_lt (by omega), StringView.substr_of_le (by omega)]
    simp only [hget]
    by_cases hff : data.getD 3 0 = 0xff
    · have hlen : (data.drop 19).length = data.length - 19 := List.length_drop
      rw [if_neg (not_not.mpr hff), dif_pos ⟨by omega, hff⟩, StringView.drop_of_le (by omega), ipv6Packet, hlen]
      rfl
    · rw [if_pos hff, dif_neg fun h => hff h.2]
      rfl

theorem onLowerLayerData_multicast (myDeviceId source : HusarnetAddress) (protocol : UInt8) {group : FString 16}
    (hgroup : group.get 0 = 0xff) {payload : Bytes} (hpayload : payload ≠ []) :
    onLowerLayerData myDeviceId source ([0xff, 0x01] ++ [protocol] ++ group.bytes ++ payload) =
      .ok [(.invalid, ipv6Packet protocol source.data group payload)] := by
  have hpos := List.length_pos_iff.mpr hpayload
  have hlen : ([0xff, 0x01] ++ [protocol] ++ group.bytes ++ payload).length = 19 + payload.length := by
    simp
    omega
  have hfield : slice ([0xff, 0x01] ++ [protocol] ++ group.bytes ++ payload) 3 16 = group.bytes := by
    have h := slice_field ([0xff, 0x01] ++ [protocol]) group.bytes payload (i := 3) rfl group.size_eq
    rwa [← List.append_assoc] at h
  have hbyte : ([0xff, 0x01] ++ [protocol] ++ group.bytes ++ payload).getD 3 0 = 0xff := by
    have h : (slice ([0xff, 0x01] ++ [protocol] ++ group.bytes ++ payload) 3 16).getD 0 0 = _ := getD_slice _ (by decide)
    rw [hfield] at h
    exact h.symm.trans hgroup
  have hdrop : ([0xff, 0x01] ++ [protocol] ++ group.bytes ++ payload).drop 19 = payload :=
    List.drop_left' (by simp)
  have hgroupF (h : 3 + 16 ≤ ([0xff, 0x01] ++ [protocol] ++ group.bytes ++ payload).length) :
      sliceF ([0xff, 0x01] ++ [protocol] ++ group.bytes ++ payload) 3 16 h = group := FString.ext hfield
  rw [onLowerLayerData_marked _ _ (by omega) ⟨rfl, rfl⟩, dif_pos ⟨by omega, hbyte⟩, hdrop, hgroupF]
  rfl

/-! ## What comes out -/

theorem deliversAs_iff (source myDeviceId : HusarnetAddress) {packet message : Bytes} {long : 40 < packet.length}
    (h : Framed packet long message) :
    DeliversAs packet long source myDeviceId (onLowerLayerData myDeviceId source message) ↔ ¬ MarkedUnicast packet := by
  have hpayload : (payloadOf packet).length = packet.length - 40 := List.length_drop
  cases h with
  | multicast hgroup =>
    have hsome : payloadOf packet ≠ [] := List.length_pos_iff.mp (by omega)
    have hbyte : (groupOf packet long).get 0 = 0xff := (getD_slice packet (by decide : 0 < 16)).trans hgroup
    rw [onLowerLayerData_multicast myDeviceId source (protocolOf packet) hbyte hsome]
    refine ⟨fun _ hmarked => not_multicast_of_unicast hmarked.1 hgroup, fun _ => ⟨fun hunicast => ?_, fun _ => rfl⟩⟩
    exact absurd hgroup (not_multicast_of_unicast hunicast)
  | unicast hunicast =>
    have hfirst : (payloadOf packet).getD 0 0 = packet.getD 40 0 := by
      rw [payloadOf, List.getD_eq_getElem?_getD, List.getElem?_drop, List.getD_eq_getElem?_getD]
    have hl : 2 ≤ (protocolOf packet :: payloadOf packet).length := by
      rw [List.length_cons]
      omega
    constructor
    · rintro hdelivers ⟨-, hprotocol, hbyte⟩
      have hone := hdelivers.unicast hunicast
      rw [onLowerLayerData_marked _ _ hl ⟨hprotocol, hfirst.trans hbyte⟩, Except.ok.injEq] at hone
      -- the group and the protocol are gone from the payload
      split at hone
      · have hlens := congrArg (List.map fun p : HusarnetAddress × Bytes => p.2.length) hone
        simp only [List.map_cons, List.map_nil, ipv6Packet_length, List.length_drop, List.length_cons] at hlens
        rw [List.cons.injEq] at hlens
        omega
      · cases hone
    · intro hmarked
      have hplain : ¬ ((protocolOf packet :: payloadOf packet).getD 0 0 = 0xff ∧
          (protocolOf packet :: payloadOf packet).getD 1 0 = 0x01) :=
        fun hm => hmarked ⟨hunicast, hm.1, hfirst.symm.trans hm.2⟩
      refine ⟨fun _ => onLowerLayerData_unicast hl hplain, fun hgroup => ?_⟩
      exact absurd hgroup (not_multicast_of_unicast hunicast)

/-- **Framing.** A message of a packet comes out on any node as that packet if and only if the
packet is not a unicast one that begins like a multicast message. -/
theorem framing_iff (configManager : ConfigManager) (senderId : HusarnetAddress) (packet : Bytes)
    (messages : List (HusarnetAddress × Bytes)) (h : onUpperLayerData configManager senderId packet = .ok messages)
    (message : HusarnetAddress × Bytes) (hm : message ∈ messages) (source myDeviceId : HusarnetAddress) :
    ∃ long : 40 < packet.length,
      DeliversAs packet long source myDeviceId (onLowerLayerData myDeviceId source message.2) ↔ ¬ MarkedUnicast packet := by
  obtain ⟨long, hframed⟩ := onUpperLayerData_framed h hm
  exact ⟨long, deliversAs_iff source myDeviceId hframed⟩

/-- A packet of node 1 for node 2 with one byte of payload. -/
def onePacket (protocol byte : UInt8) : Bytes :=
  ipv6Packet protocol (clearIdentity 1).deviceId.data (clearIdentity 2).deviceId.data [byte]

theorem onePacket_message (configManager : ConfigManager) (protocol byte : UInt8) :
    onUpperLayerData configManager (clearIdentity 1).deviceId (onePacket protocol byte) =
      .ok [((clearIdentity 2).deviceId, [protocol, byte])] := by
  have hlen : (onePacket protocol byte).length = 41 := ipv6Packet_length ..
  have hversion : ((6 : UInt8) <<< 4) >>> 4 = 6 := by decide
  exact onUpperLayerData_unicast configManager (by omega) hversion rfl rfl rfl

/-- UDP comes out as it went in. -/
theorem udp_packet_delivered : ∃ long : 40 < (onePacket 17 1).length,
    DeliversAs (onePacket 17 1) long (clearIdentity 1).deviceId (clearIdentity 2).deviceId
      (onLowerLayerData (clearIdentity 2).deviceId (clearIdentity 1).deviceId [17, 1]) := by
  have hmessage := onePacket_message (.new false (clearIdentity 1).deviceId 0 [] []) 17 1
  obtain ⟨long, hdelivers⟩ := framing_iff _ _ (onePacket 17 1) _ hmessage _ (List.mem_singleton_self _)
    (clearIdentity 1).deviceId (clearIdentity 2).deviceId
  refine ⟨long, hdelivers.mpr ?_⟩
  rintro ⟨-, hprotocol, -⟩
  exact absurd hprotocol (by decide)

/-- A packet of the reserved protocol 255 with payload 1 is dropped. -/
theorem reserved_packet_lost :
    let configManager : ConfigManager := .new false (clearIdentity 1).deviceId 0 [] []
    onUpperLayerData configManager (clearIdentity 1).deviceId (onePacket 0xff 1) =
      .ok [((clearIdentity 2).deviceId, [0xff, 1])] ∧
    ∀ long : 40 < (onePacket 0xff 1).length,
      ¬ DeliversAs (onePacket 0xff 1) long (clearIdentity 1).deviceId (clearIdentity 2).deviceId
        (onLowerLayerData (clearIdentity 2).deviceId (clearIdentity 1).deviceId [0xff, 1]) := by
  intro configManager
  refine ⟨onePacket_message configManager 0xff 1, fun long hdelivers => ?_⟩
  have hlost : onLowerLayerData (clearIdentity 2).deviceId (clearIdentity 1).deviceId [0xff, 1] = .ok [] := rfl
  have hone := hdelivers.unicast ⟨rfl, rfl⟩
  rw [hlost] at hone
  cases hone

end MulticastLayer
end Husarnet
