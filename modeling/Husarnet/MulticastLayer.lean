import Husarnet.Config.ConfigManager

/-! # multicast_layer.cpp and compression_layer.cpp

The layer between the TUN device and the compression layer, which is built without a compressor
and hands on what it gets. Upwards, a packet is an address and the bytes for the TUN device;
downwards, an address and the bytes for the layer below.
-/

namespace Husarnet
open Octets
set_option autoImplicit false

/-- The first eight bytes of the IPv6 header made for a payload. -/
def ipv6Prefix (payloadSize : ℕ) (protocol : UInt8) : Bytes :=
  [(6 : UInt8) <<< 4, 0, 0, 0, UInt8.ofNat (payloadSize / 256), UInt8.ofNat payloadSize, protocol, 3]

def ipv6Packet (protocol : UInt8) (source dest : FString 16) (payload : Bytes) : Bytes :=
  ipv6Prefix payload.length protocol ++ (source.bytes ++ (dest.bytes ++ payload))

namespace MulticastLayer

def onLowerLayerData (myDeviceId source : HusarnetAddress) (data : Bytes) :
    Checked (List (HusarnetAddress × Bytes)) :=
  if data.length < 2 then return []
  else do
    let protocol ← StringView.get data 0
    if protocol = 0xff ∧ (← StringView.get data 1) = 0x01 then
      if data.length < 20 then return []
      else
        let protocol ← StringView.get data 2
        let mcastAddr ← StringView.substr data 3 16
        if (← StringView.get mcastAddr 0) ≠ 0xff then return []
        else
          let packet := ipv6Prefix (data.length - 19) protocol ++ (source.data.bytes ++
            (mcastAddr ++ (← StringView.drop data 19)))
          return [(.invalid, packet)]
    else
      let packet := ipv6Prefix (data.length - 1) protocol ++ (source.data.bytes ++
        (myDeviceId.data.bytes ++ (← StringView.drop data 1)))
      return [(source, packet)]

/-- The addresses are read through pointers into a packet of more than 40 bytes. -/
def onUpperLayerData (configManager : ConfigManager) (myDeviceId : HusarnetAddress) (packet : Bytes) :
    Checked (List (HusarnetAddress × Bytes)) :=
  if h : packet.length ≤ 40 then return []
  else do
    let version := (← StringView.get packet 0) >>> 4
    if version ≠ 6 then return []
    else
      let protocol ← StringView.get packet 6
      let srcAddress : HusarnetAddress := ⟨sliceF packet 8 16 (by omega)⟩
      let dstAddress : HusarnetAddress := ⟨sliceF packet 24 16 (by omega)⟩
      let multicast ←
        if dstAddress.byte 0 = 0xff then do
          let msgData := [0xff, 0x01] ++ [protocol] ++ dstAddress.data.bytes ++ (← StringView.drop packet 40)
          pure ((configManager.getMulticastDestinations dstAddress).map fun dest => (dest, msgData))
        else pure []
      if dstAddress.byte 0 = 0xfc ∧ dstAddress.byte 1 = 0x94 then
        if srcAddress ≠ myDeviceId then return multicast
        else
          -- the protocol byte replaces the last byte of the header in place
          let msgData ← StringView.drop packet 39
          let _ ← StringView.get msgData 0
          return multicast ++ [(dstAddress, [protocol] ++ msgData.tail)]
      else return multicast

/-! ## The packets for the TUN device -/

/-- The ways `onLowerLayerData` can go. -/
inductive UpPackets (myDeviceId source : HusarnetAddress) (data : Bytes) : List (HusarnetAddress × Bytes) → Prop where
  | dropped : UpPackets myDeviceId source data []
  | multicast (protocol : UInt8) (mcastAddr : FString 16) (h : mcastAddr.get 0 = 0xff) (hl : 20 ≤ data.length) :
      UpPackets myDeviceId source data [(.invalid, ipv6Packet protocol source.data mcastAddr (data.drop 19))]
  | unicast (hl : 2 ≤ data.length) :
      UpPackets myDeviceId source data
        [(source, ipv6Packet (data.getD 0 0) source.data myDeviceId.data (data.drop 1))]

theorem UpPackets.length_le {myDeviceId source : HusarnetAddress} {data : Bytes}
    {packets : List (HusarnetAddress × Bytes)} (h : UpPackets myDeviceId source data packets) : packets.length ≤ 1 := by
  cases h with
  | dropped => exact Nat.zero_le 1
  | multicast _ _ _ _ => exact le_rfl
  | unicast _ => exact le_rfl

theorem onLowerLayerData_unicast {myDeviceId source : HusarnetAddress} {data : Bytes} (hl : 2 ≤ data.length)
    (h : ¬ (data.getD 0 0 = 0xff ∧ data.getD 1 0 = 0x01)) : onLowerLayerData myDeviceId source data =
      .ok [(source, ipv6Packet (data.getD 0 0) source.data myDeviceId.data (data.drop 1))] := by
  have hlen : (data.drop 1).length = data.length - 1 := List.length_drop
  rw [ipv6Packet, hlen, onLowerLayerData, if_neg (by omega), StringView.get_of_lt (by omega),
    StringView.get_of_lt (by omega)]
  simp only [Except.bind, bind]
  rw [if_neg h, StringView.drop_of_le (by omega)]
  rfl

theorem onLowerLayerData_upPackets (myDeviceId source : HusarnetAddress) (data : Bytes) :
    ∃ packets, onLowerLayerData myDeviceId source data = .ok packets ∧ UpPackets myDeviceId source data packets := by
  by_cases hl : data.length < 2
  · rw [onLowerLayerData, if_pos hl]
    exact ⟨_, rfl, .dropped⟩
  · by_cases h : data.getD 0 0 = 0xff ∧ data.getD 1 0 = 0x01
    · rw [onLowerLayerData, if_neg hl, StringView.get_of_lt (by omega), StringView.get_of_lt (by omega)]
      simp only [Except.bind, bind]
      rw [if_pos h]
      by_cases hl20 : data.length < 20
      · rw [if_pos hl20]
        exact ⟨_, rfl, .dropped⟩
      · have hmcast : StringView.get (slice data 3 16) 0 = .ok ((sliceF data 3 16 (by omega)).get 0) :=
          StringView.get_of_lt (by rw [slice_length (by omega)]; decide)
        have hlen : (data.drop 19).length = data.length - 19 := List.length_drop
        rw [if_neg hl20, StringView.get_of_lt (by omega), StringView.substr_of_le (by omega)]
        simp only [hmcast]
        by_cases hff : (sliceF data 3 16 (by omega)).get 0 = 0xff
        · rw [if_neg (not_not.mpr hff), StringView.drop_of_le (by omega)]
          simp only [← hlen]
          exact ⟨_, rfl, .multicast _ (sliceF data 3 16 (by omega)) hff (by omega)⟩
        · rw [if_pos hff]
          exact ⟨_, rfl, .dropped⟩
    · rw [onLowerLayerData_unicast (by omega) h]
      exact ⟨_, rfl, .unicast (by omega)⟩

/-- A packet of this node for another one goes down as its protocol and its payload. -/
theorem onUpperLayerData_unicast (configManager : ConfigManager) {myDeviceId dest : HusarnetAddress} {packet : Bytes}
    (hl : 40 < packet.length) (hversion : packet.getD 0 0 >>> 4 = 6) (hsource : slice packet 8 16 = myDeviceId.data.bytes)
    (hdest : slice packet 24 16 = dest.data.bytes) (hfc : dest.isFC94 = true) :
    onUpperLayerData configManager myDeviceId packet = .ok [(dest, packet.getD 6 0 :: packet.drop 40)] := by
  have hsrc : (⟨sliceF packet 8 16 (by omega)⟩ : HusarnetAddress) = myDeviceId :=
    congrArg IpAddress.mk (FString.ext hsource)
  have hdst : (⟨sliceF packet 24 16 (by omega)⟩ : HusarnetAddress) = dest := congrArg IpAddress.mk (FString.ext hdest)
  have hbytes : dest.byte 0 = 0xfc ∧ dest.byte 1 = 0x94 := by simpa [IpAddress.isFC94] using hfc
  have hmulticast : ¬ dest.byte 0 = 0xff := by
    rw [hbytes.1]
    decide
  have hbyte : StringView.get (packet.drop 39) 0 = .ok ((packet.drop 39).getD 0 0) :=
    StringView.get_of_lt (by rw [List.length_drop]; omega)
  unfold onUpperLayerData
  rw [dif_neg (by omega), StringView.get_of_lt (by omega), StringView.get_of_lt (by omega),
    StringView.drop_of_le (by omega), StringView.drop_of_le (by omega)]
  simp only [Except.bind, bind, hbyte, hsrc, hdst]
  rw [if_neg (not_not.mpr hversion)]
  simp only [if_neg hmulticast, if_pos hbytes, pure, Except.pure]
  rw [if_neg (not_not.mpr rfl), List.tail_drop]
  rfl

theorem onUpperLayerData_ok (configManager : ConfigManager) (myDeviceId : HusarnetAddress) (packet : Bytes) :
    ∃ packets, onUpperLayerData configManager myDeviceId packet = .ok packets := by
  unfold onUpperLayerData
  by_cases hl : packet.length ≤ 40
  · rw [dif_pos hl]
    exact ⟨[], rfl⟩
  · have hbyte : StringView.get (packet.drop 39) 0 = .ok ((packet.drop 39).getD 0 0) :=
      StringView.get_of_lt (by rw [List.length_drop]; omega)
    rw [dif_neg hl, StringView.get_of_lt (by omega), StringView.get_of_lt (by omega),
      StringView.drop_of_le (by omega), StringView.drop_of_le (by omega)]
    simp only [Except.bind, bind, hbyte]
    by_cases hversion : packet.getD 0 0 >>> 4 = 6
    · rw [if_neg (not_not.mpr hversion)]
      by_cases hff : IpAddress.byte ⟨sliceF packet 24 16 (by omega)⟩ 0 = 0xff
      · simp only [if_pos hff, pure, Except.pure]
        split
        · split <;> exact ⟨_, rfl⟩
        · exact ⟨_, rfl⟩
      · simp only [if_neg hff, pure, Except.pure]
        split
        · split <;> exact ⟨_, rfl⟩
        · exact ⟨_, rfl⟩
    · rw [if_pos hversion]
      exact ⟨[], rfl⟩

end MulticastLayer

/-- An IPv6 packet from `source` to this node or to a multicast address, with the length of its
payload in the header. -/
structure IsIpv6 (myDeviceId source : HusarnetAddress) (packet : Bytes) : Prop where
  long : 40 ≤ packet.length
  version : packet.getD 0 0 >>> 4 = 6
  source : slice packet 8 16 = source.data.bytes
  destination : slice packet 24 16 = myDeviceId.data.bytes ∨ packet.getD 24 0 = 0xff
  payloadLength : (packet.getD 4 0).toNat * 256 + (packet.getD 5 0).toNat = packet.length - 40

theorem ipv6Packet_length (protocol : UInt8) (source dest : FString 16) (payload : Bytes) :
    (ipv6Packet protocol source dest payload).length = payload.length + 40 := by
  simp only [ipv6Packet, ipv6Prefix, List.length_append, List.length_cons, List.length_nil, FString.length_bytes]
  omega

theorem isIpv6_ipv6Packet {myDeviceId source : HusarnetAddress} {dest : FString 16} (protocol : UInt8) {payload : Bytes}
    (hdest : dest = myDeviceId.data ∨ dest.get 0 = 0xff) (hl : payload.length < 65536) :
    IsIpv6 myDeviceId source (ipv6Packet protocol source.data dest payload) := by
  have hprefix : (ipv6Prefix payload.length protocol).length = 8 := rfl
  have hsource : slice (ipv6Packet protocol source.data dest payload) 8 16 = source.data.bytes := by
    rw [ipv6Packet, slice_field_next _ 16 hprefix (by omega)]
    exact slice_field_first _ source.data.size_eq
  have hdestination : slice (ipv6Packet protocol source.data dest payload) 24 16 = dest.bytes := by
    rw [ipv6Packet, slice_field_next _ 16 hprefix (by omega), slice_field_next _ 16 source.data.size_eq (by omega)]
    exact slice_field_first _ dest.size_eq
  refine ⟨?_, ?_, hsource, ?_, ?_⟩
  · rw [ipv6Packet_length]
    omega
  · show ((6 : UInt8) <<< 4) >>> 4 = 6
    decide
  · rcases hdest with rfl | hdest
    · exact Or.inl hdestination
    · refine Or.inr ?_
      have hbyte : (slice (ipv6Packet protocol source.data dest payload) 24 16).getD 0 0 =
          (ipv6Packet protocol source.data dest payload).getD 24 0 := getD_slice _ (by omega)
      rw [hdestination] at hbyte
      exact hbyte.symm.trans hdest
  · have hhigh : (UInt8.ofNat (payload.length / 256)).toNat = payload.length / 256 % 256 := UInt8.toNat_ofNat'
    have hlow : (UInt8.ofNat payload.length).toNat = payload.length % 256 := UInt8.toNat_ofNat'
    rw [ipv6Packet_length]
    show (UInt8.ofNat (payload.length / 256)).toNat * 256 + (UInt8.ofNat payload.length).toNat = _
    rw [hhigh, hlow]
    omega

/-- What the layer writes to the TUN device is an IPv6 packet. -/
theorem MulticastLayer.UpPackets.isIpv6 {myDeviceId source : HusarnetAddress} {data : Bytes}
    {packets : List (HusarnetAddress × Bytes)} (h : UpPackets myDeviceId source data packets)
    (hl : data.length < 65536) : ∀ packet ∈ packets, IsIpv6 myDeviceId source packet.2 := by
  intro packet hp
  cases h with
  | dropped => cases hp
  | multicast protocol mcastAddr hff _ =>
    rw [List.mem_singleton] at hp
    subst hp
    exact isIpv6_ipv6Packet protocol (Or.inr hff) (by rw [List.length_drop]; omega)
  | unicast _ =>
    rw [List.mem_singleton] at hp
    subst hp
    exact isIpv6_ipv6Packet _ (Or.inl rfl) (by rw [List.length_drop]; omega)

end Husarnet
