import Husarnet.Delivery

/-! # The sizes of data packets

The sender has room for 2001 bytes of data. The receiver takes packets below the size of its buffer
only, which leaves room for 1950.
-/

namespace Husarnet
open Octets
set_option autoImplicit false

namespace SecurityLayer
variable {S : Sodium}

/-- What the sender emits is the sealed data, which it has room for. -/
theorem doSendDataPacket_emits {sl : SecurityLayer} {peer : PeerRef} {data : Bytes} {dest : HusarnetAddress}
    {packet : Bytes} (h : (sl.doSendDataPacket S peer data).2 = [.toLower dest packet]) :
    data.length ≤ 2001 ∧ packet = sealedPacket S (sl.deref peer).txKey
      (sl.peerContainer.random.tape.nonce sl.peerContainer.random.draws) data := by
  by_cases hl : data.length < 2002
  · rw [doSendDataPacket_eq sl rfl hl] at h
    cases h
    exact ⟨by omega, rfl⟩
  · have hnone : (sl.doSendDataPacket S peer data).2 = [] := by
      rw [doSendDataPacket]
      split
      · rfl
      · rw [if_pos (by omega)]
    rw [hnone] at h
    cases h

/-- The receiver's buffer bounds the packet, not its text. -/
theorem onLowerLayerData_oversized (now : Time) (sl : SecurityLayer) (source : HusarnetAddress) {packet : Bytes}
    (h : 2000 ≤ packet.length) : sl.onLowerLayerData S now source packet = .ok (sl, []) := by
  rw [onLowerLayerData, if_pos h]
  rfl

/-- **Data packets by size.** Data that one node seals and another opens under the same key is
delivered if and only if it has 1950 bytes at most. -/
theorem data_packet_roundtrip_iff (hS : S.BoxOpens) (sender : SecurityLayer) (peer : PeerRef) (data : Bytes)
    (hsome : data ≠ []) (dest : HusarnetAddress) (packet : Bytes)
    (hsent : (sender.doSendDataPacket S peer data).2 = [.toLower dest packet]) (now : Time)
    (receiver looked : SecurityLayer) (source : HusarnetAddress) (ref : PeerRef)
    (hknown : receiver.getOrCreatePeer source = (looked, some ref))
    (hnegotiated : (looked.deref ref).negotiated = true)
    (hkey : (looked.deref ref).rxKey = (sender.deref peer).txKey) :
    (∃ receiver', receiver.onLowerLayerData S now source packet = .ok (receiver', [.toUpper source data])) ↔
      data.length ≤ 1950 := by
  obtain ⟨-, rfl⟩ := doSendDataPacket_emits hsent
  constructor
  · rintro ⟨receiver', hdelivered⟩
    by_contra hlarge
    rw [onLowerLayerData_oversized now receiver source (by rw [sealedPacket_length hS]; omega)] at hdelivered
    cases hdelivered
  · intro hl
    rw [← hkey]
    exact onLowerLayerData_sealed hS now hknown hnegotiated _ (List.length_pos_iff.mpr hsome) hl

/-! ## Two nodes with a session -/

theorem receiver_holds_sender : HoldsPeer receiver (clearIdentity 1).deviceId 0 (receiver.deref 0) :=
  ⟨by decide +kernel, rfl, by decide +kernel⟩

theorem sender_emits (data : Bytes) (hl : data.length ≤ 2001) :
    ∃ packet, (sender.securityLayer.doSendDataPacket clearSodium 0 data).2 =
      [.toLower (clearIdentity 2).deviceId packet] ∧ packet.length = data.length + 49 := by
  have hid : (sender.securityLayer.deref 0).id = (clearIdentity 2).deviceId := by decide +kernel
  rw [doSendDataPacket_eq sender.securityLayer rfl (by omega), hid]
  exact ⟨_, rfl, sealedPacket_length boxOpens_clearSodium _ _ _⟩

theorem three_bytes_delivered :
    ∃ packet, (sender.securityLayer.doSendDataPacket clearSodium 0 [1, 2, 3]).2 =
        [.toLower (clearIdentity 2).deviceId packet] ∧
      ∃ receiver', receiver.securityLayer.onLowerLayerData clearSodium 7 (clearIdentity 1).deviceId packet =
        .ok (receiver', [.toUpper (clearIdentity 1).deviceId [1, 2, 3]]) := by
  obtain ⟨packet, hsent, -⟩ := sender_emits [1, 2, 3] (by decide)
  have hderef := receiver_holds_sender.deref_lookedUp
  refine ⟨packet, hsent, ?_⟩
  refine (data_packet_roundtrip_iff boxOpens_clearSodium sender.securityLayer 0 [1, 2, 3] (by decide) _ packet hsent 7
    _ _ _ _ receiver_holds_sender.getOrCreatePeer ?_ ?_).mpr (by decide)
  · rw [hderef]
    exact receiver_holds_sender.negotiated
  · rw [hderef]
    decide +kernel

/-- One byte more than the receiver has room for: the sender emits it. -/
theorem large_packet_lost :
    let data : Bytes := List.replicate 1951 7
    ∃ packet, (sender.securityLayer.doSendDataPacket clearSodium 0 data).2 = [.toLower (clearIdentity 2).deviceId packet] ∧
      (HoldsPeer.lookedUp receiver (clearIdentity 1).deviceId).deref 0 = receiver.deref 0 ∧
      (receiver.deref 0).negotiated = true ∧ (receiver.deref 0).rxKey = (sender.deref 0).txKey ∧
      receiver.securityLayer.onLowerLayerData clearSodium 7 (clearIdentity 1).deviceId packet =
        .ok (receiver.securityLayer, []) := by
  intro data
  have hl : data.length = 1951 := List.length_replicate
  obtain ⟨packet, hsent, hlen⟩ := sender_emits data (by omega)
  exact ⟨packet, hsent, receiver_holds_sender.deref_lookedUp, receiver_holds_sender.negotiated, by decide +kernel,
    onLowerLayerData_oversized 7 receiver.securityLayer (clearIdentity 1).deviceId (by omega)⟩

end SecurityLayer
end Husarnet
