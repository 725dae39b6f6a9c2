import Husarnet.NgSocket.Messages
import Husarnet.Revocation
import Husarnet.SecurityLayer

/-! # Identities and keys

An id is bound to a key when it is made of the key's hash and the hash passes the proof of work.
The two places that compare `pubkeyToDeviceId` with an id that came from outside accept ids bound
to the key, and the address `3fff::`: the failure value of `pubkeyToDeviceId` is an ordinary
address, which a message can claim.
-/

namespace Husarnet
open Octets NgSocketCrypto
set_option autoImplicit false

/-- The id is the one made of the hash of the key, which passes the proof of work. -/
structure BoundTo (S : Sodium) (id : HusarnetAddress) (pubkey : FString 32) : Prop where
  range : id.isFC94 = true
  hash : id.data.bytes = [0xfc, 0x94] ++ slice (S.sha256 pubkey.bytes).bytes 3 14
  proofOfWork : (S.sha256 pubkey.bytes).get 0 = 0 ∧ (S.sha256 pubkey.bytes).get 1 < 50

theorem boundTo_idOfHash {S : Sodium} {pubkey : FString 32} (h : proofOfWork S pubkey = true) :
    BoundTo S (idOfHash (S.sha256 pubkey.bytes)) pubkey where
  range := isFC94_idOfHash _
  hash := rfl
  proofOfWork := by
    rw [NgSocketCrypto.proofOfWork, Bool.and_eq_true, beq_iff_eq, decide_eq_true_eq] at h
    exact h

/-- The comparison with `pubkeyToDeviceId` binds the id unless the key fails the proof of work,
and then it lets `3fff::` through. -/
theorem boundTo_iff {S : Sodium} {id : HusarnetAddress} {pubkey : FString 32}
    (h : pubkeyToDeviceId S pubkey = id) :
    BoundTo S id pubkey ↔ ¬ (id = IpAddress.invalid ∧ proofOfWork S pubkey = false) := by
  constructor
  · rintro hb ⟨hid, -⟩
    exact IpAddress.ne_invalid_of_isFC94 hb.range hid
  · intro hn
    cases hw : proofOfWork S pubkey with
    | false =>
      have hid : id = IpAddress.invalid := h ▸ (pubkeyToDeviceId_eq_invalid S pubkey).mpr hw
      exact absurd ⟨hid, hw⟩ hn
    | true =>
      rw [pubkeyToDeviceId, if_pos hw] at h
      exact h ▸ boundTo_idOfHash hw

/-! ## Messages between peers -/

/-- The parser takes the message for a hello or a reply of `id`. -/
def ParsesAsHello (S : Sodium) (data : Bytes) (id : HusarnetAddress) : Prop :=
  ∃ yourId cookie, parsePeerToPeerMessage S data = .ok (.HELLO id yourId cookie) ∨
    parsePeerToPeerMessage S data = .ok (.HELLO_REPLY id yourId cookie)

/-- A message of the length of a hello has its kind, and its signature is one of its key. -/
def SignedHello (S : Sodium) (data : Bytes) (h : data.length = 145) : Prop :=
  (data.getD 0 0 = 0 ∨ data.getD 0 0 = 1) ∧ verifySignature S (slice data 0 81) P2P_KIND
    (sliceF data 17 32 (helloKey_within h)) (sliceF data 81 64 (helloSignature_within h)) = true

/-- A hello is accepted exactly when it is signed and claims the id of its key. -/
theorem parsesAsHello_iff {S : Sodium} {data : Bytes} {id : HusarnetAddress} :
    ParsesAsHello S data id ↔ ∃ h : data.length = 145, SignedHello S data h ∧
      pubkeyToDeviceId S (sliceF data 17 32 (helloKey_within h)) = id ∧
        id = ⟨sliceF data 1 16 (helloId_within h)⟩ := by
  constructor
  · rintro ⟨yourId, cookie, hp⟩
    rcases parsePeerToPeerMessage_cases S data with ⟨hl, hk⟩ | ⟨-, -, he⟩ | he
    · rw [parsePeerToPeerMessage_signed S hl hk, parseSignedMessage_of_length hl] at hp
      split at hp
      · rename_i hok
        have hid : (⟨sliceF data 1 16 (by omega)⟩ : HusarnetAddress) = id := by
          by_cases hz : data.getD 0 0 = 0
          · simp only [if_pos hz, Except.ok.injEq, PeerToPeerMessage.HELLO.injEq, reduceCtorEq, or_false] at hp
            exact hp.1
          · simp only [if_neg hz, Except.ok.injEq, PeerToPeerMessage.HELLO_REPLY.injEq, reduceCtorEq,
              false_or] at hp
            exact hp.1
        exact ⟨hl, ⟨hk, hok.2⟩, hok.1.trans hid, hid.symm⟩
      · simp at hp
    · rw [he] at hp
      simp at hp
    · rw [he] at hp
      simp at hp
  · rintro ⟨hl, ⟨hk, hv⟩, hkey, hid⟩
    have hok := And.intro (hkey.trans hid) hv
    rw [ParsesAsHello, parsePeerToPeerMessage_signed S hl hk, parseSignedMessage_of_length hl, if_pos hok, hid]
    by_cases hz : data.getD 0 0 = 0
    · rw [if_pos hz]
      exact ⟨_, _, Or.inl rfl⟩
    · rw [if_neg hz]
      exact ⟨_, _, Or.inr rfl⟩

/-! ## Hello packets -/

/-- A packet gets past the checks of `handleHelloPacket` for `target`. -/
def PassesChecks (S : Sodium) (sl : SecurityLayer) (target : HusarnetAddress) (data : Bytes)
    (hello : HelloPacket) : Prop :=
  ¬ data.length < SecurityLayer.dataLen + 64 ∧ (sl.getOrCreatePeer target).2.isSome = true ∧
    HelloPacket.parse data = .ok hello ∧ hello.targetId = (sl.getOrCreatePeer target).1.myIdentity.deviceId.data ∧
    SecurityLayer.authentic S hello target = true

/-! ## What is accepted is bound, but for `3fff::` -/

/-- The id of every hello that is accepted, and every target for which a packet gets past the
checks, is bound to the key that the message carries. -/
def IdsBound (S : Sodium) (sl : SecurityLayer) (target : HusarnetAddress) (data : Bytes) : Prop :=
  (∀ id pubkey, ParsesAsHello S data id → substr 17 32 data = .ok pubkey → BoundTo S id pubkey) ∧
    ∀ hello, PassesChecks S sl target data hello → BoundTo S target hello.incomingPubkey

/-- A signed hello that claims the address `3fff::`, with a key that fails the proof of work. -/
def ForgesHello (S : Sodium) (data : Bytes) : Prop :=
  ∃ h : data.length = 145, SignedHello S data h ∧
    sliceF data 1 16 (helloId_within h) = IpAddress.invalid.data ∧
    proofOfWork S (sliceF data 17 32 (helloKey_within h)) = false

/-- A signed hello packet for this node, handled for the peer `3fff::`, with such a key. -/
def ForgesHelloPacket (S : Sodium) (sl : SecurityLayer) (target : HusarnetAddress) (data : Bytes) : Prop :=
  target = IpAddress.invalid ∧ (sl.getOrCreatePeer target).2.isSome = true ∧ ∃ h : 161 ≤ data.length,
    (HelloPacket.read data h).targetId = (sl.getOrCreatePeer target).1.myIdentity.deviceId.data ∧
      proofOfWork S (HelloPacket.read data h).incomingPubkey = false ∧
      verifySignature S (HelloPacket.read data h).signed KX_KIND
        (HelloPacket.read data h).incomingPubkey (HelloPacket.read data h).signature = true

theorem hello_bound_iff (S : Sodium) (data : Bytes) :
    (∀ id pubkey, ParsesAsHello S data id → substr 17 32 data = .ok pubkey → BoundTo S id pubkey) ↔
      ¬ ForgesHello S data := by
  constructor
  · rintro hb ⟨hl, hs, hid, hw⟩
    have hkey := (pubkeyToDeviceId_eq_invalid S _).mpr hw
    have hp : ParsesAsHello S data IpAddress.invalid :=
      parsesAsHello_iff.mpr ⟨hl, hs, hkey, IpAddress.ext hid.symm⟩
    have hbound := hb _ _ hp (substr_of_le (by omega))
    exact (boundTo_iff hkey).mp hbound ⟨rfl, hw⟩
  · intro hn id pubkey hp hkey
    obtain ⟨hl, hs, hid, hfield⟩ := parsesAsHello_iff.mp hp
    rw [substr_of_le (by omega), Except.ok.injEq] at hkey
    subst hkey
    refine (boundTo_iff hid).mpr ?_
    rintro ⟨hinv, hw⟩
    refine hn ⟨hl, hs, ?_, hw⟩
    rw [← hinv, hfield]

theorem target_bound_iff (S : Sodium) (sl : SecurityLayer) (target : HusarnetAddress) (data : Bytes) :
    (∀ hello, PassesChecks S sl target data hello → BoundTo S target hello.incomingPubkey) ↔
      ¬ ForgesHelloPacket S sl target data := by
  constructor
  · rintro hb ⟨htarget, hpeer, hl, hid, hw, hv⟩
    have hkey : pubkeyToDeviceId S (HelloPacket.read data hl).incomingPubkey = target :=
      htarget ▸ (pubkeyToDeviceId_eq_invalid S _).mpr hw
    have hpass : PassesChecks S sl target data (.read data hl) :=
      ⟨by simp only [SecurityLayer.dataLen]; omega, hpeer, HelloPacket.parse_of_le hl, hid,
        decide_eq_true ⟨hkey, hv⟩⟩
    exact (boundTo_iff hkey).mp (hb _ hpass) ⟨htarget, hw⟩
  · rintro hn hello ⟨hl, hpeer, hparse, hid, ha⟩
    have hl' : 161 ≤ data.length := by
      simp only [SecurityLayer.dataLen] at hl
      omega
    rw [HelloPacket.parse_of_le hl', Except.ok.injEq] at hparse
    subst hparse
    obtain ⟨hkey, hv⟩ := of_decide_eq_true ha
    refine (boundTo_iff hkey).mpr ?_
    rintro ⟨hinv, hw⟩
    exact hn ⟨hinv, hpeer, hl', hid, hw, hv⟩

/-- **Peer identities are bound to keys**, for every message and packet, in every state and for
every target, unless it is one that names `3fff::` with a key that fails the proof of work. -/
theorem idsBound_iff_not_forged (S : Sodium) (sl : SecurityLayer) (target : HusarnetAddress) (data : Bytes) :
    IdsBound S sl target data ↔ ¬ ForgesHello S data ∧ ¬ ForgesHelloPacket S sl target data := by
  rw [IdsBound, hello_bound_iff, target_bound_iff]

/-! ## A peer without an identity -/

/-- The hash of a key is the key: few keys pass the proof of work. -/
def plainHash : Sodium := { clearSodium with sha256 := .pad 32 }

/-- A peer that has made no proof of work and goes by the address `3fff::`. -/
def nobody : Identity where
  pubkey := .pad 32 [1]
  privkey := .pad 64 [1]
  deviceId := .invalid

/-- Its hello. -/
def helloOfNobody : Bytes :=
  serializePeerToPeerMessage plainHash nobody (.HELLO .invalid (clearIdentity 2).deviceId (List.replicate 16 0))

/-- Its hello packet. -/
def helloPacketOfNobody : Bytes :=
  signedHello plainHash nobody .new { (default : Peer) with id := (clearIdentity 2).deviceId } 1 0 0

/-- Both are accepted, and the address they go by is not bound to the key. -/
theorem invalid_address_accepted :
    ¬ IdsBound plainHash (.openTo (clearIdentity 2)) .invalid helloOfNobody ∧
      ¬ IdsBound plainHash (.openTo (clearIdentity 2)) .invalid helloPacketOfNobody := by
  have hello : ForgesHello plainHash helloOfNobody :=
    ⟨by decide +kernel, ⟨by decide +kernel, by decide +kernel⟩, by decide +kernel, by decide +kernel⟩
  have packet : ForgesHelloPacket plainHash (.openTo (clearIdentity 2)) .invalid helloPacketOfNobody :=
    ⟨rfl, by decide +kernel, by decide +kernel, by decide +kernel, by decide +kernel, by decide +kernel⟩
  constructor
  · intro hb
    exact (hello_bound_iff _ _).mp hb.1 hello
  · intro hb
    exact (target_bound_iff _ _ _ _).mp hb.2 packet

end Husarnet
