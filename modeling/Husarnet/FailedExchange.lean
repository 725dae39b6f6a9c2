import Husarnet.PeerIdentity
import Husarnet.PeerPaths

/-! # A key exchange that fails

The flags of the peer are replaced before the exchange, and the keys are mixed with flags behind
it, whether it succeeded or not. So the session survives a failed exchange for packets whose flags
are zero and the peer's flags already.
-/

namespace Husarnet
open Octets PeerContainer
set_option autoImplicit false

namespace SecurityLayer
variable {S : Sodium}

/-- What a session and its peer have. -/
structure SessionIntact (sl sl' : SecurityLayer) (peer : PeerRef) : Prop where
  txKey : (sl'.deref peer).txKey = (sl.deref peer).txKey
  rxKey : (sl'.deref peer).rxKey = (sl.deref peer).rxKey
  flags : (sl'.deref peer).flags = (sl.deref peer).flags
  negotiated : (sl'.deref peer).negotiated = (sl.deref peer).negotiated
  packetQueue : (sl'.deref peer).packetQueue = (sl.deref peer).packetQueue
  helloseq : sl'.helloseq = sl.helloseq

/-- A hello packet of the last two types that passes all checks, for a peer with a session, where
the library refuses the key exchange. -/
structure FailingHello (S : Sodium) (sl : SecurityLayer) (target : HusarnetAddress) (peer : PeerRef) (data : Bytes)
    (helloNum : UInt8) (hello : HelloPacket) : Prop where
  kind : helloNum = 2 ∨ helloNum = 3
  known : (sl.getOrCreatePeer target).2 = some peer
  session : (sl.deref peer).negotiated = true
  checks : PassesChecks S sl target data hello
  helloseq : hello.myHelloseq = sl.helloseq
  fails : sl.sessionKeys S target peer hello.peerKxPubkey = none

/-- The packet has the flags of the peer, and these change no key. -/
def FlagsUnchanged (S : Sodium) (sl : SecurityLayer) (peer : PeerRef) (hello : HelloPacket) : Prop :=
  hello.flags_bin = (sl.deref peer).flags.asBin ∧ (hello.flags_bin = 0 ∨
    (mixFlags S (sl.deref peer).rxKey hello.flags_bin sl.myFlags.asBin = (sl.deref peer).rxKey ∧
      mixFlags S (sl.deref peer).txKey sl.myFlags.asBin hello.flags_bin = (sl.deref peer).txKey))

theorem lookedUp_session (sl : SecurityLayer) (target : HusarnetAddress) :
    Kept (fun p p' => p.negotiated = true → p' = p) sl.peerContainer (sl.getOrCreatePeer target).1.peerContainer :=
  Kept.getOrCreatePeer (fun _ _ => rfl) (fun _ _ _ h => by cases h) sl.peerContainer target

/-- The keys behind the exchange: the old ones, mixed with the flags if there are any. -/
def keysAfterFailure (S : Sodium) (sl : SecurityLayer) (peer : PeerRef) (hello : HelloPacket) : FString 32 × FString 32 :=
  if hello.flags_bin ≠ 0 then
    (mixFlags S (sl.deref peer).rxKey hello.flags_bin sl.myFlags.asBin,
      mixFlags S (sl.deref peer).txKey sl.myFlags.asBin hello.flags_bin)
  else ((sl.deref peer).rxKey, (sl.deref peer).txKey)

/-- A failed exchange writes the flags and the keys, and nothing else. -/
theorem handleHelloPacket_failing {sl : SecurityLayer} {target : HusarnetAddress} {peer : PeerRef} {data : Bytes}
    {helloNum : UInt8} {hello : HelloPacket} (h : FailingHello S sl target peer data helloNum hello) :
    ∃ sl', sl.handleHelloPacket S target data helloNum = .ok (sl', [.wroteKeys peer]) ∧ sl'.helloseq = sl.helloseq ∧
      sl'.deref peer = { sl.deref peer with
        flags := ⟨hello.flags_bin⟩
        rxKey := (keysAfterFailure S sl peer hello).1
        txKey := (keysAfterFailure S sl peer hello).2 } := by
  obtain ⟨hlong, -, hparse, htarget, hauthentic⟩ := h.checks
  have hkept := lookedUp_session sl target
  have hlooked : (sl.getOrCreatePeer target).1.deref peer = sl.deref peer := hkept.peer peer h.session
  have hidentity : (sl.getOrCreatePeer target).1.myIdentity = sl.myIdentity := hkept.identity
  have hallocated : (sl.getOrCreatePeer target).1.peerContainer.Allocated peer :=
    allocated_of_pointsTo (getOrCreatePeer_pointsTo h.known)
  have hfails : (sl.getOrCreatePeer target).1.sessionKeys S target peer hello.peerKxPubkey = none := by
    rw [sessionKeys, hlooked, hidentity]
    exact h.fails
  have hkeys : keysAfterFailure S (sl.getOrCreatePeer target).1 peer hello = keysAfterFailure S sl peer hello := by
    rw [keysAfterFailure, hlooked]
    rfl
  have hcall : sl.handleHelloPacket S target data helloNum =
      .ok ((sl.getOrCreatePeer target).1.acceptHello S target peer hello helloNum) := by
    have hr : sl.getOrCreatePeer target = ((sl.getOrCreatePeer target).1, some peer) := Prod.ext rfl h.known
    rw [handleHelloPacket, if_neg hlong, hr]
    simp only [hparse, Except.bind, bind]
    rfl
  have hone : ¬ helloNum = 1 := by
    obtain rfl | rfl := h.kind <;> decide
  have hsame : ¬ hello.myHelloseq ≠ (sl.getOrCreatePeer target).1.helloseq := not_not.mpr h.helloseq
  rw [hcall, acceptHello, if_neg (not_not.mpr htarget), hauthentic, if_neg (by decide), if_neg hone, if_neg hsame,
    negotiate, hfails]
  refine ⟨_, rfl, rfl, ?_⟩
  have hwritten := deref_modify_self hallocated fun p =>
    { p with
      flags := ⟨hello.flags_bin⟩
      rxKey := (keysAfterFailure S (sl.getOrCreatePeer target).1 peer hello).1
      txKey := (keysAfterFailure S (sl.getOrCreatePeer target).1 peer hello).2 }
  have hbefore : (sl.getOrCreatePeer target).1.peerContainer.deref peer = sl.deref peer := hlooked
  rw [hbefore] at hwritten
  rw [← hkeys]
  exact hwritten

theorem intact_iff_flagsUnchanged {sl sl' : SecurityLayer} {peer : PeerRef} {hello : HelloPacket}
    (hseq : sl'.helloseq = sl.helloseq)
    (hpeer : sl'.deref peer = { sl.deref peer with
      flags := ⟨hello.flags_bin⟩
      rxKey := (keysAfterFailure S sl peer hello).1
      txKey := (keysAfterFailure S sl peer hello).2 }) :
    SessionIntact sl sl' peer ↔ FlagsUnchanged S sl peer hello := by
  constructor
  · intro h
    have hflags := h.flags
    have hrx := h.rxKey
    have htx := h.txKey
    rw [hpeer] at hflags hrx htx
    refine ⟨congrArg PeerFlags.flags hflags, ?_⟩
    by_cases hzero : hello.flags_bin = 0
    · exact Or.inl hzero
    · rw [keysAfterFailure, if_pos hzero] at hrx htx
      exact Or.inr ⟨hrx, htx⟩
  · rintro ⟨hflags, hmixed⟩
    have hkeys : keysAfterFailure S sl peer hello = ((sl.deref peer).rxKey, (sl.deref peer).txKey) := by
      rw [keysAfterFailure]
      split
      · rename_i hsome
        obtain ⟨hrx, htx⟩ := hmixed.resolve_left hsome
        rw [hrx, htx]
      · rfl
    rw [hkeys] at hpeer
    exact ⟨by rw [hpeer], by rw [hpeer], by rw [hpeer, hflags]; rfl, by rw [hpeer], by rw [hpeer], hseq⟩

/-- **A failed key exchange.** It leaves the session as it was if and only if the packet has the
flags of the peer, and these are zero or change no key. -/
theorem failed_exchange_iff (S : Sodium) (sl : SecurityLayer) (target : HusarnetAddress) (peer : PeerRef) (data : Bytes)
    (helloNum : UInt8) (hello : HelloPacket) (h : FailingHello S sl target peer data helloNum hello) :
    ∃ sl' out, sl.handleHelloPacket S target data helloNum = .ok (sl', out) ∧
      (SessionIntact sl sl' peer ↔ FlagsUnchanged S sl peer hello) := by
  obtain ⟨sl', hcall, hseq, hpeer⟩ := handleHelloPacket_failing h
  exact ⟨sl', _, hcall, intact_iff_flagsUnchanged hseq hpeer⟩

/-! ## A library that refuses every exchange -/

def refusingSodium : Sodium :=
  { clearSodium with
    kxClientSessionKeys := fun _ _ _ => none
    kxServerSessionKeys := fun _ _ _ => none }

/-- Node 2 with a session to node 1, which has these flags. -/
def layerWithFlags (flags : PeerFlags) : SecurityLayer :=
  ((openTo (clearIdentity 2)).getOrCreatePeer (clearIdentity 1).deviceId).1.modify 0 fun p =>
    { p with negotiated := true, rxKey := .pad 32 [2], txKey := .pad 32 [1], flags := flags }

/-- The answer of node 1 in a handshake, with its flags. -/
def answerWithFlags (flags : PeerFlags) : Bytes :=
  signedHello refusingSodium (clearIdentity 1) flags { (default : Peer) with id := (clearIdentity 2).deviceId } 2 7 0

theorem answerWithFlags_long (flags : PeerFlags) : 161 ≤ (answerWithFlags flags).length := by
  rw [answerWithFlags, signedHello_length]
  decide

/-- The flags of a node without extensions, and those of every other one. -/
def sampleFlags : Bool → PeerFlags
  | false => ⟨0⟩
  | true => .new

theorem answer_failing (b : Bool) :
    FailingHello refusingSodium (layerWithFlags (sampleFlags b)) (clearIdentity 1).deviceId 0
      (answerWithFlags (sampleFlags b)) 2 (.read (answerWithFlags (sampleFlags b)) (answerWithFlags_long _)) where
  kind := Or.inl rfl
  known := by cases b <;> decide +kernel
  session := by cases b <;> decide +kernel
  checks := by
    refine ⟨?_, ?_, HelloPacket.parse_of_le _, ?_, ?_⟩
    · have hlong := answerWithFlags_long (sampleFlags b)
      rw [dataLen]
      omega
    · cases b <;> decide +kernel
    · cases b <;> decide +kernel
    · cases b <;> decide +kernel
  helloseq := by cases b <;> decide +kernel
  fails := by
    rw [sessionKeys]
    split <;> rfl

theorem unflagged_session_intact :
    ∃ sl' out, (layerWithFlags ⟨0⟩).handleHelloPacket refusingSodium (clearIdentity 1).deviceId (answerWithFlags ⟨0⟩) 2 =
      .ok (sl', out) ∧ SessionIntact (layerWithFlags ⟨0⟩) sl' 0 := by
  obtain ⟨sl', out, hcall, hintact⟩ := failed_exchange_iff _ _ _ _ _ _ _ (answer_failing false)
  exact ⟨sl', out, hcall, hintact.mpr ⟨by decide +kernel, Or.inl (by decide +kernel)⟩⟩

/-- The peer's flags do not even change, and the keys are other ones. -/
theorem flagged_session_lost :
    FailingHello refusingSodium (layerWithFlags .new) (clearIdentity 1).deviceId 0 (answerWithFlags .new) 2
        (.read (answerWithFlags .new) (answerWithFlags_long _)) ∧
      ¬ ∃ sl' out, (layerWithFlags .new).handleHelloPacket refusingSodium (clearIdentity 1).deviceId
        (answerWithFlags .new) 2 = .ok (sl', out) ∧ SessionIntact (layerWithFlags .new) sl' 0 := by
  refine ⟨answer_failing true, ?_⟩
  rintro ⟨sl', out, hcall, hintact⟩
  obtain ⟨sl'', hfailed, -, hpeer⟩ := handleHelloPacket_failing (answer_failing true)
  have hflags : sampleFlags true = .new := rfl
  rw [hflags, hcall] at hfailed
  cases hfailed
  have hkey := hintact.rxKey
  rw [hpeer] at hkey
  revert hkey
  decide +kernel

end SecurityLayer
end Husarnet
