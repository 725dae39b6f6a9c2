import Husarnet.FreshSessions
import Husarnet.SessionLink
import Husarnet.SessionSetup

/-! # Two nodes that talk

Two nodes that know each other, and a network that hands every packet on at once and in order. What comes of a packet
from above is read off the sessions of the two.
-/

namespace Husarnet
open Octets Containers PeerContainer SecurityLayer
set_option autoImplicit false

/-! ## The two ends -/

/-- What an end is, where it keeps the other one, and the keys of its sessions with it. -/
structure End where
  identity : Identity
  myFlags : PeerFlags
  ref : PeerRef
  kxPubkey : FString 32
  kxPrivkey : FString 32
  rxKey : Session → FString 32
  txKey : Session → FString 32

/-- The key exchange of an end with the other one. -/
def agreement (S : Sodium) (e : Side → End) (s : Side) : Option (FString 32 × FString 32) :=
  if (e s.other).identity.deviceId < (e s).identity.deviceId then
    S.kxClientSessionKeys (e s).kxPubkey (e s).kxPrivkey (e s.other).kxPubkey
  else S.kxServerSessionKeys (e s).kxPubkey (e s).kxPrivkey (e s.other).kxPubkey

/-- What the two are promised: identities that verify, flags, key pairs that agree, and that a box opens under no
key of a session that it was not sealed in. -/
structure Ends (S : Sodium) (e : Side → End) : Prop where
  verifies : ∀ s, (e s).identity.Verifies S
  distinct : (e .a).identity.deviceId ≠ (e .b).identity.deviceId
  flags : ∀ s, (e s).myFlags.asBin ≠ 0
  agrees : ∀ s, S.KxAgrees ((e s).kxPubkey, (e s).kxPrivkey) ((e s.other).kxPubkey, (e s.other).kxPrivkey)
  current : ∀ s keys, agreement S e s = some keys →
    (e s).rxKey .current = mixFlags S keys.1 (e s.other).myFlags.asBin (e s).myFlags.asBin ∧
      (e s).txKey .current = mixFlags S keys.2 (e s).myFlags.asBin (e s.other).myFlags.asBin
  foreign : ∀ s x y, x ≠ .current ∨ y ≠ .current → ∀ nonce text,
    S.secretboxOpen ((e s.other).rxKey y) nonce (S.secretbox ((e s).txKey x) nonce text) = none

/-- The id under which an end knows the other one. -/
def otherId (e : Side → End) (s : Side) : HusarnetAddress := (e s.other).identity.deviceId

theorem Ends.distinct_other {S : Sodium} {e : Side → End} (h : Ends S e) (s : Side) :
    (e s).identity.deviceId ≠ (e s.other).identity.deviceId := by
  cases s with
  | a => exact h.distinct
  | b => exact h.distinct.symm

/-- Both ends compute the keys, crosswise. -/
theorem Ends.keys {S : Sodium} {e : Side → End} (h : Ends S e) (s : Side) : ∃ rx tx,
    agreement S e s = some (rx, tx) ∧ agreement S e s.other = some (tx, rx) := by
  have hdistinct := h.distinct_other s
  rw [agreement, agreement, Side.other_other]
  by_cases hlt : (e s.other).identity.deviceId < (e s).identity.deviceId
  · obtain ⟨rx, tx, hclient, hserver⟩ := h.agrees s
    refine ⟨rx, tx, ?_, ?_⟩
    · rw [if_pos hlt]
      exact hclient
    · rw [if_neg (IpAddress.lt_asymm hlt)]
      exact hserver
  · have hlt' := IpAddress.lt_of_ne hdistinct.symm hlt
    obtain ⟨rx, tx, hclient, hserver⟩ := h.agrees s.other
    rw [Side.other_other] at hclient hserver
    refine ⟨tx, rx, ?_, ?_⟩
    · rw [if_neg hlt]
      exact hserver
    · rw [if_pos hlt']
      exact hclient

theorem Ends.crosswise {S : Sodium} {e : Side → End} (h : Ends S e) (s : Side) :
    (e s.other).rxKey .current = (e s).txKey .current := by
  obtain ⟨rx, tx, hmine, hhis⟩ := h.keys s
  have hother := (h.current s.other (tx, rx) hhis).1
  rw [Side.other_other] at hother
  rw [hother, (h.current s (rx, tx) hmine).2]

/-! ## One end -/

theorem Node.periodicPeer_lookUps (S : Sodium) (now : Time) (n : Node) (peer : PeerRef) :
    SameLookUps n.peerContainer (n.periodicPeer S now peer).peerContainer := by
  have hattempt (n : Node) : SameLookUps n.peerContainer (n.attemptReestablish S now peer).peerContainer := by
    rw [(Node.attemptReestablish_frame S now n peer).1]
    exact (sameLookUps_draw _).trans (sameLookUps_modify _ _ _)
  unfold periodicPeer
  dsimp only
  split
  · exact sameLookUps_modify _ _ _
  · split
    · exact sameLookUps_modify _ _ _
    · split
      · exact (sameLookUps_modify n.peerContainer peer fun p => { p with connected := false }).trans
          (hattempt (n.modify peer fun p => { p with connected := false }))
      · exact hattempt n

/-- The layer is that of the end, at `helloseq` and with `queued` packets that wait, and `p` is its entry for the
other one. -/
structure Stance (e : Side → End) (s : Side) (helloseq : UInt64) (queued : ℤ) (p : Peer) (sl : SecurityLayer) : Prop where
  stands : Stands sl (otherId e s) (e s).ref p
  identity : sl.myIdentity = (e s).identity
  flags : sl.myFlags = (e s).myFlags
  helloseq : sl.helloseq = helloseq
  queued : sl.queuedPackets = queued
  kxPubkey : p.kxPubkey = (e s).kxPubkey
  kxPrivkey : p.kxPrivkey = (e s).kxPrivkey

/-- What hello packets show of the entry for the other end. -/
def shown (e : Side → End) (s : Side) : Peer := { (default : Peer) with id := otherId e s, kxPubkey := (e s).kxPubkey }

/-- A hello packet of an end. -/
def endHello (S : Sodium) (e : Side → End) (s : Side) (num : UInt8) (own echo : UInt64) : Bytes :=
  signedHello S (e s).identity (e s).myFlags (shown e s) num own echo

namespace Stance
variable {S : Sodium} {e : Side → End} {s : Side} {helloseq : UInt64} {queued : ℤ} {p : Peer} {sl : SecurityLayer}

theorem of_own {sl' : SecurityLayer} {p' : Peer} {queued' : ℤ} (h : Stance e s helloseq queued p sl) (hown : SameOwn sl sl')
    (hs : Stands sl' (otherId e s) (e s).ref p') (hq : sl'.queuedPackets = queued') (hpub : p'.kxPubkey = p.kxPubkey)
    (hpriv : p'.kxPrivkey = p.kxPrivkey) : Stance e s helloseq queued' p' sl' where
  stands := hs
  identity := hown.identity.trans h.identity
  flags := hown.flags.trans h.flags
  helloseq := hown.helloseq.trans h.helloseq
  queued := hq
  kxPubkey := hpub.trans h.kxPubkey
  kxPrivkey := hpriv.trans h.kxPrivkey

/-- A look-up leaves everything as it is. -/
theorem meets (h : Stance e s helloseq queued p sl) : ∃ looked, Meets sl (otherId e s) looked (e s).ref p ∧
    Stance e s helloseq queued p looked := by
  obtain ⟨looked, hm⟩ := h.stands.meets
  exact ⟨looked, hm, h.of_own hm.sameOwn hm.stands (hm.queuedPackets.trans h.queued) rfl rfl⟩

theorem hello_eq (h : Stance e s helloseq queued p sl) (num : UInt8) (own echo : UInt64) :
    signedHello S (e s).identity (e s).myFlags p num own echo = endHello S e s num own echo :=
  signedHello_congr h.stands.id_eq h.kxPubkey

theorem sendHelloPacket_eq (h : Stance e s helloseq queued p sl) (num : UInt8) (echo : UInt64) :
    sl.sendHelloPacket S (e s).ref num echo = .toLower (otherId e s) (endHello S e s num helloseq echo) := by
  rw [sendHelloPacket, h.stands.deref_eq, h.stands.id_eq, h.identity, h.flags, h.helloseq, h.hello_eq]

/-! ### Data -/

theorem upper_session (h : Stance e s helloseq queued p sl) (hn : p.negotiated = true) {data : Bytes}
    (hl : data.length ≤ 1950) : ∃ nonce sl', sl.onUpperLayerData S (otherId e s) data =
      (sl', [.toLower (otherId e s) (sealedPacket S p.txKey nonce data)]) ∧ Stance e s helloseq queued p sl' := by
  obtain ⟨looked, hm, hlooked⟩ := h.meets
  have hset : (looked.deref (e s).ref).negotiated = true := by
    rw [hm.stands.deref_eq]
    exact hn
  refine ⟨looked.peerContainer.random.tape.nonce looked.peerContainer.random.draws,
    looked.withContainer looked.peerContainer.draw, ?_, ?_⟩
  · rw [onUpperLayerData, hm.found]
    dsimp only
    rw [if_pos hset, doSendDataPacket_eq looked hm.stands.deref_eq (by omega), hm.stands.id_eq]
  · exact hlooked.of_own ⟨rfl, rfl, rfl⟩ (hlooked.stands.kept (sameLookUps_draw _) hlooked.stands.entry) hlooked.queued rfl rfl

theorem upper_missing (h : Stance e s helloseq queued p sl) (hn : p.negotiated = false) (hroom : queued < MAX_QUEUED_PACKETS)
    (data : Bytes) : ∃ sl', sl.onUpperLayerData S (otherId e s) data =
      (sl', [.toLower (otherId e s) (endHello S e s 1 helloseq 0)]) ∧
        Stance e s helloseq (queued + 1) (enqueue data p) sl' := by
  obtain ⟨looked, hm, -⟩ := h.meets
  obtain ⟨sl', p', hcall, hstands, hown, -, hqueued⟩ := onUpperLayerData_waits (S := S) hm hn data
  rw [← h.queued] at hroom
  obtain ⟨rfl, hcount⟩ := hqueued hroom
  rw [h.identity, h.flags, h.helloseq, h.hello_eq] at hcall
  refine ⟨sl', hcall, h.of_own hown hstands ?_ rfl rfl⟩
  rw [hcount, h.queued]

section Below
variable (hS : S.BoxOpens) (h : Stance e s helloseq queued p sl) (now : Time) (key : FString 32) (nonce : FString 24)
  {data : Bytes}
include hS h

/-- A data packet without a session is dropped, and asks for one. -/
theorem lower_missing (hn : p.negotiated = false) (hpos : 0 < data.length) (hl : data.length ≤ 1950) :
    ∃ sl', sl.onLowerLayerData S now (otherId e s) (sealedPacket S key nonce data) =
        .ok (sl', [.toLower (otherId e s) (endHello S e s 1 helloseq 0)]) ∧
      Stance e s helloseq queued p sl' := by
  have hlen := sealedPacket_length hS key nonce data
  obtain ⟨looked, hm, hlooked⟩ := h.meets
  have hlong : ¬ (sealedPacket S key nonce data).length ≤ headerSize + 8 := by
    rw [hlen, headerSize]
    omega
  refine ⟨looked, ?_, hlooked⟩
  have hnone : (!(looked.deref (e s).ref).negotiated) = true := by
    rw [hm.stands.deref_eq, hn]
    rfl
  rw [onLowerLayerData_dataPacket hS _ _ _ _ _ hl, handleDataPacket, dif_neg hlong, hm.found]
  dsimp only
  rw [if_pos hnone, hlooked.sendHelloPacket_eq]
  rfl

/-- A box that does not open leaves everything as it is. -/
theorem lower_foreign (hn : p.negotiated = true) (hl : data.length ≤ 1950)
    (hf : S.secretboxOpen p.rxKey nonce (S.secretbox key nonce (pack64 0 ++ data)) = none) :
    ∃ sl', sl.onLowerLayerData S now (otherId e s) (sealedPacket S key nonce data) = .ok (sl', []) ∧
      Stance e s helloseq queued p sl' := by
  have hlen := sealedPacket_length hS key nonce data
  obtain ⟨looked, hm, hlooked⟩ := h.meets
  obtain ⟨r, hr, hd⟩ := handleDataPacket_handling (S := S) now sl (otherId e s) (sealedPacket S key nonce data)
  rw [onLowerLayerData_dataPacket hS _ _ _ _ _ hl, hr]
  have hfound {sl' : SecurityLayer} {peer : PeerRef} (hg : sl.getOrCreatePeer (otherId e s) = (sl', some peer)) :
      sl' = looked ∧ peer = (e s).ref := by
    rw [hm.found] at hg
    cases hg
    exact ⟨rfl, rfl⟩
  cases hd with
  | short _ => exact ⟨sl, rfl, h⟩
  | unknown sl' hg =>
    rw [hm.found] at hg
    cases hg
  | early sl' peer hg hearly =>
    obtain ⟨rfl, rfl⟩ := hfound hg
    rw [hm.stands.deref_eq, hn] at hearly
    cases hearly
  | large sl' peer hg _ =>
    obtain ⟨rfl, rfl⟩ := hfound hg
    exact ⟨_, rfl, hlooked⟩
  | forged sl' peer hg _ _ =>
    obtain ⟨rfl, rfl⟩ := hfound hg
    have hs : Stands { sl' with decryptedBuffer := sl'.decryptedBuffer.overwrite [] } (otherId e s) (e s).ref p :=
      ⟨hlooked.stands.known, hlooked.stands.entry⟩
    exact ⟨_, rfl, hlooked.of_own ⟨rfl, rfl, rfl⟩ hs hlooked.queued rfl rfl⟩
  | opened sl' peer hg _ _ _ text htext =>
    obtain ⟨rfl, rfl⟩ := hfound hg
    rw [hm.stands.deref_eq, sealedPacket_nonce, sealedPacket_box, hf] at htext
    cases htext

/-- A box that was sealed under the receive key is opened, and the time is kept. -/
theorem lower_opens (hn : p.negotiated = true) (hkey : p.rxKey = key) (hpos : 0 < data.length) (hl : data.length ≤ 1950) :
    ∃ sl', sl.onLowerLayerData S now (otherId e s) (sealedPacket S key nonce data) =
        .ok (sl', [.toUpper (otherId e s) data]) ∧
      Stance e s helloseq queued { p with lastValidPacket := now } sl' := by
  have hlen := sealedPacket_length hS key nonce data
  obtain ⟨looked, hm, hlooked⟩ := h.meets
  have hset : (looked.deref (e s).ref).negotiated = true := by
    rw [hm.stands.deref_eq]
    exact hn
  obtain ⟨sl', hopened⟩ := onLowerLayerData_sealed hS now hm.found hset nonce hpos hl
  rw [hm.stands.deref_eq, hkey] at hopened
  refine ⟨sl', hopened, ?_⟩
  obtain ⟨r, hr, hd⟩ := handleDataPacket_handling (S := S) now sl (otherId e s) (sealedPacket S key nonce data)
  rw [onLowerLayerData_dataPacket hS _ _ _ _ _ hl, hr, Except.ok.injEq] at hopened
  cases hd with
  | short _ => cases hopened
  | unknown _ _ => cases hopened
  | early _ _ _ _ => cases hopened
  | large _ _ _ _ => cases hopened
  | forged _ _ _ _ _ => cases hopened
  | opened sl'' peer hg _ _ _ text _ =>
    rw [hm.found] at hg
    cases hg
    obtain ⟨rfl, -⟩ := Prod.mk.inj hopened
    have hs : Stands { looked with decryptedBuffer := looked.decryptedBuffer.overwrite text } (otherId e s) (e s).ref p :=
      ⟨hlooked.stands.known, hlooked.stands.entry⟩
    exact hlooked.of_own ⟨rfl, rfl, rfl⟩ (hs.modify fun p => { p with lastValidPacket := now }) hlooked.queued rfl rfl

end Below

/-! ### Hello packets -/

section Hellos
variable (he : Ends S e) (h : Stance e s helloseq queued p sl) (now : Time) (own echo : UInt64)
include he h

theorem lower_first : ∃ sl', sl.onLowerLayerData S now (otherId e s) (endHello S e s.other 1 own echo) =
    .ok (sl', [.toLower (otherId e s) (endHello S e s 2 helloseq own)]) ∧ Stance e s helloseq queued p sl' := by
  obtain ⟨looked, hm, hlooked⟩ := h.meets
  refine ⟨looked, ?_, hlooked⟩
  have hme : otherId e s.other = sl.myIdentity.deviceId := by
    rw [h.identity, otherId, Side.other_other]
  have hcall := first_hello (S := S) now hm (he.verifies s.other)
    (q := shown e s.other) hme (e s.other).myFlags own echo
  rw [h.identity, h.flags, h.helloseq, h.hello_eq] at hcall
  exact hcall

/-- A reply that comes too late leaves everything as it is. -/
theorem lower_outdated (hecho : echo ≠ helloseq) :
    ∃ sl', sl.onLowerLayerData S now (otherId e s) (endHello S e s.other 2 own echo) = .ok (sl', []) ∧
      Stance e s helloseq queued p sl' := by
  obtain ⟨looked, hm, hlooked⟩ := h.meets
  refine ⟨looked, ?_, hlooked⟩
  have hme : otherId e s.other = looked.myIdentity.deviceId := by
    rw [hlooked.identity, otherId, Side.other_other]
  have htarget : ¬ (helloFields S (e s.other).identity (e s.other).myFlags (shown e s.other) 2 own echo).targetId ≠
      looked.myIdentity.deviceId.data := by
    rw [← hme]
    exact not_not.mpr rfl
  have hseq : (helloFields S (e s.other).identity (e s.other).myFlags (shown e s.other) 2 own echo).myHelloseq ≠
      looked.helloseq := by
    rw [hlooked.helloseq]
    exact hecho
  have hcall : sl.onLowerLayerData S now (otherId e s) (endHello S e s.other 2 own echo) = _ :=
    onLowerLayerData_signedHello now hm.found (e s.other).identity (e s.other).myFlags (shown e s.other)
      (Or.inr (Or.inl rfl)) own echo
  rw [hcall, acceptHello, if_neg htarget, otherId, authentic_helloFields (he.verifies s.other), if_neg (by decide),
    if_neg (by decide), if_pos hseq]

/-- The entry of an end with the session that the two agree on. -/
def keyed (e : Side → End) (s : Side) (p : Peer) : Peer :=
  { p with
    flags := (e s.other).myFlags
    rxKey := (e s).rxKey .current
    txKey := (e s).txKey .current
    negotiated := true
    packetQueue := [] }

/-- A reply to the last hello packet sets up the session that the two agree on. -/
theorem lower_answer {num : UInt8} (hnum : num = 2 ∨ num = 3) (hecho : echo = helloseq)
    (hwaiting : ∀ d ∈ p.packetQueue, d.length < 2002) :
    ∃ sl' sent, sl.onLowerLayerData S now (otherId e s) (endHello S e s.other num own echo) =
        .ok (sl', .wroteKeys (e s).ref :: .negotiated (e s).ref :: (sent ++ if num = 2 then
          [.toLower (otherId e s) (endHello S e s 3 (helloseq + 1) own)] else [])) ∧
      Sealed S (otherId e s) ((e s).txKey .current) sent p.packetQueue ∧
      Stance e s (helloseq + 1) (queued - p.packetQueue.length) (keyed e s p) sl' := by
  obtain ⟨looked, hm, -⟩ := h.meets
  obtain ⟨rx, tx, hkeys, -⟩ := he.keys s
  obtain ⟨hrx, htx⟩ := he.current s (rx, tx) hkeys
  have hme : otherId e s.other = sl.myIdentity.deviceId := by
    rw [h.identity, otherId, Side.other_other]
  have hexchanged : exchanged S sl.myIdentity.deviceId (e s.other).identity.deviceId p (shown e s.other) = some (rx, tx) := by
    rw [← hkeys, exchanged, agreement, h.identity, h.kxPubkey, h.kxPrivkey]
    rfl
  obtain ⟨sl', sent, hcall, -, hstands, hidentity, hflags, hseq, hcount, hsealed⟩ := later_hello (S := S) now hm
    (he.verifies s.other) hme (he.flags s.other) own hnum (hecho.trans h.helloseq.symm) hexchanged
  have hentry : negotiatedPeer S sl p (e s.other).myFlags (rx, tx) = keyed e s p := by
    rw [negotiatedPeer, keyed, hrx, htx, h.flags]
  rw [hentry] at hstands hsealed
  rw [h.identity, h.flags, h.helloseq, h.hello_eq] at hcall
  refine ⟨sl', sent, hcall, hsealed hwaiting, hstands, hidentity.trans h.identity, hflags.trans h.flags,
    hseq.trans (congrArg (· + 1) h.helloseq), ?_, h.kxPubkey, h.kxPrivkey⟩
  rw [hcount, h.queued]

end Hellos

/-! ### The timer -/

/-- What the timer for a peer leaves of the entry for the other end. -/
structure Timed (e : Side → End) (s : Side) (now : Time) (peer : PeerRef) (p p' : Peer) : Prop where
  packetQueue : p'.packetQueue = p.packetQueue
  rxKey : p'.rxKey = p.rxKey
  txKey : p'.txKey = p.txKey
  lastValidPacket : p'.lastValidPacket = p.lastValidPacket
  negotiated : p'.negotiated = true ↔
    p.negotiated = true ∧ ¬ (peer = (e s).ref ∧ p.lastValidPacket < now - RENEGOTIATION_TIMEOUT)

theorem periodicPeer {n : Node} (h : Stance e s helloseq queued p n.securityLayer) (now : Time) (peer : PeerRef) :
    ∃ p', Stance e s helloseq queued p' (n.periodicPeer S now peer).securityLayer ∧ Timed e s now peer p p' := by
  obtain ⟨hevolves, hlayer⟩ := (Node.periodicPeer_moves S now n peer).effect.evolves
  obtain ⟨p', hp', hkept⟩ := hevolves.keepsEntries.old (e s).ref p h.stands.entry
  obtain ⟨hnegotiated, hvalid⟩ := Node.periodicPeer_session S now n peer (e s).ref
  have hbefore : n.deref (e s).ref = p := deref_of_entry h.stands.entry
  have hbehind : (n.periodicPeer S now peer).deref (e s).ref = p' := deref_of_entry hp'
  have hqueue := ((Node.periodicPeer_queues S now n peer).peer (e s).ref).packetQueue
  rw [Node.TimedOut, hbefore, hbehind] at hnegotiated
  rw [hbefore, hbehind] at hvalid
  have hown : SameOwn n.securityLayer (n.periodicPeer S now peer).securityLayer := by
    rw [hlayer]
    exact ⟨hevolves.sameNode.identity, rfl, rfl⟩
  have hcount : (n.periodicPeer S now peer).securityLayer.queuedPackets = queued := by
    rw [hlayer]
    exact h.queued
  refine ⟨p', h.of_own hown (h.stands.kept (Node.periodicPeer_lookUps S now n peer) hp') hcount hkept.kxPubkey
    hkept.kxPrivkey, ?_, hkept.rxKey, hkept.txKey, hvalid, ?_⟩
  · exact hbefore ▸ hbehind ▸ hqueue
  · rw [hnegotiated]
    simp only [eq_comm]

end Stance

/-! ## Packets that are handed on -/

def packetsTo (id : HusarnetAddress) (out : List LayerOutput) : List Bytes := out.filterMap fun o => match o with
  | .toLower peerAddress data => if peerAddress = id then some data else none
  | _ => none

def dataFrom (id : HusarnetAddress) (out : List LayerOutput) : List Bytes := out.filterMap fun o => match o with
  | .toUpper peerAddress data => if peerAddress = id then some data else none
  | _ => none

section Carry
variable (S : Sodium) (now : Time)

/-- The packets in flight arrive one after the other, and what is sent for them goes behind them, until nothing is
in flight. What is handed up comes with the layers; there is no result where `fuel` packets are too few. -/
def carry : ℕ → (Side → SecurityLayer) → List (Side × Bytes) → Option ((Side → SecurityLayer) × List (Side × Bytes))
  | _, layer, [] => some (layer, [])
  | 0, _, _ :: _ => none
  | fuel + 1, layer, (s, data) :: flight =>
    let id := (layer s.other).myIdentity.deviceId
    match (layer s).onLowerLayerData S now id data with
    | .error _ => none
    | .ok (sl, out) =>
      (carry fuel (Function.update layer s sl) (flight ++ (packetsTo id out).map fun d => (s.other, d))).map
        fun r => (r.1, (dataFrom id out).map (fun d => (s, d)) ++ r.2)

/-- Data from above, and all that comes of it. -/
def talk (fuel : ℕ) (layer : Side → SecurityLayer) (s : Side) (data : Bytes) :
    Option ((Side → SecurityLayer) × List (Side × Bytes)) :=
  let id := (layer s.other).myIdentity.deviceId
  let (sl, out) := (layer s).onUpperLayerData S id data
  carry S now fuel (Function.update layer s sl) ((packetsTo id out).map fun d => (s.other, d))

end Carry

section Pairs
variable {S : Sodium} {now : Time}

/-- More fuel changes nothing. -/
theorem carry_mono {fuel : ℕ} {layer : Side → SecurityLayer} {flight : List (Side × Bytes)}
    {r : (Side → SecurityLayer) × List (Side × Bytes)} (h : carry S now fuel layer flight = some r) {more : ℕ}
    (hle : fuel ≤ more) : carry S now more layer flight = some r := by
  induction fuel generalizing layer flight r more with
  | zero =>
    cases flight with
    | nil =>
      rw [carry] at h ⊢
      exact h
    | cons first flight => cases h
  | succ fuel ih =>
    cases flight with
    | nil =>
      rw [carry] at h ⊢
      exact h
    | cons first flight =>
      obtain ⟨s, data⟩ := first
      obtain ⟨more, rfl⟩ : ∃ m, more = m + 1 := ⟨more - 1, by omega⟩
      rw [carry] at h ⊢
      cases hcall : (layer s).onLowerLayerData S now (layer s.other).myIdentity.deviceId data with
      | error fault =>
        rw [hcall] at h
        cases h
      | ok r' =>
        rw [hcall] at h
        obtain ⟨sl, out⟩ := r'
        obtain ⟨r', hrest, hr⟩ := Option.map_eq_some_iff.mp h
        dsimp only
        rw [ih hrest (by omega), Option.map_some, hr]

/-- The layers of the two ends, from one of them. -/
def pair (s : Side) (x y : SecurityLayer) : Side → SecurityLayer := Function.update (fun _ => y) s x

@[simp] theorem pair_self (s : Side) (x y : SecurityLayer) : pair s x y s = x := Function.update_self ..

@[simp] theorem pair_other (s : Side) (x y : SecurityLayer) : pair s x y s.other = y :=
  Function.update_of_ne (Side.other_ne s) _ _

theorem eq_pair (s : Side) (layer : Side → SecurityLayer) : layer = pair s (layer s) (layer s.other) := by
  funext t
  by_cases ht : t = s
  · rw [ht, pair_self]
  · rw [Side.eq_other ht, pair_other]

@[simp] theorem update_pair (s : Side) (x y x' : SecurityLayer) : Function.update (pair s x y) s x' = pair s x' y :=
  Function.update_idem ..

@[simp] theorem update_pair_other (s : Side) (x y y' : SecurityLayer) : Function.update (pair s x y) s.other y' = pair s x y' := by
  rw [eq_pair s (Function.update (pair s x y) s.other y'), Function.update_self,
    Function.update_of_ne (Side.other_ne s).symm, pair_self]

variable {e : Side → End}

/-- The packets of one call for the other end, and what it hands up from there. -/
structure CallOf (e : Side → End) (s : Side) (out : List LayerOutput) (sent up : List Bytes) : Prop where
  sent : packetsTo (otherId e s) out = sent
  up : dataFrom (otherId e s) out = up

/-- One packet arrives. -/
theorem carry_self {s : Side} {x y x' : SecurityLayer} {data : Bytes} {out : List LayerOutput} {sent up : List Bytes}
    (hid : y.myIdentity.deviceId = otherId e s) (hcall : x.onLowerLayerData S now (otherId e s) data = .ok (x', out))
    (hout : CallOf e s out sent up) (fuel : ℕ) (flight : List (Side × Bytes)) :
    carry S now (fuel + 1) (pair s x y) ((s, data) :: flight) =
      (carry S now fuel (pair s x' y) (flight ++ sent.map fun d => (s.other, d))).map
        fun r => (r.1, up.map (fun d => (s, d)) ++ r.2) := by
  rw [carry]
  simp only [pair_self, pair_other, hid, hcall, hout.sent, hout.up, update_pair]

theorem carry_other {s : Side} {x y y' : SecurityLayer} {data : Bytes} {out : List LayerOutput} {sent up : List Bytes}
    (hid : x.myIdentity.deviceId = otherId e s.other)
    (hcall : y.onLowerLayerData S now (otherId e s.other) data = .ok (y', out))
    (hout : CallOf e s.other out sent up) (fuel : ℕ) (flight : List (Side × Bytes)) :
    carry S now (fuel + 1) (pair s x y) ((s.other, data) :: flight) =
      (carry S now fuel (pair s x y') (flight ++ sent.map fun d => (s, d))).map
        fun r => (r.1, up.map (fun d => (s.other, d)) ++ r.2) := by
  rw [carry]
  simp only [pair_self, pair_other, Side.other_other, hid, hcall, hout.sent, hout.up, update_pair_other]

theorem carry_nil (fuel : ℕ) (layer : Side → SecurityLayer) : carry S now fuel layer [] = some (layer, []) := by
  cases fuel <;> rfl

theorem talk_mono {fuel : ℕ} {layer : Side → SecurityLayer} {s : Side} {data : Bytes}
    {r : (Side → SecurityLayer) × List (Side × Bytes)} (h : talk S now fuel layer s data = some r) {more : ℕ}
    (hle : fuel ≤ more) : talk S now more layer s data = some r := carry_mono h hle

/-- Data from above is on its way. -/
theorem talk_eq {s : Side} {x y x' : SecurityLayer} {data packet : Bytes} (hid : y.myIdentity.deviceId = otherId e s)
    (hcall : x.onUpperLayerData S (otherId e s) data = (x', [.toLower (otherId e s) packet])) (fuel : ℕ) :
    talk S now fuel (pair s x y) s data = carry S now fuel (pair s x' y) [(s.other, packet)] := by
  simp [talk, hid, hcall, packetsTo]

theorem callOf_packet (s : Side) (packet : Bytes) : CallOf e s [.toLower (otherId e s) packet] [packet] [] := by
  simp [packetsTo, dataFrom, CallOf.mk]

theorem callOf_data (s : Side) (data : Bytes) : CallOf e s [.toUpper (otherId e s) data] [] [data] := by
  simp [packetsTo, dataFrom, CallOf.mk]

theorem callOf_nothing (s : Side) : CallOf e s [] [] [] := ⟨rfl, rfl⟩

/-- A negotiation that is finished: what waited, and then the reply. -/
theorem callOf_answer {s : Side} {key : FString 32} {sent : List LayerOutput} {packets : List Bytes}
    (h : Sealed S (otherId e s) key sent packets) (ref : PeerRef) (reply : List Bytes) : ∃ boxes,
      List.Forall₂ (fun box packet => ∃ nonce, box = sealedPacket S key nonce packet) boxes packets ∧
        CallOf e s (.wroteKeys ref :: .negotiated ref :: (sent ++ reply.map fun d => .toLower (otherId e s) d))
          (boxes ++ reply) [] := by
  obtain ⟨boxes, hboxes, hsent, hup⟩ : ∃ boxes,
      List.Forall₂ (fun box packet => ∃ nonce, box = sealedPacket S key nonce packet) boxes packets ∧
        packetsTo (otherId e s) sent = boxes ∧ dataFrom (otherId e s) sent = [] := by
    induction h with
    | nil => exact ⟨[], .nil, rfl, rfl⟩
    | cons hfirst _ ih =>
      obtain ⟨nonce, rfl⟩ := hfirst
      obtain ⟨boxes, hboxes, hsent, hup⟩ := ih
      refine ⟨_ :: boxes, .cons ⟨nonce, rfl⟩ hboxes, ?_, ?_⟩
      · rw [← hsent]
        simp [packetsTo]
      · rw [← hup]
        simp [dataFrom]
  have hreply : packetsTo (otherId e s) (reply.map fun d => .toLower (otherId e s) d) = reply ∧
      dataFrom (otherId e s) (reply.map fun d => .toLower (otherId e s) d) = [] := by
    induction reply with
    | nil => exact ⟨rfl, rfl⟩
    | cons first reply ih =>
      constructor
      · conv_rhs => rw [← ih.1]
        simp [packetsTo]
      · rw [← ih.2]
        simp [dataFrom]
  refine ⟨boxes, hboxes, ?_, ?_⟩
  · conv_rhs => rw [← hsent, ← hreply.1]
    simp [packetsTo]
  · simp only [dataFrom] at hup hreply
    simp only [dataFrom, List.filterMap_cons, List.filterMap_append, hup, hreply.2]
    rfl

end Pairs

/-! ## The entries of the two ends -/

/-- The entry of an end with the session: nothing waits. -/
structure InSession (e : Side → End) (s : Side) (x : Session) (valid : Time) (p : Peer) : Prop where
  negotiated : p.negotiated = true ↔ x ≠ .missing
  rxKey : x ≠ .missing → p.rxKey = (e s).rxKey x
  txKey : x ≠ .missing → p.txKey = (e s).txKey x
  packetQueue : p.packetQueue = []
  lastValidPacket : p.lastValidPacket = valid

/-- The layer of an end with the session, and with room for a packet that waits. -/
def Holds (e : Side → End) (s : Side) (x : Session) (valid : Time) (sl : SecurityLayer) : Prop :=
  ∃ helloseq queued p, queued < MAX_QUEUED_PACKETS ∧ Stance e s helloseq queued p sl ∧ InSession e s x valid p

/-- The layers of the two ends, and what they come to. -/
def Abstracts (e : Side → End) (l : Link) (layer : Side → SecurityLayer) : Prop :=
  ∀ s, Holds e s (l.session s) (l.lastValid s) (layer s)

theorem InSession.keyed {e : Side → End} {s : Side} {x : Session} {valid : Time} {p : Peer} (h : InSession e s x valid p) :
    InSession e s .current valid (Stance.keyed e s p) where
  negotiated := iff_of_true rfl (by simp)
  rxKey _ := rfl
  txKey _ := rfl
  packetQueue := rfl
  lastValidPacket := h.lastValidPacket

theorem InSession.missing {e : Side → End} {s : Side} {valid : Time} {p : Peer} (h : InSession e s .missing valid p) :
    p.negotiated = false := by
  simpa using h.negotiated

/-! ## The ways a packet can go -/

section Talks
variable {S : Sodium} {e : Side → End} (he : Ends S e) (hS : S.BoxOpens) {s : Side} {x y : SecurityLayer}
  {valid valid' : Time} (now : Time) {data : Bytes}
include he hS

/-- Both ends have a session. -/
theorem talk_sessions {u v : Session} (hx : Holds e s u valid x) (hy : Holds e s.other v valid' y) (hu : u ≠ .missing)
    (hv : v ≠ .missing) (hpos : 0 < data.length) (hl : data.length ≤ 1950) :
    ∃ x' y', talk S now 1 (pair s x y) s data =
        some (pair s x' y', if u = .current ∧ v = .current then [(s.other, data)] else []) ∧
      Holds e s u valid x' ∧ Holds e s.other v (if u = .current ∧ v = .current then now else valid') y' := by
  obtain ⟨seq, queued, p, hroom, hsx, hp⟩ := hx
  obtain ⟨seq', queued', q, hroom', hsy, hq⟩ := hy
  have hid : y.myIdentity.deviceId = otherId e s := congrArg Identity.deviceId hsy.identity
  obtain ⟨nonce, x', hcall, hsx'⟩ := hsx.upper_session (S := S) (hp.negotiated.mpr hu) hl
  have hid' : x'.myIdentity.deviceId = otherId e s.other := by
    rw [hsx'.identity, otherId, Side.other_other]
  rw [hp.txKey hu] at hcall
  have hqn := hq.negotiated.mpr hv
  refine ⟨x', ?_⟩
  rw [talk_eq hid hcall]
  by_cases hboth : u = .current ∧ v = .current
  · obtain ⟨rfl, rfl⟩ := hboth
    have hkey : q.rxKey = (e s).txKey .current := (hq.rxKey hv).trans (he.crosswise s)
    obtain ⟨y', hopened, hsy'⟩ := hsy.lower_opens hS now _ nonce hqn hkey hpos hl
    refine ⟨y', ?_, ⟨seq, queued, p, hroom, hsx', hp⟩, seq', queued', _, hroom', hsy', ?_⟩
    · rw [carry_other hid' hopened (callOf_data _ _)]
      simp [carry_nil]
    · rw [if_pos ⟨rfl, rfl⟩]
      exact ⟨hq.negotiated, hq.rxKey, hq.txKey, hq.packetQueue, rfl⟩
  · have hforeign := he.foreign s u v (not_and_or.mp hboth) nonce (pack64 0 ++ data)
    rw [← hq.rxKey hv] at hforeign
    obtain ⟨y', hdropped, hsy'⟩ := hsy.lower_foreign hS now _ nonce hqn hl hforeign
    refine ⟨y', ?_, ⟨seq, queued, p, hroom, hsx', hp⟩, seq', queued', q, hroom', hsy', ?_⟩
    · rw [carry_other hid' hdropped (callOf_nothing _), if_neg hboth]
      simp [carry_nil]
    · rw [if_neg hboth]
      exact hq

/-- The receiver has no session, and asks for one. -/
theorem talk_receiver_missing {u : Session} (hx : Holds e s u valid x) (hy : Holds e s.other .missing valid' y)
    (hu : u ≠ .missing) (hpos : 0 < data.length) (hl : data.length ≤ 1950) :
    ∃ x' y', talk S now 4 (pair s x y) s data = some (pair s x' y', []) ∧
      Holds e s .current valid x' ∧ Holds e s.other .current valid' y' := by
  obtain ⟨seq, queued, p, hroom, hsx, hp⟩ := hx
  obtain ⟨seq', queued', q, hroom', hsy, hq⟩ := hy
  have hnone : ∀ d ∈ p.packetQueue, d.length < 2002 := by
    rw [hp.packetQueue]
    exact List.forall_mem_nil _
  have hnone' : ∀ d ∈ q.packetQueue, d.length < 2002 := by
    rw [hq.packetQueue]
    exact List.forall_mem_nil _
  have hx_id {sl : SecurityLayer} {n : UInt64} {m : ℤ} {r : Peer} (h : Stance e s n m r sl) :
      sl.myIdentity.deviceId = otherId e s.other := by
    rw [h.identity, otherId, Side.other_other]
  have hy_id {sl : SecurityLayer} {n : UInt64} {m : ℤ} {r : Peer} (h : Stance e s.other n m r sl) :
      sl.myIdentity.deviceId = otherId e s := congrArg Identity.deviceId h.identity
  obtain ⟨nonce, x₁, hcall, hx₁⟩ := hsx.upper_session (S := S) (hp.negotiated.mpr hu) hl
  -- the packet is dropped, and a first hello packet comes back
  obtain ⟨y₁, hdropped, hy₁⟩ := hsy.lower_missing hS now p.txKey nonce hq.missing hpos hl
  obtain ⟨x₂, hgreeted, hx₂⟩ := hx₁.lower_first he now seq' 0
  -- its reply sets up the session with the receiver, and the third hello packet the one with the sender
  obtain ⟨y₂, sent, hanswered, hsent, hy₂⟩ := hy₁.lower_answer he now seq seq' (Or.inl rfl) rfl hnone'
  obtain ⟨x₃, sent', hended, hsent', hx₃⟩ := hx₂.lower_answer he now (seq' + 1) seq (Or.inr rfl) rfl hnone
  rw [hq.packetQueue] at hsent hy₂
  rw [hp.packetQueue] at hsent' hx₃
  obtain ⟨boxes, hboxes, hout⟩ := callOf_answer hsent (e s.other).ref [endHello S e s.other 3 (seq' + 1) seq]
  obtain ⟨boxes', hboxes', hout'⟩ := callOf_answer hsent' (e s).ref []
  cases hboxes
  cases hboxes'
  rw [Side.other_other] at hanswered
  refine ⟨x₃, y₂, ?_, ⟨seq + 1, queued, _, hroom, by simpa using hx₃, hp.keyed⟩,
    seq' + 1, queued', _, hroom', by simpa using hy₂, hq.keyed⟩
  · rw [talk_eq (hy_id hsy) hcall, carry_other (hx_id hx₁) hdropped (callOf_packet _ _), List.nil_append, List.map_singleton,
      carry_self (hy_id hy₁) hgreeted (callOf_packet _ _), List.nil_append, List.map_singleton,
      carry_other (hx_id hx₂) hanswered hout, List.nil_append, List.nil_append, List.map_singleton,
      carry_self (hy_id hy₂) hended hout']
    simp [carry_nil]

omit hS in
/-- The sender has no session: what comes back for its first hello packet sets one up there, and then the packet and
the third hello packet are on their way. -/
theorem talk_sender_missing (hx : Holds e s .missing valid x) {v : Session} (hy : Holds e s.other v valid' y)
    (hl : data.length ≤ 1950) (fuel : ℕ) : ∃ nonce seq seq' queued' q x' y',
      talk S now (fuel + 2) (pair s x y) s data = carry S now fuel (pair s x' y')
        [(s.other, sealedPacket S ((e s).txKey .current) nonce data), (s.other, endHello S e s 3 (seq + 1) seq')] ∧
      (∃ queued p, queued < MAX_QUEUED_PACKETS ∧ Stance e s (seq + 1) queued p x' ∧ InSession e s .current valid p) ∧
      queued' < MAX_QUEUED_PACKETS ∧ Stance e s.other seq' queued' q y' ∧ InSession e s.other v valid' q := by
  obtain ⟨seq, queued, p, hroom, hsx, hp⟩ := hx
  obtain ⟨seq', queued', q, hroom', hsy, hq⟩ := hy
  have hx_id {sl : SecurityLayer} {n : UInt64} {m : ℤ} {r : Peer} (h : Stance e s n m r sl) :
      sl.myIdentity.deviceId = otherId e s.other := by
    rw [h.identity, otherId, Side.other_other]
  have hy_id {sl : SecurityLayer} {n : UInt64} {m : ℤ} {r : Peer} (h : Stance e s.other n m r sl) :
      sl.myIdentity.deviceId = otherId e s := congrArg Identity.deviceId h.identity
  obtain ⟨x₁, hcall, hx₁⟩ := hsx.upper_missing (S := S) hp.missing hroom data
  have hgreeted := hsy.lower_first he now seq 0
  rw [Side.other_other] at hgreeted
  obtain ⟨y₁, hgreeted, hy₁⟩ := hgreeted
  have hwaiting : ∀ d ∈ (enqueue data p).packetQueue, d.length < 2002 := by
    rw [enqueue, hp.packetQueue]
    simp
    omega
  obtain ⟨x₂, sent, hanswered, hsent, hx₂⟩ := hx₁.lower_answer he now seq' seq (Or.inl rfl) rfl hwaiting
  have hqueue : (enqueue data p).packetQueue = [data] := by
    rw [enqueue, hp.packetQueue]
    rfl
  rw [hqueue] at hsent hx₂
  obtain ⟨boxes, hboxes, hout⟩ := callOf_answer hsent (e s).ref [endHello S e s 3 (seq + 1) seq']
  obtain ⟨box, boxes, ⟨nonce, rfl⟩, hrest, rfl⟩ := List.forall₂_cons_right_iff.mp hboxes
  cases hrest
  refine ⟨nonce, seq, seq', queued', q, x₂, y₁, ?_, ⟨queued, _, hroom, by simpa using hx₂, ?_⟩, hroom', hy₁, hq⟩
  · rw [talk_eq (hy_id hsy) hcall, carry_other (hx_id hx₁) hgreeted (callOf_packet _ _), List.nil_append, List.map_singleton,
      carry_self (hy_id hy₁) hanswered hout]
    simp
  · exact hp.keyed

omit hS in
/-- The third hello packet sets up the session with the receiver. -/
theorem carry_third {seq seq' : UInt64} {queued queued' : ℤ} {p q : Peer} {v : Session}
    (hx : Stance e s (seq + 1) queued p x) (hroom' : queued' < MAX_QUEUED_PACKETS) (hy : Stance e s.other seq' queued' q y)
    (hq : InSession e s.other v valid' q) : ∃ y', Stance e s.other (seq' + 1) queued' (Stance.keyed e s.other q) y' ∧
      Holds e s.other .current valid' y' ∧ ∀ fuel flight,
        carry S now (fuel + 1) (pair s x y) ((s.other, endHello S e s 3 (seq + 1) seq') :: flight) =
          carry S now fuel (pair s x y') flight := by
  have hid : x.myIdentity.deviceId = otherId e s.other := by
    rw [hx.identity, otherId, Side.other_other]
  have hnone : ∀ d ∈ q.packetQueue, d.length < 2002 := by
    rw [hq.packetQueue]
    exact List.forall_mem_nil _
  obtain ⟨y', sent, hended, hsent, hy'⟩ := hy.lower_answer he now (seq + 1) seq' (Or.inr rfl) rfl hnone
  rw [hq.packetQueue] at hsent hy'
  rw [Side.other_other] at hended
  obtain ⟨boxes, hboxes, hout⟩ := callOf_answer hsent (e s.other).ref []
  cases hboxes
  have hstance : Stance e s.other (seq' + 1) queued' (Stance.keyed e s.other q) y' := by simpa using hy'
  refine ⟨y', hstance, ⟨_, _, _, hroom', hstance, hq.keyed⟩, fun fuel flight => ?_⟩
  rw [carry_other hid hended hout]
  simp

theorem talk_sender_missing_session (hx : Holds e s .missing valid x) {v : Session} (hy : Holds e s.other v valid' y)
    (hv : v ≠ .missing) (hpos : 0 < data.length) (hl : data.length ≤ 1950) :
    ∃ x' y', talk S now 4 (pair s x y) s data =
        some (pair s x' y', if v = .current then [(s.other, data)] else []) ∧
      Holds e s .current valid x' ∧ Holds e s.other .current (if v = .current then now else valid') y' := by
  obtain ⟨nonce, seq, seq', queued', q, x', y₁, htalk, ⟨queued, p, hroom, hsx, hp⟩, hroom', hy₁, hq⟩ :=
    talk_sender_missing he now hx hy hl 2
  have hid : x'.myIdentity.deviceId = otherId e s.other := by
    rw [hsx.identity, otherId, Side.other_other]
  have hqn := hq.negotiated.mpr hv
  rw [htalk]
  by_cases hcurrent : v = .current
  · subst hcurrent
    have hkey : q.rxKey = (e s).txKey .current := (hq.rxKey hv).trans (he.crosswise s)
    obtain ⟨y₂, hopened, hy₂⟩ := hy₁.lower_opens hS now _ nonce hqn hkey hpos hl
    have hq₂ : InSession e s.other .current now { q with lastValidPacket := now } :=
      ⟨hq.negotiated, hq.rxKey, hq.txKey, hq.packetQueue, rfl⟩
    obtain ⟨y', -, hy', hthird⟩ := carry_third he now hsx hroom' hy₂ hq₂
    refine ⟨x', y', ?_, ⟨_, _, _, hroom, hsx, hp⟩, hy'⟩
    rw [carry_other hid hopened (callOf_data _ _)]
    simp [hthird, carry_nil]
  · have hforeign := he.foreign s .current v (Or.inr hcurrent) nonce (pack64 0 ++ data)
    rw [← hq.rxKey hv] at hforeign
    obtain ⟨y₂, hdropped, hy₂⟩ := hy₁.lower_foreign hS now _ nonce hqn hl hforeign
    obtain ⟨y', -, hy', hthird⟩ := carry_third he now hsx hroom' hy₂ hq
    rw [if_neg hcurrent, if_neg hcurrent]
    refine ⟨x', y', ?_, ⟨_, _, _, hroom, hsx, hp⟩, hy'⟩
    rw [carry_other hid hdropped (callOf_nothing _)]
    simp [hthird, carry_nil]

/-- Neither end has a session: the packet comes before the third hello packet, and the hello packet that it makes the
receiver send is answered too late. -/
theorem talk_both_missing (hx : Holds e s .missing valid x) (hy : Holds e s.other .missing valid' y)
    (hpos : 0 < data.length) (hl : data.length ≤ 1950) :
    ∃ x' y', talk S now 6 (pair s x y) s data = some (pair s x' y', []) ∧
      Holds e s .current valid x' ∧ Holds e s.other .current valid' y' := by
  obtain ⟨nonce, seq, seq', queued', q, x₁, y₁, htalk, ⟨queued, p, hroom, hsx, hp⟩, hroom', hy₁, hq⟩ :=
    talk_sender_missing he now hx hy hl 4
  have hid {sl : SecurityLayer} {n : UInt64} {m : ℤ} {r : Peer} (h : Stance e s n m r sl) :
      sl.myIdentity.deviceId = otherId e s.other := by
    rw [h.identity, otherId, Side.other_other]
  obtain ⟨y₂, hdropped, hy₂⟩ := hy₁.lower_missing hS now ((e s).txKey .current) nonce hq.missing hpos hl
  obtain ⟨y₃, hy₃, -, hthird⟩ := carry_third he now hsx hroom' hy₂ hq
  obtain ⟨x', hgreeted, hx'⟩ := hsx.lower_first he now seq' 0
  have hlate : seq' ≠ seq' + 1 := by
    intro h
    simp at h
  have houtdated := hy₃.lower_outdated he now (seq + 1) seq' hlate
  rw [Side.other_other] at houtdated
  obtain ⟨y', houtdated, hy'⟩ := houtdated
  have hid' : y₃.myIdentity.deviceId = otherId e s := congrArg Identity.deviceId hy₃.identity
  refine ⟨x', y', ?_, ⟨_, _, _, hroom, hx', hp⟩, _, _, _, hroom', hy', hq.keyed⟩
  rw [htalk, carry_other (hid hsx) hdropped (callOf_packet _ _)]
  simp only [List.map_nil, List.nil_append, List.cons_append, List.map_cons]
  rw [hthird, carry_self hid' hgreeted (callOf_packet _ _), List.nil_append, List.map_singleton,
    carry_other (hid hx') houtdated (callOf_nothing _)]
  simp [carry_nil]

/-- **A packet.** Six packets that are handed on are enough, and what comes of it is told by the sessions. -/
theorem talk_abstracts {l : Link} {layer : Side → SecurityLayer} (h : Abstracts e l layer) (s : Side)
    (hpos : 0 < data.length) (hl : data.length ≤ 1950) : ∃ layer', Abstracts e (l.packet s now) layer' ∧
      ∀ fuel, 6 ≤ fuel → talk S now fuel layer s data = some (layer', l.handedUp (.packet s now data)) := by
  have hx := h s
  have hy := h s.other
  -- what is shown of the two ends one by one
  have hresult {fuel : ℕ} (hfuel : fuel ≤ 6) {x' y' : SecurityLayer} {up : List (Side × Bytes)}
      (htalk : talk S now fuel (pair s (layer s) (layer s.other)) s data = some (pair s x' y', up))
      (hup : up = l.handedUp (.packet s now data))
      (hx' : Holds e s ((l.packet s now).session s) ((l.packet s now).lastValid s) x')
      (hy' : Holds e s.other ((l.packet s now).session s.other) ((l.packet s now).lastValid s.other) y') :
      ∃ layer', Abstracts e (l.packet s now) layer' ∧
        ∀ fuel, 6 ≤ fuel → talk S now fuel layer s data = some (layer', l.handedUp (.packet s now data)) := by
    refine ⟨pair s x' y', (Link.sides s _).mpr ⟨?_, ?_⟩, fun more hmore => ?_⟩
    · rw [pair_self]
      exact hx'
    · rw [pair_other]
      exact hy'
    · rw [← eq_pair] at htalk
      rw [talk_mono htalk (hfuel.trans hmore), hup]
  have hmissing {t : Side} (ht : l.session t = .missing) : l.isMissing t = true := by simpa [Link.isMissing] using ht
  have hpresent {t : Side} (ht : l.session t ≠ .missing) : l.isMissing t = false := by simpa [Link.isMissing] using ht
  rw [Link.lastValid_packet_self, Link.lastValid_packet_other] at hresult
  by_cases hu : l.session s = .missing
  · rw [hu] at hx
    have hsession := Link.packet_of_missing (Or.inl (hmissing hu)) now
    rw [hsession] at hresult
    by_cases hv : l.session s.other = .missing
    · rw [hv] at hy
      have hlost : l.delivers s = false := by simp [Link.delivers, hv]
      obtain ⟨x', y', htalk, hx', hy'⟩ := talk_both_missing he hS now hx hy hpos hl
      exact hresult le_rfl htalk (by simp [Link.handedUp, hlost]) hx' (by simpa [hlost] using hy')
    · have hdelivers : l.delivers s = decide (l.session s.other = .current) := by simp [Link.delivers, hu]
      obtain ⟨x', y', htalk, hx', hy'⟩ := talk_sender_missing_session he hS now hx hy hv hpos hl
      exact hresult (by omega) htalk (by simp [Link.handedUp, hdelivers]) hx' (by simpa [hdelivers] using hy')
  · by_cases hv : l.session s.other = .missing
    · rw [hv] at hy
      have hsession := Link.packet_of_missing (Or.inr (hmissing hv)) now
      rw [hsession] at hresult
      have hlost : l.delivers s = false := by simp [Link.delivers, hv]
      obtain ⟨x', y', htalk, hx', hy'⟩ := talk_receiver_missing he hS now hx hy hu hpos hl
      exact hresult (by omega) htalk (by simp [Link.handedUp, hlost]) hx' (by simpa [hlost] using hy')
    · rw [Link.packet_of_sessions (hpresent hu) (hpresent hv)] at hresult
      have hdelivers : l.delivers s = decide (l.session s = .current ∧ l.session s.other = .current) := by
        cases hs : l.session s with
        | missing => exact absurd hs hu
        | stale => simp [Link.delivers, hs]
        | current => simp [Link.delivers, hs]
      obtain ⟨x', y', htalk, hx', hy'⟩ := talk_sessions he hS now hx hy hu hv hpos hl
      exact hresult (by omega) htalk (by simp [Link.handedUp, hdelivers]) hx' (by simpa [hdelivers] using hy')

end Talks

end Husarnet
