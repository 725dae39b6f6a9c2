import Husarnet.KeyAgreement
import Husarnet.NgSocket.RoundTrips
import Husarnet.PacketSizes
import Husarnet.PeerLookUps
import Husarnet.QueueEffects

/-! # A session is set up, and the first packets are lost

Two nodes that have no session, and a network that hands every packet on at once and in order. The
initiator sends what waited with it before the third hello packet, so that the responder, which has no
session until it gets that packet, drops all of it. Behind the exchange each of them reaches the other.
-/

namespace Husarnet
open Octets Containers PeerContainer SecurityLayer NgSocketCrypto
set_option autoImplicit false

namespace SecurityLayer
variable {S : Sodium}

/-- What the layer is and counts, apart from its peers. -/
structure SameOwn (sl sl' : SecurityLayer) : Prop where
  identity : sl'.myIdentity = sl.myIdentity
  flags : sl'.myFlags = sl.myFlags
  helloseq : sl'.helloseq = sl.helloseq

theorem SameOwn.refl (sl : SecurityLayer) : SameOwn sl sl := ⟨rfl, rfl, rfl⟩

theorem SameOwn.trans {sl sl' sl'' : SecurityLayer} (h : SameOwn sl sl') (h' : SameOwn sl' sl'') : SameOwn sl sl'' :=
  ⟨h'.identity.trans h.identity, h'.flags.trans h.flags, h'.helloseq.trans h.helloseq⟩

/-- The layer finds `p` under the id. -/
structure Stands (sl : SecurityLayer) (id : HusarnetAddress) (ref : PeerRef) (p : Peer) : Prop where
  known : (sl.peerContainer.getPeer id).2 = some ref
  entry : sl.peerContainer.heap[ref]? = some p

/-- A look-up finds or creates `p`, which is found from then on. -/
structure Meets (sl : SecurityLayer) (id : HusarnetAddress) (looked : SecurityLayer) (ref : PeerRef) (p : Peer) : Prop where
  found : sl.getOrCreatePeer id = (looked, some ref)
  stands : Stands looked id ref p

section Standing
variable {sl looked : SecurityLayer} {id : HusarnetAddress} {ref : PeerRef} {p : Peer}

theorem Stands.deref_eq (h : Stands sl id ref p) : sl.deref ref = p := deref_of_entry h.entry

theorem Stands.id_eq (h : Stands sl id ref p) : p.id = id := by
  have hpoints := getPeer_pointsTo h.known
  rw [PointsTo, h.entry, Option.map_some, Option.some.injEq] at hpoints
  exact hpoints

theorem Meets.sameOwn (h : Meets sl id looked ref p) : SameOwn sl looked := by
  have hcalm := Calm.getOrCreatePeer (S := clearSodium) sl id
  rw [h.found] at hcalm
  exact ⟨hcalm.evolves.1.sameNode.identity, hcalm.evolves.2.1, hcalm.evolves.2.2⟩

theorem Meets.queuedPackets (h : Meets sl id looked ref p) : looked.queuedPackets = sl.queuedPackets := by
  have hlooked : (sl.getOrCreatePeer id).1 = looked := congrArg Prod.fst h.found
  rw [← hlooked]
  rfl

theorem Stands.meets (h : Stands sl id ref p) : ∃ looked, Meets sl id looked ref p := by
  have hfound := getOrCreatePeer_of_known h.known
  refine ⟨{ sl with peerContainer := (sl.peerContainer.getPeer id).1 }, ?_, getPeer_again h.known, ?_⟩
  · rw [getOrCreatePeer, hfound]
  · rw [(getPeer_frame sl.peerContainer id).2.2.2.1]
    exact h.entry

/-- The peer stays where look-ups and the entry do. -/
theorem Stands.kept {sl' : SecurityLayer} (h : Stands sl id ref p) (hsame : SameLookUps sl.peerContainer sl'.peerContainer)
    {p' : Peer} (hp' : sl'.peerContainer.heap[ref]? = some p') : Stands sl' id ref p' :=
  ⟨(hsame.getPeer id).trans h.known, hp'⟩

theorem Stands.modify (h : Stands sl id ref p) (f : Peer → Peer) : Stands (sl.modify ref f) id ref (p.update f) :=
  h.kept (sameLookUps_modify _ _ _) (heap_modify_self h.entry f)

end Standing

theorem doSendDataPacket_own (sl : SecurityLayer) (peer : PeerRef) (data : Bytes) :
    SameOwn sl (sl.doSendDataPacket S peer data).1 ∧
      SameLookUps sl.peerContainer (sl.doSendDataPacket S peer data).1.peerContainer := by
  unfold doSendDataPacket
  split_ifs
  · exact ⟨.refl _, .refl _⟩
  · exact ⟨.refl _, .refl _⟩
  · exact ⟨.refl _, .refl _⟩
  · exact ⟨⟨rfl, rfl, rfl⟩, sameLookUps_draw _⟩

theorem sendAll_own (sl : SecurityLayer) (calls : List (PeerRef × Bytes)) :
    SameOwn sl (sl.sendAll S calls).1 ∧ SameLookUps sl.peerContainer (sl.sendAll S calls).1.peerContainer := by
  induction calls generalizing sl with
  | nil => exact ⟨.refl _, .refl _⟩
  | cons call calls ih =>
    obtain ⟨hown, hlook⟩ := doSendDataPacket_own (S := S) sl call.1 call.2
    obtain ⟨hown', hlook'⟩ := ih (sl.doSendDataPacket S call.1 call.2).1
    exact ⟨hown.trans hown', hlook.trans hlook'⟩

/-- What is sent: the packets for the id, each sealed under the key. -/
def Sealed (S : Sodium) (id : HusarnetAddress) (key : FString 32) (out : List LayerOutput) (packets : List Bytes) : Prop :=
  List.Forall₂ (fun o data => ∃ nonce, o = .toLower id (sealedPacket S key nonce data)) out packets

theorem sendAll_sealed {ref : PeerRef} {p : Peer} {packets : List Bytes} (hl : ∀ data ∈ packets, data.length < 2002)
    {sl : SecurityLayer} (hp : sl.deref ref = p) : Sealed S p.id p.txKey (sl.sendAll S (packets.map (ref, ·))).2 packets := by
  induction packets generalizing sl with
  | nil => exact .nil
  | cons data packets ih =>
    have hone := doSendDataPacket_eq (S := S) sl hp (hl data (List.mem_cons_self ..))
    have hdraw : (sl.withContainer sl.peerContainer.draw).deref ref = p := hp
    have hrest := ih (fun data h => hl data (List.mem_cons_of_mem _ h)) hdraw
    rw [List.map_cons, sendAll, hone]
    exact .cons ⟨_, rfl⟩ hrest

/-- A negotiation that is finished keeps what the layer is, and the peer with its keys. -/
theorem finishNegotiation_own {sl : SecurityLayer} {id : HusarnetAddress} {ref : PeerRef} {p : Peer}
    (h : Stands sl id ref p) : SameOwn sl (sl.finishNegotiation S ref).1 ∧
      Stands (sl.finishNegotiation S ref).1 id ref { p with negotiated := true, packetQueue := [] } := by
  have ha : sl.peerContainer.Allocated ref := (List.getElem?_eq_some_iff.mp h.entry).1
  have hsent := sendAll_own (S := S) (sl.establish ref) ((sl.deref ref).packetQueue.map (ref, ·))
  have hheap := (sendAll_frame (S := S) (sl.establish ref) ((sl.deref ref).packetQueue.map (ref, ·))).1
  have hentry : ((sl.establish ref).sendAll S ((sl.deref ref).packetQueue.map (ref, ·))).1.peerContainer.heap[ref]? =
      some (p.update fun p => { p with negotiated := true }) := by
    rw [hheap]
    exact heap_modify_self h.entry _
  rw [finishNegotiation_eq]
  refine ⟨⟨hsent.1.identity, hsent.1.flags, hsent.1.helloseq⟩, ?_⟩
  refine h.kept ?_ (heap_modify_self hentry _)
  exact (sameLookUps_modify _ _ _).trans (hsent.2.trans (sameLookUps_modify _ _ _))

/-! ## Hello packets between the two -/

/-- The fields of a hello packet of `him`, from the entry `q` he has. -/
def helloFields (S : Sodium) (him : Identity) (flags : PeerFlags) (q : Peer) (num : UInt8) (own echo : UInt64) :
    HelloPacket where
  incomingPubkey := him.pubkey
  peerKxPubkey := q.kxPubkey
  targetId := q.id.data
  yourHelloseq := own
  myHelloseq := echo
  signature := NgSocketCrypto.sign S (helloBody him.pubkey flags q num own echo) KX_KIND him
  flags_bin := flags.asBin
  signed := helloBody him.pubkey flags q num own echo

theorem authentic_helloFields {him : Identity} (h : him.Verifies S) (flags : PeerFlags) (q : Peer) (num : UInt8)
    (own echo : UInt64) : authentic S (helloFields S him flags q num own echo) him.deviceId = true :=
  decide_eq_true ⟨h.fromKey, h.genuine _⟩

/-- A hello packet is handled with its fields. -/
theorem onLowerLayerData_signedHello (now : Time) {sl looked : SecurityLayer} {id : HusarnetAddress} {ref : PeerRef}
    (hg : sl.getOrCreatePeer id = (looked, some ref)) (him : Identity) (flags : PeerFlags) (q : Peer) {num : UInt8}
    (hnum : IsHelloType num) (own echo : UInt64) :
    sl.onLowerLayerData S now id (signedHello S him flags q num own echo) =
      .ok (looked.acceptHello S id ref (helloFields S him flags q num own echo) num) := by
  have hlen := signedHello_length S him flags q num own echo
  have hlong : 161 ≤ (signedHello S him flags q num own echo).length := by omega
  have hkind : StringView.get (signedHello S him flags q num own echo) 0 = .ok num := StringView.get_of_lt (by omega)
  have h0 : num ≠ 0 := by
    rintro rfl
    rcases hnum with h | h | h <;> cases h
  have hparse := HelloPacket.parse_of_le hlong
  rw [HelloPacket.read_signedHello] at hparse
  rw [onLowerLayerData, if_neg (by omega), hkind]
  simp only [Except.bind, bind]
  have hkinds : num = 1 ∨ num = 2 ∨ num = 3 := hnum
  rw [if_neg h0, if_pos hkinds, if_neg (by omega), handleHelloPacket, if_neg (by simp only [dataLen]; omega), hg]
  simp only [hparse, Except.bind, bind]
  rfl

section Greeting
variable {sl looked : SecurityLayer} {him : Identity} {ref : PeerRef} {p q : Peer}

/-- The first hello packet is answered by the second, with the number that came with it. -/
theorem first_hello (now : Time) (hm : Meets sl him.deviceId looked ref p) (hv : him.Verifies S)
    (hq : q.id = sl.myIdentity.deviceId) (flags : PeerFlags) (own echo : UInt64) :
    sl.onLowerLayerData S now him.deviceId (signedHello S him flags q 1 own echo) =
      .ok (looked, [.toLower him.deviceId (signedHello S sl.myIdentity sl.myFlags p 2 sl.helloseq own)]) := by
  have htarget : ¬ (helloFields S him flags q 1 own echo).targetId ≠ looked.myIdentity.deviceId.data := by
    rw [hm.sameOwn.identity, ← hq]
    exact not_not.mpr rfl
  rw [onLowerLayerData_signedHello now hm.found him flags q (Or.inl rfl), acceptHello, if_neg htarget,
    authentic_helloFields hv, if_neg (by decide), if_pos rfl, sendHelloPacket, hm.stands.deref_eq, hm.stands.id_eq,
    hm.sameOwn.identity, hm.sameOwn.flags, hm.sameOwn.helloseq]
  rfl

/-- The entry behind a negotiation. -/
def negotiatedPeer (S : Sodium) (sl : SecurityLayer) (p : Peer) (flags : PeerFlags) (keys : FString 32 × FString 32) : Peer :=
  { p with
    flags := flags
    rxKey := mixFlags S keys.1 flags.asBin sl.myFlags.asBin
    txKey := mixFlags S keys.2 sl.myFlags.asBin flags.asBin
    negotiated := true
    packetQueue := [] }

/-- The keys of the exchange: the node with the smaller id plays the client. -/
def exchanged (S : Sodium) (mine his : HusarnetAddress) (p q : Peer) : Option (FString 32 × FString 32) :=
  if his < mine then S.kxClientSessionKeys p.kxPubkey p.kxPrivkey q.kxPubkey
  else S.kxServerSessionKeys p.kxPubkey p.kxPrivkey q.kxPubkey

/-- The second and the third hello packet, with the number of this node in them, set up a session. The queue
is sent before the third hello packet is. -/
theorem later_hello (now : Time) (hm : Meets sl him.deviceId looked ref p) (hv : him.Verifies S)
    (hq : q.id = sl.myIdentity.deviceId) {flags : PeerFlags} (hflags : flags.asBin ≠ 0) (own : UInt64)
    {echo : UInt64} {num : UInt8} (hnum : num = 2 ∨ num = 3) (hecho : echo = sl.helloseq) {keys : FString 32 × FString 32}
    (hkeys : exchanged S sl.myIdentity.deviceId him.deviceId p q = some keys) :
    ∃ sl' data, sl.onLowerLayerData S now him.deviceId (signedHello S him flags q num own echo) =
        .ok (sl', .wroteKeys ref :: .negotiated ref :: (data ++ if num = 2 then
          [.toLower him.deviceId (signedHello S sl.myIdentity sl.myFlags p 3 (sl.helloseq + 1) own)] else [])) ∧
      dataPackets data = data ∧ Stands sl' him.deviceId ref (negotiatedPeer S sl p flags keys) ∧
      sl'.myIdentity = sl.myIdentity ∧ sl'.myFlags = sl.myFlags ∧ sl'.helloseq = sl.helloseq + 1 ∧
      sl'.queuedPackets = sl.queuedPackets - p.packetQueue.length ∧
      ((∀ d ∈ p.packetQueue, d.length < 2002) → Sealed S him.deviceId (negotiatedPeer S sl p flags keys).txKey data p.packetQueue) := by
  have htarget : ¬ (helloFields S him flags q num own echo).targetId ≠ looked.myIdentity.deviceId.data := by
    rw [hm.sameOwn.identity, ← hq]
    exact not_not.mpr rfl
  have hseq : ¬ (helloFields S him flags q num own echo).myHelloseq ≠ looked.helloseq := by
    rw [hm.sameOwn.helloseq]
    exact not_not.mpr hecho
  have hfirst : num ≠ 1 := by
    rintro rfl
    rcases hnum with h | h <;> cases h
  have hsession : looked.sessionKeys S him.deviceId ref (helloFields S him flags q num own echo).peerKxPubkey = some keys := by
    rw [sessionKeys, hm.stands.deref_eq, hm.sameOwn.identity]
    exact hkeys
  rw [onLowerLayerData_signedHello now hm.found him flags q (Or.inr hnum), acceptHello, if_neg htarget,
    authentic_helloFields hv, if_neg (by decide), if_neg hfirst, if_neg hseq, negotiate, hsession]
  simp only [Option.getD_some]
  have hne : (helloFields S him flags q num own echo).flags_bin ≠ 0 := hflags
  rw [if_pos hne]
  generalize hf : looked.modify ref _ = keyed
  have hkeyed : Stands keyed him.deviceId ref { p with
      flags := flags
      rxKey := mixFlags S keys.1 flags.asBin looked.myFlags.asBin
      txKey := mixFlags S keys.2 looked.myFlags.asBin flags.asBin } := by
    rw [← hf]
    exact hm.stands.modify _
  have hown : SameOwn looked keyed := by
    rw [← hf]
    exact ⟨rfl, rfl, rfl⟩
  obtain ⟨hfinished, hstands⟩ := finishNegotiation_own (S := S) hkeyed
  have hsame := hm.sameOwn.trans (hown.trans hfinished)
  have hestablished : (keyed.establish ref).deref ref = { p with
      flags := flags
      rxKey := mixFlags S keys.1 flags.asBin looked.myFlags.asBin
      txKey := mixFlags S keys.2 looked.myFlags.asBin flags.asBin
      negotiated := true } := deref_of_entry (heap_modify_self hkeyed.entry fun p => { p with negotiated := true })
  obtain ⟨data, hout, hdata, hsealed⟩ : ∃ data, (keyed.finishNegotiation S ref).2 = .negotiated ref :: data ∧
      dataPackets data = data ∧ ((∀ d ∈ p.packetQueue, d.length < 2002) →
        Sealed S him.deviceId (negotiatedPeer S looked p flags keys).txKey data p.packetQueue) := by
    rw [finishNegotiation_eq, hkeyed.deref_eq]
    refine ⟨_, rfl, (sendAll_data (keyed.establish ref) _).1, fun hl => ?_⟩
    rw [← hm.stands.id_eq]
    exact sendAll_sealed hl hestablished
  have hcount : (keyed.finishNegotiation S ref).1.queuedPackets = sl.queuedPackets - p.packetQueue.length := by
    rw [finishNegotiation_eq, hkeyed.deref_eq, ← hm.queuedPackets, ← hf]
    rfl
  have hnegotiated : negotiatedPeer S looked p flags keys = negotiatedPeer S sl p flags keys := by
    rw [negotiatedPeer, negotiatedPeer, hm.sameOwn.flags]
  rw [hnegotiated] at hsealed
  rw [hm.sameOwn.flags] at hstands
  -- the third packet comes from the entry behind the negotiation, which has the id and the key pair it had
  have hreply : ({ (keyed.finishNegotiation S ref).1 with
        helloseq := (keyed.finishNegotiation S ref).1.helloseq + 1 } : SecurityLayer).sendHelloPacket S ref 3 own =
      .toLower him.deviceId (signedHello S sl.myIdentity sl.myFlags p 3 (sl.helloseq + 1) own) := by
    have hpeer : ({ (keyed.finishNegotiation S ref).1 with
        helloseq := (keyed.finishNegotiation S ref).1.helloseq + 1 } : SecurityLayer).deref ref = _ := hstands.deref_eq
    have hid : p.id = him.deviceId := hm.stands.id_eq
    rw [sendHelloPacket, hpeer, hid]
    show LayerOutput.toLower him.deviceId (signedHello S (keyed.finishNegotiation S ref).1.myIdentity
      (keyed.finishNegotiation S ref).1.myFlags _ 3 ((keyed.finishNegotiation S ref).1.helloseq + 1) own) = _
    rw [hsame.identity, hsame.flags, hsame.helloseq]
    exact congrArg (LayerOutput.toLower him.deviceId) (signedHello_congr hid.symm rfl)
  refine ⟨{ (keyed.finishNegotiation S ref).1 with helloseq := (keyed.finishNegotiation S ref).1.helloseq + 1 }, data, ?_,
    hdata, ⟨hstands.known, hstands.entry⟩, hsame.identity, hsame.flags, congrArg (· + 1) hsame.helloseq, hcount, hsealed⟩
  have hyours : (helloFields S him flags q num own echo).yourHelloseq = own := rfl
  rw [hyours, hreply, hout]
  rfl

end Greeting

/-! ## Data for and from a node without a session -/

/-- Data from above waits, if there is room, and the first hello packet is sent. -/
theorem onUpperLayerData_waits {sl looked : SecurityLayer} {id : HusarnetAddress} {ref : PeerRef} {p : Peer}
    (hm : Meets sl id looked ref p) (hn : p.negotiated = false) (data : Bytes) :
    ∃ sl' p', sl.onUpperLayerData S id data =
        (sl', [.toLower id (signedHello S sl.myIdentity sl.myFlags p 1 sl.helloseq 0)]) ∧
      Stands sl' id ref p' ∧ SameOwn sl sl' ∧ (p' = p ∨ p' = enqueue data p) ∧
      (sl.queuedPackets < MAX_QUEUED_PACKETS → p' = enqueue data p ∧ sl'.queuedPackets = sl.queuedPackets + 1) := by
  have hid := hm.stands.id_eq
  have hsame := hm.sameOwn
  have hnone : ¬ (looked.deref ref).negotiated = true := by
    rw [hm.stands.deref_eq, hn]
    exact Bool.false_ne_true
  have hhello {sl' : SecurityLayer} {p' : Peer} (hs : Stands sl' id ref p') (ho : SameOwn sl sl')
      (hkx : p'.kxPubkey = p.kxPubkey) :
      sl'.sendHelloPacket S ref 1 0 = .toLower id (signedHello S sl.myIdentity sl.myFlags p 1 sl.helloseq 0) := by
    rw [sendHelloPacket, hs.deref_eq, hs.id_eq, ho.identity, ho.flags, ho.helloseq]
    exact congrArg (LayerOutput.toLower id) (signedHello_congr (hs.id_eq.trans hid.symm) hkx)
  rw [onUpperLayerData, hm.found]
  dsimp only
  rw [if_neg hnone]
  by_cases hroom : looked.queuedPackets < MAX_QUEUED_PACKETS
  · rw [if_pos hroom]
    have hstands := hm.stands.modify (enqueue data)
    have hqueued : Stands { looked.modify ref (enqueue data) with queuedPackets := looked.queuedPackets + 1 } id ref
        (enqueue data p) := ⟨hstands.known, hstands.entry⟩
    have hown : SameOwn sl { looked.modify ref (enqueue data) with queuedPackets := looked.queuedPackets + 1 } :=
      ⟨hsame.identity, hsame.flags, hsame.helloseq⟩
    exact ⟨_, _, congrArg (fun hello => (_, [hello])) (hhello hqueued hown rfl), hqueued, hown, Or.inr rfl, fun _ =>
      ⟨rfl, congrArg (· + 1) hm.queuedPackets⟩⟩
  · rw [if_neg hroom]
    rw [hm.queuedPackets] at hroom
    exact ⟨_, _, congrArg (fun hello => (_, [hello])) (hhello hm.stands hsame rfl), hm.stands, hsame, Or.inl rfl, fun h =>
      absurd h hroom⟩

def IsDataPacket (data : Bytes) : Prop := data.head? = some 0

theorem isDataPacket_of_dataPackets {out : List LayerOutput} (h : dataPackets out = out) :
    ∀ packet ∈ packetsOf out, IsDataPacket packet := by
  intro packet hmem
  obtain ⟨dest, hdest⟩ := mem_packetsOf.mp hmem
  rw [← h, dataPackets, List.mem_filter, isData, decide_eq_true_eq] at hdest
  exact hdest.2

theorem toUpper_notMem_dataPackets {out : List LayerOutput} (h : dataPackets out = out) (source : HusarnetAddress)
    (data : Bytes) : .toUpper source data ∉ out := by
  intro hmem
  rw [← h, dataPackets, List.mem_filter] at hmem
  exact Bool.false_ne_true hmem.2

/-- A data packet leaves a node without a session as it was, and nothing is handed up. -/
theorem dataPacket_dropped (now : Time) {sl : SecurityLayer} {id : HusarnetAddress} {ref : PeerRef} {p : Peer}
    (hs : Stands sl id ref p) (hn : p.negotiated = false) {data : Bytes} (hd : IsDataPacket data) :
    ∃ sl' out, sl.onLowerLayerData S now id data = .ok (sl', out) ∧ Stands sl' id ref p ∧ SameOwn sl sl' ∧
      ∀ source d, .toUpper source d ∉ out := by
  have hne : data ≠ [] := by
    rintro rfl
    cases hd
  have hkind : data.getD 0 0 = 0 := by
    rw [List.getD_eq_getElem?_getD, ← List.head?_eq_getElem?, hd]
    rfl
  have hget : StringView.get data 0 = .ok 0 := hkind ▸ StringView.get_of_lt (List.length_pos_iff.mpr hne)
  have hignored : ∃ sl' out, (.ok (sl, []) : Checked (SecurityLayer × List LayerOutput)) = .ok (sl', out) ∧
      Stands sl' id ref p ∧ SameOwn sl sl' ∧ ∀ source d, .toUpper source d ∉ out :=
    ⟨sl, [], rfl, hs, .refl sl, fun _ _ => List.not_mem_nil⟩
  unfold onLowerLayerData
  by_cases hsize : data.length ≥ 2000
  · rw [if_pos hsize]
    exact hignored
  · rw [if_neg hsize, hget]
    simp only [Except.bind, bind]
    rw [if_pos trivial]
    by_cases hl : data.length ≤ 25
    · rw [if_pos hl]
      exact hignored
    · rw [if_neg hl]
      obtain ⟨r, hr, hh⟩ := handleDataPacket_handling (S := S) now sl id data
      obtain ⟨looked, hm⟩ := hs.meets
      have hfound {sl' : SecurityLayer} {peer : PeerRef} (hg : sl.getOrCreatePeer id = (sl', some peer)) :
          sl' = looked ∧ peer = ref := by
        rw [hm.found] at hg
        cases hg
        exact ⟨rfl, rfl⟩
      rw [hr]
      cases hh with
      | short _ => exact hignored
      | unknown sl' hg =>
        rw [hm.found] at hg
        cases hg
      | early sl' peer hg _ =>
        obtain ⟨rfl, rfl⟩ := hfound hg
        exact ⟨_, _, rfl, hm.stands, hm.sameOwn, by simp [sendHelloPacket]⟩
      | large sl' peer hg _ =>
        obtain ⟨rfl, rfl⟩ := hfound hg
        exact ⟨_, _, rfl, hm.stands, hm.sameOwn, fun _ _ => List.not_mem_nil⟩
      | forged sl' peer hg _ _ =>
        obtain ⟨rfl, rfl⟩ := hfound hg
        have hsame := hm.sameOwn
        exact ⟨_, _, rfl, ⟨hm.stands.known, hm.stands.entry⟩, ⟨hsame.identity, hsame.flags, hsame.helloseq⟩,
          fun _ _ => List.not_mem_nil⟩
      | opened sl' peer hg hset _ _ text _ =>
        obtain ⟨rfl, rfl⟩ := hfound hg
        rw [hm.stands.deref_eq, hn] at hset
        cases hset

/-- A packet of 1 to 1950 bytes that this node gets from above for the other one is sealed at once, and the other one
hands it up. -/
def Reaches (S : Sodium) (mine his : SecurityLayer) (a b : HusarnetAddress) : Prop :=
  ∀ (now : Time) (data : Bytes), data ≠ [] → data.length ≤ 1950 → ∃ mine' his' packet,
    mine.onUpperLayerData S b data = (mine', [.toLower b packet]) ∧
      his.onLowerLayerData S now a packet = .ok (his', [.toUpper a data])

theorem reaches (hS : S.BoxOpens) {mine his : SecurityLayer} {a b : HusarnetAddress} {ref ref' : PeerRef} {p q : Peer}
    (hp : Stands mine b ref p) (hq : Stands his a ref' q) (hpn : p.negotiated = true) (hqn : q.negotiated = true)
    (hkey : q.rxKey = p.txKey) : Reaches S mine his a b := by
  intro now data hsome hl
  obtain ⟨looked, hm⟩ := hp.meets
  obtain ⟨looked', hm'⟩ := hq.meets
  have hset : (looked.deref ref).negotiated = true := by
    rw [hm.stands.deref_eq]
    exact hpn
  have hset' : (looked'.deref ref').negotiated = true := by
    rw [hm'.stands.deref_eq]
    exact hqn
  obtain ⟨his', hopened⟩ := onLowerLayerData_sealed hS now hm'.found hset'
    (looked.peerContainer.random.tape.nonce looked.peerContainer.random.draws) (List.length_pos_iff.mpr hsome) hl
  rw [hm'.stands.deref_eq, hkey] at hopened
  refine ⟨looked.withContainer looked.peerContainer.draw, his', _, ?_, hopened⟩
  rw [onUpperLayerData, hm.found]
  dsimp only
  rw [if_pos hset, doSendDataPacket_eq looked hm.stands.deref_eq (by omega), hm.stands.id_eq]

/-! ## The exchange -/

/-- The layer handles the packets one after the other. -/
def deliverAll (S : Sodium) (now : Time) (source : HusarnetAddress) (sl : SecurityLayer) :
    List Bytes → Checked (SecurityLayer × List LayerOutput)
  | [] => return (sl, [])
  | data :: rest => do
    let (sl, out) ← sl.onLowerLayerData S now source data
    let (sl, more) ← deliverAll S now source sl rest
    return (sl, out ++ more)

/-- Data for the responder at the initiator, and what the two send each other for it, handed on at once and in
order: the hello packet, its reply, and what the initiator sends for that. -/
def exchange (S : Sodium) (now : Time) (initiator responder : SecurityLayer) (data : Bytes) :
    Checked (SecurityLayer × SecurityLayer × List LayerOutput) := do
  let a := initiator.myIdentity.deviceId
  let b := responder.myIdentity.deviceId
  let (initiator, out) := initiator.onUpperLayerData S b data
  let (responder, out) ← deliverAll S now a responder (packetsOf out)
  let (initiator, out) ← deliverAll S now b initiator (packetsOf out)
  let (responder, out) ← deliverAll S now a responder (packetsOf out)
  return (initiator, responder, out)

theorem deliverAll_one {now : Time} {source : HusarnetAddress} {sl sl' : SecurityLayer} {data : Bytes}
    {out : List LayerOutput} (h : sl.onLowerLayerData S now source data = .ok (sl', out)) :
    deliverAll S now source sl [data] = .ok (sl', out) := by
  simp only [deliverAll, h, bind, Except.bind, pure, Except.pure, List.append_nil]

/-- Data packets for a node without a session, and the packet behind them. -/
theorem deliverAll_dropped (now : Time) {id : HusarnetAddress} {ref : PeerRef} {p : Peer} (hn : p.negotiated = false)
    {packets : List Bytes} (hdata : ∀ packet ∈ packets, IsDataPacket packet) {sl : SecurityLayer} (hs : Stands sl id ref p)
    (last : Bytes) : ∃ sl' out, Stands sl' id ref p ∧ SameOwn sl sl' ∧ (∀ source d, .toUpper source d ∉ out) ∧
      ∀ r, sl'.onLowerLayerData S now id last = .ok r →
        deliverAll S now id sl (packets ++ [last]) = .ok (r.1, out ++ r.2) := by
  induction packets generalizing sl with
  | nil => exact ⟨sl, [], hs, .refl sl, fun _ _ => List.not_mem_nil, fun r hr => deliverAll_one hr⟩
  | cons packet packets ih =>
    obtain ⟨sl₁, out, hok, hs₁, hown, hnone⟩ :=
      dataPacket_dropped (S := S) now hs hn (hdata packet (List.mem_cons_self ..))
    obtain ⟨sl', out', hs', hown', hnone', hlast⟩ := ih (fun packet h => hdata packet (List.mem_cons_of_mem _ h)) hs₁
    refine ⟨sl', out ++ out', hs', hown.trans hown', fun source d => ?_, fun r hr => ?_⟩
    · rw [List.mem_append, not_or]
      exact ⟨hnone source d, hnone' source d⟩
    · simp only [List.cons_append, deliverAll, hok, hlast r hr, bind, Except.bind, pure, Except.pure, List.append_assoc]

/-- What the two nodes are promised: identities that verify, flags, key pairs that agree, and no session. -/
structure Strangers (S : Sodium) (initiator responder looked looked' : SecurityLayer) (ref ref' : PeerRef) (p q : Peer) :
    Prop where
  mine : initiator.myIdentity.Verifies S
  his : responder.myIdentity.Verifies S
  distinct : initiator.myIdentity.deviceId ≠ responder.myIdentity.deviceId
  myFlags : initiator.myFlags.asBin ≠ 0
  hisFlags : responder.myFlags.asBin ≠ 0
  meets : Meets initiator responder.myIdentity.deviceId looked ref p
  met : Meets responder initiator.myIdentity.deviceId looked' ref' q
  agrees : S.KxAgrees (p.kxPubkey, p.kxPrivkey) (q.kxPubkey, q.kxPrivkey)
  agrees' : S.KxAgrees (q.kxPubkey, q.kxPrivkey) (p.kxPubkey, p.kxPrivkey)
  noSession : p.negotiated = false
  noSession' : q.negotiated = false

/-- Both compute the keys, crosswise. -/
theorem Strangers.keys {initiator responder looked looked' : SecurityLayer} {ref ref' : PeerRef} {p q : Peer}
    (h : Strangers S initiator responder looked looked' ref ref' p q) : ∃ rx tx,
      exchanged S initiator.myIdentity.deviceId responder.myIdentity.deviceId p q = some (rx, tx) ∧
        exchanged S responder.myIdentity.deviceId initiator.myIdentity.deviceId q p = some (tx, rx) := by
  by_cases hlt : responder.myIdentity.deviceId < initiator.myIdentity.deviceId
  · obtain ⟨rx, tx, hclient, hserver⟩ := h.agrees
    refine ⟨rx, tx, ?_, ?_⟩
    · rw [exchanged, if_pos hlt]
      exact hclient
    · rw [exchanged, if_neg (IpAddress.lt_asymm hlt)]
      exact hserver
  · have hlt' := IpAddress.lt_of_ne h.distinct.symm hlt
    obtain ⟨rx, tx, hclient, hserver⟩ := h.agrees'
    refine ⟨tx, rx, ?_, ?_⟩
    · rw [exchanged, if_neg hlt]
      exact hserver
    · rw [exchanged, if_pos hlt']
      exact hclient

/-- **The first packets are lost.** Behind an exchange that nothing disturbs no packet waits with either of the two, and
the responder has handed up none. From then on each of them reaches the other, with packets of 1 to 1950 bytes. -/
theorem first_packets_lost (hS : S.BoxOpens) (now : Time) {initiator responder looked looked' : SecurityLayer}
    {ref ref' : PeerRef} {p q : Peer} (h : Strangers S initiator responder looked looked' ref ref' p q) (data : Bytes) :
    ∃ initiator' responder' out, exchange S now initiator responder data = .ok (initiator', responder', out) ∧
      (initiator'.deref ref).packetQueue = [] ∧ (responder'.deref ref').packetQueue = [] ∧
      (∀ source d, .toUpper source d ∉ out) ∧
      Reaches S initiator' responder' initiator.myIdentity.deviceId responder.myIdentity.deviceId ∧
      Reaches S responder' initiator' responder.myIdentity.deviceId initiator.myIdentity.deviceId := by
  obtain ⟨rx, tx, hmine, hhis⟩ := h.keys
  -- data for the responder waits, and the first hello packet goes out
  obtain ⟨asked, p', hasked, hstands, hown, hp', -⟩ := onUpperLayerData_waits (S := S) h.meets h.noSession data
  have hp'id : p'.id = p.id := by
    rcases hp' with rfl | rfl <;> rfl
  have hp'kx : p'.kxPubkey = p.kxPubkey ∧ p'.kxPrivkey = p.kxPrivkey := by
    rcases hp' with rfl | rfl <;> exact ⟨rfl, rfl⟩
  -- the responder replies to it
  have hgreeted := first_hello (S := S) now h.met h.mine h.meets.stands.id_eq initiator.myFlags initiator.helloseq 0
  -- the reply sets up the session with the initiator
  obtain ⟨found, hfound⟩ := hstands.meets
  have hkeys : exchanged S asked.myIdentity.deviceId responder.myIdentity.deviceId p' q = some (rx, tx) := by
    rw [← hmine, exchanged, exchanged, hown.identity, hp'kx.1, hp'kx.2]
  obtain ⟨initiator', sent, hreplied, hsent, hinit, -⟩ := later_hello (S := S) now hfound h.his
    (h.met.stands.id_eq.trans (congrArg _ hown.identity.symm)) h.hisFlags responder.helloseq (Or.inl rfl) hown.helloseq.symm hkeys
  rw [hown.identity, hown.flags, hown.helloseq] at hreplied
  -- what the initiator sends before the third hello packet comes too early
  obtain ⟨waiting, ignored, hwaits, hwown, hnone, hlast⟩ := deliverAll_dropped (S := S) now h.noSession'
    (isDataPacket_of_dataPackets hsent) ⟨h.met.stands.known, h.met.stands.entry⟩
    (signedHello S initiator.myIdentity initiator.myFlags p' 3 (initiator.helloseq + 1) responder.helloseq)
  obtain ⟨found', hfound'⟩ := hwaits.meets
  have hwowns := h.met.sameOwn.trans hwown
  have hkeys' : exchanged S waiting.myIdentity.deviceId initiator.myIdentity.deviceId q p' = some (tx, rx) := by
    rw [← hhis, exchanged, exchanged, hwowns.identity, hp'kx.1]
  obtain ⟨responder', sent', hended, hsent', hresp, -⟩ := later_hello (S := S) now hfound' h.mine
    (hp'id.trans (h.meets.stands.id_eq.trans (congrArg _ hwowns.identity.symm))) h.myFlags (initiator.helloseq + 1) (Or.inr rfl)
    hwowns.helloseq.symm hkeys'
  have hall := hlast _ hended
  rw [if_neg (by decide), List.append_nil] at hall
  have hup : ∀ source d, .toUpper source d ∉ ignored ++ (.wroteKeys ref' :: .negotiated ref' :: sent') := by
    intro source d hmem
    rcases List.mem_append.mp hmem with hmem | hmem
    · exact hnone source d hmem
    · simp only [List.mem_cons, reduceCtorEq, false_or] at hmem
      exact toUpper_notMem_dataPackets hsent' source d hmem
  refine ⟨initiator', responder', _, ?_, ?_, ?_, hup, ?_, ?_⟩
  · have hthird : packetsOf (.wroteKeys ref :: .negotiated ref :: (sent ++ [.toLower responder.myIdentity.deviceId
        (signedHello S initiator.myIdentity initiator.myFlags p' 3 (initiator.helloseq + 1) responder.helloseq)])) =
        packetsOf sent ++ [signedHello S initiator.myIdentity initiator.myFlags p' 3 (initiator.helloseq + 1)
          responder.helloseq] := packetsOf_append sent _
    rw [if_pos rfl] at hreplied
    simp only [exchange, hasked]
    rw [show packetsOf [.toLower responder.myIdentity.deviceId _] = [_] from rfl, deliverAll_one hgreeted]
    simp only [bind, Except.bind]
    rw [show packetsOf [.toLower initiator.myIdentity.deviceId _] = [_] from rfl, deliverAll_one hreplied]
    simp only [hthird, hall, pure, Except.pure]
  · rw [hinit.deref_eq]
    rfl
  · rw [hresp.deref_eq]
    rfl
  · refine reaches hS hinit hresp rfl rfl ?_
    show mixFlags S tx initiator.myFlags.asBin waiting.myFlags.asBin = mixFlags S tx asked.myFlags.asBin responder.myFlags.asBin
    rw [hown.flags, hwowns.flags]
  · refine reaches hS hresp hinit rfl rfl ?_
    show mixFlags S rx responder.myFlags.asBin asked.myFlags.asBin = mixFlags S rx waiting.myFlags.asBin initiator.myFlags.asBin
    rw [hown.flags, hwowns.flags]

/-- The layer of a node that has just looked up another one. -/
def lookedUpBy (me him : UInt8) : SecurityLayer :=
  ((openTo (clearIdentity me)).getOrCreatePeer (clearIdentity him).deviceId).1

theorem strangers_openTo : Strangers clearSodium (openTo (clearIdentity 1)) (openTo (clearIdentity 2)) (lookedUpBy 1 2)
    (lookedUpBy 2 1) 0 0 ((lookedUpBy 1 2).deref 0) ((lookedUpBy 2 1).deref 0) where
  mine := clearIdentity_verifies 1
  his := clearIdentity_verifies 2
  distinct := by decide +kernel
  myFlags := by decide
  hisFlags := by decide
  meets := ⟨Prod.ext rfl (by decide +kernel), by decide +kernel, by rfl⟩
  met := ⟨Prod.ext rfl (by decide +kernel), by decide +kernel, by rfl⟩
  agrees := ⟨_, _, rfl, rfl⟩
  agrees' := ⟨_, _, rfl, rfl⟩
  noSession := by rfl
  noSession' := by rfl

theorem first_packets_lost_openTo : ∃ initiator responder out,
    exchange clearSodium 0 (openTo (clearIdentity 1)) (openTo (clearIdentity 2)) [1, 2, 3] = .ok (initiator, responder, out) ∧
      (initiator.deref 0).packetQueue = [] ∧ (responder.deref 0).packetQueue = [] ∧ (∀ source d, .toUpper source d ∉ out) ∧
      Reaches clearSodium initiator responder (clearIdentity 1).deviceId (clearIdentity 2).deviceId ∧
      Reaches clearSodium responder initiator (clearIdentity 2).deviceId (clearIdentity 1).deviceId :=
  first_packets_lost boxOpens_clearSodium 0 strangers_openTo [1, 2, 3]

end SecurityLayer
end Husarnet
