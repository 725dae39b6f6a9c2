import Husarnet.Handshake
import Husarnet.PacketQueues
import Husarnet.PacketSizes

/-! # Data comes from the node that the key belongs to

Any number of nodes and a network that delivers what it likes, to whom and as often as it likes. What it
cannot do is to seal a box under a key that it does not know. Then data that one node hands up from
another was handed down there, for this node and byte by byte as it arrives: before the step, whichever
negotiations and packets came in between.
-/

namespace Husarnet
open Octets Containers PeerContainer SecurityLayer Runs SharedQueues
set_option autoImplicit false

variable {ι : Type}

/-- One of the nodes takes a step. -/
structure NodesStep (S : Sodium) (w : ι → SecurityLayer) (e : ι × SecurityEvent × List LayerOutput)
    (w' : ι → SecurityLayer) : Prop where
  step : QueueStep S (w e.1) e.2 (w' e.1)
  others : ∀ j, j ≠ e.1 → w' j = w j

abbrev NodesTransition (ι : Type) := (ι → SecurityLayer) × (ι × SecurityEvent × List LayerOutput) × (ι → SecurityLayer)

namespace NodesTransition

def node (x : NodesTransition ι) : ι := x.2.1.1

/-- What the step passes to `doSendDataPacket`. -/
def calls (x : NodesTransition ι) : List (PeerRef × Bytes) :=
  (x.1 x.node).calls ((x.1 x.node).queueAction x.2.1.2)

/-- The step seals the data for the peer, under the key. -/
structure Seals (S : Sodium) (x : NodesTransition ι) (key : FString 32) (peer : PeerRef) (data packet : Bytes) : Prop where
  called : (peer, data) ∈ x.calls
  txKey : ((x.2.2 x.node).deref peer).txKey = key
  packet : ∃ nonce, packet = sealedPacket S key nonce data

/-- The step gets the data packet from the source, has a session with it under the key, and the packet opens.
Without a session, and where the size is wrong, nothing is opened. -/
def Opens (S : Sodium) (x : NodesTransition ι) (source : HusarnetAddress) (key : FString 32) (packet : Bytes) : Prop :=
  ∃ now looked peer text, x.2.1.2.1 = .lowerLayerData now source packet ∧
    (x.1 x.node).getOrCreatePeer source = (looked, some peer) ∧ (looked.deref peer).negotiated = true ∧
    (looked.deref peer).rxKey = key ∧ packet.getD 0 0 = 0 ∧ packet.length < 2000 ∧ headerSize + 8 < packet.length ∧
    ∃ h : 25 ≤ packet.length, S.secretboxOpen key (sliceF packet 1 24 h) (packet.drop 25) = some text

end NodesTransition

/-- The node got the data from the layer above, for the target. -/
def HandedDown (past : List (ι × SecurityEvent × List LayerOutput)) (i : ι) (target : HusarnetAddress) (data : Bytes) : Prop :=
  ∃ out, (i, .upperLayerData target data, out) ∈ past

/-- What the nodes are promised of boxes and of keys. -/
structure Unforged (S : Sodium) (id : ι → HusarnetAddress) (steps : List (NodesTransition ι)) : Prop where
  /-- A packet from one of the nodes that opens in a session was sealed under its key, earlier and by one of them. -/
  sealed : ∀ before x after j key packet, steps = before ++ x :: after → x.Opens S (id j) key packet →
    ∃ y ∈ before, ∃ peer data, NodesTransition.Seals S y key peer data packet
  /-- The key of a session that a node opens packets under is one that only the other node seals under, and for it. -/
  apart : ∀ x ∈ steps, ∀ y ∈ steps, ∀ j key packet peer data packet', x.Opens S (id j) key packet →
    y.Seals S key peer data packet' → y.node = j ∧ ((y.2.2 y.node).deref peer).id = id x.node

namespace SecurityLayer
variable {S : Sodium}

/-! ## Where queued data comes from -/

theorem entry_of_mem_queue {sl : SecurityLayer} {ref : PeerRef} {packet : Bytes}
    (h : packet ∈ (sl.deref ref).packetQueue) : sl.peerContainer.heap[ref]? = some (sl.deref ref) := by
  by_cases ha : sl.peerContainer.Allocated ref
  · exact ha.entry
  · rw [deref, deref_of_not_allocated ha] at h
    cases h

/-- A step keeps the ids of the peers. -/
theorem SecurityStep.keepsIds {sl sl' : SecurityLayer} {e : SecurityEvent × List LayerOutput} (h : SecurityStep S sl e sl')
    {ref : PeerRef} {p : Peer} (hp : sl.peerContainer.heap[ref]? = some p) : (sl'.deref ref).id = p.id := by
  have hevolves {c : PeerContainer} (hc : Evolves sl.peerContainer c) : ∃ p', c.heap[ref]? = some p' ∧ p'.id = p.id := by
    obtain ⟨p', hp', hk⟩ := hc.keepsEntries.old ref p hp
    exact ⟨p', hp', hk.id⟩
  have hentry : ∃ p', sl'.peerContainer.heap[ref]? = some p' ∧ p'.id = p.id := by
    rcases h.effect with hquiet | ⟨now, target, data, looked, peer, hello, -, ha, hn⟩
    · exact hevolves hquiet.evolves.1
    · have hcalm := Calm.getOrCreatePeer (S := S) sl target
      rw [ha.known] at hcalm
      obtain ⟨p₁, hp₁, hid₁⟩ := hevolves hcalm.evolves.1
      obtain ⟨p', hp', hid', -⟩ := hn.entry hp₁
      exact ⟨p', hp', hid'.trans hid₁⟩
  obtain ⟨p', hp', hid⟩ := hentry
  rw [deref, deref_of_entry hp']
  exact hid

/-- A packet in a queue was there before, or the step put it there. -/
theorem QueueEffect.queue_mem {sl sl' : SecurityLayer} {action : Action PeerRef Bytes} {out : List LayerOutput}
    (h : QueueEffect S sl action out sl') {ref : PeerRef} {packet : Bytes} (hp : packet ∈ (sl'.deref ref).packetQueue) :
    packet ∈ (sl.deref ref).packetQueue ∨ action = .push ref packet := by
  have hkept {looked : SecurityLayer} (hk : QueuesKept sl looked) (hm : packet ∈ (looked.deref ref).packetQueue) :
      packet ∈ (sl.deref ref).packetQueue := by
    have hqueue : (looked.deref ref).packetQueue = (sl.deref ref).packetQueue := (hk.peers.peer ref).packetQueue
    rwa [hqueue] at hm
  cases h with
  | kept hk _ => exact Or.inl (hkept hk hp)
  | @sent looked hk peer _ data =>
    rw [deref_of_heap_eq (doSendDataPacket_frame (S := S) looked peer data).1] at hp
    exact Or.inl (hkept hk hp)
  | @queued looked hk peer ha _ _ data _ _ =>
    have hqueues := congrFun (queues_modify ha (enqueue data)) ref
    have hmem : packet ∈ Function.update looked.queues.queue peer ((looked.deref peer).packetQueue ++ [data]) ref :=
      hqueues ▸ hp
    by_cases hr : ref = peer
    · subst hr
      rw [Function.update_self, List.mem_append, List.mem_singleton] at hmem
      rcases hmem with hmem | rfl
      · exact Or.inl (hkept hk hmem)
      · exact Or.inr rfl
    · rw [Function.update_of_ne hr] at hmem
      exact Or.inl (hkept hk hmem)
  | @finished keyed hk peer ha helloseq _ _ =>
    have hpeer := deref_finishNegotiation (S := S) ha ref
    have hm : packet ∈ ((keyed.finishNegotiation S peer).1.deref ref).packetQueue := hp
    rw [hpeer] at hm
    split at hm
    · cases hm
    · exact Or.inl (hkept hk hm)

/-- Only data from above is queued or sent at once, and for the peer with the id it comes for. -/
theorem SecurityStep.upper {sl sl' : SecurityLayer} {e : SecurityEvent} {out : List LayerOutput}
    (h : SecurityStep S sl (e, out) sl') {peer : PeerRef} {data : Bytes}
    (ha : sl.queueAction (e, out) = .push peer data ∨ sl.queueAction (e, out) = .pass peer data) :
    ∃ target, e = .upperLayerData target data ∧ (sl'.deref peer).id = target := by
  have hnever {out : List LayerOutput} : ¬ (finishAction out = .push peer data ∨ finishAction out = .pass peer data) := by
    unfold finishAction
    split <;> simp
  cases h with
  | lowerLayerData _ => exact absurd ha hnever
  | getLatency _ _ => exact absurd ha hnever
  | @shared c _ =>
    have hidle : finishAction [] = .push peer data ∨ finishAction [] = .pass peer data := ha
    exact absurd hidle hnever
  | upperLayerData target d =>
    rw [queueAction] at ha
    generalize hg : sl.getOrCreatePeer target = r at ha
    obtain ⟨looked, found⟩ := r
    cases found with
    | none => rcases ha with ha | ha <;> cases ha
    | some ref =>
      obtain ⟨-, p, hp, hid⟩ := getOrCreatePeer_entry (S := S) hg
      have hsame : ref = peer ∧ d = data := by
        dsimp only at ha
        split_ifs at ha <;> rcases ha with ha | ha <;> cases ha <;> exact ⟨rfl, rfl⟩
      obtain ⟨rfl, rfl⟩ := hsame
      refine ⟨target, rfl, ?_⟩
      rw [onUpperLayerData, hg]
      have hlooked : (looked.deref ref).id = target := by
        rw [deref, deref_of_entry hp]
        exact hid
      dsimp only
      split_ifs
      · rw [deref_of_heap_eq (doSendDataPacket_frame (S := S) looked ref d).1]
        exact hlooked
      · exact (read_modify Peer.id looked.peerContainer ref (enqueue d) (fun _ => rfl) ref).trans hlooked
      · exact hlooked

end SecurityLayer

/-! ## Runs of the nodes -/

section
variable {S : Sodium}

theorem HandedDown.mono {past past' : List (ι × SecurityEvent × List LayerOutput)} (hsub : past ⊆ past') {i : ι}
    {target : HusarnetAddress} {data : Bytes} (h : HandedDown past i target data) : HandedDown past' i target data := by
  obtain ⟨out, hout⟩ := h
  exact ⟨out, hsub hout⟩

/-- What waits for a session was handed down for the peer it waits for. -/
def QueuesTraced (past : List (ι × SecurityEvent × List LayerOutput)) (w : ι → SecurityLayer) : Prop :=
  ∀ i ref packet, packet ∈ ((w i).deref ref).packetQueue → HandedDown past i ((w i).deref ref).id packet

theorem QueuesTraced.step {past : List (ι × SecurityEvent × List LayerOutput)} {w w' : ι → SecurityLayer}
    {e : ι × SecurityEvent × List LayerOutput} (hw : QueuesTraced past w) (h : NodesStep S w e w') :
    QueuesTraced (past ++ [e]) w' := by
  intro i ref packet hp
  have hearlier : past ⊆ past ++ [e] := List.subset_append_left past [e]
  by_cases hi : i = e.1
  · subst hi
    rcases h.step.effect.queue_mem hp with hold | hpush
    · have hid := h.step.1.keepsIds (entry_of_mem_queue hold)
      rw [hid]
      exact (hw _ ref packet hold).mono hearlier
    · obtain ⟨target, he, hid⟩ := h.step.1.upper (Or.inl hpush)
      rw [hid]
      refine ⟨e.2.2, List.mem_append_right past (List.mem_singleton.mpr ?_)⟩
      rw [← he]
  · rw [h.others i hi] at hp ⊢
    exact (hw i ref packet hp).mono hearlier

/-- Data that a step seals was handed down by then. -/
theorem NodesTransition.Seals.handedDown {past : List (ι × SecurityEvent × List LayerOutput)} {y : NodesTransition ι}
    (hpast : QueuesTraced past y.1) (hstep : NodesStep S y.1 y.2.1 y.2.2) {key : FString 32} {peer : PeerRef}
    {data packet : Bytes} (h : y.Seals S key peer data packet) :
    HandedDown (past ++ [y.2.1]) y.node ((y.2.2 y.node).deref peer).id data := by
  have hcalled := h.called
  rw [NodesTransition.calls] at hcalled
  cases haction : (y.1 y.node).queueAction y.2.1.2 with
  | push ref d =>
    rw [haction] at hcalled
    cases hcalled
  | idle =>
    rw [haction] at hcalled
    cases hcalled
  | pass ref d =>
    rw [haction, SecurityLayer.calls, List.mem_singleton] at hcalled
    cases hcalled
    obtain ⟨target, he, hid⟩ := hstep.step.1.upper (Or.inr haction)
    have hid' : ((y.2.2 y.node).deref peer).id = target := hid
    rw [hid']
    refine ⟨y.2.1.2.2, List.mem_append_right past (List.mem_singleton.mpr ?_)⟩
    rw [← he]
    rfl
  | flush ref =>
    rw [haction, SecurityLayer.calls, List.mem_map] at hcalled
    obtain ⟨d, hd, he⟩ := hcalled
    cases he
    have hid : ((y.2.2 y.node).deref peer).id = ((y.1 y.node).deref peer).id :=
      hstep.step.1.keepsIds (entry_of_mem_queue hd)
    rw [hid]
    exact (hpast _ peer data hd).mono (List.subset_append_left past [_])

theorem queuesTraced_run {w : ι → SecurityLayer} (hw : QueuesTraced [] w)
    {tr : List ((ι × SecurityEvent × List LayerOutput) × (ι → SecurityLayer))} (hr : IsRun (NodesStep S) w tr) :
    QueuesTraced (tr.map Prod.fst) (last w tr) := by
  have hall := hr.history (I := QueuesTraced) (G := fun _ _ _ => True) hw (fun _ _ _ _ hi _ hs => hi.step hs)
    (fun _ _ => trivial) tr [] (List.append_nil tr).symm
  rwa [List.nil_append] at hall

/-- What a step hands up was in a box that opened, and is its text behind the sequence number. -/
theorem SecurityLayer.SecurityStep.handsUp {sl sl' : SecurityLayer} {e : SecurityEvent} {out : List LayerOutput}
    (h : SecurityStep S sl (e, out) sl') {source : HusarnetAddress} {d : Bytes} (hup : .toUpper source d ∈ out) :
    ∃ now packet looked peer text, e = .lowerLayerData now source packet ∧
      sl.getOrCreatePeer source = (looked, some peer) ∧ (looked.deref peer).negotiated = true ∧ packet.getD 0 0 = 0 ∧
      packet.length < 2000 ∧ headerSize + 8 < packet.length ∧
      (∃ h : 25 ≤ packet.length,
        S.secretboxOpen (looked.deref peer).rxKey (sliceF packet 1 24 h) (packet.drop 25) = some text) ∧
      d = slice (looked.decryptedBuffer.overwrite text).bytes 8 (packet.length - headerSize - 8) := by
  cases h with
  | @lowerLayerData now peerAddress packet _ _ hok =>
    rcases (PacketHandling.of_ok hok).handsUp with hnone | ⟨looked, peer, text, hg, hset, hkind, hsize, hlong, hopen, hout⟩
    · exact absurd hup (hnone source d)
    · have honly : out = [.toUpper peerAddress _] := hout
      rw [honly, List.mem_singleton] at hup
      cases hup
      exact ⟨now, packet, looked, peer, text, rfl, hg, hset, hkind, hsize, hlong, hopen, rfl⟩
  | upperLayerData target data => exact absurd hup ((onUpperLayerData_calm sl target data).downward source d)
  | getLatency now peerAddress => exact absurd hup ((getLatency_calm (S := S) now sl peerAddress).downward source d)
  | shared _ => cases hup

/-- A sealed packet that is read under its key gives the data. -/
theorem read_sealedPacket (hS : S.BoxOpens) (buffer : FString 2000) (key : FString 32) (nonce : FString 24) (data : Bytes)
    (hsize : (sealedPacket S key nonce data).length < 2000) {text : Bytes}
    (h : 25 ≤ (sealedPacket S key nonce data).length)
    (hopen : S.secretboxOpen key (sliceF (sealedPacket S key nonce data) 1 24 h) ((sealedPacket S key nonce data).drop 25) =
      some text) :
    slice (buffer.overwrite text).bytes 8 ((sealedPacket S key nonce data).length - headerSize - 8) = data := by
  rw [sealedPacket_opens hS, Option.some.injEq] at hopen
  rw [sealedPacket_length hS] at hsize
  have htext : text.length = data.length + 8 := by
    rw [← hopen, List.length_append, pack64_length]
    omega
  have hsub : (sealedPacket S key nonce data).length - headerSize - 8 = text.length - 8 := by
    rw [sealedPacket_length hS, headerSize]
    omega
  rw [hsub, slice_overwrite _ (by omega) (by omega), ← hopen]
  exact List.drop_left' (pack64_length 0)

/-- **Data comes from the node that the key belongs to.** In every run of any number of nodes, data that one of
them hands up as coming from another was handed down at that other node, for this one, in an earlier step. -/
theorem delivered_was_handed_down (hS : S.BoxOpens) (w : ι → SecurityLayer)
    (hempty : ∀ i, ∀ p ∈ (w i).peerContainer.heap, p.packetQueue = [])
    (tr : List ((ι × SecurityEvent × List LayerOutput) × (ι → SecurityLayer))) (hr : IsRun (NodesStep S) w tr)
    (hsecret : Unforged S (fun i => (w i).myIdentity.deviceId) (transitions w tr)) :
    ∀ (before : List (NodesTransition ι)) (x : NodesTransition ι) (after : List (NodesTransition ι)) (j : ι) (data : Bytes),
      transitions w tr = before ++ x :: after → .toUpper (w j).myIdentity.deviceId data ∈ x.2.1.2.2 →
      HandedDown (before.map fun y => y.2.1) j (w x.node).myIdentity.deviceId data := by
  intro before x after j data he hup
  have hx : x ∈ transitions w tr := by
    rw [he]
    exact List.mem_append_right before (List.mem_cons_self ..)
  -- the packet of the step opened, and was sealed at the other node
  obtain ⟨now, packet, looked, peer, text, hevent, hg, hset, hkind, hsize, hlong, ⟨h25, hopen⟩, rfl⟩ :=
    (hr.of_mem hx).2.step.1.handsUp hup
  have hopens : x.Opens S (w j).myIdentity.deviceId (looked.deref peer).rxKey packet :=
    ⟨now, looked, peer, text, hevent, hg, hset, rfl, hkind, hsize, hlong, h25, hopen⟩
  obtain ⟨y, hy, ref, d, hseals⟩ := hsecret.sealed before x after j _ packet he hopens
  have hymem : y ∈ transitions w tr := by
    rw [he]
    exact List.mem_append_left _ hy
  obtain ⟨hnode, hid⟩ := hsecret.apart x hx y hymem j _ packet ref d packet hopens hseals
  obtain ⟨nonce, hpacket⟩ := hseals.packet
  subst hpacket
  rw [read_sealedPacket hS looked.decryptedBuffer _ nonce d hsize h25 hopen]
  -- what it sealed was handed down by then
  obtain ⟨first, rest, hsplit⟩ := List.append_of_mem hy
  have hsplit' : transitions w tr = first ++ y :: (rest ++ x :: after) := by
    rw [he, hsplit, List.append_assoc, List.cons_append]
  obtain ⟨tr₁, hr₁, hfirst, hlast⟩ := hr.before hsplit'
  have hnothing : QueuesTraced [] w := by
    intro i ref packet hp
    have hnone := hempty i _ (List.mem_of_getElem? (entry_of_mem_queue hp))
    rw [hnone] at hp
    cases hp
  have htraced := queuesTraced_run hnothing hr₁
  rw [hlast, ← map_label_transitions w tr₁, hfirst] at htraced
  have hdown := hseals.handedDown htraced (hr.of_mem hymem).2
  rw [hid, hnode] at hdown
  refine hdown.mono ?_
  rw [hsplit, List.map_append, List.map_cons]
  intro z hz
  rw [List.mem_append, List.mem_singleton] at hz
  rw [List.mem_append, List.mem_cons]
  exact hz.imp id Or.inl

end

/-! ## One packet between two nodes -/

/-- The two ends of a session. -/
def twoEnds (i : Bool) : SecurityLayer := if i then sender.securityLayer else receiver.securityLayer

theorem delivered_was_handed_down_packet :
    ∃ tr, IsRun (NodesStep clearSodium) twoEnds tr ∧
      ∀ (before : List (NodesTransition Bool)) (x : NodesTransition Bool) (after : List (NodesTransition Bool)) (j : Bool)
        (data : Bytes), transitions twoEnds tr = before ++ x :: after →
        .toUpper (twoEnds j).myIdentity.deviceId data ∈ x.2.1.2.2 →
        HandedDown (before.map fun y => y.2.1) j (twoEnds x.node).myIdentity.deviceId data := by
  let called := sender.securityLayer.onUpperLayerData clearSodium (clearIdentity 2).deviceId [1, 2, 3]
  let packet := sealedPacket clearSodium (.pad 32 [2]) (countingTape.nonce 1) [1, 2, 3]
  have hkey : ((HoldsPeer.lookedUp receiver (clearIdentity 1).deviceId).deref 0).rxKey = .pad 32 [2] := by
    rw [receiver_holds_sender.deref_lookedUp]
    decide +kernel
  obtain ⟨sl, hok⟩ := onLowerLayerData_sealed boxOpens_clearSodium 7 receiver_holds_sender.getOrCreatePeer
    (by decide +kernel) (countingTape.nonce 1) (show 0 < ([1, 2, 3] : Bytes).length by decide) (by decide)
  rw [hkey] at hok
  let w₁ := Function.update twoEnds true called.1
  let w₂ := Function.update w₁ false sl
  let first : NodesTransition Bool := (twoEnds, (true, .upperLayerData (clearIdentity 2).deviceId [1, 2, 3], called.2), w₁)
  let second : NodesTransition Bool := (w₁, (false, .lowerLayerData 7 (clearIdentity 1).deviceId packet,
    [.toUpper (clearIdentity 1).deviceId [1, 2, 3]]), w₂)
  have hfirst : NodesStep clearSodium twoEnds first.2.1 w₁ :=
    ⟨⟨.upperLayerData _ _, fun _ h => by cases h⟩, fun j hj => Function.update_of_ne hj _ _⟩
  have hsecond : NodesStep clearSodium w₁ second.2.1 w₂ :=
    ⟨⟨.lowerLayerData hok, fun _ h => by cases h⟩, fun j hj => Function.update_of_ne hj _ _⟩
  -- only the second step opens a packet, under the key of the session
  have hopens {x : NodesTransition Bool} (hx : x = first ∨ x = second) {source : HusarnetAddress} {key : FString 32}
      {p : Bytes} (h : x.Opens clearSodium source key p) :
      x = second ∧ source = (clearIdentity 1).deviceId ∧ key = .pad 32 [2] ∧ p = packet := by
    obtain ⟨now, looked, peer, text, he, hg, -, hrx, -⟩ := h
    obtain rfl | rfl := hx
    · cases he
    · cases he
      have hfound : receiver.securityLayer.getOrCreatePeer (clearIdentity 1).deviceId = (looked, some peer) := hg
      rw [receiver_holds_sender.getOrCreatePeer] at hfound
      cases hfound
      exact ⟨rfl, rfl, hrx.symm.trans hkey, rfl⟩
  -- and only the first one seals, for the receiver
  have hcalls : first.calls = [(0, [1, 2, 3])] := by decide +kernel
  have hseals {x : NodesTransition Bool} (hx : x = first ∨ x = second) {key : FString 32} {peer : PeerRef} {data p : Bytes}
      (h : x.Seals clearSodium key peer data p) : x = first ∧ peer = 0 := by
    have hcalled := h.called
    obtain rfl | rfl := hx
    · rw [hcalls, List.mem_singleton] at hcalled
      cases hcalled
      exact ⟨rfl, rfl⟩
    · cases hcalled
  have hid : (called.1.deref 0).id = (clearIdentity 2).deviceId := by decide +kernel
  have htx : (called.1.deref 0).txKey = .pad 32 [2] := by decide +kernel
  have hsent : first.Seals clearSodium (.pad 32 [2]) 0 [1, 2, 3] packet :=
    ⟨by rw [hcalls]; exact List.mem_singleton_self _, htx, _, rfl⟩
  have hmem {x : NodesTransition Bool} (hx : x ∈ [first, second]) : x = first ∨ x = second := by
    simpa only [List.mem_cons, List.not_mem_nil, or_false] using hx
  have hunforged : Unforged clearSodium (fun i => (twoEnds i).myIdentity.deviceId) [first, second] := by
    refine ⟨fun before x after j key p he hx => ?_, fun x hx y hy j key p peer data p' hopen hseal => ?_⟩
    · have hin : x ∈ [first, second] := by
        rw [he]
        exact List.mem_append_right before (List.mem_cons_self ..)
      obtain ⟨rfl, -, rfl, rfl⟩ := hopens (hmem hin) hx
      cases before with
      | nil =>
        have hnodes : true = false := congrArg NodesTransition.node (List.cons.inj he).1
        cases hnodes
      | cons y before =>
        have hy : first = y := (List.cons.inj he).1
        subst hy
        exact ⟨first, List.mem_cons_self .., 0, [1, 2, 3], hsent⟩
    · obtain ⟨rfl, hj, -, -⟩ := hopens (hmem hx) hopen
      obtain ⟨rfl, rfl⟩ := hseals (hmem hy) hseal
      refine ⟨?_, hid⟩
      revert hj
      cases j with
      | false =>
        intro hj
        have hne : receiver.securityLayer.myIdentity.deviceId ≠ (clearIdentity 1).deviceId := by decide +kernel
        exact absurd hj hne
      | true => exact fun _ => rfl
  have hempty : ∀ i, ∀ p ∈ (twoEnds i).peerContainer.heap, p.packetQueue = [] := by decide +kernel
  have hrun : IsRun (NodesStep clearSodium) twoEnds [(first.2.1, w₁), (second.2.1, w₂)] := ⟨hfirst, hsecond, trivial⟩
  exact ⟨_, hrun, delivered_was_handed_down boxOpens_clearSodium twoEnds hempty _ hrun hunforged⟩

end Husarnet
