import Husarnet.Lib.SharedQueues
import Husarnet.NgSocket.Paths
import Husarnet.SecurityPaths

/-! # The packets that wait for a session

One counter bounds the queues of all peers. `onUpperLayerData` fills them, `finishNegotiation` empties
the one of its peer, and a session that the socket layer ends has nothing queued. So the layer is a
family of queues with a shared budget.
-/

namespace Husarnet
open Octets PeerContainer Runs SharedQueues
set_option autoImplicit false

/-- What the other code leaves alone: the queue of a peer. It begins no session. -/
structure QueueKept (p p' : Peer) : Prop where
  packetQueue : p'.packetQueue = p.packetQueue
  negotiated : p'.negotiated = true → p.negotiated = true

theorem QueueKept.refl (p : Peer) : QueueKept p p := ⟨rfl, fun h => h⟩

theorem QueueKept.trans {p q r : Peer} (h : QueueKept p q) (h' : QueueKept q r) : QueueKept p r :=
  ⟨h'.packetQueue.trans h.packetQueue, fun hn => h.negotiated (h'.negotiated hn)⟩

/-- The timer of the socket layer, which ends sessions, spares the queues. -/
theorem Node.periodicPeer_queues (S : Sodium) (now : Time) (n : Node) (peer : PeerRef) :
    Kept QueueKept n.peerContainer (n.periodicPeer S now peer).peerContainer := by
  have hwrite (c : PeerContainer) {f : Peer → Peer} (hf : ∀ p, QueueKept p (p.update f)) : Kept QueueKept c (c.modify peer f) :=
    Kept.modify QueueKept.refl c peer hf
  have hattempt (n : Node) : Kept QueueKept n.peerContainer (n.attemptReestablish S now peer).peerContainer := by
    rw [(Node.attemptReestablish_frame S now n peer).1]
    have hdraw : Kept QueueKept n.peerContainer n.peerContainer.draw := Kept.of_heap_eq QueueKept.refl rfl rfl
    exact hdraw.trans (hwrite _ fun _ => ⟨rfl, fun h => h⟩) QueueKept.trans
  unfold periodicPeer
  dsimp only
  split
  · exact hwrite _ fun _ => ⟨rfl, fun h => by cases h⟩
  · split
    · exact hwrite _ fun _ => ⟨rfl, fun h => h⟩
    · split
      · have hdisconnect := hwrite n.peerContainer (f := fun p => { p with connected := false }) fun _ => ⟨rfl, fun h => h⟩
        exact hdisconnect.trans (hattempt (n.modify peer fun p => { p with connected := false })) QueueKept.trans
      · exact hattempt n

namespace SecurityLayer
variable {S : Sodium}

/-! ## What a step does to the queues -/

/-- The queues of the peers with their counter. -/
def queues (sl : SecurityLayer) : Queues PeerRef Bytes where
  queue peer := (sl.deref peer).packetQueue
  count := sl.queuedPackets

/-- The peer whose negotiation a step finishes. -/
def finishedPeer (out : List LayerOutput) : Option PeerRef :=
  out.findSome? fun o => match o with
    | .negotiated peer => some peer
    | _ => none

def finishAction (out : List LayerOutput) : Action PeerRef Bytes :=
  match finishedPeer out with
  | none => .idle
  | some peer => .flush peer

/-- A packet from above is sent, queued or dropped; a negotiation that is finished sends the queue. -/
def queueAction (sl : SecurityLayer) : SecurityEvent × List LayerOutput → Action PeerRef Bytes
  | (.upperLayerData target data, _) =>
    match sl.getOrCreatePeer target with
    | (_, none) => .idle
    | (looked, some peer) =>
      if (looked.deref peer).negotiated then .pass peer data
      else if looked.queuedPackets < MAX_QUEUED_PACKETS then .push peer data
      else .idle
  | (_, out) => finishAction out

/-- The calls of `doSendDataPacket` in a step. -/
def calls (sl : SecurityLayer) : Action PeerRef Bytes → List (PeerRef × Bytes)
  | .pass peer data => [(peer, data)]
  | .flush peer => (sl.deref peer).packetQueue.map (peer, ·)
  | .push _ _ | .idle => []

def sendAll (S : Sodium) (sl : SecurityLayer) : List (PeerRef × Bytes) → SecurityLayer × List LayerOutput
  | [] => (sl, [])
  | (peer, data) :: calls =>
    let (sl, out) := sl.doSendDataPacket S peer data
    let (sl, more) := sendAll S sl calls
    (sl, out ++ more)

def isData : LayerOutput → Bool
  | .toLower _ data => data.head? = some 0
  | _ => false

/-- The data packets among the outputs. -/
def dataPackets (out : List LayerOutput) : List LayerOutput := out.filter isData

/-- Neither a data packet nor the end of a negotiation. -/
def Bare (out : List LayerOutput) : Prop := dataPackets out = [] ∧ finishedPeer out = none

/-! ## Sending -/

section Sending
variable (sl : SecurityLayer) (peer : PeerRef)

theorem doSendDataPacket_count (data : Bytes) (k : ℤ) :
    { sl with queuedPackets := k }.doSendDataPacket S peer data =
      ({ (sl.doSendDataPacket S peer data).1 with queuedPackets := k }, (sl.doSendDataPacket S peer data).2) := by
  unfold doSendDataPacket
  split
  · rfl
  · split
    · rfl
    · split
      · rfl
      · rfl

theorem doSendDataPacket_frame (data : Bytes) :
    (sl.doSendDataPacket S peer data).1.peerContainer.heap = sl.peerContainer.heap ∧
      (sl.doSendDataPacket S peer data).1.peerContainer.identity = sl.peerContainer.identity ∧
      (sl.doSendDataPacket S peer data).1.queuedPackets = sl.queuedPackets := by
  unfold doSendDataPacket
  split
  · exact ⟨rfl, rfl, rfl⟩
  · split
    · exact ⟨rfl, rfl, rfl⟩
    · split
      · exact ⟨rfl, rfl, rfl⟩
      · exact ⟨rfl, rfl, rfl⟩

theorem sendAll_count (calls : List (PeerRef × Bytes)) (k : ℤ) :
    { sl with queuedPackets := k }.sendAll S calls =
      ({ (sl.sendAll S calls).1 with queuedPackets := k }, (sl.sendAll S calls).2) := by
  induction calls generalizing sl with
  | nil => rfl
  | cons call calls ih =>
    simp only [sendAll, doSendDataPacket_count, ih]

theorem sendAll_frame (calls : List (PeerRef × Bytes)) :
    (sl.sendAll S calls).1.peerContainer.heap = sl.peerContainer.heap ∧
      (sl.sendAll S calls).1.peerContainer.identity = sl.peerContainer.identity := by
  induction calls generalizing sl with
  | nil => exact ⟨rfl, rfl⟩
  | cons call calls ih =>
    obtain ⟨hheap, hidentity, -⟩ := doSendDataPacket_frame (S := S) sl call.1 call.2
    obtain ⟨hheap', hidentity'⟩ := ih (sl.doSendDataPacket S call.1 call.2).1
    exact ⟨hheap'.trans hheap, hidentity'.trans hidentity⟩

theorem sendAll_one (data : Bytes) : sl.sendAll S [(peer, data)] = sl.doSendDataPacket S peer data :=
  Prod.ext rfl (List.append_nil _)

/-- The loop of `finishNegotiation` is the calls, and the counter goes down by one for each. -/
theorem sendQueued_eq (packets : List Bytes) : sl.sendQueued S peer packets =
    ({ (sl.sendAll S (packets.map (peer, ·))).1 with queuedPackets := sl.queuedPackets - packets.length },
      (sl.sendAll S (packets.map (peer, ·))).2) := by
  induction packets generalizing sl with
  | nil =>
    have hcount : sl.queuedPackets - (([] : List Bytes).length : ℤ) = sl.queuedPackets := Int.sub_zero _
    rw [hcount]
    rfl
  | cons packet packets ih =>
    have hcount : sl.queuedPackets - 1 - (packets.length : ℤ) = sl.queuedPackets - ((packet :: packets).length : ℤ) := by
      rw [List.length_cons]
      omega
    simp only [sendQueued, doSendDataPacket_count, ih, sendAll_count, sendAll, List.map_cons, hcount]

theorem sendAll_data (calls : List (PeerRef × Bytes)) :
    dataPackets (sl.sendAll S calls).2 = (sl.sendAll S calls).2 ∧ finishedPeer (sl.sendAll S calls).2 = none := by
  have hone (sl : SecurityLayer) (peer : PeerRef) (data : Bytes) :
      dataPackets (sl.doSendDataPacket S peer data).2 = (sl.doSendDataPacket S peer data).2 ∧
        finishedPeer (sl.doSendDataPacket S peer data).2 = none := by
    unfold doSendDataPacket
    split
    · exact ⟨rfl, rfl⟩
    · split
      · exact ⟨rfl, rfl⟩
      · split
        · exact ⟨rfl, rfl⟩
        · exact ⟨rfl, rfl⟩
  induction calls generalizing sl with
  | nil => exact ⟨rfl, rfl⟩
  | cons call calls ih =>
    obtain ⟨hdata, hnone⟩ := hone sl call.1 call.2
    obtain ⟨hdata', hnone'⟩ := ih (sl.doSendDataPacket S call.1 call.2).1
    constructor
    · rw [sendAll, dataPackets, List.filter_append]
      exact congrArg₂ (· ++ ·) hdata hdata'
    · rw [sendAll, finishedPeer, List.findSome?_append]
      exact (congrArg₂ Option.or hnone hnone').trans rfl

end Sending

/-! ## Steps that leave the queues alone -/

structure QueuesKept (sl sl' : SecurityLayer) : Prop where
  peers : Kept QueueKept sl.peerContainer sl'.peerContainer
  count : sl'.queuedPackets = sl.queuedPackets

namespace QueuesKept

theorem refl (sl : SecurityLayer) : QueuesKept sl sl := ⟨Kept.of_heap_eq QueueKept.refl rfl rfl, rfl⟩

theorem trans {sl sl' sl'' : SecurityLayer} (h : QueuesKept sl sl') (h' : QueuesKept sl' sl'') : QueuesKept sl sl'' :=
  ⟨h.peers.trans h'.peers QueueKept.trans, h'.count.trans h.count⟩

theorem modify (sl : SecurityLayer) (peer : PeerRef) {f : Peer → Peer} (hf : ∀ p, QueueKept p (p.update f)) :
    QueuesKept sl (sl.modify peer f) := ⟨Kept.modify QueueKept.refl _ peer hf, rfl⟩

theorem getOrCreatePeer {sl sl' : SecurityLayer} {id : HusarnetAddress} {peer : Option PeerRef}
    (h : sl.getOrCreatePeer id = (sl', peer)) : QueuesKept sl sl' := by
  have hsl : (sl.getOrCreatePeer id).1 = sl' := congrArg Prod.fst h
  have hpeers : Kept QueueKept sl.peerContainer (sl.peerContainer.getOrCreatePeer id).1 :=
    Kept.getOrCreatePeer QueueKept.refl (fun _ _ _ => ⟨rfl, fun hn => hn⟩) sl.peerContainer id
  subst hsl
  exact ⟨hpeers, rfl⟩

theorem queues_eq {sl sl' : SecurityLayer} (h : QueuesKept sl sl') : sl'.queues = sl.queues := by
  have hqueue : (fun peer => (sl'.deref peer).packetQueue) = fun peer => (sl.deref peer).packetQueue :=
    funext fun peer => (h.peers.peer peer).packetQueue
  rw [queues, queues, hqueue, h.count]

end QueuesKept

/-- A session and packets that wait exclude each other. -/
def Drained (sl : SecurityLayer) : Prop := ∀ peer, (sl.deref peer).negotiated = true → (sl.deref peer).packetQueue = []

theorem QueuesKept.drained {sl sl' : SecurityLayer} (h : QueuesKept sl sl') (hd : Drained sl) : Drained sl' := by
  intro peer hn
  have hp : QueueKept (sl.deref peer) (sl'.deref peer) := h.peers.peer peer
  rw [hp.packetQueue]
  exact hd peer (hp.negotiated hn)

theorem bare_hello (sl : SecurityLayer) (peer : PeerRef) {num : UInt8} (hnum : IsHelloType num) (helloseq : UInt64) :
    Bare [sl.sendHelloPacket S peer num helloseq] := by
  obtain rfl | rfl | rfl := hnum
  · exact ⟨rfl, rfl⟩
  · exact ⟨rfl, rfl⟩
  · exact ⟨rfl, rfl⟩

/-! ## The ways a step can go -/

def enqueue (data : Bytes) (p : Peer) : Peer := { p with packetQueue := p.packetQueue ++ [data] }

/-- What a step does to the queues, and what it puts out. -/
inductive QueueEffect (S : Sodium) (sl : SecurityLayer) : Action PeerRef Bytes → List LayerOutput → SecurityLayer → Prop where
  | kept {sl' : SecurityLayer} {out : List LayerOutput} (h : QueuesKept sl sl') (hout : Bare out) :
      QueueEffect S sl .idle out sl'
  | sent {looked : SecurityLayer} (h : QueuesKept sl looked) {peer : PeerRef} (hn : (looked.deref peer).negotiated = true)
      (data : Bytes) : QueueEffect S sl (.pass peer data) (looked.doSendDataPacket S peer data).2
        (looked.doSendDataPacket S peer data).1
  | queued {looked : SecurityLayer} (h : QueuesKept sl looked) {peer : PeerRef} (ha : looked.peerContainer.Allocated peer)
      (hn : (looked.deref peer).negotiated = false) (hroom : looked.queuedPackets < MAX_QUEUED_PACKETS) (data : Bytes)
      {out : List LayerOutput} (hout : Bare out) : QueueEffect S sl (.push peer data) out
        { looked.modify peer (enqueue data) with queuedPackets := looked.queuedPackets + 1 }
  | finished {keyed : SecurityLayer} (h : QueuesKept sl keyed) {peer : PeerRef} (ha : keyed.peerContainer.Allocated peer)
      (helloseq : UInt64) {reply : List LayerOutput} (hreply : Bare reply) :
      QueueEffect S sl (.flush peer) (.wroteKeys peer :: (keyed.finishNegotiation S peer).2 ++ reply)
        { (keyed.finishNegotiation S peer).1 with helloseq := helloseq }

theorem onUpperLayerData_effect (sl : SecurityLayer) (target : HusarnetAddress) (data : Bytes) (out : List LayerOutput) :
    QueueEffect S sl (sl.queueAction (.upperLayerData target data, out)) (sl.onUpperLayerData S target data).2
      (sl.onUpperLayerData S target data).1 := by
  rw [onUpperLayerData, queueAction]
  generalize hg : sl.getOrCreatePeer target = r
  obtain ⟨looked, peer⟩ := r
  have hkept : QueuesKept sl looked := .getOrCreatePeer hg
  cases peer with
  | none => exact .kept hkept ⟨rfl, rfl⟩
  | some peer =>
    obtain ⟨-, p, hp, -⟩ := getOrCreatePeer_entry (S := S) hg
    have ha : looked.peerContainer.Allocated peer := (List.getElem?_eq_some_iff.mp hp).1
    dsimp only
    by_cases hn : (looked.deref peer).negotiated = true
    · rw [if_pos hn, if_pos hn]
      exact .sent hkept hn data
    · rw [if_neg hn, if_neg hn]
      have hhello (sl : SecurityLayer) := bare_hello (S := S) sl peer (Or.inl rfl) 0
      by_cases hroom : looked.queuedPackets < MAX_QUEUED_PACKETS
      · simp only [if_pos hroom]
        exact .queued hkept ha (by simpa using hn) hroom data (hhello _)
      · simp only [if_neg hroom]
        exact .kept hkept (hhello _)

theorem DataHandling.queues_kept {now : Time} {sl : SecurityLayer} {peerId : HusarnetAddress} {data : Bytes}
    {r : SecurityLayer × List LayerOutput} (h : DataHandling S now sl peerId data r) : QueuesKept sl r.1 ∧ Bare r.2 := by
  cases h with
  | short _ => exact ⟨.refl sl, rfl, rfl⟩
  | unknown sl' hg => exact ⟨.getOrCreatePeer hg, rfl, rfl⟩
  | early sl' peer hg _ => exact ⟨.getOrCreatePeer hg, bare_hello sl' peer (Or.inl rfl) 0⟩
  | large sl' peer hg _ => exact ⟨.getOrCreatePeer hg, rfl, rfl⟩
  | forged sl' peer hg _ _ =>
    have hlooked : QueuesKept sl sl' := .getOrCreatePeer hg
    exact ⟨⟨hlooked.peers, hlooked.count⟩, rfl, rfl⟩
  | opened sl' peer hg _ _ _ text _ =>
    have hlooked : QueuesKept sl sl' := .getOrCreatePeer hg
    have hwrite := QueuesKept.modify { sl' with decryptedBuffer := sl'.decryptedBuffer.overwrite text } peer
      (f := fun p => { p with lastValidPacket := now }) fun _ => ⟨rfl, fun h => h⟩
    exact ⟨⟨hlooked.peers.trans hwrite.peers QueueKept.trans, hwrite.count.trans hlooked.count⟩, rfl, rfl⟩

theorem Bare.finishAction_eq {out : List LayerOutput} (h : Bare out) : finishAction out = .idle := by
  rw [finishAction, h.2]

theorem QueueEffect.bare {sl sl' : SecurityLayer} {out : List LayerOutput} (h : QueuesKept sl sl') (hout : Bare out) :
    QueueEffect S sl (finishAction out) out sl' := by
  rw [hout.finishAction_eq]
  exact .kept h hout

theorem negotiate_effect {sl₀ sl : SecurityLayer} (h : QueuesKept sl₀ sl) (target : HusarnetAddress) {peer : PeerRef}
    (ha : sl.peerContainer.Allocated peer) (hello : HelloPacket) (helloNum : UInt8) :
    QueueEffect S sl₀ (finishAction (sl.negotiate S target peer hello helloNum).2)
      (sl.negotiate S target peer hello helloNum).2 (sl.negotiate S target peer hello helloNum).1 := by
  have hkeys (keys : FString 32 × FString 32) : QueuesKept sl₀ (sl.modify peer fun p =>
      { p with flags := ⟨hello.flags_bin⟩, rxKey := keys.1, txKey := keys.2 }) :=
    h.trans (.modify sl peer fun _ => ⟨rfl, fun hn => hn⟩)
  have hallocated (f : Peer → Peer) : (sl.modify peer f).peerContainer.Allocated peer :=
    (List.getElem?_eq_some_iff.mp (heap_modify_self ha.entry f)).1
  rw [negotiate]
  cases sl.sessionKeys S target peer hello.peerKxPubkey with
  | none => exact .bare (hkeys _) ⟨rfl, rfl⟩
  | some keys =>
    dsimp only
    generalize hk : sl.modify peer _ = keyed
    have hkept : QueuesKept sl₀ keyed := hk ▸ hkeys _
    have hreply (sl : SecurityLayer) :
        Bare (if helloNum = 2 then [sl.sendHelloPacket S peer 3 hello.yourHelloseq] else []) := by
      split
      · exact bare_hello sl peer (Or.inr (Or.inr rfl)) _
      · exact ⟨rfl, rfl⟩
    exact .finished hkept (hk ▸ hallocated _) _ (hreply _)

theorem acceptHello_effect {sl₀ sl : SecurityLayer} (h : QueuesKept sl₀ sl) (target : HusarnetAddress) {peer : PeerRef}
    (ha : sl.peerContainer.Allocated peer) (hello : HelloPacket) (helloNum : UInt8) :
    QueueEffect S sl₀ (finishAction (sl.acceptHello S target peer hello helloNum).2)
      (sl.acceptHello S target peer hello helloNum).2 (sl.acceptHello S target peer hello helloNum).1 := by
  unfold acceptHello
  split
  · exact .bare h ⟨rfl, rfl⟩
  · split
    · exact .bare h ⟨rfl, rfl⟩
    · split
      · exact .bare h (bare_hello sl peer (Or.inr (Or.inl rfl)) _)
      · split
        · exact .bare h ⟨rfl, rfl⟩
        · exact negotiate_effect h target ha hello helloNum

theorem handleHeartbeatReply_kept (now : Time) (sl : SecurityLayer) (source : HusarnetAddress) (ident : FString 8) :
    QueuesKept sl (sl.handleHeartbeatReply now source ident).1 ∧ Bare (sl.handleHeartbeatReply now source ident).2 := by
  unfold handleHeartbeatReply
  split
  · rename_i looked hg
    exact ⟨.getOrCreatePeer hg, rfl, rfl⟩
  · rename_i looked peer hg
    have hlooked : QueuesKept sl looked := .getOrCreatePeer hg
    split
    · exact ⟨hlooked.trans (.modify looked peer fun _ => ⟨rfl, fun hn => hn⟩), rfl, rfl⟩
    · exact ⟨hlooked, rfl, rfl⟩

theorem getLatency_kept (now : Time) (sl : SecurityLayer) (peerAddress : HusarnetAddress) :
    QueuesKept sl (sl.getLatency now peerAddress).1 ∧ Bare (sl.getLatency now peerAddress).2.1 := by
  unfold getLatency
  split
  · rename_i looked hg
    exact ⟨.getOrCreatePeer hg, rfl, rfl⟩
  · rename_i looked peer hg
    have hlooked : QueuesKept sl looked := .getOrCreatePeer hg
    have hdraw : QueuesKept looked { looked with peerContainer := looked.peerContainer.draw } :=
      ⟨Kept.of_heap_eq QueueKept.refl rfl rfl, rfl⟩
    have hwrite := QueuesKept.modify { looked with peerContainer := looked.peerContainer.draw } peer
      (f := fun p => { p with
        heartbeatIdent := looked.peerContainer.random.tape.ident looked.peerContainer.random.draws
        lastLatencySent := now }) fun _ => ⟨rfl, fun hn => hn⟩
    exact ⟨hlooked.trans (hdraw.trans hwrite), rfl, rfl⟩

theorem PacketHandling.queue_effect {now : Time} {sl : SecurityLayer} {peerAddress : HusarnetAddress} {data : Bytes}
    {r : SecurityLayer × List LayerOutput} (h : PacketHandling S now sl peerAddress data r) :
    QueueEffect S sl (finishAction r.2) r.2 r.1 := by
  cases h with
  | ignored => exact .bare (.refl sl) ⟨rfl, rfl⟩
  | dataPacket _ _ h => exact .bare h.queues_kept.1 h.queues_kept.2
  | unknown hg => exact .bare (.getOrCreatePeer hg) ⟨rfl, rfl⟩
  | hello _ hl hg =>
    obtain ⟨-, p, hp, -⟩ := getOrCreatePeer_entry (S := S) hg
    exact acceptHello_effect (.getOrCreatePeer hg) peerAddress (List.getElem?_eq_some_iff.mp hp).1 _ _
  | heartbeat _ => exact .bare (.refl sl) ⟨rfl, rfl⟩
  | heartbeatReply ident =>
    obtain ⟨hkept, hbare⟩ := handleHeartbeatReply_kept now sl peerAddress ident
    exact .bare hkept hbare

/-! ## Steps of a run -/

/-- A step of the layer, or one of the other code that spares the queues. -/
def QueueStep (S : Sodium) (sl : SecurityLayer) (e : SecurityEvent × List LayerOutput) (sl' : SecurityLayer) : Prop :=
  SecurityStep S sl e sl' ∧ ∀ c, e.1 = .shared c → Kept QueueKept sl.peerContainer c

theorem QueueStep.effect {sl sl' : SecurityLayer} {e : SecurityEvent × List LayerOutput} (h : QueueStep S sl e sl') :
    QueueEffect S sl (sl.queueAction e) e.2 sl' := by
  obtain ⟨hstep, hspared⟩ := h
  cases hstep with
  | lowerLayerData h => exact (PacketHandling.of_ok h).queue_effect
  | upperLayerData target data => exact onUpperLayerData_effect sl target data _
  | getLatency now peerAddress =>
    obtain ⟨hkept, hbare⟩ := getLatency_kept now sl peerAddress
    exact .bare hkept hbare
  | @shared c _ =>
    have hkept : QueuesKept sl (sl.withContainer c) := ⟨hspared c rfl, rfl⟩
    have hbare : Bare [] := ⟨rfl, rfl⟩
    exact .bare hkept hbare

/-- A negotiation that is finished empties the queue of its peer, and counts what was in it. -/
theorem finishNegotiation_eq (sl : SecurityLayer) (peer : PeerRef) :
    let sent := (sl.establish peer).sendAll S ((sl.deref peer).packetQueue.map (peer, ·))
    sl.finishNegotiation S peer =
      ({ sent.1.modify peer (fun p => { p with packetQueue := [] }) with
          queuedPackets := sl.queuedPackets - (sl.deref peer).packetQueue.length },
        .negotiated peer :: sent.2) := by
  have hqueue : ((sl.establish peer).deref peer).packetQueue = (sl.deref peer).packetQueue :=
    read_modify Peer.packetQueue sl.peerContainer peer (fun p => { p with negotiated := true }) (fun _ => rfl) peer
  intro sent
  rw [finishNegotiation]
  show ((((sl.establish peer).sendQueued S peer ((sl.establish peer).deref peer).packetQueue).1.modify peer
    fun p => { p with packetQueue := [] }), LayerOutput.negotiated peer ::
      ((sl.establish peer).sendQueued S peer ((sl.establish peer).deref peer).packetQueue).2) = _
  rw [hqueue, sendQueued_eq]
  rfl

/-- Behind a write to one peer that sets its queue the queues are as they were, but for that one. -/
theorem queues_modify {sl : SecurityLayer} {peer : PeerRef} (ha : sl.peerContainer.Allocated peer) (f : Peer → Peer) :
    (fun other => ((sl.modify peer f).deref other).packetQueue) =
      Function.update sl.queues.queue peer ((sl.deref peer).update f).packetQueue := by
  funext other
  by_cases ho : peer = other
  · subst ho
    rw [Function.update_self]
    exact congrArg Peer.packetQueue (deref_modify_self ha f)
  · rw [Function.update_of_ne (Ne.symm ho)]
    exact congrArg Peer.packetQueue (deref_modify_ne sl.peerContainer ho f)

theorem deref_of_heap_eq {sl sl' : SecurityLayer} (h : sl'.peerContainer.heap = sl.peerContainer.heap) (peer : PeerRef) :
    sl'.deref peer = sl.deref peer := by
  rw [deref, deref, PeerContainer.deref, PeerContainer.deref, h]

/-- The peers behind a negotiation that is finished. -/
theorem deref_finishNegotiation {sl : SecurityLayer} {peer : PeerRef} (ha : sl.peerContainer.Allocated peer)
    (other : PeerRef) : (sl.finishNegotiation S peer).1.deref other =
      if peer = other then { sl.deref peer with negotiated := true, packetQueue := [] } else sl.deref other := by
  rw [finishNegotiation_eq]
  generalize hs : (sl.establish peer).sendAll S ((sl.deref peer).packetQueue.map (peer, ·)) = sent
  have hheap : sent.1.peerContainer.heap = (sl.establish peer).peerContainer.heap := by
    rw [← hs]
    exact (sendAll_frame _ _).1
  have hset : (sl.establish peer).peerContainer.Allocated peer := (List.getElem?_eq_some_iff.mp (heap_modify_self ha.entry _)).1
  have hsent : sent.1.peerContainer.Allocated peer := by
    rw [PeerContainer.Allocated, hheap]
    exact hset
  show (sent.1.peerContainer.modify peer fun p => { p with packetQueue := [] }).deref other = _
  by_cases ho : peer = other
  · subst ho
    have hbefore : sent.1.peerContainer.deref peer = (sl.deref peer).update fun p => { p with negotiated := true } :=
      (deref_of_heap_eq hheap peer).trans (deref_modify_self ha _)
    rw [if_pos rfl, deref_modify_self hsent, hbefore]
    rfl
  · have hbefore : sent.1.peerContainer.deref other = sl.deref other :=
      (deref_of_heap_eq hheap other).trans (deref_modify_ne sl.peerContainer ho _)
    rw [if_neg ho, deref_modify_ne _ ho, hbefore]

theorem queues_doSendDataPacket (sl : SecurityLayer) (peer : PeerRef) (data : Bytes) :
    (sl.doSendDataPacket S peer data).1.queues = sl.queues := by
  obtain ⟨hheap, -, hcount⟩ := doSendDataPacket_frame (S := S) sl peer data
  rw [queues, queues, hcount]
  simp only [deref_of_heap_eq hheap]

/-- A finished negotiation empties one queue and takes its packets off the counter. -/
theorem queues_finishNegotiation {sl : SecurityLayer} {peer : PeerRef} (ha : sl.peerContainer.Allocated peer) :
    (sl.finishNegotiation S peer).1.queues =
      ⟨Function.update sl.queues.queue peer [], sl.queues.count - (sl.queues.queue peer).length⟩ := by
  have hpeers := deref_finishNegotiation (S := S) ha
  have hqueue : (fun other => ((sl.finishNegotiation S peer).1.deref other).packetQueue) =
      Function.update sl.queues.queue peer [] := by
    funext other
    rw [hpeers other]
    by_cases ho : peer = other
    · subst ho
      rw [if_pos rfl, Function.update_self]
    · rw [if_neg ho, Function.update_of_ne (Ne.symm ho)]
      rfl
  have hcount : (sl.finishNegotiation S peer).1.queuedPackets = sl.queues.count - (sl.queues.queue peer).length := by
    rw [finishNegotiation_eq]
    rfl
  exact congrArg₂ Queues.mk hqueue hcount

theorem QueueEffect.step {sl sl' : SecurityLayer} {action : Action PeerRef Bytes} {out : List LayerOutput}
    (h : QueueEffect S sl action out sl') (hd : Drained sl) : Step MAX_QUEUED_PACKETS sl.queues action sl'.queues := by
  cases h with
  | kept h _ =>
    rw [h.queues_eq]
    exact .idle
  | @sent looked h peer hn data =>
    rw [queues_doSendDataPacket, h.queues_eq]
    refine .pass peer data ?_
    rw [← h.queues_eq]
    exact h.drained hd peer hn
  | @queued looked h peer ha hn hroom data _ _ =>
    rw [← h.queues_eq]
    have hpush : Step MAX_QUEUED_PACKETS looked.queues (.push peer data) _ := .push peer data hroom
    have hqueues := queues_modify ha (enqueue data)
    have hsame : SecurityLayer.queues { looked.modify peer (enqueue data) with queuedPackets := looked.queuedPackets + 1 } =
        ⟨Function.update looked.queues.queue peer (looked.queues.queue peer ++ [data]), looked.queues.count + 1⟩ :=
      congrArg (Queues.mk · _) hqueues
    rw [hsame]
    exact hpush
  | @finished keyed h peer ha helloseq _ _ =>
    rw [← h.queues_eq]
    -- the number for the next hello is no part of the queues
    have hsame : SecurityLayer.queues { (keyed.finishNegotiation S peer).1 with helloseq := helloseq } =
        ⟨Function.update keyed.queues.queue peer [], keyed.queues.count - (keyed.queues.queue peer).length⟩ :=
      queues_finishNegotiation ha
    rw [hsame]
    exact .flush peer

theorem QueueEffect.drained {sl sl' : SecurityLayer} {action : Action PeerRef Bytes} {out : List LayerOutput}
    (h : QueueEffect S sl action out sl') (hd : Drained sl) : Drained sl' := by
  cases h with
  | kept h _ => exact h.drained hd
  | @sent looked h peer hn data =>
    intro other hother
    rw [deref_of_heap_eq (doSendDataPacket_frame (S := S) looked peer data).1] at hother ⊢
    exact h.drained hd other hother
  | @queued looked h peer ha hn hroom data _ _ =>
    intro other hother
    have hlooked := h.drained hd other
    by_cases ho : peer = other
    · subst ho
      have hsame : (looked.modify peer (enqueue data)).deref peer = (looked.deref peer).update (enqueue data) :=
        deref_modify_self ha _
      have hset : (looked.deref peer).negotiated = true := (congrArg Peer.negotiated hsame).symm.trans hother
      rw [hn] at hset
      cases hset
    · have hsame : (looked.modify peer (enqueue data)).deref other = looked.deref other :=
        deref_modify_ne looked.peerContainer ho _
      have hset : (looked.deref other).negotiated = true := (congrArg Peer.negotiated hsame).symm.trans hother
      exact (congrArg Peer.packetQueue hsame).trans (hlooked hset)
  | @finished keyed h peer ha helloseq _ _ =>
    intro other hother
    have hpeer := deref_finishNegotiation (S := S) ha other
    show ((keyed.finishNegotiation S peer).1.deref other).packetQueue = []
    have hother : ((keyed.finishNegotiation S peer).1.deref other).negotiated = true := hother
    rw [hpeer] at hother ⊢
    split at hother
    · rw [if_pos ‹_›]
    · rw [if_neg ‹_›]
      exact h.drained hd other hother

theorem not_negotiated_of_none {out : List LayerOutput} (h : finishedPeer out = none) (peer : PeerRef) :
    .negotiated peer ∉ out := by
  intro hmem
  have hnone := List.findSome?_eq_none_iff.mp h _ hmem
  cases hnone

theorem QueueEffect.finishes_iff {sl sl' : SecurityLayer} {action : Action PeerRef Bytes} {out : List LayerOutput}
    (h : QueueEffect S sl action out sl') (peer : PeerRef) : .negotiated peer ∈ out ↔ action = .flush peer := by
  have hnever {out : List LayerOutput} {action : Action PeerRef Bytes} (hout : finishedPeer out = none)
      (ha : ∀ peer, action ≠ .flush peer) : .negotiated peer ∈ out ↔ action = .flush peer :=
    iff_of_false (not_negotiated_of_none hout peer) (ha peer)
  cases h with
  | kept _ hout => exact hnever hout.2 (by simp)
  | @sent looked _ peer' _ data =>
    have hsent := (sendAll_data (S := S) looked [(peer', data)]).2
    rw [sendAll_one] at hsent
    exact hnever hsent (by simp)
  | queued _ _ _ _ _ hout => exact hnever hout.2 (by simp)
  | @finished keyed _ peer' _ _ reply hreply =>
    have hsent := not_negotiated_of_none
      (sendAll_data (S := S) (keyed.establish peer') ((keyed.deref peer').packetQueue.map (peer', ·))).2 peer
    have hrest := not_negotiated_of_none hreply.2 peer
    rw [finishNegotiation_eq]
    simp only [List.cons_append, List.mem_cons, List.mem_append, hsent, hrest, or_false, reduceCtorEq, false_or,
      LayerOutput.negotiated.injEq, Action.flush.injEq]
    exact eq_comm

/-- **The data packets of a step** are those that its calls make, under the keys of the session. -/
theorem QueueEffect.sealed {sl sl' : SecurityLayer} {action : Action PeerRef Bytes} {out : List LayerOutput}
    (h : QueueEffect S sl action out sl') : ∃ sl₁ : SecurityLayer,
      (∀ call ∈ sl.calls action, (sl₁.deref call.1).txKey = (sl'.deref call.1).txKey) ∧
        dataPackets out = (sl₁.sendAll S (sl.calls action)).2 := by
  cases h with
  | kept _ hout => exact ⟨sl, List.forall_mem_nil _, hout.1⟩
  | @sent looked _ peer _ data =>
    have hdata := (sendAll_data (S := S) looked [(peer, data)]).1
    refine ⟨looked, List.forall_mem_singleton.mpr ?_, ?_⟩
    · rw [deref_of_heap_eq (doSendDataPacket_frame (S := S) looked peer data).1]
    · rw [calls, ← hdata, sendAll_one]
  | queued _ _ _ _ _ hout => exact ⟨sl, List.forall_mem_nil _, hout.1⟩
  | @finished keyed h peer ha _ reply hreply =>
    have hqueue : (sl.deref peer).packetQueue = (keyed.deref peer).packetQueue := (h.peers.peer peer).packetQueue.symm
    have hdata := (sendAll_data (S := S) (keyed.establish peer) ((keyed.deref peer).packetQueue.map (peer, ·))).1
    refine ⟨keyed.establish peer, fun call hcall => ?_, ?_⟩
    · obtain ⟨packet, -, rfl⟩ := List.mem_map.mp hcall
      have hset : (keyed.establish peer).deref peer = (keyed.deref peer).update fun p => { p with negotiated := true } :=
        deref_modify_self ha _
      show ((keyed.establish peer).deref peer).txKey = ((keyed.finishNegotiation S peer).1.deref peer).txKey
      rw [hset, deref_finishNegotiation ha, if_pos rfl]
      rfl
    · rw [calls, hqueue, finishNegotiation_eq]
      show dataPackets (.wroteKeys peer :: .negotiated peer :: (_ ++ reply)) = _
      rw [dataPackets, List.filter_cons_of_neg (by simp [isData]), List.filter_cons_of_neg (by simp [isData]),
        List.filter_append]
      have hnone : reply.filter isData = [] := hreply.1
      rw [hnone, List.append_nil]
      exact hdata

end SecurityLayer
end Husarnet
