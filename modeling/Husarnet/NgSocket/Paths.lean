import Husarnet.NgSocket.SocketEffects

/-! # The calls that write paths

What an attempt to reach a peer writes, and what the reply to its hello.
-/

namespace Husarnet
open Octets Containers PeerContainer Runs
set_option autoImplicit false

namespace Node
variable (S : Sodium) (now : Time)

/-! ## An attempt -/

/-- Only hellos were sent, and none of them into the tunnel. -/
def SentHellos (n n' : Node) : Prop :=
  ∃ added records, n' = { n with sent := n.sent ++ added, calls := n.calls ++ records } ∧
    (∀ t ∈ added, ∃ dest data, t = .udp dest data) ∧
      ∀ r ∈ records, ∃ dest msg, r = .sentToPeer dest msg ∧ dest.ip.isFC94 = false

theorem SentHellos.refl (n : Node) : SentHellos n n :=
  ⟨[], [], by simp, List.forall_mem_nil _, List.forall_mem_nil _⟩

theorem SentHellos.trans {n n' n'' : Node} (h : SentHellos n n') (h' : SentHellos n' n'') : SentHellos n n'' := by
  obtain ⟨added, records, rfl, ht, hr⟩ := h
  obtain ⟨added', records', rfl, ht', hr'⟩ := h'
  refine ⟨added ++ added', records ++ records', ?_, List.forall_mem_append.mpr ⟨ht, ht'⟩,
    List.forall_mem_append.mpr ⟨hr, hr'⟩⟩
  simp only [List.append_assoc]

theorem sendHelloTo_sent (peer : PeerRef) (n : Node) (address : InetAddress) :
    SentHellos n (sendHelloTo S peer n address) := by
  unfold sendHelloTo
  split
  · exact .refl n
  · rename_i hout
    have hsend (n : Node) (msg : PeerToPeerMessage) : SentHellos n (n.sendToPeer S address msg) :=
      ⟨[_], [_], rfl, List.forall_mem_singleton.mpr ⟨_, _, rfl⟩,
        List.forall_mem_singleton.mpr ⟨address, msg, rfl, by simpa using hout⟩⟩
    dsimp only
    split
    · exact (hsend n _).trans (hsend _ _)
    · exact hsend n _

theorem sendHellos_sent (peer : PeerRef) (n : Node) (addresses : List InetAddress) :
    SentHellos n (addresses.foldl (sendHelloTo S peer) n) := by
  induction addresses generalizing n with
  | nil => exact .refl n
  | cons address addresses ih => exact (sendHelloTo_sent S peer n address).trans (ih _)

def attempted (helloCookie : Bytes) (p : Peer) : Peer :=
  { p with
    failedEstablishments := p.failedEstablishments + 1
    lastReestablish := now
    reestablishing := true
    helloCookie := helloCookie }

/-- An attempt draws a cookie, writes to its peer and sends. -/
theorem attemptReestablish_sent (n : Node) (peer : PeerRef) :
    SentHellos (n.withContainer (n.peerContainer.draw.modify peer (attempted now n.nextCookie)))
      (n.attemptReestablish S now peer) := sendHellos_sent S peer _ _

theorem attemptReestablish_frame (n : Node) (peer : PeerRef) :
    (n.attemptReestablish S now peer).peerContainer = n.peerContainer.draw.modify peer (attempted now n.nextCookie) ∧
      (n.attemptReestablish S now peer).peerSourceAddresses = n.peerSourceAddresses ∧
      (n.attemptReestablish S now peer).workerQueue = n.workerQueue := by
  obtain ⟨added, records, hn, -, -⟩ := attemptReestablish_sent S now n peer
  rw [hn]
  exact ⟨rfl, rfl, rfl⟩

/-- Behind an attempt its peer is sought with the new cookie, and no other peer has changed. -/
theorem deref_attemptReestablish (n : Node) {peer : PeerRef} (h : n.peerContainer.Allocated peer) (other : PeerRef) :
    (n.attemptReestablish S now peer).deref other =
      if peer = other then (n.deref peer).update (attempted now n.nextCookie) else n.deref other := by
  rw [deref, (attemptReestablish_frame S now n peer).1]
  by_cases ho : peer = other
  · subst ho
    rw [if_pos rfl]
    exact deref_modify_self (c := n.peerContainer.draw) h _
  · rw [if_neg ho]
    exact deref_modify_ne _ ho _

theorem attemptReestablish_timers (n : Node) (peer : PeerRef) :
    Kept TimersKept n.peerContainer (n.attemptReestablish S now peer).peerContainer := by
  rw [(attemptReestablish_frame S now n peer).1]
  have hdraw : Kept TimersKept n.peerContainer n.peerContainer.draw := (PeersKept.draw _).timers
  exact hdraw.trans (Kept.modify TimersKept.refl _ peer fun _ => ⟨rfl, rfl, fun h => h⟩) TimersKept.trans

/-! ## A reply -/

/-- The reply is for this node, from a peer that it is trying to reach, and has the cookie of the attempt. -/
structure Accepts (n : Node) (myId yourId : HusarnetAddress) (helloCookie : Bytes) (peer : PeerRef) : Prop where
  own : yourId = n.myIdentity.deviceId
  found : (n.getPeer myId).2 = some peer
  reestablishing : (n.deref peer).reestablishing = true
  cookie : (n.deref peer).helloCookie = helloCookie

def reached (source : InetAddress) (p : Peer) : Peer :=
  { p with
    targetAddress := source
    connected := true
    failedEstablishments := 0
    reestablishing := false }

theorem deref_getPeer (n : Node) (id : HusarnetAddress) (peer : PeerRef) : (n.getPeer id).1.deref peer = n.deref peer := by
  have hheap : (n.peerContainer.getPeer id).1.heap = n.peerContainer.heap := (getPeer_frame n.peerContainer id).2.2.2.1
  show (n.peerContainer.getPeer id).1.deref peer = n.peerContainer.deref peer
  rw [PeerContainer.deref, PeerContainer.deref, hheap]

/-- The ways `helloReplyReceived` can go. -/
inductive ReplyHandling (n : Node) (source : InetAddress) (myId yourId : HusarnetAddress) (helloCookie : Bytes) :
    Node → Prop where
  | foreign (h : yourId ≠ n.myIdentity.deviceId) : ReplyHandling n source myId yourId helloCookie n
  | ignored (h : ∀ peer, ¬ n.Accepts myId yourId helloCookie peer) :
      ReplyHandling n source myId yourId helloCookie (n.getPeer myId).1
  | accepted (peer : PeerRef) (h : n.Accepts myId yourId helloCookie peer) :
      ReplyHandling n source myId yourId helloCookie ((n.getPeer myId).1.modify peer (reached source))

theorem helloReplyReceived_handling (n : Node) (source : InetAddress) (myId yourId : HusarnetAddress)
    (helloCookie : Bytes) :
    ReplyHandling n source myId yourId helloCookie (n.helloReplyReceived source myId yourId helloCookie) := by
  have hderef := deref_getPeer n myId
  unfold helloReplyReceived
  split
  · rename_i hown
    exact .foreign hown
  · rename_i hown
    split
    · rename_i n' hg
      have hn : (n.getPeer myId).1 = n' := congrArg Prod.fst hg
      refine hn ▸ .ignored fun peer h => ?_
      have hfound := h.found
      rw [hg] at hfound
      cases hfound
    · rename_i n' peer hg
      have hn : (n.getPeer myId).1 = n' := congrArg Prod.fst hg
      have hp : (n.getPeer myId).2 = some peer := congrArg Prod.snd hg
      subst hn
      have hsame {peer' : PeerRef} (h : n.Accepts myId yourId helloCookie peer') : peer' = peer :=
        Option.some.inj (h.found.symm.trans hp)
      rw [hderef peer]
      split
      · rename_i hr
        refine .ignored fun peer' h => ?_
        have hset := hsame h ▸ h.reestablishing
        rw [hset] at hr
        cases hr
      · rename_i hr
        split
        · rename_i hc
          exact .ignored fun peer' h => hc (hsame h ▸ h.cookie)
        · rename_i hc
          exact .accepted peer ⟨not_not.mp hown, hp, by simpa using hr, not_not.mp hc⟩

theorem helloReplyReceived_timers (n : Node) (source : InetAddress) (myId yourId : HusarnetAddress)
    (helloCookie : Bytes) :
    Kept TimersKept n.peerContainer (n.helloReplyReceived source myId yourId helloCookie).peerContainer := by
  have hget : Kept TimersKept n.peerContainer (n.getPeer myId).1.peerContainer := (PeersKept.getPeer _ myId).timers
  have h := helloReplyReceived_handling n source myId yourId helloCookie
  generalize n.helloReplyReceived source myId yourId helloCookie = n' at h ⊢
  cases h with
  | foreign _ => exact (PeersKept.refl _).timers
  | ignored _ => exact hget
  | accepted peer _ =>
    exact hget.trans (Kept.modify TimersKept.refl _ peer fun _ => ⟨rfl, rfl, fun h => h⟩) TimersKept.trans

/-- The peers, and what the layers above know of them, have changed, and nothing else of the node. -/
def OnlyPeers (n n' : Node) : Prop :=
  ∃ securityLayer peerSourceAddresses, n' = { n with
    securityLayer := securityLayer, peerSourceAddresses := peerSourceAddresses }

theorem OnlyPeers.trans {n n' n'' : Node} (h : OnlyPeers n n') (h' : OnlyPeers n' n'') : OnlyPeers n n'' := by
  obtain ⟨sl, index, rfl⟩ := h
  obtain ⟨sl', index', rfl⟩ := h'
  exact ⟨sl', index', rfl⟩

theorem helloReplyReceived_onlyPeers (n : Node) (source : InetAddress) (myId yourId : HusarnetAddress)
    (helloCookie : Bytes) : OnlyPeers n (n.helloReplyReceived source myId yourId helloCookie) := by
  have h := helloReplyReceived_handling n source myId yourId helloCookie
  generalize n.helloReplyReceived source myId yourId helloCookie = n' at h ⊢
  cases h with
  | foreign _ => exact ⟨_, _, rfl⟩
  | ignored _ => exact ⟨_, _, rfl⟩
  | accepted _ _ => exact ⟨_, _, rfl⟩

theorem helloReplyReceived_workerQueue (n : Node) (source : InetAddress) (myId yourId : HusarnetAddress)
    (helloCookie : Bytes) : (n.helloReplyReceived source myId yourId helloCookie).workerQueue = n.workerQueue := by
  obtain ⟨sl, index, hn⟩ := helloReplyReceived_onlyPeers n source myId yourId helloCookie
  rw [hn]

/-! ## A source address -/

def sources (n : Node) (peer : PeerRef) : List InetAddress := (n.deref peer).sourceAddresses

def setSources (n : Node) (peer : PeerRef) (f : List InetAddress → List InetAddress) : Node :=
  n.modify peer fun p => { p with sourceAddresses := f p.sourceAddresses }

theorem allocated_setSources {n : Node} {ref : PeerRef} (ha : n.peerContainer.Allocated ref) (peer : PeerRef)
    (f : List InetAddress → List InetAddress) : (n.setSources peer f).peerContainer.Allocated ref :=
  lt_of_lt_of_eq ha (List.length_modify ..).symm

/-- `addSourceAddress` up to the eviction. -/
def makeRoom (n : Node) (peer : PeerRef) : Node :=
  if (n.sources peer).length ≥ MAX_SOURCE_ADDRESSES then n.removeRandomSourceAddress peer else n

/-- `addSourceAddress` behind the eviction. -/
def insertSourceAddress (n : Node) (peer : PeerRef) (source : InetAddress) : Node :=
  let n := n.setSources peer fun addresses => addresses ++ [source]
  let n :=
    match get? n.peerSourceAddresses source with
    | some lastPeer => n.setSources lastPeer fun addresses => addresses.erase source
    | none => n
  { n with peerSourceAddresses := assign n.peerSourceAddresses source peer }

theorem addSourceAddress_eq (n : Node) (peer : PeerRef) (source : InetAddress) :
    n.addSourceAddress peer source =
      if source ∈ n.sources peer then n else (n.makeRoom peer).insertSourceAddress peer source := rfl

/-- Of the peer only the addresses it was heard from have changed. -/
structure SourcesOnly (p p' : Peer) : Prop extends TargetKept p p', TimersKept p p'

/-- What the note of a source address leaves alone: the queue of the worker, and of the peers all else. -/
structure TargetsFrame (n n' : Node) : Prop where
  workerQueue : n'.workerQueue = n.workerQueue
  sources : Kept SourcesOnly n.peerContainer n'.peerContainer

namespace TargetsFrame

theorem note {n n' : Node} (hi : n'.peerContainer.identity = n.peerContainer.identity)
    (hh : n'.peerContainer.heap = n.peerContainer.heap) (hq : n'.workerQueue = n.workerQueue) : TargetsFrame n n' :=
  ⟨hq, Kept.of_heap_eq (fun p => ⟨.refl p, .refl p⟩) hi hh⟩

theorem trans {n n' n'' : Node} (h : TargetsFrame n n') (h' : TargetsFrame n' n'') : TargetsFrame n n'' :=
  ⟨h'.workerQueue.trans h.workerQueue, h.sources.trans h'.sources fun hp hq =>
    ⟨hp.toTargetKept.trans hq.toTargetKept, hp.toTimersKept.trans hq.toTimersKept⟩⟩

theorem targets {n n' : Node} (h : TargetsFrame n n') : TargetsKept n.peerContainer n'.peerContainer :=
  h.sources.mono SourcesOnly.toTargetKept

theorem timers {n n' : Node} (h : TargetsFrame n n') : Kept TimersKept n.peerContainer n'.peerContainer :=
  h.sources.mono SourcesOnly.toTimersKept

theorem setSources (n : Node) (peer : PeerRef) (f : List InetAddress → List InetAddress) :
    TargetsFrame n (n.setSources peer f) :=
  ⟨rfl, Kept.modify (fun p => ⟨.refl p, .refl p⟩) _ peer
    fun _ => ⟨⟨rfl, rfl, rfl, rfl, rfl, fun h => h⟩, ⟨rfl, rfl, fun h => h⟩⟩⟩

theorem makeRoom (n : Node) (peer : PeerRef) : TargetsFrame n (n.makeRoom peer) := by
  rw [Node.makeRoom]
  split
  · have hdraw : TargetsFrame n (n.withContainer n.peerContainer.draw) := .note rfl rfl rfl
    have herase (n : Node) (address : InetAddress) : TargetsFrame n (n.removeSourceAddress peer address) :=
      (setSources n peer fun addresses => addresses.erase address).trans (.note rfl rfl rfl)
    exact hdraw.trans (herase _ _)
  · exact .note rfl rfl rfl

theorem insertSourceAddress (n : Node) (peer : PeerRef) (source : InetAddress) :
    TargetsFrame n (n.insertSourceAddress peer source) := by
  have hadd := setSources n peer fun addresses => addresses ++ [source]
  have herase (n : Node) (lastPeer : PeerRef) : TargetsFrame n
      { n.setSources lastPeer fun addresses => addresses.erase source with
        peerSourceAddresses := assign n.peerSourceAddresses source peer } :=
    (setSources n lastPeer fun addresses => addresses.erase source).trans (.note rfl rfl rfl)
  unfold Node.insertSourceAddress
  dsimp only
  split
  · rename_i lastPeer _
    exact hadd.trans (herase _ lastPeer)
  · exact hadd.trans (.note rfl rfl rfl)

end TargetsFrame

theorem addSourceAddress_onlyPeers (n : Node) (peer : PeerRef) (source : InetAddress) :
    OnlyPeers n (n.addSourceAddress peer source) := by
  have hroom (n : Node) : OnlyPeers n (n.makeRoom peer) := by
    rw [makeRoom]
    split
    · exact ⟨_, _, rfl⟩
    · exact ⟨_, _, rfl⟩
  have hinsert (n : Node) : OnlyPeers n (n.insertSourceAddress peer source) := by
    unfold insertSourceAddress
    dsimp only
    split
    · exact ⟨_, _, rfl⟩
    · exact ⟨_, _, rfl⟩
  rw [addSourceAddress_eq]
  split
  · exact ⟨_, _, rfl⟩
  · exact (hroom n).trans (hinsert _)

theorem addSourceAddress_targets (n : Node) (peer : PeerRef) (source : InetAddress) :
    TargetsFrame n (n.addSourceAddress peer source) := by
  rw [addSourceAddress_eq]
  split
  · exact .note rfl rfl rfl
  · exact (TargetsFrame.makeRoom n peer).trans (.insertSourceAddress _ peer source)

end Node
end Husarnet
