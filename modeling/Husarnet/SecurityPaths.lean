import Husarnet.PeerPaths
import Husarnet.SecurityEffects

/-! # The security layer and the paths

The security layer writes keys, flags, times and queues of packets to the peers it shares with the
socket layer. It reads and writes no path, it ends no session, and of the times that the socket
layer reads it writes one, that of the last valid packet, when it opens a packet.
-/

namespace Husarnet
open Octets Containers PeerContainer
set_option autoImplicit false

namespace SecurityLayer
variable {S : Sodium}

def PeersKept (sl sl' : SecurityLayer) : Prop := sl.peerContainer.PeersKept sl'.peerContainer

namespace PeersKept

theorem refl (sl : SecurityLayer) : PeersKept sl sl := PeerContainer.PeersKept.refl _

theorem trans {sl sl' sl'' : SecurityLayer} (h : PeersKept sl sl') (h' : PeersKept sl' sl'') : PeersKept sl sl'' :=
  PeerContainer.PeersKept.trans h h'

theorem modify (sl : SecurityLayer) (peer : PeerRef) {f : Peer → Peer} (hf : KeepsPeer f) :
    PeersKept sl (sl.modify peer f) := PeerContainer.PeersKept.modify _ peer hf

theorem getOrCreatePeer {sl sl' : SecurityLayer} {id : HusarnetAddress} {peer : Option PeerRef}
    (h : sl.getOrCreatePeer id = (sl', peer)) : PeersKept sl sl' := by
  have hsl : (sl.getOrCreatePeer id).1 = sl' := congrArg Prod.fst h
  exact hsl ▸ PeerContainer.PeersKept.getOrCreatePeer _ id

end PeersKept

theorem doSendDataPacket_peers (sl : SecurityLayer) (peer : PeerRef) (data : Bytes) :
    PeersKept sl (sl.doSendDataPacket S peer data).1 := by
  unfold doSendDataPacket
  split
  · exact .refl sl
  · split
    · exact .refl sl
    · split
      · exact .refl sl
      · exact PeerContainer.PeersKept.draw _

theorem sendQueued_peers (sl : SecurityLayer) (peer : PeerRef) (packets : List Bytes) :
    PeersKept sl (sl.sendQueued S peer packets).1 := by
  induction packets generalizing sl with
  | nil => exact .refl sl
  | cons packet packets ih =>
    have hcount : PeersKept sl { sl with queuedPackets := sl.queuedPackets - 1 } := PeerContainer.PeersKept.refl _
    exact (hcount.trans (doSendDataPacket_peers _ peer packet)).trans (ih _)

/-- Behind the write that establishes the session. -/
theorem finishNegotiation_rest (sl : SecurityLayer) (peer : PeerRef) :
    PeersKept (sl.establish peer) (sl.finishNegotiation S peer).1 := by
  have hclear (sl : SecurityLayer) : PeersKept sl (sl.modify peer fun p => { p with packetQueue := [] }) :=
    .modify sl peer fun _ => ⟨⟨⟨rfl, rfl, rfl, rfl, rfl, fun h => h⟩, rfl⟩, ⟨rfl, rfl, fun h => h⟩⟩
  exact (sendQueued_peers _ peer _).trans (hclear _)

theorem finishNegotiation_peers (sl : SecurityLayer) (peer : PeerRef) :
    PeersKept sl (sl.finishNegotiation S peer).1 := by
  have hstart : PeersKept sl (sl.establish peer) :=
    .modify sl peer fun _ => ⟨⟨⟨rfl, rfl, rfl, rfl, rfl, fun h => h⟩, rfl⟩, ⟨rfl, rfl, fun _ => rfl⟩⟩
  exact hstart.trans (finishNegotiation_rest sl peer)

theorem finishNegotiation_negotiated (sl : SecurityLayer) {peer : PeerRef} (ha : sl.peerContainer.Allocated peer) :
    ((sl.finishNegotiation S peer).1.deref peer).negotiated = true := by
  have hset : ((sl.establish peer).deref peer).negotiated = true := congrArg Peer.negotiated (deref_modify_self ha _)
  exact ((finishNegotiation_rest sl peer).peer peer).negotiated hset

theorem onUpperLayerData_peers (sl : SecurityLayer) (target : HusarnetAddress) (data : Bytes) :
    PeersKept sl (sl.onUpperLayerData S target data).1 := by
  unfold onUpperLayerData
  split
  · rename_i sl' hg
    exact .getOrCreatePeer hg
  · rename_i sl' peer hg
    have hget := PeersKept.getOrCreatePeer hg
    split
    · exact hget.trans (doSendDataPacket_peers sl' peer data)
    · split
      · have hqueue : PeersKept sl' (sl'.modify peer fun p => { p with packetQueue := p.packetQueue ++ [data] }) :=
          .modify sl' peer fun _ => ⟨⟨⟨rfl, rfl, rfl, rfl, rfl, fun h => h⟩, rfl⟩, ⟨rfl, rfl, fun h => h⟩⟩
        exact hget.trans hqueue
      · exact hget

/-- What a packet from below changes: with data to hand up the time of the last valid packet is written. -/
inductive PeersAfter (now : Time) (sl : SecurityLayer) (peerAddress : HusarnetAddress) :
    SecurityLayer × List LayerOutput → Prop where
  | kept {r : SecurityLayer × List LayerOutput} (h : PeersKept sl r.1)
      (hout : ∀ source data, .toUpper source data ∉ r.2) : PeersAfter now sl peerAddress r
  | opened {sl' : SecurityLayer} {peer : PeerRef} (h : PeersKept sl sl')
      (hp : (sl.getOrCreatePeer peerAddress).2 = some peer) (ha : sl'.peerContainer.Allocated peer) (data : Bytes) :
      PeersAfter now sl peerAddress
        (sl'.modify peer fun p => { p with lastValidPacket := now }, [.toUpper peerAddress data])

theorem DataHandling.peers {now : Time} {sl : SecurityLayer} {peerId : HusarnetAddress} {data : Bytes}
    {r : SecurityLayer × List LayerOutput} (h : DataHandling S now sl peerId data r) : PeersAfter now sl peerId r := by
  cases h with
  | short _ => exact .kept (.refl sl) (by simp)
  | unknown sl' hg => exact .kept (.getOrCreatePeer hg) (by simp)
  | early sl' peer hg _ => exact .kept (.getOrCreatePeer hg) (by simp [sendHelloPacket])
  | large sl' peer hg _ => exact .kept (.getOrCreatePeer hg) (by simp)
  | forged sl' peer hg _ _ =>
    have hget : PeersKept sl sl' := .getOrCreatePeer hg
    exact .kept hget (by simp)
  | opened sl' peer hg _ _ _ text _ =>
    have hget : PeersKept sl sl' := .getOrCreatePeer hg
    have hbuffer : PeersKept sl { sl' with decryptedBuffer := sl'.decryptedBuffer.overwrite text } := hget
    obtain ⟨-, p, hp, -⟩ := getOrCreatePeer_entry (S := S) hg
    exact .opened hbuffer (congrArg Prod.snd hg) (List.getElem?_eq_some_iff.mp hp).1 _

theorem negotiate_peers (sl : SecurityLayer) (target : HusarnetAddress) (peer : PeerRef) (hello : HelloPacket)
    (helloNum : UInt8) : PeersKept sl (sl.negotiate S target peer hello helloNum).1 := by
  have hkeys (flags : PeerFlags) (rxKey txKey : FString 32) :
      PeersKept sl (sl.modify peer fun p => { p with flags := flags, rxKey := rxKey, txKey := txKey }) :=
    .modify sl peer fun _ => ⟨⟨⟨rfl, rfl, rfl, rfl, rfl, fun h => h⟩, rfl⟩, ⟨rfl, rfl, fun h => h⟩⟩
  unfold negotiate
  dsimp only
  split
  · exact hkeys _ _ _
  · exact (hkeys _ _ _).trans (finishNegotiation_peers _ peer)

theorem acceptHello_peers (sl : SecurityLayer) (target : HusarnetAddress) (peer : PeerRef) (hello : HelloPacket)
    (helloNum : UInt8) : PeersKept sl (sl.acceptHello S target peer hello helloNum).1 := by
  unfold acceptHello
  split
  · exact .refl sl
  · split
    · exact .refl sl
    · split
      · exact .refl sl
      · split
        · exact .refl sl
        · exact negotiate_peers sl target peer hello helloNum

/-- A peer whose negotiation was finished has a session. -/
theorem negotiate_negotiated {sl : SecurityLayer} {target : HusarnetAddress} {peer peer' : PeerRef} {p : Peer}
    {hello : HelloPacket} {helloNum : UInt8} (hp : sl.peerContainer.heap[peer]? = some p)
    (h : .negotiated peer' ∈ (sl.negotiate S target peer hello helloNum).2) :
    ((sl.negotiate S target peer hello helloNum).1.deref peer').negotiated = true := by
  cases hkeys : sl.sessionKeys S target peer hello.peerKxPubkey with
  | none =>
    simp only [negotiate, hkeys, List.mem_singleton] at h
    cases h
  | some keys =>
    simp only [negotiate, hkeys] at h ⊢
    generalize hsl : sl.modify peer _ = sl₁ at h ⊢
    have ha : sl₁.peerContainer.Allocated peer := by
      rw [← hsl]
      exact (List.getElem?_eq_some_iff.mp (heap_modify_self hp _)).1
    obtain ⟨sl', out, hfinish, hcalm⟩ := finishNegotiation_calm (S := S) sl₁ peer
    have hset := finishNegotiation_negotiated (S := S) sl₁ ha
    have hsame : peer' = peer := by
      have hsilent := (hcalm.silent peer').2
      rw [hfinish] at h
      simpa [hsilent, sendHelloPacket] using h
    rw [hsame]
    exact hset

theorem acceptHello_negotiated {sl : SecurityLayer} {target : HusarnetAddress} {peer peer' : PeerRef} {p : Peer}
    {hello : HelloPacket} {helloNum : UInt8} (hp : sl.peerContainer.heap[peer]? = some p)
    (h : .negotiated peer' ∈ (sl.acceptHello S target peer hello helloNum).2) :
    ((sl.acceptHello S target peer hello helloNum).1.deref peer').negotiated = true := by
  unfold acceptHello at h ⊢
  split at h
  · cases h
  · rename_i ht
    rw [if_neg ht]
    split at h
    · cases h
    · rename_i ha
      rw [if_neg ha]
      split at h
      · simp [sendHelloPacket] at h
      · rename_i h1
        rw [if_neg h1]
        split at h
        · cases h
        · rename_i hseq
          rw [if_neg hseq]
          exact negotiate_negotiated hp h

theorem handleHeartbeatReply_peers (now : Time) (sl : SecurityLayer) (source : HusarnetAddress) (ident : FString 8) :
    PeersKept sl (sl.handleHeartbeatReply now source ident).1 := by
  unfold handleHeartbeatReply
  split
  · rename_i sl' hg
    exact .getOrCreatePeer hg
  · rename_i sl' peer hg
    split
    · exact (PeersKept.getOrCreatePeer hg).trans
        (.modify sl' peer fun _ => ⟨⟨⟨rfl, rfl, rfl, rfl, rfl, fun h => h⟩, rfl⟩, ⟨rfl, rfl, fun h => h⟩⟩)
    · exact .getOrCreatePeer hg

theorem getLatency_peers (now : Time) (sl : SecurityLayer) (peerAddress : HusarnetAddress) :
    PeersKept sl (sl.getLatency now peerAddress).1 := by
  unfold getLatency
  split
  · rename_i sl' hg
    exact .getOrCreatePeer hg
  · rename_i sl' peer hg
    have hdraw : PeersKept sl' { sl' with peerContainer := sl'.peerContainer.draw } := PeerContainer.PeersKept.draw _
    have hwrite := PeersKept.modify { sl' with peerContainer := sl'.peerContainer.draw } peer
      (f := fun p => { p with
        heartbeatIdent := sl'.peerContainer.random.tape.ident sl'.peerContainer.random.draws
        lastLatencySent := now }) fun _ => ⟨⟨⟨rfl, rfl, rfl, rfl, rfl, fun h => h⟩, rfl⟩, ⟨rfl, rfl, fun h => h⟩⟩
    exact (PeersKept.getOrCreatePeer hg).trans (hdraw.trans hwrite)

theorem PacketHandling.peers {now : Time} {sl : SecurityLayer} {peerAddress : HusarnetAddress} {data : Bytes}
    {r : SecurityLayer × List LayerOutput} (h : PacketHandling S now sl peerAddress data r) :
    PeersAfter now sl peerAddress r := by
  cases h with
  | ignored => exact .kept (.refl sl) (by simp)
  | dataPacket _ _ h => exact h.peers
  | unknown hg => exact .kept (.getOrCreatePeer hg) (by simp)
  | @hello sl' peer hk hl hg =>
    obtain ⟨-, p, hp, -⟩ := getOrCreatePeer_entry (S := S) hg
    refine .kept ((PeersKept.getOrCreatePeer hg).trans (acceptHello_peers _ peerAddress _ _ _)) fun source data' => ?_
    obtain hc | ⟨-, -, -, -, hn⟩ := acceptHello_cases (S := S) peerAddress hp (.read data hl) (data.getD 0 0)
    · exact hc.downward source data'
    · exact hn.downward source data'
  | heartbeat _ => exact .kept (.refl sl) (by simp [handleHeartbeat])
  | heartbeatReply ident =>
    exact .kept (handleHeartbeatReply_peers now sl peerAddress ident)
      (handleHeartbeatReply_calm (S := S) now sl peerAddress ident).downward

theorem onLowerLayerData_peers {now : Time} {sl : SecurityLayer} {peerAddress : HusarnetAddress} {data : Bytes}
    {r : SecurityLayer × List LayerOutput} (h : sl.onLowerLayerData S now peerAddress data = .ok r) :
    PeersAfter now sl peerAddress r := (PacketHandling.of_ok h).peers

theorem onLowerLayerData_negotiated {now : Time} {sl : SecurityLayer} {peerAddress : HusarnetAddress} {data : Bytes}
    {r : SecurityLayer × List LayerOutput} (h : sl.onLowerLayerData S now peerAddress data = .ok r) {peer : PeerRef}
    (hpeer : .negotiated peer ∈ r.2) : (r.1.deref peer).negotiated = true := by
  cases PacketHandling.of_ok h with
  | ignored => cases hpeer
  | dataPacket _ _ hd => exact absurd hpeer (hd.quiet.silent peer).2
  | unknown _ => cases hpeer
  | hello _ _ hg =>
    obtain ⟨-, p, hp, -⟩ := getOrCreatePeer_entry (S := S) hg
    exact acceptHello_negotiated hp hpeer
  | heartbeat _ => simp [handleHeartbeat] at hpeer
  | heartbeatReply ident =>
    exact absurd hpeer ((handleHeartbeatReply_calm (S := S) now sl peerAddress ident).silent peer).2

end SecurityLayer
end Husarnet
