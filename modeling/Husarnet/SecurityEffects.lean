import Husarnet.Lib.Runs
import Husarnet.PeerSessions
import Husarnet.SecurityLayer

/-! # What a call of the security layer does

Every call but one is `Quiet`: it uses the container, sends packets or hands up the data of one, and
touches no session key. The exception is a hello packet that gets past all checks; `Negotiation`
says what it does.
-/

namespace Husarnet
open Octets Containers PeerContainer Runs
set_option autoImplicit false

def IsHelloType (num : UInt8) : Prop := num = 1 ∨ num = 2 ∨ num = 3

namespace SecurityLayer
variable {S : Sodium}

def withContainer (sl : SecurityLayer) (c : PeerContainer) : SecurityLayer := { sl with peerContainer := c }

/-- The steps of a call that leave the session keys alone, with the packets they send. -/
inductive Calm (S : Sodium) : SecurityLayer → List LayerOutput → SecurityLayer → Prop where
  | container (sl : SecurityLayer) {c : PeerContainer} (h : Evolves sl.peerContainer c) :
      Calm S sl [] (sl.withContainer c)
  | buffers (sl : SecurityLayer) (queuedPackets : ℤ) (decryptedBuffer : FString 2000) :
      Calm S sl [] { sl with queuedPackets := queuedPackets, decryptedBuffer := decryptedBuffer }
  | hello (sl : SecurityLayer) {peer : PeerRef} {p : Peer} (hp : sl.peerContainer.heap[peer]? = some p)
      {num : UInt8} (hnum : IsHelloType num) (helloseq : UInt64) :
      Calm S sl [sl.sendHelloPacket S peer num helloseq] sl
  | packet (sl : SecurityLayer) (peerAddress : HusarnetAddress) {data : Bytes} (h : ¬ IsHelloType (data.getD 0 0)) :
      Calm S sl [.toLower peerAddress data] sl
  | trans {sl sl' sl'' : SecurityLayer} {out out' : List LayerOutput} :
      Calm S sl out sl' → Calm S sl' out' sl'' → Calm S sl (out ++ out') sl''

namespace Calm

theorem refl (sl : SecurityLayer) : Calm S sl [] sl := .container sl (.refl _)

theorem modify (sl : SecurityLayer) (peer : PeerRef) {f : Peer → Peer} (hf : KeepsSession f) :
    Calm S sl [] (sl.modify peer f) := .container sl (.write _ peer hf)

theorem getOrCreatePeer (sl : SecurityLayer) (id : HusarnetAddress) : Calm S sl [] (sl.getOrCreatePeer id).1 :=
  .container sl (.getOrCreatePeer _ id)

theorem after {sl sl' sl'' : SecurityLayer} {out : List LayerOutput} (h : Calm S sl [] sl')
    (h' : Calm S sl' out sl'') : Calm S sl out sl'' := h.trans h'

theorem evolves {sl sl' : SecurityLayer} {out : List LayerOutput} (h : Calm S sl out sl') :
    Evolves sl.peerContainer sl'.peerContainer ∧ sl'.myFlags = sl.myFlags ∧ sl'.helloseq = sl.helloseq := by
  induction h with
  | container sl h => exact ⟨h, rfl, rfl⟩
  | buffers sl _ _ => exact ⟨.refl _, rfl, rfl⟩
  | hello sl _ _ _ => exact ⟨.refl _, rfl, rfl⟩
  | packet sl _ _ => exact ⟨.refl _, rfl, rfl⟩
  | trans _ _ ih ih' => exact ⟨ih.1.trans ih'.1, ih'.2.1.trans ih.2.1, ih'.2.2.trans ih.2.2⟩

theorem downward {sl sl' : SecurityLayer} {out : List LayerOutput} (h : Calm S sl out sl')
    (peerAddress : HusarnetAddress) (data : Bytes) : .toUpper peerAddress data ∉ out := by
  induction h with
  | container sl h => simp
  | buffers sl _ _ => simp
  | hello sl _ _ _ => simp [sendHelloPacket]
  | packet sl _ _ => simp
  | trans _ _ ih ih' => simp [ih, ih']

theorem silent {sl sl' : SecurityLayer} {out : List LayerOutput} (h : Calm S sl out sl') (peer : PeerRef) :
    .wroteKeys peer ∉ out ∧ .negotiated peer ∉ out := by
  induction h with
  | container sl h => simp
  | buffers sl _ _ => simp
  | hello sl _ _ _ => simp [sendHelloPacket]
  | packet sl _ _ => simp
  | trans _ _ ih ih' => simp [ih, ih']

end Calm

/-- Calm steps, with the data of a packet handed up after them or not. -/
inductive Quiet (S : Sodium) (sl : SecurityLayer) : List LayerOutput → SecurityLayer → Prop where
  | calm {out : List LayerOutput} {sl' : SecurityLayer} (h : Calm S sl out sl') : Quiet S sl out sl'
  | deliver {sl' : SecurityLayer} (h : Calm S sl [] sl') (peerAddress : HusarnetAddress) (data : Bytes) :
      Quiet S sl [.toUpper peerAddress data] sl'

namespace Quiet

theorem evolves {sl sl' : SecurityLayer} {out : List LayerOutput} (h : Quiet S sl out sl') :
    Evolves sl.peerContainer sl'.peerContainer ∧ sl'.myFlags = sl.myFlags ∧ sl'.helloseq = sl.helloseq := by
  cases h with
  | calm h => exact h.evolves
  | deliver h _ _ => exact h.evolves

theorem silent {sl sl' : SecurityLayer} {out : List LayerOutput} (h : Quiet S sl out sl') (peer : PeerRef) :
    .wroteKeys peer ∉ out ∧ .negotiated peer ∉ out := by
  cases h with
  | calm h => exact h.silent peer
  | deliver _ _ _ => simp

end Quiet

theorem getOrCreatePeer_entry {sl sl' : SecurityLayer} {id : HusarnetAddress} {peer : PeerRef}
    (h : sl.getOrCreatePeer id = (sl', some peer)) :
    Calm S sl [] sl' ∧ ∃ p, sl'.peerContainer.heap[peer]? = some p ∧ p.id = id := by
  have hcalm := Calm.getOrCreatePeer (S := S) sl id
  rw [h] at hcalm
  refine ⟨hcalm, ?_⟩
  have hpeer : (sl.peerContainer.getOrCreatePeer id).2 = some peer := congrArg Prod.snd h
  have hpoints := getOrCreatePeer_pointsTo hpeer
  have hc : (sl.peerContainer.getOrCreatePeer id).1 = sl'.peerContainer :=
    congrArg (fun r => r.1.peerContainer) h
  rw [hc, PointsTo, Option.map_eq_some_iff] at hpoints
  exact hpoints

/-! ## Calls without a handshake -/

theorem doSendDataPacket_calm (sl : SecurityLayer) (peer : PeerRef) (data : Bytes) :
    Calm S sl (sl.doSendDataPacket S peer data).2 (sl.doSendDataPacket S peer data).1 := by
  unfold doSendDataPacket
  split
  · exact .refl sl
  · split
    · exact .refl sl
    · split
      · exact .refl sl
      · refine (Calm.packet sl _ ?_).trans (.container sl (.draw _))
        simp [IsHelloType]

theorem sendQueued_calm (sl : SecurityLayer) (peer : PeerRef) (packets : List Bytes) :
    Calm S sl (sl.sendQueued S peer packets).2 (sl.sendQueued S peer packets).1 := by
  induction packets generalizing sl with
  | nil => exact .refl sl
  | cons packet packets ih =>
    have hcount : Calm S sl [] { sl with queuedPackets := sl.queuedPackets - 1 } := .buffers sl _ _
    exact (hcount.after (doSendDataPacket_calm _ peer packet)).trans (ih _)

theorem onUpperLayerData_calm (sl : SecurityLayer) (target : HusarnetAddress) (data : Bytes) :
    Calm S sl (sl.onUpperLayerData S target data).2 (sl.onUpperLayerData S target data).1 := by
  unfold onUpperLayerData
  split
  · rename_i sl' hg
    have hcalm := Calm.getOrCreatePeer (S := S) sl target
    rw [hg] at hcalm
    exact hcalm
  · rename_i sl' peer hg
    obtain ⟨hcalm, p, hp, -⟩ := getOrCreatePeer_entry (S := S) hg
    split
    · exact hcalm.after (doSendDataPacket_calm sl' peer data)
    · have hqueue : KeepsSession fun p => { p with packetQueue := p.packetQueue ++ [data] } :=
        fun p => ⟨rfl, rfl, rfl, rfl, rfl, fun h => h⟩
      split
      · have hp' := heap_modify_self hp fun p => { p with packetQueue := p.packetQueue ++ [data] }
        have hstored : Calm S sl' [] { sl'.modify peer fun p => { p with packetQueue := p.packetQueue ++ [data] } with
            queuedPackets := sl'.queuedPackets + 1 } := (Calm.modify sl' peer hqueue).after (.buffers _ _ _)
        exact hcalm.after (hstored.after (.hello _ hp' (Or.inl rfl) 0))
      · exact hcalm.after (.hello sl' hp (Or.inl rfl) 0)

/-- The ways `handleDataPacket` can go. -/
inductive DataHandling (S : Sodium) (now : Time) (sl : SecurityLayer) (peerId : HusarnetAddress) (data : Bytes) :
    SecurityLayer × List LayerOutput → Prop where
  | short (h : data.length ≤ headerSize + 8) : DataHandling S now sl peerId data (sl, [])
  | unknown (sl' : SecurityLayer) (hg : sl.getOrCreatePeer peerId = (sl', none)) :
      DataHandling S now sl peerId data (sl', [])
  | early (sl' : SecurityLayer) (peer : PeerRef) (hg : sl.getOrCreatePeer peerId = (sl', some peer))
      (hn : (sl'.deref peer).negotiated = false) :
      DataHandling S now sl peerId data (sl', [sl'.sendHelloPacket S peer 1 0])
  | large (sl' : SecurityLayer) (peer : PeerRef) (hg : sl.getOrCreatePeer peerId = (sl', some peer))
      (h : 2000 < data.length - headerSize) : DataHandling S now sl peerId data (sl', [])
  | forged (sl' : SecurityLayer) (peer : PeerRef) (hg : sl.getOrCreatePeer peerId = (sl', some peer))
      (h : headerSize + 8 < data.length)
      (hopen : S.secretboxOpen (sl'.deref peer).rxKey (sliceF data 1 24 (by simp only [headerSize] at h; omega))
        (data.drop 25) = none) :
      DataHandling S now sl peerId data ({ sl' with decryptedBuffer := sl'.decryptedBuffer.overwrite [] }, [])
  | opened (sl' : SecurityLayer) (peer : PeerRef) (hg : sl.getOrCreatePeer peerId = (sl', some peer))
      (hn : (sl'.deref peer).negotiated = true) (h : headerSize + 8 < data.length)
      (hsize : data.length - headerSize ≤ 2000) (text : Bytes)
      (hopen : S.secretboxOpen (sl'.deref peer).rxKey (sliceF data 1 24 (by simp only [headerSize] at h; omega))
        (data.drop 25) = some text) :
      DataHandling S now sl peerId data
        ({ sl' with decryptedBuffer := sl'.decryptedBuffer.overwrite text }.modify peer fun p =>
            { p with lastValidPacket := now },
          [.toUpper peerId (slice (sl'.decryptedBuffer.overwrite text).bytes 8 (data.length - headerSize - 8))])

/-- A data packet is always handled: no read fails. -/
theorem handleDataPacket_handling (now : Time) (sl : SecurityLayer) (peerId : HusarnetAddress) (data : Bytes) :
    ∃ r, sl.handleDataPacket S now peerId data = .ok r ∧ DataHandling S now sl peerId data r := by
  unfold handleDataPacket
  split
  · rename_i h
    exact ⟨_, rfl, .short h⟩
  · rename_i h
    have hlong : headerSize + 8 < data.length := not_le.mp h
    have hlen : 49 < data.length := by
      simp only [headerSize] at hlong
      omega
    split
    · rename_i sl' hg
      exact ⟨_, rfl, .unknown sl' hg⟩
    · rename_i sl' peer hg
      by_cases hn : (sl'.deref peer).negotiated = true
      · rw [hn]
        by_cases hsize : 2000 < data.length - headerSize
        · rw [if_pos hsize]
          exact ⟨_, rfl, .large sl' peer hg hsize⟩
        · have hsub : ¬ data.length - headerSize ≤ 8 := by
            simp only [headerSize]
            omega
          rw [if_neg hsize, StringView.get_of_lt (by omega), StringView.get_of_lt (by omega)]
          simp only [Except.bind, bind]
          rw [if_neg hsub, StringView.substr_of_le (by rw [FString.length_bytes]; omega)]
          cases hopen : S.secretboxOpen (sl'.deref peer).rxKey (sliceF data 1 24 (by omega)) (data.drop 25) with
          | none => exact ⟨_, rfl, .forged sl' peer hg hlong hopen⟩
          | some text => exact ⟨_, rfl, .opened sl' peer hg hn hlong (not_lt.mp hsize) text hopen⟩
      · rw [if_pos (by simpa using hn)]
        exact ⟨_, rfl, .early sl' peer hg (by simpa using hn)⟩

theorem DataHandling.quiet {now : Time} {sl : SecurityLayer} {peerId : HusarnetAddress} {data : Bytes}
    {r : SecurityLayer × List LayerOutput} (h : DataHandling S now sl peerId data r) : Quiet S sl r.2 r.1 := by
  have hcalm := Calm.getOrCreatePeer (S := S) sl peerId
  cases h with
  | short _ => exact .calm (.refl sl)
  | unknown sl' hg =>
    rw [hg] at hcalm
    exact .calm hcalm
  | early sl' peer hg hn =>
    obtain ⟨hcalm, p, hp, -⟩ := getOrCreatePeer_entry (S := S) hg
    exact .calm (hcalm.after (.hello sl' hp (Or.inl rfl) 0))
  | large sl' peer hg _ =>
    rw [hg] at hcalm
    exact .calm hcalm
  | forged sl' peer hg _ _ =>
    rw [hg] at hcalm
    exact .calm (hcalm.after (.buffers sl' _ _))
  | opened sl' peer hg _ _ _ text _ =>
    rw [hg] at hcalm
    have hbuffer : Calm S sl' [] { sl' with decryptedBuffer := sl'.decryptedBuffer.overwrite text } := .buffers sl' _ _
    have hwrite := Calm.modify (S := S) { sl' with decryptedBuffer := sl'.decryptedBuffer.overwrite text } peer
      (f := fun p => { p with lastValidPacket := now }) fun p => ⟨rfl, rfl, rfl, rfl, rfl, fun h => h⟩
    exact .deliver (hcalm.after (hbuffer.after hwrite)) _ _

theorem handleHeartbeatReply_calm (now : Time) (sl : SecurityLayer) (source : HusarnetAddress) (ident : FString 8) :
    Calm S sl (sl.handleHeartbeatReply now source ident).2 (sl.handleHeartbeatReply now source ident).1 := by
  have hcalm := Calm.getOrCreatePeer (S := S) sl source
  unfold handleHeartbeatReply
  split
  · rename_i sl' hg
    rw [hg] at hcalm
    exact hcalm
  · rename_i sl' peer hg
    rw [hg] at hcalm
    split
    · exact hcalm.after (.modify sl' peer fun p => ⟨rfl, rfl, rfl, rfl, rfl, fun h => h⟩)
    · exact hcalm

theorem getLatency_calm (now : Time) (sl : SecurityLayer) (peerAddress : HusarnetAddress) :
    Calm S sl (sl.getLatency now peerAddress).2.1 (sl.getLatency now peerAddress).1 := by
  have hcalm := Calm.getOrCreatePeer (S := S) sl peerAddress
  unfold getLatency
  split
  · rename_i sl' hg
    rw [hg] at hcalm
    exact hcalm
  · rename_i sl' peer hg
    rw [hg] at hcalm
    have hdraw : Calm S sl' [] (sl'.withContainer sl'.peerContainer.draw) := .container sl' (.draw _)
    have hwrite := Calm.modify (S := S) (sl'.withContainer sl'.peerContainer.draw) peer
      (f := fun p => { p with
        heartbeatIdent := sl'.peerContainer.random.tape.ident sl'.peerContainer.random.draws
        lastLatencySent := now }) fun p => ⟨rfl, rfl, rfl, rfl, rfl, fun h => h⟩
    refine hcalm.after (hdraw.after (hwrite.after (.packet _ _ ?_)))
    simp [IsHelloType]

/-! ## The handshake -/

/-- The keys that the handshake writes: those of the exchange, or the old ones when it fails, mixed
with the flags if the packet has some. -/
def mixedKeys (S : Sodium) (sl : SecurityLayer) (peer : PeerRef) (hello : HelloPacket)
    (keys : Option (FString 32 × FString 32)) : FString 32 × FString 32 :=
  let (rxKey, txKey) := keys.getD ((sl.deref peer).rxKey, (sl.deref peer).txKey)
  if hello.flags_bin ≠ 0 then
    (mixFlags S rxKey hello.flags_bin sl.myFlags.asBin, mixFlags S txKey sl.myFlags.asBin hello.flags_bin)
  else (rxKey, txKey)

/-- The writes of the session keys and, in `establish`, of `negotiated`. -/
def withKeys (S : Sodium) (sl : SecurityLayer) (peer : PeerRef) (hello : HelloPacket)
    (keys : Option (FString 32 × FString 32)) (p : Peer) : Peer :=
  { p with
    flags := ⟨hello.flags_bin⟩
    rxKey := (mixedKeys S sl peer hello keys).1
    txKey := (mixedKeys S sl peer hello keys).2 }

def writeKeys (S : Sodium) (sl : SecurityLayer) (peer : PeerRef) (hello : HelloPacket)
    (keys : Option (FString 32 × FString 32)) : SecurityLayer := sl.modify peer (withKeys S sl peer hello keys)

def establish (sl : SecurityLayer) (peer : PeerRef) : SecurityLayer :=
  sl.modify peer fun p => { p with negotiated := true }

/-- What `negotiate` does. -/
inductive Negotiation (S : Sodium) (sl : SecurityLayer) (target : HusarnetAddress) (peer : PeerRef)
    (hello : HelloPacket) : SecurityLayer × List LayerOutput → Prop where
  | failed (h : sl.sessionKeys S target peer hello.peerKxPubkey = none) :
      Negotiation S sl target peer hello (sl.writeKeys S peer hello none, [.wroteKeys peer])
  | done {keys : FString 32 × FString 32} (h : sl.sessionKeys S target peer hello.peerKxPubkey = some keys)
      {sl' sl'' : SecurityLayer} {out out' : List LayerOutput}
      (hqueue : Calm S ((sl.writeKeys S peer hello (some keys)).establish peer) out sl')
      (hreply : Calm S { sl' with helloseq := sl'.helloseq + 1 } out' sl'') :
      Negotiation S sl target peer hello (sl'', .wroteKeys peer :: .negotiated peer :: (out ++ out'))

namespace Negotiation

theorem identity {sl sl' : SecurityLayer} {target : HusarnetAddress} {peer : PeerRef} {hello : HelloPacket}
    {out : List LayerOutput} (h : Negotiation S sl target peer hello (sl', out)) :
    sl'.myIdentity = sl.myIdentity := by
  cases h with
  | failed _ => rfl
  | done _ hqueue hreply =>
    exact hreply.evolves.1.sameNode.identity.trans hqueue.evolves.1.sameNode.identity

theorem downward {sl sl' : SecurityLayer} {target : HusarnetAddress} {peer : PeerRef} {hello : HelloPacket}
    {out : List LayerOutput} (h : Negotiation S sl target peer hello (sl', out)) (peerAddress : HusarnetAddress)
    (data : Bytes) : .toUpper peerAddress data ∉ out := by
  cases h with
  | failed _ => simp
  | done _ hqueue hreply =>
    have h₁ := hqueue.downward peerAddress data
    have h₂ := hreply.downward peerAddress data
    simp [h₁, h₂]

end Negotiation

theorem finishNegotiation_calm (sl : SecurityLayer) (peer : PeerRef) :
    ∃ sl' out, sl.finishNegotiation S peer = (sl', .negotiated peer :: out) ∧
      Calm S (sl.establish peer) out sl' := by
  have hsend := sendQueued_calm (S := S) (sl.establish peer) peer ((sl.establish peer).deref peer).packetQueue
  have hclear := Calm.modify (S := S)
    ((sl.establish peer).sendQueued S peer ((sl.establish peer).deref peer).packetQueue).1 peer
    (f := fun p => { p with packetQueue := [] }) fun p => ⟨rfl, rfl, rfl, rfl, rfl, fun h => h⟩
  have hcalm := hsend.trans hclear
  rw [List.append_nil] at hcalm
  exact ⟨_, _, rfl, hcalm⟩

theorem negotiate_negotiation {sl : SecurityLayer} {target : HusarnetAddress} {peer : PeerRef} {p : Peer}
    (hp : sl.peerContainer.heap[peer]? = some p) (hello : HelloPacket) (helloNum : UInt8) :
    Negotiation S sl target peer hello (sl.negotiate S target peer hello helloNum) := by
  cases hkeys : sl.sessionKeys S target peer hello.peerKxPubkey with
  | none =>
    have he : sl.negotiate S target peer hello helloNum = (sl.writeKeys S peer hello none, [.wroteKeys peer]) := by
      simp only [negotiate, hkeys]
      rfl
    rw [he]
    exact .failed hkeys
  | some keys =>
    obtain ⟨sl', out, hfinish, hqueue⟩ := finishNegotiation_calm (S := S) (sl.writeKeys S peer hello (some keys)) peer
    have he : sl.negotiate S target peer hello helloNum =
        ({ sl' with helloseq := sl'.helloseq + 1 }, .wroteKeys peer :: .negotiated peer :: (out ++
          if helloNum = 2 then
            [{ sl' with helloseq := sl'.helloseq + 1 }.sendHelloPacket S peer 3 hello.yourHelloseq]
          else [])) := by
      have hfinish' := hfinish
      unfold writeKeys withKeys mixedKeys at hfinish'
      dsimp only at hfinish'
      simp only [negotiate, hkeys, hfinish']
      rfl
    rw [he]
    refine .done hkeys hqueue ?_
    by_cases hnum : helloNum = 2
    · rw [if_pos hnum]
      have hwritten := heap_modify_self (c := (sl.writeKeys S peer hello (some keys)).peerContainer)
        (heap_modify_self hp _) fun p => { p with negotiated := true }
      obtain ⟨p', hp', -⟩ := hqueue.evolves.1.keepsEntries.old peer _ hwritten
      exact .hello { sl' with helloseq := sl'.helloseq + 1 } hp' (Or.inr (Or.inr rfl)) _
    · rw [if_neg hnum]
      exact .refl _

/-- A hello packet that gets past every check of the layer. -/
structure Accepted (S : Sodium) (sl : SecurityLayer) (target : HusarnetAddress) (data : Bytes)
    (sl' : SecurityLayer) (peer : PeerRef) (hello : HelloPacket) : Prop where
  long : 161 ≤ data.length
  type : data.getD 0 0 = 2 ∨ data.getD 0 0 = 3
  known : sl.getOrCreatePeer target = (sl', some peer)
  parsed : HelloPacket.parse data = .ok hello
  toMe : hello.targetId = sl'.myIdentity.deviceId.data
  authentic : authentic S hello target = true
  current : hello.myHelloseq = sl'.helloseq

theorem acceptHello_cases {sl : SecurityLayer} (target : HusarnetAddress) {peer : PeerRef} {p : Peer}
    (hp : sl.peerContainer.heap[peer]? = some p) (hello : HelloPacket) (helloNum : UInt8) :
    Calm S sl (sl.acceptHello S target peer hello helloNum).2 (sl.acceptHello S target peer hello helloNum).1 ∨
      (hello.targetId = sl.myIdentity.deviceId.data ∧ SecurityLayer.authentic S hello target = true ∧ helloNum ≠ 1 ∧
        hello.myHelloseq = sl.helloseq ∧
        Negotiation S sl target peer hello (sl.acceptHello S target peer hello helloNum)) := by
  unfold acceptHello
  by_cases ht : hello.targetId = sl.myIdentity.deviceId.data
  · rw [if_neg (not_not.mpr ht)]
    by_cases ha : SecurityLayer.authentic S hello target = true
    · rw [if_neg (by simpa using ha)]
      by_cases h1 : helloNum = 1
      · rw [if_pos h1]
        exact Or.inl (.hello sl hp (Or.inr (Or.inl rfl)) _)
      · rw [if_neg h1]
        by_cases hseq : hello.myHelloseq = sl.helloseq
        · rw [if_neg (not_not.mpr hseq)]
          exact Or.inr ⟨ht, ha, h1, hseq, negotiate_negotiation hp hello helloNum⟩
        · rw [if_pos hseq]
          exact Or.inl (.refl sl)
    · rw [if_pos (by simpa using ha)]
      exact Or.inl (.refl sl)
  · rw [if_pos ht]
    exact Or.inl (.refl sl)

inductive PacketHandling (S : Sodium) (now : Time) (sl : SecurityLayer) (peerAddress : HusarnetAddress)
    (data : Bytes) : SecurityLayer × List LayerOutput → Prop where
  | ignored : PacketHandling S now sl peerAddress data (sl, [])
  | dataPacket (hsize : data.length < 2000) (hkind : data.getD 0 0 = 0) {r : SecurityLayer × List LayerOutput}
      (h : DataHandling S now sl peerAddress data r) : PacketHandling S now sl peerAddress data r
  | unknown {sl' : SecurityLayer} (hg : sl.getOrCreatePeer peerAddress = (sl', none)) :
      PacketHandling S now sl peerAddress data (sl', [])
  | hello {sl' : SecurityLayer} {peer : PeerRef} (hk : IsHelloType (data.getD 0 0)) (hl : 161 ≤ data.length)
      (hg : sl.getOrCreatePeer peerAddress = (sl', some peer)) :
      PacketHandling S now sl peerAddress data (sl'.acceptHello S peerAddress peer (.read data hl) (data.getD 0 0))
  | heartbeat (ident : FString 8) : PacketHandling S now sl peerAddress data (sl.handleHeartbeat peerAddress ident)
  | heartbeatReply (ident : FString 8) :
      PacketHandling S now sl peerAddress data (sl.handleHeartbeatReply now peerAddress ident)

theorem handleHelloPacket_handling (now : Time) (sl : SecurityLayer) (target : HusarnetAddress) {data : Bytes}
    (hk : IsHelloType (data.getD 0 0)) : ∃ r, sl.handleHelloPacket S target data (data.getD 0 0) = .ok r ∧
      PacketHandling S now sl target data r := by
  unfold handleHelloPacket
  by_cases hl : data.length < dataLen + 64
  · rw [if_pos hl]
    exact ⟨_, rfl, .ignored⟩
  · have hlong : 161 ≤ data.length := by
      simp only [dataLen] at hl
      omega
    rw [if_neg hl]
    split
    · rename_i sl' hg
      exact ⟨_, rfl, .unknown hg⟩
    · rename_i sl' peer hg
      rw [HelloPacket.parse_of_le hlong]
      exact ⟨_, rfl, .hello hk hlong hg⟩

/-- Every packet that is not empty is handled: no read fails. -/
theorem onLowerLayerData_handling (now : Time) (sl : SecurityLayer) (peerAddress : HusarnetAddress) {data : Bytes}
    (hne : data ≠ []) : ∃ r, sl.onLowerLayerData S now peerAddress data = .ok r ∧
      PacketHandling S now sl peerAddress data r := by
  have hget : StringView.get data 0 = .ok (data.getD 0 0) := StringView.get_of_lt (List.length_pos_iff.mpr hne)
  unfold onLowerLayerData
  by_cases hsize : data.length ≥ 2000
  · rw [if_pos hsize]
    exact ⟨_, rfl, .ignored⟩
  · rw [if_neg hsize, hget]
    simp only [Except.bind, bind]
    by_cases h0 : data.getD 0 0 = 0
    · rw [if_pos h0]
      by_cases hl : data.length ≤ 25
      · rw [if_pos hl]
        exact ⟨_, rfl, .ignored⟩
      · rw [if_neg hl]
        obtain ⟨r, hr, hd⟩ := handleDataPacket_handling (S := S) now sl peerAddress data
        exact ⟨r, hr, .dataPacket (not_le.mp hsize) h0 hd⟩
    · rw [if_neg h0]
      by_cases hk : data.getD 0 0 = 1 ∨ data.getD 0 0 = 2 ∨ data.getD 0 0 = 3
      · rw [if_pos hk]
        by_cases hl : data.length ≤ 25
        · rw [if_pos hl]
          exact ⟨_, rfl, .ignored⟩
        · rw [if_neg hl]
          exact handleHelloPacket_handling now sl peerAddress hk
      · rw [if_neg hk]
        by_cases h45 : data.getD 0 0 = 4 ∨ data.getD 0 0 = 5
        · rw [if_pos h45]
          by_cases hl : data.length < 9
          · rw [if_pos hl]
            exact ⟨_, rfl, .ignored⟩
          · rw [if_neg hl, substr_of_le (by omega)]
            by_cases h4 : data.getD 0 0 = 4
            · simp only [if_pos h4]
              exact ⟨_, rfl, .heartbeat _⟩
            · simp only [if_neg h4]
              exact ⟨_, rfl, .heartbeatReply _⟩
        · rw [if_neg h45]
          exact ⟨_, rfl, .ignored⟩

theorem PacketHandling.of_ok {now : Time} {sl : SecurityLayer} {peerAddress : HusarnetAddress} {data : Bytes}
    {r : SecurityLayer × List LayerOutput} (h : sl.onLowerLayerData S now peerAddress data = .ok r) :
    PacketHandling S now sl peerAddress data r := by
  have hne : data ≠ [] := by
    rintro rfl
    cases h
  obtain ⟨r', hr, hp⟩ := onLowerLayerData_handling (S := S) now sl peerAddress hne
  rw [h, Except.ok.injEq] at hr
  rwa [hr]

/-- A packet is handled quietly, or it is a hello packet that gets past every check and a
negotiation follows. -/
theorem PacketHandling.effect {now : Time} {sl : SecurityLayer} {peerAddress : HusarnetAddress} {data : Bytes}
    {r : SecurityLayer × List LayerOutput} (h : PacketHandling S now sl peerAddress data r) :
    Quiet S sl r.2 r.1 ∨ ∃ sl' peer hello, Accepted S sl peerAddress data sl' peer hello ∧
      Negotiation S sl' peerAddress peer hello r := by
  cases h with
  | ignored => exact Or.inl (.calm (.refl sl))
  | dataPacket _ _ h => exact Or.inl h.quiet
  | unknown hg =>
    have hcalm := Calm.getOrCreatePeer (S := S) sl peerAddress
    rw [hg] at hcalm
    exact Or.inl (.calm hcalm)
  | hello hk hl hg =>
    obtain ⟨hcalm, p, hp, -⟩ := getOrCreatePeer_entry (S := S) hg
    rcases acceptHello_cases (S := S) peerAddress hp (.read data hl) (data.getD 0 0) with
      hc | ⟨ht, ha, h1, hseq, hn⟩
    · exact Or.inl (.calm (hcalm.after hc))
    · have htype : data.getD 0 0 = 2 ∨ data.getD 0 0 = 3 := hk.resolve_left h1
      exact Or.inr ⟨_, _, _, ⟨hl, htype, hg, HelloPacket.parse_of_le hl, ht, ha, hseq⟩, hn⟩
  | heartbeat ident =>
    refine Or.inl (.calm (.packet sl _ ?_))
    simp [IsHelloType]
  | heartbeatReply ident => exact Or.inl (.calm (handleHeartbeatReply_calm now sl peerAddress ident))

/-! ## Runs of the layer -/

/-- What can happen to the layer. The other layers, the configuration thread and the status API
share its peer container. -/
inductive SecurityEvent where
  | lowerLayerData (now : Time) (peerAddress : HusarnetAddress) (data : Bytes)
  | upperLayerData (target : HusarnetAddress) (data : Bytes)
  | getLatency (now : Time) (peerAddress : HusarnetAddress)
  | shared (c : PeerContainer)

/-- The steps of the layer, each with what it puts out. -/
inductive SecurityStep (S : Sodium) (sl : SecurityLayer) : SecurityEvent × List LayerOutput → SecurityLayer → Prop where
  | lowerLayerData {now : Time} {peerAddress : HusarnetAddress} {data : Bytes} {sl' : SecurityLayer}
      {out : List LayerOutput} (h : sl.onLowerLayerData S now peerAddress data = .ok (sl', out)) :
      SecurityStep S sl (.lowerLayerData now peerAddress data, out) sl'
  | upperLayerData (target : HusarnetAddress) (data : Bytes) :
      SecurityStep S sl (.upperLayerData target data, (sl.onUpperLayerData S target data).2)
        (sl.onUpperLayerData S target data).1
  | getLatency (now : Time) (peerAddress : HusarnetAddress) :
      SecurityStep S sl (.getLatency now peerAddress, (sl.getLatency now peerAddress).2.1)
        (sl.getLatency now peerAddress).1
  | shared {c : PeerContainer} (h : Evolves sl.peerContainer c) : SecurityStep S sl (.shared c, []) (sl.withContainer c)

/-- **Every step is quiet or negotiates.** -/
theorem SecurityStep.effect {sl sl' : SecurityLayer} {e : SecurityEvent} {out : List LayerOutput}
    (h : SecurityStep S sl (e, out) sl') : Quiet S sl out sl' ∨
      ∃ now target data sl₁ peer hello, e = .lowerLayerData now target data ∧
        Accepted S sl target data sl₁ peer hello ∧ Negotiation S sl₁ target peer hello (sl', out) := by
  cases h with
  | @lowerLayerData now peerAddress data _ _ h =>
    rcases (PacketHandling.of_ok h).effect with hc | ⟨sl₁, peer, hello, ha, hn⟩
    · exact Or.inl hc
    · exact Or.inr ⟨now, peerAddress, data, sl₁, peer, hello, rfl, ha, hn⟩
  | upperLayerData target data => exact Or.inl (.calm (onUpperLayerData_calm sl target data))
  | getLatency now peerAddress => exact Or.inl (.calm (getLatency_calm now sl peerAddress))
  | shared h => exact Or.inl (.calm (.container sl h))

end SecurityLayer
end Husarnet
