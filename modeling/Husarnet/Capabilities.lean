import Husarnet.Handshake
import Husarnet.KeyAgreement

/-! # Capability flags (`peer_flags.cpp`, `compression_layer.cpp`)

What a node says of itself in its hello packets, what the other node keeps of it, and what the
compression layer asks of it. `flags` of a peer is written by `handleHelloPacket` alone; the heap of
peers only grows, so that this is one fact about the flags of all entries in their order.
-/

namespace Husarnet
open Octets Containers PeerContainer Runs
set_option autoImplicit false

/-! ## The flag word -/

namespace PeerFlags

/-- The bit of the flag is set in the word. -/
def Says (w : UInt64) (flag : PeerFlag) : Prop := w &&& flag.value ≠ 0

instance (w : UInt64) (flag : PeerFlag) : Decidable (Says w flag) := inferInstanceAs (Decidable (_ ≠ _))

/-- A sequence of calls of `setFlag`. -/
def setFlags (f : PeerFlags) (calls : List PeerFlag) : PeerFlags := calls.foldl setFlag f

theorem value_ne_zero (flag : PeerFlag) : flag.value ≠ 0 := by
  cases flag <;> decide

theorem checkFlag_iff (f : PeerFlags) (flag : PeerFlag) : f.checkFlag flag = true ↔ f.flags ≠ 0 := by
  simp [checkFlag, value_ne_zero]

theorem or_eq_zero_iff (a b : UInt64) : a ||| b = 0 ↔ a = 0 ∧ b = 0 := by
  rw [← UInt64.toNat_inj, ← UInt64.toNat_inj, ← UInt64.toNat_inj, UInt64.toNat_or]
  exact Nat.or_eq_zero_iff

theorem setFlag_ne_zero (f : PeerFlags) (flag : PeerFlag) : (f.setFlag flag).flags ≠ 0 := by
  intro h
  exact value_ne_zero flag ((or_eq_zero_iff _ _).mp h).2

theorem setFlags_eq_zero_iff (f : PeerFlags) (calls : List PeerFlag) :
    (f.setFlags calls).flags = 0 ↔ f.flags = 0 ∧ calls = [] := by
  induction calls generalizing f with
  | nil => simp [setFlags]
  | cons flag calls ih =>
    have hrest : (f.setFlags (flag :: calls)).flags = 0 ↔ (f.setFlag flag).flags = 0 ∧ calls = [] := ih (f.setFlag flag)
    rw [hrest]
    constructor
    · intro h
      exact absurd h.1 (setFlag_ne_zero f flag)
    · intro h
      cases h.2

/-- **When a query is answered right**: `checkFlag` asks whether there is any flag at all. -/
theorem checkFlag_right_iff (w : UInt64) (calls : List PeerFlag) (flag : PeerFlag) :
    ((setFlags ⟨w⟩ calls).checkFlag flag = true ↔ Says w flag ∨ flag ∈ calls) ↔
      (w = 0 ∧ calls = []) ∨ Says w flag ∨ flag ∈ calls := by
  rw [checkFlag_iff, ne_eq, setFlags_eq_zero_iff]
  constructor
  · intro h
    by_cases hzero : w = 0 ∧ calls = []
    · exact Or.inl hzero
    · exact Or.inr (h.mp hzero)
  · rintro (⟨rfl, rfl⟩ | hsaid)
    · simp [Says]
    · refine iff_of_true ?_ hsaid
      rintro ⟨rfl, rfl⟩
      simp [Says] at hsaid

end PeerFlags

/-! ## The compression layer -/

namespace CompressionLayer

/-- What the constructor makes of the node's flags; the build is `WITH_ZSTD` or not. -/
def new (withZstd : Bool) (myFlags : PeerFlags) : PeerFlags :=
  if !withZstd then myFlags.setFlag .compression else myFlags

/-- `shouldProceed`; there is no answer where the peer is null. -/
def shouldProceed (withZstd : Bool) (peerContainer : PeerContainer) (peerAddress : HusarnetAddress) : Option Bool :=
  if !withZstd then some false
  else (peerContainer.getPeer peerAddress).2.map fun peer => (peerContainer.deref peer).flags.checkFlag .compression

end CompressionLayer

/-- The flags of a node when its layers are made. -/
def HusarnetManager.myFlags (withZstd : Bool) : PeerFlags := CompressionLayer.new withZstd .new

theorem says_myFlags (withZstd : Bool) :
    PeerFlags.Says (HusarnetManager.myFlags withZstd).asBin .compression ↔ withZstd = false := by
  cases withZstd <;> decide

theorem myFlags_ne_zero (withZstd : Bool) : (HusarnetManager.myFlags withZstd).asBin ≠ 0 := by
  cases withZstd <;> decide

/-! ## Who writes the flags of a peer -/

/-- The entries of the heap keep their flags. -/
def KeepsFlags (c c' : PeerContainer) : Prop := c.heap.map Peer.flags <+: c'.heap.map Peer.flags

namespace KeepsFlags

theorem of_flags_eq {c c' : PeerContainer} (h : c'.heap.map Peer.flags = c.heap.map Peer.flags) : KeepsFlags c c' :=
  ⟨[], (List.append_nil _).trans h.symm⟩

theorem of_heap_eq {c c' : PeerContainer} (h : c'.heap = c.heap) : KeepsFlags c c' := of_flags_eq (congrArg _ h)

theorem refl (c : PeerContainer) : KeepsFlags c c := of_heap_eq rfl

theorem trans {c c' c'' : PeerContainer} (h : KeepsFlags c c') (h' : KeepsFlags c' c'') : KeepsFlags c c'' :=
  List.IsPrefix.trans h h'

theorem modify (c : PeerContainer) (peer : PeerRef) {f : Peer → Peer} (hf : ∀ p, (f p).flags = p.flags) :
    KeepsFlags c (c.modify peer f) := by
  refine of_flags_eq (List.ext_getElem? fun ref => ?_)
  rw [List.getElem?_map, List.getElem?_map, heap_modify]
  cases c.heap[ref]? with
  | none => rfl
  | some p =>
    by_cases hr : peer = ref
    · simp [hr, Peer.update, hf]
    · simp [hr]

theorem getOrCreatePeer (c : PeerContainer) (id : HusarnetAddress) : KeepsFlags c (c.getOrCreatePeer id).1 := by
  obtain ⟨-, he⟩ | ⟨-, he⟩ := getOrCreatePeer_cases c id
  · rw [he]
    exact of_heap_eq (getPeer_frame c id).2.2.2.1
  · rw [he]
    generalize hr : c.createPeer id = r
    cases (hr ▸ createPeer_creation c id : Creation c id r) with
    | refused _ => exact refl c
    | created _ c' hheap =>
      rw [KeepsFlags, hheap, List.map_append]
      exact List.prefix_append _ _

theorem entry {c c' : PeerContainer} (h : KeepsFlags c c') {ref : PeerRef} {p p' : Peer} (hp : c.heap[ref]? = some p)
    (hp' : c'.heap[ref]? = some p') : p'.flags = p.flags := by
  have hold : (c.heap.map Peer.flags)[ref]? = some p.flags := by rw [List.getElem?_map, hp, Option.map_some]
  have hnew : (c'.heap.map Peer.flags)[ref]? = some p'.flags := by rw [List.getElem?_map, hp', Option.map_some]
  obtain ⟨hlt, -⟩ := List.getElem?_eq_some_iff.mp hold
  obtain ⟨more, he⟩ := h
  rw [← he, List.getElem?_append_left hlt, hold] at hnew
  exact (Option.some.inj hnew).symm

end KeepsFlags

namespace SecurityLayer
variable {S : Sodium}

theorem getOrCreatePeer_flags {sl sl' : SecurityLayer} {id : HusarnetAddress} {peer : Option PeerRef}
    (h : sl.getOrCreatePeer id = (sl', peer)) : KeepsFlags sl.peerContainer sl'.peerContainer := by
  have hkeeps := KeepsFlags.getOrCreatePeer sl.peerContainer id
  have hc : (sl.peerContainer.getOrCreatePeer id).1 = sl'.peerContainer := congrArg (fun r => r.1.peerContainer) h
  rw [hc] at hkeeps
  exact hkeeps

theorem doSendDataPacket_flags (sl : SecurityLayer) (peer : PeerRef) (data : Bytes) :
    KeepsFlags sl.peerContainer (sl.doSendDataPacket S peer data).1.peerContainer := by
  unfold doSendDataPacket
  split
  · exact .refl _
  · split
    · exact .refl _
    · split
      · exact .refl _
      · exact .of_heap_eq rfl

theorem sendQueued_flags (sl : SecurityLayer) (peer : PeerRef) (packets : List Bytes) :
    KeepsFlags sl.peerContainer (sl.sendQueued S peer packets).1.peerContainer := by
  induction packets generalizing sl with
  | nil => exact .refl _
  | cons packet packets ih =>
    exact (doSendDataPacket_flags { sl with queuedPackets := sl.queuedPackets - 1 } peer packet).trans (ih _)

theorem finishNegotiation_flags (sl : SecurityLayer) (peer : PeerRef) :
    KeepsFlags sl.peerContainer (sl.finishNegotiation S peer).1.peerContainer := by
  have hestablished := KeepsFlags.modify sl.peerContainer peer (f := fun p => { p with negotiated := true }) fun _ => rfl
  have hsent := sendQueued_flags (S := S) (sl.establish peer) peer ((sl.establish peer).deref peer).packetQueue
  exact (hestablished.trans hsent).trans (KeepsFlags.modify _ peer fun _ => rfl)

theorem onUpperLayerData_flags (sl : SecurityLayer) (target : HusarnetAddress) (data : Bytes) :
    KeepsFlags sl.peerContainer (sl.onUpperLayerData S target data).1.peerContainer := by
  unfold onUpperLayerData
  split
  · rename_i sl' hg
    exact getOrCreatePeer_flags hg
  · rename_i sl' peer hg
    have hkeeps := getOrCreatePeer_flags hg
    split
    · exact hkeeps.trans (doSendDataPacket_flags sl' peer data)
    · split
      · exact hkeeps.trans (KeepsFlags.modify _ peer fun _ => rfl)
      · exact hkeeps

theorem getLatency_flags (now : Time) (sl : SecurityLayer) (peerAddress : HusarnetAddress) :
    KeepsFlags sl.peerContainer (sl.getLatency now peerAddress).1.peerContainer := by
  unfold getLatency
  split
  · rename_i sl' hg
    exact getOrCreatePeer_flags hg
  · rename_i sl' peer hg
    have hdraw : KeepsFlags sl'.peerContainer sl'.peerContainer.draw := .of_heap_eq rfl
    exact ((getOrCreatePeer_flags hg).trans hdraw).trans (KeepsFlags.modify _ peer fun _ => rfl)

theorem handleHeartbeatReply_flags (now : Time) (sl : SecurityLayer) (source : HusarnetAddress) (ident : FString 8) :
    KeepsFlags sl.peerContainer (sl.handleHeartbeatReply now source ident).1.peerContainer := by
  unfold handleHeartbeatReply
  split
  · rename_i sl' hg
    exact getOrCreatePeer_flags hg
  · rename_i sl' peer hg
    split
    · exact (getOrCreatePeer_flags hg).trans (KeepsFlags.modify _ peer fun _ => rfl)
    · exact getOrCreatePeer_flags hg

theorem DataHandling.flags {now : Time} {sl : SecurityLayer} {peerId : HusarnetAddress} {data : Bytes}
    {r : SecurityLayer × List LayerOutput} (h : DataHandling S now sl peerId data r) :
    KeepsFlags sl.peerContainer r.1.peerContainer := by
  cases h with
  | short _ => exact .refl _
  | unknown sl' hg => exact getOrCreatePeer_flags hg
  | early sl' peer hg _ => exact getOrCreatePeer_flags hg
  | large sl' peer hg _ => exact getOrCreatePeer_flags hg
  | forged sl' peer hg _ _ => exact (getOrCreatePeer_flags hg).trans (.of_heap_eq rfl)
  | opened sl' peer hg _ _ _ text _ => exact (getOrCreatePeer_flags hg).trans (KeepsFlags.modify _ peer fun _ => rfl)

/-- What an accepted hello packet says of its sender is written to the peer. -/
def writeFlags (sl : SecurityLayer) (peer : PeerRef) (hello : HelloPacket) : PeerContainer :=
  sl.peerContainer.modify peer fun p => { p with flags := ⟨hello.flags_bin⟩ }

theorem negotiate_flags (sl : SecurityLayer) (target : HusarnetAddress) (peer : PeerRef) (hello : HelloPacket)
    (helloNum : UInt8) :
    KeepsFlags (sl.writeFlags peer hello) (sl.negotiate S target peer hello helloNum).1.peerContainer := by
  have hwritten (keys : Option (FString 32 × FString 32)) :
      KeepsFlags (sl.writeFlags peer hello) (sl.writeKeys S peer hello keys).peerContainer := by
    refine .of_flags_eq (List.ext_getElem? fun ref => ?_)
    rw [List.getElem?_map, List.getElem?_map, writeFlags, writeKeys, modify_peerContainer, heap_modify, heap_modify]
    cases sl.peerContainer.heap[ref]? with
    | none => rfl
    | some p =>
      by_cases hr : peer = ref
      · simp [hr, Peer.update, withKeys]
      · simp [hr]
  unfold negotiate
  cases hkeys : sl.sessionKeys S target peer hello.peerKxPubkey with
  | none => exact hwritten none
  | some keys => exact (hwritten (some keys)).trans (finishNegotiation_flags (sl.writeKeys S peer hello (some keys)) peer)

/-- **Only a negotiation writes flags**, and it writes those of its packet. -/
theorem PacketHandling.flags {now : Time} {sl : SecurityLayer} {peerAddress : HusarnetAddress} {data : Bytes}
    {r : SecurityLayer × List LayerOutput} (h : PacketHandling S now sl peerAddress data r) :
    (Quiet S sl r.2 r.1 ∧ KeepsFlags sl.peerContainer r.1.peerContainer) ∨
      ∃ sl' peer hello, Accepted S sl peerAddress data sl' peer hello ∧ Negotiation S sl' peerAddress peer hello r ∧
        KeepsFlags sl.peerContainer sl'.peerContainer ∧ KeepsFlags (sl'.writeFlags peer hello) r.1.peerContainer := by
  have hquiet {sl' : SecurityLayer} {peer : PeerRef} (hg : sl.getOrCreatePeer peerAddress = (sl', some peer))
      {r : SecurityLayer × List LayerOutput} (hc : Calm S sl' r.2 r.1) (he : r.1 = sl') :
      Quiet S sl r.2 r.1 ∧ KeepsFlags sl.peerContainer r.1.peerContainer := by
    have hflags := getOrCreatePeer_flags hg
    rw [← he] at hflags
    exact ⟨.calm ((getOrCreatePeer_entry hg).1.after hc), hflags⟩
  cases h with
  | ignored => exact Or.inl ⟨.calm (.refl sl), .refl _⟩
  | dataPacket _ _ h => exact Or.inl ⟨h.quiet, h.flags⟩
  | unknown hg =>
    have hcalm := Calm.getOrCreatePeer (S := S) sl peerAddress
    rw [hg] at hcalm
    exact Or.inl ⟨.calm hcalm, getOrCreatePeer_flags hg⟩
  | @hello sl' peer hk hl hg =>
    obtain ⟨-, p, hp, -⟩ := getOrCreatePeer_entry (S := S) hg
    have hflags := getOrCreatePeer_flags hg
    unfold acceptHello
    by_cases ht : (HelloPacket.read data hl).targetId = sl'.myIdentity.deviceId.data
    · rw [if_neg (not_not.mpr ht)]
      by_cases ha : SecurityLayer.authentic S (.read data hl) peerAddress = true
      · rw [if_neg (by simpa using ha)]
        by_cases h1 : data.getD 0 0 = 1
        · rw [if_pos h1]
          exact Or.inl (hquiet hg (.hello sl' hp (Or.inr (Or.inl rfl)) _) rfl)
        · rw [if_neg h1]
          by_cases hseq : (HelloPacket.read data hl).myHelloseq = sl'.helloseq
          · rw [if_neg (not_not.mpr hseq)]
            exact Or.inr ⟨sl', peer, .read data hl,
              ⟨hl, hk.resolve_left h1, hg, HelloPacket.parse_of_le hl, ht, ha, hseq⟩,
              negotiate_negotiation hp _ _, hflags, negotiate_flags ..⟩
          · rw [if_pos hseq]
            exact Or.inl (hquiet hg (.refl sl') rfl)
      · rw [if_pos (by simpa using ha)]
        exact Or.inl (hquiet hg (.refl sl') rfl)
    · rw [if_pos ht]
      exact Or.inl (hquiet hg (.refl sl') rfl)
  | heartbeat ident =>
    refine Or.inl ⟨.calm (.packet sl _ ?_), .refl _⟩
    simp [IsHelloType]
  | heartbeatReply ident =>
    exact Or.inl ⟨.calm (handleHeartbeatReply_calm now sl peerAddress ident), handleHeartbeatReply_flags now sl peerAddress ident⟩

theorem SecurityStep.flags {sl sl' : SecurityLayer} {e : SecurityEvent} {out : List LayerOutput}
    (h : SecurityStep S sl (e, out) sl') (hshared : ∀ c, e = .shared c → KeepsFlags sl.peerContainer c) :
    (Quiet S sl out sl' ∧ KeepsFlags sl.peerContainer sl'.peerContainer) ∨
      ∃ now target data sl₁ peer hello, e = .lowerLayerData now target data ∧
        Accepted S sl target data sl₁ peer hello ∧ Negotiation S sl₁ target peer hello (sl', out) ∧
        KeepsFlags sl.peerContainer sl₁.peerContainer ∧ KeepsFlags (sl₁.writeFlags peer hello) sl'.peerContainer := by
  cases h with
  | @lowerLayerData now peerAddress data _ _ h =>
    obtain hkeeps | ⟨sl₁, peer, hello, ha, hn, hflags⟩ := (PacketHandling.of_ok h).flags
    · exact Or.inl hkeeps
    · exact Or.inr ⟨now, peerAddress, data, sl₁, peer, hello, rfl, ha, hn, hflags⟩
  | upperLayerData target data =>
    exact Or.inl ⟨.calm (onUpperLayerData_calm sl target data), onUpperLayerData_flags sl target data⟩
  | getLatency now peerAddress => exact Or.inl ⟨.calm (getLatency_calm now sl peerAddress), getLatency_flags now sl peerAddress⟩
  | shared h => exact Or.inl ⟨.calm (.container sl h), hshared _ rfl⟩

/-- A session that another peer than the one of the negotiation has behind it was there before. -/
theorem Negotiation.earlier {sl sl' : SecurityLayer} {target : HusarnetAddress} {peer : PeerRef} {hello : HelloPacket}
    {out : List LayerOutput} (h : Negotiation S sl target peer hello (sl', out)) {ref : PeerRef} {p' : Peer}
    (hp' : sl'.peerContainer.heap[ref]? = some p') (hne : ref ≠ peer) (hn : p'.negotiated = true) :
    ∃ p, sl.peerContainer.heap[ref]? = some p ∧ SessionKept p p' := by
  have hother {c : PeerContainer} {f : Peer → Peer} {q : Peer} (hq : (c.modify peer f).heap[ref]? = some q) :
      c.heap[ref]? = some q := by
    rw [heap_modify, Option.map_eq_some_iff] at hq
    obtain ⟨p, hp, he⟩ := hq
    rw [if_neg hne.symm] at he
    rw [hp, he]
  cases h with
  | failed _ => exact ⟨p', hother hp', .refl p'⟩
  | @done keys _ sl₂ _ _ _ hqueue hreply =>
    have hevolves : Evolves _ sl'.peerContainer := hqueue.evolves.1.trans hreply.evolves.1
    obtain ⟨p, hp, hk⟩ | ⟨-, hfresh⟩ := hevolves.keepsEntries.new ref p' hp'
    · exact ⟨p, hother (hother hp), hk⟩
    · rw [hfresh.negotiated] at hn
      cases hn

end SecurityLayer

/-! ## Two nodes -/

/-- The two nodes, each of a build of its own. -/
def built (withZstd : Side → Bool) (party : Side → Party) (s : Side) : Party :=
  { party s with myFlags := HusarnetManager.myFlags (withZstd s) }

/-- A step of the network: whatever else uses the peer container leaves the flags alone. -/
def Network.CapableStep (S : Sodium) (party : Side → Party) (w : Network) (e : Side × SecurityLayer.SecurityEvent)
    (w' : Network) : Prop :=
  w.Step S party e w' ∧ ∀ s c, e = (s, .shared c) → KeepsFlags (w.layer s).peerContainer c

/-- What a node knows of the other one behind a handshake is what that one has said. -/
def KnowsFlags (party : Side → Party) (w : Network) : Prop :=
  ∀ (s : Side) (ref : PeerRef) (p : Peer), (w.layer s).peerContainer.heap[ref]? = some p →
    p.id = (party s.other).identity.deviceId → p.negotiated = true → p.flags = (party s.other).myFlags

section
variable {S : Sodium} {party : Side → Party}

theorem KnowsFlags.step (hh : Honest S party) {w w' : Network} (hw : InAgreement S party w) (hk : KnowsFlags party w)
    {e : Side × SecurityLayer.SecurityEvent} (h : w.CapableStep S party e w') : KnowsFlags party w' := by
  obtain ⟨⟨hstep, hnet⟩, hshared⟩ := h
  rename_i s e sl' out
  intro t ref p' hp' hid hn
  by_cases ht : t = s
  · subst ht
    rw [Network.layer_after] at hp'
    obtain ⟨hquiet, hflags⟩ | ⟨now, target, data, sl, peer, hello, rfl, ha, hnegotiation, hbefore, hafter⟩ :=
      hstep.flags fun c hc => hshared t c (congrArg (Prod.mk t) hc)
    · obtain ⟨p, hp, hkept⟩ | ⟨-, hfresh⟩ := hquiet.evolves.1.keepsEntries.new ref p' hp'
      · rw [hflags.entry hp hp']
        exact hk t ref p hp (hkept.id.symm.trans hid) (hkept.negotiated hn)
      · rw [hfresh.negotiated] at hn
        cases hn
    · obtain ⟨hcalm, q, hq, hqid⟩ := SecurityLayer.getOrCreatePeer_entry (S := S) ha.known
      by_cases hr : ref = peer
      · -- the negotiation is with the other node, and its packet was sent by it
        subst hr
        have hwritten := hafter.entry (heap_modify_self hq fun p => { p with flags := ⟨hello.flags_bin⟩ }) hp'
        obtain ⟨q', hq', hqid', -⟩ := hnegotiation.entry hq
        rw [hp', Option.some.injEq] at hq'
        subst hq'
        obtain rfl : target = (party t.other).identity.deviceId := hqid.symm.trans (hqid'.symm.trans hid)
        obtain ⟨-, -, -, -, -, hsaid⟩ := hw.accepted hh (hnet _ _ _ rfl) ha
        rw [hwritten]
        exact congrArg PeerFlags.mk hsaid
      · obtain ⟨p₁, hp₁, hkept₁⟩ := hnegotiation.earlier hp' hr hn
        obtain ⟨p, hp, hkept⟩ | ⟨-, hfresh⟩ := hcalm.evolves.1.keepsEntries.new ref p₁ hp₁
        · have hother : (sl.writeFlags peer hello).heap[ref]? = some p₁ := by
            rw [SecurityLayer.writeFlags, heap_modify, hp₁, Option.map_some, if_neg fun he => hr he.symm]
          rw [hafter.entry hother hp', hbefore.entry hp hp₁]
          exact hk t ref p hp (hkept.id.symm.trans (hkept₁.id.symm.trans hid)) (hkept.negotiated (hkept₁.negotiated hn))
        · have hn₁ := hkept₁.negotiated hn
          rw [hfresh.negotiated] at hn₁
          cases hn₁
  · rw [Network.layer_after_ne w ht] at hp'
    exact hk t ref p' hp' hid hn

theorem knowsFlags_run (hh : Honest S party) {tr : List ((Side × SecurityLayer.SecurityEvent) × Network)}
    (hr : IsRun (Network.CapableStep S party) (Network.start party) tr) :
    ∀ w ∈ states (Network.start party) tr, InAgreement S party w ∧ KnowsFlags party w := by
  refine hr.keeps ⟨inAgreement_start, ?_⟩ fun w e w' hw h => ⟨hw.1.step hh h.1, hw.2.step hh hw.1 h⟩
  intro s ref p hp
  cases hp

theorem InAgreement.hello_flags (hh : Honest S party) {w : Network} (hw : InAgreement S party w) {data : Bytes}
    (hdata : data ∈ w.pool) (hk : IsHelloType (data.getD 0 0)) :
    ∃ h : 161 ≤ data.length, ∀ s, (HelloPacket.read data h).incomingPubkey = (party s).identity.pubkey →
      (HelloPacket.read data h).flags_bin = (party s).myFlags.asBin := by
  obtain ⟨t, ref, q, num, ownHelloseq, helloseq, -, rfl⟩ := hw.pool data hdata hk
  have hlong : 161 ≤ (signedHello S (party t).identity (party t).myFlags q num ownHelloseq helloseq).length := by
    rw [signedHello_length]
    omega
  refine ⟨hlong, fun s hs => ?_⟩
  rw [HelloPacket.read_signedHello] at hs ⊢
  have hsender : t = s := by
    by_contra hne
    obtain rfl := Side.eq_other hne
    have hkey := congrArg (NgSocketCrypto.pubkeyToDeviceId S) hs
    rw [(hh.ready _).fromKey, (hh.ready _).fromKey] at hkey
    exact hh.other_ne s hkey
  rw [hsender]

end

/-- **What the capability flags mean.** A query is right if there is no flag at all or the flag is set; a hello
packet has the compression bit exactly when its sender's build is without compression; and behind a handshake
compression is on with both ends built for it unless this end is and the other one is not. -/
theorem capability_flags (S : Sodium) (party : Side → Party) (withZstd : Side → Bool)
    (hh : Honest S (built withZstd party)) :
    (∀ (w : UInt64) (calls : List PeerFlag) (flag : PeerFlag),
      ((PeerFlags.setFlags ⟨w⟩ calls).checkFlag flag = true ↔ PeerFlags.Says w flag ∨ flag ∈ calls) ↔
        (w = 0 ∧ calls = []) ∨ PeerFlags.Says w flag ∨ flag ∈ calls) ∧
    ∀ tr, IsRun (Network.CapableStep S (built withZstd party)) (Network.start (built withZstd party)) tr →
      ∀ w ∈ states (Network.start (built withZstd party)) tr,
        (∀ data ∈ w.pool, IsHelloType (data.getD 0 0) → ∃ h : 161 ≤ data.length,
          ∀ s, (HelloPacket.read data h).incomingPubkey = (party s).identity.pubkey →
            (PeerFlags.Says (HelloPacket.read data h).flags_bin .compression ↔ withZstd s = false)) ∧
        ∀ s ref, ((w.layer s).peerContainer.getPeer (party s.other).identity.deviceId).2 = some ref →
          ((w.layer s).deref ref).negotiated = true →
          ((CompressionLayer.shouldProceed (withZstd s) (w.layer s).peerContainer (party s.other).identity.deviceId =
              some true → withZstd s = true ∧ withZstd s.other = true) ↔
            withZstd s = false ∨ withZstd s.other = true) := by
  refine ⟨PeerFlags.checkFlag_right_iff, fun tr hr w hw => ?_⟩
  obtain ⟨hagree, hknows⟩ := knowsFlags_run hh hr w hw
  refine ⟨?_, ?_⟩
  · intro data hdata hk
    obtain ⟨hlong, hflags⟩ := hagree.hello_flags hh hdata hk
    refine ⟨hlong, fun s hs => ?_⟩
    rw [hflags s hs]
    exact says_myFlags (withZstd s)
  · intro s ref hget hn
    obtain ⟨p, hp, hid⟩ := Option.map_eq_some_iff.mp (getPeer_pointsTo hget)
    have hderef : (w.layer s).peerContainer.deref ref = p := deref_of_entry hp
    rw [SecurityLayer.deref, hderef] at hn
    have hflags : p.flags = HusarnetManager.myFlags (withZstd s.other) := hknows s ref p hp hid hn
    have hcheck : p.flags.checkFlag .compression = true := by
      rw [PeerFlags.checkFlag_iff, hflags]
      exact myFlags_ne_zero _
    have hproceeds : CompressionLayer.shouldProceed (withZstd s) (w.layer s).peerContainer
        (party s.other).identity.deviceId = some (withZstd s) := by
      unfold CompressionLayer.shouldProceed
      cases withZstd s with
      | false => rfl
      | true =>
        rw [hget]
        simp only [Bool.not_true, Bool.false_eq_true, if_false, Option.map_some, hderef, hcheck]
    rw [hproceeds]
    cases withZstd s <;> cases withZstd s.other <;> simp

/-! ## A handshake of two builds -/

/-- One node is built with compression, the other one is not. -/
def oneWithZstd (s : Side) : Bool := s = .a

theorem honest_oneWithZstd : Honest clearSodium (built oneWithZstd twoParties) where
  ready := honest_twoParties.ready
  distinct := honest_twoParties.distinct
  flags s := myFlags_ne_zero (oneWithZstd s)
  kx := honest_twoParties.kx

def helloOf (s : Side) (num : UInt8) (ownHelloseq helloseq : UInt64) : Bytes :=
  signedHello clearSodium (twoParties s).identity (built oneWithZstd twoParties s).myFlags
    { (default : Peer) with
      id := (twoParties s.other).identity.deviceId
      kxPubkey := (countingTape.kxKeypair 0).1 } num ownHelloseq helloseq

def handshakeOfBuilds : List (Side × SecurityLayer.SecurityEvent) :=
  [(.a, .upperLayerData (twoParties .b).identity.deviceId [1, 2, 3]),
    (.b, .lowerLayerData 0 (twoParties .a).identity.deviceId (helloOf .a 1 0 0)),
    (.a, .lowerLayerData 0 (twoParties .b).identity.deviceId (helloOf .b 2 0 0)),
    (.b, .lowerLayerData 0 (twoParties .a).identity.deviceId (helloOf .a 3 1 0))]

def runOfBuilds : List ((Side × SecurityLayer.SecurityEvent) × Network) :=
  trace (Network.react clearSodium) (Network.start (built oneWithZstd twoParties)) handshakeOfBuilds

def afterHandshake : Network := last (Network.start (built oneWithZstd twoParties)) runOfBuilds

theorem isRun_runOfBuilds : IsRun (Network.CapableStep clearSodium (built oneWithZstd twoParties))
    (Network.start (built oneWithZstd twoParties)) runOfBuilds := by
  have hrun : IsRun (Network.Step clearSodium (built oneWithZstd twoParties))
      (Network.start (built oneWithZstd twoParties)) runOfBuilds :=
    Network.isRun_react clearSodium (built oneWithZstd twoParties) (by decide +kernel)
  refine hrun.imp fun x hx hstep => ⟨hstep, fun s c he => ?_⟩
  have hlabel : x.2.1 ∈ (transitions (Network.start (built oneWithZstd twoParties)) runOfBuilds).map fun y => y.2.1 :=
    List.mem_map_of_mem hx
  rw [map_label_transitions, runOfBuilds, labels_trace, he] at hlabel
  simp [handshakeOfBuilds] at hlabel

theorem capability_flags_handshake :
    CompressionLayer.shouldProceed false (afterHandshake.layer .b).peerContainer (twoParties .a).identity.deviceId ≠ some true ∧
    ¬ PeerFlags.Says (HelloPacket.read (helloOf .a 1 0 0) (by decide +kernel)).flags_bin .compression := by
  obtain ⟨-, hruns⟩ := capability_flags clearSodium twoParties oneWithZstd honest_oneWithZstd
  obtain ⟨hhello, hproceeds⟩ := hruns runOfBuilds isRun_runOfBuilds afterHandshake (mem_states_last _ _)
  constructor
  · intro hon
    have hb := (hproceeds .b 0 (by decide +kernel) (by decide +kernel)).mpr (Or.inl rfl) hon
    cases hb.1
  · intro hsays
    obtain ⟨hlong, hsender⟩ := hhello (helloOf .a 1 0 0) (by decide +kernel) (Or.inl (by decide +kernel))
    have hkey : (HelloPacket.read (helloOf .a 1 0 0) hlong).incomingPubkey = (twoParties .a).identity.pubkey :=
      congrArg HelloPacket.incomingPubkey (HelloPacket.read_signedHello _ _ _ _ _ _ _ hlong)
    have ha := (hsender .a hkey).mp hsays
    cases ha

/-- **The flags do not mean what was said**: a word with another flag passes for one with compression, the node
that has compression does not say so, and behind a handshake it is on with a node that has none. -/
theorem capabilities_misread :
    ¬ (PeerFlags.checkFlag ⟨1⟩ .compression = true ↔ PeerFlags.Says 1 .compression) ∧
    ¬ (PeerFlags.Says (HusarnetManager.myFlags true).asBin .compression ↔ true = true) ∧
    ¬ (CompressionLayer.shouldProceed true (afterHandshake.layer .a).peerContainer (twoParties .b).identity.deviceId =
        some true → oneWithZstd .a = true ∧ oneWithZstd .b = true) := by
  refine ⟨by decide, by decide, ?_⟩
  intro h
  have hproceeds : CompressionLayer.shouldProceed true (afterHandshake.layer .a).peerContainer
      (twoParties .b).identity.deviceId = some true := by
    decide +kernel
  cases (h hproceeds).2

end Husarnet
