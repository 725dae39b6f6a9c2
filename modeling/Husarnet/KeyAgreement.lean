import Husarnet.SecurityEffects
import Mathlib.Logic.Function.Basic

/-! # Two nodes agree on their session keys

Two nodes and a network that owns every packet they send. The network delivers what it likes, as
often as it likes and from whatever address, but for packets that carry a signature of one of the
two nodes: those it has only from them. Peers in between have handshakes of their own.
-/

namespace Husarnet
open Octets Containers PeerContainer SecurityLayer Runs NgSocketCrypto
set_option autoImplicit false

inductive Side where
  | a
  | b
  deriving DecidableEq

def Side.other : Side → Side
  | a => b
  | b => a

/-- What a node starts with, and keeps. -/
structure Party where
  configManager : ConfigManager
  identity : Identity
  tape : Tape
  myFlags : PeerFlags
  boot : UInt64

/-- The layers of the two nodes and every packet either of them has sent. -/
structure Network where
  layer : Side → SecurityLayer
  pool : List Bytes

def packetsOf (out : List LayerOutput) : List Bytes := out.filterMap fun o => match o with
  | .toLower _ data => some data
  | _ => none

/-- The packet carries a signature of the node with the id: of a key that maps to it. -/
def SignedBy (S : Sodium) (id : HusarnetAddress) (data : Bytes) : Prop :=
  ∃ h : 161 ≤ data.length, authentic S (.read data h) id = true

namespace Network
variable (S : Sodium) (party : Side → Party)

def start : Network where
  layer s := .new (.new (party s).configManager (party s).identity (party s).tape) (party s).myFlags (party s).boot
  pool := []

def after (w : Network) (s : Side) (sl : SecurityLayer) (out : List LayerOutput) : Network where
  layer := Function.update w.layer s sl
  pool := w.pool ++ packetsOf out

/-- The network can deliver the packet: one that was sent, or one that carries neither node's
signature. -/
def CanDeliver (w : Network) (data : Bytes) : Prop :=
  data ∈ w.pool ∨ ∀ s, ¬ SignedBy S (party s).identity.deviceId data

inductive Step (w : Network) : Side × SecurityEvent → Network → Prop where
  | mk {s : Side} {e : SecurityEvent} {sl : SecurityLayer} {out : List LayerOutput}
      (hstep : SecurityStep S (w.layer s) (e, out) sl)
      (hnet : ∀ now peerAddress data, e = .lowerLayerData now peerAddress data → CanDeliver S party w data) :
      Step w (s, e) (w.after s sl out)

end Network

/-- The keys of `p`, a peer entry on side `s`, are those made with the entry `q` of the other side. -/
def HasKeys (S : Sodium) (party : Side → Party) (s : Side) (p q : Peer) : Prop :=
  ∃ keys : FString 32 × FString 32,
    (if (party s.other).identity.deviceId < (party s).identity.deviceId then
      S.kxClientSessionKeys p.kxPubkey p.kxPrivkey q.kxPubkey
    else S.kxServerSessionKeys p.kxPubkey p.kxPrivkey q.kxPubkey) = some keys ∧
    p.rxKey = mixFlags S keys.1 (party s.other).myFlags.asBin (party s).myFlags.asBin ∧
    p.txKey = mixFlags S keys.2 (party s).myFlags.asBin (party s.other).myFlags.asBin

/-- They are those made with some entry that the other side has for this one. -/
def HasSession (S : Sodium) (party : Side → Party) (s : Side) (other : SecurityLayer) (p : Peer) : Prop :=
  ∃ (ref : PeerRef) (q : Peer), other.peerContainer.heap[ref]? = some q ∧ q.id = (party s).identity.deviceId ∧
    HasKeys S party s p q

/-- What the nodes are promised: identities that are ready and differ, a flag set on either side,
and a key exchange that succeeds on their key pairs with crosswise equal outputs. -/
structure Honest (S : Sodium) (party : Side → Party) : Prop where
  ready : ∀ s, (party s).identity.Ready S
  distinct : (party .a).identity.deviceId ≠ (party .b).identity.deviceId
  flags : ∀ s, (party s).myFlags.asBin ≠ 0
  kx : ∀ s m n, S.KxAgrees ((party s).tape.kxKeypair m) ((party s.other).tape.kxKeypair n)

/-- What one side keeps: its constants, one entry for the other side, key pairs of its own making. -/
structure OwnSide (party : Side → Party) (s : Side) (sl : SecurityLayer) : Prop where
  identity : sl.myIdentity = (party s).identity
  tape : sl.peerContainer.random.tape = (party s).tape
  flags : sl.myFlags = (party s).myFlags
  oneEntry : OneEntry sl.peerContainer (party s.other).identity.deviceId
  kxKeypair : ∀ (ref : PeerRef) (p : Peer), sl.peerContainer.heap[ref]? = some p →
    ∃ n, (p.kxPubkey, p.kxPrivkey) = (party s).tape.kxKeypair n

/-- The packet is a hello packet of `identity` for an entry of the container. -/
def HelloOf (S : Sodium) (identity : Identity) (flags : PeerFlags) (c : PeerContainer) (data : Bytes) : Prop :=
  ∃ (ref : PeerRef) (p : Peer) (num : UInt8) (ownHelloseq helloseq : UInt64), c.heap[ref]? = some p ∧
    data = signedHello S identity flags p num ownHelloseq helloseq

/-- The invariant of the two nodes and all packets in flight. -/
structure InAgreement (S : Sodium) (party : Side → Party) (w : Network) : Prop where
  own : ∀ s, OwnSide party s (w.layer s)
  pool : ∀ data ∈ w.pool, IsHelloType (data.getD 0 0) →
    ∃ s, HelloOf S (party s).identity (party s).myFlags (w.layer s).peerContainer data
  session : ∀ (s : Side) (ref : PeerRef) (p : Peer), (w.layer s).peerContainer.heap[ref]? = some p →
    p.id = (party s.other).identity.deviceId → p.negotiated = true → HasSession S party s (w.layer s.other) p

section
variable {S : Sodium} {party : Side → Party}

@[simp] theorem Side.other_other (s : Side) : s.other.other = s := by
  cases s <;> rfl

theorem Side.other_ne (s : Side) : s.other ≠ s := by
  cases s <;> decide

theorem Side.eq_other {s t : Side} (h : t ≠ s) : t = s.other := by
  revert h
  cases s <;> cases t <;> decide

theorem packetsOf_append (out out' : List LayerOutput) : packetsOf (out ++ out') = packetsOf out ++ packetsOf out' :=
  List.filterMap_append

theorem mem_packetsOf {out : List LayerOutput} {data : Bytes} :
    data ∈ packetsOf out ↔ ∃ peerAddress, .toLower peerAddress data ∈ out := by
  rw [packetsOf, List.mem_filterMap]
  constructor
  · rintro ⟨o, ho, h⟩
    cases o with
    | toLower peerAddress d =>
      cases h
      exact ⟨peerAddress, ho⟩
    | toUpper _ _ => cases h
    | wroteKeys _ => cases h
    | negotiated _ => cases h
  · rintro ⟨peerAddress, ho⟩
    exact ⟨_, ho, rfl⟩

theorem Network.after_after (w : Network) (s : Side) (sl sl' : SecurityLayer) (out out' : List LayerOutput) :
    (w.after s sl out).after s sl' out' = w.after s sl' (out ++ out') := by
  simp only [after, Function.update_idem, packetsOf_append, List.append_assoc]

@[simp] theorem Network.layer_after (w : Network) (s : Side) (sl : SecurityLayer) (out : List LayerOutput) :
    (w.after s sl out).layer s = sl := Function.update_self ..

theorem Network.layer_after_ne (w : Network) {s t : Side} (h : t ≠ s) (sl : SecurityLayer) (out : List LayerOutput) :
    (w.after s sl out).layer t = w.layer t := Function.update_of_ne h ..

theorem signedHello_congr {identity : Identity} {flags : PeerFlags} {p p' : Peer} {num : UInt8}
    {ownHelloseq helloseq : UInt64} (hid : p'.id = p.id) (hkx : p'.kxPubkey = p.kxPubkey) :
    signedHello S identity flags p' num ownHelloseq helloseq = signedHello S identity flags p num ownHelloseq helloseq := by
  simp only [signedHello, helloBody, hid, hkx]

/-- Entries of the heap keep what hello packets show. -/
def KeepsNames (c c' : PeerContainer) : Prop :=
  ∀ (ref : PeerRef) (p : Peer), c.heap[ref]? = some p →
    ∃ p', c'.heap[ref]? = some p' ∧ p'.id = p.id ∧ p'.kxPubkey = p.kxPubkey

theorem PeerContainer.KeepsEntries.keepsNames {c c' : PeerContainer} (h : KeepsEntries c c') : KeepsNames c c' := by
  intro ref p hp
  obtain ⟨p', hp', hk⟩ := h.old ref p hp
  exact ⟨p', hp', hk.id, hk.kxPubkey⟩

theorem HelloOf.kept {identity : Identity} {flags : PeerFlags} {c c' : PeerContainer} {data : Bytes}
    (h : HelloOf S identity flags c data) (hk : KeepsNames c c') : HelloOf S identity flags c' data := by
  obtain ⟨ref, p, num, ownHelloseq, helloseq, hp, he⟩ := h
  obtain ⟨p', hp', hid, hkx⟩ := hk ref p hp
  exact ⟨ref, p', num, ownHelloseq, helloseq, hp', he.trans (signedHello_congr hid hkx).symm⟩

/-- The hello packets among the packets of calm steps are made for entries of the heap. -/
theorem SecurityLayer.Calm.hellos {sl sl' : SecurityLayer} {out : List LayerOutput} (h : Calm S sl out sl') {data : Bytes}
    (hd : data ∈ packetsOf out) (hk : IsHelloType (data.getD 0 0)) :
    HelloOf S sl.myIdentity sl.myFlags sl'.peerContainer data := by
  induction h with
  | container sl h => cases hd
  | buffers sl _ _ => cases hd
  | @hello sl peer p hp num hnum helloseq =>
    obtain ⟨peerAddress, hd⟩ := mem_packetsOf.mp hd
    have hderef : sl.deref peer = p := deref_of_entry hp
    rw [List.mem_singleton, sendHelloPacket, LayerOutput.toLower.injEq, hderef] at hd
    exact ⟨peer, p, num, sl.helloseq, helloseq, hp, hd.2⟩
  | @packet sl peerAddress d hd' =>
    obtain ⟨peerAddress', hd⟩ := mem_packetsOf.mp hd
    rw [List.mem_singleton, LayerOutput.toLower.injEq] at hd
    exact absurd (hd.2 ▸ hk) hd'
  | trans h₁ h₂ ih₁ ih₂ =>
    rw [packetsOf_append, List.mem_append] at hd
    rcases hd with hd | hd
    · exact (ih₁ hd).kept h₂.evolves.1.keepsEntries.keepsNames
    · have hlater := ih₂ hd
      rw [myIdentity, h₁.evolves.1.sameNode.identity, h₁.evolves.2.1] at hlater
      exact hlater

/-! ## One side moves -/

/-- The invariant after a move of one side that keeps its constants and its entries. -/
theorem InAgreement.move {w : Network} (hw : InAgreement S party w) {s : Side} {sl : SecurityLayer}
    {out : List LayerOutput} (hown : OwnSide party s sl)
    (hnames : KeepsNames (w.layer s).peerContainer sl.peerContainer)
    (hpool : ∀ data ∈ packetsOf out, IsHelloType (data.getD 0 0) →
      HelloOf S (party s).identity (party s).myFlags sl.peerContainer data)
    (hsession : ∀ (ref : PeerRef) (p : Peer), sl.peerContainer.heap[ref]? = some p →
      p.id = (party s.other).identity.deviceId → p.negotiated = true → HasSession S party s (w.layer s.other) p) :
    InAgreement S party (w.after s sl out) := by
  have hmoved : (w.after s sl out).layer s = sl := w.layer_after s sl out
  have hstays {t : Side} (ht : t ≠ s) : (w.after s sl out).layer t = w.layer t := w.layer_after_ne ht sl out
  have hkept : ∀ t, KeepsNames (w.layer t).peerContainer ((w.after s sl out).layer t).peerContainer := by
    intro t
    by_cases ht : t = s
    · subst ht
      rw [hmoved]
      exact hnames
    · rw [hstays ht]
      exact fun ref p hp => ⟨p, hp, rfl, rfl⟩
  refine ⟨?_, ?_, ?_⟩
  · intro t
    by_cases ht : t = s
    · subst ht
      rw [hmoved]
      exact hown
    · rw [hstays ht]
      exact hw.own t
  · intro data hdata hk
    rcases List.mem_append.mp hdata with hdata | hdata
    · obtain ⟨t, ht⟩ := hw.pool data hdata hk
      exact ⟨t, ht.kept (hkept t)⟩
    · refine ⟨s, ?_⟩
      rw [hmoved]
      exact hpool data hdata hk
  · intro t ref p hp hid hn
    by_cases ht : t = s
    · subst ht
      rw [hmoved] at hp
      rw [hstays t.other_ne]
      exact hsession ref p hp hid hn
    · rw [hstays ht] at hp
      obtain ⟨ref', q, hq, hqid, keys, hkeys, hrx, htx⟩ := hw.session t ref p hp hid hn
      obtain ⟨q', hq', hid', hkx⟩ := hkept t.other ref' q hq
      refine ⟨ref', q', hq', hid'.trans hqid, keys, ?_, hrx, htx⟩
      rw [hkx]
      exact hkeys

theorem Honest.other_ne (hh : Honest S party) (s : Side) :
    (party s.other).identity.deviceId ≠ (party s).identity.deviceId := by
  cases s with
  | a => exact hh.distinct.symm
  | b => exact hh.distinct

theorem Honest.ne_invalid (hh : Honest S party) (s : Side) : (party s).identity.deviceId ≠ .invalid :=
  IpAddress.ne_invalid_of_isFC94 (hh.ready s).valid

theorem OwnSide.calm (hh : Honest S party) {s : Side} {sl sl' : SecurityLayer} {out : List LayerOutput}
    (ho : OwnSide party s sl) (h : Calm S sl out sl') : OwnSide party s sl' := by
  obtain ⟨hevolves, hflags, -⟩ := h.evolves
  have hown : (party s.other).identity.deviceId ≠ sl.peerContainer.identity.deviceId := by
    have hid : sl.peerContainer.identity = (party s).identity := ho.identity
    rw [hid]
    exact hh.other_ne s
  refine ⟨hevolves.sameNode.identity.trans ho.identity, hevolves.sameNode.tape.trans ho.tape,
    hflags.trans ho.flags, hevolves.oneEntry hown (hh.ne_invalid _) ho.oneEntry, ?_⟩
  intro ref p' hp'
  rcases hevolves.keepsEntries.new ref p' hp' with ⟨p, hp, hk⟩ | ⟨-, hf⟩
  · rw [hk.kxPubkey, hk.kxPrivkey]
    exact ho.kxKeypair ref p hp
  · rw [← ho.tape]
    exact hf.kxKeypair

theorem InAgreement.calm (hh : Honest S party) {w : Network} (hw : InAgreement S party w) {s : Side}
    {sl : SecurityLayer} {out : List LayerOutput} (h : Calm S (w.layer s) out sl) :
    InAgreement S party (w.after s sl out) := by
  have hentries := h.evolves.1.keepsEntries
  refine hw.move ((hw.own s).calm hh h) hentries.keepsNames ?_ ?_
  · intro data hdata hk
    have hhello := h.hellos hdata hk
    rw [(hw.own s).identity, (hw.own s).flags] at hhello
    exact hhello
  · intro ref p' hp' hid hn
    rcases hentries.new ref p' hp' with ⟨p, hp, hk⟩ | ⟨-, hf⟩
    · obtain ⟨ref', q, hq, hqid, keys, hkeys, hrx, htx⟩ := hw.session s ref p hp (hk.id.symm.trans hid) (hk.negotiated hn)
      refine ⟨ref', q, hq, hqid, keys, ?_, hk.rxKey.trans hrx, hk.txKey.trans htx⟩
      rw [hk.kxPubkey, hk.kxPrivkey]
      exact hkeys
    · rw [hf.negotiated] at hn
      cases hn

theorem InAgreement.renumber {w : Network} (hw : InAgreement S party w) {s : Side} (helloseq : UInt64) :
    InAgreement S party (w.after s { w.layer s with helloseq := helloseq } []) := by
  have ho := hw.own s
  refine hw.move ⟨ho.identity, ho.tape, ho.flags, ho.oneEntry, ho.kxKeypair⟩ ?_ ?_ (hw.session s)
  · exact fun ref p hp => ⟨p, hp, rfl, rfl⟩
  · intro data hdata
    cases hdata

/-- A write that keeps the key pair and makes no session but one the other side has an entry for. -/
theorem InAgreement.write {w : Network} (hw : InAgreement S party w) (s : Side) (peer : PeerRef) {f : Peer → Peer}
    (hf : ∀ p, (f p).kxPubkey = p.kxPubkey ∧ (f p).kxPrivkey = p.kxPrivkey)
    (hsession : ∀ p, (w.layer s).peerContainer.heap[peer]? = some p → p.id = (party s.other).identity.deviceId →
      (f p).negotiated = true → HasSession S party s (w.layer s.other) (p.update f)) :
    InAgreement S party (w.after s ((w.layer s).modify peer f) []) := by
  have ho := hw.own s
  have hentry {ref : PeerRef} {p' : Peer} (hp' : ((w.layer s).modify peer f).peerContainer.heap[ref]? = some p') :
      ∃ p, (w.layer s).peerContainer.heap[ref]? = some p ∧ (if peer = ref then p.update f else p) = p' := by
    rw [SecurityLayer.modify, heap_modify, Option.map_eq_some_iff] at hp'
    exact hp'
  refine hw.move ⟨ho.identity, ho.tape, ho.flags, ⟨?_, ho.oneEntry.cacheNamed⟩, ?_⟩ ?_ ?_ ?_
  · intro ref p' hp' hid
    obtain ⟨p, hp, rfl⟩ := hentry hp'
    refine ho.oneEntry.indexed ref p hp ?_
    split at hid
    · exact hid
    · exact hid
  · intro ref p' hp'
    obtain ⟨p, hp, rfl⟩ := hentry hp'
    obtain ⟨n, hn⟩ := ho.kxKeypair ref p hp
    refine ⟨n, ?_⟩
    split
    · rw [← hn]
      exact Prod.ext (hf p).1 (hf p).2
    · exact hn
  · intro ref p hp
    refine ⟨if peer = ref then p.update f else p, ?_, ?_, ?_⟩
    · rw [SecurityLayer.modify, heap_modify, hp, Option.map_some]
    · split <;> rfl
    · split
      · exact (hf p).1
      · rfl
  · intro data hdata
    cases hdata
  · intro ref p' hp' hid hn
    obtain ⟨p, hp, rfl⟩ := hentry hp'
    by_cases hr : peer = ref
    · subst hr
      rw [if_pos rfl] at hid hn ⊢
      exact hsession p hp hid hn
    · rw [if_neg hr] at hid hn ⊢
      exact hw.session s ref p hp hid hn

/-! ## A hello packet is accepted -/

theorem Honest.sessionKeys_isSome (hh : Honest S party) {s : Side} {p q : Peer} {m n : ℕ}
    (hp : (p.kxPubkey, p.kxPrivkey) = (party s).tape.kxKeypair m)
    (hq : (q.kxPubkey, q.kxPrivkey) = (party s.other).tape.kxKeypair n) :
    (if (party s.other).identity.deviceId < (party s).identity.deviceId then
      S.kxClientSessionKeys p.kxPubkey p.kxPrivkey q.kxPubkey
    else S.kxServerSessionKeys p.kxPubkey p.kxPrivkey q.kxPubkey).isSome = true := by
  split
  · obtain ⟨rx, tx, hclient, -⟩ := hh.kx s m n
    rw [← hp, ← hq] at hclient
    rw [hclient]
    rfl
  · obtain ⟨rx, tx, -, hserver⟩ := hh.kx s.other n m
    rw [Side.other_other, ← hp, ← hq] at hserver
    rw [hserver]
    rfl

/-- A packet that is accepted for the other side was made by it, for its entry for this side. -/
theorem InAgreement.accepted (hh : Honest S party) {w : Network} (hw : InAgreement S party w) {s : Side}
    {data : Bytes} (hd : w.CanDeliver S party data) {sl : SecurityLayer} {peer : PeerRef} {hello : HelloPacket}
    (ha : Accepted S (w.layer s) (party s.other).identity.deviceId data sl peer hello) :
    ∃ (ref : PeerRef) (q : Peer), (w.layer s.other).peerContainer.heap[ref]? = some q ∧
      q.id = (party s).identity.deviceId ∧ hello.peerKxPubkey = q.kxPubkey ∧
      hello.flags_bin = (party s.other).myFlags.asBin := by
  have hread : HelloPacket.read data ha.long = hello := by
    have hparsed := ha.parsed
    rw [HelloPacket.parse_of_le ha.long, Except.ok.injEq] at hparsed
    exact hparsed
  have hpool : data ∈ w.pool := by
    rcases hd with hd | hd
    · exact hd
    · exfalso
      apply hd s.other
      refine ⟨ha.long, ?_⟩
      rw [hread]
      exact ha.authentic
  obtain ⟨t, ref, q, num, ownHelloseq, helloseq, hq, hdata⟩ := hw.pool data hpool (Or.inr ha.type)
  subst hdata
  rw [HelloPacket.read_signedHello] at hread
  subst hread
  -- the key in the packet is that of the sender
  have hsender : t = s.other := by
    refine Side.eq_other ?_
    rintro rfl
    have hkey : pubkeyToDeviceId S (party t).identity.pubkey = (party t.other).identity.deviceId :=
      (of_decide_eq_true ha.authentic).1
    rw [(hh.ready t).fromKey] at hkey
    exact hh.other_ne t hkey.symm
  subst hsender
  have hcalm := Calm.getOrCreatePeer (S := S) (w.layer s) (party s.other).identity.deviceId
  rw [ha.known] at hcalm
  have hown : sl.myIdentity = (party s).identity := hcalm.evolves.1.sameNode.identity.trans (hw.own s).identity
  have htarget : q.id.data = sl.myIdentity.deviceId.data := ha.toMe
  rw [hown] at htarget
  exact ⟨ref, q, hq, IpAddress.ext htarget, rfl, rfl⟩

theorem OwnSide.writeKeys (hh : Honest S party) {s : Side} {sl : SecurityLayer} (ho : OwnSide party s sl)
    {peer : PeerRef} {p q : Peer} (hp : sl.peerContainer.heap[peer]? = some p) {hello : HelloPacket}
    (hkx : hello.peerKxPubkey = q.kxPubkey) (hflags : hello.flags_bin = (party s.other).myFlags.asBin)
    {keys : FString 32 × FString 32}
    (hkeys : sl.sessionKeys S (party s.other).identity.deviceId peer hello.peerKxPubkey = some keys) :
    HasKeys S party s (p.update (withKeys S sl peer hello (some keys))) q := by
  have hne : hello.flags_bin ≠ 0 := hflags ▸ hh.flags s.other
  have hmixed : mixedKeys S sl peer hello (some keys) =
      (mixFlags S keys.1 hello.flags_bin sl.myFlags.asBin, mixFlags S keys.2 sl.myFlags.asBin hello.flags_bin) := by
    simp only [mixedKeys, Option.getD_some, if_pos hne]
  rw [SecurityLayer.sessionKeys, ho.identity, SecurityLayer.deref, deref_of_entry hp, hkx] at hkeys
  refine ⟨keys, hkeys, ?_, ?_⟩
  · have hrx := congrArg Prod.fst hmixed
    rw [ho.flags, hflags] at hrx
    exact hrx
  · have htx := congrArg Prod.snd hmixed
    rw [ho.flags, hflags] at htx
    exact htx

/-- The two writes of a negotiation keep the invariant, if the session is one the other side has an
entry for. -/
theorem InAgreement.establish {w : Network} {s : Side} {sl : SecurityLayer}
    (hw : InAgreement S party (w.after s sl [])) {peer : PeerRef} {p : Peer}
    (hp : sl.peerContainer.heap[peer]? = some p) {hello : HelloPacket} (keys : Option (FString 32 × FString 32))
    (hsession : p.id = (party s.other).identity.deviceId → HasSession S party s (w.layer s.other)
      (p.update (withKeys S sl peer hello keys))) :
    InAgreement S party (w.after s (sl.writeKeys S peer hello keys) []) ∧
      InAgreement S party (w.after s ((sl.writeKeys S peer hello keys).establish peer) []) := by
  have hother : (w.after s sl []).layer s.other = w.layer s.other := w.layer_after_ne s.other_ne _ _
  have hwritten := hw.write s peer (f := withKeys S sl peer hello keys) (fun _ => ⟨rfl, rfl⟩) (by
      intro p' hp' hid _
      rw [Network.layer_after, hp, Option.some.injEq] at hp'
      subst hp'
      rw [hother]
      exact hsession hid)
  rw [Network.layer_after, Network.after_after] at hwritten
  have hfinished := hwritten.write s peer (f := fun p => { p with negotiated := true })
    (fun _ => ⟨rfl, rfl⟩) (by
      intro p' hp' hid _
      rw [Network.layer_after, modify_peerContainer, heap_modify_self hp, Option.some.injEq] at hp'
      subst hp'
      rw [Network.layer_after_ne w s.other_ne]
      exact hsession hid)
  rw [Network.layer_after, Network.after_after] at hfinished
  exact ⟨hwritten, hfinished⟩

theorem InAgreement.negotiation (hh : Honest S party) {w : Network} (hw : InAgreement S party w) {s : Side}
    {target : HusarnetAddress} {data : Bytes} (hd : w.CanDeliver S party data) {sl sl' : SecurityLayer}
    {peer : PeerRef} {hello : HelloPacket} (ha : Accepted S (w.layer s) target data sl peer hello)
    {out : List LayerOutput} (hn : Negotiation S sl target peer hello (sl', out)) :
    InAgreement S party (w.after s sl' out) := by
  obtain ⟨hcalm, p, hp, hid⟩ := getOrCreatePeer_entry (S := S) ha.known
  have hw₁ := hw.calm hh hcalm
  have ho : OwnSide party s sl := (hw.own s).calm hh hcalm
  -- with the other side the exchange succeeds, and with its entry
  have hsession : ∀ keys, sl.sessionKeys S target peer hello.peerKxPubkey = keys →
      p.id = (party s.other).identity.deviceId → ∃ keys', keys = some keys' ∧
        HasSession S party s (w.layer s.other) (p.update (withKeys S sl peer hello (some keys'))) := by
    intro keys hkeys hpid
    have ht : target = (party s.other).identity.deviceId := hid.symm.trans hpid
    subst ht
    obtain ⟨ref, q, hq, hqid, hkx, hflags⟩ := hw.accepted hh hd ha
    obtain ⟨m, hm⟩ := ho.kxKeypair peer p hp
    obtain ⟨n, hqn⟩ := (hw.own s.other).kxKeypair ref q hq
    have hsome := hh.sessionKeys_isSome hm hqn
    have hsame := hkeys
    rw [SecurityLayer.sessionKeys, ho.identity, SecurityLayer.deref, deref_of_entry hp, hkx] at hsame
    rw [hsame] at hsome
    obtain ⟨keys', rfl⟩ := Option.isSome_iff_exists.mp hsome
    exact ⟨keys', rfl, ref, q, hq, hqid, ho.writeKeys hh hp hkx hflags hkeys⟩
  cases hn with
  | failed hkeys =>
    refine (InAgreement.establish hw₁ hp none ?_).1
    intro hpid
    obtain ⟨keys', hk, -⟩ := hsession none hkeys hpid
    cases hk
  | @done keys hkeys sl₂ _ out₁ out₂ hqueue hreply =>
    have hestablished := (InAgreement.establish hw₁ hp (some keys) (by
      intro hpid
      obtain ⟨keys', hk, hs⟩ := hsession (some keys) hkeys hpid
      cases hk
      exact hs)).2
    have hsent := hestablished.calm hh (s := s) (by rw [Network.layer_after]; exact hqueue)
    have hcounted := hsent.renumber (s := s) (sl₂.helloseq + 1)
    rw [Network.layer_after, Network.after_after] at hcounted
    have hreplied := hcounted.calm hh (s := s) (by rw [Network.layer_after]; exact hreply)
    rw [Network.after_after, Network.after_after, List.nil_append, List.append_nil] at hreplied
    exact hreplied

/-- **Every step of the network keeps the invariant.** -/
theorem InAgreement.step (hh : Honest S party) {w w' : Network} (hw : InAgreement S party w) {e : Side × SecurityEvent}
    (h : w.Step S party e w') : InAgreement S party w' := by
  obtain ⟨hstep, hnet⟩ := h
  rcases hstep.effect with hquiet | ⟨now, target, data, sl, peer, hello, he, ha, hn⟩
  · cases hquiet with
    | calm hcalm => exact hw.calm hh hcalm
    | deliver hcalm _ _ =>
      have hstill := hw.calm hh hcalm
      exact hstill
  · exact hw.negotiation hh (hnet now target data he) ha hn

theorem inAgreement_start : InAgreement S party (Network.start party) where
  own s :=
    { identity := rfl
      tape := rfl
      flags := rfl
      oneEntry := ⟨fun ref p hp _ => (by cases hp), fun _ => rfl⟩
      kxKeypair := fun ref p hp => by cases hp }
  pool data hdata := by cases hdata
  session s ref p hp := by cases hp

/-- Two entries that the sides have for each other hold crosswise equal keys. -/
theorem InAgreement.crosswise (hh : Honest S party) {w : Network} (hw : InAgreement S party w) {ref ref' : PeerRef}
    {p q : Peer} (hp : (w.layer .a).peerContainer.heap[ref]? = some p)
    (hq : (w.layer .b).peerContainer.heap[ref']? = some q) (hpid : p.id = (party .b).identity.deviceId)
    (hqid : q.id = (party .a).identity.deviceId) (hpn : p.negotiated = true) (hqn : q.negotiated = true) :
    p.txKey = q.rxKey ∧ p.rxKey = q.txKey := by
  obtain ⟨r, q', hq', hqid', keys, hkeys, hrx, htx⟩ := hw.session .a ref p hp hpid hpn
  obtain ⟨r', p', hp', hpid', keys', hkeys', hrx', htx'⟩ := hw.session .b ref' q hq hqid hqn
  -- each side has one entry for the other
  have hr : r = ref' := by
    have h₁ := (hw.own .b).oneEntry.indexed r q' hq' hqid'
    rw [(hw.own .b).oneEntry.indexed ref' q hq hqid, Option.some.injEq] at h₁
    exact h₁.symm
  have hr' : r' = ref := by
    have h₁ := (hw.own .a).oneEntry.indexed r' p' hp' hpid'
    rw [(hw.own .a).oneEntry.indexed ref p hp hpid, Option.some.injEq] at h₁
    exact h₁.symm
  subst hr
  subst hr'
  change (w.layer .b).peerContainer.heap[r]? = some q' at hq'
  change (w.layer .a).peerContainer.heap[r']? = some p' at hp'
  rw [hq, Option.some.injEq] at hq'
  rw [hp, Option.some.injEq] at hp'
  subst hq'
  subst hp'
  obtain ⟨m, hm⟩ := (hw.own .a).kxKeypair r' p hp
  obtain ⟨n, hn⟩ := (hw.own .b).kxKeypair r q hq
  change (if (party .b).identity.deviceId < (party .a).identity.deviceId then _ else _) = _ at hkeys
  change (if (party .a).identity.deviceId < (party .b).identity.deviceId then _ else _) = _ at hkeys'
  by_cases hlt : (party .b).identity.deviceId < (party .a).identity.deviceId
  · -- side `a` is the client
    obtain ⟨rx, tx, hclient, hserver⟩ := hh.kx .a m n
    rw [Side.other, ← hm, ← hn] at hclient hserver
    rw [if_pos hlt, hclient, Option.some.injEq] at hkeys
    rw [if_neg (IpAddress.lt_asymm hlt), hserver, Option.some.injEq] at hkeys'
    subst hkeys
    subst hkeys'
    exact ⟨htx.trans hrx'.symm, hrx.trans htx'.symm⟩
  · have hlt' := IpAddress.lt_of_ne hh.distinct.symm hlt
    obtain ⟨rx, tx, hclient, hserver⟩ := hh.kx .b n m
    rw [Side.other, ← hm, ← hn] at hclient hserver
    rw [if_neg hlt, hserver, Option.some.injEq] at hkeys
    rw [if_pos hlt', hclient, Option.some.injEq] at hkeys'
    subst hkeys
    subst hkeys'
    exact ⟨htx.trans hrx'.symm, hrx.trans htx'.symm⟩

end

/-- **Session key agreement.** In every state of every run of the two nodes and the network, two
negotiated entries that the nodes have for each other hold crosswise equal keys. -/
theorem session_keys_agree (S : Sodium) (party : Side → Party) (hh : Honest S party)
    (tr : List ((Side × SecurityEvent) × Network)) (hr : IsRun (Network.Step S party) (Network.start party) tr) :
    ∀ w ∈ states (Network.start party) tr, ∀ ref ref',
      PointsTo (w.layer .a).peerContainer.heap ref (party .b).identity.deviceId →
      PointsTo (w.layer .b).peerContainer.heap ref' (party .a).identity.deviceId →
      ((w.layer .a).deref ref).negotiated = true → ((w.layer .b).deref ref').negotiated = true →
      ((w.layer .a).deref ref).txKey = ((w.layer .b).deref ref').rxKey ∧
        ((w.layer .a).deref ref).rxKey = ((w.layer .b).deref ref').txKey := by
  intro w hw ref ref' href href' hn hn'
  have hagree : InAgreement S party w :=
    hr.keeps inAgreement_start (fun _ _ _ hi hs => hi.step hh hs) w hw
  obtain ⟨p, hp, hid⟩ := Option.map_eq_some_iff.mp href
  obtain ⟨q, hq, hid'⟩ := Option.map_eq_some_iff.mp href'
  rw [SecurityLayer.deref, deref_of_entry hp] at hn ⊢
  rw [SecurityLayer.deref, deref_of_entry hq] at hn' ⊢
  exact hagree.crosswise hh hp hq hid hid' hn hn'

/-! ## A handshake -/

namespace Network

/-- The network after an event of a node that does not fail. -/
def react (S : Sodium) (w : Network) : Side × SecurityEvent → Network
  | (s, .lowerLayerData now peerAddress data) =>
    match (w.layer s).onLowerLayerData S now peerAddress data with
    | .ok (sl, out) => w.after s sl out
    | .error _ => w
  | (s, .upperLayerData target data) =>
    w.after s ((w.layer s).onUpperLayerData S target data).1 ((w.layer s).onUpperLayerData S target data).2
  | (s, .getLatency now peerAddress) =>
    w.after s ((w.layer s).getLatency now peerAddress).1 ((w.layer s).getLatency now peerAddress).2.1
  | (_, .shared _) => w

def inOrder (S : Sodium) (w : Network) : List (Side × SecurityEvent) → Bool
  | [] => true
  | (s, .lowerLayerData now peerAddress data) :: es =>
    data ∈ w.pool ∧ data ≠ [] ∧ inOrder S (w.react S (s, .lowerLayerData now peerAddress data)) es
  | (s, .upperLayerData target data) :: es => inOrder S (w.react S (s, .upperLayerData target data)) es
  | _ => false

theorem isRun_react (S : Sodium) (party : Side → Party) {w : Network} {es : List (Side × SecurityEvent)}
    (h : w.inOrder S es = true) : IsRun (Step S party) w (trace (react S) w es) := by
  induction es generalizing w with
  | nil => trivial
  | cons e es ih =>
    obtain ⟨s, e⟩ := e
    cases e with
    | lowerLayerData now peerAddress data =>
      obtain ⟨hpool, hne, hrest⟩ := of_decide_eq_true h
      obtain ⟨⟨sl, out⟩, hok, -⟩ := onLowerLayerData_handling (S := S) now (w.layer s) peerAddress hne
      refine ⟨?_, ih hrest⟩
      have hreact : w.react S (s, .lowerLayerData now peerAddress data) = w.after s sl out := by
        simp only [react, hok]
      rw [hreact]
      refine .mk (.lowerLayerData hok) ?_
      rintro _ _ _ he
      cases he
      exact Or.inl hpool
    | upperLayerData target data =>
      refine ⟨.mk (.upperLayerData target data) ?_, ih h⟩
      rintro _ _ _ he
      cases he
    | getLatency now peerAddress => cases h
    | shared c => cases h

end Network

/-- Two nodes that let every peer in. -/
def twoParties (s : Side) : Party where
  configManager := .new false (clearIdentity (if s = .a then 1 else 2)).deviceId 0 [] []
  identity := clearIdentity (if s = .a then 1 else 2)
  tape := countingTape
  myFlags := .new
  boot := 0

theorem honest_twoParties : Honest clearSodium twoParties where
  ready s := by
    cases s
    · exact ⟨by decide +kernel, by decide +kernel⟩
    · exact ⟨by decide +kernel, by decide +kernel⟩
  distinct := by decide +kernel
  flags s := by cases s <;> decide
  kx s m n := ⟨_, _, rfl, rfl⟩

def firstHello (s : Side) (num : UInt8) (ownHelloseq helloseq : UInt64) : Bytes :=
  signedHello clearSodium (twoParties s).identity .new
    { (default : Peer) with
      id := (twoParties s.other).identity.deviceId
      kxPubkey := (countingTape.kxKeypair 0).1 } num ownHelloseq helloseq

/-- Data for the other side starts a handshake of three packets. -/
def handshake : List (Side × SecurityEvent) :=
  [(.a, .upperLayerData (twoParties .b).identity.deviceId [1, 2, 3]),
    (.b, .lowerLayerData 0 (twoParties .a).identity.deviceId (firstHello .a 1 0 0)),
    (.a, .lowerLayerData 0 (twoParties .b).identity.deviceId (firstHello .b 2 0 0)),
    (.b, .lowerLayerData 0 (twoParties .a).identity.deviceId (firstHello .a 3 1 0))]

theorem session_keys_agree_handshake :
    let w := last (Network.start twoParties) (trace (Network.react clearSodium) (Network.start twoParties) handshake)
    ((w.layer .a).deref 0).negotiated = true ∧ ((w.layer .b).deref 0).negotiated = true ∧
      ((w.layer .a).deref 0).txKey = ((w.layer .b).deref 0).rxKey ∧
      ((w.layer .a).deref 0).rxKey = ((w.layer .b).deref 0).txKey := by
  intro w
  have hrun : IsRun (Network.Step clearSodium twoParties) (Network.start twoParties)
      (trace (Network.react clearSodium) (Network.start twoParties) handshake) :=
    Network.isRun_react clearSodium twoParties (by decide +kernel)
  have ha : ((w.layer .a).deref 0).negotiated = true := by decide +kernel
  have hb : ((w.layer .b).deref 0).negotiated = true := by decide +kernel
  have hpa : PointsTo (w.layer .a).peerContainer.heap 0 (twoParties .b).identity.deviceId := by
    unfold PointsTo
    decide +kernel
  have hpb : PointsTo (w.layer .b).peerContainer.heap 0 (twoParties .a).identity.deviceId := by
    unfold PointsTo
    decide +kernel
  refine ⟨ha, hb, ?_⟩
  exact session_keys_agree clearSodium twoParties honest_twoParties _ hrun w (mem_states_last _ _) 0 0 hpa hpb ha hb

end Husarnet
