import Husarnet.SecurityEffects

/-! # Handshakes are authenticated and not replayed

Session keys are written, and sessions begun, by hello packets only that carry a signature of the
peer and echo the node's `helloseq`. Every negotiation that ends moves `helloseq` on, so that a
packet that ended one echoes an old number from then on.
-/

namespace Husarnet
open Octets PeerContainer Runs NgSocketCrypto
set_option autoImplicit false

namespace SecurityLayer
variable {S : Sodium}

/-- A step of a run: the layer before it, the event, the output, the layer after it. -/
abbrev Transition := SecurityLayer × (SecurityEvent × List LayerOutput) × SecurityLayer

/-- The step writes the session keys of the peer or sets `negotiated`. -/
def WritesSession (x : Transition) (peer : PeerRef) : Prop :=
  .wroteKeys peer ∈ x.2.1.2 ∨ .negotiated peer ∈ x.2.1.2 ∨
    ∃ p p', x.1.peerContainer.heap[peer]? = some p ∧ x.2.2.peerContainer.heap[peer]? = some p' ∧ ¬ SessionKept p p'

/-- The step handles a packet that carries a signature, over all bytes before it, of a key that maps
to the peer's id, names the node as its target and echoes the node's `helloseq`. -/
def Authenticated (S : Sodium) (x : Transition) (peer : PeerRef) : Prop :=
  ∃ now target data hello, x.2.1.1 = .lowerLayerData now target data ∧ HelloPacket.parse data = .ok hello ∧
    pubkeyToDeviceId S hello.incomingPubkey = (x.2.2.deref peer).id ∧
    data = hello.signed ++ hello.signature.bytes ∧
    verifySignature S hello.signed KX_KIND hello.incomingPubkey hello.signature = true ∧
    hello.targetId = x.1.myIdentity.deviceId.data ∧ hello.myHelloseq = x.1.helloseq

def endsNegotiation (out : List LayerOutput) : Bool := out.any fun o => match o with
  | .negotiated _ => true
  | _ => false

/-- The step handles the packet `data` and ends a negotiation. -/
def Completes (data : Bytes) (x : Transition) : Prop :=
  (∃ now target, x.2.1.1 = .lowerLayerData now target data) ∧ endsNegotiation x.2.1.2 = true

def negotiations (tr : List ((SecurityEvent × List LayerOutput) × SecurityLayer)) : ℕ :=
  tr.countP fun x => endsNegotiation x.1.2

theorem endsNegotiation_iff (out : List LayerOutput) :
    endsNegotiation out = true ↔ ∃ peer, .negotiated peer ∈ out := by
  rw [endsNegotiation, List.any_eq_true]
  constructor
  · rintro ⟨o, ho, h⟩
    cases o with
    | negotiated peer => exact ⟨peer, ho⟩
    | toLower _ _ => cases h
    | toUpper _ _ => cases h
    | wroteKeys _ => cases h
  · rintro ⟨peer, h⟩
    exact ⟨_, h, rfl⟩

theorem Quiet.endsNegotiation_eq {sl sl' : SecurityLayer} {out : List LayerOutput} (h : Quiet S sl out sl') :
    endsNegotiation out = false := by
  by_contra hne
  obtain ⟨peer, hp⟩ := (endsNegotiation_iff out).mp (by simpa using hne)
  exact (h.silent peer).2 hp

/-! ## One negotiation -/

theorem entry_modify {c : PeerContainer} {ref : PeerRef} {p : Peer} (hp : c.heap[ref]? = some p) (peer : PeerRef)
    (f : Peer → Peer) : ∃ p', (c.modify peer f).heap[ref]? = some p' ∧ p'.id = p.id ∧ (ref ≠ peer → p' = p) := by
  rw [heap_modify, hp]
  by_cases hr : peer = ref
  · refine ⟨p.update f, ?_, rfl, fun hne => absurd hr.symm hne⟩
    rw [Option.map_some, if_pos hr]
  · refine ⟨p, ?_, rfl, fun _ => rfl⟩
    rw [Option.map_some, if_neg hr]

/-- A negotiation keeps the ids of all peers and the sessions of all but the one it is with. -/
theorem Negotiation.entry {sl sl' : SecurityLayer} {target : HusarnetAddress} {peer : PeerRef}
    {hello : HelloPacket} {out : List LayerOutput} (h : Negotiation S sl target peer hello (sl', out)) {ref : PeerRef}
    {p : Peer} (hp : sl.peerContainer.heap[ref]? = some p) :
    ∃ p', sl'.peerContainer.heap[ref]? = some p' ∧ p'.id = p.id ∧ (ref ≠ peer → SessionKept p p') := by
  cases h with
  | failed _ =>
    obtain ⟨p', hp', hid, hother⟩ := entry_modify hp peer _
    exact ⟨p', hp', hid, fun hne => hother hne ▸ .refl p⟩
  | @done keys _ sl₂ _ _ _ hqueue hreply =>
    obtain ⟨p₁, hp₁, hid₁, hother₁⟩ := entry_modify hp peer (withKeys S sl peer hello (some keys))
    obtain ⟨p₂, hp₂, hid₂, hother₂⟩ := entry_modify hp₁ peer fun p => { p with negotiated := true }
    have hevolves : Evolves _ sl'.peerContainer := hqueue.evolves.1.trans hreply.evolves.1
    obtain ⟨p', hp', hk⟩ := hevolves.keepsEntries.old ref p₂ hp₂
    refine ⟨p', hp', hk.id.trans (hid₂.trans hid₁), fun hne => ?_⟩
    have he : p₂ = p := (hother₂ hne).trans (hother₁ hne)
    exact he ▸ hk

theorem Negotiation.writes {sl sl' : SecurityLayer} {target : HusarnetAddress} {peer ref : PeerRef}
    {hello : HelloPacket} {out : List LayerOutput} (h : Negotiation S sl target peer hello (sl', out))
    (hw : .wroteKeys ref ∈ out ∨ .negotiated ref ∈ out) : ref = peer := by
  cases h with
  | failed _ => simpa using hw
  | done _ hqueue hreply =>
    have h₁ := hqueue.silent ref
    have h₂ := hreply.silent ref
    simpa [h₁, h₂] using hw

theorem Negotiation.helloseq {sl sl' : SecurityLayer} {target : HusarnetAddress} {peer : PeerRef}
    {hello : HelloPacket} {out : List LayerOutput} (h : Negotiation S sl target peer hello (sl', out)) :
    sl'.helloseq = if endsNegotiation out then sl.helloseq + 1 else sl.helloseq := by
  cases h with
  | failed _ => rfl
  | done _ hqueue hreply =>
    have hseq : sl'.helloseq = sl.helloseq + 1 := by
      rw [hreply.evolves.2.2]
      exact congrArg (· + 1) hqueue.evolves.2.2
    rw [(endsNegotiation_iff _).mpr ⟨peer, by simp⟩]
    exact hseq

/-- The counter moves on with every negotiation that ends, and only then. -/
theorem SecurityStep.helloseq {sl sl' : SecurityLayer} {e : SecurityEvent} {out : List LayerOutput}
    (h : SecurityStep S sl (e, out) sl') :
    sl'.helloseq = if endsNegotiation out then sl.helloseq + 1 else sl.helloseq := by
  rcases h.effect with hc | ⟨now, target, data, sl₁, peer, hello, -, ha, hn⟩
  · rw [hc.endsNegotiation_eq]
    exact hc.evolves.2.2
  · have hcalm := Calm.getOrCreatePeer (S := S) sl target
    rw [ha.known] at hcalm
    rw [hn.helloseq, hcalm.evolves.2.2]

/-- **Only authenticated packets write sessions.** -/
theorem SecurityStep.authenticated {sl sl' : SecurityLayer} {e : SecurityEvent} {out : List LayerOutput}
    (h : SecurityStep S sl (e, out) sl') {peer : PeerRef} (hw : WritesSession (sl, (e, out), sl') peer) :
    Authenticated S (sl, (e, out), sl') peer := by
  rcases h.effect with hc | ⟨now, target, data, sl₁, peer', hello, he, ha, hn⟩
  · exfalso
    rcases hw with hw | hw | ⟨p, p', hp, hp', hk⟩
    · exact (hc.silent peer).1 hw
    · exact (hc.silent peer).2 hw
    · obtain ⟨p'', hp'', hk'⟩ := hc.evolves.1.keepsEntries.old peer p hp
      rw [hp', Option.some.injEq] at hp''
      exact hk (hp'' ▸ hk')
  · obtain ⟨hcalm, p₁, hp₁, hid₁⟩ := getOrCreatePeer_entry (S := S) ha.known
    have hpeer : peer = peer' := by
      rcases hw with hw | hw | ⟨p, p', hp, hp', hk⟩
      · exact hn.writes (Or.inl hw)
      · exact hn.writes (Or.inr hw)
      · by_contra hne
        obtain ⟨q, hq, hkq⟩ := hcalm.evolves.1.keepsEntries.old peer p hp
        obtain ⟨p'', hp'', -, hother⟩ := hn.entry hq
        rw [hp', Option.some.injEq] at hp''
        exact hk (hp'' ▸ hkq.trans (hother hne))
    subst hpeer
    obtain ⟨p', hp', hid', -⟩ := hn.entry hp₁
    have hderef : (sl'.deref peer).id = target := by
      rw [deref, deref_of_entry hp', hid', hid₁]
    have hparsed := ha.parsed
    rw [HelloPacket.parse_of_le ha.long, Except.ok.injEq] at hparsed
    obtain ⟨hkey, hv⟩ := of_decide_eq_true ha.authentic
    have hbytes : data = hello.signed ++ hello.signature.bytes := hparsed ▸ HelloPacket.read_bytes ha.long
    have hown : sl₁.myIdentity = sl.myIdentity := hcalm.evolves.1.sameNode.identity
    exact ⟨now, target, data, hello, he, ha.parsed, hkey.trans hderef.symm, hbytes, hv, hown ▸ ha.toMe,
      ha.current.trans hcalm.evolves.2.2⟩

/-! ## Runs -/

/-- A packet that ends a negotiation echoes the number the layer has at that time. -/
theorem SecurityStep.echoes {sl sl' : SecurityLayer} {e : SecurityEvent × List LayerOutput}
    (h : SecurityStep S sl e sl') {data : Bytes} (hc : Completes data (sl, e, sl')) : word64 data 89 = sl.helloseq := by
  obtain ⟨⟨now, target, he⟩, hends⟩ := hc
  have hstep : SecurityStep S sl (e.1, e.2) sl' := h
  rcases hstep.effect with
    hcalm | ⟨now', target', data', sl₁, peer, hello, he', ha, -⟩
  · have hsilent := hcalm.endsNegotiation_eq
    dsimp only at hends
    rw [hends] at hsilent
    cases hsilent
  · dsimp only at he
    rw [he'] at he
    cases he
    have hcalm := Calm.getOrCreatePeer (S := S) sl target
    rw [ha.known] at hcalm
    have hparsed := ha.parsed
    rw [HelloPacket.parse_of_le ha.long, Except.ok.injEq] at hparsed
    have hcurrent := ha.current
    rw [← hparsed] at hcurrent
    exact hcurrent.trans hcalm.evolves.2.2

theorem negotiations_cons (x : (SecurityEvent × List LayerOutput) × SecurityLayer)
    (tr : List ((SecurityEvent × List LayerOutput) × SecurityLayer)) :
    negotiations (x :: tr) = negotiations tr + if endsNegotiation x.1.2 then 1 else 0 :=
  List.countP_cons

theorem add_one_ofNat (a : UInt64) (k : ℕ) : a + 1 + UInt64.ofNat k = a + UInt64.ofNat (k + 1) := by
  rw [UInt64.ofNat_add, UInt64.add_assoc, UInt64.add_comm (UInt64.ofNat k)]
  rfl

/-- A packet that ends a negotiation in a run echoes the first number of the run, moved on by fewer
negotiations than end in the run. -/
theorem echoes_run {sl : SecurityLayer} {tr : List ((SecurityEvent × List LayerOutput) × SecurityLayer)}
    (hr : IsRun (SecurityStep S) sl tr) {data : Bytes} {x : Transition} (hx : x ∈ transitions sl tr)
    (hc : Completes data x) : ∃ k < negotiations tr, word64 data 89 = sl.helloseq + UInt64.ofNat k := by
  induction tr generalizing sl with
  | nil => simp [transitions] at hx
  | cons y tr ih =>
    obtain ⟨⟨e, out⟩, sl'⟩ := y
    obtain ⟨hstep, hrest⟩ := hr
    rw [negotiations_cons]
    rcases List.mem_cons.mp hx with rfl | hx
    · refine ⟨0, ?_, ?_⟩
      · rw [if_pos hc.2]
        exact Nat.succ_pos _
      · rw [hstep.echoes hc]
        exact (UInt64.add_zero _).symm
    · obtain ⟨k, hk, hword⟩ := ih hrest hx
      rw [hword, hstep.helloseq]
      cases endsNegotiation out with
      | true =>
        refine ⟨k + 1, Nat.add_lt_add_right hk 1, ?_⟩
        rw [if_pos rfl, add_one_ofNat]
      | false => exact ⟨k, hk, rfl⟩

theorem ofNat_ne_zero {k : ℕ} (h0 : 0 < k) (h : k < 2 ^ 64) : UInt64.ofNat k ≠ 0 := by
  intro he
  have hz : (UInt64.ofNat k).toNat = 0 := by rw [he]; rfl
  rw [UInt64.toNat_ofNat_of_lt' h] at hz
  omega

/-- No packet ends two negotiations of a run. -/
theorem completes_once {sl : SecurityLayer} {tr : List ((SecurityEvent × List LayerOutput) × SecurityLayer)}
    (hr : IsRun (SecurityStep S) sl tr) (hfew : negotiations tr < 2 ^ 64) (data : Bytes) :
    (transitions sl tr).Pairwise fun x y => ¬ (Completes data x ∧ Completes data y) := by
  induction tr generalizing sl with
  | nil => exact List.Pairwise.nil
  | cons y tr ih =>
    obtain ⟨⟨e, out⟩, sl'⟩ := y
    obtain ⟨hstep, hrest⟩ := hr
    rw [negotiations_cons] at hfew
    refine List.Pairwise.cons ?_ (ih hrest (by omega))
    rintro x hx ⟨hfirst, hagain⟩
    obtain ⟨k, hk, hword⟩ := echoes_run hrest hx hagain
    have hends : endsNegotiation out = true := hfirst.2
    rw [if_pos hends] at hfew
    rw [hstep.echoes hfirst, hstep.helloseq, if_pos hends, add_one_ofNat] at hword
    exact ofNat_ne_zero (Nat.succ_pos k) (by omega) (UInt64.left_eq_add.mp hword)

/-- **Authenticated, replay-free handshakes.** In every run of the layer, from any state, whatever
packets it is given and whatever the other layers do: session keys are written and sessions begun
for authenticated packets only; and if fewer than `2 ^ 64` negotiations end, no packet ends two. -/
theorem handshakes_authenticated (S : Sodium) (sl : SecurityLayer)
    (tr : List ((SecurityEvent × List LayerOutput) × SecurityLayer)) (hr : IsRun (SecurityStep S) sl tr)
    (hfew : negotiations tr < 2 ^ 64) :
    (∀ x ∈ transitions sl tr, ∀ peer, WritesSession x peer → Authenticated S x peer) ∧
      ∀ data, (transitions sl tr).Pairwise fun x y => ¬ (Completes data x ∧ Completes data y) := by
  constructor
  · intro x hx peer hw
    exact (hr.of_mem hx).2.authenticated hw
  · exact completes_once hr hfew

/-- A reply that a fresh node takes for one to its own hello: its `helloseq` is 0 here. -/
def replyToFresh : Bytes :=
  signedHello clearSodium (clearIdentity 2) .new { (default : Peer) with id := (clearIdentity 1).deviceId } 2 7 0

theorem handshakes_authenticated_reply : ∃ tr, IsRun (SecurityStep clearSodium) (openTo (clearIdentity 1)) tr ∧
    (∃ x ∈ transitions (openTo (clearIdentity 1)) tr, Completes replyToFresh x) ∧
    (∀ x ∈ transitions (openTo (clearIdentity 1)) tr, ∀ peer, WritesSession x peer → Authenticated clearSodium x peer) ∧
    ∀ data, (transitions (openTo (clearIdentity 1)) tr).Pairwise fun x y => ¬ (Completes data x ∧ Completes data y) := by
  obtain ⟨⟨sl', out⟩, hok, -⟩ := onLowerLayerData_handling (S := clearSodium) 0 (openTo (clearIdentity 1))
    (clearIdentity 2).deviceId (show replyToFresh ≠ [] by decide +kernel)
  have hends : ((openTo (clearIdentity 1)).onLowerLayerData clearSodium 0 (clearIdentity 2).deviceId
      replyToFresh).toOption.map (fun r => endsNegotiation r.2) = some true := by decide +kernel
  rw [hok] at hends
  have hrun : IsRun (SecurityStep clearSodium) (openTo (clearIdentity 1))
      [((.lowerLayerData 0 (clearIdentity 2).deviceId replyToFresh, out), sl')] := ⟨.lowerLayerData hok, trivial⟩
  have hfew : negotiations [((.lowerLayerData 0 (clearIdentity 2).deviceId replyToFresh, out), sl')] < 2 ^ 64 :=
    lt_of_le_of_lt List.countP_le_length (show 1 < 2 ^ 64 by decide)
  refine ⟨_, hrun, ⟨_, List.mem_cons_self .., ⟨_, _, rfl⟩, Option.some.inj hends⟩, ?_⟩
  exact handshakes_authenticated clearSodium _ _ hrun hfew

end SecurityLayer
end Husarnet
