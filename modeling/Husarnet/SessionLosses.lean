import Husarnet.Lib.Runs
import Husarnet.SessionTalk

/-! # The packets that two nodes lose

Whole runs of two nodes: packets of either end, and the timers of the socket layer. A session that ends costs one
packet at most, and sessions that do not match cost every packet until one of them ends.
-/

namespace Husarnet
open Octets PeerContainer SecurityLayer Runs
set_option autoImplicit false

/-- Where each end keeps the other one. -/
def refs (e : Side → End) (s : Side) : PeerRef := (e s).ref

/-- The layers of the two ends with what they hand up: data from above and all that comes of it, or the timer of the
socket layer of a node for one of its peers. -/
inductive TalkStep (S : Sodium) (layer : Side → SecurityLayer) :
    LinkEvent × List (Side × Bytes) → (Side → SecurityLayer) → Prop where
  | packet {fuel : ℕ} {s : Side} {now : Time} {data : Bytes} {layer' : Side → SecurityLayer} {up : List (Side × Bytes)}
      (hpos : 0 < data.length) (hl : data.length ≤ 1950) (h : talk S now fuel layer s data = some (layer', up)) :
      TalkStep S layer (.packet s now data, up) layer'
  | periodicPeer (n : Node) (s : Side) (now : Time) (peer : PeerRef) (h : n.securityLayer = layer s) :
      TalkStep S layer (.periodicPeer s now peer, []) (Function.update layer s (n.periodicPeer S now peer).securityLayer)

/-- An end has a session. -/
def hasSession (e : Side → End) (layer : Side → SecurityLayer) (s : Side) : Bool := ((layer s).deref (e s).ref).negotiated

/-- The step ends a session of one of the two. -/
def endsSession (e : Side → End)
    (x : (Side → SecurityLayer) × (LinkEvent × List (Side × Bytes)) × (Side → SecurityLayer)) : Bool :=
  (hasSession e x.1 .a && !hasSession e x.2.2 .a) || (hasSession e x.1 .b && !hasSession e x.2.2 .b)

/-- A packet of which nothing is handed up. -/
def isLost (x : (LinkEvent × List (Side × Bytes)) × (Side → SecurityLayer)) : Bool :=
  match x.1 with
  | (.packet _ _ _, []) => true
  | _ => false

section Steps
variable {S : Sodium} {e : Side → End} {l : Link} {layer layer' : Side → SecurityLayer}

theorem Holds.hasSession_iff {s : Side} {x : Session} {valid : Time} (h : Holds e s x valid (layer s)) :
    hasSession e layer s = true ↔ x ≠ .missing := by
  obtain ⟨seq, queued, p, -, hs, hp⟩ := h
  rw [hasSession, hs.stands.deref_eq]
  exact hp.negotiated

/-- The timer for a peer, whatever else the node is. -/
theorem periodicPeer_abstracts (h : Abstracts e l layer) {n : Node} {s : Side} (hn : n.securityLayer = layer s) (now : Time)
    (peer : PeerRef) : Abstracts e (l.step (refs e) (.periodicPeer s now peer))
      (Function.update layer s (n.periodicPeer S now peer).securityLayer) := by
  obtain ⟨seq, queued, p, hroom, hs, hp⟩ := h s
  rw [← hn] at hs
  obtain ⟨p', hs', ht⟩ := hs.periodicPeer (S := S) now peer
  have hsession : (l.step (refs e) (.periodicPeer s now peer)).session =
      if peer = refs e s ∧ l.timedOut s now = true then Function.update l.session s .missing else l.session := by
    rw [Link.step]
    by_cases hpeer : peer = refs e s
    · rw [if_pos hpeer, Link.timer]
      by_cases hto : l.timedOut s now = true
      · rw [if_pos hto, if_pos ⟨hpeer, hto⟩]
      · rw [if_neg hto, if_neg fun hboth => hto hboth.2]
    · rw [if_neg hpeer, if_neg fun hboth => hpeer hboth.1]
  have hvalid : (l.step (refs e) (.periodicPeer s now peer)).lastValid = l.lastValid := by
    rw [Link.step]
    split
    · rw [Link.timer]
      split
      · rfl
      · rfl
    · rfl
  have htimedOut : l.timedOut s now = true ↔ l.session s ≠ .missing ∧ p.lastValidPacket < now - RENEGOTIATION_TIMEOUT := by
    rw [hp.lastValidPacket]
    simp [Link.timedOut, Link.isMissing]
  intro t
  rw [hsession, hvalid]
  by_cases hts : t = s
  · subst hts
    rw [Function.update_self]
    refine ⟨seq, queued, p', hroom, hs', ?_⟩
    by_cases hends : peer = refs e t ∧ l.timedOut t now = true
    · rw [if_pos hends, Function.update_self]
      refine ⟨iff_of_false ?_ (by simp), fun h => absurd rfl h, fun h => absurd rfl h, ht.packetQueue.trans hp.packetQueue,
        ht.lastValidPacket.trans hp.lastValidPacket⟩
      rw [ht.negotiated]
      exact fun hkept => hkept.2 ⟨hends.1, (htimedOut.mp hends.2).2⟩
    · rw [if_neg hends]
      refine ⟨?_, fun h => ht.rxKey.trans (hp.rxKey h), fun h => ht.txKey.trans (hp.txKey h),
        ht.packetQueue.trans hp.packetQueue, ht.lastValidPacket.trans hp.lastValidPacket⟩
      rw [ht.negotiated, hp.negotiated]
      constructor
      · exact And.left
      · exact fun hset => ⟨hset, fun hboth => hends ⟨hboth.1, htimedOut.mpr ⟨hset, hboth.2⟩⟩⟩
  · rw [Function.update_of_ne hts]
    have hother : (if peer = refs e s ∧ l.timedOut s now = true then Function.update l.session s .missing
        else l.session) t = l.session t := by
      split
      · exact Function.update_of_ne hts _ _
      · rfl
    rw [hother]
    exact h t

variable {x : LinkEvent × List (Side × Bytes)}

/-- **One step**, on both levels. -/
theorem TalkStep.abstracts (he : Ends S e) (hS : S.BoxOpens) (h : Abstracts e l layer) (hstep : TalkStep S layer x layer') :
    Abstracts e (l.step (refs e) x.1) layer' ∧ x.2 = l.handedUp x.1 := by
  cases hstep with
  | @packet fuel s now data layer' up hpos hl htalk =>
    obtain ⟨layer'', habstracts, henough⟩ := talk_abstracts he hS now h s hpos hl
    have hmore := talk_mono htalk (Nat.le_max_left fuel 6)
    rw [henough _ (Nat.le_max_right fuel 6), Option.some.injEq, Prod.mk.injEq] at hmore
    obtain ⟨rfl, rfl⟩ := hmore
    exact ⟨habstracts, rfl⟩
  | periodicPeer n s now peer hn => exact ⟨periodicPeer_abstracts h hn now peer, rfl⟩

theorem TalkStep.ends (he : Ends S e) (hS : S.BoxOpens) (h : Abstracts e l layer) (hstep : TalkStep S layer x layer')
    (hends : l.ends (refs e) x.1 = true) : endsSession e (layer, x, layer') = true := by
  have hbehind := (hstep.abstracts he hS h).1
  obtain ⟨event, up⟩ := x
  cases event with
  | packet s now data => cases hends
  | periodicPeer s now peer =>
    have hboth : peer = refs e s ∧ l.timedOut s now = true := by simpa [Link.ends] using hends
    have hset : l.session s ≠ .missing := by
      have := hboth.2
      simp only [Link.timedOut, Link.isMissing, Bool.and_eq_true] at this
      simpa using this.1
    have hgone : (l.step (refs e) (.periodicPeer s now peer)).session s = .missing := by
      rw [Link.step, if_pos hboth.1, Link.timer, if_pos hboth.2]
      exact Function.update_self ..
    have hbefore : hasSession e layer s = true := (h s).hasSession_iff.mpr hset
    have hafter : hasSession e layer' s = false := by
      rw [← Bool.not_eq_true, (hbehind s).hasSession_iff, hgone]
      simp
    cases s with
    | a => simp [endsSession, hbefore, hafter]
    | b => simp [endsSession, hbefore, hafter]

/-- Every packet has its step. -/
theorem exists_talkStep (he : Ends S e) (hS : S.BoxOpens) (h : Abstracts e l layer) (s : Side) (now : Time) {data : Bytes}
    (hpos : 0 < data.length) (hl : data.length ≤ 1950) : ∃ layer', Abstracts e (l.packet s now) layer' ∧
      TalkStep S layer (.packet s now data, l.handedUp (.packet s now data)) layer' := by
  obtain ⟨layer', habstracts, htalk⟩ := talk_abstracts he hS now h s hpos hl
  exact ⟨layer', habstracts, .packet hpos hl (htalk 6 le_rfl)⟩

end Steps

/-- What a run loses. -/
structure LossesTold (S : Sodium) (e : Side → End) (l₀ : Link) (layer₀ : Side → SecurityLayer)
    (tr : List ((LinkEvent × List (Side × Bytes)) × (Side → SecurityLayer))) : Prop where
  /-- The sessions and the times tell which packets get through. -/
  handedUp : ∀ before x after, tr = before ++ x :: after →
    x.1.2 = (l₀.after (refs e) (before.map fun y => y.1.1)).handedUp x.1.1
  /-- An end without a session at the start costs a packet at most, and so does a session that ends. -/
  bounded : l₀.Healing → tr.countP isLost ≤ l₀.gaps + (transitions layer₀ tr).countP (endsSession e)
  /-- Whatever is given to either end next, it settles when six packets were handed on. -/
  settles : ∀ (s : Side) (now : Time) (data : Bytes), 0 < data.length → data.length ≤ 1950 →
    ∃ r, ∀ fuel, 6 ≤ fuel → talk S now fuel (last layer₀ tr) s data = some r
  /-- Between sessions that do not match nothing gets through as long as no timer ends one of them. -/
  blackout : l₀.Mismatched → (∀ x ∈ tr, Link.IsEarly (refs e) l₀.lastValid x.1.1) → ∀ x ∈ tr, x.1.2 = []

section Losses
variable {S : Sodium} {e : Side → End} {l₀ : Link} {layer₀ : Side → SecurityLayer}
  {tr : List ((LinkEvent × List (Side × Bytes)) × (Side → SecurityLayer))}

/-- The run of the smaller model. -/
theorem run_abstracts (he : Ends S e) (hS : S.BoxOpens) (h₀ : Abstracts e l₀ layer₀) (hr : IsRun (TalkStep S) layer₀ tr) :
    Abstracts e (l₀.after (refs e) (tr.map fun y => y.1.1)) (last layer₀ tr) := by
  induction tr generalizing l₀ layer₀ with
  | nil => exact h₀
  | cons x tr ih => exact ih (TalkStep.abstracts he hS h₀ hr.1).1 hr.2

theorem run_handedUp (he : Ends S e) (hS : S.BoxOpens) (h₀ : Abstracts e l₀ layer₀) (hr : IsRun (TalkStep S) layer₀ tr)
    {before after : List ((LinkEvent × List (Side × Bytes)) × (Side → SecurityLayer))}
    {x : (LinkEvent × List (Side × Bytes)) × (Side → SecurityLayer)} (hx : tr = before ++ x :: after) :
    x.1.2 = (l₀.after (refs e) (before.map fun y => y.1.1)).handedUp x.1.1 := by
  rw [hx, isRun_append] at hr
  exact (TalkStep.abstracts he hS (run_abstracts he hS h₀ hr.1) hr.2.1).2

theorem run_bounded (he : Ends S e) (hS : S.BoxOpens) (h₀ : Abstracts e l₀ layer₀) (hr : IsRun (TalkStep S) layer₀ tr)
    (hhealing : l₀.Healing) :
    tr.countP isLost ≤ l₀.gaps + (transitions layer₀ tr).countP (endsSession e) := by
  induction tr generalizing l₀ layer₀ with
  | nil => exact Nat.zero_le _
  | cons x tr ih =>
    obtain ⟨habstracts, hup⟩ := TalkStep.abstracts he hS h₀ hr.1
    have hrest := ih habstracts hr.2 (Link.healing_step (refs e) hhealing x.1.1)
    have hpays := Link.gaps_step (refs e) hhealing x.1.1
    have hlost : isLost x = l₀.loses x.1.1 := by
      obtain ⟨⟨event, up⟩, layer⟩ := x
      dsimp only at hup
      subst hup
      cases event with
      | packet s now data => cases hd : l₀.delivers s <;> simp [isLost, Link.handedUp, Link.loses, hd]
      | periodicPeer s now peer => rfl
    have hends : (l₀.ends (refs e) x.1.1).toNat ≤ (endsSession e (layer₀, x)).toNat := by
      cases hl : l₀.ends (refs e) x.1.1 with
      | false => exact Nat.zero_le _
      | true =>
        rw [TalkStep.ends he hS h₀ hr.1 hl]
    have hcount (b : Bool) : (if b = true then 1 else 0) = b.toNat := by cases b <;> rfl
    show List.countP isLost (x :: tr) ≤ l₀.gaps + List.countP (endsSession e) ((layer₀, x) :: transitions x.2 tr)
    rw [List.countP_cons, List.countP_cons, hcount, hcount, hlost]
    omega

theorem run_blackout (he : Ends S e) (hS : S.BoxOpens) (h₀ : Abstracts e l₀ layer₀) (hr : IsRun (TalkStep S) layer₀ tr)
    (hmismatched : l₀.Mismatched) (hearly : ∀ x ∈ tr, Link.IsEarly (refs e) l₀.lastValid x.1.1) : ∀ x ∈ tr, x.1.2 = [] := by
  induction tr generalizing l₀ layer₀ with
  | nil => exact List.forall_mem_nil _
  | cons x tr ih =>
    obtain ⟨habstracts, hup⟩ := TalkStep.abstracts he hS h₀ hr.1
    have hfirst := hmismatched.step_eq (hearly x (List.mem_cons_self ..))
    rw [hfirst] at habstracts
    intro y hy
    rcases List.mem_cons.mp hy with rfl | hy
    · rw [hup]
      cases y.1.1 with
      | packet s now data => simp [Link.handedUp, hmismatched.delivers s]
      | periodicPeer s now peer => rfl
    · exact ih habstracts hr.2 hmismatched (fun y hy => hearly y (List.mem_cons_of_mem _ hy)) y hy

/-- **The packets that two nodes lose.** -/
theorem packets_lost (he : Ends S e) (hS : S.BoxOpens) (h₀ : Abstracts e l₀ layer₀) (hr : IsRun (TalkStep S) layer₀ tr) :
    LossesTold S e l₀ layer₀ tr where
  handedUp _ _ _ hx := run_handedUp he hS h₀ hr hx
  bounded := run_bounded he hS h₀ hr
  settles s now _ hpos hl := by
    obtain ⟨layer', -, htalk⟩ := talk_abstracts he hS now (run_abstracts he hS h₀ hr) s hpos hl
    exact ⟨_, htalk⟩
  blackout := run_blackout he hS h₀ hr

end Losses

/-! ## A node that has forgotten its session -/

/-- The first node has a session of before; the second one has just looked it up. -/
def forgotten : Side → SecurityLayer
  | .a => (lookedUpBy 1 2).modify 0 fun p => { p with negotiated := true, rxKey := .pad 32 [9], txKey := .pad 32 [8] }
  | .b => lookedUpBy 2 1

/-- The key of the session that the two agree on, in both directions. -/
def agreedKey : FString 32 :=
  mixFlags clearSodium (countingTape.kxKeypair 0).1 PeerFlags.new.asBin PeerFlags.new.asBin

def forgottenEnd (s : Side) : End where
  identity := clearIdentity (if s = .a then 1 else 2)
  myFlags := .new
  ref := 0
  kxPubkey := (countingTape.kxKeypair 0).1
  kxPrivkey := (countingTape.kxKeypair 0).2
  rxKey x := if x = .current then agreedKey else .pad 32 [9]
  txKey x := if x = .current then agreedKey else .pad 32 [8]

theorem secretboxOpen_clearSodium {key key' : FString 32} (h : key.bytes.take 16 ≠ key'.bytes.take 16) (nonce : FString 24)
    (text : Bytes) : clearSodium.secretboxOpen key' nonce (clearSodium.secretbox key nonce text) = none := by
  have htake : (key.bytes.take 16 ++ text).take 16 = key.bytes.take 16 := List.take_left' (by simp)
  simp only [clearSodium, htake]
  rw [if_neg fun hboth => h hboth.1]

theorem ends_forgotten : Ends clearSodium forgottenEnd where
  verifies s := clearIdentity_verifies _
  distinct := by decide +kernel
  flags s := by cases s <;> decide
  agrees s := ⟨_, _, rfl, rfl⟩
  current s keys h := by
    have hkeys : keys = ((countingTape.kxKeypair 0).1, (countingTape.kxKeypair 0).1) := by
      rw [agreement] at h
      split at h
      · exact (Option.some.inj h).symm
      · exact (Option.some.inj h).symm
    subst hkeys
    exact ⟨rfl, rfl⟩
  foreign s x y h nonce text := by
    refine secretboxOpen_clearSodium ?_ nonce text
    have hagreed : agreedKey.bytes.take 16 ≠ (FString.pad 32 [8]).bytes.take 16 ∧
        agreedKey.bytes.take 16 ≠ (FString.pad 32 [9]).bytes.take 16 := by decide +kernel
    have hstale : (FString.pad 32 [8]).bytes.take 16 ≠ (FString.pad 32 [9]).bytes.take 16 := by decide
    show (if x = .current then agreedKey else .pad 32 [8]).bytes.take 16 ≠
      (if y = .current then agreedKey else .pad 32 [9]).bytes.take 16
    by_cases hx : x = .current
    · rw [if_pos hx, if_neg (h.resolve_left (not_not.mpr hx))]
      exact hagreed.2
    · rw [if_neg hx]
      split
      · exact hagreed.1.symm
      · exact hstale

def forgottenLink : Link where
  session s := if s = .a then .stale else .missing
  lastValid _ := 0

theorem abstracts_forgotten : Abstracts forgottenEnd forgottenLink forgotten := by
  have hstance (s : Side) : Stance forgottenEnd s 0 0 ((forgotten s).deref 0) (forgotten s) := by
    cases s with
    | a => exact ⟨⟨by decide +kernel, by rfl⟩, by rfl, by rfl, by rfl, by rfl, by rfl, by rfl⟩
    | b => exact ⟨⟨by decide +kernel, by rfl⟩, by rfl, by rfl, by rfl, by rfl, by rfl, by rfl⟩
  intro s
  refine ⟨0, 0, _, by decide, hstance s, ?_⟩
  cases s with
  | a => exact ⟨iff_of_true (by rfl) (by decide), fun _ => by rfl, fun _ => by rfl, by rfl, by rfl⟩
  | b => exact ⟨iff_of_false (by decide +kernel) (fun h => h rfl), fun h => absurd rfl h, fun h => absurd rfl h, by rfl, by rfl⟩

/-- The first of two packets is lost. -/
theorem packets_lost_forgotten : ∃ tr, LossesTold clearSodium forgottenEnd forgottenLink forgotten tr ∧
    tr.map Prod.fst = [(.packet .a 0 [1], []), (.packet .a 1 [2], [(.b, [2])])] := by
  have hone : 0 < ([1] : Bytes).length ∧ ([1] : Bytes).length ≤ 1950 := by decide
  have htwo : 0 < ([2] : Bytes).length ∧ ([2] : Bytes).length ≤ 1950 := by decide
  obtain ⟨first, hfirst, hstep⟩ := exists_talkStep ends_forgotten boxOpens_clearSodium abstracts_forgotten .a 0 hone.1 hone.2
  obtain ⟨second, -, hstep'⟩ := exists_talkStep ends_forgotten boxOpens_clearSodium hfirst .a 1 htwo.1 htwo.2
  have hrun : IsRun (TalkStep clearSodium) forgotten
      [((.packet .a 0 [1], forgottenLink.handedUp (.packet .a 0 [1])), first),
        ((.packet .a 1 [2], (forgottenLink.packet .a 0).handedUp (.packet .a 1 [2])), second)] := ⟨hstep, hstep', trivial⟩
  exact ⟨_, packets_lost ends_forgotten boxOpens_clearSodium abstracts_forgotten hrun, by rfl⟩

end Husarnet
