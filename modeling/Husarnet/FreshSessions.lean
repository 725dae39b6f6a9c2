import Husarnet.Config.UserWhitelist
import Husarnet.NodeMoves

/-! # Sessions that are fresh

A refresh ends the sessions of peers that were silent for too long: it reads the time of the last valid
packet, which the security layer writes when it opens a packet, and not when a session begins.
-/

namespace Husarnet
open Octets Containers PeerContainer Runs
set_option autoImplicit false

/-- The session of a peer is the same, and so is the time of its last valid packet. -/
structure SessionSame (p p' : Peer) : Prop where
  negotiated : p'.negotiated = p.negotiated
  lastValidPacket : p'.lastValidPacket = p.lastValidPacket

theorem SessionSame.refl (p : Peer) : SessionSame p p := ⟨rfl, rfl⟩

theorem SessionSame.trans {p q r : Peer} (h : SessionSame p q) (h' : SessionSame q r) : SessionSame p r :=
  ⟨h'.negotiated.trans h.negotiated, h'.lastValidPacket.trans h.lastValidPacket⟩

namespace Node
variable (S : Sodium) (now : Time)

/-! ## A refresh -/

/-- The session with the peer timed out. -/
def TimedOut (n : Node) (peer : PeerRef) : Prop := (n.deref peer).lastValidPacket < now - RENEGOTIATION_TIMEOUT

theorem attemptReestablish_session (n : Node) (peer other : PeerRef) :
    SessionSame (n.deref other) ((n.attemptReestablish S now peer).deref other) := by
  have hdraw : Kept SessionSame n.peerContainer n.peerContainer.draw := .of_heap_eq .refl rfl rfl
  have hwrite := hdraw.trans (Kept.modify .refl _ peer (f := attempted now n.nextCookie) fun _ => ⟨rfl, rfl⟩) .trans
  rw [← (attemptReestablish_frame S now n peer).1] at hwrite
  exact hwrite.peer other

theorem disconnect_session (n : Node) (peer other : PeerRef) :
    SessionSame (n.deref other) ((n.modify peer fun p => { p with connected := false }).deref other) :=
  (Kept.modify .refl n.peerContainer peer (f := fun p => { p with connected := false }) fun _ => ⟨rfl, rfl⟩).peer other

/-- A session ends here if its peer is the one that is looked at and it timed out. -/
theorem periodicPeer_session (n : Node) (peer other : PeerRef) :
    (((n.periodicPeer S now peer).deref other).negotiated = true ↔
      (n.deref other).negotiated = true ∧ ¬ (other = peer ∧ n.TimedOut now other)) ∧
    ((n.periodicPeer S now peer).deref other).lastValidPacket = (n.deref other).lastValidPacket := by
  have hsame {n' : Node} (h : SessionSame (n.deref other) (n'.deref other))
      (hk : ¬ ((n.deref peer).negotiated = true ∧ n.TimedOut now peer)) :
      ((n'.deref other).negotiated = true ↔ (n.deref other).negotiated = true ∧ ¬ (other = peer ∧ n.TimedOut now other)) ∧
        (n'.deref other).lastValidPacket = (n.deref other).lastValidPacket := by
    refine ⟨?_, h.lastValidPacket⟩
    rw [h.negotiated, iff_self_and]
    rintro hn ⟨rfl, ht⟩
    exact hk ⟨hn, ht⟩
  unfold periodicPeer
  dsimp only
  split
  · rename_i hsilent
    have ha : n.peerContainer.Allocated peer := by
      by_contra ha
      rw [deref, deref_of_not_allocated ha] at hsilent
      cases hsilent.1
    by_cases ho : other = peer
    · subst ho
      have hself : (n.modify other fun p => { p with negotiated := false, connected := false }).deref other = _ :=
        deref_modify_self ha _
      rw [hself]
      refine ⟨?_, rfl⟩
      constructor
      · intro h
        cases h
      · intro h
        exact absurd ⟨rfl, hsilent.2⟩ h.2
    · have hother : (n.modify peer fun p => { p with negotiated := false, connected := false }).deref other = _ :=
        deref_modify_ne n.peerContainer (Ne.symm ho) _
      rw [hother]
      exact ⟨⟨fun h => ⟨h, fun hp => ho hp.1⟩, And.left⟩, rfl⟩
  · rename_i hk
    split
    · exact hsame (disconnect_session n peer other) hk
    · split
      · exact hsame ((disconnect_session n peer other).trans (attemptReestablish_session S now _ peer other)) hk
      · exact hsame (attemptReestablish_session S now n peer other) hk

theorem periodicPeers_session (n : Node) (peers : List PeerRef) (peer : PeerRef) :
    ((peers.foldl (periodicPeer S now) n).deref peer).negotiated = true ↔
      (n.deref peer).negotiated = true ∧ ¬ (peer ∈ peers ∧ n.TimedOut now peer) := by
  induction peers generalizing n with
  | nil => simp
  | cons first peers ih =>
    obtain ⟨hsession, htime⟩ := periodicPeer_session S now n first peer
    have hsilent : (n.periodicPeer S now first).TimedOut now peer ↔ n.TimedOut now peer := by
      rw [TimedOut, TimedOut, htime]
    rw [List.foldl_cons, ih, hsession, hsilent, List.mem_cons, or_and_right, not_or, and_assoc]

/-- **A refresh** ends the sessions that timed out, of the peers it looks at. -/
theorem refresh_session (n : Node) (peer : PeerRef) :
    ((n.refresh S now).deref peer).negotiated = true ↔
      (n.deref peer).negotiated = true ∧ ¬ (peer ∈ n.iteratePeers ∧ n.TimedOut now peer) := by
  have hinit (n : Node) : (n.sendNatInitToBase S now).securityLayer = n.securityLayer := by
    have hudp (n : Node) (msg : PeerToBaseMessage) : (n.sendToBaseUdp S msg).securityLayer = n.securityLayer := by
      obtain ⟨sent, h⟩ := sendToBaseUdp_sent S n msg
      rw [h]
    unfold sendNatInitToBase
    dsimp only
    split
    · rfl
    · split
      · exact (hudp _ _).trans (hudp _ _)
      · exact hudp _ _
  have hsend : ((({ n with lastRefresh := now }.sendLocalAddressesToBase S).sendNatInitToBase S now).sendMulticast).peerContainer =
      n.peerContainer := congrArg SecurityLayer.peerContainer ((hinit _).trans (sendToBaseTcp_securityLayer S _ _))
  have hfold := periodicPeers_session S now
    ((({ n with lastRefresh := now }.sendLocalAddressesToBase S).sendNatInitToBase S now).sendMulticast) n.iteratePeers peer
  rw [TimedOut, deref, deref, hsend] at hfold
  rw [refresh, iteratePeers, hsend]
  exact hfold

end Node

/-! ## One event -/

section Events
variable {S : Sodium} {T : JsonText} {n n' : Node} {now : Time} {e : NodeEvent}

/-- The time of the last valid packet is written when a packet is opened, and by nothing else. -/
theorem NodeMoves.lastValidPacket {m : NodeMove} (h : NodeMoves S n m n') {peer : PeerRef}
    (hm : ∀ time, m ≠ .opened peer time) : (n'.deref peer).lastValidPacket = (n.deref peer).lastValidPacket := by
  cases h with
  | socket hsocket =>
    cases hsocket.timers with
    | kept _ hk _ _ _ => exact (hk.peer peer).lastValidPacket
    | sentData _ ref now _ =>
      exact read_modify Peer.lastValidPacket _ ref (fun p => { p with lastPacket := now }) (fun _ => rfl) peer
    | expired ref now _ =>
      exact read_modify Peer.lastValidPacket _ ref (fun p => { p with negotiated := false, connected := false }) (fun _ => rfl) peer
  | layer hk => exact (hk.peer peer).lastValidPacket
  | opened ref now =>
    have hne : ref ≠ peer := by
      rintro rfl
      exact hm now rfl
    exact congrArg Peer.lastValidPacket (deref_modify_ne n.peerContainer hne _)
  | tun _ => rfl
  | reachable _ => rfl

/-- A session ends when a refresh finds it silent, and in no other way. -/
theorem NodeMoves.negotiated {m : NodeMove} (h : NodeMoves S n m n') {peer : PeerRef}
    (hm : ∀ time, m ≠ .socket (.expired peer time)) (hn : (n.deref peer).negotiated = true) :
    (n'.deref peer).negotiated = true := by
  cases h with
  | socket hsocket =>
    cases hsocket.timers with
    | kept _ hk _ _ _ => exact (hk.peer peer).negotiated hn
    | sentData _ ref now _ =>
      exact (read_modify Peer.negotiated _ ref (fun p => { p with lastPacket := now }) (fun _ => rfl) peer).trans hn
    | expired ref now _ =>
      have hne : ref ≠ peer := by
        rintro rfl
        exact hm now rfl
      exact (congrArg Peer.negotiated (deref_modify_ne n.peerContainer hne _)).trans hn
  | layer hk => exact (hk.peer peer).negotiated hn
  | opened ref now =>
    exact (read_modify Peer.negotiated _ ref (fun p => { p with lastValidPacket := now }) (fun _ => rfl) peer).trans hn
  | tun _ => exact hn
  | reachable _ => exact hn

theorem act_lastValidPacket (h : n.act S T now e = .ok n') {peer : PeerRef} (ho : ¬ n.OpensPacket S now e peer) :
    (n'.deref peer).lastValidPacket = (n.deref peer).lastValidPacket := by
  refine (Node.act_moves S T h).relates
    (R := fun n n' : Node => (n'.deref peer).lastValidPacket = (n.deref peer).lastValidPacket) (fun _ => rfl)
    (fun _ _ _ h₁ h₂ => h₂.trans h₁) fun n₁ m n₂ hm hstep => hstep.lastValidPacket fun time he => ?_
  subst he
  exact ho hm.2

theorem act_negotiated (h : n.act S T now e = .ok n') (hr : ¬ n.Refreshing e) {peer : PeerRef}
    (hn : (n.deref peer).negotiated = true) : (n'.deref peer).negotiated = true := by
  refine (Node.act_moves S T h).relates
    (R := fun n n' : Node => (n.deref peer).negotiated = true → (n'.deref peer).negotiated = true) (fun _ h => h)
    (fun _ _ _ h₁ h₂ h => h₂ (h₁ h)) (fun n₁ m n₂ hm hstep => hstep.negotiated fun time he => ?_) hn
  subst he
  exact hr (NodeMove.SocketExpected.origin hm).2

theorem act_refreshing (h : n.act S T now e = .ok n') (hr : n.Refreshing e) (peer : PeerRef) :
    (n'.deref peer).negotiated = true ↔
      (n.deref peer).negotiated = true ∧ ¬ (peer ∈ n.iteratePeers ∧ n.TimedOut now peer) := by
  obtain ⟨rfl, hq⟩ := hr
  obtain ⟨tasks, hq⟩ := List.head?_eq_some_iff.mp hq
  have hreceive : n.receive S now .worker = .ok ({ n with workerQueue := tasks }.refresh S now, none) :=
    Node.workerStep_refresh S now hq
  have hevent : Node.IsSocketEvent .worker := trivial
  rw [Node.act_of_socket S T hevent, hreceive] at h
  cases h
  exact Node.refresh_session S now { n with workerQueue := tasks } peer

/-- Data that is handed up is handled by the layers above, and then the event is over. -/
theorem Node.HandsUp.act_eq {n₁ : Node} {peerAddress : HusarnetAddress} {r : SecurityLayer × List LayerOutput}
    (h : n.HandsUp S now e n₁ peerAddress r) :
    n.act S T now e = (n₁.withSecurityLayer r.1).handOver S now r.2 := by
  obtain ⟨data, hreceive, hlayer⟩ := h.handled
  have hevent : Node.IsSocketEvent e := by
    cases e with
    | tunPacket _ => cases hreceive
    | getLatency _ => cases hreceive
    | configChange _ => cases hreceive
    | baseReachable _ => cases hreceive
    | udpPacket _ _ => trivial
    | multicastPacket _ _ => trivial
    | tcpFrame _ => trivial
    | tcpClosed => trivial
    | worker => trivial
    | periodic _ => trivial
  rw [Node.act_of_socket S T hevent, hreceive]
  show n₁.passUp S now (some (peerAddress, data)) = _
  rw [Node.passUp, hlayer]
  rfl

theorem act_opens (h : n.act S T now e = .ok n') {peer : PeerRef} (ho : n.OpensPacket S now e peer) :
    (n'.deref peer).lastValidPacket = now := by
  obtain ⟨n₁, peerAddress, r, data, hhands, hp, hout⟩ := ho
  rw [hhands.act_eq] at h
  obtain ⟨packet, -, hlayer⟩ := hhands.handled
  have hset : ((n₁.withSecurityLayer r.1).deref peer).lastValidPacket = now := by
    cases SecurityLayer.onLowerLayerData_peers hlayer with
    | kept _ hnone => exact absurd hout (hnone peerAddress data)
    | @opened sl' peer' _ hp' ha _ =>
      have hsame : peer' = peer := Option.some.inj (hp'.symm.trans hp)
      subst hsame
      exact congrArg Peer.lastValidPacket (deref_modify_self ha _)
  refine (Node.handOver_moves S h).relates
    (R := fun n n' : Node => (n.deref peer).lastValidPacket = now → (n'.deref peer).lastValidPacket = now) (fun _ h => h)
    (fun _ _ _ h₁ h₂ h => h₂ (h₁ h)) (fun n₁ m n₂ hm hstep ht => ?_) hset
  rw [hstep.lastValidPacket, ht]
  rintro time rfl
  exact hm

theorem act_finishes (h : n.act S T now e = .ok n') {n₁ : Node} {peerAddress : HusarnetAddress}
    {r : SecurityLayer × List LayerOutput} (hhands : n.HandsUp S now e n₁ peerAddress r) {peer : PeerRef}
    (hf : .negotiated peer ∈ r.2) : (n'.deref peer).negotiated = true := by
  rw [hhands.act_eq] at h
  obtain ⟨packet, -, hlayer⟩ := hhands.handled
  have hset : ((n₁.withSecurityLayer r.1).deref peer).negotiated = true := SecurityLayer.onLowerLayerData_negotiated hlayer hf
  refine (Node.handOver_moves S h).relates
    (R := fun n n' : Node => (n.deref peer).negotiated = true → (n'.deref peer).negotiated = true) (fun _ h => h)
    (fun _ _ _ h₁ h₂ h => h₂ (h₁ h)) (fun n₁ m n₂ hm hstep => hstep.negotiated ?_) hset
  rintro time rfl
  exact hm

end Events

/-! ## Runs -/

/-- An event of a run, with its time, the node before it and the node behind it. -/
abbrev NodeTransition := Node × (Time × NodeEvent) × Node

section Steps
variable (S : Sodium) (peer : PeerRef)

/-- The negotiation with the peer is finished. -/
def FinishesNegotiation (x : NodeTransition) : Prop :=
  ∃ n₁ peerAddress r, { x.1 with sent := [] }.HandsUp S x.2.1.1 x.2.1.2 n₁ peerAddress r ∧ .negotiated peer ∈ r.2

/-- A data packet of the peer is opened. -/
def OpensData (x : NodeTransition) : Prop := { x.1 with sent := [] }.OpensPacket S x.2.1.1 x.2.1.2 peer

/-- A refresh looks at the peer. -/
def Refreshes (x : NodeTransition) : Prop := x.1.Refreshing x.2.1.2 ∧ peer ∈ x.1.iteratePeers

def EndsSession (x : NodeTransition) : Prop :=
  (x.1.deref peer).negotiated = true ∧ (x.2.2.deref peer).negotiated = false

/-- A session with the peer began less than the timeout before. -/
def FreshAt (before : List NodeTransition) (t : Time) : Prop :=
  ∃ x ∈ before, FinishesNegotiation S peer x ∧ t - x.2.1.1 < RENEGOTIATION_TIMEOUT

/-- A data packet of the peer was opened within the timeout, or none yet on a clock that is within it. -/
def HeardAt (before : List NodeTransition) (t : Time) : Prop :=
  (∃ x ∈ before, OpensData S peer x ∧ t - RENEGOTIATION_TIMEOUT ≤ x.2.1.1) ∨
    ((∀ x ∈ before, ¬ OpensData S peer x) ∧ t ≤ RENEGOTIATION_TIMEOUT)

end Steps

section Runs
variable {S : Sodium} {T : JsonText} {peer : PeerRef} {n₀ : Node} {run : List ((Time × NodeEvent) × Node)}

/-- A session ends in a refresh that looks at its peer and finds that it timed out. -/
theorem endsSession_iff (hr : IsRun (Node.RunStep S T) n₀ run) {x : NodeTransition} (hx : x ∈ transitions n₀ run) :
    EndsSession peer x ↔ (x.1.deref peer).negotiated = true ∧ Refreshes peer x ∧ x.1.TimedOut x.2.1.1 peer := by
  have hact := (hr.of_mem hx).2
  by_cases hrefresh : { x.1 with sent := [] }.Refreshing x.2.1.2
  · have hsession := act_refreshing hact hrefresh peer
    have hiff : (x.2.2.deref peer).negotiated = true ↔
        (x.1.deref peer).negotiated = true ∧ ¬ (peer ∈ x.1.iteratePeers ∧ x.1.TimedOut x.2.1.1 peer) := hsession
    rw [EndsSession, ← Bool.not_eq_true, hiff]
    constructor
    · rintro ⟨hn, hend⟩
      have hboth : peer ∈ x.1.iteratePeers ∧ x.1.TimedOut x.2.1.1 peer := by
        by_contra hnone
        exact hend ⟨hn, hnone⟩
      exact ⟨hn, ⟨hrefresh, hboth.1⟩, hboth.2⟩
    · rintro ⟨hn, ⟨-, hp⟩, ht⟩
      exact ⟨hn, fun hkept => hkept.2 ⟨hp, ht⟩⟩
  · constructor
    · rintro ⟨hn, hend⟩
      have hkept : (x.2.2.deref peer).negotiated = true := act_negotiated hact hrefresh hn
      rw [hend] at hkept
      cases hkept
    · rintro ⟨-, ⟨hyes, -⟩, -⟩
      exact absurd hyes hrefresh

/-- The time of the last valid packet is that of the last packet that was opened, or 0. -/
theorem lastValidPacket_eq (hr : IsRun (Node.RunStep S T) n₀ run) (h0 : (n₀.deref peer).lastValidPacket = 0) :
    (∃ earlier x later, transitions n₀ run = earlier ++ x :: later ∧ OpensData S peer x ∧
        x.2.1.1 = ((last n₀ run).deref peer).lastValidPacket ∧ ∀ y ∈ later, ¬ OpensData S peer y) ∨
      ((∀ x ∈ transitions n₀ run, ¬ OpensData S peer x) ∧ ((last n₀ run).deref peer).lastValidPacket = 0) := by
  have hstamp := last_stamp (s := n₀) (f := fun n : Node => (n.deref peer).lastValidPacket) (v := Prod.fst)
    (W := fun n e => OpensData S peer (n, e, n))
    (fun x hx ho => act_opens (hr.of_mem hx).2 ho) fun x hx ho => act_lastValidPacket (hr.of_mem hx).2 ho
  rw [h0] at hstamp
  exact hstamp

/-- A peer was heard from if and only if its session would not time out. -/
theorem heardAt_iff (hr : IsRun (Node.RunStep S T) n₀ run) (h0 : (n₀.deref peer).lastValidPacket = 0)
    (htimes : (transitions n₀ run).Pairwise fun x y => x.2.1.1 ≤ y.2.1.1) (t : Time) :
    HeardAt S peer (transitions n₀ run) t ↔ ¬ (last n₀ run).TimedOut t peer := by
  rw [Node.TimedOut, not_lt]
  obtain ⟨earlier, x, later, he, ho, htime, hlater⟩ | ⟨hnone, hzero⟩ := lastValidPacket_eq hr h0
  · rw [← htime]
    constructor
    · rintro (⟨y, hy, hoy, hrecent⟩ | ⟨hnone, -⟩)
      · -- no packet was opened behind the last one
        have hle : y.2.1.1 ≤ x.2.1.1 := by
          rw [he] at hy htimes
          obtain hy | hy := List.mem_append.mp hy
          · exact (List.pairwise_append.mp htimes).2.2 y hy x (List.mem_cons_self ..)
          · obtain rfl | hy := List.mem_cons.mp hy
            · exact le_refl _
            · exact absurd hoy (hlater y hy)
        exact hrecent.trans hle
      · have hx : x ∈ transitions n₀ run := by
          rw [he]
          exact List.mem_append_cons_self
        exact absurd ho (hnone x hx)
    · intro hrecent
      refine Or.inl ⟨x, ?_, ho, hrecent⟩
      rw [he]
      exact List.mem_append_cons_self
  · rw [hzero]
    constructor
    · rintro (⟨y, hy, hoy, -⟩ | ⟨-, hearly⟩)
      · exact absurd hoy (hnone y hy)
      · exact sub_nonpos.mpr hearly
    · intro hearly
      exact Or.inr ⟨hnone, sub_nonpos.mp hearly⟩

/-- The node knows at each step from whom it has heard. -/
theorem heardAt_before (hr : IsRun (Node.RunStep S T) n₀ run) (h0 : (n₀.deref peer).lastValidPacket = 0)
    (htimes : (transitions n₀ run).Pairwise fun x y => x.2.1.1 ≤ y.2.1.1) {before after : List NodeTransition}
    {x : NodeTransition} (he : transitions n₀ run = before ++ x :: after) :
    HeardAt S peer before x.2.1.1 ↔ ¬ x.1.TimedOut x.2.1.1 peer := by
  obtain ⟨tr, htr, rfl, hx⟩ := hr.before he
  rw [he] at htimes
  rw [heardAt_iff htr h0 (List.pairwise_append.mp htimes).1, hx]

/-- A session that began in a run and was not ended since is there. -/
theorem negotiated_of_finishes (hr : IsRun (Node.RunStep S T) n₀ run) {before after : List NodeTransition} {x : NodeTransition}
    (he : transitions n₀ run = before ++ x :: after) (hf : FinishesNegotiation S peer x)
    (hkept : ∀ y ∈ after, ¬ EndsSession peer y) : ((last n₀ run).deref peer).negotiated = true := by
  obtain ⟨tr₁, z, tr₂, rfl, -, rfl, rfl⟩ := transitions_eq_append_cons he
  obtain ⟨-, hr₂⟩ := (isRun_append n₀ tr₁ _).mp hr
  obtain ⟨n₁, peerAddress, r, hhands, hm⟩ := hf
  have hset : (z.2.deref peer).negotiated = true := act_finishes hr₂.1 hhands hm
  rw [last_append]
  refine persists (P := fun n : Node => (n.deref peer).negotiated = true) (s := z.2) (fun y hy hn => ?_) (Or.inl hset)
  by_contra hend
  exact hkept y hy ⟨hn, Bool.not_eq_true _ ▸ hend⟩

end Runs

/-- **When fresh sessions are kept.** In a run of a node from its start, at times that do not decrease: the session
with a peer is never ended within the timeout behind the end of a negotiation, if and only if, whenever a refresh
looks at the peer within that time, data of the peer was opened within the timeout before, or none yet on a clock
that is within it. -/
theorem fresh_sessions_kept_iff (S : Sodium) (T : JsonText) (configManager : ConfigManager) (identity : Identity)
    (tape : Tape) (myFlags : PeerFlags) (boot : UInt64) (userAgent : Bytes) (workerQueueSize : ℕ) (sourcePort : UInt16)
    (events : List (Time × NodeEvent)) (htimes : events.Pairwise fun e e' => e.1 ≤ e'.1) (peer : PeerRef) :
    let n₀ := Node.new configManager identity tape myFlags boot userAgent workerQueueSize sourcePort
    let run := n₀.run S T events
    (∀ before x after, transitions n₀ run = before ++ x :: after → FreshAt S peer before x.2.1.1 →
        ¬ EndsSession peer x) ↔
      ∀ before x after, transitions n₀ run = before ++ x :: after → FreshAt S peer before x.2.1.1 →
        Refreshes peer x → HeardAt S peer before x.2.1.1 := by
  intro n₀ run
  have hrun : IsRun (Node.RunStep S T) n₀ run := n₀.isRun_run S T events
  have hordered : (transitions n₀ run).Pairwise fun x y => x.2.1.1 ≤ y.2.1.1 := pairwise_transitions_attempts htimes
  have hstart : (n₀.deref peer).lastValidPacket = 0 := rfl
  have hheard {before after : List NodeTransition} {x : NodeTransition} (he : transitions n₀ run = before ++ x :: after) :
      HeardAt S peer before x.2.1.1 ↔ ¬ x.1.TimedOut x.2.1.1 peer := heardAt_before hrun hstart hordered he
  have hmem {before after : List NodeTransition} {x : NodeTransition} (he : transitions n₀ run = before ++ x :: after) :
      x ∈ transitions n₀ run := by
    rw [he]
    exact List.mem_append_cons_self
  constructor
  · intro hkept before x after he hfresh hrefresh
    rw [hheard he]
    intro ht
    obtain ⟨y, hy, hf, hrecent⟩ := hfresh
    obtain ⟨earlier, later, hsplit⟩ := List.append_of_mem hy
    -- no session ended between the negotiation and this step
    have hquiet : ∀ z ∈ later, ¬ EndsSession peer z := by
      intro z hz
      obtain ⟨later₁, later₂, rfl⟩ := List.append_of_mem hz
      have hez : transitions n₀ run = (earlier ++ y :: later₁) ++ z :: (later₂ ++ x :: after) := by
        rw [he, hsplit]
        simp
      have hzx : z.2.1.1 ≤ x.2.1.1 := by
        rw [hez] at hordered
        have hz := (List.pairwise_cons.mp (List.pairwise_append.mp hordered).2.1).1
        exact hz x List.mem_append_cons_self
      refine hkept _ z _ hez ⟨y, List.mem_append_cons_self, hf, ?_⟩
      exact lt_of_le_of_lt (sub_le_sub_right hzx _) hrecent
    obtain ⟨tr, htr, htransitions, hx⟩ := hrun.before he
    have hn := negotiated_of_finishes htr (htransitions.trans hsplit) hf hquiet
    rw [hx] at hn
    exact hkept before x after he ⟨y, hy, hf, hrecent⟩ ((endsSession_iff hrun (hmem he)).mpr ⟨hn, hrefresh, ht⟩)
  · intro hall before x after he hfresh hend
    obtain ⟨-, hrefresh, ht⟩ := (endsSession_iff hrun (hmem he)).mp hend
    exact (hheard he).mp (hall before x after he hfresh hrefresh) ht

/-- The base relays a packet of a peer over TCP. -/
theorem Node.receive_relayed (S : Sodium) (now : Time) (n : Node) {data packet : Bytes} {source : HusarnetAddress}
    (h : parseBaseToPeerMessage data = .ok (.DATA source packet)) :
    ∃ n₁, n.receive S now (.tcpFrame data) = .ok (n₁, some (source, packet)) ∧ n₁.securityLayer = n.securityLayer := by
  refine ⟨{ n with lastBaseTcpMessage := now, lastBaseTcpAction := now, baseConnectRetries := 0 }, ?_, rfl⟩
  show n.tcpFrameReceived S now data = _
  rw [Node.tcpFrameReceived, h]
  rfl

/-- A reply that a node without sessions takes for one to its hello. -/
def helloReply : Bytes :=
  signedHello clearSodium (clearIdentity 2) .new { (default : Peer) with id := (clearIdentity 1).deviceId } 2 7 0

/-- The node connects, gets its cookie, ends a handshake with a peer and does its refresh a second later. -/
def refreshAfterHandshake : List (Time × NodeEvent) :=
  [(200000, .periodic []), (200001, .tcpFrame ([0] ++ List.replicate 16 7)),
    (200002, .tcpFrame ([2] ++ (clearIdentity 2).deviceId.data.bytes ++ helloReply)), (201000, .worker)]

def refreshedRun : List ((Time × NodeEvent) × Node) := baseNode.run clearSodium ConfigManager.plainText refreshAfterHandshake

theorem fresh_sessions_kept_iff_refresh :
    (∀ before x after, transitions baseNode refreshedRun = before ++ x :: after →
        FreshAt clearSodium 0 before x.2.1.1 → ¬ EndsSession 0 x) ↔
      ∀ before x after, transitions baseNode refreshedRun = before ++ x :: after →
        FreshAt clearSodium 0 before x.2.1.1 → Refreshes 0 x → HeardAt clearSodium 0 before x.2.1.1 :=
  fresh_sessions_kept_iff clearSodium ConfigManager.plainText
    { (openNode (clearIdentity 1)).configManager with baseAddresses := ⟨[.parse (ascii "::ffff:0a00:0001")], by decide⟩ }
    (clearIdentity 1) countingTape .new 0 [] 4 5000 refreshAfterHandshake (by decide) 0

/-- The refresh ends the session that just began. -/
theorem fresh_session_ended :
    ¬ ∀ before x after, transitions baseNode refreshedRun = before ++ x :: after →
        FreshAt clearSodium 0 before x.2.1.1 → ¬ EndsSession 0 x := by
  intro hkept
  have hsessions : refreshedRun.map (fun x => (x.2.deref 0).negotiated) = [false, false, true, false] := by decide +kernel
  have hnegotiates : refreshedRun.map (fun x => (x.2.securityLayer.onLowerLayerData clearSodium 200002
      (clearIdentity 2).deviceId helloReply).toOption.map fun r => decide (.negotiated 0 ∈ r.2)) =
        [some true, some true, some false, some false] := by decide +kernel
  have hlength := congrArg List.length hsessions
  rw [List.length_map] at hlength
  have hlabels : refreshedRun.map Prod.fst = refreshAfterHandshake :=
    (Node.labels_run clearSodium ConfigManager.plainText baseNode refreshAfterHandshake).eq_of_length
      ((List.length_map _).trans hlength)
  generalize refreshedRun = run at hkept hsessions hnegotiates hlabels hlength
  obtain ⟨w, x, y, z, rfl⟩ := List.length_eq_four.mp hlength
  simp only [List.map_cons, List.map_nil, List.cons.injEq, and_true, refreshAfterHandshake] at hsessions hnegotiates hlabels
  have hfinishes : FinishesNegotiation clearSodium 0 (x.2, y) := by
    have hparse : parseBaseToPeerMessage ([2] ++ (clearIdentity 2).deviceId.data.bytes ++ helloReply) =
        .ok (.DATA (clearIdentity 2).deviceId helloReply) := by decide +kernel
    obtain ⟨n₁, hreceive, hlayer⟩ := Node.receive_relayed clearSodium 200002 { x.2 with sent := [] } hparse
    have hout := hnegotiates.2.1
    cases hr : x.2.securityLayer.onLowerLayerData clearSodium 200002 (clearIdentity 2).deviceId helloReply with
    | error v =>
      rw [hr] at hout
      cases hout
    | ok r =>
      rw [hr] at hout
      refine ⟨n₁, (clearIdentity 2).deviceId, r, ⟨helloReply, ?_, ?_⟩, of_decide_eq_true (Option.some.inj hout)⟩
      · rw [hlabels.2.2.1]
        exact hreceive
      · rw [hlayer, hlabels.2.2.1]
        exact hr
  refine hkept [(baseNode, w), (w.2, x), (x.2, y)] (y.2, z) [] rfl ⟨(x.2, y), by simp, hfinishes, ?_⟩ hsessions.2.2
  show z.1.1 - y.1.1 < RENEGOTIATION_TIMEOUT
  rw [hlabels.2.2.1, hlabels.2.2.2]
  decide

end Husarnet
