import Husarnet.NodeMoves

/-! # The steps within a run

A run of a node lists the states between events. Its history lists the steps within them as well:
where an event begins, the calls of the socket layer that write paths, and the rest, in which the
layers above leave paths alone. What a step may be depends on the event: a message of a peer is
handled only if its datagram comes now or waits in the queue of the worker.
-/

namespace Husarnet
open Octets Containers PeerContainer Runs
set_option autoImplicit false

inductive NodeAction where
  | began (now : Time) (e : NodeEvent)
  | call (c : SocketCall)
  | above

/-- The steps of a node: an event begins, a step of the socket layer, or one of the layers above it. -/
inductive NodeStep (S : Sodium) : Node → NodeAction → Node → Prop where
  | began (n : Node) (now : Time) (e : NodeEvent) : NodeStep S n (.began now e) { n with sent := [] }
  | call {n n' : Node} {c : SocketCall} (h : SocketStep S n c n') : NodeStep S n (.call c) n'
  | above {n n' : Node} (hp : PathsKept n.peerContainer n'.peerContainer)
      (hi : n'.peerSourceAddresses = n.peerSourceAddresses) (hq : n'.workerQueue = n.workerQueue) :
      NodeStep S n .above n'

namespace NodeAction

def Routine : NodeAction → Prop
  | .call c => c.Routine
  | .above => True
  | .began _ _ => False

/-- The datagram is the one that comes, or a task of the worker. -/
def Pending (n : Node) (e : NodeEvent) (source : InetAddress) (data : Bytes) : Prop :=
  e = .udpPacket source data ∨ ∃ slow, .peerMessage source data slow ∈ n.workerQueue

/-- The steps that a node may take for an event. -/
def Allowed (S : Sodium) (n : Node) (e : NodeEvent) (a : NodeAction) : Prop :=
  a.Routine ∨ (∃ source data, e = .udpPacket source data ∧ a = .call (.queued source data)) ∨
    ∃ source data c, Pending n e source data ∧ c.Handles S source data ∧ a = .call c

variable {S : Sodium} {n : Node} {e : NodeEvent} {source : InetAddress}

theorem Allowed.queued {data : Bytes} (h : (call (.queued source data)).Allowed S n e) : e = .udpPacket source data := by
  rcases h with h | ⟨source', data', he, hc⟩ | ⟨source', data', c, -, hc, he⟩
  · cases h
  · cases hc
    exact he
  · cases he
    rcases hc with hc | ⟨msg, -, hc | ⟨_, _, _, _, -, hc⟩ | ⟨_, _, _, -, hc⟩⟩
    · cases hc
    · cases hc
    · cases hc
    · cases hc

theorem Allowed.replied {myId yourId : HusarnetAddress} {helloCookie : Bytes}
    (h : (call (.replied source myId yourId helloCookie)).Allowed S n e) : ∃ data, Pending n e source data ∧
      parsePeerToPeerMessage S data = .ok (.HELLO_REPLY myId yourId helloCookie) := by
  rcases h with h | ⟨source', data', -, hc⟩ | ⟨source', data, c, hp, hc, he⟩
  · cases h
  · cases hc
  · cases he
    rcases hc with hc | ⟨msg, hmsg, hc | ⟨_, _, _, _, -, hc⟩ | ⟨_, _, _, hm, hc⟩⟩
    · cases hc
    · cases hc
    · cases hc
    · cases hc
      exact ⟨data, hp, hm ▸ hmsg⟩

theorem Allowed.of_expected {now : Time} {m : Move} (h : NodeMove.SocketExpected S now n e m) :
    (call m.toCall).Allowed S n e := by
  have hroutine {m : Move} (h : m.Routine) : (call m.toCall).Allowed S n e := Or.inl h.toCall
  obtain h | h := h
  · exact hroutine h
  · cases e with
    | udpPacket source data =>
      obtain rfl | ⟨msg, -, -, h | ⟨-, rfl⟩⟩ := h
      · exact Or.inr (Or.inl ⟨source, data, rfl, rfl⟩)
      · exact hroutine h
      · exact Or.inl trivial
    | tcpFrame data =>
      obtain ⟨msg, -, h | ⟨cookie, -, rfl⟩⟩ := h
      · exact hroutine h
      · exact Or.inl trivial
    | worker =>
      obtain h | ⟨-, h | ⟨peer, rfl⟩⟩ | ⟨source, data, slow, hq, h⟩ := h
      · exact hroutine h
      · exact hroutine h
      · exact Or.inl trivial
      · have hpending : Pending n .worker source data := Or.inr ⟨slow, List.mem_of_mem_head? hq⟩
        obtain h | ⟨msg, hmsg, h⟩ := h
        · exact hroutine h
        · refine Or.inr (Or.inr ⟨source, data, m.toCall, hpending, Or.inr ⟨msg, hmsg, ?_⟩, rfl⟩)
          obtain h | ⟨peer, myId, yourId, helloCookie, rfl, -, rfl | rfl⟩ | ⟨-, myId, yourId, helloCookie, rfl, -, rfl⟩ := h
          · exact Or.inl h.toCall
          · exact Or.inr (Or.inl ⟨peer, myId, yourId, helloCookie, rfl, rfl⟩)
          · exact Or.inl trivial
          · exact Or.inr (Or.inr ⟨myId, yourId, helloCookie, rfl, rfl⟩)
    | multicastPacket _ _ => cases h
    | tcpClosed => cases h
    | tunPacket _ => cases h
    | periodic _ => cases h
    | getLatency _ => cases h
    | configChange _ => cases h
    | baseReachable _ => cases h

end NodeAction

/-- **One event** is a sequence of steps that are allowed for it. -/
theorem Node.act_leads (S : Sodium) (T : JsonText) {now : Time} {n n' : Node} {e : NodeEvent}
    (h : n.act S T now e = .ok n') : Leads (NodeStep S) (NodeAction.Allowed S n e) n n' := by
  have habove {n₁ n₂ : Node} (hp : PathsKept n₁.peerContainer n₂.peerContainer)
      (hi : n₂.peerSourceAddresses = n₁.peerSourceAddresses) (hq : n₂.workerQueue = n₁.workerQueue) :
      Leads (NodeStep S) (NodeAction.Allowed S n e) n₁ n₂ := .one (.above hp hi hq) (Or.inl trivial)
  refine (act_moves S T h).relates (R := Leads (NodeStep S) (NodeAction.Allowed S n e)) .refl
    (fun _ _ _ => .trans) fun n₁ m n₂ hm hstep => ?_
  cases hstep with
  | socket hsocket =>
    have hdoes : Does S (fun c => (NodeAction.call c).Allowed S n e) n₁ n₂ :=
      hsocket.does (fun c hc => Or.inl hc) (NodeAction.Allowed.of_expected hm)
    exact hdoes.map (g := .call) fun _ c _ hc hcall => ⟨.call hcall, hc⟩
  | layer hk => exact habove hk.paths rfl rfl
  | opened peer time =>
    exact habove (Kept.modify PathKept.refl _ peer fun _ => ⟨⟨rfl, rfl, rfl, rfl, rfl, fun h => h⟩, rfl⟩) rfl rfl
  | tun packets => exact habove (PeersKept.refl _).paths rfl rfl
  | reachable reachable => exact habove (PeersKept.refl _).paths rfl rfl

/-! ## Histories -/

/-- The steps within a run, event by event. -/
inductive History (S : Sodium) : Node → List ((Time × NodeEvent) × Node) → List (NodeAction × Node) → Prop where
  | nil (n : Node) : History S n [] []
  | cons {n n' : Node} {now : Time} {e : NodeEvent} {run : List ((Time × NodeEvent) × Node)}
      {steps more : List (NodeAction × Node)} (hsteps : IsRun (NodeStep S) { n with sent := [] } steps)
      (hlast : last { n with sent := [] } steps = n') (hallowed : ∀ x ∈ steps, x.1.Allowed S n e)
      (hmore : History S n' run more) :
      History S n (((now, e), n') :: run) ((.began now e, { n with sent := [] }) :: (steps ++ more))

namespace History
variable {S : Sodium}

theorem exists_of_run (T : JsonText) (n₀ : Node) (events : List (Time × NodeEvent)) :
    ∃ steps, History S n₀ (n₀.run S T events) steps := by
  have hrun := n₀.isRun_run S T events
  generalize n₀.run S T events = run at hrun ⊢
  induction run generalizing n₀ with
  | nil => exact ⟨[], .nil n₀⟩
  | cons x run ih =>
    obtain ⟨⟨now, e⟩, n'⟩ := x
    obtain ⟨steps, hsteps, hlast, hallowed⟩ := Node.act_leads S T hrun.1
    obtain ⟨more, hmore⟩ := ih n' hrun.2
    exact ⟨_, .cons hsteps hlast hallowed hmore⟩

theorem isRun {n : Node} {run : List ((Time × NodeEvent) × Node)} {steps : List (NodeAction × Node)}
    (h : History S n run steps) : IsRun (NodeStep S) n steps ∧ last n steps = last n run := by
  induction h with
  | nil n => exact ⟨trivial, rfl⟩
  | @cons n n' now e run steps more hsteps hlast _ _ ih =>
    refine ⟨⟨.began n now e, (isRun_append _ steps more).mpr ⟨hsteps, ?_⟩⟩, ?_⟩
    · rw [hlast]
      exact ih.1
    · rw [last, last, last_append, hlast]
      exact ih.2

def Received (past : List NodeAction) (source : InetAddress) (data : Bytes) : Prop :=
  ∃ now, .began now (.udpPacket source data) ∈ past

theorem Received.append {past : List NodeAction} {source : InetAddress} {data : Bytes} (h : Received past source data)
    (more : List NodeAction) : Received (past ++ more) source data := by
  obtain ⟨now, hm⟩ := h
  exact ⟨now, List.mem_append_left more hm⟩

/-- What the steps of one event can put into the queue of the worker. -/
theorem queue_of_steps {n₀ n : Node} {e : NodeEvent} {steps : List (NodeAction × Node)}
    (hr : IsRun (NodeStep S) n steps) (ha : ∀ x ∈ steps, x.1.Allowed S n₀ e) {source : InetAddress} {data : Bytes}
    {slow : data.getD 0 2 = 0 ∨ data.getD 0 2 = 1}
    (h : .peerMessage source data slow ∈ (last n steps).workerQueue) :
    .peerMessage source data slow ∈ n.workerQueue ∨ e = .udpPacket source data := by
  have hleads : Leads (NodeStep S) (NodeAction.Allowed S n₀ e) n (last n steps) := ⟨steps, hr, rfl, ha⟩
  have hstep {m m' : Node} {c : SocketCall} (hc : (NodeAction.call c).Allowed S n₀ e) (hs : SocketStep S m c m')
      (hm : .peerMessage source data slow ∈ m'.workerQueue) :
      .peerMessage source data slow ∈ m.workerQueue ∨ e = .udpPacket source data := by
    cases hs with
    | note _ _ _ hq =>
      rcases hq _ hm with hm | hm
      · exact Or.inl hm
      · cases hm
    | transmit _ _ => exact Or.inl hm
    | container _ _ _ => exact Or.inl hm
    | queued _ source' data' slow' =>
      rcases List.mem_append.mp hm with hm | hm
      · exact Or.inl hm
      · cases List.mem_singleton.mp hm
        exact Or.inr hc.queued
    | claimed _ peer source' _ => exact Or.inl ((Node.addSourceAddress_targets m peer source').workerQueue ▸ hm)
    | attempted now _ peer => exact Or.inl ((Node.attemptReestablish_frame S now m peer).2.2 ▸ hm)
    | replied _ source' myId yourId helloCookie =>
      exact Or.inl (Node.helloReplyReceived_workerQueue m source' myId yourId helloCookie ▸ hm)
  refine hleads.relates (R := fun m m' => .peerMessage source data slow ∈ m'.workerQueue →
    .peerMessage source data slow ∈ m.workerQueue ∨ e = .udpPacket source data) (fun _ => Or.inl) ?_ ?_ h
  · intro m m' m'' h₁ h₂ hm
    exact (h₂ hm).elim h₁ Or.inr
  · intro m a m' hallowed hs hm
    cases hs with
    | began _ _ => exact Or.inl hm
    | call hs => exact hstep hallowed hs hm
    | above _ _ hq => exact Or.inl (hq ▸ hm)

/-- **Every reply that is handled came in a datagram** that was received before. -/
theorem replied_received {n : Node} {run : List ((Time × NodeEvent) × Node)} {steps : List (NodeAction × Node)}
    (h : History S n run steps) {past : List NodeAction}
    (hq : ∀ source data slow, .peerMessage source data slow ∈ n.workerQueue → Received past source data)
    {before after : List (NodeAction × Node)} {x : NodeAction × Node} (he : steps = before ++ x :: after)
    {source : InetAddress} {myId yourId : HusarnetAddress} {helloCookie : Bytes}
    (hx : x.1 = .call (.replied source myId yourId helloCookie)) :
    ∃ data, Received (past ++ before.map Prod.fst) source data ∧
      parsePeerToPeerMessage S data = .ok (.HELLO_REPLY myId yourId helloCookie) := by
  induction h generalizing past before with
  | nil n => exact absurd he.symm (List.append_ne_nil_of_right_ne_nil before (List.cons_ne_nil x after))
  | @cons n n' now e run steps more hsteps hlast hallowed hmore ih =>
    cases before with
    | nil =>
      cases he
      cases hx
    | cons b before =>
      obtain ⟨rfl, htail⟩ := List.cons.inj he
      have hqueue (source : InetAddress) (data : Bytes) (slow : data.getD 0 2 = 0 ∨ data.getD 0 2 = 1)
          (hm : .peerMessage source data slow ∈ n'.workerQueue) :
          Received (past ++ .began now e :: steps.map Prod.fst) source data := by
        rcases queue_of_steps hsteps hallowed (hlast ▸ hm) with hm | rfl
        · exact (hq source data slow hm).append _
        · exact ⟨now, List.mem_append_cons_self⟩
      -- a step of a later event
      have hlater (mid : List (NodeAction × Node)) (hbefore : before = steps ++ mid) (hmid : more = mid ++ x :: after) :
          ∃ data, Received (past ++ (.began now e :: before.map Prod.fst)) source data ∧
            parsePeerToPeerMessage S data = .ok (.HELLO_REPLY myId yourId helloCookie) := by
        obtain ⟨data, hd, hp⟩ := ih hqueue hmid
        refine ⟨data, ?_, hp⟩
        rw [hbefore, List.map_append]
        simpa only [List.append_assoc, List.cons_append] using hd
      rcases List.append_eq_append_iff.mp htail with ⟨mid, hbefore, hmid⟩ | ⟨mid, hbefore, hmid⟩
      · exact hlater mid hbefore hmid
      · cases mid with
        | nil => exact hlater [] (by rw [hbefore, List.append_nil, List.append_nil]) hmid.symm
        | cons y mid =>
          obtain ⟨rfl, -⟩ := List.cons.inj hmid
          have hmem : x ∈ steps := hbefore ▸ List.mem_append_cons_self
          obtain ⟨data, hpending, hp⟩ := (hx ▸ hallowed x hmem).replied
          refine ⟨data, ?_, hp⟩
          rcases hpending with rfl | ⟨slow, hm⟩
          · exact ⟨now, List.mem_append_cons_self⟩
          · exact (hq source data slow hm).append _

end History
end Husarnet
