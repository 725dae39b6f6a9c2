import Husarnet.Config.UserWhitelist
import Husarnet.NodeMoves

/-! # Times that stand for never

The socket layer keeps the time of the last NAT_OK and, for each peer, of the last data that was
sent to it, and compares them with the clock. Both begin as 0, so that on a clock that begins near 0
what never happened counts as recent until the timeout is over.
-/

namespace Husarnet
open Octets Containers PeerContainer Runs
set_option autoImplicit false

/-- A time that begins as 0 is taken for recent rightly, if and only if it is that of an event or the clock is past
the timeout. -/
theorem stamp_right_iff {ι : Type} {Event : ι → Prop} {time : ι → Time} {stamp : Time}
    (h : (∃ x, Event x ∧ time x = stamp) ∨ stamp = 0 ∧ ∀ x, ¬ Event x) (t timeout : Time) :
    (t - stamp < timeout → ∃ x, Event x ∧ t - time x < timeout) ↔ timeout ≤ t ∨ ∃ x, Event x := by
  obtain ⟨x, hx, rfl⟩ | ⟨rfl, hnone⟩ := h
  · constructor
    · exact fun _ => Or.inr ⟨x, hx⟩
    · exact fun _ hrecent => ⟨x, hx, hrecent⟩
  · rw [sub_zero]
    constructor
    · intro h
      refine Or.inl (not_lt.mp fun hearly => ?_)
      obtain ⟨x, hx, -⟩ := h hearly
      exact hnone x hx
    · rintro (hlate | ⟨x, hx⟩) hearly
      · exact absurd hearly (not_lt.mpr hlate)
      · exact absurd hx (hnone x)

/-! ## Data that was sent -/

def sentTime (peer : PeerRef) : CallRecord → Option Time
  | .sentData peer' now _ => if peer' = peer then some now else none
  | .sentToPeer _ _ => none

/-- The time of the last call of `sendDataToPeer` for the peer, and 0 without one. -/
def lastSent (peer : PeerRef) (calls : List CallRecord) : Time := (calls.filterMap (sentTime peer)).getLast?.getD 0

def SentData (peer : PeerRef) (calls : List CallRecord) : Prop := ∃ now asked, .sentData peer now asked ∈ calls

/-- The first call for a peer asks for its addresses only if the clock is past the timeout. -/
def FirstAsksLate (calls : List CallRecord) : Prop :=
  ∀ pre peer now asked post, calls = pre ++ .sentData peer now asked :: post → ¬ SentData peer pre →
    (asked = true ↔ TEARDOWN_TIMEOUT ≤ now)

section Records
variable {peer : PeerRef} {calls records : List CallRecord}

theorem lastSent_append_other (h : ∀ r ∈ records, sentTime peer r = none) :
    lastSent peer (calls ++ records) = lastSent peer calls := by
  rw [lastSent, List.filterMap_append, List.filterMap_eq_nil_iff.mpr h, List.append_nil, lastSent]

theorem lastSent_append_self (calls : List CallRecord) (peer : PeerRef) (now : Time) (asked : Bool) :
    lastSent peer (calls ++ [.sentData peer now asked]) = now := by
  simp [lastSent, sentTime]

theorem mem_sentTimes {now : Time} :
    now ∈ calls.filterMap (sentTime peer) ↔ ∃ asked, .sentData peer now asked ∈ calls := by
  rw [List.mem_filterMap]
  constructor
  · rintro ⟨r, hr, ht⟩
    cases r with
    | sentToPeer _ _ => cases ht
    | sentData peer' now' asked =>
      simp only [sentTime, Option.ite_none_right_eq_some, Option.some.injEq] at ht
      obtain ⟨rfl, rfl⟩ := ht
      exact ⟨asked, hr⟩
  · rintro ⟨asked, hr⟩
    exact ⟨_, hr, if_pos rfl⟩

/-- The time is that of a call if there was one. -/
theorem lastSent_mem (h : SentData peer calls) : ∃ asked, .sentData peer (lastSent peer calls) asked ∈ calls := by
  obtain ⟨now, asked, hr⟩ := h
  have hmem : now ∈ calls.filterMap (sentTime peer) := mem_sentTimes.mpr ⟨asked, hr⟩
  refine mem_sentTimes.mp ?_
  rw [lastSent, List.getLast?_eq_some_getLast (List.ne_nil_of_mem hmem)]
  exact List.getLast_mem _

theorem lastSent_of_none (h : ¬ SentData peer calls) : lastSent peer calls = 0 := by
  have hnone : calls.filterMap (sentTime peer) = [] := by
    refine List.eq_nil_iff_forall_not_mem.mpr fun now hm => ?_
    obtain ⟨asked, hr⟩ := mem_sentTimes.mp hm
    exact h ⟨now, asked, hr⟩
  rw [lastSent, hnone]
  rfl

theorem FirstAsksLate.append_other (h : FirstAsksLate calls) (hr : ∀ r ∈ records, ∃ dest msg, r = .sentToPeer dest msg) :
    FirstAsksLate (calls ++ records) := by
  intro pre peer now asked post he hnone
  obtain ⟨mid, rfl, hm⟩ | ⟨mid, rfl, hm⟩ := List.append_eq_append_iff.mp he
  · have hin : .sentData peer now asked ∈ records := by
      rw [hm]
      exact List.mem_append_right mid (List.mem_cons_self ..)
    obtain ⟨dest, msg, hd⟩ := hr _ hin
    cases hd
  · cases mid with
    | nil =>
      have hin : .sentData peer now asked ∈ records := by
        rw [← List.nil_append records, ← hm]
        exact List.mem_cons_self ..
      obtain ⟨dest, msg, hd⟩ := hr _ hin
      cases hd
    | cons r mid =>
      obtain ⟨rfl, -⟩ := List.cons.inj hm
      exact h pre peer now asked mid rfl hnone

theorem FirstAsksLate.append_self (h : FirstAsksLate calls) {now : Time} {asked : Bool}
    (ha : ¬ SentData peer calls → (asked = true ↔ TEARDOWN_TIMEOUT ≤ now)) :
    FirstAsksLate (calls ++ [.sentData peer now asked]) := by
  intro pre peer' now' asked' post he hnone
  obtain ⟨mid, rfl, hm⟩ | ⟨mid, rfl, hm⟩ := List.append_eq_append_iff.mp he
  · cases mid with
    | nil =>
      cases hm
      exact ha fun hs => hnone (by simpa using hs)
    | cons r mid =>
      obtain ⟨-, hm⟩ := List.cons.inj hm
      exact absurd hm.symm (List.append_ne_nil_of_right_ne_nil mid (List.cons_ne_nil _ post))
  · cases mid with
    | nil =>
      cases hm
      exact ha (by simpa using hnone)
    | cons r mid =>
      obtain ⟨rfl, -⟩ := List.cons.inj hm
      exact h pre peer' now' asked' mid rfl hnone

end Records

/-- The times of a node are those of the calls it has on record. -/
structure Stamped (n : Node) : Prop where
  lastPacket (peer : PeerRef) : (n.deref peer).lastPacket = lastSent peer n.calls
  first : FirstAsksLate n.calls

namespace Stamped
variable {S : Sodium} {T : JsonText} {n n' : Node}

theorem of_kept (hn : Stamped n) (hl : ∀ peer, (n'.deref peer).lastPacket = (n.deref peer).lastPacket)
    {records : List CallRecord} (hc : n'.calls = n.calls ++ records)
    (hr : ∀ r ∈ records, ∃ dest msg, r = .sentToPeer dest msg) : Stamped n' := by
  have hother (peer : PeerRef) : ∀ r ∈ records, sentTime peer r = none := by
    intro r hm
    obtain ⟨dest, msg, rfl⟩ := hr r hm
    rfl
  refine ⟨fun peer => ?_, hc ▸ hn.first.append_other hr⟩
  rw [hl, hn.lastPacket, hc, lastSent_append_other (hother peer)]

theorem sent (hn : Stamped n) {peer : PeerRef} (ha : n.peerContainer.Allocated peer) (now : Time) :
    Stamped ((n.modify peer fun p => { p with lastPacket := now }).record
      (.sentData peer now (!(n.deref peer).isActive now))) := by
  refine ⟨fun other => ?_, hn.first.append_self fun hnone => ?_⟩
  · show ((n.peerContainer.modify peer _).deref other).lastPacket = lastSent other (n.calls ++ [_])
    by_cases ho : peer = other
    · subst ho
      rw [deref_modify_self ha, lastSent_append_self]
      rfl
    · have hother : ∀ r ∈ [CallRecord.sentData peer now (!(n.deref peer).isActive now)], sentTime other r = none :=
        List.forall_mem_singleton.mpr (if_neg ho)
      rw [deref_modify_ne _ ho, lastSent_append_other hother]
      exact hn.lastPacket other
  · -- nothing was sent before, so the time is still 0
    have hzero : (n.deref peer).lastPacket = 0 := (hn.lastPacket peer).trans (lastSent_of_none hnone)
    simp [Peer.isActive, hzero]

theorem step (hn : Stamped n) {m : NodeMove} (h : NodeMoves S n m n') : Stamped n' := by
  have hsame {n' : Node} (hl : ∀ peer, (n'.deref peer).lastPacket = (n.deref peer).lastPacket) (hc : n'.calls = n.calls) :
      Stamped n' := hn.of_kept hl (by rw [hc, List.append_nil]) (List.forall_mem_nil _)
  cases h with
  | socket hsocket =>
    cases hsocket.timers with
    | kept _ hk records hc hr => exact hn.of_kept (fun peer => (hk.peer peer).lastPacket) hc hr
    | sentData _ peer now ha => exact hn.sent ha now
    | expired peer now _ => exact hsame (read_modify Peer.lastPacket n.peerContainer peer _ fun _ => rfl) rfl
  | layer hk => exact hsame (fun peer => (hk.peer peer).lastPacket) rfl
  | opened peer now => exact hsame (read_modify Peer.lastPacket n.peerContainer peer _ fun _ => rfl) rfl
  | tun _ => exact hsame (fun _ => rfl) rfl
  | reachable _ => exact hsame (fun _ => rfl) rfl

/-- **Every event** keeps the times. -/
theorem act {now : Time} {e : NodeEvent} (hn : Stamped n) (h : { n with sent := [] }.act S T now e = .ok n') : Stamped n' := by
  have hstart : Stamped { n with sent := [] } := ⟨hn.lastPacket, hn.first⟩
  exact (Node.act_moves S T h).relates (R := fun n n' => Stamped n → Stamped n') (fun _ h => h)
    (fun _ _ _ h₁ h₂ h => h₂ (h₁ h)) (fun _ _ _ _ hstep h => h.step hstep) hstart

end Stamped

/-! ## NAT_OK -/

section Confirmations
variable {S : Sodium} {T : JsonText} {n n' : Node} {now : Time} {e : NodeEvent}

theorem act_confirmed (h : { n with sent := [] }.act S T now e = .ok n') (hg : n.GetsNatOk e) :
    n'.lastNatInitConfirmation = now := by
  obtain ⟨data, rfl, hparse⟩ := hg
  have hreceive : { n with sent := [] }.receive S now (.udpPacket n.baseUdpAddress data) =
      .ok ({ n with sent := [] }.baseMessageReceivedUdp S now .NAT_OK) := by
    show { n with sent := [] }.udpPacketReceived S now n.baseUdpAddress data = _
    rw [Node.udpPacketReceived, if_pos rfl, hparse]
    rfl
  have hevent : Node.IsSocketEvent (.udpPacket n.baseUdpAddress data) := trivial
  rw [Node.act_of_socket S T hevent, hreceive] at h
  obtain ⟨sent, hsent⟩ := Node.sendToBaseUdp_sent S
    { n with sent := [], lastNatInitConfirmation := now, natInitConfirmed := true } .NAT_OK_CONFIRM
  have hn : { n with sent := [], lastNatInitConfirmation := now, natInitConfirmed := true }.sendToBaseUdp S
      .NAT_OK_CONFIRM = n' := Except.ok.inj h
  rw [← hn, hsent]

theorem act_unconfirmed (h : { n with sent := [] }.act S T now e = .ok n') (hg : ¬ n.GetsNatOk e) :
    n'.lastNatInitConfirmation = n.lastNatInitConfirmation := by
  refine (Node.act_moves S T h).relates
    (R := fun n n' : Node => n'.lastNatInitConfirmation = n.lastNatInitConfirmation) (fun _ => rfl)
    (fun _ _ _ h₁ h₂ => h₂.trans h₁) fun n₁ m n₂ hm hstep => ?_
  cases hstep with
  | socket hsocket =>
    have hlink := hsocket.link
    generalize hl : n₂.link = l at hlink
    cases hlink with
    | rest _ _ _ _ => exact congrArg LinkState.lastNatInitConfirmation hl
    | greeted _ => exact congrArg LinkState.lastNatInitConfirmation hl
    | confirmed _ => exact absurd (NodeMove.SocketExpected.origin hm).2 hg
  | layer _ => rfl
  | opened _ _ => rfl
  | tun _ => rfl
  | reachable _ => rfl

/-- The time at the end of a run is that of a NAT_OK, or the first one when none came. -/
theorem lastNatInitConfirmation_eq {n₀ : Node} {run : List ((Time × NodeEvent) × Node)}
    (hr : IsRun (Node.RunStep S T) n₀ run) :
    (∃ x ∈ transitions n₀ run, x.1.GetsNatOk x.2.1.2 ∧ x.2.1.1 = (last n₀ run).lastNatInitConfirmation) ∨
      ((∀ x ∈ transitions n₀ run, ¬ x.1.GetsNatOk x.2.1.2) ∧
        (last n₀ run).lastNatInitConfirmation = n₀.lastNatInitConfirmation) := by
  have hstamp := last_stamp (f := Node.lastNatInitConfirmation) (v := Prod.fst)
    (W := fun (n : Node) (e : Time × NodeEvent) => n.GetsNatOk e.2)
    (fun x hx hg => act_confirmed (hr.of_mem hx).2 hg) fun x hx hg => act_unconfirmed (hr.of_mem hx).2 hg
  obtain ⟨earlier, x, later, he, hg, htime, -⟩ | hnone := hstamp
  · refine Or.inl ⟨x, ?_, hg, htime⟩
    rw [he]
    exact List.mem_append_cons_self
  · exact Or.inr hnone

/-- The UDP base is taken for active rightly, if and only if the clock is past the timeout or there was a NAT_OK. -/
theorem isBaseUdp_right_iff {n₀ : Node} {run : List ((Time × NodeEvent) × Node)} (hr : IsRun (Node.RunStep S T) n₀ run)
    (h0 : n₀.lastNatInitConfirmation = 0) (t : Time) :
    ((last n₀ run).isBaseUdp t = true →
        ∃ x ∈ transitions n₀ run, x.1.GetsNatOk x.2.1.2 ∧ t - x.2.1.1 < UDP_BASE_TIMEOUT) ↔
      UDP_BASE_TIMEOUT ≤ t ∨ ∃ x ∈ transitions n₀ run, x.1.GetsNatOk x.2.1.2 := by
  have hbase : (last n₀ run).isBaseUdp t = true ↔ t - (last n₀ run).lastNatInitConfirmation < UDP_BASE_TIMEOUT :=
    decide_eq_true_iff
  have hstamp : (∃ x, (x ∈ transitions n₀ run ∧ x.1.GetsNatOk x.2.1.2) ∧ x.2.1.1 = (last n₀ run).lastNatInitConfirmation) ∨
      (last n₀ run).lastNatInitConfirmation = 0 ∧ ∀ x, ¬ (x ∈ transitions n₀ run ∧ x.1.GetsNatOk x.2.1.2) := by
    obtain ⟨x, hx, hg, htime⟩ | ⟨hnone, hlast⟩ := lastNatInitConfirmation_eq hr
    · exact Or.inl ⟨x, ⟨hx, hg⟩, htime⟩
    · exact Or.inr ⟨hlast.trans h0, fun x hx => hnone x hx.1 hx.2⟩
  have hright := stamp_right_iff hstamp t UDP_BASE_TIMEOUT
  simp only [and_assoc] at hright
  rw [hbase]
  exact hright

end Confirmations

/-- A peer is taken for active rightly, if and only if the clock is past the timeout or data was sent to it. -/
theorem Stamped.isActive_right_iff {n : Node} (hn : Stamped n) (peer : PeerRef) (t : Time) :
    ((n.deref peer).isActive t = true → ∃ s asked, .sentData peer s asked ∈ n.calls ∧ t - s < TEARDOWN_TIMEOUT) ↔
      TEARDOWN_TIMEOUT ≤ t ∨ SentData peer n.calls := by
  have hactive : (n.deref peer).isActive t = true ↔ t - lastSent peer n.calls < TEARDOWN_TIMEOUT := by
    rw [← hn.lastPacket peer]
    exact decide_eq_true_iff
  have hstamp : (∃ s, (∃ asked, .sentData peer s asked ∈ n.calls) ∧ s = lastSent peer n.calls) ∨
      lastSent peer n.calls = 0 ∧ ∀ s, ¬ ∃ asked, .sentData peer s asked ∈ n.calls := by
    by_cases hs : SentData peer n.calls
    · exact Or.inl ⟨_, lastSent_mem hs, rfl⟩
    · exact Or.inr ⟨lastSent_of_none hs, not_exists.mp hs⟩
  have hright := stamp_right_iff hstamp t TEARDOWN_TIMEOUT
  simp only [← exists_and_right] at hright
  rw [hactive]
  exact hright

/-- **When the timestamps count events only.** Behind any run of a node from its start, and at any time `t`: the
UDP base is taken for active because of a NAT_OK, and a peer because of data that was sent to it, unless there was
none yet and the clock is short of the timeout; and the first data for a peer goes along with a request for its
addresses if and only if the clock is past the timeout. -/
theorem timestamps_count_events (S : Sodium) (T : JsonText) (configManager : ConfigManager) (identity : Identity)
    (tape : Tape) (myFlags : PeerFlags) (boot : UInt64) (userAgent : Bytes) (workerQueueSize : ℕ) (sourcePort : UInt16)
    (events : List (Time × NodeEvent)) (t : Time) :
    let n₀ := Node.new configManager identity tape myFlags boot userAgent workerQueueSize sourcePort
    let run := n₀.run S T events
    let n := last n₀ run
    ((n.isBaseUdp t = true → ∃ x ∈ transitions n₀ run, x.1.GetsNatOk x.2.1.2 ∧ t - x.2.1.1 < UDP_BASE_TIMEOUT) ↔
        UDP_BASE_TIMEOUT ≤ t ∨ ∃ x ∈ transitions n₀ run, x.1.GetsNatOk x.2.1.2) ∧
      (∀ peer, ((n.deref peer).isActive t = true →
          ∃ s asked, .sentData peer s asked ∈ n.calls ∧ t - s < TEARDOWN_TIMEOUT) ↔
        TEARDOWN_TIMEOUT ≤ t ∨ SentData peer n.calls) ∧ FirstAsksLate n.calls := by
  intro n₀ run n
  have hrun := n₀.isRun_run S T events
  have hstart : Stamped n₀ := ⟨fun _ => rfl, fun pre _ _ _ post he =>
    absurd he.symm (List.append_ne_nil_of_right_ne_nil pre (List.cons_ne_nil _ post))⟩
  have hstamped : Stamped n := hrun.keeps hstart (fun _ _ _ hn hstep => hn.act hstep) n (mem_states_last n₀ run)
  exact ⟨isBaseUdp_right_iff hrun rfl t, fun peer => hstamped.isActive_right_iff peer t, hstamped.first⟩

/-- The status of a peer is asked for in the first second of the clock. -/
def earlyQuery : List (Time × NodeEvent) := [(1000, .getLatency (clearIdentity 2).deviceId)]

/-- The new peer counts as active, so nothing asks for its addresses, and the UDP base counts as active too. -/
theorem zero_counts_as_recent :
    let n₀ := openNode (clearIdentity 1)
    let run := n₀.run clearSodium ConfigManager.plainText earlyQuery
    (last n₀ run).isBaseUdp 1000 = true ∧ (∀ x ∈ transitions n₀ run, ¬ x.1.GetsNatOk x.2.1.2) ∧
      (last n₀ run).calls = [.sentData 0 1000 false] := by
  intro n₀ run
  refine ⟨by decide +kernel, fun x hx => ?_, by decide +kernel⟩
  have hevent : x.2.1 = (1000, .getLatency (clearIdentity 2).deviceId) :=
    List.mem_singleton.mp (label_mem_of_attempts hx)
  rintro ⟨data, he, -⟩
  rw [hevent] at he
  cases he

end Husarnet
