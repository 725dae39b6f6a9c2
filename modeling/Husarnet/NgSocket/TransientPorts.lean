import Husarnet.Lib.CyclicCounter
import Husarnet.NgSocket.Moves
import Husarnet.Node

/-! # The transient ports

Every NAT_INIT is to go along with a message to one port of a range that the base server names, so
that the router makes a new mapping each time. The port goes round its range, but the message is
never sent, and a new range does not move a port that is outside it.
-/

namespace Husarnet
open Octets Runs
set_option autoImplicit false

namespace Node
variable (S : Sodium) (now : Time)

/-! ## What a call sends -/

/-- There is a base connection, and the cookie of a HELLO. -/
structure ReadyForUdp (n : Node) : Prop where
  connected : n.baseConnection = true
  cookie : n.cookie.length = 16

theorem ReadyForUdp.isOpen {n : Node} (h : n.ReadyForUdp) : (!n.baseConnection || n.cookie.isEmpty) = false := by
  have hlength := h.cookie
  cases hc : n.cookie with
  | nil =>
    rw [hc] at hlength
    cases hlength
  | cons b cookie => simp [h.connected]

/-- What the serializer reads in a call of `sendNatInitToBase`. -/
def natInitSession (n : Node) : BaseSession := { n.baseSession with natInitCounter := n.natInitCounter + 1 }

/-- The port of the next message to a transient port. -/
def nextTransientPort (n : Node) : ℕ :=
  CyclicCounter.next n.baseTransientRange.1 n.baseTransientRange.2 n.baseTransientPort

/-- A call of a node that is ready: NAT_INIT goes to every address of the base, and to no port of the range. -/
theorem sendNatInitToBase_ready {n : Node} (h : n.ReadyForUdp) : n.sendNatInitToBase S now = { n with
      lastNatInitSent := now
      natInitConfirmed := false
      natInitCounter := n.natInitCounter + 1
      sent := n.sent ++ n.allBaseUdpAddresses.map fun address =>
        .udp address (serializePeerToBaseMessage S n.natInitSession .NAT_INIT)
      baseTransientPort := if n.baseTransientPort ≠ 0 then n.nextTransientPort else n.baseTransientPort } := by
  have hcookie : n.cookie.isEmpty = false := (Bool.or_eq_false_iff.mp h.isOpen).2
  unfold sendNatInitToBase
  simp only [hcookie, Bool.false_eq_true, if_false, sendToBaseUdp, h.connected, Bool.not_true, Bool.or_false,
    foldl_transmit]
  split
  · rfl
  · rfl

/-- What any call does to the port and its range. -/
theorem sendNatInitToBase_ports (n : Node) :
    (n.sendNatInitToBase S now).baseTransientRange = n.baseTransientRange ∧
      (n.sendNatInitToBase S now).baseTransientPort =
        if n.cookie.isEmpty = true ∨ n.baseTransientPort = 0 then n.baseTransientPort else n.nextTransientPort := by
  unfold sendNatInitToBase
  by_cases hc : n.cookie.isEmpty = true
  · rw [if_pos hc, if_pos (Or.inl hc)]
    exact ⟨rfl, rfl⟩
  · obtain ⟨sent, hinit⟩ := sendToBaseUdp_sent S
      { n with lastNatInitSent := now, natInitConfirmed := false, natInitCounter := n.natInitCounter + 1 } .NAT_INIT
    obtain ⟨sent', htransient⟩ := sendToBaseUdp_sent S
      { n with lastNatInitSent := now, natInitConfirmed := false, natInitCounter := n.natInitCounter + 1, sent := sent }
      .NAT_INIT_TRANSIENT
    rw [if_neg hc]
    simp only [hinit, htransient]
    by_cases hp : n.baseTransientPort = 0
    · rw [if_neg (not_not.mpr hp), if_pos (Or.inr hp)]
      exact ⟨rfl, rfl⟩
    · rw [if_pos hp, if_neg (not_or.mpr ⟨hc, hp⟩)]
      exact ⟨rfl, rfl⟩

/-! ## Probing -/

/-- Where there is a transient port, one NAT_INIT goes to every address of the base, and one NAT_INIT_TRANSIENT to
the transient port of each. -/
def SendsProbes (n : Node) : Prop :=
  n.baseTransientPort ≠ 0 → ∃ sent, (n.sendNatInitToBase S now).sent = n.sent ++ sent ∧
    sent.Perm
      ((n.allBaseUdpAddresses.map fun address =>
          .udp address (serializePeerToBaseMessage S n.natInitSession .NAT_INIT)) ++
        n.allBaseUdpAddresses.map fun address =>
          .udp { address with port := UInt16.ofNat n.baseTransientPort }
            (serializePeerToBaseMessage S n.natInitSession .NAT_INIT_TRANSIENT))

/-- A call, and then anything that leaves the port and its range alone. -/
def ProbeStep (n : Node) (now : Time) (n' : Node) : Prop :=
  n.ReadyForUdp ∧ n'.baseTransientPort = (n.sendNatInitToBase S now).baseTransientPort ∧
    n'.baseTransientRange = n.baseTransientRange

/-- As many calls in a row as the range has ports use each of them once. -/
def CoversRange (n : Node) : Prop :=
  ∀ first last calls, n.baseTransientRange = (first, last) → first ≠ 0 → first ≤ n.baseTransientPort →
    n.baseTransientPort ≤ last → IsRun (ProbeStep S) n calls → calls.length = last - first + 1 →
      ((transitions n calls).map fun x => x.1.baseTransientPort).Perm (List.range' first (last - first + 1))

theorem coversRange (n : Node) : n.CoversRange S := by
  intro first last calls hrange hfirst hlow hhigh hr hlength
  -- the port stays in the range, where every call moves it on
  have hkeep : ∀ u ∈ states n calls, u.baseTransientRange = (first, last) ∧
      first ≤ u.baseTransientPort ∧ u.baseTransientPort ≤ last := by
    refine hr.keeps ⟨hrange, hlow, hhigh⟩ fun u time u' hu hstep => ?_
    obtain ⟨-, hp', hr'⟩ := hstep
    refine ⟨hr'.trans hu.1, ?_⟩
    rw [hp', (sendNatInitToBase_ports S time u).2]
    split
    · exact hu.2
    · rw [nextTransientPort, hu.1]
      exact CyclicCounter.next_mem hu.2.1 hu.2.2
  have hnext : ∀ x ∈ transitions n calls,
      x.2.2.baseTransientPort = CyclicCounter.next first last x.1.baseTransientPort := by
    intro x hx
    obtain ⟨hmem, hready, hp', -⟩ := hr.of_mem hx
    obtain ⟨hrange', hlow', -⟩ := hkeep x.1 hmem
    have hcookie : ¬ x.1.cookie.isEmpty = true := by simp [(Bool.or_eq_false_iff.mp hready.isOpen).2]
    rw [hp', (sendNatInitToBase_ports S x.2.1 x.1).2, if_neg (not_or.mpr ⟨hcookie, by omega⟩), nextTransientPort, hrange']
  rw [transitions_map_iterate hnext, hlength]
  exact CyclicCounter.iterate_perm hlow hhigh

theorem sendsProbes_length {n : Node} (h : n.ReadyForUdp) (hport : n.baseTransientPort ≠ 0) (hs : n.SendsProbes S now) :
    n.allBaseUdpAddresses = [] := by
  obtain ⟨sent, hsent, hperm⟩ := hs hport
  rw [sendNatInitToBase_ready S now h] at hsent
  have hlength := hperm.length_eq
  rw [← List.append_cancel_left hsent] at hlength
  simp only [List.length_append, List.length_map] at hlength
  exact List.length_eq_zero_iff.mp (by omega)

end Node

/-- **Transient ports are not probed.** A node that is ready sends what it should in a call, and goes round its
ports, if and only if it has no port to probe or the base has no address to send to. -/
theorem transient_probing_iff (S : Sodium) (now : Time) (n : Node) (hr : n.ReadyForUdp) :
    (n.SendsProbes S now ∧ n.CoversRange S) ↔ n.baseTransientPort = 0 ∨ n.allBaseUdpAddresses = [] := by
  constructor
  · rintro ⟨hs, -⟩
    by_cases hport : n.baseTransientPort = 0
    · exact Or.inl hport
    · exact Or.inr (Node.sendsProbes_length S now hr hport hs)
  · intro hnone
    refine ⟨fun hport => ?_, Node.coversRange S n⟩
    rw [or_iff_right hport] at hnone
    refine ⟨[], ?_, ?_⟩
    · rw [Node.sendNatInitToBase_ready S now hr, hnone]
      rfl
    · rw [hnone]
      exact List.Perm.refl []

/-- A node that has a cookie, a base address for UDP and the range of ports 100 to 119. -/
def probingNode : Node :=
  { openNode (clearIdentity 1) with
    baseConnection := true
    cookie := List.replicate 16 7
    allBaseUdpAddresses := [⟨.parse (ascii "::ffff:0a00:0001"), 5582⟩]
    baseTransientRange := (100, 119)
    baseTransientPort := 100 }

theorem transient_probing_iff_probing : (probingNode.SendsProbes clearSodium 0 ∧ probingNode.CoversRange clearSodium) ↔
    probingNode.baseTransientPort = 0 ∨ probingNode.allBaseUdpAddresses = [] :=
  transient_probing_iff clearSodium 0 probingNode ⟨rfl, rfl⟩

/-- The message to port 100 is not sent. -/
theorem probe_not_sent : probingNode.ReadyForUdp ∧ probingNode.baseTransientPort = 100 ∧
    ¬ probingNode.SendsProbes clearSodium 0 := by
  have hready : probingNode.ReadyForUdp := ⟨rfl, rfl⟩
  refine ⟨hready, rfl, fun hs => ?_⟩
  have hnone := Node.sendsProbes_length clearSodium 0 hready (by decide) hs
  cases hnone

/-! ## The range -/

def ValidRange (range : ℕ × ℕ) : Prop := range.1 ≠ 0 ∧ range.2 ≥ range.1

/-- What can happen to the port: a STATE message, a call of `sendNatInitToBase`, or anything else. -/
inductive PortEvent where
  | state (udpAddress : List InetAddress) (natTransientRange : ℕ × ℕ)
  | natInit
  | other

inductive PortStep (S : Sodium) (n : Node) : Time × PortEvent → Node → Prop where
  | state (now : Time) (udpAddress : List InetAddress) (natTransientRange : ℕ × ℕ) :
      PortStep S n (now, .state udpAddress natTransientRange)
        (n.baseMessageReceivedTcp S now (.STATE udpAddress natTransientRange)).1
  | natInit (now : Time) : PortStep S n (now, .natInit) (n.sendNatInitToBase S now)
  | other (now : Time) {n' : Node} (hp : n'.baseTransientPort = n.baseTransientPort)
      (hr : n'.baseTransientRange = n.baseTransientRange) : PortStep S n (now, .other) n'

def NoRangeReceived (past : List (Time × PortEvent)) : Prop :=
  ∀ e ∈ past, ∀ udpAddress natTransientRange, e.2 = .state udpAddress natTransientRange → ¬ ValidRange natTransientRange

/-- The port is in its range, or there is none yet. -/
def PortInRange (past : List (Time × PortEvent)) (n : Node) : Prop :=
  (n.baseTransientPort = 0 ∧ NoRangeReceived past) ∨
    (n.baseTransientRange.1 ≤ n.baseTransientPort ∧ n.baseTransientPort ≤ n.baseTransientRange.2)

/-- The range that comes is not one that leaves the port of the node outside. -/
def RangeFits (n : Node) (e : Time × PortEvent) : Prop :=
  ∀ udpAddress natTransientRange, e.2 = .state udpAddress natTransientRange → ValidRange natTransientRange →
    n.baseTransientPort ≠ 0 →
      natTransientRange.1 ≤ n.baseTransientPort ∧ n.baseTransientPort ≤ natTransientRange.2

namespace PortStep
variable {S : Sodium} {n n' : Node} {now : Time}

theorem state_ports (S : Sodium) (now : Time) (n : Node) (udpAddress : List InetAddress) (natTransientRange : ℕ × ℕ) :
    let n' := (n.baseMessageReceivedTcp S now (.STATE udpAddress natTransientRange)).1
    (ValidRange natTransientRange → n'.baseTransientRange = natTransientRange ∧ n'.baseTransientPort =
        if n.baseTransientPort = 0 then natTransientRange.1 else n.baseTransientPort) ∧
      (¬ ValidRange natTransientRange → n'.baseTransientRange = n.baseTransientRange ∧
        n'.baseTransientPort = n.baseTransientPort) := by
  unfold ValidRange
  constructor
  · intro hv
    simp only [Node.baseMessageReceivedTcp, Node.stateReceived]
    rw [if_pos hv]
    exact ⟨rfl, rfl⟩
  · intro hv
    simp only [Node.baseMessageReceivedTcp, Node.stateReceived]
    rw [if_neg hv]
    exact ⟨rfl, rfl⟩

/-- The invariant: once a range was received the port is not 0. -/
def PortKept (past : List (Time × PortEvent)) (n : Node) : Prop :=
  (n.baseTransientPort = 0 ∧ NoRangeReceived past) ∨
    (n.baseTransientRange.1 ≠ 0 ∧ n.baseTransientRange.1 ≤ n.baseTransientPort ∧
      n.baseTransientPort ≤ n.baseTransientRange.2)

theorem keeps {past : List (Time × PortEvent)} {e : Time × PortEvent} (hk : PortKept past n) (hf : RangeFits n e)
    (h : PortStep S n e n') : PortKept (past ++ [e]) n' := by
  have hpast (he : NoRangeReceived [e]) (hnone : NoRangeReceived past) : NoRangeReceived (past ++ [e]) :=
    List.forall_mem_append.mpr ⟨hnone, he⟩
  have hsame (he : NoRangeReceived [e]) (hp : n'.baseTransientPort = n.baseTransientPort)
      (hr : n'.baseTransientRange = n.baseTransientRange) : PortKept (past ++ [e]) n' := by
    rw [PortKept, hp, hr]
    exact hk.imp (fun h => ⟨h.1, hpast he h.2⟩) id
  cases h with
  | state now udpAddress natTransientRange =>
    obtain ⟨hvalid, hinvalid⟩ := state_ports S now n udpAddress natTransientRange
    by_cases hv : ValidRange natTransientRange
    · obtain ⟨hr, hp⟩ := hvalid hv
      refine Or.inr ?_
      rw [hr, hp]
      by_cases h0 : n.baseTransientPort = 0
      · rw [if_pos h0]
        exact ⟨hv.1, le_refl _, hv.2⟩
      · rw [if_neg h0]
        exact ⟨hv.1, hf _ _ rfl hv h0⟩
    · obtain ⟨hr, hp⟩ := hinvalid hv
      refine hsame (fun e' he' udpAddress' range' heq => ?_) hp hr
      cases List.mem_singleton.mp he'
      cases heq
      exact hv
  | natInit now =>
    obtain ⟨hr, hp⟩ := Node.sendNatInitToBase_ports S now n
    have hnone : NoRangeReceived [(now, PortEvent.natInit)] := fun e' he' _ _ heq => by
      cases List.mem_singleton.mp he'
      cases heq
    by_cases hidle : n.cookie.isEmpty = true ∨ n.baseTransientPort = 0
    · rw [if_pos hidle] at hp
      exact hsame hnone hp hr
    · rw [if_neg hidle] at hp
      obtain ⟨h0, -⟩ | ⟨hfirst, hlow, hhigh⟩ := hk
      · exact absurd (Or.inr h0) hidle
      · refine Or.inr ?_
        rw [hr, hp]
        exact ⟨hfirst, CyclicCounter.next_mem hlow hhigh⟩
  | other now hp hr =>
    refine hsame (fun e' he' _ _ heq => ?_) hp hr
    cases List.mem_singleton.mp he'
    cases heq

end PortStep

/-- **The port is in its range exactly as long as new ranges fit.** In a run of STATE messages, calls and
anything else, from a node without a port, the port is in its range after every step if and only if
no range comes that leaves out the port of the node it comes to. -/
theorem port_in_range_iff (S : Sodium) (n₀ : Node) (tr : List ((Time × PortEvent) × Node))
    (h0 : n₀.baseTransientPort = 0) (hr : IsRun (PortStep S) n₀ tr) :
    (∀ pre post, tr = pre ++ post → PortInRange (pre.map Prod.fst) (last n₀ pre)) ↔
      ∀ x ∈ transitions n₀ tr, RangeFits x.1 x.2.1 := by
  constructor
  · intro h x hx
    obtain ⟨pre, post, htr, hlast⟩ := exists_of_mem_transitions hx
    obtain ⟨-, hstep⟩ := hr.of_mem hx
    have hafter := h (pre ++ [(x.2.1, x.2.2)]) post (by rw [htr, List.append_assoc]; rfl)
    rw [last_append, hlast] at hafter
    generalize x.1 = n, x.2.1 = e, x.2.2 = n' at hstep hafter ⊢
    intro udpAddress natTransientRange he hv hport
    cases hstep with
    | state now udpAddress' range' =>
      cases he
      obtain ⟨hr', hp'⟩ := (PortStep.state_ports S now n udpAddress natTransientRange).1 hv
      rw [if_neg hport] at hp'
      obtain ⟨hzero, -⟩ | hin := hafter
      · exact absurd (hp'.symm.trans hzero) hport
      · rw [last, last, hr', hp'] at hin
        exact hin
    | natInit now => cases he
    | other now _ _ => cases he
  · intro hfits pre post htr
    have hnone : NoRangeReceived [] := fun e he => by cases he
    have hkept := hr.history (I := PortStep.PortKept) (Or.inl ⟨h0, hnone⟩)
      (G := fun n e _ => RangeFits n e) (fun past n e n' hk hf hstep => hstep.keeps hk hf) hfits pre post htr
    exact hkept.imp id And.right

def stateNode (n : Node) (natTransientRange : ℕ × ℕ) : Node :=
  (n.baseMessageReceivedTcp clearSodium 0 (.STATE [default] natTransientRange)).1

/-- Two STATE messages, the second with a range above that of the first. -/
def secondRange : List ((Time × PortEvent) × Node) :=
  let n := stateNode (openNode (clearIdentity 1)) (100, 119)
  [((0, .state [default] (100, 119)), n), ((0, .state [default] (300, 319)), stateNode n (300, 319))]

theorem isRun_secondRange : IsRun (PortStep clearSodium) (openNode (clearIdentity 1)) secondRange :=
  ⟨.state 0 [default] (100, 119), .state 0 [default] (300, 319), trivial⟩

theorem port_in_range_iff_second :
    (∀ pre post, secondRange = pre ++ post →
      PortInRange (pre.map Prod.fst) (last (openNode (clearIdentity 1)) pre)) ↔
        ∀ x ∈ transitions (openNode (clearIdentity 1)) secondRange, RangeFits x.1 x.2.1 :=
  port_in_range_iff clearSodium (openNode (clearIdentity 1)) secondRange rfl isRun_secondRange

/-- Behind the second message the port is still 100. -/
theorem second_range_missed : (openNode (clearIdentity 1)).baseTransientPort = 0 ∧
    IsRun (PortStep clearSodium) (openNode (clearIdentity 1)) secondRange ∧
      ¬ ∀ pre post, secondRange = pre ++ post →
        PortInRange (pre.map Prod.fst) (last (openNode (clearIdentity 1)) pre) := by
  refine ⟨rfl, isRun_secondRange, fun h => ?_⟩
  have hport : (last (openNode (clearIdentity 1)) secondRange).baseTransientPort = 100 := rfl
  have hrange : (last (openNode (clearIdentity 1)) secondRange).baseTransientRange = (300, 319) := rfl
  obtain ⟨hzero, -⟩ | ⟨hlow, -⟩ := h secondRange [] (List.append_nil secondRange).symm
  · rw [hport] at hzero
    cases hzero
  · rw [hport, hrange] at hlow
    omega

end Husarnet
