import Husarnet.KeyAgreement
import Husarnet.NgSocket.Socket

/-! # What the sessions of two ends are worth

The smallest model that tells which packets of two nodes get through, where every packet is handed on at once and in
order: the session of either end, and the time at which it last opened a packet.
-/

namespace Husarnet
open Octets
set_option autoImplicit false

/-- The session of an end with the other one: under the keys that the two agree on, or under keys that the other
end has forgotten. -/
inductive Session where
  | missing
  | stale
  | current
  deriving DecidableEq

/-- The sessions of the two ends, and when each of them last opened a packet. -/
structure Link where
  session : Side → Session
  lastValid : Side → Time

/-- Data from above at one end, or the timer of the socket layer for one of its peers. -/
inductive LinkEvent where
  | packet (s : Side) (now : Time) (data : Bytes)
  | periodicPeer (s : Side) (now : Time) (peer : PeerRef)

namespace Link

def isMissing (l : Link) (s : Side) : Bool := l.session s = .missing

/-- A packet of `s` gets through. -/
def delivers (l : Link) (s : Side) : Bool := l.session s ≠ .stale ∧ l.session s.other = .current

/-- A packet that finds an end without a session sets one up. -/
def packet (l : Link) (s : Side) (now : Time) : Link where
  session := if l.isMissing s || l.isMissing s.other then fun _ => .current else l.session
  lastValid := if l.delivers s then Function.update l.lastValid s.other now else l.lastValid

def timedOut (l : Link) (s : Side) (now : Time) : Bool :=
  !l.isMissing s && decide (l.lastValid s < now - RENEGOTIATION_TIMEOUT)

def timer (l : Link) (s : Side) (now : Time) : Link :=
  if l.timedOut s now then { l with session := Function.update l.session s .missing } else l

section Steps
variable (ref : Side → PeerRef)

/-- `ref` is where each end keeps the other one. -/
def step (l : Link) : LinkEvent → Link
  | .packet s now _ => l.packet s now
  | .periodicPeer s now peer => if peer = ref s then l.timer s now else l

def handedUp (l : Link) : LinkEvent → List (Side × Bytes)
  | .packet s _ data => if l.delivers s then [(s.other, data)] else []
  | .periodicPeer _ _ _ => []

/-- The event loses a packet. -/
def loses (l : Link) : LinkEvent → Bool
  | .packet s _ _ => !l.delivers s
  | .periodicPeer _ _ _ => false

/-- The event ends a session of the two. -/
def ends (l : Link) : LinkEvent → Bool
  | .packet _ _ _ => false
  | .periodicPeer s now peer => peer = ref s && l.timedOut s now

end Steps

/-- The next packet will leave both ends with a session that is current, if one is stale. -/
def Healing (l : Link) : Prop := (∀ s, l.session s ≠ .stale) ∨ ∃ s, l.session s = .missing

def after (ref : Side → PeerRef) (l : Link) (events : List LinkEvent) : Link := events.foldl (step ref) l

/-- How many ends have no session. -/
def gaps (l : Link) : ℕ := (l.isMissing .a).toNat + (l.isMissing .b).toNat

variable {l : Link} {s : Side} {now : Time}

theorem sides (s : Side) (P : Side → Prop) : (∀ t, P t) ↔ P s ∧ P s.other := by
  constructor
  · intro h
    exact ⟨h s, h s.other⟩
  · rintro ⟨hs, ho⟩ t
    by_cases ht : t = s
    · exact ht ▸ hs
    · exact Side.eq_other ht ▸ ho

theorem gaps_eq (l : Link) (s : Side) : l.gaps = (l.isMissing s).toNat + (l.isMissing s.other).toNat := by
  cases s with
  | a => rfl
  | b => exact Nat.add_comm _ _

theorem packet_of_missing (h : l.isMissing s = true ∨ l.isMissing s.other = true) (now : Time) :
    (l.packet s now).session = fun _ => .current := by
  rw [packet, if_pos (by simpa using h)]

theorem packet_of_sessions (h : l.isMissing s = false) (h' : l.isMissing s.other = false) (now : Time) :
    (l.packet s now).session = l.session := by
  rw [packet, h, h']
  rfl

theorem lastValid_packet_self (l : Link) (s : Side) (now : Time) : (l.packet s now).lastValid s = l.lastValid s := by
  by_cases hd : l.delivers s = true
  · simp only [packet, if_pos hd, Function.update_of_ne (Side.other_ne s).symm]
  · simp only [packet, if_neg hd]

theorem lastValid_packet_other (l : Link) (s : Side) (now : Time) :
    (l.packet s now).lastValid s.other = if l.delivers s then now else l.lastValid s.other := by
  by_cases hd : l.delivers s = true
  · simp only [packet, if_pos hd, Function.update_self]
  · simp only [packet, if_neg hd]

theorem healing_packet (h : l.Healing) (s : Side) (now : Time) : (l.packet s now).Healing := by
  by_cases hm : l.isMissing s = true ∨ l.isMissing s.other = true
  · refine Or.inl fun t => ?_
    rw [packet_of_missing hm]
    simp
  · rw [not_or, Bool.not_eq_true, Bool.not_eq_true] at hm
    rw [Healing, packet_of_sessions hm.1 hm.2]
    exact h

theorem healing_timer (h : l.Healing) (s : Side) (now : Time) : (l.timer s now).Healing := by
  rw [timer]
  split
  · exact Or.inr ⟨s, Function.update_self ..⟩
  · exact h

/-- What a packet costs, and where it is paid from. -/
theorem gaps_packet (h : l.Healing) (s : Side) (now : Time) :
    (l.packet s now).gaps + (!l.delivers s).toNat ≤ l.gaps := by
  by_cases hm : l.isMissing s = true ∨ l.isMissing s.other = true
  · have hnone : (l.packet s now).gaps = 0 := by
      simp [gaps, isMissing, packet_of_missing hm]
    have hsome : 1 ≤ l.gaps := by
      rw [gaps_eq l s]
      rcases hm with hm | hm
      · rw [hm, Bool.toNat_true]
        omega
      · rw [hm, Bool.toNat_true]
        omega
    have hone := Bool.toNat_le (!l.delivers s)
    omega
  · rw [not_or, Bool.not_eq_true, Bool.not_eq_true] at hm
    have hsame : (l.packet s now).gaps = l.gaps := by
      simp only [gaps, isMissing, packet_of_sessions hm.1 hm.2]
    -- both have a session, and no session is stale
    have hstale : ∀ t, l.session t ≠ .stale := by
      rcases h with h | ⟨t, ht⟩
      · exact h
      · by_cases hts : t = s
        · subst hts
          simp [isMissing, ht] at hm
        · rw [Side.eq_other hts] at ht
          simp [isMissing, ht] at hm
    have hdelivers : l.delivers s = true := by
      have hother : l.session s.other ≠ .missing := by simpa [isMissing] using hm.2
      have hcurrent : l.session s.other = .current := by
        cases hx : l.session s.other with
        | missing => exact absurd hx hother
        | stale => exact absurd hx (hstale s.other)
        | current => rfl
      exact decide_eq_true ⟨hstale s, hcurrent⟩
    rw [hsame, hdelivers]
    exact le_rfl

theorem gaps_timer (l : Link) (s : Side) (now : Time) : (l.timer s now).gaps ≤ l.gaps + (l.timedOut s now).toNat := by
  rw [timer]
  split
  · rename_i ht
    rw [gaps_eq _ s, gaps_eq l s, ht]
    have hother : isMissing { l with session := Function.update l.session s .missing } s.other = l.isMissing s.other := by
      simp only [isMissing, Function.update_of_ne (Side.other_ne s)]
    have hone := Bool.toNat_le (isMissing { l with session := Function.update l.session s .missing } s)
    rw [hother, Bool.toNat_true]
    omega
  · exact Nat.le_add_right _ _

theorem healing_step (ref : Side → PeerRef) (h : l.Healing) (e : LinkEvent) : (l.step ref e).Healing := by
  cases e with
  | packet s now data => exact healing_packet h s now
  | periodicPeer s now peer =>
    rw [step]
    split
    · exact healing_timer h s now
    · exact h

/-- A packet that is lost fills a gap, and only an end of a session opens one. -/
theorem gaps_step (ref : Side → PeerRef) (h : l.Healing) (e : LinkEvent) :
    (l.step ref e).gaps + (l.loses e).toNat ≤ l.gaps + (l.ends ref e).toNat := by
  cases e with
  | packet s now data => exact gaps_packet h s now
  | periodicPeer s now peer =>
    rw [step, loses, ends]
    split
    · rename_i hpeer
      have htimer := gaps_timer l s now
      simpa [hpeer] using htimer
    · exact Nat.le_add_right _ _

/-! ## Sessions that do not match -/

/-- Both ends have a session, and it is not the same one. -/
def Mismatched (l : Link) : Prop := ¬ l.Healing

/-- The timer comes too early to end a session. -/
def IsEarly (ref : Side → PeerRef) (valid : Side → Time) : LinkEvent → Prop
  | .packet _ _ _ => True
  | .periodicPeer s now peer => peer = ref s → now - RENEGOTIATION_TIMEOUT ≤ valid s

theorem Mismatched.isMissing (h : l.Mismatched) (s : Side) : l.isMissing s = false := by
  by_contra hm
  have hmissing : l.session s = .missing := by simpa [Link.isMissing] using hm
  exact h (Or.inr ⟨s, hmissing⟩)

theorem Mismatched.delivers (h : l.Mismatched) (s : Side) : l.delivers s = false := by
  by_contra hd
  have hsessions : l.session s ≠ .stale ∧ l.session s.other = .current := by simpa [Link.delivers] using hd
  refine h (Or.inl ((sides s fun t => l.session t ≠ .stale).mpr ⟨hsessions.1, ?_⟩))
  rw [hsessions.2]
  simp

/-- Packets change nothing, and neither do timers that are early. -/
theorem Mismatched.step_eq (h : l.Mismatched) {ref : Side → PeerRef} {e : LinkEvent} (he : IsEarly ref l.lastValid e) :
    l.step ref e = l := by
  cases e with
  | packet s now data =>
    have hsession := packet_of_sessions (h.isMissing s) (h.isMissing s.other) now
    have hvalid : (l.packet s now).lastValid = l.lastValid := by
      rw [packet, h.delivers s]
      rfl
    show l.packet s now = l
    cases l
    exact congrArg₂ Link.mk hsession hvalid
  | periodicPeer s now peer =>
    rw [step]
    split
    · rename_i hpeer
      have hearly := he hpeer
      have hno : l.timedOut s now = false := by
        rw [timedOut, Bool.and_eq_false_iff]
        exact Or.inr (decide_eq_false (not_lt.mpr hearly))
      rw [timer, hno]
      rfl
    · rfl

end Link

end Husarnet
