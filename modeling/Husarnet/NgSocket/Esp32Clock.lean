import Mathlib.Data.UInt
import Husarnet.NgSocket.PeriodicCalls

/-! # The clock of the ESP32 port

The port multiplies the tick counter of FreeRTOS by the length of a tick. Both are unsigned numbers of 32
bits, and so is the product: it is widened to the 64 bits of `Time` when it has wrapped already.
-/

namespace Husarnet
open Octets Containers Runs
set_option autoImplicit false

/-- The counter after this many ticks: `TickType_t` has 32 bits. -/
def xTaskGetTickCount (ticks : ℕ) : UInt32 := UInt32.ofNat ticks

/-- `Port::getCurrentTime` of the port, with `portTICK_PERIOD_MS`. -/
def getCurrentTime (portTickPeriodMs : UInt32) (ticks : ℕ) : Time :=
  ((xTaskGetTickCount ticks * portTickPeriodMs).toNat : ℤ)

/-- The milliseconds between two ticks. -/
def elapsed (portTickPeriodMs : UInt32) (since ticks : ℕ) : ℕ := (ticks - since) * portTickPeriodMs.toNat

variable {period : UInt32}

theorem getCurrentTime_eq (ticks : ℕ) : getCurrentTime period ticks = ((ticks * period.toNat % 2 ^ 32 : ℕ) : ℤ) := by
  rw [getCurrentTime, xTaskGetTickCount, UInt32.toNat_mul, UInt32.toNat_ofNat', Nat.mod_mul_mod]

/-- From one tick to the next the clock goes forward, unless the product wraps. -/
theorem getCurrentTime_le_succ_iff (ticks : ℕ) :
    getCurrentTime period ticks ≤ getCurrentTime period (ticks + 1) ↔
      ticks * period.toNat % 2 ^ 32 + period.toNat < 2 ^ 32 := by
  have hperiod : period.toNat < 2 ^ 32 := period.toNat_lt
  rw [getCurrentTime_eq, getCurrentTime_eq, Int.ofNat_le, Nat.succ_mul]
  omega

/-- A second after a reading, the clock shows so if it has not wrapped since. -/
theorem second_later_iff {since ticks : ℕ} (h : since ≤ ticks) :
    getCurrentTime period since + 1000 ≤ getCurrentTime period ticks ↔
      1000 ≤ elapsed period since ticks % 2 ^ 32 ∧
        since * period.toNat % 2 ^ 32 + elapsed period since ticks % 2 ^ 32 < 2 ^ 32 := by
  have hremainder (a e : ℕ) : a % 2 ^ 32 + 1000 ≤ (a + e) % 2 ^ 32 ↔ 1000 ≤ e % 2 ^ 32 ∧ a % 2 ^ 32 + e % 2 ^ 32 < 2 ^ 32 := by
    rw [Nat.add_mod]
    omega
  have hproduct : ticks * period.toNat = since * period.toNat + elapsed period since ticks := by
    rw [elapsed, ← Nat.add_mul, Nat.add_sub_cancel' h]
  rw [getCurrentTime_eq, getCurrentTime_eq, hproduct, ← hremainder]
  norm_cast

/-! ## The throttle -/

variable (S : Sodium) (T : JsonText)

/-- An event on the port, with the ticks that have elapsed when it happens. -/
def Node.Esp32Step (period : UInt32) (n : Node) (e : ℕ × NodeEvent) (n' : Node) : Prop :=
  RunStep S T n (getCurrentTime period e.1, e.2) n'

def Node.esp32Run (period : UInt32) (n₀ : Node) (events : List (ℕ × NodeEvent)) : List ((ℕ × NodeEvent) × Node) :=
  attempts (fun n e => act S T { n with sent := [] } (getCurrentTime period e.1) e.2) n₀ events

theorem Node.isRun_esp32Run (n₀ : Node) (events : List (ℕ × NodeEvent)) :
    IsRun (Esp32Step S T period) n₀ (n₀.esp32Run S T period events) := isRun_attempts _ n₀ events

/-- The event is a call of `NgSocket::periodic`. -/
def NodeEvent.IsPeriodic (e : NodeEvent) : Prop := ∃ addresses, e = .periodic addresses

section Throttle
variable (period)

/-- The throttle lets the call of the step through. -/
def Executes (x : Node × (ℕ × NodeEvent) × Node) : Prop := x.1.RunsPeriodic (getCurrentTime period x.2.1.1) x.2.1.2

/-- The last call that was executed in these steps was made at the tick. -/
def LastExecuted (steps : List (Node × (ℕ × NodeEvent) × Node)) (tick : ℕ) : Prop :=
  ∃ earlier x later, steps = earlier ++ x :: later ∧ Executes period x ∧ x.2.1.1 = tick ∧
    ∀ y ∈ later, ¬ Executes period y

/-- The throttle suppresses only calls made less than 1000 ms after the last executed one. -/
def SuppressesEarly (steps : List (Node × (ℕ × NodeEvent) × Node)) : Prop :=
  ∀ before x after, steps = before ++ x :: after → x.2.1.2.IsPeriodic → ¬ Executes period x →
    ∃ tick, LastExecuted period before tick ∧ elapsed period tick x.2.1.1 < 1000

/-- A call can trust the clock: it has not wrapped since the last executed call, if that was a second or more
before, and it shows a second until one was executed. -/
structure ClockTrusted (before : List (Node × (ℕ × NodeEvent) × Node)) (ticks : ℕ) : Prop where
  since : ∀ tick, LastExecuted period before tick → elapsed period tick ticks < 1000 ∨
    (1000 ≤ elapsed period tick ticks % 2 ^ 32 ∧
      tick * period.toNat % 2 ^ 32 + elapsed period tick ticks % 2 ^ 32 < 2 ^ 32)
  start : (∀ y ∈ before, ¬ Executes period y) → 1000 ≤ ticks * period.toNat % 2 ^ 32

end Throttle

theorem LastExecuted.unique {steps : List (Node × (ℕ × NodeEvent) × Node)} {tick tick' : ℕ}
    (h : LastExecuted period steps tick) (h' : LastExecuted period steps tick') : tick = tick' := by
  obtain ⟨earlier, x, later, rfl, hx, rfl, hlater⟩ := h
  obtain ⟨earlier', x', later', he, hx', rfl, hlater'⟩ := h'
  obtain ⟨mid, -, hm⟩ | ⟨mid, -, hm⟩ := List.append_eq_append_iff.mp he
  · cases mid with
    | nil => rw [(List.cons.inj hm).1]
    | cons y mid =>
      obtain ⟨rfl, rfl⟩ := List.cons.inj hm
      exact absurd hx' (hlater x' (by simp))
  · cases mid with
    | nil => rw [(List.cons.inj hm).1]
    | cons y mid =>
      obtain ⟨rfl, rfl⟩ := List.cons.inj hm
      exact absurd hx (hlater' x (by simp))

theorem LastExecuted.exists_mem {steps : List (Node × (ℕ × NodeEvent) × Node)} {tick : ℕ}
    (h : LastExecuted period steps tick) : ∃ y ∈ steps, Executes period y := by
  obtain ⟨earlier, x, later, rfl, hx, -, -⟩ := h
  exact ⟨x, by simp, hx⟩

variable {S T}

/-- The stamp is the time of the last executed call, or 0 without one. -/
theorem Node.esp32_stamp {n₀ : Node} {tr : List ((ℕ × NodeEvent) × Node)} (hr : IsRun (Esp32Step S T period) n₀ tr)
    (h₀ : n₀.lastPeriodic = 0) :
    (∃ tick, LastExecuted period (transitions n₀ tr) tick ∧ (last n₀ tr).lastPeriodic = getCurrentTime period tick) ∨
      ((∀ x ∈ transitions n₀ tr, ¬ Executes period x) ∧ (last n₀ tr).lastPeriodic = 0) := by
  have hstep {x : Node × (ℕ × NodeEvent) × Node} (hx : x ∈ transitions n₀ tr) :=
    runStep_lastPeriodic T (hr.of_mem hx).2
  have hstamp := last_stamp (f := Node.lastPeriodic) (v := fun e : ℕ × NodeEvent => getCurrentTime period e.1)
    (W := fun n e => n.RunsPeriodic (getCurrentTime period e.1) e.2) (fun x hx => (hstep hx).1) (fun x hx => (hstep hx).2)
  obtain ⟨earlier, x, later, he, hx, hvalue, hlater⟩ | ⟨hnone, hvalue⟩ := hstamp
  · exact Or.inl ⟨x.2.1.1, ⟨earlier, x, later, he, hx, rfl, hlater⟩, hvalue.symm⟩
  · exact Or.inr ⟨hnone, hvalue.trans h₀⟩

/-- A suppressed call comes early if and only if the call can trust the clock. -/
theorem suppressed_early_iff {before : List (Node × (ℕ × NodeEvent) × Node)} {x : Node × (ℕ × NodeEvent) × Node}
    (hstamp : (∃ tick, LastExecuted period before tick ∧ x.1.lastPeriodic = getCurrentTime period tick) ∨
      ((∀ y ∈ before, ¬ Executes period y) ∧ x.1.lastPeriodic = 0))
    (hx : x.2.1.2.IsPeriodic) :
    (¬ Executes period x → ∃ tick, LastExecuted period before tick ∧ elapsed period tick x.2.1.1 < 1000) ↔
      ClockTrusted period before x.2.1.1 := by
  have hexecutes : Executes period x ↔ x.1.lastPeriodic + 1000 ≤ getCurrentTime period x.2.1.1 := and_iff_right hx
  rw [hexecutes]
  obtain ⟨tick, hlast, hvalue⟩ | ⟨hnone, hvalue⟩ := hstamp
  · rw [hvalue]
    have hearly : elapsed period tick x.2.1.1 < 1000 ∨ tick ≤ x.2.1.1 := by
      refine (le_total tick x.2.1.1).symm.imp_left fun hle => ?_
      rw [elapsed, Nat.sub_eq_zero_of_le hle]
      omega
    constructor
    · intro h
      refine ⟨fun tick' hlast' => ?_, fun hnone => ?_⟩
      · obtain rfl := hlast.unique hlast'
        refine or_iff_not_imp_left.mpr fun hlong => ?_
        refine (second_later_iff (hearly.resolve_left hlong)).mp (not_not.mp fun hsuppressed => hlong ?_)
        obtain ⟨tick', hlast', hshort⟩ := h hsuppressed
        rwa [hlast.unique hlast']
      · obtain ⟨y, hy, he⟩ := hlast.exists_mem
        exact absurd he (hnone y hy)
    · intro h hsuppressed
      refine ⟨tick, hlast, not_not.mp fun hlong => hsuppressed ?_⟩
      exact (second_later_iff (hearly.resolve_left hlong)).mpr ((h.since tick hlast).resolve_left hlong)
  · have hshows : x.1.lastPeriodic + 1000 ≤ getCurrentTime period x.2.1.1 ↔
        1000 ≤ x.2.1.1 * period.toNat % 2 ^ 32 := by
      rw [hvalue, getCurrentTime_eq, zero_add]
      norm_cast
    rw [hshows]
    constructor
    · intro h
      refine ⟨fun tick hlast => ?_, fun _ => not_not.mp fun hsuppressed => ?_⟩
      · obtain ⟨y, hy, he⟩ := hlast.exists_mem
        exact absurd he (hnone y hy)
      · obtain ⟨tick, hlast, -⟩ := h hsuppressed
        obtain ⟨y, hy, he⟩ := hlast.exists_mem
        exact hnone y hy he
    · intro h hsuppressed
      exact absurd (h.start hnone) hsuppressed

/-- **The clock of the port.** From a tick to the next it goes forward if and only if the product does not wrap there.
The throttle of a node, started on the port, suppresses only calls made less than 1000 ms after the last executed
one, if and only if every call can trust the clock. -/
theorem esp32_clock_iff (period : UInt32) (configManager : ConfigManager) (identity : Identity) (tape : Tape)
    (myFlags : PeerFlags) (boot : UInt64) (userAgent : Bytes) (workerQueueSize : ℕ) (sourcePort : UInt16)
    (events : List (ℕ × NodeEvent)) :
    let n₀ := Node.new configManager identity tape myFlags boot userAgent workerQueueSize sourcePort
    let steps := transitions n₀ (n₀.esp32Run S T period events)
    (∀ ticks, getCurrentTime period ticks ≤ getCurrentTime period (ticks + 1) ↔
      ticks * period.toNat % 2 ^ 32 + period.toNat < 2 ^ 32) ∧
    (SuppressesEarly period steps ↔ ∀ before x after, steps = before ++ x :: after → x.2.1.2.IsPeriodic →
      ClockTrusted period before x.2.1.1) := by
  intro n₀ steps
  have hr : IsRun (Node.Esp32Step S T period) n₀ (n₀.esp32Run S T period events) := Node.isRun_esp32Run S T n₀ events
  refine ⟨getCurrentTime_le_succ_iff, ?_⟩
  unfold SuppressesEarly
  refine forall_congr' fun before => forall_congr' fun x => forall_congr' fun after => ?_
  refine imp_congr_right fun he => imp_congr_right fun hx => ?_
  obtain ⟨tr, hbefore, rfl, hlast⟩ := hr.before he
  refine suppressed_early_iff ?_ hx
  rw [← hlast]
  exact Node.esp32_stamp hbefore rfl

theorem clock_wraps_at_last_tick : ¬ ∀ ticks, getCurrentTime 1 ticks ≤ getCurrentTime 1 (ticks + 1) := by
  intro h
  have hlast := h 4294967295
  revert hlast
  decide

end Husarnet
