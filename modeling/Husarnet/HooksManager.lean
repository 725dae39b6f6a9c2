import Husarnet.Config.ConfigManager
import Husarnet.Lib.Countdown

/-! # Hooks

Scheduling a hook sets its timer, and the hooks thread lowers all timers once in a period. A hook that is scheduled
again before its timer is up runs once, for the last of them.
-/

namespace Husarnet
open Countdown
set_option autoImplicit false

def HOOKS_PERIOD : ℕ := 100
def HOOKS_BUMP_TIME : ℕ := 200

/-- The order of `magic_enum::enum_for_each`. -/
def HookType.all : List HookType := [.claimed, .unclaimed]

structure HooksManager where
  enabled : Bool
  hookTimers : HookType → ℤ

inductive HookEvent where
  | schedule (hook : HookType)
  | round
  deriving DecidableEq

namespace HooksManager

def new (enableHooks : Bool) : HooksManager where
  enabled := enableHooks
  hookTimers _ := -1

def scheduleHook (m : HooksManager) (hookType : HookType) : HooksManager :=
  if !m.enabled then m else { m with hookTimers := Function.update m.hookTimers hookType HOOKS_BUMP_TIME }

/-- The loop of `periodicThread` over the hooks, with the hooks that it runs. -/
def lowerTimers (m : HooksManager) : List HookType → HooksManager × List HookType
  | [] => (m, [])
  | hook :: hooks =>
    if 0 ≤ m.hookTimers hook then
      let timer := m.hookTimers hook - HOOKS_PERIOD
      if timer ≤ 0 then
        let (m, ran) := lowerTimers { m with hookTimers := Function.update m.hookTimers hook (-1) } hooks
        (m, hook :: ran)
      else lowerTimers { m with hookTimers := Function.update m.hookTimers hook timer } hooks
    else lowerTimers m hooks

/-- One round of `periodicThread`, which returns at once when hooks are not enabled. -/
def round (m : HooksManager) : HooksManager × List HookType := if !m.enabled then (m, []) else m.lowerTimers HookType.all

def step (m : HooksManager) : HookEvent → HooksManager × List HookType
  | .schedule hook => (m.scheduleHook hook, [])
  | .round => m.round

def runAll (m : HooksManager) : List HookEvent → HooksManager × List HookType
  | [] => (m, [])
  | e :: es =>
    let (m, ran) := m.step e
    let (m, more) := runAll m es
    (m, ran ++ more)

@[simp] theorem enabled_scheduleHook (m : HooksManager) (hook : HookType) : (m.scheduleHook hook).enabled = m.enabled := by
  unfold scheduleHook
  split <;> rfl

/-- What the loop makes of each timer, and which hooks it runs. -/
theorem lowerTimers_spec (m : HooksManager) {hooks : List HookType} (hd : hooks.Nodup) :
    m.lowerTimers hooks =
      ({ m with hookTimers := fun hook =>
          if hook ∈ hooks then (turn HOOKS_PERIOD (m.hookTimers hook)).1 else m.hookTimers hook },
        hooks.filter fun hook => (turn HOOKS_PERIOD (m.hookTimers hook)).2) := by
  induction hooks generalizing m with
  | nil => simp [lowerTimers]
  | cons hook hooks ih =>
    obtain ⟨hnot, hrest⟩ := List.nodup_cons.mp hd
    have hne {h : HookType} (hh : h ∈ hooks) : h ≠ hook := fun he => hnot (he ▸ hh)
    have hother (v : ℤ) : ({ m with hookTimers := Function.update m.hookTimers hook v } : HooksManager).lowerTimers hooks =
        ({ m with hookTimers := fun h => if h ∈ hook :: hooks then
            if h = hook then v else (turn HOOKS_PERIOD (m.hookTimers h)).1 else m.hookTimers h },
          hooks.filter fun h => (turn HOOKS_PERIOD (m.hookTimers h)).2) := by
      rw [ih _ hrest]
      refine Prod.ext ?_ ?_
      · simp only [HooksManager.mk.injEq, true_and]
        funext h
        by_cases hh : h = hook
        · simp [hh, hnot]
        · simp [hh]
      · apply List.filter_congr
        intro h hh
        simp [hne hh]
    have hsame : m = { m with hookTimers := Function.update m.hookTimers hook (m.hookTimers hook) } := by
      rw [Function.update_eq_self]
    have hshape (v : ℤ) (hv : v = (turn HOOKS_PERIOD (m.hookTimers hook)).1) : (fun h => if h ∈ hook :: hooks then
        if h = hook then v else (turn HOOKS_PERIOD (m.hookTimers h)).1 else m.hookTimers h) =
        fun h => if h ∈ hook :: hooks then (turn HOOKS_PERIOD (m.hookTimers h)).1 else m.hookTimers h := by
      funext h
      by_cases hh : h = hook
      · simp [hh, hv]
      · simp [hh]
    rw [lowerTimers]
    by_cases hset : 0 ≤ m.hookTimers hook
    · by_cases hup : m.hookTimers hook - HOOKS_PERIOD ≤ 0
      · have hturn : turn HOOKS_PERIOD (m.hookTimers hook) = (-1, true) := by rw [turn, if_pos hset, if_pos hup]
        rw [if_pos hset, if_pos hup, hother, hshape _ (by rw [hturn])]
        simp [hturn]
      · have hturn : turn HOOKS_PERIOD (m.hookTimers hook) = (m.hookTimers hook - HOOKS_PERIOD, false) := by
          rw [turn, if_pos hset, if_neg hup]
        rw [if_pos hset, if_neg hup, hother, hshape _ (by rw [hturn])]
        simp [hturn]
    · have hturn : turn HOOKS_PERIOD (m.hookTimers hook) = (m.hookTimers hook, false) := by rw [turn, if_neg hset]
      rw [if_neg hset, hsame, hother, ← hsame, hshape _ (by rw [hturn])]
      simp [hturn]

theorem hookType_mem_all (hook : HookType) : hook ∈ HookType.all := by
  cases hook <;> decide

theorem round_eq {m : HooksManager} (h : m.enabled = true) : m.round =
    ({ m with hookTimers := fun hook => (turn HOOKS_PERIOD (m.hookTimers hook)).1 },
      HookType.all.filter fun hook => (turn HOOKS_PERIOD (m.hookTimers hook)).2) := by
  rw [round, if_neg (by simp [h])]
  simp [lowerTimers_spec m (show HookType.all.Nodup by decide), hookType_mem_all]

/-! ## When a hook runs -/

/-- The timer of each hook reads what the events say. -/
structure Follows (m : HooksManager) (events : List HookEvent) : Prop where
  enabled : m.enabled = true
  shows (hook : HookType) : Shows HOOKS_PERIOD HOOKS_BUMP_TIME (m.hookTimers hook) (age (.schedule hook) .round events)

theorem Follows.new : Follows (.new true) [] := ⟨rfl, fun _ => by simp [age, Shows, HooksManager.new]⟩

theorem Follows.step {m : HooksManager} {events : List HookEvent} (h : m.Follows events) (e : HookEvent) :
    (m.step e).1.Follows (events ++ [e]) := by
  cases e with
  | schedule hook =>
    refine ⟨by simp [HooksManager.step, h.enabled], fun other => ?_⟩
    rw [age_append_singleton]
    simp only [HooksManager.step, scheduleHook, h.enabled]
    by_cases ho : other = hook
    · simpa [older, ho] using shows_set HOOKS_PERIOD HOOKS_BUMP_TIME
    · simpa [older, ho, Ne.symm ho] using h.shows other
  | round =>
    rw [HooksManager.step, round_eq h.enabled]
    refine ⟨h.enabled, fun hook => ?_⟩
    rw [age_append_singleton]
    simpa [older] using ((h.shows hook).turn (by decide)).1

theorem Follows.runAll {m : HooksManager} {past : List HookEvent} (h : m.Follows past) (events : List HookEvent) :
    (m.runAll events).1.Follows (past ++ events) := by
  induction events generalizing m past with
  | nil => simpa [HooksManager.runAll] using h
  | cons e events ih => simpa [HooksManager.runAll] using ih (h.step e)

/-- The hooks of a round run in their order, whatever the order they were scheduled in. -/
theorem Follows.round_ran {m : HooksManager} {events : List HookEvent} (h : m.Follows events) :
    m.round.2 = HookType.all.filter fun hook => age (.schedule hook) .round events = some 1 := by
  rw [round_eq h.enabled]
  apply List.filter_congr
  intro hook _
  rw [Bool.eq_iff_iff, decide_eq_true_eq]
  exact ((h.shows hook).turn (by decide)).2

/-- **A hook runs in the second round behind its last scheduling**, and in no other. -/
theorem hook_runs_iff (events : List HookEvent) :
    ((new true).runAll events).1.round.2.Sublist HookType.all ∧
      ∀ hook, hook ∈ ((new true).runAll events).1.round.2 ↔
        ∃ earlier later, events = earlier ++ .schedule hook :: later ∧ .schedule hook ∉ later ∧ later.count .round = 1 := by
  have hran := (Follows.new.runAll events).round_ran
  rw [List.nil_append] at hran
  rw [hran]
  refine ⟨List.filter_sublist, fun hook => ?_⟩
  rw [List.mem_filter, decide_eq_true_eq, age_eq_some_iff]
  simp [hookType_mem_all]

end HooksManager
end Husarnet
