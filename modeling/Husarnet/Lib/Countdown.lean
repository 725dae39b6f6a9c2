import Mathlib.Data.Int.Notation
import Mathlib.Data.List.Basic
import Mathlib.Data.List.Count
import Mathlib.Data.List.Induction
import Mathlib.Tactic.Ring

/-! # Countdown timers

A timer that an event of its own sets and every turn lowers. It goes off in the first turn that leaves nothing of
it, and rests until it is set again. Below zero it rests.
-/

namespace Countdown
set_option autoImplicit false

def turn (period t : ℤ) : ℤ × Bool :=
  if 0 ≤ t then if t - period ≤ 0 then (-1, true) else (t - period, false) else (t, false)

/-- The turn, counted from the setting, in which a timer goes off that was set to `start`. -/
def due (period start : ℕ) : ℕ := max 1 ((start + period - 1) / period)

theorem due_pos (period start : ℕ) : 0 < due period start := by
  unfold due
  omega

theorem lt_due_iff {period : ℕ} (hp : 0 < period) (start k : ℕ) :
    k + 1 < due period start ↔ (k + 1) * period < start := by
  have hdiv : k + 2 ≤ (start + period - 1) / period ↔ (k + 2) * period ≤ start + period - 1 :=
    Nat.le_div_iff_mul_le hp
  have hmul : (k + 2) * period = (k + 1) * period + period := Nat.succ_mul (k + 1) period
  unfold due
  omega

/-- What the timer reads when it was set `k` turns ago, or never. -/
def Shows (period start : ℕ) (t : ℤ) : Option ℕ → Prop
  | none => t < 0
  | some k => if k < due period start then t = (start : ℤ) - k * period else t < 0

theorem shows_set (period start : ℕ) : Shows period start start (some 0) := by
  simp [Shows, due_pos]

theorem Shows.turn {period start : ℕ} (hp : 0 < period) {t : ℤ} {k : Option ℕ} (h : Shows period start t k) :
    Shows period start (turn period t).1 (k.map (· + 1)) ∧
      ((Countdown.turn period t).2 = true ↔ k = some (due period start - 1)) := by
  have hpos := due_pos period start
  have hrest {t : ℤ} (ht : t < 0) : Countdown.turn period t = (t, false) := by
    rw [Countdown.turn, if_neg (by omega)]
  cases k with
  | none =>
    rw [hrest h]
    exact ⟨h, by simp⟩
  | some k =>
    by_cases hk : k < due period start
    · simp only [Shows, if_pos hk] at h
      have hnext := lt_due_iff hp start k
      have hsucc : ((k + 1 : ℕ) : ℤ) * period = k * period + period := by push_cast; ring
      have hstart : (k : ℤ) * period ≤ start := by
        cases k with
        | zero => simp
        | succ k =>
          have := (lt_due_iff hp start k).mp hk
          exact_mod_cast this.le
      have hgo : 0 ≤ t := by omega
      by_cases hlast : k + 1 < due period start
      · have hmore : ((k + 1 : ℕ) : ℤ) * period < start := by exact_mod_cast hnext.mp hlast
        rw [Countdown.turn, if_pos hgo, if_neg (by omega)]
        refine ⟨?_, ?_⟩
        · simp only [Option.map_some, Shows, if_pos hlast]
          omega
        · simp only [Bool.false_eq_true, Option.some.injEq, false_iff]
          omega
      · have hless : (start : ℤ) ≤ ((k + 1 : ℕ) : ℤ) * period := by
          exact_mod_cast Nat.le_of_not_lt fun h => hlast (hnext.mpr h)
        rw [Countdown.turn, if_pos hgo, if_pos (by omega)]
        refine ⟨?_, ?_⟩
        · simp only [Option.map_some, Shows, if_neg hlast]
          omega
        · simp only [Option.some.injEq, true_iff]
          omega
    · simp only [Shows, if_neg hk] at h
      rw [hrest h]
      refine ⟨?_, ?_⟩
      · simp only [Option.map_some, Shows, if_neg (show ¬ k + 1 < due period start by omega)]
        exact h
      · simp only [Bool.false_eq_true, Option.some.injEq, false_iff]
        omega

/-! ## How long ago the timer was set -/

section Age
variable {ε : Type} [DecidableEq ε] (set turns : ε)

def older (k : Option ℕ) (e : ε) : Option ℕ := if e = set then some 0 else if e = turns then k.map (· + 1) else k

/-- The turns since the last setting among the events, the oldest one first. -/
def age (es : List ε) : Option ℕ := es.foldl (older set turns) none

variable {set turns}

theorem age_append_singleton (es : List ε) (e : ε) : age set turns (es ++ [e]) = older set turns (age set turns es) e := by
  simp [age]

omit [DecidableEq ε] in
theorem append_singleton_eq_iff {es earlier later : List ε} {e : ε} (hlater : set ∉ later) :
    es ++ [e] = earlier ++ set :: later ↔
      (e = set ∧ es = earlier ∧ later = []) ∨ ∃ later', later = later' ++ [e] ∧ es = earlier ++ set :: later' := by
  constructor
  · intro h
    rcases List.eq_nil_or_concat later with rfl | ⟨later', x, rfl⟩
    · obtain ⟨hes, he⟩ := List.append_inj' h rfl
      exact Or.inl ⟨List.singleton_injective he, hes, rfl⟩
    · rw [List.concat_eq_append, ← List.cons_append, ← List.append_assoc] at h
      obtain ⟨hes, he⟩ := List.append_inj' h rfl
      obtain rfl := List.singleton_injective he
      exact Or.inr ⟨later', List.concat_eq_append, hes⟩
  · rintro (⟨rfl, rfl, rfl⟩ | ⟨later', rfl, rfl⟩)
    · rfl
    · simp

/-- **When the last setting was.** -/
theorem age_eq_some_iff {es : List ε} {k : ℕ} : age set turns es = some k ↔
    ∃ earlier later, es = earlier ++ set :: later ∧ set ∉ later ∧ later.count turns = k := by
  induction es using List.reverseRecOn generalizing k with
  | nil => simp [age]
  | append_singleton es e ih =>
    rw [age_append_singleton, older]
    by_cases hset : e = set
    · rw [if_pos hset, Option.some.injEq]
      constructor
      · intro hk
        exact ⟨es, [], by rw [hset], List.not_mem_nil, hk⟩
      · rintro ⟨earlier, later, h, hlater, hk⟩
        rcases (append_singleton_eq_iff hlater).mp h with ⟨-, -, rfl⟩ | ⟨later', rfl, -⟩
        · exact hk
        · exact absurd (List.mem_append_right _ (List.mem_singleton.mpr hset.symm)) hlater
    · have hsplit : (∃ earlier later, es ++ [e] = earlier ++ set :: later ∧ set ∉ later ∧ later.count turns = k) ↔
          ∃ earlier later, es = earlier ++ set :: later ∧ set ∉ later ∧ later.count turns + [e].count turns = k := by
        constructor
        · rintro ⟨earlier, later, h, hlater, hk⟩
          rcases (append_singleton_eq_iff hlater).mp h with ⟨he, -, -⟩ | ⟨later', rfl, hes⟩
          · exact absurd he hset
          · rw [List.mem_append, not_or] at hlater
            exact ⟨earlier, later', hes, hlater.1, by rw [← hk, List.count_append]⟩
        · rintro ⟨earlier, later, rfl, hlater, hk⟩
          refine ⟨earlier, later ++ [e], by simp, ?_, by rw [← hk, List.count_append]⟩
          simp [hlater, Ne.symm hset]
      rw [hsplit, if_neg hset]
      by_cases hturn : e = turns
      · rw [if_pos hturn, hturn, List.count_singleton_self]
        cases k with
        | zero => simp
        | succ k =>
          rw [Option.map_eq_some_iff]
          simp only [Nat.add_right_cancel_iff, exists_eq_right, ih]
      · rw [if_neg hturn, ih]
        simp [hturn]

end Age
end Countdown
