import Mathlib.Data.List.Basic

/-! # Loops that try again

A loop makes one attempt after the other until one is done or none is left. An attempt may have its
effect without being done; then another attempt can have the effect again.
-/

namespace Retries
set_option autoImplicit false

variable {α : Type} {done hit : α → Bool}

/-- The attempts that the loop makes, of those that it could make. -/
def tried (done : α → Bool) : List α → List α
  | [] => []
  | a :: as => if done a then [a] else a :: tried done as

/-- An attempt has its effect while none is done, and a later one has it again. -/
def Again (done hit : α → Bool) (as : List α) : Prop :=
  ∃ before first between second after, as = before ++ first :: between ++ second :: after ∧
    hit first = true ∧ hit second = true ∧ ∀ a ∈ before ++ first :: between, done a = false

theorem tried_cons_done {a : α} (h : done a = true) (as : List α) : tried done (a :: as) = [a] := by
  rw [tried, if_pos h]

theorem tried_cons_failed {a : α} (h : done a = false) (as : List α) : tried done (a :: as) = a :: tried done as := by
  rw [tried, if_neg (by simp [h])]

/-- Behind attempts that all failed the loop goes on. -/
theorem tried_append {before : List α} (h : ∀ a ∈ before, done a = false) (as : List α) :
    tried done (before ++ as) = before ++ tried done as := by
  induction before with
  | nil => rfl
  | cons a before ih =>
    obtain ⟨ha, hbefore⟩ := List.forall_mem_cons.mp h
    rw [List.cons_append, tried_cons_failed ha, ih hbefore, List.cons_append]

theorem head_tried (done : α → Bool) (a : α) (as : List α) : ∃ rest, tried done (a :: as) = a :: rest := by
  rw [tried]
  split
  · exact ⟨[], rfl⟩
  · exact ⟨_, rfl⟩

/-- All attempts before one that is made have failed. -/
theorem failed_before {as pre post : List α} {b : α} (h : tried done as = pre ++ b :: post) :
    (∀ a ∈ pre, done a = false) ∧ ∃ after, as = pre ++ b :: after := by
  induction as generalizing pre with
  | nil => exact absurd h.symm (List.append_ne_nil_of_right_ne_nil pre (List.cons_ne_nil b post))
  | cons a as ih =>
    cases pre with
    | nil =>
      obtain ⟨rest, hrest⟩ := head_tried done a as
      rw [hrest] at h
      obtain ⟨rfl, -⟩ := List.cons.inj h
      exact ⟨List.forall_mem_nil _, as, rfl⟩
    | cons c pre =>
      by_cases hdone : done a = true
      · rw [tried_cons_done hdone] at h
        exact absurd (List.cons.inj h).2.symm (List.append_ne_nil_of_right_ne_nil pre (List.cons_ne_nil b post))
      · have hfailed : done a = false := by simpa using hdone
        rw [tried_cons_failed hfailed] at h
        obtain ⟨rfl, htail⟩ := List.cons.inj h
        obtain ⟨hpre, after, rfl⟩ := ih htail
        exact ⟨List.forall_mem_cons.mpr ⟨hfailed, hpre⟩, after, rfl⟩

theorem Again.cons {a : α} {as : List α} (ha : done a = false) (h : Again done hit as) : Again done hit (a :: as) := by
  obtain ⟨before, first, between, second, after, rfl, hfirst, hsecond, hfailed⟩ := h
  exact ⟨a :: before, first, between, second, after, rfl, hfirst, hsecond, List.forall_mem_cons.mpr ⟨ha, hfailed⟩⟩

/-- **At most one effect.** The attempts that a loop makes have their effect twice if and only if one has it
before any is done, and a later one has it again. -/
theorem countP_tried_le_one_iff (as : List α) : (tried done as).countP hit ≤ 1 ↔ ¬ Again done hit as := by
  constructor
  · rintro hcount ⟨before, first, between, second, after, rfl, hfirst, hsecond, hfailed⟩
    obtain ⟨rest, hrest⟩ := head_tried done second after
    rw [tried_append hfailed, hrest, List.countP_append, List.countP_append, List.countP_cons_of_pos hfirst,
      List.countP_cons_of_pos hsecond] at hcount
    omega
  · intro hnone
    induction as with
    | nil => exact Nat.zero_le 1
    | cons a as ih =>
      by_cases hdone : done a = true
      · rw [tried_cons_done hdone]
        exact List.countP_le_length
      · have hfailed : done a = false := by simpa using hdone
        rw [tried_cons_failed hfailed]
        have hrest := ih fun h => hnone (h.cons hfailed)
        by_cases hhit : hit a = true
        · -- a second effect would be one again
          rw [List.countP_cons_of_pos hhit]
          have hzero : (tried done as).countP hit = 0 := by
            by_contra hpos
            obtain ⟨second, hmem, hsecond⟩ := List.countP_pos_iff.mp (Nat.pos_of_ne_zero hpos)
            obtain ⟨pre, post, hsplit⟩ := List.append_of_mem hmem
            obtain ⟨hpre, after, rfl⟩ := failed_before hsplit
            exact hnone ⟨[], a, pre, second, after, rfl, hhit, hsecond, List.forall_mem_cons.mpr ⟨hfailed, hpre⟩⟩
          omega
        · rw [List.countP_cons_of_neg hhit]
          exact hrest

end Retries
