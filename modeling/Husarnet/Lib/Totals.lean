import Mathlib.Algebra.BigOperators.Group.List.Basic
import Mathlib.Algebra.GroupWithZero.Nat

/-! # Totals over a list of parties

The states of any number of parties are a list, and what they hold together is a sum over it. A party
that moves changes one entry, so that a law about the sums is checked against that entry alone.
-/

namespace Totals
set_option autoImplicit false

variable {α : Type} (f : α → ℕ)

def total (l : List α) : ℕ := (l.map f).sum

@[simp] theorem total_nil : total f [] = 0 := rfl

@[simp] theorem total_cons (a : α) (l : List α) : total f (a :: l) = f a + total f l := by
  simp [total]

@[simp] theorem total_append_one (l : List α) (a : α) : total f (l ++ [a]) = total f l + f a := by
  simp [total]

theorem total_append (l l' : List α) : total f (l ++ l') = total f l + total f l' := by
  simp [total]

/-- What is taken out of a list is taken off its total. -/
theorem total_erase [BEq α] [LawfulBEq α] {l : List α} {a : α} (h : a ∈ l) : total f (l.erase a) + f a = total f l := by
  induction l with
  | nil => cases h
  | cons x l ih =>
    by_cases hx : x = a
    · subst hx
      rw [List.erase_cons_head, total_cons]
      omega
    · have hrest := ih ((List.mem_cons.mp h).resolve_left (Ne.symm hx))
      rw [List.erase_cons_tail (by simpa using hx), total_cons, total_cons]
      omega

/-- How a total changes when one party moves from `a` to `b`. -/
theorem total_set {l : List α} {i : ℕ} {a : α} (h : l[i]? = some a) (b : α) :
    total f (l.set i b) + f a = total f l + f b := by
  induction l generalizing i with
  | nil => cases h
  | cons x l ih =>
    cases i with
    | zero =>
      rw [List.getElem?_cons_zero, Option.some.injEq] at h
      subst h
      rw [List.set_cons_zero, total_cons, total_cons]
      omega
    | succ i =>
      have hrest := ih (by simpa using h)
      rw [List.set_cons_succ, total_cons, total_cons]
      omega

theorem le_total {l : List α} {a : α} (h : a ∈ l) : f a ≤ total f l := by
  induction l with
  | nil => cases h
  | cons x l ih =>
    rw [total_cons]
    obtain rfl | h := List.mem_cons.mp h
    · exact Nat.le_add_right _ _
    · exact Nat.le_add_left_of_le (ih h)

theorem total_le {n : ℕ} {l : List α} (h : ∀ a, f a ≤ n) : total f l ≤ n * l.length := by
  induction l with
  | nil => simp
  | cons a l ih =>
    rw [total_cons, List.length_cons, Nat.mul_succ]
    have hfirst := h a
    omega

theorem length_le_total {l : List α} (h : ∀ a ∈ l, 1 ≤ f a) : l.length ≤ total f l := by
  induction l with
  | nil => simp
  | cons a l ih =>
    rw [total_cons, List.length_cons]
    have hfirst := h a (List.mem_cons_self ..)
    have hrest := ih fun b hb => h b (List.mem_cons_of_mem _ hb)
    omega

theorem total_eq_zero {l : List α} (h : ∀ a ∈ l, f a = 0) : total f l = 0 := by
  induction l with
  | nil => rfl
  | cons a l ih =>
    rw [total_cons, h a (List.mem_cons_self ..), ih fun b hb => h b (List.mem_cons_of_mem _ hb)]

theorem exists_of_total_ne_zero {l : List α} (h : total f l ≠ 0) : ∃ a ∈ l, f a ≠ 0 := by
  by_contra hnone
  refine h (total_eq_zero f fun a ha => ?_)
  by_contra hne
  exact hnone ⟨a, ha, hne⟩

/-- An entry that another value does not replace stays. -/
theorem mem_set_of_mem {l : List α} {i : ℕ} {a b c : α} (ha : a ∈ l) (hb : l[i]? = some b) (hne : a ≠ b) :
    a ∈ l.set i c := by
  obtain ⟨j, hj⟩ := List.mem_iff_getElem?.mp ha
  have hij : i ≠ j := by
    rintro rfl
    exact hne (Option.some.inj (hj.symm.trans hb))
  refine List.mem_iff_getElem?.mpr ⟨j, ?_⟩
  rw [List.getElem?_set_ne hij]
  exact hj

end Totals
