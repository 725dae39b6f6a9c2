import Mathlib.Data.List.Iterate
import Mathlib.Data.List.Range

/-! # A counter that goes round a range

`next first last` counts up and starts again at `first` behind `last`. From anywhere in the range,
as many steps as it has elements meet each of them once.
-/

namespace CyclicCounter
set_option autoImplicit false

def next (first last i : ℕ) : ℕ := if i + 1 > last then first else i + 1

variable {first last i : ℕ}

theorem next_of_lt (h : i < last) : next first last i = i + 1 := if_neg (not_lt.mpr h)

theorem next_last : next first last last = first := if_pos (Nat.lt_succ_self last)

theorem next_mem (hf : first ≤ i) (hl : i ≤ last) : first ≤ next first last i ∧ next first last i ≤ last := by
  unfold next
  split
  · omega
  · omega

/-- Up to the end of the range the counter counts up. -/
theorem iterate_below {k : ℕ} (h : i + k ≤ last + 1) : List.iterate (next first last) i k = List.range' i k := by
  induction k generalizing i with
  | zero => rfl
  | succ k ih =>
    rw [List.iterate, List.range'_succ]
    cases k with
    | zero => rfl
    | succ k => rw [next_of_lt (by omega), ih (by omega)]

theorem iterate_to_first (h : i ≤ last) : (next first last)^[last - i + 1] i = first := by
  obtain ⟨k, rfl⟩ := Nat.exists_eq_add_of_le h
  have hk : i + k - i = k := by omega
  rw [hk]
  clear h hk
  induction k generalizing i with
  | zero => exact next_last
  | succ k ih =>
    have hnext : next first (i + (k + 1)) i = i + 1 := next_of_lt (by omega)
    have hlast : i + (k + 1) = i + 1 + k := by omega
    rw [Function.iterate_succ_apply, hnext, hlast]
    exact ih

/-- **One round meets every element of the range once.** -/
theorem iterate_perm (hf : first ≤ i) (hl : i ≤ last) :
    (List.iterate (next first last) i (last - first + 1)).Perm (List.range' first (last - first + 1)) := by
  have hsplit : last - first + 1 = (last - i + 1) + (i - first) := by omega
  have hlow : List.iterate (next first last) first (i - first) = List.range' first (i - first) :=
    iterate_below (by omega)
  have hhigh : List.iterate (next first last) i (last - i + 1) = List.range' i (last - i + 1) :=
    iterate_below (by omega)
  have hwhole : List.range' first (last - first + 1) =
      List.range' first (i - first) ++ List.range' i (last - i + 1) := by
    have hmid : first + 1 * (i - first) = i := by omega
    have hsum : i - first + (last - i + 1) = last - first + 1 := by omega
    rw [← hsum, ← List.range'_append, hmid]
  rw [hwhole, hsplit, List.iterate_add, hhigh, iterate_to_first hl, hlow]
  exact List.perm_append_comm

/-! ## Remainders -/

variable {n : ℕ}

theorem next_mod (hn : 0 < n) (r : ℕ) : next 0 (n - 1) (r % n) = (r + 1) % n := by
  have hlt := Nat.mod_lt r hn
  have hstep : (r + 1) % n = (r % n + 1) % n := (Nat.mod_add_mod r n 1).symm
  rw [hstep, next]
  split
  · rename_i hlast
    have heq : r % n + 1 = n := by omega
    rw [heq, Nat.mod_self]
  · rename_i hbelow
    exact (Nat.mod_eq_of_lt (by omega)).symm

theorem map_mod_eq_iterate (hn : 0 < n) (r k : ℕ) :
    (List.range' r k).map (· % n) = List.iterate (next 0 (n - 1)) (r % n) k := by
  induction k generalizing r with
  | zero => rfl
  | succ k ih =>
    rw [List.range'_succ, List.map_cons, ih (r + 1), List.iterate, next_mod hn]

/-- **As many numbers in a row as the divisor leave each remainder once.** -/
theorem map_mod_perm (n r : ℕ) : ((List.range' r n).map (· % n)).Perm (List.range n) := by
  cases n with
  | zero => rfl
  | succ n =>
    have hn := Nat.succ_pos n
    have hlast : r % (n + 1) ≤ n := Nat.le_of_lt_succ (Nat.mod_lt r hn)
    rw [map_mod_eq_iterate hn, List.range_eq_range']
    exact iterate_perm (Nat.zero_le _) hlast

end CyclicCounter
