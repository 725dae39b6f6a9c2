import Husarnet.Lib.Runs
import Husarnet.Lib.Totals

/-! # Potentials

Each step of a run costs something and is given something. When a step never costs more than what it is
given and the potential it takes away, a whole run costs no more than the potential it starts from and
all it is given.
-/

namespace Runs
open Totals
set_option autoImplicit false

variable {σ ε : Type}

/-- **The amortised bound.** -/
theorem spent_le {Φ : σ → ℤ} {cost credit : ε → ℕ} {s : σ} {tr : List (ε × σ)}
    (h : ∀ x ∈ transitions s tr, Φ x.2.2 + cost x.2.1 ≤ Φ x.1 + credit x.2.1) :
    Φ (last s tr) + total cost (tr.map Prod.fst) ≤ Φ s + total credit (tr.map Prod.fst) := by
  induction tr generalizing s with
  | nil => simp [last]
  | cons x tr ih =>
    obtain ⟨e, t⟩ := x
    have hfirst : Φ t + cost e ≤ Φ s + credit e := h (s, e, t) (List.mem_cons_self ..)
    have hrest := ih fun y hy => h y (List.mem_cons_of_mem _ hy)
    show Φ (last t tr) + (total cost (e :: tr.map Prod.fst) : ℕ) ≤ Φ s + (total credit (e :: tr.map Prod.fst) : ℕ)
    rw [total_cons, total_cons]
    omega

end Runs
