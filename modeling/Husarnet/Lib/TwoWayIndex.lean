import Mathlib.Data.List.Nodup
import Mathlib.Logic.Function.Basic

/-! # Indexes kept in two places

Things have at most one owner, an owner keeps a list of its things and a map leads from a thing to
its owner. Every change has to be made on both sides.
-/

namespace TwoWayIndex
set_option autoImplicit false

variable {α ρ : Type} {owner : α → Option ρ} {owned : ρ → List α}

/-- The map leads to an owner from the things on its list, which are all different. -/
structure Consistent (owner : α → Option ρ) (owned : ρ → List α) : Prop where
  owner_iff (a : α) (r : ρ) : owner a = some r ↔ a ∈ owned r
  nodup (r : ρ) : (owned r).Nodup

namespace Consistent

theorem empty : Consistent (fun _ : α => (none : Option ρ)) fun _ => [] :=
  ⟨fun _ r => iff_of_false (Option.some_ne_none r).symm List.not_mem_nil, fun _ => List.nodup_nil⟩

theorem unique (h : Consistent owner owned) {a : α} {r r' : ρ} (hr : a ∈ owned r) (hr' : a ∈ owned r') : r = r' := by
  have hsome := (h.owner_iff a r).mpr hr
  rw [(h.owner_iff a r').mpr hr', Option.some.injEq] at hsome
  exact hsome.symm

section Changes
variable [DecidableEq α] [DecidableEq ρ]

theorem release (h : Consistent owner owned) {a : α} {r : ρ} (ha : a ∈ owned r) :
    Consistent (Function.update owner a none) (Function.update owned r ((owned r).erase a)) where
  owner_iff b q := by
    by_cases hb : b = a
    · subst hb
      rw [Function.update_self]
      by_cases hq : q = r
      · subst hq
        rw [Function.update_self]
        exact iff_of_false (Option.some_ne_none q).symm (h.nodup q).not_mem_erase
      · rw [Function.update_of_ne hq]
        exact iff_of_false (Option.some_ne_none q).symm fun hm => hq (h.unique hm ha)
    · rw [Function.update_of_ne hb, h.owner_iff]
      by_cases hq : q = r
      · subst hq
        rw [Function.update_self, List.mem_erase_of_ne hb]
      · rw [Function.update_of_ne hq]
  nodup q := by
    by_cases hq : q = r
    · subst hq
      rw [Function.update_self]
      exact (h.nodup q).erase a
    · rw [Function.update_of_ne hq]
      exact h.nodup q

theorem claim (h : Consistent owner owned) {a : α} {r : ρ} (ha : a ∉ owned r) :
    Consistent (Function.update owner a (some r)) fun q => if q = r then owned r ++ [a] else (owned q).erase a where
  owner_iff b q := by
    by_cases hb : b = a
    · subst hb
      rw [Function.update_self, Option.some.injEq]
      by_cases hq : q = r
      · rw [if_pos hq]
        exact ⟨fun _ => List.mem_append_right _ (List.mem_singleton_self b), fun _ => hq.symm⟩
      · rw [if_neg hq]
        exact ⟨fun he => absurd he.symm hq, fun hm => absurd hm (h.nodup q).not_mem_erase⟩
    · rw [Function.update_of_ne hb, h.owner_iff]
      by_cases hq : q = r
      · rw [if_pos hq, hq, List.mem_append, List.mem_singleton, or_iff_left hb]
      · rw [if_neg hq, List.mem_erase_of_ne hb]
  nodup q := by
    by_cases hq : q = r
    · rw [if_pos hq]
      exact List.nodup_append.mpr ⟨h.nodup r, List.nodup_singleton a, fun b hb c hc he =>
        ha (List.mem_singleton.mp hc ▸ he ▸ hb)⟩
    · rw [if_neg hq]
      exact (h.nodup q).erase a

end Changes
end Consistent
end TwoWayIndex
