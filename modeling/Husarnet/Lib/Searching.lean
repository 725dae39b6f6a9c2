import Husarnet.Lib.Bytes

/-! # Searching in byte strings

The first position of a needle, by what stands around it: what stands in front has no needle in it, and what
stands behind does not matter. Lines are what a separator of two bytes cuts a text into.
-/

namespace Octets
set_option autoImplicit false

variable {needle v : Bytes}

/-! ## The first position -/

theorem find_of_split (hne : needle ≠ []) {a : Bytes} (b : Bytes) (h : ¬ needle <:+: a ++ needle.dropLast) :
    find needle (a ++ (needle ++ b)) = some a.length := by
  induction a with
  | nil =>
    obtain ⟨x, needle, rfl⟩ := List.exists_cons_of_ne_nil hne
    have hfirst : (x :: needle).isPrefixOf (x :: (needle ++ b)) = true :=
      List.isPrefixOf_iff_prefix.mpr (List.prefix_append (x :: needle) b)
    rw [List.nil_append, List.cons_append, find, if_pos hfirst]
    rfl
  | cons c a ih =>
    have hlength : needle.length ≤ (c :: a ++ needle.dropLast).length := by
      rw [List.length_append, List.length_cons, List.length_dropLast]
      omega
    have hnot : ¬ needle.isPrefixOf (c :: (a ++ (needle ++ b))) = true := by
      intro hprefix
      have hwhole : needle <+: c :: (a ++ (needle ++ b)) := List.isPrefixOf_iff_prefix.mp hprefix
      have hfront : c :: a ++ needle.dropLast <+: c :: (a ++ (needle ++ b)) := by
        have hdrop : needle.dropLast <+: needle ++ b := (List.dropLast_prefix needle).trans (List.prefix_append needle b)
        exact (List.prefix_append_right_inj (c :: a)).mpr hdrop
      exact h (List.prefix_of_prefix_length_le hwhole hfront hlength).isInfix
    have hrest := ih fun hwithin => h (hwithin.trans (List.suffix_cons c _).isInfix)
    rw [List.cons_append, find, if_neg hnot, hrest]
    rfl

theorem find_split {i : ℕ} (hne : needle ≠ []) (h : find needle v = some i) :
    ∃ a b, v = a ++ (needle ++ b) ∧ a.length = i ∧ ¬ needle <:+: a ++ needle.dropLast := by
  induction v generalizing i with
  | nil =>
    rw [find, if_neg hne] at h
    cases h
  | cons c v ih =>
    rw [find] at h
    split at h
    · rename_i hprefix
      cases h
      obtain ⟨b, hb⟩ := List.isPrefixOf_iff_prefix.mp hprefix
      refine ⟨[], b, hb.symm, rfl, fun hwithin => ?_⟩
      have hlength := hwithin.length_le
      have hpos := List.length_pos_of_ne_nil hne
      rw [List.nil_append, List.length_dropLast] at hlength
      omega
    · rename_i hnot
      obtain ⟨j, hj, rfl⟩ := Option.map_eq_some_iff.mp h
      obtain ⟨a, b, rfl, rfl, hfirst⟩ := ih hj
      refine ⟨c :: a, b, rfl, rfl, fun hwithin => ?_⟩
      rw [List.cons_append, List.infix_cons_iff] at hwithin
      obtain hfront | hlater := hwithin
      · refine hnot (List.isPrefixOf_iff_prefix.mpr (hfront.trans ?_))
        have hdrop : needle.dropLast <+: needle ++ b := (List.dropLast_prefix needle).trans (List.prefix_append needle b)
        exact (List.prefix_append_right_inj (c :: a)).mpr hdrop
      · exact hfirst hlater

theorem find_eq_none_iff (hne : needle ≠ []) : find needle v = none ↔ ¬ needle <:+: v := by
  constructor
  · intro h
    rintro ⟨a, b, rfl⟩
    induction a with
    | nil =>
      obtain ⟨x, needle, rfl⟩ := List.exists_cons_of_ne_nil hne
      have hfirst : (x :: needle).isPrefixOf (x :: (needle ++ b)) = true :=
        List.isPrefixOf_iff_prefix.mpr (List.prefix_append (x :: needle) b)
      rw [List.nil_append, List.cons_append, find, if_pos hfirst] at h
      cases h
    | cons c a ih =>
      rw [List.cons_append, List.cons_append, find] at h
      split at h
      · cases h
      · exact ih (Option.map_eq_none_iff.mp h)
  · intro h
    cases hfind : find needle v with
    | none => rfl
    | some i =>
      have hwithin := find_infix hfind
      exact absurd hwithin h

theorem find_le {i : ℕ} (hne : needle ≠ []) (h : find needle v = some i) : i + needle.length ≤ v.length := by
  obtain ⟨a, b, rfl, rfl, -⟩ := find_split hne h
  simp only [List.length_append]
  omega

/-- A single character. -/
theorem find_char {c : UInt8} {a : Bytes} (h : c ∉ a) (b : Bytes) : find [c] (a ++ c :: b) = some a.length := by
  refine find_of_split (List.cons_ne_nil c []) b fun hwithin => h ?_
  rw [List.dropLast_singleton, List.append_nil] at hwithin
  exact hwithin.subset (List.mem_singleton.mpr rfl)

theorem find_char_none {c : UInt8} {a : Bytes} (h : c ∉ a) : find [c] a = none := by
  refine (find_eq_none_iff (List.cons_ne_nil c [])).mpr fun hwithin => h ?_
  exact hwithin.subset (List.mem_singleton.mpr rfl)

theorem find_char_isSome {c : UInt8} {a : Bytes} (h : c ∈ a) : ∃ x y, a = x ++ c :: y ∧ c ∉ x ∧ find [c] a = some x.length := by
  obtain ⟨x, y, rfl, hx⟩ := List.eq_append_cons_of_mem h
  exact ⟨x, y, rfl, hx, find_char hx y⟩

/-- A text cut at the first byte of a kind. -/
def cutAt (c : UInt8) (v : Bytes) : Option (Bytes × Bytes) := (find [c] v).map fun i => (v.take i, v.drop (i + 1))

theorem cutAt_append {c : UInt8} {a : Bytes} (h : c ∉ a) (b : Bytes) : cutAt c (a ++ c :: b) = some (a, b) := by
  have hdrop : (a ++ c :: b).drop (a.length + 1) = b := by
    rw [← List.drop_drop, List.drop_left]
    rfl
  rw [cutAt, find_char h, Option.map_some, List.take_left, hdrop]

theorem cutAt_none {c : UInt8} (h : c ∉ v) : cutAt c v = none := by
  rw [cutAt, find_char_none h]
  rfl

theorem cutAt_eq_some {c : UInt8} {a b : Bytes} (h : cutAt c v = some (a, b)) : v = a ++ c :: b ∧ c ∉ a := by
  by_cases hmem : c ∈ v
  · obtain ⟨x, y, rfl, hx, -⟩ := find_char_isSome hmem
    rw [cutAt_append hx] at h
    cases h
    exact ⟨rfl, hx⟩
  · rw [cutAt_none hmem] at h
    cases h

/-! ## Lines -/

section Lines
variable {x y : UInt8}

theorem pair_not_infix_concat (hxy : x ≠ y) {l : Bytes} (h : ¬ [x, y] <:+: l) : ¬ [x, y] <:+: l ++ [x] := by
  rintro ⟨a, b, hab⟩
  obtain rfl | ⟨b, z, rfl⟩ := List.eq_nil_or_concat b
  · have hlast : a ++ [x, y] = (a ++ [x]) ++ [y] := by simp
    rw [List.append_nil, hlast] at hab
    exact hxy (List.cons.inj (List.append_inj_right' hab rfl).symm).1
  · rw [List.concat_eq_append, ← List.append_assoc] at hab
    exact h ⟨a, b, List.append_inj_left' hab rfl⟩

theorem find_line (hxy : x ≠ y) {l : Bytes} (h : ¬ [x, y] <:+: l) (rest : Bytes) :
    find [x, y] (l ++ ([x, y] ++ rest)) = some l.length :=
  find_of_split (List.cons_ne_nil x [y]) rest (pair_not_infix_concat hxy h)

theorem pair_not_prefix {l : Bytes} (hne : l ≠ []) (h : ¬ [x, y] <:+: l) (hxy : x ≠ y) (rest : Bytes) :
    ¬ [x, y] <+: l ++ ([x, y] ++ rest) := by
  obtain ⟨c, l, rfl⟩ := List.exists_cons_of_ne_nil hne
  intro hprefix
  rw [List.cons_append] at hprefix
  obtain ⟨hc, hprefix⟩ := List.cons_prefix_cons.mp hprefix
  cases l with
  | nil =>
    obtain ⟨hy, -⟩ := List.cons_prefix_cons.mp hprefix
    exact hxy hy.symm
  | cons d l =>
    obtain ⟨hy, -⟩ := List.cons_prefix_cons.mp hprefix
    subst hc hy
    exact h (List.prefix_append [x, y] l).isInfix

/-- The first blank line: the one behind the first line, or one in the rest. -/
theorem find_blank (hxy : x ≠ y) {l : Bytes} (h : ¬ [x, y] <:+: l) (rest : Bytes) :
    find [x, y, x, y] (l ++ ([x, y] ++ rest)) =
      if [x, y] <+: rest then some l.length else (find [x, y, x, y] rest).map (· + (l.length + 2)) := by
  induction l with
  | nil =>
    have hfirst : [x, y, x, y].isPrefixOf (x :: y :: rest) = true ↔ [x, y] <+: rest := by
      rw [List.isPrefixOf_iff_prefix, List.cons_prefix_cons, List.cons_prefix_cons]
      simp
    have hsecond : ¬ [x, y, x, y].isPrefixOf (y :: rest) = true := by
      rw [List.isPrefixOf_iff_prefix, List.cons_prefix_cons]
      exact fun hprefix => hxy hprefix.1
    have hstart : ([] ++ ([x, y] ++ rest) : Bytes) = x :: y :: rest := rfl
    rw [hstart, find]
    by_cases hblank : [x, y] <+: rest
    · rw [if_pos (hfirst.mpr hblank), if_pos hblank]
      rfl
    · rw [if_neg (mt hfirst.mp hblank), if_neg hblank, find, if_neg hsecond, Option.map_map]
      rfl
  | cons c l ih =>
    have hrest : ¬ [x, y] <:+: l := fun hwithin => h (hwithin.trans (List.suffix_cons c l).isInfix)
    have hnot : ¬ [x, y, x, y].isPrefixOf (c :: (l ++ ([x, y] ++ rest))) = true := by
      intro hprefix
      have hpair : [x, y] <+: [x, y, x, y] := List.prefix_append [x, y] [x, y]
      exact pair_not_prefix (List.cons_ne_nil c l) h hxy rest (hpair.trans (List.isPrefixOf_iff_prefix.mp hprefix))
    rw [List.cons_append, find, if_neg hnot, ih hrest]
    by_cases hblank : [x, y] <+: rest
    · rw [if_pos hblank, if_pos hblank]
      rfl
    · rw [if_neg hblank, if_neg hblank, Option.map_map, List.length_cons]
      exact congrArg (fun f => Option.map f (find [x, y, x, y] rest)) (funext fun n => by
        rw [Function.comp_apply]
        omega)

/-- Lines with their ends. -/
def joinLines (x y : UInt8) (lines : List Bytes) : Bytes := lines.flatMap fun l => l ++ [x, y]

/-- Lines that are not empty have their first blank line at their end. -/
theorem find_blank_lines (hxy : x ≠ y) {lines : List Bytes} (hne : lines ≠ [])
    (h : ∀ l ∈ lines, l ≠ [] ∧ ¬ [x, y] <:+: l) (rest : Bytes) :
    ∃ i, find [x, y, x, y] (joinLines x y lines ++ ([x, y] ++ rest)) = some i ∧ i + 2 = (joinLines x y lines).length := by
  induction lines with
  | nil => exact absurd rfl hne
  | cons l lines ih =>
    obtain ⟨⟨-, hl⟩, hlines⟩ := List.forall_mem_cons.mp h
    have hjoin : joinLines x y (l :: lines) = l ++ [x, y] ++ joinLines x y lines := rfl
    have hlength : (joinLines x y (l :: lines)).length = l.length + 2 + (joinLines x y lines).length := by
      rw [hjoin, List.length_append, List.length_append]
      rfl
    rw [hlength, hjoin, List.append_assoc, List.append_assoc, find_blank hxy hl]
    cases lines with
    | nil =>
      have hblank : [x, y] <+: joinLines x y [] ++ ([x, y] ++ rest) := List.prefix_append [x, y] rest
      rw [if_pos hblank]
      exact ⟨l.length, rfl, rfl⟩
    | cons next lines =>
      obtain ⟨i, hfind, hi⟩ := ih (List.cons_ne_nil next lines) hlines
      obtain ⟨⟨hnext, hfree⟩, -⟩ := List.forall_mem_cons.mp hlines
      have hblank : ¬ [x, y] <+: joinLines x y (next :: lines) ++ ([x, y] ++ rest) := by
        have hstart : joinLines x y (next :: lines) ++ ([x, y] ++ rest) =
            next ++ ([x, y] ++ (joinLines x y lines ++ ([x, y] ++ rest))) := by
          simp [joinLines]
        rw [hstart]
        exact pair_not_prefix hnext hfree hxy _
      rw [if_neg hblank, hfind]
      exact ⟨i + (l.length + 2), rfl, by omega⟩

/-- What the line ends cut a text into. -/
def splitLines (x y : UInt8) (v : Bytes) : List Bytes :=
  match _h : find [x, y] v with
  | none => [v]
  | some i => v.take i :: splitLines x y (v.drop (i + 2))
termination_by v.length
decreasing_by
  have hle := find_le (List.cons_ne_nil x [y]) _h
  simp only [List.length_cons, List.length_nil] at hle
  rw [List.length_drop]
  omega

theorem splitLines_last (h : ¬ [x, y] <:+: v) : splitLines x y v = [v] := by
  have hnone := (find_eq_none_iff (List.cons_ne_nil x [y])).mpr h
  rw [splitLines]
  split
  · rfl
  · rename_i hsome
    rw [hnone] at hsome
    cases hsome

theorem splitLines_line (hxy : x ≠ y) {l : Bytes} (h : ¬ [x, y] <:+: l) (rest : Bytes) :
    splitLines x y (l ++ ([x, y] ++ rest)) = l :: splitLines x y rest := by
  have hfind := find_line hxy h rest
  have hdrop : (l ++ ([x, y] ++ rest)).drop (l.length + 2) = rest := by
    rw [← List.drop_drop, List.drop_left]
    rfl
  rw [splitLines]
  split
  · rename_i hnone
    rw [hfind] at hnone
    cases hnone
  · rename_i i hsome
    rw [hfind] at hsome
    cases hsome
    rw [hdrop, List.take_left]

/-- Every text has a first line: up to a line end, or all of it. -/
theorem first_line (x y : UInt8) (v : Bytes) :
    ¬ [x, y] <:+: v ∨ ∃ l rest, v = l ++ ([x, y] ++ rest) ∧ ¬ [x, y] <:+: l := by
  cases hfind : find [x, y] v with
  | none => exact Or.inl ((find_eq_none_iff (List.cons_ne_nil x [y])).mp hfind)
  | some i =>
    obtain ⟨l, rest, hv, -, hfirst⟩ := find_split (List.cons_ne_nil x [y]) hfind
    exact Or.inr ⟨l, rest, hv, fun hwithin => hfirst (hwithin.trans (List.prefix_append l _).isInfix)⟩

theorem splitLines_ne_nil (x y : UInt8) (v : Bytes) : splitLines x y v ≠ [] := by
  rw [splitLines]
  split <;> simp

theorem joinLines_splitLines (hxy : x ≠ y) (v : Bytes) :
    joinLines x y (splitLines x y v) = v ++ [x, y] ∧ ∀ l ∈ splitLines x y v, ¬ [x, y] <:+: l := by
  obtain h | ⟨l, rest, rfl, h⟩ := first_line x y v
  · rw [splitLines_last h]
    exact ⟨by simp [joinLines], by simpa using h⟩
  · obtain ⟨hjoin, hlines⟩ := joinLines_splitLines hxy rest
    rw [splitLines_line hxy h rest]
    refine ⟨?_, List.forall_mem_cons.mpr ⟨h, hlines⟩⟩
    rw [joinLines, List.flatMap_cons]
    change _ ++ joinLines x y (splitLines x y rest) = _
    rw [hjoin]
    simp only [List.append_assoc]
termination_by v.length
decreasing_by
  subst_vars
  simp only [List.length_append, List.length_cons, List.length_nil]
  omega

/-- In front of the first blank line no line but the first is empty. -/
theorem splitLines_tail_ne_nil (hxy : x ≠ y) (h : ¬ [x, y, x, y] <:+: v ++ [x, y]) :
    ∀ l ∈ (splitLines x y v).tail, l ≠ [] := by
  obtain ⟨hjoin, -⟩ := joinLines_splitLines hxy v
  obtain ⟨first, lines, hlines⟩ := List.exists_cons_of_ne_nil (splitLines_ne_nil x y v)
  rw [hlines] at hjoin ⊢
  rintro l hl rfl
  obtain ⟨before, behind, rfl⟩ := List.append_of_mem hl
  refine h ?_
  rw [← hjoin]
  obtain ⟨front, last, hfront⟩ : ∃ front last, first :: before = front ++ [last] := by
    obtain hnil | ⟨front, last, hconcat⟩ := List.eq_nil_or_concat (first :: before)
    · cases hnil
    · exact ⟨front, last, by rw [hconcat, List.concat_eq_append]⟩
  refine ⟨joinLines x y front ++ last, joinLines x y behind, ?_⟩
  rw [List.tail_cons] at hl
  rw [← List.cons_append, hfront]
  simp [joinLines]

end Lines

end Octets
