import Mathlib.Data.List.Sort
import Mathlib.Data.List.Perm.Basic

/-! # Containers with C++ insertion rules

Association lists for maps, where `assign` overwrites (`m[k] = v`) and `insertNew` does not
(`m.insert({k, v})`), and ordered sets and vectors of a fixed capacity. A set carries the proofs
that it has no duplicates and fits its capacity; inserting into a full set stores nothing.
-/

namespace Containers
set_option autoImplicit false

/-! ## Maps -/

section Maps
variable {κ ν : Type} [DecidableEq κ]

/-- `m.find(k)`. -/
def get? : List (κ × ν) → κ → Option ν
  | [], _ => none
  | (a, b) :: m, k => if k = a then some b else get? m k

/-- `m[k] = v`. -/
def assign (m : List (κ × ν)) (k : κ) (v : ν) : List (κ × ν) :=
  (k, v) :: m.filter fun x => x.1 ≠ k

/-- `m.insert({k, v})`: an entry that exists stays. -/
def insertNew (m : List (κ × ν)) (k : κ) (v : ν) : List (κ × ν) :=
  if (get? m k).isSome then m else m ++ [(k, v)]

def eraseKey (m : List (κ × ν)) (k : κ) : List (κ × ν) := m.filter fun x => x.1 ≠ k

theorem get?_filter_ne (m : List (κ × ν)) {k k' : κ} (h : k' ≠ k) :
    get? (m.filter fun x => x.1 ≠ k) k' = get? m k' := by
  induction m with
  | nil => rfl
  | cons x m ih =>
    obtain ⟨a, b⟩ := x
    by_cases ha : a = k
    · rw [List.filter_cons_of_neg (by simpa using ha), ih, get?, if_neg (ha ▸ h)]
    · rw [List.filter_cons_of_pos (by simpa using ha), get?, get?, ih]

theorem get?_assign (m : List (κ × ν)) (k k' : κ) (v : ν) :
    get? (assign m k v) k' = if k' = k then some v else get? m k' := by
  by_cases h : k' = k
  · rw [assign, get?, if_pos h, if_pos h]
  · rw [assign, get?, if_neg h, if_neg h, get?_filter_ne m h]

@[simp] theorem get?_assign_self (m : List (κ × ν)) (k : κ) (v : ν) :
    get? (assign m k v) k = some v := by
  rw [get?_assign, if_pos rfl]

theorem get?_eraseKey (m : List (κ × ν)) (k k' : κ) :
    get? (eraseKey m k) k' = if k' = k then none else get? m k' := by
  by_cases h : k' = k
  · subst h
    rw [if_pos rfl, eraseKey]
    induction m with
    | nil => rfl
    | cons x m ih =>
      obtain ⟨a, b⟩ := x
      by_cases ha : a = k'
      · rw [List.filter_cons_of_neg (by simpa using ha), ih]
      · rw [List.filter_cons_of_pos (by simpa using ha), get?, ih, if_neg (Ne.symm ha)]
  · rw [if_neg h]
    exact get?_filter_ne m h

theorem get?_append (m m' : List (κ × ν)) (k : κ) : get? (m ++ m') k = (get? m k).or (get? m' k) := by
  induction m with
  | nil => rfl
  | cons x m ih =>
    obtain ⟨a, b⟩ := x
    rw [List.cons_append, get?, get?, ih]
    split
    · rfl
    · rfl

/-- The entry that was there first counts. -/
theorem get?_insertNew (m : List (κ × ν)) (k k' : κ) (v : ν) :
    get? (insertNew m k v) k' = (get? m k').or (if k' = k then some v else none) := by
  have hnew : get? [(k, v)] k' = if k' = k then some v else none := rfl
  rw [insertNew]
  by_cases hk : (get? m k).isSome = true
  · rw [if_pos hk]
    by_cases h : k' = k
    · subst h
      obtain ⟨w, hw⟩ := Option.isSome_iff_exists.mp hk
      rw [hw, Option.some_or]
    · rw [if_neg h, Option.or_none]
  · rw [if_neg hk, get?_append, hnew]

/-- The same value under several names. -/
theorem get?_foldl_insertNew (m : List (κ × ν)) (ks : List κ) (k : κ) (v : ν) :
    get? (ks.foldl (fun m k => insertNew m k v) m) k = (get? m k).or (if k ∈ ks then some v else none) := by
  induction ks generalizing m with
  | nil => simp
  | cons a ks ih =>
    rw [List.foldl_cons, ih, get?_insertNew, Option.or_assoc]
    congr 1
    by_cases ha : k = a
    · simp [ha]
    · simp [ha]

/-- In a map without repeated keys an entry is what is found. -/
theorem get?_eq_some_iff {m : List (κ × ν)} (h : (m.map Prod.fst).Nodup) {k : κ} {v : ν} :
    get? m k = some v ↔ (k, v) ∈ m := by
  induction m with
  | nil => simp [get?]
  | cons x m ih =>
    obtain ⟨a, b⟩ := x
    rw [List.map_cons, List.nodup_cons] at h
    rw [get?, List.mem_cons]
    by_cases hk : k = a
    · subst hk
      rw [if_pos rfl, Option.some_inj]
      constructor
      · rintro rfl
        exact Or.inl rfl
      · rintro (heq | hmem)
        · exact (congrArg Prod.snd heq).symm
        · exact absurd (List.mem_map_of_mem hmem) h.1
    · rw [if_neg hk, ih h.2]
      exact ⟨Or.inr, fun hor => hor.resolve_left fun heq => hk (congrArg Prod.fst heq)⟩

/-- The order of the entries does not matter. -/
theorem get?_perm {m m' : List (κ × ν)} (hperm : m.Perm m') (h : (m.map Prod.fst).Nodup) (k : κ) :
    get? m k = get? m' k := by
  have h' : (m'.map Prod.fst).Nodup := (hperm.map Prod.fst).nodup_iff.mp h
  apply Option.ext
  intro v
  rw [get?_eq_some_iff h, get?_eq_some_iff h', hperm.mem_iff]

/-- Entries that are assigned one after the other. -/
theorem get?_foldl_assign {entries : List (κ × ν)} (h : (entries.map Prod.fst).Nodup) (m : List (κ × ν)) (k : κ) :
    get? (entries.foldl (fun m x => assign m x.1 x.2) m) k = (get? entries k).or (get? m k) := by
  induction entries generalizing m with
  | nil => rfl
  | cons x entries ih =>
    obtain ⟨a, b⟩ := x
    rw [List.map_cons, List.nodup_cons] at h
    rw [List.foldl_cons, ih h.2, get?_assign, get?]
    by_cases hk : k = a
    · subst hk
      have hnone : get? entries k = none := by
        rw [Option.eq_none_iff_forall_ne_some]
        intro v hv
        have hmem := (get?_eq_some_iff h.2).mp hv
        exact h.1 (List.mem_map.mpr ⟨(k, v), hmem, rfl⟩)
      rw [if_pos rfl, if_pos rfl, hnone]
      rfl
    · rw [if_neg hk, if_neg hk]

/-- An assignment repeats no key. -/
theorem nodup_assign {m : List (κ × ν)} (h : (m.map Prod.fst).Nodup) (k : κ) (v : ν) :
    ((assign m k v).map Prod.fst).Nodup := by
  rw [assign, List.map_cons, List.nodup_cons]
  constructor
  · intro hmem
    obtain ⟨x, hx, hk⟩ := List.mem_map.mp hmem
    exact of_decide_eq_true (List.mem_filter.mp hx).2 hk
  · exact h.sublist (List.filter_sublist.map Prod.fst)

end Maps

/-! ## The last value counts -/

section LastValue
variable {σ α ν : Type}

theorem getLast?_filterMap_cons (value : α → Option ν) (x : α) (xs : List α) :
    ((x :: xs).filterMap value).getLast? = ((xs.filterMap value).getLast?).or (value x) := by
  cases hx : value x with
  | none => rw [List.filterMap_cons_none hx, Option.or_none]
  | some v => rw [List.filterMap_cons_some hx, List.getLast?_cons, Option.or_some]

/-- A loop in which an element either sets what is looked at or leaves it alone ends with the last value set. -/
theorem foldl_last {look : σ → Option ν} {step : σ → α → σ} {value : α → Option ν}
    (hstep : ∀ s x, look (step s x) = (value x).or (look s)) (xs : List α) (s : σ) :
    look (xs.foldl step s) = ((xs.filterMap value).getLast?).or (look s) := by
  induction xs generalizing s with
  | nil => rfl
  | cons x xs ih => rw [List.foldl_cons, ih, hstep, getLast?_filterMap_cons, Option.or_assoc]

end LastValue

/-! ## Sets of a fixed capacity -/

/-- An ordered set with room for `cap` elements, listed in ascending order. -/
structure BoundedSet (α : Type) (cap : ℕ) where
  elems : List α
  nodup : elems.Nodup
  bounded : elems.length ≤ cap

namespace BoundedSet
variable {α : Type} {cap : ℕ}

instance : Membership α (BoundedSet α cap) := ⟨fun s a => a ∈ s.elems⟩

theorem mem_def (s : BoundedSet α cap) (a : α) : a ∈ s ↔ a ∈ s.elems := Iff.rfl

instance [DecidableEq α] (s : BoundedSet α cap) (a : α) : Decidable (a ∈ s) :=
  inferInstanceAs (Decidable (a ∈ s.elems))

def empty : BoundedSet α cap := ⟨[], List.nodup_nil, Nat.zero_le _⟩

@[simp] theorem not_mem_empty (a : α) : a ∉ (empty : BoundedSet α cap) := List.not_mem_nil

def full (s : BoundedSet α cap) : Bool := cap ≤ s.elems.length

section Insert
variable [DecidableEq α] [LT α] [DecidableLT α]

/-- A full set stores nothing. -/
def insert (s : BoundedSet α cap) (a : α) : BoundedSet α cap :=
  if h : a ∉ s.elems ∧ s.elems.length < cap then
    { elems := s.elems.orderedInsert (fun x y => ¬ y < x) a
      nodup := ((List.perm_orderedInsert _ a s.elems).nodup_iff).mpr (List.nodup_cons.mpr ⟨h.1, s.nodup⟩)
      bounded := by
        rw [(List.perm_orderedInsert _ a s.elems).length_eq, List.length_cons]
        exact h.2 }
  else s

theorem mem_insert (s : BoundedSet α cap) (a b : α) :
    b ∈ s.insert a ↔ b ∈ s ∨ (b = a ∧ s.elems.length < cap) := by
  unfold insert
  by_cases h : a ∉ s.elems ∧ s.elems.length < cap
  · rw [dif_pos h, mem_def, List.mem_orderedInsert]
    constructor
    · rintro (hb | hb)
      · exact Or.inr ⟨hb, h.2⟩
      · exact Or.inl hb
    · rintro (hb | ⟨hb, _⟩)
      · exact Or.inr hb
      · exact Or.inl hb
  · rw [dif_neg h]
    constructor
    · exact Or.inl
    · rintro (hb | ⟨rfl, hlt⟩)
      · exact hb
      · exact not_not.mp fun hn => h ⟨hn, hlt⟩

def insertAll (s : BoundedSet α cap) (as : List α) : BoundedSet α cap := as.foldl insert s

theorem insertAll_cons (s : BoundedSet α cap) (a : α) (as : List α) :
    s.insertAll (a :: as) = (s.insert a).insertAll as := rfl

theorem mem_of_mem_insertAll (s : BoundedSet α cap) (as : List α) {b : α} (h : b ∈ s.insertAll as) :
    b ∈ s ∨ b ∈ as := by
  induction as generalizing s with
  | nil => exact Or.inl h
  | cons a as ih =>
    rcases ih _ h with h | h
    · rcases (mem_insert s a b).mp h with h | ⟨rfl, _⟩
      · exact Or.inl h
      · exact Or.inr (List.mem_cons_self ..)
    · exact Or.inr (List.mem_cons_of_mem _ h)

theorem insert_length (s : BoundedSet α cap) (a : α) (h : a ∉ s.elems ∧ s.elems.length < cap) :
    (s.insert a).elems.length = s.elems.length + 1 := by
  rw [insert, dif_pos h, (List.perm_orderedInsert _ a s.elems).length_eq, List.length_cons]

theorem filter_not_mem_insert (s : BoundedSet α cap) (a : α) (as : List α) (hroom : s.elems.length < cap) :
    (as.filter fun x => x ∉ s.insert a) = (as.filter fun x => x ∉ s).filter fun x => !x == a := by
  rw [List.filter_filter]
  refine List.filter_congr fun x _ => ?_
  simp only [mem_insert, hroom, and_true]
  by_cases hx : x = a <;> simp [hx]

/-- A set takes the first new elements of a list, as many as it has room for. -/
theorem mem_insertAll (s : BoundedSet α cap) (as : List α) (b : α) :
    b ∈ s.insertAll as ↔
      b ∈ s ∨ b ∈ ((as.filter fun a => a ∉ s).eraseDups).take (cap - s.elems.length) := by
  induction as generalizing s with
  | nil => simp [insertAll]
  | cons a as ih =>
    rw [insertAll_cons, ih]
    by_cases ha : a ∈ s
    · have hsame : s.insert a = s := dif_neg fun h => h.1 ha
      rw [hsame, List.filter_cons_of_neg (by simpa using ha)]
    · rw [List.filter_cons_of_pos (by simpa using ha), List.eraseDups_cons]
      by_cases hroom : s.elems.length < cap
      · have hlen := insert_length s a ⟨ha, hroom⟩
        have htake : cap - s.elems.length = (cap - (s.elems.length + 1)) + 1 := by omega
        rw [hlen, filter_not_mem_insert s a as hroom, htake, List.take_succ_cons, List.mem_cons, mem_insert]
        simp only [hroom, and_true]
        exact or_assoc
      · have hsame : s.insert a = s := dif_neg fun h => hroom h.2
        have hfull : cap - s.elems.length = 0 := by omega
        rw [hsame, hfull, List.take_zero, List.take_zero]

theorem length_insertAll (s : BoundedSet α cap) (as : List α) :
    (s.insertAll as).elems.length = min cap (s.elems.length + (as.filter fun a => a ∉ s).eraseDups.length) := by
  induction as generalizing s with
  | nil => exact (Nat.min_eq_right s.bounded).symm
  | cons a as ih =>
    rw [insertAll_cons, ih]
    by_cases ha : a ∈ s
    · have hsame : s.insert a = s := dif_neg fun h => h.1 ha
      rw [hsame, List.filter_cons_of_neg (by simpa using ha)]
    · rw [List.filter_cons_of_pos (by simpa using ha), List.eraseDups_cons, List.length_cons]
      by_cases hroom : s.elems.length < cap
      · have hlen := insert_length s a ⟨ha, hroom⟩
        rw [hlen, filter_not_mem_insert s a as hroom]
        omega
      · have hsame : s.insert a = s := dif_neg fun h => hroom h.2
        have hbound := s.bounded
        rw [hsame]
        omega

theorem length_insertAll_empty_le (as : List α) :
    ((empty : BoundedSet α cap).insertAll as).elems.length ≤ as.length := by
  refine (List.subperm_of_subset (BoundedSet.nodup _) fun b hb => ?_).length_le
  exact (mem_of_mem_insertAll empty as hb).resolve_left List.not_mem_nil

/-- Some element of the list is inserted when the set is full. -/
def InsertsWhenFull (s : BoundedSet α cap) (as : List α) : Prop :=
  ∃ pre a post, as = pre ++ a :: post ∧ (s.insertAll pre).full = true

theorem full_insertAll_empty (as : List α) :
    ((empty : BoundedSet α cap).insertAll as).full = true ↔ cap ≤ as.eraseDups.length := by
  have hall : (as.filter fun a => a ∉ (empty : BoundedSet α cap)) = as := by simp
  have hlen := length_insertAll (empty : BoundedSet α cap) as
  have hzero : (empty : BoundedSet α cap).elems.length = 0 := rfl
  rw [hall, hzero] at hlen
  rw [full, decide_eq_true_eq, hlen]
  omega

/-- A set that is filled from empty is never full before an insertion if and only if the list has
fewer than `cap` different elements before its last one. -/
theorem not_insertsWhenFull_empty_iff (hcap : 0 < cap) (as : List α) :
    ¬ (empty : BoundedSet α cap).InsertsWhenFull as ↔ as.dropLast.eraseDups.length < cap := by
  constructor
  · intro h
    by_cases hne : as = []
    · rw [hne]
      exact hcap
    · by_contra hlong
      have hsplit : as = as.dropLast ++ as.getLast hne :: [] := (List.dropLast_append_getLast hne).symm
      exact h ⟨as.dropLast, as.getLast hne, [], hsplit, (full_insertAll_empty _).mpr (Nat.not_lt.mp hlong)⟩
  · rintro hshort ⟨pre, a, post, rfl, hfull⟩
    have hlong := (full_insertAll_empty pre).mp hfull
    have hcut : (pre ++ a :: post).dropLast = pre ++ (a :: post).dropLast :=
      List.dropLast_append_of_ne_nil (List.cons_ne_nil a post)
    rw [hcut, List.eraseDups_append, List.length_append] at hshort
    omega

/-- A set that is filled from empty holds the first `cap` different elements of the list. -/
theorem mem_insertAll_empty (as : List α) (b : α) :
    b ∈ (empty : BoundedSet α cap).insertAll as ↔ b ∈ as.eraseDups.take cap := by
  have hall : (as.filter fun a => a ∉ (empty : BoundedSet α cap)) = as := by simp
  rw [mem_insertAll, hall]
  exact or_iff_right (not_mem_empty b)

end Insert

def erase [DecidableEq α] (s : BoundedSet α cap) (a : α) : BoundedSet α cap where
  elems := s.elems.erase a
  nodup := s.nodup.erase a
  bounded := List.length_erase_le.trans s.bounded

theorem mem_erase [DecidableEq α] (s : BoundedSet α cap) (a b : α) : b ∈ s.erase a ↔ b ≠ a ∧ b ∈ s :=
  s.nodup.mem_erase_iff

def clear (_ : BoundedSet α cap) : BoundedSet α cap := empty

end BoundedSet

/-! ## Vectors of a fixed capacity -/

/-- A vector with room for `cap` elements. -/
structure BoundedVec (α : Type) (cap : ℕ) where
  elems : List α
  bounded : elems.length ≤ cap

namespace BoundedVec
variable {α : Type} {cap : ℕ}

def empty : BoundedVec α cap := ⟨[], Nat.zero_le _⟩

@[simp] theorem empty_elems : (empty : BoundedVec α cap).elems = [] := rfl

/-- `push_back(a)`, undefined on a full vector. -/
def push (v : BoundedVec α cap) (a : α) : Option (BoundedVec α cap) :=
  if h : v.elems.length < cap then
    some ⟨v.elems ++ [a], by rw [List.length_append, List.length_singleton]; exact h⟩
  else none

theorem push_elems {v w : BoundedVec α cap} {a : α} (h : v.push a = some w) : w.elems = v.elems ++ [a] := by
  unfold push at h
  split at h
  · rw [← Option.some.inj h]
  · cases h

def pushAll (v : BoundedVec α cap) (as : List α) : BoundedVec α cap where
  elems := (v.elems ++ as).take cap
  bounded := List.length_take_le ..

theorem pushAll_nil (v : BoundedVec α cap) : v.pushAll [] = v := by
  rw [pushAll]
  simp only [List.append_nil, List.take_of_length_le v.bounded]

theorem pushAll_cons {v w : BoundedVec α cap} {a : α} (h : v.push a = some w) (as : List α) :
    v.pushAll (a :: as) = w.pushAll as := by
  simp only [pushAll, push_elems h, List.append_assoc, List.singleton_append]

theorem push_isSome_iff (v : BoundedVec α cap) (a : α) : (v.push a).isSome ↔ v.elems.length < cap := by
  unfold push
  split <;> simp [*]

theorem pushAll_full {v : BoundedVec α cap} (h : cap ≤ v.elems.length) (as : List α) : v.pushAll as = v := by
  have hlen : v.elems.length = cap := Nat.le_antisymm v.bounded h
  rw [pushAll]
  simp only [List.take_append_of_le_length hlen.ge, List.take_of_length_le v.bounded]

end BoundedVec

end Containers
