import Husarnet.Lib.Bytes
import Husarnet.Lib.Totals
import Mathlib.Data.List.TakeWhile

/-! # Texts joined by a separator

A text of pieces with a separator between them, up to the first character that does not belong to it: every
text is one in exactly one way.
-/

namespace JoinedTexts
open Octets Totals
set_option autoImplicit false

variable {sep : UInt8}

/-- The characters of a joined text. -/
theorem mem_intercalate {c : UInt8} {texts : List Bytes} (h : c ∈ [sep].intercalate texts) :
    c = sep ∨ ∃ text ∈ texts, c ∈ text := by
  induction texts with
  | nil => cases h
  | cons text texts ih =>
    cases texts with
    | nil =>
      rw [List.intercalate_singleton] at h
      exact Or.inr ⟨text, by simp, h⟩
    | cons next texts =>
      rw [List.intercalate_cons_cons, List.mem_append, List.mem_append, List.mem_singleton] at h
      obtain (h | h) | h := h
      · exact Or.inr ⟨text, by simp, h⟩
      · exact Or.inl h
      · exact (ih h).imp_right fun ⟨t, ht, hc⟩ => ⟨t, List.mem_cons_of_mem _ ht, hc⟩

theorem mem_intercalate_of_mem {c : UInt8} {text : Bytes} {texts : List Bytes} (ht : text ∈ texts) (hc : c ∈ text) :
    c ∈ [sep].intercalate texts := by
  induction texts with
  | nil => cases ht
  | cons first texts ih =>
    cases texts with
    | nil =>
      rw [List.mem_singleton] at ht
      rwa [List.intercalate_singleton, ← ht]
    | cons next texts =>
      rw [List.intercalate_cons_cons, List.mem_append, List.mem_append]
      obtain rfl | ht := List.mem_cons.mp ht
      · exact Or.inl (Or.inl hc)
      · exact Or.inr (ih ht)

theorem intercalate_cons_head (c : UInt8) (text : Bytes) (texts : List Bytes) :
    [sep].intercalate ((c :: text) :: texts) = c :: [sep].intercalate (text :: texts) := by
  cases texts with
  | nil => rw [List.intercalate_singleton, List.intercalate_singleton]
  | cons next texts =>
    rw [List.intercalate_cons_cons, List.intercalate_cons_cons]
    rfl

theorem intercalate_append {texts texts' : List Bytes} (h : texts ≠ []) (h' : texts' ≠ []) :
    [sep].intercalate (texts ++ texts') = [sep].intercalate texts ++ sep :: [sep].intercalate texts' := by
  induction texts with
  | nil => exact absurd rfl h
  | cons text texts ih =>
    cases texts with
    | nil =>
      obtain ⟨next, texts', rfl⟩ := List.exists_cons_of_ne_nil h'
      rw [List.singleton_append, List.intercalate_cons_cons, List.intercalate_singleton, List.append_assoc]
      rfl
    | cons next texts =>
      rw [List.cons_append, List.cons_append, List.intercalate_cons_cons, ← List.cons_append,
        ih (List.cons_ne_nil next texts), List.intercalate_cons_cons]
      simp only [List.append_assoc]

/-- Every text is joined of pieces without the separator. -/
theorem exists_intercalate (sep : UInt8) (s : Bytes) :
    ∃ texts, texts ≠ [] ∧ s = [sep].intercalate texts ∧ ∀ text ∈ texts, ∀ c ∈ text, c ≠ sep ∧ c ∈ s := by
  induction s with
  | nil => exact ⟨[[]], by simp, by simp, by simp⟩
  | cons c s ih =>
    obtain ⟨texts, hne, hs, hc⟩ := ih
    obtain ⟨text, texts, rfl⟩ := List.exists_cons_of_ne_nil hne
    by_cases hsep : c = sep
    · refine ⟨[] :: text :: texts, by simp, ?_, ?_⟩
      · rw [List.intercalate_cons_cons, ← hs, hsep]
        rfl
      · refine List.forall_mem_cons.mpr ⟨by simp, fun t ht d hd => ?_⟩
        exact (hc t ht d hd).imp_right (List.mem_cons_of_mem c)
    · refine ⟨(c :: text) :: texts, by simp, ?_, ?_⟩
      · rw [intercalate_cons_head, ← hs]
      · obtain ⟨hfirst, hrest⟩ := List.forall_mem_cons.mp hc
        refine List.forall_mem_cons.mpr ⟨List.forall_mem_cons.mpr ⟨⟨hsep, by simp⟩, fun d hd => ?_⟩, fun t ht d hd => ?_⟩
        · exact (hfirst d hd).imp_right (List.mem_cons_of_mem c)
        · exact (hrest t ht d hd).imp_right (List.mem_cons_of_mem c)

theorem takeWhile_append_stop {p : UInt8 → Bool} {a b : Bytes} (ha : ∀ c ∈ a, p c = true)
    (hb : ∀ c ∈ b.head?, p c = false) : (a ++ b).takeWhile p = a := by
  rw [List.takeWhile_append_of_pos ha]
  cases b with
  | nil => simp
  | cons c b => rw [List.takeWhile_cons_of_neg (by simp [hb c rfl]), List.append_nil]

/-- The pieces of a text, and what follows it. -/
structure Pieces (sep : UInt8) (p : UInt8 → Bool) (texts : List Bytes) (rest : Bytes) : Prop where
  ne : texts ≠ []
  piece : ∀ text ∈ texts, ∀ c ∈ text, c ≠ sep ∧ p c = true
  stops : ∀ c ∈ rest.head?, p c = false

/-- **Every text has its pieces**, up to the first character that belongs to none. -/
theorem exists_pieces (sep : UInt8) (p : UInt8 → Bool) (s : Bytes) :
    ∃ texts rest, s = [sep].intercalate texts ++ rest ∧ Pieces sep p texts rest := by
  obtain ⟨texts, hne, hs, hc⟩ := exists_intercalate sep (s.takeWhile p)
  refine ⟨texts, s.dropWhile p, ?_, hne, fun text ht c hm => ?_, fun c hm => ?_⟩
  · rw [← hs, List.takeWhile_append_dropWhile]
  · exact ⟨(hc text ht c hm).1, List.mem_takeWhile_imp (hc text ht c hm).2⟩
  · have hhead := List.head?_dropWhile_not p s
    rw [hm] at hhead
    exact hhead

/-- **The pieces are the text's own.** -/
theorem Pieces.unique {p : UInt8 → Bool} (hsep : p sep = true) {texts texts' : List Bytes} {rest rest' : Bytes}
    (h : Pieces sep p texts rest) (h' : Pieces sep p texts' rest')
    (he : [sep].intercalate texts ++ rest = [sep].intercalate texts' ++ rest') : texts = texts' ∧ rest = rest' := by
  have hall {texts : List Bytes} (hp : ∀ text ∈ texts, ∀ c ∈ text, c ≠ sep ∧ p c = true) :
      ∀ c ∈ [sep].intercalate texts, p c = true := by
    intro c hc
    obtain rfl | ⟨text, ht, hc⟩ := mem_intercalate hc
    · exact hsep
    · exact (hp text ht c hc).2
  have hjoined : [sep].intercalate texts = [sep].intercalate texts' := by
    rw [← takeWhile_append_stop (hall h.piece) h.stops, he, takeWhile_append_stop (hall h'.piece) h'.stops]
  have hfree {texts : List Bytes} (hp : ∀ text ∈ texts, ∀ c ∈ text, c ≠ sep ∧ p c = true) : ∀ text ∈ texts, sep ∉ text :=
    fun text ht hm => (hp text ht sep hm).1 rfl
  have htexts : texts = texts' := by
    rw [← List.splitOn_intercalate sep (hfree h.piece) h.ne, hjoined, List.splitOn_intercalate sep (hfree h'.piece) h'.ne]
  subst htexts
  exact ⟨rfl, List.append_cancel_left he⟩

/-! ## A limit to the cuts -/

theorem intercalate_concat_append (front : List Bytes) (text more : Bytes) :
    [sep].intercalate (front ++ [text ++ more]) = [sep].intercalate (front ++ [text]) ++ more := by
  by_cases h : front = []
  · subst h
    simp
  · have hne (t : Bytes) : [t] ≠ [] := List.cons_ne_nil t []
    rw [intercalate_append h (hne _), intercalate_append h (hne _)]
    simp

theorem count_intercalate {texts : List Bytes} (h : texts ≠ []) :
    ([sep].intercalate texts).count sep + 1 = texts.length + total (List.count sep) texts := by
  induction texts with
  | nil => exact absurd rfl h
  | cons text texts ih =>
    cases texts with
    | nil => simp [Nat.add_comm]
    | cons next texts =>
      have hrest := ih (List.cons_ne_nil next texts)
      rw [List.intercalate_cons_cons, List.count_append, List.count_append, List.count_singleton_self, total_cons,
        List.length_cons]
      omega

/-- The text is cut at its separators from the front, `limit` times at most: the last piece keeps those that are left. -/
structure Cut (sep : UInt8) (limit : ℕ) (s : Bytes) (texts : List Bytes) : Prop where
  joined : [sep].intercalate texts = s
  length : texts.length = min limit (s.count sep) + 1
  free : ∀ text ∈ texts.dropLast, sep ∉ text

namespace Cut
variable {limit : ℕ} {s : Bytes} {texts : List Bytes}

theorem whole (h : sep ∉ s) : Cut sep limit s [s] where
  joined := List.intercalate_singleton
  length := by simp [List.count_eq_zero.mpr h]
  free := by simp

theorem once {a b : Bytes} (h : sep ∉ a) : Cut sep 1 (a ++ sep :: b) [a, b] where
  joined := by simp [List.intercalate_cons_cons]
  length := by simp [List.count_eq_zero.mpr h]
  free := by simpa using h

theorem ne (h : Cut sep limit s texts) : texts ≠ [] := by
  intro hnil
  have hlength := h.length
  simp [hnil] at hlength

/-- While there are cuts left no piece has a separator. -/
theorem all_free (h : Cut sep limit s texts) (hroom : texts.length ≤ limit) : ∀ text ∈ texts, sep ∉ text := by
  have hcount := @count_intercalate sep texts h.ne
  have hlength := h.length
  rw [h.joined] at hcount
  intro text hmem
  have hle := le_total (List.count sep) hmem
  apply List.count_eq_zero.mp
  omega

theorem concat_sep (h : Cut sep limit s texts) (hroom : texts.length ≤ limit) : Cut sep limit (s ++ [sep]) (texts ++ [[]]) where
  joined := by
    rw [intercalate_append h.ne (by simp), h.joined, List.intercalate_singleton]
  length := by
    have hlength := h.length
    rw [List.length_append, List.length_singleton, List.count_append, List.count_singleton_self]
    omega
  free := by
    rw [List.dropLast_concat]
    exact h.all_free hroom

theorem concat_other {front : List Bytes} {last : Bytes} (h : Cut sep limit s (front ++ [last])) {c : UInt8}
    (hc : ¬ (c = sep ∧ (front ++ [last]).length ≤ limit)) : Cut sep limit (s ++ [c]) (front ++ [last ++ [c]]) where
  joined := by rw [intercalate_concat_append, h.joined]
  length := by
    have hlength := h.length
    rw [List.length_append, List.length_singleton] at hlength hc ⊢
    rw [List.count_append, List.count_singleton]
    by_cases hsep : c = sep
    · simp [hsep] at hc ⊢
      omega
    · simpa [hsep] using hlength
  free := by
    have hfree := h.free
    rw [List.dropLast_concat] at hfree ⊢
    exact hfree

theorem front_unique {front front' : List Bytes} {last last' : Bytes} (hlength : front.length = front'.length)
    (hfree : ∀ text ∈ front, sep ∉ text) (hfree' : ∀ text ∈ front', sep ∉ text)
    (he : [sep].intercalate (front ++ [last]) = [sep].intercalate (front' ++ [last'])) :
    front ++ [last] = front' ++ [last'] := by
  induction front generalizing front' with
  | nil =>
    rw [List.eq_nil_of_length_eq_zero hlength.symm] at he ⊢
    simpa using he
  | cons text front ih =>
    obtain ⟨text', front', rfl⟩ := List.exists_cons_of_length_eq_add_one hlength.symm
    obtain ⟨htext, hmore⟩ := List.forall_mem_cons.mp hfree
    obtain ⟨htext', hmore'⟩ := List.forall_mem_cons.mp hfree'
    have hcons (t : Bytes) (f : List Bytes) (l : Bytes) :
        [sep].intercalate (t :: f ++ [l]) = t ++ sep :: [sep].intercalate (f ++ [l]) := by
      have happend := @intercalate_append sep [t] (f ++ [l]) (by simp) (by simp)
      simpa using happend
    rw [hcons, hcons] at he
    obtain ⟨rfl, hrest⟩ := first_split_unique htext htext' he
    exact congrArg (text :: ·) (ih (by simpa using hlength) hmore hmore' hrest)

/-- **A text is cut in one way.** -/
theorem unique {texts' : List Bytes} (h : Cut sep limit s texts) (h' : Cut sep limit s texts') : texts = texts' := by
  have hfront {texts : List Bytes} (h : Cut sep limit s texts) : texts.dropLast ++ [texts.getLast h.ne] = texts :=
    List.dropLast_append_getLast h.ne
  have hlength : texts.dropLast.length = texts'.dropLast.length := by
    rw [List.length_dropLast, List.length_dropLast, h.length, h'.length]
  rw [← hfront h, ← hfront h']
  apply front_unique hlength h.free h'.free
  rw [hfront h, hfront h', h.joined, h'.joined]

end Cut

end JoinedTexts
