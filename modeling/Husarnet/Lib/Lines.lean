import Husarnet.Lib.Bytes
import Mathlib.Data.List.DropRight

/-! # Lines of a text

A text is read line by line. Lines that are written with their ends are the lines that are read again.
-/

namespace Octets
set_option autoImplicit false

def NEWLINE : UInt8 := 0x0a

/-- The lines that `std::getline` reads one after the other: a newline ends a line, and so does the end of the text
when something stands in front of it. -/
def getLines : Bytes → List Bytes
  | [] => []
  | c :: s =>
    if c = NEWLINE then [] :: getLines s
    else match getLines s with
      | [] => [[c]]
      | line :: rest => (c :: line) :: rest

theorem getLines_line {line : Bytes} (h : NEWLINE ∉ line) (s : Bytes) :
    getLines (line ++ NEWLINE :: s) = line :: getLines s := by
  induction line with
  | nil => rw [List.nil_append, getLines, if_pos rfl]
  | cons c line ih =>
    rw [List.mem_cons, not_or] at h
    rw [List.cons_append, getLines, if_neg (Ne.symm h.1), ih h.2]

theorem newline_not_mem_getLines (s : Bytes) : ∀ line ∈ getLines s, NEWLINE ∉ line := by
  induction s with
  | nil => simp [getLines]
  | cons c s ih =>
    intro line hline
    rw [getLines] at hline
    split at hline
    · obtain rfl | hline := List.mem_cons.mp hline
      · exact List.not_mem_nil
      · exact ih line hline
    · rename_i hc
      split at hline
      · rw [List.mem_singleton.mp hline, List.mem_singleton]
        exact Ne.symm hc
      · rename_i first rest hrest
        rw [hrest] at ih
        obtain rfl | hline := List.mem_cons.mp hline
        · rw [List.mem_cons, not_or]
          exact ⟨Ne.symm hc, ih first (List.mem_cons_self ..)⟩
        · exact ih line (List.mem_cons_of_mem _ hline)

/-- Lines that are written with a newline behind each are read back. -/
theorem getLines_join {lines : List Bytes} (h : ∀ line ∈ lines, NEWLINE ∉ line) :
    getLines (lines.flatMap fun line => line ++ [NEWLINE]) = lines := by
  induction lines with
  | nil => rfl
  | cons line lines ih =>
    obtain ⟨hline, hlines⟩ := List.forall_mem_cons.mp h
    rw [List.flatMap_cons, List.append_assoc, List.singleton_append, getLines_line hline, ih hlines]

/-! ## Trimming -/

section Trimming
variable {α : Type} {p : α → Bool}

theorem rdropWhile_append {a b : List α} (h : ∀ c ∈ b, p c = true) : (a ++ b).rdropWhile p = a.rdropWhile p := by
  induction b using List.reverseRecOn with
  | nil => rw [List.append_nil]
  | append_singleton b c ih =>
    obtain ⟨hb, hc⟩ := List.forall_mem_append.mp h
    rw [← List.append_assoc, List.rdropWhile_concat_pos p _ _ (hc c (List.mem_singleton_self c)), ih hb]

theorem mem_of_mem_rdropWhile {a : List α} {c : α} (h : c ∈ a.rdropWhile p) : c ∈ a :=
  (List.rdropWhile_prefix p a).subset h

end Trimming

end Octets
