import Husarnet.IpAddress
import Husarnet.Lib.JoinedTexts
import Husarnet.Lib.Lines
import Husarnet.Lib.Searching

/-! # util.cpp

The helpers for texts that the ports use.
-/

namespace Husarnet
open Octets JoinedTexts
set_option autoImplicit false

/-! ## Ends of a text -/

def startsWith (s init : Bytes) : Bool := decide (init.length ≤ s.length) && s.take init.length == init

def endsWith (s tail : Bytes) : Bool := decide (tail.length ≤ s.length) && s.drop (s.length - tail.length) == tail

theorem startsWith_iff (s init : Bytes) : startsWith s init = true ↔ init <+: s := by
  rw [startsWith, Bool.and_eq_true, decide_eq_true_eq, beq_iff_eq, List.prefix_iff_eq_take]
  constructor
  · exact fun h => h.2.symm
  · intro h
    refine ⟨?_, h.symm⟩
    have hlength := congrArg List.length h
    rw [List.length_take] at hlength
    omega

theorem endsWith_iff (s tail : Bytes) : endsWith s tail = true ↔ tail <:+ s := by
  rw [endsWith, Bool.and_eq_true, decide_eq_true_eq, beq_iff_eq, List.suffix_iff_eq_drop]
  constructor
  · exact fun h => h.2.symm
  · intro h
    refine ⟨?_, h.symm⟩
    have hlength := congrArg List.length h
    rw [List.length_drop] at hlength
    omega

/-! ## Trimming -/

def ltrim (s : Bytes) : Bytes := s.dropWhile IpAddress.isSpace
def rtrim (s : Bytes) : Bytes := s.rdropWhile IpAddress.isSpace
def trim (s : Bytes) : Bytes := ltrim (rtrim s)

theorem rtrim_rtrim (s : Bytes) : rtrim (rtrim s) = rtrim s := List.rdropWhile_idempotent _ s

/-- White space that is written behind a text goes. -/
theorem rtrim_append {s blank : Bytes} (h : ∀ c ∈ blank, IpAddress.isSpace c = true) : rtrim (s ++ blank) = rtrim s :=
  rdropWhile_append h

theorem rtrim_concat (s : Bytes) {c : UInt8} (h : IpAddress.isSpace c = false) : rtrim (s ++ [c]) = s ++ [c] := by
  rw [rtrim, List.rdropWhile_concat_neg]
  simp [h]

/-! ## Letters -/

def toupper (c : UInt8) : UInt8 := if 0x61 ≤ c ∧ c ≤ 0x7a then c - 0x20 else c
def tolower (c : UInt8) : UInt8 := if 0x41 ≤ c ∧ c ≤ 0x5a then c + 0x20 else c

def strToUpper (input : Bytes) : Bytes := input.map toupper
def strToLower (input : Bytes) : Bytes := input.map tolower

/-! ## Pieces -/

/-- One character of `split`: it begins a new piece, or belongs to the last one. -/
def splitStep (byChar : UInt8) (maxSplit : ℕ) (res : List Bytes) (ch : UInt8) : List Bytes :=
  if ch = byChar ∧ res.length ≤ maxSplit then res ++ [[]] else res.dropLast ++ [res.getLastD [] ++ [ch]]

/-- `maxSplit` is compared as a `size_t`: it is the `int` itself when that is not negative. -/
def split (s : Bytes) (byChar : UInt8) (maxSplit : ℕ) : List Bytes := s.foldl (splitStep byChar maxSplit) [[]]

theorem splitStep_other {byChar ch : UInt8} {maxSplit : ℕ} {front : List Bytes} {last : Bytes}
    (h : ¬ (ch = byChar ∧ (front ++ [last]).length ≤ maxSplit)) :
    splitStep byChar maxSplit (front ++ [last]) ch = front ++ [last ++ [ch]] := by
  rw [splitStep, if_neg h, List.dropLast_concat]
  simp

theorem splitStep_cut {byChar : UInt8} {maxSplit : ℕ} {s : Bytes} {res : List Bytes} (h : Cut byChar maxSplit s res)
    (ch : UInt8) : Cut byChar maxSplit (s ++ [ch]) (splitStep byChar maxSplit res ch) := by
  by_cases hcut : ch = byChar ∧ res.length ≤ maxSplit
  · rw [splitStep, if_pos hcut, hcut.1]
    exact h.concat_sep hcut.2
  · obtain ⟨front, last, rfl⟩ := (List.eq_nil_or_concat' res).resolve_left h.ne
    rw [splitStep_other hcut]
    exact h.concat_other hcut

/-- The loop has always cut what it has read. -/
theorem split_cut (s : Bytes) (byChar : UInt8) (maxSplit : ℕ) : Cut byChar maxSplit s (split s byChar maxSplit) := by
  induction s using List.reverseRecOn with
  | nil => exact .whole List.not_mem_nil
  | append_singleton s ch ih =>
    rw [split, List.foldl_append]
    exact splitStep_cut ih ch

/-- **`split` loses nothing.** The pieces joined are the text again; there is one more of them than cuts, of which
there are as many as separators, up to the limit; and only the last piece can have a separator. -/
theorem split_loses_nothing (s : Bytes) (byChar : UInt8) (maxSplit : ℕ) :
    [byChar].intercalate (split s byChar maxSplit) = s ∧
      (split s byChar maxSplit).length = min maxSplit (s.count byChar) + 1 ∧
      ∀ piece ∈ (split s byChar maxSplit).dropLast, byChar ∉ piece := by
  obtain ⟨hjoined, hlength, hfree⟩ := split_cut s byChar maxSplit
  exact ⟨hjoined, hlength, hfree⟩

/-- One cut, at the first character of the kind. -/
theorem split_one (s : Bytes) (byChar : UInt8) :
    split s byChar 1 = match cutAt byChar s with
      | none => [s]
      | some (a, b) => [a, b] := by
  apply (split_cut s byChar 1).unique
  by_cases hmem : byChar ∈ s
  · obtain ⟨a, b, rfl, ha⟩ := List.eq_append_cons_of_mem hmem
    rw [cutAt_append ha]
    exact .once ha
  · rw [cutAt_none hmem]
    exact .whole hmem

example : split (ascii "a==b=c") 0x3d 1 = [ascii "a", ascii "=b=c"] := by decide

end Husarnet
