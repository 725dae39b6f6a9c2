import Husarnet.IpAddress
import Husarnet.Lib.Numerals
import Mathlib.Data.List.TakeWhile

/-! # What the IPv4 scanner reads

`husarnet_ip4addr_aton` reads up to the first white space. What it finds there it takes for parts with
dots between them, each a number as C writes them, of which a word keeps the low 32 bits.
-/

namespace Husarnet
open Octets Numerals
set_option autoImplicit false

namespace IpAddress

/-! ## Parts -/

/-- The base of a part and its digits: 0x for hex, 0 for octal, 1-9 for decimal. -/
def radix (part : Bytes) : ℕ × Bytes :=
  if peek part = 0x30 then
    if peek part.tail = 0x78 ∨ peek part.tail = 0x58 then (16, part.tail.tail) else (8, part.tail)
  else (10, part)

def partValue (part : Bytes) : ℕ := number (radix part).1 (radix part).2

/-- What the scanner takes for a digit: letters for base 16 only, but 8 and 9 for base 8 as well. -/
def TakesDigit (base : ℕ) (c : UInt8) : Prop := isDigit c = true ∨ base = 16 ∧ isXDigit c = true

instance (base : ℕ) (c : UInt8) : Decidable (TakesDigit base c) := inferInstanceAs (Decidable (_ ∨ _))

/-- The scanner reads a part to its end. -/
def ReadsPart (part : Bytes) : Prop := isDigit (peek part) = true ∧ ∀ c ∈ (radix part).2, TakesDigit (radix part).1 c

instance (part : Bytes) : Decidable (ReadsPart part) := inferInstanceAs (Decidable (_ ∧ _))

theorem radix_base (part : Bytes) : (radix part).1 = 8 ∨ (radix part).1 = 10 ∨ (radix part).1 = 16 := by
  unfold radix
  split
  · split
    · simp
    · simp
  · simp

theorem digit_word : ∀ c, isDigit c = true → (c - 0x30).toUInt32 = UInt32.ofNat (digitValue c) :=
  forall_byte (by decide +kernel)

theorem letter_word : ∀ c, isDigit c = false → isXDigit c = true →
    (c + 10 - (if isLower c then 0x61 else 0x41)).toUInt32 = UInt32.ofNat (digitValue c) :=
  forall_byte (by decide +kernel)

theorem isXDigit_of_isDigit {c : UInt8} (h : isDigit c = true) : isXDigit c = true := by
  simp [isXDigit, h]

theorem TakesDigit.isXDigit {base : ℕ} {c : UInt8} (h : TakesDigit base c) : isXDigit c = true := by
  obtain h | ⟨-, h⟩ := h
  · exact isXDigit_of_isDigit h
  · exact h

/-- A step of the digit loop. -/
theorem ip4Digits_cons {base v : ℕ} (hb : base = 8 ∨ base = 10 ∨ base = 16) {c : UInt8} (hc : TakesDigit base c)
    (cp : Bytes) : ip4Digits (UInt32.ofNat base) (UInt32.ofNat v) (c :: cp) =
      ip4Digits (UInt32.ofNat base) (UInt32.ofNat (v * base + digitValue c)) cp := by
  have hnext : UInt32.ofNat (v * base + digitValue c) =
      UInt32.ofNat v * UInt32.ofNat base + UInt32.ofNat (digitValue c) := by
    rw [UInt32.ofNat_add, UInt32.ofNat_mul]
  rw [ip4Digits, hnext]
  by_cases hd : isDigit c = true
  · rw [if_pos hd, digit_word c hd]
  · obtain ⟨rfl, hx⟩ := hc.resolve_left hd
    rw [if_neg hd, if_pos ⟨rfl, hx⟩, letter_word c (Bool.eq_false_iff.mpr hd) hx, shift_or_digit]
    rfl

/-- The digit loop ends at a character that it does not take. -/
theorem ip4Digits_stop {base : ℕ} (hb : base = 8 ∨ base = 10 ∨ base = 16) (v : UInt32) {cp : Bytes}
    (h : ¬ TakesDigit base (peek cp)) : ip4Digits (UInt32.ofNat base) v cp = (v, cp) := by
  cases cp with
  | nil => rfl
  | cons c cp =>
    have hc : ¬ TakesDigit base c := h
    rw [TakesDigit, not_or] at hc
    rw [ip4Digits, if_neg hc.1, if_neg]
    rintro ⟨hbase, hx⟩
    refine hc.2 ⟨?_, hx⟩
    obtain rfl | rfl | rfl := hb
    · exact absurd hbase (by decide)
    · exact absurd hbase (by decide)
    · rfl

/-- The digit loop over the digits in front. -/
theorem ip4Digits_append {base : ℕ} (hb : base = 8 ∨ base = 10 ∨ base = 16) (v : ℕ) {digits : Bytes}
    (h : ∀ c ∈ digits, TakesDigit base c) (cp : Bytes) :
    ip4Digits (UInt32.ofNat base) (UInt32.ofNat v) (digits ++ cp) =
      ip4Digits (UInt32.ofNat base) (UInt32.ofNat (numberFrom base v digits)) cp := by
  induction digits generalizing v with
  | nil => rfl
  | cons c digits ih =>
    rw [List.cons_append, ip4Digits_cons hb (h c (List.mem_cons_self ..)),
      ih _ fun d hd => h d (List.mem_cons_of_mem _ hd), numberFrom_cons]

/-! ## The loop over the parts -/

def DOT : UInt8 := 0x2e

/-- What can follow a part that is read to its end: a dot, white space or the end. -/
def EndsPart (cp : Bytes) : Prop := cp = [] ∨ peek cp = DOT ∨ isSpace (peek cp) = true

theorem EndsPart.not_xdigit {cp : Bytes} (h : EndsPart cp) : isXDigit (peek cp) = false := by
  have hspace : ∀ c, isSpace c = true → isXDigit c = false := forall_byte (by decide +kernel)
  obtain rfl | hdot | hs := h
  · rfl
  · rw [hdot]
    rfl
  · exact hspace _ hs

theorem EndsPart.not_mark {cp : Bytes} (h : EndsPart cp) : peek cp ≠ 0x78 ∧ peek cp ≠ 0x58 := by
  have hspace : ∀ c, isSpace c = true → c ≠ 0x78 ∧ c ≠ 0x58 := forall_byte (by decide +kernel)
  obtain rfl | hdot | hs := h
  · exact ⟨by decide, by decide⟩
  · rw [hdot]
    exact ⟨by decide, by decide⟩
  · exact hspace _ hs

theorem peek_append {p : Bytes} (hp : p ≠ []) (cp : Bytes) : peek (p ++ cp) = peek p := by
  cases p with
  | nil => exact absurd rfl hp
  | cons c p => rfl

/-- The base does not depend on what follows the part. -/
theorem radix_append {p cp : Bytes} (hp : p ≠ []) (h : EndsPart cp) :
    radix (p ++ cp) = ((radix p).1, (radix p).2 ++ cp) := by
  obtain ⟨c, p, rfl⟩ := List.exists_cons_of_ne_nil hp
  by_cases hc : c = 0x30
  · subst hc
    cases p with
    | nil =>
      have hmark : ¬ (peek cp = 0x78 ∨ peek cp = 0x58) := not_or.mpr h.not_mark
      have hlong : radix ((0x30 : UInt8) :: cp) = (8, cp) := (if_pos rfl).trans (if_neg hmark)
      exact hlong
    | cons d p =>
      by_cases hd : d = 0x78 ∨ d = 0x58
      · have hlong (cp : Bytes) : radix ((0x30 : UInt8) :: d :: cp) = (16, cp) := (if_pos rfl).trans (if_pos hd)
        rw [List.cons_append, List.cons_append, hlong, hlong]
      · have hlong (cp : Bytes) : radix ((0x30 : UInt8) :: d :: cp) = (8, d :: cp) := (if_pos rfl).trans (if_neg hd)
        rw [List.cons_append, List.cons_append, hlong, hlong]
        rfl
  · have hlong (cp : Bytes) : radix (c :: cp) = (10, c :: cp) := if_neg hc
    rw [List.cons_append, hlong, hlong]
    rfl

/-- A turn of the loop, with the base and the digits put together. -/
theorem ip4Parts_eq (room : ℕ) (parts : List UInt32) (cp : Bytes) :
    ip4Parts room parts cp = if isDigit (peek cp) = true then
      let r := ip4Digits (UInt32.ofNat (radix cp).1) 0 (radix cp).2
      if peek r.2 = DOT then
        match room with
        | 0 => none
        | room + 1 => ip4Parts room (parts ++ [r.1]) r.2.tail
      else some (parts, r.1, r.2)
    else none := by
  have hbase : (if peek cp = 0x30 then
      if peek cp.tail = 0x78 ∨ peek cp.tail = 0x58 then ((16 : UInt32), cp.tail.tail) else (8, cp.tail)
    else (10, cp)) = (UInt32.ofNat (radix cp).1, (radix cp).2) := by
    unfold radix
    split
    · split
      · rfl
      · rfl
    · rfl
  cases room with
  | zero =>
    rw [ip4Parts, hbase]
    rfl
  | succ room =>
    rw [ip4Parts, hbase]
    rfl

/-- The word that is left of a part. -/
def partWord (part : Bytes) : UInt32 := UInt32.ofNat (partValue part)

/-- A turn of the loop over a part that is read to its end. -/
theorem ip4Parts_reads {p cp : Bytes} (hp : ReadsPart p) (h : EndsPart cp) (room : ℕ) (parts : List UInt32) :
    ip4Parts room parts (p ++ cp) = if peek cp = DOT then
        match room with
        | 0 => none
        | room + 1 => ip4Parts room (parts ++ [partWord p]) cp.tail
      else some (parts, partWord p, cp) := by
  have hne : p ≠ [] := by
    rintro rfl
    exact absurd hp.1 (by decide)
  have hstop : ¬ TakesDigit (radix p).1 (peek cp) := by
    intro ht
    have hx := ht.isXDigit
    rw [h.not_xdigit] at hx
    cases hx
  have hdigits : ip4Digits (UInt32.ofNat (radix p).1) 0 ((radix p).2 ++ cp) = (partWord p, cp) := by
    have hall := ip4Digits_append (radix_base p) 0 hp.2 cp
    rw [ip4Digits_stop (radix_base p) _ hstop] at hall
    exact hall
  rw [ip4Parts_eq, peek_append hne, if_pos hp.1, radix_append hne h, hdigits]

/-! ## The values of the parts -/

/-- The parts that the scanner reads, if nothing but white space or the end follows. -/
def ip4Values (room : ℕ) (parts : List UInt32) (s : Bytes) : Option (List UInt32) :=
  match ip4Parts room parts s with
  | none => none
  | some (parts, val, rest) =>
    if peek rest ≠ 0 ∧ isSpace (peek rest) = false then none else some (parts ++ [val])

/-- A part has no dot, no white space and no NUL in it. -/
def PlainPart (part : Bytes) : Prop := ∀ c ∈ part, c ≠ DOT ∧ isSpace c = false ∧ c ≠ 0

/-- A part that cannot be read to its end leaves a character there that is neither a dot nor white space. -/
theorem ip4Values_fails {p cp : Bytes} (hplain : PlainPart p) (hp : ¬ ReadsPart p) (h : EndsPart cp) (room : ℕ)
    (parts : List UInt32) : ip4Values room parts (p ++ cp) = none := by
  by_cases hd : isDigit (peek (p ++ cp)) = true
  · have hne : p ≠ [] := by
      rintro rfl
      have hx := isXDigit_of_isDigit hd
      rw [List.nil_append, h.not_xdigit] at hx
      cases hx
    have hfirst : isDigit (peek p) = true := by rwa [peek_append hne] at hd
    have hbad : ¬ ∀ c ∈ (radix p).2, TakesDigit (radix p).1 c := fun hall => hp ⟨hfirst, hall⟩
    -- the digits in front, and the first character that is none
    have hsplit := List.takeWhile_append_dropWhile (p := fun c => decide (TakesDigit (radix p).1 c)) (l := (radix p).2)
    have htaken : ∀ c ∈ (radix p).2.takeWhile (fun c => decide (TakesDigit (radix p).1 c)), TakesDigit (radix p).1 c := by
      intro c hc
      have hd := List.mem_takeWhile_imp hc
      exact of_decide_eq_true hd
    cases hrest : (radix p).2.dropWhile (fun c => decide (TakesDigit (radix p).1 c)) with
    | nil =>
      rw [hrest, List.append_nil] at hsplit
      rw [hsplit] at htaken
      exact absurd htaken hbad
    | cons c rest =>
      rw [hrest] at hsplit
      have hc : ¬ TakesDigit (radix p).1 c := by
        have hhead := List.head_dropWhile_not (fun c => decide (TakesDigit (radix p).1 c)) (l := (radix p).2)
          (by rw [hrest]; exact List.cons_ne_nil c rest)
        simp only [hrest, List.head_cons, decide_eq_false_iff_not] at hhead
        exact hhead
      have hmem : c ∈ p := by
        have hradix : c ∈ (radix p).2 := by rw [← hsplit]; simp
        revert hradix
        unfold radix
        split
        · split
          · exact fun hm => List.mem_of_mem_tail (List.mem_of_mem_tail hm)
          · exact fun hm => List.mem_of_mem_tail hm
        · exact id
      obtain ⟨hdot, hspace, hzero⟩ := hplain c hmem
      have hstop : ¬ TakesDigit (radix p).1 (peek (c :: rest ++ cp)) := hc
      have hdigits := ip4Digits_append (radix_base p) 0 htaken (c :: rest ++ cp)
      rw [← List.append_assoc, hsplit, ip4Digits_stop (radix_base p) _ hstop] at hdigits
      have hpeek : peek (c :: rest ++ cp) = c := rfl
      have hzeroword : UInt32.ofNat 0 = 0 := rfl
      rw [hzeroword] at hdigits
      rw [ip4Values, ip4Parts_eq, if_pos hd, radix_append hne h, hdigits]
      dsimp only
      rw [hpeek, if_neg hdot]
      dsimp only
      rw [hpeek, if_pos ⟨hzero, hspace⟩]
  · rw [ip4Values, ip4Parts_eq, if_neg hd]

/-- **The loop over the parts.** Up to the first white space or the end, it reads the parts between the dots, if
there is room for them and each can be read to its end. -/
theorem ip4Values_join {texts : List Bytes} (hne : texts ≠ []) (hplain : ∀ p ∈ texts, PlainPart p) {rest : Bytes}
    (hrest : rest = [] ∨ isSpace (peek rest) = true) (room : ℕ) (parts : List UInt32) :
    ip4Values room parts ([DOT].intercalate texts ++ rest) =
      if (∀ p ∈ texts, ReadsPart p) ∧ texts.length ≤ room + 1 then some (parts ++ texts.map partWord) else none := by
  have hnodot : peek rest ≠ DOT := by
    obtain rfl | hs := hrest
    · decide
    · intro hdot
      rw [hdot] at hs
      exact absurd hs (by decide)
  have hends : EndsPart rest := hrest.imp id Or.inr
  induction texts generalizing room parts with
  | nil => exact absurd rfl hne
  | cons p texts ih =>
    have hp := hplain p (List.mem_cons_self ..)
    cases texts with
    | nil =>
      rw [List.intercalate_singleton]
      by_cases hr : ReadsPart p
      · have hall : (∀ q ∈ [p], ReadsPart q) ∧ [p].length ≤ room + 1 := ⟨by simpa using hr, by simp⟩
        have htrail : ¬ (peek rest ≠ 0 ∧ isSpace (peek rest) = false) := by
          rintro ⟨hzero, hspace⟩
          obtain rfl | hs := hrest
          · exact hzero rfl
          · rw [hspace] at hs
            cases hs
        rw [if_pos hall, ip4Values, ip4Parts_reads hr hends, if_neg hnodot]
        dsimp only
        rw [if_neg htrail]
        rfl
      · rw [ip4Values_fails hp hr hends, if_neg]
        rintro ⟨hall, -⟩
        exact hr (hall p (List.mem_cons_self ..))
    | cons q texts =>
      have htail : [DOT].intercalate (p :: q :: texts) ++ rest = p ++ (DOT :: ([DOT].intercalate (q :: texts) ++ rest)) := by
        rw [List.intercalate_cons_cons]
        simp
      have hdots : EndsPart (DOT :: ([DOT].intercalate (q :: texts) ++ rest)) := Or.inr (Or.inl rfl)
      have hdot : peek (DOT :: ([DOT].intercalate (q :: texts) ++ rest)) = DOT := rfl
      rw [htail]
      by_cases hr : ReadsPart p
      · cases room with
        | zero =>
          rw [ip4Values, ip4Parts_reads hr hdots, if_pos hdot, if_neg]
          rintro ⟨-, hlength⟩
          simp at hlength
        | succ room =>
          have hnext : ip4Values (room + 1) parts (p ++ (DOT :: ([DOT].intercalate (q :: texts) ++ rest))) =
              ip4Values room (parts ++ [partWord p]) ([DOT].intercalate (q :: texts) ++ rest) := by
            rw [ip4Values, ip4Parts_reads hr hdots, if_pos hdot]
            rfl
          rw [hnext, ih (List.cons_ne_nil q texts) fun x hx => hplain x (List.mem_cons_of_mem p hx)]
          have hiff : ((∀ x ∈ q :: texts, ReadsPart x) ∧ (q :: texts).length ≤ room + 1) ↔
              ((∀ x ∈ p :: q :: texts, ReadsPart x) ∧ (p :: q :: texts).length ≤ room + 1 + 1) := by
            have hlength : (p :: q :: texts).length = (q :: texts).length + 1 := rfl
            rw [List.forall_mem_cons (a := p), and_iff_right hr, hlength, Nat.add_le_add_iff_right]
          simp only [hiff, List.append_assoc, List.map_cons, List.cons_append, List.nil_append]
      · rw [ip4Values_fails hp hr hdots, if_neg]
        rintro ⟨hall, -⟩
        exact hr (hall p (List.mem_cons_self ..))

/-! ## The fields of the address -/

/-- Every part fits its field: a byte each, and the bytes that are left for the last one. -/
def Fits (values : List ℕ) : Prop :=
  (∀ v ∈ values.dropLast, v < 256) ∧ values.getLastD 0 < 256 ^ (5 - values.length)

instance (values : List ℕ) : Decidable (Fits values) := inferInstanceAs (Decidable (_ ∧ _))

/-- The bytes of the fields, in network order. -/
def ip4Bytes (values : List ℕ) : Bytes :=
  values.dropLast.map UInt8.ofNat ++ (leBytes (5 - values.length) (values.getLastD 0)).reverse

theorem shifted_toNat {a : UInt32} (ha : a.toNat < 256) {k : ℕ} (hk : k ≤ 3) :
    (a <<< UInt32.ofNat (8 * k)).toNat = 256 ^ k * a.toNat := by
  have hpow : 256 ^ k = 2 ^ (8 * k) := (pow_mul 2 8 k).symm
  have hshift : (UInt32.ofNat (8 * k)).toNat % 32 = 8 * k := by
    rw [UInt32.toNat_ofNat']
    omega
  have hfits : a.toNat * 2 ^ (8 * k) < 2 ^ 32 := by
    calc a.toNat * 2 ^ (8 * k) < 2 ^ 8 * 2 ^ (8 * k) := Nat.mul_lt_mul_of_pos_right ha (Nat.two_pow_pos _)
      _ = 2 ^ (8 + 8 * k) := (pow_add 2 8 _).symm
      _ ≤ 2 ^ 32 := Nat.pow_le_pow_right (by omega) (by omega)
  rw [UInt32.toNat_shiftLeft, hshift, Nat.shiftLeft_eq, Nat.mod_eq_of_lt hfits, Nat.mul_comm, hpow]

/-- Bytes that are put in front of a word. -/
theorem or_front {x y k : ℕ} (hx : x < 256 ^ k) : x ||| 256 ^ k * y = x + 256 ^ k * y := by
  have hpow : 256 ^ k = 2 ^ (8 * k) := (pow_mul 2 8 k).symm
  rw [hpow] at hx ⊢
  rw [Nat.or_comm, ← Nat.two_pow_add_eq_or_of_lt hx, Nat.add_comm]

/-- The last lines of the scanner: the checks of the fields, and the word they are put into. -/
def ip4Place : List UInt32 → Option Bytes
  | [val] => some (htonl val)
  | [a, val] => if val > 0xffffff ∨ a > 0xff then none else some (htonl (val ||| (a <<< 24)))
  | [a, b, val] =>
    if val > 0xffff ∨ a > 0xff ∨ b > 0xff then none else some (htonl (val ||| ((a <<< 24) ||| (b <<< 16))))
  | [a, b, c, val] =>
    if val > 0xff ∨ a > 0xff ∨ b > 0xff ∨ c > 0xff then none
    else some (htonl (val ||| ((a <<< 24) ||| (b <<< 16) ||| (c <<< 8))))
  | _ => none

theorem husarnet_ip4addr_aton_eq (s : Bytes) : husarnet_ip4addr_aton s = (ip4Values 3 [] s).bind ip4Place := by
  unfold husarnet_ip4addr_aton ip4Values
  cases ip4Parts 3 [] s with
  | none => rfl
  | some r =>
    obtain ⟨parts, val, rest⟩ := r
    dsimp only
    split
    · rfl
    · match parts with
      | [] => rfl
      | [a] => rfl
      | [a, b] => rfl
      | [a, b, c] => rfl
      | a :: b :: c :: d :: parts => simp [ip4Place]

theorem word_le {v w : UInt32} : ¬ v > w ↔ v.toNat < w.toNat + 1 := by
  rw [gt_iff_lt, UInt32.not_lt, UInt32.le_iff_toNat_le, Nat.lt_succ_iff]

theorem ip4Place_two (a val : UInt32) :
    ip4Place [a, val] = if Fits [a.toNat, val.toNat] then some (ip4Bytes [a.toNat, val.toNat]) else none := by
  have hiff : ¬ (val > 0xffffff ∨ a > 0xff) ↔ Fits [a.toNat, val.toNat] := by
    rw [not_or, word_le, word_le, and_comm]
    simp [Fits]
  by_cases hf : Fits [a.toNat, val.toNat]
  · have ha : (a <<< 24).toNat = 256 ^ 3 * a.toNat := shifted_toNat (k := 3) (hf.1 a.toNat (by simp)) (by omega)
    have hval : val.toNat < 256 ^ 3 := hf.2
    have hword : (val ||| (a <<< 24)).toNat = val.toNat + 256 ^ 3 * a.toNat := by
      rw [UInt32.toNat_or, ha, or_front hval]
    rw [ip4Place, if_neg (hiff.mpr hf), if_pos hf, htonl, hword, leBytes_add 3 1 hval, List.reverse_append]
    rfl
  · rw [ip4Place, if_pos (not_not.mp fun h => hf (hiff.mp h)), if_neg hf]

theorem ip4Place_three (a b val : UInt32) :
    ip4Place [a, b, val] =
      if Fits [a.toNat, b.toNat, val.toNat] then some (ip4Bytes [a.toNat, b.toNat, val.toNat]) else none := by
  have hiff : ¬ (val > 0xffff ∨ a > 0xff ∨ b > 0xff) ↔ Fits [a.toNat, b.toNat, val.toNat] := by
    rw [not_or, not_or, word_le, word_le, word_le, and_comm]
    simp [Fits]
  by_cases hf : Fits [a.toNat, b.toNat, val.toNat]
  · have hb256 : b.toNat < 256 := hf.1 b.toNat (by simp)
    have ha : (a <<< 24).toNat = 256 ^ 3 * a.toNat := shifted_toNat (k := 3) (hf.1 a.toNat (by simp)) (by omega)
    have hb : (b <<< 16).toNat = 256 ^ 2 * b.toNat := shifted_toNat (k := 2) hb256 (by omega)
    have hval : val.toNat < 256 ^ 2 := hf.2
    have hfront : 256 ^ 3 * a.toNat ||| 256 ^ 2 * b.toNat = 256 ^ 2 * (b.toNat + 256 ^ 1 * a.toNat) := by
      rw [Nat.or_comm, or_front (by omega)]
      ring
    have hword : (val ||| ((a <<< 24) ||| (b <<< 16))).toNat = val.toNat + 256 ^ 2 * (b.toNat + 256 ^ 1 * a.toNat) := by
      rw [UInt32.toNat_or, UInt32.toNat_or, ha, hb, hfront]
      exact or_front hval
    have hb' : b.toNat < 256 ^ 1 := hb256
    rw [ip4Place, if_neg (hiff.mpr hf), if_pos hf, htonl, hword, leBytes_add 2 2 hval, leBytes_add 1 1 hb',
      List.reverse_append, List.reverse_append]
    rfl
  · rw [ip4Place, if_pos (not_not.mp fun h => hf (hiff.mp h)), if_neg hf]

theorem ip4Place_four (a b c val : UInt32) :
    ip4Place [a, b, c, val] = if Fits [a.toNat, b.toNat, c.toNat, val.toNat] then
      some (ip4Bytes [a.toNat, b.toNat, c.toNat, val.toNat]) else none := by
  have hiff : ¬ (val > 0xff ∨ a > 0xff ∨ b > 0xff ∨ c > 0xff) ↔ Fits [a.toNat, b.toNat, c.toNat, val.toNat] := by
    rw [not_or, not_or, not_or, word_le, word_le, word_le, word_le, and_comm]
    simp [Fits]
  by_cases hf : Fits [a.toNat, b.toNat, c.toNat, val.toNat]
  · have hb256 : b.toNat < 256 := hf.1 b.toNat (by simp)
    have hc256 : c.toNat < 256 := hf.1 c.toNat (by simp)
    have ha : (a <<< 24).toNat = 256 ^ 3 * a.toNat := shifted_toNat (k := 3) (hf.1 a.toNat (by simp)) (by omega)
    have hb : (b <<< 16).toNat = 256 ^ 2 * b.toNat := shifted_toNat (k := 2) hb256 (by omega)
    have hc : (c <<< 8).toNat = 256 ^ 1 * c.toNat := shifted_toNat (k := 1) hc256 (by omega)
    have hval : val.toNat < 256 ^ 1 := hf.2
    have hmid : 256 ^ 3 * a.toNat ||| 256 ^ 2 * b.toNat = 256 ^ 2 * (b.toNat + 256 ^ 1 * a.toNat) := by
      rw [Nat.or_comm, or_front (by omega)]
      ring
    have hfront : 256 ^ 2 * (b.toNat + 256 ^ 1 * a.toNat) ||| 256 ^ 1 * c.toNat =
        256 ^ 1 * (c.toNat + 256 ^ 1 * (b.toNat + 256 ^ 1 * a.toNat)) := by
      rw [Nat.or_comm, or_front (by omega)]
      ring
    have hword : (val ||| ((a <<< 24) ||| (b <<< 16) ||| (c <<< 8))).toNat =
        val.toNat + 256 ^ 1 * (c.toNat + 256 ^ 1 * (b.toNat + 256 ^ 1 * a.toNat)) := by
      rw [UInt32.toNat_or, UInt32.toNat_or, UInt32.toNat_or, ha, hb, hc, hmid, hfront]
      exact or_front hval
    have hb' : b.toNat < 256 ^ 1 := hb256
    have hc' : c.toNat < 256 ^ 1 := hc256
    rw [ip4Place, if_neg (hiff.mpr hf), if_pos hf, htonl, hword, leBytes_add 1 3 hval, leBytes_add 1 2 hc',
      leBytes_add 1 1 hb', List.reverse_append, List.reverse_append, List.reverse_append]
    rfl
  · rw [ip4Place, if_pos (not_not.mp fun h => hf (hiff.mp h)), if_neg hf]

/-- The address is put together where every word fits its field. -/
theorem ip4Place_eq {ws : List UInt32} (hne : ws ≠ []) (hlength : ws.length ≤ 4) :
    ip4Place ws = if Fits (ws.map UInt32.toNat) then some (ip4Bytes (ws.map UInt32.toNat)) else none := by
  match ws with
  | [] => exact absurd rfl hne
  | [val] =>
    have hfits : Fits [val.toNat] := ⟨by simp, val.toNat_lt⟩
    exact (if_pos hfits).symm
  | [a, val] => exact ip4Place_two a val
  | [a, b, val] => exact ip4Place_three a b val
  | [a, b, c, val] => exact ip4Place_four a b c val
  | _ :: _ :: _ :: _ :: _ :: _ =>
    simp only [List.length_cons] at hlength
    omega

/-! ## The scanner -/

/-- What is left of a value in a word. -/
def wrapped (part : Bytes) : ℕ := partValue part % 2 ^ 32

/-- **What the scanner reads.** Up to the first white space or the end there are parts with dots between them: at
most four, each read to its end, and what a word keeps of their values fits their fields. -/
theorem husarnet_ip4addr_aton_join {texts : List Bytes} (hne : texts ≠ []) (hplain : ∀ p ∈ texts, PlainPart p)
    {rest : Bytes} (hrest : rest = [] ∨ isSpace (peek rest) = true) :
    husarnet_ip4addr_aton ([DOT].intercalate texts ++ rest) =
      if ((∀ p ∈ texts, ReadsPart p) ∧ texts.length ≤ 4) ∧ Fits (texts.map wrapped) then
        some (ip4Bytes (texts.map wrapped)) else none := by
  have hwords : (texts.map partWord).map UInt32.toNat = texts.map wrapped := by
    rw [List.map_map]
    refine List.map_congr_left fun p _ => ?_
    exact UInt32.toNat_ofNat'
  rw [husarnet_ip4addr_aton_eq, ip4Values_join hne hplain hrest]
  by_cases hread : (∀ p ∈ texts, ReadsPart p) ∧ texts.length ≤ 4
  · have hplace := @ip4Place_eq (texts.map partWord) (by simpa using hne) (by simpa using hread.2)
    rw [hwords] at hplace
    rw [if_pos hread, List.nil_append, Option.bind_some, hplace]
    simp only [and_iff_right hread]
  · rw [if_neg hread, if_neg fun h => hread h.1]
    rfl

end IpAddress
end Husarnet
