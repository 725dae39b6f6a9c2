import Husarnet.Lib.Bytes

/-! # Numerals

A text of digits in some base and the number it stands for, also where a machine word keeps the low
bits of it only; decimal text.
-/

namespace Numerals
open Octets
set_option autoImplicit false

/-- The value of a character as a digit in any base up to 16. -/
def digitValue (c : UInt8) : ℕ :=
  if 0x30 ≤ c ∧ c ≤ 0x39 then c.toNat - 0x30
  else if 0x61 ≤ c ∧ c ≤ 0x66 then c.toNat - 0x57
  else if 0x41 ≤ c ∧ c ≤ 0x46 then c.toNat - 0x37
  else 0

theorem digitValue_lt (c : UInt8) : digitValue c < 16 := by
  revert c
  exact forall_byte (by decide +kernel)

theorem digitValue_decimal {c : UInt8} (h : 0x30 ≤ c ∧ c ≤ 0x39) : digitValue c = c.toNat - 48 := if_pos h

/-- A number that is continued by the digits of a text. -/
def numberFrom (base v : ℕ) (text : Bytes) : ℕ := text.foldl (fun v c => v * base + digitValue c) v

/-- The number that a text stands for. -/
def number (base : ℕ) (text : Bytes) : ℕ := numberFrom base 0 text

variable {base : ℕ}

@[simp] theorem numberFrom_nil (v : ℕ) : numberFrom base v [] = v := rfl

theorem numberFrom_cons (v : ℕ) (c : UInt8) (text : Bytes) :
    numberFrom base v (c :: text) = numberFrom base (v * base + digitValue c) text := rfl

theorem numberFrom_append (v : ℕ) (text text' : Bytes) :
    numberFrom base v (text ++ text') = numberFrom base (numberFrom base v text) text' := List.foldl_append

/-- Digits of the base are no more than the power of it allows. -/
theorem numberFrom_lt {v k : ℕ} {text : Bytes} (hv : v < base ^ k) (h : ∀ c ∈ text, digitValue c < base) :
    numberFrom base v text < base ^ (k + text.length) := by
  induction text generalizing v k with
  | nil => exact hv
  | cons c text ih =>
    have hdigit : digitValue c < base := h c (List.mem_cons_self ..)
    have hnext : v * base + digitValue c < base ^ (k + 1) := by
      calc v * base + digitValue c < v * base + base := Nat.add_lt_add_left hdigit _
        _ = (v + 1) * base := by ring
        _ ≤ base ^ k * base := Nat.mul_le_mul_right base hv
        _ = base ^ (k + 1) := (pow_succ base k).symm
    have hrest := ih hnext fun d hd => h d (List.mem_cons_of_mem _ hd)
    rw [numberFrom_cons, List.length_cons]
    have hlength : k + (text.length + 1) = k + 1 + text.length := by omega
    rwa [hlength]

theorem number_lt {text : Bytes} (h : ∀ c ∈ text, digitValue c < base) : number base text < base ^ text.length := by
  have hlt := numberFrom_lt (v := 0) (k := 0) (by simp) h
  rwa [Nat.zero_add] at hlt

/-- A digit that is put behind four zero bits. -/
theorem shift_or_digit (w : UInt32) (c : UInt8) :
    (w <<< 4) ||| UInt32.ofNat (digitValue c) = w * 16 + UInt32.ofNat (digitValue c) := by
  have hdigit := digitValue_lt c
  apply UInt32.toNat_inj.mp
  have hlow : (UInt32.ofNat (digitValue c)).toNat = digitValue c := by
    rw [UInt32.toNat_ofNat']
    omega
  have hhigh : (w <<< 4).toNat = 2 ^ 4 * (w.toNat % 2 ^ 28) := by
    rw [UInt32.toNat_shiftLeft, Nat.shiftLeft_eq]
    simp
    omega
  have hten : (16 : UInt32).toNat = 16 := rfl
  rw [UInt32.toNat_or, UInt32.toNat_add, UInt32.toNat_mul, hlow, hhigh, hten,
    ← Nat.two_pow_add_eq_or_of_lt hdigit]
  omega

theorem shift_add_digit (w d : UInt32) : (w <<< 4) + d = w * 16 + d := by
  have hshift : w <<< 4 = w * 16 := by
    apply UInt32.toNat_inj.mp
    have hten : (16 : UInt32).toNat = 16 := rfl
    rw [UInt32.toNat_shiftLeft, Nat.shiftLeft_eq, UInt32.toNat_mul, hten]
    simp
  rw [hshift]

/-! ## Decimal text -/

/-- `std::to_string` of an unsigned number. -/
def decimalText (n : ℕ) : Bytes := ascii n.repr

theorem decimalText_eq (n : ℕ) : decimalText n = (Nat.toDigits 10 n).map fun c => UInt8.ofNat c.toNat := by
  rw [decimalText, ascii, Nat.toList_repr]

theorem digit_byte {c : Char} (h : c.isDigit = true) :
    (UInt8.ofNat c.toNat).toNat = c.toNat ∧ (0x30 : UInt8) ≤ UInt8.ofNat c.toNat ∧ UInt8.ofNat c.toNat ≤ 0x39 := by
  simp only [Char.isDigit, Bool.and_eq_true, decide_eq_true_eq] at h
  have hlow : 48 ≤ c.toNat := h.1
  have hhigh : c.toNat ≤ 57 := h.2
  have hsame : (UInt8.ofNat c.toNat).toNat = c.toNat := by
    rw [UInt8.toNat_ofNat']
    omega
  refine ⟨hsame, ?_, ?_⟩
  · rw [UInt8.le_iff_toNat_le, hsame]
    exact hlow
  · rw [UInt8.le_iff_toNat_le, hsame]
    exact hhigh

theorem decimalText_digits (n : ℕ) : ∀ c ∈ decimalText n, (0x30 : UInt8) ≤ c ∧ c ≤ 0x39 := by
  intro c hc
  rw [decimalText_eq] at hc
  obtain ⟨d, hd, rfl⟩ := List.mem_map.mp hc
  exact (digit_byte (Nat.isDigit_of_mem_toDigits (by decide) (by decide) hd)).2

theorem decimalText_ne_nil (n : ℕ) : decimalText n ≠ [] := by
  rw [decimalText_eq]
  simp [Nat.toDigits_ne_nil]

/-- Only zero has a text that begins with a zero. -/
theorem decimalText_head {n : ℕ} (h : (decimalText n).headD 0 = 0x30) : n = 0 := by
  induction n using Nat.strongRecOn with
  | ind n ih =>
    rw [decimalText_eq] at h
    by_cases hn : n < 10
    · rw [Nat.toDigits_of_lt_base hn] at h
      have hone : ∀ d : Fin 10, UInt8.ofNat (Nat.digitChar d.val).toNat = 0x30 → d.val = 0 := by decide
      exact hone ⟨n, hn⟩ h
    · have hten : 10 ≤ n := not_lt.mp hn
      rw [Nat.toDigits_of_base_le (by decide) hten, List.map_append] at h
      have hne : (Nat.toDigits 10 (n / 10)).map (fun c => UInt8.ofNat c.toNat) ≠ [] := by
        simp [Nat.toDigits_ne_nil]
      rw [List.headD_eq_head?_getD, List.head?_append_of_ne_nil _ hne, ← List.headD_eq_head?_getD, ← decimalText_eq] at h
      have hzero := ih (n / 10) (by omega) h
      omega

/-- **The text of a number stands for it.** -/
theorem number_decimalText (n : ℕ) : number 10 (decimalText n) = n := by
  have hread (cs : List Char) (h : ∀ c ∈ cs, c.isDigit = true) (v : ℕ) :
      numberFrom 10 v (cs.map fun c => UInt8.ofNat c.toNat) = Nat.ofDigitChars 10 cs v := by
    induction cs generalizing v with
    | nil => simp
    | cons c cs ih =>
      have hdigit := h c (List.mem_cons_self ..)
      obtain ⟨hsame, hrange⟩ := digit_byte hdigit
      rw [List.map_cons, numberFrom_cons, ih (fun d hd => h d (List.mem_cons_of_mem _ hd)), Nat.ofDigitChars_cons,
        digitValue_decimal hrange, hsame, Nat.mul_comm]
      rfl
  rw [number, decimalText_eq, hread _ (fun c hc => Nat.isDigit_of_mem_toDigits (by decide) (by decide) hc),
    Nat.ofDigitChars_ten_toDigits]

end Numerals
