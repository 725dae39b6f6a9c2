import Husarnet.Config.LicenseShapes

/-! # base64

What `base64Decode` makes of a base64 text. The decoder's word overflows on long texts, but the byte that it takes out
depends on the last two digits only.
-/

namespace Husarnet
open Octets
set_option autoImplicit false

/-! ## The encoding -/

/-- The character of a six-bit digit. -/
def base64Char (digit : ℕ) : UInt8 := base64Characters.getD digit 0

/-- The bytes read as one string of bits, six bits a digit; the last digit is filled up with zero bits. -/
def base64Digits : Bytes → List ℕ
  | [] => []
  | [a] => [a.toNat / 4, a.toNat % 4 * 16]
  | [a, b] => [a.toNat / 4, a.toNat % 4 * 16 + b.toNat / 16, b.toNat % 16 * 4]
  | a :: b :: c :: v =>
    a.toNat / 4 :: (a.toNat % 4 * 16 + b.toNat / 16) :: (b.toNat % 16 * 4 + c.toNat / 64) :: c.toNat % 64 ::
      base64Digits v

def base64Encode (v : Bytes) : Bytes := (base64Digits v).map base64Char

/-- As many `=` as make the number of characters a multiple of four. -/
def base64Padding (v : Bytes) : Bytes := List.replicate ((3 - v.length % 3) % 3) 0x3d

/-- `Interspersed s t`: the text `t` is `s` with characters outside the alphabet put in anywhere. -/
inductive Interspersed : Bytes → Bytes → Prop where
  | nil : Interspersed [] []
  | keep (c : UInt8) {s t : Bytes} (h : Interspersed s t) : Interspersed (c :: s) (c :: t)
  | noise {c : UInt8} (hc : c ∉ base64Characters) {s t : Bytes} (h : Interspersed s t) : Interspersed s (c :: t)

example : base64Encode (ascii "husar") ++ base64Padding (ascii "husar") = ascii "aHVzYXI=" := by decide +kernel

/-! ## One character -/

theorem charmap_base64Char {digit : ℕ} (h : digit < 64) : charmap (base64Char digit) = some digit := by
  have hall : ∀ i : Fin 64, charmap (base64Char i.val) = some i.val := by decide +kernel
  exact hall ⟨digit, h⟩

theorem base64Loop_skip {c : UInt8} (hc : c ∉ base64Characters) (val : UInt32) (pos : ℤ) (s : Bytes) :
    base64Loop val pos (c :: s) = base64Loop val pos s := by
  rw [base64Loop, charmap_eq_none.mpr hc]

/-- Six more bits for the word. -/
def pushDigit (val : UInt32) (digit : ℕ) : UInt32 := (val <<< 6) + UInt32.ofNat digit

/-- The twelve lowest bits of the word are the last two digits, whatever has run over the top. -/
theorem pushDigit_low (val : UInt32) {digit : ℕ} (h : digit < 64) :
    (pushDigit val digit).toNat % 4096 = val.toNat % 64 * 64 + digit := by
  have hshift : (val <<< 6).toNat = val.toNat * 64 % 2 ^ 32 := by
    rw [UInt32.toNat_shiftLeft, Nat.shiftLeft_eq]
    rfl
  have hdigit : (UInt32.ofNat digit).toNat = digit := UInt32.toNat_ofNat_of_lt' (Nat.lt_trans h (by decide))
  rw [pushDigit, UInt32.toNat_add, hshift, hdigit]
  omega

theorem pushDigit_last (val : UInt32) {digit : ℕ} (h : digit < 64) : (pushDigit val digit).toNat % 64 = digit := by
  have hlow := pushDigit_low val h
  omega

/-- The byte taken out of the word at `pos`. -/
theorem takenByte (val : UInt32) {pos : ℕ} (hpos : pos ≤ 4) :
    ((val >>> UInt32.ofNat pos) &&& 0xff).toUInt8 = UInt8.ofNat (val.toNat % 4096 / 2 ^ pos) := by
  apply UInt8.toNat.inj
  have hpos' : (UInt32.ofNat pos).toNat % 32 = pos := by
    rw [UInt32.toNat_ofNat_of_lt' (Nat.lt_of_le_of_lt hpos (by decide))]
    omega
  have hand : (((val >>> UInt32.ofNat pos) &&& 0xff) : UInt32).toNat = val.toNat / 2 ^ pos % 256 := by
    rw [UInt32.toNat_and, UInt32.toNat_shiftRight, hpos', Nat.shiftRight_eq_div_pow]
    exact Nat.and_two_pow_sub_one_eq_mod _ 8
  have hword : val.toNat / 2 ^ pos % 256 = val.toNat % 4096 / 2 ^ pos % 256 := by
    obtain rfl | rfl | rfl | rfl | rfl : pos = 0 ∨ pos = 1 ∨ pos = 2 ∨ pos = 3 ∨ pos = 4 := by omega
    all_goals omega
  rw [UInt32.toNat_toUInt8, hand, hword, UInt8.toNat_ofNat', Nat.mod_mod]

/-- The first digit of four: no byte is complete. -/
theorem base64Loop_first {digit : ℕ} (h : digit < 64) (val : UInt32) (s : Bytes) :
    base64Loop val (-8) (base64Char digit :: s) = base64Loop (pushDigit val digit) (-2) s := by
  rw [base64Loop, charmap_base64Char h]
  rfl

/-- A digit that completes a byte. -/
theorem base64Loop_take {digit : ℕ} (h : digit < 64) (val : UInt32) {pos : ℕ} (hpos : pos ≤ 4) (s : Bytes) :
    base64Loop val (pos - 6) (base64Char digit :: s) =
      UInt8.ofNat ((val.toNat % 64 * 64 + digit) / 2 ^ pos) :: base64Loop (pushDigit val digit) (pos - 8) s := by
  have hbyte := takenByte (pushDigit val digit) hpos
  rw [pushDigit_low val h] at hbyte
  have hback : (pos : ℤ) - 6 + 6 = pos := by omega
  rw [base64Loop, charmap_base64Char h]
  simp only [hback, Int.toNat_natCast]
  rw [if_pos (by omega), ← hbyte]
  rfl

section Taken
variable {first digit : ℕ} (hfirst : first < 64) (h : digit < 64) (val : UInt32) (s : Bytes)
include hfirst h

theorem base64Loop_second :
    base64Loop (pushDigit val first) (-2) (base64Char digit :: s) =
      UInt8.ofNat ((first * 64 + digit) / 16) :: base64Loop (pushDigit (pushDigit val first) digit) (-4) s := by
  have htake := @base64Loop_take digit h (pushDigit val first) 4 (by omega) s
  rwa [pushDigit_last val hfirst] at htake

theorem base64Loop_third :
    base64Loop (pushDigit val first) (-4) (base64Char digit :: s) =
      UInt8.ofNat ((first * 64 + digit) / 4) :: base64Loop (pushDigit (pushDigit val first) digit) (-6) s := by
  have htake := @base64Loop_take digit h (pushDigit val first) 2 (by omega) s
  rwa [pushDigit_last val hfirst] at htake

theorem base64Loop_fourth :
    base64Loop (pushDigit val first) (-6) (base64Char digit :: s) =
      UInt8.ofNat (first * 64 + digit) :: base64Loop (pushDigit (pushDigit val first) digit) (-8) s := by
  have htake := @base64Loop_take digit h (pushDigit val first) 0 (by omega) s
  rwa [pushDigit_last val hfirst, pow_zero, Nat.div_one] at htake

end Taken

/-! ## The whole text -/

theorem base64Loop_interspersed {s t : Bytes} (h : Interspersed s t) (val : UInt32) (pos : ℤ) :
    base64Loop val pos t = base64Loop val pos s := by
  induction h generalizing val pos with
  | nil => rfl
  | noise hc _ ih => rw [base64Loop_skip hc, ih]
  | @keep c s t _ ih =>
    rw [base64Loop, base64Loop]
    cases charmap c with
    | none => exact ih val pos
    | some i => simp only [ih]

theorem base64Loop_padding (s : Bytes) (n : ℕ) (val : UInt32) (pos : ℤ) :
    base64Loop val pos (s ++ List.replicate n 0x3d) = base64Loop val pos s := by
  have hequals : (0x3d : UInt8) ∉ base64Characters := by decide +kernel
  apply base64Loop_interspersed
  induction s with
  | nil =>
    induction n with
    | zero => exact .nil
    | succ n ih => exact .noise hequals ih
  | cons c s ih => exact .keep c ih

/-- The digits give the bytes back, whatever the word holds when the first of them arrives. -/
theorem base64Loop_digits (v : Bytes) (val : UInt32) : base64Loop val (-8) (base64Encode v) = v := by
  have hof {n : ℕ} {b : UInt8} (h : n % 256 = b.toNat) : UInt8.ofNat n = b := by
    apply UInt8.toNat.inj
    rw [UInt8.toNat_ofNat', h]
  unfold base64Encode
  induction v using base64Digits.induct generalizing val with
  | case1 => rfl
  | case2 a =>
    have ha := a.toNat_lt
    simp only [base64Digits, List.map_cons, List.map_nil]
    rw [base64Loop_first (by omega), base64Loop_second (by omega) (by omega), base64Loop]
    rw [@hof _ a (by omega)]
  | case3 a b =>
    have ha := a.toNat_lt
    have hb := b.toNat_lt
    simp only [base64Digits, List.map_cons, List.map_nil]
    rw [base64Loop_first (by omega), base64Loop_second (by omega) (by omega), base64Loop_third (by omega) (by omega),
      base64Loop]
    rw [@hof _ a (by omega), @hof _ b (by omega)]
  | case4 a b c v ih =>
    have ha := a.toNat_lt
    have hb := b.toNat_lt
    have hc := c.toNat_lt
    simp only [base64Digits, List.map_cons]
    rw [base64Loop_first (by omega), base64Loop_second (by omega) (by omega), base64Loop_third (by omega) (by omega),
      base64Loop_fourth (by omega) (by omega)]
    rw [@hof _ a (by omega), @hof _ b (by omega), @hof _ c (by omega), ih]

/-- The decoder inverts the encoding, with or without padding, and whatever stands between its characters. -/
theorem base64Decode_base64Encode (v : Bytes) {s t : Bytes} (hs : s = base64Encode v ∨ s = base64Encode v ++ base64Padding v)
    (ht : Interspersed s t) : base64Decode t = v := by
  rw [base64Decode, base64Loop_interspersed ht]
  obtain rfl | rfl := hs
  · exact base64Loop_digits v 0
  · rw [base64Padding, base64Loop_padding]
    exact base64Loop_digits v 0

theorem base64Decode_wrapped : base64Decode (ascii "aHVz\nYXI=") = ascii "husar" :=
  base64Decode_base64Encode (ascii "husar") (.inr rfl) (by
    have hnoise : (0x0a : UInt8) ∉ base64Characters := by decide +kernel
    exact .keep _ <| .keep _ <| .keep _ <| .keep _ <| .noise hnoise <| .keep _ <| .keep _ <| .keep _ <| .keep _ .nil)

end Husarnet
