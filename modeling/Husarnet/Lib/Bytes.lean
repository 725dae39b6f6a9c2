import Mathlib.Data.List.Basic
import Mathlib.Tactic.Ring

/-! # Byte strings

Byte strings as lists of octets, ASCII literals, sub-ranges, and words of any width.
-/

namespace Octets
set_option autoImplicit false

/-- A byte string. -/
abbrev Bytes := List UInt8

/-- A property of all bytes, one value at a time. -/
theorem forall_byte {P : UInt8 → Prop} (h : ∀ n : Fin 256, P (UInt8.ofNat n.val)) (b : UInt8) : P b := by
  have hb := h ⟨b.toNat, b.toNat_lt⟩
  rwa [UInt8.ofNat_toNat] at hb

/-- What holds of all bytes of a string is decided along the string, not over the 256 values of a byte. -/
instance (priority := high) decidableForallMem {P : UInt8 → Prop} [DecidablePred P] (s : Bytes) : Decidable (∀ c ∈ s, P c) :=
  List.decidableBAll P s

def ascii (s : String) : Bytes := s.toList.map fun c => UInt8.ofNat c.toNat

/-- `size` bytes from `start` on, fewer at the end of the string. -/
def slice (v : Bytes) (start size : ℕ) : Bytes := (v.drop start).take size

theorem slice_length {v : Bytes} {start size : ℕ} (h : start + size ≤ v.length) :
    (slice v start size).length = size := by
  simp only [slice, List.length_take, List.length_drop]
  omega

theorem slice_length_le (v : Bytes) (start size : ℕ) : (slice v start size).length ≤ size := List.length_take_le _ _

/-- A range that starts at the end of `a` reads in `b`. -/
theorem slice_append_right (a b : Bytes) (i size : ℕ) :
    slice (a ++ b) (a.length + i) size = slice b i size := by
  simp only [slice, List.drop_append, Nat.add_sub_cancel_left]
  rw [List.drop_eq_nil_of_le (Nat.le_add_right _ _), List.nil_append]

theorem slice_append_left (a b : Bytes) {i size : ℕ} (h : i + size ≤ a.length) :
    slice (a ++ b) i size = slice a i size := by
  simp only [slice]
  rw [List.drop_append_of_le_length (by omega), List.take_append_of_le_length]
  rw [List.length_drop]
  omega

theorem slice_take (v : Bytes) {start size m : ℕ} (h : start + size ≤ m) :
    slice (v.take m) start size = slice v start size := by
  rw [slice, slice, List.drop_take, List.take_take]
  congr 1
  omega

theorem slice_to_end {v : Bytes} {start size : ℕ} (h : v.length ≤ start + size) :
    slice v start size = v.drop start := by
  refine List.take_of_length_le ?_
  rw [List.length_drop]
  omega

theorem drop_eq_slice_append (v : Bytes) (start size : ℕ) :
    v.drop start = slice v start size ++ v.drop (start + size) := by
  rw [slice, ← List.drop_drop, List.take_append_drop]

@[simp] theorem slice_zero_length (a : Bytes) : slice a 0 a.length = a := by
  simp [slice]

/-- The first field of a concatenation. -/
theorem slice_field_first {a : Bytes} (b : Bytes) {n : ℕ} (h : a.length = n) : slice (a ++ b) 0 n = a := by
  rw [slice_append_left a b (by omega), ← h, slice_zero_length]

theorem slice_field_next {a : Bytes} (b : Bytes) {m i : ℕ} (size : ℕ) (h : a.length = m) (hi : m ≤ i) :
    slice (a ++ b) i size = slice b (i - m) size := by
  have e : i = a.length + (i - m) := by omega
  rw [e, slice_append_right, h]
  congr 1
  omega

/-- A field, by what is in front of it. -/
theorem slice_field (front field behind : Bytes) {i n : ℕ} (hi : front.length = i) (hn : field.length = n) :
    slice (front ++ (field ++ behind)) i n = field := by
  have h := slice_append_right front (field ++ behind) 0 n
  rwa [Nat.add_zero, hi, slice_field_first behind hn] at h

theorem slice_field_last (front field : Bytes) {i n : ℕ} (hi : front.length = i) (hn : field.length = n) :
    slice (front ++ field) i n = field := by
  have h := slice_field front field [] hi hn
  rwa [List.append_nil] at h

theorem getD_slice (v : Bytes) {start size i : ℕ} (h : i < size) :
    (slice v start size).getD i 0 = v.getD (start + i) 0 := by
  rw [slice, List.getD_eq_getElem?_getD, List.getElem?_take_of_lt h, List.getElem?_drop, List.getD_eq_getElem?_getD]

/-! ## Searching -/

/-- The first position of `needle`. -/
def find (needle : Bytes) : Bytes → Option ℕ
  | [] => if needle = [] then some 0 else none
  | b :: v => if needle.isPrefixOf (b :: v) then some 0 else (find needle v).map (· + 1)

theorem find_infix {needle v : Bytes} {i : ℕ} (h : find needle v = some i) : needle <:+: v := by
  induction v generalizing i with
  | nil =>
    rw [find] at h
    split at h
    · rename_i hneedle
      subst hneedle
      exact List.infix_rfl
    · cases h
  | cons b v ih =>
    rw [find] at h
    split at h
    · rename_i hfirst
      exact (List.isPrefixOf_iff_prefix.mp hfirst).isInfix
    · obtain ⟨j, hj, -⟩ := Option.map_eq_some_iff.mp h
      exact (ih hj).trans (List.suffix_cons b v).isInfix

/-! ## Lines -/

theorem first_split_unique {α : Type} [DecidableEq α] {c : α} {a a' b b' : List α} (ha : c ∉ a) (ha' : c ∉ a')
    (h : a ++ c :: b = a' ++ c :: b') : a = a' ∧ b = b' := by
  have htake {x y : List α} (hx : c ∉ x) : (x ++ c :: y).takeWhile (· ≠ c) = x := by
    rw [List.takeWhile_append_of_pos fun z hz => decide_eq_true (ne_of_mem_of_not_mem hz hx),
      List.takeWhile_cons_of_neg (by simp), List.append_nil]
  have heq : a = a' := by rw [← htake ha (y := b), h, htake ha']
  rw [heq] at h
  exact ⟨heq, (List.cons.inj (List.append_cancel_left h)).2⟩

/-- The `w` low bytes of `n`, least significant first. -/
def leBytes : ℕ → ℕ → Bytes
  | 0, _ => []
  | w + 1, n => UInt8.ofNat n :: leBytes w (n / 256)

/-- The number a little-endian byte string stands for. -/
def leNat : Bytes → ℕ
  | [] => 0
  | b :: bs => b.toNat + 256 * leNat bs

@[simp] theorem leBytes_length (w n : ℕ) : (leBytes w n).length = w := by
  induction w generalizing n with
  | zero => rfl
  | succ w ih => rw [leBytes, List.length_cons, ih]

theorem leNat_leBytes (w n : ℕ) : leNat (leBytes w n) = n % 256 ^ w := by
  induction w generalizing n with
  | zero => simp [leNat, leBytes, Nat.mod_one]
  | succ w ih =>
    have h : (UInt8.ofNat n).toNat = n % 256 := UInt8.toNat_ofNat'
    rw [leBytes, leNat, ih, h, pow_succ', Nat.mod_mul]

theorem leNat_leBytes_of_lt {w n : ℕ} (h : n < 256 ^ w) : leNat (leBytes w n) = n := by
  rw [leNat_leBytes, Nat.mod_eq_of_lt h]

/-- The words of two parts of a number. -/
theorem leBytes_add (w k : ℕ) {n : ℕ} (hn : n < 256 ^ w) (m : ℕ) :
    leBytes (w + k) (n + 256 ^ w * m) = leBytes w n ++ leBytes k m := by
  induction w generalizing n with
  | zero =>
    have hzero : n = 0 := by omega
    simp [hzero, leBytes]
  | succ w ih =>
    have hpow : 256 ^ (w + 1) * m = 256 * (256 ^ w * m) := by ring
    have hhigh : (n + 256 ^ (w + 1) * m) / 256 = n / 256 + 256 ^ w * m := by omega
    have hrest : n / 256 < 256 ^ w := by
      rw [pow_succ] at hn
      omega
    have hlow : UInt8.ofNat (n + 256 ^ (w + 1) * m) = UInt8.ofNat n := by
      apply UInt8.toNat_inj.mp
      rw [UInt8.toNat_ofNat', UInt8.toNat_ofNat', hpow]
      omega
    have hlength : w + 1 + k = w + k + 1 := by omega
    rw [hlength, leBytes, hhigh, hlow, ih hrest, leBytes, List.cons_append]

theorem leNat_lt (v : Bytes) : leNat v < 256 ^ v.length := by
  induction v with
  | nil => simp [leNat]
  | cons b v ih =>
    have hb := b.toNat_lt
    rw [leNat, List.length_cons, pow_succ]
    omega

theorem leBytes_leNat (v : Bytes) : leBytes v.length (leNat v) = v := by
  induction v with
  | nil => rfl
  | cons b v ih =>
    have hb := b.toNat_lt
    have hdiv : (b.toNat + 256 * leNat v) / 256 = leNat v := by omega
    have hlow : UInt8.ofNat (b.toNat + 256 * leNat v) = b := by
      apply UInt8.toNat_inj.mp
      rw [UInt8.toNat_ofNat']
      omega
    rw [leNat, List.length_cons, leBytes, hdiv, hlow, ih]

/-! ## Big-endian words -/

/-- The number a big-endian byte string stands for. -/
def beNat (v : Bytes) : ℕ := v.foldl (fun n b => 256 * n + b.toNat) 0

end Octets
