import Husarnet.Sha1
import Mathlib.Data.Nat.Bitwise

/-! # The hash that FIPS 180 describes

The code computes it, whatever the pieces are that the message comes in.
-/

namespace Husarnet.Sha1
open Octets BlockHash
set_option autoImplicit false

/-! ## The standard -/

def rotl (n : ℕ) (x : UInt32) : UInt32 := ⟨x.toBitVec.rotateLeft n⟩

/-- The words of the message schedule. -/
def schedule (M : Bytes) (t : ℕ) : UInt32 :=
  if t < 16 then UInt32.ofNat (beNat (slice M (4 * t) 4))
  else rotl 1 (schedule M (t - 3) ^^^ schedule M (t - 8) ^^^ schedule M (t - 14) ^^^ schedule M (t - 16))
termination_by t

def f (t : ℕ) (x y z : UInt32) : UInt32 :=
  if t < 20 then (x &&& y) ^^^ (~~~x &&& z)
  else if t < 40 then x ^^^ y ^^^ z
  else if t < 60 then (x &&& y) ^^^ (x &&& z) ^^^ (y &&& z)
  else x ^^^ y ^^^ z

def K (t : ℕ) : UInt32 :=
  if t < 20 then 0x5A827999 else if t < 40 then 0x6ED9EBA1 else if t < 60 then 0x8F1BBCDC else 0xCA62C1D6

def round (M : Bytes) (s : Registers) (t : ℕ) : Registers where
  a := rotl 5 s.a + f t s.b s.c s.d + s.e + K t + schedule M t
  b := s.a
  c := rotl 30 s.b
  d := s.c
  e := s.d

def compress (H : Registers) (M : Bytes) : Registers :=
  let s := (List.range 80).foldl (round M) H
  ⟨H.a + s.a, H.b + s.b, H.c + s.c, H.d + s.d, H.e + s.e⟩

def initial : Registers := ⟨0x67452301, 0xEFCDAB89, 0x98BADCFE, 0x10325476, 0xC3D2E1F0⟩

/-- A one, zeros up to eight bytes before the end of a block, and the length of the message in bits. -/
def pad (msg : Bytes) : Bytes :=
  msg ++ [0x80] ++ List.replicate ((119 - msg.length % 64) % 64) 0 ++ (leBytes 8 (8 * msg.length)).reverse

def wordBytes (word : UInt32) : Bytes := (leBytes 4 word.toNat).reverse

def Registers.bytes (H : Registers) : Bytes :=
  wordBytes H.a ++ wordBytes H.b ++ wordBytes H.c ++ wordBytes H.d ++ wordBytes H.e

def sha1 (msg : Bytes) : Bytes := (chain 64 compress initial (pad msg) ((pad msg).length / 64)).bytes

/-! ## Words -/

theorem rol_ofNat (x : UInt32) {n : ℕ} (hpos : 0 < n) (hlt : n < 32) : rol x (UInt32.ofNat n) = rotl n x := by
  apply UInt32.toBitVec_inj.mp
  have hn : (UInt32.ofNat n).toNat = n := UInt32.toNat_ofNat_of_lt' (by simp [UInt32.size]; omega)
  have hback : (32 - UInt32.ofNat n).toNat = 32 - n := by
    rw [UInt32.toNat_sub_of_le _ _ (UInt32.le_iff_toNat_le.mpr (by rw [hn]; exact hlt.le)), hn]
    rfl
  have hleft : ((UInt32.ofNat n).toBitVec % 32).toNat = n % 32 := by
    rw [BitVec.toNat_umod, UInt32.toNat_toBitVec, hn]
    rfl
  have hright : ((32 - UInt32.ofNat n).toBitVec % 32).toNat = 32 - n % 32 := by
    rw [BitVec.toNat_umod, UInt32.toNat_toBitVec, hback]
    show (32 - n) % 32 = _
    omega
  rw [rol, rotl, BitVec.rotateLeft_def, UInt32.toBitVec_or, UInt32.toBitVec_shiftLeft, UInt32.toBitVec_shiftRight,
    BitVec.shiftLeft_eq', BitVec.ushiftRight_eq', hleft, hright]

/-- The choice between two words, bit by bit. -/
theorem choose_eq (x y z : UInt32) : (x &&& (y ^^^ z)) ^^^ z = (x &&& y) ^^^ (~~~x &&& z) := by
  apply UInt32.toBitVec_inj.mp
  simp only [UInt32.toBitVec_and, UInt32.toBitVec_xor, UInt32.toBitVec_not]
  ext i hi
  simp only [BitVec.getElem_and, BitVec.getElem_xor, BitVec.getElem_not]
  generalize x.toBitVec[i] = p
  generalize y.toBitVec[i] = q
  generalize z.toBitVec[i] = r
  revert p q r
  decide

/-- The majority of three words, bit by bit. -/
theorem majority_eq (x y z : UInt32) : ((x ||| y) &&& z) ||| (x &&& y) = (x &&& y) ^^^ (x &&& z) ^^^ (y &&& z) := by
  apply UInt32.toBitVec_inj.mp
  simp only [UInt32.toBitVec_and, UInt32.toBitVec_xor, UInt32.toBitVec_or]
  ext i hi
  simp only [BitVec.getElem_and, BitVec.getElem_xor, BitVec.getElem_or]
  generalize x.toBitVec[i] = p
  generalize y.toBitVec[i] = q
  generalize z.toBitVec[i] = r
  revert p q r
  decide

theorem swapBytes_loadWord (b₀ b₁ b₂ b₃ : UInt8) : swapBytes (loadWord b₀ b₁ b₂ b₃) = loadWord b₃ b₂ b₁ b₀ := by
  apply UInt32.toBitVec_inj.mp
  ext i hi
  simp only [swapBytes, rol, loadWord]
  simp
  interval_cases i <;> simp

theorem loadWord_append (b₀ b₁ b₂ b₃ : UInt8) :
    (loadWord b₀ b₁ b₂ b₃).toBitVec = b₃.toBitVec ++ b₂.toBitVec ++ b₁.toBitVec ++ b₀.toBitVec := by
  apply BitVec.eq_of_getLsbD_eq
  intro i hi
  rw [BitVec.getLsbD_append, BitVec.getLsbD_append, BitVec.getLsbD_append]
  simp only [loadWord]
  simp
  interval_cases i <;> simp

theorem loadWord_toNat (b₀ b₁ b₂ b₃ : UInt8) : (loadWord b₀ b₁ b₂ b₃).toNat =
    b₀.toNat + 256 * (b₁.toNat + 256 * (b₂.toNat + 256 * b₃.toNat)) := by
  have h₀ := b₀.toNat_lt
  have h₁ := b₁.toNat_lt
  have h₂ := b₂.toNat_lt
  rw [← UInt32.toNat_toBitVec, loadWord_append, BitVec.toNat_append, BitVec.toNat_append, BitVec.toNat_append]
  simp only [UInt8.toNat_toBitVec]
  rw [← Nat.shiftLeft_add_eq_or_of_lt h₂, ← Nat.shiftLeft_add_eq_or_of_lt h₁, ← Nat.shiftLeft_add_eq_or_of_lt h₀]
  simp only [Nat.shiftLeft_eq]
  omega

/-! ## The schedule in the block -/

theorem l_setL_self {block : Block} {i j : ℕ} (h : j % 16 = i % 16) (word : UInt32) : l (setL block i word) j = word := by
  simp [l, setL, h]

theorem l_setL_other {block : Block} {i j : ℕ} (h : j % 16 ≠ i % 16) (word : UInt32) :
    l (setL block i word) j = l block j := by
  simp [l, setL, Ne.symm h]

theorem l_congr {block : Block} {i j : ℕ} (h : i % 16 = j % 16) : l block i = l block j := by
  simp [l, h]

theorem l_loadBlock (buffer : FString 64) {i : ℕ} (h : i < 16) : l (loadBlock buffer) i =
    loadWord (buffer.bytes.getD (4 * i) 0) (buffer.bytes.getD (4 * i + 1) 0) (buffer.bytes.getD (4 * i + 2) 0)
      (buffer.bytes.getD (4 * i + 3) 0) := by
  simp [l, loadBlock, Nat.mod_eq_of_lt h]

theorem slice_four {v : Bytes} {i : ℕ} (h : i + 4 ≤ v.length) :
    slice v i 4 = [v.getD i 0, v.getD (i + 1) 0, v.getD (i + 2) 0, v.getD (i + 3) 0] := by
  have hlen := slice_length h
  have hfirst : (slice v i 4).getD 0 0 = v.getD i 0 := getD_slice v (by decide)
  have hget (k : ℕ) (hk : k < 4) : (slice v i 4).getD k 0 = v.getD (i + k) 0 := getD_slice v hk
  rw [← hfirst, ← hget 1 (by decide), ← hget 2 (by decide), ← hget 3 (by decide)]
  obtain ⟨a, b, c, d, hv⟩ := List.length_eq_four.mp hlen
  rw [hv]
  rfl

/-- A word of the message is a word of memory with its bytes swapped. -/
theorem swapBytes_loadBlock (buffer : FString 64) {i : ℕ} (h : i < 16) :
    swapBytes (l (loadBlock buffer) i) = schedule buffer.bytes i := by
  have hlen := buffer.size_eq
  rw [l_loadBlock buffer h, swapBytes_loadWord, schedule, if_pos h, slice_four (by omega)]
  apply UInt32.toNat_inj.mp
  rw [loadWord_toNat, UInt32.toNat_ofNat']
  simp only [beNat, List.foldl_cons, List.foldl_nil]
  have h₀ := (buffer.bytes.getD (4 * i) 0).toNat_lt
  have h₁ := (buffer.bytes.getD (4 * i + 1) 0).toNat_lt
  have h₂ := (buffer.bytes.getD (4 * i + 2) 0).toNat_lt
  have h₃ := (buffer.bytes.getD (4 * i + 3) 0).toNat_lt
  omega

/-- Before the operation `i` the block has the last sixteen words of the schedule, or what it was loaded with where it
has no word of the schedule yet. -/
structure Scheduled (buffer : FString 64) (i : ℕ) (block : Block) : Prop where
  done : ∀ t, t < i → i ≤ t + 16 → l block t = schedule buffer.bytes t
  loaded : ∀ t, i ≤ t → t < 16 → l block t = l (loadBlock buffer) t

theorem scheduled_loadBlock (buffer : FString 64) : Scheduled buffer 0 (loadBlock buffer) where
  done t ht := absurd ht (Nat.not_lt_zero t)
  loaded _ _ _ := rfl

theorem Scheduled.set {buffer : FString 64} {i : ℕ} {block : Block} (h : Scheduled buffer i block) {word : UInt32}
    (hword : word = schedule buffer.bytes i) : Scheduled buffer (i + 1) (setL block i word) where
  done t ht hlast := by
    by_cases heq : t = i
    · rw [heq, l_setL_self rfl, hword]
    · rw [l_setL_other (by omega)]
      exact h.done t (by omega) (by omega)
  loaded t ht hlt := by
    rw [l_setL_other (by omega)]
    exact h.loaded t (by omega) hlt

theorem Scheduled.blk0 {buffer : FString 64} {i : ℕ} {block : Block} (h : Scheduled buffer i block) (hi : i < 16) :
    Scheduled buffer (i + 1) (blk0 block i) := by
  apply h.set
  rw [h.loaded i le_rfl hi]
  exact swapBytes_loadBlock buffer hi

theorem Scheduled.blk {buffer : FString 64} {i : ℕ} {block : Block} (h : Scheduled buffer i block) (hi : 16 ≤ i) :
    Scheduled buffer (i + 1) (blk block i) := by
  apply h.set
  have hrol : ∀ x, rol x 1 = rotl 1 x := fun x => rol_ofNat x (by decide) (by decide)
  rw [schedule, if_neg (by omega), hrol]
  congr 1
  rw [l_congr (show (i + 13) % 16 = (i - 3) % 16 by omega), l_congr (show (i + 8) % 16 = (i - 8) % 16 by omega),
    l_congr (show (i + 2) % 16 = (i - 14) % 16 by omega), l_congr (show i % 16 = (i - 16) % 16 by omega),
    h.done _ (by omega) (by omega), h.done _ (by omega) (by omega), h.done _ (by omega) (by omega),
    h.done _ (by omega) (by omega)]

/-! ## The operations -/

/-- An operation whose function and constant are those of the standard writes two of the registers that the round has. -/
theorem operation_eq {mix : UInt32 → UInt32 → UInt32 → UInt32} {expand : Block → ℕ → Block} {constant : UInt32}
    {buffer : FString 64} {block : Block} {i : ℕ} (hmix : ∀ w x y, mix w x y = f i w x y) (hconstant : constant = K i)
    (hexpand : Scheduled buffer (i + 1) (expand block i)) (s : Registers) :
    ∃ block', Scheduled buffer (i + 1) block' ∧ operation mix expand constant block s.a s.b s.c s.d s.e i =
      ((round buffer.bytes s i).c, (round buffer.bytes s i).a, block') := by
  refine ⟨expand block i, hexpand, ?_⟩
  have hword := hexpand.done i (Nat.lt_succ_self i) (by omega)
  have h30 : rol s.b 30 = rotl 30 s.b := rol_ofNat s.b (by decide) (by decide)
  have h5 : rol s.a 5 = rotl 5 s.a := rol_ofNat s.a (by decide) (by decide)
  have hsum : s.e + (f i s.b s.c s.d + schedule buffer.bytes i + K i + rotl 5 s.a) =
      rotl 5 s.a + f i s.b s.c s.d + s.e + K i + schedule buffer.bytes i := by ac_rfl
  rw [operation, hword, hmix, hconstant, h30, h5, hsum]
  rfl

theorem R_eq {buffer : FString 64} {block : Block} {i : ℕ} (h : Scheduled buffer i block) (s : Registers) :
    ∃ block', Scheduled buffer (i + 1) block' ∧
      R block s.a s.b s.c s.d s.e i = ((round buffer.bytes s i).c, (round buffer.bytes s i).a, block') := by
  rw [R]
  by_cases h16 : i < 16
  · rw [if_pos h16]
    refine operation_eq (fun w x y => ?_) ?_ (h.blk0 h16) s
    · rw [f, if_pos (by omega), choose_eq]
    · rw [K, if_pos (by omega)]
  rw [if_neg h16]
  have hblk := h.blk (Nat.not_lt.mp h16)
  by_cases h20 : i < 20
  · rw [if_pos h20]
    refine operation_eq (fun w x y => ?_) ?_ hblk s
    · rw [f, if_pos h20, choose_eq]
    · rw [K, if_pos h20]
  rw [if_neg h20]
  by_cases h40 : i < 40
  · rw [if_pos h40]
    refine operation_eq (fun w x y => ?_) ?_ hblk s
    · rw [f, if_neg h20, if_pos h40]
    · rw [K, if_neg h20, if_pos h40]
  rw [if_neg h40]
  by_cases h60 : i < 60
  · rw [if_pos h60]
    refine operation_eq (fun w x y => ?_) ?_ hblk s
    · rw [f, if_neg h20, if_neg h40, if_pos h60, majority_eq]
    · rw [K, if_neg h20, if_neg h40, if_pos h60]
  · rw [if_neg h60]
    refine operation_eq (fun w x y => ?_) ?_ hblk s
    · rw [f, if_neg h20, if_neg h40, if_neg h60]
    · rw [K, if_neg h20, if_neg h40, if_neg h60]

/-- Five operations are five rounds: in each of them the registers have other names. -/
theorem fiveOperations_eq {buffer : FString 64} {block : Block} {i : ℕ} (h : Scheduled buffer i block) (s : Registers) :
    ∃ block', Scheduled buffer (i + 5) block' ∧
      fiveOperations i (s, block) = ((List.range' i 5).foldl (round buffer.bytes) s, block') := by
  let s₁ := round buffer.bytes s i
  let s₂ := round buffer.bytes s₁ (i + 1)
  let s₃ := round buffer.bytes s₂ (i + 2)
  let s₄ := round buffer.bytes s₃ (i + 3)
  let s₅ := round buffer.bytes s₄ (i + 4)
  obtain ⟨block₁, h₁, hR₁⟩ := R_eq h s
  obtain ⟨block₂, h₂, hR₂⟩ := R_eq h₁ s₁
  obtain ⟨block₃, h₃, hR₃⟩ := R_eq h₂ s₂
  obtain ⟨block₄, h₄, hR₄⟩ := R_eq h₃ s₃
  obtain ⟨block₅, h₅, hR₅⟩ := R_eq h₄ s₄
  refine ⟨block₅, h₅, ?_⟩
  have hop₁ : R block s.a s.b s.c s.d s.e i = (s₁.c, s₁.a, block₁) := hR₁
  have hop₂ : R block₁ s₁.a s.a s₁.c s.c s.d (i + 1) = (s₂.c, s₂.a, block₂) := hR₂
  have hop₃ : R block₂ s₂.a s₁.a s₂.c s₁.c s.c (i + 2) = (s₃.c, s₃.a, block₃) := hR₃
  have hop₄ : R block₃ s₃.a s₂.a s₃.c s₂.c s₁.c (i + 3) = (s₄.c, s₄.a, block₄) := hR₄
  have hop₅ : R block₄ s₄.a s₃.a s₄.c s₃.c s₂.c (i + 4) = (s₅.c, s₅.a, block₅) := hR₅
  have hrounds : (List.range' i 5).foldl (round buffer.bytes) s = s₅ := rfl
  rw [hrounds, fiveOperations]
  simp only [hop₁, hop₂, hop₃, hop₄, hop₅]
  rfl

theorem operations_eq (buffer : FString 64) (s : Registers) (n : ℕ) : ∃ block', Scheduled buffer (5 * n) block' ∧
    (List.range n).foldl (fun s k => fiveOperations (5 * k) s) (s, loadBlock buffer) =
      ((List.range (5 * n)).foldl (round buffer.bytes) s, block') := by
  induction n with
  | zero => exact ⟨loadBlock buffer, scheduled_loadBlock buffer, rfl⟩
  | succ n ih =>
    obtain ⟨block, hblock, hfold⟩ := ih
    obtain ⟨block', hblock', hfive⟩ := fiveOperations_eq hblock ((List.range (5 * n)).foldl (round buffer.bytes) s)
    refine ⟨block', hblock', ?_⟩
    have hrange : List.range (5 * (n + 1)) = List.range (5 * n) ++ List.range' (5 * n) 5 := by
      have happend := List.range'_append_1 (s := 0) (m := 5 * n) (n := 5)
      rw [Nat.zero_add] at happend
      rw [Nat.mul_succ, List.range_eq_range', List.range_eq_range', happend]
    rw [List.range_succ, List.foldl_append, hfold, hrange, List.foldl_append]
    exact hfive

/-- **The hash of a block** is that of the standard. -/
theorem SHA1Transform_eq (state : Registers) (buffer : FString 64) :
    SHA1Transform state buffer = compress state buffer.bytes := by
  obtain ⟨block', -, hfold⟩ := operations_eq buffer state 16
  rw [SHA1Transform, hfold]
  rfl

/-! ## Data in pieces -/

/-- The context holds the message: its whole blocks are hashed, the rest is at the front of the buffer, and the two
counts are the length in bits. -/
structure Context.Holds (context : Context) (msg : Bytes) : Prop where
  absorbed : Absorbed 64 compress initial context.state (context.buffer.bytes.take (msg.length % 64)) msg
  low : context.count₀.toNat = 8 * msg.length % 2 ^ 32
  high : context.count₁.toNat = 8 * msg.length / 2 ^ 32 % 2 ^ 32

theorem holds_init (buffer : FString 64) : (SHA1Init buffer).Holds [] where
  absorbed := .nil initial
  low := rfl
  high := rfl

theorem copyTo_take (buffer : FString 64) (data : Bytes) {j : ℕ} (h : j + data.length ≤ 64) :
    (copyTo buffer j data).bytes.take (j + data.length) = buffer.bytes.take j ++ data := by
  have hlen := buffer.size_eq
  have hfront : (buffer.bytes.take j ++ data).length = j + data.length := by
    rw [List.length_append, List.length_take]
    omega
  rw [copyTo, List.take_take, Nat.min_eq_left h, List.take_append_of_le_length hfront.ge, ← hfront, List.take_length]

theorem copyTo_full (buffer : FString 64) (data : Bytes) {j : ℕ} (h : j + data.length = 64) :
    (copyTo buffer j data).bytes = buffer.bytes.take j ++ data := by
  have hlen := (copyTo buffer j data).size_eq
  rw [← copyTo_take buffer data h.le, h, List.take_of_length_le hlen.le]

theorem toNat_shift_three {n : ℕ} : (UInt32.ofNat n <<< 3).toNat = 8 * n % 2 ^ 32 := by
  have h : (3 : UInt32).toNat % 32 = 3 := rfl
  rw [UInt32.toNat_shiftLeft, UInt32.toNat_ofNat', h, Nat.shiftLeft_eq]
  omega

theorem toNat_shift_back {n : ℕ} (hn : n < 2 ^ 32) : (UInt32.ofNat n >>> 29).toNat = n / 2 ^ 29 := by
  have h : (29 : UInt32).toNat % 32 = 29 := rfl
  rw [UInt32.toNat_shiftRight, UInt32.toNat_ofNat', h, Nat.shiftRight_eq_div_pow, Nat.mod_eq_of_lt hn]

/-- The counts go on over the carry between them. -/
theorem count_eq {count₀ count₁ : UInt32} {n len : ℕ} (hlow : count₀.toNat = 8 * n % 2 ^ 32)
    (hhigh : count₁.toNat = 8 * n / 2 ^ 32 % 2 ^ 32) (hlen : len < 2 ^ 32) :
    let sum := count₀ + (UInt32.ofNat len <<< 3)
    sum.toNat = 8 * (n + len) % 2 ^ 32 ∧
      ((if sum < count₀ then count₁ + 1 else count₁) + (UInt32.ofNat len >>> 29)).toNat =
        8 * (n + len) / 2 ^ 32 % 2 ^ 32 := by
  intro sum
  have hsum : sum.toNat = 8 * (n + len) % 2 ^ 32 := by
    rw [UInt32.toNat_add, toNat_shift_three, hlow]
    omega
  have hone : (1 : UInt32).toNat = 1 := rfl
  refine ⟨hsum, ?_⟩
  rw [UInt32.toNat_add, toNat_shift_back hlen]
  by_cases hcarry : sum < count₀
  · rw [if_pos hcarry, UInt32.toNat_add, hhigh, hone]
    rw [UInt32.lt_iff_toNat_lt, hsum, hlow] at hcarry
    omega
  · rw [if_neg hcarry, hhigh]
    rw [UInt32.lt_iff_toNat_lt, hsum, hlow] at hcarry
    omega

/-- The position in the buffer. -/
theorem offset_eq {count₀ : UInt32} {n : ℕ} (hlow : count₀.toNat = 8 * n % 2 ^ 32) :
    ((count₀ >>> 3) &&& 63).toNat = n % 64 := by
  have h : (3 : UInt32).toNat % 32 = 3 := rfl
  have hmask : (63 : UInt32).toNat = 2 ^ 6 - 1 := rfl
  rw [UInt32.toNat_and, UInt32.toNat_shiftRight, h, Nat.shiftRight_eq_div_pow, hmask, Nat.and_two_pow_sub_one_eq_mod, hlow]
  omega

/-- The loop hashes the whole blocks, and stops before less than one. -/
theorem transformBlocks_absorbed {msg data : Bytes} {state : Registers} {i n : ℕ} (hi : i ≤ data.length)
    (hn : data.length ≤ i + n) (h : Absorbed 64 compress initial state [] (msg ++ data.take i)) :
    ∃ state' i', transformBlocks data n state i = (state', i') ∧ i' ≤ data.length ∧ data.length < i' + 64 ∧
      Absorbed 64 compress initial state' [] (msg ++ data.take i') := by
  induction n generalizing state i with
  | zero => exact ⟨state, i, rfl, hi, by omega, h⟩
  | succ n ih =>
    rw [transformBlocks]
    by_cases hmore : i + 63 < data.length
    · rw [dif_pos hmore, SHA1Transform_eq]
      have hblock : (slice data i 64).length = 64 := slice_length (by omega)
      have hnext := h.fill (by decide) (slice data i 64) (by simpa using hblock)
      rw [List.append_assoc, slice, ← List.take_add] at hnext
      exact ih (by omega) (by omega) hnext
    · rw [dif_neg hmore]
      exact ⟨state, i, rfl, hi, by omega, h⟩

/-- **A piece of the message.** -/
theorem SHA1Update_holds {context : Context} {msg : Bytes} (h : context.Holds msg) (data : Bytes)
    (hlen : data.length + 64 ≤ 2 ^ 32) : (SHA1Update context data).Holds (msg ++ data) := by
  obtain ⟨hlow, hhigh⟩ := count_eq h.low h.high (show data.length < 2 ^ 32 by omega)
  have hoffset := offset_eq h.low
  have hsize := context.buffer.size_eq
  have hlength : (msg ++ data).length = msg.length + data.length := List.length_append
  have hpending := h.absorbed.length_pending
  rw [← hlength] at hlow hhigh
  rw [SHA1Update]
  dsimp only
  rw [hoffset]
  by_cases hfull : msg.length % 64 + data.length > 63
  · -- the block is filled, and whole blocks of the data behind it
    rw [if_pos hfull]
    have htake : (data.take (64 - msg.length % 64)).length = 64 - msg.length % 64 := List.length_take_of_le (by omega)
    have hfirst := h.absorbed.fill (by decide) (data.take (64 - msg.length % 64)) (by omega)
    have hbuffer := copyTo_full context.buffer (data.take (64 - msg.length % 64)) (j := msg.length % 64) (by omega)
    rw [SHA1Transform_eq, hbuffer]
    obtain ⟨state', i', hblocks, hle, hrest, habsorbed⟩ :=
      transformBlocks_absorbed (n := data.length) (by omega) (by omega) hfirst
    rw [hblocks]
    have hdrop : (data.drop i').length = data.length - i' := List.length_drop
    have hall := habsorbed.append (data.drop i') (by rw [List.length_nil]; omega)
    rw [List.append_assoc, List.take_append_drop, List.nil_append] at hall
    refine ⟨?_, hlow, hhigh⟩
    have hmod := hall.length_pending
    have hcopy := copyTo_take (copyTo context.buffer (msg.length % 64) (data.take (64 - msg.length % 64)))
      (data.drop i') (j := 0) (by omega)
    rw [Nat.zero_add, List.take_zero, List.nil_append, hmod] at hcopy
    rw [hcopy]
    exact hall
  · rw [if_neg hfull]
    refine ⟨?_, hlow, hhigh⟩
    have hall := h.absorbed.append data (by omega)
    have hmod : (msg ++ data).length % 64 = msg.length % 64 + data.length := by omega
    rw [hmod, copyTo_take context.buffer data (by omega)]
    exact hall

theorem foldl_SHA1Update_holds {context : Context} {msg : Bytes} (h : context.Holds msg) {pieces : List Bytes}
    (hlen : ∀ piece ∈ pieces, piece.length + 64 ≤ 2 ^ 32) : (pieces.foldl SHA1Update context).Holds (msg ++ pieces.flatten) := by
  induction pieces generalizing context msg with
  | nil => simpa using h
  | cons piece pieces ih =>
    have hnext := ih (SHA1Update_holds h piece (hlen piece (List.mem_cons_self ..))) fun p hp => hlen p (List.mem_cons_of_mem _ hp)
    rw [List.append_assoc] at hnext
    exact hnext

/-! ## The end of the message -/

theorem block_left {context : Context} {msg : Bytes} (h : context.Holds msg) :
    context.count₀ &&& 504 = 448 ↔ msg.length % 64 = 56 := by
  have hmask : (504 : UInt32).toNat = 63 <<< 3 := rfl
  have hbits : 8 * msg.length % 2 ^ 32 = (msg.length % 2 ^ 29) <<< 3 := by
    rw [Nat.shiftLeft_eq]
    omega
  have hmod : (63 : ℕ) = 2 ^ 6 - 1 := rfl
  have hand : (context.count₀ &&& 504).toNat = 8 * (msg.length % 64) := by
    rw [UInt32.toNat_and, h.low, hbits, hmask, ← Nat.shiftLeft_and_distrib, hmod, Nat.and_two_pow_sub_one_eq_mod,
      Nat.shiftLeft_eq]
    omega
  rw [← UInt32.toNat_inj, hand]
  show _ = 448 ↔ _
  omega

/-- The zeros go up to eight bytes before the end of a block. -/
theorem padZeros_holds {context : Context} {msg : Bytes} (h : context.Holds msg) {n : ℕ}
    (hn : (120 - msg.length % 64) % 64 ≤ n) :
    (padZeros n context).Holds (msg ++ List.replicate ((120 - msg.length % 64) % 64) 0) := by
  induction n generalizing context msg with
  | zero =>
    rw [Nat.le_zero.mp hn]
    simpa [padZeros] using h
  | succ n ih =>
    rw [padZeros]
    by_cases hleft : msg.length % 64 = 56
    · rw [if_neg (not_not.mpr ((block_left h).mpr hleft)), hleft]
      simpa using h
    · rw [if_pos (mt (block_left h).mp hleft)]
      have hnext := SHA1Update_holds h [0] (by decide)
      have hlength : (msg ++ [0]).length = msg.length + 1 := List.length_append
      have hzeros : (120 - msg.length % 64) % 64 = (120 - (msg ++ [0]).length % 64) % 64 + 1 := by omega
      have hrest := ih hnext (by omega)
      rw [List.append_assoc] at hrest
      rw [hzeros, List.replicate_succ]
      exact hrest

theorem byteOf_eq (word : ℕ → UInt32) (i : ℕ) :
    byteOf word i = UInt8.ofNat ((word (i / 4)).toNat / 256 ^ (3 - i % 4)) := by
  have hshift : (UInt32.ofNat ((3 - i % 4) * 8)).toNat % 32 = 8 * (3 - i % 4) := by
    rw [UInt32.toNat_ofNat']
    omega
  have hmask : (255 : UInt32).toNat = 2 ^ 8 - 1 := rfl
  apply UInt8.toNat_inj.mp
  rw [byteOf, UInt32.toNat_toUInt8, UInt32.toNat_and, UInt32.toNat_shiftRight, hshift, hmask, Nat.and_two_pow_sub_one_eq_mod,
    UInt8.toNat_ofNat', Nat.shiftRight_eq_div_pow, Nat.pow_mul, Nat.mod_mod]

/-- The bytes of a word of several. -/
theorem byteOf_word (word : ℕ → UInt32) (k : ℕ) :
    [byteOf word (4 * k), byteOf word (4 * k + 1), byteOf word (4 * k + 2), byteOf word (4 * k + 3)] = wordBytes (word k) := by
  have hdiv (j : ℕ) (hj : j < 4) : (4 * k + j) / 4 = k := by omega
  have hmod (j : ℕ) (hj : j < 4) : (4 * k + j) % 4 = j := by omega
  have hfirst : 4 * k / 4 = k ∧ 4 * k % 4 = 0 := by omega
  rw [byteOf_eq, byteOf_eq, byteOf_eq, byteOf_eq, hfirst.1, hfirst.2, hdiv 1 (by decide), hmod 1 (by decide), hdiv 2 (by decide),
    hmod 2 (by decide), hdiv 3 (by decide), hmod 3 (by decide)]
  simp [wordBytes, leBytes, Nat.div_div_eq_div_mul]

theorem leBytes_mod (w n : ℕ) : leBytes w (n % 256 ^ w) = leBytes w n := by
  have hlt : n % 256 ^ w < 256 ^ w := Nat.mod_lt _ (by positivity)
  have hsplit := leBytes_add w 0 hlt (n / 256 ^ w)
  rw [Nat.mod_add_div, leBytes, List.append_nil, Nat.add_zero] at hsplit
  exact hsplit.symm

/-- The two counts are the length of the message in bits. -/
theorem finalcount_eq {context : Context} {msg : Bytes} (h : context.Holds msg) :
    (List.range 8).map (byteOf fun i => if i ≥ 1 then context.count₀ else context.count₁) =
      (leBytes 8 (8 * msg.length)).reverse := by
  have hlow := leBytes_mod 4 (8 * msg.length)
  have hhigh := leBytes_mod 4 (8 * msg.length / 256 ^ 4)
  have hsplit := leBytes_add 4 4 (Nat.mod_lt (8 * msg.length) (by decide : 256 ^ 4 > 0)) (8 * msg.length / 256 ^ 4)
  rw [Nat.mod_add_div, hlow] at hsplit
  have hwords := congrArg₂ (· ++ ·) (byteOf_word (fun i => if i ≥ 1 then context.count₀ else context.count₁) 0)
    (byteOf_word (fun i => if i ≥ 1 then context.count₀ else context.count₁) 1)
  have hcounts : wordBytes context.count₁ ++ wordBytes context.count₀ = (leBytes 8 (8 * msg.length)).reverse := by
    rw [wordBytes, wordBytes, h.low, h.high]
    show (leBytes 4 (8 * msg.length / 256 ^ 4 % 256 ^ 4)).reverse ++ (leBytes 4 (8 * msg.length % 256 ^ 4)).reverse = _
    rw [hlow, hhigh, ← List.reverse_append, ← hsplit]
  rw [← hcounts]
  exact hwords

theorem digest_eq (H : Registers) (word : ℕ → UInt32)
    (h : word 0 = H.a ∧ word 1 = H.b ∧ word 2 = H.c ∧ word 3 = H.d ∧ word 4 = H.e) :
    (List.range 20).map (byteOf word) = H.bytes := by
  obtain ⟨ha, hb, hc, hd, he⟩ := h
  rw [Registers.bytes, ← ha, ← hb, ← hc, ← hd, ← he, ← byteOf_word, ← byteOf_word, ← byteOf_word, ← byteOf_word, ← byteOf_word]
  rfl

/-- What is left of the standard's message behind the code's context. -/
theorem SHA1Final_eq {context : Context} {msg : Bytes} (h : context.Holds msg) : SHA1Final context = sha1 msg := by
  have hone := SHA1Update_holds h [0x80] (by decide)
  have hlength : (msg ++ [0x80]).length = msg.length + 1 := List.length_append
  have hzeros : (120 - (msg ++ [0x80]).length % 64) % 64 = (119 - msg.length % 64) % 64 := by omega
  have hpad := padZeros_holds hone (n := 64) (by omega)
  rw [hzeros] at hpad
  have hall := SHA1Update_holds hpad (leBytes 8 (8 * msg.length)).reverse (by
    rw [List.length_reverse, leBytes_length]
    decide)
  rw [SHA1Final, finalcount_eq h]
  have hstate := hall.absorbed.chained
  have hmessage : msg ++ [0x80] ++ List.replicate ((119 - msg.length % 64) % 64) 0 ++ (leBytes 8 (8 * msg.length)).reverse =
      pad msg := rfl
  rw [hmessage] at hstate
  rw [sha1, ← hstate]
  exact digest_eq _ _ ⟨rfl, rfl, rfl, rfl, rfl⟩

theorem SHA1_eq (buffer : FString 64) (str : Bytes) : SHA1 buffer str = sha1 str := by
  have hbytes : str.foldl (fun context b => SHA1Update context [b]) (SHA1Init buffer) =
      (str.map fun b => [b]).foldl SHA1Update (SHA1Init buffer) := (List.foldl_map ..).symm
  have hsingle : ∀ piece ∈ str.map fun b => [b], piece.length + 64 ≤ 2 ^ 32 := by
    intro piece hpiece
    obtain ⟨b, -, rfl⟩ := List.mem_map.mp hpiece
    simp
  have hflat : (str.map fun b => [b]).flatten = str := by
    rw [← List.flatMap_def, List.flatMap_singleton']
  have hheld := foldl_SHA1Update_holds (holds_init buffer) hsingle
  rw [SHA1, hbytes, SHA1Final_eq hheld, List.nil_append, hflat]

/-- **The hash of the standard.** The code computes it, for every message and however it comes in pieces. -/
theorem sha1_of_pieces (buffer : FString 64) (pieces : List Bytes) (h : ∀ piece ∈ pieces, piece.length + 64 ≤ 2 ^ 32) :
    SHA1Final (pieces.foldl SHA1Update (SHA1Init buffer)) = sha1 pieces.flatten ∧
      SHA1 buffer pieces.flatten = sha1 pieces.flatten :=
  ⟨SHA1Final_eq (foldl_SHA1Update_holds (holds_init buffer) h), SHA1_eq buffer pieces.flatten⟩

theorem sha1_of_pieces_abc :
    SHA1Final ([ascii "a", ascii "bc"].foldl SHA1Update (SHA1Init (.zero 64))) = sha1 [ascii "a", ascii "bc"].flatten ∧
      SHA1 (.zero 64) [ascii "a", ascii "bc"].flatten = sha1 [ascii "a", ascii "bc"].flatten :=
  sha1_of_pieces (.zero 64) [ascii "a", ascii "bc"] (by decide)

end Husarnet.Sha1
