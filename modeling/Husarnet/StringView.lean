import Husarnet.Lib.Bytes

/-! # string_view.h, fstring.h and the byte packing of util.h

Every precondition that these headers assert, and `unpack` aborts on, is a failure of the
`Checked` monad. The sizes that reach them are bounded by the 2000-byte read buffers, so the
casts to `int` in the assertions change nothing. Words are packed in host order, which is
little-endian on every platform of the build.
-/

namespace Husarnet
open Octets
set_option autoImplicit false

inductive Violation where
  | index
  | slice
  | shortString
  | wrongLength
  | iterator
  | capacity
  deriving DecidableEq, Repr

abbrev Checked (α : Type) : Type := Except Violation α

theorem Checked.bind_eq_ok {α β : Type} {x : Checked α} {f : α → Checked β} {b : β} :
    x >>= f = .ok b ↔ ∃ a, x = .ok a ∧ f a = .ok b := by
  cases x with
  | error v =>
    constructor
    · intro h
      cases h
    · rintro ⟨a, h, -⟩
      cases h
  | ok a =>
    constructor
    · intro h
      exact ⟨a, rfl, h⟩
    · rintro ⟨a', h, hf⟩
      cases h
      exact hf

/-- `fstring<n>`: exactly `n` bytes. -/
structure FString (n : ℕ) where
  bytes : Bytes
  size_eq : bytes.length = n
  deriving DecidableEq

namespace FString
variable {n : ℕ}

@[ext] theorem ext {a b : FString n} (h : a.bytes = b.bytes) : a = b := by
  cases a; cases b; cases h; rfl

@[simp] theorem length_bytes (a : FString n) : a.bytes.length = n := a.size_eq

def zero (n : ℕ) : FString n := ⟨List.replicate n 0, List.length_replicate⟩

instance : Inhabited (FString n) := ⟨zero n⟩

def get (a : FString n) (i : ℕ) : UInt8 := a.bytes.getD i 0

/-- `fstring(std::string)`: the first `n` bytes of a string that has them. -/
def ofString (n : ℕ) (s : Bytes) : Checked (FString n) :=
  if h : n ≤ s.length then .ok ⟨s.take n, List.length_take_of_le h⟩ else .error .shortString

theorem ofString_bytes (a : FString n) : ofString n a.bytes = .ok a := by
  rw [ofString, dif_pos a.size_eq.ge]
  congr 1
  ext1
  exact List.take_of_length_le a.size_eq.le

/-- A write of `s` at the start of a buffer. -/
def overwrite (a : FString n) (s : Bytes) : FString n :=
  ⟨(s ++ a.bytes.drop s.length).take n, by
    have h := a.size_eq
    rw [List.length_take, List.length_append, List.length_drop]
    omega⟩

end FString

/-- The bytes `start .. start + size` of a string that has them, as an `fstring`. -/
def sliceF (v : Bytes) (start size : ℕ) (h : start + size ≤ v.length) : FString size :=
  ⟨slice v start size, slice_length h⟩

/-- `substr<start, size>(s)`. -/
def substr (start size : ℕ) (s : Bytes) : Checked (FString size) :=
  if h : start + size ≤ s.length then .ok (sliceF s start size h) else .error .shortString

theorem substr_of_le {start size : ℕ} {s : Bytes} (h : start + size ≤ s.length) :
    substr start size s = .ok (sliceF s start size h) := dif_pos h

namespace StringView

def get (v : Bytes) (i : ℕ) : Checked UInt8 :=
  if i < v.length then .ok (v.getD i 0) else .error .index

def substr (v : Bytes) (start size : ℕ) : Checked Bytes :=
  if start + size ≤ v.length then .ok (slice v start size) else .error .slice

def drop (v : Bytes) (start : ℕ) : Checked Bytes :=
  if start ≤ v.length then .ok (v.drop start) else .error .slice

theorem get_of_lt {v : Bytes} {i : ℕ} (h : i < v.length) : get v i = .ok (v.getD i 0) := if_pos h

theorem substr_of_le {v : Bytes} {start size : ℕ} (h : start + size ≤ v.length) :
    substr v start size = .ok (slice v start size) := if_pos h

theorem drop_of_le {v : Bytes} {start : ℕ} (h : start ≤ v.length) :
    drop v start = .ok (v.drop start) := if_pos h

end StringView

/-! ## pack and unpack -/

def pack16 (x : UInt16) : Bytes := leBytes 2 x.toNat
def pack64 (x : UInt64) : Bytes := leBytes 8 x.toNat

@[simp] theorem pack16_length (x : UInt16) : (pack16 x).length = 2 := leBytes_length ..
@[simp] theorem pack64_length (x : UInt64) : (pack64 x).length = 8 := leBytes_length ..

/-- `unpack<T>(s)` for an unsigned `T` of `w` bytes. -/
def unpack (w : ℕ) (s : Bytes) : Checked ℕ :=
  if s.length = w then .ok (leNat s) else .error .wrongLength

theorem unpack_of_length {w : ℕ} {s : Bytes} (h : s.length = w) : unpack w s = .ok (leNat s) := if_pos h

def unpack16 (s : Bytes) : Checked UInt16 := (unpack 2 s).map UInt16.ofNat
def unpack64 (s : Bytes) : Checked UInt64 := (unpack 8 s).map UInt64.ofNat

theorem unpack16_of_length {s : Bytes} (h : s.length = 2) : unpack16 s = .ok (UInt16.ofNat (leNat s)) := by
  rw [unpack16, unpack_of_length h]
  rfl

theorem unpack64_of_length {s : Bytes} (h : s.length = 8) : unpack64 s = .ok (UInt64.ofNat (leNat s)) := by
  rw [unpack64, unpack_of_length h]
  rfl

theorem ofNat_leNat_pack64 (x : UInt64) : UInt64.ofNat (leNat (pack64 x)) = x := by
  have h : x.toNat < 256 ^ 8 := x.toNat_lt
  rw [pack64, leNat_leBytes_of_lt h, UInt64.ofNat_toNat]

end Husarnet
