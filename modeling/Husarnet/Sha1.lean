import Husarnet.Lib.BlockHash
import Husarnet.StringView
import Mathlib.Tactic.IntervalCases

/-! # sha1.c

The function that the WebSocket handshake hashes with, and the hash that FIPS 180 describes. The code keeps the last
sixteen words of the message schedule in the block itself, and names the registers in turn instead of moving them.
-/

namespace Husarnet.Sha1
open Octets
set_option autoImplicit false

/-! ## The hash of a block -/

structure Registers where
  a : UInt32
  b : UInt32
  c : UInt32
  d : UInt32
  e : UInt32
  deriving DecidableEq

/-- The words of a block. -/
abbrev Block := Vector UInt32 16

def rol (value bits : UInt32) : UInt32 := (value <<< bits) ||| (value >>> (32 - bits))

/-- Four bytes as a word of a target that is little-endian. -/
def loadWord (b₀ b₁ b₂ b₃ : UInt8) : UInt32 :=
  b₀.toUInt32 ||| (b₁.toUInt32 <<< 8) ||| (b₂.toUInt32 <<< 16) ||| (b₃.toUInt32 <<< 24)

def swapBytes (l : UInt32) : UInt32 := (rol l 24 &&& 0xFF00FF00) ||| (rol l 8 &&& 0x00FF00FF)

/-- `block->l[i & 15]` -/
def l (block : Block) (i : ℕ) : UInt32 := block[i % 16]

def setL (block : Block) (i : ℕ) (word : UInt32) : Block := block.set (i % 16) word (Nat.mod_lt _ (by decide))

/-- The word `i` is brought into the order of the hash. -/
def blk0 (block : Block) (i : ℕ) : Block := setL block i (swapBytes (l block i))

/-- The word `i` of the schedule takes the place of the one that is sixteen words older. -/
def blk (block : Block) (i : ℕ) : Block :=
  setL block i (rol (l block (i + 13) ^^^ l block (i + 8) ^^^ l block (i + 2) ^^^ l block i) 1)

/-- An operation on the registers `w` and `z` and the block, by its function and its constant. -/
def operation (mix : UInt32 → UInt32 → UInt32 → UInt32) (expand : Block → ℕ → Block) (constant : UInt32)
    (block : Block) (v w x y z : UInt32) (i : ℕ) : UInt32 × UInt32 × Block :=
  let block := expand block i
  (rol w 30, z + (mix w x y + l block i + constant + rol v 5), block)

def R0 := operation (fun w x y => (w &&& (x ^^^ y)) ^^^ y) blk0 0x5A827999
def R1 := operation (fun w x y => (w &&& (x ^^^ y)) ^^^ y) blk 0x5A827999
def R2 := operation (fun w x y => w ^^^ x ^^^ y) blk 0x6ED9EBA1
def R3 := operation (fun w x y => ((w ||| x) &&& y) ||| (w &&& x)) blk 0x8F1BBCDC
def R4 := operation (fun w x y => w ^^^ x ^^^ y) blk 0xCA62C1D6

/-- The operation `i` of the eighty. -/
def R (block : Block) (v w x y z : UInt32) (i : ℕ) : UInt32 × UInt32 × Block :=
  if i < 16 then R0 block v w x y z i
  else if i < 20 then R1 block v w x y z i
  else if i < 40 then R2 block v w x y z i
  else if i < 60 then R3 block v w x y z i
  else R4 block v w x y z i

/-- Five operations, behind which every register is itself again. -/
def fiveOperations (i : ℕ) : Registers × Block → Registers × Block
  | (⟨a, b, c, d, e⟩, block) =>
    let (b, e, block) := R block a b c d e i
    let (a, d, block) := R block e a b c d (i + 1)
    let (e, c, block) := R block d e a b c (i + 2)
    let (d, b, block) := R block c d e a b (i + 3)
    let (c, a, block) := R block b c d e a (i + 4)
    (⟨a, b, c, d, e⟩, block)

/-- The words of a block of the message, as they lie in memory. -/
def loadBlock (buffer : FString 64) : Block :=
  Vector.ofFn fun i =>
    let byte (k : ℕ) : UInt8 := buffer.bytes.getD (4 * i + k) 0
    loadWord (byte 0) (byte 1) (byte 2) (byte 3)

def SHA1Transform (state : Registers) (buffer : FString 64) : Registers :=
  let (⟨a, b, c, d, e⟩, _) := (List.range 16).foldl (fun s k => fiveOperations (5 * k) s) (state, loadBlock buffer)
  ⟨state.a + a, state.b + b, state.c + c, state.d + d, state.e + e⟩

/-! ## Data in pieces -/

structure Context where
  state : Registers
  count₀ : UInt32
  count₁ : UInt32
  buffer : FString 64
  deriving DecidableEq

def SHA1Init (buffer : FString 64) : Context where
  state := ⟨0x67452301, 0xEFCDAB89, 0x98BADCFE, 0x10325476, 0xC3D2E1F0⟩
  count₀ := 0
  count₁ := 0
  buffer := buffer

/-- `memcpy(&buffer[j], data, len)` -/
def copyTo (buffer : FString 64) (j : ℕ) (data : Bytes) : FString 64 :=
  ⟨(buffer.bytes.take j ++ data ++ buffer.bytes.drop (j + data.length)).take 64, by
    have h := buffer.size_eq
    rw [List.length_take, List.length_append, List.length_append, List.length_take, List.length_drop]
    omega⟩

/-- The loop over the whole blocks of the data from `i` on. -/
def transformBlocks (data : Bytes) : ℕ → Registers → ℕ → Registers × ℕ
  | 0, state, i => (state, i)
  | n + 1, state, i =>
    if h : i + 63 < data.length then
      transformBlocks data n (SHA1Transform state (sliceF data i 64 (by omega))) (i + 64)
    else (state, i)

/-- Data of fewer than 2³² - 63 bytes: for no more than these do the sums of the code stay in range. -/
def SHA1Update (context : Context) (data : Bytes) : Context :=
  let len := UInt32.ofNat data.length
  let j := context.count₀
  let count₀ := context.count₀ + (len <<< 3)
  let count₁ := if count₀ < j then context.count₁ + 1 else context.count₁
  let count₁ := count₁ + (len >>> 29)
  let j := ((j >>> 3) &&& 63).toNat
  if j + data.length > 63 then
    let i := 64 - j
    let buffer := copyTo context.buffer j (data.take i)
    let (state, i) := transformBlocks data data.length (SHA1Transform context.state buffer) i
    ⟨state, count₀, count₁, copyTo buffer 0 (data.drop i)⟩
  else ⟨context.state, count₀, count₁, copyTo context.buffer j data⟩

/-- The byte `i` of big-endian words. -/
def byteOf (word : ℕ → UInt32) (i : ℕ) : UInt8 := ((word (i / 4) >>> (UInt32.ofNat ((3 - i % 4) * 8))) &&& 255).toUInt8

/-- Zeros, until eight bytes are missing in the block. -/
def padZeros : ℕ → Context → Context
  | 0, context => context
  | n + 1, context =>
    if context.count₀ &&& 504 ≠ 448 then padZeros n (SHA1Update context [0]) else context

def SHA1Final (context : Context) : Bytes :=
  let finalcount := (List.range 8).map (byteOf fun i => if i ≥ 1 then context.count₀ else context.count₁)
  let context := SHA1Update context [0x80]
  let context := padZeros 64 context
  let context := SHA1Update context finalcount
  let word : ℕ → UInt32
    | 0 => context.state.a
    | 1 => context.state.b
    | 2 => context.state.c
    | 3 => context.state.d
    | _ => context.state.e
  (List.range 20).map (byteOf word)

/-- The hash of a string, byte by byte; what the buffer holds before is not known. -/
def SHA1 (buffer : FString 64) (str : Bytes) : Bytes :=
  SHA1Final (str.foldl (fun context b => SHA1Update context [b]) (SHA1Init buffer))

example : SHA1 (.zero 64) (ascii "abc") =
    [0xA9, 0x99, 0x3E, 0x36, 0x47, 0x06, 0x81, 0x6A, 0xBA, 0x3E, 0x25, 0x71, 0x78, 0x50, 0xC2, 0x6C, 0x9C, 0xD0, 0xD8,
      0x9D] := by
  decide +kernel

end Husarnet.Sha1
