import Husarnet.StringView
import Mathlib.Data.List.Destutter
import Mathlib.Data.List.Sort

/-! # ipaddress.h and ipaddress.cpp

Addresses of 16 bytes, their order, the range predicates the socket layer asks for, and the text
parser: the two lwIP routines behind `IpAddress::parse`, whose failure value is the ordinary
address `IpAddress()`.
-/

namespace Husarnet
open Octets
set_option autoImplicit false

structure IpAddress where
  data : FString 16
  deriving DecidableEq

abbrev HusarnetAddress : Type := IpAddress
abbrev InternetAddress : Type := IpAddress

namespace IpAddress

@[ext] theorem ext {a b : IpAddress} (h : a.data = b.data) : a = b := by
  cases a; cases b; cases h; rfl

theorem ext_bytes {a b : IpAddress} (h : a.data.bytes = b.data.bytes) : a = b := ext (FString.ext h)

/-- `IpAddress()`: the documentation address `3fff::`, which stands for "no address". -/
def invalid : IpAddress :=
  ⟨⟨[0x3f, 0xff, 0, 0, 0, 0, 0, 0, 0, 0, 0, 0, 0, 0, 0, 0], rfl⟩⟩

instance : Inhabited IpAddress := ⟨invalid⟩

def byte (a : IpAddress) (i : ℕ) : UInt8 := a.data.get i

instance : LT IpAddress := ⟨fun a b => a.data.bytes < b.data.bytes⟩
instance : DecidableLT IpAddress := fun a b => inferInstanceAs (Decidable (a.data.bytes < b.data.bytes))

theorem lt_asymm {a b : IpAddress} (h : a < b) : ¬ b < a := List.lt_asymm h

theorem lt_of_ne {a b : IpAddress} (hne : a ≠ b) (h : ¬ a < b) : b < a := by
  have hle : b.data.bytes ≤ a.data.bytes := h
  have hlt : b.data.bytes < a.data.bytes := Std.lt_of_le_of_ne hle fun he => hne (ext_bytes he.symm)
  exact hlt

def isMappedV4 (a : IpAddress) : Bool :=
  a.data.bytes.take 12 == [0, 0, 0, 0, 0, 0, 0, 0, 0, 0, 0xff, 0xff]

def isLinkLocal (a : IpAddress) : Bool :=
  if a.isMappedV4 then a.byte 12 == 169 && a.byte 13 == 254 else a.byte 0 == 0xfe && a.byte 1 == 0x80

def isPrivateV4 (a : IpAddress) : Bool :=
  a.isMappedV4 && (a.byte 12 == 127 || a.byte 12 == 10 || (a.byte 12 == 192 && a.byte 13 == 168)
    || (a.byte 12 == 172 && (a.byte 13 &&& 0xf0) == 16))

/-- Husarnet IPv6 address range. -/
def isFC94 (a : IpAddress) : Bool := a.byte 0 == 0xfc && a.byte 1 == 0x94

def isInvalid (a : IpAddress) : Bool := a.data.bytes.take 2 == [0x3f, 0xff]
def isValid (a : IpAddress) : Bool := !a.isInvalid

theorem ne_invalid_of_isFC94 {a : IpAddress} (h : a.isFC94 = true) : a ≠ invalid := by
  rintro rfl
  revert h
  decide

/-- `IpAddress::fromBinaryString(s)`, which asserts exactly 16 bytes. -/
def fromBinaryString (s : Bytes) : Checked IpAddress :=
  if h : s.length = 16 then .ok ⟨⟨s, h⟩⟩ else .error .wrongLength

/-- `IpAddress::fromBinary(data)`: the first 16 of the bytes that are there. -/
def fromBinary (data : Bytes) (h : 16 ≤ data.length) : IpAddress := ⟨⟨data.take 16, List.length_take_of_le h⟩⟩

/-- `IpAddress::fromBinary4(data)`, of bytes and of a word in memory alike: the mapped form of the first four. -/
def fromBinary4 (data : Bytes) (h : 4 ≤ data.length) : IpAddress :=
  ⟨⟨[0, 0, 0, 0, 0, 0, 0, 0, 0, 0, 0xff, 0xff] ++ data.take 4, by
    rw [List.length_append, List.length_take_of_le h]
    rfl⟩⟩

/-! ## Text -/

def isDigit (c : UInt8) : Bool := 0x30 ≤ c && c ≤ 0x39
def isLower (c : UInt8) : Bool := 0x61 ≤ c && c ≤ 0x7a
def isXDigit (c : UInt8) : Bool := isDigit c || (0x41 ≤ c && c ≤ 0x46) || (0x61 ≤ c && c ≤ 0x66)
def isSpace (c : UInt8) : Bool := c == 0x20 || (0x09 ≤ c && c ≤ 0x0d)

/-- `c_str()`: what a reader of NUL-terminated text sees. -/
def cstr (s : Bytes) : Bytes := s.takeWhile (· ≠ 0)

/-- `*cp`, the terminating NUL at the end. -/
def peek (cp : Bytes) : UInt8 := cp.headD 0

def ip4Digits (base : UInt32) : UInt32 → Bytes → UInt32 × Bytes
  | val, [] => (val, [])
  | val, c :: cp =>
    if isDigit c then ip4Digits base (val * base + (c - 0x30).toUInt32) cp
    else if base = 16 ∧ isXDigit c = true then
      ip4Digits base ((val <<< 4) ||| (c + 10 - (if isLower c then 0x61 else 0x41)).toUInt32) cp
    else (val, c :: cp)

/-- The loop over the parts: the stored parts, the last value and what follows it; `room` parts
may still be stored. -/
def ip4Parts : ℕ → List UInt32 → Bytes → Option (List UInt32 × UInt32 × Bytes)
  | room, parts, cp =>
    if isDigit (peek cp) then
      let (base, cp) : UInt32 × Bytes :=
        if peek cp = 0x30 then
          if peek cp.tail = 0x78 ∨ peek cp.tail = 0x58 then (16, cp.tail.tail) else (8, cp.tail)
        else (10, cp)
      let (val, rest) := ip4Digits base 0 cp
      if peek rest = 0x2e then
        match room with
        | 0 => none
        | room + 1 => ip4Parts room (parts ++ [val]) rest.tail
      else some (parts, val, rest)
    else none

/-- The bytes of `htonl(val)` in memory. -/
def htonl (val : UInt32) : Bytes := (leBytes 4 val.toNat).reverse

def husarnet_ip4addr_aton (s : Bytes) : Option Bytes :=
  match ip4Parts 3 [] s with
  | none => none
  | some (parts, val, rest) =>
    if peek rest ≠ 0 ∧ isSpace (peek rest) = false then none
    else match parts with
      | [] => some (htonl val)
      | [a] =>
        if val > 0xffffff ∨ a > 0xff then none else some (htonl (val ||| (a <<< 24)))
      | [a, b] =>
        if val > 0xffff ∨ a > 0xff ∨ b > 0xff then none
        else some (htonl (val ||| ((a <<< 24) ||| (b <<< 16))))
      | [a, b, c] =>
        if val > 0xff ∨ a > 0xff ∨ b > 0xff ∨ c > 0xff then none
        else some (htonl (val ||| ((a <<< 24) ||| (b <<< 16) ||| (c <<< 8))))
      | _ => none

/-- The variables of `husarnet_ip6addr_aton`. -/
structure Ip6Scan where
  addr : List UInt32 := [0, 0, 0, 0]
  addrIndex : ℕ := 0
  zeroBlocks : UInt32
  blockIndex : ℕ := 0
  blockValue : UInt32 := 0

namespace Ip6Scan

def store (st : Ip6Scan) : Ip6Scan :=
  if st.blockIndex % 2 = 1 then
    { st with
      addr := st.addr.modify st.addrIndex (· ||| st.blockValue)
      addrIndex := st.addrIndex + 1 }
  else { st with addr := st.addr.set st.addrIndex (st.blockValue <<< 16) }

/-- The loop that fills in a "::"; `blockIndex` passes 7 before the fuel of 8 runs out. -/
def fillZeros : ℕ → Ip6Scan → Option Ip6Scan
  | 0, _ => none
  | fuel + 1, st =>
    if st.zeroBlocks = 0 then some st
    else
      let st : Ip6Scan :=
        if st.blockIndex % 2 = 1 then { st with addrIndex := st.addrIndex + 1 }
        else { st with addr := st.addr.set st.addrIndex 0 }
      let st := { st with zeroBlocks := st.zeroBlocks - 1, blockIndex := st.blockIndex + 1 }
      if st.blockIndex > 7 then none else fillZeros fuel st

def blocks : Ip6Scan → Bytes → Option Ip6Scan
  | st, [] => some st
  | st, c :: s =>
    if c = 0x3a then
      let st := { st.store with blockIndex := st.blockIndex + 1, blockValue := 0 }
      if st.blockIndex > 7 then none
      else match s with
        | [] => some st
        | d :: s' =>
          if d = 0x3a then
            if peek s' = 0x3a then none
            else match fillZeros 8 st with
              | none => none
              | some st => blocks st s'
          else blocks st (d :: s')
    else if isXDigit c then
      let digit : UInt8 :=
        if isDigit c then c - 0x30 else if isLower c then 10 + (c - 0x61) else 10 + (c - 0x41)
      blocks { st with blockValue := (st.blockValue <<< 4) + digit.toUInt32 } s
    else some st

end Ip6Scan

/-- The first loop: eight, less one for every colon before the first other character. -/
def ip6ZeroBlocks : UInt32 → Bytes → UInt32
  | n, [] => n
  | n, c :: s => if c = 0x3a then ip6ZeroBlocks (n - 1) s else if isXDigit c then ip6ZeroBlocks n s else n

def husarnet_ip6addr_aton (s : Bytes) : Option Bytes :=
  match Ip6Scan.blocks { zeroBlocks := ip6ZeroBlocks 8 s } s with
  | none => none
  | some st => if st.blockIndex ≠ 7 then none else some (st.store.addr.flatMap htonl)

def parse (s : Bytes) : IpAddress :=
  match husarnet_ip4addr_aton (cstr s) with
  | some v4 =>
    if h : v4.length = 4 then
      ⟨⟨[0, 0, 0, 0, 0, 0, 0, 0, 0, 0, 0xff, 0xff] ++ v4, by rw [List.length_append, h]; rfl⟩⟩
    else invalid
  | none =>
    match husarnet_ip6addr_aton (cstr s) with
    | some v6 => if h : v6.length = 16 then ⟨⟨v6, h⟩⟩ else invalid
    | none => invalid

example : parse (ascii "fc94::1") = ⟨⟨[0xfc, 0x94, 0, 0, 0, 0, 0, 0, 0, 0, 0, 0, 0, 0, 0, 1], rfl⟩⟩ := by decide +kernel
example : parse (ascii "10.1.2.3") = ⟨⟨[0, 0, 0, 0, 0, 0, 0, 0, 0, 0, 0xff, 0xff, 10, 1, 2, 3], rfl⟩⟩ := by decide +kernel
example : parse (ascii "fc94:::1") = invalid := by decide +kernel

end IpAddress

/-- An address with a port. A default one has the invalid address and, here, port 0. -/
structure InetAddress where
  ip : IpAddress
  port : UInt16
  deriving DecidableEq

namespace InetAddress

instance : Inhabited InetAddress := ⟨⟨.invalid, 0⟩⟩

/-- `operator<` of the pair. -/
instance : LT InetAddress := ⟨fun a b => a.ip < b.ip ∨ (¬ b.ip < a.ip ∧ a.port < b.port)⟩
instance : DecidableLT InetAddress := fun a b =>
  inferInstanceAs (Decidable (a.ip < b.ip ∨ (¬ b.ip < a.ip ∧ a.port < b.port)))

def isSet (a : InetAddress) : Bool := a.ip.isValid

def sort (as : List InetAddress) : List InetAddress := as.insertionSort fun a b => ¬ b < a

/-- `std::sort` followed by `erase(unique(..))`. -/
def sortUnique (as : List InetAddress) : List InetAddress := (sort as).destutter (· ≠ ·)

end InetAddress

end Husarnet
