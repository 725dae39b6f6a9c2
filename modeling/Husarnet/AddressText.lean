import Husarnet.ColonAddresses
import Husarnet.DottedAddresses
import Husarnet.Lib.JoinedTexts

/-! # Addresses as text

`toString` and `str` print an address, and `parse` reads what they print: the IPv4 scanner, which is asked
first, stops at the first colon of eight groups, and otherwise reads the four bytes that were printed.
-/

namespace Husarnet
open Octets Numerals JoinedTexts
set_option autoImplicit false

/-! ## Hex digits -/

def hexLetters : Bytes := ascii "0123456789abcdef"

/-- A byte in hex, as `"%02x"` prints it. -/
def hexByte (b : UInt8) : Bytes := [hexLetters.getD (b >>> 4).toNat 0, hexLetters.getD (b &&& 0xf).toNat 0]

theorem hexByte_digits (b : UInt8) : ∀ c ∈ hexByte b, IpAddress.isXDigit c = true := by
  have hdigits : ∀ b : UInt8, IpAddress.isXDigit (hexLetters.getD (b >>> 4).toNat 0) = true ∧
      IpAddress.isXDigit (hexLetters.getD (b &&& 0xf).toNat 0) = true := forall_byte (by decide +kernel)
  intro c hc
  rw [hexByte, List.mem_cons, List.mem_singleton] at hc
  obtain rfl | rfl := hc
  · exact (hdigits b).1
  · exact (hdigits b).2

theorem numberFrom_hexByte (v : ℕ) (b : UInt8) : numberFrom 16 v (hexByte b) = v * 256 + b.toNat := by
  have hdigits : ∀ b : UInt8, digitValue (hexLetters.getD (b >>> 4).toNat 0) * 16 +
      digitValue (hexLetters.getD (b &&& 0xf).toNat 0) = b.toNat := forall_byte (by decide +kernel)
  have hb := hdigits b
  rw [hexByte, numberFrom_cons, numberFrom_cons, numberFrom_nil]
  omega

namespace IpAddress

/-! ## Printing -/

/-- Four decimal numbers for a mapped address, eight groups of four hex digits for any other. -/
protected def toString (a : IpAddress) : Bytes :=
  if a.isMappedV4 then
    decimalText (a.byte 12).toNat ++ ascii "." ++ decimalText (a.byte 13).toNat ++ ascii "." ++
      decimalText (a.byte 14).toNat ++ ascii "." ++ decimalText (a.byte 15).toNat
  else
    (List.range 8).flatMap fun i =>
      (if i ≠ 0 then ascii ":" else []) ++ (hexByte (a.byte (2 * i)) ++ hexByte (a.byte (2 * i + 1)))

/-! ## Decimal parts -/

theorem decimal_isDigit {c : UInt8} (h : (0x30 : UInt8) ≤ c ∧ c ≤ 0x39) : isDigit c = true := by
  simp [isDigit, h.1, h.2]

theorem decimal_plain (n : ℕ) : PlainPart (decimalText n) := by
  have hdigit : ∀ c, isDigit c = true → c ≠ DOT ∧ isSpace c = false ∧ c ≠ 0 := forall_byte (by decide +kernel)
  intro c hc
  exact hdigit c (decimal_isDigit (decimalText_digits n c hc))

theorem radix_decimal (n : ℕ) (hn : n ≠ 0) : radix (decimalText n) = (10, decimalText n) :=
  if_neg fun h => hn (decimalText_head h)

theorem decimal_reads (n : ℕ) : ReadsPart (decimalText n) := by
  by_cases hn : n = 0
  · subst hn
    have hzero : radix (decimalText 0) = (8, []) := rfl
    refine ⟨by decide, fun c hc => ?_⟩
    rw [hzero] at hc
    cases hc
  · have hdigits : ∀ c ∈ decimalText n, isDigit c = true := fun c hc => decimal_isDigit (decimalText_digits n c hc)
    constructor
    · obtain ⟨c, text, htext⟩ := List.exists_cons_of_ne_nil (decimalText_ne_nil n)
      rw [htext] at hdigits ⊢
      exact hdigits c (List.mem_cons_self ..)
    · rw [radix_decimal n hn]
      exact fun c hc => Or.inl (hdigits c hc)

theorem partValue_decimal (n : ℕ) : partValue (decimalText n) = n := by
  by_cases hn : n = 0
  · subst hn
    decide
  · rw [partValue, radix_decimal n hn]
    exact number_decimalText n

/-- Four bytes fit their fields, and are what is made of them. -/
theorem ip4Bytes_toNat {bytes : Bytes} (h : bytes.length = 4) :
    Fits (bytes.map UInt8.toNat) ∧ ip4Bytes (bytes.map UInt8.toNat) = bytes := by
  match bytes, h with
  | [a, b, c, d], _ =>
    have ha := a.toNat_lt
    have hb := b.toNat_lt
    have hc := c.toNat_lt
    have hd := d.toNat_lt
    constructor
    · simp [Fits]
      omega
    · simp [ip4Bytes, leBytes]

/-- Four bytes with dots between them. -/
theorem ip4_dotted {bytes : Bytes} (h : bytes.length = 4) :
    husarnet_ip4addr_aton ([DOT].intercalate (bytes.map fun b => decimalText b.toNat)) = some bytes := by
  have hne : bytes.map (fun b => decimalText b.toNat) ≠ [] := by
    intro hnil
    rw [List.map_eq_nil_iff.mp hnil] at h
    cases h
  have hplain : ∀ p ∈ bytes.map fun b => decimalText b.toNat, PlainPart p :=
    List.forall_mem_map.mpr fun b _ => decimal_plain b.toNat
  have hreads : ∀ p ∈ bytes.map fun b => decimalText b.toNat, ReadsPart p :=
    List.forall_mem_map.mpr fun b _ => decimal_reads b.toNat
  have hvalues : (bytes.map fun b => decimalText b.toNat).map wrapped = bytes.map UInt8.toNat := by
    rw [List.map_map]
    refine List.map_congr_left fun b _ => ?_
    have hb := b.toNat_lt
    rw [Function.comp_apply, wrapped, partValue_decimal]
    omega
  obtain ⟨hfits, hbytes⟩ := ip4Bytes_toNat h
  have haton := husarnet_ip4addr_aton_join hne hplain (Or.inl rfl)
  rw [List.append_nil, hvalues, hbytes] at haton
  rw [haton, if_pos ⟨⟨hreads, by simp [h]⟩, hfits⟩]

/-! ## Groups of hex digits -/

/-- A part that is read to its end has no colon in it. -/
theorem ReadsPart.no_colon {part : Bytes} (h : ReadsPart part) : COLON ∉ part := by
  have hnot (base : ℕ) : ¬ TakesDigit base COLON := fun ht => absurd ht.isXDigit (by decide)
  intro hc
  refine hnot _ (h.2 COLON ?_)
  unfold radix
  split
  · rename_i hzero
    obtain ⟨c, part, rfl⟩ := List.exists_cons_of_ne_nil (List.ne_nil_of_mem hc)
    have hrest : COLON ∈ part := by
      obtain rfl | hm := List.mem_cons.mp hc
      · have hfalse : COLON = 0x30 := hzero
        exact absurd hfalse (by decide)
      · exact hm
    rw [List.tail_cons]
    split
    · rename_i hmark
      obtain ⟨d, part, rfl⟩ := List.exists_cons_of_ne_nil (List.ne_nil_of_mem hrest)
      obtain rfl | hm := List.mem_cons.mp hrest
      · have hfalse : COLON = 0x78 ∨ COLON = 0x58 := hmark
        exact absurd hfalse (by decide)
      · exact hm
    · exact hrest
  · exact hc

/-- The IPv4 scanner reads no text of hex digits and colons. -/
theorem ip4_rejects_colons {s : Bytes} (h : ∀ c ∈ s, isXDigit c = true ∨ c = COLON) (hc : COLON ∈ s) :
    husarnet_ip4addr_aton s = none := by
  have hplain : PlainPart s := by
    have hx : ∀ c, isXDigit c = true ∨ c = COLON → c ≠ DOT ∧ isSpace c = false ∧ c ≠ 0 :=
      forall_byte (by decide +kernel)
    exact fun c hm => hx c (h c hm)
  have haton := @husarnet_ip4addr_aton_join [s] (List.cons_ne_nil s []) (by simpa using hplain) [] (Or.inl rfl)
  rw [List.intercalate_singleton, List.append_nil] at haton
  rw [haton, if_neg]
  rintro ⟨⟨hall, -⟩, -⟩
  exact (hall s (by simp)).no_colon hc

/-- The bytes of a block, in network order. -/
def blockBytes (value : ℕ) : Bytes := (leBytes 2 value).reverse

/-- A word of two blocks that fit into its halves. -/
theorem htonl_blocks {high low : ℕ} (hh : high < 2 ^ 16) (hl : low < 2 ^ 16) :
    htonl ((UInt32.ofNat high <<< 16) ||| UInt32.ofNat low) = blockBytes high ++ blockBytes low := by
  have hshift : (16 : UInt32).toNat % 32 = 16 := rfl
  have hlow : (UInt32.ofNat low).toNat = low := by
    rw [UInt32.toNat_ofNat']
    omega
  have hhigh : (UInt32.ofNat high <<< 16).toNat = 256 ^ 2 * high := by
    rw [UInt32.toNat_shiftLeft, hshift, Nat.shiftLeft_eq, UInt32.toNat_ofNat']
    omega
  have hl' : low < 256 ^ 2 := hl
  have hword : ((UInt32.ofNat high <<< 16) ||| UInt32.ofNat low).toNat = low + 256 ^ 2 * high := by
    rw [UInt32.toNat_or, hhigh, hlow, Nat.or_comm]
    exact or_front hl'
  rw [htonl, hword, leBytes_add 2 2 hl', List.reverse_append]
  rfl

/-- Eight blocks that fit are the bytes of an address. -/
theorem stored_bytes {blocks : List ℕ} (hlength : blocks.length = 8) (h : ∀ v ∈ blocks, v < 2 ^ 16) :
    (Ip6Scan.stored (blocks.map UInt32.ofNat)).flatMap htonl = blocks.flatMap blockBytes := by
  match blocks, hlength with
  | [a, b, c, d, e, f, g, i], _ =>
    have hwords : Ip6Scan.stored ([a, b, c, d, e, f, g, i].map UInt32.ofNat) =
        [(UInt32.ofNat a <<< 16) ||| UInt32.ofNat b, (UInt32.ofNat c <<< 16) ||| UInt32.ofNat d,
          (UInt32.ofNat e <<< 16) ||| UInt32.ofNat f, (UInt32.ofNat g <<< 16) ||| UInt32.ofNat i] := rfl
    simp only [List.forall_mem_cons] at h
    obtain ⟨ha, hb, hc, hd, he, hf, hg, hi, -⟩ := h
    rw [hwords]
    simp only [List.flatMap_cons, List.flatMap_nil, htonl_blocks, ha, hb, hc, hd, he, hf, hg, hi, List.append_assoc,
      List.append_nil]

/-! ## Reading what was printed -/

def groupText (a : IpAddress) (i : ℕ) : Bytes := hexByte (a.byte (2 * i)) ++ hexByte (a.byte (2 * i + 1))

theorem groupText_hex (a : IpAddress) (i : ℕ) : HexGroup (groupText a i) :=
  List.forall_mem_append.mpr ⟨hexByte_digits _, hexByte_digits _⟩

theorem number_groupText (a : IpAddress) (i : ℕ) :
    number 16 (groupText a i) = (a.byte (2 * i)).toNat * 256 + (a.byte (2 * i + 1)).toNat := by
  rw [number, groupText, numberFrom_append, numberFrom_hexByte, numberFrom_hexByte, Nat.zero_mul, Nat.zero_add]

theorem toString_groups {a : IpAddress} (h : a.isMappedV4 = false) :
    a.toString = [COLON].intercalate ((List.range 8).map a.groupText) := by
  have hcolon : ascii ":" = [COLON] := rfl
  rw [IpAddress.toString, h, hcolon]
  simp [List.range_succ, groupText, List.intercalate]

theorem colon_mem_toString {a : IpAddress} (h : a.isMappedV4 = false) : COLON ∈ a.toString := by
  have htwo : (List.range 8).map a.groupText =
      a.groupText 0 :: a.groupText 1 :: (List.range' 2 6).map a.groupText := rfl
  rw [toString_groups h, htwo, List.intercalate_cons_cons]
  simp

theorem toString_dotted {a : IpAddress} (h : a.isMappedV4 = true) :
    a.toString = [DOT].intercalate ([a.byte 12, a.byte 13, a.byte 14, a.byte 15].map fun b => decimalText b.toNat) := by
  have hdot : ascii "." = [DOT] := rfl
  rw [IpAddress.toString, h, hdot]
  simp [List.intercalate]

/-- Bytes in pairs. -/
theorem bytes_flatMap {v : Bytes} {n : ℕ} (h : v.length = 2 * n) :
    ((List.range n).flatMap fun i => [v.getD (2 * i) 0, v.getD (2 * i + 1) 0]) = v := by
  induction n generalizing v with
  | zero => rw [List.eq_nil_of_length_eq_zero h, List.range_zero, List.flatMap_nil]
  | succ n ih =>
    match v, h with
    | x :: y :: v, h =>
      have hlength : v.length = 2 * n := by
        simp only [List.length_cons] at h
        omega
      rw [List.range_succ_eq_map, List.flatMap_cons, List.flatMap_map]
      exact congrArg (fun w => x :: y :: w) (ih hlength)

theorem blockBytes_pair (x y : UInt8) : blockBytes (x.toNat * 256 + y.toNat) = [x, y] := by
  have hx := x.toNat_lt
  have hy := y.toNat_lt
  have hhigh : (x.toNat * 256 + y.toNat) / 256 = x.toNat := by omega
  have hlow : UInt8.ofNat (x.toNat * 256 + y.toNat) = y := by
    apply UInt8.toNat_inj.mp
    rw [UInt8.toNat_ofNat']
    omega
  simp [blockBytes, leBytes, hhigh, hlow]

/-- **Eight printed groups** are read as the bytes they show. -/
theorem ip6_groups (a : IpAddress) :
    husarnet_ip6addr_aton ([COLON].intercalate ((List.range 8).map a.groupText)) = some a.data.bytes := by
  have hne : (List.range 8).map a.groupText ≠ [] := by simp
  have hx : ∀ g ∈ (List.range 8).map a.groupText, HexGroup g := List.forall_mem_map.mpr fun i _ => groupText_hex a i
  have hstop : Stops [] := fun c hc => by cases hc
  have hplain : Ip6Scan.NoDouble ((List.range 8).map a.groupText) := by
    intro g hg
    have hmem : g ∈ (List.range 8).map a.groupText := List.mem_of_mem_tail (List.dropLast_subset _ hg)
    obtain ⟨i, -, rfl⟩ := List.mem_map.mp hmem
    simp [groupText, hexByte]
  have hvalues : ((List.range 8).map a.groupText).map blockOf =
      ((List.range 8).map fun i => number 16 (groupText a i)).map UInt32.ofNat := by
    rw [List.map_map, List.map_map]
    rfl
  have hsmall : ∀ v ∈ (List.range 8).map fun i => number 16 (groupText a i), v < 2 ^ 16 := by
    refine List.forall_mem_map.mpr fun i _ => ?_
    have hhigh := (a.byte (2 * i)).toNat_lt
    have hlow := (a.byte (2 * i + 1)).toNat_lt
    rw [number_groupText]
    omega
  have hbytes : ((List.range 8).map fun i => number 16 (groupText a i)).flatMap blockBytes = a.data.bytes := by
    have hpairs := @bytes_flatMap a.data.bytes 8 a.data.size_eq
    simp only [List.flatMap_map, number_groupText, blockBytes_pair]
    exact hpairs
  have haton := husarnet_ip6addr_aton_join hne hx hstop
  rw [List.append_nil, Ip6Scan.scanBlocks_plain _ _ hne hplain, if_pos (by simp), Option.map_some, List.nil_append, hvalues,
    stored_bytes (by simp) hsmall, hbytes] at haton
  exact haton

theorem cstr_of_not_mem {s : Bytes} (h : (0 : UInt8) ∉ s) : cstr s = s := by
  refine List.takeWhile_eq_self_iff.mpr fun c hc => ?_
  exact decide_eq_true (ne_of_mem_of_not_mem hc h)

/-- What is printed has no NUL in it. -/
theorem cstr_toString (a : IpAddress) : cstr a.toString = a.toString := by
  refine cstr_of_not_mem fun hzero => ?_
  by_cases hm : a.isMappedV4 = true
  · rw [toString_dotted hm] at hzero
    obtain hdot | ⟨text, ht, hc⟩ := mem_intercalate hzero
    · exact absurd hdot (by decide)
    · obtain ⟨b, -, rfl⟩ := List.mem_map.mp ht
      exact (decimal_plain b.toNat 0 hc).2.2 rfl
  · rw [toString_groups (Bool.eq_false_iff.mpr hm)] at hzero
    obtain hcolon | ⟨text, ht, hc⟩ := mem_intercalate hzero
    · exact absurd hcolon (by decide)
    · obtain ⟨i, -, rfl⟩ := List.mem_map.mp ht
      exact absurd (groupText_hex a i 0 hc) (by decide)

theorem last_bytes (a : IpAddress) : [a.byte 12, a.byte 13, a.byte 14, a.byte 15] = a.data.bytes.drop 12 := by
  obtain ⟨⟨bytes, hlength⟩⟩ := a
  match bytes, hlength with
  | [_, _, _, _, _, _, _, _, _, _, _, _, _, _, _, _], _ => rfl

/-- **An address reads back from its text.** -/
theorem read_toString (a : IpAddress) : parse a.toString = a := by
  by_cases hm : a.isMappedV4 = true
  · have hfront : a.data.bytes.take 12 = [0, 0, 0, 0, 0, 0, 0, 0, 0, 0, 0xff, 0xff] := beq_iff_eq.mp hm
    have hlength : (a.data.bytes.drop 12).length = 4 := by simp
    have hv4 := ip4_dotted hlength
    rw [← last_bytes, ← toString_dotted hm, last_bytes] at hv4
    apply ext_bytes
    simp only [parse, cstr_toString, hv4, hlength, dite_true]
    rw [← hfront, List.take_append_drop]
  · have hgroups := toString_groups (Bool.eq_false_iff.mpr hm)
    have hv4 : husarnet_ip4addr_aton a.toString = none := by
      refine ip4_rejects_colons (fun c hc => ?_) ?_
      · rw [hgroups] at hc
        obtain rfl | ⟨text, ht, hc⟩ := mem_intercalate hc
        · exact Or.inr rfl
        · obtain ⟨i, -, rfl⟩ := List.mem_map.mp ht
          exact Or.inl (groupText_hex a i c hc)
      · exact colon_mem_toString (Bool.eq_false_iff.mpr hm)
    have hv6 : husarnet_ip6addr_aton a.toString = some a.data.bytes := by
      rw [hgroups]
      exact ip6_groups a
    apply ext_bytes
    simp only [parse, cstr_toString, hv4, hv6, a.data.size_eq, dite_true]

end IpAddress

/-! ## Addresses with a port -/

/-- `rfind`: the last position of a character. -/
def rfind (c : UInt8) : Bytes → Option ℕ
  | [] => none
  | b :: s =>
    match rfind c s with
    | some pos => some (pos + 1)
    | none => if b = c then some 0 else none

theorem rfind_of_not_mem {c : UInt8} {s : Bytes} (h : c ∉ s) : rfind c s = none := by
  induction s with
  | nil => rfl
  | cons b s ih =>
    rw [List.mem_cons, not_or] at h
    simp only [rfind, ih h.2, if_neg (Ne.symm h.1)]

theorem rfind_append {c : UInt8} (a : Bytes) {b : Bytes} (h : c ∉ b) : rfind c (a ++ c :: b) = some a.length := by
  induction a with
  | nil => simp [rfind, rfind_of_not_mem h]
  | cons x a ih => simp [rfind, ih]

/-- `atoi`: white space, a sign, and digits up to the first other character. -/
def atoi (s : Bytes) : ℤ :=
  let s := (IpAddress.cstr s).dropWhile IpAddress.isSpace
  let digits (s : Bytes) : ℕ := number 10 (s.takeWhile IpAddress.isDigit)
  if IpAddress.peek s = 0x2d then - (digits s.tail : ℤ)
  else if IpAddress.peek s = 0x2b then digits s.tail
  else digits s

namespace InetAddress

def str (a : InetAddress) : Bytes :=
  if a.ip.isMappedV4 then a.ip.toString ++ ascii ":" ++ decimalText a.port.toNat
  else ascii "[" ++ a.ip.toString ++ ascii "]:" ++ decimalText a.port.toNat

/-- The brackets around the address, where there are any. -/
def stripBrackets (s : Bytes) : Bytes :=
  if s.length > 2 ∧ s.head? = some 0x5b ∧ s.getLast? = some 0x5d then slice s 1 (s.length - 2) else s

/-- The position of the last colon fits an `int`. -/
def parse (s : Bytes) : InetAddress :=
  match rfind 0x3a s with
  | none => default
  | some pos => ⟨.parse (stripBrackets (s.take pos)), UInt16.ofInt (atoi (s.drop (pos + 1)))⟩

theorem atoi_decimal (n : ℕ) : atoi (decimalText n) = n := by
  have hdigits : ∀ c ∈ decimalText n, IpAddress.isDigit c = true :=
    fun c hc => IpAddress.decimal_isDigit (decimalText_digits n c hc)
  have hplain := IpAddress.decimal_plain n
  have hcstr : IpAddress.cstr (decimalText n) = decimalText n :=
    IpAddress.cstr_of_not_mem fun hzero => (hplain 0 hzero).2.2 rfl
  have hall : (decimalText n).takeWhile IpAddress.isDigit = decimalText n := List.takeWhile_eq_self_iff.mpr hdigits
  have hnumber := number_decimalText n
  obtain ⟨c, text, htext⟩ := List.exists_cons_of_ne_nil (decimalText_ne_nil n)
  rw [htext] at hcstr hall hdigits hplain hnumber
  have hc : IpAddress.isDigit c = true := hdigits c (List.mem_cons_self ..)
  have hspace : (c :: text).dropWhile IpAddress.isSpace = c :: text := by
    rw [List.dropWhile_cons_of_neg]
    rw [(hplain c (List.mem_cons_self ..)).2.1]
    decide
  have hsign : ∀ c, IpAddress.isDigit c = true → c ≠ 0x2d ∧ c ≠ 0x2b := forall_byte (by decide +kernel)
  have hminus : ¬ IpAddress.peek (c :: text) = 0x2d := (hsign c hc).1
  have hplus : ¬ IpAddress.peek (c :: text) = 0x2b := (hsign c hc).2
  rw [atoi, htext]
  simp only [hcstr, hspace, hall, hnumber, if_neg hminus, if_neg hplus]

theorem stripBrackets_bare {s : Bytes} (h : s.head? ≠ some 0x5b) : stripBrackets s = s := if_neg fun hb => h hb.2.1

theorem stripBrackets_brackets {s : Bytes} (h : s ≠ []) : stripBrackets (0x5b :: (s ++ [0x5d])) = s := by
  have hpos : 0 < s.length := List.length_pos_of_ne_nil h
  have hlength : (0x5b :: (s ++ [0x5d]) : Bytes).length = s.length + 2 := by simp
  have hcond : (0x5b :: (s ++ [0x5d]) : Bytes).length > 2 ∧ (0x5b :: (s ++ [0x5d]) : Bytes).head? = some 0x5b ∧
      (0x5b :: (s ++ [0x5d]) : Bytes).getLast? = some 0x5d := by
    refine ⟨by omega, rfl, ?_⟩
    rw [← List.cons_append, List.getLast?_concat]
  rw [stripBrackets, if_pos hcond, hlength]
  simp [slice]

/-- The text in front of the last colon and the port behind it. -/
theorem parse_colon (s : Bytes) (port : UInt16) :
    parse (s ++ 0x3a :: decimalText port.toNat) = ⟨.parse (stripBrackets s), port⟩ := by
  have hcolon : (0x3a : UInt8) ∉ decimalText port.toNat := by
    intro hm
    exact absurd (decimalText_digits port.toNat 0x3a hm) (by decide)
  have hport : UInt16.ofInt (atoi (decimalText port.toNat)) = port := by
    have hlt : port.toNat < 2 ^ 16 := port.toNat_lt
    have hsmall : ((port.toNat : ℤ) % 2 ^ 16).toNat = port.toNat := by omega
    rw [atoi_decimal, UInt16.ofInt, hsmall, UInt16.ofNat_toNat]
  have hbehind : (s ++ 0x3a :: decimalText port.toNat).drop (s.length + 1) = decimalText port.toNat := by
    rw [List.drop_append]
    simp
  rw [parse, rfind_append s hcolon]
  simp only [List.take_left, hbehind, hport]

/-- **A printed address and its port** are read back. -/
theorem read_str (a : InetAddress) : parse a.str = a := by
  obtain ⟨ip, port⟩ := a
  have hread := ip.read_toString
  by_cases hm : ip.isMappedV4 = true
  · have hstr : str ⟨ip, port⟩ = ip.toString ++ 0x3a :: decimalText port.toNat := by
      rw [str, if_pos hm]
      simp [ascii]
    have hhead : ip.toString.head? ≠ some 0x5b := by
      intro hbracket
      have hmem : (0x5b : UInt8) ∈ ip.toString := List.mem_of_mem_head? hbracket
      rw [IpAddress.toString_dotted hm] at hmem
      obtain hdot | ⟨text, ht, hc⟩ := mem_intercalate hmem
      · exact absurd hdot (by decide)
      · obtain ⟨b, -, rfl⟩ := List.mem_map.mp ht
        exact absurd (decimalText_digits b.toNat 0x5b hc) (by decide)
    rw [hstr, parse_colon, stripBrackets_bare hhead, hread]
  · have hstr : str ⟨ip, port⟩ = 0x5b :: (ip.toString ++ [0x5d]) ++ 0x3a :: decimalText port.toNat := by
      rw [str, if_neg hm]
      simp [ascii]
    have hne : ip.toString ≠ [] :=
      List.ne_nil_of_mem (IpAddress.colon_mem_toString (Bool.eq_false_iff.mpr hm))
    rw [hstr, parse_colon, stripBrackets_brackets hne, hread]

end InetAddress

theorem addresses_read_back : (∀ a : IpAddress, IpAddress.parse a.toString = a) ∧
    ∀ (a : IpAddress) (port : UInt16), InetAddress.parse (InetAddress.str ⟨a, port⟩) = ⟨a, port⟩ :=
  ⟨IpAddress.read_toString, fun a port => InetAddress.read_str ⟨a, port⟩⟩

end Husarnet
