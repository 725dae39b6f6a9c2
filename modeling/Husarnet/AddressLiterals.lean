import Husarnet.AddressText

/-! # Address literals

Which texts are address literals, by their own grammar, and which texts the parser takes for one: it reads
more than literals, since neither scanner counts digits, and neither looks at what follows.
-/

namespace Husarnet
open Octets Numerals JoinedTexts
set_option autoImplicit false

namespace IpAddress
open Ip6Scan

/-! ## The literals -/

/-- A group of an IPv6 literal. -/
def LiteralGroup (group : Bytes) : Prop := HexGroup group ∧ 1 ≤ group.length ∧ group.length ≤ 4

/-- The bytes that groups stand for. -/
def groupBytes (groups : List Bytes) : Bytes := groups.flatMap fun group => blockBytes (number 16 group)

/-- A text is an IPv6 literal of these bytes: eight groups, or fewer around a "::". -/
inductive IPv6Literal : Bytes → Bytes → Prop where
  | full (groups : List Bytes) (h : ∀ g ∈ groups, LiteralGroup g) (hlength : groups.length = 8) :
      IPv6Literal ([COLON].intercalate groups) (groupBytes groups)
  | short (front back : List Bytes) (hf : ∀ g ∈ front, LiteralGroup g) (hb : ∀ g ∈ back, LiteralGroup g)
      (hlength : front.length + back.length ≤ 7) :
      IPv6Literal ([COLON].intercalate front ++ [COLON, COLON] ++ [COLON].intercalate back)
        (groupBytes front ++ List.replicate (2 * (8 - (front.length + back.length))) 0 ++ groupBytes back)

/-- A number as C writes it: decimal without a leading zero, octal behind a zero, hex behind 0x. -/
inductive CNumber : Bytes → ℕ → Prop where
  | decimal (digits : Bytes) (hne : digits ≠ []) (hfirst : digits.head? ≠ some 0x30)
      (h : ∀ c ∈ digits, isDigit c = true) : CNumber digits (number 10 digits)
  | octal (digits : Bytes) (h : ∀ c ∈ digits, (0x30 : UInt8) ≤ c ∧ c ≤ 0x37) : CNumber (0x30 :: digits) (number 8 digits)
  | hex (mark : UInt8) (hmark : mark = 0x78 ∨ mark = 0x58) (digits : Bytes) (hne : digits ≠ []) (h : HexGroup digits) :
      CNumber (0x30 :: mark :: digits) (number 16 digits)

/-- A text is an `inet_aton` literal of these bytes: one to four numbers that fit their fields, and white space. -/
inductive IPv4Literal : Bytes → Bytes → Prop where
  | dotted (parts : List Bytes) (values : List ℕ) (h : List.Forall₂ CNumber parts values) (hne : parts ≠ [])
      (hlength : parts.length ≤ 4) (hfits : Fits values) (rest : Bytes) (hrest : ∀ c ∈ rest, isSpace c = true) :
      IPv4Literal ([DOT].intercalate parts ++ rest) (ip4Bytes values)

/-- The front of a mapped address. -/
def MAPPED : Bytes := [0, 0, 0, 0, 0, 0, 0, 0, 0, 0, 0xff, 0xff]

/-- Only literals are read: the text is one and the address is what it denotes, or the address is the invalid one. -/
def OnlyLiterals (s : Bytes) : Prop :=
  parse s ≠ invalid →
    (∃ bytes, IPv6Literal (cstr s) bytes ∧ (parse s).data.bytes = bytes) ∨
      ∃ bytes, IPv4Literal (cstr s) bytes ∧ (parse s).data.bytes = MAPPED ++ bytes

/-! ## The shapes that the scanners take for literals -/

/-- Parts with dots between them, up to the end or to white space, that are read to their ends. -/
structure DottedText (s : Bytes) (parts : List Bytes) (rest : Bytes) : Prop where
  text : s = [DOT].intercalate parts ++ rest
  ne : parts ≠ []
  plain : ∀ p ∈ parts, PlainPart p
  reads : ∀ p ∈ parts, ReadsPart p
  count : parts.length ≤ 4
  ends : rest = [] ∨ isSpace (peek rest) = true

/-- Groups with colons between them, up to the first other character. -/
structure ColonText (s : Bytes) (groups : List Bytes) (rest : Bytes) : Prop where
  text : s = [COLON].intercalate groups ++ rest
  ne : groups ≠ []
  hex : ∀ g ∈ groups, HexGroup g
  stops : Stops rest

/-- The blocks fill the words of the invalid address. -/
def SpellsInvalid (values : List UInt32) : Prop := (stored values).flatMap htonl = invalid.data.bytes

/-- A side of a "::" as it is written: nothing, or groups of a literal. -/
def WrittenSide (written : List Bytes) : Prop := written = [[]] ∨ ∀ g ∈ written, 1 ≤ g.length ∧ g.length ≤ 4

/-- The groups of a side that are written out. -/
def sideGroups (written : List Bytes) : List Bytes := written.filter (· ≠ [])

/-- What has the shape of a literal is spelled like one. -/
structure WellSpelled (s : Bytes) : Prop where
  dotted : ∀ parts rest, DottedText s parts rest → Fits (parts.map wrapped) →
    (∀ p ∈ parts, ∃ v, CNumber p v ∧ v < 2 ^ 32) ∧ ∀ c ∈ rest, isSpace c = true
  full : ∀ groups rest, ColonText s groups rest → NoDouble groups → groups.length = 8 →
    SpellsInvalid (groups.map blockOf) ∨ rest = [] ∧ ∀ g ∈ groups, 1 ≤ g.length ∧ g.length ≤ 4
  short : ∀ groups rest front back, ColonText s groups rest → Shortened groups front back →
    SpellsInvalid (shortValues front back) ∨ rest = [] ∧ WrittenSide front ∧ WrittenSide back ∧
      (sideGroups front).length + (sideGroups back).length ≤ 7

/-! ## Dotted texts -/

theorem CNumber.reads {p : Bytes} {v : ℕ} (h : CNumber p v) : PlainPart p ∧ ReadsPart p ∧ partValue p = v := by
  have hx : ∀ c, isXDigit c = true → c ≠ DOT ∧ isSpace c = false ∧ c ≠ 0 := forall_byte (by decide +kernel)
  have hd : ∀ c, isDigit c = true → isXDigit c = true := fun c => isXDigit_of_isDigit
  cases h with
  | decimal digits hne hfirst h =>
    obtain ⟨c, digits, rfl⟩ := List.exists_cons_of_ne_nil hne
    have hc : ¬ peek (c :: digits) = 0x30 := fun he => hfirst (congrArg some he)
    have hradix : radix (c :: digits) = (10, c :: digits) := if_neg hc
    refine ⟨fun d hm => hx d (hd d (h d hm)), ⟨h c (List.mem_cons_self ..), ?_⟩, ?_⟩
    · rw [hradix]
      exact fun d hm => Or.inl (h d hm)
    · rw [partValue, hradix]
  | octal digits h =>
    have hoctal : ∀ c : UInt8, 0x30 ≤ c ∧ c ≤ 0x37 → isDigit c = true ∧ c ≠ 0x78 ∧ c ≠ 0x58 :=
      forall_byte (by decide +kernel)
    have hmark : ¬ (peek digits = 0x78 ∨ peek digits = 0x58) := by
      cases digits with
      | nil => decide
      | cons c digits => exact not_or.mpr (hoctal c (h c (List.mem_cons_self ..))).2
    have hradix : radix (0x30 :: digits) = (8, digits) := (if_pos rfl).trans (if_neg hmark)
    refine ⟨List.forall_mem_cons.mpr ⟨by decide, fun d hm => hx d (hd d (hoctal d (h d hm)).1)⟩, ⟨by rfl, ?_⟩, ?_⟩
    · rw [hradix]
      exact fun d hm => Or.inl (hoctal d (h d hm)).1
    · rw [partValue, hradix]
  | hex mark hmark digits hne h =>
    have hradix : radix (0x30 :: mark :: digits) = (16, digits) := (if_pos rfl).trans (if_pos hmark)
    have hplain : mark ≠ DOT ∧ isSpace mark = false ∧ mark ≠ 0 := by
      obtain rfl | rfl := hmark
      · decide
      · decide
    refine ⟨List.forall_mem_cons.mpr ⟨by decide, List.forall_mem_cons.mpr ⟨hplain, fun d hm => hx d (h d hm)⟩⟩,
      ⟨by rfl, ?_⟩, ?_⟩
    · rw [hradix]
      exact fun d hm => Or.inr ⟨rfl, h d hm⟩
    · rw [partValue, hradix]

/-- White space is what ends the parts. -/
def notSpace (c : UInt8) : Bool := !isSpace c

theorem DottedText.pieces {s : Bytes} {parts : List Bytes} {rest : Bytes} (h : DottedText s parts rest) :
    Pieces DOT notSpace parts rest := by
  refine ⟨h.ne, fun p hp c hc => ?_, fun c hc => ?_⟩
  · obtain ⟨hdot, hspace, -⟩ := h.plain p hp c hc
    exact ⟨hdot, by rw [notSpace, hspace]; rfl⟩
  · obtain rfl | hspace := h.ends
    · cases hc
    · have hpeek : peek rest = c := by
        cases rest with
        | nil => cases hc
        | cons d rest => exact Option.some.inj hc
      rw [notSpace, ← hpeek, hspace]
      rfl

theorem DottedText.unique {s : Bytes} {parts parts' : List Bytes} {rest rest' : Bytes} (h : DottedText s parts rest)
    (h' : DottedText s parts' rest') : parts = parts' ∧ rest = rest' :=
  h.pieces.unique rfl h'.pieces (h.text.symm.trans h'.text)

/-- **The IPv4 scanner takes a text** if and only if it has parts, and what is kept of their values fits. -/
theorem ip4_eq_some_iff {s : Bytes} (h : (0 : UInt8) ∉ s) (bytes : Bytes) :
    husarnet_ip4addr_aton s = some bytes ↔
      ∃ parts rest, DottedText s parts rest ∧ Fits (parts.map wrapped) ∧ bytes = ip4Bytes (parts.map wrapped) := by
  obtain ⟨parts, rest, rfl, hp⟩ := exists_pieces DOT notSpace s
  have hplain : ∀ p ∈ parts, PlainPart p := by
    intro p hm c hc
    obtain ⟨hdot, hspace⟩ := hp.piece p hm c hc
    refine ⟨hdot, by simpa [notSpace] using hspace, ?_⟩
    rintro rfl
    exact h (List.mem_append_left _ (mem_intercalate_of_mem hm hc))
  have hends : rest = [] ∨ isSpace (peek rest) = true := by
    cases rest with
    | nil => exact Or.inl rfl
    | cons c rest =>
      have hspace : isSpace c = true := by simpa [notSpace] using hp.stops c rfl
      exact Or.inr hspace
  rw [husarnet_ip4addr_aton_join hp.ne hplain hends, Option.ite_none_right_eq_some]
  constructor
  · rintro ⟨⟨⟨hreads, hcount⟩, hfits⟩, he⟩
    exact ⟨parts, rest, ⟨rfl, hp.ne, hplain, hreads, hcount, hends⟩, hfits, (Option.some.inj he).symm⟩
  · rintro ⟨parts', rest', hd, hfits, rfl⟩
    obtain ⟨rfl, rfl⟩ := hp.unique rfl hd.pieces hd.text
    exact ⟨⟨⟨hd.reads, hd.count⟩, hfits⟩, rfl⟩

/-! ## Texts with colons -/

/-- A hex digit or a colon. -/
def hexOrColon (c : UInt8) : Bool := isXDigit c || c == COLON

theorem ColonText.pieces {s : Bytes} {groups : List Bytes} {rest : Bytes} (h : ColonText s groups rest) :
    Pieces COLON hexOrColon groups rest := by
  refine ⟨h.ne, fun g hg c hc => ?_, fun c hc => ?_⟩
  · have hx : isXDigit c = true := h.hex g hg c hc
    exact ⟨colon_not_xdigit hx, by simp [hexOrColon, hx]⟩
  · obtain ⟨hx, hcolon⟩ := h.stops c hc
    simp [hexOrColon, hx, hcolon]

theorem ColonText.unique {s : Bytes} {groups groups' : List Bytes} {rest rest' : Bytes} (h : ColonText s groups rest)
    (h' : ColonText s groups' rest') : groups = groups' ∧ rest = rest' :=
  h.pieces.unique rfl h'.pieces (h.text.symm.trans h'.text)

theorem exists_colonText (s : Bytes) : ∃ groups rest, ColonText s groups rest := by
  obtain ⟨groups, rest, hs, hp⟩ := exists_pieces COLON hexOrColon s
  refine ⟨groups, rest, hs, hp.ne, fun g hg c hc => ?_, fun c hc => ?_⟩
  · obtain ⟨hcolon, hx⟩ := hp.piece g hg c hc
    simpa [hexOrColon, hcolon] using hx
  · have hstop := hp.stops c hc
    simpa [hexOrColon] using hstop

/-- The blocks of a text, where the scanner takes it. -/
inductive Accepts (groups : List Bytes) : List UInt32 → Prop where
  | full (h : NoDouble groups) (hlength : groups.length = 8) : Accepts groups (groups.map blockOf)
  | short (front back : List Bytes) (h : Shortened groups front back) : Accepts groups (shortValues front back)

/-- **The IPv6 scanner takes a text** if and only if its groups are accepted. -/
theorem ip6_eq_some_iff {s : Bytes} {groups : List Bytes} {rest : Bytes} (h : ColonText s groups rest) (bytes : Bytes) :
    husarnet_ip6addr_aton s = some bytes ↔ ∃ values, Accepts groups values ∧ bytes = (stored values).flatMap htonl := by
  rw [h.text, husarnet_ip6addr_aton_join h.ne h.hex h.stops, Option.map_eq_some_iff]
  refine exists_congr fun values => ?_
  rw [scanBlocks_iff h.ne]
  constructor
  · rintro ⟨⟨⟨hplain, hlength⟩, rfl⟩ | ⟨front, back, hs, rfl⟩, rfl⟩
    · exact ⟨.full hplain hlength, rfl⟩
    · exact ⟨.short front back hs, rfl⟩
  · rintro ⟨hvalues, rfl⟩
    cases hvalues with
    | full hplain hlength => exact ⟨Or.inl ⟨⟨hplain, hlength⟩, rfl⟩, rfl⟩
    | short front back hs => exact ⟨Or.inr ⟨front, back, hs, rfl⟩, rfl⟩

/-! ## What the accepted blocks stand for -/

theorem storedFrom_length (index : ℕ) (addr values : List UInt32) :
    (storedFrom index addr values).length = addr.length := by
  induction values generalizing index addr with
  | nil => rfl
  | cons value values ih =>
    rw [storedFrom, ih, storeBlock]
    split
    · rw [List.length_modify]
    · rw [List.length_set]

theorem address_length (values : List UInt32) : ((stored values).flatMap htonl).length = 16 := by
  have hword : (fun w => (htonl w).length) = fun _ => 4 := by
    funext w
    rw [htonl, List.length_reverse, leBytes_length]
  rw [List.length_flatMap, hword, List.map_const', stored, storedFrom_length]
  rfl

theorem number_lt_block {group : Bytes} (hlength : group.length ≤ 4) : number 16 group < 2 ^ 16 := by
  have hlt : number 16 group < 16 ^ group.length := number_lt fun c _ => digitValue_lt c
  calc number 16 group < 16 ^ group.length := hlt
    _ ≤ 16 ^ 4 := Nat.pow_le_pow_right (by omega) hlength

/-- Short groups are the bytes they denote. -/
theorem full_bytes {groups : List Bytes} (h : ∀ g ∈ groups, g.length ≤ 4) (hlength : groups.length = 8) : (stored (groups.map blockOf)).flatMap htonl = groupBytes groups := by
  have hvalues : groups.map blockOf = (groups.map (number 16)).map UInt32.ofNat := by
    rw [List.map_map]
    rfl
  have hsmall : ∀ v ∈ groups.map (number 16), v < 2 ^ 16 :=
    List.forall_mem_map.mpr fun g hg => number_lt_block (h g hg)
  rw [hvalues, stored_bytes (by simpa using hlength) hsmall, groupBytes, List.flatMap_map]

/-- Zero blocks are empty groups. -/
theorem shortValues_eq (front back : List Bytes) :
    shortValues front back = (front ++ List.replicate (8 - (front.length + back.length)) [] ++ back).map blockOf := by
  have hzero : blockOf [] = 0 := rfl
  rw [shortValues, List.map_append, List.map_append, List.map_replicate, hzero]

theorem groupBytes_append (groups groups' : List Bytes) :
    groupBytes (groups ++ groups') = groupBytes groups ++ groupBytes groups' := List.flatMap_append

theorem groupBytes_empty (n : ℕ) : groupBytes (List.replicate n []) = List.replicate (2 * n) 0 := by
  induction n with
  | zero => rfl
  | succ n ih =>
    have hzero : groupBytes [[]] = [0, 0] := by decide
    rw [List.replicate_succ, ← List.singleton_append, groupBytes_append, ih, hzero, Nat.mul_succ, Nat.add_comm,
      List.replicate_add]
    rfl

/-- A side is written out, or stands for nothing. -/
theorem WrittenSide.cases {written : List Bytes} (h : WrittenSide written) :
    written = [[]] ∧ sideGroups written = [] ∨
      sideGroups written = written ∧ ∀ g ∈ written, 1 ≤ g.length ∧ g.length ≤ 4 := by
  obtain rfl | h := h
  · exact Or.inl ⟨rfl, rfl⟩
  · refine Or.inr ⟨List.filter_eq_self.mpr fun g hg => ?_, h⟩
    exact decide_eq_true (List.ne_nil_of_length_pos (h g hg).1)

theorem WrittenSide.join {written : List Bytes} (h : WrittenSide written) :
    [COLON].intercalate (sideGroups written) = [COLON].intercalate written := by
  obtain ⟨rfl, hside⟩ | ⟨hside, -⟩ := h.cases
  · rw [hside]
    rfl
  · rw [hside]

theorem WrittenSide.literal {written : List Bytes} (h : WrittenSide written) (hx : ∀ g ∈ written, HexGroup g) :
    ∀ g ∈ sideGroups written, LiteralGroup g := by
  obtain ⟨rfl, hside⟩ | ⟨hside, hlength⟩ := h.cases
  · rw [hside]
    exact List.forall_mem_nil _
  · rw [hside]
    exact fun g hg => ⟨hx g hg, hlength g hg⟩

theorem WrittenSide.length_le {written : List Bytes} (h : WrittenSide written) : ∀ g ∈ written, g.length ≤ 4 := by
  obtain ⟨rfl, -⟩ | ⟨-, hlength⟩ := h.cases
  · simp
  · exact fun g hg => (hlength g hg).2

theorem sideGroups_length_le (written : List Bytes) : (sideGroups written).length ≤ written.length :=
  List.length_filter_le _ _

theorem WrittenSide.front_bytes {written : List Bytes} (h : WrittenSide written) :
    groupBytes written =
      groupBytes (sideGroups written) ++ List.replicate (2 * (written.length - (sideGroups written).length)) 0 := by
  obtain ⟨rfl, hside⟩ | ⟨hside, -⟩ := h.cases
  · rw [hside]
    decide
  · simp [hside]

theorem WrittenSide.back_bytes {written : List Bytes} (h : WrittenSide written) :
    groupBytes written =
      List.replicate (2 * (written.length - (sideGroups written).length)) 0 ++ groupBytes (sideGroups written) := by
  obtain ⟨rfl, hside⟩ | ⟨hside, -⟩ := h.cases
  · rw [hside]
    decide
  · simp [hside]

/-- The bytes of the blocks around a "::" are those that it denotes. -/
theorem short_bytes {front back : List Bytes} (hf : WrittenSide front) (hb : WrittenSide back)
    (hroom : front.length + back.length ≤ 8) :
    (stored (shortValues front back)).flatMap htonl =
      groupBytes (sideGroups front) ++
        List.replicate (2 * (8 - ((sideGroups front).length + (sideGroups back).length))) 0 ++
        groupBytes (sideGroups back) := by
  have hfl := sideGroups_length_le front
  have hbl := sideGroups_length_le back
  have hshort : ∀ g ∈ front ++ List.replicate (8 - (front.length + back.length)) [] ++ back, g.length ≤ 4 := by
    intro g hg
    obtain hg | hg := List.mem_append.mp hg
    · obtain hg | hg := List.mem_append.mp hg
      · exact hf.length_le g hg
      · rw [List.eq_of_mem_replicate hg]
        exact Nat.zero_le 4
    · exact hb.length_le g hg
  have height : (front ++ List.replicate (8 - (front.length + back.length)) [] ++ back).length = 8 := by
    rw [List.length_append, List.length_append, List.length_replicate]
    omega
  have hzeros : 2 * (8 - ((sideGroups front).length + (sideGroups back).length)) =
      2 * (front.length - (sideGroups front).length) + 2 * (8 - (front.length + back.length)) +
        2 * (back.length - (sideGroups back).length) := by omega
  rw [shortValues_eq, full_bytes hshort height, groupBytes_append, groupBytes_append, groupBytes_empty, hf.front_bytes,
    hb.back_bytes, hzeros, List.replicate_add, List.replicate_add]
  simp only [List.append_assoc]

/-! ## The parser -/

theorem cstr_no_nul (s : Bytes) : (0 : UInt8) ∉ cstr s := by
  intro h
  have hzero := List.mem_takeWhile_imp h
  simp at hzero

theorem ip4Bytes_length {values : List ℕ} (hne : values ≠ []) (hlength : values.length ≤ 4) :
    (ip4Bytes values).length = 4 := by
  have hpos := List.length_pos_of_ne_nil hne
  rw [ip4Bytes, List.length_append, List.length_map, List.length_dropLast, List.length_reverse, leBytes_length]
  omega

theorem parse_dotted {s bytes : Bytes} (h : husarnet_ip4addr_aton (cstr s) = some bytes) (hlength : bytes.length = 4) :
    (parse s).data.bytes = MAPPED ++ bytes := by
  simp only [parse, h, hlength, dite_true]
  rfl

theorem parse_groups {s bytes : Bytes} (h4 : husarnet_ip4addr_aton (cstr s) = none)
    (h6 : husarnet_ip6addr_aton (cstr s) = some bytes) (hlength : bytes.length = 16) : (parse s).data.bytes = bytes := by
  simp only [parse, h4, h6, hlength, dite_true]

theorem parse_neither {s : Bytes} (h4 : husarnet_ip4addr_aton (cstr s) = none)
    (h6 : husarnet_ip6addr_aton (cstr s) = none) : parse s = invalid := by
  simp only [parse, h4, h6]

/-- The groups of a side, as they are written. -/
def written (groups : List Bytes) : List Bytes := if groups = [] then [[]] else groups

theorem written_cases (groups : List Bytes) :
    groups = [] ∧ written groups = [[]] ∨ groups ≠ [] ∧ written groups = groups := by
  by_cases h : groups = []
  · exact Or.inl ⟨h, if_pos h⟩
  · exact Or.inr ⟨h, if_neg h⟩

section Written
variable {groups : List Bytes}

theorem written_ne (groups : List Bytes) : written groups ≠ [] := by
  obtain ⟨-, hw⟩ | ⟨hne, hw⟩ := written_cases groups
  · simp [hw]
  · rwa [hw]

theorem join_written (groups : List Bytes) : [COLON].intercalate (written groups) = [COLON].intercalate groups := by
  obtain ⟨rfl, hw⟩ | ⟨-, hw⟩ := written_cases groups
  · rw [hw]
    rfl
  · rw [hw]

theorem written_side (h : ∀ g ∈ groups, LiteralGroup g) : WrittenSide (written groups) := by
  obtain ⟨-, hw⟩ | ⟨-, hw⟩ := written_cases groups
  · exact Or.inl hw
  · rw [hw]
    exact Or.inr fun g hg => (h g hg).2

theorem sideGroups_written (h : ∀ g ∈ groups, LiteralGroup g) : sideGroups (written groups) = groups := by
  obtain ⟨rfl, hw⟩ | ⟨-, hw⟩ := written_cases groups
  · rw [hw]
    rfl
  · rw [hw]
    refine List.filter_eq_self.mpr fun g hg => ?_
    exact decide_eq_true (List.ne_nil_of_length_pos (h g hg).2.1)

theorem written_hex (h : ∀ g ∈ groups, LiteralGroup g) : ∀ g ∈ written groups, HexGroup g := by
  obtain ⟨-, hw⟩ | ⟨-, hw⟩ := written_cases groups
  · simp [hw, HexGroup]
  · rw [hw]
    exact fun g hg => (h g hg).1

/-- Only what stands for nothing is empty. -/
theorem written_full (h : ∀ g ∈ groups, LiteralGroup g) {g : Bytes}
    (hg : g ∈ (written groups).tail ∨ g ∈ (written groups).dropLast) : g ≠ [] := by
  obtain ⟨-, hw⟩ | ⟨-, hw⟩ := written_cases groups
  · simp [hw] at hg
  · rw [hw] at hg
    have hmem : g ∈ groups := hg.elim List.mem_of_mem_tail fun hd => List.dropLast_subset _ hd
    exact List.ne_nil_of_length_pos (h g hmem).2.1

end Written

/-- What every IPv6 literal is as a text with colons. -/
theorem IPv6Literal.colonText {s bytes : Bytes} (h : IPv6Literal s bytes) :
    ∃ groups, ColonText s groups [] ∧
      ((NoDouble groups ∧ groups.length = 8 ∧ ∀ g ∈ groups, 1 ≤ g.length ∧ g.length ≤ 4) ∨
        ∃ front back, Shortened groups front back ∧ WrittenSide front ∧ WrittenSide back ∧
          (sideGroups front).length + (sideGroups back).length ≤ 7) := by
  have hstop : Stops [] := fun c hc => by cases hc
  cases h with
  | full groups h hlength =>
    have hne : groups ≠ [] := List.ne_nil_of_length_pos (by omega)
    refine ⟨groups, ⟨(List.append_nil _).symm, hne, fun g hg => (h g hg).1, hstop⟩, Or.inl ⟨?_, hlength, ?_⟩⟩
    · intro g hg
      have hmem : g ∈ groups := List.mem_of_mem_tail (List.dropLast_subset _ hg)
      exact List.ne_nil_of_length_pos (h g hmem).2.1
    · exact fun g hg => (h g hg).2
  | short front back hf hb hlength =>
    have hroom (groups : List Bytes) : (written groups).length ≤ groups.length + 1 ∧
        (groups ≠ [] → (written groups).length = groups.length) := by
      obtain ⟨rfl, hw⟩ | ⟨-, hw⟩ := written_cases groups
      · simp [hw]
      · simp [hw]
    refine ⟨written front ++ [] :: written back, ⟨?_, by simp, ?_, hstop⟩, Or.inr ⟨written front, written back, ?_,
      written_side hf, written_side hb, ?_⟩⟩
    · obtain ⟨next, rest, hback⟩ := List.exists_cons_of_ne_nil (written_ne back)
      rw [List.append_nil, intercalate_append (written_ne front) (List.cons_ne_nil _ _), join_written, hback,
        List.intercalate_cons_cons, ← hback, join_written]
      simp
    · refine List.forall_mem_append.mpr ⟨written_hex hf, List.forall_mem_cons.mpr ⟨?_, written_hex hb⟩⟩
      exact List.forall_mem_nil _
    · refine ⟨rfl, written_ne front, written_ne back, fun g hg => written_full hf (Or.inl hg),
        fun g hg => written_full hb (Or.inr hg), ?_⟩
      obtain ⟨hfl, hfe⟩ := hroom front
      obtain ⟨hbl, hbe⟩ := hroom back
      by_cases hfront : front = []
      · have hzero : front.length = 0 := List.length_eq_zero_iff.mpr hfront
        by_cases hback : back = []
        · have hzero' : back.length = 0 := List.length_eq_zero_iff.mpr hback
          omega
        · have hb' := hbe hback
          omega
      · have hf' := hfe hfront
        omega
    · rw [sideGroups_written hf, sideGroups_written hb]
      exact hlength

/-- A text with parts has no colon in front of its white space. -/
theorem DottedText.one_group {s : Bytes} {parts groups : List Bytes} {rest rest' : Bytes} (h : DottedText s parts rest)
    (h' : ColonText s groups rest') : groups.length = 1 := by
  obtain ⟨group, groups, rfl⟩ := List.exists_cons_of_ne_nil h'.ne
  cases groups with
  | nil => rfl
  | cons next groups =>
    have hx : ∀ c, isXDigit c = true → notSpace c = true := forall_byte (by decide +kernel)
    have hgroup : ∀ c ∈ group, notSpace c = true := fun c hc => hx c (h'.hex group (by simp) c hc)
    have hjoined : s.takeWhile notSpace = [DOT].intercalate parts := by
      rw [h.text]
      refine takeWhile_append_stop (fun c hc => ?_) h.pieces.stops
      obtain rfl | ⟨p, hp, hc⟩ := mem_intercalate hc
      · rfl
      · exact (h.pieces.piece p hp c hc).2
    have hcolon : COLON ∈ [DOT].intercalate parts := by
      rw [← hjoined, h'.text, join_cons, List.takeWhile_append_of_pos hgroup, List.takeWhile_cons_of_pos rfl]
      simp
    obtain hdot | ⟨p, hp, hc⟩ := mem_intercalate hcolon
    · exact absurd hdot (by decide)
    · exact absurd hc (h.reads p hp).no_colon

theorem Ip6Scan.Shortened.three {groups front back : List Bytes} (h : Shortened groups front back) : 3 ≤ groups.length := by
  have hf := List.length_pos_of_ne_nil h.front_ne
  have hb := List.length_pos_of_ne_nil h.back_ne
  rw [h.split, List.length_append, List.length_cons]
  omega

theorem IPv6Literal.not_dotted {s bytes : Bytes} (h : IPv6Literal s bytes) {parts : List Bytes} {rest : Bytes}
    (hd : DottedText s parts rest) : False := by
  obtain ⟨groups, hc, ⟨-, hlength, -⟩ | ⟨front, back, hs, -⟩⟩ := h.colonText
  · have hone := hd.one_group hc
    omega
  · have hone := hd.one_group hc
    have hthree := hs.three
    omega

theorem Fits.small {values : List ℕ} (h : Fits values) : ∀ v ∈ values, v < 2 ^ 32 := by
  intro v hv
  have hne : values ≠ [] := List.ne_nil_of_mem hv
  rw [← List.dropLast_append_getLast hne, List.mem_append, List.mem_singleton] at hv
  obtain hv | rfl := hv
  · have hbyte := h.1 v hv
    omega
  · have hlast := h.2
    rw [List.getLastD_eq_getLast?, List.getLast?_eq_some_getLast hne, Option.getD_some] at hlast
    have hpos := List.length_pos_of_ne_nil hne
    calc values.getLast hne < 256 ^ (5 - values.length) := hlast
      _ ≤ 256 ^ 4 := Nat.pow_le_pow_right (by omega) (by omega)

theorem values_of_numbers {parts : List Bytes} {values : List ℕ} (h : List.Forall₂ CNumber parts values) :
    values = parts.map partValue ∧ ∀ p ∈ parts, CNumber p (partValue p) := by
  induction h with
  | nil => exact ⟨rfl, List.forall_mem_nil _⟩
  | cons hp _ ih =>
    have hvalue := hp.reads.2.2
    subst hvalue
    exact ⟨congrArg (_ :: ·) ih.1, List.forall_mem_cons.mpr ⟨hp, ih.2⟩⟩

/-- What every IPv4 literal is as a text with parts. -/
theorem IPv4Literal.dottedText {s bytes : Bytes} (h : IPv4Literal s bytes) :
    ∃ parts rest, DottedText s parts rest ∧ Fits (parts.map wrapped) ∧
      (∀ p ∈ parts, ∃ v, CNumber p v ∧ v < 2 ^ 32) ∧ ∀ c ∈ rest, isSpace c = true := by
  obtain ⟨parts, values, h, hne, hlength, hfits, rest, hrest⟩ := h
  obtain ⟨rfl, hnumbers⟩ := values_of_numbers h
  have hsmall : ∀ p ∈ parts, partValue p < 2 ^ 32 := fun p hp => hfits.small _ (List.mem_map_of_mem hp)
  have hwrapped : parts.map wrapped = parts.map partValue :=
    List.map_congr_left fun p hp => Nat.mod_eq_of_lt (hsmall p hp)
  have hends : rest = [] ∨ isSpace (peek rest) = true := by
    cases rest with
    | nil => exact Or.inl rfl
    | cons c rest => exact Or.inr (hrest c (by simp))
  refine ⟨parts, rest, ⟨rfl, hne, fun p hp => (hnumbers p hp).reads.1, fun p hp => (hnumbers p hp).reads.2.1, hlength,
    hends⟩, hwrapped ▸ hfits, fun p hp => ⟨_, hnumbers p hp, hsmall p hp⟩, hrest⟩

/-- A text with parts is read as a literal if and only if it is one. -/
theorem onlyLiterals_dotted {s : Bytes} {parts : List Bytes} {rest : Bytes} (h : DottedText (cstr s) parts rest)
    (hfits : Fits (parts.map wrapped)) :
    OnlyLiterals s ↔ (∀ p ∈ parts, ∃ v, CNumber p v ∧ v < 2 ^ 32) ∧ ∀ c ∈ rest, isSpace c = true := by
  have haton := (ip4_eq_some_iff (cstr_no_nul s) _).mpr ⟨parts, rest, h, hfits, rfl⟩
  have hbytes := parse_dotted haton (ip4Bytes_length (by simpa using h.ne) (by simpa using h.count))
  have hvalid : parse s ≠ invalid := by
    intro he
    rw [he] at hbytes
    cases hbytes
  constructor
  · intro hl
    obtain ⟨bytes, h6, -⟩ | ⟨bytes, h4, -⟩ := hl hvalid
    · exact (h6.not_dotted h).elim
    · obtain ⟨parts', rest', h', -, hnumbers, hrest⟩ := h4.dottedText
      obtain ⟨rfl, rfl⟩ := h.unique h'
      exact ⟨hnumbers, hrest⟩
  · rintro ⟨hnumbers, hrest⟩ -
    have hvalues : List.Forall₂ CNumber parts (parts.map wrapped) := by
      rw [List.forall₂_map_right_iff, List.forall₂_same]
      intro p hp
      obtain ⟨v, hv, hsmall⟩ := hnumbers p hp
      have hw : wrapped p = v := by rw [wrapped, hv.reads.2.2, Nat.mod_eq_of_lt hsmall]
      rwa [hw]
    have hliteral := IPv4Literal.dotted parts _ hvalues h.ne h.count hfits rest hrest
    rw [← h.text] at hliteral
    exact Or.inr ⟨_, hliteral, hbytes⟩

/-- A text with groups that are accepted is read as a literal if and only if it is one, or spells the invalid address. -/
theorem onlyLiterals_colons {s : Bytes} (h4 : husarnet_ip4addr_aton (cstr s) = none) {values : List UInt32}
    (h6 : husarnet_ip6addr_aton (cstr s) = some ((stored values).flatMap htonl)) :
    OnlyLiterals s ↔ SpellsInvalid values ∨ IPv6Literal (cstr s) ((stored values).flatMap htonl) := by
  have hbytes := parse_groups h4 h6 (address_length values)
  constructor
  · intro hl
    by_cases hs : SpellsInvalid values
    · exact Or.inl hs
    · have hvalid : parse s ≠ invalid := by
        intro he
        rw [he] at hbytes
        exact hs hbytes.symm
      obtain ⟨bytes, hliteral, he⟩ | ⟨bytes, hliteral, -⟩ := hl hvalid
      · rw [hbytes] at he
        rw [he]
        exact Or.inr hliteral
      · obtain ⟨parts, rest, hd, hfits, -⟩ := hliteral.dottedText
        have haton := (ip4_eq_some_iff (cstr_no_nul s) _).mpr ⟨parts, rest, hd, hfits, rfl⟩
        rw [h4] at haton
        cases haton
  · rintro (hs | hliteral) hvalid
    · exact absurd (ext_bytes (hbytes.trans hs)) hvalid
    · exact Or.inl ⟨_, hliteral, hbytes⟩

/-- Eight groups are a literal if and only if nothing follows them and each has one to four digits. -/
theorem full_literal_iff {s : Bytes} {groups : List Bytes} {rest : Bytes} (h : ColonText s groups rest)
    (hplain : NoDouble groups) (hlength : groups.length = 8) :
    IPv6Literal s ((stored (groups.map blockOf)).flatMap htonl) ↔
      rest = [] ∧ ∀ g ∈ groups, 1 ≤ g.length ∧ g.length ≤ 4 := by
  constructor
  · intro hl
    obtain ⟨groups', h', ⟨-, -, hshort⟩ | ⟨front, back, hs, -⟩⟩ := hl.colonText
    · obtain ⟨rfl, rfl⟩ := h.unique h'
      exact ⟨rfl, hshort⟩
    · obtain ⟨rfl, -⟩ := h.unique h'
      exact absurd hplain hs.double
  · rintro ⟨rfl, hshort⟩
    rw [full_bytes (fun g hg => (hshort g hg).2) hlength, h.text, List.append_nil]
    exact .full groups (fun g hg => ⟨h.hex g hg, hshort g hg⟩) hlength

/-- Groups around a "::" are a literal if and only if nothing follows them, no other group is empty and the "::"
stands for a group. -/
theorem short_literal_iff {s : Bytes} {groups front back : List Bytes} {rest : Bytes} (h : ColonText s groups rest)
    (hs : Shortened groups front back) :
    IPv6Literal s ((stored (shortValues front back)).flatMap htonl) ↔
      rest = [] ∧ WrittenSide front ∧ WrittenSide back ∧ (sideGroups front).length + (sideGroups back).length ≤ 7 := by
  have hsplit := hs.split
  subst hsplit
  constructor
  · intro hl
    obtain ⟨groups', h', ⟨hplain, -⟩ | ⟨front', back', hs', hsides⟩⟩ := hl.colonText
    · obtain ⟨rfl, -⟩ := h.unique h'
      exact absurd hplain hs.double
    · obtain ⟨rfl, rfl⟩ := h.unique h'
      obtain ⟨rfl, rfl⟩ := hs'.split_unique hs.front_ne hs.front_full
      exact ⟨rfl, hsides⟩
  · rintro ⟨rfl, hf, hb, hcount⟩
    have hx := h.hex
    rw [List.forall_mem_append, List.forall_mem_cons] at hx
    have htext : s = [COLON].intercalate (sideGroups front) ++ [COLON, COLON] ++ [COLON].intercalate (sideGroups back) := by
      obtain ⟨next, groups, hback⟩ := List.exists_cons_of_ne_nil hs.back_ne
      rw [h.text, List.append_nil, intercalate_append hs.front_ne (List.cons_ne_nil _ _), hf.join, hb.join, hback,
        List.intercalate_cons_cons]
      simp
    rw [short_bytes hf hb hs.room, htext]
    exact .short _ _ (hf.literal hx.1) (hb.literal hx.2.2) hcount

/-- **Address literals.** A text is read only if it is a literal, as the address that it denotes, if and only if what
has the shape of a literal in it is spelled like one. -/
theorem parse_literals_iff (s : Bytes) : OnlyLiterals s ↔ WellSpelled (cstr s) := by
  have hzero := cstr_no_nul s
  cases h4 : husarnet_ip4addr_aton (cstr s) with
  | some bytes =>
    obtain ⟨parts, rest, hd, hfits, -⟩ := (ip4_eq_some_iff hzero bytes).mp h4
    rw [onlyLiterals_dotted hd hfits]
    constructor
    · intro hnumbers
      refine ⟨fun parts' rest' hd' _ => ?_, fun groups rest' hc _ hlength => ?_, fun groups rest' front back hc hs => ?_⟩
      · obtain ⟨rfl, rfl⟩ := hd.unique hd'
        exact hnumbers
      · have hone := hd.one_group hc
        omega
      · have hone := hd.one_group hc
        have hthree := hs.three
        omega
    · exact fun hw => hw.dotted parts rest hd hfits
  | none =>
    obtain ⟨groups, rest, hc⟩ := exists_colonText (cstr s)
    have hnone {parts : List Bytes} {rest : Bytes} (hd : DottedText (cstr s) parts rest)
        (hfits : Fits (parts.map wrapped)) : False := by
      have haton := (ip4_eq_some_iff hzero _).mpr ⟨parts, rest, hd, hfits, rfl⟩
      rw [h4] at haton
      cases haton
    have haccepted {values : List UInt32} (ha : Accepts groups values) :
        husarnet_ip6addr_aton (cstr s) = some ((stored values).flatMap htonl) := (ip6_eq_some_iff hc _).mpr ⟨values, ha, rfl⟩
    cases h6 : husarnet_ip6addr_aton (cstr s) with
    | none =>
      have hl : OnlyLiterals s := fun hvalid => absurd (parse_neither h4 h6) hvalid
      have hrefused {values : List UInt32} (ha : Accepts groups values) : False := by
        have haton := haccepted ha
        rw [h6] at haton
        cases haton
      refine iff_of_true hl ⟨fun parts rest hd hfits => (hnone hd hfits).elim, fun groups' rest' hc' hplain hlength => ?_,
        fun groups' rest' front back hc' hs => ?_⟩
      · obtain ⟨rfl, rfl⟩ := hc.unique hc'
        exact (hrefused (.full hplain hlength)).elim
      · obtain ⟨rfl, rfl⟩ := hc.unique hc'
        exact (hrefused (.short front back hs)).elim
    | some bytes =>
      obtain ⟨values, ha, -⟩ := (ip6_eq_some_iff hc bytes).mp h6
      rw [onlyLiterals_colons h4 (haccepted ha)]
      cases ha with
      | full hplain hlength =>
        rw [full_literal_iff hc hplain hlength]
        constructor
        · intro hspelled
          refine ⟨fun parts rest hd hfits => (hnone hd hfits).elim, fun groups' rest' hc' _ _ => ?_,
            fun groups' rest' front back hc' hs => ?_⟩
          · obtain ⟨rfl, rfl⟩ := hc.unique hc'
            exact hspelled
          · obtain ⟨rfl, -⟩ := hc.unique hc'
            exact absurd hplain hs.double
        · exact fun hw => hw.full groups rest hc hplain hlength
      | short front back hs =>
        rw [short_literal_iff hc hs]
        constructor
        · intro hspelled
          refine ⟨fun parts rest hd hfits => (hnone hd hfits).elim, fun groups' rest' hc' hplain _ => ?_,
            fun groups' rest' front' back' hc' hs' => ?_⟩
          · obtain ⟨rfl, -⟩ := hc.unique hc'
            exact absurd hplain hs.double
          · obtain ⟨rfl, rfl⟩ := hc.unique hc'
            have hsplit := hs.split
            subst hsplit
            obtain ⟨rfl, rfl⟩ := hs'.split_unique hs.front_ne hs.front_full
            exact hspelled
        · exact fun hw => hw.short groups rest front back hc hs

/-- Of 4294967296 a word keeps 0. -/
theorem wrapped_number_accepted : ¬ OnlyLiterals (ascii "4294967296") := by
  have hcstr : cstr (ascii "4294967296") = ascii "4294967296" := by decide
  have hd : DottedText (cstr (ascii "4294967296")) [ascii "4294967296"] [] := by
    rw [hcstr]
    refine ⟨by decide, by simp, ?_, ?_, by simp, Or.inl rfl⟩
    · rw [List.forall_mem_singleton]
      unfold PlainPart
      decide +kernel
    · rw [List.forall_mem_singleton]
      decide +kernel
  have hfits : Fits ([ascii "4294967296"].map wrapped) := by decide
  rw [onlyLiterals_dotted hd hfits]
  rintro ⟨hnumber, -⟩
  obtain ⟨v, hv, hsmall⟩ := hnumber _ (List.mem_singleton_self _)
  have hvalue : partValue (ascii "4294967296") = 4294967296 := by decide
  rw [← hv.reads.2.2, hvalue] at hsmall
  omega

end IpAddress
end Husarnet
