import Husarnet.Lib.Bytes

/-! # The text of a JSON object

The texts that stand for an object whose members are strings, at the level of bytes. A text that is no longer than its
members require has neither blanks nor escapes in it, so that every string stands in it as it is.
-/

namespace JsonText
open Octets
set_option autoImplicit false

/-! ## Characters -/

/-- A code point that is a character. -/
def Scalar (code : ℕ) : Prop := code < 0xd800 ∨ (0xe000 ≤ code ∧ code < 0x110000)

def utf8 (code : ℕ) : Bytes :=
  if code < 0x80 then [UInt8.ofNat code]
  else if code < 0x800 then [UInt8.ofNat (0xc0 + code / 0x40), UInt8.ofNat (0x80 + code % 0x40)]
  else if code < 0x10000 then
    [UInt8.ofNat (0xe0 + code / 0x1000), UInt8.ofNat (0x80 + code / 0x40 % 0x40), UInt8.ofNat (0x80 + code % 0x40)]
  else
    [UInt8.ofNat (0xf0 + code / 0x40000), UInt8.ofNat (0x80 + code / 0x1000 % 0x40),
      UInt8.ofNat (0x80 + code / 0x40 % 0x40), UInt8.ofNat (0x80 + code % 0x40)]

/-- A character that stands for itself in a string: no control character, quotation mark or backslash. -/
def Unescaped (code : ℕ) : Prop := Scalar code ∧ 0x20 ≤ code ∧ code ≠ 0x22 ∧ code ≠ 0x5c

/-- A text in which every character stands for itself. -/
def PlainText (s : Bytes) : Prop := ∃ codes : List ℕ, (∀ code ∈ codes, Unescaped code) ∧ s = codes.flatMap utf8

theorem utf8_length_le (code : ℕ) : (utf8 code).length ≤ 4 := by
  unfold utf8
  split
  · simp
  · split
    · simp
    · split <;> simp

/-- A byte of a character is the character, or is not one of the first 128. -/
theorem mem_utf8 {code : ℕ} (h : Scalar code) : ∀ c ∈ utf8 code, c.toNat = code ∨ 0x80 ≤ c.toNat := by
  have htop : code < 0x110000 := by
    unfold Scalar at h
    omega
  have hbyte {n : ℕ} (hn : 0x80 ≤ n ∧ n < 256) : (UInt8.ofNat n).toNat = code ∨ 0x80 ≤ (UInt8.ofNat n).toNat := by
    rw [UInt8.toNat_ofNat_of_lt' hn.2]
    exact Or.inr hn.1
  unfold utf8
  split
  · intro c hc
    rw [List.mem_singleton.mp hc]
    exact Or.inl (UInt8.toNat_ofNat_of_lt' (Nat.lt_trans ‹_› (by decide)))
  · split
    · simp only [List.forall_mem_cons]
      exact ⟨hbyte (by omega), hbyte (by omega), by simp⟩
    · split
      · simp only [List.forall_mem_cons]
        exact ⟨hbyte (by omega), hbyte (by omega), hbyte (by omega), by simp⟩
      · simp only [List.forall_mem_cons]
        exact ⟨hbyte (by omega), hbyte (by omega), hbyte (by omega), hbyte (by omega), by simp⟩

theorem PlainText.nil : PlainText [] := ⟨[], by simp, rfl⟩

theorem PlainText.append {code : ℕ} (h : Unescaped code) {s : Bytes} (hs : PlainText s) : PlainText (utf8 code ++ s) := by
  obtain ⟨codes, hcodes, rfl⟩ := hs
  exact ⟨code :: codes, List.forall_mem_cons.mpr ⟨h, hcodes⟩, rfl⟩

/-- Neither a control character nor a quotation mark stands for itself. -/
theorem PlainText.bytes {s : Bytes} (h : PlainText s) : ∀ c ∈ s, 0x20 ≤ c.toNat ∧ c.toNat ≠ 0x22 := by
  obtain ⟨codes, hcodes, rfl⟩ := h
  intro c hc
  obtain ⟨code, hcode, hc⟩ := List.mem_flatMap.mp hc
  obtain ⟨hscalar, hlow, hquote, -⟩ := hcodes code hcode
  have hbyte := mem_utf8 hscalar c hc
  omega

theorem PlainText.not_control {s : Bytes} (h : PlainText s) : ∀ c ∈ s, 0x20 ≤ c.toNat := fun c hc => (h.bytes c hc).1

theorem plainText_of_ascii {s : Bytes} (h : ∀ c ∈ s, 0x20 ≤ c.toNat ∧ c.toNat < 0x80 ∧ c ≠ 0x22 ∧ c ≠ 0x5c) : PlainText s := by
  induction s with
  | nil => exact PlainText.nil
  | cons c s ih =>
    obtain ⟨⟨hlow, hhigh, hquote, hslash⟩, hs⟩ := List.forall_mem_cons.mp h
    have hutf8 : utf8 c.toNat = [c] := by
      rw [utf8, if_pos hhigh, UInt8.ofNat_toNat]
    have hcode : Unescaped c.toNat :=
      ⟨Or.inl (by omega), hlow, fun heq => hquote (UInt8.toNat.inj heq), fun heq => hslash (UInt8.toNat.inj heq)⟩
    have happend := PlainText.append hcode (ih hs)
    rwa [hutf8] at happend

/-! ## Strings -/

/-- The letters of the short escapes, and what they stand for. -/
def escapes : List (UInt8 × UInt8) :=
  [(0x22, 0x22), (0x5c, 0x5c), (0x2f, 0x2f), (0x62, 0x08), (0x66, 0x0c), (0x6e, 0x0a), (0x72, 0x0d), (0x74, 0x09)]

def hexValue (c : UInt8) : Option ℕ :=
  if 0x30 ≤ c ∧ c ≤ 0x39 then some (c.toNat - 0x30)
  else if 0x41 ≤ c ∧ c ≤ 0x46 then some (c.toNat - 0x37)
  else if 0x61 ≤ c ∧ c ≤ 0x66 then some (c.toNat - 0x57)
  else none

def hexCode : Bytes → Option ℕ
  | [a, b, c, d] => do return (← hexValue a) * 0x1000 + (← hexValue b) * 0x100 + (← hexValue c) * 0x10 + (← hexValue d)
  | _ => none

/-- `StringText text value`: what stands between the quotation marks is `text`, and the string is `value`. -/
inductive StringText : Bytes → Bytes → Prop where
  | nil : StringText [] []
  | unescaped {code : ℕ} (hcode : Unescaped code) {text value : Bytes} (h : StringText text value) :
      StringText (utf8 code ++ text) (utf8 code ++ value)
  | escape {letter c : UInt8} (hescape : (letter, c) ∈ escapes) {text value : Bytes} (h : StringText text value) :
      StringText (0x5c :: letter :: text) (c :: value)
  | unicode {digits : Bytes} {code : ℕ} (hdigits : hexCode digits = some code) (hcode : Scalar code) {text value : Bytes}
      (h : StringText text value) : StringText (0x5c :: 0x75 :: (digits ++ text)) (utf8 code ++ value)
  | surrogates {high low : Bytes} {upper lower : ℕ} (hhigh : hexCode high = some upper)
      (hupper : 0xd800 ≤ upper ∧ upper < 0xdc00) (hlow : hexCode low = some lower)
      (hlower : 0xdc00 ≤ lower ∧ lower < 0xe000) {text value : Bytes} (h : StringText text value) :
      StringText (0x5c :: 0x75 :: (high ++ 0x5c :: 0x75 :: (low ++ text)))
        (utf8 (0x10000 + (upper - 0xd800) * 0x400 + (lower - 0xdc00)) ++ value)

theorem hexCode_length {digits : Bytes} {code : ℕ} (h : hexCode digits = some code) : digits.length = 4 := by
  unfold hexCode at h
  split at h
  · rfl
  · cases h

/-- A text is at least as long as its value, and longer unless it is the value. -/
theorem stringText_length {text value : Bytes} (h : StringText text value) :
    value.length ≤ text.length ∧ (text.length ≤ value.length → text = value ∧ PlainText value) := by
  induction h with
  | nil => exact ⟨Nat.le_refl _, fun _ => ⟨rfl, PlainText.nil⟩⟩
  | @unescaped code hcode text value _ ih =>
    simp only [List.length_append]
    refine ⟨by omega, fun hle => ?_⟩
    obtain ⟨rfl, hplain⟩ := ih.2 (by omega)
    exact ⟨rfl, hplain.append hcode⟩
  | escape _ _ ih =>
    simp only [List.length_cons]
    exact ⟨by omega, fun hle => by omega⟩
  | @unicode digits code hdigits _ _ _ _ ih =>
    have hlength := hexCode_length hdigits
    have hcode := utf8_length_le code
    simp only [List.length_append, List.length_cons]
    exact ⟨by omega, fun hle => by omega⟩
  | @surrogates high low upper lower hhigh _ hlow _ _ _ _ ih =>
    have hfirst := hexCode_length hhigh
    have hsecond := hexCode_length hlow
    have hcode := utf8_length_le (0x10000 + (upper - 0xd800) * 0x400 + (lower - 0xdc00))
    simp only [List.length_append, List.length_cons]
    exact ⟨by omega, fun hle => by omega⟩

theorem PlainText.stringText {s : Bytes} (h : PlainText s) : StringText s s := by
  obtain ⟨codes, hcodes, rfl⟩ := h
  induction codes with
  | nil => exact .nil
  | cons code codes ih =>
    obtain ⟨hcode, hcodes⟩ := List.forall_mem_cons.mp hcodes
    exact .unescaped hcode (ih hcodes)

/-! ## Objects -/

def Blank (s : Bytes) : Prop := ∀ c ∈ s, c ∈ ([0x20, 0x09, 0x0a, 0x0d] : Bytes)

/-- A name, a colon and a string. -/
def MemberText (member : Bytes × Bytes) (text : Bytes) : Prop :=
  ∃ name value before behind, StringText name member.1 ∧ StringText value member.2 ∧ Blank before ∧ Blank behind ∧
    text = [0x22] ++ name ++ [0x22] ++ before ++ [0x3a] ++ behind ++ [0x22] ++ value ++ [0x22]

/-- Members with commas between them. -/
inductive MembersText : List (Bytes × Bytes) → Bytes → Prop where
  | last {member : Bytes × Bytes} {before text behind : Bytes} (hbefore : Blank before) (h : MemberText member text)
      (hbehind : Blank behind) : MembersText [member] (before ++ text ++ behind)
  | next {member : Bytes × Bytes} {before text behind : Bytes} (hbefore : Blank before) (h : MemberText member text)
      (hbehind : Blank behind) {members : List (Bytes × Bytes)} {rest : Bytes} (hrest : MembersText members rest) :
      MembersText (member :: members) (before ++ text ++ behind ++ [0x2c] ++ rest)

/-- The texts of an object with these members, in this order. -/
def ObjectText (members : List (Bytes × Bytes)) (text : Bytes) : Prop :=
  ∃ before inner behind, Blank before ∧ Blank behind ∧ text = before ++ [0x7b] ++ inner ++ [0x7d] ++ behind ∧
    (MembersText members inner ∨ (members = [] ∧ Blank inner))

/-! ## Texts without blanks and escapes -/

def compactMember (member : Bytes × Bytes) : Bytes := [0x22] ++ member.1 ++ [0x22, 0x3a, 0x22] ++ member.2 ++ [0x22]

def compactObject (members : List (Bytes × Bytes)) : Bytes :=
  [0x7b] ++ [0x2c].intercalate (members.map compactMember) ++ [0x7d]

/-- The length of the members, with a comma for each. -/
def membersLength (members : List (Bytes × Bytes)) : ℕ := (members.map fun m => m.1.length + m.2.length + 6).sum

def PlainMembers (members : List (Bytes × Bytes)) : Prop := ∀ m ∈ members, PlainText m.1 ∧ PlainText m.2

theorem memberText_length {member : Bytes × Bytes} {text : Bytes} (h : MemberText member text) :
    member.1.length + member.2.length + 5 ≤ text.length ∧
      (text.length ≤ member.1.length + member.2.length + 5 → PlainText member.1 ∧ PlainText member.2) := by
  obtain ⟨name, value, before, behind, hname, hvalue, -, -, rfl⟩ := h
  have hn := stringText_length hname
  have hv := stringText_length hvalue
  simp only [List.length_append, List.length_cons, List.length_nil]
  exact ⟨by omega, fun hle => ⟨(hn.2 (by omega)).2, (hv.2 (by omega)).2⟩⟩

theorem membersText_length {members : List (Bytes × Bytes)} {text : Bytes} (h : MembersText members text) :
    membersLength members ≤ text.length + 1 ∧ (text.length + 1 ≤ membersLength members → PlainMembers members) := by
  induction h with
  | @last member before text behind _ hmember _ =>
    have hm := memberText_length hmember
    simp only [membersLength, List.map_cons, List.map_nil, List.sum_cons, List.sum_nil, List.length_append]
    refine ⟨by omega, fun hle m hmem => ?_⟩
    rw [List.mem_singleton.mp hmem]
    exact hm.2 (by omega)
  | @next member before text behind _ hmember _ members rest _ ih =>
    have hm := memberText_length hmember
    unfold membersLength at ih
    simp only [membersLength, List.map_cons, List.sum_cons, List.length_append, List.length_singleton]
    refine ⟨by omega, fun hle => List.forall_mem_cons.mpr ⟨hm.2 (by omega), ih.2 (by omega)⟩⟩

/-- A text that is not longer than its members require has nothing but plain strings in it. -/
theorem objectText_length {members : List (Bytes × Bytes)} {text : Bytes} (h : ObjectText members text)
    (hle : text.length ≤ membersLength members + 1) : PlainMembers members := by
  obtain ⟨before, inner, behind, -, -, rfl, hmembers | ⟨rfl, -⟩⟩ := h
  · simp only [List.length_append, List.length_singleton] at hle
    exact (membersText_length hmembers).2 (by omega)
  · exact fun m hm => absurd hm List.not_mem_nil

theorem blank_nil : Blank [] := fun _ hc => absurd hc List.not_mem_nil

theorem memberText_compact {member : Bytes × Bytes} (hname : PlainText member.1) (hvalue : PlainText member.2) :
    MemberText member (compactMember member) := by
  refine ⟨member.1, member.2, [], [], hname.stringText, hvalue.stringText, blank_nil, blank_nil, ?_⟩
  simp [compactMember]

theorem objectText_compact {members : List (Bytes × Bytes)} (h : PlainMembers members) :
    ObjectText members (compactObject members) := by
  refine ⟨[], [0x2c].intercalate (members.map compactMember), [], blank_nil, blank_nil, ?_, ?_⟩
  · rw [compactObject, List.append_nil, List.nil_append]
  · induction members with
    | nil => exact Or.inr ⟨rfl, blank_nil⟩
    | cons member members ih =>
      obtain ⟨hmember, hmembers⟩ := List.forall_mem_cons.mp h
      have htext := memberText_compact hmember.1 hmember.2
      left
      cases members with
      | nil =>
        have hlast := MembersText.last blank_nil htext blank_nil
        rw [List.append_nil, List.nil_append] at hlast
        rwa [List.map_singleton, List.intercalate_singleton]
      | cons next members =>
        obtain hrest | ⟨hnil, -⟩ := ih hmembers
        · have hnext := MembersText.next blank_nil htext blank_nil hrest
          rw [List.append_nil, List.nil_append] at hnext
          rw [List.map_cons, List.map_cons, List.intercalate_cons_cons]
          exact hnext
        · cases hnil

theorem compactObject_length {members : List (Bytes × Bytes)} (h : members ≠ []) :
    (compactObject members).length = membersLength members + 1 := by
  have hinner : ([0x2c].intercalate (members.map compactMember) : Bytes).length + 1 = membersLength members := by
    induction members with
    | nil => exact absurd rfl h
    | cons member members ih =>
      cases members with
      | nil =>
        simp [membersLength, compactMember]
        omega
      | cons next members =>
        have hrest := ih (List.cons_ne_nil next members)
        have hsum : membersLength (member :: next :: members) =
            member.1.length + member.2.length + 6 + membersLength (next :: members) := by
          rw [membersLength, List.map_cons, List.sum_cons, ← membersLength]
        have hjoin : [0x2c].intercalate ((member :: next :: members).map compactMember) =
            compactMember member ++ [0x2c] ++ [0x2c].intercalate ((next :: members).map compactMember) := by
          rw [List.map_cons, List.map_cons, List.intercalate_cons_cons]
        rw [hsum, hjoin, ← hrest]
        simp only [compactMember, List.length_append, List.length_cons, List.length_nil]
        omega
  rw [compactObject, List.length_append, List.length_append, List.length_singleton, List.length_singleton]
  omega

theorem membersLength_perm {members members' : List (Bytes × Bytes)} (h : members.Perm members') :
    membersLength members = membersLength members' := (h.map _).sum_nat

/-- Texts that are put together without escapes say what they should if and only if no escape was needed. -/
theorem compactObject_iff {members : List (Bytes × Bytes)} (hne : members ≠ []) :
    (∃ members', members'.Perm members ∧ ObjectText members' (compactObject members)) ↔ PlainMembers members := by
  constructor
  · rintro ⟨members', hperm, htext⟩
    have hlength := compactObject_length hne
    rw [← membersLength_perm hperm] at hlength
    exact fun m hm => objectText_length htext hlength.le m (hperm.mem_iff.mpr hm)
  · exact fun h => ⟨members, List.Perm.refl _, objectText_compact h⟩

/-- Plain members make a single line. -/
theorem compactObject_not_control {members : List (Bytes × Bytes)} (h : PlainMembers members) :
    ∀ c ∈ compactObject members, 0x20 ≤ c.toNat := by
  have hmember {m : Bytes × Bytes} (hm : PlainText m.1 ∧ PlainText m.2) : ∀ c ∈ compactMember m, 0x20 ≤ c.toNat := by
    simp only [compactMember, List.forall_mem_append]
    exact ⟨⟨⟨⟨by decide +kernel, hm.1.not_control⟩, by decide +kernel⟩, hm.2.not_control⟩, by decide +kernel⟩
  have hinner : ∀ c ∈ ([0x2c].intercalate (members.map compactMember) : Bytes), 0x20 ≤ c.toNat := by
    induction members with
    | nil => exact fun c hc => absurd hc List.not_mem_nil
    | cons m members ih =>
      obtain ⟨hm, hmembers⟩ := List.forall_mem_cons.mp h
      cases members with
      | nil =>
        rw [List.map_singleton, List.intercalate_singleton]
        exact hmember hm
      | cons next members =>
        rw [List.map_cons, List.map_cons, List.intercalate_cons_cons, List.forall_mem_append, List.forall_mem_append]
        exact ⟨⟨hmember hm, by decide +kernel⟩, ih hmembers⟩
  rw [compactObject, List.forall_mem_append, List.forall_mem_append]
  exact ⟨⟨by decide +kernel, hinner⟩, by decide +kernel⟩

end JsonText
