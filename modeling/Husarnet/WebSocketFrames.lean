import Husarnet.WebSocket

/-! # WebSocket frames on the wire

What `encode` writes and what `parse` makes of any bytes, for plain chars of either sign. The frame
at the front is described by its own bytes; the parser agrees with them but for the extended
lengths that have a char below zero, and for the data that does not fit in a message.
-/

namespace Husarnet
open Octets Framing
set_option autoImplicit false

namespace WebSocketClient

/-! ## The chars of an extended length -/

/-- The target reads these chars as the bytes they are. -/
def Plain (char : CharSign) (bytes : Bytes) : Prop := char = .signed → ∀ b ∈ bytes, b < 0x80

instance (char : CharSign) (bytes : Bytes) : Decidable (Plain char bytes) :=
  inferInstanceAs (Decidable (_ → _))

theorem shift_char (length : UInt64) (c : UInt8) :
    ((length <<< 8) ||| c.toUInt64).toNat = 256 * length.toNat % 2 ^ 64 + c.toNat := by
  have hc : c.toNat < 2 ^ 8 := c.toNat_lt
  have height : (8 : UInt64).toNat % 64 = 8 := rfl
  have hlow : length.toNat * 2 ^ 8 % 2 ^ 64 = 2 ^ 8 * (length.toNat % 2 ^ 56) := by omega
  rw [UInt64.toNat_or, UInt64.toNat_shiftLeft, UInt8.toNat_toUInt64, height, Nat.shiftLeft_eq, hlow,
    ← Nat.two_pow_add_eq_or_of_lt hc]
  omega

theorem sizeOfCharOn_plain {char : CharSign} {c : UInt8} (h : char = .signed → c < 0x80) :
    sizeOfCharOn char c = c.toUInt64 := by
  cases char with
  | signed => rw [sizeOfCharOn, sizeOfChar, if_pos (h rfl)]
  | unsigned => rfl

theorem readLength_fold_plain {char : CharSign} {bytes : Bytes} (h : Plain char bytes) (length : UInt64) {k : ℕ}
    (hlength : length.toNat < 256 ^ k) (hk : k + bytes.length ≤ 8) :
    (bytes.foldl (fun (length : UInt64) c => (length <<< 8) ||| sizeOfCharOn char c) length).toNat =
      bytes.foldl (fun n b => 256 * n + b.toNat) length.toNat := by
  induction bytes generalizing length k with
  | nil => rfl
  | cons b bytes ih =>
    rw [List.length_cons] at hk
    have hb := b.toNat_lt
    have hsmall : 256 * 256 ^ k ≤ 2 ^ 64 := by
      rw [← pow_succ', show 2 ^ 64 = 256 ^ 8 from rfl]
      exact Nat.pow_le_pow_right (by decide) (by omega)
    have hnext : (length <<< 8 ||| sizeOfCharOn char b).toNat = 256 * length.toNat + b.toNat := by
      rw [sizeOfCharOn_plain fun hs => h hs b (List.mem_cons_self ..), shift_char, Nat.mod_eq_of_lt (by omega)]
    rw [List.foldl_cons, List.foldl_cons, ← hnext]
    refine ih (fun hs c hc => h hs c (List.mem_cons_of_mem _ hc)) _ (k := k + 1) ?_ (by omega)
    rw [hnext, pow_succ']
    omega

theorem readLengthOn_plain {char : CharSign} {bytes : Bytes} (h : Plain char bytes) (hlen : bytes.length ≤ 8) :
    (readLengthOn char bytes).toNat = beNat bytes :=
  readLength_fold_plain h 0 (k := 0) (by decide) (by omega)

/-- A char below zero sets all bits above it, and they stay set. -/
theorem readLength_fold_extended {char : CharSign} (bytes : Bytes) {length : UInt64} {k : ℕ}
    (hlength : 2 ^ 64 - 2 ^ (7 + 8 * k) ≤ length.toNat) (hk : k + bytes.length ≤ 7) :
    2 ^ 63 ≤ (bytes.foldl (fun (length : UInt64) c => (length <<< 8) ||| sizeOfCharOn char c) length).toNat := by
  induction bytes generalizing length k with
  | nil =>
    have hpow : 2 ^ (7 + 8 * k) ≤ 2 ^ 63 := Nat.pow_le_pow_right (by decide) (by rw [List.length_nil] at hk; omega)
    rw [List.foldl_nil]
    omega
  | cons b bytes ih =>
    rw [List.length_cons] at hk
    rw [List.foldl_cons]
    refine ih (k := k + 1) ?_ (by omega)
    have hpow : 2 ^ (7 + 8 * (k + 1)) = 256 * 2 ^ (7 + 8 * k) := by
      rw [show 7 + 8 * (k + 1) = 8 + (7 + 8 * k) by omega, pow_add]
      rfl
    have hle : 2 ^ (7 + 8 * k) ≤ 2 ^ 55 := Nat.pow_le_pow_right (by decide) (by omega)
    have hshift : (length <<< 8).toNat = 256 * length.toNat % 2 ^ 64 := by
      have hzero := shift_char length 0
      rwa [show (length <<< 8 ||| (0 : UInt8).toUInt64) = length <<< 8 from UInt64.or_zero] at hzero
    have hlt := length.toNat_lt
    rw [UInt64.toNat_or, hpow]
    refine le_trans ?_ Nat.left_le_or
    rw [hshift]
    omega

theorem readLengthOn_extended {char : CharSign} {bytes : Bytes} (h : ¬ Plain char bytes) (hlen : bytes.length ≤ 8) :
    2 ^ 63 ≤ (readLengthOn char bytes).toNat := by
  rw [Plain, Classical.not_imp] at h
  obtain ⟨rfl, hneg⟩ := h
  push Not at hneg
  obtain ⟨b, hb, hlarge⟩ := hneg
  obtain ⟨before, behind, rfl⟩ := List.append_of_mem hb
  rw [List.length_append, List.length_cons] at hlen
  rw [readLengthOn, List.foldl_append, List.foldl_cons]
  refine readLength_fold_extended behind (k := 0) ?_ (by omega)
  have hb : 128 ≤ b.toNat := UInt8.le_iff_toNat_le.mp (UInt8.not_lt.mp hlarge)
  have hsize : 2 ^ 64 - 2 ^ 7 ≤ (sizeOfCharOn .signed b).toNat := by
    rw [sizeOfCharOn, sizeOfChar, if_neg hlarge, UInt64.toNat_or, UInt8.toNat_toUInt64]
    have hones : (0xFFFFFFFFFFFFFF00 : UInt64).toNat = 2 ^ 8 * (2 ^ 56 - 1) := rfl
    rw [hones, Nat.or_comm, ← Nat.two_pow_add_eq_or_of_lt b.toNat_lt]
    omega
  rw [UInt64.toNat_or]
  exact hsize.trans Nat.right_le_or

/-! ## The frame at the front of a buffer -/

/-- How many bytes the length field has behind its first one. -/
def extendedSize (lenByte : UInt8) : ℕ := if lenByte < 126 then 0 else if lenByte = 126 then 2 else 8

theorem extendedSize_le (lenByte : UInt8) : extendedSize lenByte ≤ 8 := by
  rw [extendedSize]
  split
  · omega
  · split <;> omega

def frameLenByte (buffer : Bytes) : UInt8 := buffer.getD 1 0 &&& 0x7F

def frameMasked (buffer : Bytes) : Bool := buffer.getD 1 0 &&& 0x80 ≠ 0

/-- The bytes of the length field behind its first one. -/
def extendedBytes (buffer : Bytes) : Bytes := slice buffer 2 (extendedSize (frameLenByte buffer))

/-- The length field. -/
def announcedLength (buffer : Bytes) : ℕ :=
  if frameLenByte buffer < 126 then (frameLenByte buffer).toNat else beNat (extendedBytes buffer)

/-- Where the data begins. -/
def frontSize (buffer : Bytes) : ℕ :=
  2 + extendedSize (frameLenByte buffer) + if frameMasked buffer = true then 4 else 0

/-- A final frame without extensions is at the front with all its data, and the target can read its length. -/
structure FrameAt (char : CharSign) (buffer : Bytes) : Prop where
  flags : buffer.getD 0 0 &&& 0xF0 = 0x80
  whole : frontSize buffer + announcedLength buffer ≤ buffer.length
  plain : Plain char (extendedBytes buffer)

def frameMessage (buffer : Bytes) : Message where
  flags := ⟨true, false, false, false⟩
  opcode := buffer.getD 0 0 &&& 0x0F
  masked := frameMasked buffer
  data :=
    unmask (if frameMasked buffer = true then some (slice buffer (frontSize buffer - 4) 4) else none)
      (slice buffer (frontSize buffer) (announcedLength buffer))

theorem flags_nibble (flags : UInt8) :
    flags &&& 0xF0 = 0x80 ↔ ¬ (flags &&& 0x40 ≠ 0 ∨ flags &&& 0x20 ≠ 0 ∨ flags &&& 0x10 ≠ 0) ∧ ¬ flags &&& 0x80 = 0 := by
  revert flags
  exact forall_byte (by decide +kernel)

theorem frameLenByte_range (buffer : Bytes) :
    frameLenByte buffer < 126 ∨ frameLenByte buffer = 126 ∨ frameLenByte buffer = 127 := by
  rw [frameLenByte]
  generalize buffer.getD 1 0 = byte
  revert byte
  exact forall_byte (by decide +kernel)

/-- The length that the target reads. -/
def readLengthAt (char : CharSign) (buffer : Bytes) : ℕ :=
  if frameLenByte buffer < 126 then (frameLenByte buffer).toNat else (readLengthOn char (extendedBytes buffer)).toNat

theorem lengthFieldOn_eq (char : CharSign) (buffer : Bytes) :
    lengthFieldOn char (buffer.getD 1 0 &&& 0x7F) (buffer.drop 2) =
      if extendedSize (frameLenByte buffer) ≤ buffer.length - 2 then
        some (UInt64.ofNat (readLengthAt char buffer), extendedSize (frameLenByte buffer))
      else none := by
  have hdrop : (buffer.drop 2).length = buffer.length - 2 := List.length_drop
  have hbyte : buffer.getD 1 0 &&& 0x7F = frameLenByte buffer := rfl
  rw [hbyte, lengthFieldOn, readLengthAt, hdrop]
  obtain h | h | h := frameLenByte_range buffer
  · rw [if_pos h, if_pos h, extendedSize, if_pos h, if_pos (Nat.zero_le _), ← UInt8.toNat_toUInt64, UInt64.ofNat_toNat]
  · have hsize : extendedSize (frameLenByte buffer) = 2 := by rw [h]; rfl
    have hnot : ¬ frameLenByte buffer < 126 := by rw [h]; decide
    rw [if_neg hnot, if_neg hnot, hsize, extendedBytes, hsize, UInt64.ofNat_toNat]
    by_cases hroom : 2 ≤ buffer.length - 2
    · rw [if_pos ⟨h, hroom⟩, if_pos hroom]
      rfl
    · have hlong : ¬ (frameLenByte buffer = 127 ∧ 8 ≤ buffer.length - 2) := by omega
      rw [if_neg fun hm => hroom hm.2, if_neg hlong, if_neg hroom]
  · have hsize : extendedSize (frameLenByte buffer) = 8 := by rw [h]; rfl
    have hnot : ¬ frameLenByte buffer < 126 := by rw [h]; decide
    have hmid : ¬ (frameLenByte buffer = 126 ∧ 2 ≤ buffer.length - 2) := by
      rw [h]
      rintro ⟨hno, -⟩
      exact absurd hno (by decide)
    rw [if_neg hnot, if_neg hnot, if_neg hmid, hsize, extendedBytes, hsize, UInt64.ofNat_toNat]
    by_cases hroom : 8 ≤ buffer.length - 2
    · rw [if_pos ⟨h, hroom⟩, if_pos hroom]
      rfl
    · rw [if_neg fun hl => hroom hl.2, if_neg hroom]

theorem readLengthAt_lt (char : CharSign) (buffer : Bytes) : readLengthAt char buffer < 2 ^ 64 := by
  rw [readLengthAt]
  split
  · exact (UInt8.toNat_lt _).trans (by decide)
  · exact UInt64.toNat_lt _

theorem two_le_frontSize (buffer : Bytes) : 2 ≤ frontSize buffer := by
  rw [frontSize]
  omega

theorem frontSize_le (buffer : Bytes) : frontSize buffer ≤ 14 := by
  have hext := extendedSize_le (frameLenByte buffer)
  rw [frontSize]
  split <;> omega

theorem frontSize_unmasked {buffer : Bytes} (h : frameMasked buffer = false) :
    frontSize buffer = 2 + extendedSize (frameLenByte buffer) := by
  rw [frontSize, h]
  rfl

theorem frontSize_masked {buffer : Bytes} (h : frameMasked buffer = true) :
    frontSize buffer = 2 + extendedSize (frameLenByte buffer) + 4 := by
  rw [frontSize, if_pos h]

/-- `parse` takes a final frame without extensions only. -/
theorem parseHeaderOn_flags {char : CharSign} {buffer : Bytes} (h : ¬ buffer.getD 0 0 &&& 0xF0 = 0x80) :
    parseHeaderOn char buffer = none := by
  rw [parseHeaderOn]
  split
  · rfl
  · dsimp only
    split
    · rfl
    · rename_i hrsv
      have hfin : buffer.getD 0 0 &&& 0x80 = 0 := by
        by_contra hfin
        exact h ((flags_nibble _).mpr ⟨hrsv, hfin⟩)
      rw [if_pos hfin]

theorem parseHeaderOn_eq (char : CharSign) (buffer : Bytes) :
    parseHeaderOn char buffer =
      if buffer.getD 0 0 &&& 0xF0 = 0x80 ∧ frontSize buffer ≤ buffer.length then
        some ⟨⟨true, false, false, false⟩, buffer.getD 0 0 &&& 0x0F,
          if frameMasked buffer = true then some (slice buffer (frontSize buffer - 4) 4) else none,
          readLengthAt char buffer, frontSize buffer⟩
      else none := by
  by_cases hvalid : buffer.getD 0 0 &&& 0xF0 = 0x80
  · obtain ⟨hrsv, hfin⟩ := (flags_nibble _).mp hvalid
    have htwo := two_le_frontSize buffer
    have hnat : (UInt64.ofNat (readLengthAt char buffer)).toNat = readLengthAt char buffer := by
      rw [UInt64.toNat_ofNat', Nat.mod_eq_of_lt (readLengthAt_lt char buffer)]
    rw [parseHeaderOn]
    dsimp only
    by_cases hshort : buffer.length < 2
    · rw [if_pos hshort, if_neg fun h => by omega]
    · rw [if_neg hshort, if_neg hrsv, if_neg hfin, lengthFieldOn_eq]
      by_cases hext : extendedSize (frameLenByte buffer) ≤ buffer.length - 2
      · rw [if_pos hext]
        dsimp only
        rw [hnat]
        by_cases hmask : buffer.getD 1 0 &&& 0x80 = 0
        · have hmasked : frameMasked buffer = false := decide_eq_false (not_not.mpr hmask)
          have hfront := frontSize_unmasked hmasked
          rw [if_pos hmask, if_pos ⟨hvalid, by omega⟩, hfront, hmasked]
          rfl
        · have hmasked : frameMasked buffer = true := decide_eq_true hmask
          have hfront := frontSize_masked hmasked
          rw [if_neg hmask]
          by_cases hkey : buffer.length < 2 + extendedSize (frameLenByte buffer) + 4
          · rw [if_pos hkey, if_neg fun h => by omega]
          · rw [if_neg hkey, if_pos ⟨hvalid, by omega⟩, hfront, hmasked, Nat.add_sub_cancel]
            rfl
      · have hno : ¬ frontSize buffer ≤ buffer.length := by
          rw [frontSize]
          omega
        rw [if_neg hext, if_neg fun h => hno h.2]
  · rw [parseHeaderOn_flags hvalid, if_neg fun h => hvalid h.1]

theorem readLengthAt_plain {char : CharSign} {buffer : Bytes} (h : Plain char (extendedBytes buffer)) :
    readLengthAt char buffer = announcedLength buffer := by
  rw [readLengthAt, announcedLength]
  split
  · rfl
  · exact readLengthOn_plain h ((slice_length_le ..).trans (extendedSize_le _))

/-- A length with a char below zero is more than any buffer has. -/
theorem readLengthAt_extended {char : CharSign} {buffer : Bytes} (h : ¬ Plain char (extendedBytes buffer)) :
    2 ^ 63 ≤ readLengthAt char buffer := by
  have hlong : ¬ frameLenByte buffer < 126 := by
    intro hshort
    refine h fun _ b hb => ?_
    rw [extendedBytes, extendedSize, if_pos hshort, slice, List.take_zero] at hb
    cases hb
  rw [readLengthAt, if_neg hlong]
  exact readLengthOn_extended h ((slice_length_le ..).trans (extendedSize_le _))

/-! ## Parsing a buffer -/

section Parsing
variable {char : CharSign} {buffer : Bytes}

theorem parseHeaderOn_frame (h : FrameAt char buffer) : parseHeaderOn char buffer =
    some ⟨⟨true, false, false, false⟩, buffer.getD 0 0 &&& 0x0F,
      if frameMasked buffer = true then some (slice buffer (frontSize buffer - 4) 4) else none,
      announcedLength buffer, frontSize buffer⟩ := by
  have hfront : frontSize buffer ≤ buffer.length := (Nat.le_add_right ..).trans h.whole
  rw [parseHeaderOn_eq, if_pos ⟨h.flags, hfront⟩, readLengthAt_plain h.plain]

theorem parseOn_frame (h : FrameAt char buffer) (hfits : announcedLength buffer ≤ DATA_CAPACITY) :
    parseOn char buffer = .packet (frameMessage buffer) (frontSize buffer + announcedLength buffer) := by
  have hwhole := h.whole
  rw [parseOn, parseHeaderOn_frame h]
  dsimp only
  rw [if_neg (by omega), if_neg (by omega), frameMessage]
  cases frameMasked buffer <;> rfl

theorem parseOn_overlong (h : FrameAt char buffer) (hlarge : DATA_CAPACITY < announcedLength buffer) :
    parseOn char buffer = .stop .overflow := by
  have hwhole := h.whole
  rw [parseOn, parseHeaderOn_frame h]
  dsimp only
  rw [if_neg (by omega), if_pos hlarge]

/-- No object is so large that the signed difference of two of its positions overflows. -/
theorem parseOn_no_frame (hsize : buffer.length < 2 ^ 63) (h : ¬ FrameAt char buffer) :
    parseOn char buffer = .stop .invalid := by
  rw [parseOn, parseHeaderOn_eq]
  by_cases hheader : buffer.getD 0 0 &&& 0xF0 = 0x80 ∧ frontSize buffer ≤ buffer.length
  · have hmissing : buffer.length - frontSize buffer < readLengthAt char buffer := by
      by_cases hplain : Plain char (extendedBytes buffer)
      · rw [readLengthAt_plain hplain]
        by_contra hwhole
        exact h ⟨hheader.1, by omega, hplain⟩
      · have hlarge := readLengthAt_extended hplain
        omega
    rw [if_pos hheader]
    dsimp only
    rw [if_pos hmissing]
  · rw [if_neg hheader]

end Parsing

/-! ## Bounds -/

/-- The parser fails, or the message is the frame at the front and fits. -/
def Bounded (buffer : Bytes) : Front Message ParseFailure → Prop
  | .stop .invalid => True
  | .stop .overflow => False
  | .packet m consumed =>
    2 ≤ consumed ∧ consumed ≤ buffer.length ∧ m.data.length ≤ DATA_CAPACITY ∧ m.data.length = announcedLength buffer

/-- A whole frame is at the front, and announces more than a message can hold. -/
def Overlong (char : CharSign) (buffer : Bytes) : Prop := FrameAt char buffer ∧ DATA_CAPACITY < announcedLength buffer

/-- What is behind some of the frames of a read, whole and with data that fits. -/
inductive Behind (char : CharSign) (buf : Bytes) : Bytes → Prop where
  | start : Behind char buf buf
  | frame {s : Bytes} (hs : Behind char buf s) (hframe : FrameAt char s) (hfits : announcedLength s ≤ DATA_CAPACITY) :
      Behind char buf (s.drop (frontSize s + announcedLength s))

section Bounds
variable {char : CharSign} {buffer : Bytes}

theorem frameMessage_length (h : FrameAt char buffer) : (frameMessage buffer).data.length = announcedLength buffer := by
  rw [frameMessage, unmask_length, slice_length h.whole]

theorem parseOn_bounded_iff (hsize : buffer.length < 2 ^ 63) :
    Bounded buffer (parseOn char buffer) ↔ ¬ Overlong char buffer := by
  by_cases hframe : FrameAt char buffer
  · by_cases hlarge : DATA_CAPACITY < announcedLength buffer
    · rw [parseOn_overlong hframe hlarge]
      exact ⟨False.elim, fun h => h ⟨hframe, hlarge⟩⟩
    · have hfits : announcedLength buffer ≤ DATA_CAPACITY := by omega
      have hfront := two_le_frontSize buffer
      rw [parseOn_frame hframe hfits]
      refine ⟨fun _ h => hlarge h.2, fun _ => ⟨by omega, hframe.whole, ?_, frameMessage_length hframe⟩⟩
      rw [frameMessage_length hframe]
      exact hfits
  · rw [parseOn_no_frame hsize hframe]
    exact ⟨fun _ h => hframe h.1, fun _ => trivial⟩

theorem behind_length_le {s : Bytes} (h : Behind char buffer s) : s.length ≤ buffer.length := by
  induction h with
  | start => exact le_rfl
  | frame _ _ _ ih =>
    rw [List.length_drop]
    omega

/-! ### The loop over a read -/

theorem frame_of_packet {m : Message} {n : ℕ} (hsize : buffer.length < 2 ^ 63) (h : parseOn char buffer = .packet m n) :
    FrameAt char buffer ∧ announcedLength buffer ≤ DATA_CAPACITY ∧ n = frontSize buffer + announcedLength buffer := by
  have hframe : FrameAt char buffer := by
    by_contra hno
    rw [parseOn_no_frame hsize hno] at h
    cases h
  have hfits : announcedLength buffer ≤ DATA_CAPACITY := by
    by_contra hlarge
    rw [parseOn_overlong hframe (by omega)] at h
    cases h
  rw [parseOn_frame hframe hfits] at h
  cases h
  exact ⟨hframe, hfits, rfl⟩

/-- A turn takes two bytes or more, and its message fits. -/
theorem drain_turns (char : CharSign) (s : Bytes) : let d := (messagesOn char).drain s
    2 * d.packets.length + d.rest.length ≤ s.length ∧ ∀ m ∈ d.packets, m.data.length ≤ DATA_CAPACITY := by
  induction s using Framer.drain.induct (messagesOn char) with
  | case1 s why h =>
    rw [Framer.drain_stop h]
    exact ⟨by simp, by simp⟩
  | case2 s m n h ih =>
    have hparsed := parseOn_parsed char s
    have hnext : parseOn char s = .packet m n := h
    rw [hnext] at hparsed
    cases hparsed with
    | message header hheader hdata hfits =>
      have hfront := (parseHeaderOn_append [] hheader).2.1
      rw [Framer.drain_packet h]
      simp only [Drained.before_packets, Drained.before_rest, List.length_append, List.length_singleton,
        List.length_drop] at ih ⊢
      refine ⟨by omega, fun m' hm => ?_⟩
      obtain hm | hm := List.mem_append.mp hm
      · rw [List.mem_singleton.mp hm, unmask_length, slice_length hdata]
        exact hfits
      · exact ih.2 m' hm

theorem behind_rest (hsize : buffer.length < 2 ^ 63) {s : Bytes} (hs : Behind char buffer s) :
    Behind char buffer ((messagesOn char).drain s).rest := by
  induction s using Framer.drain.induct (messagesOn char) with
  | case1 s why h =>
    rw [Framer.drain_stop h]
    exact hs
  | case2 s m n h ih =>
    obtain ⟨hframe, hfits, rfl⟩ := frame_of_packet ((behind_length_le hs).trans_lt hsize) h
    rw [Framer.drain_packet h]
    exact ih (.frame hs hframe hfits)

theorem drain_exit_behind {s : Bytes} (hs : Behind char buffer s) :
    ((messagesOn char).drain buffer).exit = ((messagesOn char).drain s).exit := by
  induction hs with
  | start => rfl
  | frame _ hframe hfits ih =>
    rw [ih, Framer.drain_packet (parseOn_frame hframe hfits)]
    rfl

theorem drain_bounded_iff (hsize : buffer.length < 2 ^ 63) :
    ((messagesOn char).drain buffer).exit ≠ .overflow ↔ ∀ s, Behind char buffer s → ¬ Overlong char s := by
  constructor
  · rintro h s hs ⟨hframe, hlarge⟩
    apply h
    rw [drain_exit_behind hs, Framer.drain_stop (parseOn_overlong hframe hlarge)]
  · intro h hexit
    have hrest : Behind char buffer ((messagesOn char).drain buffer).rest := behind_rest hsize .start
    have hstop : parseOn char ((messagesOn char).drain buffer).rest = .stop .overflow := by
      rw [← hexit]
      exact Framer.next_rest (F := messagesOn char) buffer
    have hbounded := (parseOn_bounded_iff ((behind_length_le hrest).trans_lt hsize)).mpr (h _ hrest)
    rw [hstop] at hbounded
    exact hbounded

/-- **Frames in bounds.** A message is the frame at the front and fits in its data, or the parser
fails, if and only if no whole frame with more data is at the front. The loop over a read ends, with
two bytes or more a turn, and no data is too large if and only if it meets no such frame. -/
theorem frames_bounded_iff (char : CharSign) (buffer : Bytes) (hsize : buffer.length < 2 ^ 63) :
    let d := (messagesOn char).drain buffer
    (Bounded buffer (parseOn char buffer) ↔ ¬ Overlong char buffer) ∧
      2 * d.packets.length + d.rest.length ≤ buffer.length ∧ (∀ m ∈ d.packets, m.data.length ≤ DATA_CAPACITY) ∧
      (d.exit ≠ .overflow ↔ ∀ s, Behind char buffer s → ¬ Overlong char s) := by
  intro d
  obtain ⟨hturns, hfits⟩ := drain_turns char buffer
  exact ⟨parseOn_bounded_iff hsize, hturns, hfits, drain_bounded_iff hsize⟩

end Bounds

/-- A frame with 256 bytes of data. -/
def longFrame : Bytes := [0x82, 0x7E, 0x01, 0x00] ++ List.replicate 256 0

theorem longFrame_overlong : Overlong .signed longFrame :=
  ⟨⟨by decide +kernel, by decide +kernel, by decide +kernel⟩, by decide +kernel⟩

theorem long_frame_overflows :
    ¬ Bounded longFrame (parseOn .signed longFrame) ∧ ((messagesOn .signed).drain longFrame).exit = .overflow := by
  have hsize : longFrame.length < 2 ^ 63 := by decide +kernel
  refine ⟨?_, ?_⟩
  · rw [parseOn_bounded_iff hsize, not_not]
    exact longFrame_overlong
  · by_contra hexit
    exact (drain_bounded_iff hsize).mp hexit longFrame .start longFrame_overlong

/-- A frame that fits has none behind it. -/
theorem short_frame_bounded : Bounded [0x81, 0x02, 0x68, 0x69] (parseOn .signed [0x81, 0x02, 0x68, 0x69]) := by
  have hbounded := (frames_bounded_iff .signed [0x81, 0x02, 0x68, 0x69] (by decide)).1
  refine hbounded.mpr ?_
  rintro ⟨-, hlarge⟩
  exact absurd hlarge (by decide +kernel)

/-! ## Encoding -/

/-- `TransportBuffer`. -/
def TRANSPORT_CAPACITY : ℕ := 1024

/-- `encode` returns false, or an assertion of the buffer fails. -/
inductive EncodeFailure where
  | noRoom
  | overflow
  deriving DecidableEq

namespace Message

def flagsByte (m : Message) : UInt8 :=
  (if m.flags.fin = true then 0x80 else 0) ||| (if m.flags.rsv1 = true then 0x40 else 0) |||
    (if m.flags.rsv2 = true then 0x20 else 0) ||| (if m.flags.rsv3 = true then 0x10 else 0) ||| (m.opcode &&& 0x0F)

/-- The mask bit and the length. -/
def lengthBytes (length : ℕ) (masked : Bool) : Bytes :=
  let mask : UInt8 := if masked = true then 0x80 else 0
  if length < 126 then [UInt8.ofNat length ||| mask]
  else if length < 65536 then [126 ||| mask, UInt8.ofNat (length >>> 8), UInt8.ofNat (length &&& 0xFF)]
  else
    [127 ||| mask, UInt8.ofNat (length >>> 56), UInt8.ofNat (length >>> 48), UInt8.ofNat (length >>> 40),
      UInt8.ofNat (length >>> 32), UInt8.ofNat (length >>> 24), UInt8.ofNat (length >>> 16), UInt8.ofNat (length >>> 8),
      UInt8.ofNat (length &&& 0xFF)]

/-- The room is asked for the data only. The masking key is random. -/
def encode (m : Message) (maskingKey : Bytes) : Except EncodeFailure Bytes :=
  let front := m.flagsByte :: lengthBytes m.data.length m.masked
  if TRANSPORT_CAPACITY - front.length < m.data.length then .error .noRoom
  else if m.masked = true then
    let buffer := front ++ maskingKey ++ unmask (some maskingKey) m.data
    if TRANSPORT_CAPACITY < buffer.length then .error .overflow else .ok buffer
  else .ok (front ++ m.data)

theorem flagsByte_final {m : Message} (hflags : m.flags = ⟨true, false, false, false⟩) (hcode : m.opcode < 16) :
    m.flagsByte &&& 0xF0 = 0x80 ∧ m.flagsByte &&& 0x0F = m.opcode := by
  have hnibble : ∀ opcode : UInt8, opcode < 16 →
      (0x80 ||| 0 ||| 0 ||| 0 ||| (opcode &&& 0x0F)) &&& 0xF0 = 0x80 ∧
        (0x80 ||| 0 ||| 0 ||| 0 ||| (opcode &&& 0x0F)) &&& 0x0F = opcode := forall_byte (by decide +kernel)
  rw [flagsByte, hflags]
  exact hnibble m.opcode hcode

/-- The bytes of every length that a message can have. -/
theorem lengthBytes_eq (n : Fin 129) (masked : Bool) :
    let bytes := lengthBytes n.val masked
    let lenByte := bytes.getD 0 0 &&& 0x7F
    bytes = bytes.getD 0 0 :: bytes.tail ∧ decide (bytes.getD 0 0 &&& 0x80 ≠ 0) = masked ∧
      bytes.tail.length = extendedSize lenByte ∧ (if lenByte < 126 then lenByte.toNat else beNat bytes.tail) = n.val ∧
      ((∀ c ∈ bytes.tail, c < 0x80) ↔ n.val ≠ 128) := by
  have hall : ∀ (n : Fin 129) (masked : Bool),
      let bytes := lengthBytes n.val masked
      let lenByte := bytes.getD 0 0 &&& 0x7F
      bytes = bytes.getD 0 0 :: bytes.tail ∧ decide (bytes.getD 0 0 &&& 0x80 ≠ 0) = masked ∧
        bytes.tail.length = extendedSize lenByte ∧ (if lenByte < 126 then lenByte.toNat else beNat bytes.tail) = n.val ∧
        ((∀ c ∈ bytes.tail, c < 0x80) ↔ n.val ≠ 128) := by
    decide +kernel
  exact hall n masked

end Message

theorem unmask_unmask (maskingKey : Option Bytes) (data : Bytes) : unmask maskingKey (unmask maskingKey data) = data := by
  cases maskingKey with
  | none => rfl
  | some key =>
    apply List.ext_getElem
    · rw [unmask_length, unmask_length]
    · intro i _ _
      simp only [unmask, List.getElem_mapIdx]
      rw [UInt8.xor_assoc, UInt8.xor_self, UInt8.xor_zero]

/-- A frame by its parts: the bytes of its length field, the masking key if there is one, the data. -/
theorem frame_layout (char : CharSign) {flags byte : UInt8} {ext key payload : Bytes} (hflags : flags &&& 0xF0 = 0x80)
    (hext : ext.length = extendedSize (byte &&& 0x7F)) (hkey : key.length = if byte &&& 0x80 ≠ 0 then 4 else 0)
    (hlen : (if byte &&& 0x7F < 126 then (byte &&& 0x7F).toNat else beNat ext) = payload.length) :
    let buffer := flags :: byte :: (ext ++ (key ++ payload))
    (FrameAt char buffer ↔ Plain char ext) ∧ announcedLength buffer = payload.length ∧
      frontSize buffer + announcedLength buffer = buffer.length ∧
      frameMessage buffer = ⟨⟨true, false, false, false⟩, flags &&& 0x0F, byte &&& 0x80 ≠ 0,
        unmask (if byte &&& 0x80 ≠ 0 then some key else none) payload⟩ := by
  intro buffer
  have hlenByte : frameLenByte buffer = byte &&& 0x7F := rfl
  have hmasked : frameMasked buffer = decide (byte &&& 0x80 ≠ 0) := rfl
  have hbytes : extendedBytes buffer = ext := by
    rw [extendedBytes, hlenByte, ← hext]
    exact slice_field_first (a := ext) (key ++ payload) rfl
  have hannounced : announcedLength buffer = payload.length := by
    rw [announcedLength, hbytes, hlenByte]
    exact hlen
  have hfront : frontSize buffer = 2 + ext.length + key.length := by
    rw [frontSize, hlenByte, ← hext, hmasked, hkey]
    simp only [decide_eq_true_eq]
  have hwhole : frontSize buffer + announcedLength buffer = buffer.length := by
    rw [hfront, hannounced]
    simp only [buffer, List.length_cons, List.length_append]
    omega
  have hdata : slice buffer (frontSize buffer) (announcedLength buffer) = payload := by
    have hparts : buffer = (flags :: byte :: (ext ++ key)) ++ payload := by
      simp only [buffer, List.cons_append, List.append_assoc]
    have hsize : (flags :: byte :: (ext ++ key)).length = frontSize buffer := by
      rw [hfront, List.length_cons, List.length_cons, List.length_append]
      omega
    rw [hannounced, hparts]
    exact slice_field_last _ payload (hsize.trans (congrArg _ hparts)) rfl
  have hmask : (if frameMasked buffer = true then some (slice buffer (frontSize buffer - 4) 4) else none) =
      if byte &&& 0x80 ≠ 0 then some key else none := by
    rw [hmasked]
    simp only [decide_eq_true_eq]
    by_cases hset : byte &&& 0x80 ≠ 0
    · rw [if_pos hset] at hkey
      have hbegin : (flags :: byte :: ext).length = frontSize buffer - 4 := by
        rw [hfront, hkey, List.length_cons, List.length_cons]
        omega
      have hread : slice buffer (frontSize buffer - 4) 4 = key := slice_field (flags :: byte :: ext) key payload hbegin hkey
      rw [if_pos hset, if_pos hset, hread]
    · rw [if_neg hset, if_neg hset]
  refine ⟨⟨fun h => hbytes ▸ h.plain, fun h => ⟨hflags, hwhole.le, hbytes.symm ▸ h⟩⟩, hannounced, hwhole, ?_⟩
  rw [frameMessage, hdata, hmask, hmasked]
  rfl

/-- What `encode` writes: there is room for every message. -/
theorem encode_ok {m : Message} {maskingKey : Bytes} (hkey : maskingKey.length = 4)
    (hdata : m.data.length ≤ DATA_CAPACITY) :
    ∃ byte ext, m.encode maskingKey = .ok (m.flagsByte :: byte :: (ext ++ ((if m.masked = true then maskingKey else []) ++
        unmask (if m.masked = true then some maskingKey else none) m.data))) ∧
      (byte &&& 0x80 ≠ 0 ↔ m.masked = true) ∧ ext.length = extendedSize (byte &&& 0x7F) ∧
      (if byte &&& 0x7F < 126 then (byte &&& 0x7F).toNat else beNat ext) = m.data.length ∧
      ((∀ c ∈ ext, c < 0x80) ↔ m.data.length ≠ DATA_CAPACITY) := by
  obtain ⟨hbytes, hmasked, hext, hlen, hplain⟩ := Message.lengthBytes_eq ⟨m.data.length, Nat.lt_succ_of_le hdata⟩ m.masked
  dsimp only at hbytes hmasked hext hlen hplain
  generalize hfield : Message.lengthBytes m.data.length m.masked = bytes at hbytes hmasked hext hlen hplain
  generalize bytes.getD 0 0 = byte at hbytes hmasked hext hlen
  generalize bytes.tail = ext at hbytes hext hlen hplain
  subst hbytes
  refine ⟨byte, ext, ?_, ?_, hext, hlen, hplain⟩
  · have hsmall := extendedSize_le (byte &&& 0x7F)
    rw [DATA_CAPACITY] at hdata
    rw [Message.encode, hfield]
    dsimp only
    rw [if_neg (by rw [List.length_cons, List.length_cons, TRANSPORT_CAPACITY]; omega)]
    cases hm : m.masked with
    | false => rfl
    | true =>
      rw [if_pos rfl, if_pos rfl, if_pos rfl, if_neg]
      · simp
      · simp only [TRANSPORT_CAPACITY, List.length_append, List.length_cons, unmask_length]
        omega
  · rw [← hmasked, decide_eq_true_eq]

/-- An encoded message is the frame at the front of its bytes, where the target can read the length. -/
theorem encoded_frame (char : CharSign) {m : Message} {maskingKey : Bytes} (hkey : maskingKey.length = 4)
    (hflags : m.flags = ⟨true, false, false, false⟩) (hcode : m.opcode < 16) (hdata : m.data.length ≤ DATA_CAPACITY) :
    ∃ buffer, m.encode maskingKey = .ok buffer ∧ (FrameAt char buffer ↔ char = .unsigned ∨ m.data.length ≠ 128) ∧
      announcedLength buffer = m.data.length ∧ frontSize buffer + announcedLength buffer = buffer.length ∧
      frameMessage buffer = m := by
  obtain ⟨byte, ext, hencode, hmasked, hext, hlen, hplain⟩ := encode_ok hkey hdata
  obtain ⟨hnibble, hopcode⟩ := Message.flagsByte_final hflags hcode
  refine ⟨_, hencode, ?_⟩
  have hkeySize : (if m.masked = true then maskingKey else []).length = if byte &&& 0x80 ≠ 0 then 4 else 0 := by
    simp only [hmasked]
    split
    · exact hkey
    · rfl
  have hpayload := unmask_length (if m.masked = true then some maskingKey else none) m.data
  rw [← hpayload] at hlen
  obtain ⟨hframe, hannounced, hwhole, hmessage⟩ := frame_layout char hnibble hext hkeySize hlen
  refine ⟨?_, hannounced.trans hpayload, hwhole, ?_⟩
  · rw [hframe, Plain, hplain]
    cases char with
    | signed => simp [DATA_CAPACITY]
    | unsigned => simp
  · rw [hmessage, hopcode, ← hflags]
    simp only [hmasked]
    obtain ⟨flags, opcode, masked, data⟩ := m
    cases masked with
    | false => rfl
    | true =>
      have hdata := unmask_unmask (some maskingKey) data
      dsimp only
      rw [if_pos rfl, if_pos rfl, if_pos rfl, hdata]
      rfl

/-- **Messages round-trip.** An encoded message is read back, all of it, if and only if chars are
unsigned or the message does not have exactly 128 bytes. -/
theorem encode_parse_iff (char : CharSign) (m : Message) (maskingKey : Bytes) (hkey : maskingKey.length = 4)
    (hflags : m.flags = ⟨true, false, false, false⟩) (hcode : m.opcode < 16) (hdata : m.data.length ≤ DATA_CAPACITY) :
    (∃ buffer, m.encode maskingKey = .ok buffer ∧ parseOn char buffer = .packet m buffer.length) ↔
      char = .unsigned ∨ m.data.length ≠ 128 := by
  obtain ⟨buffer, hencode, hframe, hannounced, hwhole, hmessage⟩ := encoded_frame char hkey hflags hcode hdata
  have hsize : buffer.length < 2 ^ 63 := by
    have hfront := frontSize_le buffer
    rw [DATA_CAPACITY] at hdata
    omega
  rw [← hframe]
  constructor
  · rintro ⟨buffer', hencode', hparse⟩
    rw [hencode] at hencode'
    cases hencode'
    by_contra hno
    rw [parseOn_no_frame hsize hno] at hparse
    cases hparse
  · intro h
    refine ⟨buffer, hencode, ?_⟩
    rw [parseOn_frame h (hannounced.trans_le hdata), hmessage, hwhole]

/-- Text of 128 bytes, unmasked. -/
def largestMessage : Message := ⟨⟨true, false, false, false⟩, Opcode.TEXT, false, List.replicate 128 0⟩

theorem largestMessage_length : largestMessage.data.length = 128 := List.length_replicate

theorem largest_message_unsigned : ∃ buffer, largestMessage.encode (List.replicate 4 7) = .ok buffer ∧
    parseOn .unsigned buffer = .packet largestMessage buffer.length :=
  (encode_parse_iff .unsigned largestMessage (List.replicate 4 7) rfl rfl (by decide) largestMessage_length.le).mpr (Or.inl rfl)

theorem largest_message_signed : ¬ ∃ buffer, largestMessage.encode (List.replicate 4 7) = .ok buffer ∧
    parseOn .signed buffer = .packet largestMessage buffer.length := by
  rintro ⟨buffer, hencode, hparse⟩
  obtain ⟨buffer', hencode', hframe, hannounced, hwhole, -⟩ :=
    encoded_frame .signed (m := largestMessage) (List.length_replicate (n := 4) (a := 7)) rfl (by decide)
      largestMessage_length.le
  rw [hencode] at hencode'
  cases hencode'
  rw [largestMessage_length] at hframe hannounced
  have hfront := frontSize_le buffer
  have hno : ¬ FrameAt .signed buffer := by
    rw [hframe]
    decide
  rw [parseOn_no_frame (by omega) hno] at hparse
  cases hparse

end WebSocketClient
end Husarnet
