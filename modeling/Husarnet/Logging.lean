import Husarnet.Lib.JsonText
import Husarnet.Lib.Numerals

/-! # logging.h

The sink for logs in JSON puts the object together from its parts as they are. When the line that it writes is the
object that it should be.
-/

namespace Husarnet
open Octets JsonText Numerals
set_option autoImplicit false

namespace HusarnetJsonSink

/-- A record as the sink gets it: the format of the statement, and the arguments by their names, with their values as
text. -/
structure LogRecord where
  message_format : Bytes
  log_timestamp : UInt64
  log_level_description : Bytes
  named_args : Option (List (Bytes × Bytes))

/-- The message ends in front of the arguments, which stand behind two slashes. -/
def getMessageUpperBound (message_format : Bytes) : ℕ :=
  match find (ascii "//") message_format with
  | none => message_format.length
  | some pos => if 0 < pos ∧ message_format.getD (pos - 1) 0 = 0x20 then pos - 1 else pos

namespace LogRecord

def msg (r : LogRecord) : Bytes := r.message_format.take (getMessageUpperBound r.message_format)

/-- `std::to_string(log_timestamp)`. -/
def timestamp (r : LogRecord) : Bytes := decimalText r.log_timestamp.toNat

end LogRecord

/-- The three members that every line has. -/
def header (r : LogRecord) : Bytes :=
  ascii "\x7b\"timestamp\":\"" ++ r.timestamp ++ ascii "\",\"log_level\":\"" ++ r.log_level_description ++
    ascii "\",\"message\":\"" ++ r.msg ++ ascii "\""

/-- One turn of the loop over the arguments. -/
def appendArg (message : Bytes) (arg : Bytes × Bytes) : Bytes :=
  message ++ ascii ",\"" ++ arg.1 ++ ascii "\":\"" ++ arg.2 ++ ascii "\""

/-- `HusarnetJsonSink::write_log`: the bytes that go out. -/
def write_log (r : LogRecord) : Bytes :=
  let message := match r.named_args with
    | none => header r
    | some named_args => named_args.foldl appendArg (header r)
  message ++ ascii "\x7d\n"

/-! ## The line that it should be -/

/-- The members of the object: three that every line has, and one for each argument. -/
def members (r : LogRecord) : List (Bytes × Bytes) :=
  [(ascii "timestamp", r.timestamp), (ascii "log_level", r.log_level_description), (ascii "message", r.msg)] ++
    r.named_args.getD []

/-- One line that is one object, with the members that it should have under different names, and no others. -/
def WellFormedLine (r : LogRecord) (out : Bytes) : Prop :=
  ∃ line, out = line ++ [0x0a] ∧ (0x0a : UInt8) ∉ line ∧
    ∃ members', members'.Perm (members r) ∧ (members'.map Prod.fst).Nodup ∧ ObjectText members' line

theorem foldl_appendArg (args : List (Bytes × Bytes)) (message : Bytes) :
    args.foldl appendArg message = message ++ args.flatMap fun arg => [0x2c] ++ compactMember arg := by
  have hfirst : ascii ",\"" = [0x2c, 0x22] := by decide +kernel
  have hmiddle : ascii "\":\"" = [0x22, 0x3a, 0x22] := by decide +kernel
  have hlast : ascii "\"" = [0x22] := by decide +kernel
  induction args generalizing message with
  | nil => exact (List.append_nil message).symm
  | cons arg args ih =>
    rw [List.foldl_cons, ih, appendArg, hfirst, hmiddle, hlast, List.flatMap_cons, compactMember]
    simp only [List.append_assoc, List.cons_append, List.nil_append]

theorem intercalate_members (first : Bytes) (args : List (Bytes × Bytes)) :
    [0x2c].intercalate (first :: args.map compactMember) = first ++ args.flatMap fun arg => [0x2c] ++ compactMember arg := by
  induction args generalizing first with
  | nil => simp
  | cons arg args ih =>
    rw [List.map_cons, List.intercalate_cons_cons, ih, List.flatMap_cons]
    simp only [List.append_assoc]

theorem header_eq (r : LogRecord) :
    header r = [0x7b] ++ (compactMember (ascii "timestamp", r.timestamp) ++ ([0x2c] ++
      (compactMember (ascii "log_level", r.log_level_description) ++ ([0x2c] ++
        compactMember (ascii "message", r.msg))))) := by
  have hfirst : ascii "\x7b\"timestamp\":\"" = [0x7b, 0x22] ++ ascii "timestamp" ++ [0x22, 0x3a, 0x22] := by decide +kernel
  have hsecond : ascii "\",\"log_level\":\"" = [0x22, 0x2c, 0x22] ++ ascii "log_level" ++ [0x22, 0x3a, 0x22] := by
    decide +kernel
  have hthird : ascii "\",\"message\":\"" = [0x22, 0x2c, 0x22] ++ ascii "message" ++ [0x22, 0x3a, 0x22] := by
    decide +kernel
  have hlast : ascii "\"" = [0x22] := by decide +kernel
  rw [header, hfirst, hsecond, hthird, hlast]
  simp only [compactMember, List.append_assoc, List.cons_append, List.nil_append]

/-- What is written is the object without any escape. -/
theorem write_log_eq (r : LogRecord) : write_log r = compactObject (members r) ++ [0x0a] := by
  have hend : ascii "\x7d\n" = [0x7d] ++ [0x0a] := by decide +kernel
  have hmessage : (match r.named_args with
      | none => header r
      | some named_args => named_args.foldl appendArg (header r)) =
      header r ++ (r.named_args.getD []).flatMap fun arg => [0x2c] ++ compactMember arg := by
    cases r.named_args with
    | none => exact (List.append_nil _).symm
    | some args => exact foldl_appendArg args (header r)
  have hinner : [0x2c].intercalate ((members r).map compactMember) =
      compactMember (ascii "timestamp", r.timestamp) ++ ([0x2c] ++
        (compactMember (ascii "log_level", r.log_level_description) ++ ([0x2c] ++
          (compactMember (ascii "message", r.msg) ++
            (r.named_args.getD []).flatMap fun arg => [0x2c] ++ compactMember arg)))) := by
    rw [members, List.cons_append, List.cons_append, List.singleton_append, List.map_cons, List.map_cons, List.map_cons,
      List.intercalate_cons_cons, List.intercalate_cons_cons, intercalate_members]
    simp only [List.append_assoc]
  rw [write_log, hmessage, hend, header_eq, compactObject, hinner]
  simp only [List.append_assoc]

/-- The parts of a record that need no escape, and names that are all different. -/
structure NeedsNoEscape (r : LogRecord) : Prop where
  level : PlainText r.log_level_description
  msg : PlainText r.msg
  args : ∀ arg ∈ r.named_args.getD [], PlainText arg.1 ∧ PlainText arg.2
  reserved : ∀ arg ∈ r.named_args.getD [], arg.1 ≠ ascii "timestamp" ∧ arg.1 ≠ ascii "log_level" ∧ arg.1 ≠ ascii "message"
  distinct : ((r.named_args.getD []).map Prod.fst).Nodup

theorem plainText_timestamp (r : LogRecord) : PlainText r.timestamp := by
  have hdigit : ∀ c : UInt8, (0x30 ≤ c ∧ c ≤ 0x39) → 0x20 ≤ c.toNat ∧ c.toNat < 0x80 ∧ c ≠ 0x22 ∧ c ≠ 0x5c :=
    forall_byte (by decide +kernel)
  exact plainText_of_ascii fun c hc => hdigit c (decimalText_digits _ c hc)

theorem plainText_names : PlainText (ascii "timestamp") ∧ PlainText (ascii "log_level") ∧ PlainText (ascii "message") := by
  refine ⟨plainText_of_ascii ?_, plainText_of_ascii ?_, plainText_of_ascii ?_⟩
  · decide +kernel
  · decide +kernel
  · decide +kernel

theorem plainMembers_iff (r : LogRecord) : PlainMembers (members r) ↔
    PlainText r.log_level_description ∧ PlainText r.msg ∧ ∀ arg ∈ r.named_args.getD [], PlainText arg.1 ∧ PlainText arg.2 := by
  obtain ⟨htimestamp, hlevel, hmessage⟩ := plainText_names
  rw [PlainMembers, members]
  simp only [List.cons_append, List.nil_append, List.forall_mem_cons]
  constructor
  · rintro ⟨-, hl, hm, hargs⟩
    exact ⟨hl.2, hm.2, hargs⟩
  · rintro ⟨hl, hm, hargs⟩
    exact ⟨⟨htimestamp, plainText_timestamp r⟩, ⟨hlevel, hl⟩, ⟨hmessage, hm⟩, hargs⟩

theorem nodup_names_iff (r : LogRecord) : ((members r).map Prod.fst).Nodup ↔
    (∀ arg ∈ r.named_args.getD [], arg.1 ≠ ascii "timestamp" ∧ arg.1 ≠ ascii "log_level" ∧ arg.1 ≠ ascii "message") ∧
      ((r.named_args.getD []).map Prod.fst).Nodup := by
  have hheader : ascii "timestamp" ≠ ascii "log_level" ∧ ascii "timestamp" ≠ ascii "message" ∧
      ascii "log_level" ≠ ascii "message" := by decide +kernel
  have hnot (name : Bytes) : name ∉ (r.named_args.getD []).map Prod.fst ↔ ∀ arg ∈ r.named_args.getD [], arg.1 ≠ name := by
    rw [List.mem_map]
    constructor
    · exact fun h arg harg heq => h ⟨arg, harg, heq⟩
    · rintro h ⟨arg, harg, heq⟩
      exact h arg harg heq
  rw [members]
  simp only [List.cons_append, List.nil_append, List.map_cons, List.nodup_cons, List.mem_cons, not_or, hnot]
  constructor
  · rintro ⟨⟨-, -, htimestamp⟩, ⟨-, hlevel⟩, hmessage, hargs⟩
    exact ⟨fun arg harg => ⟨htimestamp arg harg, hlevel arg harg, hmessage arg harg⟩, hargs⟩
  · rintro ⟨hreserved, hargs⟩
    exact ⟨⟨hheader.1, hheader.2.1, fun arg harg => (hreserved arg harg).1⟩,
      ⟨hheader.2.2, fun arg harg => (hreserved arg harg).2.1⟩, fun arg harg => (hreserved arg harg).2.2, hargs⟩

/-- A line that is right has been put together of parts that need no escape. -/
theorem needsNoEscape_of_wellFormed {r : LogRecord} (h : WellFormedLine r (write_log r)) : NeedsNoEscape r := by
  rw [write_log_eq] at h
  obtain ⟨line, hout, -, members', hperm, hnodup, htext⟩ := h
  obtain rfl : compactObject (members r) = line := List.append_inj_left' hout rfl
  have hplain := (compactObject_iff (by simp [members])).mp ⟨members', hperm, htext⟩
  obtain ⟨hlevel, hmsg, hargs⟩ := (plainMembers_iff r).mp hplain
  obtain ⟨hreserved, hdistinct⟩ := (nodup_names_iff r).mp ((hperm.map Prod.fst).nodup_iff.mp hnodup)
  exact ⟨hlevel, hmsg, hargs, hreserved, hdistinct⟩

/-- **A JSON log line.** What is written for a record is one line, and one object with the members that it should have
and no others, if and only if no part of the record needs an escape and no two members have one name. -/
theorem json_line_iff (r : LogRecord) : WellFormedLine r (write_log r) ↔ NeedsNoEscape r := by
  refine ⟨needsNoEscape_of_wellFormed, ?_⟩
  rintro ⟨hlevel, hmsg, hargs, hreserved, hdistinct⟩
  have hplain := (plainMembers_iff r).mpr ⟨hlevel, hmsg, hargs⟩
  have hnames := (nodup_names_iff r).mpr ⟨hreserved, hdistinct⟩
  rw [write_log_eq]
  refine ⟨_, rfl, fun hnewline => ?_, members r, List.Perm.refl _, hnames, objectText_compact hplain⟩
  exact absurd (compactObject_not_control hplain _ hnewline) (by decide)

/-- A hello packet for another node, which an unauthenticated sender has given a device id of 16 bytes with quotation
marks. -/
def misdirectedHello : LogRecord where
  message_format := ascii "misdirected hello packet received // \x7bpeer\x7d"
  log_timestamp := 1700000000
  log_level_description := ascii "INFO"
  named_args := some [(ascii "peer", ascii "0\",\"forged\":\"yes")]

theorem misdirectedHello_forges :
    write_log misdirectedHello =
      ascii "\x7b\"timestamp\":\"1700000000\",\"log_level\":\"INFO\",\"message\":\"misdirected hello packet received\"," ++
        ascii "\"peer\":\"0\",\"forged\":\"yes\"\x7d\n" ∧
    ¬ WellFormedLine misdirectedHello (write_log misdirectedHello) := by
  refine ⟨by decide +kernel, fun h => ?_⟩
  have hplain := (needsNoEscape_of_wellFormed h).args _ (List.mem_singleton_self _)
  have hquote : (0x22 : UInt8) ∈ ascii "0\",\"forged\":\"yes" := by decide +kernel
  exact (hplain.2.bytes _ hquote).2 rfl

end HusarnetJsonSink
end Husarnet
