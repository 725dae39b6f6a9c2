import Husarnet.Http
import Husarnet.Lib.Searching

/-! # The parts of an HTTP message

What the stages of the parser make of a text, by its lines: the start line by its three fields, the header lines one
after the other up to the first blank line, the body by its length.
-/

namespace Husarnet
open Octets Containers Numerals
set_option autoImplicit false

namespace HTTPMessage

def CR : UInt8 := 0x0d
def LF : UInt8 := 0x0a
def SPACE : UInt8 := 0x20
def COLON : UInt8 := 0x3a

theorem eol_eq : EOL_DELIMITER = [CR, LF] := rfl
theorem blank_eq : BODY_DELIMITER = [CR, LF, CR, LF] := rfl
theorem cr_ne_lf : CR ≠ LF := by decide

/-! ## The start line -/

def startLine (field1 field2 field3 : Bytes) : Bytes := field1 ++ SPACE :: (field2 ++ SPACE :: field3)

/-- Three fields that make up one line. -/
structure OneLine (field1 field2 field3 : Bytes) : Prop where
  first : SPACE ∉ field1
  second : SPACE ∉ field2
  line : ¬ EOL_DELIMITER <:+: startLine field1 field2 field3

/-- What a start line says. -/
inductive Start where
  | request (method endpoint : Bytes)
  | response (statusCode : ℕ)

namespace Start

/-- The start line of three fields, if it is accepted. -/
def ofFields (lib : HttpLibrary) (field1 field2 field3 : Bytes) : Option Start :=
  if field1 = [] ∨ field2 = [] ∨ field3 = [] then none
  else if field1 = HTTP_VERSION then (lib.toUnsigned field2).map response
  else if field3 = HTTP_VERSION then
    if METHOD_CAPACITY < field1.length ∨ ENDPOINT_CAPACITY < field2.length then none else some (request field1 field2)
  else none

def put (m : HTTPMessage) : Start → HTTPMessage
  | request method endpoint => { m with messageType := .REQUEST, method := method, endpoint := endpoint }
  | response statusCode => { m with messageType := .RESPONSE, statusCode := statusCode }

/-- A message that shows it. -/
def Shown (m : HTTPMessage) : Start → Prop
  | request method endpoint => m.messageType = .REQUEST ∧ m.method = method ∧ m.endpoint = endpoint
  | response statusCode => m.messageType = .RESPONSE ∧ m.statusCode = statusCode

end Start

/-- What an accepted start line has. -/
theorem Start.ofFields_eq_some {lib : HttpLibrary} {field1 field2 field3 : Bytes} {start : Start}
    (h : Start.ofFields lib field1 field2 field3 = some start) :
    ¬ (field1 = [] ∨ field2 = [] ∨ field3 = []) ∧
      (field1 = HTTP_VERSION ∧ (∃ statusCode, lib.toUnsigned field2 = some statusCode ∧ start = response statusCode) ∨
        field1 ≠ HTTP_VERSION ∧ field3 = HTTP_VERSION ∧ field1.length ≤ METHOD_CAPACITY ∧
          field2.length ≤ ENDPOINT_CAPACITY ∧ start = request field1 field2) := by
  unfold Start.ofFields at h
  split at h
  · cases h
  · rename_i hfields
    refine ⟨hfields, ?_⟩
    split at h
    · rename_i hresponse
      obtain ⟨statusCode, hstatus, rfl⟩ := Option.map_eq_some_iff.mp h
      exact Or.inl ⟨hresponse, statusCode, hstatus, rfl⟩
    · rename_i hresponse
      split at h
      · rename_i hversion
        split at h
        · cases h
        · rename_i hfits
          cases h
          rw [not_or, not_lt, not_lt] at hfits
          exact Or.inr ⟨hresponse, hversion, hfits.1, hfits.2, rfl⟩
      · cases h

/-- The start line of a request. -/
theorem Start.ofFields_request (lib : HttpLibrary) {method endpoint : Bytes} (hmethod : method ≠ []) (hendpoint : endpoint ≠ [])
    (hmethodFits : method.length ≤ METHOD_CAPACITY) (hendpointFits : endpoint.length ≤ ENDPOINT_CAPACITY) :
    Start.ofFields lib method endpoint HTTP_VERSION = some (request method endpoint) := by
  have hfields : ¬ (method = [] ∨ endpoint = [] ∨ HTTP_VERSION = []) := by
    rintro (hnil | hnil | hnil)
    · exact hmethod hnil
    · exact hendpoint hnil
    · exact absurd hnil (by decide)
  have hresponse : ¬ method = HTTP_VERSION := by
    rintro rfl
    exact absurd hmethodFits (by decide)
  have hfits : ¬ (METHOD_CAPACITY < method.length ∨ ENDPOINT_CAPACITY < endpoint.length) := by
    rw [not_or, not_lt, not_lt]
    exact ⟨hmethodFits, hendpointFits⟩
  rw [Start.ofFields, if_neg hfields, if_neg hresponse, if_pos rfl, if_neg hfits]

theorem readStartLine_some {lib : HttpLibrary} {field1 field2 field3 : Bytes} {start : Start}
    (h : Start.ofFields lib field1 field2 field3 = some start) (m : HTTPMessage) (endOfLine : ℕ) :
    readStartLine lib m endOfLine field1 field2 field3 =
      (.OK, start.put { m with it := m.it + endOfLine + EOL_DELIMITER.length }) := by
  obtain ⟨hfields, ⟨hresponse, statusCode, hstatus, rfl⟩ | ⟨hresponse, hversion, hmethod, hendpoint, rfl⟩⟩ :=
    Start.ofFields_eq_some h
  · rw [readStartLine, if_neg hfields, if_pos hresponse, hstatus]
    rfl
  · rw [readStartLine, if_neg hfields, if_neg hresponse, if_pos hversion, if_neg (by omega), List.take_of_length_le hmethod,
      List.take_of_length_le hendpoint]
    rfl

theorem readStartLine_none {lib : HttpLibrary} {field1 field2 field3 : Bytes}
    (h : Start.ofFields lib field1 field2 field3 = none) (m : HTTPMessage) (endOfLine : ℕ) :
    (readStartLine lib m endOfLine field1 field2 field3).1 = .INVALID := by
  unfold Start.ofFields at h
  unfold readStartLine
  dsimp only
  split at h
  · rename_i hfields
    rw [if_pos hfields]
  · rename_i hfields
    rw [if_neg hfields]
    split at h
    · rename_i hresponse
      rw [if_pos hresponse, Option.map_eq_none_iff.mp h]
    · rename_i hresponse
      rw [if_neg hresponse]
      split at h
      · rename_i hversion
        split at h
        · rename_i hfits
          rw [if_pos hversion, if_pos hfits]
        · cases h
      · rename_i hversion
        rw [if_neg hversion]

/-- What stands behind the second space, up to the end of the line if the space is in the line. -/
def thirdField (endOfLine space2 : ℕ) (behind : Bytes) : Bytes :=
  if space2 + 1 ≤ endOfLine then behind.take (endOfLine - space2 - 1) else behind

/-- The start line of a text whose first line ends before `endOfLine`. The spaces are those of the whole text. -/
def startOf (lib : HttpLibrary) (text : Bytes) (endOfLine : ℕ) : Option Start :=
  match cutAt SPACE text with
  | none => none
  | some (field1, rest) =>
    match cutAt SPACE rest with
    | none => none
    | some (field2, behind) =>
      Start.ofFields lib field1 field2 (thirdField endOfLine (field1.length + 1 + field2.length) behind)

/-- **The start line stage**. -/
theorem parseStartLine_startOf (lib : HttpLibrary) {m : HTTPMessage} {endOfLine : ℕ}
    (hend : find EOL_DELIMITER m.view = some endOfLine) :
    match startOf lib m.view endOfLine with
    | none => (parseStartLine lib m).1 = .INVALID
    | some start => parseStartLine lib m = (.OK, start.put { m with it := m.it + endOfLine + EOL_DELIMITER.length }) := by
  have hspace : ascii " " = [SPACE] := rfl
  rw [parseStartLine, hend, hspace, startOf, cutAt]
  dsimp only
  cases hspace1 : find [SPACE] m.view with
  | none => rfl
  | some space1 =>
    rw [Option.map_some]
    dsimp only
    rw [cutAt]
    cases hgap : find [SPACE] (m.view.drop (space1 + 1)) with
    | none => rfl
    | some gap =>
      rw [Option.map_some]
      dsimp only
      have hlength1 : (m.view.take space1).length = space1 := by
        have hle := find_le (List.cons_ne_nil SPACE []) hspace1
        rw [List.length_take]
        exact Nat.min_eq_left ((Nat.le_add_right _ _).trans hle)
      have hlength2 : ((m.view.drop (space1 + 1)).take gap).length = gap := by
        have hle := find_le (List.cons_ne_nil SPACE []) hgap
        rw [List.length_take]
        exact Nat.min_eq_left ((Nat.le_add_right _ _).trans hle)
      have hthird : thirdField endOfLine (space1 + 1 + gap) ((m.view.drop (space1 + 1)).drop (gap + 1)) =
          if space1 + 1 + gap + 1 ≤ endOfLine then
            slice m.view (space1 + 1 + gap + 1) (endOfLine - (space1 + 1 + gap) - 1)
          else m.view.drop (space1 + 1 + gap + 1) := by
        rw [thirdField, slice, List.drop_drop]
        rfl
      rw [hlength1, hlength2, hthird]
      generalize (if space1 + 1 + gap + 1 ≤ endOfLine then
        slice m.view (space1 + 1 + gap + 1) (endOfLine - (space1 + 1 + gap) - 1)
        else m.view.drop (space1 + 1 + gap + 1)) = field3
      cases hstart : Start.ofFields lib (m.view.take space1) ((m.view.drop (space1 + 1)).take gap) field3 with
      | none => exact readStartLine_none hstart m endOfLine
      | some start => exact readStartLine_some hstart m endOfLine

theorem startOf_eq_some {lib : HttpLibrary} {text : Bytes} {endOfLine : ℕ} {start : Start}
    (h : startOf lib text endOfLine = some start) :
    ∃ field1 field2 behind, text = field1 ++ SPACE :: (field2 ++ SPACE :: behind) ∧ SPACE ∉ field1 ∧ SPACE ∉ field2 ∧
      Start.ofFields lib field1 field2 (thirdField endOfLine (field1.length + 1 + field2.length) behind) = some start := by
  rw [startOf] at h
  cases hfirst : cutAt SPACE text with
  | none =>
    rw [hfirst] at h
    cases h
  | some cut =>
    obtain ⟨field1, rest⟩ := cut
    rw [hfirst] at h
    dsimp only at h
    cases hsecond : cutAt SPACE rest with
    | none =>
      rw [hsecond] at h
      cases h
    | some cut =>
      obtain ⟨field2, behind⟩ := cut
      rw [hsecond] at h
      obtain ⟨rfl, hfield1⟩ := cutAt_eq_some hfirst
      obtain ⟨rfl, hfield2⟩ := cutAt_eq_some hsecond
      exact ⟨field1, field2, behind, rfl, hfield1, hfield2, h⟩

/-- The start line of a line with two spaces is that of its three fields, whatever follows. -/
theorem startOf_line (lib : HttpLibrary) {field1 field2 field3 : Bytes} (hfirst : SPACE ∉ field1) (hsecond : SPACE ∉ field2)
    (rest : Bytes) : startOf lib (startLine field1 field2 field3 ++ rest) (startLine field1 field2 field3).length =
      Start.ofFields lib field1 field2 field3 := by
  have htext : startLine field1 field2 field3 ++ rest = field1 ++ SPACE :: (field2 ++ SPACE :: (field3 ++ rest)) := by
    rw [startLine, List.append_assoc, List.cons_append, List.append_assoc, List.cons_append]
  have hlength : (startLine field1 field2 field3).length = field1.length + 1 + field2.length + 1 + field3.length := by
    rw [startLine, List.length_append, List.length_cons, List.length_append, List.length_cons]
    omega
  have hsize : (startLine field1 field2 field3).length - (field1.length + 1 + field2.length) - 1 = field3.length := by omega
  rw [startOf, htext, cutAt_append hfirst]
  dsimp only
  rw [cutAt_append hsecond]
  dsimp only
  rw [thirdField, if_pos (by omega), hsize, List.take_left]

/-! ## Header lines -/

/-- The key in front of the first colon, and the value two characters on. -/
def fieldOf (line : Bytes) : Bytes × Bytes := (line.takeWhile (· ≠ COLON), (line.dropWhile (· ≠ COLON)).drop 2)

/-- Header lines, one after the other. -/
def readLines : List Bytes → List (Bytes × Bytes) → Result × List (Bytes × Bytes)
  | [], headers => (.OK, headers)
  | line :: lines, headers =>
    if COLON ∈ line then readLines lines (assign headers (fieldOf line).1 (fieldOf line).2) else (.INVALID, headers)

/-- The headers of lines that all have a colon. -/
def withLines (headers : List (Bytes × Bytes)) (lines : List Bytes) : List (Bytes × Bytes) :=
  lines.foldl (fun headers line => assign headers (fieldOf line).1 (fieldOf line).2) headers

theorem readLines_ok {lines : List Bytes} (h : ∀ line ∈ lines, COLON ∈ line) (headers : List (Bytes × Bytes)) :
    readLines lines headers = (.OK, withLines headers lines) := by
  induction lines generalizing headers with
  | nil => rfl
  | cons line lines ih =>
    obtain ⟨hline, hlines⟩ := List.forall_mem_cons.mp h
    rw [readLines, if_pos hline, ih hlines]
    rfl

theorem readLines_invalid {lines : List Bytes} (h : ¬ ∀ line ∈ lines, COLON ∈ line) (headers : List (Bytes × Bytes)) :
    ∃ headers', readLines lines headers = (.INVALID, headers') := by
  induction lines generalizing headers with
  | nil => exact absurd (by simp) h
  | cons line lines ih =>
    by_cases hline : COLON ∈ line
    · have hlines : ¬ ∀ line ∈ lines, COLON ∈ line := fun hall => h (List.forall_mem_cons.mpr ⟨hline, hall⟩)
      rw [readLines, if_pos hline]
      exact ih hlines _
    · exact ⟨headers, by rw [readLines, if_neg hline]⟩

theorem fieldOf_split {a b : Bytes} (h : COLON ∉ a) : fieldOf (a ++ COLON :: b) = (a, b.drop 1) := by
  have hkey : ∀ c ∈ a, decide (c ≠ COLON) = true := fun c hc => decide_eq_true (ne_of_mem_of_not_mem hc h)
  rw [fieldOf, List.takeWhile_append_of_pos hkey, List.dropWhile_append_of_pos hkey,
    List.takeWhile_cons_of_neg (by simp), List.dropWhile_cons_of_neg (by simp), List.append_nil]
  rfl

/-- **The loop over the header lines** reads them one after the other. -/
theorem parseLines_lines (front behind : Bytes) {lines : List Bytes}
    (h : ∀ line ∈ lines, line ≠ [] ∧ ¬ EOL_DELIMITER <:+: line) (headers : List (Bytes × Bytes)) {sep : ℕ}
    (hsep : sep + 2 = front.length + (joinLines CR LF lines).length) :
    parseLines (front ++ (joinLines CR LF lines ++ behind)) sep front.length headers = readLines lines headers := by
  induction lines generalizing front headers with
  | nil =>
    have hempty : (joinLines CR LF []).length = 0 := rfl
    rw [parseLines, if_neg (by omega)]
    rfl
  | cons line lines ih =>
    obtain ⟨⟨hne, hline⟩, hlines⟩ := List.forall_mem_cons.mp h
    have hjoin : joinLines CR LF (line :: lines) = line ++ EOL_DELIMITER ++ joinLines CR LF lines := rfl
    have hpos := List.length_pos_of_ne_nil hne
    have heol : EOL_DELIMITER.length = 2 := rfl
    have hlength : (joinLines CR LF (line :: lines)).length = line.length + 2 + (joinLines CR LF lines).length := by
      rw [hjoin, List.length_append, List.length_append, heol]
    have hdrop : (front ++ (joinLines CR LF (line :: lines) ++ behind)).drop front.length =
        line ++ (EOL_DELIMITER ++ (joinLines CR LF lines ++ behind)) := by
      rw [List.drop_left, hjoin]
      simp only [List.append_assoc]
    have hfind : find EOL_DELIMITER ((front ++ (joinLines CR LF (line :: lines) ++ behind)).drop front.length) =
        some line.length := by
      rw [hdrop]
      exact find_line cr_ne_lf hline _
    have hslice : slice (front ++ (joinLines CR LF (line :: lines) ++ behind)) front.length line.length = line := by
      rw [slice, hdrop, List.take_left]
    have hnext : front ++ (joinLines CR LF (line :: lines) ++ behind) =
        front ++ line ++ EOL_DELIMITER ++ (joinLines CR LF lines ++ behind) := by
      rw [hjoin]
      simp only [List.append_assoc]
    have hfront : (front ++ line ++ EOL_DELIMITER).length = front.length + line.length + 2 := by
      rw [List.length_append, List.length_append, heol]
    rw [parseLines, if_pos (by omega), hfind]
    dsimp only
    rw [hslice, if_neg hne, readLines]
    by_cases hcolon : COLON ∈ line
    · obtain ⟨a, b, rfl, ha, hfindColon⟩ := find_char_isSome hcolon
      have hkey : slice (a ++ COLON :: b) 0 a.length = a := slice_field_first _ rfl
      have hvalue : (a ++ COLON :: b).drop (a.length + 2) = b.drop 1 := by
        rw [← List.drop_drop, List.drop_left]
        rfl
      have hsearch : find (ascii ":") (a ++ COLON :: b) = some a.length := hfindColon
      rw [if_pos hcolon, hsearch]
      dsimp only
      rw [hkey, hvalue, fieldOf_split ha, hnext, ← hfront]
      exact ih _ hlines _ (by omega)
    · have hsearch : find (ascii ":") line = none := find_char_none hcolon
      rw [if_neg hcolon, hsearch]

/-- A first line that is empty ends the loop. -/
theorem parseLines_empty {view : Bytes} {sep : ℕ} (h : EOL_DELIMITER <+: view) (headers : List (Bytes × Bytes)) :
    parseLines view sep 0 headers = (.OK, headers) := by
  obtain ⟨rest, rfl⟩ := h
  have hfind : find EOL_DELIMITER ((EOL_DELIMITER ++ rest).drop 0) = some 0 :=
    find_line cr_ne_lf (l := []) (by decide) rest
  rw [parseLines]
  split
  · rw [hfind]
    rfl
  · rfl

/-! ## The header block -/

/-- The lines in front of the first blank line. An empty first line hides the others. -/
def readBlock (lines : List Bytes) (headers : List (Bytes × Bytes)) : Result × List (Bytes × Bytes) :=
  if lines.head? = some [] then (.OK, headers) else readLines lines headers

/-- The text is cut at its first blank line. -/
structure Block (text head behind : Bytes) : Prop where
  text_eq : text = head ++ (BODY_DELIMITER ++ behind)
  first : ¬ BODY_DELIMITER <:+: head ++ BODY_DELIMITER.dropLast

theorem Block.find {text head behind : Bytes} (h : Block text head behind) : find BODY_DELIMITER text = some head.length := by
  rw [h.text_eq]
  exact find_of_split (by decide) behind h.first

theorem exists_block {text : Bytes} {sep : ℕ} (h : find BODY_DELIMITER text = some sep) :
    ∃ head behind, Block text head behind ∧ head.length = sep := by
  obtain ⟨head, behind, htext, hlength, hfirst⟩ := find_split (by decide) h
  exact ⟨head, behind, ⟨htext, hfirst⟩, hlength⟩

/-- **The header stage**, by the lines of the block. -/
theorem parseHeader_block {m : HTTPMessage} {head behind : Bytes} (h : Block m.view head behind) :
    m.parseHeader =
      match readBlock (splitLines CR LF head) m.headers with
      | (.OK, headers) =>
        (.OK, { m with headers := headers, it := m.it + head.length + BODY_DELIMITER.length, parserState := .BODY })
      | (result, headers) => (result, { m with headers := headers }) := by
  obtain ⟨hjoin, hfree⟩ := joinLines_splitLines cr_ne_lf head
  have hblank : ¬ [CR, LF, CR, LF] <:+: head ++ [CR, LF] := by
    intro hwithin
    refine h.first (hwithin.trans ?_)
    have hprefix : [CR, LF] <+: BODY_DELIMITER.dropLast := ⟨[CR], rfl⟩
    exact ((List.prefix_append_right_inj head).mpr hprefix).isInfix
  have htail := splitLines_tail_ne_nil cr_ne_lf hblank
  have hview : m.view = joinLines CR LF (splitLines CR LF head) ++ ([CR, LF] ++ behind) := by
    rw [h.text_eq, hjoin, blank_eq]
    simp
  have hlines : parseLines m.view head.length 0 m.headers = readBlock (splitLines CR LF head) m.headers := by
    obtain ⟨first, lines, hsplit⟩ := List.exists_cons_of_ne_nil (splitLines_ne_nil CR LF head)
    rw [hsplit] at hjoin hfree htail hview ⊢
    rw [readBlock, List.head?_cons]
    by_cases hempty : first = []
    · subst hempty
      rw [if_pos rfl, hview]
      exact parseLines_empty ⟨joinLines CR LF lines ++ ([CR, LF] ++ behind), by simp [joinLines, eol_eq]⟩ _
    · have hall : ∀ line ∈ first :: lines, line ≠ [] ∧ ¬ EOL_DELIMITER <:+: line := by
        intro line hline
        refine ⟨?_, hfree line hline⟩
        obtain rfl | hline := List.mem_cons.mp hline
        · exact hempty
        · exact htail line hline
      have hlength : head.length + 2 = ([] : Bytes).length + (joinLines CR LF (first :: lines)).length := by
        rw [hjoin, List.length_append]
        simp
      have hread := parseLines_lines [] ([CR, LF] ++ behind) hall m.headers hlength
      rw [List.nil_append, ← hview] at hread
      rw [if_neg fun hsome => hempty (Option.some.inj hsome)]
      exact hread
  rw [parseHeader, h.find]
  dsimp only
  generalize parseLines m.view head.length 0 m.headers = r at hlines ⊢
  subst hlines
  rfl

/-- Header lines that are well formed, and the rest behind their blank line. -/
theorem parseHeader_lines {m : HTTPMessage} {lines : List Bytes} (hne : lines ≠ [])
    (h : ∀ line ∈ lines, line ≠ [] ∧ ¬ EOL_DELIMITER <:+: line ∧ COLON ∈ line) {rest : Bytes}
    (hview : m.view = joinLines CR LF lines ++ (EOL_DELIMITER ++ rest)) :
    m.parseHeader = (.OK, { m with
      headers := withLines m.headers lines
      it := m.it + (joinLines CR LF lines).length + EOL_DELIMITER.length
      parserState := .BODY }) := by
  have hfree : ∀ line ∈ lines, line ≠ [] ∧ ¬ EOL_DELIMITER <:+: line := fun line hline => ⟨(h line hline).1, (h line hline).2.1⟩
  have hcolon : ∀ line ∈ lines, COLON ∈ line := fun line hline => (h line hline).2.2
  obtain ⟨sep, hfind, hsep⟩ := find_blank_lines cr_ne_lf hne hfree rest
  have hlength : sep + 2 = ([] : Bytes).length + (joinLines CR LF lines).length := by
    rw [hsep, List.length_nil, Nat.zero_add]
  have hread := parseLines_lines [] (EOL_DELIMITER ++ rest) hfree m.headers hlength
  rw [readLines_ok hcolon, List.nil_append, ← hview, List.length_nil] at hread
  have hblank : find BODY_DELIMITER m.view = some sep := by
    rw [hview]
    exact hfind
  have hit : m.it + sep + BODY_DELIMITER.length = m.it + (joinLines CR LF lines).length + EOL_DELIMITER.length := by
    have hfour : BODY_DELIMITER.length = 4 := rfl
    have htwo : EOL_DELIMITER.length = 2 := rfl
    omega
  rw [parseHeader, hblank]
  dsimp only
  rw [hread, hit]

/-- No blank line behind a start line: the message goes on. -/
theorem parseHeader_open {m : HTTPMessage} (h : ¬ BODY_DELIMITER <:+: m.view) : m.parseHeader = (.INCOMPLETE, m) := by
  rw [parseHeader, (find_eq_none_iff (by decide)).mpr h]

/-! ## From the start line to the body -/

/-- The message behind its start line. -/
def started (m : HTTPMessage) (start : Start) (endOfLine : ℕ) : HTTPMessage :=
  start.put { m with buffer := m.view, it := endOfLine + EOL_DELIMITER.length, parserState := .HEADER }

theorem started_eq (m : HTTPMessage) (start : Start) (endOfLine : ℕ) :
    (m.started start endOfLine).buffer = m.view ∧ (m.started start endOfLine).it = endOfLine + EOL_DELIMITER.length ∧
      (m.started start endOfLine).headers = m.headers ∧ (m.started start endOfLine).body = m.body ∧
      start.Shown (m.started start endOfLine) := by
  cases start with
  | request method endpoint => exact ⟨rfl, rfl, rfl, rfl, rfl, rfl, rfl⟩
  | response statusCode => exact ⟨rfl, rfl, rfl, rfl, rfl, rfl⟩

section Stages
variable {lib : HttpLibrary} {m : HTTPMessage} {field1 field2 field3 rest : Bytes} (hstate : m.parserState = .START_LINE)
  (hline : OneLine field1 field2 field3) (hview : m.view = startLine field1 field2 field3 ++ (EOL_DELIMITER ++ rest))
include hstate

/-- **The first line** is read from the text as it has arrived. -/
theorem run_line {endOfLine : ℕ} (hend : find EOL_DELIMITER m.view = some endOfLine) :
    match startOf lib m.view endOfLine with
    | none => (run lib m).1 = .INVALID
    | some start => run lib m = runHeader lib (m.started start endOfLine) := by
  have hrun : run lib m = runStartLine lib m := by rw [run, hstate]
  have hread := @parseStartLine_startOf lib { m with buffer := m.view, it := 0 } endOfLine hend
  have hview : view { m with buffer := m.view, it := 0 } = m.view := rfl
  rw [hview] at hread
  rw [hrun, runStartLine]
  cases hstart : startOf lib m.view endOfLine with
  | none =>
    rw [hstart] at hread
    generalize parseStartLine lib { m with buffer := m.view, it := 0 } = r at hread
    obtain ⟨result, m'⟩ := r
    cases hread
    rfl
  | some start =>
    rw [hstart] at hread
    dsimp only at hread ⊢
    rw [hread]
    dsimp only
    rw [Nat.zero_add]
    cases start <;> rfl

/-- Without a line end the object waits. -/
theorem run_open (h : ¬ EOL_DELIMITER <:+: m.view) : run lib m = (.INCOMPLETE, { m with buffer := m.view, it := 0 }) := by
  have hend : find EOL_DELIMITER (view { m with buffer := m.view, it := 0 }) = none :=
    (find_eq_none_iff (by decide)).mpr h
  have hread : parseStartLine lib { m with buffer := m.view, it := 0 } =
      (.INCOMPLETE, { m with buffer := m.view, it := 0 }) := by rw [parseStartLine, hend]
  have hrun : run lib m = runStartLine lib m := by rw [run, hstate]
  rw [hrun, runStartLine, hread]

/-- What can come of the first line. -/
theorem run_line_cases (lib : HttpLibrary) : run lib m = (.INCOMPLETE, { m with buffer := m.view, it := 0 }) ∨
    (run lib m).1 = .INVALID ∨ ∃ endOfLine start, startOf lib m.view endOfLine = some start ∧
      run lib m = runHeader lib (m.started start endOfLine) := by
  cases hend : find EOL_DELIMITER m.view with
  | none => exact Or.inl (run_open hstate ((find_eq_none_iff (by decide)).mp hend))
  | some endOfLine =>
    have hrun := @run_line lib m hstate endOfLine hend
    cases hstart : startOf lib m.view endOfLine with
    | none =>
      rw [hstart] at hrun
      exact Or.inr (Or.inl hrun)
    | some start =>
      rw [hstart] at hrun
      exact Or.inr (Or.inr ⟨endOfLine, start, hstart, hrun⟩)

include hline hview

theorem run_fields : match Start.ofFields lib field1 field2 field3 with
    | none => (run lib m).1 = .INVALID
    | some start => run lib m = runHeader lib (m.started start (startLine field1 field2 field3).length) := by
  have hend : find EOL_DELIMITER m.view = some (startLine field1 field2 field3).length := by
    rw [hview]
    exact find_line cr_ne_lf hline.line rest
  have hstart : startOf lib m.view (startLine field1 field2 field3).length = Start.ofFields lib field1 field2 field3 := by
    rw [hview]
    exact startOf_line lib hline.first hline.second _
  have hrun := @run_line lib m hstate _ hend
  rwa [hstart] at hrun

/-- **The start line** that is accepted gives way to the headers. -/
theorem run_startLine {start : Start} (hstart : Start.ofFields lib field1 field2 field3 = some start) :
    run lib m = runHeader lib (m.started start (startLine field1 field2 field3).length) ∧
      (m.started start (startLine field1 field2 field3).length).view = rest := by
  have hrun := @run_fields lib m field1 field2 field3 rest hstate hline hview
  rw [hstart] at hrun
  obtain ⟨hbuffer, hit, -⟩ := started_eq m start (startLine field1 field2 field3).length
  refine ⟨hrun, ?_⟩
  rw [view, hbuffer, hit, hview, ← List.drop_drop, List.drop_left, List.drop_left]

theorem run_startLine_invalid (hstart : Start.ofFields lib field1 field2 field3 = none) : (run lib m).1 = .INVALID := by
  have hrun := @run_fields lib m field1 field2 field3 rest hstate hline hview
  rwa [hstart] at hrun

end Stages

def CONTENT_LENGTH : Bytes := ascii "Content-Length"

/-- **The body** is what its length tells, and stays what it was where there is none. -/
theorem runBody_eq (lib : HttpLibrary) (m : HTTPMessage) :
    runBody lib m = match get? m.headers CONTENT_LENGTH with
      | none => (.OK, { m with parserState := .DONE })
      | some value =>
        if m.view.length < lib.toSize value then (.INCOMPLETE, m)
        else (.OK, { m with body := m.view.take (lib.toSize value), parserState := .DONE }) := by
  have hkey : ascii "Content-Length" = CONTENT_LENGTH := rfl
  rw [runBody, parseBody, hkey]
  cases get? m.headers CONTENT_LENGTH with
  | none => rfl
  | some value =>
    dsimp only
    by_cases hshort : m.view.length < lib.toSize value
    · rw [if_pos hshort, if_pos hshort]
    · rw [if_neg hshort, if_neg hshort]

theorem runHeader_lines (lib : HttpLibrary) {m : HTTPMessage} {lines : List Bytes} (hne : lines ≠ [])
    (h : ∀ line ∈ lines, line ≠ [] ∧ ¬ EOL_DELIMITER <:+: line ∧ COLON ∈ line) {rest : Bytes}
    (hview : m.view = joinLines CR LF lines ++ (EOL_DELIMITER ++ rest)) :
    ∃ it, runHeader lib m = runBody lib { m with headers := withLines m.headers lines, it := it, parserState := .BODY } ∧
      m.buffer.drop it = rest := by
  refine ⟨m.it + (joinLines CR LF lines).length + EOL_DELIMITER.length, ?_, ?_⟩
  · rw [runHeader, parseHeader_lines hne h hview]
  · rw [view] at hview
    rw [Nat.add_assoc, ← List.drop_drop, hview, ← List.drop_drop, List.drop_left, List.drop_left]

theorem runHeader_open (lib : HttpLibrary) {m : HTTPMessage} (h : ¬ BODY_DELIMITER <:+: m.view) :
    runHeader lib m = (.INCOMPLETE, m) := by
  rw [runHeader, parseHeader_open h]

theorem not_infix_of_not_mem {s : Bytes} (h : CR ∉ s) : ¬ EOL_DELIMITER <:+: s :=
  fun hwithin => h (hwithin.subset (List.mem_cons_self ..))

/-- The text of a message with header lines and something behind them. -/
def messageText (line : Bytes) (lines : List Bytes) (rest : Bytes) : Bytes :=
  line ++ (EOL_DELIMITER ++ (joinLines CR LF lines ++ (EOL_DELIMITER ++ rest)))

/-- **A message** up to its body. -/
theorem run_message (lib : HttpLibrary) {m : HTTPMessage} (hstate : m.parserState = .START_LINE)
    {field1 field2 field3 : Bytes} (hline : OneLine field1 field2 field3) {start : Start}
    (hstart : Start.ofFields lib field1 field2 field3 = some start) {lines : List Bytes} (hne : lines ≠ [])
    (hlines : ∀ line ∈ lines, line ≠ [] ∧ ¬ EOL_DELIMITER <:+: line ∧ COLON ∈ line) {rest : Bytes}
    (hview : m.view = messageText (startLine field1 field2 field3) lines rest) :
    ∃ m', run lib m = runBody lib m' ∧ start.Shown m' ∧ m'.headers = withLines m.headers lines ∧ m'.body = m.body ∧
      m'.view = rest := by
  obtain ⟨hrun, hbehind⟩ := run_startLine hstate hline hview hstart
  obtain ⟨it, hheader, hrest⟩ := runHeader_lines lib hne hlines hbehind
  obtain ⟨-, -, hheaders, hbody, hshown⟩ := started_eq m start (startLine field1 field2 field3).length
  refine ⟨_, hrun.trans hheader, ?_, ?_, hbody, hrest⟩
  · cases start <;> exact hshown
  · rw [hheaders]

/-- A message without header lines goes on: there is no blank line in it. -/
theorem run_message_open (lib : HttpLibrary) {m : HTTPMessage} (hstate : m.parserState = .START_LINE)
    {field1 field2 field3 : Bytes} (hline : OneLine field1 field2 field3) {start : Start}
    (hstart : Start.ofFields lib field1 field2 field3 = some start)
    (hview : m.view = messageText (startLine field1 field2 field3) [] []) : (run lib m).1 = .INCOMPLETE := by
  obtain ⟨hrun, hbehind⟩ := run_startLine hstate hline hview hstart
  have hopen : ¬ BODY_DELIMITER <:+: (m.started start (startLine field1 field2 field3).length).view := by
    rw [hbehind]
    exact fun hwithin => absurd hwithin.length_le (by decide)
  rw [hrun, runHeader_open lib hopen]

/-! ## Calls -/

theorem parse_small (lib : HttpLibrary) {m : HTTPMessage} {bufferView : Bytes}
    (hsize : m.buffer.length + bufferView.length ≤ BUFFER_CAPACITY) (hit : m.it ≤ m.buffer.length + bufferView.length) :
    parse lib m bufferView = .ok (finish (run lib { m with buffer := m.buffer ++ bufferView })) := by
  have hcapacity : BUFFER_CAPACITY = 2048 := rfl
  have hmax : MAX_MESSAGE_LENGTH = 8192 := rfl
  have hlength : (m.buffer ++ bufferView).length = m.buffer.length + bufferView.length := List.length_append
  unfold parse
  dsimp only
  rw [if_neg (by omega), if_neg (by omega)]

/-- More than was reserved. -/
theorem parse_large (lib : HttpLibrary) {m : HTTPMessage} {bufferView : Bytes}
    (hsize : BUFFER_CAPACITY < m.buffer.length + bufferView.length)
    (hmax : m.buffer.length + bufferView.length ≤ MAX_MESSAGE_LENGTH) : parse lib m bufferView = .error .iterator := by
  have hlength : (m.buffer ++ bufferView).length = m.buffer.length + bufferView.length := List.length_append
  unfold parse
  dsimp only
  rw [if_neg (by omega), if_pos (Or.inl (by omega))]

/-- More than a message may have. -/
theorem parse_excessive (lib : HttpLibrary) {m : HTTPMessage} {bufferView : Bytes}
    (hmax : MAX_MESSAGE_LENGTH < m.buffer.length + bufferView.length) :
    parse lib m bufferView = .ok (.INVALID, { m with buffer := [] }) := by
  have hlength : (m.buffer ++ bufferView).length = m.buffer.length + bufferView.length := List.length_append
  unfold parse
  dsimp only
  rw [if_pos (by omega)]

/-- What a call returns. -/
theorem parse_eq_ok {lib : HttpLibrary} {m m' : HTTPMessage} {bufferView : Bytes} {result : Result}
    (h : parse lib m bufferView = .ok (result, m')) :
    result = .INVALID ∧ MAX_MESSAGE_LENGTH < m.buffer.length + bufferView.length ∧ m' = { m with buffer := [] } ∨
      m.buffer.length + bufferView.length ≤ BUFFER_CAPACITY ∧ m.it ≤ m.buffer.length + bufferView.length ∧
        finish (run lib { m with buffer := m.buffer ++ bufferView }) = (result, m') := by
  have hlength : (m.buffer ++ bufferView).length = m.buffer.length + bufferView.length := List.length_append
  unfold parse at h
  dsimp only at h
  rw [hlength] at h
  split at h
  · rename_i hmax
    cases h
    exact Or.inl ⟨rfl, hmax, rfl⟩
  · split at h
    · cases h
    · rename_i hwithin
      rw [not_or, not_lt, not_lt] at hwithin
      exact Or.inr ⟨hwithin.1, hwithin.2, Except.ok.inj h⟩

theorem finish_ok {r : Result × HTTPMessage} (h : r.1 = .OK) : finish r = (.OK, { r.2 with parserState := .START_LINE }) := by
  obtain ⟨result, m⟩ := r
  cases h
  rfl

theorem finish_eq_ok {r : Result × HTTPMessage} {m : HTTPMessage} (h : finish r = (.OK, m)) :
    r.1 = .OK ∧ m = { r.2 with parserState := .START_LINE } := by
  obtain ⟨result, m'⟩ := r
  cases result with
  | OK =>
    cases h
    exact ⟨rfl, rfl⟩
  | INCOMPLETE => cases h
  | INVALID => cases h

theorem finish_eq_incomplete {r : Result × HTTPMessage} {m : HTTPMessage} (h : finish r = (.INCOMPLETE, m)) :
    r = (.INCOMPLETE, m) := by
  obtain ⟨result, m'⟩ := r
  cases result with
  | OK => cases h
  | INCOMPLETE => exact h
  | INVALID => cases h

theorem finish_eq_invalid {r : Result × HTTPMessage} {m : HTTPMessage} (h : finish r = (.INVALID, m)) :
    r.1 = .INVALID ∧ m = { r.2 with parserState := .START_LINE, buffer := [], it := 0 } := by
  obtain ⟨result, m'⟩ := r
  cases result with
  | OK => cases h
  | INCOMPLETE => cases h
  | INVALID =>
    cases h
    exact ⟨rfl, rfl⟩

theorem finish_fst (r : Result × HTTPMessage) : (finish r).1 = r.1 := by
  obtain ⟨result, m'⟩ := r
  cases result <;> rfl

/-- One call for each chunk until a call does not return `INCOMPLETE`: what it returns, and the text up to it. -/
def feed (lib : HttpLibrary) : HTTPMessage → Bytes → List Bytes → Checked (Result × HTTPMessage × Bytes)
  | m, fed, [] => .ok (.INCOMPLETE, m, fed)
  | m, fed, chunk :: chunks => do
    let (result, m) ← parse lib m chunk
    if result = .INCOMPLETE then feed lib m (fed ++ chunk) chunks else return (result, m, fed ++ chunk)

/-! ## Results compared -/

/-- The same type, status or method and endpoint, headers and body. -/
structure SameMessage (m m' : HTTPMessage) : Prop where
  messageType : m.messageType = m'.messageType
  request : m'.messageType = .REQUEST → m.method = m'.method ∧ m.endpoint = m'.endpoint
  response : m'.messageType = .RESPONSE → m.statusCode = m'.statusCode
  headers : ∀ key, get? m.headers key = get? m'.headers key
  body : m.body = m'.body

theorem Start.Shown.same {start : Start} {m m' : HTTPMessage} (h : start.Shown m) (h' : start.Shown m')
    (hheaders : ∀ key, get? m.headers key = get? m'.headers key) (hbody : m.body = m'.body) : SameMessage m m' := by
  cases start with
  | request method endpoint =>
    obtain ⟨htype, hmethod, hendpoint⟩ := h
    obtain ⟨htype', hmethod', hendpoint'⟩ := h'
    refine ⟨htype.trans htype'.symm, fun _ => ⟨hmethod.trans hmethod'.symm, hendpoint.trans hendpoint'.symm⟩, ?_, hheaders,
      hbody⟩
    rw [htype']
    exact nofun
  | response statusCode =>
    obtain ⟨htype, hstatus⟩ := h
    obtain ⟨htype', hstatus'⟩ := h'
    refine ⟨htype.trans htype'.symm, ?_, fun _ => hstatus.trans hstatus'.symm, hheaders, hbody⟩
    rw [htype']
    exact nofun

end HTTPMessage
end Husarnet
