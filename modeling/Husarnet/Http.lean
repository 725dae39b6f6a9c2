import Husarnet.StringView
import Husarnet.Lib.Numerals
import Husarnet.Lib.Containers

/-! # HTTP messages

`HTTPMessage::parse` collects the bytes of a message in a buffer and goes on in it where the bytes
before ended: start line, headers, body. Decimal numbers are read by a library. The position in the
buffer is an iterator: it is void when the buffer outgrows the memory that the constructor reserved.
-/

namespace Husarnet
open Octets Containers Numerals
set_option autoImplicit false

/-- The library functions behind the handshake: decimal numbers, and the base64 form of a SHA-1
hash. -/
structure HttpLibrary where
  toUnsigned : Bytes → Option ℕ
  toSize : Bytes → ℕ
  sha1Base64 : Bytes → Bytes

namespace HTTPMessage

inductive Result where
  | OK
  | INCOMPLETE
  | INVALID
  deriving DecidableEq

inductive MessageType where
  | UNDEFINED
  | REQUEST
  | RESPONSE
  deriving DecidableEq

inductive ParseState where
  | START_LINE
  | HEADER
  | BODY
  | DONE
  deriving DecidableEq

def EOL_DELIMITER : Bytes := ascii "\r\n"
def BODY_DELIMITER : Bytes := ascii "\r\n\r\n"
def HTTP_VERSION : Bytes := ascii "HTTP/1.1"
def MAX_MESSAGE_LENGTH : ℕ := 8192

/-- What the constructor reserves. -/
def BUFFER_CAPACITY : ℕ := MAX_MESSAGE_LENGTH / 4

def METHOD_CAPACITY : ℕ := 7
def ENDPOINT_CAPACITY : ℕ := 256

end HTTPMessage

/-- `buffer` and `it` are the bytes collected and how far they are parsed. -/
structure HTTPMessage where
  statusCode : ℕ
  method : Bytes
  endpoint : Bytes
  messageType : HTTPMessage.MessageType
  headers : List (Bytes × Bytes)
  body : Bytes
  buffer : Bytes
  it : ℕ
  parserState : HTTPMessage.ParseState
  deriving DecidableEq

namespace HTTPMessage

def new : HTTPMessage where
  statusCode := 0
  method := []
  endpoint := []
  messageType := .UNDEFINED
  headers := []
  body := []
  buffer := []
  it := 0
  parserState := .START_LINE

/-! ## Parsing -/

def view (m : HTTPMessage) : Bytes := m.buffer.drop m.it

/-- The three fields of the start line, which ends before `endOfLine`. -/
def readStartLine (lib : HttpLibrary) (m : HTTPMessage) (endOfLine : ℕ) (field1 field2 field3 : Bytes) :
    Result × HTTPMessage :=
  let next := { m with it := m.it + endOfLine + EOL_DELIMITER.length }
  if field1 = [] ∨ field2 = [] ∨ field3 = [] then (.INVALID, m)
  else if field1 = HTTP_VERSION then
    match lib.toUnsigned field2 with
    | none => (.INVALID, { m with messageType := .RESPONSE })
    | some statusCode => (.OK, { next with messageType := .RESPONSE, statusCode := statusCode })
  else if field3 = HTTP_VERSION then
    let method := field1.take METHOD_CAPACITY
    let endpoint := field2.take ENDPOINT_CAPACITY
    if METHOD_CAPACITY < field1.length ∨ ENDPOINT_CAPACITY < field2.length then
      (.INVALID, { m with messageType := .REQUEST, method := method, endpoint := endpoint })
    else (.OK, { next with messageType := .REQUEST, method := method, endpoint := endpoint })
  else (.INVALID, m)

def parseStartLine (lib : HttpLibrary) (m : HTTPMessage) : Result × HTTPMessage :=
  match find EOL_DELIMITER m.view with
  | none => (.INCOMPLETE, m)
  | some endOfLine =>
    match find (ascii " ") m.view with
    | none => (.INVALID, m)
    | some space1 =>
      match find (ascii " ") (m.view.drop (space1 + 1)) with
      | none => (.INVALID, m)
      | some gap =>
        let space2 := space1 + 1 + gap
        -- the length is unsigned: where the space is behind the line it is larger than the view
        let field3 := if space2 + 1 ≤ endOfLine then slice m.view (space2 + 1) (endOfLine - space2 - 1)
          else m.view.drop (space2 + 1)
        readStartLine lib m endOfLine (slice m.view 0 space1) (slice m.view (space1 + 1) gap) field3

/-- The loop over the header lines before `sep`. A `substr` from behind the end of a line is empty. -/
def parseLines (view : Bytes) (sep pos : ℕ) (headers : List (Bytes × Bytes)) : Result × List (Bytes × Bytes) :=
  if pos < sep then
    match find EOL_DELIMITER (view.drop pos) with
    | none => (.INVALID, headers)
    | some len =>
      let line := slice view pos len
      if line = [] then (.OK, headers)
      else
        match find (ascii ":") line with
        | none => (.INVALID, headers)
        | some colon =>
          parseLines view sep (pos + len + 2) (assign headers (slice line 0 colon) (line.drop (colon + 2)))
  else (.OK, headers)
termination_by sep - pos

def parseHeader (m : HTTPMessage) : Result × HTTPMessage :=
  match find BODY_DELIMITER m.view with
  | none => (.INCOMPLETE, m)
  | some sep =>
    match parseLines m.view sep 0 m.headers with
    | (.OK, headers) =>
      (.OK, { m with headers := headers, it := m.it + sep + BODY_DELIMITER.length, parserState := .BODY })
    | (result, headers) => (result, { m with headers := headers })

def parseBody (lib : HttpLibrary) (m : HTTPMessage) : Result × HTTPMessage :=
  match get? m.headers (ascii "Content-Length") with
  | none => (.OK, m)
  | some value =>
    let contentLength := lib.toSize value
    if m.view.length < contentLength then (.INCOMPLETE, m)
    else (.OK, { m with body := m.view.take contentLength })

def runBody (lib : HttpLibrary) (m : HTTPMessage) : Result × HTTPMessage :=
  match m.parseBody lib with
  | (.OK, m) => (.OK, { m with parserState := .DONE })
  | (result, m) => (result, m)

def runHeader (lib : HttpLibrary) (m : HTTPMessage) : Result × HTTPMessage :=
  match m.parseHeader with
  | (.OK, m) => runBody lib { m with parserState := .BODY }
  | (result, m) => (result, m)

def runStartLine (lib : HttpLibrary) (m : HTTPMessage) : Result × HTTPMessage :=
  match parseStartLine lib { m with buffer := m.view, it := 0 } with
  | (.OK, m) => runHeader lib { m with parserState := .HEADER }
  | (result, m) => (result, m)

/-- The loop: each state that is done with gives way to the next one. -/
def run (lib : HttpLibrary) (m : HTTPMessage) : Result × HTTPMessage :=
  match m.parserState with
  | .START_LINE => runStartLine lib m
  | .HEADER => runHeader lib m
  | .BODY => runBody lib m
  | .DONE => (.OK, m)

/-- What is reset at the end of a call. -/
def finish : Result × HTTPMessage → Result × HTTPMessage
  | (.OK, m) => (.OK, { m with parserState := .START_LINE })
  | (.INCOMPLETE, m) => (.INCOMPLETE, m)
  | (.INVALID, m) => (.INVALID, { m with parserState := .START_LINE, buffer := [], it := 0 })

/-- The iterator must be within the buffer, and in the memory that was reserved for it. -/
def parse (lib : HttpLibrary) (m : HTTPMessage) (bufferView : Bytes) : Checked (Result × HTTPMessage) :=
  let buffer := m.buffer ++ bufferView
  if MAX_MESSAGE_LENGTH < buffer.length then .ok (.INVALID, { m with buffer := [] })
  else if BUFFER_CAPACITY < buffer.length ∨ buffer.length < m.it then .error .iterator
  else .ok (finish (run lib { m with buffer := buffer }))

/-! ## Encoding -/

/-- The entries of a map in the order of their keys. -/
def inKeyOrder (headers : List (Bytes × Bytes)) : List (Bytes × Bytes) := headers.insertionSort fun a b => a.1 ≤ b.1

/-- A header and its line end. -/
def headerLine (field : Bytes × Bytes) : Bytes := field.1 ++ ascii ": " ++ field.2 ++ EOL_DELIMITER

/-- `encode` into a buffer of some capacity: the text, and the message with its `Content-Length`. -/
def encode (capacity : ℕ) (m : HTTPMessage) : Checked (Bytes × HTTPMessage) :=
  let headers := if m.body = [] then m.headers else assign m.headers (ascii "Content-Length") (decimalText m.body.length)
  let text := m.method ++ ascii " " ++ m.endpoint ++ ascii " HTTP/1.1\r\n" ++ (inKeyOrder headers).flatMap headerLine ++
    EOL_DELIMITER ++ m.body
  if capacity < text.length then .error .capacity else .ok (text, { m with headers := headers })

/-! ## A message without its end -/

/-- The start line leaves the buffer, the headers and the body alone. -/
theorem readStartLine_keeps (lib : HttpLibrary) (m : HTTPMessage) (endOfLine : ℕ) (field1 field2 field3 : Bytes) :
    (readStartLine lib m endOfLine field1 field2 field3).2.buffer = m.buffer ∧
      (readStartLine lib m endOfLine field1 field2 field3).2.headers = m.headers ∧
      (readStartLine lib m endOfLine field1 field2 field3).2.body = m.body := by
  rw [readStartLine]
  dsimp only
  split
  · exact ⟨rfl, rfl, rfl⟩
  · split
    · cases lib.toUnsigned field2 with
      | none => exact ⟨rfl, rfl, rfl⟩
      | some statusCode => exact ⟨rfl, rfl, rfl⟩
    · split
      · split <;> exact ⟨rfl, rfl, rfl⟩
      · exact ⟨rfl, rfl, rfl⟩

theorem parseStartLine_keeps (lib : HttpLibrary) (m : HTTPMessage) :
    (parseStartLine lib m).2.buffer = m.buffer ∧ (parseStartLine lib m).2.headers = m.headers ∧
      (parseStartLine lib m).2.body = m.body := by
  rw [parseStartLine]
  cases find EOL_DELIMITER m.view with
  | none => exact ⟨rfl, rfl, rfl⟩
  | some endOfLine =>
    cases find (ascii " ") m.view with
    | none => exact ⟨rfl, rfl, rfl⟩
    | some space1 =>
      dsimp only
      cases find (ascii " ") (m.view.drop (space1 + 1)) with
      | none => exact ⟨rfl, rfl, rfl⟩
      | some gap => exact readStartLine_keeps ..

theorem runHeader_no_delimiter (lib : HttpLibrary) {m : HTTPMessage} (h : ¬ BODY_DELIMITER <:+: m.buffer) :
    runHeader lib m = (.INCOMPLETE, m) := by
  have hnone : find BODY_DELIMITER m.view = none := by
    cases hfind : find BODY_DELIMITER m.view with
    | none => rfl
    | some sep =>
      have hwithin := find_infix hfind
      rw [view] at hwithin
      exact absurd (hwithin.trans (List.drop_suffix _ _).isInfix) h
  have hheader : m.parseHeader = (.INCOMPLETE, m) := by rw [parseHeader, hnone]
  rw [runHeader, hheader]

theorem run_no_delimiter (lib : HttpLibrary) {bufferView : Bytes} (h : ¬ BODY_DELIMITER <:+: bufferView) :
    (run lib { new with buffer := bufferView }).1 ≠ .OK := by
  have hrun : run lib { new with buffer := bufferView } = match parseStartLine lib { new with buffer := bufferView } with
      | (.OK, m) => runHeader lib { m with parserState := .HEADER }
      | (result, m) => (result, m) := rfl
  obtain ⟨hbuffer, -⟩ := parseStartLine_keeps lib { new with buffer := bufferView }
  rw [hrun]
  generalize parseStartLine lib { new with buffer := bufferView } = r at hbuffer
  obtain ⟨res, m₁⟩ := r
  cases res with
  | OK =>
    have hbuffer : m₁.buffer = bufferView := hbuffer
    have hincomplete := @runHeader_no_delimiter lib { m₁ with parserState := .HEADER } (hbuffer.symm ▸ h)
    dsimp only
    rw [hincomplete]
    exact Result.noConfusion
  | INCOMPLETE => exact Result.noConfusion
  | INVALID => exact Result.noConfusion

theorem parse_no_delimiter (lib : HttpLibrary) {bufferView : Bytes} (h : ¬ BODY_DELIMITER <:+: bufferView)
    (m : HTTPMessage) : parse lib new bufferView ≠ .ok (.OK, m) := by
  intro hparse
  have hnot := run_no_delimiter lib h
  unfold parse at hparse
  dsimp only at hparse
  split at hparse
  · cases hparse
  · split at hparse
    · cases hparse
    · have hfinish : finish (run lib { new with buffer := bufferView }) = (.OK, m) := Except.ok.inj hparse
      generalize run lib { new with buffer := bufferView } = r at hnot hfinish
      obtain ⟨res, m'⟩ := r
      cases res with
      | OK => exact hnot rfl
      | INCOMPLETE => cases hfinish
      | INVALID => cases hfinish

end HTTPMessage
end Husarnet
