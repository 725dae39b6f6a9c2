import Husarnet.TcpConnection
import Husarnet.Http

/-! # The WebSocket client

The client reads a raw connection. Each read is one HTTP message while the connection is made, and
whole frames afterwards. What is left of a read is not kept.
-/

namespace Husarnet
open Octets Framing Containers
set_option autoImplicit false

namespace WebSocketClient

inductive State where
  | SOCK_CLOSED
  | WS_CLOSED
  | WS_CONNECTING
  | WS_OPEN
  | WS_CLOSING
  deriving DecidableEq

/-! ## Messages -/

/-- The cast from the four bits of a frame keeps values without a name. -/
abbrev Opcode := UInt8

namespace Opcode

def CONTINUATION : Opcode := 0x0
def TEXT : Opcode := 0x1
def BINARY : Opcode := 0x2
def CLOSE : Opcode := 0x8
def PING : Opcode := 0x9
def PONG : Opcode := 0xA

end Opcode

structure Flags where
  fin : Bool
  rsv1 : Bool
  rsv2 : Bool
  rsv3 : Bool
  deriving DecidableEq

structure Message where
  flags : Flags
  opcode : Opcode
  masked : Bool
  data : Bytes
  deriving DecidableEq

def DATA_CAPACITY : ℕ := 128

/-- A `char` as a `size_t`, where chars are signed. -/
def sizeOfChar (c : UInt8) : UInt64 := if c < 128 then c.toUInt64 else c.toUInt64 ||| 0xFFFFFFFFFFFFFF00

/-- The front of a frame: the message without its data, the masking key, the length of the data and
where it begins. -/
structure Header where
  flags : Flags
  opcode : Opcode
  maskingKey : Option Bytes
  length : ℕ
  size : ℕ
  deriving DecidableEq

def unmask : Option Bytes → Bytes → Bytes
  | none, data => data
  | some maskingKey, data => data.mapIdx fun i b => b ^^^ maskingKey.getD (i % 4) 0

/-- Why no message is at the front: the parser fails, or the data does not fit in the message. -/
inductive ParseFailure where
  | invalid
  | overflow
  deriving DecidableEq

/-! ## The parser

It is the same on every target but for the bytes of an extended length: a plain `char` is signed on some
targets and not on others. -/

inductive CharSign where
  | signed
  | unsigned
  deriving DecidableEq

def sizeOfCharOn : CharSign → UInt8 → UInt64
  | .signed, c => sizeOfChar c
  | .unsigned, c => c.toUInt64

def readLengthOn (char : CharSign) (bytes : Bytes) : UInt64 :=
  bytes.foldl (fun length c => (length <<< 8) ||| sizeOfCharOn char c) 0

/-- The length that a length byte announces with the bytes behind it, and the number of these bytes. -/
def lengthFieldOn (char : CharSign) (lenByte : UInt8) (behind : Bytes) : Option (UInt64 × ℕ) :=
  if lenByte < 126 then some (lenByte.toUInt64, 0)
  else if lenByte = 126 ∧ 2 ≤ behind.length then some (readLengthOn char (behind.take 2), 2)
  else if lenByte = 127 ∧ 8 ≤ behind.length then some (readLengthOn char (behind.take 8), 8)
  else none

/-- `parse` up to the data. -/
def parseHeaderOn (char : CharSign) (buffer : Bytes) : Option Header :=
  if buffer.length < 2 then none
  else
    let flags := buffer.getD 0 0
    let byte := buffer.getD 1 0
    if flags &&& 0x40 ≠ 0 ∨ flags &&& 0x20 ≠ 0 ∨ flags &&& 0x10 ≠ 0 then none
    else if flags &&& 0x80 = 0 then none
    else
      match lengthFieldOn char (byte &&& 0x7F) (buffer.drop 2) with
      | none => none
      | some (length, extended) =>
        let header (maskingKey : Option Bytes) (size : ℕ) : Header :=
          ⟨⟨true, false, false, false⟩, flags &&& 0x0F, maskingKey, length.toNat, size⟩
        if byte &&& 0x80 = 0 then some (header none (2 + extended))
        else if buffer.length < 2 + extended + 4 then none
        else some (header (some (slice buffer (2 + extended) 4)) (2 + extended + 4))

theorem lengthFieldOn_append {char : CharSign} {lenByte : UInt8} {behind : Bytes} {r : UInt64 × ℕ} (t : Bytes)
    (h : lengthFieldOn char lenByte behind = some r) :
    lengthFieldOn char lenByte (behind ++ t) = some r ∧ r.2 ≤ behind.length := by
  rw [lengthFieldOn] at h ⊢
  by_cases hshort : lenByte < 126
  · rw [if_pos hshort] at h ⊢
    cases h
    exact ⟨rfl, Nat.zero_le _⟩
  · rw [if_neg hshort] at h ⊢
    by_cases hmid : lenByte = 126 ∧ 2 ≤ behind.length
    · rw [if_pos hmid] at h
      cases h
      rw [if_pos ⟨hmid.1, by rw [List.length_append]; omega⟩, List.take_append_of_le_length hmid.2]
      exact ⟨rfl, hmid.2⟩
    · rw [if_neg hmid] at h
      by_cases hlong : lenByte = 127 ∧ 8 ≤ behind.length
      · rw [if_pos hlong] at h
        cases h
        have hnot : ¬ (lenByte = 126 ∧ 2 ≤ (behind ++ t).length) := fun hm => by
          rw [hlong.1] at hm
          exact absurd hm.1 (by decide)
        rw [if_neg hnot, if_pos ⟨hlong.1, by rw [List.length_append]; omega⟩, List.take_append_of_le_length hlong.2]
        exact ⟨rfl, hlong.2⟩
      · rw [if_neg hlong] at h
        cases h

/-- The front of a frame is within the buffer, and stays when more is behind it. -/
theorem parseHeaderOn_append {char : CharSign} {buffer : Bytes} {header : Header} (t : Bytes)
    (h : parseHeaderOn char buffer = some header) :
    parseHeaderOn char (buffer ++ t) = some header ∧ 2 ≤ header.size ∧ header.size ≤ buffer.length := by
  rw [parseHeaderOn] at h ⊢
  by_cases hlen : buffer.length < 2
  · rw [if_pos hlen] at h
    cases h
  · rw [if_neg hlen] at h
    have hmore : ¬ (buffer ++ t).length < 2 := by rw [List.length_append]; omega
    have hget {i : ℕ} (hi : i < 2) : (buffer ++ t).getD i 0 = buffer.getD i 0 := by
      rw [List.getD_eq_getElem?_getD, List.getD_eq_getElem?_getD, List.getElem?_append_left (by omega)]
    rw [if_neg hmore, hget (by decide : 0 < 2), hget (by decide : 1 < 2), List.drop_append_of_le_length (by omega)]
    dsimp only at h ⊢
    generalize buffer.getD 0 0 = flags at h ⊢
    generalize buffer.getD 1 0 = byte at h ⊢
    by_cases hrsv : flags &&& 0x40 ≠ 0 ∨ flags &&& 0x20 ≠ 0 ∨ flags &&& 0x10 ≠ 0
    · rw [if_pos hrsv] at h
      cases h
    · rw [if_neg hrsv] at h ⊢
      by_cases hfin : flags &&& 0x80 = 0
      · rw [if_pos hfin] at h
        cases h
      · rw [if_neg hfin] at h ⊢
        cases hfield : lengthFieldOn char (byte &&& 0x7F) (buffer.drop 2) with
        | none =>
          rw [hfield] at h
          cases h
        | some r =>
          obtain ⟨hagain, hextended⟩ := lengthFieldOn_append t hfield
          rw [List.length_drop] at hextended
          rw [hfield] at h
          rw [hagain]
          dsimp only at h ⊢
          by_cases hmask : byte &&& 0x80 = 0
          · rw [if_pos hmask] at h ⊢
            cases h
            exact ⟨rfl, Nat.le_add_right .., by dsimp only; omega⟩
          · rw [if_neg hmask] at h ⊢
            by_cases hkey : buffer.length < 2 + r.2 + 4
            · rw [if_pos hkey] at h
              cases h
            · rw [if_neg hkey] at h
              cases h
              have hkeyMore : ¬ (buffer ++ t).length < 2 + r.2 + 4 := by rw [List.length_append]; omega
              rw [if_neg hkeyMore, slice_append_left buffer t (by omega)]
              exact ⟨rfl, by dsimp only; omega, by dsimp only; omega⟩

@[simp] theorem unmask_length (maskingKey : Option Bytes) (data : Bytes) :
    (unmask maskingKey data).length = data.length := by
  cases maskingKey with
  | none => rfl
  | some key => exact List.length_mapIdx

def parseOn (char : CharSign) (buffer : Bytes) : Front Message ParseFailure :=
  match parseHeaderOn char buffer with
  | none => .stop .invalid
  | some header =>
    if buffer.length - header.size < header.length then .stop .invalid
    else if DATA_CAPACITY < header.length then .stop .overflow
    else
      .packet
        ⟨header.flags, header.opcode, header.maskingKey.isSome,
          unmask header.maskingKey (slice buffer header.size header.length)⟩
        (header.size + header.length)

/-- `parse` where a plain `char` is signed. -/
def parse (buffer : Bytes) : Front Message ParseFailure := parseOn .signed buffer

/-- What `parse` can give. -/
inductive Parsed (char : CharSign) (buffer : Bytes) : Front Message ParseFailure → Prop where
  | failed : Parsed char buffer (.stop .invalid)
  | overflow (header : Header) (hheader : parseHeaderOn char buffer = some header)
      (hdata : header.size + header.length ≤ buffer.length) (hlarge : DATA_CAPACITY < header.length) :
      Parsed char buffer (.stop .overflow)
  | message (header : Header) (hheader : parseHeaderOn char buffer = some header)
      (hdata : header.size + header.length ≤ buffer.length) (hfits : header.length ≤ DATA_CAPACITY) :
      Parsed char buffer (.packet
        ⟨header.flags, header.opcode, header.maskingKey.isSome,
          unmask header.maskingKey (slice buffer header.size header.length)⟩
        (header.size + header.length))

theorem parseOn_parsed (char : CharSign) (buffer : Bytes) : Parsed char buffer (parseOn char buffer) := by
  rw [parseOn]
  cases hheader : parseHeaderOn char buffer with
  | none => exact .failed
  | some header =>
    dsimp only
    obtain ⟨-, -, hsize⟩ := parseHeaderOn_append [] hheader
    split
    · exact .failed
    · split
      · exact .overflow header hheader (by omega) ‹_›
      · exact .message header hheader (by omega) (by omega)

theorem parse_parsed (buffer : Bytes) : Parsed .signed buffer (parse buffer) := parseOn_parsed .signed buffer

theorem parseOn_append {char : CharSign} {buffer : Bytes} (t : Bytes) (h : parseOn char buffer ≠ .stop .invalid) :
    parseOn char (buffer ++ t) = parseOn char buffer := by
  have hparsed := parseOn_parsed char buffer
  have hagain {header : Header} (hheader : parseHeaderOn char buffer = some header)
      (hdata : header.size + header.length ≤ buffer.length) : parseOn char (buffer ++ t) = parseOn char buffer := by
    have hmore : ¬ (buffer ++ t).length - header.size < header.length := by rw [List.length_append]; omega
    have henough : ¬ buffer.length - header.size < header.length := by omega
    rw [parseOn, parseOn, (parseHeaderOn_append t hheader).1, hheader]
    dsimp only
    rw [if_neg hmore, if_neg henough, slice_append_left buffer t hdata]
  generalize parseOn char buffer = front at h hparsed hagain
  cases hparsed with
  | failed => exact absurd rfl h
  | overflow header hheader hdata _ => exact hagain hheader hdata
  | message header hheader hdata _ => exact hagain hheader hdata

/-- The loop over the messages of a read. -/
def messagesOn (char : CharSign) : Framer UInt8 Message ParseFailure where
  next := parseOn char
  final why := why == .overflow
  size_pos := by
    intro s p n h
    have hparsed := parseOn_parsed char s
    rw [h] at hparsed
    cases hparsed with
    | message header hheader _ _ =>
      have hsize := (parseHeaderOn_append [] hheader).2.1
      omega
  size_le := by
    intro s p n h
    have hparsed := parseOn_parsed char s
    rw [h] at hparsed
    cases hparsed with
    | message _ _ hdata _ => exact hdata
  packet_stable := by
    intro s p n t h
    rw [parseOn_append t (by rw [h]; nofun), h]
  final_stable := by
    intro s e t h he
    have hnot : parseOn char s ≠ .stop .invalid := by
      rw [h]
      intro hinvalid
      cases hinvalid
      cases he
    rw [parseOn_append t hnot, h]

def messages : Framer UInt8 Message ParseFailure := messagesOn .signed

/-! ## The client -/

/-- What the user of the client sees: it is connected, or `onMessage` is called. -/
inductive Event where
  | connected
  | onMessage (data : Bytes)
  deriving DecidableEq

def SERVER_KEY : Bytes := ascii "258EAFA5-E914-47DA-95CA-C5AB0DC85B11"
def SERVER_KEY_NONCE_CAPACITY : ℕ := 64

def cString (s : Bytes) : Bytes := s.takeWhile (· ≠ 0)

end WebSocketClient

/-- `conn` tells whether there is a connection, `sent` are the replies to control frames, and
`aborted` that an assertion failed. -/
structure WebSocketClient where
  state : WebSocketClient.State
  conn : Bool
  nonce : Bytes
  events : List WebSocketClient.Event
  sent : List WebSocketClient.Message
  aborted : Bool
  deriving DecidableEq

namespace WebSocketClient

def connecting (nonce : Bytes) : WebSocketClient where
  state := .WS_CONNECTING
  conn := true
  nonce := nonce
  events := []
  sent := []
  aborted := false

def close (ws : WebSocketClient) : WebSocketClient :=
  if ws.conn = true then { ws with conn := false, state := .SOCK_CLOSED } else ws

/-- `_sendRaw` asserts that there is a connection. -/
def sendReply (ws : WebSocketClient) (message : Message) : WebSocketClient :=
  if ws.conn = true then { ws with sent := ws.sent ++ [message] } else { ws with aborted := true }

def sendPong (ws : WebSocketClient) (message : Message) : WebSocketClient :=
  ws.sendReply { message with opcode := Opcode.PONG, masked := true, flags := { message.flags with fin := true } }

def sendClose (ws : WebSocketClient) : WebSocketClient := ws.sendReply ⟨⟨true, false, false, false⟩, Opcode.CLOSE, true, []⟩

/-- A message of `_handleData`, by its opcode. -/
def handleMessage (ws : WebSocketClient) (message : Message) : WebSocketClient :=
  if ws.aborted = true then ws
  else if message.opcode = Opcode.TEXT ∨ message.opcode = Opcode.BINARY then
    { ws with events := ws.events ++ [.onMessage message.data] }
  else if message.opcode = Opcode.PING then ws.sendPong message
  else if message.opcode = Opcode.PONG then ws
  else if message.opcode = Opcode.CLOSE then
    let ws := sendClose { ws with state := .WS_CLOSING }
    if ws.aborted = true then ws else ws.close
  else ws

def handleData (ws : WebSocketClient) (buf : Bytes) : WebSocketClient :=
  let drained := messages.drain buf
  let ws := drained.packets.foldl handleMessage ws
  match drained.exit with
  | .invalid => ws
  | .overflow => { ws with aborted := true }

def verifyServerHandshake (lib : HttpLibrary) (nonce : Bytes) (message : HTTPMessage) : Bool :=
  let header (key : String) : Bytes := (get? message.headers (ascii key)).getD []
  let serverKeyNonce := (cString nonce ++ SERVER_KEY).take SERVER_KEY_NONCE_CAPACITY
  message.messageType = .RESPONSE ∧ message.statusCode = 101 ∧ header "Upgrade" = ascii "websocket" ∧
    header "Connection" = ascii "Upgrade" ∧ (get? message.headers (ascii "Sec-WebSocket-Accept")).isSome = true ∧
    cString (header "Sec-WebSocket-Accept") = lib.sha1Base64 serverKeyNonce

/-- A new message each time: what a read before left is not known. -/
def handleHandshake (lib : HttpLibrary) (ws : WebSocketClient) (buf : Bytes) : WebSocketClient :=
  match HTTPMessage.parse lib HTTPMessage.new buf with
  | .error _ => { ws with aborted := true }
  | .ok (.OK, message) =>
    if verifyServerHandshake lib ws.nonce message = true then
      { ws with state := .WS_OPEN, events := ws.events ++ [.connected] }
    else ws.close
  | .ok (_, _) => ws.close

def handleRead (lib : HttpLibrary) (ws : WebSocketClient) (buf : Bytes) : WebSocketClient :=
  match ws.state with
  | .SOCK_CLOSED => ws
  | .WS_CLOSED => ws
  | .WS_CONNECTING => ws.handleHandshake lib buf
  | .WS_OPEN => ws.handleData buf
  | .WS_CLOSING => ws.handleData buf

/-- The data callback of the connection. It closes the connection with the client, and there is
nothing behind an abort. -/
def dataCallback (lib : HttpLibrary) (ws : WebSocketClient) (buf : Bytes) : WebSocketClient × Bool :=
  let ws := ws.handleRead lib buf
  (ws, !ws.conn || ws.aborted)

/-! ## Messages that the client handles -/

namespace Message

def CarriesData (m : Message) : Prop := m.opcode = Opcode.TEXT ∨ m.opcode = Opcode.BINARY

instance (m : Message) : Decidable m.CarriesData := inferInstanceAs (Decidable (_ ∨ _))

def Answered (m : Message) : Prop := m.opcode = Opcode.PING ∨ m.opcode = Opcode.CLOSE

end Message

structure Live (ws : WebSocketClient) : Prop where
  opened : ws.state = .WS_OPEN
  conn : ws.conn = true
  running : ws.aborted = false

structure Closed (ws : WebSocketClient) : Prop where
  conn : ws.conn = false
  running : ws.aborted = false

section Messages
variable {ws : WebSocketClient} {m : Message}

theorem handleMessage_aborted (h : ws.aborted = true) (m : Message) : ws.handleMessage m = ws := by
  rw [handleMessage, if_pos h]

theorem handleMessage_data (hrunning : ws.aborted = false) (h : m.CarriesData) :
    ws.handleMessage m = { ws with events := ws.events ++ [.onMessage m.data] } := by
  have hcode : m.opcode = Opcode.TEXT ∨ m.opcode = Opcode.BINARY := h
  rw [handleMessage, if_neg (by rw [hrunning]; decide), if_pos hcode]

theorem handleMessage_control (hrunning : ws.aborted = false) (h : ¬ m.CarriesData) (hanswered : ¬ m.Answered) :
    ws.handleMessage m = ws := by
  have hcode : ¬ (m.opcode = Opcode.TEXT ∨ m.opcode = Opcode.BINARY) := h
  have hping : m.opcode ≠ Opcode.PING := fun he => hanswered (Or.inl he)
  have hclose : m.opcode ≠ Opcode.CLOSE := fun he => hanswered (Or.inr he)
  rw [handleMessage, if_neg (by rw [hrunning]; decide), if_neg hcode, if_neg hping, if_neg hclose, ite_self]

theorem handleMessage_ping (hrunning : ws.aborted = false) (h : m.opcode = Opcode.PING) :
    ws.handleMessage m = ws.sendPong m := by
  rw [handleMessage, if_neg (by rw [hrunning]; decide), h, if_neg (by decide), if_pos rfl]

theorem handleMessage_close (hrunning : ws.aborted = false) (h : m.opcode = Opcode.CLOSE) : ws.handleMessage m =
    let ws := sendClose { ws with state := .WS_CLOSING }
    if ws.aborted = true then ws else ws.close := by
  rw [handleMessage, if_neg (by rw [hrunning]; decide), h, if_neg (by decide), if_neg (by decide),
    if_neg (by decide), if_pos rfl]

theorem Live.handleMessage (h : Live ws) (hclose : m.opcode ≠ Opcode.CLOSE) : Live (ws.handleMessage m) := by
  by_cases hdata : m.CarriesData
  · rw [handleMessage_data h.running hdata]
    exact ⟨h.opened, h.conn, h.running⟩
  · by_cases hping : m.opcode = Opcode.PING
    · rw [handleMessage_ping h.running hping, sendPong, sendReply, if_pos h.conn]
      exact ⟨h.opened, h.conn, h.running⟩
    · rw [handleMessage_control h.running hdata fun ha => ha.elim hping hclose]
      exact h

theorem Live.handleClose (h : Live ws) (hclose : m.opcode = Opcode.CLOSE) :
    Closed (ws.handleMessage m) ∧ (ws.handleMessage m).state = .SOCK_CLOSED ∧ (ws.handleMessage m).events = ws.events := by
  have hrunning : ¬ ws.aborted = true := by rw [h.running]; decide
  rw [handleMessage_close h.running hclose, sendClose, sendReply, if_pos h.conn]
  dsimp only
  rw [if_neg hrunning, close, if_pos h.conn]
  exact ⟨⟨rfl, h.running⟩, rfl, rfl⟩

/-- The reply to a message finds no connection. -/
theorem Closed.handleAnswered (h : Closed ws) (hanswered : m.Answered) :
    (ws.handleMessage m).aborted = true ∧ (ws.handleMessage m).conn = false ∧ (ws.handleMessage m).events = ws.events := by
  have hconn : ¬ ws.conn = true := by rw [h.conn]; decide
  obtain hping | hclose := hanswered
  · rw [handleMessage_ping h.running hping, sendPong, sendReply, if_neg hconn]
    exact ⟨rfl, h.conn, rfl⟩
  · rw [handleMessage_close h.running hclose, sendClose, sendReply, if_neg hconn]
    exact ⟨rfl, h.conn, rfl⟩

end Messages

end WebSocketClient
end Husarnet
