import Husarnet.AddressText
import Husarnet.Config.Base64
import Husarnet.HttpReuse
import Husarnet.Sha1Digest
import Husarnet.WebSocketFrames

/-! # The handshake of the WebSocket client

The client is connected by an answer that was made for the key of its own request.
-/

namespace Husarnet
open Octets Containers Numerals HTTPMessage
set_option autoImplicit false

namespace WebSocketClient

/-! ## The request and the check of the answer -/

/-- The base64 text of the bytes, with its padding. -/
def base64Text (bin : Bytes) : Bytes := base64Encode bin ++ base64Padding bin

/-- What is documented of `sodium_bin2base64` in its original variant. -/
def EncodesBase64 (sodiumBin2base64 : Bytes → Bytes) : Prop := ∀ bin, sodiumBin2base64 bin = base64Text bin

def SERVER_ENDPOINT_CAPACITY : ℕ := 128

def SEC_WEBSOCKET_KEY : Bytes := ascii "Sec-WebSocket-Key"
def SEC_WEBSOCKET_ACCEPT : Bytes := ascii "Sec-WebSocket-Accept"

section Request
variable (sodiumBin2base64 : Bytes → Bytes)

/-- The library of a client that hashes with `SHA1`. -/
def withSHA1 (lib : HttpLibrary) (buffer : FString 64) : HttpLibrary :=
  { lib with sha1Base64 := fun s => sodiumBin2base64 (Sha1.SHA1 buffer s) }

variable (serverAddr : InetAddress) (serverEndpoint userAgent : Bytes) (rawNonce : FString 16)

/-- The message that `_sendClientHandshake` fills in. -/
def handshakeRequest : HTTPMessage :=
  { HTTPMessage.new with
    method := ascii "GET"
    endpoint := serverEndpoint
    headers := [(ascii "Host", serverAddr.str), (ascii "Upgrade", ascii "websocket"), (ascii "Connection", ascii "Upgrade"),
      (ascii "Sec-WebSocket-Version", ascii "13"), (ascii "User-Agent", userAgent),
      (SEC_WEBSOCKET_KEY, sodiumBin2base64 rawNonce.bytes)] }

/-- The client that has written its request, and the bytes of it. -/
def sendClientHandshake : Checked (WebSocketClient × Bytes) := do
  let (buffer, _) ← (handshakeRequest sodiumBin2base64 serverAddr serverEndpoint userAgent rawNonce).encode TRANSPORT_CAPACITY
  return (connecting (sodiumBin2base64 rawNonce.bytes ++ [0]), buffer)

end Request

/-! ## Printable texts -/

theorem base64Digits_lt (v : Bytes) : ∀ digit ∈ base64Digits v, digit < 64 := by
  induction v using base64Digits.induct with
  | case1 => simp [base64Digits]
  | case2 a =>
    have ha := a.toNat_lt
    simp only [base64Digits, List.forall_mem_cons]
    exact ⟨by omega, by omega, by simp⟩
  | case3 a b =>
    have ha := a.toNat_lt
    have hb := b.toNat_lt
    simp only [base64Digits, List.forall_mem_cons]
    exact ⟨by omega, by omega, by omega, by simp⟩
  | case4 a b c v ih =>
    have ha := a.toNat_lt
    have hb := b.toNat_lt
    have hc := c.toNat_lt
    simp only [base64Digits, List.forall_mem_cons]
    exact ⟨by omega, by omega, by omega, by omega, ih⟩

theorem base64Text_length (bin : Bytes) : (base64Text bin).length = 4 * ((bin.length + 2) / 3) := by
  have hdigits (v : Bytes) : (base64Digits v).length + (3 - v.length % 3) % 3 = 4 * ((v.length + 2) / 3) := by
    induction v using base64Digits.induct with
    | case1 => rfl
    | case2 a => simp [base64Digits]
    | case3 a b => simp [base64Digits]
    | case4 a b c v ih =>
      simp only [base64Digits, List.length_cons]
      omega
  rw [base64Text, base64Encode, base64Padding, List.length_append, List.length_map, List.length_replicate]
  exact hdigits bin

/-- No character of what is printed is a control character or a space. -/
theorem base64Text_printable (bin : Bytes) : ∀ c ∈ base64Text bin, 0x20 < c := by
  have hcharacter : ∀ i : Fin 64, 0x20 < base64Char i.val := by decide +kernel
  intro c hc
  obtain hc | hc := List.mem_append.mp hc
  · obtain ⟨digit, hdigit, rfl⟩ := List.mem_map.mp hc
    exact hcharacter ⟨digit, base64Digits_lt bin digit hdigit⟩
  · rw [List.eq_of_mem_replicate hc]
    decide

theorem toString_printable (a : IpAddress) : ∀ c ∈ a.toString, 0x20 < c := by
  have hxdigit : ∀ c : UInt8, IpAddress.isXDigit c = true → 0x20 < c := forall_byte (by decide +kernel)
  have hdigit : ∀ c : UInt8, (0x30 : UInt8) ≤ c ∧ c ≤ 0x39 → 0x20 < c := forall_byte (by decide +kernel)
  intro c hc
  by_cases hm : a.isMappedV4 = true
  · rw [IpAddress.toString_dotted hm] at hc
    obtain rfl | ⟨text, ht, hc⟩ := JoinedTexts.mem_intercalate hc
    · decide
    · obtain ⟨b, -, rfl⟩ := List.mem_map.mp ht
      exact hdigit c (decimalText_digits _ c hc)
  · rw [IpAddress.toString_groups (Bool.eq_false_iff.mpr hm)] at hc
    obtain rfl | ⟨text, ht, hc⟩ := JoinedTexts.mem_intercalate hc
    · decide
    · obtain ⟨i, -, rfl⟩ := List.mem_map.mp ht
      exact hxdigit c (IpAddress.groupText_hex a i c hc)

theorem str_printable (a : InetAddress) : ∀ c ∈ a.str, 0x20 < c := by
  have hdigit : ∀ c : UInt8, (0x30 : UInt8) ≤ c ∧ c ≤ 0x39 → 0x20 < c := forall_byte (by decide +kernel)
  have hport : ∀ c ∈ decimalText a.port.toNat, 0x20 < c := fun c hc => hdigit c (decimalText_digits _ c hc)
  have hfront : ∀ c ∈ ascii ":", 0x20 < c := by decide +kernel
  have hopen : ∀ c ∈ ascii "[", 0x20 < c := by decide +kernel
  have hclose : ∀ c ∈ ascii "]:", 0x20 < c := by decide +kernel
  rw [InetAddress.str]
  split
  · exact List.forall_mem_append.mpr ⟨List.forall_mem_append.mpr ⟨toString_printable a.ip, hfront⟩, hport⟩
  · exact List.forall_mem_append.mpr ⟨List.forall_mem_append.mpr ⟨List.forall_mem_append.mpr
      ⟨hopen, toString_printable a.ip⟩, hclose⟩, hport⟩

theorem printable_free {s : Bytes} (h : ∀ c ∈ s, 0x20 < c) : ∀ c ∈ s, c ≠ CR ∧ c ≠ LF := by
  have hfree : ∀ c : UInt8, 0x20 < c → c ≠ CR ∧ c ≠ LF := forall_byte (by decide +kernel)
  exact fun c hc => hfree c (h c hc)

theorem cString_printable {s : Bytes} (h : ∀ c ∈ s, 0x20 < c) (t : Bytes) : cString (s ++ 0 :: t) = s := by
  have hzero : ∀ c : UInt8, 0x20 < c → c ≠ 0 := forall_byte (by decide +kernel)
  have hall : ∀ c ∈ s, decide (c ≠ 0) = true := fun c hc => decide_eq_true (hzero c (h c hc))
  rw [cString, List.takeWhile_append_of_pos hall]
  simp

/-! ## The request is read -/

/-- What is promised of the endpoint and the name of the client. -/
structure RequestParts (serverEndpoint userAgent : Bytes) : Prop where
  endpoint : RequestPart SERVER_ENDPOINT_CAPACITY serverEndpoint
  userAgent : ∀ c ∈ userAgent, c ≠ CR ∧ c ≠ LF

variable (serverAddr : InetAddress) {serverEndpoint userAgent : Bytes} (rawNonce : FString 16)

theorem handshakeRequest_encodable (h : RequestParts serverEndpoint userAgent) :
    Encodable (handshakeRequest base64Text serverAddr serverEndpoint userAgent rawNonce) where
  method := by
    have hget : RequestPart METHOD_CAPACITY (ascii "GET") := ⟨by decide, by decide, by decide +kernel⟩
    exact hget
  endpoint := ⟨h.endpoint.ne, h.endpoint.fits.trans (by decide), h.endpoint.free⟩
  keys := by
    have hkeys : [ascii "Host", ascii "Upgrade", ascii "Connection", ascii "Sec-WebSocket-Version", ascii "User-Agent",
        SEC_WEBSOCKET_KEY].Nodup := by decide +kernel
    exact hkeys
  fields := by
    have hname : ∀ key ∈ [ascii "Host", ascii "Upgrade", ascii "Connection", ascii "Sec-WebSocket-Version", ascii "User-Agent",
        SEC_WEBSOCKET_KEY], (∀ c ∈ key, c ≠ COLON ∧ c ≠ CR ∧ c ≠ LF) ∧ key ≠ CONTENT_LENGTH := by decide +kernel
    have hvalue : ∀ value ∈ [ascii "websocket", ascii "Upgrade", ascii "13"], ∀ c ∈ value, c ≠ CR ∧ c ≠ LF := by
      decide +kernel
    simp only [handshakeRequest, List.forall_mem_cons] at hname hvalue ⊢
    obtain ⟨hhost, hupgrade, hconnection, hversion, hagent, hkey, -⟩ := hname
    refine ⟨⟨⟨hhost.1, printable_free (str_printable serverAddr)⟩, hhost.2⟩, ⟨⟨hupgrade.1, hvalue.1⟩, hupgrade.2⟩,
      ⟨⟨hconnection.1, hvalue.2.1⟩, hconnection.2⟩, ⟨⟨hversion.1, hvalue.2.2.1⟩, hversion.2⟩,
      ⟨⟨hagent.1, h.userAgent⟩, hagent.2⟩,
      ⟨⟨hkey.1, printable_free (base64Text_printable rawNonce.bytes)⟩, hkey.2⟩, fun field hfield => by cases hfield⟩

/-- The request of the client, as a server reads it. -/
theorem handshakeRequest_read (lib : HttpLibrary) (hlib : ∀ n < 2 ^ 64, lib.toSize (decimalText n) = n)
    (h : RequestParts serverEndpoint userAgent)
    (hsize : (handshakeRequest base64Text serverAddr serverEndpoint userAgent rawNonce).encodedSize ≤ TRANSPORT_CAPACITY) :
    ∃ text request, sendClientHandshake base64Text serverAddr serverEndpoint userAgent rawNonce =
        .ok (connecting (base64Text rawNonce.bytes ++ [0]), text) ∧
      HTTPMessage.parse lib HTTPMessage.new text = .ok (.OK, request) ∧ request.messageType = .REQUEST ∧ request.method = ascii "GET" ∧
      request.endpoint = serverEndpoint ∧ get? request.headers (ascii "Upgrade") = some (ascii "websocket") ∧
      get? request.headers SEC_WEBSOCKET_KEY = some (base64Text rawNonce.bytes) := by
  have hsome : (handshakeRequest base64Text serverAddr serverEndpoint userAgent rawNonce).headers ≠ [] ∨
      (handshakeRequest base64Text serverAddr serverEndpoint userAgent rawNonce).body ≠ [] := Or.inl (List.cons_ne_nil _ _)
  obtain ⟨request, hparse, htype, hmethod, hendpoint, hheaders, -⟩ := parse_encoded lib hlib
    (handshakeRequest_encodable serverAddr rawNonce h) hsome (hsize.trans (by decide))
  refine ⟨_, request, ?_, hparse, htype, hmethod, hendpoint, ?_, ?_⟩
  · rw [sendClientHandshake, encode_eq, if_neg (by omega)]
    rfl
  · rw [hheaders]
    rfl
  · rw [hheaders]
    rfl

/-! ## The answer is checked -/

/-- The value that a server makes of the key it was sent. -/
def acceptValue (key : Bytes) : Bytes := base64Text (Sha1.sha1 (key ++ SERVER_KEY))

/-- A response that changes the protocol, made for this key. -/
structure AnswersKey (lib : HttpLibrary) (d : Document) (key : Bytes) : Prop where
  version : d.field1 = HTTP_VERSION
  reason : d.field3 ≠ []
  status : lib.toUnsigned d.field2 = some 101
  upgrade : get? (withLines [] d.lines) (ascii "Upgrade") = some (ascii "websocket")
  connection : get? (withLines [] d.lines) (ascii "Connection") = some (ascii "Upgrade")
  accept : ∃ value, get? (withLines [] d.lines) SEC_WEBSOCKET_ACCEPT = some value ∧ cString value = acceptValue key

/-- The key and the server's own key fit the string that is hashed. -/
theorem hashed_key (lib : HttpLibrary) (buffer : FString 64) :
    (withSHA1 base64Text lib buffer).sha1Base64
        ((cString (base64Text rawNonce.bytes ++ [0]) ++ SERVER_KEY).take SERVER_KEY_NONCE_CAPACITY) =
      acceptValue (base64Text rawNonce.bytes) := by
  have hnonce := cString_printable (base64Text_printable rawNonce.bytes) []
  have hfits : (base64Text rawNonce.bytes ++ SERVER_KEY).length ≤ SERVER_KEY_NONCE_CAPACITY := by
    rw [List.length_append, base64Text_length, rawNonce.size_eq]
    decide
  have hhash := Sha1.SHA1_eq buffer (base64Text rawNonce.bytes ++ SERVER_KEY)
  rw [hnonce, List.take_of_length_le hfits, withSHA1, acceptValue, ← hhash]

theorem verifyServerHandshake_iff (lib : HttpLibrary) (buffer : FString 64) {d : Document}
    {message : HTTPMessage} {start : Start} (hstart : Start.ofFields lib d.field1 d.field2 d.field3 = some start)
    (hshown : start.Shown message) (hheaders : message.headers = withLines [] d.lines) :
    verifyServerHandshake (withSHA1 base64Text lib buffer) (base64Text rawNonce.bytes ++ [0]) message = true ↔
      AnswersKey lib d (base64Text rawNonce.bytes) := by
  have hget (key : String) {value : Bytes} (hvalue : value ≠ []) :
      (get? message.headers (ascii key)).getD [] = value ↔ get? (withLines [] d.lines) (ascii key) = some value := by
    rw [hheaders]
    cases get? (withLines [] d.lines) (ascii key) with
    | none => simp [hvalue.symm]
    | some v => simp
  have haccept : (get? message.headers (ascii "Sec-WebSocket-Accept")).isSome = true ∧
      cString ((get? message.headers (ascii "Sec-WebSocket-Accept")).getD []) = acceptValue (base64Text rawNonce.bytes) ↔
      ∃ value, get? (withLines [] d.lines) SEC_WEBSOCKET_ACCEPT = some value ∧
        cString value = acceptValue (base64Text rawNonce.bytes) := by
    rw [hheaders, SEC_WEBSOCKET_ACCEPT]
    cases get? (withLines [] d.lines) (ascii "Sec-WebSocket-Accept") with
    | none => simp
    | some v => simp
  obtain ⟨hfields, hkind⟩ := Start.ofFields_eq_some hstart
  rw [not_or, not_or] at hfields
  rw [verifyServerHandshake, hashed_key, decide_eq_true_eq, hget "Upgrade" (by decide), hget "Connection" (by decide), haccept]
  constructor
  · rintro ⟨htype, hstatus, hupgrade, hconnection, hvalue⟩
    obtain ⟨hversion, statusCode, hcode, rfl⟩ | ⟨-, -, -, -, rfl⟩ := hkind
    · have hshownCode : message.statusCode = statusCode := hshown.2
      rw [hstatus] at hshownCode
      rw [← hshownCode] at hcode
      exact ⟨hversion, hfields.2.2, hcode, hupgrade, hconnection, hvalue⟩
    · have hshownType : message.messageType = .REQUEST := hshown.1
      rw [htype] at hshownType
      cases hshownType
  · intro h
    obtain ⟨hversion, statusCode, hcode, rfl⟩ | ⟨hversion, -⟩ := hkind
    · have hshownCode : message.statusCode = statusCode := hshown.2
      rw [h.status, Option.some.injEq] at hcode
      exact ⟨hshown.1, hshownCode.trans hcode.symm, h.upgrade, h.connection, h.accept⟩
    · exact absurd h.version hversion

theorem AnswersKey.start {lib : HttpLibrary} {d : Document} {key : Bytes} (h : AnswersKey lib d key) (hstatus : d.field2 ≠ []) :
    Start.ofFields lib d.field1 d.field2 d.field3 = some (.response 101) := by
  have hfields : ¬ (d.field1 = [] ∨ d.field2 = [] ∨ d.field3 = []) := by
    rw [h.version, not_or, not_or]
    exact ⟨by decide, hstatus, h.reason⟩
  rw [Start.ofFields, if_neg hfields, if_pos h.version, h.status]
  rfl

/-- What a new message makes of a well-formed answer, and whether it is accepted. -/
theorem accepted_iff (lib : HttpLibrary) (buffer : FString 64) {d : Document} (hd : d.WellFormed lib) :
    let r := finish (HTTPMessage.run (withSHA1 base64Text lib buffer) { HTTPMessage.new with buffer := d.text })
    r.1 = .OK ∧ verifyServerHandshake (withSHA1 base64Text lib buffer) (base64Text rawNonce.bytes ++ [0]) r.2 = true ↔
      AnswersKey lib d (base64Text rawNonce.bytes) := by
  intro r
  have hd' : d.WellFormed (withSHA1 base64Text lib buffer) := ⟨hd.field1, hd.field2, hd.field3, hd.version, hd.lines, hd.body⟩
  have hrun := hd'.run (m := { HTTPMessage.new with buffer := d.text }) rfl rfl rfl rfl
  have hfst : r.1 = (HTTPMessage.run (withSHA1 base64Text lib buffer) { HTTPMessage.new with buffer := d.text }).1 := finish_fst _
  have hsame : Start.ofFields (withSHA1 base64Text lib buffer) d.field1 d.field2 d.field3 =
      Start.ofFields lib d.field1 d.field2 d.field3 := rfl
  rw [hsame] at hrun
  cases hstart : Start.ofFields lib d.field1 d.field2 d.field3 with
  | none =>
    rw [hstart] at hrun
    have hinvalid : r.1 = .INVALID := hfst.trans hrun
    constructor
    · rintro ⟨hok, -⟩
      rw [hinvalid] at hok
      cases hok
    · intro h
      rw [h.start hd.field2.1] at hstart
      cases hstart
  | some start =>
    rw [hstart] at hrun
    dsimp only at hrun
    by_cases hlines : d.lines = []
    · rw [if_pos hlines] at hrun
      have hopen : r.1 = .INCOMPLETE := hfst.trans hrun
      constructor
      · rintro ⟨hok, -⟩
        rw [hopen] at hok
        cases hok
      · intro h
        have hupgrade := h.upgrade
        rw [hlines] at hupgrade
        cases hupgrade
    · rw [if_neg hlines] at hrun
      obtain ⟨m', hok, hshown, hheaders, -⟩ := hrun
      have hr : r = (.OK, { m' with parserState := .START_LINE }) := by
        show finish _ = _
        rw [hok]
        rfl
      have hshown' : start.Shown { m' with parserState := .START_LINE } := by
        cases start <;> exact hshown
      rw [hr]
      simp only [true_and]
      exact verifyServerHandshake_iff rawNonce lib buffer hstart hshown' hheaders

theorem handleRead_connecting (lib : HttpLibrary) (nonce : Bytes) {buf : Bytes} {result : Result} {message : HTTPMessage}
    (hparse : HTTPMessage.parse lib HTTPMessage.new buf = .ok (result, message)) :
    (connecting nonce).handleRead lib buf =
      if result = .OK ∧ verifyServerHandshake lib nonce message = true then
        { connecting nonce with state := .WS_OPEN, events := [.connected] }
      else (connecting nonce).close := by
  show handleHandshake lib (connecting nonce) buf = _
  rw [handleHandshake, hparse]
  cases result with
  | OK =>
    simp only [true_and]
    rfl
  | INCOMPLETE => rfl
  | INVALID => rfl

/-- **The handshake.** The client's request is written and read, and of the answers that are well formed and come in one
read those connect the client that were made for the key in it; any other one closes the connection. -/
theorem handshake_iff (lib : HttpLibrary) (hlib : ∀ n < 2 ^ 64, lib.toSize (decimalText n) = n)
    {sodiumBin2base64 : Bytes → Bytes} (hbase64 : EncodesBase64 sodiumBin2base64) (buffer : FString 64)
    (serverAddr : InetAddress) {serverEndpoint userAgent : Bytes} (h : RequestParts serverEndpoint userAgent)
    (rawNonce : FString 16)
    (hsize : (handshakeRequest sodiumBin2base64 serverAddr serverEndpoint userAgent rawNonce).encodedSize ≤
      TRANSPORT_CAPACITY) :
    ∃ ws text request, sendClientHandshake sodiumBin2base64 serverAddr serverEndpoint userAgent rawNonce = .ok (ws, text) ∧
      HTTPMessage.parse lib HTTPMessage.new text = .ok (.OK, request) ∧ request.messageType = .REQUEST ∧
      request.method = ascii "GET" ∧ request.endpoint = serverEndpoint ∧
      get? request.headers SEC_WEBSOCKET_KEY = some (base64Text rawNonce.bytes) ∧
      ∀ d : Document, d.WellFormed lib → d.text.length ≤ BUFFER_CAPACITY →
        (AnswersKey lib d (base64Text rawNonce.bytes) →
          (ws.handleRead (withSHA1 sodiumBin2base64 lib buffer) d.text).state = .WS_OPEN) ∧
        (¬ AnswersKey lib d (base64Text rawNonce.bytes) →
          (ws.handleRead (withSHA1 sodiumBin2base64 lib buffer) d.text).conn = false) := by
  obtain rfl : sodiumBin2base64 = base64Text := funext hbase64
  obtain ⟨text, request, hsend, hparse, htype, hmethod, hendpoint, -, hkey⟩ :=
    handshakeRequest_read serverAddr rawNonce lib hlib h hsize
  refine ⟨_, text, request, hsend, hparse, htype, hmethod, hendpoint, hkey, fun d hd hfits => ?_⟩
  have hanswer : HTTPMessage.parse (withSHA1 base64Text lib buffer) HTTPMessage.new d.text =
      .ok (finish (HTTPMessage.run (withSHA1 base64Text lib buffer) { HTTPMessage.new with buffer := d.text })) :=
    parse_small _ (by simpa [HTTPMessage.new] using hfits) (Nat.zero_le _)
  have haccepted := accepted_iff rawNonce lib buffer hd
  generalize finish (HTTPMessage.run (withSHA1 base64Text lib buffer) { HTTPMessage.new with buffer := d.text }) = r at hanswer haccepted
  obtain ⟨result, message⟩ := r
  rw [handleRead_connecting (withSHA1 base64Text lib buffer) (base64Text rawNonce.bytes ++ [0]) hanswer]
  constructor
  · intro hanswers
    rw [if_pos (haccepted.mpr hanswers)]
  · intro hanswers
    rw [if_neg (mt haccepted.mp hanswers)]
    rfl

/-! ## The answer of a server -/

/-- The header lines of the answer that is expected. -/
def answerFields (key : Bytes) : List (Bytes × Bytes) :=
  [(ascii "Upgrade", ascii "websocket"), (ascii "Connection", ascii "Upgrade"), (SEC_WEBSOCKET_ACCEPT, acceptValue key)]

def serverAnswer (key : Bytes) : Document :=
  ⟨HTTP_VERSION, ascii "101", ascii "Switching Protocols", (answerFields key).map fieldLine, []⟩

theorem answerFields_plain (key : Bytes) : ∀ field ∈ answerFields key, PlainField field := by
  have hname : ∀ name ∈ [ascii "Upgrade", ascii "Connection", SEC_WEBSOCKET_ACCEPT], ∀ c ∈ name, c ≠ COLON ∧ c ≠ CR ∧ c ≠ LF := by
    decide +kernel
  have hvalue : ∀ value ∈ [ascii "websocket", ascii "Upgrade"], ∀ c ∈ value, c ≠ CR ∧ c ≠ LF := by decide +kernel
  simp only [answerFields, List.forall_mem_cons] at hname hvalue ⊢
  exact ⟨⟨hname.1, hvalue.1⟩, ⟨hname.2.1, hvalue.2.1⟩,
    ⟨hname.2.2.1, printable_free (base64Text_printable _)⟩, fun field hfield => by cases hfield⟩

theorem acceptValue_length (key : Bytes) : (acceptValue key).length = 28 := by
  have hdigest (H : Sha1.Registers) : H.bytes.length = 20 := by simp [Sha1.Registers.bytes, Sha1.wordBytes]
  rw [acceptValue, base64Text_length, Sha1.sha1, hdigest]

theorem serverAnswer_headers (key : Bytes) : withLines [] (serverAnswer key).lines =
    (answerFields key).foldl (fun headers field => assign headers field.1 field.2) [] :=
  withLines_fields (answerFields_plain key) []

theorem serverAnswer_wellFormed (lib : HttpLibrary) (key : Bytes) : (serverAnswer key).WellFormed lib where
  field1 := by
    show HTTP_VERSION ≠ [] ∧ ∀ c ∈ HTTP_VERSION, c ≠ SPACE ∧ c ≠ CR ∧ c ≠ LF
    decide +kernel
  field2 := by
    show ascii "101" ≠ [] ∧ ∀ c ∈ ascii "101", c ≠ SPACE ∧ c ≠ CR ∧ c ≠ LF
    decide +kernel
  field3 := by
    show ∀ c ∈ ascii "Switching Protocols", c ≠ CR ∧ c ≠ LF
    decide +kernel
  version := Or.inl rfl
  lines := by
    refine List.forall_mem_map.mpr fun field hfield => ?_
    have hplain := answerFields_plain key field hfield
    refine ⟨(fieldLine_plain hplain).2.2, fun c hc => ?_⟩
    have hseparator : ∀ c ∈ ascii ": ", c ≠ CR ∧ c ≠ LF := by decide +kernel
    rw [fieldLine, List.mem_append, List.mem_append] at hc
    obtain (hc | hc) | hc := hc
    · exact (hplain.key c hc).2
    · exact hseparator c hc
    · exact hplain.value c hc
  body := by
    rw [serverAnswer_headers]
    rfl

theorem serverAnswer_answers {lib : HttpLibrary} (hstatus : lib.toUnsigned (ascii "101") = some 101) (key : Bytes) :
    AnswersKey lib (serverAnswer key) key where
  version := rfl
  reason := by
    show ascii "Switching Protocols" ≠ []
    decide
  status := hstatus
  upgrade := by
    rw [serverAnswer_headers]
    rfl
  connection := by
    rw [serverAnswer_headers]
    rfl
  accept := by
    refine ⟨acceptValue key, ?_, ?_⟩
    · rw [serverAnswer_headers]
      rfl
    · have hzero : ∀ c : UInt8, 0x20 < c → c ≠ 0 := forall_byte (by decide +kernel)
      exact List.takeWhile_eq_self_iff.mpr fun c hc => decide_eq_true (hzero c (base64Text_printable _ c hc))

theorem serverAnswer_fits (key : Bytes) : (serverAnswer key).text.length ≤ BUFFER_CAPACITY := by
  have hlength := acceptValue_length key
  have htext : (serverAnswer key).text.length = 101 + (acceptValue key).length := by
    have hclosed : HTTP_VERSION.length = 8 ∧ (ascii "101").length = 3 ∧ (ascii "Switching Protocols").length = 19 ∧
        EOL_DELIMITER.length = 2 ∧ (ascii "Upgrade").length = 7 ∧ (ascii "websocket").length = 9 ∧
        (ascii "Connection").length = 10 ∧ SEC_WEBSOCKET_ACCEPT.length = 20 ∧ (ascii ": ").length = 2 := by decide
    simp only [Document.text, messageText, serverAnswer, answerFields, startLine, joinLines, fieldLine, List.map_cons,
      List.map_nil, List.flatMap_cons, List.flatMap_nil, List.length_append, List.length_cons, List.length_nil, hclosed]
    omega
  rw [htext, hlength]
  decide

theorem encodesBase64_base64Text : EncodesBase64 base64Text := fun _ => rfl

/-- A server that answers as it is expected to. -/
theorem handshake_answered :
    ∃ ws text request,
      sendClientHandshake base64Text ⟨.parse (ascii "fc94::1"), 80⟩ (ascii "/device/fc94::2") (ascii "agent") (.zero 16) =
        .ok (ws, text) ∧
      HTTPMessage.parse decimalLibrary HTTPMessage.new text = .ok (.OK, request) ∧
      get? request.headers SEC_WEBSOCKET_KEY = some (base64Text (.zero 16 : FString 16).bytes) ∧
      (ws.handleRead (withSHA1 base64Text decimalLibrary (.zero 64))
        (serverAnswer (base64Text (.zero 16 : FString 16).bytes)).text).state = .WS_OPEN := by
  obtain ⟨ws, text, request, hsend, hparse, -, -, -, hkey, hread⟩ := handshake_iff decimalLibrary decimalLibrary_toSize
    encodesBase64_base64Text (.zero 64) ⟨.parse (ascii "fc94::1"), 80⟩
    (show RequestParts (ascii "/device/fc94::2") (ascii "agent") from
      ⟨⟨by decide, by decide, by decide +kernel⟩, by decide +kernel⟩) (.zero 16) (by decide +kernel)
  exact ⟨ws, text, request, hsend, hparse, hkey,
    (hread (serverAnswer _) (serverAnswer_wellFormed _ _) (serverAnswer_fits _)).1 (serverAnswer_answers rfl _)⟩

end WebSocketClient
end Husarnet
