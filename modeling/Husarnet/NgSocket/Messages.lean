import Husarnet.Crypto

/-! # ngsocket_messages.h and the parsers and serializers of ngsocket.cpp

A message is one of its kinds with the fields of that kind. The kind of a parsed message is the
first byte; every other failure of a parser gives the kind `INVALID`.
-/

namespace Husarnet
open Octets
set_option autoImplicit false

/-! ## Base to peer -/

inductive BaseToPeerMessage where
  | HELLO (cookie : FString 16)
  | DEVICE_ADDRESSES (deviceId : HusarnetAddress) (addresses : List InetAddress)
  | DATA (source : HusarnetAddress) (data : Bytes)
  | NAT_OK
  | STATE (udpAddress : List InetAddress) (natTransientRange : ℕ × ℕ)
  | REDIRECT (newBaseAddress : InetAddress)
  | INVALID
  deriving DecidableEq

def readInetAddress (data : Bytes) (i : ℕ) : Checked InetAddress := do
  let ip ← IpAddress.fromBinaryString (← StringView.substr data i 16)
  let port ← unpack16 (← StringView.substr data (i + 16) 2)
  return ⟨ip, port⟩

/-- The addresses from offset `i` to the end of the message, `room` of them at most. The offset is an
`int`, which no datagram and no frame of a TCP stream is long enough to overflow. -/
def readInetAddresses (data : Bytes) : ℕ → ℕ → Checked (List InetAddress)
  | 0, _ => return []
  | room + 1, i =>
    if i + 18 ≤ data.length then do
      let address ← readInetAddress data i
      let addresses ← readInetAddresses data room (i + 18)
      return address :: addresses
    else return []

/-- The port range behind the addresses of a state message. -/
def readTransientRange (data : Bytes) (i : ℕ) : Checked (ℕ × ℕ) :=
  if i + 4 ≤ data.length then do
    let first ← unpack16 (← StringView.substr data i 2)
    let second ← unpack16 (← StringView.substr data (i + 2) 2)
    return (first.toNat, second.toNat)
  else return (0, 0)

def parseBaseToPeerMessage (data : Bytes) : Checked BaseToPeerMessage :=
  if data.length = 0 then return .INVALID
  else do
    let kind ← StringView.get data 0
    if kind = 0 then
      if data.length ≠ 17 then return .INVALID
      else return .HELLO (← substr 1 16 data)
    else if kind = 1 then
      if data.length ≤ 17 then return .INVALID
      else return .DEVICE_ADDRESSES ⟨← substr 1 16 data⟩ (← readInetAddresses data data.length 17)
    else if kind = 2 then
      if data.length ≤ 17 then return .INVALID
      else return .DATA ⟨← substr 1 16 data⟩ (← StringView.drop data 17)
    else if kind = 3 then return .NAT_OK
    else if kind = 4 then
      let udpAddress ← readInetAddresses data 5 1
      let range ← readTransientRange data (1 + 18 * udpAddress.length)
      if udpAddress.length < 1 then return .INVALID
      else return .STATE udpAddress range
    else return .INVALID

theorem readInetAddress_ok {data : Bytes} {i : ℕ} (h : i + 18 ≤ data.length) :
    ∃ address, readInetAddress data i = .ok address := by
  have hip : (slice data i 16).length = 16 := slice_length (by omega)
  have hport : (slice data (i + 16) 2).length = 2 := slice_length (by omega)
  rw [readInetAddress, StringView.substr_of_le (by omega), StringView.substr_of_le (by omega)]
  simp only [Except.bind, bind, IpAddress.fromBinaryString, dif_pos hip, unpack16_of_length hport]
  exact ⟨_, rfl⟩

theorem readInetAddresses_ok (data : Bytes) (room i : ℕ) :
    ∃ addresses, readInetAddresses data room i = .ok addresses := by
  induction room generalizing i with
  | zero => exact ⟨[], rfl⟩
  | succ room ih =>
    rw [readInetAddresses]
    by_cases h : i + 18 ≤ data.length
    · obtain ⟨address, ha⟩ := readInetAddress_ok h
      obtain ⟨addresses, has⟩ := ih (i + 18)
      rw [if_pos h, ha, has]
      exact ⟨address :: addresses, rfl⟩
    · rw [if_neg h]
      exact ⟨[], rfl⟩

theorem readTransientRange_ok (data : Bytes) (i : ℕ) : ∃ range, readTransientRange data i = .ok range := by
  rw [readTransientRange]
  by_cases h : i + 4 ≤ data.length
  · have hfirst : (slice data i 2).length = 2 := slice_length (by omega)
    have hsecond : (slice data (i + 2) 2).length = 2 := slice_length (by omega)
    rw [if_pos h, StringView.substr_of_le (by omega), StringView.substr_of_le (by omega)]
    simp only [Except.bind, bind, unpack16_of_length hfirst, unpack16_of_length hsecond]
    exact ⟨_, rfl⟩
  · rw [if_neg h]
    exact ⟨_, rfl⟩

/-- What the parser makes of the bytes of a message. -/
inductive BaseParsed (data : Bytes) : BaseToPeerMessage → Prop where
  | hello (hk : data.getD 0 0 = 0) (hl : data.length = 17) : BaseParsed data (.HELLO (sliceF data 1 16 (by omega)))
  | deviceAddresses (hk : data.getD 0 0 = 1) (hl : 17 < data.length) {addresses : List InetAddress}
      (h : readInetAddresses data data.length 17 = .ok addresses) :
      BaseParsed data (.DEVICE_ADDRESSES ⟨sliceF data 1 16 (by omega)⟩ addresses)
  | data (hk : data.getD 0 0 = 2) (hl : 17 < data.length) :
      BaseParsed data (.DATA ⟨sliceF data 1 16 (by omega)⟩ (data.drop 17))
  | natOk (hk : data.getD 0 0 = 3) : BaseParsed data .NAT_OK
  | state (hk : data.getD 0 0 = 4) {udpAddress : List InetAddress} {range : ℕ × ℕ} (hne : ¬ udpAddress.length < 1)
      (h : readInetAddresses data 5 1 = .ok udpAddress)
      (hr : readTransientRange data (1 + 18 * udpAddress.length) = .ok range) : BaseParsed data (.STATE udpAddress range)
  | invalid : BaseParsed data .INVALID

/-- The parser never fails. -/
theorem parseBaseToPeerMessage_parsed (data : Bytes) :
    ∃ msg, parseBaseToPeerMessage data = .ok msg ∧ BaseParsed data msg := by
  rw [parseBaseToPeerMessage]
  by_cases h0 : data.length = 0
  · rw [if_pos h0]
    exact ⟨_, rfl, .invalid⟩
  · have hget : StringView.get data 0 = .ok (data.getD 0 0) := StringView.get_of_lt (Nat.pos_of_ne_zero h0)
    rw [if_neg h0, hget]
    simp only [Except.bind, bind]
    by_cases hello : data.getD 0 0 = 0
    · rw [if_pos hello]
      by_cases hl : data.length = 17
      · rw [if_neg (not_not.mpr hl), substr_of_le (by omega)]
        exact ⟨_, rfl, .hello hello hl⟩
      · rw [if_pos hl]
        exact ⟨_, rfl, .invalid⟩
    · rw [if_neg hello]
      by_cases haddresses : data.getD 0 0 = 1
      · rw [if_pos haddresses]
        by_cases hl : data.length ≤ 17
        · rw [if_pos hl]
          exact ⟨_, rfl, .invalid⟩
        · obtain ⟨addresses, ha⟩ := readInetAddresses_ok data data.length 17
          rw [if_neg hl, substr_of_le (by omega), ha]
          exact ⟨_, rfl, .deviceAddresses haddresses (not_le.mp hl) ha⟩
      · rw [if_neg haddresses]
        by_cases hdata : data.getD 0 0 = 2
        · rw [if_pos hdata]
          by_cases hl : data.length ≤ 17
          · rw [if_pos hl]
            exact ⟨_, rfl, .invalid⟩
          · rw [if_neg hl, substr_of_le (by omega), StringView.drop_of_le (by omega)]
            exact ⟨_, rfl, .data hdata (not_le.mp hl)⟩
        · rw [if_neg hdata]
          by_cases hnat : data.getD 0 0 = 3
          · rw [if_pos hnat]
            exact ⟨_, rfl, .natOk hnat⟩
          · rw [if_neg hnat]
            by_cases hstate : data.getD 0 0 = 4
            · obtain ⟨addresses, ha⟩ := readInetAddresses_ok data 5 1
              obtain ⟨range, hr⟩ := readTransientRange_ok data (1 + 18 * addresses.length)
              rw [if_pos hstate, ha]
              simp only [hr]
              by_cases hl : addresses.length < 1
              · rw [if_pos hl]
                exact ⟨_, rfl, .invalid⟩
              · rw [if_neg hl]
                exact ⟨_, rfl, .state hstate hl ha hr⟩
            · rw [if_neg hstate]
              exact ⟨_, rfl, .invalid⟩

theorem BaseParsed.of_parse {data : Bytes} {msg : BaseToPeerMessage} (h : parseBaseToPeerMessage data = .ok msg) :
    BaseParsed data msg := by
  obtain ⟨msg', hmsg, hp⟩ := parseBaseToPeerMessage_parsed data
  rw [h, Except.ok.injEq] at hmsg
  exact hmsg ▸ hp

/-- The data that the parser gives is never empty. -/
theorem parseBaseToPeerMessage_ok (data : Bytes) : ∃ msg, parseBaseToPeerMessage data = .ok msg ∧
    ∀ source d, msg = .DATA source d → d ≠ [] := by
  obtain ⟨msg, hmsg, hp⟩ := parseBaseToPeerMessage_parsed data
  refine ⟨msg, hmsg, fun source d he hd => ?_⟩
  cases hp with
  | data _ hl =>
    cases he
    have hdrop : data.length ≤ 17 := List.drop_eq_nil_iff.mp hd
    omega
  | hello _ _ => cases he
  | deviceAddresses _ _ _ => cases he
  | natOk _ => cases he
  | state _ _ _ _ => cases he
  | invalid => cases he

/-! ## Peer to peer -/

inductive PeerToPeerMessage where
  | HELLO (myId yourId : HusarnetAddress) (helloCookie : Bytes)
  | HELLO_REPLY (myId yourId : HusarnetAddress) (helloCookie : Bytes)
  | DATA (data : Bytes)
  | INVALID
  deriving DecidableEq

def P2P_KIND : Bytes := ascii "ng-p2p-msg"

/-- The branch of the parser for the two signed kinds, on a message of the right length. -/
def parseSignedMessage (S : Sodium) (data : Bytes)
    (make : HusarnetAddress → HusarnetAddress → Bytes → PeerToPeerMessage) : Checked PeerToPeerMessage := do
  let myId : HusarnetAddress := ⟨← substr 1 16 data⟩
  let pubkey ← StringView.substr data 17 32
  let yourId : HusarnetAddress := ⟨← substr (17 + 32) 16 data⟩
  let helloCookie ← StringView.substr data (17 + 48) 16
  let signature ← StringView.substr data (17 + 64) 64
  let pubkey ← FString.ofString 32 pubkey
  if NgSocketCrypto.pubkeyToDeviceId S pubkey ≠ myId then return .INVALID
  else
    let signed ← StringView.substr data 0 (17 + 64)
    let signature ← FString.ofString 64 signature
    if NgSocketCrypto.verifySignature S signed P2P_KIND pubkey signature then
      return make myId yourId helloCookie
    else return .INVALID

def parsePeerToPeerMessage (S : Sodium) (data : Bytes) : Checked PeerToPeerMessage :=
  if data.length = 0 then return .INVALID
  else do
    let kind ← StringView.get data 0
    if kind = 0 ∨ kind = 1 then
      if data.length ≠ 1 + 16 * 3 + 32 + 64 then return .INVALID
      else parseSignedMessage S data (if kind = 0 then .HELLO else .HELLO_REPLY)
    else if kind = 2 then return .DATA (← StringView.drop data 1)
    else return .INVALID

section
variable {data : Bytes} (h : data.length = 145)
include h

theorem helloId_within : 1 + 16 ≤ data.length := by omega

theorem helloKey_within : 17 + 32 ≤ data.length := by omega

theorem helloSignature_within : 81 + 64 ≤ data.length := by omega

end

/-- What the parser makes of a message of the length of a hello. -/
theorem parseSignedMessage_of_length {S : Sodium} {data : Bytes} (h : data.length = 145)
    (make : HusarnetAddress → HusarnetAddress → Bytes → PeerToPeerMessage) :
    parseSignedMessage S data make =
      .ok (if NgSocketCrypto.pubkeyToDeviceId S (sliceF data 17 32 (by omega)) = ⟨sliceF data 1 16 (by omega)⟩ ∧
            NgSocketCrypto.verifySignature S (slice data 0 81) P2P_KIND (sliceF data 17 32 (by omega))
              (sliceF data 81 64 (by omega)) = true then
          make ⟨sliceF data 1 16 (by omega)⟩ ⟨sliceF data 49 16 (by omega)⟩ (slice data 65 16)
        else .INVALID) := by
  have hkey : FString.ofString 32 (slice data 17 32) = .ok (sliceF data 17 32 (by omega)) :=
    FString.ofString_bytes (sliceF data 17 32 (by omega))
  have hsig : FString.ofString 64 (slice data 81 64) = .ok (sliceF data 81 64 (by omega)) :=
    FString.ofString_bytes (sliceF data 81 64 (by omega))
  rw [parseSignedMessage, substr_of_le (by omega), substr_of_le (by omega), StringView.substr_of_le (by omega),
    StringView.substr_of_le (by omega), StringView.substr_of_le (by omega), StringView.substr_of_le (by omega)]
  simp only [Except.bind, bind, hkey, hsig]
  by_cases hid : NgSocketCrypto.pubkeyToDeviceId S (sliceF data 17 32 (by omega)) = ⟨sliceF data 1 16 (by omega)⟩
  · rw [if_neg (not_not.mpr hid)]
    by_cases hv : NgSocketCrypto.verifySignature S (slice data 0 81) P2P_KIND (sliceF data 17 32 (by omega))
        (sliceF data 81 64 (by omega)) = true
    · rw [if_pos hv, if_pos ⟨hid, hv⟩]
      rfl
    · rw [if_neg hv, if_neg fun h => hv h.2]
      rfl
  · rw [if_pos hid, if_neg fun h => hid h.1]
    rfl

theorem parsePeerToPeerMessage_signed (S : Sodium) {data : Bytes} (h : data.length = 145)
    (hk : data.getD 0 0 = 0 ∨ data.getD 0 0 = 1) : parsePeerToPeerMessage S data =
      parseSignedMessage S data (if data.getD 0 0 = 0 then .HELLO else .HELLO_REPLY) := by
  have hget : StringView.get data 0 = .ok (data.getD 0 0) := StringView.get_of_lt (by omega)
  rw [parsePeerToPeerMessage, if_neg (by omega), hget]
  simp only [Except.bind, bind]
  rw [if_pos hk, if_neg (not_not.mpr h)]

/-- The ways the parser can go: it never fails. -/
theorem parsePeerToPeerMessage_cases (S : Sodium) (data : Bytes) :
    (data.length = 145 ∧ (data.getD 0 0 = 0 ∨ data.getD 0 0 = 1)) ∨
      (0 < data.length ∧ data.getD 0 0 = 2 ∧ parsePeerToPeerMessage S data = .ok (.DATA (data.drop 1))) ∨
      parsePeerToPeerMessage S data = .ok .INVALID := by
  by_cases h0 : data.length = 0
  · right; right
    rw [parsePeerToPeerMessage, if_pos h0]
    rfl
  · have hpos : 0 < data.length := Nat.pos_of_ne_zero h0
    have hget : StringView.get data 0 = .ok (data.getD 0 0) := StringView.get_of_lt hpos
    rw [parsePeerToPeerMessage, if_neg h0, hget]
    simp only [Except.bind, bind]
    by_cases hk : data.getD 0 0 = 0 ∨ data.getD 0 0 = 1
    · by_cases hl : data.length = 145
      · exact Or.inl ⟨hl, hk⟩
      · right; right
        rw [if_pos hk, if_pos hl]
        rfl
    · rw [if_neg hk]
      by_cases hd : data.getD 0 0 = 2
      · right; left
        rw [if_pos hd, StringView.drop_of_le hpos]
        exact ⟨hpos, hd, rfl⟩
      · right; right
        rw [if_neg hd]
        rfl

/-- The data of a message between peers is all that follows the kind. -/
theorem parsePeerToPeerMessage_ok (S : Sodium) (data : Bytes) : ∃ msg, parsePeerToPeerMessage S data = .ok msg ∧
    ∀ d, msg = .DATA d ↔ data = 2 :: d := by
  have hbyte : ∀ {d}, data = 2 :: d → data.getD 0 0 = 2 := by
    rintro d rfl
    rfl
  rcases parsePeerToPeerMessage_cases S data with ⟨hl, hk⟩ | ⟨hl, hk, he⟩ | he
  · have hsigned := parsePeerToPeerMessage_signed S hl hk
    rw [parseSignedMessage_of_length hl] at hsigned
    refine ⟨_, hsigned, fun d => ?_⟩
    constructor
    · intro h
      split at h
      · split at h <;> cases h
      · cases h
    · intro h
      rw [hbyte h] at hk
      exact absurd hk (by decide)
  · refine ⟨_, he, fun d => ?_⟩
    cases data with
    | nil => cases hl
    | cons kind rest =>
      have hkind : kind = 2 := hk
      subst hkind
      simp
  · refine ⟨.INVALID, he, fun d => ?_⟩
    constructor
    · intro h
      cases h
    · rintro rfl
      cases he

/-- The signed part of a hello or a reply of `identity`. -/
def signedBody (identity : Identity) (kind : UInt8) (yourId : HusarnetAddress) (helloCookie : Bytes) : Bytes :=
  [kind] ++ identity.deviceId.data.bytes ++ identity.pubkey.bytes ++ yourId.data.bytes ++ helloCookie

/-- The serializer writes the own id for `myId`. It aborts on an invalid message, which is never sent. -/
def serializePeerToPeerMessage (S : Sodium) (identity : Identity) : PeerToPeerMessage → Bytes
  | .HELLO _ yourId helloCookie =>
    let data := signedBody identity 0 yourId helloCookie
    data ++ (NgSocketCrypto.sign S data P2P_KIND identity).bytes
  | .HELLO_REPLY _ yourId helloCookie =>
    let data := signedBody identity 1 yourId helloCookie
    data ++ (NgSocketCrypto.sign S data P2P_KIND identity).bytes
  | .DATA data => [2] ++ data
  | .INVALID => []

/-! ## Peer to base -/

inductive PeerToBaseMessage where
  | REQUEST_INFO (deviceId : HusarnetAddress)
  | DATA (target : HusarnetAddress) (data : Bytes)
  | INFO
  | NAT_INIT
  | USER_AGENT (userAgent : Bytes)
  | NAT_OK_CONFIRM
  | NAT_INIT_TRANSIENT
  deriving DecidableEq

def P2B_KIND : Bytes := ascii "ng-p2b-msg"

/-- What the serializer reads of the socket: it takes the addresses and the counter from there and
not from the message. -/
structure BaseSession where
  identity : Identity
  cookie : Bytes
  localAddresses : List InetAddress
  natInitCounter : UInt64

/-- A signed message: kind, id, key and cookie, then the fields of the kind, then the signature. -/
def signedToBase (S : Sodium) (b : BaseSession) (kind : UInt8) (fields : Bytes) : Bytes :=
  let data := [kind] ++ b.identity.deviceId.data.bytes ++ b.identity.pubkey.bytes ++ b.cookie ++ fields
  data ++ (NgSocketCrypto.sign S data P2B_KIND b.identity).bytes

def serializePeerToBaseMessage (S : Sodium) (b : BaseSession) : PeerToBaseMessage → Bytes
  | .REQUEST_INFO deviceId => signedToBase S b 0 deviceId.data.bytes
  | .DATA target data => [1] ++ b.identity.deviceId.data.bytes ++ target.data.bytes ++ data
  | .INFO => signedToBase S b 2 (b.localAddresses.flatMap fun a => a.ip.data.bytes ++ pack16 a.port)
  | .NAT_INIT => signedToBase S b 3 (pack64 b.natInitCounter)
  | .USER_AGENT userAgent => [4] ++ userAgent
  | .NAT_OK_CONFIRM => signedToBase S b 5 (pack64 b.natInitCounter)
  | .NAT_INIT_TRANSIENT => signedToBase S b 6 []

end Husarnet
