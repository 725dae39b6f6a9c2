import Husarnet.NgSocket.Messages

/-! # What is written is read back

The messages of the base server, by their layout, and the messages between peers, as they are
serialized. A hello that is accepted has the layout of a serialized one.
-/

namespace Husarnet
open Octets NgSocketCrypto
set_option autoImplicit false

theorem unpack16_pack16 (x : UInt16) : unpack16 (pack16 x) = .ok x := by
  have h : x.toNat < 256 ^ 2 := x.toNat_lt
  rw [unpack16_of_length (pack16_length x), pack16, leNat_leBytes_of_lt h, UInt16.ofNat_toNat]

/-! ## Addresses in a message -/

def addressRecord (a : InetAddress) : Bytes := a.ip.data.bytes ++ pack16 a.port

def addressRecords (addresses : List InetAddress) : Bytes := addresses.flatMap addressRecord

theorem addressRecord_length (a : InetAddress) : (addressRecord a).length = 18 := by
  rw [addressRecord, List.length_append, FString.length_bytes, pack16_length]

theorem addressRecords_length (addresses : List InetAddress) :
    (addressRecords addresses).length = 18 * addresses.length := by
  induction addresses with
  | nil => rfl
  | cons a addresses ih =>
    rw [addressRecords, List.flatMap_cons, List.length_append, addressRecord_length, ← addressRecords, ih,
      List.length_cons]
    omega

theorem readInetAddress_record (front : Bytes) (a : InetAddress) (behind : Bytes) :
    readInetAddress (front ++ (addressRecord a ++ behind)) front.length = .ok a := by
  have hlen : (front ++ (addressRecord a ++ behind)).length = front.length + (18 + behind.length) := by
    rw [List.length_append, List.length_append, addressRecord_length]
  have hip : slice (front ++ (addressRecord a ++ behind)) front.length 16 = a.ip.data.bytes := by
    rw [addressRecord, List.append_assoc, slice_field _ _ _ rfl a.ip.data.size_eq]
  have hport : slice (front ++ (addressRecord a ++ behind)) (front.length + 16) 2 = pack16 a.port := by
    have hfront : (front ++ a.ip.data.bytes).length = front.length + 16 := by rw [List.length_append, FString.length_bytes]
    have h := slice_field (front ++ a.ip.data.bytes) (pack16 a.port) behind hfront (pack16_length _)
    rwa [List.append_assoc, ← List.append_assoc a.ip.data.bytes] at h
  have hbytes : IpAddress.fromBinaryString a.ip.data.bytes = .ok a.ip := dif_pos a.ip.data.size_eq
  rw [readInetAddress, StringView.substr_of_le (by omega), StringView.substr_of_le (by omega), hip, hport]
  simp only [Except.bind, bind, hbytes, unpack16_pack16]
  rfl

/-- The records of a message are read up to its end, or as many of them as there is room for. -/
theorem readInetAddresses_records (front : Bytes) (addresses : List InetAddress) (tail : Bytes) {room : ℕ}
    (hroom : addresses.length ≤ room) (htail : tail.length < 18) :
    readInetAddresses (front ++ (addressRecords addresses ++ tail)) room front.length = .ok addresses := by
  induction addresses generalizing front room with
  | nil =>
    cases room with
    | zero => rfl
    | succ room =>
      have hlen : (front ++ (addressRecords [] ++ tail)).length = front.length + tail.length := List.length_append
      rw [readInetAddresses, if_neg (by omega)]
      rfl
  | cons a addresses ih =>
    cases room with
    | zero => exact absurd hroom (by simp)
    | succ room =>
      have hcons : front ++ (addressRecords (a :: addresses) ++ tail) =
          front ++ (addressRecord a ++ (addressRecords addresses ++ tail)) := by
        rw [addressRecords, List.flatMap_cons, List.append_assoc, ← addressRecords]
      have hnext : (front ++ addressRecord a).length = front.length + 18 := by
        rw [List.length_append, addressRecord_length]
      have hrest := ih (front ++ addressRecord a) (Nat.le_of_succ_le_succ hroom)
      rw [hnext, List.append_assoc] at hrest
      have hlen : front.length + 18 ≤ (front ++ (addressRecord a ++ (addressRecords addresses ++ tail))).length := by
        rw [← List.append_assoc, List.length_append, hnext]
        omega
      rw [hcons, readInetAddresses, if_pos hlen, readInetAddress_record, hrest]
      rfl

theorem readTransientRange_ports (front : Bytes) (first second : UInt16) :
    readTransientRange (front ++ (pack16 first ++ pack16 second)) front.length = .ok (first.toNat, second.toNat) := by
  have hlen : (front ++ (pack16 first ++ pack16 second)).length = front.length + 4 := by
    rw [List.length_append, List.length_append, pack16_length, pack16_length]
  have hfirst : slice (front ++ (pack16 first ++ pack16 second)) front.length 2 = pack16 first :=
    slice_field _ _ _ rfl (pack16_length _)
  have hsecond : slice (front ++ (pack16 first ++ pack16 second)) (front.length + 2) 2 = pack16 second := by
    have hbegin : (front ++ pack16 first).length = front.length + 2 := by rw [List.length_append, pack16_length]
    have h := slice_field_last (front ++ pack16 first) (pack16 second) hbegin (pack16_length _)
    rwa [List.append_assoc] at h
  rw [readTransientRange, if_pos (by omega), StringView.substr_of_le (by omega), StringView.substr_of_le (by omega), hfirst,
    hsecond]
  simp only [Except.bind, bind, unpack16_pack16]
  rfl

theorem readTransientRange_end (data : Bytes) : readTransientRange data data.length = .ok (0, 0) := by
  rw [readTransientRange, if_neg (by omega)]
  rfl

/-! ## Messages of the base server -/

theorem sliceF_field {n : ℕ} (front : Bytes) (field : FString n) (behind : Bytes)
    (h : front.length + n ≤ (front ++ (field.bytes ++ behind)).length) :
    sliceF (front ++ (field.bytes ++ behind)) front.length n h = field :=
  FString.ext (slice_field _ _ _ rfl field.size_eq)

theorem substr_id (kind : UInt8) (field : FString 16) (behind : Bytes) :
    substr 1 16 (kind :: (field.bytes ++ behind)) = .ok field := by
  have hlen : 1 + 16 ≤ (kind :: (field.bytes ++ behind)).length := by
    rw [List.length_cons, List.length_append, FString.length_bytes]
    omega
  rw [substr_of_le hlen]
  exact congrArg _ (sliceF_field [kind] field behind hlen)

theorem get_kind (kind : UInt8) (behind : Bytes) : StringView.get (kind :: behind) 0 = .ok kind :=
  StringView.get_of_lt (Nat.succ_pos _)

theorem parse_baseHello (cookie : FString 16) : parseBaseToPeerMessage (0 :: cookie.bytes) = .ok (.HELLO cookie) := by
  have hlen : (0 :: cookie.bytes).length = 17 := by rw [List.length_cons, FString.length_bytes]
  have hfield := substr_id 0 cookie []
  rw [List.append_nil] at hfield
  rw [parseBaseToPeerMessage, if_neg (by omega), get_kind]
  simp only [Except.bind, bind, hlen, hfield, ne_eq, not_true_eq_false, if_false, if_true]
  rfl

theorem parse_deviceAddresses (id : HusarnetAddress) {addresses : List InetAddress} (hsome : addresses ≠ [])
    {tail : Bytes} (htail : tail.length < 18) :
    parseBaseToPeerMessage (1 :: (id.data.bytes ++ (addressRecords addresses ++ tail))) =
      .ok (.DEVICE_ADDRESSES id addresses) := by
  have hpos := List.length_pos_iff.mpr hsome
  have hlen : (1 :: (id.data.bytes ++ (addressRecords addresses ++ tail))).length =
      17 + 18 * addresses.length + tail.length := by
    rw [List.length_cons, List.length_append, List.length_append, FString.length_bytes, addressRecords_length]
    omega
  have hroom : addresses.length ≤ (1 :: (id.data.bytes ++ (addressRecords addresses ++ tail))).length := by omega
  have hread := readInetAddresses_records (1 :: id.data.bytes) addresses tail hroom htail
  have hfront : (1 :: id.data.bytes).length = 17 := by rw [List.length_cons, FString.length_bytes]
  rw [hfront, List.cons_append] at hread
  rw [parseBaseToPeerMessage, if_neg (by omega), get_kind]
  simp only [Except.bind, bind]
  rw [if_neg (by decide), if_pos trivial, if_neg (by omega), substr_id, hread]
  rfl

theorem parse_baseData (source : HusarnetAddress) {data : Bytes} (hsome : data ≠ []) :
    parseBaseToPeerMessage (2 :: (source.data.bytes ++ data)) = .ok (.DATA source data) := by
  have hpos := List.length_pos_iff.mpr hsome
  have hfront : (2 :: source.data.bytes).length = 17 := by rw [List.length_cons, FString.length_bytes]
  have hlen : (2 :: (source.data.bytes ++ data)).length = 17 + data.length := by
    rw [← List.cons_append, List.length_append, hfront]
  have hdrop : (2 :: (source.data.bytes ++ data)).drop 17 = data := by
    rw [← List.cons_append]
    exact List.drop_left' hfront
  rw [parseBaseToPeerMessage, if_neg (by omega), get_kind]
  simp only [Except.bind, bind]
  rw [if_neg (by decide), if_neg (by decide), if_pos trivial, if_neg (by omega), substr_id,
    StringView.drop_of_le (by omega), hdrop]
  rfl

/-- A state message, from what is read behind its addresses. -/
theorem parse_state {addresses : List InetAddress} (hsome : addresses ≠ []) (hroom : addresses.length ≤ 5)
    (tail : Bytes) (htail : tail.length < 18) {range : ℕ × ℕ}
    (hrange : readTransientRange (4 :: (addressRecords addresses ++ tail)) (1 + 18 * addresses.length) = .ok range) :
    parseBaseToPeerMessage (4 :: (addressRecords addresses ++ tail)) = .ok (.STATE addresses range) := by
  have hpos := List.length_pos_iff.mpr hsome
  have hread := readInetAddresses_records [4] addresses tail hroom htail
  rw [List.singleton_append, List.length_singleton] at hread
  rw [parseBaseToPeerMessage, if_neg (by simp), get_kind]
  simp only [Except.bind, bind]
  rw [if_neg (by decide), if_neg (by decide), if_neg (by decide), if_neg (by decide), if_pos trivial, hread]
  dsimp only
  rw [hrange]
  dsimp only
  rw [if_neg (by omega)]
  rfl

theorem parse_stateRange {addresses : List InetAddress} (hsome : addresses ≠ []) (hroom : addresses.length ≤ 5)
    (first second : UInt16) :
    parseBaseToPeerMessage (4 :: (addressRecords addresses ++ (pack16 first ++ pack16 second))) =
      .ok (.STATE addresses (first.toNat, second.toNat)) := by
  refine parse_state hsome hroom _ (by rw [List.length_append, pack16_length, pack16_length]; decide) ?_
  have hrange := readTransientRange_ports (4 :: addressRecords addresses) first second
  rwa [List.length_cons, addressRecords_length, Nat.add_comm] at hrange

theorem parse_stateNoRange {addresses : List InetAddress} (hsome : addresses ≠ []) (hroom : addresses.length ≤ 5) :
    parseBaseToPeerMessage (4 :: addressRecords addresses) = .ok (.STATE addresses (0, 0)) := by
  have hrange := readTransientRange_end (4 :: addressRecords addresses)
  rw [List.length_cons, addressRecords_length, Nat.add_comm] at hrange
  have hparse := parse_state hsome hroom [] (by decide) (by rwa [List.append_nil])
  rwa [List.append_nil] at hparse

/-- The bytes are too few for the kind that the first of them announces, or there are none. -/
def Truncated (data : Bytes) : Prop :=
  data = [] ∨ data.head? = some 0 ∧ data.length ≠ 17 ∨ data.head? = some 1 ∧ data.length ≤ 17 ∨
    data.head? = some 2 ∧ data.length ≤ 17 ∨ data.head? = some 4 ∧ data.length < 19

theorem parse_truncated {data : Bytes} (h : Truncated data) : parseBaseToPeerMessage data = .ok .INVALID := by
  cases data with
  | nil => rfl
  | cons kind rest =>
    obtain ⟨msg, hmsg, hparsed⟩ := parseBaseToPeerMessage_parsed (kind :: rest)
    rw [hmsg]
    simp only [Truncated, List.head?_cons, Option.some.injEq, reduceCtorEq, false_or] at h
    cases hparsed with
    | hello hk hl =>
      have hkind : kind = 0 := hk
      subst hkind
      simp [hl] at h
    | deviceAddresses hk hl _ =>
      have hkind : kind = 1 := hk
      subst hkind
      simp at h
      simp at hl
      omega
    | data hk hl =>
      have hkind : kind = 2 := hk
      subst hkind
      simp at h
      simp at hl
      omega
    | natOk hk =>
      have hkind : kind = 3 := hk
      subst hkind
      simp at h
    | state hk hne hread _ =>
      have hkind : kind = 4 := hk
      subst hkind
      simp at h
      have hshort : ¬ 1 + 18 ≤ ((4 : UInt8) :: rest).length := by
        rw [List.length_cons]
        omega
      rw [readInetAddresses, if_neg hshort] at hread
      cases hread
      exact absurd (by decide) hne
    | invalid => rfl

/-- **Base messages decode completely.** Whatever the fields are, and for any number of addresses. -/
theorem base_messages_decode :
    (∀ (id : HusarnetAddress) (addresses : List InetAddress) (tail : Bytes), addresses ≠ [] → tail.length < 18 →
      parseBaseToPeerMessage ([1] ++ id.data.bytes ++ addressRecords addresses ++ tail) =
        .ok (.DEVICE_ADDRESSES id addresses)) ∧
    (∀ addresses : List InetAddress, 1 ≤ addresses.length → addresses.length ≤ 5 →
      parseBaseToPeerMessage ([4] ++ addressRecords addresses) = .ok (.STATE addresses (0, 0)) ∧
      ∀ first second : UInt16, parseBaseToPeerMessage ([4] ++ addressRecords addresses ++ pack16 first ++ pack16 second) =
        .ok (.STATE addresses (first.toNat, second.toNat))) ∧
    (∀ cookie : FString 16, parseBaseToPeerMessage ([0] ++ cookie.bytes) = .ok (.HELLO cookie)) ∧
    (∀ (source : HusarnetAddress) (data : Bytes), data ≠ [] →
      parseBaseToPeerMessage ([2] ++ source.data.bytes ++ data) = .ok (.DATA source data)) ∧
    ∀ data, Truncated data → parseBaseToPeerMessage data = .ok .INVALID := by
  refine ⟨fun id addresses tail hsome htail => ?_, fun addresses hpos hroom => ⟨?_, fun first second => ?_⟩,
    parse_baseHello, fun source data hsome => ?_, fun data => parse_truncated⟩
  · rw [List.append_assoc, List.append_assoc]
    exact parse_deviceAddresses id hsome htail
  · exact parse_stateNoRange (List.length_pos_iff.mp hpos) hroom
  · rw [List.append_assoc, List.append_assoc]
    exact parse_stateRange (List.length_pos_iff.mp hpos) hroom first second
  · rw [List.append_assoc]
    exact parse_baseData source hsome

/-- Two addresses with two other bytes behind them. -/
theorem two_addresses_decode :
    let a : InetAddress := ⟨.invalid, 443⟩
    let b : InetAddress := ⟨(clearIdentity 2).deviceId, 0⟩
    parseBaseToPeerMessage ([1] ++ (clearIdentity 1).deviceId.data.bytes ++ addressRecords [a, b] ++ [7, 7]) =
      .ok (.DEVICE_ADDRESSES (clearIdentity 1).deviceId [a, b]) :=
  base_messages_decode.1 _ _ _ (List.cons_ne_nil _ _) (by decide)

/-! ## Messages between peers -/

/-- What the others rely on: the id is that of the key, and what the key signs verifies. -/
structure Identity.Verifies (S : Sodium) (identity : Identity) : Prop where
  fromKey : pubkeyToDeviceId S identity.pubkey = identity.deviceId
  genuine : ∀ msg, S.verifyDetached (identity.sign S msg) msg identity.pubkey = true

/-- The layout of a hello or a reply. -/
def helloBytes (kind : UInt8) (myId : HusarnetAddress) (pubkey : FString 32) (yourId : HusarnetAddress)
    (helloCookie : Bytes) (signature : FString 64) : Bytes :=
  [kind] ++ myId.data.bytes ++ pubkey.bytes ++ yourId.data.bytes ++ helloCookie ++ signature.bytes

section Hello
variable (kind : UInt8) (myId yourId : HusarnetAddress) (pubkey : FString 32) {helloCookie : Bytes} (signature : FString 64)

theorem helloBytes_length (hcookie : helloCookie.length = 16) :
    (helloBytes kind myId pubkey yourId helloCookie signature).length = 145 := by
  simp [helloBytes, hcookie]

/-- The fields of a hello, where the parser looks for them. -/
theorem helloBytes_fields (hcookie : helloCookie.length = 16) :
    let data := helloBytes kind myId pubkey yourId helloCookie signature
    slice data 1 16 = myId.data.bytes ∧ slice data 17 32 = pubkey.bytes ∧ slice data 49 16 = yourId.data.bytes ∧
      slice data 65 16 = helloCookie ∧ slice data 81 64 = signature.bytes := by
  intro data
  have hid := slice_field [kind] myId.data.bytes (pubkey.bytes ++ yourId.data.bytes ++ helloCookie ++ signature.bytes)
    (i := 1) (n := 16) rfl (by simp)
  have hkey := slice_field ([kind] ++ myId.data.bytes) pubkey.bytes (yourId.data.bytes ++ helloCookie ++ signature.bytes)
    (i := 17) (n := 32) (by simp) (by simp)
  have hyour := slice_field ([kind] ++ myId.data.bytes ++ pubkey.bytes) yourId.data.bytes (helloCookie ++ signature.bytes)
    (i := 49) (n := 16) (by simp) (by simp)
  have hcookieField := slice_field ([kind] ++ myId.data.bytes ++ pubkey.bytes ++ yourId.data.bytes) helloCookie
    signature.bytes (i := 65) (n := 16) (by simp) hcookie
  have hsignature := slice_field ([kind] ++ myId.data.bytes ++ pubkey.bytes ++ yourId.data.bytes ++ helloCookie)
    signature.bytes [] (i := 81) (n := 64) (by simp [hcookie]) (by simp)
  simp only [List.append_assoc, List.append_nil] at hid hkey hyour hcookieField hsignature
  simp only [data, helloBytes, List.append_assoc]
  exact ⟨hid, hkey, hyour, hcookieField, hsignature⟩

end Hello

/-- The message that a hello stands for, by its kind. -/
def helloMessage (kind : UInt8) : HusarnetAddress → HusarnetAddress → Bytes → PeerToPeerMessage :=
  if kind = 0 then .HELLO else .HELLO_REPLY

/-- The bytes are a hello of this kind with these fields, with the key of the id and its signature. -/
def SignedBytes (S : Sodium) (data : Bytes) (kind : UInt8) (myId yourId : HusarnetAddress) (helloCookie : Bytes) : Prop :=
  ∃ pubkey signature, data = helloBytes kind myId pubkey yourId helloCookie signature ∧ helloCookie.length = 16 ∧
    pubkeyToDeviceId S pubkey = myId ∧ verifySignature S (data.take 81) P2P_KIND pubkey signature = true

theorem helloMessage_inj {kind kind' : UInt8} {a a' b b' : HusarnetAddress} {c c' : Bytes} (hkind : kind = 0 ∨ kind = 1)
    (hkind' : kind' = 0 ∨ kind' = 1) (h : helloMessage kind a b c = helloMessage kind' a' b' c') :
    kind = kind' ∧ a = a' ∧ b = b' ∧ c = c' := by
  obtain rfl | rfl := hkind <;> obtain rfl | rfl := hkind'
  · exact ⟨rfl, PeerToPeerMessage.HELLO.inj h⟩
  · cases h
  · cases h
  · exact ⟨rfl, PeerToPeerMessage.HELLO_REPLY.inj h⟩

theorem helloMessage_signed (kind : UInt8) (a b : HusarnetAddress) (c : Bytes) :
    helloMessage kind a b c ≠ .INVALID ∧ ∀ data, helloMessage kind a b c ≠ .DATA data := by
  rw [helloMessage]
  split <;> simp

theorem in_hello {data : Bytes} (h : data.length = 145) {i size : ℕ} (hi : i + size ≤ 145) : i + size ≤ data.length := h ▸ hi

/-- A message of the length of a hello is its fields. -/
theorem helloBytes_of_length {data : Bytes} (h : data.length = 145) :
    data = helloBytes (data.getD 0 0) ⟨sliceF data 1 16 (in_hello h (by decide))⟩ (sliceF data 17 32 (in_hello h (by decide)))
      ⟨sliceF data 49 16 (in_hello h (by decide))⟩ (slice data 65 16) (sliceF data 81 64 (in_hello h (by decide))) := by
  have hkind : data = data.getD 0 0 :: data.drop 1 := by
    cases data with
    | nil => cases h
    | cons kind rest => rfl
  have hend : data.drop 81 = slice data 81 64 := (slice_to_end (by omega)).symm
  have hrest : data.drop 1 = slice data 1 16 ++ (slice data 17 32 ++ (slice data 49 16 ++ (slice data 65 16 ++
      slice data 81 64))) := by
    rw [drop_eq_slice_append data 1 16, drop_eq_slice_append data (1 + 16) 32, drop_eq_slice_append data (1 + 16 + 32) 16,
      drop_eq_slice_append data (1 + 16 + 32 + 16) 16, hend]
  rw [helloBytes]
  simp only [List.append_assoc, List.singleton_append]
  exact hkind.trans (congrArg _ hrest)

theorem parse_signedBytes {S : Sodium} {data : Bytes} {kind : UInt8} {myId yourId : HusarnetAddress} {helloCookie : Bytes}
    (hkind : kind = 0 ∨ kind = 1) (h : SignedBytes S data kind myId yourId helloCookie) :
    parsePeerToPeerMessage S data = .ok (helloMessage kind myId yourId helloCookie) := by
  obtain ⟨pubkey, signature, rfl, hcookie, hid, hverify⟩ := h
  have hlen := helloBytes_length kind myId yourId pubkey signature hcookie
  obtain ⟨hmyId, hkey, hyourId, hcookieField, hsignature⟩ := helloBytes_fields kind myId yourId pubkey signature hcookie
  have hget : (helloBytes kind myId pubkey yourId helloCookie signature).getD 0 0 = kind := rfl
  rw [parsePeerToPeerMessage_signed S hlen (by rwa [hget]), parseSignedMessage_of_length hlen, hget]
  have hmyId' : sliceF _ 1 16 (helloId_within hlen) = myId.data := FString.ext hmyId
  have hkey' : sliceF _ 17 32 (helloKey_within hlen) = pubkey := FString.ext hkey
  have hsignature' : sliceF _ 81 64 (helloSignature_within hlen) = signature := FString.ext hsignature
  have hyourId' : sliceF (helloBytes kind myId pubkey yourId helloCookie signature) 49 16 (by omega) = yourId.data :=
    FString.ext hyourId
  rw [hmyId', hkey', hsignature', hyourId', hcookieField, if_pos ⟨hid, hverify⟩]
  rfl

theorem signedBytes_of_parse {S : Sodium} {data : Bytes} {kind : UInt8} {myId yourId : HusarnetAddress} {helloCookie : Bytes}
    (hkind : kind = 0 ∨ kind = 1)
    (h : parsePeerToPeerMessage S data = .ok (helloMessage kind myId yourId helloCookie)) :
    SignedBytes S data kind myId yourId helloCookie := by
  obtain ⟨hlen, hbyte⟩ | ⟨-, -, hdata⟩ | hinvalid := parsePeerToPeerMessage_cases S data
  · rw [parsePeerToPeerMessage_signed S hlen hbyte, parseSignedMessage_of_length hlen, Except.ok.injEq] at h
    split at h
    · rename_i hsigned
      obtain ⟨hk, rfl, rfl, rfl⟩ := helloMessage_inj hbyte hkind h
      refine ⟨_, _, hk ▸ helloBytes_of_length hlen, slice_length (by omega), hsigned.1, ?_⟩
      exact hsigned.2
    · exact absurd h.symm (helloMessage_signed ..).1
  · rw [hdata, Except.ok.injEq] at h
    exact absurd h.symm ((helloMessage_signed ..).2 _)
  · rw [hinvalid, Except.ok.injEq] at h
    exact absurd h.symm (helloMessage_signed ..).1

/-- The serializer signs what the others verify. -/
theorem signedBytes_serialize {S : Sodium} {identity : Identity} (h : identity.Verifies S) (myId yourId : HusarnetAddress)
    {helloCookie : Bytes} (hcookie : helloCookie.length = 16) (kind : UInt8) (hkind : kind = 0 ∨ kind = 1) :
    SignedBytes S (serializePeerToPeerMessage S identity (helloMessage kind myId yourId helloCookie)) kind
      identity.deviceId yourId helloCookie := by
  have hbytes : serializePeerToPeerMessage S identity (helloMessage kind myId yourId helloCookie) =
      signedBody identity kind yourId helloCookie ++
        (NgSocketCrypto.sign S (signedBody identity kind yourId helloCookie) P2P_KIND identity).bytes := by
    obtain rfl | rfl := hkind <;> rfl
  have hbody : (signedBody identity kind yourId helloCookie).length = 81 := by simp [signedBody, hcookie]
  rw [hbytes]
  refine ⟨identity.pubkey, _, rfl, hcookie, h.fromKey, ?_⟩
  rw [List.take_left' hbody]
  exact h.genuine _

/-- **Messages between peers round-trip.** A message that is serialized parses, with the sender's id.
What parses as a hello or a reply has the layout of one, and its signature verifies. -/
theorem peer_messages_roundtrip (S : Sodium) (identity : Identity) (h : identity.Verifies S) :
    (∀ (myId yourId : HusarnetAddress) (helloCookie : Bytes), helloCookie.length = 16 →
      parsePeerToPeerMessage S (serializePeerToPeerMessage S identity (.HELLO myId yourId helloCookie)) =
        .ok (.HELLO identity.deviceId yourId helloCookie) ∧
      parsePeerToPeerMessage S (serializePeerToPeerMessage S identity (.HELLO_REPLY myId yourId helloCookie)) =
        .ok (.HELLO_REPLY identity.deviceId yourId helloCookie)) ∧
    (∀ data, parsePeerToPeerMessage S (serializePeerToPeerMessage S identity (.DATA data)) = .ok (.DATA data)) ∧
    ∀ (data : Bytes) (myId yourId : HusarnetAddress) (helloCookie : Bytes),
      (parsePeerToPeerMessage S data = .ok (.HELLO myId yourId helloCookie) ↔
        SignedBytes S data 0 myId yourId helloCookie) ∧
      (parsePeerToPeerMessage S data = .ok (.HELLO_REPLY myId yourId helloCookie) ↔
        SignedBytes S data 1 myId yourId helloCookie) := by
  refine ⟨fun myId yourId helloCookie hcookie => ⟨?_, ?_⟩, fun data => ?_, fun data myId yourId helloCookie => ⟨?_, ?_⟩⟩
  · exact parse_signedBytes (Or.inl rfl) (signedBytes_serialize h myId yourId hcookie 0 (Or.inl rfl))
  · exact parse_signedBytes (Or.inr rfl) (signedBytes_serialize h myId yourId hcookie 1 (Or.inr rfl))
  · obtain ⟨msg, hmsg, hdata⟩ := parsePeerToPeerMessage_ok S (serializePeerToPeerMessage S identity (.DATA data))
    rw [hmsg, (hdata data).mpr rfl]
  · exact ⟨signedBytes_of_parse (Or.inl rfl), parse_signedBytes (Or.inl rfl)⟩
  · exact ⟨signedBytes_of_parse (Or.inr rfl), parse_signedBytes (Or.inr rfl)⟩

theorem clearIdentity_verifies (n : UInt8) : (clearIdentity n).Verifies clearSodium where
  fromKey := rfl
  genuine msg := by
    have hkey : (clearIdentity n).privkey.bytes.take 32 = (clearIdentity n).pubkey.bytes := rfl
    rw [Identity.sign]
    simp only [clearSodium, decide_eq_true_eq, hkey]

theorem clear_messages_roundtrip :
    let identity := clearIdentity 1
    let cookie := List.replicate 16 7
    parsePeerToPeerMessage clearSodium (serializePeerToPeerMessage clearSodium identity (.HELLO .invalid .invalid cookie)) =
      .ok (.HELLO identity.deviceId .invalid cookie) := by
  intro identity cookie
  exact ((peer_messages_roundtrip clearSodium identity (clearIdentity_verifies 1)).1 _ _ _ rfl).1

end Husarnet
