import Husarnet.PeerContainer

/-! # security_layer.cpp

A call of the layer gives its state and, in order, what it hands to its neighbours and the writes
to session keys it makes. The neighbours only read the peer container and write fields that this
layer does not read back, so that handing over can wait until the call is done. The identity is the
one the container holds.
-/

namespace Husarnet
open Octets
set_option autoImplicit false

def MAX_QUEUED_PACKETS : ℤ := 10
def BOOT_ID_MASK : UInt64 := 0xFFFFFFFF00000000

structure SecurityLayer where
  peerContainer : PeerContainer
  myFlags : PeerFlags
  helloseq : UInt64
  queuedPackets : ℤ := 0
  decryptedBuffer : FString 2000 := .zero 2000

/-- What a call does outside the layer, and the two writes that establish a session. -/
inductive LayerOutput where
  | toLower (peerAddress : HusarnetAddress) (data : Bytes)
  | toUpper (peerAddress : HusarnetAddress) (data : Bytes)
  | wroteKeys (peer : PeerRef)
  | negotiated (peer : PeerRef)
  deriving DecidableEq

def mixFlags (S : Sodium) (key : FString 32) (flags1 flags2 : UInt64) : FString 32 :=
  S.sha256 (key.bytes ++ pack64 flags1 ++ pack64 flags2)

/-! ## Hello packets -/

/-- The kind under which hello packets are signed. -/
def KX_KIND : Bytes := ascii "ng-kx-pubkey"

/-- The part of a hello packet that is signed. -/
def helloBody (pubkey : FString 32) (flags : PeerFlags) (peer : Peer) (num : UInt8)
    (ownHelloseq helloseq : UInt64) : Bytes :=
  [num] ++ (pubkey.bytes ++ (peer.kxPubkey.bytes ++ (peer.id.data.bytes ++
    (pack64 ownHelloseq ++ (pack64 helloseq ++ pack64 flags.asBin)))))

/-- A hello packet of `identity` to `peer`. -/
def signedHello (S : Sodium) (identity : Identity) (flags : PeerFlags) (peer : Peer) (num : UInt8)
    (ownHelloseq helloseq : UInt64) : Bytes :=
  let packet := helloBody identity.pubkey flags peer num ownHelloseq helloseq
  packet ++ (NgSocketCrypto.sign S packet KX_KIND identity).bytes

/-- The fields of a hello packet, and the bytes before its signature. -/
structure HelloPacket where
  incomingPubkey : FString 32
  peerKxPubkey : FString 32
  targetId : FString 16
  yourHelloseq : UInt64
  myHelloseq : UInt64
  signature : FString 64
  flags_bin : UInt64
  signed : Bytes

/-- The reads at the start of `handleHelloPacket`. -/
def HelloPacket.parse (data : Bytes) : Checked HelloPacket := do
  let incomingPubkey ← substr 1 32 data
  let peerKxPubkey ← substr 33 32 data
  let targetId ← substr 65 16 data
  let yourHelloseq ← unpack64 (← substr (65 + 16) 8 data).bytes
  let myHelloseq ← unpack64 (← substr (65 + 24) 8 data).bytes
  let signature ← FString.ofString 64 (← StringView.drop data (data.length - 64))
  let flags_bin ←
    if data.length ≥ 64 + 65 + 32 + 8 then unpack64 (← substr (65 + 32) 8 data).bytes else pure 0
  let signed ← StringView.substr data 0 (data.length - 64)
  return { incomingPubkey, peerKxPubkey, targetId, yourHelloseq, myHelloseq, signature, flags_bin, signed }

def word64 (data : Bytes) (i : ℕ) : UInt64 := UInt64.ofNat (leNat (slice data i 8))

theorem unpack64_slice {data : Bytes} {i : ℕ} (h : i + 8 ≤ data.length) :
    unpack64 (sliceF data i 8 h).bytes = .ok (word64 data i) := unpack64_of_length (slice_length h)

/-- The fields of a packet that is long enough. -/
def HelloPacket.read (data : Bytes) (h : 161 ≤ data.length) : HelloPacket where
  incomingPubkey := sliceF data 1 32 (by omega)
  peerKxPubkey := sliceF data 33 32 (by omega)
  targetId := sliceF data 65 16 (by omega)
  yourHelloseq := word64 data 81
  myHelloseq := word64 data 89
  signature := sliceF data (data.length - 64) 64 (by omega)
  flags_bin := if data.length ≥ 169 then word64 data 97 else 0
  signed := slice data 0 (data.length - 64)

/-- The signature is behind the bytes it is made for. -/
theorem HelloPacket.read_bytes {data : Bytes} (h : 161 ≤ data.length) :
    data = (read data h).signed ++ (read data h).signature.bytes := by
  have hsigned : (read data h).signed = data.take (data.length - 64) := rfl
  have hsignature : (read data h).signature.bytes = data.drop (data.length - 64) := by
    refine List.take_of_length_le ?_
    rw [List.length_drop]
    omega
  rw [hsigned, hsignature, List.take_append_drop]

theorem helloBody_length (pubkey : FString 32) (flags : PeerFlags) (peer : Peer) (num : UInt8)
    (ownHelloseq helloseq : UInt64) : (helloBody pubkey flags peer num ownHelloseq helloseq).length = 105 := by
  simp [helloBody]

theorem signedHello_length (S : Sodium) (identity : Identity) (flags : PeerFlags) (peer : Peer) (num : UInt8)
    (ownHelloseq helloseq : UInt64) :
    (signedHello S identity flags peer num ownHelloseq helloseq).length = 169 := by
  rw [signedHello, List.length_append, helloBody_length, FString.length_bytes]

section Fields
variable (S : Sodium) (identity : Identity) (flags : PeerFlags) (peer : Peer) (num : UInt8)
  (ownHelloseq helloseq : UInt64)

theorem slice_signedHello {i size : ℕ} (h : i + size ≤ 105) :
    slice (signedHello S identity flags peer num ownHelloseq helloseq) i size =
      slice (helloBody identity.pubkey flags peer num ownHelloseq helloseq) i size := by
  refine slice_append_left _ _ ?_
  rw [helloBody_length]
  exact h

theorem slice_helloBody :
    let body := helloBody identity.pubkey flags peer num ownHelloseq helloseq
    slice body 1 32 = identity.pubkey.bytes ∧ slice body 33 32 = peer.kxPubkey.bytes ∧
      slice body 65 16 = peer.id.data.bytes ∧ slice body 81 8 = pack64 ownHelloseq ∧
      slice body 89 8 = pack64 helloseq ∧ slice body 97 8 = pack64 flags.asBin := by
  intro body
  have hnum : [num].length = 1 := rfl
  have hpub := identity.pubkey.size_eq
  have hkx := peer.kxPubkey.size_eq
  have hid := peer.id.data.size_eq
  have hown := pack64_length ownHelloseq
  have hseq := pack64_length helloseq
  have hflags := pack64_length flags.asBin
  have h₁ {i size : ℕ} (hi : 1 ≤ i) : slice body i size = slice (identity.pubkey.bytes ++ _) (i - 1) size :=
    slice_field_next _ size hnum hi
  have h₂ {i size : ℕ} (hi : 33 ≤ i) : slice body i size = slice (peer.kxPubkey.bytes ++ _) (i - 1 - 32) size :=
    (h₁ (by omega)).trans (slice_field_next _ size hpub (by omega))
  have h₃ {i size : ℕ} (hi : 65 ≤ i) : slice body i size = slice (peer.id.data.bytes ++ _) (i - 1 - 32 - 32) size :=
    (h₂ (by omega)).trans (slice_field_next _ size hkx (by omega))
  have h₄ {i size : ℕ} (hi : 81 ≤ i) :
      slice body i size = slice (pack64 ownHelloseq ++ _) (i - 1 - 32 - 32 - 16) size :=
    (h₃ (by omega)).trans (slice_field_next _ size hid (by omega))
  have h₅ {i size : ℕ} (hi : 89 ≤ i) :
      slice body i size = slice (pack64 helloseq ++ _) (i - 1 - 32 - 32 - 16 - 8) size :=
    (h₄ (by omega)).trans (slice_field_next _ size hown (by omega))
  have h₆ {i size : ℕ} (hi : 97 ≤ i) :
      slice body i size = slice (pack64 flags.asBin) (i - 1 - 32 - 32 - 16 - 8 - 8) size :=
    (h₅ (by omega)).trans (slice_field_next _ size hseq (by omega))
  have hlast : slice (pack64 flags.asBin) 0 8 = pack64 flags.asBin := hflags ▸ slice_zero_length _
  exact ⟨(h₁ (by omega)).trans (slice_field_first _ hpub), (h₂ (by omega)).trans (slice_field_first _ hkx),
    (h₃ (by omega)).trans (slice_field_first _ hid), (h₄ (by omega)).trans (slice_field_first _ hown),
    (h₅ (by omega)).trans (slice_field_first _ hseq), (h₆ (by omega)).trans hlast⟩

/-- **A hello packet reads back.** -/
theorem HelloPacket.read_signedHello (h : 161 ≤ (signedHello S identity flags peer num ownHelloseq helloseq).length) :
    read (signedHello S identity flags peer num ownHelloseq helloseq) h =
      { incomingPubkey := identity.pubkey
        peerKxPubkey := peer.kxPubkey
        targetId := peer.id.data
        yourHelloseq := ownHelloseq
        myHelloseq := helloseq
        signature := NgSocketCrypto.sign S (helloBody identity.pubkey flags peer num ownHelloseq helloseq) KX_KIND
          identity
        flags_bin := flags.asBin
        signed := helloBody identity.pubkey flags peer num ownHelloseq helloseq } := by
  have hlen := signedHello_length S identity flags peer num ownHelloseq helloseq
  have hbody := helloBody_length identity.pubkey flags peer num ownHelloseq helloseq
  obtain ⟨hpub, hkx, hid, hown, hseq, hflags⟩ := slice_helloBody identity flags peer num ownHelloseq helloseq
  have hfield {i size : ℕ} (hi : i + size ≤ 105) := slice_signedHello S identity flags peer num ownHelloseq helloseq hi
  have hword {i : ℕ} {x : UInt64} (hi : i + 8 ≤ 105)
      (hx : slice (helloBody identity.pubkey flags peer num ownHelloseq helloseq) i 8 = pack64 x) :
      word64 (signedHello S identity flags peer num ownHelloseq helloseq) i = x := by
    rw [word64, hfield hi, hx, ofNat_leNat_pack64]
  have hsigned : slice (signedHello S identity flags peer num ownHelloseq helloseq) 0 (169 - 64) =
      helloBody identity.pubkey flags peer num ownHelloseq helloseq := slice_field_first _ hbody
  have hsig : slice (signedHello S identity flags peer num ownHelloseq helloseq) (169 - 64) 64 =
      (NgSocketCrypto.sign S (helloBody identity.pubkey flags peer num ownHelloseq helloseq) KX_KIND identity).bytes := by
    rw [signedHello, slice_field_next _ 64 hbody (by omega)]
    exact List.take_of_length_le (FString.size_eq _).le
  simp only [read, HelloPacket.mk.injEq, hlen]
  refine ⟨FString.ext ((hfield (by omega)).trans hpub), FString.ext ((hfield (by omega)).trans hkx),
    FString.ext ((hfield (by omega)).trans hid), hword (by omega) hown, hword (by omega) hseq, ?_, ?_, hsigned⟩
  · exact FString.ext hsig
  · rw [if_pos (by omega)]
    exact hword (by omega) hflags

end Fields

/-- No read of a packet that is long enough fails. -/
theorem HelloPacket.parse_of_le {data : Bytes} (h : 161 ≤ data.length) :
    HelloPacket.parse data = .ok (.read data h) := by
  have hdrop : StringView.drop data (data.length - 64) = .ok (data.drop (data.length - 64)) :=
    StringView.drop_of_le (by omega)
  have hsig : FString.ofString 64 (data.drop (data.length - 64)) =
      .ok (sliceF data (data.length - 64) 64 (by omega)) := by
    rw [FString.ofString, dif_pos (by rw [List.length_drop]; omega)]
    rfl
  have hsigned : StringView.substr data 0 (data.length - 64) = .ok (slice data 0 (data.length - 64)) :=
    StringView.substr_of_le (by omega)
  rw [HelloPacket.parse, substr_of_le (by omega), substr_of_le (by omega), substr_of_le (by omega),
    substr_of_le (by omega), substr_of_le (by omega)]
  simp only [Except.bind, bind, unpack64_slice, hdrop, hsig, hsigned]
  -- the flags are read from packets that have them
  by_cases hl : data.length ≥ 169
  · rw [if_pos hl, substr_of_le (by omega)]
    simp only [unpack64_slice, HelloPacket.read, if_pos hl]
    rfl
  · rw [if_neg hl]
    simp only [HelloPacket.read, if_neg hl]
    rfl

namespace SecurityLayer
variable (S : Sodium)

def new (peerContainer : PeerContainer) (myFlags : PeerFlags) (boot : UInt64) : SecurityLayer where
  peerContainer := peerContainer
  myFlags := myFlags
  helloseq := boot &&& BOOT_ID_MASK

def myIdentity (sl : SecurityLayer) : Identity := sl.peerContainer.identity

def deref (sl : SecurityLayer) (peer : PeerRef) : Peer := sl.peerContainer.deref peer

def modify (sl : SecurityLayer) (peer : PeerRef) (f : Peer → Peer) : SecurityLayer :=
  { sl with peerContainer := sl.peerContainer.modify peer f }

@[simp] theorem modify_peerContainer (sl : SecurityLayer) (peer : PeerRef) (f : Peer → Peer) :
    (sl.modify peer f).peerContainer = sl.peerContainer.modify peer f := rfl

def getOrCreatePeer (sl : SecurityLayer) (id : HusarnetAddress) : SecurityLayer × Option PeerRef :=
  ({ sl with peerContainer := (sl.peerContainer.getOrCreatePeer id).1 }, (sl.peerContainer.getOrCreatePeer id).2)

def sendHelloPacket (sl : SecurityLayer) (peer : PeerRef) (num : UInt8) (helloseq : UInt64) : LayerOutput :=
  .toLower (sl.deref peer).id (signedHello S sl.myIdentity sl.myFlags (sl.deref peer) num sl.helloseq helloseq)

/-! ## Data packets -/

def headerSize : ℕ := 1 + 24 + 16

/-- The two scratch buffers hold 2010 and 2100 bytes; `crypto_secretbox_easy` writes 16 bytes more
than its text. -/
def doSendDataPacket (sl : SecurityLayer) (peer : PeerRef) (data : Bytes) : SecurityLayer × List LayerOutput :=
  if data.length ≥ 2010 then (sl, [])
  else if data.length + 8 ≥ 2010 then (sl, [])
  else if 1 + 24 + 16 + (data.length + 8) ≥ 2100 then (sl, [])
  else
    let nonce := sl.peerContainer.random.tape.nonce sl.peerContainer.random.draws
    let box := S.secretbox (sl.deref peer).txKey nonce (pack64 0 ++ data)
    ({ sl with peerContainer := sl.peerContainer.draw }, [.toLower (sl.deref peer).id ([0] ++ nonce.bytes ++ box)])

/-- The loop of `finishNegotiation` over the packets that wait for the session. -/
def sendQueued (sl : SecurityLayer) (peer : PeerRef) : List Bytes → SecurityLayer × List LayerOutput
  | [] => (sl, [])
  | packet :: packets =>
    let (sl, out) := doSendDataPacket S { sl with queuedPackets := sl.queuedPackets - 1 } peer packet
    let (sl, more) := sendQueued sl peer packets
    (sl, out ++ more)

def finishNegotiation (sl : SecurityLayer) (peer : PeerRef) : SecurityLayer × List LayerOutput :=
  let sl := sl.modify peer fun p => { p with negotiated := true }
  let (sl, out) := sl.sendQueued S peer (sl.deref peer).packetQueue
  (sl.modify peer fun p => { p with packetQueue := [] }, .negotiated peer :: out)

def onUpperLayerData (sl : SecurityLayer) (target : HusarnetAddress) (data : Bytes) :
    SecurityLayer × List LayerOutput :=
  match sl.getOrCreatePeer target with
  | (sl, none) => (sl, [])
  | (sl, some peer) =>
    if (sl.deref peer).negotiated then sl.doSendDataPacket S peer data
    else
      let sl :=
        if sl.queuedPackets < MAX_QUEUED_PACKETS then
          { sl.modify peer fun p => { p with packetQueue := p.packetQueue ++ [data] } with
            queuedPackets := sl.queuedPackets + 1 }
        else sl
      (sl, [sl.sendHelloPacket S peer 1 0])

def handleDataPacket (now : Time) (sl : SecurityLayer) (peerId : HusarnetAddress) (data : Bytes) :
    Checked (SecurityLayer × List LayerOutput) :=
  if h : data.length ≤ headerSize + 8 then return (sl, [])
  else
    match sl.getOrCreatePeer peerId with
    | (sl, none) => return (sl, [])
    | (sl, some peer) =>
      if !(sl.deref peer).negotiated then return (sl, [sl.sendHelloPacket S peer 1 0])
      else if 2000 < data.length - headerSize then return (sl, [])
      else do
        let decryptedSize := data.length - headerSize
        let _ ← StringView.get data 25
        let _ ← StringView.get data 1
        let nonce := sliceF data 1 24 (by simp only [headerSize] at h; omega)
        -- a forged box leaves the buffer alone
        let opened := S.secretboxOpen (sl.deref peer).rxKey nonce (data.drop 25)
        let sl := { sl with decryptedBuffer := sl.decryptedBuffer.overwrite (opened.getD []) }
        if decryptedSize ≤ 8 then return (sl, [])
        else
          let decryptedData ← StringView.substr sl.decryptedBuffer.bytes 8 (decryptedSize - 8)
          match opened with
          | some _ =>
            return (sl.modify peer fun p => { p with lastValidPacket := now }, [.toUpper peerId decryptedData])
          | none => return (sl, [])

/-! ## The handshake -/

/-- The session keys (receive, transmit): the device with the smaller id plays the client. -/
def sessionKeys (sl : SecurityLayer) (target : HusarnetAddress) (peer : PeerRef) (peerKxPubkey : FString 32) :
    Option (FString 32 × FString 32) :=
  if target < sl.myIdentity.deviceId then
    S.kxClientSessionKeys (sl.deref peer).kxPubkey (sl.deref peer).kxPrivkey peerKxPubkey
  else S.kxServerSessionKeys (sl.deref peer).kxPubkey (sl.deref peer).kxPrivkey peerKxPubkey

/-- `handleHelloPacket` behind its last check. A failed exchange leaves the old keys, which are
mixed with the flags all the same. -/
def negotiate (sl : SecurityLayer) (target : HusarnetAddress) (peer : PeerRef) (hello : HelloPacket)
    (helloNum : UInt8) : SecurityLayer × List LayerOutput :=
  let keys := sl.sessionKeys S target peer hello.peerKxPubkey
  let (rxKey, txKey) := keys.getD ((sl.deref peer).rxKey, (sl.deref peer).txKey)
  let mixed : FString 32 × FString 32 :=
    if hello.flags_bin ≠ 0 then
      (mixFlags S rxKey hello.flags_bin sl.myFlags.asBin, mixFlags S txKey sl.myFlags.asBin hello.flags_bin)
    else (rxKey, txKey)
  let sl := sl.modify peer fun p => { p with flags := ⟨hello.flags_bin⟩, rxKey := mixed.1, txKey := mixed.2 }
  match keys with
  | none => (sl, [.wroteKeys peer])
  | some _ =>
    let (sl, out) := sl.finishNegotiation S peer
    let sl := { sl with helloseq := sl.helloseq + 1 }
    let reply := if helloNum = 2 then [sl.sendHelloPacket S peer 3 hello.yourHelloseq] else []
    (sl, .wroteKeys peer :: out ++ reply)

/-- The key checks of `handleHelloPacket`: the key hashes to the address the packet came from, and
the signature is one of that key. -/
def authentic (hello : HelloPacket) (target : HusarnetAddress) : Bool :=
  NgSocketCrypto.pubkeyToDeviceId S hello.incomingPubkey = target ∧
    NgSocketCrypto.verifySignature S hello.signed KX_KIND hello.incomingPubkey hello.signature = true

/-- The checks and the branches of `handleHelloPacket`. -/
def acceptHello (sl : SecurityLayer) (target : HusarnetAddress) (peer : PeerRef) (hello : HelloPacket)
    (helloNum : UInt8) : SecurityLayer × List LayerOutput :=
  if hello.targetId ≠ sl.myIdentity.deviceId.data then (sl, [])
  else if !authentic S hello target then (sl, [])
  else if helloNum = 1 then (sl, [sl.sendHelloPacket S peer 2 hello.yourHelloseq])
  else if hello.myHelloseq ≠ sl.helloseq then (sl, [])
  else sl.negotiate S target peer hello helloNum

def dataLen : ℕ := 65 + 16 + 16

def handleHelloPacket (sl : SecurityLayer) (target : HusarnetAddress) (data : Bytes) (helloNum : UInt8) :
    Checked (SecurityLayer × List LayerOutput) :=
  if data.length < dataLen + 64 then return (sl, [])
  else
    match sl.getOrCreatePeer target with
    | (sl, none) => return (sl, [])
    | (sl, some peer) => do
      let hello ← HelloPacket.parse data
      return sl.acceptHello S target peer hello helloNum

/-! ## Heartbeats -/

def handleHeartbeat (sl : SecurityLayer) (source : HusarnetAddress) (ident : FString 8) :
    SecurityLayer × List LayerOutput := (sl, [.toLower source ([5] ++ ident.bytes)])

def handleHeartbeatReply (now : Time) (sl : SecurityLayer) (source : HusarnetAddress) (ident : FString 8) :
    SecurityLayer × List LayerOutput :=
  match sl.getOrCreatePeer source with
  | (sl, none) => (sl, [])
  | (sl, some peer) =>
    if ident = (sl.deref peer).heartbeatIdent then
      (sl.modify peer fun p => { p with lastLatencyReceived := now, latency := now - p.lastLatencySent }, [])
    else (sl, [])

/-- The latency to report comes with the state. -/
def getLatency (now : Time) (sl : SecurityLayer) (peerAddress : HusarnetAddress) :
    SecurityLayer × List LayerOutput × ℤ :=
  match sl.getOrCreatePeer peerAddress with
  | (sl, none) => (sl, [], -1)
  | (sl, some peer) =>
    let ident := sl.peerContainer.random.tape.ident sl.peerContainer.random.draws
    let sl := { sl with peerContainer := sl.peerContainer.draw }
    let sl := sl.modify peer fun p => { p with heartbeatIdent := ident, lastLatencySent := now }
    let p := sl.deref peer
    (sl, [.toLower p.id ([4] ++ ident.bytes)], if p.lastLatencyReceived + 10000 < now then -1 else p.latency)

/-! ## Input from below -/

def onLowerLayerData (now : Time) (sl : SecurityLayer) (peerAddress : HusarnetAddress) (data : Bytes) :
    Checked (SecurityLayer × List LayerOutput) :=
  if data.length ≥ 2000 then return (sl, [])
  else do
    let kind ← StringView.get data 0
    if kind = 0 then
      if data.length ≤ 25 then return (sl, [])
      else sl.handleDataPacket S now peerAddress data
    else if kind = 1 ∨ kind = 2 ∨ kind = 3 then
      if data.length ≤ 25 then return (sl, [])
      else sl.handleHelloPacket S peerAddress data kind
    else if kind = 4 ∨ kind = 5 then
      if data.length < 9 then return (sl, [])
      else
        let ident ← substr 1 8 data
        if kind = 4 then return sl.handleHeartbeat peerAddress ident
        else return sl.handleHeartbeatReply now peerAddress ident
    else return (sl, [])

/-- A layer that lets every peer in: the control plane is off. -/
def openTo (identity : Identity) : SecurityLayer :=
  .new (.new (.new false identity.deviceId 0 [] []) identity countingTape) .new 0

end SecurityLayer
end Husarnet
