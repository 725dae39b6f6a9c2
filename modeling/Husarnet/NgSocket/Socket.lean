import Husarnet.NgSocket.Messages
import Husarnet.MulticastLayer
import Husarnet.SecurityLayer

/-! # ngsocket.cpp

The socket layer of a node, with the layers above it in `securityLayer`: all of them share the peer
container. `sent` collects what leaves the node. A handler that gets data for the layer above
gives it back; the node passes it on.
-/

namespace Husarnet
open Octets Containers
set_option autoImplicit false

def REFRESH_TIMEOUT : Time := 25 * 1000
def NAT_INIT_TIMEOUT : Time := 3 * 1000
def TCP_PONG_TIMEOUT : Time := 35 * 1000
def UDP_BASE_TIMEOUT : Time := 35 * 1000
def REESTABLISH_TIMEOUT : Time := 3 * 1000
def RENEGOTIATION_TIMEOUT : Time := 120 * 1000
def MAX_FAILED_ESTABLISHMENTS : ℤ := 5
def MAX_SOURCE_ADDRESSES : ℕ := 5
def DEVICEID_LENGTH : ℕ := 16
def BASESERVER_PORT : UInt16 := 443
def MULTICAST_PORT : UInt16 := 5581
def MULTICAST_ADDR_4 : IpAddress := .parse (ascii "::ffff:E003:FC94")
def MULTICAST_ADDR_6 : IpAddress := .parse (ascii "ff02:88bb:31e4:95f7:2b87:6b52:e112:19ac")

inductive Transmission where
  | udp (dest : InetAddress) (data : Bytes)
  | multicast (dest : InetAddress) (data : Bytes)
  | tcpConnect (dest : InetAddress)
  | tcpClose
  | tcp (data : Bytes)
  | tun (packet : Bytes)
  deriving DecidableEq

/-- What `calls` keeps of a run: a message that was sent to a peer, and a call of `sendDataToPeer` with
whether it asked for the addresses of the peer. -/
inductive CallRecord where
  | sentToPeer (dest : InetAddress) (msg : PeerToPeerMessage)
  | sentData (peer : PeerRef) (now : Time) (asked : Bool)
  deriving DecidableEq

/-- A task of the worker thread: a refresh, or a message that `udpPacketReceived` found too slow to
handle at once. -/
inductive WorkerTask where
  | refresh
  | peerMessage (source : InetAddress) (data : Bytes) (slow : data.getD 0 2 = 0 ∨ data.getD 0 2 = 1)

/-- `baseReachable` says whether `TcpConnection::connect` gives a connection or null. No code reads
`calls`. -/
structure Node where
  securityLayer : SecurityLayer
  userAgent : Bytes
  workerQueueSize : ℕ
  sourcePort : UInt16
  peerSourceAddresses : List (InetAddress × PeerRef) := []
  localAddresses : List InetAddress := []
  lastRefresh : Time := 0
  lastPeriodic : Time := 0
  natInitCounter : UInt64 := 0
  cookie : Bytes := []
  lastBaseTcpMessage : Time := 0
  lastBaseTcpAction : Time := 0
  baseConnectRetries : ℕ := 0
  baseAddress : InetAddress := default
  baseTransientPort : ℕ := 0
  baseTransientRange : ℕ × ℕ := (0, 0)
  lastNatInitConfirmation : Time := 0
  lastNatInitSent : Time := 0
  natInitConfirmed : Bool := true
  baseUdpAddress : InetAddress := default
  allBaseUdpAddresses : List InetAddress := []
  baseConnection : Bool := false
  baseReachable : Bool := true
  workerQueue : List WorkerTask := []
  sent : List Transmission := []
  calls : List CallRecord := []

namespace Node
variable (S : Sodium)

def peerContainer (n : Node) : PeerContainer := n.securityLayer.peerContainer

def withContainer (n : Node) (c : PeerContainer) : Node :=
  { n with securityLayer := { n.securityLayer with peerContainer := c } }

def myIdentity (n : Node) : Identity := n.peerContainer.identity

def configManager (n : Node) : ConfigManager := n.peerContainer.configManager

def deref (n : Node) (peer : PeerRef) : Peer := n.peerContainer.deref peer

def modify (n : Node) (peer : PeerRef) (f : Peer → Peer) : Node := n.withContainer (n.peerContainer.modify peer f)

def getPeer (n : Node) (id : HusarnetAddress) : Node × Option PeerRef :=
  (n.withContainer (n.peerContainer.getPeer id).1, (n.peerContainer.getPeer id).2)

def getOrCreatePeer (n : Node) (id : HusarnetAddress) : Node × Option PeerRef :=
  (n.withContainer (n.peerContainer.getOrCreatePeer id).1, (n.peerContainer.getOrCreatePeer id).2)

def iteratePeers (n : Node) : List PeerRef := n.peerContainer.getPeers.map Prod.snd

def transmit (n : Node) (t : Transmission) : Node := { n with sent := n.sent ++ [t] }

/-! ## Sending -/

def record (n : Node) (r : CallRecord) : Node := { n with calls := n.calls ++ [r] }

def sendToPeer (n : Node) (dest : InetAddress) (msg : PeerToPeerMessage) : Node :=
  (n.transmit (.udp dest (serializePeerToPeerMessage S n.myIdentity msg))).record (.sentToPeer dest msg)

def baseSession (n : Node) : BaseSession := ⟨n.myIdentity, n.cookie, n.localAddresses, n.natInitCounter⟩

def sendToBaseTcp (n : Node) (msg : PeerToBaseMessage) : Node :=
  if !n.baseConnection || n.cookie.isEmpty then n
  else n.transmit (.tcp (serializePeerToBaseMessage S n.baseSession msg))

/-- The message of a transient port gets its port and is not sent. -/
def sendToBaseUdp (n : Node) (msg : PeerToBaseMessage) : Node :=
  if !n.baseConnection || n.cookie.isEmpty then n
  else
    let serialized := serializePeerToBaseMessage S n.baseSession msg
    match msg with
    | .NAT_INIT | .NAT_OK_CONFIRM =>
      n.allBaseUdpAddresses.foldl (fun n address => n.transmit (.udp address serialized)) n
    | .NAT_INIT_TRANSIENT => n
    | _ => n.transmit (.udp n.baseUdpAddress serialized)

def sendInfoRequestToBase (n : Node) (id : HusarnetAddress) : Node := n.sendToBaseTcp S (.REQUEST_INFO id)

def sendLocalAddressesToBase (n : Node) : Node := n.sendToBaseTcp S .INFO

def resendInfoRequests (now : Time) (n : Node) : Node :=
  n.iteratePeers.foldl
    (fun n peer => if (n.deref peer).isActive now then n.sendInfoRequestToBase S (n.deref peer).id else n) n

def sendMulticast (n : Node) : Node :=
  let data := pack16 n.sourcePort ++ n.myIdentity.deviceId.data.bytes
  (n.transmit (.multicast ⟨MULTICAST_ADDR_4, MULTICAST_PORT⟩ data)).transmit
    (.multicast ⟨MULTICAST_ADDR_6, MULTICAST_PORT⟩ data)

/-- The counter is read by the serializer after it was incremented. -/
def sendNatInitToBase (now : Time) (n : Node) : Node :=
  if n.cookie.isEmpty then n
  else
    let n := { n with lastNatInitSent := now, natInitConfirmed := false, natInitCounter := n.natInitCounter + 1 }
    let n := n.sendToBaseUdp S .NAT_INIT
    if n.baseTransientPort ≠ 0 then
      let n := n.sendToBaseUdp S .NAT_INIT_TRANSIENT
      let port := n.baseTransientPort + 1
      { n with baseTransientPort := if port > n.baseTransientRange.2 then n.baseTransientRange.1 else port }
    else n

/-! ## Peers -/

/-- The addresses to try, in order and without repetition. -/
def establishAddresses (p : Peer) : List InetAddress :=
  InetAddress.sortUnique (p.targetAddresses ++ (if p.linkLocalAddress.isSet then [p.linkLocalAddress] else [])
    ++ p.sourceAddresses)

/-- One hello to an address, two to the one in use, none to a Husarnet address. -/
def sendHelloTo (peer : PeerRef) (n : Node) (address : InetAddress) : Node :=
  if address.ip.isFC94 then n
  else
    let msg := PeerToPeerMessage.HELLO .invalid (n.deref peer).id (n.deref peer).helloCookie
    let n := n.sendToPeer S address msg
    if address = (n.deref peer).targetAddress then n.sendToPeer S address msg else n

def attemptReestablish (now : Time) (n : Node) (peer : PeerRef) : Node :=
  let cookie := n.peerContainer.random.tape.cookie n.peerContainer.random.draws
  let n := n.withContainer n.peerContainer.draw
  let n := n.modify peer fun p => { p with
    failedEstablishments := p.failedEstablishments + 1
    lastReestablish := now
    reestablishing := true
    helloCookie := cookie.bytes }
  (establishAddresses (n.deref peer)).foldl (sendHelloTo S peer) n

def periodicPeer (now : Time) (n : Node) (peer : PeerRef) : Node :=
  let p := n.deref peer
  if p.negotiated ∧ p.lastValidPacket < now - RENEGOTIATION_TIMEOUT then
    n.modify peer fun p => { p with negotiated := false, connected := false }
  else if !p.isActive now then n.modify peer fun p => { p with connected := false }
  else
    let n :=
      if p.reestablishing ∧ p.connected ∧ now - p.lastReestablish > REESTABLISH_TIMEOUT then
        n.modify peer fun p => { p with connected := false }
      else n
    n.attemptReestablish S now peer

def refresh (now : Time) (n : Node) : Node :=
  let n := { n with lastRefresh := now }
  let n := ((n.sendLocalAddressesToBase S).sendNatInitToBase S now).sendMulticast
  n.iteratePeers.foldl (periodicPeer S now) n

def requestRefresh (n : Node) : Node :=
  if n.workerQueue.length < n.workerQueueSize then { n with workerQueue := n.workerQueue ++ [.refresh] } else n

def isBaseUdp (n : Node) (now : Time) : Bool := now - n.lastNatInitConfirmation < UDP_BASE_TIMEOUT

/-- The part of `sendDataToPeer` for a peer that is not connected. -/
def relayDataToPeer (now : Time) (n : Node) (peer : PeerRef) (data : Bytes) : Node :=
  let p := n.deref peer
  let n :=
    if !p.reestablishing ∨ (now - p.lastReestablish > REESTABLISH_TIMEOUT ∧
        p.failedEstablishments ≤ MAX_FAILED_ESTABLISHMENTS) then
      n.attemptReestablish S now peer
    else n
  let msg := PeerToBaseMessage.DATA (n.deref peer).id data
  if n.isBaseUdp now then n.sendToBaseUdp S msg else n.sendToBaseTcp S msg

def sendDataToPeer (now : Time) (n : Node) (peer : PeerRef) (data : Bytes) : Node :=
  let n :=
    if (n.deref peer).connected then n.sendToPeer S (n.deref peer).targetAddress (.DATA data)
    else n.relayDataToPeer S now peer data
  let asks := !(n.deref peer).isActive now
  let n := if asks then n.sendInfoRequestToBase S (n.deref peer).id else n
  (n.modify peer fun p => { p with lastPacket := now }).record (.sentData peer now asks)

def onUpperLayerData (now : Time) (n : Node) (peerAddress : HusarnetAddress) (data : Bytes) : Node :=
  match n.getOrCreatePeer peerAddress with
  | (n, none) => n
  | (n, some peer) => n.sendDataToPeer S now peer data

def removeSourceAddress (n : Node) (peer : PeerRef) (address : InetAddress) : Node :=
  let n := n.modify peer fun p => { p with sourceAddresses := p.sourceAddresses.erase address }
  { n with peerSourceAddresses := eraseKey n.peerSourceAddresses address }

/-- A random one of the peer's addresses goes when it has five. -/
def removeRandomSourceAddress (n : Node) (peer : PeerRef) : Node :=
  let addresses := (n.deref peer).sourceAddresses
  let i := n.peerContainer.random.tape.rand n.peerContainer.random.draws % addresses.length
  (n.withContainer n.peerContainer.draw).removeSourceAddress peer (addresses.getD i default)

def addSourceAddress (n : Node) (peer : PeerRef) (source : InetAddress) : Node :=
  if source ∈ (n.deref peer).sourceAddresses then n
  else
    let n :=
      if (n.deref peer).sourceAddresses.length ≥ MAX_SOURCE_ADDRESSES then n.removeRandomSourceAddress peer else n
    let n := n.modify peer fun p => { p with sourceAddresses := p.sourceAddresses ++ [source] }
    let n :=
      match get? n.peerSourceAddresses source with
      | some lastPeer => n.modify lastPeer fun p => { p with sourceAddresses := p.sourceAddresses.erase source }
      | none => n
    { n with peerSourceAddresses := assign n.peerSourceAddresses source peer }

def findPeerBySourceAddress (n : Node) (address : InetAddress) : Option PeerRef := get? n.peerSourceAddresses address

def changePeerTargetAddresses (now : Time) (n : Node) (peer : PeerRef) (addresses : List InetAddress) : Node :=
  let addresses := InetAddress.sort addresses
  if (n.deref peer).targetAddresses ≠ addresses then
    (n.modify peer fun p => { p with targetAddresses := addresses }).attemptReestablish S now peer
  else n

/-! ## Messages from peers -/

def helloReceived (now : Time) (n : Node) (source : InetAddress) (myId yourId : HusarnetAddress)
    (helloCookie : Bytes) : Node :=
  if yourId ≠ n.myIdentity.deviceId then n
  else
    match n.getOrCreatePeer myId with
    | (n, none) => n
    | (n, some peer) =>
      let n := n.addSourceAddress peer source
      let n :=
        if source.ip.isLinkLocal && !(n.deref peer).linkLocalAddress.isSet then
          let n := n.modify peer fun p => { p with linkLocalAddress := source }
          if (n.deref peer).isActive now then n.attemptReestablish S now peer else n
        else n
      n.sendToPeer S source (.HELLO_REPLY .invalid myId helloCookie)

def helloReplyReceived (n : Node) (source : InetAddress) (myId yourId : HusarnetAddress) (helloCookie : Bytes) :
    Node :=
  if yourId ≠ n.myIdentity.deviceId then n
  else
    match n.getPeer myId with
    | (n, none) => n
    | (n, some peer) =>
      if !(n.deref peer).reestablishing then n
      else if (n.deref peer).helloCookie ≠ helloCookie then n
      else n.modify peer fun p => { p with
        targetAddress := source
        connected := true
        failedEstablishments := 0
        reestablishing := false }

/-- The peer's data for the layer above, if the source address is known. -/
def peerDataPacketReceived (n : Node) (source : InetAddress) (data : Bytes) : Option (HusarnetAddress × Bytes) :=
  (n.findPeerBySourceAddress source).map fun peer => ((n.deref peer).id, data)

def peerMessageReceived (now : Time) (n : Node) (source : InetAddress) :
    PeerToPeerMessage → Node × Option (HusarnetAddress × Bytes)
  | .DATA data => (n, n.peerDataPacketReceived source data)
  | .HELLO myId yourId helloCookie => (n.helloReceived S now source myId yourId helloCookie, none)
  | .HELLO_REPLY myId yourId helloCookie => (n.helloReplyReceived source myId yourId helloCookie, none)
  | .INVALID => (n, none)

/-! ## The base server -/

/-- The addresses are not empty once `waitInit` has returned. -/
def connectToBase (now : Time) (n : Node) : Node :=
  let addresses := n.configManager.getBaseAddresses
  let baseAddress : InetAddress := ⟨addresses.getD (n.baseConnectRetries % addresses.length) default, BASESERVER_PORT⟩
  let n := { n with baseAddress := baseAddress, baseConnectRetries := n.baseConnectRetries + 1 }
  let n := if n.baseConnection then n.transmit .tcpClose else n
  let n := n.transmit (.tcpConnect n.baseAddress)
  { n with baseConnection := n.baseReachable, lastBaseTcpAction := now }.sendToBaseTcp S (.USER_AGENT n.userAgent)

def baseMessageReceivedUdp (now : Time) (n : Node) : BaseToPeerMessage → Node × Option (HusarnetAddress × Bytes)
  | .DATA source data => (n, some (source, data))
  | .NAT_OK =>
    ({ n with lastNatInitConfirmation := now, natInitConfirmed := true }.sendToBaseUdp S .NAT_OK_CONFIRM, none)
  | _ => (n, none)

def stateReceived (n : Node) (udpAddress : List InetAddress) (natTransientRange : ℕ × ℕ) : Node :=
  let n := { n with allBaseUdpAddresses := udpAddress, baseUdpAddress := udpAddress.headD default }
  if natTransientRange.1 ≠ 0 ∧ natTransientRange.2 ≥ natTransientRange.1 then
    { n with
      baseTransientRange := natTransientRange
      baseTransientPort := if n.baseTransientPort = 0 then natTransientRange.1 else n.baseTransientPort }
  else n

def baseMessageReceivedTcp (now : Time) (n : Node) (msg : BaseToPeerMessage) :
    Node × Option (HusarnetAddress × Bytes) :=
  let n := { n with lastBaseTcpMessage := now, lastBaseTcpAction := now, baseConnectRetries := 0 }
  match msg with
  | .DATA source data => (n, some (source, data))
  | .HELLO cookie =>
    let n := { n with cookie := cookie.bytes }
    (((n.resendInfoRequests S now).sendLocalAddressesToBase S).requestRefresh, none)
  | .DEVICE_ADDRESSES deviceId addresses =>
    match n.getPeer deviceId with
    | (n, none) => (n, none)
    | (n, some peer) => (n.changePeerTargetAddresses S now peer addresses, none)
  | .STATE udpAddress natTransientRange => (n.stateReceived udpAddress natTransientRange, none)
  | .REDIRECT newBaseAddress => ({ n with baseAddress := newBaseAddress }.connectToBase S now, none)
  | .NAT_OK | .INVALID => (n, none)

/-! ## Packets -/

def udpPacketReceived (now : Time) (n : Node) (source : InetAddress) (data : Bytes) :
    Checked (Node × Option (HusarnetAddress × Bytes)) :=
  if source = n.baseUdpAddress then do
    let msg ← parseBaseToPeerMessage data
    return n.baseMessageReceivedUdp S now msg
  else do
    let _ ← StringView.get data 0
    if h : data.getD 0 2 = 0 ∨ data.getD 0 2 = 1 then
      if n.workerQueue.length < n.workerQueueSize then
        return ({ n with workerQueue := n.workerQueue ++ [.peerMessage source data h] }, none)
      else return (n, none)
    else
      let msg ← parsePeerToPeerMessage S data
      return n.peerMessageReceived S now source msg

def tcpFrameReceived (now : Time) (n : Node) (data : Bytes) : Checked (Node × Option (HusarnetAddress × Bytes)) := do
  let msg ← parseBaseToPeerMessage data
  return n.baseMessageReceivedTcp S now msg

def tcpClosed (now : Time) (n : Node) : Node :=
  if n.baseConnection then { n.transmit .tcpClose with baseConnection := false, lastBaseTcpAction := now } else n

def multicastPacketReceived (now : Time) (n : Node) (address : InetAddress) (packet : Bytes) : Checked Node :=
  if !(address.ip.isLinkLocal || address.ip.isPrivateV4) then return n
  else if packet.length < DEVICEID_LENGTH + 2 then return n
  else do
    let devId ← IpAddress.fromBinaryString (slice packet 2 DEVICEID_LENGTH)
    let port ← unpack16 (slice packet 0 2)
    if devId = n.myIdentity.deviceId then return n
    else
      match n.getPeer devId with
      | (n, none) => return n
      | (n, some peer) =>
        let srcAddress : InetAddress := ⟨address.ip, port⟩
        if (n.deref peer).linkLocalAddress ≠ srcAddress then
          return (n.modify peer fun p => { p with linkLocalAddress := srcAddress }).attemptReestablish S now peer
        else return n

/-! ## The worker and the event loop -/

def workerStep (now : Time) (n : Node) : Checked (Node × Option (HusarnetAddress × Bytes)) :=
  match n.workerQueue with
  | [] => return (n, none)
  | .refresh :: tasks => return ({ n with workerQueue := tasks }.refresh S now, none)
  | .peerMessage source data _ :: tasks => do
    let msg ← parsePeerToPeerMessage S data
    return { n with workerQueue := tasks }.peerMessageReceived S now source msg

/-- Did the addresses of the host change after they were known? -/
def reloadLocalAddresses (n : Node) (addresses : List IpAddress) : Node × Bool :=
  let newAddresses :=
    InetAddress.sort ((addresses.filter fun a => !a.isFC94).map fun a => ⟨a, n.sourcePort⟩)
  if newAddresses ≠ n.localAddresses then
    ({ n with localAddresses := newAddresses }, decide (n.localAddresses.length > 0))
  else (n, false)

def periodic (now : Time) (n : Node) (addresses : List IpAddress) : Node :=
  if now < n.lastPeriodic + 1000 then n
  else
    let (n, reloaded) := { n with lastPeriodic := now }.reloadLocalAddresses addresses
    let n :=
      if reloaded then
        let n := n.requestRefresh
        if now - n.lastBaseTcpAction > NAT_INIT_TIMEOUT then n.connectToBase S now else n
      else n
    let n := if now - n.lastRefresh > REFRESH_TIMEOUT then n.requestRefresh else n
    let n :=
      if !n.natInitConfirmed ∧ now - n.lastNatInitSent > NAT_INIT_TIMEOUT then n.sendNatInitToBase S now else n
    if now - n.lastBaseTcpAction > (if n.baseConnection then TCP_PONG_TIMEOUT else NAT_INIT_TIMEOUT) then
      n.connectToBase S now
    else n

end Node
end Husarnet
