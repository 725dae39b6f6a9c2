import Husarnet.Lib.Runs
import Husarnet.NgSocket.Socket
import Husarnet.Revocation

/-! # The stack of layers

`husarnet_manager.cpp` stacks the TUN device, the multicast, compression and security layers and
the socket layer, and runs them from one event loop and a worker thread. An event of a node is
handled to its end, through all layers, before the next one; `sent` is what left the node since
the event began.
-/

namespace Husarnet
open Octets Containers Runs
set_option autoImplicit false

/-- What can happen to a node: packets, frames, a task of the worker, the timer with the addresses
of the host, a status query, a change of the configuration, a base server that can be reached or not. -/
inductive NodeEvent where
  | udpPacket (source : InetAddress) (data : Bytes)
  | multicastPacket (address : InetAddress) (packet : Bytes)
  | tcpFrame (data : Bytes)
  | tcpClosed
  | tunPacket (packet : Bytes)
  | worker
  | periodic (addresses : List IpAddress)
  | getLatency (peerAddress : HusarnetAddress)
  | configChange (change : ConfigChange)
  | baseReachable (reachable : Bool)

namespace Node

/-- A node at its start: the port that `init` could bind, and the number the security layer drew. -/
def new (configManager : ConfigManager) (identity : Identity) (tape : Tape) (myFlags : PeerFlags) (boot : UInt64)
    (userAgent : Bytes) (workerQueueSize : ℕ) (sourcePort : UInt16) : Node where
  securityLayer := .new (.new configManager identity tape) myFlags boot
  userAgent := userAgent
  workerQueueSize := workerQueueSize
  sourcePort := sourcePort

def withSecurityLayer (n : Node) (sl : SecurityLayer) : Node := { n with securityLayer := sl }

variable (S : Sodium) (T : JsonText)

/-- Data for the layers above the security layer: the multicast layer writes it to the TUN device. -/
def toTun (n : Node) (source : HusarnetAddress) (data : Bytes) : Checked Node := do
  let packets ← MulticastLayer.onLowerLayerData n.myIdentity.deviceId source data
  return { n with sent := n.sent ++ packets.map fun packet => .tun packet.2 }

/-- What a call of the security layer hands to its neighbours. -/
def handOver (now : Time) (n : Node) : List LayerOutput → Checked Node
  | [] => return n
  | .toLower peerAddress data :: out => handOver now (n.onUpperLayerData S now peerAddress data) out
  | .toUpper peerAddress data :: out => do handOver now (← n.toTun peerAddress data) out
  | .wroteKeys _ :: out | .negotiated _ :: out => handOver now n out

/-- Data that the socket layer has for the layer above. -/
def passUp (now : Time) (n : Node) : Option (HusarnetAddress × Bytes) → Checked Node
  | none => return n
  | some (peerAddress, data) => do
    let (sl, out) ← n.securityLayer.onLowerLayerData S now peerAddress data
    (n.withSecurityLayer sl).handOver S now out

/-- Data that the multicast layer has for the layers below. -/
def passDown (now : Time) (n : Node) : List (HusarnetAddress × Bytes) → Checked Node
  | [] => return n
  | (dest, data) :: packets => do
    let (sl, out) := n.securityLayer.onUpperLayerData S dest data
    passDown now (← (n.withSecurityLayer sl).handOver S now out) packets

def tunPacketReceived (now : Time) (n : Node) (packet : Bytes) : Checked Node := do
  let packets ← MulticastLayer.onUpperLayerData n.configManager n.myIdentity.deviceId packet
  n.passDown S now packets

def getLatency (now : Time) (n : Node) (peerAddress : HusarnetAddress) : Checked Node :=
  let (sl, out, _) := n.securityLayer.getLatency now peerAddress
  (n.withSecurityLayer sl).handOver S now out

/-- The socket layer's part of an event: the node after it and the data for the layer above. -/
def receive (now : Time) (n : Node) : NodeEvent → Checked (Node × Option (HusarnetAddress × Bytes))
  | .udpPacket source data => n.udpPacketReceived S now source data
  | .multicastPacket address packet => do return (← n.multicastPacketReceived S now address packet, none)
  | .tcpFrame data => n.tcpFrameReceived S now data
  | .tcpClosed => return (n.tcpClosed now, none)
  | .worker => n.workerStep S now
  | .periodic addresses => return (n.periodic S now addresses, none)
  | .tunPacket _ | .getLatency _ | .configChange _ | .baseReachable _ => return (n, none)

/-- One event, on a node that has sent nothing yet. A failure ends the process. -/
def act (n : Node) (now : Time) : NodeEvent → Checked Node
  | .tunPacket packet => n.tunPacketReceived S now packet
  | .getLatency peerAddress => n.getLatency S now peerAddress
  | .configChange change => return n.withContainer (n.peerContainer.reconfigure (change.apply T n.configManager))
  | .baseReachable reachable => return { n with baseReachable := reachable }
  | e => do
    let (n, up) ← n.receive S now e
    n.passUp S now up

/-- The socket layer has a part in the event. -/
def IsSocketEvent : NodeEvent → Prop
  | .tunPacket _ | .getLatency _ | .configChange _ | .baseReachable _ => False
  | _ => True

theorem act_of_socket {n : Node} {now : Time} {e : NodeEvent} (h : IsSocketEvent e) :
    n.act S T now e = n.receive S now e >>= fun r => r.1.passUp S now r.2 := by
  cases e with
  | tunPacket _ => cases h
  | getLatency _ => cases h
  | configChange _ => cases h
  | baseReachable _ => cases h
  | udpPacket _ _ => rfl
  | multicastPacket _ _ => rfl
  | tcpFrame _ => rfl
  | tcpClosed => rfl
  | worker => rfl
  | periodic _ => rfl

/-- The run of a node on events and the times when they happen, up to the first failure. -/
def run (n₀ : Node) (events : List (Time × NodeEvent)) : List ((Time × NodeEvent) × Node) :=
  attempts (fun n e => act S T { n with sent := [] } e.1 e.2) n₀ events

abbrev RunStep (n : Node) (e : Time × NodeEvent) (n' : Node) : Prop := act S T { n with sent := [] } e.1 e.2 = .ok n'

theorem isRun_run (n₀ : Node) (events : List (Time × NodeEvent)) : IsRun (RunStep S T) n₀ (n₀.run S T events) :=
  isRun_attempts _ n₀ events

theorem labels_run (n₀ : Node) (events : List (Time × NodeEvent)) :
    (n₀.run S T events).map Prod.fst <+: events := labels_attempts _ n₀ events

end Node

/-- A node at its start that lets every peer in. -/
def openNode (identity : Identity) : Node :=
  .new (.new false identity.deviceId 0 [] []) identity countingTape .new 0 [] 4 5000

/-- A node whose configuration names a base server. -/
def baseNode : Node :=
  .new { (openNode (clearIdentity 1)).configManager with baseAddresses := ⟨[.parse (ascii "::ffff:0a00:0001")], by decide⟩ }
    (clearIdentity 1) countingTape .new 0 [] 4 5000

end Husarnet
