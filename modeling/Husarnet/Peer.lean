import Husarnet.Crypto

/-! # peer.h and peer_flags.cpp

Times are milliseconds of `Port::getCurrentTime`.
-/

namespace Husarnet
open Octets
set_option autoImplicit false

abbrev Time := ℤ

def TEARDOWN_TIMEOUT : Time := 120 * 1000

inductive PeerFlag where
  | supportsFlags
  | compression
  deriving DecidableEq, Repr

namespace PeerFlag

def value : PeerFlag → UInt64
  | supportsFlags => 1
  | compression => 2

end PeerFlag

structure PeerFlags where
  flags : UInt64
  deriving DecidableEq, Repr

namespace PeerFlags

def setFlag (f : PeerFlags) (flag : PeerFlag) : PeerFlags := ⟨f.flags ||| flag.value⟩

def new : PeerFlags := setFlag ⟨0⟩ .supportsFlags

/-- `flags && flag._value`, a logical conjunction. -/
def checkFlag (f : PeerFlags) (flag : PeerFlag) : Bool := f.flags ≠ 0 ∧ flag.value ≠ 0

def asBin (f : PeerFlags) : UInt64 := f.flags

end PeerFlags

structure Peer where
  id : HusarnetAddress
  lastPacket : Time := 0
  lastReestablish : Time := 0
  latency : ℤ := -1
  connected : Bool := false
  reestablishing : Bool := false
  failedEstablishments : ℤ := 0
  targetAddress : InetAddress := default
  helloCookie : Bytes := []
  targetAddresses : List InetAddress := []
  linkLocalAddress : InetAddress := default
  sourceAddresses : List InetAddress := []
  packetQueue : List Bytes := []
  negotiated : Bool := false
  kxPubkey : FString 32
  kxPrivkey : FString 32
  txKey : FString 32 := .zero 32
  rxKey : FString 32 := .zero 32
  lastLatencyReceived : Time := 0
  lastLatencySent : Time := 0
  lastValidPacket : Time := 0
  heartbeatIdent : FString 8
  flags : PeerFlags := .new

namespace Peer

instance : Inhabited Peer :=
  ⟨{ id := .invalid, kxPubkey := .zero 32, kxPrivkey := .zero 32, heartbeatIdent := .zero 8 }⟩

def isActive (p : Peer) (now : Time) : Bool := now - p.lastPacket < TEARDOWN_TIMEOUT

/-- A write to a peer; no code writes the id after `createPeer`. -/
def update (p : Peer) (f : Peer → Peer) : Peer := { f p with id := p.id }

@[simp] theorem update_id (p : Peer) (f : Peer → Peer) : (p.update f).id = p.id := rfl

end Peer
end Husarnet
