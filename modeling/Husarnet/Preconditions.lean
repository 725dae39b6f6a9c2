import Husarnet.Config.UserWhitelist
import Husarnet.Node
import Husarnet.SecurityEffects

/-! # Preconditions that network input can break

The parsers of the socket layer and the layers above it check every length before they read, but
for one: the security layer reads the first byte of the data it gets, and the data of a message
between peers can be empty. `EmptyDataPacket` is the event that breaks this precondition; no other
event of a node breaks any.
-/

namespace Husarnet
open Octets Containers PeerContainer SecurityLayer Runs
set_option autoImplicit false

namespace Node
variable {S : Sodium} {T : JsonText} (now : Time)

/-- A message between peers without data, from a source address that is known. -/
def EmptyDataPacket (n : Node) (e : NodeEvent) : Prop :=
  ∃ source, e = .udpPacket source [2] ∧ source ≠ n.baseUdpAddress ∧ n.findPeerBySourceAddress source ≠ none

/-! ## The layers above the socket layer -/

theorem toTun_ok (n : Node) (source : HusarnetAddress) (data : Bytes) : ∃ n', n.toTun source data = .ok n' := by
  obtain ⟨packets, hp, -⟩ := MulticastLayer.onLowerLayerData_upPackets n.myIdentity.deviceId source data
  rw [toTun, hp]
  exact ⟨_, rfl⟩

theorem handOver_ok (n : Node) (out : List LayerOutput) : ∃ n', n.handOver S now out = .ok n' := by
  induction out generalizing n with
  | nil => exact ⟨n, rfl⟩
  | cons o out ih =>
    cases o with
    | toLower peerAddress data => exact ih (n.onUpperLayerData S now peerAddress data)
    | toUpper peerAddress data =>
      obtain ⟨n₁, hn⟩ := toTun_ok n peerAddress data
      rw [handOver, hn]
      exact ih n₁
    | wroteKeys _ => exact ih n
    | negotiated _ => exact ih n

/-- The security layer reads the first byte of what it gets, and nothing else goes wrong. -/
theorem passUp_ok_iff (n : Node) (up : Option (HusarnetAddress × Bytes)) :
    (∃ n', n.passUp S now up = .ok n') ↔ ∀ id, up ≠ some (id, []) := by
  cases up with
  | none =>
    constructor
    · intro _ id h
      cases h
    · exact fun _ => ⟨n, rfl⟩
  | some up =>
    obtain ⟨id, data⟩ := up
    constructor
    · rintro ⟨n', h⟩ id' hup
      cases hup
      cases h
    · intro hup
      have hne : data ≠ [] := by
        rintro rfl
        exact hup id rfl
      obtain ⟨⟨sl, out⟩, hsl, -⟩ := onLowerLayerData_handling (S := S) now n.securityLayer id hne
      obtain ⟨n', hn⟩ := handOver_ok (S := S) now (n.withSecurityLayer sl) out
      refine ⟨n', ?_⟩
      rw [passUp, hsl]
      exact hn

theorem passDown_ok (n : Node) (packets : List (HusarnetAddress × Bytes)) :
    ∃ n', n.passDown S now packets = .ok n' := by
  induction packets generalizing n with
  | nil => exact ⟨n, rfl⟩
  | cons packet packets ih =>
    obtain ⟨n₁, hn⟩ := handOver_ok (S := S) now
      (n.withSecurityLayer (n.securityLayer.onUpperLayerData S packet.1 packet.2).1)
      (n.securityLayer.onUpperLayerData S packet.1 packet.2).2
    obtain ⟨n', hn'⟩ := ih n₁
    exact ⟨n', Checked.bind_eq_ok.mpr ⟨n₁, hn, hn'⟩⟩

theorem tunPacketReceived_ok (n : Node) (packet : Bytes) : ∃ n', n.tunPacketReceived S now packet = .ok n' := by
  obtain ⟨packets, hp⟩ := MulticastLayer.onUpperLayerData_ok n.configManager n.myIdentity.deviceId packet
  rw [tunPacketReceived, hp]
  exact passDown_ok now n packets

/-! ## The socket layer -/

theorem multicastPacketReceived_ok (n : Node) (address : InetAddress) (packet : Bytes) :
    ∃ n', n.multicastPacketReceived S now address packet = .ok n' := by
  unfold multicastPacketReceived
  split
  · exact ⟨n, rfl⟩
  · split
    · exact ⟨n, rfl⟩
    · rename_i hl
      simp only [DEVICEID_LENGTH] at hl ⊢
      have hid : (slice packet 2 16).length = 16 := slice_length (by omega)
      have hport : (slice packet 0 2).length = 2 := slice_length (by omega)
      simp only [Except.bind, bind, IpAddress.fromBinaryString, dif_pos hid, unpack16_of_length hport]
      split
      · exact ⟨n, rfl⟩
      · split
        · exact ⟨_, rfl⟩
        · split <;> exact ⟨_, rfl⟩

/-- A message between peers has data for the layer above if its source is known. -/
theorem peerMessageReceived_up (n : Node) (source : InetAddress) (msg : PeerToPeerMessage) (id : HusarnetAddress)
    (data : Bytes) : (n.peerMessageReceived S now source msg).2 = some (id, data) ↔
      msg = .DATA data ∧ (n.findPeerBySourceAddress source).map (fun peer => (n.deref peer).id) = some id := by
  cases msg with
  | DATA d =>
    simp only [peerMessageReceived, peerDataPacketReceived, PeerToPeerMessage.DATA.injEq, Option.map_eq_some_iff,
      Prod.mk.injEq]
    constructor
    · rintro ⟨peer, hpeer, hid, hd⟩
      exact ⟨hd, peer, hpeer, hid⟩
    · rintro ⟨hd, peer, hpeer, hid⟩
      exact ⟨peer, hpeer, hid, hd⟩
  | HELLO _ _ _ => simp [peerMessageReceived]
  | HELLO_REPLY _ _ _ => simp [peerMessageReceived]
  | INVALID => simp [peerMessageReceived]

theorem baseMessageReceivedUdp_up {n : Node} {msg : BaseToPeerMessage} {id : HusarnetAddress} {data : Bytes}
    (h : (n.baseMessageReceivedUdp S now msg).2 = some (id, data)) : msg = .DATA id data := by
  cases msg with
  | DATA source d =>
    cases h
    rfl
  | HELLO _ => cases h
  | DEVICE_ADDRESSES _ _ => cases h
  | NAT_OK => cases h
  | STATE _ _ => cases h
  | REDIRECT _ => cases h
  | INVALID => cases h

theorem baseMessageReceivedTcp_up {n : Node} {msg : BaseToPeerMessage} {id : HusarnetAddress} {data : Bytes}
    (h : (n.baseMessageReceivedTcp S now msg).2 = some (id, data)) : msg = .DATA id data := by
  cases msg with
  | DATA source d =>
    cases h
    rfl
  | DEVICE_ADDRESSES deviceId addresses =>
    simp only [baseMessageReceivedTcp] at h
    split at h <;> cases h
  | HELLO _ => cases h
  | NAT_OK => cases h
  | STATE _ _ => cases h
  | REDIRECT _ => cases h
  | INVALID => cases h

/-- A datagram with data is parsed, and gives the layer above nothing to read only as an empty data
packet. -/
theorem udpPacketReceived_ok (n : Node) (source : InetAddress) {data : Bytes} (hne : data ≠ []) :
    ∃ n₁ up, n.udpPacketReceived S now source data = .ok (n₁, up) ∧
      ((∃ id, up = some (id, [])) ↔ n.EmptyDataPacket (.udpPacket source data)) := by
  have hget : StringView.get data 0 = .ok (data.getD 0 0) := StringView.get_of_lt (List.length_pos_iff.mpr hne)
  unfold udpPacketReceived
  by_cases hbase : source = n.baseUdpAddress
  · obtain ⟨msg, hmsg, hdata⟩ := parseBaseToPeerMessage_ok data
    rw [if_pos hbase, hmsg]
    refine ⟨_, _, rfl, ?_⟩
    constructor
    · rintro ⟨id, hup⟩
      exact absurd rfl (hdata id [] (baseMessageReceivedUdp_up now hup))
    · rintro ⟨source', he, hother, -⟩
      cases he
      exact absurd hbase hother
  · rw [if_neg hbase, hget]
    simp only [Except.bind, bind]
    by_cases hslow : data.getD 0 2 = 0 ∨ data.getD 0 2 = 1
    · have hkind : ¬ n.EmptyDataPacket (.udpPacket source data) := by
        rintro ⟨source', he, -⟩
        cases he
        exact absurd hslow (by decide)
      rw [dif_pos hslow]
      have hnone : (∃ id, (none : Option (HusarnetAddress × Bytes)) = some (id, [])) ↔
          n.EmptyDataPacket (.udpPacket source data) := by
        constructor
        · rintro ⟨id, h⟩
          cases h
        · exact fun h => absurd h hkind
      split <;> exact ⟨_, none, rfl, hnone⟩
    · obtain ⟨msg, hmsg, hdata⟩ := parsePeerToPeerMessage_ok S data
      rw [dif_neg hslow, hmsg]
      refine ⟨_, (n.peerMessageReceived S now source msg).2, rfl, ?_⟩
      simp only [peerMessageReceived_up, hdata]
      constructor
      · rintro ⟨id, hd, hpeer⟩
        subst hd
        refine ⟨source, rfl, hbase, fun hnone => ?_⟩
        rw [hnone] at hpeer
        cases hpeer
      · rintro ⟨source', he, -, hpeer⟩
        cases he
        obtain ⟨peer, hpeer⟩ := Option.ne_none_iff_exists'.mp hpeer
        exact ⟨(n.deref peer).id, rfl, by rw [hpeer]; rfl⟩

/-- A message that went to the worker is no data packet. -/
theorem workerStep_ok (n : Node) : ∃ n₁ up, n.workerStep S now = .ok (n₁, up) ∧ ∀ id data, up ≠ some (id, data) := by
  unfold workerStep
  split
  · exact ⟨n, none, rfl, fun _ _ h => by cases h⟩
  · exact ⟨_, none, rfl, fun _ _ h => by cases h⟩
  · rename_i source data slow tasks _
    obtain ⟨msg, hmsg, hdata⟩ := parsePeerToPeerMessage_ok S data
    rw [hmsg]
    refine ⟨_, _, rfl, fun id d hup => ?_⟩
    have hkind := (hdata d).mp ((peerMessageReceived_up now _ source msg id d).mp hup).1
    rw [hkind, List.getD_cons_zero] at slow
    exact absurd slow (by decide)

theorem tcpFrameReceived_ok (n : Node) (data : Bytes) :
    ∃ n₁ up, n.tcpFrameReceived S now data = .ok (n₁, up) ∧ ∀ id, up ≠ some (id, []) := by
  obtain ⟨msg, hmsg, hdata⟩ := parseBaseToPeerMessage_ok data
  rw [tcpFrameReceived, hmsg]
  exact ⟨_, _, rfl, fun id hup => hdata id [] (baseMessageReceivedTcp_up now hup) rfl⟩

/-! ## One event -/

def HasData (e : NodeEvent) : Prop := ∀ source data, e = .udpPacket source data → data ≠ []

theorem hasData_udpPacket (source : InetAddress) {data : Bytes} (h : data ≠ []) : HasData (.udpPacket source data) := by
  rintro source' data' he
  cases he
  exact h

theorem receive_ok (n : Node) {e : NodeEvent} (hne : HasData e) : ∃ n₁ up, n.receive S now e = .ok (n₁, up) ∧
    ((∃ id, up = some (id, [])) ↔ n.EmptyDataPacket e) := by
  have hquiet (r : Node × Option (HusarnetAddress × Bytes)) (hr : n.receive S now e = .ok r)
      (hup : ∀ id, r.2 ≠ some (id, [])) (he : ∀ source, e ≠ .udpPacket source [2]) :
      ∃ n₁ up, n.receive S now e = .ok (n₁, up) ∧ ((∃ id, up = some (id, [])) ↔ n.EmptyDataPacket e) := by
    refine ⟨r.1, r.2, hr, ?_⟩
    constructor
    · rintro ⟨id, h⟩
      exact absurd h (hup id)
    · rintro ⟨source, h, -⟩
      exact absurd h (he source)
  cases e with
  | udpPacket source data => exact udpPacketReceived_ok now n source (hne source data rfl)
  | multicastPacket address packet =>
    obtain ⟨n₁, hn⟩ := multicastPacketReceived_ok (S := S) now n address packet
    refine hquiet (n₁, none) ?_ (fun _ h => by cases h) fun _ h => by cases h
    rw [receive, hn]
    rfl
  | tcpFrame data =>
    obtain ⟨n₁, up, hn, hup⟩ := tcpFrameReceived_ok (S := S) now n data
    exact hquiet (n₁, up) hn hup fun _ h => by cases h
  | worker =>
    obtain ⟨n₁, up, hn, hup⟩ := workerStep_ok (S := S) now n
    exact hquiet (n₁, up) hn (fun id => hup id []) fun _ h => by cases h
  | tcpClosed => exact hquiet _ rfl (fun _ h => by cases h) fun _ h => by cases h
  | periodic _ => exact hquiet _ rfl (fun _ h => by cases h) fun _ h => by cases h
  | tunPacket _ => exact hquiet _ rfl (fun _ h => by cases h) fun _ h => by cases h
  | getLatency _ => exact hquiet _ rfl (fun _ h => by cases h) fun _ h => by cases h
  | configChange _ => exact hquiet _ rfl (fun _ h => by cases h) fun _ h => by cases h
  | baseReachable _ => exact hquiet _ rfl (fun _ h => by cases h) fun _ h => by cases h

/-- **One event** is handled to its end, unless it is an empty data packet. -/
theorem act_ok_iff (n : Node) {e : NodeEvent} (hne : HasData e) :
    (∃ n', n.act S T now e = .ok n') ↔ ¬ n.EmptyDataPacket e := by
  have hsocket (he : IsSocketEvent e) : (∃ n', n.act S T now e = .ok n') ↔ ¬ n.EmptyDataPacket e := by
    obtain ⟨n₁, up, hr, hup⟩ := receive_ok (S := S) now n hne
    have hpass : n.act S T now e = n₁.passUp S now up := by
      rw [act_of_socket S T he, hr]
      rfl
    rw [hpass, passUp_ok_iff, ← hup, not_exists]
  have hfree (hok : ∃ n', n.act S T now e = .ok n') (he : ∀ source, e ≠ .udpPacket source [2]) :
      (∃ n', n.act S T now e = .ok n') ↔ ¬ n.EmptyDataPacket e := by
    constructor
    · rintro - ⟨source, h, -⟩
      exact he source h
    · exact fun _ => hok
  cases e with
  | tunPacket packet => exact hfree (tunPacketReceived_ok now n packet) fun _ h => by cases h
  | getLatency peerAddress => exact hfree (handOver_ok now _ _) fun _ h => by cases h
  | configChange change => exact hfree ⟨_, rfl⟩ fun _ h => by cases h
  | baseReachable reachable => exact hfree ⟨_, rfl⟩ fun _ h => by cases h
  | udpPacket _ _ => exact hsocket trivial
  | multicastPacket _ _ => exact hsocket trivial
  | tcpFrame _ => exact hsocket trivial
  | tcpClosed => exact hsocket trivial
  | worker => exact hsocket trivial
  | periodic _ => exact hsocket trivial

end Node

/-- **No precondition fails, but for empty data packets.** A run of a node, from any state and on
any events whose datagrams are not empty, is handled to its end if and only if no event finds the
node in a state where it is an empty data packet. -/
theorem run_completes_iff (S : Sodium) (T : JsonText) (n₀ : Node) (events : List (Time × NodeEvent))
    (hne : ∀ e ∈ events, Node.HasData e.2) :
    (Node.run S T n₀ events).map Prod.fst = events ↔
      ∀ pre e post, events = pre ++ e :: post → ¬ (last n₀ (Node.run S T n₀ pre)).EmptyDataPacket e.2 := by
  have hstep (n : Node) (e : Time × NodeEvent) (he : e ∈ events) :
      (∃ n', Node.act S T { n with sent := [] } e.1 e.2 = .ok n') ↔ ¬ n.EmptyDataPacket e.2 :=
    Node.act_ok_iff e.1 { n with sent := [] } (hne e he)
  exact attempts_complete_iff hstep n₀

def peerSource : InetAddress := ⟨.parse (ascii "::ffff:0a00:0002"), 5000⟩

/-- The hello of another node, that makes its source address known. -/
def helloFromPeer : List (Time × NodeEvent) :=
  [(0, .udpPacket peerSource (serializePeerToPeerMessage clearSodium (clearIdentity 2)
      (.HELLO .invalid (clearIdentity 1).deviceId (List.replicate 16 0)))),
    (0, .worker)]

theorem run_completes_iff_hello :
    (Node.run clearSodium ConfigManager.plainText (openNode (clearIdentity 1)) helloFromPeer).map Prod.fst = helloFromPeer ↔
      ∀ pre e post, helloFromPeer = pre ++ e :: post →
        ¬ (last (openNode (clearIdentity 1)) (Node.run clearSodium ConfigManager.plainText (openNode (clearIdentity 1)) pre)).EmptyDataPacket e.2 := by
  refine run_completes_iff clearSodium ConfigManager.plainText (openNode (clearIdentity 1)) helloFromPeer fun e he => ?_
  rcases List.mem_pair.mp he with rfl | rfl
  · exact Node.hasData_udpPacket peerSource (by decide +kernel)
  · rintro source data h
    cases h

/-- One byte from the address of that hello reads outside an empty view. -/
theorem empty_data_packet_fails :
    (Node.run clearSodium ConfigManager.plainText (openNode (clearIdentity 1)) helloFromPeer).length = 2 ∧
      ((last (openNode (clearIdentity 1)) (Node.run clearSodium ConfigManager.plainText (openNode (clearIdentity 1)) helloFromPeer)).act clearSodium
        ConfigManager.plainText 0 (.udpPacket peerSource [2])).map (fun _ => ()) = .error .index := by
  decide +kernel

end Husarnet
