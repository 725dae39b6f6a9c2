import Husarnet.Delivery
import Husarnet.NgSocket.RoundTrips
import Husarnet.PeerLookUps
import Husarnet.SourceAddresses

/-! # A direct path is found

A node learns addresses of another one from the base server, and sends a hello to each. Where one of them gets there
and the reply gets back, both ends hold what a packet on the direct path needs.
-/

namespace Husarnet
open Octets Containers PeerContainer NgSocketCrypto
set_option autoImplicit false

/-! ## The addresses to try -/

namespace InetAddress

theorem mem_destutter' {x a : InetAddress} {as : List InetAddress} :
    x ∈ as.destutter' (· ≠ ·) a ↔ x = a ∨ x ∈ as := by
  induction as generalizing a with
  | nil => simp
  | cons b as ih =>
    by_cases hab : a = b
    · rw [List.destutter'_cons_neg _ (not_not.mpr hab), ih]
      simp [hab]
    · rw [List.destutter'_cons_pos _ hab, List.mem_cons, ih, List.mem_cons]

theorem mem_sortUnique {x : InetAddress} {as : List InetAddress} : x ∈ sortUnique as ↔ x ∈ as := by
  have hsort : x ∈ sort as ↔ x ∈ as := (List.perm_insertionSort _ as).mem_iff
  rw [← hsort, sortUnique]
  cases sort as with
  | nil => simp
  | cons a as => rw [List.destutter_cons', mem_destutter', List.mem_cons]

end InetAddress

namespace Node
variable (S : Sodium) (now : Time)

/-! ## Hellos -/

/-- A hello goes to every address that is not in the tunnel. -/
theorem sendHellos_mem (peer : PeerRef) (n : Node) {addresses : List InetAddress} {dest : InetAddress}
    (hmem : dest ∈ addresses) (hout : dest.ip.isFC94 = false) :
    .udp dest (serializePeerToPeerMessage S n.myIdentity (.HELLO .invalid (n.deref peer).id (n.deref peer).helloCookie)) ∈
      (addresses.foldl (sendHelloTo S peer) n).sent := by
  induction addresses generalizing n with
  | nil => cases hmem
  | cons address addresses ih =>
    obtain ⟨added, records, hn, -, -⟩ := sendHelloTo_sent S peer n address
    have hidentity : (sendHelloTo S peer n address).myIdentity = n.myIdentity := by rw [hn]; rfl
    have hpeer : (sendHelloTo S peer n address).deref peer = n.deref peer := by rw [hn]; rfl
    rcases List.mem_cons.mp hmem with rfl | hmem
    · -- the hello stays among what is sent for the other addresses
      obtain ⟨more, records', hall, -, -⟩ := sendHellos_sent S peer (sendHelloTo S peer n dest) addresses
      have hfirst : .udp dest (serializePeerToPeerMessage S n.myIdentity
          (.HELLO .invalid (n.deref peer).id (n.deref peer).helloCookie)) ∈ (sendHelloTo S peer n dest).sent := by
        unfold sendHelloTo
        rw [if_neg (by simp [hout])]
        dsimp only
        split
        · exact List.mem_append_left _ (List.mem_append_right _ (List.mem_singleton.mpr rfl))
        · exact List.mem_append_right _ (List.mem_singleton.mpr rfl)
      rw [List.foldl_cons, hall]
      exact List.mem_append_left _ hfirst
    · have hrest := ih (sendHelloTo S peer n address) hmem
      rwa [hidentity, hpeer] at hrest

/-- What an attempt sends to an address that the peer is tried at. -/
theorem attemptReestablish_mem (n : Node) {peer : PeerRef} (ha : n.peerContainer.Allocated peer) {dest : InetAddress}
    (hmem : dest ∈ establishAddresses (n.deref peer)) (hout : dest.ip.isFC94 = false) :
    .udp dest (serializePeerToPeerMessage S n.myIdentity (.HELLO .invalid (n.deref peer).id n.nextCookie)) ∈
      (n.attemptReestablish S now peer).sent := by
  let drawn := n.withContainer (n.peerContainer.draw.modify peer (attempted now n.nextCookie))
  have hderef : drawn.deref peer = (n.deref peer).update (attempted now n.nextCookie) :=
    deref_modify_self (c := n.peerContainer.draw) ha _
  have hid : (drawn.deref peer).id = (n.deref peer).id := by rw [hderef]; rfl
  have hcookie : (drawn.deref peer).helloCookie = n.nextCookie := by rw [hderef]; rfl
  have haddresses : establishAddresses (drawn.deref peer) = establishAddresses (n.deref peer) := by rw [hderef]; rfl
  have hsent := sendHellos_mem S peer drawn (haddresses ▸ hmem) hout
  rw [hid, hcookie] at hsent
  exact hsent

/-! ## What the calls for a path leave alone -/

structure SessionSame (p p' : Peer) : Prop where
  negotiated : p'.negotiated = p.negotiated
  rxKey : p'.rxKey = p.rxKey
  txKey : p'.txKey = p.txKey

theorem SessionSame.refl (p : Peer) : SessionSame p p := ⟨rfl, rfl, rfl⟩

theorem SessionSame.trans {p q r : Peer} (h : SessionSame p q) (h' : SessionSame q r) : SessionSame p r :=
  ⟨h'.negotiated.trans h.negotiated, h'.rxKey.trans h.rxKey, h'.txKey.trans h.txKey⟩

/-- The base server and the queue of the worker. -/
def surroundings (n : Node) : InetAddress × List WorkerTask × ℕ := (n.baseUdpAddress, n.workerQueue, n.workerQueueSize)

/-- Peers are found where they were, with their sessions, and the rest is as it was. -/
structure Stays (n n' : Node) : Prop where
  lookUps : SameLookUps n.peerContainer n'.peerContainer
  sessions : Kept SessionSame n.peerContainer n'.peerContainer
  surroundings : n'.surroundings = n.surroundings

namespace Stays

theorem of_container {n n' : Node} (h : n'.peerContainer = n.peerContainer) (hb : n'.surroundings = n.surroundings) :
    Stays n n' := ⟨h ▸ .refl _, h ▸ .of_heap_eq .refl rfl rfl, hb⟩

theorem trans {n n' n'' : Node} (h : Stays n n') (h' : Stays n' n'') : Stays n n'' :=
  ⟨h.lookUps.trans h'.lookUps, h.sessions.trans h'.sessions .trans, h'.surroundings.trans h.surroundings⟩

theorem modify (n : Node) (peer : PeerRef) {f : Peer → Peer} (hf : ∀ p, SessionSame p (p.update f)) :
    Stays n (n.modify peer f) :=
  ⟨sameLookUps_modify _ _ _, .modify .refl _ peer hf, rfl⟩

theorem draw (n : Node) : Stays n (n.withContainer n.peerContainer.draw) :=
  ⟨sameLookUps_draw _, .of_heap_eq .refl rfl rfl, rfl⟩

theorem setSources (n : Node) (peer : PeerRef) (f : List InetAddress → List InetAddress) : Stays n (n.setSources peer f) :=
  .modify n peer fun _ => ⟨rfl, rfl, rfl⟩

theorem addSourceAddress (n : Node) (peer : PeerRef) (source : InetAddress) : Stays n (n.addSourceAddress peer source) := by
  have hroom (n : Node) : Stays n (n.makeRoom peer) := by
    rw [makeRoom]
    split
    · exact (draw n).trans ((setSources _ peer fun addresses => addresses.erase _).trans (.of_container rfl rfl))
    · exact .of_container rfl rfl
  have hinsert (n : Node) : Stays n (n.insertSourceAddress peer source) := by
    have hadd := setSources n peer fun addresses => addresses ++ [source]
    unfold insertSourceAddress
    dsimp only
    split
    · rename_i lastPeer _
      exact hadd.trans ((setSources _ lastPeer fun addresses => addresses.erase source).trans (.of_container rfl rfl))
    · exact hadd.trans (.of_container rfl rfl)
  rw [addSourceAddress_eq]
  split
  · exact .of_container rfl rfl
  · exact (hroom n).trans (hinsert _)

theorem attemptReestablish (n : Node) (peer : PeerRef) : Stays n (n.attemptReestablish S now peer) := by
  obtain ⟨added, records, hn, -, -⟩ := attemptReestablish_sent S now n peer
  have hdrawn := (draw n).trans (modify _ peer (f := attempted now n.nextCookie) fun _ => ⟨rfl, rfl, rfl⟩)
  refine hdrawn.trans (.of_container ?_ ?_)
  · rw [hn]
    rfl
  · rw [hn]
    rfl

theorem sendToPeer (n : Node) (dest : InetAddress) (msg : PeerToPeerMessage) : Stays n (n.sendToPeer S dest msg) :=
  .of_container rfl rfl

end Stays

end Node

/-- A peer that is held stays so, with its session. -/
theorem HoldsPeer.stays {n n' : Node} {id : HusarnetAddress} {peer : PeerRef} {p : Peer} (h : HoldsPeer n id peer p)
    (hs : n.Stays n') : HoldsPeer n' id peer (n'.deref peer) ∧ Node.SessionSame p (n'.deref peer) := by
  have hp : n.deref peer = p := deref_of_entry h.entry
  have hsession := hs.sessions.peer peer
  rw [show n.peerContainer.deref peer = p from hp] at hsession
  have hpoints := hs.sessions.pointsTo peer id (getPeer_pointsTo h.known)
  rw [PointsTo, Option.map_eq_some_iff] at hpoints
  obtain ⟨q, hq, -⟩ := hpoints
  have hderef : n'.deref peer = q := deref_of_entry hq
  refine ⟨⟨(hs.lookUps.getPeer id).trans h.known, hderef ▸ hq, ?_⟩, hsession⟩
  exact hsession.negotiated.trans h.negotiated

theorem HoldsPeer.getPeer {n : Node} {id : HusarnetAddress} {peer : PeerRef} {p : Peer} (h : HoldsPeer n id peer p) :
    HoldsPeer (n.getPeer id).1 id peer p where
  known := getPeer_again h.known
  entry := by
    show (n.peerContainer.getPeer id).1.heap[peer]? = some p
    rw [(getPeer_frame n.peerContainer id).2.2.2.1]
    exact h.entry
  negotiated := h.negotiated

namespace Node
variable {S : Sodium}

/-! ## The three steps -/

/-- A datagram that waits alone is the next task of the worker. -/
theorem slow_datagram (T : JsonText) {n : Node} (hq : n.workerQueue = []) (hsize : 0 < n.workerQueueSize)
    {source : InetAddress} (hbase : source ≠ n.baseUdpAddress) {data : Bytes} {msg : PeerToPeerMessage}
    (hslow : data.getD 0 2 = 0 ∨ data.getD 0 2 = 1) (hmsg : parsePeerToPeerMessage S data = .ok msg) (now later : Time) :
    ∃ waiting, n.act S T now (.udpPacket source data) = .ok waiting ∧
      waiting.act S T later .worker = (n.peerMessageReceived S later source msg).1.passUp S later
        (n.peerMessageReceived S later source msg).2 := by
  have hlen : 0 < data.length := by
    cases data with
    | nil => simp at hslow
    | cons b data => simp
  have hget : StringView.get data 0 = .ok (data.getD 0 0) := StringView.get_of_lt hlen
  let waiting : Node := { n with workerQueue := [.peerMessage source data hslow] }
  refine ⟨waiting, ?_, ?_⟩
  · rw [act_of_socket S T (show IsSocketEvent (.udpPacket source data) from trivial), receive, udpPacketReceived, if_neg hbase, hget]
    simp only [Except.bind, bind, dif_pos hslow, hq, List.length_nil, if_pos hsize]
    rfl
  · have hworker := workerStep_message (S := S) later (n := waiting) rfl hmsg
    have hsame : ({ waiting with workerQueue := [] } : Node) = n := by
      rw [← hq]
    rw [hsame] at hworker
    rw [act_of_socket S T (show IsSocketEvent .worker from trivial), receive, hworker]
    rfl

/-- A peer is tried: the cookie of the attempt is in the hello to `dest`. -/
structure Tries (S : Sodium) (n : Node) (id : HusarnetAddress) (peer : PeerRef) (p : Peer) (dest : InetAddress) : Prop where
  holds : HoldsPeer n id peer p
  reestablishing : p.reestablishing = true
  cookie : p.helloCookie.length = 16
  hello : .udp dest (serializePeerToPeerMessage S n.myIdentity (.HELLO .invalid id p.helloCookie)) ∈ n.sent

theorem changePeerTargetAddresses_tries (now : Time) {n : Node} {id : HusarnetAddress} {peer : PeerRef} {p : Peer}
    (h : HoldsPeer n id peer p) {addresses : List InetAddress} (hnew : p.targetAddresses ≠ InetAddress.sort addresses)
    {dest : InetAddress} (hmem : dest ∈ addresses) (hout : dest.ip.isFC94 = false) :
    ∃ p', Tries S (n.changePeerTargetAddresses S now peer addresses) id peer p' dest ∧ SessionSame p p' ∧
      (n.changePeerTargetAddresses S now peer addresses).myIdentity = n.myIdentity ∧
      (n.changePeerTargetAddresses S now peer addresses).surroundings = n.surroundings := by
  have hp : n.deref peer = p := deref_of_entry h.entry
  rw [changePeerTargetAddresses, if_pos (by rw [hp]; exact hnew)]
  have haim := Stays.modify n peer (f := fun p => { p with targetAddresses := InetAddress.sort addresses })
    fun _ => ⟨rfl, rfl, rfl⟩
  obtain ⟨haimed, hsame⟩ := h.stays haim
  have haddresses : ((n.modify peer fun p => { p with targetAddresses := InetAddress.sort addresses }).deref
      peer).targetAddresses = InetAddress.sort addresses := by
    rw [deref, show (n.modify peer _).peerContainer.deref peer = _ from
      deref_modify_self (List.getElem?_eq_some_iff.mp h.entry).1 _]
    rfl
  generalize (n.modify peer fun p => { p with targetAddresses := InetAddress.sort addresses }) = aimed at *
  have hallocated : aimed.peerContainer.Allocated peer := (List.getElem?_eq_some_iff.mp haimed.entry).1
  have htry := Stays.attemptReestablish (S := S) now aimed peer
  obtain ⟨htried, hsame'⟩ := haimed.stays htry
  have hattempted := deref_attemptReestablish S now aimed hallocated peer
  rw [if_pos rfl] at hattempted
  have hidentity : (aimed.attemptReestablish S now peer).myIdentity = aimed.myIdentity := htry.lookUps.identity
  refine ⟨_, ⟨htried, ?_, ?_, ?_⟩, hsame.trans hsame', hidentity.trans haim.lookUps.identity,
    htry.surroundings.trans haim.surroundings⟩
  · rw [hattempted]
    rfl
  · rw [hattempted]
    exact FString.length_bytes _
  · have hmem' : dest ∈ establishAddresses (aimed.deref peer) := by
      have hsorted : dest ∈ InetAddress.sort addresses := (List.perm_insertionSort _ addresses).mem_iff.mpr hmem
      rw [establishAddresses, InetAddress.mem_sortUnique, haddresses]
      exact List.mem_append_left _ (List.mem_append_left _ hsorted)
    have hsent := attemptReestablish_mem S now aimed hallocated hmem' hout
    rw [haimed.id_eq] at hsent
    rw [hidentity, hattempted]
    exact hsent

/-- **New addresses.** The base server tells of an address, and a hello goes there. -/
theorem addresses_received (T : JsonText) (now : Time) {n : Node} {id : HusarnetAddress} {peer : PeerRef} {p : Peer}
    (h : HoldsPeer n id peer p) {frame : Bytes} {addresses : List InetAddress}
    (hframe : parseBaseToPeerMessage frame = .ok (.DEVICE_ADDRESSES id addresses))
    (hnew : p.targetAddresses ≠ InetAddress.sort addresses) {dest : InetAddress} (hmem : dest ∈ addresses)
    (hout : dest.ip.isFC94 = false) :
    ∃ n' p', n.act S T now (.tcpFrame frame) = .ok n' ∧ Tries S n' id peer p' dest ∧ SessionSame p p' ∧
      n'.myIdentity = n.myIdentity ∧ n'.surroundings = n.surroundings := by
  let told : Node := { n with lastBaseTcpMessage := now, lastBaseTcpAction := now, baseConnectRetries := 0 }
  have htold : HoldsPeer told id peer p := ⟨h.known, h.entry, h.negotiated⟩
  have hget : told.getPeer id = ((told.getPeer id).1, some peer) := Prod.ext rfl htold.known
  obtain ⟨p', htries, hsame, hidentity, haround⟩ :=
    changePeerTargetAddresses_tries (S := S) now htold.getPeer hnew hmem hout
  have hcall : n.baseMessageReceivedTcp S now (.DEVICE_ADDRESSES id addresses) =
      ((told.getPeer id).1.changePeerTargetAddresses S now peer addresses, none) := by
    unfold baseMessageReceivedTcp
    dsimp only
    rw [show ({ n with lastBaseTcpMessage := now, lastBaseTcpAction := now, baseConnectRetries := 0 } : Node).getPeer id = _
      from hget]
  refine ⟨_, p', ?_, htries, hsame, hidentity.trans (getPeer_frame n.peerContainer id).2.1, haround⟩
  rw [act_of_socket S T (show IsSocketEvent (.tcpFrame frame) from trivial), receive, tcpFrameReceived, hframe]
  simp only [Except.bind, bind, hcall]
  rfl

/-- **A hello is answered**, and its source is known from then on. -/
theorem hello_answered (now : Time) {n : Node} {id : HusarnetAddress} {peer : PeerRef} {p : Peer}
    (h : HoldsPeer n id peer p) (hi : n.SourceIndex) (source : InetAddress) (helloCookie : Bytes) :
    let n' := n.helloReceived S now source id n.myIdentity.deviceId helloCookie
    HoldsPeer n' id peer (n'.deref peer) ∧ SessionSame p (n'.deref peer) ∧
      n'.findPeerBySourceAddress source = some peer ∧ n'.myIdentity = n.myIdentity ∧ n'.surroundings = n.surroundings ∧
      .udp source (serializePeerToPeerMessage S n.myIdentity (.HELLO_REPLY .invalid id helloCookie)) ∈ n'.sent := by
  intro n'
  have hcreated : n.peerContainer.getOrCreatePeer id = ((n.peerContainer.getPeer id).1, some peer) :=
    getOrCreatePeer_of_known h.known
  have hget : n.getOrCreatePeer id = ((n.getPeer id).1, some peer) := by
    rw [Node.getOrCreatePeer, hcreated]
    rfl
  -- the hello claims its source address for the peer
  have hclaimant : n.claimant ⟨now, source, id, n.myIdentity.deviceId, helloCookie⟩ = some peer := by
    rw [claimant, if_pos rfl, hget]
  have hindex := (receiveHello_index S hi ⟨now, source, id, n.myIdentity.deviceId, helloCookie⟩).2 source
  rw [indexWrite, if_pos ⟨rfl, by rw [hclaimant]; rfl⟩, hclaimant] at hindex
  have hfound := h.getPeer
  have hshape : ∃ noted, (n.getPeer id).1.Stays noted ∧ n' = noted.sendToPeer S source (.HELLO_REPLY .invalid id helloCookie) := by
    have hadd := Stays.addSourceAddress (n.getPeer id).1 peer source
    show ∃ noted, _ ∧ n.helloReceived S now source id n.myIdentity.deviceId helloCookie = _
    rw [helloReceived, if_neg (not_not.mpr rfl), hget]
    dsimp only
    have hlink := hadd.trans (Stays.modify _ peer (f := fun p => { p with linkLocalAddress := source })
      fun _ => ⟨rfl, rfl, rfl⟩)
    split
    · split
      · exact ⟨_, hlink.trans (Stays.attemptReestablish S now _ peer), rfl⟩
      · exact ⟨_, hlink, rfl⟩
    · exact ⟨_, hadd, rfl⟩
  obtain ⟨noted, hstays, hn'⟩ := hshape
  have hreplied := hstays.trans (Stays.sendToPeer (S := S) noted source (.HELLO_REPLY .invalid id helloCookie))
  rw [← hn'] at hreplied
  obtain ⟨hholds, hsame⟩ := hfound.stays hreplied
  have hidentity : noted.myIdentity = n.myIdentity :=
    hstays.lookUps.identity.trans (getPeer_frame n.peerContainer id).2.1
  refine ⟨hholds, hsame, hindex, ?_, hreplied.surroundings, ?_⟩
  · exact hreplied.lookUps.identity.trans (getPeer_frame n.peerContainer id).2.1
  · rw [hn', ← hidentity]
    exact List.mem_append_right _ (List.mem_singleton.mpr rfl)

/-- **The reply is taken**: the peer is connected at the address that it came from. -/
theorem reply_taken {n : Node} {id : HusarnetAddress} {peer : PeerRef} {p : Peer} {dest : InetAddress}
    (h : Tries S n id peer p dest) (source : InetAddress) :
    let n' := n.helloReplyReceived source id n.myIdentity.deviceId p.helloCookie
    HoldsPeer n' id peer (reached source p) ∧ n'.myIdentity = n.myIdentity := by
  intro n'
  have hp : n.deref peer = p := deref_of_entry h.holds.entry
  have haccepts : n.Accepts id n.myIdentity.deviceId p.helloCookie peer :=
    ⟨rfl, h.holds.known, by rw [hp]; exact h.reestablishing, by rw [hp]⟩
  have hhandling := helloReplyReceived_handling n source id n.myIdentity.deviceId p.helloCookie
  have hn' : n' = n.helloReplyReceived source id n.myIdentity.deviceId p.helloCookie := rfl
  rw [← hn'] at hhandling
  clear_value n'
  cases hhandling with
  | foreign hforeign => exact absurd rfl hforeign
  | ignored hnone => exact absurd haccepts (hnone peer)
  | accepted other hother =>
    obtain rfl : peer = other := Option.some.inj (h.holds.known.symm.trans hother.found)
    have hreach := Stays.modify (n.getPeer id).1 peer (f := reached source) fun _ => ⟨rfl, rfl, rfl⟩
    obtain ⟨hheld, -⟩ := h.holds.getPeer.stays hreach
    have hderef : ((n.getPeer id).1.modify peer (reached source)).deref peer = reached source p := by
      have hself := deref_modify_self (c := (n.getPeer id).1.peerContainer)
        (List.getElem?_eq_some_iff.mp h.holds.getPeer.entry).1 (reached source)
      rw [show (n.getPeer id).1.peerContainer.deref peer = p from deref_of_entry h.holds.getPeer.entry] at hself
      exact hself
    rw [hderef] at hheld
    exact ⟨hheld, hreach.lookUps.identity.trans (getPeer_frame n.peerContainer id).2.1⟩

end Node

/-! ## The whole exchange -/

/-- Nodes that hold each other and share a key, each with room for a task of the worker and none that waits. -/
structure Acquainted (S : Sodium) (a b : Node) (pa pb : Peer) : Prop where
  toB : ∃ peer, HoldsPeer a b.myIdentity.deviceId peer pa
  toA : ∃ peer, HoldsPeer b a.myIdentity.deviceId peer pb
  isFC94 : b.myIdentity.isValid = true
  keys : pa.txKey = pb.rxKey
  mine : a.myIdentity.Verifies S
  his : b.myIdentity.Verifies S
  index : b.SourceIndex
  idle : a.workerQueue = [] ∧ 0 < a.workerQueueSize
  idle' : b.workerQueue = [] ∧ 0 < b.workerQueueSize

/-- A serialized hello or reply is a slow message, and parses with the id of its sender. -/
theorem serialized_hello {S : Sodium} {identity : Identity} (h : identity.Verifies S) (yourId : HusarnetAddress)
    {helloCookie : Bytes} (hcookie : helloCookie.length = 16) {kind : UInt8} (hkind : kind = 0 ∨ kind = 1) :
    let data := serializePeerToPeerMessage S identity (helloMessage kind .invalid yourId helloCookie)
    (data.getD 0 2 = 0 ∨ data.getD 0 2 = 1) ∧
      parsePeerToPeerMessage S data = .ok (helloMessage kind identity.deviceId yourId helloCookie) := by
  intro data
  have hsigned := signedBytes_serialize h .invalid yourId hcookie kind hkind
  refine ⟨?_, parse_signedBytes hkind hsigned⟩
  obtain ⟨pubkey, signature, hdata, -⟩ := hsigned
  rw [show data = _ from hdata]
  exact hkind

/-- **A direct path is found.** The base server tells `a` of an address of `b`. The hello that `a` sends there and the
reply to it arrive, and the path from `a` to `b` is complete. It goes to the address that the reply came from. -/
theorem direct_path_found (S : Sodium) (T : JsonText) {a b : Node} {pa pb : Peer} (h : Acquainted S a b pa pb)
    {frame : Bytes} {addresses : List InetAddress}
    (hframe : parseBaseToPeerMessage frame = .ok (.DEVICE_ADDRESSES b.myIdentity.deviceId addresses))
    (hnew : pa.targetAddresses ≠ InetAddress.sort addresses) {dest : InetAddress} (hmem : dest ∈ addresses)
    (hout : dest.ip.isFC94 = false) {sourceA sourceB : InetAddress} (hsourceA : sourceA ≠ b.baseUdpAddress)
    (hsourceB : sourceB ≠ a.baseUdpAddress) (told heard answered replied taken : Time) :
    ∃ a₁ a₂ a' b₁ b' hello reply pa' pb',
      a.act S T told (.tcpFrame frame) = .ok a₁ ∧ .udp dest hello ∈ a₁.sent ∧
      b.act S T heard (.udpPacket sourceA hello) = .ok b₁ ∧ b₁.act S T answered .worker = .ok b' ∧
      .udp sourceA reply ∈ b'.sent ∧
      a₁.act S T replied (.udpPacket sourceB reply) = .ok a₂ ∧ a₂.act S T taken .worker = .ok a' ∧
      DirectPath a' b' pa' pb' sourceA ∧ pa'.targetAddress = sourceB := by
  obtain ⟨peer, hpeer⟩ := h.toB
  obtain ⟨peer', hpeer'⟩ := h.toA
  -- the hello goes out
  obtain ⟨a₁, p₁, htold, htries, hsame, hidentity, haround⟩ :=
    Node.addresses_received T told hpeer hframe hnew hmem hout
  obtain ⟨hbase₁, hqueue₁, hsize₁⟩ : a₁.baseUdpAddress = a.baseUdpAddress ∧ a₁.workerQueue = a.workerQueue ∧
      a₁.workerQueueSize = a.workerQueueSize := by
    simpa only [Node.surroundings, Prod.mk.injEq] using haround
  -- it is answered
  obtain ⟨hslow, hparsed⟩ := serialized_hello h.mine b.myIdentity.deviceId htries.cookie (Or.inl rfl)
  obtain ⟨b₁, hheard, hworker⟩ := Node.slow_datagram T h.idle'.1 h.idle'.2 hsourceA hslow hparsed heard answered
  obtain ⟨hheld, hkeys, hfound, hidentity', haround', hreply⟩ :=
    Node.hello_answered (S := S) answered hpeer' h.index sourceA p₁.helloCookie
  generalize hb' : b.helloReceived S answered sourceA a.myIdentity.deviceId b.myIdentity.deviceId p₁.helloCookie = b' at *
  have hanswered : b₁.act S T answered .worker = .ok b' := hworker.trans (congrArg Except.ok hb')
  -- the reply is taken
  obtain ⟨hslow', hparsed'⟩ := serialized_hello h.his a.myIdentity.deviceId htries.cookie (Or.inr rfl)
  obtain ⟨a₂, hreplied, htaken⟩ := Node.slow_datagram T (hqueue₁.trans h.idle.1) (hsize₁ ▸ h.idle.2)
    (hbase₁.symm ▸ hsourceB) hslow' hparsed' replied taken
  obtain ⟨hreached, hidentity₂⟩ := Node.reply_taken htries sourceB
  rw [hidentity] at hreached hidentity₂
  have hpath : DirectPath (a₁.helloReplyReceived sourceB b.myIdentity.deviceId a.myIdentity.deviceId p₁.helloCookie) b'
      (Node.reached sourceB p₁) (b'.deref peer') sourceA := by
    refine ⟨⟨peer, ?_⟩, ⟨peer', ?_⟩, ?_, ?_, rfl, ?_, peer', hfound, ?_⟩
    · rw [hidentity']
      exact hreached
    · rw [hidentity₂]
      exact hheld
    · rw [hidentity']
      exact h.isFC94
    · show p₁.txKey = (b'.deref peer').rxKey
      rw [hsame.txKey, hkeys.rxKey, h.keys]
    · rw [(Prod.mk.inj haround').1]
      exact hsourceA
    · rw [hidentity₂]
      exact hheld.id_eq
  exact ⟨a₁, a₂, _, b₁, b', _, _, _, _, htold, hidentity ▸ htries.hello, hheard, hanswered, hreply, hreplied, htaken, hpath, rfl⟩

/-- A node with a session for another one, which it has no address of. -/
def keyedNode (me him : UInt8) (rxKey txKey : FString 32) : Node :=
  ((openNode (clearIdentity me)).getOrCreatePeer (clearIdentity him).deviceId).1.modify 0 fun p =>
    { p with negotiated := true, rxKey := rxKey, txKey := txKey }

theorem keyedNode_index (me him : UInt8) (rxKey txKey : FString 32) : (keyedNode me him rxKey txKey).SourceIndex := by
  have hnew : (openNode (clearIdentity me)).SourceIndex := Node.sourceIndex_new ..
  have hcreated : Kept Node.SetKept (openNode (clearIdentity me)).peerContainer
      ((openNode (clearIdentity me)).getOrCreatePeer (clearIdentity him).deviceId).1.peerContainer :=
    (PeersKept.getOrCreatePeer _ _).paths.mono PathKept.sourceAddresses
  have hkept := hcreated.trans (.modify Node.SetKept.refl _ 0
    (f := fun p => { p with negotiated := true, rxKey := rxKey, txKey := txKey }) fun _ => rfl) Node.SetKept.trans
  exact hnew.of_same (.of_kept hkept rfl)

theorem acquainted_keyedNode :
    Acquainted clearSodium (keyedNode 1 2 (.pad 32 [1]) (.pad 32 [2])) (keyedNode 2 1 (.pad 32 [2]) (.pad 32 [1]))
      ((keyedNode 1 2 (.pad 32 [1]) (.pad 32 [2])).deref 0) ((keyedNode 2 1 (.pad 32 [2]) (.pad 32 [1])).deref 0) where
  toB := ⟨0, by decide +kernel, rfl, by decide +kernel⟩
  toA := ⟨0, by decide +kernel, rfl, by decide +kernel⟩
  isFC94 := by decide +kernel
  keys := by decide +kernel
  mine := clearIdentity_verifies 1
  his := clearIdentity_verifies 2
  index := keyedNode_index 2 1 _ _
  idle := ⟨rfl, by decide +kernel⟩
  idle' := ⟨rfl, by decide +kernel⟩

theorem direct_path_found_keyedNode :
    ∃ a₁ a₂ a' b₁ b' hello reply pa' pb',
      (keyedNode 1 2 (.pad 32 [1]) (.pad 32 [2])).act clearSodium ConfigManager.plainText 0 (.tcpFrame
        ([1] ++ (clearIdentity 2).deviceId.data.bytes ++ addressRecords [⟨.parse (ascii "::2"), 5002⟩])) = .ok a₁ ∧
      .udp ⟨.parse (ascii "::2"), 5002⟩ hello ∈ a₁.sent ∧
      (keyedNode 2 1 (.pad 32 [2]) (.pad 32 [1])).act clearSodium ConfigManager.plainText 1
        (.udpPacket ⟨.parse (ascii "::1"), 5001⟩ hello) = .ok b₁ ∧
      b₁.act clearSodium ConfigManager.plainText 2 .worker = .ok b' ∧ .udp ⟨.parse (ascii "::1"), 5001⟩ reply ∈ b'.sent ∧
      a₁.act clearSodium ConfigManager.plainText 3 (.udpPacket ⟨.parse (ascii "::2"), 5002⟩ reply) = .ok a₂ ∧
      a₂.act clearSodium ConfigManager.plainText 4 .worker = .ok a' ∧
      DirectPath a' b' pa' pb' ⟨.parse (ascii "::1"), 5001⟩ ∧ pa'.targetAddress = ⟨.parse (ascii "::2"), 5002⟩ :=
  direct_path_found clearSodium ConfigManager.plainText acquainted_keyedNode
    (by decide +kernel) (by decide +kernel) (List.mem_singleton.mpr rfl)
    (by decide +kernel) (by decide +kernel) (by decide +kernel) 0 1 2 3 4

end Husarnet
