import Husarnet.NodeMoves

/-! # The time of the last periodic call, and the attempts to connect

`NgSocket::periodic` begins with a throttle: it compares the clock with the time of the last call that it
let through. No other handler of a node touches that time, or connects to a base server; the count of
attempts starts again with every message of the base on the TCP connection.
-/

namespace Husarnet
open Octets Containers PeerContainer Runs
set_option autoImplicit false

theorem foldl_frame {σ α τ : Type} {f : σ → τ} {g : σ → α → σ} (h : ∀ s a, f (g s a) = f s) (s : σ) (as : List α) :
    f (as.foldl g s) = f s := by
  induction as generalizing s with
  | nil => rfl
  | cons a as ih => rw [List.foldl_cons, ih, h]

namespace Node
variable (S : Sodium) (T : JsonText) (now : Time)

def connects (sent : List Transmission) : List InetAddress := sent.filterMap fun t => match t with
  | .tcpConnect dest => some dest
  | _ => none

@[simp] theorem connects_append (sent more : List Transmission) :
    connects (sent ++ more) = connects sent ++ connects more := List.filterMap_append ..

theorem connects_eq_nil {sent : List Transmission} (h : ∀ dest, .tcpConnect dest ∉ sent) : connects sent = [] := by
  refine List.filterMap_eq_nil_iff.mpr fun t ht => ?_
  cases t with
  | tcpConnect dest => exact absurd ht (h dest)
  | _ => rfl

/-- What the handlers of a node leave alone, but for the timer and the messages of the base server. -/
def aside (n : Node) : Time × ℕ × List InetAddress := (n.lastPeriodic, n.baseConnectRetries, connects n.sent)

/-! ## Sending -/

theorem aside_sends (n : Node) (added : List Transmission) (h : ∀ dest, .tcpConnect dest ∉ added) :
    ({ n with sent := n.sent ++ added } : Node).aside = n.aside := by
  simp [aside, connects_eq_nil h]

@[simp] theorem sendToPeer_aside (n : Node) (dest : InetAddress) (msg : PeerToPeerMessage) :
    (n.sendToPeer S dest msg).aside = n.aside :=
  aside_sends n [.udp dest (serializePeerToPeerMessage S n.myIdentity msg)] (by simp)

@[simp] theorem modify_aside (n : Node) (peer : PeerRef) (f : Peer → Peer) :
    (n.modify peer f).aside = n.aside := rfl

@[simp] theorem sendToBaseTcp_aside (n : Node) (msg : PeerToBaseMessage) :
    (n.sendToBaseTcp S msg).aside = n.aside := by
  rw [sendToBaseTcp_eq]
  refine aside_sends n _ ?_
  split
  · simp
  · simp

@[simp] theorem sendToBaseUdp_aside (n : Node) (msg : PeerToBaseMessage) :
    (n.sendToBaseUdp S msg).aside = n.aside := by
  unfold sendToBaseUdp
  split
  · rfl
  · simp only [foldl_transmit]
    cases msg with
    | NAT_INIT => exact aside_sends n _ (by simp)
    | NAT_OK_CONFIRM => exact aside_sends n _ (by simp)
    | NAT_INIT_TRANSIENT => rfl
    | REQUEST_INFO _ => exact aside_sends n _ (by simp)
    | DATA _ _ => exact aside_sends n _ (by simp)
    | INFO => exact aside_sends n _ (by simp)
    | USER_AGENT _ => exact aside_sends n _ (by simp)

@[simp] theorem sendNatInitToBase_aside (n : Node) :
    (n.sendNatInitToBase S now).aside = n.aside := by
  unfold sendNatInitToBase
  split
  · rfl
  · have hnoted : ({ n with
        lastNatInitSent := now
        natInitConfirmed := false
        natInitCounter := n.natInitCounter + 1 } : Node).aside = n.aside := rfl
    have hport (n : Node) (port : ℕ) : ({ n with baseTransientPort := port } : Node).aside = n.aside := rfl
    dsimp only
    split
    · rw [hport, sendToBaseUdp_aside, sendToBaseUdp_aside]
      exact hnoted
    · rw [sendToBaseUdp_aside]
      exact hnoted

@[simp] theorem sendMulticast_aside (n : Node) : n.sendMulticast.aside = n.aside := by
  simp [sendMulticast, transmit, aside, connects]

/-- A call of `connectToBase` is an attempt at one address. -/
theorem connectToBase_aside (n : Node) : (n.connectToBase S now).aside =
    (n.lastPeriodic, n.baseConnectRetries + 1, connects n.sent ++ [n.connectTarget]) := by
  have hsends : connects n.connectSends = [n.connectTarget] := by
    unfold connectSends
    split <;> split <;> rfl
  rw [connectToBase_eq]
  simp [aside, hsends]

@[simp] theorem requestRefresh_aside (n : Node) : n.requestRefresh.aside = n.aside := by
  unfold requestRefresh
  split <;> rfl

/-! ## Peers -/

@[simp] theorem attemptReestablish_aside (n : Node) (peer : PeerRef) :
    (n.attemptReestablish S now peer).aside = n.aside := by
  obtain ⟨added, records, hn, hudp, -⟩ := attemptReestablish_sent S now n peer
  rw [hn]
  refine aside_sends (n.withContainer (n.peerContainer.draw.modify peer (attempted now n.nextCookie))) added fun dest hdest => ?_
  obtain ⟨dest', data, he⟩ := hudp _ hdest
  cases he

theorem periodicPeer_aside (n : Node) (peer : PeerRef) :
    (n.periodicPeer S now peer).aside = n.aside := by
  unfold periodicPeer
  dsimp only
  split
  · rfl
  · split
    · rfl
    · split <;> simp

@[simp] theorem refresh_aside (n : Node) : (n.refresh S now).aside = n.aside := by
  unfold refresh
  dsimp only
  rw [foldl_frame (f := Node.aside) (periodicPeer_aside S now)]
  rw [sendMulticast_aside, sendNatInitToBase_aside, sendLocalAddressesToBase, sendToBaseTcp_aside]
  rfl

@[simp] theorem relayDataToPeer_aside (n : Node) (peer : PeerRef) (data : Bytes) :
    (n.relayDataToPeer S now peer data).aside = n.aside := by
  unfold relayDataToPeer
  dsimp only
  split <;> split <;> simp

@[simp] theorem sendDataToPeer_aside (n : Node) (peer : PeerRef) (data : Bytes) :
    (n.sendDataToPeer S now peer data).aside = n.aside := by
  have hsent : (if (n.deref peer).connected then n.sendToPeer S (n.deref peer).targetAddress (.DATA data)
      else n.relayDataToPeer S now peer data).aside = n.aside := by
    split <;> simp
  have hasked (n : Node) (asks : Bool) :
      (if asks then n.sendInfoRequestToBase S (n.deref peer).id else n).aside = n.aside := by
    split <;> simp [sendInfoRequestToBase]
  exact (hasked _ _).trans hsent

@[simp] theorem onUpperLayerData_aside (n : Node) (peerAddress : HusarnetAddress) (data : Bytes) :
    (n.onUpperLayerData S now peerAddress data).aside = n.aside := by
  unfold onUpperLayerData
  have hget : (n.getOrCreatePeer peerAddress).1.aside = n.aside := rfl
  split
  · rename_i n' hg
    rwa [hg] at hget
  · rename_i n' peer hg
    rw [sendDataToPeer_aside]
    rwa [hg] at hget

@[simp] theorem changePeerTargetAddresses_aside (n : Node) (peer : PeerRef) (addresses : List InetAddress) :
    (n.changePeerTargetAddresses S now peer addresses).aside = n.aside := by
  unfold changePeerTargetAddresses
  dsimp only
  split <;> simp

theorem OnlyPeers.aside {n n' : Node} (h : n.OnlyPeers n') : n'.aside = n.aside := by
  obtain ⟨sl, index, rfl⟩ := h
  rfl

/-! ## Messages -/

@[simp] theorem helloReceived_aside (n : Node) (source : InetAddress) (myId yourId : HusarnetAddress)
    (helloCookie : Bytes) : (n.helloReceived S now source myId yourId helloCookie).aside = n.aside := by
  unfold helloReceived
  have hget : (n.getOrCreatePeer myId).1.aside = n.aside := rfl
  split
  · rfl
  · split
    · rename_i n' hg
      rwa [hg] at hget
    · rename_i n' peer hg
      rw [hg] at hget
      have hadd := (addSourceAddress_onlyPeers n' peer source).aside.trans hget
      dsimp only
      split
      · split <;> simpa using hadd
      · simpa using hadd

theorem peerMessageReceived_aside (n : Node) (source : InetAddress) (msg : PeerToPeerMessage) :
    (n.peerMessageReceived S now source msg).1.aside = n.aside := by
  cases msg with
  | HELLO myId yourId helloCookie => exact helloReceived_aside S now n source myId yourId helloCookie
  | HELLO_REPLY myId yourId helloCookie => exact (helloReplyReceived_onlyPeers n source myId yourId helloCookie).aside
  | DATA data => rfl
  | INVALID => rfl

theorem baseMessageReceivedUdp_aside (n : Node) (msg : BaseToPeerMessage) :
    (n.baseMessageReceivedUdp S now msg).1.aside = n.aside := by
  cases msg with
  | NAT_OK => exact sendToBaseUdp_aside S _ .NAT_OK_CONFIRM
  | _ => rfl

theorem resendInfoRequests_aside (n : Node) : (n.resendInfoRequests S now).aside = n.aside := by
  unfold resendInfoRequests
  apply foldl_frame (f := Node.aside)
  intro n peer
  split <;> simp [sendInfoRequestToBase]

theorem stateReceived_aside (n : Node) (udpAddress : List InetAddress) (natTransientRange : ℕ × ℕ) :
    (n.stateReceived udpAddress natTransientRange).aside = n.aside := by
  unfold stateReceived
  dsimp only
  split <;> rfl

/-- A message of the base starts the count of attempts again; a redirect is an attempt at once. -/
theorem baseMessageReceivedTcp_aside (n : Node) {msg : BaseToPeerMessage} (hm : ∀ address, msg ≠ .REDIRECT address) :
    (n.baseMessageReceivedTcp S now msg).1.aside = (n.lastPeriodic, 0, connects n.sent) := by
  have hreset : ({ n with lastBaseTcpMessage := now, lastBaseTcpAction := now, baseConnectRetries := 0 } : Node).aside =
      (n.lastPeriodic, 0, connects n.sent) := rfl
  unfold baseMessageReceivedTcp
  cases msg with
  | HELLO cookie =>
    dsimp only
    rw [requestRefresh_aside, sendLocalAddressesToBase, sendToBaseTcp_aside, resendInfoRequests_aside]
    rfl
  | DEVICE_ADDRESSES deviceId addresses =>
    dsimp only
    split
    · rename_i n' hg
      have hget := congrArg (fun r => r.1.aside) hg
      exact hget.symm.trans hreset
    · rename_i n' peer hg
      have hget := congrArg (fun r => r.1.aside) hg
      rw [changePeerTargetAddresses_aside]
      exact hget.symm.trans hreset
  | STATE udpAddress natTransientRange => exact (stateReceived_aside _ udpAddress natTransientRange).trans hreset
  | REDIRECT newBaseAddress => exact absurd rfl (hm newBaseAddress)
  | DATA _ _ => rfl
  | NAT_OK => rfl
  | INVALID => rfl

/-! ## Packets and tasks -/

variable {S now}

theorem udpPacketReceived_aside {n : Node} {source : InetAddress} {data : Bytes}
    {r : Node × Option (HusarnetAddress × Bytes)} (h : n.udpPacketReceived S now source data = .ok r) :
    r.1.aside = n.aside := by
  unfold udpPacketReceived at h
  split at h
  · obtain ⟨msg, -, h⟩ := Checked.bind_eq_ok.mp h
    cases h
    apply baseMessageReceivedUdp_aside
  · obtain ⟨first, -, h⟩ := Checked.bind_eq_ok.mp h
    split at h
    · split at h
      · cases h
        rfl
      · cases h
        rfl
    · obtain ⟨msg, -, h⟩ := Checked.bind_eq_ok.mp h
      cases h
      apply peerMessageReceived_aside

theorem tcpFrameReceived_aside {n : Node} {data : Bytes} {r : Node × Option (HusarnetAddress × Bytes)}
    (h : n.tcpFrameReceived S now data = .ok r) : r.1.aside = (n.lastPeriodic, 0, connects n.sent) := by
  obtain ⟨msg, hparse, h⟩ := Checked.bind_eq_ok.mp h
  cases h
  refine baseMessageReceivedTcp_aside S now n fun address he => ?_
  subst he
  cases BaseParsed.of_parse hparse

theorem tcpClosed_aside (n : Node) : (n.tcpClosed now).aside = n.aside := by
  unfold tcpClosed
  split
  · exact aside_sends n [.tcpClose] (by simp)
  · rfl

theorem multicastPacketReceived_aside {n n' : Node} {address : InetAddress} {packet : Bytes}
    (h : n.multicastPacketReceived S now address packet = .ok n') : n'.aside = n.aside := by
  unfold multicastPacketReceived at h
  split at h
  · cases h
    rfl
  · split at h
    · cases h
      rfl
    · obtain ⟨devId, -, h⟩ := Checked.bind_eq_ok.mp h
      obtain ⟨port, -, h⟩ := Checked.bind_eq_ok.mp h
      have hget : (n.getPeer devId).1.aside = n.aside := rfl
      split at h
      · cases h
        rfl
      · split at h
        · rename_i n₁ hg
          rw [hg] at hget
          cases h
          exact hget
        · rename_i n₁ peer hg
          rw [hg] at hget
          dsimp only at h
          split at h
          · cases h
            rw [attemptReestablish_aside, modify_aside, hget]
          · cases h
            exact hget

theorem workerStep_aside {n : Node} {r : Node × Option (HusarnetAddress × Bytes)}
    (h : n.workerStep S now = .ok r) : r.1.aside = n.aside := by
  unfold workerStep at h
  split at h
  · cases h
    rfl
  · cases h
    apply refresh_aside
  · obtain ⟨msg, -, h⟩ := Checked.bind_eq_ok.mp h
    cases h
    apply peerMessageReceived_aside

/-! ## The call itself -/

/-- What the attempts to connect go by besides their count. -/
def baseState (n : Node) : ConfigManager × Time := (n.configManager, n.lastBaseTcpAction)

theorem reloadLocalAddresses_aside (n : Node) (addresses : List IpAddress) :
    (n.reloadLocalAddresses addresses).1.aside = n.aside ∧ (n.reloadLocalAddresses addresses).1.baseState = n.baseState := by
  unfold reloadLocalAddresses
  dsimp only
  split
  · exact ⟨rfl, rfl⟩
  · exact ⟨rfl, rfl⟩

theorem requestRefresh_baseState (n : Node) : n.requestRefresh.baseState = n.baseState := by
  unfold requestRefresh
  split <;> rfl

theorem sendNatInitToBase_baseState (n : Node) : (n.sendNatInitToBase S now).baseState = n.baseState := by
  have hudp (n : Node) (msg : PeerToBaseMessage) : (n.sendToBaseUdp S msg).baseState = n.baseState := by
    obtain ⟨sent, hsent⟩ := sendToBaseUdp_sent S n msg
    rw [hsent]
    rfl
  have hport (n : Node) (port : ℕ) : ({ n with baseTransientPort := port } : Node).baseState = n.baseState := rfl
  unfold sendNatInitToBase
  split
  · rfl
  · dsimp only
    split
    · rw [hport, hudp, hudp]
      rfl
    · rw [hudp]
      rfl

theorem connectTarget_congr {n n' : Node} (ha : n'.aside = n.aside) (hb : n'.baseState = n.baseState) :
    n'.connectTarget = n.connectTarget := by
  have hretries : n'.baseConnectRetries = n.baseConnectRetries := congrArg (fun a => a.2.1) ha
  have hconfig : n'.configManager = n.configManager := congrArg Prod.fst hb
  rw [connectTarget, connectTarget, hretries, hconfig]

/-- The throttle at the start of `periodic` lets the call through. -/
def Due (now : Time) (n : Node) : Prop := n.lastPeriodic + 1000 ≤ now

instance (now : Time) (n : Node) : Decidable (n.Due now) := inferInstanceAs (Decidable (_ ≤ _))

theorem periodic_of_not_due {n : Node} (h : ¬ n.Due now) (addresses : List IpAddress) :
    n.periodic S now addresses = n := by
  rw [periodic, if_pos (not_le.mp h)]

/-- At most one attempt was made since `n`, and it stamped the last action on the connection. -/
def OneAttempt (now : Time) (n n' : Node) : Prop :=
  (n'.aside = n.aside ∧ n'.baseState = n.baseState) ∨
    n'.aside = (n.lastPeriodic, n.baseConnectRetries + 1, connects n.sent ++ [n.connectTarget]) ∧
      n'.lastBaseTcpAction = now

theorem OneAttempt.kept {n n₁ n₂ : Node} (h : OneAttempt now n n₁) (ha : n₂.aside = n₁.aside)
    (hb : n₂.baseState = n₁.baseState) : OneAttempt now n n₂ := by
  obtain ⟨ha₁, hb₁⟩ | ⟨ha₁, hstamp⟩ := h
  · exact Or.inl ⟨ha.trans ha₁, hb.trans hb₁⟩
  · exact Or.inr ⟨ha.trans ha₁, (congrArg Prod.snd hb).trans hstamp⟩

theorem OneAttempt.connect {n n₁ : Node} (ha : n₁.aside = n.aside) (hb : n₁.baseState = n.baseState) :
    OneAttempt now n (n₁.connectToBase S now) := by
  have htarget : n₁.connectTarget = n.connectTarget := connectTarget_congr ha hb
  have hp : n₁.lastPeriodic = n.lastPeriodic := congrArg Prod.fst ha
  have hr : n₁.baseConnectRetries = n.baseConnectRetries := congrArg (fun a => a.2.1) ha
  have hc : connects n₁.sent = connects n.sent := congrArg (fun a => a.2.2) ha
  refine Or.inr ⟨?_, ?_⟩
  · rw [connectToBase_aside, htarget, hp, hr, hc]
  · rw [connectToBase_eq]

/-- A check of the connection goes by the stamp. -/
theorem OneAttempt.check {n n₁ : Node} (h : OneAttempt now n n₁) {timeout : Time} (ht : 0 ≤ timeout) :
    OneAttempt now n (if now - n₁.lastBaseTcpAction > timeout then n₁.connectToBase S now else n₁) := by
  obtain ⟨ha, hb⟩ | ⟨ha, hstamp⟩ := h
  · split
    · exact .connect ha hb
    · exact Or.inl ⟨ha, hb⟩
  · have hno : ¬ now - now > timeout := by
      rw [Int.sub_self]
      exact not_lt.mpr ht
    rw [hstamp, if_neg hno]
    exact Or.inr ⟨ha, hstamp⟩

theorem OneAttempt.refresh {n n₁ : Node} (h : OneAttempt now n n₁) (c : Prop) [Decidable c] :
    OneAttempt now n (if c then n₁.requestRefresh else n₁) := by
  split
  · exact h.kept (requestRefresh_aside n₁) (requestRefresh_baseState n₁)
  · exact h

theorem OneAttempt.natInit {n n₁ : Node} (h : OneAttempt now n n₁) (c : Prop) [Decidable c] :
    OneAttempt now n (if c then n₁.sendNatInitToBase S now else n₁) := by
  split
  · exact h.kept (sendNatInitToBase_aside S now n₁) (sendNatInitToBase_baseState n₁)
  · exact h

theorem OneAttempt.aside {n n₁ : Node} (h : OneAttempt now n n₁) : n₁.aside = n.aside ∨
    n₁.aside = (n.lastPeriodic, n.baseConnectRetries + 1, connects n.sent ++ [n.connectTarget]) := h.imp And.left And.left

/-- **A call that is let through** makes at most one attempt to connect: an attempt stamps the last action on
the connection, and the second check goes by the stamp. -/
theorem periodic_aside {n : Node} (h : n.Due now) (addresses : List IpAddress) :
    (n.periodic S now addresses).aside = (now, n.baseConnectRetries, connects n.sent) ∨
      (n.periodic S now addresses).aside = (now, n.baseConnectRetries + 1, connects n.sent ++ [n.connectTarget]) := by
  have hreload := reloadLocalAddresses_aside { n with lastPeriodic := now } addresses
  have htimeout (connected : Bool) : (0 : Time) ≤ if connected then TCP_PONG_TIMEOUT else NAT_INIT_TIMEOUT := by
    cases connected <;> decide
  rw [periodic, if_neg (not_lt.mpr h)]
  generalize { n with lastPeriodic := now }.reloadLocalAddresses addresses = r at hreload ⊢
  obtain ⟨n₁, reloaded⟩ := r
  have hone : OneAttempt now { n with lastPeriodic := now } n₁ := Or.inl hreload
  have hfirst : OneAttempt now { n with lastPeriodic := now } (if reloaded then
        if now - n₁.requestRefresh.lastBaseTcpAction > NAT_INIT_TIMEOUT then n₁.requestRefresh.connectToBase S now
        else n₁.requestRefresh
      else n₁) := by
    split
    · exact (hone.kept (requestRefresh_aside n₁) (requestRefresh_baseState n₁)).check (by decide)
    · exact hone
  apply OneAttempt.aside (n := { n with lastPeriodic := now })
  exact ((hfirst.refresh _).natInit _).check (htimeout _)

/-! ## The layers above -/

theorem toTun_aside {n n' : Node} {source : HusarnetAddress} {data : Bytes} (h : n.toTun source data = .ok n') :
    n'.aside = n.aside := by
  obtain ⟨packets, -, h⟩ := Checked.bind_eq_ok.mp h
  cases h
  exact aside_sends n _ (by simp)

theorem handOver_aside {n n' : Node} {out : List LayerOutput} (h : n.handOver S now out = .ok n') :
    n'.aside = n.aside := by
  induction out generalizing n with
  | nil =>
    cases h
    rfl
  | cons o out ih =>
    cases o with
    | toLower peerAddress data => rw [ih h, onUpperLayerData_aside]
    | toUpper peerAddress data =>
      obtain ⟨n₁, htun, hrest⟩ := Checked.bind_eq_ok.mp h
      rw [ih hrest, toTun_aside htun]
    | wroteKeys _ => exact ih h
    | negotiated _ => exact ih h

theorem passUp_aside {n n' : Node} {up : Option (HusarnetAddress × Bytes)} (h : n.passUp S now up = .ok n') :
    n'.aside = n.aside := by
  cases up with
  | none =>
    cases h
    rfl
  | some up =>
    obtain ⟨⟨sl, out⟩, -, hover⟩ := Checked.bind_eq_ok.mp h
    have hn : n'.aside = (n.withSecurityLayer sl).aside := handOver_aside hover
    exact hn

theorem passDown_aside {n n' : Node} {packets : List (HusarnetAddress × Bytes)}
    (h : n.passDown S now packets = .ok n') : n'.aside = n.aside := by
  induction packets generalizing n with
  | nil =>
    cases h
    rfl
  | cons packet packets ih =>
    obtain ⟨n₁, hover, hrest⟩ := Checked.bind_eq_ok.mp h
    rw [ih hrest, handOver_aside hover]
    rfl

/-! ## Events -/

/-- The event is a call of `periodic` that the throttle lets through. -/
def RunsPeriodic (now : Time) (n : Node) (e : NodeEvent) : Prop := (∃ addresses, e = .periodic addresses) ∧ n.Due now

/-- What an event does to the stamp of the timer and to the attempts to connect. -/
inductive AsideStep (now : Time) (n : Node) (e : NodeEvent) (n' : Node) : Prop where
  | kept (hr : ¬ n.RunsPeriodic now e) (hf : ∀ data, e ≠ .tcpFrame data) (h : n'.aside = n.aside)
  | frame (data : Bytes) (he : e = .tcpFrame data) (h : n'.aside = (n.lastPeriodic, 0, connects n.sent))
  | waited (hr : n.RunsPeriodic now e) (h : n'.aside = (now, n.baseConnectRetries, connects n.sent))
  | attempted (hr : n.RunsPeriodic now e)
      (h : n'.aside = (now, n.baseConnectRetries + 1, connects n.sent ++ [n.connectTarget]))

theorem act_aside {n n' : Node} {e : NodeEvent} (h : n.act S T now e = .ok n') : AsideStep now n e n' := by
  have hkept (hp : ∀ addresses, e ≠ .periodic addresses) (hf : ∀ data, e ≠ .tcpFrame data) (hn : n'.aside = n.aside) :
      AsideStep now n e n' := by
    refine .kept (fun hr => ?_) hf hn
    obtain ⟨⟨addresses, he⟩, -⟩ := hr
    exact hp addresses he
  cases e with
  | periodic addresses =>
    obtain ⟨r, hr, hpass⟩ := Checked.bind_eq_ok.mp h
    cases hr
    have hn : n'.aside = (n.periodic S now addresses).aside := passUp_aside hpass
    by_cases hdue : n.Due now
    · obtain hwaited | hattempted := periodic_aside (S := S) hdue addresses
      · exact .waited ⟨⟨addresses, rfl⟩, hdue⟩ (hn.trans hwaited)
      · exact .attempted ⟨⟨addresses, rfl⟩, hdue⟩ (hn.trans hattempted)
    · rw [periodic_of_not_due hdue] at hn
      exact .kept (fun hr => hdue hr.2) (by simp) hn
  | udpPacket source data =>
    obtain ⟨r, hr, hpass⟩ := Checked.bind_eq_ok.mp h
    exact hkept (by simp) (by simp) ((passUp_aside hpass).trans (udpPacketReceived_aside hr))
  | multicastPacket address packet =>
    obtain ⟨r, hr, hpass⟩ := Checked.bind_eq_ok.mp h
    obtain ⟨n₁, hn, hr⟩ := Checked.bind_eq_ok.mp hr
    cases hr
    exact hkept (by simp) (by simp) ((passUp_aside hpass).trans (multicastPacketReceived_aside hn))
  | tcpFrame data =>
    obtain ⟨r, hr, hpass⟩ := Checked.bind_eq_ok.mp h
    exact .frame data rfl ((passUp_aside hpass).trans (tcpFrameReceived_aside hr))
  | tcpClosed =>
    obtain ⟨r, hr, hpass⟩ := Checked.bind_eq_ok.mp h
    cases hr
    exact hkept (by simp) (by simp) ((passUp_aside hpass).trans (tcpClosed_aside n))
  | worker =>
    obtain ⟨r, hr, hpass⟩ := Checked.bind_eq_ok.mp h
    exact hkept (by simp) (by simp) ((passUp_aside hpass).trans (workerStep_aside hr))
  | tunPacket packet =>
    obtain ⟨packets, -, hpass⟩ := Checked.bind_eq_ok.mp h
    exact hkept (by simp) (by simp) (passDown_aside hpass)
  | getLatency peerAddress =>
    have hn : n'.aside = (n.withSecurityLayer (n.securityLayer.getLatency now peerAddress).1).aside := handOver_aside h
    exact hkept (by simp) (by simp) hn
  | configChange change =>
    cases h
    exact hkept (by simp) (by simp) rfl
  | baseReachable reachable =>
    cases h
    exact hkept (by simp) (by simp) rfl

theorem act_lastPeriodic {n n' : Node} {e : NodeEvent} (h : n.act S T now e = .ok n') :
    (n.RunsPeriodic now e → n'.lastPeriodic = now) ∧ (¬ n.RunsPeriodic now e → n'.lastPeriodic = n.lastPeriodic) := by
  cases act_aside T h with
  | kept hr _ h => exact ⟨fun hruns => absurd hruns hr, fun _ => congrArg Prod.fst h⟩
  | frame data he h =>
    refine ⟨fun hruns => ?_, fun _ => congrArg Prod.fst h⟩
    obtain ⟨⟨addresses, hp⟩, -⟩ := hruns
    rw [he] at hp
    cases hp
  | waited hr h => exact ⟨fun _ => congrArg Prod.fst h, fun hn => absurd hr hn⟩
  | attempted hr h => exact ⟨fun _ => congrArg Prod.fst h, fun hn => absurd hr hn⟩

/-- What a step of a run does to the stamp. -/
theorem runStep_lastPeriodic {n n' : Node} {e : Time × NodeEvent} (h : RunStep S T n e n') :
    (n.RunsPeriodic e.1 e.2 → n'.lastPeriodic = e.1) ∧
      (¬ n.RunsPeriodic e.1 e.2 → n'.lastPeriodic = n.lastPeriodic) := by
  have hdue : RunsPeriodic e.1 { n with sent := [] } e.2 ↔ n.RunsPeriodic e.1 e.2 := Iff.rfl
  have hact := act_lastPeriodic T h
  rw [hdue] at hact
  exact hact

end Node
end Husarnet
