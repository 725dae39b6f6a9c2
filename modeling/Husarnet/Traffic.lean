import Husarnet.KeyAgreement
import Husarnet.Lib.Potential
import Husarnet.PacketQueues
import Mathlib.Algebra.BigOperators.Group.Finset.Basic
import Mathlib.Data.Fintype.Basic

/-! # The traffic between security layers dies out

Any number of nodes and the packets in flight between them. The network hands a packet to whatever node
it likes, under whatever address, loses packets and makes up its own. A packet is worth more than the
packets that handling it sends, and one that waits for a session is worth as much as a data packet, so
the nodes send only what they were given cause for.
-/

namespace Husarnet
open Octets Containers PeerContainer SecurityLayer Runs Totals SharedQueues
set_option autoImplicit false

structure Traffic (ι : Type) where
  layer : ι → SecurityLayer
  packets : List Bytes

inductive TrafficEvent (ι : Type) where
  | layer (i : ι) (e : SecurityEvent)
  | lost (data : Bytes)
  | injected (data : Bytes)

/-- The packet goes when it is handled. -/
def remaining (packets : List Bytes) : SecurityEvent → List Bytes
  | .lowerLayerData _ _ data => packets.erase data
  | _ => packets

inductive Traffic.Step {ι : Type} [DecidableEq ι] (S : Sodium) (w : Traffic ι) : TrafficEvent ι → Traffic ι → Prop where
  | layer {i : ι} {e : SecurityEvent} {sl : SecurityLayer} {out : List LayerOutput}
      (hstep : QueueStep S (w.layer i) (e, out) sl)
      (hnet : ∀ now peerAddress data, e = .lowerLayerData now peerAddress data → data ∈ w.packets) :
      Step S w (.layer i e) ⟨Function.update w.layer i sl, remaining w.packets e ++ packetsOf out⟩
  | lost {data : Bytes} (h : data ∈ w.packets) : Step S w (.lost data) ⟨w.layer, w.packets.erase data⟩
  | injected (data : Bytes) : Step S w (.injected data) ⟨w.layer, data :: w.packets⟩

/-- A packet leaves the network with the event. -/
def TrafficEvent.handled {ι : Type} : TrafficEvent ι → ℕ
  | .layer _ (.lowerLayerData ..) | .lost _ => 1
  | _ => 0

/-- The packets that an event from outside can cause to be handled. -/
def TrafficEvent.credit {ι : Type} : TrafficEvent ι → ℕ
  | .layer _ (.upperLayerData ..) => 7
  | .layer _ (.getLatency ..) => 2
  | .injected _ => 4
  | _ => 0

/-! ## What a packet is worth -/

/-- A data packet can cause a hello, that one its reply and the reply the third hello packet; a heartbeat
causes its reply. -/
def weight (data : Bytes) : ℕ :=
  if data.getD 0 0 = 0 then 4 else if data.getD 0 0 = 1 then 3 else if data.getD 0 0 = 2 ∨ data.getD 0 0 = 4 then 2 else 1

def outWeight (out : List LayerOutput) : ℕ := total weight (packetsOf out)

theorem weight_pos (data : Bytes) : 1 ≤ weight data := by
  unfold weight
  split_ifs <;> omega

theorem weight_le (data : Bytes) : weight data ≤ 4 := by
  unfold weight
  split_ifs <;> omega

@[simp] theorem outWeight_nil : outWeight [] = 0 := rfl

theorem outWeight_append (out out' : List LayerOutput) : outWeight (out ++ out') = outWeight out + outWeight out' := by
  rw [outWeight, packetsOf_append, total_append]
  rfl

theorem outWeight_cons (o : LayerOutput) (out : List LayerOutput) :
    outWeight (o :: out) = outWeight [o] + outWeight out := outWeight_append [o] out

@[simp] theorem outWeight_toLower (peerAddress : HusarnetAddress) (data : Bytes) :
    outWeight [.toLower peerAddress data] = weight data := Nat.add_zero _

@[simp] theorem outWeight_negotiated (peer : PeerRef) : outWeight [.negotiated peer] = 0 := rfl

@[simp] theorem outWeight_wroteKeys (peer : PeerRef) : outWeight [.wroteKeys peer] = 0 := rfl

@[simp] theorem outWeight_toUpper (peerAddress : HusarnetAddress) (data : Bytes) :
    outWeight [.toUpper peerAddress data] = 0 := rfl

namespace SecurityLayer
variable {S : Sodium}

theorem outWeight_hello (sl : SecurityLayer) (peer : PeerRef) (num : UInt8) (helloseq : UInt64) :
    outWeight [sl.sendHelloPacket S peer num helloseq] = weight [num] := by
  simp [sendHelloPacket, signedHello, helloBody, weight]

/-! ## What a call costs

The credit of the packets that wait is four for each, which is what the counter of the layer is used for.
-/

/-- Four for each packet that waits, and what the packets are worth that the call sends. -/
def worth (r : SecurityLayer × List LayerOutput) : ℤ := 4 * r.1.queuedPackets + outWeight r.2

theorem outWeight_doSendDataPacket (sl : SecurityLayer) (peer : PeerRef) (data : Bytes) :
    outWeight (sl.doSendDataPacket S peer data).2 ≤ 4 := by
  unfold doSendDataPacket
  split_ifs <;> simp [weight]

theorem outWeight_sendAll (sl : SecurityLayer) (calls : List (PeerRef × Bytes)) :
    outWeight (sl.sendAll S calls).2 ≤ 4 * calls.length := by
  induction calls generalizing sl with
  | nil => simp [sendAll]
  | cons call calls ih =>
    have hone := outWeight_doSendDataPacket (S := S) sl call.1 call.2
    have hrest := ih (sl.doSendDataPacket S call.1 call.2).1
    rw [sendAll, outWeight_append, List.length_cons]
    omega

/-- A queue that is sent pays for its packets. -/
theorem worth_finishNegotiation (sl : SecurityLayer) (peer : PeerRef) :
    worth (sl.finishNegotiation S peer) ≤ 4 * sl.queuedPackets := by
  have hsent := outWeight_sendAll (S := S) (sl.establish peer) ((sl.deref peer).packetQueue.map (peer, ·))
  rw [List.length_map] at hsent
  rw [finishNegotiation_eq]
  simp only [worth]
  rw [outWeight_cons, outWeight_negotiated]
  omega

theorem worth_negotiate (sl : SecurityLayer) (target : HusarnetAddress) (peer : PeerRef) (hello : HelloPacket)
    (helloNum : UInt8) : worth (sl.negotiate S target peer hello helloNum) ≤
      4 * sl.queuedPackets + if helloNum = 2 then 1 else 0 := by
  rw [negotiate]
  cases sl.sessionKeys S target peer hello.peerKxPubkey with
  | none =>
    simp only [worth, outWeight_wroteKeys]
    show 4 * sl.queuedPackets + _ ≤ _
    split_ifs <;> omega
  | some keys =>
    dsimp only
    generalize hk : sl.modify peer _ = keyed
    have hcount : keyed.queuedPackets = sl.queuedPackets := hk ▸ rfl
    have hfinish := worth_finishNegotiation (S := S) keyed peer
    rw [worth, hcount] at hfinish
    rw [worth, List.cons_append, outWeight_cons, outWeight_append, outWeight_wroteKeys]
    dsimp only
    by_cases hnum : helloNum = 2
    · simp only [if_pos hnum, outWeight_hello]
      have hthird : weight [3] = 1 := by decide
      omega
    · simp only [if_neg hnum, outWeight_nil]
      omega

theorem worth_acceptHello (sl : SecurityLayer) (target : HusarnetAddress) (peer : PeerRef) (hello : HelloPacket)
    (data : Bytes) : worth (sl.acceptHello S target peer hello (data.getD 0 0)) + 1 ≤ 4 * sl.queuedPackets + weight data := by
  have hpos := weight_pos data
  unfold acceptHello
  split
  · simp only [worth, outWeight_nil]
    omega
  · split
    · simp only [worth, outWeight_nil]
      omega
    · split
      · rename_i hfirst
        have hreply : weight [2] = 2 := by decide
        have hworth : weight data = 3 := by
          rw [weight, hfirst]
          decide
        simp only [worth, outWeight_hello]
        omega
      · split
        · simp only [worth, outWeight_nil]
          omega
        · have hnegotiated := worth_negotiate (S := S) sl target peer hello (data.getD 0 0)
          by_cases hnum : data.getD 0 0 = 2
          · have hworth : weight data = 2 := by
              rw [weight, hnum]
              decide
            rw [if_pos hnum] at hnegotiated
            omega
          · rw [if_neg hnum] at hnegotiated
            omega

theorem worth_getOrCreatePeer {sl sl' : SecurityLayer} {id : HusarnetAddress} {peer : Option PeerRef}
    (h : sl.getOrCreatePeer id = (sl', peer)) : sl'.queuedPackets = sl.queuedPackets := (QueuesKept.getOrCreatePeer h).count

theorem DataHandling.worth_le {now : Time} {sl : SecurityLayer} {peerId : HusarnetAddress} {data : Bytes}
    {r : SecurityLayer × List LayerOutput} (h : DataHandling S now sl peerId data r) :
    worth r ≤ 4 * sl.queuedPackets + 3 := by
  have hcount := h.queues_kept.1.count
  rw [worth, hcount]
  cases h with
  | early sl' peer hg _ =>
    have hfirst : weight [1] = 3 := by decide
    rw [outWeight_hello, hfirst]
    omega
  | short _ => simp
  | unknown sl' hg => simp
  | large sl' peer hg _ => simp
  | forged sl' peer hg _ _ => simp
  | opened sl' peer hg _ _ _ text _ => simp

theorem worth_handleHelloPacket {sl : SecurityLayer} {target : HusarnetAddress} {data : Bytes}
    {r : SecurityLayer × List LayerOutput}
    (h : sl.handleHelloPacket S target data (data.getD 0 0) = .ok r) :
    worth r + 1 ≤ 4 * sl.queuedPackets + weight data := by
  have hpos := weight_pos data
  unfold handleHelloPacket at h
  by_cases hl : data.length < dataLen + 64
  · rw [if_pos hl] at h
    cases h
    simp only [worth, outWeight_nil]
    omega
  · rw [if_neg hl] at h
    split at h
    · rename_i looked hg
      cases h
      rw [worth, worth_getOrCreatePeer hg, outWeight_nil]
      omega
    · rename_i looked peer hg
      have hlong : 161 ≤ data.length := by
        simp only [dataLen] at hl
        omega
      rw [HelloPacket.parse_of_le hlong] at h
      cases h
      rw [← worth_getOrCreatePeer hg]
      exact worth_acceptHello looked target peer _ data

theorem worth_handleHeartbeatReply (now : Time) (sl : SecurityLayer) (source : HusarnetAddress) (ident : FString 8) :
    worth (sl.handleHeartbeatReply now source ident) = 4 * sl.queuedPackets := by
  have hnothing : (sl.handleHeartbeatReply now source ident).2 = [] := by
    unfold handleHeartbeatReply
    split
    · rfl
    · split <;> rfl
  rw [worth, (handleHeartbeatReply_kept now sl source ident).1.count, hnothing, outWeight_nil]
  omega

/-- **A packet that is handled is worth more** than all that the layer sends for it. -/
theorem worth_onLowerLayerData {now : Time} {sl : SecurityLayer} {peerAddress : HusarnetAddress} {data : Bytes}
    {r : SecurityLayer × List LayerOutput} (h : sl.onLowerLayerData S now peerAddress data = .ok r) :
    worth r + 1 ≤ 4 * sl.queuedPackets + weight data := by
  have hpos := weight_pos data
  have hdropped : worth (sl, []) + 1 ≤ 4 * sl.queuedPackets + weight data := by
    simp only [worth, outWeight_nil]
    omega
  have hne : data ≠ [] := by
    rintro rfl
    cases h
  have hget : StringView.get data 0 = .ok (data.getD 0 0) := StringView.get_of_lt (List.length_pos_iff.mpr hne)
  unfold onLowerLayerData at h
  by_cases hsize : data.length ≥ 2000
  · rw [if_pos hsize] at h
    cases h
    exact hdropped
  · rw [if_neg hsize, hget] at h
    simp only [Except.bind, bind] at h
    by_cases h0 : data.getD 0 0 = 0
    · have hworth : weight data = 4 := if_pos h0
      rw [if_pos h0] at h
      split at h
      · cases h
        exact hdropped
      · obtain ⟨r', hr, hd⟩ := handleDataPacket_handling (S := S) now sl peerAddress data
        rw [hr] at h
        cases h
        have hle := hd.worth_le
        omega
    · rw [if_neg h0] at h
      by_cases hk : data.getD 0 0 = 1 ∨ data.getD 0 0 = 2 ∨ data.getD 0 0 = 3
      · rw [if_pos hk] at h
        split at h
        · cases h
          exact hdropped
        · exact worth_handleHelloPacket h
      · rw [if_neg hk] at h
        split at h
        · split at h
          · cases h
            exact hdropped
          · rw [substr_of_le (by omega)] at h
            by_cases h4 : data.getD 0 0 = 4
            · have hworth : weight data = 2 := by
                rw [weight, h4]
                decide
              simp only [if_pos h4] at h
              cases h
              have hreply : worth (sl.handleHeartbeat peerAddress (sliceF data 1 8 (by omega))) = 4 * sl.queuedPackets + 1 := by
                simp [worth, handleHeartbeat, weight]
              omega
            · simp only [if_neg h4] at h
              cases h
              rw [worth_handleHeartbeatReply]
              omega
        · cases h
          exact hdropped

theorem worth_onUpperLayerData (sl : SecurityLayer) (target : HusarnetAddress) (data : Bytes) :
    worth (sl.onUpperLayerData S target data) ≤ 4 * sl.queuedPackets + 7 := by
  have hhello : weight [1] = 3 := by decide
  unfold onUpperLayerData
  split
  · rename_i looked hg
    rw [worth, worth_getOrCreatePeer hg, outWeight_nil]
    omega
  · rename_i looked peer hg
    have hcount := worth_getOrCreatePeer hg
    split
    · have hsent := outWeight_doSendDataPacket (S := S) looked peer data
      rw [worth, (doSendDataPacket_frame (S := S) looked peer data).2.2]
      omega
    · split
      · simp only [worth, outWeight_hello]
        omega
      · simp only [worth, outWeight_hello]
        omega

theorem worth_getLatency (now : Time) (sl : SecurityLayer) (peerAddress : HusarnetAddress) :
    4 * (sl.getLatency now peerAddress).1.queuedPackets + outWeight (sl.getLatency now peerAddress).2.1 ≤
      4 * sl.queuedPackets + 2 := by
  rw [(getLatency_kept now sl peerAddress).1.count]
  unfold getLatency
  split
  · simp
  · simp [weight]

end SecurityLayer

/-! ## Runs -/

section
variable {ι : Type} {S : Sodium}

/-- The layer of one node pays for what it sends. -/
theorem SecurityLayer.SecurityStep.pays {sl sl' : SecurityLayer} {e : SecurityEvent} {out : List LayerOutput} {packets : List Bytes}
    (h : SecurityStep S sl (e, out) sl')
    (hnet : ∀ now peerAddress data, e = .lowerLayerData now peerAddress data → data ∈ packets) (i : ι) :
    4 * sl'.queuedPackets + (total weight (remaining packets e ++ packetsOf out) + TrafficEvent.handled (.layer i e) : ℕ) ≤
      4 * sl.queuedPackets + (total weight packets + TrafficEvent.credit (.layer i e) : ℕ) := by
  rw [total_append]
  cases h with
  | @lowerLayerData now peerAddress data _ _ hok =>
    have hpaid := worth_onLowerLayerData hok
    have herased : total weight (packets.erase data) + weight data = total weight packets :=
      total_erase weight (hnet now peerAddress data rfl)
    simp only [worth, outWeight] at hpaid
    simp only [remaining, TrafficEvent.handled, TrafficEvent.credit]
    omega
  | upperLayerData target data =>
    have hpaid := worth_onUpperLayerData (S := S) sl target data
    simp only [worth, outWeight] at hpaid
    simp only [remaining, TrafficEvent.handled, TrafficEvent.credit]
    omega
  | getLatency now peerAddress =>
    have hpaid := worth_getLatency now sl peerAddress
    simp only [outWeight] at hpaid
    simp only [remaining, TrafficEvent.handled, TrafficEvent.credit]
    omega
  | shared _ =>
    show 4 * sl.queuedPackets + _ ≤ _
    simp [remaining, TrafficEvent.handled, TrafficEvent.credit, packetsOf]

theorem Traffic.Step.queueInvariant [DecidableEq ι] {w w' : Traffic ι} {e : TrafficEvent ι} (h : w.Step S e w')
    (hw : ∀ i, QueueInvariant (w.layer i)) (i : ι) : QueueInvariant (w'.layer i) := by
  cases h with
  | @layer j e sl out hstep _ =>
    by_cases hi : i = j
    · subst hi
      show QueueInvariant (Function.update w.layer i sl i)
      rw [Function.update_self]
      exact (hw i).step hstep
    · show QueueInvariant (Function.update w.layer j sl i)
      rw [Function.update_of_ne hi]
      exact hw i
  | lost _ => exact hw i
  | injected _ => exact hw i

variable [Fintype ι] [DecidableEq ι]

/-- What the packets in flight are worth, and four for each packet that waits. -/
def Traffic.potential (w : Traffic ι) : ℤ := 4 * ∑ i, (w.layer i).queuedPackets + total weight w.packets

theorem Traffic.potential_update (w : Traffic ι) (i : ι) (sl : SecurityLayer) (packets : List Bytes) :
    Traffic.potential ⟨Function.update w.layer i sl, packets⟩ + 4 * (w.layer i).queuedPackets + total weight w.packets =
      w.potential + 4 * sl.queuedPackets + total weight packets := by
  have hsplit (f : ι → SecurityLayer) : ∑ j, (f j).queuedPackets =
      (f i).queuedPackets + ∑ j ∈ Finset.univ.erase i, (f j).queuedPackets :=
    (Finset.add_sum_erase _ (fun j => (f j).queuedPackets) (Finset.mem_univ i)).symm
  have hrest : ∑ j ∈ Finset.univ.erase i, (Function.update w.layer i sl j).queuedPackets =
      ∑ j ∈ Finset.univ.erase i, (w.layer j).queuedPackets := by
    refine Finset.sum_congr rfl fun j hj => ?_
    rw [Function.update_of_ne (Finset.ne_of_mem_erase hj)]
  have hafter := hsplit (Function.update w.layer i sl)
  have hbefore := hsplit w.layer
  rw [hrest, Function.update_self] at hafter
  simp only [Traffic.potential]
  omega

/-- **Every step is paid for.** -/
theorem Traffic.Step.pays {w w' : Traffic ι} {e : TrafficEvent ι} (h : w.Step S e w') :
    w'.potential + e.handled ≤ w.potential + e.credit := by
  cases h with
  | @layer i e sl out hstep hnet =>
    have hpaid := hstep.1.pays hnet i
    have hchange := w.potential_update i sl (remaining w.packets e ++ packetsOf out)
    omega
  | @lost data hmem =>
    have herased : total weight (w.packets.erase data) + weight data = total weight w.packets := total_erase weight hmem
    have hpos := weight_pos data
    simp only [Traffic.potential, TrafficEvent.handled, TrafficEvent.credit]
    omega
  | injected data =>
    have hle := weight_le data
    simp only [Traffic.potential, TrafficEvent.handled, TrafficEvent.credit, total_cons]
    omega

/-- **The traffic is bounded.** In every run of any number of nodes and the network between them, the
packets that are handled or lost, with those left in flight, are at most four for each packet that was in
flight or waited at the start, seven for each call from above, two for each question for a latency, and
four for each packet that the network makes up. -/
theorem traffic_bounded (w : Traffic ι) (hw : ∀ i, QueueInvariant (w.layer i))
    (tr : List (TrafficEvent ι × Traffic ι)) (hr : IsRun (Traffic.Step S) w tr) :
    (total TrafficEvent.handled (tr.map Prod.fst) + (last w tr).packets.length : ℤ) ≤
      4 * (w.packets.length + ∑ i, (w.layer i).queuedPackets) + total TrafficEvent.credit (tr.map Prod.fst) := by
  have hspent := spent_le (Φ := Traffic.potential) fun x hx => (hr.of_mem hx).2.pays
  have hinv : ∀ i, QueueInvariant ((last w tr).layer i) :=
    hr.keeps (I := fun w => ∀ i, QueueInvariant (w.layer i)) hw (fun _ _ _ hi hs => hs.queueInvariant hi) _
      (mem_states_last w tr)
  have hwaiting : 0 ≤ ∑ i, ((last w tr).layer i).queuedPackets := Finset.sum_nonneg fun i _ => (hinv i).counted.nonneg
  have hleft : (last w tr).packets.length ≤ total weight (last w tr).packets :=
    length_le_total weight fun data _ => weight_pos data
  have hfirst : total weight w.packets ≤ 4 * w.packets.length := total_le weight weight_le
  simp only [Traffic.potential] at hspent
  omega

end

/-! ## A call and the hello that it causes -/

/-- Two nodes that let every peer in, and nothing in flight. -/
def twoLayers : Traffic Bool := ⟨fun i => openTo (clearIdentity (if i then 1 else 2)), []⟩

/-- Data from above for the other node, which gets the hello. -/
def callAndHello : List (TrafficEvent Bool) :=
  [.layer true (.upperLayerData (clearIdentity 2).deviceId [1, 2, 3]),
    .layer false (.lowerLayerData 0 (clearIdentity 1).deviceId (firstHello .a 1 0 0))]

theorem queueInvariant_twoLayers (i : Bool) : QueueInvariant (twoLayers.layer i) := new_queueInvariant ..

theorem traffic_bounded_hello : ∃ tr, IsRun (Traffic.Step clearSodium) twoLayers tr ∧ tr.map Prod.fst = callAndHello ∧
    (1 + (last twoLayers tr).packets.length : ℤ) ≤ 7 := by
  let called := (twoLayers.layer true).onUpperLayerData clearSodium (clearIdentity 2).deviceId [1, 2, 3]
  obtain ⟨⟨sl, out⟩, hok, -⟩ := onLowerLayerData_handling (S := clearSodium) 0 (twoLayers.layer false)
    (clearIdentity 1).deviceId (show firstHello .a 1 0 0 ≠ [] by decide +kernel)
  have hfirst := Traffic.Step.layer (w := twoLayers) (i := true) (S := clearSodium)
    ⟨.upperLayerData (clearIdentity 2).deviceId [1, 2, 3], fun _ h => by cases h⟩ fun _ _ _ h => by cases h
  have hsecond := Traffic.Step.layer (i := false) (S := clearSodium)
    (w := ⟨Function.update twoLayers.layer true called.1, packetsOf called.2⟩)
    (e := .lowerLayerData 0 (clearIdentity 1).deviceId (firstHello .a 1 0 0))
    ⟨.lowerLayerData hok, fun _ h => by cases h⟩ (by
      rintro _ _ _ h
      cases h
      decide +kernel)
  have hrun : IsRun (Traffic.Step clearSodium) twoLayers [(_, _), (_, _)] := ⟨hfirst, hsecond, trivial⟩
  exact ⟨_, hrun, rfl, traffic_bounded twoLayers queueInvariant_twoLayers _ hrun⟩

end Husarnet
