import Husarnet.NgSocket.Moves
import Husarnet.QueueEffects
import Mathlib.Algebra.BigOperators.Fin

/-! # Runs of the queues

In every run of the layer the counter is the number of packets that wait, and each of them is passed
to `doSendDataPacket` once, in its turn, when the negotiation of its peer is finished.
-/

namespace Husarnet
open Octets PeerContainer Runs SharedQueues
set_option autoImplicit false

namespace SecurityLayer
variable {S : Sodium}

abbrev LayerTransition := SecurityLayer × (SecurityEvent × List LayerOutput) × SecurityLayer

/-- The packet of the step, if it is for the peer and is queued or sent. -/
def accepted (peer : PeerRef) (x : LayerTransition) : List Bytes := taken peer (x.1.queueAction x.2.1)

/-- The packets of the peer that the step passes to `doSendDataPacket`. -/
def passed (peer : PeerRef) (x : LayerTransition) : List Bytes :=
  ((x.1.calls (x.1.queueAction x.2.1)).filter (·.1 = peer)).map Prod.snd

/-- The step puts the packet into the queue of the peer. -/
def Enqueues (peer : PeerRef) (data : Bytes) (x : LayerTransition) : Prop := x.1.queueAction x.2.1 = .push peer data

/-- The step finishes a negotiation with the peer. -/
def Finishes (peer : PeerRef) (x : LayerTransition) : Prop := .negotiated peer ∈ x.2.1.2

/-- The counter is exact and within its bound, packets and a session exclude each other, and every step does
to the queues what it is said to do. The packets for a peer are passed on in the order in which they came,
those that wait with the next negotiation. -/
structure QueuesServed (S : Sodium) (sl₀ : SecurityLayer) (tr : List ((SecurityEvent × List LayerOutput) × SecurityLayer)) :
    Prop where
  exact : ∀ sl ∈ states sl₀ tr,
    sl.queuedPackets = (sl.peerContainer.heap.map fun p => (p.packetQueue.length : ℤ)).sum
  bounded : ∀ sl ∈ states sl₀ tr, 0 ≤ sl.queuedPackets ∧ sl.queuedPackets ≤ MAX_QUEUED_PACKETS
  drained : ∀ sl ∈ states sl₀ tr, ∀ p ∈ sl.peerContainer.heap, p.negotiated = true → p.packetQueue = []
  refined : ∀ x ∈ transitions sl₀ tr, Step MAX_QUEUED_PACKETS x.1.queues (x.1.queueAction x.2.1) x.2.2.queues
  sealed : ∀ x ∈ transitions sl₀ tr, let calls := x.1.calls (x.1.queueAction x.2.1)
    ∃ sl₁ : SecurityLayer, (∀ call ∈ calls, (sl₁.deref call.1).txKey = (x.2.2.deref call.1).txKey) ∧
      dataPackets x.2.1.2 = (sl₁.sendAll S calls).2
  conserved : ∀ peer, (transitions sl₀ tr).flatMap (accepted peer) =
    (transitions sl₀ tr).flatMap (passed peer) ++ ((last sl₀ tr).deref peer).packetQueue
  served : ∀ (peer : PeerRef) (data : Bytes) (before between after : List LayerTransition) (x y : LayerTransition),
    transitions sl₀ tr = before ++ x :: between ++ y :: after → Enqueues peer data x → Finishes peer y →
    (∀ z ∈ between, ¬ Finishes peer z) →
    between.flatMap (passed peer) = [] ∧ (y.2.2.deref peer).packetQueue = [] ∧
      passed peer y = (x.1.deref peer).packetQueue ++ data :: between.flatMap (accepted peer)

/-! ## The sum over all peers -/

theorem sum_heap_eq (c : PeerContainer) (g : Peer → ℤ) :
    (c.heap.map g).sum = ∑ i ∈ Finset.range c.heap.length, g (c.deref i) := by
  rw [Finset.sum_range, ← Fin.sum_univ_fun_getElem]
  refine Finset.sum_congr rfl fun i _ => ?_
  have hentry : c.deref i = c.heap[i.1] := deref_of_entry (List.getElem?_eq_getElem i.2)
  rw [hentry]

/-- What holds of the layer in every state of a run. -/
structure QueueInvariant (sl : SecurityLayer) : Prop where
  drained : Drained sl
  counted : Counted sl.queues
  within : sl.queuedPackets ≤ MAX_QUEUED_PACKETS

theorem QueueInvariant.exact {sl : SecurityLayer} (h : QueueInvariant sl) :
    sl.queuedPackets = (sl.peerContainer.heap.map fun p => (p.packetQueue.length : ℤ)).sum := by
  rw [sum_heap_eq]
  refine h.counted.count_eq fun peer hp => ?_
  rw [Finset.mem_range] at hp
  exact congrArg Peer.packetQueue (deref_of_not_allocated (c := sl.peerContainer) hp)

theorem QueueInvariant.step {sl sl' : SecurityLayer} {e : SecurityEvent × List LayerOutput} (h : QueueInvariant sl)
    (hstep : QueueStep S sl e sl') : QueueInvariant sl' := by
  have hqueues := hstep.effect.step h.drained
  exact ⟨hstep.effect.drained h.drained, hqueues.counted h.counted, hqueues.within h.within⟩

theorem new_queueInvariant (configManager : ConfigManager) (identity : Identity) (tape : Tape) (myFlags : PeerFlags)
    (boot : UInt64) : QueueInvariant (.new (.new configManager identity tape) myFlags boot) where
  drained _ h := by cases h
  counted := ⟨∅, fun _ _ => rfl, rfl⟩
  within := (by decide : (0 : ℤ) ≤ MAX_QUEUED_PACKETS)

/-! ## The order of packets -/

theorem passed_eq_handed (peer : PeerRef) (x : LayerTransition) :
    passed peer x = handed peer x.1.queues (x.1.queueAction x.2.1) := by
  rw [passed]
  cases x.1.queueAction x.2.1 with
  | push _ _ => rfl
  | pass other data =>
    rw [calls, handed, List.filter_singleton]
    by_cases ho : other = peer
    · simp [ho]
    · simp [ho]
  | flush other =>
    rw [calls, handed, List.filter_map, List.map_map]
    by_cases ho : other = peer
    · subst ho
      simp [queues, Function.comp_def]
    · simp [ho, Function.comp_def]
  | idle => rfl

theorem takenIn_queues (peer : PeerRef) (steps : List LayerTransition) :
    takenIn peer (steps.map fun x => (x.1.queues, x.1.queueAction x.2.1, x.2.2.queues)) = steps.flatMap (accepted peer) :=
  List.flatMap_map ..

theorem handedIn_queues (peer : PeerRef) (steps : List LayerTransition) :
    handedIn peer (steps.map fun x => (x.1.queues, x.1.queueAction x.2.1, x.2.2.queues)) = steps.flatMap (passed peer) := by
  rw [handedIn, List.flatMap_map]
  exact List.flatMap_congr fun x _ => (passed_eq_handed peer x).symm

/-- **The packets that wait for a session.** -/
theorem packet_queues (configManager : ConfigManager) (identity : Identity) (tape : Tape) (myFlags : PeerFlags)
    (boot : UInt64) (tr : List ((SecurityEvent × List LayerOutput) × SecurityLayer))
    (hr : IsRun (QueueStep S) (new (.new configManager identity tape) myFlags boot) tr) :
    QueuesServed S (new (.new configManager identity tape) myFlags boot) tr := by
  have h₀ := new_queueInvariant configManager identity tape myFlags boot
  have hstart (peer : PeerRef) : (new (.new configManager identity tape) myFlags boot).queues.queue peer = [] := rfl
  generalize new (.new configManager identity tape) myFlags boot = sl₀ at hr h₀ hstart ⊢
  have hinv : ∀ sl ∈ states sl₀ tr, QueueInvariant sl := hr.keeps h₀ fun _ _ _ h hstep => h.step hstep
  have heffect : ∀ x ∈ transitions sl₀ tr, QueueInvariant x.1 ∧ QueueEffect S x.1 (x.1.queueAction x.2.1) x.2.1.2 x.2.2 :=
    fun x hx => ⟨hinv x.1 (hr.of_mem hx).1, (hr.of_mem hx).2.effect⟩
  have hrefined : ∀ x ∈ transitions sl₀ tr, Step MAX_QUEUED_PACKETS x.1.queues (x.1.queueAction x.2.1) x.2.2.queues :=
    fun x hx => (heffect x hx).2.step (heffect x hx).1.drained
  have habstract : IsRun (Step MAX_QUEUED_PACKETS) sl₀.queues (mapTrace queues queueAction sl₀ tr) := isRun_mapTrace hrefined
  have hmap := transitions_mapTrace (f := queues) (g := queueAction) sl₀ tr
  refine ⟨fun sl hsl => (hinv sl hsl).exact, fun sl hsl => ⟨(hinv sl hsl).counted.nonneg, (hinv sl hsl).within⟩,
    fun sl hsl p hp hn => ?_, hrefined, fun x hx => (heffect x hx).2.sealed, fun peer => ?_, ?_⟩
  · obtain ⟨peer, hpeer⟩ := List.mem_iff_getElem?.mp hp
    have hentry : sl.deref peer = p := deref_of_entry hpeer
    subst hentry
    exact (hinv sl hsl).drained peer hn
  · have hall := run_conserves habstract peer
    rw [hmap, takenIn_queues, handedIn_queues, last_mapTrace, hstart, List.nil_append] at hall
    exact hall
  · intro peer data before between after x y he hx hy hno
    have hfinishes {z : LayerTransition} (hz : z ∈ transitions sl₀ tr) :
        Finishes peer z ↔ z.1.queueAction z.2.1 = .flush peer := (heffect z hz).2.finishes_iff peer
    have himage := hmap
    rw [he, List.map_append, List.map_append, List.map_cons, List.map_cons] at himage
    have hin : ∀ z ∈ between, z ∈ transitions sl₀ tr := fun z hz => by
      rw [he]
      simp [hz]
    have hflush : y.1.queueAction y.2.1 = .flush peer := (hfinishes (by rw [he]; simp)).mp hy
    have hbetween : ∀ z ∈ between.map fun x => (x.1.queues, x.1.queueAction x.2.1, x.2.2.queues), z.2.1 ≠ .flush peer := by
      intro z hz hz'
      obtain ⟨w, hw, rfl⟩ := List.mem_map.mp hz
      exact hno w hw ((hfinishes (hin w hw)).mpr hz')
    obtain ⟨hnone, hpassed, hempty⟩ := SharedQueues.served habstract himage hx hflush hbetween
    rw [handedIn_queues] at hnone
    rw [takenIn_queues] at hpassed
    exact ⟨hnone, hempty, (passed_eq_handed peer y).trans hpassed⟩

/-! ## A packet that waits for the reply to a hello -/

/-- The reply of node 1 to the first hello of node 2. -/
def replyToHello : Bytes :=
  signedHello clearSodium (clearIdentity 1) .new { (default : Peer) with id := (clearIdentity 2).deviceId } 2 7 0

theorem waiting_packet_passed : ∃ tr, QueuesServed clearSodium (openTo (clearIdentity 2)) tr ∧
    (transitions (openTo (clearIdentity 2)) tr).map (passed 0) = [[], [[0x61]]] := by
  let sl₀ := openTo (clearIdentity 2)
  let sl₁ := (sl₀.onUpperLayerData clearSodium (clearIdentity 1).deviceId [0x61]).1
  let hello := (sl₀.onUpperLayerData clearSodium (clearIdentity 1).deviceId [0x61]).2
  have hfinishes : (sl₁.onLowerLayerData clearSodium 0 (clearIdentity 1).deviceId replyToHello).toOption.map
      (fun r => finishedPeer r.2) = some (some 0) := by decide +kernel
  cases hr : sl₁.onLowerLayerData clearSodium 0 (clearIdentity 1).deviceId replyToHello with
  | error _ =>
    rw [hr] at hfinishes
    cases hfinishes
  | ok r =>
    rw [hr] at hfinishes
    have hfinished : finishedPeer r.2 = some 0 := Option.some.inj hfinishes
    have hrun : IsRun (QueueStep clearSodium) sl₀ [((.upperLayerData (clearIdentity 1).deviceId [0x61], hello), sl₁),
        ((.lowerLayerData 0 (clearIdentity 1).deviceId replyToHello, r.2), r.1)] :=
      ⟨⟨.upperLayerData _ _, fun _ h => by cases h⟩, ⟨.lowerLayerData hr, fun _ h => by cases h⟩, trivial⟩
    refine ⟨_, packet_queues _ _ _ _ _ _ hrun, ?_⟩
    have hfirst : passed 0 (sl₀, (.upperLayerData (clearIdentity 1).deviceId [0x61], hello), sl₁) = [] := by decide +kernel
    have hqueue : (sl₁.deref 0).packetQueue = [[0x61]] := by decide +kernel
    have haction : sl₁.queueAction (.lowerLayerData 0 (clearIdentity 1).deviceId replyToHello, r.2) = .flush 0 := by
      show finishAction r.2 = .flush 0
      rw [finishAction, hfinished]
    have hsecond : passed 0 (sl₁, (.lowerLayerData 0 (clearIdentity 1).deviceId replyToHello, r.2), r.1) = [[0x61]] := by
      rw [passed]
      dsimp only
      rw [haction, calls, hqueue]
      rfl
    exact congrArg₂ (fun first second => [first, second]) hfirst hsecond

end SecurityLayer
end Husarnet
