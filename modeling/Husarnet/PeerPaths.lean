import Husarnet.PeerSessions

/-! # What happens to peers outside the path handlers

The address a peer is reached at, the attempt to find one and the addresses it was heard from are
written by three functions of the socket layer. All other code, whatever it does to a peer, leaves
these fields alone and can only give a path up.
-/

namespace Husarnet
open Octets Containers
set_option autoImplicit false

/-- What a peer keeps of its path: the target and the attempt under way. A path may be given up. -/
structure TargetKept (p p' : Peer) : Prop where
  targetAddress : p'.targetAddress = p.targetAddress
  helloCookie : p'.helloCookie = p.helloCookie
  reestablishing : p'.reestablishing = p.reestablishing
  lastReestablish : p'.lastReestablish = p.lastReestablish
  failedEstablishments : p'.failedEstablishments = p.failedEstablishments
  connected : p'.connected = true → p.connected = true

/-- The addresses the peer was heard from are kept as well. -/
structure PathKept (p p' : Peer) : Prop extends TargetKept p p' where
  sourceAddresses : p'.sourceAddresses = p.sourceAddresses

/-- What the timers of the socket layer read is kept, and no session ends. -/
structure TimersKept (p p' : Peer) : Prop where
  lastPacket : p'.lastPacket = p.lastPacket
  lastValidPacket : p'.lastValidPacket = p.lastValidPacket
  negotiated : p.negotiated = true → p'.negotiated = true

structure PeerKept (p p' : Peer) : Prop extends PathKept p p', TimersKept p p'

def KeepsPath (f : Peer → Peer) : Prop := ∀ p, PathKept p (p.update f)

def KeepsPeer (f : Peer → Peer) : Prop := ∀ p, PeerKept p (p.update f)

theorem TargetKept.refl (p : Peer) : TargetKept p p := ⟨rfl, rfl, rfl, rfl, rfl, fun h => h⟩

theorem TargetKept.trans {p q r : Peer} (h : TargetKept p q) (h' : TargetKept q r) : TargetKept p r where
  targetAddress := h'.targetAddress.trans h.targetAddress
  helloCookie := h'.helloCookie.trans h.helloCookie
  reestablishing := h'.reestablishing.trans h.reestablishing
  lastReestablish := h'.lastReestablish.trans h.lastReestablish
  failedEstablishments := h'.failedEstablishments.trans h.failedEstablishments
  connected hc := h.connected (h'.connected hc)

theorem PathKept.refl (p : Peer) : PathKept p p := ⟨.refl p, rfl⟩

theorem PathKept.trans {p q r : Peer} (h : PathKept p q) (h' : PathKept q r) : PathKept p r :=
  ⟨h.toTargetKept.trans h'.toTargetKept, h'.sourceAddresses.trans h.sourceAddresses⟩

theorem TimersKept.refl (p : Peer) : TimersKept p p := ⟨rfl, rfl, fun h => h⟩

theorem TimersKept.trans {p q r : Peer} (h : TimersKept p q) (h' : TimersKept q r) : TimersKept p r where
  lastPacket := h'.lastPacket.trans h.lastPacket
  lastValidPacket := h'.lastValidPacket.trans h.lastValidPacket
  negotiated hn := h'.negotiated (h.negotiated hn)

theorem PeerKept.refl (p : Peer) : PeerKept p p := ⟨.refl p, .refl p⟩

theorem PeerKept.trans {p q r : Peer} (h : PeerKept p q) (h' : PeerKept q r) : PeerKept p r :=
  ⟨h.toPathKept.trans h'.toPathKept, h.toTimersKept.trans h'.toTimersKept⟩

namespace PeerContainer

/-- The pointer is one that `createPeer` gave out. -/
def Allocated (c : PeerContainer) (peer : PeerRef) : Prop := peer < c.heap.length

theorem Allocated.entry {c : PeerContainer} {peer : PeerRef} (h : c.Allocated peer) :
    c.heap[peer]? = some (c.deref peer) := by
  rw [deref, List.getD_eq_getElem?_getD, List.getElem?_eq_getElem h]
  rfl

theorem allocated_of_pointsTo {c : PeerContainer} {peer : PeerRef} {id : HusarnetAddress}
    (h : PointsTo c.heap peer id) : c.Allocated peer := by
  obtain ⟨p, hp, -⟩ := Option.map_eq_some_iff.mp h
  exact (List.getElem?_eq_some_iff.mp hp).1

theorem deref_of_not_allocated {c : PeerContainer} {peer : PeerRef} (h : ¬ c.Allocated peer) :
    c.deref peer = default := by
  rw [deref, List.getD_eq_getElem?_getD, List.getElem?_eq_none (not_lt.mp h)]
  rfl

theorem deref_modify_self {c : PeerContainer} {peer : PeerRef} (h : c.Allocated peer) (f : Peer → Peer) :
    (c.modify peer f).deref peer = (c.deref peer).update f := deref_of_entry (heap_modify_self h.entry f)

theorem deref_modify_ne (c : PeerContainer) {peer other : PeerRef} (h : peer ≠ other) (f : Peer → Peer) :
    (c.modify peer f).deref other = c.deref other := by
  simp only [deref, modify, List.getD_eq_getElem?_getD, List.getElem?_modify, if_neg h, Option.map_eq_map,
    Option.map_id_fun', id_eq]

theorem deref_modify_of_not_allocated {c : PeerContainer} {peer : PeerRef} (h : ¬ c.Allocated peer) (f : Peer → Peer)
    (other : PeerRef) : (c.modify peer f).deref other = c.deref other := by
  have hheap : (c.modify peer f).heap = c.heap := List.modify_eq_self (not_lt.mp h)
  rw [deref, hheap, deref]

/-- Every peer is related by `R` to what it was, and is found where it was. -/
structure Kept (R : Peer → Peer → Prop) (c c' : PeerContainer) : Prop where
  identity : c'.identity = c.identity
  pointsTo (peer : PeerRef) (id : HusarnetAddress) : PointsTo c.heap peer id → PointsTo c'.heap peer id
  peer (peer : PeerRef) : R (c.deref peer) (c'.deref peer)

namespace Kept
variable {R : Peer → Peer → Prop}

theorem trans {c c' c'' : PeerContainer} (h : Kept R c c') (h' : Kept R c' c'')
    (hR : ∀ {p q r}, R p q → R q r → R p r) : Kept R c c'' where
  identity := h'.identity.trans h.identity
  pointsTo peer id hp := h'.pointsTo peer id (h.pointsTo peer id hp)
  peer peer := hR (h.peer peer) (h'.peer peer)

theorem mono {R' : Peer → Peer → Prop} (hR : ∀ {p q}, R p q → R' p q) {c c' : PeerContainer} (h : Kept R c c') :
    Kept R' c c' := ⟨h.identity, h.pointsTo, fun peer => hR (h.peer peer)⟩

section Reflexive
variable (hR : ∀ p, R p p)
include hR

theorem of_heap_eq {c c' : PeerContainer} (hi : c'.identity = c.identity) (hh : c'.heap = c.heap) : Kept R c c' := by
  refine ⟨hi, fun peer id hp => hh ▸ hp, fun peer => ?_⟩
  rw [deref, deref, hh]
  exact hR _

theorem modify (c : PeerContainer) (peer : PeerRef) {f : Peer → Peer} (hf : ∀ p, R p (p.update f)) :
    Kept R c (c.modify peer f) := by
  refine ⟨rfl, fun ref id hp => hp.modify peer f, fun ref => ?_⟩
  by_cases ha : c.Allocated peer
  · by_cases hr : peer = ref
    · subst hr
      rw [deref_modify_self ha]
      exact hf _
    · rw [deref_modify_ne c hr]
      exact hR _
  · rw [deref_modify_of_not_allocated ha]
    exact hR _

theorem getPeer (c : PeerContainer) (id : HusarnetAddress) : Kept R c (c.getPeer id).1 :=
  of_heap_eq hR (getPeer_frame c id).2.1 (getPeer_frame c id).2.2.2.1

variable (hnew : ∀ (id : HusarnetAddress) (ident : FString 8) (kx : FString 32 × FString 32),
  R default { id := id, heartbeatIdent := ident, kxPubkey := kx.1, kxPrivkey := kx.2 })
include hnew

theorem createPeer (c : PeerContainer) (id : HusarnetAddress) : Kept R c (c.createPeer id).1 := by
  generalize hr : c.createPeer id = r
  cases (hr ▸ createPeer_creation c id : Creation c id r) with
  | refused _ => exact of_heap_eq hR rfl rfl
  | created _ c' hheap _ _ _ _ hidentity _ =>
    refine ⟨hidentity, fun peer id' hp => ?_, fun peer => ?_⟩
    · rw [hheap]
      exact hp.append _
    · rw [deref, deref, hheap]
      simp only [List.getD_eq_getElem?_getD, List.getElem?_append]
      split
      · exact hR _
      · rename_i hge
        rw [List.getElem?_eq_none (not_lt.mp hge), List.getElem?_singleton]
        split
        · exact hnew _ _ _
        · exact hR _

theorem getOrCreatePeer (c : PeerContainer) (id : HusarnetAddress) : Kept R c (c.getOrCreatePeer id).1 := by
  rcases getOrCreatePeer_cases c id with ⟨-, he⟩ | ⟨-, he⟩
  · rw [he]
    exact getPeer hR c id
  · rw [he]
    exact createPeer hR hnew c id

end Reflexive
end Kept

/-- A write that keeps what `g` reads of a peer keeps it for all peers. -/
theorem read_modify {ν : Type} (g : Peer → ν) (c : PeerContainer) (peer : PeerRef) (f : Peer → Peer)
    (hf : ∀ p, g (p.update f) = g p) (other : PeerRef) : g ((c.modify peer f).deref other) = g (c.deref other) :=
  (Kept.modify (R := fun p p' => g p' = g p) (fun _ => rfl) c peer hf).peer other

abbrev TargetsKept : PeerContainer → PeerContainer → Prop := Kept TargetKept

abbrev PathsKept : PeerContainer → PeerContainer → Prop := Kept PathKept

abbrev PeersKept : PeerContainer → PeerContainer → Prop := Kept PeerKept

theorem PathsKept.getPeer (c : PeerContainer) (id : HusarnetAddress) : PathsKept c (c.getPeer id).1 :=
  Kept.getPeer PathKept.refl c id

namespace PeersKept

theorem refl (c : PeerContainer) : PeersKept c c := Kept.of_heap_eq PeerKept.refl rfl rfl

theorem trans {c c' c'' : PeerContainer} (h : PeersKept c c') (h' : PeersKept c' c'') : PeersKept c c'' :=
  Kept.trans h h' PeerKept.trans

theorem paths {c c' : PeerContainer} (h : PeersKept c c') : PathsKept c c' := h.mono PeerKept.toPathKept

theorem timers {c c' : PeerContainer} (h : PeersKept c c') : Kept TimersKept c c' := h.mono PeerKept.toTimersKept

theorem draw (c : PeerContainer) : PeersKept c c.draw := Kept.of_heap_eq PeerKept.refl rfl rfl

theorem reconfigure (c : PeerContainer) (configManager : ConfigManager) : PeersKept c (c.reconfigure configManager) :=
  Kept.of_heap_eq PeerKept.refl rfl rfl

theorem getPeer (c : PeerContainer) (id : HusarnetAddress) : PeersKept c (c.getPeer id).1 :=
  Kept.getPeer PeerKept.refl c id

theorem getOrCreatePeer (c : PeerContainer) (id : HusarnetAddress) : PeersKept c (c.getOrCreatePeer id).1 :=
  Kept.getOrCreatePeer PeerKept.refl
    (fun _ _ _ => ⟨⟨⟨rfl, rfl, rfl, rfl, rfl, fun h => h⟩, rfl⟩, ⟨rfl, rfl, fun h => h⟩⟩) c id

theorem modify (c : PeerContainer) (peer : PeerRef) {f : Peer → Peer} (hf : KeepsPeer f) :
    PeersKept c (c.modify peer f) := Kept.modify PeerKept.refl c peer hf

end PeersKept

end PeerContainer
end Husarnet
