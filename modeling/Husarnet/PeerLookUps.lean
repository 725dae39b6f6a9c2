import Husarnet.PeerSessions

/-! # Peers that are found again

What a look-up reads of the container. Draws and writes to a peer leave it alone, so that a peer is found where
it was found before.
-/

namespace Husarnet
open Octets Containers
set_option autoImplicit false

namespace PeerContainer

/-- What a look-up reads. -/
structure SameLookUps (c c' : PeerContainer) : Prop where
  configManager : c'.configManager = c.configManager
  identity : c'.identity = c.identity
  peers : c'.peers = c.peers
  cachedPeer : c'.cachedPeer = c.cachedPeer
  cachedPeerId : c'.cachedPeerId = c.cachedPeerId

theorem SameLookUps.refl (c : PeerContainer) : SameLookUps c c := ⟨rfl, rfl, rfl, rfl, rfl⟩

theorem SameLookUps.trans {c c' c'' : PeerContainer} (h : SameLookUps c c') (h' : SameLookUps c' c'') :
    SameLookUps c c'' where
  configManager := h'.configManager.trans h.configManager
  identity := h'.identity.trans h.identity
  peers := h'.peers.trans h.peers
  cachedPeer := h'.cachedPeer.trans h.cachedPeer
  cachedPeerId := h'.cachedPeerId.trans h.cachedPeerId

theorem sameLookUps_modify (c : PeerContainer) (peer : PeerRef) (f : Peer → Peer) : SameLookUps c (c.modify peer f) :=
  ⟨rfl, rfl, rfl, rfl, rfl⟩

theorem sameLookUps_draw (c : PeerContainer) : SameLookUps c c.draw := ⟨rfl, rfl, rfl, rfl, rfl⟩

theorem getPeer_snd (c : PeerContainer) (id : HusarnetAddress) : (c.getPeer id).2 =
    if c.cachedPeerId = id then c.cachedPeer else if id = c.identity.deviceId then none
      else if !c.configManager.isPeerAllowed id then none else get? c.peers id := by
  unfold getPeer
  split_ifs
  · rfl
  · rfl
  · rfl
  · split <;> rename_i hget
    · exact hget.symm
    · exact hget.symm

theorem SameLookUps.getPeer {c c' : PeerContainer} (h : SameLookUps c c') (id : HusarnetAddress) :
    (c'.getPeer id).2 = (c.getPeer id).2 := by
  rw [getPeer_snd, getPeer_snd, h.configManager, h.identity, h.peers, h.cachedPeer, h.cachedPeerId]

theorem getPeer_again {c : PeerContainer} {id : HusarnetAddress} {ref : PeerRef} (h : (c.getPeer id).2 = some ref) :
    ((c.getPeer id).1.getPeer id).2 = some ref := by
  obtain ⟨hid, hpeer⟩ := getPeer_cached h
  rw [getPeer_snd, if_pos hid, hpeer]

end PeerContainer

end Husarnet
