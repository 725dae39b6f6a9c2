import Husarnet.Config.ConfigManager
import Husarnet.Peer

/-! # peer_container.cpp

Peers live in a heap that only grows, a pointer is an index into it, and the container holds the
map from ids to pointers and the one-entry cache in front of it. Every container carries the
proofs that its pointers are allocated and that the peer found under an id has that id.
-/

namespace Husarnet
open Octets Containers
set_option autoImplicit false

/-- The random sources of the process and how often they were drawn from. -/
structure Random where
  tape : Tape
  draws : ℕ := 0

def Random.next (r : Random) : Random := { r with draws := r.draws + 1 }

/-- A `Peer*` other than null. -/
abbrev PeerRef := ℕ

def PointsTo (heap : List Peer) (ref : PeerRef) (id : HusarnetAddress) : Prop := (heap[ref]?).map Peer.id = some id

structure PeerContainer where
  configManager : ConfigManager
  identity : Identity
  random : Random
  heap : List Peer := []
  peers : List (HusarnetAddress × PeerRef) := []
  cachedPeer : Option PeerRef := none
  cachedPeerId : HusarnetAddress := .invalid
  peers_valid : ∀ id ref, get? peers id = some ref → PointsTo heap ref id
  cached_valid : ∀ ref, cachedPeer = some ref → PointsTo heap ref cachedPeerId

namespace PointsTo

theorem append {heap : List Peer} {ref : PeerRef} {id : HusarnetAddress} (h : PointsTo heap ref id)
    (more : List Peer) : PointsTo (heap ++ more) ref id := by
  have hlt : ref < heap.length := by
    by_contra hge
    rw [PointsTo, List.getElem?_eq_none (not_lt.mp hge)] at h
    cases h
  rw [PointsTo, List.getElem?_append_left hlt]
  exact h

theorem modify {heap : List Peer} {ref : PeerRef} {id : HusarnetAddress} (h : PointsTo heap ref id)
    (peer : PeerRef) (f : Peer → Peer) : PointsTo (heap.modify peer (·.update f)) ref id := by
  rw [PointsTo, List.getElem?_modify]
  rw [PointsTo] at h
  cases hp : heap[ref]? with
  | none =>
    rw [hp] at h
    cases h
  | some p =>
    rw [hp] at h
    by_cases hr : peer = ref
    · simpa [hr] using h
    · simpa [hr] using h

end PointsTo

namespace PeerContainer

def new (configManager : ConfigManager) (identity : Identity) (tape : Tape) : PeerContainer where
  configManager := configManager
  identity := identity
  random := ⟨tape, 0⟩
  peers_valid _ _ h := by cases h
  cached_valid _ h := by cases h

def deref (c : PeerContainer) (peer : PeerRef) : Peer := c.heap.getD peer default

theorem deref_of_entry {c : PeerContainer} {peer : PeerRef} {p : Peer} (h : c.heap[peer]? = some p) :
    c.deref peer = p := by
  rw [deref, List.getD_eq_getElem?_getD, h]
  rfl

/-- A write through a pointer. -/
def modify (c : PeerContainer) (peer : PeerRef) (f : Peer → Peer) : PeerContainer :=
  { c with
    heap := c.heap.modify peer (·.update f)
    peers_valid := fun id ref h => (c.peers_valid id ref h).modify peer f
    cached_valid := fun ref h => (c.cached_valid ref h).modify peer f }

def createPeer (c : PeerContainer) (id : HusarnetAddress) : PeerContainer × Option PeerRef :=
  if !c.configManager.isPeerAllowed id then (c, none)
  else
    let peer : Peer :=
      { id := id
        heartbeatIdent := c.random.tape.ident c.random.draws
        kxPubkey := (c.random.tape.kxKeypair c.random.draws).1
        kxPrivkey := (c.random.tape.kxKeypair c.random.draws).2 }
    ({ c with
        random := c.random.next
        heap := c.heap ++ [peer]
        peers := assign c.peers id c.heap.length
        peers_valid := fun id' ref h => by
          rw [get?_assign] at h
          by_cases hid : id' = id
          · rw [if_pos hid, Option.some.injEq] at h
            rw [← h, PointsTo, List.getElem?_concat_length, hid]
            rfl
          · rw [if_neg hid] at h
            exact (c.peers_valid id' ref h).append _
        cached_valid := fun ref h => (c.cached_valid ref h).append _ },
      some c.heap.length)

def remember (c : PeerContainer) (id : HusarnetAddress) (it : PeerRef) (h : get? c.peers id = some it) :
    PeerContainer :=
  { c with
    cachedPeerId := id
    cachedPeer := some it
    cached_valid := fun ref hr => by
      cases hr
      exact c.peers_valid id it h }

def getPeer (c : PeerContainer) (id : HusarnetAddress) : PeerContainer × Option PeerRef :=
  if c.cachedPeerId = id then (c, c.cachedPeer)
  -- prevents a connection to oneself
  else if id = c.identity.deviceId then (c, none)
  else if !c.configManager.isPeerAllowed id then (c, none)
  else
    match h : get? c.peers id with
    | none => (c, none)
    | some it => (c.remember id it h, some it)

def getOrCreatePeer (c : PeerContainer) (id : HusarnetAddress) : PeerContainer × Option PeerRef :=
  match c.getPeer id with
  | (c, none) => c.createPeer id
  | (c, some peer) => (c, some peer)

def draw (c : PeerContainer) : PeerContainer := { c with random := c.random.next }

def getPeers (c : PeerContainer) : List (HusarnetAddress × PeerRef) := c.peers

/-- The configuration thread or the daemon API changes the configuration. -/
def reconfigure (c : PeerContainer) (configManager : ConfigManager) : PeerContainer :=
  { c with configManager := configManager }

/-! ## What the look-ups do -/

/-- The ways `getPeer` can go. -/
inductive LookUp (c : PeerContainer) (id : HusarnetAddress) : PeerContainer × Option PeerRef → Prop where
  | cached (hc : c.cachedPeerId = id) : LookUp c id (c, c.cachedPeer)
  | refused (hc : c.cachedPeerId ≠ id) (h : id = c.identity.deviceId ∨ c.configManager.isPeerAllowed id = false) :
      LookUp c id (c, none)
  | unknown (hc : c.cachedPeerId ≠ id) (h : get? c.peers id = none) : LookUp c id (c, none)
  | found (it : PeerRef) (hc : c.cachedPeerId ≠ id) (ha : c.configManager.isPeerAllowed id = true)
      (h : get? c.peers id = some it) : LookUp c id (c.remember id it h, some it)

inductive Creation (c : PeerContainer) (id : HusarnetAddress) : PeerContainer × Option PeerRef → Prop where
  | refused (h : c.configManager.isPeerAllowed id = false) : Creation c id (c, none)
  | created (ha : c.configManager.isPeerAllowed id = true) (c' : PeerContainer)
      (hheap : c'.heap = c.heap ++ [{
        id := id
        heartbeatIdent := c.random.tape.ident c.random.draws
        kxPubkey := (c.random.tape.kxKeypair c.random.draws).1
        kxPrivkey := (c.random.tape.kxKeypair c.random.draws).2 }])
      (hpeers : c'.peers = assign c.peers id c.heap.length) (hcache : c'.cachedPeer = c.cachedPeer)
      (hcacheId : c'.cachedPeerId = c.cachedPeerId) (hconfig : c'.configManager = c.configManager)
      (hidentity : c'.identity = c.identity) (htape : c'.random.tape = c.random.tape) :
      Creation c id (c', some c.heap.length)

theorem getPeer_lookUp (c : PeerContainer) (id : HusarnetAddress) : LookUp c id (c.getPeer id) := by
  unfold getPeer
  split
  · rename_i hc
    exact .cached hc
  · rename_i hc
    split
    · rename_i hid
      exact .refused hc (Or.inl hid)
    · split
      · rename_i ha
        exact .refused hc (Or.inr (by simpa using ha))
      · rename_i ha
        split
        · rename_i h
          exact .unknown hc h
        · rename_i it h
          exact .found it hc (by simpa using ha) h

theorem createPeer_creation (c : PeerContainer) (id : HusarnetAddress) : Creation c id (c.createPeer id) := by
  unfold createPeer
  split
  · rename_i ha
    exact .refused (by simpa using ha)
  · rename_i ha
    exact .created (by simpa using ha) _ rfl rfl rfl rfl rfl rfl rfl

theorem createPeer_of_allowed {c : PeerContainer} {id : HusarnetAddress} (h : c.configManager.isPeerAllowed id = true) :
    (∃ p : Peer, (c.createPeer id).1.heap = c.heap ++ [p] ∧ p.id = id) ∧
      (c.createPeer id).1.peers = assign c.peers id c.heap.length := by
  have hcreation := createPeer_creation c id
  generalize c.createPeer id = r at hcreation ⊢
  cases hcreation with
  | refused hdenied =>
    rw [h] at hdenied
    cases hdenied
  | created _ c' hheap hpeers => exact ⟨⟨_, hheap, rfl⟩, hpeers⟩

theorem getPeer_none {c : PeerContainer} {id : HusarnetAddress} (h : (c.getPeer id).2 = none) :
    (c.getPeer id).1 = c := by
  generalize hr : c.getPeer id = r at h
  cases (hr ▸ getPeer_lookUp c id : LookUp c id r) with
  | cached hc => rfl
  | refused hc _ => rfl
  | unknown hc _ => rfl
  | found it hc ha hit => cases h

/-- The peer is the one `getPeer` finds, or a new one when it finds none. -/
theorem getOrCreatePeer_cases (c : PeerContainer) (id : HusarnetAddress) :
    ((c.getPeer id).2.isSome = true ∧ c.getOrCreatePeer id = c.getPeer id) ∨
      ((c.getPeer id).2 = none ∧ c.getOrCreatePeer id = c.createPeer id) := by
  unfold getOrCreatePeer
  have hnone := @getPeer_none c id
  generalize c.getPeer id = r at hnone ⊢
  obtain ⟨c', peer⟩ := r
  cases peer with
  | none =>
    have he : c' = c := hnone rfl
    exact Or.inr ⟨rfl, by rw [he]⟩
  | some peer => exact Or.inl ⟨rfl, rfl⟩

theorem getPeer_pointsTo {c : PeerContainer} {id : HusarnetAddress} {peer : PeerRef}
    (h : (c.getPeer id).2 = some peer) : PointsTo c.heap peer id := by
  generalize hr : c.getPeer id = r at h
  cases (hr ▸ getPeer_lookUp c id : LookUp c id r) with
  | cached hc => exact hc ▸ c.cached_valid peer h
  | refused hc _ => cases h
  | unknown hc _ => cases h
  | found it hc ha hit =>
    cases h
    exact c.peers_valid id _ hit

/-- The peer that was found is the cached one. -/
theorem getPeer_cached {c : PeerContainer} {id : HusarnetAddress} {peer : PeerRef} (h : (c.getPeer id).2 = some peer) :
    (c.getPeer id).1.cachedPeerId = id ∧ (c.getPeer id).1.cachedPeer = some peer := by
  generalize hr : c.getPeer id = r at h
  cases (hr ▸ getPeer_lookUp c id : LookUp c id r) with
  | cached hc => exact ⟨hc, h⟩
  | refused hc _ => cases h
  | unknown hc _ => cases h
  | found it hc ha hit => exact ⟨rfl, h⟩

theorem getOrCreatePeer_of_cached {c : PeerContainer} {id : HusarnetAddress} {peer : PeerRef}
    (hid : c.cachedPeerId = id) (hpeer : c.cachedPeer = some peer) : c.getOrCreatePeer id = (c, some peer) := by
  have hget : c.getPeer id = (c, some peer) := by
    rw [getPeer, if_pos hid, hpeer]
  rw [getOrCreatePeer, hget]

theorem getOrCreatePeer_of_known {c : PeerContainer} {id : HusarnetAddress} {peer : PeerRef}
    (h : (c.getPeer id).2 = some peer) : c.getOrCreatePeer id = ((c.getPeer id).1, some peer) := by
  have hget : c.getPeer id = ((c.getPeer id).1, some peer) := Prod.ext rfl h
  rw [getOrCreatePeer, hget]

theorem getPeer_frame (c : PeerContainer) (id : HusarnetAddress) :
    (c.getPeer id).1.configManager = c.configManager ∧ (c.getPeer id).1.identity = c.identity ∧
      (c.getPeer id).1.random = c.random ∧ (c.getPeer id).1.heap = c.heap ∧ (c.getPeer id).1.peers = c.peers := by
  generalize hr : c.getPeer id = r
  cases (hr ▸ getPeer_lookUp c id : LookUp c id r) with
  | cached hc => exact ⟨rfl, rfl, rfl, rfl, rfl⟩
  | refused hc _ => exact ⟨rfl, rfl, rfl, rfl, rfl⟩
  | unknown hc _ => exact ⟨rfl, rfl, rfl, rfl, rfl⟩
  | found it hc ha hit => exact ⟨rfl, rfl, rfl, rfl, rfl⟩

end PeerContainer
end Husarnet
