import Husarnet.PeerContainer
import Husarnet.Lib.Runs

/-! # One peer object for each id

`getPeer` gives null for an id that the map has when the id is the node's own, when it is not
allowed at the moment, or when it is the one the empty cache starts with. `getOrCreatePeer` takes
every null for an absent peer and creates one. Here the configuration is another one at each look
at it, also between the two halves of one call.
-/

namespace Husarnet
open Containers Runs
set_option autoImplicit false

namespace PeerContainer

/-- A call, with the configuration that its look-up and its creation find. -/
inductive ContainerCall where
  | getPeer (atLookUp : ConfigManager) (id : HusarnetAddress)
  | getOrCreatePeer (atLookUp atCreation : ConfigManager) (id : HusarnetAddress)

namespace ContainerCall

def id : ContainerCall → HusarnetAddress
  | getPeer _ id => id
  | getOrCreatePeer _ _ id => id

/-- The container and the result of the call. -/
def run (c : PeerContainer) : ContainerCall → PeerContainer × Option PeerRef
  | getPeer atLookUp id => (c.reconfigure atLookUp).getPeer id
  | getOrCreatePeer atLookUp atCreation id =>
    match (c.reconfigure atLookUp).getPeer id with
    | (c, none) => (c.reconfigure atCreation).createPeer id
    | (c, some peer) => (c, some peer)

end ContainerCall

/-- The call creates a peer for an id that the map has: the look-up gives null although there is
an entry, and the id is allowed when the peer is created. -/
def Recreates (c : PeerContainer) : ContainerCall → Prop
  | .getPeer _ _ => False
  | .getOrCreatePeer atLookUp atCreation id =>
    (get? c.peers id).isSome = true ∧ atCreation.isPeerAllowed id = true ∧
      ((c.cachedPeerId = id ∧ c.cachedPeer = none) ∨
        (c.cachedPeerId ≠ id ∧ (id = c.identity.deviceId ∨ atLookUp.isPeerAllowed id = false)))

/-- In a run, no id has two objects, no entry of the map changes, and results for one id agree. -/
structure OneObjectPerId (c : PeerContainer) (tr : List (ContainerCall × PeerContainer)) : Prop where
  created_once : ∀ c' ∈ states c tr, ∀ id ref ref', PointsTo c'.heap ref id → PointsTo c'.heap ref' id → ref = ref'
  never_overwritten : ∀ x ∈ transitions c tr, ∀ id ref, get? x.1.peers id = some ref → get? x.2.2.peers id = some ref
  same_object : ∀ x ∈ transitions c tr, ∀ y ∈ transitions c tr, x.2.1.id = y.2.1.id → ∀ ref ref',
    (x.2.1.run x.1).2 = some ref → (y.2.1.run y.1).2 = some ref' → ref = ref'

/-- Every object is the one the map has for its id. -/
def Indexed (c : PeerContainer) : Prop := ∀ id ref, PointsTo c.heap ref id → get? c.peers id = some ref

/-- What a call does: nothing to heap and map, or it creates a peer for the id. -/
inductive CallEffect (c : PeerContainer) (call : ContainerCall) (r : PeerContainer × Option PeerRef) : Prop where
  | kept (hheap : r.1.heap = c.heap) (hpeers : r.1.peers = c.peers)
      (hresult : ∀ ref, r.2 = some ref → PointsTo c.heap ref call.id)
  | created (p : Peer) (hid : p.id = call.id) (hheap : r.1.heap = c.heap ++ [p])
      (hpeers : r.1.peers = assign c.peers call.id c.heap.length) (hresult : r.2 = some c.heap.length)
      (hagain : (get? c.peers call.id).isSome = true → Recreates c call)

theorem run_of_none {c : PeerContainer} {atLookUp atCreation : ConfigManager} {id : HusarnetAddress}
    (h : ((c.reconfigure atLookUp).getPeer id).2 = none) :
    (ContainerCall.getOrCreatePeer atLookUp atCreation id).run c = (c.reconfigure atCreation).createPeer id := by
  have hsame := getPeer_none h
  rw [ContainerCall.run]
  generalize (c.reconfigure atLookUp).getPeer id = r at h hsame ⊢
  obtain ⟨c', peer⟩ := r
  cases h
  cases hsame
  rfl

theorem run_of_some {c : PeerContainer} {atLookUp atCreation : ConfigManager} {id : HusarnetAddress} {ref : PeerRef}
    (h : ((c.reconfigure atLookUp).getPeer id).2 = some ref) :
    (ContainerCall.getOrCreatePeer atLookUp atCreation id).run c = (c.reconfigure atLookUp).getPeer id := by
  rw [ContainerCall.run]
  generalize (c.reconfigure atLookUp).getPeer id = r at h ⊢
  obtain ⟨c', peer⟩ := r
  cases h
  rfl

theorem getPeer_callEffect (c : PeerContainer) (atLookUp : ConfigManager) (call : ContainerCall) :
    CallEffect c call ((c.reconfigure atLookUp).getPeer call.id) := by
  obtain ⟨-, -, -, hheap, hpeers⟩ := getPeer_frame (c.reconfigure atLookUp) call.id
  refine .kept hheap hpeers fun ref h => ?_
  have hpoints : PointsTo (c.reconfigure atLookUp).heap ref call.id := getPeer_pointsTo h
  exact hpoints

theorem run_callEffect (c : PeerContainer) (call : ContainerCall) : CallEffect c call (call.run c) := by
  cases call with
  | getPeer atLookUp id => exact getPeer_callEffect c atLookUp (.getPeer atLookUp id)
  | getOrCreatePeer atLookUp atCreation id =>
    cases hlook : ((c.reconfigure atLookUp).getPeer id).2 with
    | some ref =>
      rw [run_of_some hlook]
      exact getPeer_callEffect c atLookUp (.getOrCreatePeer atLookUp atCreation id)
    | none =>
      rw [run_of_none hlook]
      generalize hr : (c.reconfigure atCreation).createPeer id = r
      cases (hr ▸ createPeer_creation (c.reconfigure atCreation) id : Creation (c.reconfigure atCreation) id r) with
      | refused _ => exact .kept rfl rfl fun ref h => by cases h
      | created hallowed c' hheap hpeers =>
        refine .created _ rfl hheap hpeers rfl fun hsome => ⟨hsome, hallowed, ?_⟩
        have hsome : (get? c.peers id).isSome = true := hsome
        -- why the look-up gave null: the id is in the map, so it was not for want of an entry
        generalize hl : (c.reconfigure atLookUp).getPeer id = l at hlook
        cases (hl ▸ getPeer_lookUp (c.reconfigure atLookUp) id : LookUp (c.reconfigure atLookUp) id l) with
        | cached hc => exact Or.inl ⟨hc, hlook⟩
        | refused hc hrefused => exact Or.inr ⟨hc, hrefused⟩
        | unknown hc hnone =>
          have hmap : get? c.peers id = none := hnone
          rw [hmap] at hsome
          cases hsome
        | found it _ _ _ => cases hlook

/-- A peer that is created again takes the place of the first one. -/
theorem recreates_overwrites {c : PeerContainer} {call : ContainerCall} (h : Recreates c call) :
    ∃ ref, get? c.peers call.id = some ref ∧ get? (call.run c).1.peers call.id ≠ some ref := by
  cases call with
  | getPeer atLookUp id => cases h
  | getOrCreatePeer atLookUp atCreation id =>
    obtain ⟨hsome, hallowed, hnull⟩ := h
    obtain ⟨ref, hget⟩ := Option.isSome_iff_exists.mp hsome
    have hlook : ((c.reconfigure atLookUp).getPeer id).2 = none := by
      rcases hnull with ⟨hc, hnone⟩ | ⟨hc, hrefused⟩
      · have hc : (c.reconfigure atLookUp).cachedPeerId = id := hc
        rw [getPeer, if_pos hc]
        exact hnone
      · have hc : (c.reconfigure atLookUp).cachedPeerId ≠ id := hc
        rw [getPeer, if_neg hc]
        by_cases hown : id = (c.reconfigure atLookUp).identity.deviceId
        · rw [if_pos hown]
        · rw [if_neg hown, if_pos]
          have hdenied := hrefused.resolve_left hown
          show (!atLookUp.isPeerAllowed id) = true
          rw [hdenied]
          rfl
    refine ⟨ref, hget, ?_⟩
    rw [run_of_none hlook]
    have hpeers : ((c.reconfigure atCreation).createPeer id).1.peers = assign c.peers id c.heap.length :=
      (createPeer_of_allowed hallowed).2
    show get? ((c.reconfigure atCreation).createPeer id).1.peers id ≠ some ref
    rw [hpeers, get?_assign_self]
    intro he
    cases he
    -- the first one was allocated before
    have hpoints := c.peers_valid id _ hget
    rw [PointsTo, List.getElem?_eq_none le_rfl] at hpoints
    cases hpoints

/-! ## A call that creates no peer again -/

theorem indexed_run {c : PeerContainer} {call : ContainerCall} (hi : Indexed c) (hn : ¬ Recreates c call) :
    Indexed (call.run c).1 := by
  have heffect := run_callEffect c call
  generalize call.run c = r at heffect
  cases heffect with
  | kept hheap hpeers _ =>
    intro id ref hp
    rw [hpeers]
    exact hi id ref (hheap ▸ hp)
  | created p hid hheap hpeers _ hagain =>
    intro id ref hp
    rw [PointsTo, hheap, List.getElem?_append] at hp
    rw [hpeers, get?_assign]
    split at hp
    · have hold := hi id ref hp
      by_cases he : id = call.id
      · rw [he] at hold
        exact absurd (hagain (by rw [hold]; rfl)) hn
      · rw [if_neg he]
        exact hold
    · rename_i hge
      rw [List.getElem?_singleton] at hp
      split at hp
      · rename_i hz
        have hpid : p.id = id := Option.some.inj hp
        have hlen : c.heap.length ≤ ref := not_lt.mp hge
        rw [if_pos (hpid.symm.trans hid), Option.some.injEq]
        exact Nat.le_antisymm hlen (Nat.sub_eq_zero_iff_le.mp hz)
      · cases hp

theorem entries_kept {c : PeerContainer} {call : ContainerCall} (hn : ¬ Recreates c call) {id : HusarnetAddress}
    {ref : PeerRef} (h : get? c.peers id = some ref) : get? (call.run c).1.peers id = some ref := by
  have heffect := run_callEffect c call
  generalize call.run c = r at heffect
  cases heffect with
  | kept _ hpeers _ => rwa [hpeers]
  | created p _ _ hpeers _ hagain =>
    rw [hpeers, get?_assign]
    by_cases he : id = call.id
    · rw [he] at h
      exact absurd (hagain (by rw [h]; rfl)) hn
    · rwa [if_neg he]

/-- A result is the object that the map has for the id then. -/
theorem result_indexed {c : PeerContainer} {call : ContainerCall} (hi : Indexed c) {ref : PeerRef}
    (h : (call.run c).2 = some ref) : get? (call.run c).1.peers call.id = some ref := by
  have heffect := run_callEffect c call
  generalize call.run c = r at heffect h
  cases heffect with
  | kept _ hpeers hresult =>
    rw [hpeers]
    exact hi _ _ (hresult ref h)
  | created p _ _ hpeers hresult _ =>
    rw [hresult] at h
    cases h
    rw [hpeers]
    exact get?_assign_self ..

/-- **One object per id.** In every run of look-ups and creations from a fresh container, with the
configuration another one at every look at it: no id gets a second object, no entry of the map is
overwritten and all results for an id agree, if and only if no call creates a peer for an id that
the map has. -/
theorem one_object_iff (configManager : ConfigManager) (identity : Identity) (tape : Tape)
    (calls : List ContainerCall) :
    let c₀ := new configManager identity tape
    let tr := trace (fun c call => (ContainerCall.run c call).1) c₀ calls
    OneObjectPerId c₀ tr ↔ ∀ x ∈ transitions c₀ tr, ¬ Recreates x.1 x.2.1 := by
  intro c₀ tr
  have hrun : IsRun (fun c call c' => (ContainerCall.run c call).1 = c') c₀ tr := isRun_trace _ c₀ calls
  constructor
  · intro h x hx hagain
    obtain ⟨ref, hget, hother⟩ := recreates_overwrites hagain
    rw [(hrun.of_mem hx).2] at hother
    exact hother (h.never_overwritten x hx _ ref hget)
  · intro hnone
    have hindexed : ∀ c ∈ states c₀ tr, Indexed c := by
      refine hrun.invariant (G := fun c call _ => ¬ Recreates c call) ?_ ?_ hnone
      · intro id ref hp
        cases hp
      · intro c call c' hi hn hstep
        exact hstep ▸ indexed_run hi hn
    have hkept : ∀ x ∈ transitions c₀ tr, ∀ id ref, get? x.1.peers id = some ref →
        get? x.2.2.peers id = some ref := by
      intro x hx id ref hget
      rw [← (hrun.of_mem hx).2]
      exact entries_kept (hnone x hx) hget
    -- a result is the entry of the map at the end of the run
    have hresult : ∀ x ∈ transitions c₀ tr, ∀ ref, (x.2.1.run x.1).2 = some ref →
        get? (last c₀ tr).peers x.2.1.id = some ref := by
      intro x hx ref hres
      have hentry := result_indexed (hindexed x.1 (hrun.of_mem hx).1) hres
      rw [(hrun.of_mem hx).2] at hentry
      exact persists (P := fun c => get? c.peers x.2.1.id = some ref) (fun y hy h => hkept y hy _ _ h)
        (Or.inr ⟨x, hx, hentry⟩)
    refine ⟨?_, hkept, ?_⟩
    · intro c hc id ref ref' hp hp'
      have hget := hindexed c hc id ref hp
      rw [hindexed c hc id ref' hp'] at hget
      exact (Option.some.inj hget).symm
    · intro x hx y hy hid ref ref' hres hres'
      have hget := hresult x hx ref hres
      rw [hid, hresult y hy ref' hres'] at hget
      exact (Option.some.inj hget).symm

/-- With the control plane off the node's own id is allowed, and each call makes it a new object. -/
theorem own_id_created_twice :
    let cm := ConfigManager.new false (clearIdentity 1).deviceId 0 [] []
    let id := (clearIdentity 1).deviceId
    let c₀ := new cm (clearIdentity 1) countingTape
    ¬ OneObjectPerId c₀ (trace (fun c call => (ContainerCall.run c call).1) c₀
      [.getOrCreatePeer cm cm id, .getOrCreatePeer cm cm id]) := by
  intro cm id c₀ h
  have hsame := h.created_once _ (mem_states_last ..) id 0 1 (by rw [PointsTo]; decide +kernel)
    (by rw [PointsTo]; decide +kernel)
  cases hsame

end PeerContainer
end Husarnet
