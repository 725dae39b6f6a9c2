import Husarnet.PeerObjects

/-! # A peer with the node's own id

The look-up refuses the node's own id, and `getOrCreatePeer` takes the null for an absent peer.
Only `isPeerAllowed` stands between the own id and an object of its own.
-/

namespace Husarnet
open Containers Runs
set_option autoImplicit false

namespace PeerContainer

/-- In a run no object has the node's own id, and no call gives one. -/
structure NeverItself (own : HusarnetAddress) (c : PeerContainer) (tr : List (ContainerCall × PeerContainer)) : Prop where
  not_created : ∀ c' ∈ states c tr, ∀ ref, ¬ PointsTo c'.heap ref own
  not_returned : ∀ x ∈ transitions c tr, x.2.1.id = own → (x.2.1.run x.1).2 = none

/-- The call may create a peer, its id is the own one, and the configuration allows it then. -/
def AsksForItself (own : HusarnetAddress) : ContainerCall → Prop
  | .getPeer _ _ => False
  | .getOrCreatePeer _ atCreation id => id = own ∧ atCreation.isPeerAllowed id = true

def HasNone (own : HusarnetAddress) (c : PeerContainer) : Prop := ∀ ref, ¬ PointsTo c.heap ref own

/-! ## One call -/

section Call
variable {own : HusarnetAddress} {c : PeerContainer} {call : ContainerCall}

theorem getPeer_of_hasNone (h : HasNone own c) (atLookUp : ConfigManager) :
    ((c.reconfigure atLookUp).getPeer own).2 = none := by
  cases hlook : ((c.reconfigure atLookUp).getPeer own).2 with
  | none => rfl
  | some ref =>
    have hpoints : PointsTo (c.reconfigure atLookUp).heap ref own := getPeer_pointsTo hlook
    exact absurd hpoints (h ref)

/-- An allowed request for the own id creates the peer. -/
theorem asksForItself_creates (h : HasNone own c) (hasks : AsksForItself own call) : ¬ HasNone own (call.run c).1 := by
  cases call with
  | getPeer _ _ => cases hasks
  | getOrCreatePeer atLookUp atCreation id =>
    obtain ⟨rfl, hallowed⟩ := hasks
    rw [run_of_none (getPeer_of_hasNone h atLookUp)]
    obtain ⟨⟨p, hheap, hid⟩, -⟩ := @createPeer_of_allowed (c.reconfigure atCreation) id hallowed
    intro hnone
    refine hnone c.heap.length ?_
    have hheap : ((c.reconfigure atCreation).createPeer id).1.heap = c.heap ++ [p] := hheap
    rw [PointsTo, hheap, List.getElem?_concat_length, Option.map_some, hid]

/-- A request for the own id that is not allowed gives null. -/
theorem run_own (h : HasNone own c) (hid : call.id = own) (hasks : ¬ AsksForItself own call) :
    (call.run c).1.heap = c.heap ∧ (call.run c).2 = none := by
  cases call with
  | getPeer atLookUp id =>
    have hid : id = own := hid
    subst hid
    obtain ⟨-, -, -, hheap, -⟩ := getPeer_frame (c.reconfigure atLookUp) id
    exact ⟨hheap, getPeer_of_hasNone h atLookUp⟩
  | getOrCreatePeer atLookUp atCreation id =>
    have hid : id = own := hid
    subst hid
    have hdenied : ¬ (c.reconfigure atCreation).configManager.isPeerAllowed id = true := fun ha => hasks ⟨rfl, ha⟩
    rw [run_of_none (getPeer_of_hasNone h atLookUp), createPeer, if_pos (by simpa using hdenied)]
    exact ⟨rfl, rfl⟩

theorem hasNone_run (h : HasNone own c) (hasks : ¬ AsksForItself own call) : HasNone own (call.run c).1 := by
  intro ref hpoints
  by_cases hid : call.id = own
  · rw [(run_own h hid hasks).1] at hpoints
    exact h ref hpoints
  · have heffect := run_callEffect c call
    generalize call.run c = r at heffect hpoints
    cases heffect with
    | kept hheap _ _ =>
      rw [hheap] at hpoints
      exact h ref hpoints
    | created p hp hheap _ _ _ =>
      -- the new object has the id of the call
      rw [PointsTo, hheap, List.getElem?_append] at hpoints
      split at hpoints
      · exact h ref hpoints
      · rw [List.getElem?_singleton] at hpoints
        split at hpoints
        · exact hid (hp.symm.trans (Option.some.inj hpoints))
        · cases hpoints

end Call

/-! ## Runs -/

/-- **The node and itself.** In every run of look-ups and creations from a fresh container, with any
configuration at every look at it, no peer with the node's own id is created and none is returned,
if and only if no call that may create peers is for the own id while the configuration allows it. -/
theorem never_itself_iff (configManager : ConfigManager) (identity : Identity) (tape : Tape)
    (calls : List ContainerCall) :
    let c₀ := new configManager identity tape
    NeverItself identity.deviceId c₀ (trace (fun c call => (ContainerCall.run c call).1) c₀ calls) ↔
      ∀ call ∈ calls, ¬ AsksForItself identity.deviceId call := by
  intro c₀
  generalize htr : trace (fun c call => (ContainerCall.run c call).1) c₀ calls = tr
  have hrun : IsRun (fun c call c' => (ContainerCall.run c call).1 = c') c₀ tr := htr ▸ isRun_trace _ c₀ calls
  have hlabels : (transitions c₀ tr).map (fun x => x.2.1) = calls := by
    rw [map_label_transitions, ← htr, labels_trace]
  constructor
  · intro h call hcall hasks
    rw [← hlabels] at hcall
    obtain ⟨x, hx, rfl⟩ := List.mem_map.mp hcall
    obtain ⟨hsource, hstep⟩ := hrun.of_mem hx
    have hcreated := asksForItself_creates (h.not_created x.1 hsource) hasks
    rw [hstep] at hcreated
    exact hcreated (h.not_created x.2.2 (target_mem_states hx))
  · intro hnone
    have hguard : ∀ x ∈ transitions c₀ tr, ¬ AsksForItself identity.deviceId x.2.1 := by
      intro x hx
      refine hnone x.2.1 ?_
      rw [← hlabels]
      exact List.mem_map_of_mem hx
    have hstates : ∀ c ∈ states c₀ tr, HasNone identity.deviceId c := by
      refine hrun.invariant (G := fun _ call _ => ¬ AsksForItself identity.deviceId call) ?_ ?_ hguard
      · intro ref hpoints
        cases hpoints
      · intro c call c' hi hn hstep
        exact hstep ▸ hasNone_run hi hn
    refine ⟨hstates, fun x hx hid => ?_⟩
    exact (run_own (hstates x.1 (hrun.of_mem hx).1) hid (hguard x hx)).2

/-- With the control plane off, the first request for the own id is answered with a peer. -/
theorem own_peer_created :
    let cm := ConfigManager.new false (clearIdentity 1).deviceId 0 [] []
    let own := (clearIdentity 1).deviceId
    let c₀ := new cm (clearIdentity 1) countingTape
    ¬ NeverItself own c₀ (trace (fun c call => (ContainerCall.run c call).1) c₀ [.getOrCreatePeer cm cm own]) := by
  intro cm own c₀ h
  refine h.not_created _ (mem_states_last ..) 0 ?_
  rw [PointsTo]
  decide +kernel

end PeerContainer
end Husarnet
