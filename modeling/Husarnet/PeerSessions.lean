import Husarnet.PeerContainer

/-! # What happens to peers outside a handshake

Look-ups, draws, changes of the configuration and the writes of every layer but one leave the keys
of a peer alone and can only end a session, never begin one. `Evolves` is any sequence of these;
the handshake is the one that is missing.
-/

namespace Husarnet
open Octets Containers
set_option autoImplicit false

/-- What a peer keeps: its key pair and the session keys. A session may end. -/
structure SessionKept (p p' : Peer) : Prop where
  id : p'.id = p.id
  kxPubkey : p'.kxPubkey = p.kxPubkey
  kxPrivkey : p'.kxPrivkey = p.kxPrivkey
  txKey : p'.txKey = p.txKey
  rxKey : p'.rxKey = p.rxKey
  negotiated : p'.negotiated = true → p.negotiated = true

/-- A write that keeps the session of every peer it may be made to. -/
def KeepsSession (f : Peer → Peer) : Prop := ∀ p, SessionKept p (p.update f)

/-- A peer as `createPeer` makes it, but for the fields that are written later outside a handshake. -/
structure Fresh (tape : Tape) (p : Peer) : Prop where
  kxKeypair : ∃ n, (p.kxPubkey, p.kxPrivkey) = tape.kxKeypair n
  negotiated : p.negotiated = false

namespace SessionKept

theorem refl (p : Peer) : SessionKept p p := ⟨rfl, rfl, rfl, rfl, rfl, fun h => h⟩

theorem trans {p q r : Peer} (h : SessionKept p q) (h' : SessionKept q r) : SessionKept p r where
  id := h'.id.trans h.id
  kxPubkey := h'.kxPubkey.trans h.kxPubkey
  kxPrivkey := h'.kxPrivkey.trans h.kxPrivkey
  txKey := h'.txKey.trans h.txKey
  rxKey := h'.rxKey.trans h.rxKey
  negotiated hn := h.negotiated (h'.negotiated hn)

end SessionKept

theorem Fresh.kept {tape : Tape} {p p' : Peer} (h : Fresh tape p) (hk : SessionKept p p') : Fresh tape p' where
  kxKeypair := by
    obtain ⟨n, hn⟩ := h.kxKeypair
    exact ⟨n, by rw [hk.kxPubkey, hk.kxPrivkey, hn]⟩
  negotiated := by
    by_contra hne
    have hp := hk.negotiated (by simpa using hne)
    rw [h.negotiated] at hp
    cases hp

namespace PeerContainer

/-- What look-ups, draws, reconfigurations and writes that keep sessions make of a container. -/
inductive Evolves : PeerContainer → PeerContainer → Prop where
  | refl (c : PeerContainer) : Evolves c c
  | trans {c c' c'' : PeerContainer} : Evolves c c' → Evolves c' c'' → Evolves c c''
  | draw (c : PeerContainer) : Evolves c c.draw
  | getPeer (c : PeerContainer) (id : HusarnetAddress) : Evolves c (c.getPeer id).1
  | createPeer (c : PeerContainer) (id : HusarnetAddress) (h : (c.getPeer id).2 = none) :
      Evolves c (c.createPeer id).1
  | write (c : PeerContainer) (peer : PeerRef) {f : Peer → Peer} (hf : KeepsSession f) : Evolves c (c.modify peer f)
  | reconfigure (c : PeerContainer) (configManager : ConfigManager) : Evolves c (c.reconfigure configManager)

theorem Evolves.getOrCreatePeer (c : PeerContainer) (id : HusarnetAddress) :
    Evolves c (c.getOrCreatePeer id).1 := by
  rcases getOrCreatePeer_cases c id with ⟨-, he⟩ | ⟨hnone, he⟩
  · rw [he]
    exact .getPeer c id
  · rw [he]
    exact .createPeer c id hnone

theorem getOrCreatePeer_pointsTo {c : PeerContainer} {id : HusarnetAddress} {peer : PeerRef}
    (h : (c.getOrCreatePeer id).2 = some peer) : PointsTo (c.getOrCreatePeer id).1.heap peer id := by
  rcases getOrCreatePeer_cases c id with ⟨-, he⟩ | ⟨-, he⟩
  · rw [he] at h ⊢
    rw [(getPeer_frame c id).2.2.2.1]
    exact getPeer_pointsTo h
  · rw [he] at h ⊢
    generalize hr : c.createPeer id = r at h ⊢
    cases (hr ▸ createPeer_creation c id : Creation c id r) with
    | refused _ => cases h
    | created _ c' hheap =>
      cases h
      rw [hheap, PointsTo, List.getElem?_concat_length]
      rfl

theorem heap_modify (c : PeerContainer) (peer : PeerRef) (f : Peer → Peer) (ref : PeerRef) :
    (c.modify peer f).heap[ref]? = (c.heap[ref]?).map fun p => if peer = ref then p.update f else p := by
  rw [modify, List.getElem?_modify]
  by_cases h : peer = ref
  · simp only [if_pos h]
    rfl
  · simp only [if_neg h, Option.map_id_fun']
    cases c.heap[ref]? <;> rfl

theorem heap_modify_self {c : PeerContainer} {peer : PeerRef} {p : Peer} (hp : c.heap[peer]? = some p)
    (f : Peer → Peer) : (c.modify peer f).heap[peer]? = some (p.update f) := by
  rw [heap_modify, hp, Option.map_some, if_pos rfl]

/-- What every container of a run shares with the first one. -/
structure SameNode (c c' : PeerContainer) : Prop where
  identity : c'.identity = c.identity
  tape : c'.random.tape = c.random.tape

/-- The entries of the heap stay, with their sessions, and the others are new peers. -/
structure KeepsEntries (c c' : PeerContainer) : Prop where
  old (ref : PeerRef) (p : Peer) : c.heap[ref]? = some p → ∃ p', c'.heap[ref]? = some p' ∧ SessionKept p p'
  new (ref : PeerRef) (p' : Peer) : c'.heap[ref]? = some p' →
    (∃ p, c.heap[ref]? = some p ∧ SessionKept p p') ∨ (c.heap[ref]? = none ∧ Fresh c.random.tape p')

/-- At most one entry for `id`, and the map finds it; the cache is empty only before its first use. -/
structure OneEntry (c : PeerContainer) (id : HusarnetAddress) : Prop where
  indexed : ∀ ref p, c.heap[ref]? = some p → p.id = id → get? c.peers id = some ref
  cacheNamed : c.cachedPeer = none → c.cachedPeerId = .invalid

namespace Evolves

theorem sameNode {c c' : PeerContainer} (h : Evolves c c') : SameNode c c' := by
  induction h with
  | refl c => exact ⟨rfl, rfl⟩
  | trans _ _ ih ih' => exact ⟨ih'.identity.trans ih.identity, ih'.tape.trans ih.tape⟩
  | draw c => exact ⟨rfl, rfl⟩
  | getPeer c id =>
    obtain ⟨-, hid, hr, -, -⟩ := getPeer_frame c id
    exact ⟨hid, congrArg Random.tape hr⟩
  | createPeer c id h =>
    generalize hr : c.createPeer id = r
    cases (hr ▸ createPeer_creation c id : Creation c id r) with
    | refused _ => exact ⟨rfl, rfl⟩
    | created _ c' _ _ _ _ _ hidentity htape => exact ⟨hidentity, htape⟩
  | write c peer hf => exact ⟨rfl, rfl⟩
  | reconfigure c cm => exact ⟨rfl, rfl⟩

end Evolves

theorem KeepsEntries.of_heap_eq {c c' : PeerContainer} (h : c'.heap = c.heap) : KeepsEntries c c' := by
  constructor
  · intro ref p hp
    exact ⟨p, h ▸ hp, .refl p⟩
  · intro ref p hp
    exact Or.inl ⟨p, h ▸ hp, .refl p⟩

theorem KeepsEntries.trans {c c' c'' : PeerContainer} (h : KeepsEntries c c') (h' : KeepsEntries c' c'')
    (hn : SameNode c c') : KeepsEntries c c'' where
  old ref p hp := by
    obtain ⟨p', hp', hk⟩ := h.old ref p hp
    obtain ⟨p'', hp'', hk'⟩ := h'.old ref p' hp'
    exact ⟨p'', hp'', hk.trans hk'⟩
  new ref p'' hp'' := by
    rcases h'.new ref p'' hp'' with ⟨p', hp', hk'⟩ | ⟨hnone, hf⟩
    · rcases h.new ref p' hp' with ⟨p, hp, hk⟩ | ⟨hnone, hf⟩
      · exact Or.inl ⟨p, hp, hk.trans hk'⟩
      · exact Or.inr ⟨hnone, hf.kept hk'⟩
    · refine Or.inr ⟨?_, hn.tape ▸ hf⟩
      cases hp : c.heap[ref]? with
      | none => rfl
      | some p =>
        obtain ⟨p', hp', -⟩ := h.old ref p hp
        rw [hnone] at hp'
        cases hp'

/-- No peer has the id when a look-up that may create one finds none. -/
theorem OneEntry.none_of_getPeer {c : PeerContainer} {id : HusarnetAddress} (ho : OneEntry c id)
    (hid : id ≠ c.identity.deviceId) (hvalid : id ≠ .invalid) (hallowed : c.configManager.isPeerAllowed id = true)
    (h : (c.getPeer id).2 = none) : ∀ (ref : PeerRef) (p : Peer), c.heap[ref]? = some p → p.id ≠ id := by
  intro ref p hp hpid
  have hindexed := ho.indexed ref p hp hpid
  generalize hr : c.getPeer id = r at h
  cases (hr ▸ getPeer_lookUp c id : LookUp c id r) with
  | cached hc => exact hvalid (hc ▸ ho.cacheNamed h)
  | refused _ hrefused =>
    rcases hrefused with hown | hdenied
    · exact hid hown
    · rw [hallowed] at hdenied
      cases hdenied
  | unknown _ hget =>
    rw [hget] at hindexed
    cases hindexed
  | found it _ _ _ => cases h

theorem OneEntry.getPeer {c : PeerContainer} {id : HusarnetAddress} (ho : OneEntry c id) (id' : HusarnetAddress) :
    OneEntry (c.getPeer id').1 id := by
  generalize hr : c.getPeer id' = r
  cases (hr ▸ getPeer_lookUp c id' : LookUp c id' r) with
  | cached _ => exact ho
  | refused _ _ => exact ho
  | unknown _ _ => exact ho
  | found it _ _ _ => exact ⟨ho.indexed, fun h => by cases h⟩

theorem OneEntry.createPeer {c : PeerContainer} {id : HusarnetAddress} (ho : OneEntry c id)
    (hid : id ≠ c.identity.deviceId) (hvalid : id ≠ .invalid) {id' : HusarnetAddress}
    (h : (c.getPeer id').2 = none) : OneEntry (c.createPeer id').1 id := by
  generalize hr : c.createPeer id' = r
  cases (hr ▸ createPeer_creation c id' : Creation c id' r) with
  | refused _ => exact ho
  | created ha c' hheap hpeers hcache hcacheId =>
    refine ⟨?_, fun hnone => by rw [hcacheId]; exact ho.cacheNamed (hcache ▸ hnone)⟩
    intro ref p hp hpid
    rw [hheap, List.getElem?_append] at hp
    rw [hpeers, get?_assign]
    split at hp
    · -- an old entry: the new one has another id
      by_cases he : id = id'
      · subst he
        exact absurd hpid (ho.none_of_getPeer hid hvalid ha h ref p hp)
      · rw [if_neg he]
        exact ho.indexed ref p hp hpid
    · rename_i hge
      rw [List.getElem?_singleton] at hp
      split at hp
      · rename_i hz
        cases hp
        have hlen : c.heap.length ≤ ref := not_lt.mp hge
        rw [if_pos hpid.symm, Option.some.injEq]
        exact Nat.le_antisymm hlen (Nat.sub_eq_zero_iff_le.mp hz)
      · cases hp

namespace Evolves

theorem keepsEntries {c c' : PeerContainer} (h : Evolves c c') : KeepsEntries c c' := by
  induction h with
  | refl c => exact .of_heap_eq rfl
  | trans h₁ _ ih ih' => exact ih.trans ih' h₁.sameNode
  | draw c => exact .of_heap_eq rfl
  | getPeer c id => exact .of_heap_eq (getPeer_frame c id).2.2.2.1
  | createPeer c id h =>
    generalize hr : c.createPeer id = r
    cases (hr ▸ createPeer_creation c id : Creation c id r) with
    | refused _ => exact .of_heap_eq rfl
    | created _ c' hheap =>
      constructor
      · intro ref p hp
        refine ⟨p, ?_, .refl p⟩
        rw [hheap, List.getElem?_append_left (List.getElem?_eq_some_iff.mp hp).1]
        exact hp
      · intro ref p' hp'
        rw [hheap, List.getElem?_append] at hp'
        split at hp'
        · exact Or.inl ⟨p', hp', .refl p'⟩
        · rename_i hge
          refine Or.inr ⟨List.getElem?_eq_none (not_lt.mp hge), ?_⟩
          rw [List.getElem?_singleton] at hp'
          split at hp'
          · cases hp'
            exact ⟨⟨_, rfl⟩, rfl⟩
          · cases hp'
  | write c peer hf =>
    rename_i f
    constructor
    · intro ref p hp
      rw [heap_modify, hp]
      by_cases hr : peer = ref
      · exact ⟨_, by rw [Option.map_some, if_pos hr], hf p⟩
      · exact ⟨_, by rw [Option.map_some, if_neg hr], .refl p⟩
    · intro ref p' hp'
      rw [heap_modify, Option.map_eq_some_iff] at hp'
      obtain ⟨p, hp, rfl⟩ := hp'
      refine Or.inl ⟨p, hp, ?_⟩
      by_cases hr : peer = ref
      · rw [if_pos hr]
        exact hf p
      · rw [if_neg hr]
        exact .refl p
  | reconfigure c cm => exact .of_heap_eq rfl

/-- The only entry for another node stays the only one. -/
theorem oneEntry {c c' : PeerContainer} (h : Evolves c c') {id : HusarnetAddress} (hid : id ≠ c.identity.deviceId)
    (hvalid : id ≠ .invalid) (ho : OneEntry c id) : OneEntry c' id := by
  induction h with
  | refl c => exact ho
  | trans h₁ _ ih ih' => exact ih' (h₁.sameNode.identity ▸ hid) (ih hid ho)
  | draw c => exact ⟨ho.indexed, ho.cacheNamed⟩
  | getPeer c id' => exact ho.getPeer id'
  | createPeer c id' h => exact ho.createPeer hid hvalid h
  | write c peer hf =>
    refine ⟨?_, ho.cacheNamed⟩
    intro ref p' hp' hpid
    rw [heap_modify, Option.map_eq_some_iff] at hp'
    obtain ⟨p, hp, rfl⟩ := hp'
    refine ho.indexed ref p hp ?_
    split at hpid
    · exact hpid
    · exact hpid
  | reconfigure c cm => exact ⟨ho.indexed, ho.cacheNamed⟩

end Evolves
end PeerContainer
end Husarnet
