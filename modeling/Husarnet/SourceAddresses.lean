import Husarnet.Lib.TwoWayIndex
import Husarnet.NodeHistory

/-! # The index of source addresses

Data packets name no sender: they are attributed to the peer that `peerSourceAddresses` has for
their source. The map and the sets of the peers are two sides of one index, which hellos write. A
hello can evict one address, take its own from another peer and add it, in this order.
-/

namespace Husarnet
open Octets Containers PeerContainer Runs TwoWayIndex
set_option autoImplicit false

namespace Node

/-- Both sides of the index agree, and no peer has more addresses than it may. -/
structure SourceIndex (n : Node) : Prop where
  consistent : Consistent n.findPeerBySourceAddress n.sources
  bounded (peer : PeerRef) : (n.sources peer).length ≤ MAX_SOURCE_ADDRESSES

structure SameSources (n n' : Node) : Prop where
  findPeer : n'.findPeerBySourceAddress = n.findPeerBySourceAddress
  sources : n'.sources = n.sources

theorem SourceIndex.of_same {n n' : Node} (hi : n.SourceIndex) (h : SameSources n n') : n'.SourceIndex := by
  obtain ⟨hf, hs⟩ := h
  constructor
  · rw [hf, hs]
    exact hi.consistent
  · rw [hs]
    exact hi.bounded

theorem sourceIndex_new (configManager : ConfigManager) (identity : Identity) (tape : Tape) (myFlags : PeerFlags)
    (boot : UInt64) (userAgent : Bytes) (workerQueueSize : ℕ) (sourcePort : UInt16) :
    (new configManager identity tape myFlags boot userAgent workerQueueSize sourcePort).SourceIndex :=
  ⟨.empty, fun _ => Nat.zero_le _⟩

/-! ## Routine steps -/

def SetKept (p p' : Peer) : Prop := p'.sourceAddresses = p.sourceAddresses

theorem SetKept.refl (p : Peer) : SetKept p p := rfl

theorem SetKept.trans {p q r : Peer} (h : SetKept p q) (h' : SetKept q r) : SetKept p r := Eq.trans h' h

theorem SameSources.of_kept {n n' : Node} (hp : Kept SetKept n.peerContainer n'.peerContainer)
    (hi : n'.peerSourceAddresses = n.peerSourceAddresses) : SameSources n n' where
  findPeer := by
    funext s
    rw [findPeerBySourceAddress, hi, findPeerBySourceAddress]
  sources := funext hp.peer

theorem SameSources.of_pathsKept {n n' : Node} (hp : PathsKept n.peerContainer n'.peerContainer)
    (hi : n'.peerSourceAddresses = n.peerSourceAddresses) : SameSources n n' :=
  .of_kept (hp.mono PathKept.sourceAddresses) hi

theorem sameSources_attempted (S : Sodium) (now : Time) (n : Node) (peer : PeerRef) :
    SameSources n (n.attemptReestablish S now peer) := by
  obtain ⟨hc, hi, -⟩ := attemptReestablish_frame S now n peer
  have hdraw : Kept SetKept n.peerContainer n.peerContainer.draw :=
    .of_heap_eq SetKept.refl rfl rfl
  refine .of_kept ?_ hi
  rw [hc]
  exact hdraw.trans (.modify SetKept.refl _ peer fun _ => rfl) SetKept.trans

theorem sameSources_routine {S : Sodium} {n n' : Node} (h : Routinely S n n') : SameSources n n' := by
  refine h.relates (R := SameSources) (fun _ => ⟨rfl, rfl⟩) (fun _ _ _ h h' => ?_) fun n c n' hc h => ?_
  · exact ⟨h'.findPeer.trans h.findPeer, h'.sources.trans h.sources⟩
  · cases h with
    | note hs _ hi _ =>
      have hsame : n'.peerContainer = n.peerContainer := congrArg SecurityLayer.peerContainer hs
      exact .of_pathsKept (hsame ▸ (PeersKept.refl _).paths) hi
    | transmit _ _ => exact ⟨rfl, rfl⟩
    | container _ _ hp => exact .of_pathsKept hp rfl
    | attempted now _ peer => exact sameSources_attempted S now n peer
    | queued _ _ _ _ => cases hc
    | claimed _ _ _ _ => cases hc
    | replied _ _ _ _ _ => cases hc

/-! ## Writes to the index -/

theorem SourceIndex.allocated {n : Node} {s : InetAddress} {peer : PeerRef} (h : s ∈ n.sources peer) :
    n.peerContainer.Allocated peer := by
  by_contra ha
  rw [sources, deref, deref_of_not_allocated ha] at h
  cases h

theorem sources_setSources {n : Node} {peer : PeerRef} (ha : n.peerContainer.Allocated peer)
    (f : List InetAddress → List InetAddress) :
    (n.setSources peer f).sources = Function.update n.sources peer (f (n.sources peer)) := by
  funext other
  by_cases ho : other = peer
  · subst ho
    rw [Function.update_self]
    exact congrArg Peer.sourceAddresses (deref_modify_self ha _)
  · rw [Function.update_of_ne ho]
    exact congrArg Peer.sourceAddresses (deref_modify_ne _ (Ne.symm ho) _)

theorem findPeer_assign (n : Node) (source : InetAddress) (peer : PeerRef) :
    { n with peerSourceAddresses := assign n.peerSourceAddresses source peer }.findPeerBySourceAddress =
      Function.update n.findPeerBySourceAddress source (some peer) := by
  funext s
  rw [findPeerBySourceAddress, get?_assign, Function.update_apply, findPeerBySourceAddress]

theorem findPeer_erase (n : Node) (source : InetAddress) :
    { n with peerSourceAddresses := eraseKey n.peerSourceAddresses source }.findPeerBySourceAddress =
      Function.update n.findPeerBySourceAddress source none := by
  funext s
  rw [findPeerBySourceAddress, get?_eraseKey, Function.update_apply, findPeerBySourceAddress]

theorem removeSourceAddress_index {n : Node} (hi : n.SourceIndex) {peer : PeerRef} {address : InetAddress}
    (h : address ∈ n.sources peer) : (n.removeSourceAddress peer address).SourceIndex ∧
      (n.removeSourceAddress peer address).findPeerBySourceAddress =
        Function.update n.findPeerBySourceAddress address none ∧
      (n.removeSourceAddress peer address).sources =
        Function.update n.sources peer ((n.sources peer).erase address) := by
  have hsources : (n.removeSourceAddress peer address).sources = _ :=
    sources_setSources (SourceIndex.allocated h) fun addresses => addresses.erase address
  have hfind : (n.removeSourceAddress peer address).findPeerBySourceAddress = _ := findPeer_erase _ address
  refine ⟨⟨?_, fun other => ?_⟩, hfind, hsources⟩
  · rw [hfind, hsources]
    exact hi.consistent.release h
  · rw [hsources]
    by_cases ho : other = peer
    · subst ho
      rw [Function.update_self]
      exact List.length_erase_le.trans (hi.bounded other)
    · rw [Function.update_of_ne ho]
      exact hi.bounded other

/-! ## A claim -/

/-- The address that `rand` picks among those of a peer. -/
def randomSourceAddress (n : Node) (peer : PeerRef) : InetAddress :=
  (n.sources peer).getD
    (n.peerContainer.random.tape.rand n.peerContainer.random.draws % (n.sources peer).length) default

/-- The address that a peer has to give up for a new one. -/
def evicted (n : Node) (peer : PeerRef) (source : InetAddress) : Option InetAddress :=
  if source ∉ n.sources peer ∧ (n.sources peer).length ≥ MAX_SOURCE_ADDRESSES then some (n.randomSourceAddress peer)
  else none

theorem randomSourceAddress_mem {n : Node} {peer : PeerRef} (h : 0 < (n.sources peer).length) :
    n.randomSourceAddress peer ∈ n.sources peer := by
  rw [randomSourceAddress, List.getD_eq_getElem?_getD, List.getElem?_eq_getElem (Nat.mod_lt _ h)]
  exact List.getElem_mem _

/-- What the node is before the address is added. -/
structure RoomMade (n : Node) (peer : PeerRef) (n' : Node) : Prop where
  index : n'.SourceIndex
  allocated : n.peerContainer.Allocated peer → n'.peerContainer.Allocated peer
  room : (n'.sources peer).length < MAX_SOURCE_ADDRESSES
  subset : ∀ s ∈ n'.sources peer, s ∈ n.sources peer
  findPeer (s : InetAddress) : n'.findPeerBySourceAddress s =
    if (n.sources peer).length ≥ MAX_SOURCE_ADDRESSES ∧ n.randomSourceAddress peer = s then none
    else n.findPeerBySourceAddress s

theorem makeRoom_roomMade {n : Node} (hi : n.SourceIndex) (peer : PeerRef) : RoomMade n peer (n.makeRoom peer) := by
  rw [makeRoom]
  by_cases hfull : (n.sources peer).length ≥ MAX_SOURCE_ADDRESSES
  · rw [if_pos hfull]
    have hpos : 0 < (n.sources peer).length := lt_of_lt_of_le (by decide) hfull
    -- the draw changes neither side
    have hdrawn : (n.withContainer n.peerContainer.draw).SourceIndex := hi.of_same ⟨rfl, rfl⟩
    have hmem : n.randomSourceAddress peer ∈ n.sources peer := randomSourceAddress_mem hpos
    have hmemDrawn : n.randomSourceAddress peer ∈ (n.withContainer n.peerContainer.draw).sources peer := hmem
    obtain ⟨hindex, hfind, hsources⟩ := removeSourceAddress_index hdrawn hmemDrawn
    have hset : (n.removeRandomSourceAddress peer).sources peer = (n.sources peer).erase (n.randomSourceAddress peer) :=
      (congrFun hsources peer).trans (Function.update_self ..)
    refine ⟨hindex, fun ha => ?_, ?_, fun s hs => ?_, fun s => ?_⟩
    · have hdraw : (n.withContainer n.peerContainer.draw).peerContainer.Allocated peer := ha
      exact allocated_setSources hdraw peer fun addresses => addresses.erase (n.randomSourceAddress peer)
    · rw [hset, List.length_erase_of_mem hmem]
      exact lt_of_lt_of_le (Nat.sub_lt hpos Nat.one_pos) (hi.bounded peer)
    · rw [hset] at hs
      exact List.mem_of_mem_erase hs
    · have hs : (n.removeRandomSourceAddress peer).findPeerBySourceAddress s =
          if s = n.randomSourceAddress peer then none else n.findPeerBySourceAddress s :=
        (congrFun hfind s).trans (Function.update_apply ..)
      rw [hs]
      simp only [hfull, true_and, eq_comm]
  · rw [if_neg hfull]
    refine ⟨hi, fun ha => ha, not_le.mp hfull, fun s hs => hs, fun s => ?_⟩
    rw [if_neg fun h => hfull h.1]

theorem findPeer_insertSourceAddress (n : Node) (peer : PeerRef) (source : InetAddress) :
    (n.insertSourceAddress peer source).findPeerBySourceAddress =
      Function.update n.findPeerBySourceAddress source (some peer) := by
  have hmap : (n.insertSourceAddress peer source).peerSourceAddresses = assign n.peerSourceAddresses source peer := by
    unfold insertSourceAddress
    dsimp only
    split
    · rfl
    · rfl
  rw [← findPeer_assign]
  funext s
  rw [findPeerBySourceAddress, hmap, findPeerBySourceAddress]

theorem sources_insertSourceAddress {n : Node} (hi : n.SourceIndex) {peer : PeerRef} (ha : n.peerContainer.Allocated peer)
    {source : InetAddress} (hnew : source ∉ n.sources peer) : (n.insertSourceAddress peer source).sources =
      fun q => if q = peer then n.sources peer ++ [source] else (n.sources q).erase source := by
  have hadd := sources_setSources ha fun addresses => addresses ++ [source]
  cases hlast : get? n.peerSourceAddresses source with
  | none =>
    have hnone : get? (n.setSources peer fun addresses => addresses ++ [source]).peerSourceAddresses source = none := hlast
    have hinsert : (n.insertSourceAddress peer source).sources =
        (n.setSources peer fun addresses => addresses ++ [source]).sources := by
      simp only [insertSourceAddress, hnone]
      rfl
    rw [hinsert, hadd]
    funext q
    rw [Function.update_apply]
    split
    · rfl
    · -- nobody had the address
      refine (List.erase_of_not_mem fun hm => ?_).symm
      have hq := (hi.consistent.owner_iff source q).mpr hm
      rw [findPeerBySourceAddress, hlast] at hq
      cases hq
  | some lastPeer =>
    have hmem : source ∈ n.sources lastPeer := (hi.consistent.owner_iff source lastPeer).mp hlast
    have hne : lastPeer ≠ peer := fun he => hnew (he ▸ hmem)
    have hsome : get? (n.setSources peer fun addresses => addresses ++ [source]).peerSourceAddresses source =
        some lastPeer := hlast
    have hinsert : (n.insertSourceAddress peer source).sources =
        ((n.setSources peer fun addresses => addresses ++ [source]).setSources lastPeer
          fun addresses => addresses.erase source).sources := by
      simp only [insertSourceAddress, hsome]
      rfl
    have hla := allocated_setSources (SourceIndex.allocated hmem) peer fun addresses => addresses ++ [source]
    rw [hinsert, sources_setSources hla, hadd]
    funext q
    by_cases hq : q = peer
    · subst hq
      rw [if_pos rfl, Function.update_of_ne hne.symm, Function.update_self]
    · rw [if_neg hq]
      by_cases hl : q = lastPeer
      · subst hl
        rw [Function.update_self, Function.update_of_ne hq]
      · -- only the last peer had it
        rw [Function.update_of_ne hl, Function.update_of_ne hq]
        exact (List.erase_of_not_mem fun hm => hl (hi.consistent.unique hm hmem)).symm

/-- The address is added to one set, and to the map, and leaves the set of the peer that had it. -/
theorem insertSourceAddress_index {n : Node} (hi : n.SourceIndex) {peer : PeerRef}
    (ha : n.peerContainer.Allocated peer) {source : InetAddress} (hnew : source ∉ n.sources peer)
    (hroom : (n.sources peer).length < MAX_SOURCE_ADDRESSES) : (n.insertSourceAddress peer source).SourceIndex ∧
      (n.insertSourceAddress peer source).findPeerBySourceAddress =
        Function.update n.findPeerBySourceAddress source (some peer) := by
  have hsources := sources_insertSourceAddress hi ha hnew
  have hfind := findPeer_insertSourceAddress n peer source
  refine ⟨⟨?_, fun q => ?_⟩, hfind⟩
  · rw [hfind, hsources]
    exact hi.consistent.claim hnew
  · rw [hsources]
    dsimp only
    split
    · rw [List.length_append]
      exact hroom
    · exact List.length_erase_le.trans (hi.bounded q)

/-- **A claim.** Both sides of the index agree after it, the address is found for the peer, and at
most one other entry is gone. -/
theorem addSourceAddress_index {n : Node} (hi : n.SourceIndex) {peer : PeerRef} (ha : n.peerContainer.Allocated peer)
    (source : InetAddress) : (n.addSourceAddress peer source).SourceIndex ∧
      ∀ s, (n.addSourceAddress peer source).findPeerBySourceAddress s =
        if source = s then some peer else if n.evicted peer source = some s then none
        else n.findPeerBySourceAddress s := by
  rw [addSourceAddress_eq]
  by_cases hmem : source ∈ n.sources peer
  · rw [if_pos hmem]
    refine ⟨hi, fun s => ?_⟩
    have hnone : n.evicted peer source = none := if_neg fun h => h.1 hmem
    rw [hnone, if_neg (Option.some_ne_none s).symm]
    split
    · rename_i hs
      exact hs ▸ (hi.consistent.owner_iff source peer).mpr hmem
    · rfl
  · rw [if_neg hmem]
    obtain ⟨hindex, halloc, hroom, hsubset, hfound⟩ := makeRoom_roomMade hi peer
    obtain ⟨hindex', hfind⟩ :=
      insertSourceAddress_index hindex (halloc ha) (fun hm => hmem (hsubset source hm)) hroom
    refine ⟨hindex', fun s => ?_⟩
    rw [hfind]
    by_cases hs : source = s
    · subst hs
      rw [if_pos rfl, Function.update_self]
    · rw [if_neg hs, Function.update_of_ne (Ne.symm hs), hfound, evicted]
      by_cases hfull : (n.sources peer).length ≥ MAX_SOURCE_ADDRESSES
      · simp only [hfull, hmem, not_false_eq_true, true_and, if_true, Option.some.injEq]
      · simp only [hfull, and_false, false_and, if_false, reduceCtorEq]

end Node

/-! ## Runs -/

/-! ## Runs of hellos -/

structure HelloMessage where
  now : Time
  source : InetAddress
  myId : HusarnetAddress
  yourId : HusarnetAddress
  helloCookie : Bytes

namespace Node
variable (S : Sodium)

def receiveHello (n : Node) (hello : HelloMessage) : Node :=
  n.helloReceived S hello.now hello.source hello.myId hello.yourId hello.helloCookie

/-- The peer for which a hello claims its source address. -/
def claimant (n : Node) (hello : HelloMessage) : Option PeerRef :=
  if hello.yourId = n.myIdentity.deviceId then (n.getOrCreatePeer hello.myId).2 else none

/-- The address that a hello makes this peer give up. -/
def evictedBy (n : Node) (hello : HelloMessage) : Option InetAddress :=
  (n.claimant hello).bind fun peer => (n.getOrCreatePeer hello.myId).1.evicted peer hello.source

/-- What a hello writes to the map under an address, if anything. -/
def indexWrite (n : Node) (hello : HelloMessage) (s : InetAddress) : Option (Option PeerRef) :=
  if hello.source = s ∧ (n.claimant hello).isSome = true then some (n.claimant hello)
  else if n.evictedBy hello = some s then some none
  else none

theorem receiveHello_claim {n : Node} {hello : HelloMessage} {peer : PeerRef} (h : n.claimant hello = some peer) :
    (n.getOrCreatePeer hello.myId).1.peerContainer.Allocated peer ∧
      Routinely S ((n.getOrCreatePeer hello.myId).1.addSourceAddress peer hello.source) (n.receiveHello S hello) := by
  have hown : hello.yourId = n.myIdentity.deviceId := by
    by_contra hne
    rw [claimant, if_neg hne] at h
    cases h
  rw [claimant, if_pos hown] at h
  generalize hg : n.getOrCreatePeer hello.myId = r at h ⊢
  obtain ⟨n', found⟩ := r
  have hfound : found = some peer := h
  subst hfound
  refine ⟨getOrCreatePeer_allocated hg, ?_⟩
  rw [receiveHello, helloReceived, if_neg (not_not.mpr hown), hg]
  dsimp only
  split
  · have hlink := (linkLocal_moves S (n'.addSourceAddress peer hello.source) peer hello.source).routinely
    split
    · exact hlink.trans ((attemptReestablish_moves S _ _ peer).routinely.trans (sendToPeer_routinely S _ _ _))
    · exact hlink.trans (sendToPeer_routinely S _ _ _)
  · exact sendToPeer_routinely S _ _ _

theorem receiveHello_unclaimed {n : Node} {hello : HelloMessage} (h : n.claimant hello = none) :
    Routinely S n (n.receiveHello S hello) := by
  rw [receiveHello, helloReceived]
  by_cases hown : hello.yourId = n.myIdentity.deviceId
  · rw [if_neg (not_not.mpr hown)]
    rw [claimant, if_pos hown] at h
    have hget := (Moves.getOrCreatePeer (S := S) n hello.myId).routinely
    generalize n.getOrCreatePeer hello.myId = r at h hget ⊢
    obtain ⟨n', found⟩ := r
    have hfound : found = none := h
    subst hfound
    exact hget
  · rw [if_pos hown]
    exact .refl n

/-- **One hello** keeps both sides of the index in agreement and writes what `indexWrite` says. -/
theorem receiveHello_index {n : Node} (hi : n.SourceIndex) (hello : HelloMessage) :
    (n.receiveHello S hello).SourceIndex ∧ ∀ s, (n.receiveHello S hello).findPeerBySourceAddress s =
      (n.indexWrite hello s).getD (n.findPeerBySourceAddress s) := by
  cases hc : n.claimant hello with
  | none =>
    have hsame := sameSources_routine (receiveHello_unclaimed S hc)
    refine ⟨hi.of_same hsame, fun s => ?_⟩
    have hwrite : n.indexWrite hello s = none := by simp [indexWrite, evictedBy, hc]
    rw [hwrite, hsame.findPeer]
    rfl
  | some peer =>
    obtain ⟨ha, hroutine⟩ := receiveHello_claim S hc
    have hcreated := sameSources_routine (Moves.getOrCreatePeer (S := S) n hello.myId).routinely
    obtain ⟨hindex, hfind⟩ := addSourceAddress_index (hi.of_same hcreated) ha hello.source
    have hsame := sameSources_routine hroutine
    refine ⟨hindex.of_same hsame, fun s => ?_⟩
    rw [hsame.findPeer, hfind, hcreated.findPeer]
    simp only [indexWrite, evictedBy, hc, Option.isSome_some, and_true, Option.bind_some]
    by_cases hs : hello.source = s
    · rw [if_pos hs, if_pos hs]
      rfl
    · rw [if_neg hs, if_neg hs]
      split
      · rfl
      · rfl

end Node

/-- In this step a hello from `s` is received for `peer`. -/
def ClaimsAddress (x : Node × HelloMessage × Node) (s : InetAddress) (peer : PeerRef) : Prop :=
  x.2.1.source = s ∧ x.1.claimant x.2.1 = some peer

/-- In this step a peer gives `s` up for the address of a hello. -/
def EvictsAddress (x : Node × HelloMessage × Node) (s : InetAddress) : Prop := x.1.evictedBy x.2.1 = some s

theorem claimsAddress_iff {x : Node × HelloMessage × Node} {s : InetAddress} {peer : PeerRef} :
    x.1.indexWrite x.2.1 s = some (some peer) ↔ ClaimsAddress x s peer := by
  rw [Node.indexWrite, ClaimsAddress]
  constructor
  · intro h
    split at h
    · rename_i hs
      exact ⟨hs.1, Option.some.inj h⟩
    · split at h
      · cases h
      · cases h
  · rintro ⟨hs, hp⟩
    rw [if_pos ⟨hs, by rw [hp]; rfl⟩, hp]

theorem indexWrite_eq_none {x : Node × HelloMessage × Node} {s : InetAddress} :
    x.1.indexWrite x.2.1 s = none ↔ (∀ peer, ¬ ClaimsAddress x s peer) ∧ ¬ EvictsAddress x s := by
  rw [Node.indexWrite, EvictsAddress]
  constructor
  · intro h
    split at h
    · cases h
    · rename_i hs
      split at h
      · cases h
      · rename_i he
        exact ⟨fun peer hc => hs ⟨hc.1, by rw [hc.2]; rfl⟩, he⟩
  · rintro ⟨hc, he⟩
    have hs : ¬ (x.2.1.source = s ∧ (x.1.claimant x.2.1).isSome = true) := by
      rintro ⟨hs, hsome⟩
      obtain ⟨peer, hp⟩ := Option.isSome_iff_exists.mp hsome
      exact hc peer ⟨hs, hp⟩
    rw [if_neg hs, if_neg he]

/-- **The index of source addresses is consistent.** Whatever hellos a new node receives, and
whatever `rand` evicts: the map has exactly the addresses in the sets of the peers, so that an
address belongs to one peer at most, no peer has more than five, and an address is found for the
peer that claimed it last, unless it was evicted since. -/
theorem source_index_consistent (S : Sodium) (configManager : ConfigManager) (identity : Identity) (tape : Tape)
    (myFlags : PeerFlags) (boot : UInt64) (userAgent : Bytes) (workerQueueSize : ℕ) (sourcePort : UInt16)
    (hellos : List HelloMessage) :
    let n₀ := Node.new configManager identity tape myFlags boot userAgent workerQueueSize sourcePort
    let run := trace (Node.receiveHello S) n₀ hellos
    let n := last n₀ run
    (∀ s peer, get? n.peerSourceAddresses s = some peer ↔ s ∈ (n.deref peer).sourceAddresses) ∧
    (∀ s peer peer', s ∈ (n.deref peer).sourceAddresses → s ∈ (n.deref peer').sourceAddresses → peer = peer') ∧
    (∀ peer, (n.deref peer).sourceAddresses.Nodup ∧
      (n.deref peer).sourceAddresses.length ≤ MAX_SOURCE_ADDRESSES) ∧
    ∀ s peer, n.findPeerBySourceAddress s = some peer ↔
      ∃ earlier x later, transitions n₀ run = earlier ++ x :: later ∧ ClaimsAddress x s peer ∧
        ∀ y ∈ later, (∀ other, ¬ ClaimsAddress y s other) ∧ ¬ EvictsAddress y s := by
  intro n₀ run n
  have hrun := isRun_trace (Node.receiveHello S) n₀ hellos
  have h₀ : n₀.SourceIndex := Node.sourceIndex_new ..
  have hall : ∀ m ∈ states n₀ run, m.SourceIndex :=
    hrun.keeps h₀ fun m hello m' hm he => he ▸ (Node.receiveHello_index S hm hello).1
  have hi : n.SourceIndex := hall n (mem_states_last n₀ run)
  refine ⟨hi.consistent.owner_iff, fun s _ _ => hi.consistent.unique, fun peer => ?_, fun s peer => ?_⟩
  · exact ⟨hi.consistent.nodup peer, hi.bounded peer⟩
  · have hwrites : ∀ x ∈ transitions n₀ run, x.2.2.findPeerBySourceAddress s =
        (x.1.indexWrite x.2.1 s).getD (x.1.findPeerBySourceAddress s) := by
      intro x hx
      obtain ⟨hmem, hstep⟩ := hrun.of_mem hx
      rw [← hstep]
      exact (Node.receiveHello_index S (hall x.1 hmem) x.2.1).2 s
    have hnew : n₀.findPeerBySourceAddress s = none := rfl
    have hlast := last_write (f := fun m : Node => m.findPeerBySourceAddress s)
      (W := fun m hello => m.indexWrite hello s) hwrites peer
    rw [hlast, hnew]
    simp only [claimsAddress_iff, indexWrite_eq_none, reduceCtorEq, false_and, or_false]

end Husarnet
