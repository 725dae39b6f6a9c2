import Husarnet.PeerContainer
import Husarnet.Lib.Runs

/-! # Revoked peers

`getPeer` answers from its one-entry cache before it asks the configuration. So a peer that is
taken off the configuration stays reachable as long as it is the cached one; a run in which no
change of the configuration revokes the cached peer gives access to allowed peers only.
-/

namespace Husarnet
open Octets JsonDoc StateProgram Runs Containers
set_option autoImplicit false

inductive ConfigChange where
  | getConfig (payload : Json)
  | license
  | whitelistAdd (address : HusarnetAddress)
  | whitelistRm (address : HusarnetAddress)

/-- The configuration after the change; a JSON exception keeps what was written before it. -/
def ConfigChange.apply (T : JsonText) (cm : ConfigManager) : ConfigChange → ConfigManager
  | getConfig payload =>
    after (do ConfigManager.storeGetConfig payload; ConfigManager.updateGetConfigData) cm
  | license => after ConfigManager.updateLicenseData cm
  | whitelistAdd address => after (ConfigManager.userWhitelistAdd T address) cm
  | whitelistRm address => after (ConfigManager.userWhitelistRm address) cm

namespace PeerContainer

inductive AccessEvent where
  | createPeer (id : HusarnetAddress)
  | getPeer (id : HusarnetAddress)
  | getOrCreatePeer (id : HusarnetAddress)
  | change (change : ConfigChange)

def accessStep (T : JsonText) (c : PeerContainer) : AccessEvent → PeerContainer
  | .createPeer id => (c.createPeer id).1
  | .getPeer id => (c.getPeer id).1
  | .getOrCreatePeer id => (c.getOrCreatePeer id).1
  | .change change => c.reconfigure (change.apply T c.configManager)

/-- A look-up made now gives no peer that is not allowed. -/
def LookUpsSafe (c : PeerContainer) : Prop :=
  ∀ id peer, (c.getPeer id).2 = some peer ∨ (c.getOrCreatePeer id).2 = some peer →
    c.configManager.isPeerAllowed id = true

/-- A change of the configuration does not allow the peer in the cache. -/
def RevokesCached (T : JsonText) (x : PeerContainer × AccessEvent × PeerContainer) : Prop :=
  ∃ change, x.2.1 = .change change ∧ x.1.cachedPeer.isSome = true ∧
    (change.apply T x.1.configManager).isPeerAllowed x.1.cachedPeerId = false

def CacheAllowed (c : PeerContainer) : Prop :=
  c.cachedPeer.isSome = true → c.configManager.isPeerAllowed c.cachedPeerId = true

theorem getPeer_allowed {c : PeerContainer} (hc : CacheAllowed c) {id : HusarnetAddress} {peer : PeerRef}
    (h : (c.getPeer id).2 = some peer) : c.configManager.isPeerAllowed id = true := by
  generalize hr : c.getPeer id = r at h
  cases (hr ▸ getPeer_lookUp c id : LookUp c id r) with
  | cached hid =>
    rw [← hid]
    exact hc (Option.isSome_of_mem h)
  | refused hid _ => cases h
  | unknown hid _ => cases h
  | found it hid ha hit => exact ha

theorem createPeer_allowed {c : PeerContainer} {id : HusarnetAddress} {peer : PeerRef}
    (h : (c.createPeer id).2 = some peer) : c.configManager.isPeerAllowed id = true := by
  generalize hr : c.createPeer id = r at h
  cases (hr ▸ createPeer_creation c id : Creation c id r) with
  | refused _ => cases h
  | created ha c' => exact ha

/-- Look-ups are safe exactly when the cached peer is allowed. -/
theorem lookUpsSafe_iff (c : PeerContainer) : LookUpsSafe c ↔ CacheAllowed c := by
  constructor
  · intro h hsome
    obtain ⟨peer, hpeer⟩ := Option.isSome_iff_exists.mp hsome
    refine h c.cachedPeerId peer (Or.inl ?_)
    rw [getPeer, if_pos rfl]
    exact hpeer
  · rintro hc id peer (h | h)
    · exact getPeer_allowed hc h
    · rcases getOrCreatePeer_cases c id with ⟨-, he⟩ | ⟨-, he⟩
      · rw [he] at h
        exact getPeer_allowed hc h
      · rw [he] at h
        exact createPeer_allowed h

theorem cacheAllowed_getPeer {c : PeerContainer} (hc : CacheAllowed c) (id : HusarnetAddress) :
    CacheAllowed (c.getPeer id).1 := by
  generalize hr : c.getPeer id = r
  cases (hr ▸ getPeer_lookUp c id : LookUp c id r) with
  | cached _ => exact hc
  | refused _ _ => exact hc
  | unknown _ _ => exact hc
  | found it _ ha hit => exact fun _ => ha

theorem cacheAllowed_createPeer {c : PeerContainer} (hc : CacheAllowed c) (id : HusarnetAddress) :
    CacheAllowed (c.createPeer id).1 := by
  generalize hr : c.createPeer id = r
  cases (hr ▸ createPeer_creation c id : Creation c id r) with
  | refused _ => exact hc
  | created ha c' _ _ hcache hcacheId hconfig =>
    intro hsome
    rw [hcache] at hsome
    rw [hcacheId, hconfig]
    exact hc hsome

theorem cacheAllowed_step (T : JsonText) {c : PeerContainer} (hc : CacheAllowed c) (e : AccessEvent)
    (hn : ¬ RevokesCached T (c, e, accessStep T c e)) : CacheAllowed (accessStep T c e) := by
  cases e with
  | createPeer id => exact cacheAllowed_createPeer hc id
  | getPeer id => exact cacheAllowed_getPeer hc id
  | getOrCreatePeer id =>
    rw [accessStep]
    rcases getOrCreatePeer_cases c id with ⟨-, he⟩ | ⟨-, he⟩
    · rw [he]
      exact cacheAllowed_getPeer hc id
    · rw [he]
      exact cacheAllowed_createPeer hc id
  | change change =>
    intro hsome
    by_contra hallowed
    exact hn ⟨change, rfl, hsome, Bool.eq_false_iff.mpr hallowed⟩

/-- **Revocation.** In every run of look-ups, creations and configuration changes, from a fresh
container with any configuration: every look-up in every state reached gives allowed peers only,
if and only if no change of the configuration leaves the cached peer not allowed. -/
theorem lookUps_safe_iff_none_revoked (T : JsonText) (configManager : ConfigManager) (identity : Identity)
    (tape : Tape) (events : List AccessEvent) :
    let c₀ := PeerContainer.new configManager identity tape
    let tr := trace (accessStep T) c₀ events
    (∀ c ∈ states c₀ tr, LookUpsSafe c) ↔ ∀ x ∈ transitions c₀ tr, ¬ RevokesCached T x := by
  intro c₀ tr
  have hrun : IsRun (fun c e c' => accessStep T c e = c') c₀ tr := isRun_trace (accessStep T) c₀ events
  have hstart : CacheAllowed c₀ := fun h => by cases h
  constructor
  · rintro hsafe ⟨c, e, c'⟩ hx ⟨change, he, hsome, hrevoked⟩
    obtain ⟨-, hstep⟩ := hrun.of_mem hx
    have hcache := (lookUpsSafe_iff c').mp (hsafe c' (target_mem_states hx))
    dsimp only at he hsome hrevoked hstep
    subst he
    subst hstep
    have hallowed := hcache hsome
    rw [accessStep, reconfigure] at hallowed
    dsimp only at hallowed
    rw [hrevoked] at hallowed
    cases hallowed
  · intro hnone c hcm
    refine (lookUpsSafe_iff c).mpr ?_
    refine hrun.invariant (G := fun c e c' => ¬ RevokesCached T (c, e, c')) hstart ?_ hnone c hcm
    rintro c e c' hc hn rfl
    exact cacheAllowed_step T hc e hn

/-! ## A revoked peer in the cache -/

/-- A peer is whitelisted, looked up, and taken off the whitelist. -/
def revokeCached (id : HusarnetAddress) : List AccessEvent :=
  [.change (.whitelistAdd id), .getOrCreatePeer id, .getPeer id, .change (.whitelistRm id)]

/-- The next look-up still gives the peer. -/
theorem revoked_peer_found :
    let T : JsonText := ⟨fun _ => none, fun _ => []⟩
    let id := IpAddress.parse (ascii "fc94::2")
    let c₀ := PeerContainer.new (.new true (clearIdentity 1).deviceId 0 [] []) (clearIdentity 1) countingTape
    let c := last c₀ (trace (accessStep T) c₀ (revokeCached id))
    (c.getPeer id).2.isSome = true ∧ (c.getOrCreatePeer id).2.isSome = true ∧
      c.configManager.isPeerAllowed id = false := by
  decide +kernel

end PeerContainer
end Husarnet
