import Husarnet.Config.AddressLists
import Husarnet.Config.GetConfigPayload
import Husarnet.Config.UserWhitelist

/-! # Access decisions and the documents they come from

The set of allowed peers is filled by two updaters: a get_config payload starts it anew with the
addresses it lists, a licence adds its EventBus and API servers and takes none away. It has room
for 128. So it holds the first 128 different addresses of the latest payload and of the licences
applied after it, and the decisions follow the latest documents when that makes no difference.
-/

namespace Husarnet
open Octets JsonDoc Containers StateProgram
set_option autoImplicit false

/-- A licence document that `updateLicenseData` applies to its end. -/
structure LicenseDocument where
  json : Json
  base : List InternetAddress
  api : List HusarnetAddress
  eb : List HusarnetAddress
  reads : ConfigManager.parsedLists json = .ok (base, api, eb)
  base_fits : base.length ≤ BASE_ADDRESSES_LIMIT
  api_fits : api.length ≤ DASHBOARD_API_ADDRESSES_LIMIT
  eb_fits : eb.length ≤ EVENTBUS_ADDRESSES_LIMIT

/-- A well-formed get_config payload, with any number of peers. -/
structure GetConfigPayload where
  json : Json
  entries : List Json
  claim : Option ClaimInfo
  peers : List PeerInfo
  has_peers : json.find? GETCONFIG_KEY_PEERS = some (.array entries)
  reads_claim : ClaimInfo.read json = .ok claim
  reads_peers : entries.mapM PeerInfo.read = .ok peers

namespace GetConfigPayload

def addresses (payload : GetConfigPayload) : List HusarnetAddress := payload.peers.map PeerInfo.addr

theorem peerEntries_json (payload : GetConfigPayload) : peerEntries payload.json = some payload.entries := by
  rw [peerEntries, payload.has_peers]

theorem readPrefix_of_mapM {entries : List Json} {peers : List PeerInfo}
    (h : entries.mapM PeerInfo.read = .ok peers) : PeerInfo.readPrefix entries = peers := by
  induction entries generalizing peers with
  | nil =>
    cases h
    rfl
  | cons entry entries ih =>
    rw [List.mapM_cons] at h
    rw [PeerInfo.readPrefix]
    cases hone : PeerInfo.read entry with
    | error fault =>
      rw [hone] at h
      cases h
    | ok info =>
      cases hrest : entries.mapM PeerInfo.read with
      | error fault =>
        rw [hone, hrest] at h
        cases h
      | ok infos =>
        rw [hone, hrest] at h
        cases h
        dsimp only
        rw [ih hrest]

theorem listedAddresses_json (payload : GetConfigPayload) :
    listedAddresses payload.json = payload.addresses := by
  rw [listedAddresses, payload.peerEntries_json, payload.reads_claim]
  dsimp only
  rw [readPrefix_of_mapM payload.reads_peers, addresses]

end GetConfigPayload

/-- An update of what the access decisions depend on. -/
inductive AccessUpdate where
  | license (doc : LicenseDocument)
  | getConfig (payload : GetConfigPayload)
  | whitelist (call : ConfigManager.WhitelistCall)

namespace AccessUpdate

def run (T : JsonText) : AccessUpdate → Cm Unit
  | license doc => do
    ConfigManager.storeLicense doc.json
    ConfigManager.updateLicenseData
  | getConfig payload => do
    ConfigManager.storeGetConfig payload.json
    ConfigManager.updateGetConfigData
  | whitelist call => do
    let _ ← call.run T

def runAll (T : JsonText) (cm : ConfigManager) (updates : List AccessUpdate) : ConfigManager :=
  updates.foldl (fun cm update => after (update.run T) cm) cm

/-! ## The latest documents -/

/-- The documents that a sequence of updates leaves in effect. `addedServers` are the servers of
the licences applied since the latest payload, in the order of their insertion. -/
structure InEffect where
  api : List HusarnetAddress := []
  eb : List HusarnetAddress := []
  whitelist : BoundedSet HusarnetAddress USER_WHITELIST_SIZE_LIMIT := .empty
  listed : List HusarnetAddress := []
  addedServers : List HusarnetAddress := []

def InEffect.next (d : InEffect) : AccessUpdate → InEffect
  | .license doc => { d with api := doc.api, eb := doc.eb, addedServers := d.addedServers ++ (doc.eb ++ doc.api) }
  | .getConfig payload => { d with listed := payload.addresses, addedServers := [] }
  | .whitelist call => { d with whitelist := call.apply d.whitelist }

def inEffect (updates : List AccessUpdate) : InEffect := updates.foldl InEffect.next {}

/-- The address is a server of the licence in effect or in the user whitelist. -/
def InEffect.Trusted (d : InEffect) (a : HusarnetAddress) : Prop := a ∈ d.api ∨ a ∈ d.eb ∨ a ∈ d.whitelist

/-- What the latest documents allow. -/
def InEffect.Allows (d : InEffect) (a : HusarnetAddress) : Prop := d.Trusted a ∨ a ∈ d.listed

/-! ## The manager follows -/

/-- The containers of the manager, in terms of the documents in effect. -/
structure Follows (cm : ConfigManager) (d : InEffect) : Prop where
  restricted : cm.allowEveryone = false
  api : cm.apiAddresses.elems = d.api
  eb : cm.ebAddresses.elems = d.eb
  whitelist : cm.userWhitelist = d.whitelist
  peers : cm.allowedPeers = .insertAll .empty (d.listed ++ d.addedServers)

theorem license_run (T : JsonText) (doc : LicenseDocument) (cm : ConfigManager) :
    ∃ j, after ((license doc).run T) cm =
      ((({ cm with cacheJson := j } : ConfigManager).installEb doc.eb).installApi doc.api).installBase doc.base := by
  have hcached : ConfigManager.cachedLicense
      { cm with cacheJson := cm.cacheJson.setMember CACHE_KEY_LICENSE doc.json } = doc.json := by
    rw [ConfigManager.cachedLicense, Json.find?_setMember_self, Option.getD_some]
  obtain ⟨j, hupdate⟩ := ConfigManager.updateLicenseData_installs (hcached ▸ doc.reads) doc.base_fits doc.api_fits
    doc.eb_fits
  exact ⟨j, after_ok hupdate⟩

theorem follows_license (T : JsonText) (doc : LicenseDocument) {cm : ConfigManager} {d : InEffect}
    (h : Follows cm d) : Follows (after ((license doc).run T) cm) (d.next (.license doc)) := by
  obtain ⟨j, hrun⟩ := license_run T doc cm
  rw [hrun]
  refine ⟨h.restricted, ?_, ?_, h.whitelist, ?_⟩
  · show doc.api.take DASHBOARD_API_ADDRESSES_LIMIT = doc.api
    exact List.take_of_length_le doc.api_fits
  · show doc.eb.take EVENTBUS_ADDRESSES_LIMIT = doc.eb
    exact List.take_of_length_le doc.eb_fits
  · show (cm.allowedPeers.insertAll (doc.eb.take EVENTBUS_ADDRESSES_LIMIT)).insertAll
      (doc.api.take DASHBOARD_API_ADDRESSES_LIMIT) = _
    rw [List.take_of_length_le doc.eb_fits, List.take_of_length_le doc.api_fits, h.peers]
    simp only [InEffect.next, BoundedSet.insertAll, List.foldl_append]

theorem follows_getConfig (T : JsonText) (payload : GetConfigPayload) {cm : ConfigManager} {d : InEffect}
    (h : Follows cm d) : Follows (after ((getConfig payload).run T) cm) (d.next (.getConfig payload)) := by
  have hframe : ConfigManager.outsideGetConfig (after ((getConfig payload).run T) cm) = cm.outsideGetConfig :=
    Frame.bind (ConfigManager.frame_storeGetConfig payload.json)
      (fun _ => ConfigManager.frame_updateGetConfigData) cm
  have hpeers := (ConfigManager.updateGetConfigData_spec
    { cm with cacheJson := cm.cacheJson.setMember CACHE_KEY_GETCONFIG payload.json }).1
  rw [ConfigManager.cachedPayload, Json.find?_setMember_self, Option.getD_some, payload.peerEntries_json, payload.listedAddresses_json] at hpeers
  simp only [ConfigManager.outsideGetConfig, Prod.mk.injEq] at hframe
  refine ⟨hframe.2.1.trans h.restricted, ?_, ?_, ?_, ?_⟩
  · rw [hframe.2.2.2.2.2.2.2.2.2.1]
    exact h.api
  · rw [hframe.2.2.2.2.2.2.2.2.2.2]
    exact h.eb
  · rw [hframe.2.2.2.2.2.2.2.1]
    exact h.whitelist
  · simp only [InEffect.next, List.append_nil]
    exact hpeers

theorem follows_whitelist (T : JsonText) (call : ConfigManager.WhitelistCall) {cm : ConfigManager} {d : InEffect}
    (h : Follows cm d) : Follows (after ((whitelist call).run T) cm) (d.next (.whitelist call)) := by
  have hrun : after ((whitelist call).run T) cm = after (call.run T) cm := by
    rw [run, after, after, run_bind]
    cases call.run T cm <;> rfl
  have hframe : Frame (fun cm : ConfigManager => (cm.allowEveryone, cm.apiAddresses.elems, cm.ebAddresses.elems,
      cm.allowedPeers)) (call.run T) := by
    cases call with
    | add a => exact ConfigManager.frame_userWhitelistAdd T a fun _ _ _ => rfl
    | rm a => exact ConfigManager.frame_userWhitelistRm a fun _ _ _ => rfl
  have hsame := hframe cm
  simp only [Prod.mk.injEq] at hsame
  rw [hrun]
  refine ⟨hsame.1.trans h.restricted, hsame.2.1.trans h.api, hsame.2.2.1.trans h.eb, ?_, hsame.2.2.2.trans h.peers⟩
  rw [ConfigManager.WhitelistCall.run_userWhitelist, h.whitelist]
  rfl

theorem follows_runAll (T : JsonText) (updates : List AccessUpdate) {cm : ConfigManager} {d : InEffect}
    (h : Follows cm d) : Follows (runAll T cm updates) (updates.foldl InEffect.next d) := by
  induction updates generalizing cm d with
  | nil => exact h
  | cons update updates ih =>
    refine ih ?_
    cases update with
    | license doc => exact follows_license T doc h
    | getConfig payload => exact follows_getConfig T payload h
    | whitelist call => exact follows_whitelist T call h

theorem Follows.isPeerAllowed_iff {cm : ConfigManager} {d : InEffect} (h : Follows cm d) (a : HusarnetAddress) :
    cm.isPeerAllowed a = true ↔
      d.Trusted a ∨ a ∈ ((d.listed ++ d.addedServers).eraseDups).take ALLOWED_PEERS_LIMIT := by
  rw [← BoundedSet.mem_insertAll_empty, ← h.peers]
  simp only [ConfigManager.isPeerAllowed, h.restricted, h.api, h.eb, h.whitelist, InEffect.Trusted, Bool.false_or,
    Bool.or_eq_true, List.contains_iff_mem, decide_eq_true_eq, or_assoc]

theorem mem_take_eraseDups_append {l m : List HusarnetAddress} {a : HusarnetAddress} (n : ℕ) (h : a ∈ l) :
    a ∈ (l ++ m).eraseDups.take n ↔ a ∈ l.eraseDups.take n := by
  rw [List.eraseDups_append, List.take_append, List.mem_append]
  refine or_iff_left fun hm => ?_
  have hrest : a ∈ m.removeAll l := List.mem_eraseDups.mp (List.mem_of_mem_take hm)
  simp [List.removeAll] at hrest
  exact hrest.2 h

/-- **Access decisions.** After every sequence of applied licences, well-formed payloads and
whitelist calls, the decisions are those of the latest documents if and only if every address that
is listed behind the first 128 different ones is trusted, and every server that was added since the
latest payload while the set had room is allowed by the latest documents. -/
theorem decisions_follow_iff (T : JsonText) (ourIp : HusarnetAddress) (now : ℤ) (configFile cacheFile : Bytes)
    (updates : List AccessUpdate) :
    let cm := runAll T (.new true ourIp now configFile cacheFile) updates
    let d := inEffect updates
    (∀ a, cm.isPeerAllowed a = true ↔ d.Allows a) ↔
      (∀ a ∈ d.listed, a ∉ d.listed.eraseDups.take ALLOWED_PEERS_LIMIT → d.Trusted a) ∧
        ∀ a ∈ d.addedServers, a ∈ (d.listed ++ d.addedServers).eraseDups.take ALLOWED_PEERS_LIMIT → d.Allows a := by
  intro cm d
  have hfollows : Follows cm d := follows_runAll T updates ⟨rfl, rfl, rfl, rfl, rfl⟩
  constructor
  · intro h
    constructor
    · intro a hlisted hbehind
      rcases (hfollows.isPeerAllowed_iff a).mp ((h a).mpr (Or.inr hlisted)) with htrusted | htaken
      · exact htrusted
      · exact absurd ((mem_take_eraseDups_append _ hlisted).mp htaken) hbehind
    · intro a _ htaken
      exact (h a).mp ((hfollows.isPeerAllowed_iff a).mpr (Or.inr htaken))
  · intro h a
    obtain ⟨hlate, hstale⟩ := h
    rw [hfollows.isPeerAllowed_iff]
    constructor
    · rintro (htrusted | htaken)
      · exact Or.inl htrusted
      · have hmem := List.mem_eraseDups.mp (List.mem_of_mem_take htaken)
        rcases List.mem_append.mp hmem with hlisted | hadded
        · exact Or.inr hlisted
        · exact hstale a hadded htaken
    · rintro (htrusted | hlisted)
      · exact Or.inl htrusted
      · by_cases hfirst : a ∈ d.listed.eraseDups.take ALLOWED_PEERS_LIMIT
        · exact Or.inr ((mem_take_eraseDups_append _ hlisted).mpr hfirst)
        · exact Or.inl (hlate a hlisted hfirst)

end AccessUpdate

/-! ## A listed peer that is refused -/

namespace PeerInfo

def toJson (info : PeerInfo) : Json :=
  .object [(GETCONFIG_KEY_PEERINFO_IP, .string info.address), (GETCONFIG_KEY_PEERINFO_HOSTNAME, .string info.hostname),
    (GETCONFIG_KEY_PEERINFO_ALIASES, .array (info.aliases.map .string))]

theorem read_toJson (info : PeerInfo) : read info.toJson = .ok info := by
  have haddress : access (info.toJson.member GETCONFIG_KEY_PEERINFO_IP >>= Json.getString) = .ok info.address := rfl
  have hhostname : access (info.toJson.member GETCONFIG_KEY_PEERINFO_HOSTNAME >>= Json.getString) = .ok info.hostname :=
    rfl
  have haliases : access (info.toJson.member GETCONFIG_KEY_PEERINFO_ALIASES >>= Json.getStrings) = .ok info.aliases :=
    congrArg access (Json.getStrings_strings info.aliases)
  rw [read, haddress, hhostname, haliases]
  rfl

end PeerInfo

namespace AccessUpdate

def payloadOf (peers : List PeerInfo) : GetConfigPayload where
  json := .object [(GETCONFIG_KEY_PEERS, .array (peers.map PeerInfo.toJson)), (GETCONFIG_KEY_IS_CLAIMED, .bool false)]
  entries := peers.map PeerInfo.toJson
  claim := none
  peers := peers
  has_peers := rfl
  reads_claim := rfl
  reads_peers := by
    induction peers with
    | nil => rfl
    | cons info peers ih =>
      rw [List.map_cons, List.mapM_cons, PeerInfo.read_toJson, except_ok_bind, ih]
      rfl

/-- Peers with the addresses fc94:0::, fc94:1::, and so on. -/
def manyPeers (n : ℕ) : List PeerInfo :=
  (List.range n).map fun i => ⟨ascii "fc94:" ++ ascii (toString i) ++ ascii "::", ascii "peer", []⟩

/-- The number that the second group of an address shows. -/
def secondGroup (a : HusarnetAddress) : ℕ :=
  100 * (a.byte 2).toNat + 10 * ((a.byte 3).toNat / 16) + (a.byte 3).toNat % 16

/-- Of 129 listed peers one is refused. -/
theorem listed_peer_refused :
    let updates := [getConfig (payloadOf (manyPeers 129))]
    let cm := runAll ConfigManager.plainText (.new true .invalid 0 [] []) updates
    ¬ ∀ a, cm.isPeerAllowed a = true ↔ (inEffect updates).Allows a := by
  intro updates cm h
  have hfollows : Follows cm (inEffect updates) := follows_runAll _ updates ⟨rfl, rfl, rfl, rfl, rfl⟩
  have hgroups : (inEffect updates).listed.map secondGroup = List.range 129 := by decide +kernel
  have hnodup : (inEffect updates).listed.Nodup := by
    apply List.Nodup.of_map secondGroup
    rw [hgroups]
    exact List.nodup_range
  -- nothing else lets a peer in, so the 129 addresses would all be in the set
  have hsubset : (inEffect updates).listed ⊆ cm.allowedPeers.elems := by
    intro a ha
    have hallowed := (h a).mpr (Or.inr ha)
    rw [hfollows.isPeerAllowed_iff, ← BoundedSet.mem_insertAll_empty, ← hfollows.peers] at hallowed
    rcases hallowed with (ht | ht | ht) | hin
    · cases ht
    · cases ht
    · cases ht
    · exact hin
  have hlength := (List.subperm_of_subset hnodup hsubset).length_le
  have hcount : (inEffect updates).listed.length = 129 := by
    rw [← List.length_map, hgroups, List.length_range]
  have hbound : cm.allowedPeers.elems.length ≤ 128 := cm.allowedPeers.bounded
  omega

end AccessUpdate
end Husarnet
