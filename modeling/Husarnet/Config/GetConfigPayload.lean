import Husarnet.Config.ConfigFrames

/-! # What a get_config payload says

`updateGetConfigData` writes while it reads, so a payload that is malformed somewhere leaves the
part before that place written. Here the payload is read first, as a whole: `ClaimInfo.read` and
`PeerInfo.read` are its two halves, and the update is then a function of what they give.
-/

namespace Husarnet
open Octets JsonDoc Containers StateProgram
set_option autoImplicit false

structure ClaimInfo where
  owner : Bytes
  hostname : Bytes
  syncHostname : Bool

namespace ClaimInfo

/-- The claim information of a payload that says the device is claimed. -/
def readClaimed (latestConfig : Json) : Except ConfigFault ClaimInfo := do
  let claimInfo ← access (latestConfig.member GETCONFIG_KEY_CLAIMINFO)
  let owner ← access (claimInfo.memberOrNull GETCONFIG_KEY_CLAIMINFO_OWNER >>= Json.getString)
  let hostname ← access (claimInfo.memberOrNull GETCONFIG_KEY_CLAIMINFO_HOSTNAME >>= Json.getString)
  let featureFlags ← access (latestConfig.member GETCONFIG_KEY_FEATUREFLAGS)
  let syncHostname ←
    access (featureFlags.memberOrNull GETCONFIG_KEY_FEATUREFLAGS_SYNCHOSTNAME >>= Json.getBool)
  return ⟨owner, hostname, syncHostname⟩

/-- What a payload says about the claim, `none` for a device that is not claimed. -/
def read (latestConfig : Json) : Except ConfigFault (Option ClaimInfo) := do
  let claimed ← access (latestConfig.member GETCONFIG_KEY_IS_CLAIMED >>= Json.getBool)
  if claimed then
    let info ← readClaimed latestConfig
    return some info
  else return none

end ClaimInfo

structure PeerInfo where
  address : Bytes
  hostname : Bytes
  aliases : List Bytes

namespace PeerInfo

def read (peerInfo : Json) : Except ConfigFault PeerInfo := do
  let address ← access (peerInfo.member GETCONFIG_KEY_PEERINFO_IP >>= Json.getString)
  let hostname ← access (peerInfo.member GETCONFIG_KEY_PEERINFO_HOSTNAME >>= Json.getString)
  let aliases ← access (peerInfo.member GETCONFIG_KEY_PEERINFO_ALIASES >>= Json.getStrings)
  return ⟨address, hostname, aliases⟩

def addr (info : PeerInfo) : HusarnetAddress := IpAddress.parse info.address

/-- The entries with the names of the peer. -/
def addNames (info : PeerInfo) (hostsEntries : List (Bytes × HusarnetAddress)) : List (Bytes × HusarnetAddress) :=
  info.aliases.foldl (fun entries name => insertNew entries name info.addr)
    (insertNew hostsEntries info.hostname info.addr)

/-- The entries before the first malformed one. -/
def readPrefix : List Json → List PeerInfo
  | [] => []
  | peerInfo :: peerInfos =>
    match read peerInfo with
    | .ok info => info :: readPrefix peerInfos
    | .error _ => []

end PeerInfo

/-- The peer list of a payload, when it has one and it is an array. -/
def peerEntries (latestConfig : Json) : Option (List Json) :=
  match latestConfig.find? GETCONFIG_KEY_PEERS with
  | some (.array peers) => some peers
  | _ => none

/-- Every field that `updateGetConfigData` reads is there with the right type. -/
def wellFormedPayload (latestConfig : Json) : Bool :=
  match peerEntries latestConfig with
  | some peers => (ClaimInfo.read latestConfig).isOk && peers.all fun peerInfo => (PeerInfo.read peerInfo).isOk
  | none => false

/-- The addresses that a payload lists, as far as they are read. -/
def listedAddresses (latestConfig : Json) : List HusarnetAddress :=
  match peerEntries latestConfig, ClaimInfo.read latestConfig with
  | some peers, .ok _ => (PeerInfo.readPrefix peers).map PeerInfo.addr
  | _, _ => []

namespace ConfigManager

/-- The claim part of an update: the fields, and the calls that depend on the owner before it. -/
def withClaim (cm : ConfigManager) (claim : Option ClaimInfo) : ConfigManager :=
  let claimedBy := (claim.map fun info => etlString EMAIL_MAX_LENGTH info.owner).getD []
  let hostname := (claim.map fun info => etlString HOSTNAME_MAX_LENGTH info.hostname).getD cm.hostname
  { cm with
    claimed := claim.isSome
    claimedBy := claimedBy
    hostname := hostname
    portCalls := cm.portCalls
      ++ (claim.map fun info => if info.syncHostname then [PortCall.setSelfHostname info.hostname] else []).getD []
      ++ (if cm.claimedBy.isEmpty && !claimedBy.isEmpty then [.scheduleHook .claimed] else [])
      ++ (if !cm.claimedBy.isEmpty && claimedBy.isEmpty then [.scheduleHook .unclaimed] else []) }

/-! ## The claim -/

/-- The part of `updateFromPeers` before the loop over the peers. -/
def updateClaimPart (latestConfig : Json) : Cm Unit := do
  modify fun cm => { cm with allowedPeers := cm.allowedPeers.clear }
  let previousOwner := (← get).claimedBy
  let claimed ← lift (access (latestConfig.member GETCONFIG_KEY_IS_CLAIMED >>= Json.getBool))
  modify fun cm => { cm with claimed := claimed }
  updateClaim latestConfig claimed
  let owner := (← get).claimedBy
  callPortIf (previousOwner.isEmpty && !owner.isEmpty) (.scheduleHook .claimed)
  callPortIf (!previousOwner.isEmpty && owner.isEmpty) (.scheduleHook .unclaimed)

theorem updateFromPeers_eq (latestConfig : Json) (peers : List Json) :
    updateFromPeers latestConfig peers = updateClaimPart latestConfig >>= fun _ => updatePeerInfos [] peers := by
  simp only [updateFromPeers, updateClaimPart, bind_assoc]

theorem updateClaimInfo_spec (latestConfig : Json) (cm : ConfigManager) :
    match ClaimInfo.readClaimed latestConfig with
    | .ok info => updateClaimInfo latestConfig cm = .ok () { cm with
        claimedBy := etlString EMAIL_MAX_LENGTH info.owner
        hostname := etlString HOSTNAME_MAX_LENGTH info.hostname
        portCalls := cm.portCalls ++ if info.syncHostname then [.setSelfHostname info.hostname] else [] }
    | .error fault => ∃ cm', updateClaimInfo latestConfig cm = .error fault cm' ∧
        cm'.allowedPeers = cm.allowedPeers := by
  unfold ClaimInfo.readClaimed updateClaimInfo
  cases access (latestConfig.member GETCONFIG_KEY_CLAIMINFO) with
  | error e => exact ⟨cm, rfl, rfl⟩
  | ok claimInfo =>
    simp only [except_ok_bind, lift_ok_bind]
    cases access (claimInfo.memberOrNull GETCONFIG_KEY_CLAIMINFO_OWNER >>= Json.getString) with
    | error e => exact ⟨cm, rfl, rfl⟩
    | ok owner =>
      simp only [except_ok_bind, lift_ok_bind]
      cases access (claimInfo.memberOrNull GETCONFIG_KEY_CLAIMINFO_HOSTNAME >>= Json.getString) with
      | error e => exact ⟨cm, rfl, rfl⟩
      | ok hostname =>
        simp only [except_ok_bind, lift_ok_bind, modify_bind]
        -- from here on the owner and the hostname are written
        cases access (latestConfig.member GETCONFIG_KEY_FEATUREFLAGS) with
        | error e => exact ⟨_, rfl, rfl⟩
        | ok featureFlags =>
          simp only [except_ok_bind, lift_ok_bind]
          cases access (featureFlags.memberOrNull GETCONFIG_KEY_FEATUREFLAGS_SYNCHOSTNAME >>= Json.getBool) with
          | error e => exact ⟨_, rfl, rfl⟩
          | ok syncHostname => rfl

theorem updateClaimPart_spec (latestConfig : Json) (cm : ConfigManager) :
    match ClaimInfo.read latestConfig with
    | .ok claim => updateClaimPart latestConfig cm = .ok () (withClaim { cm with allowedPeers := .empty } claim)
    | .error fault => ∃ cm', updateClaimPart latestConfig cm = .error fault cm' ∧ cm'.allowedPeers = .empty := by
  unfold ClaimInfo.read updateClaimPart
  simp only [modify_bind, get_bind]
  cases access (latestConfig.member GETCONFIG_KEY_IS_CLAIMED >>= Json.getBool) with
  | error e => exact ⟨_, rfl, rfl⟩
  | ok claimed =>
    simp only [except_ok_bind, lift_ok_bind, modify_bind]
    cases claimed with
    | false =>
      show _ = EStateM.Result.ok () (withClaim { cm with allowedPeers := .empty } none)
      simp only [withClaim, Option.map_none, Option.getD_none, List.append_nil]
      rfl
    | true =>
      simp only [updateClaim, if_true, run_bind]
      have hinfo := updateClaimInfo_spec latestConfig { cm with allowedPeers := cm.allowedPeers.clear, claimed := true }
      cases hread : ClaimInfo.readClaimed latestConfig with
      | ok info =>
        rw [hread] at hinfo
        simp only [hinfo]
        rfl
      | error fault =>
        rw [hread] at hinfo
        obtain ⟨cm', hrun, hpeers⟩ := hinfo
        simp only [hrun]
        exact ⟨cm', rfl, hpeers⟩

/-! ## The peer list -/

theorem updatePeerInfo_eq (hostsEntries : List (Bytes × HusarnetAddress)) (peerInfo : Json) (cm : ConfigManager) :
    updatePeerInfo hostsEntries peerInfo cm =
      match PeerInfo.read peerInfo with
      | .error fault => .error fault cm
      | .ok info => .ok (info.addNames hostsEntries) { cm with allowedPeers := cm.allowedPeers.insert info.addr } := by
  unfold PeerInfo.read updatePeerInfo
  cases access (peerInfo.member GETCONFIG_KEY_PEERINFO_IP >>= Json.getString) with
  | error e => rfl
  | ok address =>
    cases access (peerInfo.member GETCONFIG_KEY_PEERINFO_HOSTNAME >>= Json.getString) with
    | error e => rfl
    | ok hostname =>
      cases access (peerInfo.member GETCONFIG_KEY_PEERINFO_ALIASES >>= Json.getStrings) with
      | error e => rfl
      | ok aliases => rfl

theorem updatePeerInfo_ok {peerInfo : Json} {info : PeerInfo} (h : PeerInfo.read peerInfo = .ok info)
    (hostsEntries : List (Bytes × HusarnetAddress)) (cm : ConfigManager) :
    updatePeerInfo hostsEntries peerInfo cm =
      .ok (info.addNames hostsEntries) { cm with allowedPeers := cm.allowedPeers.insert info.addr } := by
  rw [updatePeerInfo_eq, h]

theorem updatePeerInfo_error {peerInfo : Json} {fault : ConfigFault} (h : PeerInfo.read peerInfo = .error fault)
    (hostsEntries : List (Bytes × HusarnetAddress)) (cm : ConfigManager) :
    updatePeerInfo hostsEntries peerInfo cm = .error fault cm := by
  rw [updatePeerInfo_eq, h]

/-- The loop stops at the first malformed entry, and what was read before it stays allowed. -/
theorem updatePeerInfos_spec (hostsEntries : List (Bytes × HusarnetAddress)) (peerInfos : List Json)
    (cm : ConfigManager) :
    after (updatePeerInfos hostsEntries peerInfos) cm =
        { cm with allowedPeers := cm.allowedPeers.insertAll ((PeerInfo.readPrefix peerInfos).map PeerInfo.addr) } ∧
      ((∃ entries cm', updatePeerInfos hostsEntries peerInfos cm = .ok entries cm') ↔
        (peerInfos.all fun peerInfo => (PeerInfo.read peerInfo).isOk) = true) := by
  induction peerInfos generalizing hostsEntries cm with
  | nil => exact ⟨rfl, fun _ => rfl, fun _ => ⟨hostsEntries, cm, rfl⟩⟩
  | cons peerInfo peerInfos ih =>
    rw [PeerInfo.readPrefix, List.all_cons]
    cases hread : PeerInfo.read peerInfo with
    | ok info =>
      have hone := updatePeerInfo_ok hread hostsEntries cm
      obtain ⟨hafter, hok⟩ := ih (info.addNames hostsEntries)
        { cm with allowedPeers := cm.allowedPeers.insert info.addr }
      constructor
      · rw [updatePeerInfos, after_bind_ok hone, hafter]
        rfl
      · rw [updatePeerInfos, run_bind, hone]
        exact hok
    | error fault =>
      have hone := updatePeerInfo_error hread hostsEntries cm
      constructor
      · rw [updatePeerInfos, after, run_bind, hone]
        rfl
      · rw [updatePeerInfos, run_bind, hone]
        constructor
        · rintro ⟨entries, cm', h⟩
          cases h
        · intro h
          cases h

/-! ## The payload -/

theorem updateHostsEntries_eq (latestConfig : Json) :
    updateHostsEntries latestConfig = match peerEntries latestConfig with
      | some peers => updateFromPeers latestConfig peers
      | none => pure [] := by
  unfold updateHostsEntries peerEntries
  cases latestConfig.find? GETCONFIG_KEY_PEERS with
  | none => rfl
  | some j => cases j <;> rfl

theorem updateHostsEntries_spec (latestConfig : Json) (cm : ConfigManager) :
    (after (updateHostsEntries latestConfig) cm).allowedPeers =
        (if (peerEntries latestConfig).isSome then .insertAll .empty (listedAddresses latestConfig)
          else cm.allowedPeers) ∧
      ((∃ entries cm', updateHostsEntries latestConfig cm = .ok entries cm') ↔
        peerEntries latestConfig = none ∨ wellFormedPayload latestConfig = true) := by
  rw [updateHostsEntries_eq, listedAddresses, wellFormedPayload]
  cases peerEntries latestConfig with
  | none => exact ⟨rfl, fun _ => Or.inl rfl, fun _ => ⟨[], cm, rfl⟩⟩
  | some peers =>
    have hclaim := updateClaimPart_spec latestConfig cm
    simp only [updateFromPeers_eq, Option.isSome_some, if_true]
    cases hread : ClaimInfo.read latestConfig with
    | ok claim =>
      rw [hread] at hclaim
      obtain ⟨hafter, hok⟩ := updatePeerInfos_spec [] peers (withClaim { cm with allowedPeers := .empty } claim)
      constructor
      · rw [after_bind_ok hclaim, hafter]
        rfl
      · rw [run_bind, hclaim]
        simpa [Except.isOk, Except.toBool] using hok
    | error fault =>
      rw [hread] at hclaim
      obtain ⟨cm', hrun, hpeers⟩ := hclaim
      constructor
      · rw [after, run_bind, hrun]
        exact hpeers
      · rw [run_bind, hrun]
        simp [Except.isOk, Except.toBool]

def cachedPayload (cm : ConfigManager) : Json := (cm.cacheJson.find? CACHE_KEY_GETCONFIG).getD .null

/-- What an update makes of the peers, and when it returns. -/
theorem updateGetConfigData_spec (cm : ConfigManager) :
    (after updateGetConfigData cm).allowedPeers =
        (if (peerEntries cm.cachedPayload).isSome then .insertAll .empty (listedAddresses cm.cachedPayload)
          else cm.allowedPeers) ∧
      ((∃ cm', updateGetConfigData cm = .ok () cm') ↔
        peerEntries cm.cachedPayload = none ∨ wellFormedPayload cm.cachedPayload = true) := by
  obtain ⟨j, hmember⟩ := cacheMember_eq CACHE_KEY_GETCONFIG cm
  obtain ⟨hpeers, hok⟩ := updateHostsEntries_spec cm.cachedPayload { cm with cacheJson := j }
  dsimp only at hpeers
  rw [updateGetConfigData, after_bind_ok hmember, run_bind, hmember, ← cachedPayload, ← hpeers, ← hok, after, after,
    run_bind]
  dsimp only
  rw [run_bind]
  cases updateHostsEntries cm.cachedPayload { cm with cacheJson := j } with
  | ok entries cm' => exact ⟨rfl, ⟨fun _ => ⟨entries, cm', rfl⟩, fun _ => ⟨_, rfl⟩⟩⟩
  | error fault cm' =>
    refine ⟨rfl, ⟨fun hrun => ?_, fun hrun => ?_⟩⟩
    · obtain ⟨_, hrun⟩ := hrun
      cases hrun
    · obtain ⟨_, _, hrun⟩ := hrun
      cases hrun

theorem updateGetConfigData_noPeers {cm : ConfigManager} (h : peerEntries cm.cachedPayload = none) :
    ∃ j, updateGetConfigData cm = .ok () { cm with
      cacheJson := j
      portCalls := cm.portCalls ++ [.updateHostsFile [(ascii "husarnet-local", cm.ourIp)]] } := by
  obtain ⟨j, hmember⟩ := cacheMember_eq CACHE_KEY_GETCONFIG cm
  refine ⟨j, ?_⟩
  rw [updateGetConfigData, run_bind, hmember, ← cachedPayload]
  dsimp only
  rw [updateHostsEntries_eq, h]
  rfl

end ConfigManager
end Husarnet
