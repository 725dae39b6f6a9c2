import Husarnet.Config.Licensing
import Husarnet.Lib.StateProgram

/-! # config_manager.cpp

The configuration manager with the documents it keeps, the containers derived from them, the two
files it writes and the calls it makes into the port. A program of it keeps its writes when a
JSON exception leaves it. Times are milliseconds of the steady clock.
-/

namespace Husarnet
open Octets JsonDoc Containers StateProgram
set_option autoImplicit false

def ALLOWED_PEERS_LIMIT : ℕ := 128
def USER_WHITELIST_SIZE_LIMIT : ℕ := 8
def BASE_ADDRESSES_LIMIT : ℕ := 16
def DASHBOARD_API_ADDRESSES_LIMIT : ℕ := 16
def EVENTBUS_ADDRESSES_LIMIT : ℕ := 16
def EMAIL_MAX_LENGTH : ℕ := 254
def HOSTNAME_MAX_LENGTH : ℕ := 255

def USERCONFIG_KEY_WHITELIST : Bytes := ascii "local-whitelist"
def CACHE_KEY_LICENSE : Bytes := ascii "license"
def CACHE_KEY_GETCONFIG : Bytes := ascii "get_config"
def GETCONFIG_KEY_PEERS : Bytes := ascii "peers"
def GETCONFIG_KEY_PEERINFO_IP : Bytes := ascii "address"
def GETCONFIG_KEY_PEERINFO_HOSTNAME : Bytes := ascii "hostname"
def GETCONFIG_KEY_PEERINFO_ALIASES : Bytes := ascii "aliases"
def GETCONFIG_KEY_IS_CLAIMED : Bytes := ascii "is_claimed"
def GETCONFIG_KEY_CLAIMINFO : Bytes := ascii "claim_info"
def GETCONFIG_KEY_CLAIMINFO_OWNER : Bytes := ascii "owner"
def GETCONFIG_KEY_CLAIMINFO_HOSTNAME : Bytes := ascii "hostname"
def GETCONFIG_KEY_FEATUREFLAGS : Bytes := ascii "features"
def GETCONFIG_KEY_FEATUREFLAGS_SYNCHOSTNAME : Bytes := ascii "SyncHostname"

def getConfigRefreshPeriod : ℤ := 10 * 60 * 1000
def licenseRefreshPeriod : ℤ := 30 * 60 * 1000

/-- nlohmann's text side. `parse` gives `none` for a discarded document. -/
structure JsonText where
  parse : Bytes → Option Json
  dump : Json → Bytes

/-- The result of `Port::httpGet`; the status is -1 when the request failed. -/
structure HttpResult where
  statusCode : ℤ
  bytes : Bytes

inductive HookType where
  | claimed
  | unclaimed
  deriving DecidableEq, Repr

/-- The calls made into the port and the hooks manager, in order. -/
inductive PortCall where
  | setSelfHostname (newHostname : Bytes)
  | updateHostsFile (data : List (Bytes × HusarnetAddress))
  | scheduleHook (hook : HookType)
  deriving DecidableEq

structure ConfigManager where
  enableControlplane : Bool
  ourIp : HusarnetAddress
  userConfigJson : Json := .object []
  cacheJson : Json := .object []
  allowEveryone : Bool
  claimed : Bool := false
  nextLicenseDownload : ℤ
  nextGetConfigUpdate : ℤ
  allowedPeers : BoundedSet HusarnetAddress ALLOWED_PEERS_LIMIT := .empty
  userWhitelist : BoundedSet HusarnetAddress USER_WHITELIST_SIZE_LIMIT := .empty
  baseAddresses : BoundedVec InternetAddress BASE_ADDRESSES_LIMIT := .empty
  apiAddresses : BoundedVec HusarnetAddress DASHBOARD_API_ADDRESSES_LIMIT := .empty
  ebAddresses : BoundedVec HusarnetAddress EVENTBUS_ADDRESSES_LIMIT := .empty
  claimedBy : Bytes := []
  hostname : Bytes := []
  /-- What is stored under `StorageKey::config`. -/
  configFile : Bytes
  /-- What is stored under `StorageKey::cache`. -/
  cacheFile : Bytes
  portCalls : List PortCall := []

/-- A member function of the manager. -/
abbrev Cm (α : Type) : Type := EStateM ConfigFault ConfigManager α

namespace ConfigManager

/-- The constructor, on a host with these two files. -/
def new (enableControlplane : Bool) (ourIp : HusarnetAddress) (now : ℤ) (configFile cacheFile : Bytes) :
    ConfigManager where
  enableControlplane := enableControlplane
  ourIp := ourIp
  allowEveryone := !enableControlplane
  nextLicenseDownload := now
  nextGetConfigUpdate := now + 5 * 1000
  configFile := configFile
  cacheFile := cacheFile

/-! ## Access decisions -/

def isPeerAllowed (cm : ConfigManager) (address : HusarnetAddress) : Bool :=
  cm.allowEveryone || cm.apiAddresses.elems.contains address || cm.ebAddresses.elems.contains address
    || decide (address ∈ cm.userWhitelist) || decide (address ∈ cm.allowedPeers)

def getBaseAddresses (cm : ConfigManager) : List InternetAddress := cm.baseAddresses.elems

def getMulticastDestinations (cm : ConfigManager) (_id : HusarnetAddress) : List HusarnetAddress :=
  cm.allowedPeers.elems

def getApiAddress (cm : ConfigManager) : HusarnetAddress := cm.apiAddresses.elems.headD .invalid

/-! ## The licence -/

/-- `const auto& doc = this->cacheJson[key]`: a missing member is made null. -/
def cacheMember (key : Bytes) : Cm Json := do
  let cm ← get
  match cm.cacheJson.find? key with
  | some j => return j
  | none =>
    modify fun cm => { cm with cacheJson := cm.cacheJson.setMember key .null }
    return .null

def storeLicense (jsonDoc : Json) : Cm Unit :=
  modify fun cm => { cm with cacheJson := cm.cacheJson.setMember CACHE_KEY_LICENSE jsonDoc }

/-- The document that a download brings, when the licence server replied and its licence is valid. -/
def downloadedLicense (T : JsonText) (S : Sodium) (result : HttpResult) : Option Json :=
  if result.statusCode ≠ 200 then none
  else match T.parse result.bytes, isLicenseValid S (T.parse result.bytes) with
    | some doc, .ok true => some doc
    | _, _ => none

/-- `fetchLicenseJson()`, given what the download returned and the time after it. -/
def fetchLicenseJson (T : JsonText) (S : Sodium) (result : HttpResult) (now : ℤ) : Cm Bool :=
  if result.statusCode ≠ 200 then return false
  else do
    let licenseJson := T.parse result.bytes
    let valid ← lift (isLicenseValid S licenseJson)
    match valid, licenseJson with
    | true, some doc =>
      storeLicense doc
      modify fun cm => { cm with nextLicenseDownload := now + licenseRefreshPeriod }
      return true
    | _, _ => return false

def pushEbAddress (ip : HusarnetAddress) : Cm PUnit := do
  let cm ← get
  match cm.ebAddresses.push ip with
  | none => throw .vectorFull
  | some v => modify fun cm => { cm with ebAddresses := v, allowedPeers := cm.allowedPeers.insert ip }

def pushApiAddress (ip : HusarnetAddress) : Cm PUnit := do
  let cm ← get
  match cm.apiAddresses.push ip with
  | none => throw .vectorFull
  | some v => modify fun cm => { cm with apiAddresses := v, allowedPeers := cm.allowedPeers.insert ip }

def pushBaseAddress (ip : InternetAddress) : Cm PUnit := do
  let cm ← get
  match cm.baseAddresses.push ip with
  | none => throw .vectorFull
  | some v => modify fun cm => { cm with baseAddresses := v }

/-- `licenseJson[key].get<std::vector<std::string>>()`. -/
def licenseStrings (licenseJson : Json) (key : Bytes) : Except ConfigFault (List Bytes) :=
  access (licenseJson.member key >>= Json.getStrings)

/-- The part of `updateLicenseData` for a cache that has a licence. -/
def updateAddressLists (licenseJson : Json) : Cm Unit := do
  let ebServerIps ← lift (licenseStrings licenseJson LICENSE_EB_SERVERS_KEY)
  modify fun cm => { cm with ebAddresses := .empty }
  (ebServerIps.map IpAddress.parse).forM pushEbAddress
  let apiServerIps ← lift (licenseStrings licenseJson LICENSE_API_SERVERS_KEY)
  modify fun cm => { cm with apiAddresses := .empty }
  (apiServerIps.map IpAddress.parse).forM pushApiAddress
  let baseServerIps ← lift (licenseStrings licenseJson LICENSE_BASE_SERVER_ADDRESSES_KEY)
  modify fun cm => { cm with baseAddresses := .empty }
  (baseServerIps.map IpAddress.parse).forM pushBaseAddress

def updateLicenseData : Cm Unit := do
  let licenseJson ← cacheMember CACHE_KEY_LICENSE
  match licenseJson with
  | .null => return ()
  | _ => updateAddressLists licenseJson

/-! ## The configuration from the dashboard -/

def storeGetConfig (jsonDoc : Json) : Cm Unit :=
  modify fun cm => { cm with cacheJson := cm.cacheJson.setMember CACHE_KEY_GETCONFIG jsonDoc }

def callPortIf (condition : Bool) (call : PortCall) : Cm Unit :=
  modify fun cm => { cm with portCalls := cm.portCalls ++ if condition then [call] else [] }

/-- `etl::string<n>(s.c_str())`, which truncates. -/
def etlString (n : ℕ) (s : Bytes) : Bytes := (IpAddress.cstr s).take n

/-- The claim information of a payload whose device is claimed. -/
def updateClaimInfo (latestConfig : Json) : Cm Unit := do
  let claimInfo ← lift (access (latestConfig.member GETCONFIG_KEY_CLAIMINFO))
  let ownerStr ← lift (access (claimInfo.memberOrNull GETCONFIG_KEY_CLAIMINFO_OWNER >>= Json.getString))
  let hostnameStr ← lift (access (claimInfo.memberOrNull GETCONFIG_KEY_CLAIMINFO_HOSTNAME >>= Json.getString))
  modify fun cm => { cm with
    claimedBy := etlString EMAIL_MAX_LENGTH ownerStr
    hostname := etlString HOSTNAME_MAX_LENGTH hostnameStr }
  let featureFlags ← lift (access (latestConfig.member GETCONFIG_KEY_FEATUREFLAGS))
  let shouldSyncHostname ←
    lift (access (featureFlags.memberOrNull GETCONFIG_KEY_FEATUREFLAGS_SYNCHOSTNAME >>= Json.getBool))
  callPortIf shouldSyncHostname (.setSelfHostname hostnameStr)

def updateClaim (latestConfig : Json) (claimed : Bool) : Cm Unit :=
  if claimed then updateClaimInfo latestConfig
  else modify fun cm => { cm with claimedBy := [] }

/-- One entry of the peer list: the address is allowed, its names go to the hosts entries. -/
def updatePeerInfo (hostsEntries : List (Bytes × HusarnetAddress)) (peerInfo : Json) :
    Cm (List (Bytes × HusarnetAddress)) := do
  let addrStr ← lift (access (peerInfo.member GETCONFIG_KEY_PEERINFO_IP >>= Json.getString))
  let peerHostname ← lift (access (peerInfo.member GETCONFIG_KEY_PEERINFO_HOSTNAME >>= Json.getString))
  let aliases ← lift (access (peerInfo.member GETCONFIG_KEY_PEERINFO_ALIASES >>= Json.getStrings))
  let addr := IpAddress.parse addrStr
  modify fun cm => { cm with allowedPeers := cm.allowedPeers.insert addr }
  return aliases.foldl (fun entries name => insertNew entries name addr) (insertNew hostsEntries peerHostname addr)

def updatePeerInfos : List (Bytes × HusarnetAddress) → List Json → Cm (List (Bytes × HusarnetAddress))
  | hostsEntries, [] => return hostsEntries
  | hostsEntries, peerInfo :: peerInfos => do
    let hostsEntries ← updatePeerInfo hostsEntries peerInfo
    updatePeerInfos hostsEntries peerInfos

/-- The part of `updateGetConfigData` for a payload with a peer list. -/
def updateFromPeers (latestConfig : Json) (peers : List Json) : Cm (List (Bytes × HusarnetAddress)) := do
  modify fun cm => { cm with allowedPeers := cm.allowedPeers.clear }
  let previousOwner := (← get).claimedBy
  let claimed ← lift (access (latestConfig.member GETCONFIG_KEY_IS_CLAIMED >>= Json.getBool))
  modify fun cm => { cm with claimed := claimed }
  updateClaim latestConfig claimed
  let owner := (← get).claimedBy
  callPortIf (previousOwner.isEmpty && !owner.isEmpty) (.scheduleHook .claimed)
  callPortIf (!previousOwner.isEmpty && owner.isEmpty) (.scheduleHook .unclaimed)
  updatePeerInfos [] peers

/-- The entries for the hosts file: none when the payload has no peer list. -/
def updateHostsEntries (latestConfig : Json) : Cm (List (Bytes × HusarnetAddress)) :=
  match latestConfig.find? GETCONFIG_KEY_PEERS with
  | some (.array peers) => updateFromPeers latestConfig peers
  | _ => pure []

def updateGetConfigData : Cm Unit := do
  let latestConfig ← cacheMember CACHE_KEY_GETCONFIG
  let hostsEntries ← updateHostsEntries latestConfig
  let cm ← get
  callPortIf true (.updateHostsFile (insertNew hostsEntries (ascii "husarnet-local") cm.ourIp))

/-! ## User configuration and cache files -/

/-- The whitelist member of a document, when it has one and it is an array. -/
def whitelistEntries (jsonDoc : Json) : Option (List Json) :=
  match jsonDoc.find? USERCONFIG_KEY_WHITELIST with
  | some (.array xs) => some xs
  | _ => none

def storeUserConfig (jsonDoc : Json) : Cm Unit :=
  match whitelistEntries jsonDoc with
  | some xs =>
    modify fun cm => { cm with
      userConfigJson := cm.userConfigJson.setMember USERCONFIG_KEY_WHITELIST (.array xs) }
  | none => return ()

def readUserConfig (T : JsonText) : Cm Bool := do
  let contents := (← get).configFile
  let contents := if contents.isEmpty then ascii "{}" else contents
  match T.parse contents with
  | none =>
    storeUserConfig (.object [])
    return false
  | some parsedContents =>
    storeUserConfig parsedContents
    return true

def updateUserConfigData : Cm Unit := do
  let cm ← get
  match whitelistEntries cm.userConfigJson with
  | some xs =>
    modify fun cm => { cm with userWhitelist := cm.userWhitelist.clear }
    let entries ← lift (access (Json.array xs).getStrings)
    modify fun cm => { cm with
      userWhitelist := cm.userWhitelist.insertAll ((entries.map IpAddress.parse).filter (·.isFC94)) }
  | none => return ()

/-- `writeUserConfig()` when the write succeeds. -/
def writeUserConfig (T : JsonText) : Cm Unit :=
  modify fun cm => { cm with configFile := T.dump cm.userConfigJson }

/-- A member of the stored cache is taken over when it is an object. -/
def storeCacheMember (jsonDoc : Json) (key : Bytes) : Cm Unit :=
  match jsonDoc.find? key with
  | some (.object ms) => modify fun cm => { cm with cacheJson := cm.cacheJson.setMember key (.object ms) }
  | _ => pure ()

def storeCache (jsonDoc : Json) : Cm Unit := do
  storeCacheMember jsonDoc CACHE_KEY_GETCONFIG
  storeCacheMember jsonDoc CACHE_KEY_LICENSE

def readCache (T : JsonText) : Cm Bool := do
  let contents := (← get).cacheFile
  if contents.isEmpty then return false
  else match T.parse contents with
    | none => return false
    | some parsedContents =>
      storeCache parsedContents
      return true

def writeCache (T : JsonText) : Cm Unit :=
  modify fun cm => { cm with cacheFile := T.dump cm.cacheJson }

/-! ## Whitelist and trigger -/

/-- `userWhitelistAdd`, with a storage that takes the write. -/
def userWhitelistAdd (T : JsonText) (address : HusarnetAddress) : Cm Bool := do
  let cm ← get
  if address ∈ cm.userWhitelist then return false
  else if cm.userWhitelist.full then return false
  else
    modify fun cm => { cm with userWhitelist := cm.userWhitelist.insert address }
    writeUserConfig T
    return true

def userWhitelistRm (address : HusarnetAddress) : Cm Bool := do
  let cm ← get
  if address ∈ cm.userWhitelist then
    modify fun cm => { cm with userWhitelist := cm.userWhitelist.erase address }
    return true
  else return false

def triggerGetConfig (now : ℤ) : Cm Unit := modify fun cm => { cm with nextGetConfigUpdate := now }

end ConfigManager
end Husarnet
