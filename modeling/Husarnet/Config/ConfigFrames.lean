import Husarnet.Config.ConfigManager

/-! # What the calls of the configuration manager leave alone

Frame lemmas for the parts of the manager that the periodic thread's correctness is about: the
licence with its address lists, and the timer of the next get_config.
-/

namespace Husarnet
open Octets JsonDoc StateProgram
set_option autoImplicit false

namespace ConfigManager

/-! ## A get_config payload -/

/-- The fields that a get_config payload has no part in. -/
def outsideGetConfig (cm : ConfigManager) :=
  (cm.enableControlplane, cm.allowEveryone, cm.ourIp, cm.userConfigJson, cm.cacheJson.find? CACHE_KEY_LICENSE,
    cm.nextLicenseDownload, cm.nextGetConfigUpdate, cm.userWhitelist, cm.baseAddresses, cm.apiAddresses,
    cm.ebAddresses)

/-- The timer of the next get_config and the switch that it depends on. -/
def timer (cm : ConfigManager) : Bool × ℤ := (cm.enableControlplane, cm.nextGetConfigUpdate)

def addressLists (cm : ConfigManager) : List InternetAddress × List HusarnetAddress × List HusarnetAddress :=
  (cm.baseAddresses.elems, cm.apiAddresses.elems, cm.ebAddresses.elems)

def license (cm : ConfigManager) := (cm.addressLists, cm.cacheJson.find? CACHE_KEY_LICENSE)

theorem license_ne_getConfig : CACHE_KEY_LICENSE ≠ CACHE_KEY_GETCONFIG := by decide

theorem frame_storeGetConfig (doc : Json) : Frame outsideGetConfig (storeGetConfig doc) :=
  .modify fun cm => by simp only [outsideGetConfig, Json.find?_setMember_ne _ _ license_ne_getConfig]

theorem frame_cacheMember_getConfig : Frame outsideGetConfig (cacheMember CACHE_KEY_GETCONFIG) := by
  refine .bind .get fun cm => ?_
  cases cm.cacheJson.find? CACHE_KEY_GETCONFIG with
  | some j => exact .pure j
  | none =>
    refine .bind (.modify fun cm => ?_) fun _ => .pure _
    simp only [outsideGetConfig, Json.find?_setMember_ne _ _ license_ne_getConfig]

theorem cacheMember_eq (key : Bytes) (cm : ConfigManager) :
    ∃ j, cacheMember key cm = .ok ((cm.cacheJson.find? key).getD .null) { cm with cacheJson := j } := by
  rw [cacheMember, get_bind]
  cases cm.cacheJson.find? key with
  | some j => exact ⟨cm.cacheJson, rfl⟩
  | none => exact ⟨cm.cacheJson.setMember key .null, rfl⟩

theorem frame_callPortIf (condition : Bool) (portCall : PortCall) :
    Frame outsideGetConfig (callPortIf condition portCall) := .modify fun _ => rfl

theorem frame_updateClaim (latestConfig : Json) (claimed : Bool) :
    Frame outsideGetConfig (updateClaim latestConfig claimed) := by
  refine .ite ?_ (.modify fun _ => rfl)
  refine .bind (.lift _) fun _ => .bind (.lift _) fun _ => .bind (.lift _) fun _ => ?_
  refine .bind (.modify fun _ => rfl) fun _ => .bind (.lift _) fun _ => .bind (.lift _) fun _ => ?_
  exact frame_callPortIf _ _

theorem frame_updatePeerInfo (hostsEntries : List (Bytes × HusarnetAddress)) (peerInfo : Json) :
    Frame outsideGetConfig (updatePeerInfo hostsEntries peerInfo) := by
  refine .bind (.lift _) fun _ => .bind (.lift _) fun _ => .bind (.lift _) fun _ => ?_
  exact .bind (.modify fun _ => rfl) fun _ => .pure _

theorem frame_updatePeerInfos (hostsEntries : List (Bytes × HusarnetAddress)) (peerInfos : List Json) :
    Frame outsideGetConfig (updatePeerInfos hostsEntries peerInfos) := by
  induction peerInfos generalizing hostsEntries with
  | nil => exact .pure _
  | cons peerInfo peerInfos ih => exact .bind (frame_updatePeerInfo _ _) ih

theorem frame_updateHostsEntries (latestConfig : Json) :
    Frame outsideGetConfig (updateHostsEntries latestConfig) := by
  unfold updateHostsEntries
  split
  · refine .bind (.modify fun _ => rfl) fun _ => .bind .get fun _ => .bind (.lift _) fun _ => ?_
    refine .bind (.modify fun _ => rfl) fun _ => .bind (frame_updateClaim _ _) fun _ => .bind .get fun _ => ?_
    exact .bind (frame_callPortIf _ _) fun _ => .bind (frame_callPortIf _ _) fun _ => frame_updatePeerInfos _ _
  · exact .pure _

theorem frame_updateGetConfigData : Frame outsideGetConfig updateGetConfigData := by
  refine .bind frame_cacheMember_getConfig fun _ => .bind (frame_updateHostsEntries _) fun _ => ?_
  exact .bind .get fun _ => frame_callPortIf _ _

theorem frame_timer_of_outside {α : Type} {m : Cm α} (h : Frame outsideGetConfig m) : Frame timer m :=
  h.comp (g := fun v => (v.1, v.2.2.2.2.2.2.1))

theorem frame_license_of_outside {α : Type} {m : Cm α} (h : Frame outsideGetConfig m) : Frame license m :=
  h.comp (g := fun v => ((v.2.2.2.2.2.2.2.2.1.elems, v.2.2.2.2.2.2.2.2.2.1.elems,
    v.2.2.2.2.2.2.2.2.2.2.elems), v.2.2.2.2.1))

/-! ## The files and the licence -/

section Calls
variable {τ : Type} {f : ConfigManager → τ}

theorem frame_storeCacheMember (jsonDoc : Json) (key : Bytes)
    (h : ∀ cm j, f { cm with cacheJson := j } = f cm) : Frame f (storeCacheMember jsonDoc key) := by
  unfold storeCacheMember
  split
  · exact .modify fun cm => h cm _
  · exact .pure _

theorem frame_readCache (T : JsonText) (h : ∀ cm j, f { cm with cacheJson := j } = f cm) :
    Frame f (readCache T) := by
  refine .bind .get fun cm => .ite (.pure _) ?_
  cases T.parse cm.cacheFile with
  | none => exact .pure _
  | some doc =>
    refine .bind (.bind (frame_storeCacheMember _ _ h) fun _ => ?_) fun _ => .pure _
    exact frame_storeCacheMember _ _ h

theorem frame_storeUserConfig (jsonDoc : Json) (h : ∀ cm j, f { cm with userConfigJson := j } = f cm) :
    Frame f (storeUserConfig jsonDoc) := by
  unfold storeUserConfig
  split
  · exact .modify fun cm => h cm _
  · exact .pure _

theorem frame_readUserConfig (T : JsonText) (h : ∀ cm j, f { cm with userConfigJson := j } = f cm) :
    Frame f (readUserConfig T) := by
  refine .bind .get fun cm => ?_
  dsimp only
  split
  · exact .bind (frame_storeUserConfig _ h) fun _ => .pure _
  · exact .bind (frame_storeUserConfig _ h) fun _ => .pure _

theorem frame_updateUserConfigData (h : ∀ cm whitelist, f { cm with userWhitelist := whitelist } = f cm) :
    Frame f updateUserConfigData := by
  refine .bind .get fun cm => ?_
  split
  · refine .bind (.modify fun cm => h cm _) fun _ => .bind (.lift _) fun _ => ?_
    exact .modify fun cm => h cm _
  · exact .pure _

theorem frame_fetchLicenseJson (T : JsonText) (S : Sodium) (result : HttpResult) (now : ℤ)
    (hj : ∀ cm j, f { cm with cacheJson := j } = f cm)
    (hn : ∀ cm next, f { cm with nextLicenseDownload := next } = f cm) :
    Frame f (fetchLicenseJson T S result now) := by
  refine .ite (.pure _) (.bind (.lift _) fun _ => ?_)
  split
  · exact .bind (.modify fun cm => hj cm _) fun _ => .bind (.modify fun cm => hn cm _) fun _ => .pure _
  · exact .pure _

theorem frame_cacheMember (key : Bytes) (h : ∀ cm j, f { cm with cacheJson := j } = f cm) :
    Frame f (cacheMember key) := by
  refine .bind .get fun cm => ?_
  split
  · exact .pure _
  · exact .bind (.modify fun cm => h cm _) fun _ => .pure _

theorem frame_pushEbAddresses (ips : List HusarnetAddress)
    (h : ∀ cm eb peers, f { cm with ebAddresses := eb, allowedPeers := peers } = f cm) :
    Frame f (ips.forM pushEbAddress) := by
  refine .forM (fun ip => .bind .get fun cm => ?_) ips
  split
  · exact .throw _
  · exact .modify fun cm => h cm _ _

theorem frame_pushApiAddresses (ips : List HusarnetAddress)
    (h : ∀ cm api peers, f { cm with apiAddresses := api, allowedPeers := peers } = f cm) :
    Frame f (ips.forM pushApiAddress) := by
  refine .forM (fun ip => .bind .get fun cm => ?_) ips
  split
  · exact .throw _
  · exact .modify fun cm => h cm _ _

theorem frame_pushBaseAddresses (ips : List InternetAddress)
    (h : ∀ cm base, f { cm with baseAddresses := base } = f cm) : Frame f (ips.forM pushBaseAddress) := by
  refine .forM (fun ip => .bind .get fun cm => ?_) ips
  split
  · exact .throw _
  · exact .modify fun cm => h cm _

theorem frame_updateLicenseData (hj : ∀ cm j, f { cm with cacheJson := j } = f cm)
    (heb : ∀ cm eb peers, f { cm with ebAddresses := eb, allowedPeers := peers } = f cm)
    (hapi : ∀ cm api peers, f { cm with apiAddresses := api, allowedPeers := peers } = f cm)
    (hbase : ∀ cm base, f { cm with baseAddresses := base } = f cm) : Frame f updateLicenseData := by
  refine .bind (frame_cacheMember _ hj) fun licenseJson => ?_
  split
  · exact .pure _
  · refine .bind (.lift _) fun _ => .bind (.modify fun cm => heb cm .empty cm.allowedPeers) fun _ => ?_
    refine .bind (frame_pushEbAddresses _ heb) fun _ => .bind (.lift _) fun _ => ?_
    refine .bind (.modify fun cm => hapi cm .empty cm.allowedPeers) fun _ => .bind (frame_pushApiAddresses _ hapi) fun _ => ?_
    refine .bind (.lift _) fun _ => .bind (.modify fun cm => hbase cm .empty) fun _ => ?_
    exact frame_pushBaseAddresses _ hbase

theorem frame_timer_updateLicenseData : Frame timer updateLicenseData := by
  refine .bind (frame_cacheMember _ fun _ _ => rfl) fun licenseJson => ?_
  split
  · exact .pure _
  · refine .bind (.lift _) fun _ => .bind (.modify fun _ => rfl) fun _ => ?_
    refine .bind (frame_pushEbAddresses _ fun _ _ _ => rfl) fun _ => .bind (.lift _) fun _ => ?_
    refine .bind (.modify fun _ => rfl) fun _ => .bind (frame_pushApiAddresses _ fun _ _ _ => rfl) fun _ => ?_
    refine .bind (.lift _) fun _ => .bind (.modify fun _ => rfl) fun _ => ?_
    exact frame_pushBaseAddresses _ fun _ _ => rfl

/-! ## The daemon API -/

theorem frame_userWhitelistAdd (T : JsonText) (address : HusarnetAddress)
    (h : ∀ cm whitelist file, f { cm with userWhitelist := whitelist, configFile := file } = f cm) :
    Frame f (userWhitelistAdd T address) := by
  refine .bind .get fun cm => .ite (.pure _) (.ite (.pure _) ?_)
  exact .bind (.modify fun cm => h cm _ cm.configFile) fun _ =>
    .bind (.modify fun cm => h cm cm.userWhitelist _) fun _ => .pure _

theorem frame_userWhitelistRm (address : HusarnetAddress)
    (h : ∀ cm whitelist file, f { cm with userWhitelist := whitelist, configFile := file } = f cm) :
    Frame f (userWhitelistRm address) := by
  refine .bind .get fun cm => .ite ?_ (.pure _)
  exact .bind (.modify fun cm => h cm _ cm.configFile) fun _ => .pure _

end Calls

end ConfigManager
end Husarnet
