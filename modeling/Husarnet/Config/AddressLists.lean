import Husarnet.Config.LicenseInEffect

/-! # The address lists of a licence, as far as an update gets

`updateLicenseData` refills one list after another. Each list is cleared when its member was read,
and filled until it is full; a fault leaves the lists before it renewed and the others as they were.
-/

namespace Husarnet
open Octets JsonDoc Containers StateProgram
set_option autoImplicit false

namespace ConfigManager

def installEb (cm : ConfigManager) (ips : List HusarnetAddress) : ConfigManager :=
  { cm with
    ebAddresses := .pushAll .empty ips
    allowedPeers := cm.allowedPeers.insertAll (ips.take EVENTBUS_ADDRESSES_LIMIT) }

def installApi (cm : ConfigManager) (ips : List HusarnetAddress) : ConfigManager :=
  { cm with
    apiAddresses := .pushAll .empty ips
    allowedPeers := cm.allowedPeers.insertAll (ips.take DASHBOARD_API_ADDRESSES_LIMIT) }

def installBase (cm : ConfigManager) (ips : List InternetAddress) : ConfigManager :=
  { cm with baseAddresses := .pushAll .empty ips }

theorem refillEb_eq (ips : List HusarnetAddress) (cm : ConfigManager) :
    ips.forM pushEbAddress { cm with ebAddresses := .empty } =
      if ips.length ≤ EVENTBUS_ADDRESSES_LIMIT then .ok () (cm.installEb ips)
      else .error .vectorFull (cm.installEb ips) := by
  have h := forM_pushes (fun cm : ConfigManager => cm.ebAddresses)
    (fun cm eb as => { cm with ebAddresses := eb, allowedPeers := cm.allowedPeers.insertAll as })
    (k := pushEbAddress) (fun ip cm h => by rw [pushEbAddress, get_bind, h]; rfl)
    (fun ip cm v h => by rw [pushEbAddress, get_bind, h]; rfl)
    (fun _ => rfl) (fun _ _ _ => rfl) (fun _ _ _ _ _ => rfl) ips { cm with ebAddresses := .empty }
  rw [h, BoundedVec.empty_elems, List.length_nil, Nat.zero_add, Nat.sub_zero]
  rfl

theorem refillApi_eq (ips : List HusarnetAddress) (cm : ConfigManager) :
    ips.forM pushApiAddress { cm with apiAddresses := .empty } =
      if ips.length ≤ DASHBOARD_API_ADDRESSES_LIMIT then .ok () (cm.installApi ips)
      else .error .vectorFull (cm.installApi ips) := by
  have h := forM_pushes (fun cm : ConfigManager => cm.apiAddresses)
    (fun cm api as => { cm with apiAddresses := api, allowedPeers := cm.allowedPeers.insertAll as })
    (k := pushApiAddress) (fun ip cm h => by rw [pushApiAddress, get_bind, h]; rfl)
    (fun ip cm v h => by rw [pushApiAddress, get_bind, h]; rfl)
    (fun _ => rfl) (fun _ _ _ => rfl) (fun _ _ _ _ _ => rfl) ips { cm with apiAddresses := .empty }
  rw [h, BoundedVec.empty_elems, List.length_nil, Nat.zero_add, Nat.sub_zero]
  rfl

theorem refillBase_eq (ips : List InternetAddress) (cm : ConfigManager) :
    ips.forM pushBaseAddress { cm with baseAddresses := .empty } =
      if ips.length ≤ BASE_ADDRESSES_LIMIT then .ok () (cm.installBase ips)
      else .error .vectorFull (cm.installBase ips) := by
  have h := forM_pushes (fun cm : ConfigManager => cm.baseAddresses)
    (fun cm base _ => { cm with baseAddresses := base })
    (k := pushBaseAddress) (fun ip cm h => by rw [pushBaseAddress, get_bind, h]; rfl)
    (fun ip cm v h => by rw [pushBaseAddress, get_bind, h]; rfl)
    (fun _ => rfl) (fun _ _ _ => rfl) (fun _ _ _ _ _ => rfl) ips { cm with baseAddresses := .empty }
  rw [h, BoundedVec.empty_elems, List.length_nil, Nat.zero_add]
  rfl

/-- The strings of a list member, as addresses. -/
def serverAddresses (licenseJson : Json) (key : Bytes) : Except ConfigFault (List IpAddress) :=
  (licenseStrings licenseJson key).map fun ips => ips.map IpAddress.parse

/-- What an update does to the manager, list by list. -/
theorem updateAddressLists_eq (licenseJson : Json) (cm : ConfigManager) :
    updateAddressLists licenseJson cm =
      match serverAddresses licenseJson LICENSE_EB_SERVERS_KEY with
      | .error fault => .error fault cm
      | .ok eb =>
        let cm := cm.installEb eb
        if EVENTBUS_ADDRESSES_LIMIT < eb.length then .error .vectorFull cm
        else match serverAddresses licenseJson LICENSE_API_SERVERS_KEY with
          | .error fault => .error fault cm
          | .ok api =>
            let cm := cm.installApi api
            if DASHBOARD_API_ADDRESSES_LIMIT < api.length then .error .vectorFull cm
            else match serverAddresses licenseJson LICENSE_BASE_SERVER_ADDRESSES_KEY with
              | .error fault => .error fault cm
              | .ok base =>
                if BASE_ADDRESSES_LIMIT < base.length then .error .vectorFull (cm.installBase base)
                else .ok () (cm.installBase base) := by
  unfold updateAddressLists serverAddresses
  cases licenseStrings licenseJson LICENSE_EB_SERVERS_KEY with
  | error fault => rfl
  | ok eb =>
    simp only [lift_ok_bind, modify_bind, Except.map]
    rw [run_bind, refillEb_eq]
    by_cases heb : EVENTBUS_ADDRESSES_LIMIT < (eb.map IpAddress.parse).length
    · rw [if_pos heb, if_neg (by omega)]
    · rw [if_neg heb, if_pos (by omega)]
      cases licenseStrings licenseJson LICENSE_API_SERVERS_KEY with
      | error fault => rfl
      | ok api =>
        simp only [lift_ok_bind, modify_bind]
        rw [run_bind, refillApi_eq]
        by_cases hapi : DASHBOARD_API_ADDRESSES_LIMIT < (api.map IpAddress.parse).length
        · rw [if_pos hapi, if_neg (by omega)]
        · rw [if_neg hapi, if_pos (by omega)]
          cases licenseStrings licenseJson LICENSE_BASE_SERVER_ADDRESSES_KEY with
          | error fault => rfl
          | ok base =>
            simp only [lift_ok_bind, modify_bind]
            rw [refillBase_eq]
            by_cases hbase : BASE_ADDRESSES_LIMIT < (base.map IpAddress.parse).length
            · rw [if_pos hbase, if_neg (by omega)]
            · rw [if_neg hbase, if_pos (by omega)]

theorem parsedLists_ok {licenseJson : Json} {base : List InternetAddress} {api eb : List HusarnetAddress}
    (h : parsedLists licenseJson = .ok (base, api, eb)) :
    serverAddresses licenseJson LICENSE_EB_SERVERS_KEY = .ok eb ∧
      serverAddresses licenseJson LICENSE_API_SERVERS_KEY = .ok api ∧
      serverAddresses licenseJson LICENSE_BASE_SERVER_ADDRESSES_KEY = .ok base := by
  unfold parsedLists at h
  unfold serverAddresses
  cases heb : licenseStrings licenseJson LICENSE_EB_SERVERS_KEY with
  | error fault =>
    rw [heb] at h
    cases h
  | ok ebServerIps =>
    cases hapi : licenseStrings licenseJson LICENSE_API_SERVERS_KEY with
    | error fault =>
      rw [heb, hapi] at h
      cases h
    | ok apiServerIps =>
      cases hbase : licenseStrings licenseJson LICENSE_BASE_SERVER_ADDRESSES_KEY with
      | error fault =>
        rw [heb, hapi, hbase] at h
        cases h
      | ok baseServerIps =>
        rw [heb, hapi, hbase] at h
        cases h
        exact ⟨rfl, rfl, rfl⟩

/-- A licence whose lists are there and fit is installed as a whole. -/
theorem updateAddressLists_installs {licenseJson : Json} {base : List InternetAddress}
    {api eb : List HusarnetAddress} (h : parsedLists licenseJson = .ok (base, api, eb))
    (hbase : base.length ≤ BASE_ADDRESSES_LIMIT) (hapi : api.length ≤ DASHBOARD_API_ADDRESSES_LIMIT)
    (heb : eb.length ≤ EVENTBUS_ADDRESSES_LIMIT) (cm : ConfigManager) :
    updateAddressLists licenseJson cm = .ok () (((cm.installEb eb).installApi api).installBase base) := by
  obtain ⟨h1, h2, h3⟩ := parsedLists_ok h
  rw [updateAddressLists_eq, h1, h2, h3]
  dsimp only
  rw [if_neg (Nat.not_lt.mpr heb), if_neg (Nat.not_lt.mpr hapi), if_neg (Nat.not_lt.mpr hbase)]

def cachedLicense (cm : ConfigManager) : Json := (cm.cacheJson.find? CACHE_KEY_LICENSE).getD .null

theorem updateLicenseData_cases (cm : ConfigManager) :
    ∃ j, (cm.cachedLicense = .null ∧ updateLicenseData cm = .ok () { cm with cacheJson := j }) ∨
      (cm.cachedLicense ≠ .null ∧
        updateLicenseData cm = updateAddressLists cm.cachedLicense { cm with cacheJson := j }) := by
  obtain ⟨j, hmember⟩ := cacheMember_eq CACHE_KEY_LICENSE cm
  refine ⟨j, ?_⟩
  rw [updateLicenseData, run_bind, hmember, ← cachedLicense]
  cases cm.cachedLicense with
  | null => exact Or.inl ⟨rfl, rfl⟩
  | _ => exact Or.inr ⟨Json.noConfusion, rfl⟩

theorem updateLicenseData_installs {cm : ConfigManager} {base : List InternetAddress}
    {api eb : List HusarnetAddress} (h : parsedLists cm.cachedLicense = .ok (base, api, eb))
    (hbase : base.length ≤ BASE_ADDRESSES_LIMIT) (hapi : api.length ≤ DASHBOARD_API_ADDRESSES_LIMIT)
    (heb : eb.length ≤ EVENTBUS_ADDRESSES_LIMIT) :
    ∃ j, updateLicenseData cm =
      .ok () (((({ cm with cacheJson := j } : ConfigManager).installEb eb).installApi api).installBase base) := by
  obtain ⟨j, ⟨hnull, -⟩ | ⟨-, hupdate⟩⟩ := updateLicenseData_cases cm
  · rw [hnull] at h
    cases h
  · exact ⟨j, hupdate.trans (updateAddressLists_installs h hbase hapi heb _)⟩

end ConfigManager

/-! ## The lists over a run

They are empty until the thread calls `updateLicenseData`, which it does once, before its loop. -/

namespace ConfigSystem
open ConfigManager
variable {T : JsonText} {S : Sodium} {s t : ConfigSystem} {e : Event}

theorem threadStep_addressLists (result : HttpResult) (hs : s.pc.phase ≠ .starting) :
    (s.threadStep T S result).cm.addressLists = s.cm.addressLists := by
  have hlists {m : ConfigManager} (h : m.license = s.cm.license) : m.addressLists = s.cm.addressLists :=
    congrArg Prod.fst h
  unfold threadStep
  cases hpc : s.pc with
  | readCache => exact absurd (hpc ▸ rfl) hs
  | readUserConfig => exact absurd (hpc ▸ rfl) hs
  | updateUserConfigData => exact absurd (hpc ▸ rfl) hs
  | fetchLicense => exact absurd (hpc ▸ rfl) hs
  | updateLicenseData => exact absurd (hpc ▸ rfl) hs
  | firstWriteCache => exact hlists (call_frame s _ (frame_license_writeCache T))
  | waiting => rfl
  | checkLicense now => rfl
  | redownloadLicense now => exact call_frame s _ (frame_fetchLicenseJson T S _ _ (fun _ _ => rfl) fun _ _ => rfl)
  | checkGetConfig now w =>
    dsimp only
    split <;> rfl
  | getConfigRequested => exact call_frame s _ (.lift _)
  | getConfigReceived apiResponse =>
    exact hlists (receive_frame apiResponse (fun doc => frame_license_of_outside (frame_storeGetConfig doc)) s)
  | getConfigStored => exact hlists (call_frame s _ (frame_license_of_outside frame_updateGetConfigData))
  | getConfigApplied => rfl
  | checkWriteCache w => exact hlists (call_frame s _ (.ite (frame_license_writeCache T) (.pure _)))
  | dead fault => rfl

/-- Behind the update the lists stay. -/
theorem step_addressLists (hs : s.pc.phase ≠ .starting) (h : Step T S s e t) :
    t.cm.addressLists = s.cm.addressLists := by
  subst h
  cases e with
  | thread result => exact threadStep_addressLists result hs
  | message m =>
    simp only [step, messageStep]
    split <;> rfl
  | whitelistAdd address => exact frame_userWhitelistAdd (f := addressLists) T address (fun _ _ _ => rfl) s.cm
  | whitelistRm address => exact frame_userWhitelistRm (f := addressLists) address (fun _ _ _ => rfl) s.cm
  | tick ms => rfl

theorem step_not_starting (hs : s.pc.phase ≠ .starting) (h : Step T S s e t) : t.pc.phase ≠ .starting := by
  cases step_license h with
  | died ht => simp [ht]
  | starting hs' => exact absurd hs' hs
  | parsed hs' => exact absurd hs' hs
  | redownloaded doc hr => simp [(hr.target h).1]
  | unchanged _ _ ht =>
    rcases ht with ht | ⟨-, ht | ht⟩
    · rwa [ht]
    · simp [ht]
    · simp [Pc.phase_of_iterationEnded ht]

theorem step_starting (hi : s.pc.phase = .starting → s.cm.addressLists = ([], [], [])) (h : Step T S s e t)
    (ht : t.pc.phase = .starting) : t.cm.addressLists = ([], [], []) := by
  cases step_license h with
  | died ht' => simp [ht'] at ht
  | starting hs _ hlists => exact hlists.trans (hi hs)
  | parsed _ ht' => simp [ht'] at ht
  | redownloaded doc hr => simp [(hr.target h).1] at ht
  | unchanged hs => exact absurd ht (step_not_starting hs h)

end ConfigSystem
end Husarnet
