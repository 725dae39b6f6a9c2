import Husarnet.Config.HusarnetOnly

/-! # The start of the periodic thread

`periodicThread` reads the two stored files, tries a download and puts a licence into effect before
it enters its loop. What it does depends on three inputs: the whitelist member of config.json, the
answer to the download, and the licence that is in effect then, the downloaded one or else the
object stored in cache.json.
-/

namespace Husarnet
open Octets JsonDoc Containers StateProgram
set_option autoImplicit false

namespace ConfigManager

/-- `periodicThread` up to its loop, given what the download returned and the time after it. -/
def startUp (T : JsonText) (S : Sodium) (result : HttpResult) (now : ℤ) : Cm Unit := do
  let _ ← readCache T
  bootUserConfig T
  let _ ← fetchLicenseJson T S result now
  updateLicenseData
  writeCache T

/-! ## What it reads -/

/-- The licence stored in cache.json, when it is an object. -/
def storedLicense (T : JsonText) (cacheFile : Bytes) : Option Json :=
  if cacheFile.isEmpty then none
  else match T.parse cacheFile with
    | none => none
    | some doc =>
      match doc.find? CACHE_KEY_LICENSE with
      | some (.object ms) => some (.object ms)
      | _ => none

/-- The licence that is put into effect: the downloaded one, or else the stored one. -/
def effectiveLicense (T : JsonText) (S : Sodium) (cacheFile : Bytes) (result : HttpResult) : Option Json :=
  (downloadedLicense T S result).or (storedLicense T cacheFile)

/-- The addresses that config.json puts into the whitelist, one after another. -/
def whitelistInsertions (userConfigJson : Json) : List HusarnetAddress :=
  match (whitelistEntries userConfigJson).map fun xs => (Json.array xs).getStrings with
  | some (.ok strings) => (strings.map IpAddress.parse).filter (·.isFC94)
  | _ => []

/-- A whitelist of strings, with fewer than eight different Husarnet addresses before the last one. -/
def WhitelistFits (userConfigJson : Json) : Prop :=
  (∀ xs ∈ whitelistEntries userConfigJson, (Json.array xs).getStrings.isOk = true) ∧
    (whitelistInsertions userConfigJson).dropLast.eraseDups.length < USER_WHITELIST_SIZE_LIMIT

/-- The download failed, or the check of its licence ends. -/
def DownloadChecked (T : JsonText) (S : Sodium) (result : HttpResult) : Prop :=
  result.statusCode = 200 → (isLicenseValid S (T.parse result.bytes)).isOk = true

/-- The three lists of a licence are lists of strings with room in their vectors. -/
def ListsFit (licenseJson : Json) : Prop :=
  ∃ base api eb, parsedLists licenseJson = .ok (base, api, eb) ∧ base.length ≤ BASE_ADDRESSES_LIMIT ∧
    api.length ≤ DASHBOARD_API_ADDRESSES_LIMIT ∧ eb.length ≤ EVENTBUS_ADDRESSES_LIMIT

/-- The start reaches the loop, no insertion finds its set full, and the lists are those of the
licence, all three of them, or empty. -/
structure StartsWell (T : JsonText) (S : Sodium) (result : HttpResult) (now : ℤ) (cm : ConfigManager) : Prop where
  completes : Completes (startUp T S result now) cm
  whitelist_room : ¬ (BoundedSet.empty : BoundedSet HusarnetAddress USER_WHITELIST_SIZE_LIMIT).InsertsWhenFull
    (whitelistInsertions (loadedDocument T cm.configFile))
  peers_room : ¬ (BoundedSet.empty : BoundedSet HusarnetAddress ALLOWED_PEERS_LIMIT).InsertsWhenFull
    (((effectiveLicense T S cm.cacheFile result).map installedServers).getD [])
  all_or_none : (after (startUp T S result now) cm).addressLists = ([], [], []) ∨
    ∃ doc ∈ effectiveLicense T S cm.cacheFile result,
      parsedLists doc = .ok (after (startUp T S result now) cm).addressLists

/-! ## The files -/

theorem find?_storeCacheMember (doc : Json) (key key' : Bytes) (cm : ConfigManager) :
    ∃ j, storeCacheMember doc key cm = .ok () { cm with cacheJson := j } ∧
      j.find? key' = if key' = key then
        match doc.find? key with
        | some (.object ms) => some (.object ms)
        | _ => cm.cacheJson.find? key'
      else cm.cacheJson.find? key' := by
  unfold storeCacheMember
  cases doc.find? key with
  | none => exact ⟨cm.cacheJson, rfl, by simp⟩
  | some v =>
    cases v with
    | object ms =>
      refine ⟨cm.cacheJson.setMember key (.object ms), rfl, ?_⟩
      by_cases hkey : key' = key
      · rw [hkey, if_pos rfl, Json.find?_setMember_self]
      · rw [if_neg hkey, Json.find?_setMember_ne _ _ hkey]
    | _ => exact ⟨cm.cacheJson, rfl, by simp⟩

/-- The read takes the stored licence over, into a cache without one. -/
theorem readCache_spec (T : JsonText) (cm : ConfigManager) (h : cm.cacheJson.find? CACHE_KEY_LICENSE = none) :
    ∃ read j, readCache T cm = .ok read { cm with cacheJson := j } ∧
      j.find? CACHE_KEY_LICENSE = storedLicense T cm.cacheFile := by
  rw [readCache, get_bind, storedLicense]
  by_cases hempty : cm.cacheFile.isEmpty = true
  · rw [if_pos hempty, if_pos hempty]
    exact ⟨false, cm.cacheJson, rfl, h⟩
  · rw [if_neg hempty, if_neg hempty]
    cases T.parse cm.cacheFile with
    | none => exact ⟨false, cm.cacheJson, rfl, h⟩
    | some doc =>
      obtain ⟨j₁, hfirst, hget⟩ := find?_storeCacheMember doc CACHE_KEY_GETCONFIG CACHE_KEY_LICENSE cm
      obtain ⟨j₂, hsecond, hlicense⟩ :=
        find?_storeCacheMember doc CACHE_KEY_LICENSE CACHE_KEY_LICENSE { cm with cacheJson := j₁ }
      rw [if_neg license_ne_getConfig] at hget
      rw [if_pos rfl] at hlicense
      refine ⟨true, j₂, ?_, ?_⟩
      · simp only [storeCache, run_bind, hfirst, hsecond]
        rfl
      · rw [hlicense]
        dsimp only
        rw [hget, h]

theorem updateUserConfigData_completes (cm : ConfigManager) :
    Completes updateUserConfigData cm ↔
      ∀ xs ∈ whitelistEntries cm.userConfigJson, (Json.array xs).getStrings.isOk = true := by
  rw [Completes, updateUserConfigData, get_bind]
  cases whitelistEntries cm.userConfigJson with
  | none => exact iff_of_true ⟨(), cm, rfl⟩ (fun _ h => by cases h)
  | some xs =>
    simp only [modify_bind, Option.mem_some_iff, forall_eq']
    cases (Json.array xs).getStrings with
    | ok strings => exact iff_of_true ⟨(), _, rfl⟩ rfl
    | error fault =>
      refine iff_of_false (fun h => ?_) Bool.false_ne_true
      obtain ⟨u, t, h⟩ := h
      cases h

theorem bootUserConfig_completes (T : JsonText) (cm : ConfigManager) (hdoc : cm.userConfigJson = .object []) :
    Completes (bootUserConfig T) cm ↔
      ∀ xs ∈ whitelistEntries (loadedDocument T cm.configFile), (Json.array xs).getStrings.isOk = true := by
  obtain ⟨read, hread, hfalse⟩ := readUserConfig_eq T cm hdoc
  rw [Completes, bootUserConfig, run_bind, hread]
  cases read with
  | true => exact updateUserConfigData_completes _
  | false =>
    rw [hfalse rfl, whitelistEntries_document]
    exact iff_of_true ⟨(), _, rfl⟩ (fun _ h => by cases h)

theorem frame_bootUserConfig {τ : Type} {f : ConfigManager → τ} (T : JsonText)
    (hj : ∀ cm j, f { cm with userConfigJson := j } = f cm)
    (hw : ∀ cm whitelist, f { cm with userWhitelist := whitelist } = f cm) : Frame f (bootUserConfig T) :=
  .bind (frame_readUserConfig T hj) fun _ => .ite (frame_updateUserConfigData hw) (.pure _)

/-! ## The licence -/

theorem fetchLicenseJson_completes (T : JsonText) (S : Sodium) (result : HttpResult) (now : ℤ) (cm : ConfigManager) :
    Completes (fetchLicenseJson T S result now) cm ↔ DownloadChecked T S result := by
  unfold Completes fetchLicenseJson DownloadChecked
  by_cases hcode : result.statusCode = 200
  · rw [if_neg (not_not.mpr hcode)]
    cases isLicenseValid S (T.parse result.bytes) with
    | error fault =>
      refine iff_of_false (fun h => ?_) (fun h => Bool.false_ne_true (h hcode))
      obtain ⟨a, t, h⟩ := h
      cases h
    | ok valid =>
      refine iff_of_true ?_ (fun _ => rfl)
      rw [lift_ok_bind]
      cases valid with
      | false => exact ⟨false, cm, rfl⟩
      | true =>
        cases T.parse result.bytes with
        | none => exact ⟨false, cm, rfl⟩
        | some doc => exact ⟨true, _, rfl⟩
  · rw [if_pos hcode]
    exact iff_of_true ⟨false, cm, rfl⟩ (fun h => absurd h hcode)

theorem find?_fetchLicenseJson (T : JsonText) (S : Sodium) (result : HttpResult) (now : ℤ) (cm : ConfigManager) :
    (after (fetchLicenseJson T S result now) cm).cacheJson.find? CACHE_KEY_LICENSE =
      (downloadedLicense T S result).or (cm.cacheJson.find? CACHE_KEY_LICENSE) := by
  cases hd : downloadedLicense T S result with
  | none => rw [fetchLicenseJson_not_stored now cm hd, Option.none_or]
  | some doc =>
    rw [after_ok (fetchLicenseJson_stored now cm hd), Option.some_or]
    exact Json.find?_setMember_self ..

theorem effectiveLicense_ne_null {T : JsonText} {S : Sodium} {cacheFile : Bytes} {result : HttpResult} {doc : Json}
    (h : effectiveLicense T S cacheFile result = some doc) : doc ≠ .null := by
  intro hnull
  rw [effectiveLicense] at h
  cases hd : downloadedLicense T S result with
  | some licenseJson =>
    rw [hd, Option.some_or, Option.some.injEq] at h
    rw [h, hnull] at hd
    have hlists := cachedLists_of_downloaded hd
    cases hlists
  | none =>
    rw [hd, Option.none_or, storedLicense, hnull] at h
    split at h
    · cases h
    · split at h
      · cases h
      · split at h <;> cases h

theorem updateLicenseData_completes (cm : ConfigManager) :
    Completes updateLicenseData cm ↔ cm.cachedLicense = .null ∨ ListsFit cm.cachedLicense := by
  constructor
  · intro h
    obtain ⟨u, cm', hrun⟩ := h
    obtain ⟨j, ⟨hnull, -⟩ | ⟨-, hupdate⟩⟩ := updateLicenseData_cases cm
    · exact Or.inl hnull
    · rw [hupdate] at hrun
      have hlists := (updateAddressLists_ok hrun).1
      exact Or.inr ⟨_, _, _, hlists, cm'.baseAddresses.bounded, cm'.apiAddresses.bounded, cm'.ebAddresses.bounded⟩
  · rintro (hnull | ⟨base, api, eb, hlists, hbase, hapi, heb⟩)
    · obtain ⟨j, ⟨-, hrun⟩ | ⟨hne, -⟩⟩ := updateLicenseData_cases cm
      · exact ⟨(), _, hrun⟩
      · exact absurd hnull hne
    · obtain ⟨j, hrun⟩ := updateLicenseData_installs hlists hbase hapi heb
      exact ⟨(), _, hrun⟩

theorem addressLists_updateLicenseData {cm : ConfigManager} (h : Completes updateLicenseData cm) :
    (cm.cachedLicense = .null ∧ (after updateLicenseData cm).addressLists = cm.addressLists) ∨
      parsedLists cm.cachedLicense = .ok (after updateLicenseData cm).addressLists := by
  obtain ⟨u, cm', hrun⟩ := h
  rw [after_ok hrun]
  obtain ⟨j, ⟨hnull, hupdate⟩ | ⟨-, hupdate⟩⟩ := updateLicenseData_cases cm
  · rw [hupdate] at hrun
    cases hrun
    exact Or.inl ⟨hnull, rfl⟩
  · rw [hupdate] at hrun
    exact Or.inr (updateAddressLists_ok hrun).1

/-- At most 32 servers are inserted, into a set with room for 128. -/
theorem installedServers_length (licenseJson : Json) : (installedServers licenseJson).length ≤ 32 := by
  unfold installedServers
  split
  · simp
  · split
    · simp only [List.length_take, EVENTBUS_ADDRESSES_LIMIT]
      omega
    · rename_i eb _ heb
      have hshort : eb.length ≤ 16 := Nat.not_lt.mp heb
      split
      · omega
      · rw [List.length_append, List.length_take, DASHBOARD_API_ADDRESSES_LIMIT]
        omega

theorem peers_have_room (licenseJson : Option Json) :
    ¬ (BoundedSet.empty : BoundedSet HusarnetAddress ALLOWED_PEERS_LIMIT).InsertsWhenFull
      ((licenseJson.map installedServers).getD []) := by
  intro h
  obtain ⟨pre, a, post, hservers, hfull⟩ := h
  have hmany : ((licenseJson.map installedServers).getD []).length ≤ 32 := by
    cases licenseJson with
    | none => simp
    | some doc => exact installedServers_length doc
  rw [hservers, List.length_append] at hmany
  rw [BoundedSet.full, decide_eq_true_eq] at hfull
  have hfew := hfull.trans (BoundedSet.length_insertAll_empty_le pre)
  rw [ALLOWED_PEERS_LIMIT] at hfew
  omega

/-! ## The whole start -/

/-- The manager before `updateLicenseData` has empty lists and the effective licence in its cache. -/
structure AtLicense (T : JsonText) (S : Sodium) (cacheFile : Bytes) (result : HttpResult) (cm : ConfigManager) :
    Prop where
  lists : cm.addressLists = ([], [], [])
  license : cm.cacheJson.find? CACHE_KEY_LICENSE = effectiveLicense T S cacheFile result

theorem AtLicense.cachedLicense {T : JsonText} {S : Sodium} {cacheFile : Bytes} {result : HttpResult}
    {cm : ConfigManager} (h : AtLicense T S cacheFile result cm) :
    (effectiveLicense T S cacheFile result = none ∧ cm.cachedLicense = .null) ∨
      ∃ doc, effectiveLicense T S cacheFile result = some doc ∧ cm.cachedLicense = doc ∧ doc ≠ .null := by
  rw [ConfigManager.cachedLicense, h.license]
  cases hd : effectiveLicense T S cacheFile result with
  | none => exact Or.inl ⟨rfl, rfl⟩
  | some doc => exact Or.inr ⟨doc, rfl, rfl, effectiveLicense_ne_null hd⟩

/-- A start is its update of the licence, behind reads that depend on the files and the download. -/
theorem startUp_spec (T : JsonText) (S : Sodium) (result : HttpResult) (now : ℤ) (enableControlplane : Bool)
    (ourIp : HusarnetAddress) (clock : ℤ) (configFile cacheFile : Bytes) :
    let cm₀ := new enableControlplane ourIp clock configFile cacheFile
    ∃ cm, AtLicense T S cacheFile result cm ∧
      (Completes (startUp T S result now) cm₀ ↔
        (∀ xs ∈ whitelistEntries (loadedDocument T configFile), (Json.array xs).getStrings.isOk = true) ∧
          DownloadChecked T S result ∧ Completes updateLicenseData cm) ∧
      (Completes (startUp T S result now) cm₀ →
        (after (startUp T S result now) cm₀).addressLists = (after updateLicenseData cm).addressLists) := by
  intro cm₀
  obtain ⟨read, j, hread, hstored⟩ := readCache_spec T cm₀ rfl
  have hboot := bootUserConfig_completes T { cm₀ with cacheJson := j } rfl
  -- the lists stay empty, and the cache keeps the stored licence up to the download
  have hkept := frame_bootUserConfig (f := fun cm => (cm.addressLists, cm.cacheJson)) T (fun _ _ => rfl)
    (fun _ _ => rfl) { cm₀ with cacheJson := j }
  have hlists := frame_fetchLicenseJson T S result now (f := addressLists) (fun _ _ => rfl) (fun _ _ => rfl)
    (after (bootUserConfig T) { cm₀ with cacheJson := j })
  simp only [Prod.mk.injEq] at hkept
  refine ⟨after (fetchLicenseJson T S result now) (after (bootUserConfig T) { cm₀ with cacheJson := j }),
    ⟨?_, ?_⟩, ?_, ?_⟩
  · rw [hlists, hkept.1]
    rfl
  · rw [find?_fetchLicenseJson, hkept.2, hstored]
    rfl
  · rw [startUp, completes_seq, completes_seq, completes_seq, completes_seq, after_ok hread, hboot,
      fetchLicenseJson_completes]
    exact ⟨fun h => ⟨h.2.1, h.2.2.1, h.2.2.2.1⟩, fun h => ⟨⟨_, _, hread⟩, h.1, h.2.1, h.2.2, (), _, rfl⟩⟩
  · intro h
    rw [startUp] at h ⊢
    have h1 := completes_seq.mp h
    have h2 := completes_seq.mp h1.2
    have h3 := completes_seq.mp h2.2
    have h4 := completes_seq.mp h3.2
    rw [after_seq h1.1, after_seq h2.1, after_seq h3.1, after_seq h4.1, after_ok hread]
    rfl

/-- **Start-up.** For every content of the two files and every outcome of the first download: the
start of the periodic thread goes well if and only if the whitelist of config.json fits, the check
of the downloaded licence ends, and the lists of the licence that takes effect fit. -/
theorem startsWell_iff (T : JsonText) (S : Sodium) (result : HttpResult) (now : ℤ) (enableControlplane : Bool)
    (ourIp : HusarnetAddress) (clock : ℤ) (configFile cacheFile : Bytes) :
    StartsWell T S result now (new enableControlplane ourIp clock configFile cacheFile) ↔
      WhitelistFits (loadedDocument T configFile) ∧ DownloadChecked T S result ∧
        ∀ doc ∈ effectiveLicense T S cacheFile result, ListsFit doc := by
  obtain ⟨cm, hat, hcompletes, hafter⟩ :=
    startUp_spec T S result now enableControlplane ourIp clock configFile cacheFile
  have hupdate : Completes updateLicenseData cm ↔ ∀ doc ∈ effectiveLicense T S cacheFile result, ListsFit doc := by
    rw [updateLicenseData_completes]
    rcases hat.cachedLicense with ⟨hnone, hnull⟩ | ⟨doc, hsome, hdoc, hne⟩
    · rw [hnone]
      exact iff_of_true (Or.inl hnull) (fun _ h => by cases h)
    · rw [hsome, hdoc]
      simp [hne]
  have hroom : ¬ (BoundedSet.empty : BoundedSet HusarnetAddress USER_WHITELIST_SIZE_LIMIT).InsertsWhenFull
      (whitelistInsertions (loadedDocument T configFile)) ↔ _ :=
    BoundedSet.not_insertsWhenFull_empty_iff (by decide) _
  constructor
  · intro h
    obtain ⟨hentries, hchecked, hlicense⟩ := hcompletes.mp h.completes
    exact ⟨⟨hentries, hroom.mp h.whitelist_room⟩, hchecked, hupdate.mp hlicense⟩
  · rintro ⟨⟨hentries, hfew⟩, hchecked, hfits⟩
    have hdone := hcompletes.mpr ⟨hentries, hchecked, hupdate.mpr hfits⟩
    refine ⟨hdone, hroom.mpr hfew, peers_have_room _, ?_⟩
    rw [hafter hdone]
    rcases addressLists_updateLicenseData (hupdate.mpr hfits) with ⟨-, hsame⟩ | hlists
    · exact Or.inl (hsame.trans hat.lists)
    · rcases hat.cachedLicense with ⟨-, hnull⟩ | ⟨doc, hsome, hdoc, -⟩
      · rw [hnull] at hlists
        cases hlists
      · rw [hdoc] at hlists
        exact Or.inr ⟨doc, hsome, hlists⟩

/-! ## A whitelist with a number -/

def numberWhitelist : Bytes := ascii "\x7b\"local-whitelist\":[1]\x7d"

/-- A text side that knows this document. -/
def numberText : JsonText where
  parse s := if s = numberWhitelist then some (.object [(USERCONFIG_KEY_WHITELIST, .array [.int 1])]) else none
  dump _ := numberWhitelist

/-- The number in the list ends the thread before it has a licence. -/
theorem number_whitelist_stops_start :
    ¬ StartsWell numberText clearSodium ⟨-1, []⟩ 0 (new true .invalid 0 numberWhitelist []) := by
  intro h
  obtain ⟨cm, -, hcompletes, -⟩ := startUp_spec numberText clearSodium ⟨-1, []⟩ 0 true .invalid 0 numberWhitelist []
  have hstrings := (hcompletes.mp h.completes).1 [.int 1] (by
    rw [loadedDocument, if_neg (by decide)]
    rfl)
  cases hstrings

end ConfigManager
end Husarnet
