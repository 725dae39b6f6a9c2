import Husarnet.Config.ConfigPush

/-! # The licence in the cache and the licence in effect

`updateLicenseData` parses the cached licence into the three address lists, once, at start-up. A
later download replaces the document and leaves the lists. So at the end of an iteration the two
agree as long as every downloaded licence lists the addresses that are in effect already.
-/

namespace Husarnet
open Octets JsonDoc StateProgram Runs Containers
set_option autoImplicit false

namespace ConfigManager

/-- The address lists of a licence document: base, API and EventBus servers. -/
def parsedLists (licenseJson : Json) :
    Except ConfigFault (List InternetAddress × List HusarnetAddress × List HusarnetAddress) := do
  let ebServerIps ← licenseStrings licenseJson LICENSE_EB_SERVERS_KEY
  let apiServerIps ← licenseStrings licenseJson LICENSE_API_SERVERS_KEY
  let baseServerIps ← licenseStrings licenseJson LICENSE_BASE_SERVER_ADDRESSES_KEY
  return (baseServerIps.map IpAddress.parse, apiServerIps.map IpAddress.parse, ebServerIps.map IpAddress.parse)

/-- The address lists of the cache member; a missing or null one stands for no licence. -/
def cachedLists : Option Json → Except ConfigFault (List InternetAddress × List HusarnetAddress × List HusarnetAddress)
  | none | some .null => .ok ([], [], [])
  | some doc => parsedLists doc

/-- The addresses in effect are those of the licence in the cache. -/
def LicenseInEffect (cm : ConfigManager) : Prop :=
  cachedLists (cm.cacheJson.find? CACHE_KEY_LICENSE) = .ok cm.addressLists

instance (cm : ConfigManager) : Decidable (LicenseInEffect cm) :=
  inferInstanceAs (Decidable (_ = Except.ok cm.addressLists))

theorem licenseInEffect_congr {cm cm' : ConfigManager} (h : cm'.license = cm.license) :
    LicenseInEffect cm' ↔ LicenseInEffect cm := by
  have h1 : cm'.addressLists = cm.addressLists := congrArg Prod.fst h
  have h2 : cm'.cacheJson.find? CACHE_KEY_LICENSE = cm.cacheJson.find? CACHE_KEY_LICENSE := congrArg Prod.snd h
  unfold LicenseInEffect
  rw [h1, h2]

/-! ## updateLicenseData -/

theorem cacheMember_ok {cm cm' : ConfigManager} {key : Bytes} {j : Json} (h : cacheMember key cm = .ok j cm') :
    cm'.cacheJson.find? key = some j := by
  obtain ⟨c, t, hget, h⟩ := bind_eq_ok.mp h
  cases hget
  cases hf : cm.cacheJson.find? key with
  | some k =>
    rw [hf] at h
    cases h
    exact hf
  | none =>
    rw [hf] at h
    obtain ⟨u, t, hm, h⟩ := bind_eq_ok.mp h
    cases modify_eq_ok.mp hm
    cases h
    exact Json.find?_setMember_self ..

theorem pushEbAddress_ok (ip : HusarnetAddress) (cm cm' : ConfigManager) (h : pushEbAddress ip cm = .ok () cm') :
    cm'.ebAddresses.elems = cm.ebAddresses.elems ++ [ip] := by
  refine push_appends ConfigFault.vectorFull (fun cm : ConfigManager => cm.ebAddresses)
    (fun v => { cm with ebAddresses := v, allowedPeers := cm.allowedPeers.insert ip })
    (fun hp => ?_) (fun v hp => ?_) (fun _ => rfl) h
  · rw [pushEbAddress, get_bind, hp]
    rfl
  · rw [pushEbAddress, get_bind, hp]
    rfl

theorem pushApiAddress_ok (ip : HusarnetAddress) (cm cm' : ConfigManager) (h : pushApiAddress ip cm = .ok () cm') :
    cm'.apiAddresses.elems = cm.apiAddresses.elems ++ [ip] := by
  refine push_appends ConfigFault.vectorFull (fun cm : ConfigManager => cm.apiAddresses)
    (fun v => { cm with apiAddresses := v, allowedPeers := cm.allowedPeers.insert ip })
    (fun hp => ?_) (fun v hp => ?_) (fun _ => rfl) h
  · rw [pushApiAddress, get_bind, hp]
    rfl
  · rw [pushApiAddress, get_bind, hp]
    rfl

theorem pushBaseAddress_ok (ip : InternetAddress) (cm cm' : ConfigManager) (h : pushBaseAddress ip cm = .ok () cm') :
    cm'.baseAddresses.elems = cm.baseAddresses.elems ++ [ip] := by
  refine push_appends ConfigFault.vectorFull (fun cm : ConfigManager => cm.baseAddresses)
    (fun v => { cm with baseAddresses := v })
    (fun hp => ?_) (fun v hp => ?_) (fun _ => rfl) h
  · rw [pushBaseAddress, get_bind, hp]
    rfl
  · rw [pushBaseAddress, get_bind, hp]
    rfl

theorem updateAddressLists_ok {licenseJson : Json} {cm cm' : ConfigManager}
    (h : updateAddressLists licenseJson cm = .ok () cm') :
    parsedLists licenseJson = .ok cm'.addressLists ∧ cm'.cacheJson = cm.cacheJson := by
  obtain ⟨eb, c1, h1, h⟩ := bind_eq_ok.mp h
  obtain ⟨u2, c2, h2, h⟩ := bind_eq_ok.mp h
  obtain ⟨u3, c3, h3, h⟩ := bind_eq_ok.mp h
  obtain ⟨api, c4, h4, h⟩ := bind_eq_ok.mp h
  obtain ⟨u5, c5, h5, h⟩ := bind_eq_ok.mp h
  obtain ⟨u6, c6, h6, h⟩ := bind_eq_ok.mp h
  obtain ⟨base, c7, h7, h⟩ := bind_eq_ok.mp h
  obtain ⟨u8, c8, h8, h9⟩ := bind_eq_ok.mp h
  obtain ⟨heb, rfl⟩ := lift_eq_ok.mp h1
  obtain ⟨hapi, rfl⟩ := lift_eq_ok.mp h4
  obtain ⟨hbase, rfl⟩ := lift_eq_ok.mp h7
  cases modify_eq_ok.mp h2
  cases modify_eq_ok.mp h5
  cases modify_eq_ok.mp h8
  -- each loop fills its own list and leaves the others and the cache
  have e3 := forM_appends (g := fun cm : ConfigManager => cm.ebAddresses.elems) pushEbAddress_ok h3
  have e6 := forM_appends (g := fun cm : ConfigManager => cm.apiAddresses.elems) pushApiAddress_ok h6
  have e9 := forM_appends (g := fun cm : ConfigManager => cm.baseAddresses.elems) pushBaseAddress_ok h9
  have f3 := frame_pushEbAddresses (f := fun cm => cm.cacheJson) (eb.map IpAddress.parse) (fun _ _ _ => rfl)
  have f6 := frame_pushApiAddresses (f := fun cm => (cm.cacheJson, cm.ebAddresses.elems))
    (api.map IpAddress.parse) (fun _ _ _ => rfl)
  have f9 := frame_pushBaseAddresses (f := fun cm => (cm.cacheJson, cm.ebAddresses.elems, cm.apiAddresses.elems))
    (base.map IpAddress.parse) (fun _ _ => rfl)
  have f3 := f3.of_ok h3
  have f6 := f6.of_ok h6
  have f9 := f9.of_ok h9
  simp only [Prod.mk.injEq, BoundedVec.empty_elems, List.nil_append] at e3 e6 e9 f3 f6 f9
  refine ⟨?_, by rw [f9.1, f6.1, f3]⟩
  simp only [parsedLists, heb, hapi, hbase, addressLists, e9, f9.2.2, f9.2.1, e6, f6.2, e3]
  rfl

/-- Started with empty lists, `updateLicenseData` puts the cached licence into effect. -/
theorem updateLicenseData_ok {cm cm' : ConfigManager} (h0 : cm.addressLists = ([], [], []))
    (h : updateLicenseData cm = .ok () cm') : LicenseInEffect cm' := by
  obtain ⟨licenseJson, c1, hmember, h⟩ := bind_eq_ok.mp h
  have hfind := cacheMember_ok hmember
  have hlists : c1.addressLists = ([], [], []) :=
    ((frame_cacheMember (f := addressLists) _ fun _ _ => rfl).of_ok hmember).trans h0
  have hnull : licenseJson = .null ∨ updateAddressLists licenseJson c1 = .ok () cm' ∧
      cachedLists (some licenseJson) = parsedLists licenseJson := by
    cases licenseJson with
    | null => exact Or.inl rfl
    | _ => exact Or.inr ⟨h, rfl⟩
  rcases hnull with rfl | ⟨hup, hlicense⟩
  · cases h
    rw [LicenseInEffect, hfind, hlists]
    rfl
  · obtain ⟨hparsed, hcache⟩ := updateAddressLists_ok hup
    rw [LicenseInEffect, hcache, hfind, hlicense]
    exact hparsed

/-! ## fetchLicenseJson -/

theorem cachedLists_of_downloaded {T : JsonText} {S : Sodium} {result : HttpResult} {doc : Json}
    (h : downloadedLicense T S result = some doc) : cachedLists (some doc) = parsedLists doc := by
  unfold downloadedLicense at h
  split at h
  · cases h
  · split at h
    · rename_i d hd hvalid
      cases h
      cases doc with
      | null =>
        rw [hd] at hvalid
        cases hvalid
      | _ => rfl
    · cases h

theorem fetchLicenseJson_stored {T : JsonText} {S : Sodium} {result : HttpResult} {doc : Json} (now : ℤ)
    (cm : ConfigManager) (h : downloadedLicense T S result = some doc) :
    fetchLicenseJson T S result now cm = .ok true { cm with
      cacheJson := cm.cacheJson.setMember CACHE_KEY_LICENSE doc
      nextLicenseDownload := now + licenseRefreshPeriod } := by
  unfold downloadedLicense at h
  split at h
  · cases h
  · rename_i hcode
    split at h
    · rename_i d hd hvalid
      cases h
      rw [hd] at hvalid
      rw [fetchLicenseJson, if_neg hcode]
      simp only [hd, hvalid]
      rfl
    · cases h

theorem fetchLicenseJson_not_stored {T : JsonText} {S : Sodium} {result : HttpResult} (now : ℤ)
    (cm : ConfigManager) (h : downloadedLicense T S result = none) :
    after (fetchLicenseJson T S result now) cm = cm := by
  unfold downloadedLicense at h
  unfold fetchLicenseJson
  by_cases hcode : result.statusCode ≠ 200
  · rw [if_pos hcode]
    rfl
  · rw [if_neg hcode] at h ⊢
    cases hvalid : isLicenseValid S (T.parse result.bytes) with
    | error fault =>
      simp only [hvalid]
      rfl
    | ok valid =>
      rw [hvalid] at h
      cases hparse : T.parse result.bytes with
      | none =>
        rw [hparse] at hvalid
        simp only [hvalid]
        cases valid <;> rfl
      | some doc =>
        rw [hparse] at h hvalid
        cases valid with
        | true => cases h
        | false =>
          simp only [hvalid]
          rfl

end ConfigManager

/-! ## The periodic thread -/

/-- Where the thread stands with respect to the licence. -/
inductive Phase where
  | starting
  | idle
  | downloaded
  | dead
  deriving DecidableEq

/-- The lists are filled by the step that leaves `starting`; `downloaded` is the rest of an
iteration behind its licence download. -/
def Pc.phase : Pc → Phase
  | .readCache | .readUserConfig | .updateUserConfigData | .fetchLicense | .updateLicenseData => .starting
  | .firstWriteCache | .waiting | .checkLicense _ | .redownloadLicense _ => .idle
  | .checkGetConfig _ _ | .getConfigRequested | .getConfigReceived _ | .getConfigStored | .getConfigApplied
  | .checkWriteCache _ => .downloaded
  | .dead _ => .dead

def Pc.iterationEnded : Pc → Bool
  | .waiting => true
  | _ => false

theorem Pc.phase_of_iterationEnded {pc : Pc} (h : pc.iterationEnded = true) : pc.phase = .idle := by
  cases pc <;> first | rfl | cases h

namespace ConfigSystem
open ConfigManager

/-- The step is a periodic download that stores the licence. -/
def Redownloads (T : JsonText) (S : Sodium) (s : ConfigSystem) (e : Event) (doc : Json) : Prop :=
  ∃ result now, e = .thread result ∧ s.pc = .redownloadLicense now ∧ downloadedLicense T S result = some doc

section Step
variable {T : JsonText} {S : Sodium} {s t : ConfigSystem} {e : Event}

theorem call_frame {α τ : Type} {f : ConfigManager → τ} {m : Cm α} (s : ConfigSystem) (next : α → Pc)
    (h : Frame f m) : f (s.call m next).cm = f s.cm := by
  rw [call_cm]
  exact h s.cm

theorem call_phase {α : Type} (s : ConfigSystem) (m : Cm α) (next : α → Pc) {p : Phase}
    (h : ∀ a, (next a).phase = p) : (s.call m next).pc.phase = .dead ∨ (s.call m next).pc.phase = p := by
  rcases call_pc s m next with ⟨a, cm, -, hpc⟩ | ⟨fault, hpc⟩
  · exact Or.inr (by rw [hpc, h])
  · exact Or.inl (by rw [hpc]; rfl)

theorem frame_license_writeCache (T : JsonText) : Frame license (writeCache T) := .modify fun _ => rfl

theorem Redownloads.target {doc : Json} (hr : Redownloads T S s e doc) (h : Step T S s e t) :
    t.pc.phase = .downloaded ∧ t.cm.addressLists = s.cm.addressLists ∧
      t.cm.cacheJson.find? CACHE_KEY_LICENSE = some doc := by
  obtain ⟨result, now, rfl, hpc, hd⟩ := hr
  have ht : s.threadStep T S result = t := h
  rw [threadStep, hpc] at ht
  simp only [call, fetchLicenseJson_stored _ _ hd] at ht
  subst ht
  exact ⟨rfl, rfl, Json.find?_setMember_self ..⟩

/-- What a step does to the licence document and the address lists. -/
inductive LicenseStep (T : JsonText) (S : Sodium) (s : ConfigSystem) (e : Event) (t : ConfigSystem) : Prop where
  | died (ht : t.pc.phase = .dead)
  | starting (hs : s.pc.phase = .starting) (ht : t.pc.phase = .starting)
      (hlists : t.cm.addressLists = s.cm.addressLists)
  | parsed (hs : s.pc.phase = .starting) (ht : t.pc.phase = .idle) (hrun : updateLicenseData s.cm = .ok () t.cm)
  | redownloaded (doc : Json) (h : Redownloads T S s e doc)
  | unchanged (hs : s.pc.phase ≠ .starting) (hlicense : t.cm.license = s.cm.license)
      (ht : t.pc.phase = s.pc.phase ∨
        s.pc.phase ≠ .dead ∧ (t.pc.phase = .downloaded ∨ t.pc.iterationEnded = true))

/-- A call before the update of the licence. -/
theorem LicenseStep.of_start_call {α : Type} {m : Cm α} {next : α → Pc} (hs : s.pc.phase = .starting)
    (hnext : ∀ a, (next a).phase = .starting) (hm : Frame addressLists m) :
    LicenseStep T S s e (s.call m next) := by
  rcases call_phase s m next hnext with hd | hp
  · exact .died hd
  · exact .starting hs hp (call_frame s _ hm)

/-- A call behind the licence download of an iteration. -/
theorem LicenseStep.of_downloaded_call {α : Type} {m : Cm α} {next : α → Pc} (hs : s.pc.phase ≠ .starting)
    (hlive : s.pc.phase ≠ .dead) (hnext : ∀ a, (next a).phase = .downloaded)
    (hlicense : (s.call m next).cm.license = s.cm.license) : LicenseStep T S s e (s.call m next) := by
  rcases call_phase s m next hnext with hd | hp
  · exact .died hd
  · exact .unchanged hs hlicense (Or.inr ⟨hlive, Or.inl hp⟩)

theorem threadStep_license (result : HttpResult) (ht : s.threadStep T S result = t) :
    LicenseStep T S s (.thread result) t := by
  subst ht
  unfold threadStep
  cases hpc : s.pc with
  | readCache => exact .of_start_call (hpc ▸ rfl) (fun _ => rfl) (frame_readCache T fun _ _ => rfl)
  | readUserConfig =>
    refine .of_start_call (hpc ▸ rfl) (fun read => ?_) (frame_readUserConfig T fun _ _ => rfl)
    cases read with
    | true => rfl
    | false => rfl
  | updateUserConfigData =>
    exact .of_start_call (hpc ▸ rfl) (fun _ => rfl) (frame_updateUserConfigData fun _ _ => rfl)
  | fetchLicense =>
    exact .of_start_call (hpc ▸ rfl) (fun _ => rfl)
      (frame_fetchLicenseJson T S _ _ (fun _ _ => rfl) fun _ _ => rfl)
  | updateLicenseData =>
    cases hm : updateLicenseData s.cm with
    | ok u cm =>
      simp only [call, hm]
      exact .parsed (hpc ▸ rfl) rfl hm
    | error fault cm =>
      simp only [call, hm]
      exact .died rfl
  | firstWriteCache =>
    exact .unchanged (hpc ▸ Phase.noConfusion) (call_frame s _ (frame_license_writeCache T))
      (Or.inl (by rw [hpc]; rfl))
  | waiting => exact .unchanged (hpc ▸ Phase.noConfusion) rfl (Or.inl (by rw [hpc]; rfl))
  | checkLicense now =>
    refine .unchanged (hpc ▸ Phase.noConfusion) rfl ?_
    dsimp only
    split
    · exact Or.inl (by rw [hpc]; rfl)
    · exact Or.inr ⟨hpc ▸ Phase.noConfusion, Or.inl rfl⟩
  | redownloadLicense now =>
    cases hd : downloadedLicense T S result with
    | some doc => exact .redownloaded doc ⟨result, now, rfl, hpc, hd⟩
    | none =>
      refine .of_downloaded_call (hpc ▸ Phase.noConfusion) (hpc ▸ Phase.noConfusion) (fun _ => rfl) ?_
      rw [call_cm, fetchLicenseJson_not_stored _ _ hd]
  | checkGetConfig now w =>
    dsimp only
    split
    · exact .unchanged (hpc ▸ Phase.noConfusion) rfl (Or.inl (by rw [hpc]; rfl))
    · exact .unchanged (hpc ▸ Phase.noConfusion) rfl (Or.inl (by rw [hpc]; rfl))
  | getConfigRequested =>
    exact .of_downloaded_call (hpc ▸ Phase.noConfusion) (hpc ▸ Phase.noConfusion) (fun _ => rfl)
      (call_frame s _ (.lift _))
  | getConfigReceived apiResponse =>
    have hlicense := receive_frame apiResponse (f := license)
      (fun doc => frame_license_of_outside (frame_storeGetConfig doc)) s
    refine .of_downloaded_call (hpc ▸ Phase.noConfusion) (hpc ▸ Phase.noConfusion) (fun stored => ?_) hlicense
    cases stored with
    | true => rfl
    | false => rfl
  | getConfigStored =>
    exact .of_downloaded_call (hpc ▸ Phase.noConfusion) (hpc ▸ Phase.noConfusion) (fun _ => rfl)
      (call_frame s _ (frame_license_of_outside frame_updateGetConfigData))
  | getConfigApplied => exact .unchanged (hpc ▸ Phase.noConfusion) rfl (Or.inr ⟨hpc ▸ Phase.noConfusion, Or.inl rfl⟩)
  | checkWriteCache w =>
    rcases call_pc s (if w then writeCache T else pure ()) (fun _ => .waiting) with ⟨a, cm, -, hp⟩ | ⟨fault, hp⟩
    · refine .unchanged (hpc ▸ Phase.noConfusion) ?_ (Or.inr ⟨hpc ▸ Phase.noConfusion, Or.inr ?_⟩)
      · exact call_frame s _ (.ite (frame_license_writeCache T) (.pure _))
      · rw [hp]
        rfl
    · exact .died (by rw [hp]; rfl)
  | dead fault =>
    dsimp only
    exact .died (hpc ▸ rfl)

theorem step_license (h : Step T S s e t) : LicenseStep T S s e t := by
  cases e with
  | thread result => exact threadStep_license result h
  | message m =>
    subst h
    by_cases hs : s.pc.phase = .starting
    · exact .starting hs (by simp only [step, messageStep]; split <;> exact hs)
        (by simp only [step, messageStep]; split <;> rfl)
    · exact .unchanged hs (by simp only [step, messageStep]; split <;> rfl)
        (Or.inl (by simp only [step, messageStep]; split <;> rfl))
  | whitelistAdd address =>
    subst h
    by_cases hs : s.pc.phase = .starting
    · exact .starting hs hs (frame_userWhitelistAdd (f := addressLists) T address (fun _ _ _ => rfl) s.cm)
    · exact .unchanged hs (frame_userWhitelistAdd (f := license) T address (fun _ _ _ => rfl) s.cm) (Or.inl rfl)
  | whitelistRm address =>
    subst h
    by_cases hs : s.pc.phase = .starting
    · exact .starting hs hs (frame_userWhitelistRm (f := addressLists) address (fun _ _ _ => rfl) s.cm)
    · exact .unchanged hs (frame_userWhitelistRm (f := license) address (fun _ _ _ => rfl) s.cm) (Or.inl rfl)
  | tick ms =>
    subst h
    by_cases hs : s.pc.phase = .starting
    · exact .starting hs hs rfl
    · exact .unchanged hs rfl (Or.inl rfl)

/-! ## Agreement over a run -/

/-- No address is in effect before the start-up parse, and behind it the cached licence is. -/
structure LicenseInv (s : ConfigSystem) : Prop where
  starting : s.pc.phase = .starting → s.cm.addressLists = ([], [], [])
  running : s.pc.phase = .idle ∨ s.pc.phase = .downloaded → LicenseInEffect s.cm

/-- What the download of a step brings lists the addresses in effect. -/
def SameLists (T : JsonText) (S : Sodium) (s : ConfigSystem) (e : Event) : Prop :=
  ∀ doc, Redownloads T S s e doc → parsedLists doc = .ok s.cm.addressLists

theorem Redownloads.cachedLists {doc : Json} (h : Redownloads T S s e doc) :
    ConfigManager.cachedLists (some doc) = parsedLists doc := by
  obtain ⟨result, now, -, -, hd⟩ := h
  exact cachedLists_of_downloaded hd

theorem licenseInEffect_redownloaded {doc : Json} (h : Redownloads T S s e doc)
    (hlists : t.cm.addressLists = s.cm.addressLists) (hdoc : t.cm.cacheJson.find? CACHE_KEY_LICENSE = some doc) :
    LicenseInEffect t.cm ↔ parsedLists doc = .ok s.cm.addressLists := by
  rw [LicenseInEffect, hdoc, hlists, h.cachedLists]

theorem licenseInv_step (hi : LicenseInv s) (hsame : SameLists T S s e) (h : Step T S s e t) : LicenseInv t := by
  cases step_license h with
  | died ht => exact ⟨fun hp => by simp [ht] at hp, fun hp => by simp [ht] at hp⟩
  | starting hs ht hlists =>
    exact ⟨fun _ => hlists.trans (hi.starting hs), fun hp => by simp [ht] at hp⟩
  | parsed hs ht hrun =>
    exact ⟨fun hp => by simp [ht] at hp, fun _ => updateLicenseData_ok (hi.starting hs) hrun⟩
  | redownloaded doc hr =>
    obtain ⟨ht, hlists, hdoc⟩ := hr.target h
    exact ⟨fun hp => by simp [ht] at hp,
      fun _ => (licenseInEffect_redownloaded hr hlists hdoc).mpr (hsame doc hr)⟩
  | unchanged hs hlicense ht =>
    have hinEffect : s.pc.phase ≠ .dead → LicenseInEffect t.cm := fun hd => by
      refine (licenseInEffect_congr hlicense).mpr (hi.running ?_)
      cases hp : s.pc.phase with
      | starting => exact absurd hp hs
      | idle => exact Or.inl rfl
      | downloaded => exact Or.inr rfl
      | dead => exact absurd hp hd
    rcases ht with ht | ⟨hd, ht⟩
    · rw [← ht] at hs hinEffect
      exact ⟨fun hp => absurd hp hs, fun hp => hinEffect fun hd => by simp [hd] at hp⟩
    · refine ⟨fun hp => ?_, fun _ => hinEffect hd⟩
      rcases ht with ht | ht
      · rw [ht] at hp
        cases hp
      · rw [Pc.phase_of_iterationEnded ht] at hp
        cases hp

/-- Behind its download an iteration neither parses nor downloads: a disagreement lasts to its end. -/
theorem disagreement_step (hp : s.pc.phase = .downloaded) (hn : ¬ LicenseInEffect s.cm) (h : Step T S s e t) :
    t.pc.phase = .dead ∨
      ¬ LicenseInEffect t.cm ∧ (t.pc.phase = .downloaded ∨ t.pc.iterationEnded = true) := by
  cases step_license h with
  | died ht => exact Or.inl ht
  | starting hs => simp [hp] at hs
  | parsed hs => simp [hp] at hs
  | redownloaded doc hr =>
    obtain ⟨result, now, -, hpc, -⟩ := hr
    rw [hpc] at hp
    cases hp
  | unchanged hs hlicense ht =>
    refine Or.inr ⟨fun hin => hn ((licenseInEffect_congr hlicense).mp hin), ?_⟩
    rcases ht with ht | ⟨-, ht⟩
    · exact Or.inl (ht.trans hp)
    · exact ht

theorem dead_step (hp : s.pc.phase = .dead) (h : Step T S s e t) : t.pc.phase = .dead := by
  cases step_license h with
  | died ht => exact ht
  | starting hs => simp [hp] at hs
  | parsed hs => simp [hp] at hs
  | redownloaded doc hr =>
    obtain ⟨result, now, -, hpc, -⟩ := hr
    rw [hpc] at hp
    cases hp
  | unchanged hs hlicense ht =>
    rcases ht with ht | ⟨hd, -⟩
    · exact ht.trans hp
    · exact absurd hp hd

end Step

section Run
variable {T : JsonText} {S : Sodium} {s : ConfigSystem} {tr : List (Event × ConfigSystem)}

theorem not_iterationEnded_of_dead (hr : IsRun (Step T S) s tr) (hp : s.pc.phase = .dead) :
    ∀ u ∈ states s tr, u.pc.iterationEnded = false := by
  have hdead := hr.keeps (I := fun u => u.pc.phase = .dead) hp fun _ _ _ => dead_step
  intro u hu
  refine Bool.eq_false_iff.mpr fun he => ?_
  have h := hdead u hu
  rw [Pc.phase_of_iterationEnded he] at h
  cases h

/-- An iteration that disagrees behind its download, and ends, ends in disagreement. -/
theorem disagreement_at_end (hr : IsRun (Step T S) s tr) (hp : s.pc.phase = .downloaded)
    (hn : ¬ LicenseInEffect s.cm) (hend : ∃ u ∈ states s tr, u.pc.iterationEnded = true) :
    ∃ u ∈ states s tr, u.pc.iterationEnded = true ∧ ¬ LicenseInEffect u.cm := by
  have hs : s.pc.iterationEnded = false := Bool.eq_false_iff.mpr fun he => by
    rw [Pc.phase_of_iterationEnded he] at hp
    cases hp
  induction tr generalizing s with
  | nil =>
    obtain ⟨u, hu, he⟩ := hend
    rw [states_nil, List.mem_singleton] at hu
    rw [hu, hs] at he
    cases he
  | cons x tr ih =>
    obtain ⟨e, t⟩ := x
    obtain ⟨hstep, hr⟩ := hr
    have hend : ∃ u ∈ states t tr, u.pc.iterationEnded = true := by
      obtain ⟨u, hu, he⟩ := hend
      rcases List.mem_cons.mp hu with rfl | hu
      · rw [hs] at he
        cases he
      · exact ⟨u, hu, he⟩
    rcases disagreement_step hp hn hstep with hdead | ⟨hnt, hpt | het⟩
    · obtain ⟨u, hu, he⟩ := hend
      rw [not_iterationEnded_of_dead hr hdead u hu] at he
      cases he
    · have het : t.pc.iterationEnded = false := Bool.eq_false_iff.mpr fun he => by
        rw [Pc.phase_of_iterationEnded he] at hpt
        cases hpt
      obtain ⟨u, hu, h⟩ := ih hr hpt hnt hend het
      exact ⟨u, List.mem_cons_of_mem _ hu, h⟩
    · exact ⟨t, List.mem_cons_of_mem _ (List.mem_cons_self ..), het, hnt⟩

/-- Every download whose iteration ends within the trace lists the addresses in effect. -/
def DownloadsSameLists (T : JsonText) (S : Sodium) : ConfigSystem → List (Event × ConfigSystem) → Prop :=
  Along fun s e t rest => (∃ u ∈ states t rest, u.pc.iterationEnded = true) → SameLists T S s e

theorem downloadsSameLists_of_no_end (hn : ∀ u ∈ states s tr, u.pc.iterationEnded = false) :
    DownloadsSameLists T S s tr := by
  induction tr generalizing s with
  | nil => trivial
  | cons x tr ih =>
    have hrest : ∀ u ∈ states x.2 tr, u.pc.iterationEnded = false := fun u hu => hn u (List.mem_cons_of_mem _ hu)
    refine ⟨fun ⟨u, hu, he⟩ => ?_, ih hrest⟩
    rw [hrest u hu] at he
    cases he

/-- From a state that keeps the invariant, the licence is in effect at the end of every iteration
if and only if every download lists the addresses in effect. -/
theorem inEffect_iff_of_inv (hi : LicenseInv s) (hr : IsRun (Step T S) s tr) :
    (∀ u ∈ states s tr, u.pc.iterationEnded = true → LicenseInEffect u.cm) ↔ DownloadsSameLists T S s tr := by
  have hnow : s.pc.iterationEnded = true → LicenseInEffect s.cm :=
    fun he => hi.running (Or.inl (Pc.phase_of_iterationEnded he))
  induction tr generalizing s with
  | nil =>
    refine ⟨fun _ => trivial, fun _ u hu => ?_⟩
    rw [states_nil, List.mem_singleton] at hu
    exact hu ▸ hnow
  | cons x tr ih =>
    obtain ⟨e, t⟩ := x
    obtain ⟨hstep, hr⟩ := hr
    have hsplit : (∀ u ∈ states s ((e, t) :: tr), u.pc.iterationEnded = true → LicenseInEffect u.cm) ↔
        ∀ u ∈ states t tr, u.pc.iterationEnded = true → LicenseInEffect u.cm := by
      rw [states_cons, List.forall_mem_cons]
      exact and_iff_right hnow
    rw [hsplit]
    by_cases hsame : SameLists T S s e
    · have hit := licenseInv_step hi hsame hstep
      have htail := ih hit hr fun he => hit.running (Or.inl (Pc.phase_of_iterationEnded he))
      exact htail.trans (and_iff_right fun _ => hsame).symm
    · by_cases hend : ∃ u ∈ states t tr, u.pc.iterationEnded = true
      · refine ⟨fun hall => ?_, fun hds => absurd (hds.1 hend) hsame⟩
        obtain ⟨doc, hd⟩ := not_forall.mp hsame
        obtain ⟨hrd, hne⟩ := Classical.not_imp.mp hd
        obtain ⟨hpt, hlists, hdoc⟩ := hrd.target hstep
        obtain ⟨u, hu, he, hnu⟩ := disagreement_at_end hr hpt
          (fun hin => hne ((licenseInEffect_redownloaded hrd hlists hdoc).mp hin)) hend
        exact absurd (hall u hu he) hnu
      · have hno : ∀ u ∈ states t tr, u.pc.iterationEnded = false :=
          fun u hu => Bool.eq_false_iff.mpr fun he => hend ⟨u, hu, he⟩
        refine ⟨fun _ => ⟨fun h => absurd h hend, downloadsSameLists_of_no_end hno⟩, fun _ u hu he => ?_⟩
        rw [hno u hu] at he
        cases he

end Run

theorem licenseInv_start (enableControlplane : Bool) (ourIp : HusarnetAddress) (clock : ℤ)
    (configFile cacheFile : Bytes) : LicenseInv (start enableControlplane ourIp clock configFile cacheFile) :=
  ⟨fun _ => rfl, fun h => by rcases h with h | h <;> cases h⟩

/-- **The licence in effect.** In every run from every start, with any downloads, replies,
triggers and whitelist calls: at the end of every iteration the addresses in effect are those of
the cached licence if and only if every licence stored by a periodic download whose iteration ends
lists the addresses in effect at that download. -/
theorem license_in_effect_iff (T : JsonText) (S : Sodium) (enableControlplane : Bool) (ourIp : HusarnetAddress)
    (clock : ℤ) (configFile cacheFile : Bytes) (events : List Event) :
    let s₀ := start enableControlplane ourIp clock configFile cacheFile
    let tr := trace (step T S) s₀ events
    (∀ s ∈ states s₀ tr, s.pc.iterationEnded = true → LicenseInEffect s.cm) ↔ DownloadsSameLists T S s₀ tr :=
  inEffect_iff_of_inv (licenseInv_start ..) (isRun_trace (step T S) _ events)

/-! ## A licence that comes late -/

/-- A licence with one server of each kind. -/
def lateLicense : Json :=
  let servers : Bytes → Json := fun ip => .array [.string ip]
  .object [(LICENSE_VERSION_KEY, .int 1), (LICENSE_INSTALLATION_ID_KEY, .string []),
    (LICENSE_LICENSE_ID_KEY, .string []), (LICENSE_NAME_KEY, .string []), (LICENSE_MAX_DEVICES_KEY, .int 1),
    (LICENSE_DASHBOARD_URL_KEY, .string []), (LICENSE_WEBSETUP_HOST_KEY, .string []),
    (LICENSE_BASE_SERVER_ADDRESSES_KEY, servers (ascii "10.0.0.1")),
    (LICENSE_API_SERVERS_KEY, servers (ascii "fc94::2")), (LICENSE_EB_SERVERS_KEY, servers (ascii "fc94::3")),
    (LICENSE_ISSUED_KEY, .string []), (LICENSE_VALID_UNTIL_KEY, .string []),
    (LICENSE_SIGNATURE_V2_KEY, .string (List.replicate 88 0x41))]

def lateText : JsonText where
  parse s := if s = ascii "{}" then some (.object []) else if s = ascii "license" then some lateLicense else none
  dump _ := []

/-- The host starts without a network; the first iteration downloads the licence. -/
def lateDownload : List Event :=
  let step : Event := .thread ⟨-1, []⟩
  [step, step, step, step, step, step, step, step, .thread ⟨200, ascii "license"⟩, step, step]

/-- At the end of that iteration the licence is in the cache and no address is in effect. -/
theorem late_license_not_in_effect :
    let s₀ := start true .invalid 0 [] []
    let s := last s₀ (trace (step lateText { clearSodium with verifyDetached := fun _ _ _ => true }) s₀ lateDownload)
    s.pc.iterationEnded = true ∧ ¬ LicenseInEffect s.cm := by
  decide +kernel

end ConfigSystem
end Husarnet
