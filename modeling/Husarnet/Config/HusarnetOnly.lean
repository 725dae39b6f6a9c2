import Husarnet.Config.AddressLists
import Husarnet.Config.GetConfigPayload
import Husarnet.Config.UserWhitelist

/-! # Which addresses are let in

Five places insert an address into a container that `isPeerAllowed` looks at, each a result of
`IpAddress::parse`, whose failure value is an address as any other. The reader of config.json
looks at the range first. The other four are listed by `admitted`: the addresses that a step of
the daemon lets in.
-/

namespace Husarnet
open Octets JsonDoc Containers StateProgram Runs
set_option autoImplicit false

namespace ConfigManager

/-- The part of the manager that `isPeerAllowed` looks at. -/
def accessView (cm : ConfigManager) :=
  (cm.allowEveryone, cm.apiAddresses, cm.ebAddresses, cm.userWhitelist, cm.allowedPeers)

theorem isPeerAllowed_iff (cm : ConfigManager) (a : HusarnetAddress) :
    cm.isPeerAllowed a = true ↔ cm.allowEveryone = true ∨ a ∈ cm.apiAddresses.elems ∨ a ∈ cm.ebAddresses.elems ∨
      a ∈ cm.userWhitelist ∨ a ∈ cm.allowedPeers := by
  simp only [isPeerAllowed, Bool.or_eq_true, List.contains_iff_mem, decide_eq_true_eq, or_assoc]

theorem isPeerAllowed_congr {cm cm' : ConfigManager} (h : cm'.accessView = cm.accessView) (a : HusarnetAddress) :
    cm'.isPeerAllowed a = cm.isPeerAllowed a := by
  simp only [accessView, Prod.mk.injEq] at h
  rw [isPeerAllowed, isPeerAllowed, h.1, h.2.1, h.2.2.1, h.2.2.2.1, h.2.2.2.2]

/-! ## The servers of a licence -/

/-- The EventBus and API servers that an update installs, as far as it gets. -/
def installedServers (licenseJson : Json) : List HusarnetAddress :=
  match serverAddresses licenseJson LICENSE_EB_SERVERS_KEY with
  | .error _ => []
  | .ok eb =>
    if EVENTBUS_ADDRESSES_LIMIT < eb.length then eb.take EVENTBUS_ADDRESSES_LIMIT
    else match serverAddresses licenseJson LICENSE_API_SERVERS_KEY with
      | .error _ => eb
      | .ok api => eb ++ api.take DASHBOARD_API_ADDRESSES_LIMIT

/-- The update lets `as` in and nothing else. -/
structure LetsIn (cm cm' : ConfigManager) (as : List HusarnetAddress) : Prop where
  restricted : cm'.allowEveryone = cm.allowEveryone
  allowed : ∀ a ∈ as, cm'.isPeerAllowed a = true
  only : ∀ a, cm'.isPeerAllowed a = true → cm.isPeerAllowed a = true ∨ a ∈ as

theorem letsIn_nil {cm cm' : ConfigManager} (h : cm'.accessView = cm.accessView) : LetsIn cm cm' [] :=
  ⟨congrArg Prod.fst h, fun _ ha => absurd ha List.not_mem_nil,
    fun a ha => Or.inl ((isPeerAllowed_congr h a).symm.trans ha)⟩

theorem letsIn_installEb (cm : ConfigManager) (ips : List HusarnetAddress) :
    LetsIn cm (cm.installEb ips) (ips.take EVENTBUS_ADDRESSES_LIMIT) where
  restricted := rfl
  allowed a ha := (isPeerAllowed_iff _ a).mpr (Or.inr (Or.inr (Or.inl ha)))
  only a ha := by
    rw [isPeerAllowed_iff] at ha ⊢
    rcases ha with h | h | h | h | h
    · exact Or.inl (Or.inl h)
    · exact Or.inl (Or.inr (Or.inl h))
    · exact Or.inr h
    · exact Or.inl (Or.inr (Or.inr (Or.inr (Or.inl h))))
    · rcases BoundedSet.mem_of_mem_insertAll _ _ h with h | h
      · exact Or.inl (Or.inr (Or.inr (Or.inr (Or.inr h))))
      · exact Or.inr h

theorem letsIn_installApi {cm cm' : ConfigManager} (ips : List HusarnetAddress) {as : List HusarnetAddress}
    (h : LetsIn cm cm' as) (heb : ∀ a ∈ as, a ∈ cm'.ebAddresses.elems) :
    LetsIn cm (cm'.installApi ips) (as ++ ips.take DASHBOARD_API_ADDRESSES_LIMIT) where
  restricted := h.restricted
  allowed a ha := by
    rw [isPeerAllowed_iff]
    rcases List.mem_append.mp ha with ha | ha
    · exact Or.inr (Or.inr (Or.inl (heb a ha)))
    · exact Or.inr (Or.inl ha)
  only a ha := by
    have hbefore (hin : cm'.isPeerAllowed a = true) :
        cm.isPeerAllowed a = true ∨ a ∈ as ++ ips.take DASHBOARD_API_ADDRESSES_LIMIT := by
      rcases h.only a hin with h | h
      · exact Or.inl h
      · exact Or.inr (List.mem_append_left _ h)
    rw [isPeerAllowed_iff] at ha
    rcases ha with h | h | h | h | h
    · exact hbefore ((isPeerAllowed_iff ..).mpr (Or.inl h))
    · exact Or.inr (List.mem_append_right _ h)
    · exact hbefore ((isPeerAllowed_iff ..).mpr (Or.inr (Or.inr (Or.inl h))))
    · exact hbefore ((isPeerAllowed_iff ..).mpr (Or.inr (Or.inr (Or.inr (Or.inl h)))))
    · rcases BoundedSet.mem_of_mem_insertAll _ _ h with h | h
      · exact hbefore ((isPeerAllowed_iff ..).mpr (Or.inr (Or.inr (Or.inr (Or.inr h)))))
      · exact Or.inr (List.mem_append_right _ h)

theorem letsIn_of_view {cm cm' cm'' : ConfigManager} {as : List HusarnetAddress} (h : LetsIn cm cm' as)
    (hview : cm''.accessView = cm'.accessView) : LetsIn cm cm'' as where
  restricted := (congrArg Prod.fst hview).trans h.restricted
  allowed a ha := (isPeerAllowed_congr hview a).trans (h.allowed a ha)
  only a ha := h.only a ((isPeerAllowed_congr hview a).symm.trans ha)

theorem letsIn_updateAddressLists (licenseJson : Json) (cm : ConfigManager) :
    LetsIn cm (after (updateAddressLists licenseJson) cm) (installedServers licenseJson) := by
  have hrun := updateAddressLists_eq licenseJson cm
  unfold installedServers
  cases heb : serverAddresses licenseJson LICENSE_EB_SERVERS_KEY with
  | error fault =>
    rw [heb] at hrun
    rw [after_error hrun]
    exact letsIn_nil rfl
  | ok eb =>
    have hinstall := letsIn_installEb cm eb
    rw [heb] at hrun
    dsimp only at hrun ⊢
    by_cases hlong : EVENTBUS_ADDRESSES_LIMIT < eb.length
    · rw [if_pos hlong] at hrun ⊢
      rw [after_error hrun]
      exact hinstall
    · rw [if_neg hlong] at hrun ⊢
      rw [List.take_of_length_le (Nat.not_lt.mp hlong)] at hinstall
      cases hapi : serverAddresses licenseJson LICENSE_API_SERVERS_KEY with
      | error fault =>
        rw [hapi] at hrun
        rw [after_error hrun]
        exact hinstall
      | ok api =>
        have hboth := letsIn_installApi api hinstall fun a ha => by
          show a ∈ eb.take EVENTBUS_ADDRESSES_LIMIT
          rwa [List.take_of_length_le (Nat.not_lt.mp hlong)]
        rw [hapi] at hrun
        dsimp only at hrun ⊢
        -- what follows the API servers fills the list of base servers only
        by_cases hlong' : DASHBOARD_API_ADDRESSES_LIMIT < api.length
        · rw [if_pos hlong'] at hrun
          rw [after_error hrun]
          exact hboth
        · rw [if_neg hlong'] at hrun
          cases hbase : serverAddresses licenseJson LICENSE_BASE_SERVER_ADDRESSES_KEY with
          | error fault =>
            rw [hbase] at hrun
            rw [after_error hrun]
            exact hboth
          | ok base =>
            rw [hbase] at hrun
            dsimp only at hrun
            by_cases hlong'' : BASE_ADDRESSES_LIMIT < base.length
            · rw [if_pos hlong''] at hrun
              rw [after_error hrun]
              exact letsIn_of_view hboth rfl
            · rw [if_neg hlong''] at hrun
              rw [after_ok hrun]
              exact letsIn_of_view hboth rfl

theorem letsIn_updateLicenseData (cm : ConfigManager) :
    LetsIn cm (after updateLicenseData cm) (installedServers cm.cachedLicense) := by
  obtain ⟨j, ⟨hnull, hrun⟩ | ⟨-, hrun⟩⟩ := updateLicenseData_cases cm
  · rw [hnull, after_ok hrun]
    exact letsIn_nil rfl
  · have h := letsIn_updateAddressLists cm.cachedLicense { cm with cacheJson := j }
    rw [after, ← hrun] at h
    exact ⟨h.restricted, h.allowed, h.only⟩

/-! ## The peers of a payload -/

theorem letsIn_updateGetConfigData (cm : ConfigManager) :
    LetsIn cm (after updateGetConfigData cm)
      ((listedAddresses cm.cachedPayload).eraseDups.take ALLOWED_PEERS_LIMIT) := by
  have hframe := frame_updateGetConfigData cm
  have hpeers := (updateGetConfigData_spec cm).1
  simp only [outsideGetConfig, Prod.mk.injEq] at hframe
  obtain ⟨-, hrestricted, -, -, -, -, -, hwhitelist, -, hapi, heb⟩ := hframe
  have hmem (a : HusarnetAddress) : a ∈ (after updateGetConfigData cm).allowedPeers →
      a ∈ cm.allowedPeers ∨ a ∈ (listedAddresses cm.cachedPayload).eraseDups.take ALLOWED_PEERS_LIMIT := by
    rw [hpeers]
    split
    · rw [BoundedSet.mem_insertAll_empty]
      exact Or.inr
    · exact Or.inl
  refine ⟨hrestricted, fun a ha => ?_, fun a ha => ?_⟩
  · have hlist : (peerEntries cm.cachedPayload).isSome = true := by
      cases hp : peerEntries cm.cachedPayload with
      | some peers => rfl
      | none =>
        rw [listedAddresses, hp] at ha
        cases ha
    rw [isPeerAllowed_iff, hpeers, if_pos hlist, BoundedSet.mem_insertAll_empty]
    exact Or.inr (Or.inr (Or.inr (Or.inr ha)))
  · rw [isPeerAllowed_iff, hrestricted, hwhitelist, hapi, heb] at ha
    rw [isPeerAllowed_iff]
    rcases ha with h | h | h | h | h
    · exact Or.inl (Or.inl h)
    · exact Or.inl (Or.inr (Or.inl h))
    · exact Or.inl (Or.inr (Or.inr (Or.inl h)))
    · exact Or.inl (Or.inr (Or.inr (Or.inr (Or.inl h))))
    · exact (hmem a h).imp_left fun h => Or.inr (Or.inr (Or.inr (Or.inr h)))

/-! ## The whitelist -/

theorem letsIn_userWhitelistAdd (T : JsonText) (address : HusarnetAddress) (cm : ConfigManager) :
    LetsIn cm (after (userWhitelistAdd T address) cm)
      (if (WhitelistCall.add address).accepted cm.userWhitelist then [address] else []) := by
  have hframe := frame_userWhitelistAdd (f := fun cm : ConfigManager =>
    (cm.allowEveryone, cm.apiAddresses, cm.ebAddresses, cm.allowedPeers)) T address (fun _ _ _ => rfl) cm
  have hset := WhitelistCall.run_userWhitelist T (.add address) cm
  simp only [Prod.mk.injEq] at hframe
  simp only [WhitelistCall.run, WhitelistCall.apply] at hset
  simp only [WhitelistCall.accepted, decide_eq_true_eq]
  have hsame (h : (after (userWhitelistAdd T address) cm).userWhitelist = cm.userWhitelist) :
      LetsIn cm (after (userWhitelistAdd T address) cm) [] := by
    apply letsIn_nil
    simp only [accessView, hframe, h]
  by_cases hin : address ∈ cm.userWhitelist
  · rw [if_pos hin] at hset
    rw [if_neg fun h => h.1 hin]
    exact hsame hset
  · rw [if_neg hin] at hset
    by_cases hfull : cm.userWhitelist.full = true
    · rw [if_pos hfull] at hset
      rw [if_neg (by simp [hfull])]
      exact hsame hset
    · have hroom : cm.userWhitelist.elems.length < USER_WHITELIST_SIZE_LIMIT := by
        simpa [BoundedSet.full] using hfull
      rw [if_neg hfull] at hset
      rw [if_pos ⟨hin, Bool.eq_false_iff.mpr hfull⟩]
      refine ⟨hframe.1, fun a ha => ?_, fun a ha => ?_⟩
      · rw [isPeerAllowed_iff, hset, BoundedSet.mem_insert]
        exact Or.inr (Or.inr (Or.inr (Or.inl (Or.inr ⟨List.mem_singleton.mp ha, hroom⟩))))
      · rw [isPeerAllowed_iff, hframe.1, hframe.2.1, hframe.2.2.1, hframe.2.2.2, hset, BoundedSet.mem_insert] at ha
        rw [isPeerAllowed_iff, List.mem_singleton]
        tauto

theorem letsIn_userWhitelistRm (address : HusarnetAddress) (cm : ConfigManager) :
    LetsIn cm (after (userWhitelistRm address) cm) [] := by
  have hframe := frame_userWhitelistRm (f := fun cm : ConfigManager =>
    (cm.allowEveryone, cm.apiAddresses, cm.ebAddresses, cm.allowedPeers)) address (fun _ _ _ => rfl) cm
  have hset := WhitelistCall.run_userWhitelist ⟨fun _ => none, fun _ => []⟩ (.rm address) cm
  simp only [Prod.mk.injEq] at hframe
  simp only [WhitelistCall.run, WhitelistCall.apply] at hset
  refine ⟨hframe.1, fun a ha => absurd ha List.not_mem_nil, fun a ha => Or.inl ?_⟩
  rw [isPeerAllowed_iff, hframe.1, hframe.2.1, hframe.2.2.1, hframe.2.2.2, hset] at ha
  rw [isPeerAllowed_iff]
  have hmem : a ∈ (if address ∈ cm.userWhitelist then cm.userWhitelist.erase address else cm.userWhitelist) →
      a ∈ cm.userWhitelist := by
    split
    · intro h
      exact ((BoundedSet.mem_erase _ _ _).mp h).2
    · exact id
  tauto

theorem allowed_updateUserConfigData (cm : ConfigManager) {a : HusarnetAddress}
    (h : (after updateUserConfigData cm).isPeerAllowed a = true) :
    cm.isPeerAllowed a = true ∨ a.isFC94 = true := by
  have hframe := frame_updateUserConfigData (f := fun cm : ConfigManager =>
    (cm.allowEveryone, cm.apiAddresses, cm.ebAddresses, cm.allowedPeers)) (fun _ _ => rfl) cm
  simp only [Prod.mk.injEq] at hframe
  have hset : a ∈ (after updateUserConfigData cm).userWhitelist → a ∈ cm.userWhitelist ∨ a.isFC94 = true := by
    rw [updateUserConfigData, after_get_bind]
    cases whitelistEntries cm.userConfigJson with
    | none => exact Or.inl
    | some xs =>
      cases hread : access (Json.array xs).getStrings with
      | error fault =>
        intro hin
        simp only [hread] at hin
        cases hin
      | ok entries =>
        intro hin
        simp only [hread] at hin
        rcases BoundedSet.mem_of_mem_insertAll _ _ hin with hin | hin
        · cases hin
        · exact Or.inr (List.mem_filter.mp hin).2
  rw [isPeerAllowed_iff, hframe.1, hframe.2.1, hframe.2.2.1, hframe.2.2.2] at h
  rw [isPeerAllowed_iff]
  tauto

end ConfigManager

/-! ## The daemon -/

namespace ConfigSystem
open ConfigManager

/-- The addresses that a step lets in: what the daemon API adds to a whitelist with room, the
servers of the licence, and the first 128 different addresses of a payload, as far as they are read. -/
def admitted (s : ConfigSystem) : Event → List HusarnetAddress
  | .whitelistAdd address => if (WhitelistCall.add address).accepted s.cm.userWhitelist then [address] else []
  | .thread _ => match s.pc with
    | .updateLicenseData => installedServers s.cm.cachedLicense
    | .getConfigStored => (listedAddresses s.cm.cachedPayload).eraseDups.take ALLOWED_PEERS_LIMIT
    | _ => []
  | _ => []

theorem letsIn_call {α : Type} (s : ConfigSystem) {m : Cm α} (next : α → Pc) {as : List HusarnetAddress}
    (h : LetsIn s.cm (after m s.cm) as) : LetsIn s.cm (s.call m next).cm as := by
  rwa [call_cm]

theorem letsIn_call_nil {α : Type} (s : ConfigSystem) {m : Cm α} (next : α → Pc) (h : Frame accessView m) :
    LetsIn s.cm (s.call m next).cm [] := letsIn_call s next (letsIn_nil (h s.cm))

/-- A step lets the admitted addresses in and no others, the reader of config.json apart. -/
theorem step_letsIn (T : JsonText) (S : Sodium) (s : ConfigSystem) (e : Event)
    (h : ∀ result, e = .thread result → s.pc ≠ .updateUserConfigData) :
    LetsIn s.cm (s.step T S e).cm (s.admitted e) := by
  cases e with
  | whitelistAdd address => exact letsIn_userWhitelistAdd T address s.cm
  | whitelistRm address => exact letsIn_userWhitelistRm address s.cm
  | tick ms => exact letsIn_nil rfl
  | message m =>
    show LetsIn s.cm (s.messageStep m).cm []
    unfold messageStep
    split
    · exact letsIn_nil rfl
    · exact letsIn_nil rfl
  | thread result =>
    have hne := h result rfl
    show LetsIn s.cm (s.threadStep T S result).cm _
    unfold threadStep admitted
    cases hpc : s.pc with
    | readCache => exact letsIn_call_nil s _ (frame_readCache T fun _ _ => rfl)
    | readUserConfig => exact letsIn_call_nil s _ (frame_readUserConfig T fun _ _ => rfl)
    | updateUserConfigData => exact absurd hpc hne
    | fetchLicense => exact letsIn_call_nil s _ (frame_fetchLicenseJson T S _ _ (fun _ _ => rfl) fun _ _ => rfl)
    | updateLicenseData => exact letsIn_call s _ (letsIn_updateLicenseData s.cm)
    | firstWriteCache => exact letsIn_call_nil s _ (.modify fun _ => rfl)
    | waiting => exact letsIn_nil rfl
    | checkLicense now => exact letsIn_nil rfl
    | redownloadLicense now =>
      exact letsIn_call_nil s _ (frame_fetchLicenseJson T S _ _ (fun _ _ => rfl) fun _ _ => rfl)
    | checkGetConfig now w =>
      dsimp only
      split
      · exact letsIn_nil rfl
      · exact letsIn_nil rfl
    | getConfigRequested => exact letsIn_call_nil s _ (.lift _)
    | getConfigReceived apiResponse =>
      exact letsIn_nil (receive_frame apiResponse (fun _ => .modify fun _ => rfl) s)
    | getConfigStored => exact letsIn_call s _ (letsIn_updateGetConfigData s.cm)
    | getConfigApplied => exact letsIn_nil rfl
    | checkWriteCache w => exact letsIn_call_nil s _ (.ite (.modify fun _ => rfl) (.pure _))
    | dead fault => exact letsIn_nil rfl

/-- An address that is allowed after a step was allowed before it, or it was admitted, or it is a
Husarnet address. -/
theorem step_allowed (T : JsonText) (S : Sodium) (s : ConfigSystem) (e : Event) {a : HusarnetAddress}
    (h : (s.step T S e).cm.isPeerAllowed a = true) :
    s.cm.isPeerAllowed a = true ∨ a ∈ s.admitted e ∨ a.isFC94 = true := by
  by_cases hreader : ∀ result, e = .thread result → s.pc ≠ .updateUserConfigData
  · rcases (step_letsIn T S s e hreader).only a h with h | h
    · exact Or.inl h
    · exact Or.inr (Or.inl h)
  · push Not at hreader
    obtain ⟨result, rfl, hpc⟩ := hreader
    have hcm : (s.step T S (.thread result)).cm = after updateUserConfigData s.cm := by
      show (s.threadStep T S result).cm = _
      rw [threadStep, hpc]
      exact call_cm s _ _
    rw [hcm] at h
    exact (allowed_updateUserConfigData s.cm h).imp_right Or.inr

theorem admitted_allowed (T : JsonText) (S : Sodium) (s : ConfigSystem) (e : Event) {a : HusarnetAddress}
    (h : a ∈ s.admitted e) : (s.step T S e).cm.isPeerAllowed a = true := by
  refine (step_letsIn T S s e ?_).allowed a h
  rintro result rfl hpc
  rw [admitted, hpc] at h
  cases h

/-- **Only Husarnet addresses.** In every run of the daemon with the control plane enabled, from
any stored files and with any licences, payloads, messages and calls of the whitelist API: every
allowed address is in fc94::/16 in every state if and only if every step lets only such addresses in. -/
theorem only_husarnet_iff (T : JsonText) (S : Sodium) (ourIp : HusarnetAddress) (clock : ℤ)
    (configFile cacheFile : Bytes) (events : List Event) :
    let s₀ := start true ourIp clock configFile cacheFile
    let tr := trace (step T S) s₀ events
    (∀ u ∈ states s₀ tr, ∀ a, u.cm.isPeerAllowed a = true → a.isFC94 = true) ↔
      ∀ x ∈ transitions s₀ tr, ∀ a ∈ x.1.admitted x.2.1, a.isFC94 = true := by
  intro s₀ tr
  have hrun : IsRun (fun s e t => s.step T S e = t) s₀ tr := isRun_trace (step T S) s₀ events
  constructor
  · intro h x hx a ha
    have hallowed := admitted_allowed T S x.1 x.2.1 ha
    rw [(hrun.of_mem hx).2] at hallowed
    exact h x.2.2 (target_mem_states hx) a hallowed
  · intro h
    refine hrun.invariant (G := fun s e _ => ∀ a ∈ s.admitted e, a.isFC94 = true) ?_ ?_ h
    · intro a ha
      cases ha
    · intro s e t hs hadmitted hstep a ha
      subst hstep
      rcases step_allowed T S s e ha with ha | ha | ha
      · exact hs a ha
      · exact hadmitted a ha
      · exact ha

/-- A call of the whitelist API with a text that is no address lets the default address in. -/
theorem invalid_address_allowed :
    let s₀ := start true .invalid 0 [] []
    let tr := trace (step plainText clearSodium) s₀ [.whitelistAdd (.parse (ascii "foo"))]
    ¬ ∀ u ∈ states s₀ tr, ∀ a, u.cm.isPeerAllowed a = true → a.isFC94 = true := by
  intro s₀ tr h
  have hfc94 := h (last s₀ tr) (mem_states_last s₀ tr) .invalid (by decide +kernel)
  revert hfc94
  decide

end ConfigSystem
end Husarnet
