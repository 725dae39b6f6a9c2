import Husarnet.ApiServer
import Husarnet.Config.AddressLists
import Husarnet.Config.StartUp
import Mathlib.Data.List.DropRight

/-! # The requests of the daemon API

The whitelist over the lives of a daemon: requests of the API with and without the secret, the periodic thread of the
configuration manager, messages of the event bus, and restarts of the process.
-/

namespace Husarnet
open Octets JsonDoc Containers StateProgram Runs ConfigManager
set_option autoImplicit false

/-! ## api_server/server.cpp: the other routes -/

/-- `getOrCreateDaemonApiToken` on what is stored: the token, and what is stored then. -/
def getOrCreateDaemonApiToken (stored newToken : Bytes) (written : Bool) : Bytes × Bytes :=
  if stored.isEmpty then (newToken, if written then newToken else stored) else (stored, stored)

namespace ApiServer

section Routes
variable (lib : ForwardLibrary)

def returnSuccess (res : Response) (result : Json) : Response :=
  let doc := (Json.null.setMember (ascii "status") (.string (ascii "success"))).setMember (ascii "result") result
  res.setContent (lib.dump doc) (ascii "text/json")

def requireParams (req : Request) (res : Response) : List Bytes → Response × Bool
  | [] => (res, true)
  | paramName :: paramNames =>
    match req.param paramName with
    | none => (returnInvalidQuery lib res (ascii "missing param " ++ paramName), false)
    | some _ => requireParams req res paramNames

/-- A route that changes the whitelist. The library answers an exception with status 500. -/
def whitelistRoute (call : HusarnetAddress → Cm Bool) (failure : Bytes) (server : ApiServer) (req : Request) :
    Response × ConfigManager :=
  match validateSecret lib server req {} with
  | (res, false) => (res, server.configManager)
  | (res, true) =>
    match requireParams lib req res [ascii "address"] with
    | (res, false) => (res, server.configManager)
    | (res, true) =>
      match call (IpAddress.parse ((req.param (ascii "address")).getD [])) server.configManager with
      | .ok true cm => (returnSuccess lib res .null, cm)
      | .ok false cm => (returnError lib res failure, cm)
      | .error _ cm => ({ res with status := some 500 }, cm)

def addFailure : Bytes := ascii "Failed to add address to whitelist"
def rmFailure : Bytes := ascii "Failed to remove address from whitelist"

/-- `/api/whitelist/add` -/
def whitelistAdd (T : JsonText) : ApiServer → Request → Response × ConfigManager :=
  whitelistRoute lib (userWhitelistAdd T) addFailure

/-- `/api/whitelist/rm` -/
def whitelistRm : ApiServer → Request → Response × ConfigManager := whitelistRoute lib userWhitelistRm rmFailure

end Routes

/-- The call of the manager that a request to the whitelist asks for, if it may. -/
def askedFor (server : ApiServer) (req : Request) (call : HusarnetAddress → WhitelistCall) : Option WhitelistCall :=
  if server.hasSecret req then (req.param (ascii "address")).map fun text => call (IpAddress.parse text) else none

theorem askedFor_congr {server server' : ApiServer} (h : server.daemonApiToken = server'.daemonApiToken) (req : Request)
    (call : HusarnetAddress → WhitelistCall) : server.askedFor req call = server'.askedFor req call := by
  have hsecret : server.hasSecret req = server'.hasSecret req := by
    unfold hasSecret
    rw [h]
  rw [askedFor, askedFor, hsecret]

/-- The answer to a request, by the call that it asks for. -/
def reply (lib : ForwardLibrary) (server : ApiServer) (req : Request) (failure : Bytes) : Option WhitelistCall → Response
  | none =>
    returnInvalidQuery lib {}
      (if server.hasSecret req then ascii "missing param " ++ ascii "address" else ascii "invalid control secret")
  | some call =>
    if call.accepted server.configManager.userWhitelist then returnSuccess lib {} .null else returnError lib {} failure

/-- The manager behind a request. -/
def carriedOut (T : JsonText) (cm : ConfigManager) : Option WhitelistCall → ConfigManager
  | none => cm
  | some call => after (call.run T) cm

/-- A call returns whether it was accepted, and one that was not changes nothing. -/
theorem run_eq (T : JsonText) (call : WhitelistCall) (cm : ConfigManager) :
    call.run T cm = .ok (call.accepted cm.userWhitelist) (after (call.run T) cm) ∧
      (call.accepted cm.userWhitelist = false → after (call.run T) cm = cm) := by
  cases call with
  | add a =>
    simp only [WhitelistCall.run, userWhitelistAdd, WhitelistCall.accepted, after, get_bind]
    by_cases ha : a ∈ cm.userWhitelist
    · simp only [ha]
      exact ⟨rfl, fun _ => rfl⟩
    · by_cases hf : cm.userWhitelist.full = true
      · simp only [ha, hf]
        exact ⟨rfl, fun _ => rfl⟩
      · simp only [ha, hf]
        exact ⟨rfl, fun h => by simp at h⟩
  | rm a =>
    simp only [WhitelistCall.run, userWhitelistRm, WhitelistCall.accepted, after, get_bind]
    by_cases ha : a ∈ cm.userWhitelist
    · simp only [ha]
      exact ⟨rfl, fun h => by simp at h⟩
    · simp only [ha]
      exact ⟨rfl, fun _ => rfl⟩

/-- **A request to the whitelist** is carried out, or refused. -/
theorem whitelistRoute_eq (lib : ForwardLibrary) (T : JsonText) (call : HusarnetAddress → WhitelistCall) (failure : Bytes)
    (server : ApiServer) (req : Request) :
    whitelistRoute lib (fun a => (call a).run T) failure server req =
      (reply lib server req failure (server.askedFor req call),
        carriedOut T server.configManager (server.askedFor req call)) := by
  unfold whitelistRoute validateSecret askedFor
  by_cases hsecret : server.hasSecret req = true
  · simp only [if_pos hsecret, requireParams]
    cases hparam : req.param (ascii "address") with
    | none => simp only [Option.map_none, reply, carriedOut, if_pos hsecret]
    | some text =>
      simp only [Option.getD_some, Option.map_some, reply, carriedOut]
      rw [(run_eq T (call (IpAddress.parse text)) server.configManager).1]
      cases (call (IpAddress.parse text)).accepted server.configManager.userWhitelist with
      | true => rfl
      | false => rfl
  · simp only [if_neg hsecret, reply, carriedOut]

theorem whitelistAdd_eq (lib : ForwardLibrary) (T : JsonText) (server : ApiServer) (req : Request) :
    whitelistAdd lib T server req = (reply lib server req addFailure (server.askedFor req .add),
      carriedOut T server.configManager (server.askedFor req .add)) := whitelistRoute_eq lib T .add addFailure server req

theorem whitelistRm_eq (lib : ForwardLibrary) (T : JsonText) (server : ApiServer) (req : Request) :
    whitelistRm lib server req = (reply lib server req rmFailure (server.askedFor req .rm),
      carriedOut T server.configManager (server.askedFor req .rm)) := whitelistRoute_eq lib T .rm rmFailure server req

end ApiServer

/-! ## The daemon -/

/-- `initialised` tells that `waitInit` has returned, `isReady` that the API server runs. -/
structure ApiDaemon where
  system : ConfigSystem
  identity : Identity
  tokenFile : Bytes
  daemonApiToken : Bytes := []
  initialised : Bool := false
  isReady : Bool := false

inductive ApiEvent where
  | config (event : ConfigSystem.Event)
  | waitInit
  | startApi (newToken : Bytes) (written : Bool)
  | whitelistAdd (req : ApiServer.Request) (res : ApiServer.Response)
  | whitelistRm (req : ApiServer.Request) (res : ApiServer.Response)
  | forward (req : ApiServer.Request) (exchange : ℕ → ApiServer.Exchange) (res : ApiServer.Response)
      (executed : List ApiServer.DashboardRequest)
  | restart (clock : ℤ)

namespace ApiDaemon

def server (d : ApiDaemon) : ApiServer := ⟨d.system.cm, d.identity, d.daemonApiToken⟩

def withManager (d : ApiDaemon) (cm : ConfigManager) : ApiDaemon := { d with system := { d.system with cm := cm } }

/-- The process is started, with what is stored. -/
def start (enableControlplane : Bool) (identity : Identity) (clock : ℤ) (configFile cacheFile tokenFile : Bytes) :
    ApiDaemon where
  system := .start enableControlplane identity.deviceId clock configFile cacheFile
  identity := identity
  tokenFile := tokenFile

def restart (d : ApiDaemon) (clock : ℤ) : ApiDaemon :=
  start d.system.cm.enableControlplane d.identity clock d.system.cm.configFile d.system.cm.cacheFile d.tokenFile

/-- The start of `runThread`, where the library binds its port. -/
def startApi (d : ApiDaemon) (newToken : Bytes) (written : Bool) : ApiDaemon :=
  let (token, tokenFile) := getOrCreateDaemonApiToken d.tokenFile newToken written
  { d with daemonApiToken := token, tokenFile := tokenFile, isReady := true }

end ApiDaemon

/-- The event is one of the manager's own thread, of the event bus, or time that passes. -/
def ConfigSystem.Event.IsOwn : ConfigSystem.Event → Prop
  | .whitelistAdd _ | .whitelistRm _ => False
  | _ => True

/-- The API server starts when the licence is known, and the whitelist is changed by its requests only. -/
inductive ApiStep (lib : ForwardLibrary) (T : JsonText) (S : Sodium) (d : ApiDaemon) : ApiEvent → ApiDaemon → Prop where
  | config {e : ConfigSystem.Event} (he : e.IsOwn) :
      ApiStep lib T S d (.config e) { d with system := d.system.step T S e }
  | waitInit (h : d.system.cm.baseAddresses.elems ≠ []) : ApiStep lib T S d .waitInit { d with initialised := true }
  | startApi (h : d.initialised = true) (hr : d.isReady = false) {newToken : Bytes} (hnew : newToken.length = 32)
      (written : Bool) : ApiStep lib T S d (.startApi newToken written) (d.startApi newToken written)
  | whitelistAdd (h : d.isReady = true) (req : ApiServer.Request) :
      ApiStep lib T S d (.whitelistAdd req (d.server.whitelistAdd lib T req).1)
        (d.withManager (d.server.whitelistAdd lib T req).2)
  | whitelistRm (h : d.isReady = true) (req : ApiServer.Request) :
      ApiStep lib T S d (.whitelistRm req (d.server.whitelistRm lib req).1)
        (d.withManager (d.server.whitelistRm lib req).2)
  | forward (h : d.isReady = true) (req : ApiServer.Request) (exchange : ℕ → ApiServer.Exchange) :
      ApiStep lib T S d (.forward req exchange (ApiServer.forwardRequestToDashboardApi lib S d.server req exchange).1
        (ApiServer.forwardRequestToDashboardApi lib S d.server req exchange).2) d
  | restart (clock : ℤ) : ApiStep lib T S d (.restart clock) (d.restart clock)

/-! ## What the threads leave to the requests -/

namespace ConfigManager

/-- What the whitelist is read from and kept in. -/
def userView (cm : ConfigManager) := (cm.userConfigJson, cm.userWhitelist, cm.configFile)

/-- A payload has no part in the file of the user's configuration. -/
theorem frame_configFile_updateGetConfigData : Frame (·.configFile) updateGetConfigData := by
  have hclaim (latestConfig : Json) (claimed : Bool) : Frame (·.configFile) (updateClaim latestConfig claimed) := by
    refine .ite ?_ (.modify fun _ => rfl)
    refine .bind (.lift _) fun _ => .bind (.lift _) fun _ => .bind (.lift _) fun _ => ?_
    refine .bind (.modify fun _ => rfl) fun _ => .bind (.lift _) fun _ => .bind (.lift _) fun _ => ?_
    exact .modify fun _ => rfl
  have hpeers (peerInfos : List Json) (entries : List (Bytes × HusarnetAddress)) :
      Frame (·.configFile) (updatePeerInfos entries peerInfos) := by
    induction peerInfos generalizing entries with
    | nil => exact .pure _
    | cons peerInfo peerInfos ih =>
      refine .bind (.bind (.lift _) fun _ => .bind (.lift _) fun _ => .bind (.lift _) fun _ => ?_) ih
      exact .bind (.modify fun _ => rfl) fun _ => .pure _
  refine .bind (frame_cacheMember _ fun _ _ => rfl) fun latestConfig => ?_
  refine .bind ?_ fun _ => .bind .get fun _ => .modify fun _ => rfl
  unfold updateHostsEntries
  split
  · refine .bind (.modify fun _ => rfl) fun _ => .bind .get fun _ => .bind (.lift _) fun _ => ?_
    refine .bind (.modify fun _ => rfl) fun _ => .bind (hclaim _ _) fun _ => .bind .get fun _ => ?_
    exact .bind (.modify fun _ => rfl) fun _ => .bind (.modify fun _ => rfl) fun _ => hpeers _ _
  · exact .pure _

theorem frame_userView_updateGetConfigData : Frame userView updateGetConfigData := by
  intro cm
  have houtside := frame_updateGetConfigData cm
  simp only [outsideGetConfig, Prod.mk.injEq] at houtside
  have hfile : (after updateGetConfigData cm).configFile = cm.configFile := frame_configFile_updateGetConfigData cm
  rw [userView, userView, houtside.2.2.2.1, houtside.2.2.2.2.2.2.2.1, hfile]

theorem readCache_completes (T : JsonText) (cm : ConfigManager) : ∃ read j, readCache T cm = .ok read { cm with cacheJson := j } := by
  rw [readCache, get_bind]
  by_cases hempty : cm.cacheFile.isEmpty = true
  · rw [if_pos hempty]
    exact ⟨false, cm.cacheJson, rfl⟩
  · rw [if_neg hempty]
    cases T.parse cm.cacheFile with
    | none => exact ⟨false, cm.cacheJson, rfl⟩
    | some doc =>
      obtain ⟨j₁, hfirst, -⟩ := find?_storeCacheMember doc CACHE_KEY_GETCONFIG CACHE_KEY_LICENSE cm
      obtain ⟨j₂, hsecond, -⟩ := find?_storeCacheMember doc CACHE_KEY_LICENSE CACHE_KEY_LICENSE { cm with cacheJson := j₁ }
      refine ⟨true, j₂, ?_⟩
      simp only [storeCache, run_bind, hfirst, hsecond]
      rfl

end ConfigManager

namespace ConfigSystem
variable {T : JsonText} {S : Sodium}

/-- The thread has not got through config.json. -/
def IsStarting (s : ConfigSystem) : Prop := s.pc = .readCache ∨ s.pc = .readUserConfig ∨ s.pc = .updateUserConfigData

/-- A call behind the start that leaves the user's configuration alone. -/
structure Follows (s t : ConfigSystem) : Prop where
  view : t.cm.userView = s.cm.userView
  started : ¬ t.IsStarting

theorem started_call {s : ConfigSystem} {α : Type} {m : Cm α} {next : α → Pc}
    (hnext : ∀ a, next a ≠ .readCache ∧ next a ≠ .readUserConfig ∧ next a ≠ .updateUserConfigData) :
    ¬ (s.call m next).IsStarting := by
  rcases call_pc s m next with ⟨a, -, -, hpc⟩ | ⟨fault, hpc⟩
  · simpa [IsStarting, hpc] using hnext a
  · simp [IsStarting, hpc]

theorem follows_call {s : ConfigSystem} {α : Type} {m : Cm α} {next : α → Pc} (hm : Frame userView m)
    (hnext : ∀ a, next a ≠ .readCache ∧ next a ≠ .readUserConfig ∧ next a ≠ .updateUserConfigData) :
    Follows s (s.call m next) := ⟨call_frame s next hm, started_call hnext⟩

theorem follows_threadStep {s : ConfigSystem} (h : ¬ s.IsStarting) (result : HttpResult) :
    Follows s (s.threadStep T S result) := by
  unfold threadStep
  cases hpc : s.pc with
  | readCache => exact absurd (Or.inl hpc) h
  | readUserConfig => exact absurd (Or.inr (Or.inl hpc)) h
  | updateUserConfigData => exact absurd (Or.inr (Or.inr hpc)) h
  | fetchLicense => exact follows_call (frame_fetchLicenseJson T S _ _ (fun _ _ => rfl) fun _ _ => rfl) (by simp)
  | updateLicenseData =>
    exact follows_call (frame_updateLicenseData (fun _ _ => rfl) (fun _ _ _ => rfl) (fun _ _ _ => rfl) fun _ _ => rfl) (by simp)
  | firstWriteCache => exact follows_call (.modify fun _ => rfl) (by simp)
  | waiting => exact ⟨rfl, by simp [IsStarting]⟩
  | checkLicense now =>
    refine ⟨rfl, ?_⟩
    by_cases hdue : s.cm.nextLicenseDownload ≤ now
    · simp [IsStarting, hdue]
    · simp [IsStarting, hdue]
  | redownloadLicense now => exact follows_call (frame_fetchLicenseJson T S _ _ (fun _ _ => rfl) fun _ _ => rfl) (by simp)
  | checkGetConfig now w =>
    dsimp only
    split
    · exact ⟨rfl, by simp [IsStarting]⟩
    · exact ⟨rfl, by simp [IsStarting]⟩
  | getConfigRequested => exact follows_call (.lift _) (by simp)
  | getConfigReceived apiResponse =>
    refine ⟨receive_frame (f := userView) apiResponse (fun _ => .modify fun _ => rfl) s, started_call fun stored => ?_⟩
    cases stored with
    | true => simp
    | false => simp
  | getConfigStored => exact follows_call frame_userView_updateGetConfigData (by simp)
  | getConfigApplied => exact ⟨rfl, by simp [setTimer, IsStarting]⟩
  | checkWriteCache w => exact follows_call (.ite (.modify fun _ => rfl) (.pure _)) (by simp)
  | dead fault => exact ⟨rfl, h⟩

/-- How far the thread has come with the user's configuration, of which `doc` is kept; behind that the whitelist is
`w`. -/
inductive Loading (doc : Json) (w : BoundedSet HusarnetAddress USER_WHITELIST_SIZE_LIMIT) (s : ConfigSystem) : Prop where
  | before (hpc : s.pc = .readCache ∨ s.pc = .readUserConfig) (hdoc : s.cm.userConfigJson = .object [])
      (hset : s.cm.userWhitelist = .empty) (hw : w = loadedWhitelist (whitelistEntries doc))
  | read (hpc : s.pc = .updateUserConfigData) (hdoc : s.cm.userConfigJson = doc) (hset : s.cm.userWhitelist = .empty)
      (hw : w = loadedWhitelist (whitelistEntries doc))
  | done (hpc : ¬ s.IsStarting) (hdoc : s.cm.userConfigJson = doc) (hset : s.cm.userWhitelist = w)

section Loading
variable {doc : Json} {w : BoundedSet HusarnetAddress USER_WHITELIST_SIZE_LIMIT} {s t : ConfigSystem}

theorem Loading.done_inv (h : Loading doc w s) (hs : ¬ s.IsStarting) : s.cm.userConfigJson = doc ∧ s.cm.userWhitelist = w := by
  cases h with
  | before hpc _ _ _ => exact absurd (hpc.imp_right Or.inl) hs
  | read hpc _ _ _ => exact absurd (Or.inr (Or.inr hpc)) hs
  | done _ hdoc hset => exact ⟨hdoc, hset⟩

/-- Where neither the thread moves nor the user's configuration is touched, all stays. -/
theorem Loading.of_eq (h : Loading doc w s) (hpc : t.pc = s.pc) (hv : t.cm.userView = s.cm.userView) : Loading doc w t := by
  simp only [userView, Prod.mk.injEq] at hv
  cases h with
  | before hpc' hdoc hset hw => exact .before (by rwa [hpc]) (hv.1.trans hdoc) (hv.2.1.trans hset) hw
  | read hpc' hdoc hset hw => exact .read (hpc.trans hpc') (hv.1.trans hdoc) (hv.2.1.trans hset) hw
  | done hpc' hdoc hset =>
    refine .done ?_ (hv.1.trans hdoc) (hv.2.1.trans hset)
    rwa [IsStarting, hpc]

/-- The thread reads what is stored, and does not touch it behind that. -/
theorem Loading.threadStep (h : Loading doc w s) (hfile : loadedDocument T s.cm.configFile = doc) (result : HttpResult) :
    Loading doc w (s.threadStep T S result) ∧ (s.threadStep T S result).cm.configFile = s.cm.configFile := by
  cases h with
  | before hpc hdoc hset hw =>
    rcases hpc with hpc | hpc
    · obtain ⟨read, j, hrun⟩ := readCache_completes T s.cm
      have hstep : s.threadStep T S result = { s with cm := { s.cm with cacheJson := j }, pc := .readUserConfig } := by
        simp only [ConfigSystem.threadStep, hpc, call, hrun]
      rw [hstep]
      exact ⟨.before (Or.inr rfl) hdoc hset hw, rfl⟩
    · obtain ⟨read, hrun, hnone⟩ := readUserConfig_eq T s.cm hdoc
      rw [hfile] at hrun hnone
      have hstep : s.threadStep T S result = { s with
          cm := { s.cm with userConfigJson := doc }
          pc := if read then .updateUserConfigData else .fetchLicense } := by
        simp only [ConfigSystem.threadStep, hpc, call, hrun]
      rw [hstep]
      refine ⟨?_, rfl⟩
      cases read with
      | true => exact .read rfl rfl hset hw
      | false =>
        refine .done (by simp [IsStarting]) rfl (hset.trans ?_)
        rw [hw, hnone rfl]
        rfl
  | read hpc hdoc hset hw =>
    have hafter := updateUserConfigData_eq s.cm hset
    have hstep : s.threadStep T S result = s.call updateUserConfigData fun _ => .fetchLicense := by
      simp only [ConfigSystem.threadStep, hpc]
    have hcm := call_cm s updateUserConfigData fun _ => Pc.fetchLicense
    rw [hafter, hdoc, ← hw] at hcm
    rw [hstep]
    refine ⟨.done (started_call (by simp)) ?_ ?_, ?_⟩
    · rw [hcm]
    · rw [hcm]
    · rw [hcm]
  | done hpc hdoc hset =>
    have hfollows := follows_threadStep (T := T) (S := S) hpc result
    have hv := hfollows.view
    simp only [userView, Prod.mk.injEq] at hv
    exact ⟨.done hfollows.started (hv.1.trans hdoc) (hv.2.1.trans hset), hv.2.2⟩

theorem isStarting_threadStep (h : ¬ s.IsStarting) (result : HttpResult) : ¬ (s.threadStep T S result).IsStarting :=
  (follows_threadStep h result).started

/-- **One step** that is no request. -/
theorem Loading.step (h : Loading doc w s) (hfile : loadedDocument T s.cm.configFile = doc) {e : Event} (he : e.IsOwn) :
    Loading doc w (s.step T S e) ∧ (s.step T S e).cm.configFile = s.cm.configFile := by
  cases e with
  | thread result => exact h.threadStep hfile result
  | message m =>
    show Loading doc w (s.messageStep m) ∧ (s.messageStep m).cm.configFile = _
    unfold messageStep
    split
    · exact ⟨h.of_eq rfl rfl, rfl⟩
    · exact ⟨h, rfl⟩
  | tick ms => exact ⟨h.of_eq rfl rfl, rfl⟩
  | whitelistAdd _ => exact he.elim
  | whitelistRm _ => exact he.elim

theorem isStarting_step (h : ¬ s.IsStarting) {e : Event} (he : e.IsOwn) : ¬ (s.step T S e).IsStarting := by
  cases e with
  | thread result => exact isStarting_threadStep h result
  | message m =>
    show ¬ (s.messageStep m).IsStarting
    unfold messageStep
    split
    · exact h
    · exact h
  | tick ms => exact h
  | whitelistAdd _ => exact he.elim
  | whitelistRm _ => exact he.elim

end Loading

end ConfigSystem

/-! ## The whitelist over a run -/

namespace ApiEvent

def isRestart : ApiEvent → Bool
  | .restart _ => true
  | _ => false

/-- The call that the event asks for. -/
def asked (server : ApiServer) : ApiEvent → Option WhitelistCall
  | .whitelistAdd req _ => server.askedFor req .add
  | .whitelistRm req _ => server.askedFor req .rm
  | _ => none

/-- The events since the process was started. -/
def life (past : List ApiEvent) : List ApiEvent := past.rtakeWhile fun e => !e.isRestart

theorem life_append {e : ApiEvent} (h : e.isRestart = false) (past : List ApiEvent) : life (past ++ [e]) = life past ++ [e] :=
  List.rtakeWhile_concat_pos _ _ e (by simp [h])

theorem life_restart (past : List ApiEvent) (clock : ℤ) : life (past ++ [.restart clock]) = [] :=
  List.rtakeWhile_concat_neg _ _ _ (by simp [isRestart])

theorem asked_congr {server server' : ApiServer} (h : server.daemonApiToken = server'.daemonApiToken) :
    asked server = asked server' := by
  funext e
  cases e with
  | whitelistAdd req res => exact ApiServer.askedFor_congr h req .add
  | whitelistRm req res => exact ApiServer.askedFor_congr h req .rm
  | _ => rfl

end ApiEvent

namespace ApiDaemon
open ApiEvent
variable {lib : ForwardLibrary} {T : JsonText} {S : Sodium}

/-- The calls that the requests of this life asked for. -/
def askedCalls (d : ApiDaemon) (past : List ApiEvent) : List WhitelistCall := (life past).filterMap (asked d.server)

/-- The whitelist of the document, with what was asked for since. -/
def whitelistOf (doc : Json) (calls : List WhitelistCall) : BoundedSet HusarnetAddress USER_WHITELIST_SIZE_LIMIT :=
  calls.foldl WhitelistCall.apply (loadedWhitelist (whitelistEntries doc))

/-- What holds of a daemon whose file held `doc` at first. -/
structure Obeys (T : JsonText) (doc : Json) (past : List ApiEvent) (d : ApiDaemon) : Prop where
  file : loadedDocument T d.system.cm.configFile = doc
  loading : d.system.Loading doc (whitelistOf doc (d.askedCalls past))
  lists : d.system.pc.phase = .starting → d.system.cm.addressLists = ([], [], [])
  initialised : d.initialised = true → ¬ d.system.IsStarting
  ready : d.isReady = true → d.initialised = true
  quiet : d.isReady = false → ∀ server, (life past).filterMap (asked server) = []
  token : d.isReady = true → d.tokenFile ≠ [] → d.daemonApiToken = d.tokenFile

section Steps
variable {doc : Json} {past : List ApiEvent} {d d' : ApiDaemon} {e : ApiEvent}

theorem askedCalls_append (d d' : ApiDaemon) (past : List ApiEvent) {e : ApiEvent} (h : e.isRestart = false)
    (ht : d'.daemonApiToken = d.daemonApiToken) :
    d'.askedCalls (past ++ [e]) = d.askedCalls past ++ (e.asked d.server).toList := by
  have hasked : asked d'.server = asked d.server := asked_congr ht
  have hlast : [e].filterMap (asked d.server) = (e.asked d.server).toList := by
    cases hcall : e.asked d.server with
    | none => simp [hcall]
    | some call => simp [hcall]
  rw [askedCalls, life_append h, List.filterMap_append, hasked, askedCalls, hlast]

theorem quiet_append (h : e.isRestart = false) (hnone : ∀ server, e.asked server = none)
    (hq : ∀ server, (life past).filterMap (asked server) = []) (server : ApiServer) :
    (life (past ++ [e])).filterMap (asked server) = [] := by
  rw [life_append h, List.filterMap_append, hq server, List.nil_append]
  simp [hnone server]

theorem Obeys.config (h : Obeys T doc past d) {event : ConfigSystem.Event} (he : event.IsOwn) :
    Obeys T doc (past ++ [.config event]) { d with system := d.system.step T S event } := by
  obtain ⟨hloading, hfile⟩ := h.loading.step (S := S) h.file he
  refine ⟨?_, ?_, ConfigSystem.step_starting h.lists rfl, fun hi => ConfigSystem.isStarting_step (h.initialised hi) he,
    h.ready, fun hr => quiet_append rfl (fun _ => rfl) (h.quiet hr), h.token⟩
  · rw [hfile]
    exact h.file
  · have hcalls : ApiDaemon.askedCalls { d with system := d.system.step T S event } (past ++ [.config event]) =
        d.askedCalls past := by
      refine (askedCalls_append d _ past rfl rfl).trans ?_
      exact List.append_nil _
    rw [hcalls]
    exact hloading

theorem Obeys.startApi (h : Obeys T doc past d) (hi : d.initialised = true) (hr : d.isReady = false)
    (newToken : Bytes) (written : Bool) :
    Obeys T doc (past ++ [.startApi newToken written]) (d.startApi newToken written) := by
  have hnone (server : ApiServer) : (life (past ++ [.startApi newToken written])).filterMap (asked server) = [] :=
    quiet_append rfl (fun _ => rfl) (h.quiet hr) server
  refine ⟨h.file, ?_, h.lists, h.initialised, fun _ => hi, fun h' => (by cases h'), fun _ hne => ?_⟩
  · have hcalls : (d.startApi newToken written).askedCalls (past ++ [.startApi newToken written]) = d.askedCalls past :=
      (hnone _).trans (h.quiet hr _).symm
    rw [hcalls]
    exact h.loading
  · revert hne
    simp only [ApiDaemon.startApi, getOrCreateDaemonApiToken]
    split
    · rename_i hempty
      cases written with
      | true => simp
      | false =>
        intro hne
        exact absurd (List.isEmpty_iff.mp hempty) hne
    · simp

/-- A request to the whitelist, whatever it asks for. -/
theorem Obeys.request (hT : T.ReadsBack) (h : Obeys T doc past d) (hr : d.isReady = true) {call : Option WhitelistCall}
    (hnot : e.isRestart = false) (hasked : e.asked d.server = call) :
    Obeys T doc (past ++ [e]) (d.withManager (ApiServer.carriedOut T d.system.cm call)) := by
  obtain ⟨hdoc, hset⟩ := h.loading.done_inv (h.initialised (h.ready hr))
  have hcalls (cm : ConfigManager) : (d.withManager cm).askedCalls (past ++ [e]) = d.askedCalls past ++ call.toList :=
    hasked ▸ askedCalls_append d _ past hnot rfl
  have hready (hn : d.isReady = false) : False := by simp [hr] at hn
  cases call with
  | none =>
    refine ⟨h.file, ?_, h.lists, h.initialised, h.ready, fun hn => (hready hn).elim, h.token⟩
    rw [hcalls, Option.toList_none, List.append_nil]
    exact h.loading
  | some c =>
    obtain ⟨hjson, hfile⟩ := run_files T c d.system.cm
    have hlists : (after (c.run T) d.system.cm).addressLists = d.system.cm.addressLists := by
      cases c with
      | add a => exact frame_userWhitelistAdd (f := addressLists) T a (fun _ _ _ => rfl) d.system.cm
      | rm a => exact frame_userWhitelistRm (f := addressLists) a (fun _ _ _ => rfl) d.system.cm
    refine ⟨?_, ?_, fun hs => hlists.trans (h.lists hs), h.initialised, h.ready, fun hn => (hready hn).elim, h.token⟩
    · show loadedDocument T (after (c.run T) d.system.cm).configFile = doc
      rcases hfile with hfile | hfile
      · rw [hfile]
        exact h.file
      · rw [hfile, hdoc, ← h.file, loadedDocument_dump hT]
    · have hwhitelist : (after (c.run T) d.system.cm).userWhitelist = c.apply (whitelistOf doc (d.askedCalls past)) := by
        rw [WhitelistCall.run_userWhitelist, hset]
      rw [hcalls, whitelistOf, List.foldl_append]
      exact .done (h.initialised (h.ready hr)) (hjson.trans hdoc) hwhitelist

theorem Obeys.restart (h : Obeys T doc past d) (clock : ℤ) : Obeys T doc (past ++ [.restart clock]) (d.restart clock) := by
  have hnone (server : ApiServer) : (life (past ++ [.restart clock])).filterMap (asked server) = [] := by
    rw [life_restart]
    rfl
  refine ⟨h.file, ?_, fun _ => rfl, fun hi => (by cases hi), fun hr => (by cases hr), fun _ => hnone, fun hr => (by cases hr)⟩
  refine .before (Or.inl rfl) rfl rfl ?_
  rw [askedCalls, hnone]
  rfl

/-- **One step.** -/
theorem Obeys.step (hT : T.ReadsBack) (h : Obeys T doc past d) (hstep : ApiStep lib T S d e d') :
    Obeys T doc (past ++ [e]) d' := by
  cases hstep with
  | config he => exact h.config he
  | waitInit hbase =>
    refine ⟨h.file, ?_, h.lists, fun _ hs => hbase ?_, fun _ => rfl, fun hr => quiet_append rfl (fun _ => rfl) (h.quiet hr),
      h.token⟩
    · have hcalls : ApiDaemon.askedCalls { d with initialised := true } (past ++ [.waitInit]) = d.askedCalls past := by
        refine (askedCalls_append d _ past rfl rfl).trans ?_
        exact List.append_nil _
      rw [hcalls]
      exact h.loading
    · have hphase : d.system.pc.phase = .starting := by
        rcases hs with hpc | hpc | hpc
        · rw [hpc]
          rfl
        · rw [hpc]
          rfl
        · rw [hpc]
          rfl
      exact congrArg Prod.fst (h.lists hphase)
  | startApi hi hr _ written => exact h.startApi hi hr _ written
  | whitelistAdd hr req =>
    have hkept := h.request hT hr (e := .whitelistAdd req (d.server.whitelistAdd lib T req).1) rfl rfl
    rwa [ApiServer.whitelistAdd_eq] at hkept ⊢
  | whitelistRm hr req =>
    have hkept := h.request hT hr (e := .whitelistRm req (d.server.whitelistRm lib req).1) rfl rfl
    rwa [ApiServer.whitelistRm_eq lib T] at hkept ⊢
  | forward hr req exchange =>
    exact h.request hT hr (e := .forward req exchange _ _) rfl rfl
  | restart clock => exact h.restart clock

theorem obeys_start (T : JsonText) (enableControlplane : Bool) (identity : Identity) (clock : ℤ)
    (configFile cacheFile tokenFile : Bytes) :
    Obeys T (loadedDocument T configFile) [] (start enableControlplane identity clock configFile cacheFile tokenFile) where
  file := rfl
  loading := .before (Or.inl rfl) rfl rfl rfl
  lists _ := rfl
  initialised h := by cases h
  ready h := by cases h
  quiet _ _ := rfl
  token h := by cases h

/-- A token that is stored stays. -/
theorem tokenFile_step {k : Bytes} (hk : k ≠ []) (hstep : ApiStep lib T S d e d') (h : d.tokenFile = k) :
    d'.tokenFile = k := by
  cases hstep with
  | startApi _ _ _ written =>
    have hfull : d.tokenFile.isEmpty = false := by
      rw [h]
      exact List.isEmpty_eq_false_iff.mpr hk
    simp only [startApi, getOrCreateDaemonApiToken, hfull]
    exact h
  | _ => exact h

end Steps

/-- What a step means to whoever sent the request. -/
structure Replies (lib : ForwardLibrary) (d : ApiDaemon) (e : ApiEvent) (d' : ApiDaemon) : Prop where
  refused : ∀ req res, e = .whitelistAdd req res ∨ e = .whitelistRm req res → e.asked d.server = none →
    d' = d ∧ ∃ text, res = ApiServer.returnInvalidQuery lib {} text
  done : ∀ req res call, e = .whitelistAdd req res ∨ e = .whitelistRm req res → e.asked d.server = some call →
    d'.system.cm.userWhitelist = call.apply d.system.cm.userWhitelist ∧
      (call.accepted d.system.cm.userWhitelist = true → res = ApiServer.returnSuccess lib {} .null) ∧
      (call.accepted d.system.cm.userWhitelist = false → d' = d ∧ ∃ text, res = ApiServer.returnError lib {} text)
  forward : ∀ req exchange res executed, e = .forward req exchange res executed → d.server.hasSecret req = false →
    executed = []

/-- What the reply to a request for `call` tells. -/
theorem reply_tells (lib : ForwardLibrary) (T : JsonText) (d : ApiDaemon) (req : ApiServer.Request) (failure : Bytes)
    (call : WhitelistCall) :
    let res := ApiServer.reply lib d.server req failure (some call)
    let d' := d.withManager (ApiServer.carriedOut T d.system.cm (some call))
    d'.system.cm.userWhitelist = call.apply d.system.cm.userWhitelist ∧
      (call.accepted d.system.cm.userWhitelist = true → res = ApiServer.returnSuccess lib {} .null) ∧
      (call.accepted d.system.cm.userWhitelist = false → d' = d ∧ ∃ text, res = ApiServer.returnError lib {} text) := by
  intro res d'
  refine ⟨WhitelistCall.run_userWhitelist T call d.system.cm, fun hacc => ?_, fun hacc => ⟨?_, failure, ?_⟩⟩
  · exact if_pos hacc
  · have hsame := (ApiServer.run_eq T call d.system.cm).2 hacc
    show d.withManager (after (call.run T) d.system.cm) = d
    rw [hsame]
    rfl
  · have hrefused : call.accepted d.server.configManager.userWhitelist = false := hacc
    exact if_neg (by simp [hrefused])

theorem replies_step {d d' : ApiDaemon} {e : ApiEvent} (hstep : ApiStep lib T S d e d') : Replies lib d e d' := by
  cases hstep with
  | whitelistAdd hr req =>
    rw [ApiServer.whitelistAdd_eq]
    refine ⟨fun req' res he hnone => ?_, fun req' res call he hsome => ?_, fun _ _ _ _ he => by cases he⟩
    · have hasked : d.server.askedFor req .add = none := hnone
      rcases he with he | he
      · cases he
        rw [hasked]
        exact ⟨rfl, _, rfl⟩
      · cases he
    · have hasked : d.server.askedFor req .add = some call := hsome
      rcases he with he | he
      · cases he
        rw [hasked]
        exact reply_tells lib T d req _ call
      · cases he
  | whitelistRm hr req =>
    rw [ApiServer.whitelistRm_eq lib T]
    refine ⟨fun req' res he hnone => ?_, fun req' res call he hsome => ?_, fun _ _ _ _ he => by cases he⟩
    · have hasked : d.server.askedFor req .rm = none := hnone
      rcases he with he | he
      · cases he
      · cases he
        rw [hasked]
        exact ⟨rfl, _, rfl⟩
    · have hasked : d.server.askedFor req .rm = some call := hsome
      rcases he with he | he
      · cases he
      · cases he
        rw [hasked]
        exact reply_tells lib T d req _ call
  | forward hr req exchange =>
    refine ⟨fun _ _ he => by simp at he, fun _ _ _ he => by simp at he, fun req' _ _ _ he hno => ?_⟩
    cases he
    exact ApiServer.not_forwarded lib S (fun hf => by simp [hf.secret] at hno) exchange
  | _ => exact ⟨fun _ _ he => by simp at he, fun _ _ _ he => by simp at he, fun _ _ _ _ he => by cases he⟩

/-- **The whitelist is what was asked for.** Over all lives of a daemon, for whatever is stored at first and whatever the
licence server, the dashboard and the event bus send: as long as its API server runs, the whitelist is what the file
held at the very first start, changed by the requests with the secret since the last start and by nothing else. Each of
these is told whether it changed anything; the others change nothing and have nothing forwarded. The secret is the one
that was stored first. -/
theorem whitelist_as_asked (lib : ForwardLibrary) (T : JsonText) (hT : T.ReadsBack) (S : Sodium) (enableControlplane : Bool)
    (identity : Identity) (clock : ℤ) (configFile cacheFile tokenFile : Bytes) {tr : List (ApiEvent × ApiDaemon)}
    (hr : IsRun (ApiStep lib T S) (start enableControlplane identity clock configFile cacheFile tokenFile) tr)
    {pre post : List (ApiEvent × ApiDaemon)} {e : ApiEvent} {d' : ApiDaemon} (he : tr = pre ++ (e, d') :: post) :
    let d₀ := start enableControlplane identity clock configFile cacheFile tokenFile
    let d := last d₀ pre
    (d.isReady = true →
      d.system.cm.userWhitelist = whitelistOf (loadedDocument T configFile) (d.askedCalls (pre.map Prod.fst)) ∧
        ∀ u ∈ states d₀ pre, u.tokenFile ≠ [] → d.daemonApiToken = u.tokenFile) ∧
      Replies lib d e d' := by
  intro d₀ d
  subst he
  have hsplit := (isRun_append _ _ _).mp hr
  have hobeys : Obeys T (loadedDocument T configFile) ([] ++ pre.map Prod.fst) d :=
    hr.history (I := Obeys T (loadedDocument T configFile)) (G := fun _ _ _ => True)
      (obeys_start T enableControlplane identity clock configFile cacheFile tokenFile)
      (fun _ _ _ _ h _ hstep => h.step hT hstep) (fun _ _ => trivial) pre _ rfl
  rw [List.nil_append] at hobeys
  refine ⟨fun hready => ⟨?_, fun u hu hk => ?_⟩, replies_step hsplit.2.1⟩
  · exact (hobeys.loading.done_inv (hobeys.initialised (hobeys.ready hready))).2
  · have hlast : d.tokenFile = u.tokenFile := by
      refine persists (P := fun d : ApiDaemon => d.tokenFile = u.tokenFile) (fun x hx h => ?_) ?_
      · exact tokenFile_step hk (hsplit.1.of_mem hx).2 h
      · rcases (mem_states_iff _ _ _).mp hu with hfirst | ⟨x, hx, htarget⟩
        · exact Or.inl (congrArg ApiDaemon.tokenFile hfirst.symm)
        · exact Or.inr ⟨x, hx, congrArg ApiDaemon.tokenFile htarget⟩
    rw [← hlast] at hk ⊢
    exact hobeys.token hready hk

/-! ## A whitelist that a restart forgets -/

/-- A text side that knows the empty document and a cache with a licence. -/
def cachedText : JsonText where
  parse s :=
    if s = ascii "{}" then some (.object [])
    else if s = ascii "cache" then some (.object [(CACHE_KEY_LICENSE, ConfigSystem.lateLicense)])
    else none
  dump
    | .object (_ :: _) => ascii "cache"
    | _ => ascii "{}"

theorem cachedText_readsBack : cachedText.ReadsBack where
  member contents doc key v hparse hfind := by
    simp only [cachedText] at hparse
    split at hparse
    · cases hparse
      cases hfind
    · split at hparse
      · cases hparse
        simp only [Json.find?, get?] at hfind
        split at hfind
        · rename_i hkey
          cases hfind
          rw [hkey]
          rfl
        · cases hfind
      · cases hparse
  empty := rfl
  dump_ne_nil doc := by
    unfold cachedText
    dsimp only
    split
    · decide
    · decide

def sampleToken : Bytes := List.replicate 32 0x61

def whitelistRequest : ApiServer.Request where
  method := ascii "POST"
  route := []
  header := fun name => if name = HUSARNET_SECRET_HTTP_HEADER_NAME then some sampleToken else none
  param := fun name => if name = ascii "address" then some (ascii "fc94::1") else none
  body := []

/-- The process starts without a network: the licence comes from the cache, and the API server starts. -/
def bootEvents : List ApiEvent :=
  List.replicate 5 (.config (.thread ⟨-1, []⟩)) ++ [.waitInit, .startApi sampleToken true]

/-- What an event of these makes of a daemon. -/
def bootStep (d : ApiDaemon) : ApiEvent → ApiDaemon
  | .config event => { d with system := d.system.step cachedText clearSodium event }
  | .waitInit => { d with initialised := true }
  | .startApi newToken written => d.startApi newToken written
  | .whitelistAdd req _ => d.withManager (d.server.whitelistAdd ApiServer.plainLibrary cachedText req).2
  | .restart clock => d.restart clock
  | _ => d

/-- An address is added, and the process starts again. -/
def addedAndRestarted : List (ApiEvent × ApiDaemon) :=
  trace bootStep (start true (clearIdentity 1) 0 [] (ascii "cache") [])
    (bootEvents ++ .whitelistAdd whitelistRequest (ApiServer.returnSuccess ApiServer.plainLibrary {} .null) ::
      .restart 0 :: bootEvents)

theorem isRun_addedAndRestarted : IsRun (ApiStep ApiServer.plainLibrary cachedText clearSodium)
    (start true (clearIdentity 1) 0 [] (ascii "cache") []) addedAndRestarted :=
  ⟨.config trivial, .config trivial, .config trivial, .config trivial, .config trivial, .waitInit (by decide +kernel),
    .startApi rfl rfl rfl _, .whitelistAdd rfl _, .restart _, .config trivial, .config trivial, .config trivial,
    .config trivial, .config trivial, .waitInit (by decide +kernel), .startApi rfl rfl rfl _, trivial⟩

/-- The daemon of the second life, which has forgotten the address. -/
theorem whitelist_as_asked_restart :
    let d₀ := start true (clearIdentity 1) 0 [] (ascii "cache") []
    let d := last d₀ addedAndRestarted
    let rm := d.server.whitelistRm ApiServer.plainLibrary whitelistRequest
    d.isReady = true ∧ d.daemonApiToken = sampleToken ∧ d.system.cm.userWhitelist = .empty ∧
      Replies ApiServer.plainLibrary d (.whitelistRm whitelistRequest rm.1) (d.withManager rm.2) := by
  intro d₀ d rm
  have hready : d.isReady = true := rfl
  have hrun : IsRun (ApiStep ApiServer.plainLibrary cachedText clearSodium) d₀
      (addedAndRestarted ++ [(.whitelistRm whitelistRequest rm.1, d.withManager rm.2)]) :=
    (isRun_append _ _ _).mpr ⟨isRun_addedAndRestarted, .whitelistRm hready whitelistRequest, trivial⟩
  obtain ⟨hwhitelist, hreplies⟩ := whitelist_as_asked ApiServer.plainLibrary cachedText cachedText_readsBack clearSodium true
    (clearIdentity 1) 0 [] (ascii "cache") [] hrun rfl
  obtain ⟨hset, htoken⟩ := hwhitelist hready
  have hcalls : d.askedCalls (addedAndRestarted.map Prod.fst) = [] := rfl
  have hdoc : loadedDocument cachedText [] = .object [] := rfl
  refine ⟨hready, ?_, ?_, hreplies⟩
  · have hstored : (last d₀ (addedAndRestarted.take 7)).tokenFile = sampleToken := rfl
    have hmem : last d₀ (addedAndRestarted.take 7) ∈ states d₀ addedAndRestarted :=
      last_mem_states d₀ (addedAndRestarted.take 7) (addedAndRestarted.drop 7)
    rw [← hstored]
    exact htoken _ hmem (by decide +kernel)
  · rw [hdoc] at hset
    exact hset.trans (congrArg (whitelistOf _) hcalls)

end ApiDaemon
end Husarnet
