import Husarnet.Config.GetConfigPayload
import Husarnet.Config.ConfigThread
import Husarnet.Config.UserWhitelist

/-! # Answers of the control plane

`fetchGetConfig` as one call. The answers are sorted by what the code reads of them, and the call
takes an answer well when it returns and a bad answer leaves the applied configuration alone.
-/

namespace Husarnet
open Octets JsonDoc Containers StateProgram
set_option autoImplicit false

namespace ConfigManager

/-- `fetchGetConfig()`, given what the request returned and the time after it. -/
def fetchGetConfig (T : JsonText) (result : HttpResult) (now : ℤ) : Cm Unit := do
  let apiResponse ← lift (dashboardapi.Response.new T result)
  if ← lift apiResponse.isSuccessful then
    storeGetConfig (← lift apiResponse.getPayloadJson)
    updateGetConfigData
    modify fun cm => { cm with nextGetConfigUpdate := now + getConfigRefreshPeriod }
  else
    let _ ← lift apiResponse.toString

/-- What a call into the port writes to the hosts file. -/
def hostsData : PortCall → Option (List (Bytes × HusarnetAddress))
  | .updateHostsFile data => some data
  | _ => none

/-- The entries that the hosts file was written with last. -/
def hostsFile (cm : ConfigManager) : Option (List (Bytes × HusarnetAddress)) :=
  (cm.portCalls.filterMap hostsData).getLast?

/-- What a get_config payload configures. -/
def appliedConfig (cm : ConfigManager) :=
  (cm.allowedPeers, cm.claimed, cm.claimedBy, cm.hostname, cm.hostsFile)

end ConfigManager

/-! ## Kinds of answers -/

/-- An answer to the get_config call. -/
inductive Answer where
  | failed
  | unreadable
  | refused (errors : Json)
  | success (payload : Json)

/-- A member of a document, null when it is missing. -/
def Answer.memberOf (doc : Json) (key : Bytes) : Json := (doc.find? key).getD .null

/-- The kind of an answer: of a 200, the body must be a document with a string as its type. -/
def Answer.of (T : JsonText) (result : HttpResult) : Answer :=
  if result.statusCode ≠ 200 then .failed
  else match T.parse result.bytes with
    | none => .unreadable
    | some doc =>
      match doc.find? (ascii "type") with
      | some (.string type) =>
        if type = ascii "success" then .success (memberOf doc (ascii "payload"))
        else .refused (memberOf doc (ascii "errors"))
      | _ => .unreadable

namespace ConfigManager

/-- The call returns, and an answer that is no success with a well-formed payload changes nothing. -/
def TakesWell (T : JsonText) (result : HttpResult) (now : ℤ) (cm : ConfigManager) : Prop :=
  (∃ cm', fetchGetConfig T result now cm = .ok () cm') ∧
    ((¬ ∃ payload, Answer.of T result = .success payload ∧ wellFormedPayload payload = true) →
      (after (fetchGetConfig T result now) cm).appliedConfig = cm.appliedConfig)

/-- The answers that are taken well. Of the successes without a peer list only the hosts file is
written, with the entry of the device itself. -/
def Tolerated (cm : ConfigManager) : Answer → Prop
  | .failed => True
  | .unreadable => False
  | .refused errors => errors.getStrings.isOk = true
  | .success payload => wellFormedPayload payload = true ∨
      (peerEntries payload = none ∧ cm.hostsFile = some [(ascii "husarnet-local", cm.ourIp)])

/-! ## The call on each kind -/

theorem fetch_failed {T : JsonText} {result : HttpResult} (now : ℤ) (h : result.statusCode ≠ 200)
    (cm : ConfigManager) : fetchGetConfig T result now cm = .ok () cm := by
  have hnew : dashboardapi.Response.new T result = .ok ⟨result.statusCode, .object []⟩ := if_neg h
  have hsucc : dashboardapi.Response.isSuccessful ⟨result.statusCode, .object []⟩ = .ok false := if_pos h
  rw [fetchGetConfig, hnew, lift_ok_bind, hsucc, lift_ok_bind, if_neg Bool.false_ne_true]
  rfl

theorem fetch_unparsable {T : JsonText} {result : HttpResult} (now : ℤ) (h : result.statusCode = 200)
    (hparse : T.parse result.bytes = none) (cm : ConfigManager) :
    fetchGetConfig T result now cm = .error .parseError cm := by
  have hnew : dashboardapi.Response.new T result = .error .parseError := by
    rw [dashboardapi.Response.new, if_pos h, hparse]
  rw [fetchGetConfig, hnew, lift_error_bind]

theorem fetch_document {T : JsonText} {result : HttpResult} (now : ℤ) (h : result.statusCode = 200) {doc : Json}
    (hparse : T.parse result.bytes = some doc) (cm : ConfigManager) :
    fetchGetConfig T result now cm = (do
      if ← lift (dashboardapi.Response.isSuccessful ⟨200, doc⟩) then
        storeGetConfig (← lift (dashboardapi.Response.getPayloadJson ⟨200, doc⟩))
        updateGetConfigData
        modify fun cm => { cm with nextGetConfigUpdate := now + getConfigRefreshPeriod }
      else
        let _ ← lift (dashboardapi.Response.toString ⟨200, doc⟩) : Cm Unit) cm := by
  have hnew : dashboardapi.Response.new T result = .ok ⟨200, doc⟩ := by
    rw [dashboardapi.Response.new, if_pos h, hparse]
  rw [fetchGetConfig, hnew, lift_ok_bind]

theorem isSuccessful_untyped {doc : Json} (h : ∀ type, doc.find? (ascii "type") ≠ some (.string type)) :
    ∃ fault, dashboardapi.Response.isSuccessful ⟨200, doc⟩ = .error fault := by
  have hstring : ∃ fault, access (doc.member (ascii "type") >>= Json.getString) = .error fault := by
    cases hm : doc.member (ascii "type") with
    | error fault => exact ⟨.json fault, rfl⟩
    | ok v =>
      have hfind := Json.member_eq_ok.mp hm
      cases v with
      | string type => exact absurd hfind (h type)
      | _ => exact ⟨.json .typeError, rfl⟩
  obtain ⟨fault, hfault⟩ := hstring
  refine ⟨fault, ?_⟩
  rw [dashboardapi.Response.isSuccessful, if_neg (by simp)]
  dsimp only
  rw [hfault]
  rfl

theorem isSuccessful_typed {doc : Json} {type : Bytes} (h : doc.find? (ascii "type") = some (.string type)) :
    dashboardapi.Response.isSuccessful ⟨200, doc⟩ = .ok (type == ascii "success") := by
  rw [dashboardapi.Response.isSuccessful, if_neg (by simp)]
  dsimp only
  rw [Json.member_of_find? h]
  rfl

theorem toString_typed {doc : Json} {type : Bytes} (h : doc.find? (ascii "type") = some (.string type)) :
    (dashboardapi.Response.toString ⟨200, doc⟩).isOk = (Answer.memberOf doc (ascii "errors")).getStrings.isOk := by
  have hdescribe (text : Bytes) : (dashboardapi.Response.describe ⟨200, doc⟩ text).isOk =
      (Answer.memberOf doc (ascii "errors")).getStrings.isOk := by
    rw [dashboardapi.Response.describe]
    dsimp only
    rw [Json.memberOrNull_of_find? h, except_ok_bind, Answer.memberOf]
    cases ((doc.find? (ascii "errors")).getD .null).getStrings <;> rfl
  rw [dashboardapi.Response.toString]
  dsimp only
  rw [Json.memberOrNull_of_find? h, h]
  show (if type = ascii "user_error" then _ else _ : Except ConfigFault Bytes).isOk = _
  split
  · exact hdescribe _
  · split
    · exact hdescribe _
    · exact hdescribe _

theorem fetch_untyped {T : JsonText} {result : HttpResult} (now : ℤ) (h : result.statusCode = 200) {doc : Json}
    (hparse : T.parse result.bytes = some doc) (htype : ∀ type, doc.find? (ascii "type") ≠ some (.string type))
    (cm : ConfigManager) : ∃ fault, fetchGetConfig T result now cm = .error fault cm := by
  obtain ⟨fault, hfault⟩ := isSuccessful_untyped htype
  refine ⟨fault, ?_⟩
  rw [fetch_document now h hparse, hfault, lift_error_bind]

theorem fetch_refused {T : JsonText} {result : HttpResult} (now : ℤ) (h : result.statusCode = 200) {doc : Json}
    (hparse : T.parse result.bytes = some doc) {type : Bytes}
    (htype : doc.find? (ascii "type") = some (.string type)) (hne : type ≠ ascii "success") (cm : ConfigManager) :
    after (fetchGetConfig T result now) cm = cm ∧ ((∃ cm', fetchGetConfig T result now cm = .ok () cm') ↔
      (Answer.memberOf doc (ascii "errors")).getStrings.isOk = true) := by
  have hrun := fetch_document now h hparse cm
  rw [isSuccessful_typed htype, beq_eq_false_iff_ne.mpr hne, lift_ok_bind, if_neg Bool.false_ne_true] at hrun
  rw [← toString_typed htype, after, hrun]
  cases dashboardapi.Response.toString ⟨200, doc⟩ with
  | ok text => exact ⟨rfl, fun _ => rfl, fun _ => ⟨cm, rfl⟩⟩
  | error fault =>
    refine ⟨rfl, fun hok => ?_, fun hok => ?_⟩
    · obtain ⟨cm', hok⟩ := hok
      cases hok
    · cases hok

/-- The manager with a payload stored. -/
def withPayload (cm : ConfigManager) (payload : Json) : ConfigManager :=
  { cm with cacheJson := cm.cacheJson.setMember CACHE_KEY_GETCONFIG payload }

theorem cachedPayload_withPayload (cm : ConfigManager) (payload : Json) :
    (cm.withPayload payload).cachedPayload = payload := by
  rw [cachedPayload, withPayload, Json.find?_setMember_self, Option.getD_some]

theorem fetch_success {T : JsonText} {result : HttpResult} (now : ℤ) (h : result.statusCode = 200) {doc : Json}
    (hparse : T.parse result.bytes = some doc)
    (htype : doc.find? (ascii "type") = some (.string (ascii "success"))) (cm : ConfigManager) :
    fetchGetConfig T result now cm = (do
      updateGetConfigData
      modify fun cm => { cm with nextGetConfigUpdate := now + getConfigRefreshPeriod } : Cm Unit)
      (cm.withPayload (Answer.memberOf doc (ascii "payload"))) := by
  have hpayload : dashboardapi.Response.getPayloadJson ⟨200, doc⟩ = .ok (Answer.memberOf doc (ascii "payload")) := by
    rw [dashboardapi.Response.getPayloadJson, Json.memberOrNull_of_find? htype]
    rfl
  rw [fetch_document now h hparse, isSuccessful_typed htype, BEq.rfl, lift_ok_bind, if_pos rfl, hpayload, lift_ok_bind]
  rfl

theorem takesWell_success {T : JsonText} {result : HttpResult} {now : ℤ} {cm : ConfigManager} {payload : Json}
    (hkind : Answer.of T result = .success payload)
    (hrun : fetchGetConfig T result now cm = (do
      updateGetConfigData
      modify fun cm => { cm with nextGetConfigUpdate := now + getConfigRefreshPeriod } : Cm Unit)
      (cm.withPayload payload)) :
    TakesWell T result now cm ↔ Tolerated cm (.success payload) := by
  have hreturns : (∃ cm', fetchGetConfig T result now cm = .ok () cm') ↔
      peerEntries payload = none ∨ wellFormedPayload payload = true := by
    have hspec := (updateGetConfigData_spec (cm.withPayload payload)).2
    rw [cachedPayload_withPayload] at hspec
    rw [← hspec, hrun, run_bind]
    cases updateGetConfigData (cm.withPayload payload) with
    | ok u cm₂ => exact ⟨fun _ => ⟨cm₂, rfl⟩, fun _ => ⟨_, rfl⟩⟩
    | error fault cm₂ =>
      refine ⟨fun hok => ?_, fun hok => ?_⟩
      · obtain ⟨_, hok⟩ := hok
        cases hok
      · obtain ⟨_, hok⟩ := hok
        cases hok
  have hgood : (∃ p, Answer.of T result = .success p ∧ wellFormedPayload p = true) ↔
      wellFormedPayload payload = true := by
    rw [hkind]
    simp
  rw [TakesWell, hreturns, hgood, Tolerated]
  cases hwell : wellFormedPayload payload with
  | true => simp
  | false =>
    simp only [Bool.false_eq_true, or_false, false_or, not_false_eq_true, forall_const]
    refine and_congr_right fun hnone => ?_
    -- without a peer list the update writes the hosts file, and nothing else of the configuration
    rw [← cachedPayload_withPayload cm payload] at hnone
    obtain ⟨j, hupdate⟩ := updateGetConfigData_noPeers hnone
    have hafter := after_ok (bind_eq_ok.mpr ⟨(), _, hupdate, rfl⟩ : (do
      updateGetConfigData
      modify fun cm => { cm with nextGetConfigUpdate := now + getConfigRefreshPeriod } : Cm Unit)
      (cm.withPayload payload) = .ok () _)
    rw [after, hrun, ← after, hafter]
    have hfile : ((cm.portCalls ++ [PortCall.updateHostsFile [(ascii "husarnet-local", cm.ourIp)]]).filterMap
        hostsData).getLast? = some [(ascii "husarnet-local", cm.ourIp)] := by
      simp [List.filterMap_append, hostsData]
    show (cm.allowedPeers, cm.claimed, cm.claimedBy, cm.hostname, _) = cm.appliedConfig ↔ _
    rw [appliedConfig, Prod.mk.injEq, Prod.mk.injEq, Prod.mk.injEq, Prod.mk.injEq]
    simp only [true_and]
    exact ⟨fun he => he.symm.trans hfile, fun he => hfile.trans he.symm⟩

/-- **Answers of the control plane.** For every state of the manager, every status code and every
body: the call returns and changes nothing on a bad answer if and only if the answer is tolerated. -/
theorem takesWell_iff (T : JsonText) (result : HttpResult) (now : ℤ) (cm : ConfigManager) :
    TakesWell T result now cm ↔ Tolerated cm (Answer.of T result) := by
  by_cases hcode : result.statusCode = 200
  · cases hparse : T.parse result.bytes with
    | none =>
      have hkind : Answer.of T result = .unreadable := by simp [Answer.of, hcode, hparse]
      rw [hkind, TakesWell, fetch_unparsable now hcode hparse]
      refine iff_of_false (fun h => ?_) id
      obtain ⟨⟨cm', h⟩, -⟩ := h
      cases h
    | some doc =>
      by_cases htype : ∀ type, doc.find? (ascii "type") ≠ some (.string type)
      · have hkind : Answer.of T result = .unreadable := by
          rw [Answer.of, if_neg (not_not.mpr hcode), hparse]
          dsimp only
          split
          · rename_i type hfound
            exact absurd hfound (htype type)
          · rfl
        obtain ⟨fault, hrun⟩ := fetch_untyped now hcode hparse htype cm
        rw [hkind, TakesWell, hrun]
        refine iff_of_false (fun h => ?_) id
        obtain ⟨⟨cm', h⟩, -⟩ := h
        cases h
      · obtain ⟨type, htype⟩ := not_forall.mp htype
        rw [ne_eq, not_not] at htype
        by_cases hsucc : type = ascii "success"
        · rw [hsucc] at htype
          have hkind : Answer.of T result = .success (Answer.memberOf doc (ascii "payload")) := by
            simp [Answer.of, hcode, hparse, htype]
          rw [takesWell_success hkind (fetch_success now hcode hparse htype cm), hkind]
        · have hkind : Answer.of T result = .refused (Answer.memberOf doc (ascii "errors")) := by
            simp [Answer.of, hcode, hparse, htype, hsucc]
          obtain ⟨hafter, hreturns⟩ := fetch_refused now hcode hparse htype hsucc cm
          rw [hkind, TakesWell, hafter, hreturns]
          exact and_iff_left fun _ => rfl
  · have hkind : Answer.of T result = .failed := if_pos hcode
    have hrun := fetch_failed (T := T) now hcode cm
    rw [hkind, TakesWell, after_ok hrun]
    exact iff_of_true ⟨⟨cm, hrun⟩, fun _ => rfl⟩ trivial

/-- A body that is no document ends the call with an exception. -/
theorem unparsable_body_not_tolerated :
    ¬ TakesWell plainText ⟨200, ascii "<html></html>"⟩ 0 (.new true .invalid 0 [] []) := by
  intro h
  obtain ⟨⟨cm', h⟩, -⟩ := h
  rw [fetch_unparsable 0 rfl (by decide)] at h
  cases h

end ConfigManager
end Husarnet
