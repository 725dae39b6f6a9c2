import Husarnet.Config.ConfigManager
import Husarnet.Crypto
import Husarnet.Lib.Retries

/-! # api_server/server.cpp

A request on `/api/forward` is repeated to the Dashboard API, up to three times, until a response is
complete. What becomes of each of these exchanges on the way, and whether the Dashboard API executes
the request, is the environment's.
-/

namespace Husarnet
open Octets JsonDoc Retries
set_option autoImplicit false

def HUSARNET_SECRET_HTTP_HEADER_NAME : Bytes := ascii "x-husarnet-secret"

/-- What httplib, etl and nlohmann make of their arguments: base64 in the URL alphabet, the query string of
parameters in the order of their names, the text of a document, and the text of the error that a result has
when nothing was asked for. -/
structure ForwardLibrary where
  base64 : Bytes → Bytes
  paramsToQueryStr : List (Bytes × Bytes) → Bytes
  dump : Json → Bytes
  unknownError : Bytes

structure ApiServer where
  configManager : ConfigManager
  identity : Identity
  daemonApiToken : Bytes

namespace ApiServer

/-- `httplib::Request`, with what the route's pattern matched. -/
structure Request where
  method : Bytes
  route : Bytes
  header : Bytes → Option Bytes
  param : Bytes → Option Bytes
  body : Bytes

/-- `httplib::Response`; the server chooses a status where none is set. -/
structure Response where
  status : Option ℤ := none
  body : Bytes := []
  contentType : Bytes := []
  deriving DecidableEq

def Response.setContent (res : Response) (body contentType : Bytes) : Response :=
  { res with body := body, contentType := contentType }

/-- A request to the Dashboard API. -/
structure DashboardRequest where
  address : HusarnetAddress
  method : Bytes
  path : Bytes
  body : Bytes
  deriving DecidableEq

/-- What happens to a request to the Dashboard API. An error is given by its text. A request that is late
may be executed behind the timeout. -/
inductive Exchange where
  | requestLost (error : Bytes)
  | responseLost (error : Bytes)
  | timedOut (executed : Bool) (error : Bytes)
  | answered (executed : Bool) (body : Bytes)
  deriving DecidableEq

namespace Exchange

def executed : Exchange → Bool
  | requestLost _ => false
  | responseLost _ => true
  | timedOut executed _ | answered executed _ => executed

/-- `httplib::Result`: an error whenever no complete response arrives. -/
def result : Exchange → Except Bytes Bytes
  | requestLost error | responseLost error | timedOut _ error => .error error
  | answered _ body => .ok body

def isAnswered (e : Exchange) : Bool := e.result.isOk

end Exchange

/-! ## The answers of the server -/

section Answers
variable (lib : ForwardLibrary)

/-- The document of a request that was refused. -/
def refusal (res : Response) (status errorString : Bytes) : Response :=
  let doc := (Json.null.setMember (ascii "status") (.string status)).setMember (ascii "error") (.string errorString)
  res.setContent (lib.dump doc) (ascii "text/json")

def returnInvalidQuery (res : Response) (errorString : Bytes) : Response := refusal lib res (ascii "invalid") errorString

def returnError (res : Response) (errorString : Bytes) : Response := refusal lib res (ascii "error") errorString

/-- A response of the shape that the Dashboard API uses. -/
def serverError (res : Response) (error : Bytes) : Response :=
  let jsonResponse := Json.object [(ascii "type", .string (ascii "server_error")),
    (ascii "errors", .array [.string error]), (ascii "warnings", .array []), (ascii "message", .string (ascii "error"))]
  res.setContent (lib.dump jsonResponse) (ascii "application/json")

end Answers

/-! ## Forwarding -/

/-- `req.has_header(name) && req.get_header_value(name) == token`, or the same of the parameter. -/
def hasSecret (server : ApiServer) (req : Request) : Bool :=
  req.header HUSARNET_SECRET_HTTP_HEADER_NAME = some server.daemonApiToken ∨
    req.param (ascii "secret") = some server.daemonApiToken

variable (lib : ForwardLibrary)

def validateSecret (server : ApiServer) (req : Request) (res : Response) : Response × Bool :=
  if server.hasSecret req then (res, true) else (returnInvalidQuery lib res (ascii "invalid control secret"), false)

/-- The path of the request to the Dashboard API, with the public key and the signature of the body. -/
def pathWithQuery (S : Sodium) (server : ApiServer) (req : Request) : Bytes :=
  let encodedPK := lib.base64 server.identity.pubkey.bytes
  let encodedSig := lib.base64 (server.identity.sign S req.body).bytes
  ascii "/" ++ req.route ++ ascii "?" ++ lib.paramsToQueryStr [(ascii "pk", encodedPK), (ascii "sig", encodedSig)]

/-- What `attemptRequest` asks for: nothing where the method is no other. -/
def dashboardRequest (S : Sodium) (server : ApiServer) (req : Request) : Option DashboardRequest :=
  let ask (body : Bytes) : DashboardRequest :=
    ⟨server.configManager.getApiAddress, req.method, pathWithQuery lib S server req, body⟩
  if req.method = ascii "GET" then some (ask [])
  else if req.method = ascii "POST" then some (ask req.body)
  else if req.method = ascii "PUT" then some (ask req.body)
  else if req.method = ascii "DELETE" then some (ask [])
  else none

/-- One attempt: its result, and the requests that the Dashboard API executes. -/
def attemptRequest (request : Option DashboardRequest) (exchange : Exchange) : Except Bytes Bytes × List DashboardRequest :=
  match request with
  | some request => (exchange.result, if exchange.executed then [request] else [])
  | none => (.error lib.unknownError, [])

def maxRetries : ℕ := 3

/-- The loop over the attempts: the last result, and the requests that were executed. -/
def attempts (request : Option DashboardRequest) (exchange : ℕ → Exchange) :
    (retriesLeft made : ℕ) → (attemptResult : Except Bytes Bytes) → Except Bytes Bytes × List DashboardRequest
  | 0, _, attemptResult => (attemptResult, [])
  | retriesLeft + 1, made, _ =>
    match attemptRequest lib request (exchange made) with
    | (.ok body, executed) => (.ok body, executed)
    | (.error error, executed) =>
      let (attemptResult, more) := attempts request exchange retriesLeft (made + 1) (.error error)
      (attemptResult, executed ++ more)

def NO_ADDRESS : Bytes := ascii "request received by the daemon, but dashboard API address is not known"

/-- The response, and the requests that the Dashboard API executes. -/
def forwardRequestToDashboardApi (S : Sodium) (server : ApiServer) (req : Request) (exchange : ℕ → Exchange) :
    Response × List DashboardRequest :=
  match validateSecret lib server req {} with
  | (res, false) => (res, [])
  | (res, true) =>
    if req.route.isEmpty then (returnError lib res (ascii "Invalid route"), [])
    else if !server.configManager.getApiAddress.isFC94 then (serverError lib res NO_ADDRESS, [])
    else
      let request := dashboardRequest lib S server req
      match attempts lib request exchange maxRetries 0 (.error lib.unknownError) with
      | (.ok body, executed) => (res.setContent body (ascii "application/json"), executed)
      | (.error error, executed) => (serverError lib { res with status := some 503 } error, executed)

/-! ## How often a request is executed -/

/-- The methods that change something. -/
def IsModification (method : Bytes) : Prop := method = ascii "POST" ∨ method = ascii "PUT" ∨ method = ascii "DELETE"

/-- The request is not refused. -/
structure Forwards (server : ApiServer) (req : Request) : Prop where
  secret : server.hasSecret req = true
  route : req.route ≠ []
  address : server.configManager.getApiAddress.isFC94 = true

/-- What becomes of the exchanges that there can be. -/
def pattern (exchange : ℕ → Exchange) : List Exchange := (List.range' 0 maxRetries).map exchange

/-- A request is executed, no response is complete before a later attempt, and that one is executed as well. -/
def ExecutedAgain (exchange : ℕ → Exchange) : Prop := Again Exchange.isAnswered Exchange.executed (pattern exchange)

/-- The loop executes its request once for each attempt that gets through. -/
theorem attempts_executed (request : DashboardRequest) (exchange : ℕ → Exchange) (retriesLeft made : ℕ)
    (attemptResult : Except Bytes Bytes) :
    (attempts lib (some request) exchange retriesLeft made attemptResult).2 =
      ((tried Exchange.isAnswered ((List.range' made retriesLeft).map exchange)).filter Exchange.executed).map
        fun _ => request := by
  induction retriesLeft generalizing made attemptResult with
  | zero => rfl
  | succ retriesLeft ih =>
    rw [List.range'_succ, List.map_cons, attempts, attemptRequest]
    have hone : (if (exchange made).executed = true then [request] else []) =
        ([exchange made].filter Exchange.executed).map fun _ => request := by
      by_cases he : (exchange made).executed = true
      · rw [if_pos he, List.filter_cons_of_pos he]
        rfl
      · rw [if_neg he, List.filter_cons_of_neg he]
        rfl
    cases hr : (exchange made).result with
    | ok body =>
      have hdone : (exchange made).isAnswered = true := by
        rw [Exchange.isAnswered, hr]
        rfl
      rw [tried_cons_done hdone]
      exact hone
    | error error =>
      have hfailed : (exchange made).isAnswered = false := by
        rw [Exchange.isAnswered, hr]
        rfl
      have hrest := ih (made + 1) (.error error)
      show (if (exchange made).executed = true then [request] else []) ++
        (attempts lib (some request) exchange retriesLeft (made + 1) (.error error)).2 = _
      rw [hone, hrest, tried_cons_failed hfailed, ← List.map_append, ← List.filter_append]
      rfl

theorem dashboardRequest_of_modification (S : Sodium) (server : ApiServer) {req : Request} (h : IsModification req.method) :
    ∃ request, dashboardRequest lib S server req = some request := by
  rw [dashboardRequest]
  obtain h | h | h := h
  · rw [h]
    exact ⟨_, rfl⟩
  · rw [h]
    exact ⟨_, rfl⟩
  · rw [h]
    exact ⟨_, rfl⟩

theorem forwarded_of_forwards (S : Sodium) {server : ApiServer} {req : Request} (h : Forwards server req)
    (exchange : ℕ → Exchange) : (forwardRequestToDashboardApi lib S server req exchange).2 =
      (attempts lib (dashboardRequest lib S server req) exchange maxRetries 0 (.error lib.unknownError)).2 := by
  have hroute : req.route.isEmpty = false := by simpa using h.route
  rw [forwardRequestToDashboardApi, validateSecret, if_pos h.secret]
  dsimp only
  rw [if_neg (by simp [hroute]), if_neg (by simp [h.address])]
  generalize attempts lib (dashboardRequest lib S server req) exchange maxRetries 0 (.error lib.unknownError) = r
  obtain ⟨result, executed⟩ := r
  cases result with
  | ok body => rfl
  | error error => rfl

theorem not_forwarded (S : Sodium) {server : ApiServer} {req : Request} (h : ¬ Forwards server req)
    (exchange : ℕ → Exchange) : (forwardRequestToDashboardApi lib S server req exchange).2 = [] := by
  rw [forwardRequestToDashboardApi, validateSecret]
  by_cases hsecret : server.hasSecret req = true
  · rw [if_pos hsecret]
    dsimp only
    by_cases hroute : req.route.isEmpty = true
    · rw [if_pos hroute]
    · rw [if_neg hroute]
      have haddress : server.configManager.getApiAddress.isFC94 = false := by
        by_contra hfc94
        exact h ⟨hsecret, by simpa using hroute, by simpa using hfc94⟩
      rw [if_pos (by simp [haddress])]
  · rw [if_neg hsecret]

/-- **A forwarded modification.** Whatever becomes of the exchanges with the Dashboard API, it executes the
request at most once if and only if the request is refused, or no attempt that gets through without a complete
response, and with none before, is followed by another one that gets through. -/
theorem forwarded_once_iff (lib : ForwardLibrary) (S : Sodium) (server : ApiServer) (req : Request)
    (h : IsModification req.method) (exchange : ℕ → Exchange) :
    (forwardRequestToDashboardApi lib S server req exchange).2.length ≤ 1 ↔
      ¬ (Forwards server req ∧ ExecutedAgain exchange) := by
  by_cases hforwards : Forwards server req
  · obtain ⟨request, hrequest⟩ := dashboardRequest_of_modification lib S server h
    rw [forwarded_of_forwards lib S hforwards, hrequest, attempts_executed, List.length_map, ← List.countP_eq_length_filter]
    simp only [hforwards, true_and]
    exact countP_tried_le_one_iff (pattern exchange)
  · rw [not_forwarded lib S hforwards]
    exact iff_of_true (Nat.zero_le 1) fun hboth => hforwards hboth.1

/-! ## A response that is lost -/

def plainLibrary : ForwardLibrary where
  base64 s := s
  paramsToQueryStr params := params.flatMap fun p => p.1 ++ ascii "=" ++ p.2 ++ ascii "&"
  dump _ := ascii "{}"
  unknownError := ascii "Unknown"

/-- A server whose licence names a Dashboard API. -/
def sampleServer : ApiServer where
  configManager := { ConfigManager.new true (clearIdentity 1).deviceId 0 [] [] with
    apiAddresses := ⟨[(clearIdentity 9).deviceId], by decide⟩ }
  identity := clearIdentity 1
  daemonApiToken := ascii "token"

def sampleRequest : Request where
  method := ascii "POST"
  route := ascii "v3/device/manage/claim"
  header := fun name => if name = HUSARNET_SECRET_HTTP_HEADER_NAME then some (ascii "token") else none
  param := fun _ => none
  body := ascii "{}"

/-- The first response is lost, the second one arrives. -/
def lostThenAnswered : ℕ → Exchange
  | 0 => .responseLost (ascii "Read")
  | _ => .answered true (ascii "{}")

theorem lost_response_repeated : IsModification sampleRequest.method ∧
    ¬ (forwardRequestToDashboardApi plainLibrary clearSodium sampleServer sampleRequest lostThenAnswered).2.length ≤ 1 := by
  refine ⟨Or.inl rfl, ?_⟩
  decide +kernel

/-- A request that is lost is repeated without harm. -/
theorem lost_request_executed_once :
    (forwardRequestToDashboardApi plainLibrary clearSodium sampleServer sampleRequest
      fun i => if i = 0 then .requestLost (ascii "Connection") else .answered true (ascii "{}")).2.length ≤ 1 := by
  refine (forwarded_once_iff plainLibrary clearSodium sampleServer sampleRequest (Or.inl rfl) _).mpr ?_
  rintro ⟨-, hagain⟩
  exact (countP_tried_le_one_iff _).mp (by decide +kernel) hagain

end ApiServer
end Husarnet
