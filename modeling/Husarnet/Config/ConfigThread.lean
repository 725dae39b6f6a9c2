import Husarnet.Config.ConfigFrames
import Husarnet.Lib.Runs

/-! # The configuration thread and the threads around it

`periodicThread` as a program counter over the calls it makes, with the two steps of an HTTP
request apart, so that a message handled by the EventBus thread, a call of the daemon API or the
passing of time can fall between any two of them. A JSON exception ends the thread, as the
catch-all around every thread of the daemon does. `pushes` is no variable of the program: it lists
the times of the triggers since the last get_config request was sent, the latest first.
-/

namespace Husarnet
open Octets JsonDoc StateProgram Runs
set_option autoImplicit false

/-! ## dashboardapi/response.cpp -/

namespace dashboardapi

structure Response where
  statusCode : ℤ
  jsonDoc : Json

namespace Response

def new (T : JsonText) (result : HttpResult) : Except ConfigFault Response :=
  if result.statusCode = 200 then
    match T.parse result.bytes with
    | some doc => .ok ⟨200, doc⟩
    | none => .error .parseError
  else .ok ⟨result.statusCode, .object []⟩

def isSuccessful (r : Response) : Except ConfigFault Bool :=
  if r.statusCode ≠ 200 then .ok false
  else do
    let type ← access (r.jsonDoc.member (ascii "type") >>= Json.getString)
    return type == ascii "success"

def getPayloadJson (r : Response) : Except ConfigFault Json := access (r.jsonDoc.memberOrNull (ascii "payload"))

/-- The errors of the document, behind the text for its type. -/
def describe (r : Response) (text : Bytes) : Except ConfigFault Bytes := do
  let errors ← access (r.jsonDoc.memberOrNull (ascii "errors") >>= Json.getStrings)
  return text ++ errors.flatten

def toString (r : Response) : Except ConfigFault Bytes := do
  match ← access (r.jsonDoc.memberOrNull (ascii "type")) with
  | .null => return ascii "unknown error type null"
  | .string type =>
    if type = ascii "user_error" then r.describe (ascii "invalid request: ")
    else if type = ascii "server_error" then r.describe (ascii "server error: ")
    else r.describe (ascii "unknown api error: ")
  | _ => r.describe (ascii "unknown api error: ")

end Response
end dashboardapi

/-! ## eventbus.cpp -/

namespace WebSocket

inductive Opcode where
  | CONTINUATION
  | TEXT
  | BINARY
  | CLOSE
  | PING
  | PONG
  deriving DecidableEq, Repr

structure Message where
  opcode : Opcode
  data : Bytes

end WebSocket

/-- `EventBus::_handleMessage`: does the message call `triggerGetConfig`? -/
def handleMessage (message : WebSocket.Message) : Bool :=
  message.opcode = .TEXT ∧ message.data.length ≠ 0 ∧ message.data = ascii "get_config"

/-! ## periodicThread -/

/-- What `periodicThread` does next. -/
inductive Pc where
  | readCache
  | readUserConfig
  | updateUserConfigData
  | fetchLicense
  | updateLicenseData
  | firstWriteCache
  | waiting
  | checkLicense (now : ℤ)
  | redownloadLicense (now : ℤ)
  | checkGetConfig (now : ℤ) (shouldWriteCache : Bool)
  | getConfigRequested
  | getConfigReceived (apiResponse : dashboardapi.Response)
  | getConfigStored
  | getConfigApplied
  | checkWriteCache (shouldWriteCache : Bool)
  | dead (fault : ConfigFault)

structure ConfigSystem where
  cm : ConfigManager
  pc : Pc
  clock : ℤ
  pushes : List ℤ := []

namespace ConfigSystem

/-- A call of a member function by the thread, and where it goes on. -/
def call {α : Type} (s : ConfigSystem) (m : Cm α) (next : α → Pc) : ConfigSystem :=
  match m s.cm with
  | .ok a cm => { s with cm := cm, pc := next a }
  | .error fault cm => { s with cm := cm, pc := .dead fault }

/-- A call of a member function by another thread. -/
def callOther {α : Type} (s : ConfigSystem) (m : Cm α) : ConfigSystem := { s with cm := after m s.cm }

/-- The part of `fetchGetConfig` on a response: a success is stored, an error is logged. -/
def receive (s : ConfigSystem) (apiResponse : dashboardapi.Response) : ConfigSystem :=
  s.call (do
    if ← lift apiResponse.isSuccessful then
      ConfigManager.storeGetConfig (← lift apiResponse.getPayloadJson)
      return true
    else
      let _ ← lift apiResponse.toString
      return false)
    fun stored => if stored then .getConfigStored else .checkWriteCache true

def setTimer (s : ConfigSystem) : ConfigSystem :=
  { s with
    cm := { s.cm with nextGetConfigUpdate := s.clock + getConfigRefreshPeriod }
    pc := .checkWriteCache true }

/-- One step of the periodic thread; `result` is what the request under way returns. -/
def threadStep (T : JsonText) (S : Sodium) (s : ConfigSystem) (result : HttpResult) : ConfigSystem :=
  match s.pc with
  | .readCache => s.call (ConfigManager.readCache T) fun _ => .readUserConfig
  | .readUserConfig =>
    s.call (ConfigManager.readUserConfig T) fun read => if read then .updateUserConfigData else .fetchLicense
  | .updateUserConfigData => s.call ConfigManager.updateUserConfigData fun _ => .fetchLicense
  | .fetchLicense => s.call (ConfigManager.fetchLicenseJson T S result s.clock) fun _ => .updateLicenseData
  | .updateLicenseData => s.call ConfigManager.updateLicenseData fun _ => .firstWriteCache
  | .firstWriteCache => s.call (ConfigManager.writeCache T) fun _ => .waiting
  | .waiting => { s with pc := .checkLicense s.clock }
  | .checkLicense now =>
    { s with pc := if s.cm.nextLicenseDownload ≤ now then .redownloadLicense now else .checkGetConfig now false }
  | .redownloadLicense now =>
    s.call (ConfigManager.fetchLicenseJson T S result s.clock) fun _ => .checkGetConfig now true
  | .checkGetConfig now shouldWriteCache =>
    if s.cm.enableControlplane ∧ s.cm.nextGetConfigUpdate ≤ now then
      { s with pc := .getConfigRequested, pushes := [] }
    else { s with pc := .checkWriteCache shouldWriteCache }
  | .getConfigRequested =>
    s.call (lift (dashboardapi.Response.new T result)) .getConfigReceived
  | .getConfigReceived apiResponse => s.receive apiResponse
  | .getConfigStored => s.call ConfigManager.updateGetConfigData fun _ => .getConfigApplied
  | .getConfigApplied => s.setTimer
  | .checkWriteCache shouldWriteCache =>
    s.call (if shouldWriteCache then ConfigManager.writeCache T else pure ()) fun _ => .waiting
  | .dead _ => s

/-- What can happen next: a step of the periodic thread, a message on the EventBus connection, a
call of the daemon API, or some milliseconds pass. -/
inductive Event where
  | thread (result : HttpResult)
  | message (message : WebSocket.Message)
  | whitelistAdd (address : HusarnetAddress)
  | whitelistRm (address : HusarnetAddress)
  | tick (ms : ℕ)

def trigger (s : ConfigSystem) : ConfigSystem :=
  { s.callOther (ConfigManager.triggerGetConfig s.clock) with pushes := s.clock :: s.pushes }

/-- The EventBus thread is started only when the control plane is enabled. -/
def messageStep (s : ConfigSystem) (message : WebSocket.Message) : ConfigSystem :=
  if s.cm.enableControlplane ∧ handleMessage message then s.trigger else s

def step (T : JsonText) (S : Sodium) (s : ConfigSystem) : Event → ConfigSystem
  | .thread result => s.threadStep T S result
  | .message message => s.messageStep message
  | .whitelistAdd address => s.callOther (ConfigManager.userWhitelistAdd T address)
  | .whitelistRm address => s.callOther (ConfigManager.userWhitelistRm address)
  | .tick ms => { s with clock := s.clock + ms }

def Step (T : JsonText) (S : Sodium) (s : ConfigSystem) (e : Event) (t : ConfigSystem) : Prop :=
  s.step T S e = t

/-- The process has constructed the manager and starts the thread. -/
def start (enableControlplane : Bool) (ourIp : HusarnetAddress) (clock : ℤ) (configFile cacheFile : Bytes) :
    ConfigSystem where
  cm := .new enableControlplane ourIp clock configFile cacheFile
  pc := .readCache
  clock := clock

/-! ## What a call leaves alone -/

@[simp] theorem call_clock {α : Type} (s : ConfigSystem) (m : Cm α) (next : α → Pc) :
    (s.call m next).clock = s.clock := by
  unfold call
  cases m s.cm <;> rfl

@[simp] theorem call_pushes {α : Type} (s : ConfigSystem) (m : Cm α) (next : α → Pc) :
    (s.call m next).pushes = s.pushes := by
  unfold call
  cases m s.cm <;> rfl

theorem call_cm {α : Type} (s : ConfigSystem) (m : Cm α) (next : α → Pc) :
    (s.call m next).cm = after m s.cm := by
  unfold call after
  cases m s.cm <;> rfl

theorem call_pc {α : Type} (s : ConfigSystem) (m : Cm α) (next : α → Pc) :
    (∃ a cm, m s.cm = .ok a cm ∧ (s.call m next).pc = next a) ∨ ∃ fault, (s.call m next).pc = .dead fault := by
  unfold call
  cases h : m s.cm with
  | ok a cm => exact Or.inl ⟨a, cm, rfl, rfl⟩
  | error fault cm => exact Or.inr ⟨fault, rfl⟩

end ConfigSystem
end Husarnet
