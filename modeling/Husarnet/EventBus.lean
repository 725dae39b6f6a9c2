import Husarnet.Lib.Runs
import Husarnet.Peer
import Husarnet.WebSocketStream
import Mathlib.Data.List.Induction

/-! # eventbus.cpp

One thread calls `EventBus::periodic` again and again, which runs `_connectSocket` while the client is closed.
Another one reads from the connections that are registered. `TcpConnection::connect` registers the connection
and the handshake is sent before the state says how an answer is to be read, so that the answer can come between
any two of these steps.
-/

namespace Husarnet
open Octets Runs WebSocketClient
set_option autoImplicit false

def CONNECTION_ATTEMPT_INTERVAL : Time := 1000

/-- A client before its first connection. -/
def WebSocketClient.new : WebSocketClient where
  state := .SOCK_CLOSED
  conn := false
  nonce := []
  events := []
  sent := []
  aborted := false

/-- Where the thread of the event bus is: outside of `_connectSocket`, or before one of its steps. -/
inductive ConnectLine where
  | outside
  | connect
  | assign
  | handshake
  | setState
  deriving DecidableEq

/-- `registered` tells whether the reading thread knows the connection, `asked` is the nonce of a handshake
that was sent and has no answer yet. -/
structure EventBus where
  line : ConnectLine := .outside
  ws : WebSocketClient := .new
  connected : Bool := false
  lastConnectionAttempt : Time := 0
  registered : Bool := false
  asked : Option Bytes := none

namespace EventBus

def periodic (b : EventBus) (currentTime : Time) (epIp : HusarnetAddress) : EventBus :=
  if b.ws.state = .SOCK_CLOSED then
    let b := { b with connected := false }
    if currentTime - b.lastConnectionAttempt < CONNECTION_ATTEMPT_INTERVAL then b
    else
      let b := { b with lastConnectionAttempt := currentTime }
      if !epIp.isFC94 then b
      else if b.ws.conn then { b with ws := { b.ws with aborted := true } }
      else { b with line := .connect }
  else if b.ws.state = .WS_OPEN then { b with connected := true }
  else b

/-! ## The steps of `_connectSocket` -/

/-- `TcpConnection::connect`: a connection that can be made is registered. -/
def tcpConnect (b : EventBus) (made : Bool) : EventBus :=
  if made then { b with registered := true, line := .assign }
  else { b with ws := { b.ws with conn := false }, line := .outside }

def assignConn (b : EventBus) : EventBus := { b with ws := { b.ws with conn := true }, line := .handshake }

def sendClientHandshake (b : EventBus) (nonce : Bytes) (written : Bool) : EventBus :=
  let b := { b with ws := { b.ws with nonce := nonce } }
  if written then { b with asked := some nonce, line := .setState }
  else { b with ws := b.ws.close, registered := false, line := .outside }

def setConnecting (b : EventBus) : EventBus := { b with ws := { b.ws with state := .WS_CONNECTING }, line := .outside }

/-- The reading thread hands one read to the client. -/
def deliver (lib : HttpLibrary) (b : EventBus) (buf : Bytes) : EventBus :=
  { b with ws := (dataCallback lib b.ws buf).1, asked := none }

end EventBus

inductive BusStep where
  | periodic (currentTime : Time) (epIp : HusarnetAddress)
  | tcpConnect (made : Bool)
  | assignConn
  | sendClientHandshake (nonce : Bytes) (written : Bool)
  | setConnecting
  | answered (buf : Bytes)

/-- The steps of both threads, in any order. The server answers a handshake once, with a response that is valid
for its nonce and that is one read. -/
inductive EventBusStep (lib : HttpLibrary) (b : EventBus) : BusStep → EventBus → Prop where
  | periodic (h : b.line = .outside) (currentTime : Time) (epIp : HusarnetAddress) :
      EventBusStep lib b (.periodic currentTime epIp) (b.periodic currentTime epIp)
  | tcpConnect (h : b.line = .connect) (made : Bool) : EventBusStep lib b (.tcpConnect made) (b.tcpConnect made)
  | assignConn (h : b.line = .assign) : EventBusStep lib b .assignConn b.assignConn
  | sendClientHandshake (h : b.line = .handshake) (nonce : Bytes) (written : Bool) :
      EventBusStep lib b (.sendClientHandshake nonce written) (b.sendClientHandshake nonce written)
  | setConnecting (h : b.line = .setState) : EventBusStep lib b .setConnecting b.setConnecting
  | answered (h : b.registered = true) {nonce : Bytes} (ha : b.asked = some nonce) {buf : Bytes}
      (hv : accepts lib nonce buf = true) : EventBusStep lib b (.answered buf) (b.deliver lib buf)

/-! ## The order of the steps -/

def Answered (past : List BusStep) : Prop := ∃ buf, .answered buf ∈ past

/-- The state was set before the answer came. -/
def SetInTime (past : List BusStep) : Prop :=
  ∃ pre buf post, past = pre ++ .answered buf :: post ∧ .setConnecting ∈ pre

theorem SetInTime.append {past : List BusStep} (h : SetInTime past) (s : BusStep) : SetInTime (past ++ [s]) := by
  obtain ⟨pre, buf, post, rfl, hset⟩ := h
  exact ⟨pre, buf, post ++ [s], by rw [List.append_assoc, List.cons_append], hset⟩

theorem setInTime_of_append {past : List BusStep} {s : BusStep} (hs : ∀ buf, s ≠ .answered buf)
    (h : SetInTime (past ++ [s])) : SetInTime past := by
  obtain ⟨pre, buf, post, he, hset⟩ := h
  cases post using List.reverseRecOn with
  | nil =>
    have hlast : s = .answered buf := (List.append_inj' he rfl).2 |> List.singleton_inj.mp
    exact absurd hlast (hs buf)
  | append_singleton post t =>
    rw [← List.cons_append, ← List.append_assoc] at he
    exact ⟨pre, buf, post, (List.append_inj' he rfl).1, hset⟩

theorem not_setInTime {past : List BusStep} (h : .setConnecting ∉ past) : ¬ SetInTime past := by
  rintro ⟨pre, buf, post, rfl, hset⟩
  exact h (List.mem_append_left _ hset)

theorem Answered.append {past : List BusStep} (h : Answered past) (s : BusStep) : Answered (past ++ [s]) := by
  obtain ⟨buf, hm⟩ := h
  exact ⟨buf, List.mem_append_left _ hm⟩

/-- What the steps so far have led to. -/
inductive BusPhase (b : EventBus) (past : List BusStep) : Prop where
  | closed (hl : b.line ≠ .setState) (hs : b.ws.state = .SOCK_CLOSED) (ha : b.asked = none)
      (hset : .setConnecting ∉ past) (hnone : ¬ Answered past)
  | sent (hl : b.line = .setState) (hs : b.ws.state = .SOCK_CLOSED) (ha : b.asked = some b.ws.nonce)
      (hset : .setConnecting ∉ past) (hnone : ¬ Answered past)
  | waiting (hl : b.line = .outside) (hs : b.ws.state = .WS_CONNECTING) (ha : b.asked = some b.ws.nonce)
      (hset : .setConnecting ∈ past) (hnone : ¬ Answered past)
  | opened (hl : b.line = .outside) (hs : b.ws.state = .WS_OPEN) (ha : b.asked = none) (h : SetInTime past)
  | missed (hl : b.line = .setState) (hs : b.ws.state = .SOCK_CLOSED) (ha : b.asked = none)
      (hset : .setConnecting ∉ past) (h : Answered past)
  | stuck (hl : b.line = .outside) (hs : b.ws.state = .WS_CONNECTING) (ha : b.asked = none)
      (hlate : ¬ SetInTime past) (h : Answered past)

section Steps
variable {lib : HttpLibrary} {b b' : EventBus} {s : BusStep} {past : List BusStep}

theorem handleRead_accepted {ws : WebSocketClient} (hs : ws.state = .WS_CONNECTING) {buf : Bytes}
    (h : accepts lib ws.nonce buf = true) : (dataCallback lib ws buf).1.state = .WS_OPEN := by
  rw [accepts] at h
  rw [dataCallback, handleRead, hs]
  dsimp only
  rw [handleHandshake]
  split at h
  · rename_i message hparse
    rw [hparse]
    dsimp only
    rw [if_pos h]
  · cases h

/-- Outside of `_connectSocket` the client is as it was, and a connection is begun only by a closed client. -/
theorem EventBus.periodic_frame (b : EventBus) (currentTime : Time) (epIp : HusarnetAddress) :
    (b.periodic currentTime epIp).ws.state = b.ws.state ∧ (b.periodic currentTime epIp).ws.nonce = b.ws.nonce ∧
      (b.periodic currentTime epIp).asked = b.asked ∧
      ((b.periodic currentTime epIp).line = b.line ∨ (b.periodic currentTime epIp).line = .connect ∧ b.ws.state = .SOCK_CLOSED) := by
  unfold EventBus.periodic
  split
  · rename_i hclosed
    dsimp only
    split
    · simp
    · split
      · simp
      · split
        · simp
        · simp [hclosed]
  · split
    · simp
    · simp

theorem not_mem_append_step {t : BusStep} (h : t ∉ past) (hs : t ≠ s) : t ∉ past ++ [s] := by
  rw [List.mem_append, List.mem_singleton, not_or]
  exact ⟨h, hs⟩

theorem not_answered_append (h : ¬ Answered past) (hs : ∀ buf, s ≠ .answered buf) : ¬ Answered (past ++ [s]) := by
  rintro ⟨buf, hm⟩
  exact not_mem_append_step (fun hp => h ⟨buf, hp⟩) (hs buf).symm hm

/-- While a connection is made the client is closed and nothing was asked. -/
theorem BusPhase.making (h : BusPhase b past) (ho : b.line ≠ .outside) (hne : b.line ≠ .setState) :
    b.ws.state = .SOCK_CLOSED ∧ b.asked = none ∧ .setConnecting ∉ past ∧ ¬ Answered past := by
  cases h with
  | closed _ hs ha hset hnone => exact ⟨hs, ha, hset, hnone⟩
  | sent hl _ _ _ _ => exact absurd hl hne
  | waiting hl _ _ _ _ => exact absurd hl ho
  | opened hl _ _ _ => exact absurd hl ho
  | missed hl _ _ _ _ => exact absurd hl hne
  | stuck hl _ _ _ _ => exact absurd hl ho

theorem BusPhase.periodic (h : BusPhase b past) (hl : b.line = .outside) (currentTime : Time) (epIp : HusarnetAddress) :
    BusPhase (b.periodic currentTime epIp) (past ++ [.periodic currentTime epIp]) := by
  obtain ⟨hstate, hnonce, hasked, hline⟩ := b.periodic_frame currentTime epIp
  have hother (buf : Bytes) : BusStep.periodic currentTime epIp ≠ .answered buf := by simp
  have hstays (hne : b.ws.state ≠ .SOCK_CLOSED) : (b.periodic currentTime epIp).line = .outside :=
    (hline.resolve_right fun h => hne h.2).trans hl
  have hnot : b.line ≠ .setState := by simp [hl]
  cases h with
  | closed _ hs ha hset hnone =>
    refine .closed ?_ (hstate.trans hs) (hasked.trans ha) (not_mem_append_step hset (by simp))
      (not_answered_append hnone hother)
    obtain hsame | ⟨hconnect, -⟩ := hline
    · rw [hsame]
      exact hnot
    · simp [hconnect]
  | sent hl' _ _ _ _ => exact absurd hl' hnot
  | waiting _ hs ha hset hnone =>
    refine .waiting (hstays (by simp [hs])) (hstate.trans hs) ?_ (List.mem_append_left _ hset)
      (not_answered_append hnone hother)
    rw [hasked, ha, hnonce]
  | opened _ hs ha h => exact .opened (hstays (by simp [hs])) (hstate.trans hs) (hasked.trans ha) (h.append _)
  | missed hl' _ _ _ _ => exact absurd hl' hnot
  | stuck _ hs ha hlate h =>
    exact .stuck (hstays (by simp [hs])) (hstate.trans hs) (hasked.trans ha)
      (fun hset => hlate (setInTime_of_append hother hset)) (h.append _)

/-- The state is set: an answer that comes later is read, one that was there before is lost. -/
theorem BusPhase.setConnecting (h : BusPhase b past) (hl : b.line = .setState) :
    BusPhase b.setConnecting (past ++ [.setConnecting]) := by
  have hlast : BusStep.setConnecting ∈ past ++ [.setConnecting] := List.mem_append_right _ (List.mem_singleton_self _)
  cases h with
  | closed hne _ _ _ _ => exact absurd hl hne
  | sent _ _ ha _ hnone => exact .waiting rfl rfl ha hlast (not_answered_append hnone (by simp))
  | missed _ _ ha hset h =>
    exact .stuck rfl rfl ha (fun hs => not_setInTime hset (setInTime_of_append (by simp) hs)) (h.append _)
  | waiting hl' _ _ _ _ => simp [hl] at hl'
  | opened hl' _ _ _ => simp [hl] at hl'
  | stuck hl' _ _ _ _ => simp [hl] at hl'

/-- The answer comes: a client that waits for it is open, and a closed one does not look at it. -/
theorem BusPhase.answered (h : BusPhase b past) {nonce : Bytes} (ha : b.asked = some nonce) {buf : Bytes}
    (hv : accepts lib nonce buf = true) : BusPhase (b.deliver lib buf) (past ++ [.answered buf]) := by
  have hlast : Answered (past ++ [.answered buf]) := ⟨buf, List.mem_append_right _ (List.mem_singleton_self _)⟩
  cases h with
  | sent hl hs _ hset _ =>
    refine .missed hl ?_ rfl (not_mem_append_step hset (by simp)) hlast
    show (dataCallback lib b.ws buf).1.state = _
    rw [dataCallback, handleRead, hs]
    exact hs
  | waiting hl hs ha' hset _ =>
    have hnonce : b.ws.nonce = nonce := Option.some.inj (ha'.symm.trans ha)
    exact .opened hl (handleRead_accepted hs (hnonce ▸ hv)) rfl ⟨past, buf, [], rfl, hset⟩
  | closed _ _ ha' _ _ => simp [ha] at ha'
  | opened _ _ ha' _ => simp [ha] at ha'
  | missed _ _ ha' _ _ => simp [ha] at ha'
  | stuck _ _ ha' _ _ => simp [ha] at ha'

/-- **One step** of either thread. -/
theorem BusPhase.step (h : BusPhase b past) (hstep : EventBusStep lib b s b') : BusPhase b' (past ++ [s]) := by
  cases hstep with
  | periodic hl currentTime epIp => exact h.periodic hl currentTime epIp
  | tcpConnect hl made =>
    obtain ⟨hs, ha, hset, hnone⟩ := h.making (by simp [hl]) (by simp [hl])
    have hset' := not_mem_append_step (s := .tcpConnect made) hset (by simp)
    have hnone' := not_answered_append (s := .tcpConnect made) hnone (by simp)
    cases made with
    | true => exact .closed (by simp [EventBus.tcpConnect]) hs ha hset' hnone'
    | false => exact .closed (by simp [EventBus.tcpConnect]) hs ha hset' hnone'
  | assignConn hl =>
    obtain ⟨hs, ha, hset, hnone⟩ := h.making (by simp [hl]) (by simp [hl])
    exact .closed (by simp [EventBus.assignConn]) hs ha (not_mem_append_step hset (by simp))
      (not_answered_append hnone (by simp))
  | sendClientHandshake hl nonce written =>
    obtain ⟨hs, ha, hset, hnone⟩ := h.making (by simp [hl]) (by simp [hl])
    have hset' := not_mem_append_step (s := .sendClientHandshake nonce written) hset (by simp)
    have hnone' := not_answered_append (s := .sendClientHandshake nonce written) hnone (by simp)
    cases written with
    | true => exact .sent rfl hs rfl hset' hnone'
    | false =>
      refine .closed (by simp [EventBus.sendClientHandshake]) ?_ ha hset' hnone'
      show (WebSocketClient.close { b.ws with nonce := nonce }).state = _
      rw [WebSocketClient.close]
      split
      · rfl
      · exact hs
  | setConnecting hl => exact h.setConnecting hl
  | answered _ ha hv => exact h.answered ha hv

end Steps

/-- **When the answer is met.** In a run of both threads in which the server answers a handshake, and behind which
no connection is being made, the client is open if and only if the state was set before the answer came. -/
theorem opens_iff_set_in_time (lib : HttpLibrary) {tr : List (BusStep × EventBus)} (hr : IsRun (EventBusStep lib) {} tr)
    (hanswered : Answered (tr.map Prod.fst)) (hend : (last {} tr).line = .outside) :
    (last {} tr).ws.state = .WS_OPEN ↔ SetInTime (tr.map Prod.fst) := by
  have hstart : BusPhase {} [] := .closed (by simp) rfl rfl (by simp) fun ⟨_, h⟩ => by cases h
  have hphase : BusPhase (last {} tr) ([] ++ tr.map Prod.fst) :=
    hr.history (I := fun past b => BusPhase b past) (G := fun _ _ _ => True) hstart
      (fun _ _ _ _ h _ hstep => h.step hstep) (fun _ _ => trivial) tr [] (List.append_nil tr).symm
  rw [List.nil_append] at hphase
  cases hphase with
  | closed _ _ _ _ hnone => exact absurd hanswered hnone
  | sent hl _ _ _ _ => simp [hend] at hl
  | waiting _ _ _ _ hnone => exact absurd hanswered hnone
  | opened _ hs _ h => exact ⟨fun _ => h, fun _ => hs⟩
  | missed hl _ _ _ _ => simp [hend] at hl
  | stuck _ hs _ hlate _ => simp [hs, hlate]

/-! ## Two orders -/

/-- The address that the licence names for the event bus. -/
def ebServer : HusarnetAddress := .parse (ascii "fc94::1")

/-- The bus behind its handshake, when the state is still to be set. -/
def asking : EventBus :=
  ((({} : EventBus).periodic 2000 ebServer).tcpConnect true).assignConn.sendClientHandshake sampleNonce true

/-- The steps that lead there. -/
def askingRun : List (BusStep × EventBus) :=
  [(.periodic 2000 ebServer, ({} : EventBus).periodic 2000 ebServer),
    (.tcpConnect true, (({} : EventBus).periodic 2000 ebServer).tcpConnect true),
    (.assignConn, ((({} : EventBus).periodic 2000 ebServer).tcpConnect true).assignConn),
    (.sendClientHandshake sampleNonce true, asking)]

theorem isRun_asking (tr : List (BusStep × EventBus)) (h : IsRun (EventBusStep sampleLibrary) asking tr) :
    IsRun (EventBusStep sampleLibrary) {} (askingRun ++ tr) := by
  have hconnect : (({} : EventBus).periodic 2000 ebServer).line = .connect := by decide +kernel
  exact ⟨.periodic rfl _ _, .tcpConnect hconnect _, .assignConn rfl, .sendClientHandshake rfl _ _, h⟩

def answerInTime : List (BusStep × EventBus) :=
  [(.setConnecting, asking.setConnecting),
    (.answered sampleHandshake, asking.setConnecting.deliver sampleLibrary sampleHandshake)]

def answerEarly : List (BusStep × EventBus) :=
  [(.answered sampleHandshake, asking.deliver sampleLibrary sampleHandshake),
    (.setConnecting, (asking.deliver sampleLibrary sampleHandshake).setConnecting)]

theorem opens_iff_set_in_time_answer :
    (last {} (askingRun ++ answerInTime)).ws.state = .WS_OPEN ↔ SetInTime ((askingRun ++ answerInTime).map Prod.fst) := by
  have hrun : IsRun (EventBusStep sampleLibrary) asking answerInTime :=
    ⟨.setConnecting rfl, .answered rfl rfl sampleHandshake_valid.accepted, trivial⟩
  have hanswered : Answered ((askingRun ++ answerInTime).map Prod.fst) := ⟨sampleHandshake, by simp [answerInTime]⟩
  exact opens_iff_set_in_time sampleLibrary (isRun_asking answerInTime hrun) hanswered rfl

/-- The answer comes before the state is set: the client does not look at it, and waits for it from then on. -/
theorem early_answer_missed : IsRun (EventBusStep sampleLibrary) {} (askingRun ++ answerEarly) ∧
    Answered ((askingRun ++ answerEarly).map Prod.fst) ∧ (last {} (askingRun ++ answerEarly)).line = .outside ∧
    (last {} (askingRun ++ answerEarly)).ws.state ≠ .WS_OPEN := by
  have hrun : IsRun (EventBusStep sampleLibrary) asking answerEarly :=
    ⟨.answered rfl rfl sampleHandshake_valid.accepted, .setConnecting rfl, trivial⟩
  refine ⟨isRun_asking answerEarly hrun, ⟨sampleHandshake, by simp [answerEarly]⟩, rfl, ?_⟩
  have hstate : (last {} (askingRun ++ answerEarly)).ws.state = .WS_CONNECTING := rfl
  simp [hstate]

end Husarnet
