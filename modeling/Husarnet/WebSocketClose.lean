import Husarnet.WebSocket
import Mathlib.Data.List.Induction

/-! # Frames behind a CLOSE

A read can hold several frames. The handler of a CLOSE closes the connection and lets it go, but the loop over the
frames of the read goes on: data behind a CLOSE still reaches the user, and a frame that has to be answered finds
no connection.
-/

namespace Husarnet
open Octets Framing
set_option autoImplicit false

namespace WebSocketClient

/-- The messages that `_handleData` takes from a read. -/
def messagesIn (buf : Bytes) : List Message := (messages.drain buf).packets

/-- The client behind some messages of a read. -/
def after (ws : WebSocketClient) (ms : List Message) : WebSocketClient := ms.foldl handleMessage ws

/-- Something is done about the message: it is handed to the user or answered. -/
def Message.Handled (m : Message) : Prop := m.CarriesData ∨ m.Answered

def HasClose (ms : List Message) : Prop := ∃ c ∈ ms, c.opcode = Opcode.CLOSE

/-- Behind a CLOSE no message does anything, and `_sendRaw` is entered with a connection only. -/
structure ClosesProperly (ws : WebSocketClient) (ms : List Message) : Prop where
  silent (pre : List Message) (m : Message) (post : List Message) : ms = pre ++ m :: post → HasClose pre →
    (ws.after pre).handleMessage m = ws.after pre
  connected (pre : List Message) (m : Message) (post : List Message) : ms = pre ++ m :: post → m.Answered →
    (ws.after pre).aborted = false → (ws.after pre).conn = true

/-- The messages up to the first CLOSE, and behind it. -/
theorem HasClose.split {ms : List Message} (h : HasClose ms) :
    ∃ pre c post, ms = pre ++ c :: post ∧ c.opcode = Opcode.CLOSE ∧ ¬ HasClose pre := by
  obtain ⟨c, hc, hclose⟩ := h
  cases hfind : ms.find? fun m => decide (m.opcode = Opcode.CLOSE) with
  | none =>
    have hnone := List.find?_eq_none.mp hfind c hc
    exact absurd (decide_eq_true hclose) hnone
  | some c =>
    obtain ⟨hp, pre, post, he, hpre⟩ := List.find?_eq_some_iff_append.mp hfind
    refine ⟨pre, c, post, he, of_decide_eq_true hp, ?_⟩
    rintro ⟨m, hm, hmclose⟩
    simpa [hmclose] using hpre m hm

section Reads
variable {ws : WebSocketClient} {ms pre : List Message}

theorem after_append (ms ms' : List Message) : ws.after (ms ++ ms') = (ws.after ms).after ms' := List.foldl_append

theorem Live.after (h : Live ws) (hm : ¬ HasClose ms) : Live (ws.after ms) := by
  induction ms generalizing ws with
  | nil => exact h
  | cons m ms ih =>
    have hfirst : m.opcode ≠ Opcode.CLOSE := fun hc => hm ⟨m, List.mem_cons_self .., hc⟩
    refine ih (h.handleMessage hfirst) ?_
    rintro ⟨c, hc, hclose⟩
    exact hm ⟨c, List.mem_cons_of_mem _ hc, hclose⟩

theorem Closed.after (h : Closed ws) (hm : ∀ m ∈ ms, ¬ m.Handled) : ws.after ms = ws := by
  induction ms with
  | nil => rfl
  | cons m ms ih =>
    obtain ⟨hfirst, hrest⟩ := List.forall_mem_cons.mp hm
    have hsame : ws.handleMessage m = ws :=
      handleMessage_control h.running (fun hd => hfirst (Or.inl hd)) fun ha => hfirst (Or.inr ha)
    rw [WebSocketClient.after, List.foldl_cons, hsame]
    exact ih hrest

theorem Live.afterClose (h : Live ws) {c : Message} (hc : c.opcode = Opcode.CLOSE) (hpre : ¬ HasClose pre) :
    Closed (ws.after (pre ++ [c])) := by
  rw [after_append]
  exact ((h.after hpre).handleClose hc).1

/-- Where messages behind a CLOSE do nothing, the client stays as the CLOSE left it. -/
theorem after_of_silent {c : Message} (hc : c.opcode = Opcode.CLOSE)
    (hsilent : ∀ pre m post, ms = pre ++ m :: post → HasClose pre → (ws.after pre).handleMessage m = ws.after pre)
    {between rest : List Message} (he : ms = pre ++ c :: (between ++ rest)) :
    ws.after (pre ++ c :: between) = ws.after (pre ++ [c]) := by
  induction between using List.reverseRecOn generalizing rest with
  | nil => rfl
  | append_singleton between m ih =>
    have he' : ms = pre ++ c :: (between ++ m :: rest) := by rw [he, List.append_assoc, List.singleton_append]
    have hstep := hsilent (pre ++ c :: between) m rest (by rw [he', List.append_assoc, List.cons_append])
      ⟨c, List.mem_append_cons_self, hc⟩
    have hlast : ws.after (pre ++ c :: (between ++ [m])) = (ws.after (pre ++ c :: between)).handleMessage m := by
      rw [← List.cons_append, ← List.append_assoc, after_append]
      rfl
    rw [hlast, hstep]
    exact ih he'

/-- A closed client shows what it does about a message: the user gets data, or there is no connection to answer on. -/
theorem Closed.not_handled (h : Closed ws) {m : Message} (hsame : ws.handleMessage m = ws)
    (hconn : m.Answered → ws.aborted = false → ws.conn = true) : ¬ m.Handled := by
  rintro (hdata | hanswered)
  · rw [handleMessage_data h.running hdata] at hsame
    have hevents : ws.events ++ [.onMessage m.data] = ws.events := congrArg WebSocketClient.events hsame
    simp at hevents
  · have hopen := hconn hanswered h.running
    rw [h.conn] at hopen
    cases hopen

end Reads

/-- **When a socket is not used behind a CLOSE.** A client that is open closes properly in a read, if and only if
no TEXT, BINARY, PING or CLOSE message is behind the first CLOSE of that read. -/
theorem closes_properly_iff {ws : WebSocketClient} (h : Live ws) (buf : Bytes) :
    ClosesProperly ws (messagesIn buf) ↔
      ∀ pre m post, messagesIn buf = pre ++ m :: post → HasClose pre → ¬ m.Handled := by
  constructor
  · rintro ⟨hsilent, hconnected⟩ pre m post he hclose
    obtain ⟨before, c, between, rfl, hc, hbefore⟩ := hclose.split
    have hfirst : messagesIn buf = before ++ c :: (between ++ m :: post) := by
      rw [he, List.append_assoc, List.cons_append]
    have hclosed : Closed (ws.after (before ++ c :: between)) := by
      rw [after_of_silent hc hsilent hfirst]
      exact h.afterClose hc hbefore
    exact hclosed.not_handled (hsilent _ m post he hclose) (hconnected _ m post he)
  · intro hquiet
    constructor
    · intro pre m post he hclose
      have hm := hquiet pre m post he hclose
      obtain ⟨before, c, between, rfl, hc, hbefore⟩ := hclose.split
      have hclosed := h.afterClose hc hbefore
      -- nothing was done about the messages between
      have hbetween : ∀ x ∈ between, ¬ x.Handled := by
        intro x hx
        obtain ⟨between₁, between₂, rfl⟩ := List.append_of_mem hx
        refine hquiet (before ++ c :: between₁) x (between₂ ++ m :: post) (by rw [he]; simp) ?_
        exact ⟨c, List.mem_append_cons_self, hc⟩
      have hsame : ws.after (before ++ c :: between) = ws.after (before ++ [c]) := by
        rw [List.append_cons, after_append]
        exact hclosed.after hbetween
      rw [hsame]
      exact handleMessage_control hclosed.running (fun hd => hm (Or.inl hd)) fun ha => hm (Or.inr ha)
    · intro pre m post he hanswered _
      by_cases hclose : HasClose pre
      · exact absurd (Or.inr hanswered) (hquiet pre m post he hclose)
      · exact (h.after hclose).conn

/-- A client with a connection. -/
def openClient : WebSocketClient := { connecting [] with state := .WS_OPEN }

/-- A CLOSE and a PONG. -/
theorem closes_properly_iff_pong : ClosesProperly openClient (messagesIn [0x88, 0, 0x8A, 0]) ↔
    ∀ pre m post, messagesIn [0x88, 0, 0x8A, 0] = pre ++ m :: post → HasClose pre → ¬ m.Handled :=
  closes_properly_iff ⟨rfl, rfl, rfl⟩ [0x88, 0, 0x8A, 0]

/-- The PING behind a CLOSE is answered on a connection that is gone. -/
theorem ping_behind_close : ¬ ClosesProperly openClient (messagesIn [0x88, 0, 0x89, 0]) := by
  have hmessages : messagesIn [0x88, 0, 0x89, 0] =
      [⟨⟨true, false, false, false⟩, Opcode.CLOSE, false, []⟩, ⟨⟨true, false, false, false⟩, Opcode.PING, false, []⟩] := by
    decide +kernel
  rw [hmessages]
  intro h
  have hconn := h.connected [_] _ [] rfl (Or.inl rfl) (by decide +kernel)
  exact absurd hconn (by decide +kernel)

end WebSocketClient
end Husarnet
