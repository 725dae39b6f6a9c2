import Husarnet.Lib.Bytes
import Husarnet.Lib.Runs
import Mathlib.Data.List.Induction
import Mathlib.Data.List.Nodup
import Mathlib.Logic.Function.Basic

/-! # The loop over the TCP connections (ports/sockets.cpp)

`runOnce` holds the lock of the table for a whole round: it reads from the connections, calls the error callback of
those that are closed, and removes them. `TcpConnection::connect` waits for the lock, `TcpConnection::close` does not,
so that a connection can be closed between any two steps of a round.
-/

namespace Husarnet
open Octets Runs
set_option autoImplicit false

/-- Where `runOnce` is: outside, or in one of its three loops before the connections in `rest`. In the first one
`handling` is within `_handleRead`. -/
inductive LoopLine where
  | outside
  | reading (rest : List ℕ)
  | handling (c : ℕ) (rest : List ℕ)
  | reporting (rest : List ℕ)
  | removing (kept rest : List ℕ)
  deriving DecidableEq

/-- What the loop has before it, and what it keeps. -/
def LoopLine.ahead : LoopLine → List ℕ
  | .outside => []
  | .reading rest => rest
  | .handling c rest => c :: rest
  | .reporting rest => rest
  | .removing kept rest => kept ++ rest

/-- The connections are numbered as they are made. `closed` tells of one that `close` was called for it, which takes
its descriptor away and sets `_hasErrored`. -/
structure OsSocket where
  created : ℕ := 0
  closed : ℕ → Bool := fun _ => false
  tcpConnections : List ℕ := []
  line : LoopLine := .outside

namespace OsSocket

/-- `TcpConnection::close`. -/
def close (b : OsSocket) (c : ℕ) : OsSocket := { b with closed := Function.update b.closed c true }

/-- `TcpConnection::connect`, where the connection is made. -/
def connect (b : OsSocket) : OsSocket :=
  { b with created := b.created + 1, tcpConnections := b.tcpConnections ++ [b.created] }

def goto (b : OsSocket) (line : LoopLine) : OsSocket := { b with line := line }

/-- The end of a round: the table without what was removed. -/
def finish (b : OsSocket) (kept : List ℕ) : OsSocket := { b with tcpConnections := kept, line := .outside }

end OsSocket

inductive SocketEvent where
  | connect
  | close (c : ℕ)
  | selected
  | handleRead (c : ℕ)
  | dataCallback (c : ℕ) (data : Bytes)
  | readFailed (c : ℕ)
  | readDone (c : ℕ)
  | unread (c : ℕ)
  | readsDone
  | errorCallback (c : ℕ)
  | passed (c : ℕ)
  | reportsDone
  | kept (c : ℕ)
  | erased (c : ℕ)
  | finished
  deriving DecidableEq

/-- The steps of the loop, and those of the other threads. `_handleRead` hands on what is in its buffer without
another look at the connection. -/
inductive OsSocketStep (b : OsSocket) : SocketEvent → OsSocket → Prop where
  | connect (h : b.line = .outside) : OsSocketStep b .connect b.connect
  | close {c : ℕ} (h : c < b.created) : OsSocketStep b (.close c) (b.close c)
  | selected (h : b.line = .outside) : OsSocketStep b .selected (b.goto (.reading b.tcpConnections))
  | handleRead {c : ℕ} {rest : List ℕ} (h : b.line = .reading (c :: rest)) (ho : b.closed c = false) :
      OsSocketStep b (.handleRead c) (b.goto (.handling c rest))
  | unread {c : ℕ} {rest : List ℕ} (h : b.line = .reading (c :: rest)) :
      OsSocketStep b (.unread c) (b.goto (.reading rest))
  | dataCallback {c : ℕ} {rest : List ℕ} (h : b.line = .handling c rest) (data : Bytes) :
      OsSocketStep b (.dataCallback c data) b
  | readFailed {c : ℕ} {rest : List ℕ} (h : b.line = .handling c rest) :
      OsSocketStep b (.readFailed c) ((b.close c).goto (.reading rest))
  | readDone {c : ℕ} {rest : List ℕ} (h : b.line = .handling c rest) :
      OsSocketStep b (.readDone c) (b.goto (.reading rest))
  | readsDone (h : b.line = .reading []) : OsSocketStep b .readsDone (b.goto (.reporting b.tcpConnections))
  | errorCallback {c : ℕ} {rest : List ℕ} (h : b.line = .reporting (c :: rest)) (hc : b.closed c = true) :
      OsSocketStep b (.errorCallback c) (b.goto (.reporting rest))
  | passed {c : ℕ} {rest : List ℕ} (h : b.line = .reporting (c :: rest)) (ho : b.closed c = false) :
      OsSocketStep b (.passed c) (b.goto (.reporting rest))
  | reportsDone (h : b.line = .reporting []) : OsSocketStep b .reportsDone (b.goto (.removing [] b.tcpConnections))
  | kept {c : ℕ} {done rest : List ℕ} (h : b.line = .removing done (c :: rest)) (ho : b.closed c = false) :
      OsSocketStep b (.kept c) (b.goto (.removing (done ++ [c]) rest))
  | erased {c : ℕ} {done rest : List ℕ} (h : b.line = .removing done (c :: rest)) (hc : b.closed c = true) :
      OsSocketStep b (.erased c) (b.goto (.removing done rest))
  | finished {done : List ℕ} (h : b.line = .removing done []) : OsSocketStep b .finished (b.finish done)

namespace SocketEvent

/-- The event closes the connection. -/
def Closes (c : ℕ) (e : SocketEvent) : Prop := e = .close c ∨ e = .readFailed c

end SocketEvent

namespace OsSocket

@[simp] theorem goto_line (b : OsSocket) (line : LoopLine) : (b.goto line).line = line := rfl
@[simp] theorem goto_tcpConnections (b : OsSocket) (line : LoopLine) : (b.goto line).tcpConnections = b.tcpConnections := rfl
@[simp] theorem goto_created (b : OsSocket) (line : LoopLine) : (b.goto line).created = b.created := rfl
@[simp] theorem goto_closed (b : OsSocket) (line : LoopLine) : (b.goto line).closed = b.closed := rfl
@[simp] theorem close_line (b : OsSocket) (c : ℕ) : (b.close c).line = b.line := rfl
@[simp] theorem close_tcpConnections (b : OsSocket) (c : ℕ) : (b.close c).tcpConnections = b.tcpConnections := rfl
@[simp] theorem close_created (b : OsSocket) (c : ℕ) : (b.close c).created = b.created := rfl
@[simp] theorem connect_line (b : OsSocket) : b.connect.line = b.line := rfl
@[simp] theorem connect_tcpConnections (b : OsSocket) : b.connect.tcpConnections = b.tcpConnections ++ [b.created] := rfl
@[simp] theorem connect_created (b : OsSocket) : b.connect.created = b.created + 1 := rfl
@[simp] theorem connect_closed (b : OsSocket) : b.connect.closed = b.closed := rfl
@[simp] theorem finish_line (b : OsSocket) (kept : List ℕ) : (b.finish kept).line = .outside := rfl
@[simp] theorem finish_tcpConnections (b : OsSocket) (kept : List ℕ) : (b.finish kept).tcpConnections = kept := rfl
@[simp] theorem finish_created (b : OsSocket) (kept : List ℕ) : (b.finish kept).created = b.created := rfl
@[simp] theorem finish_closed (b : OsSocket) (kept : List ℕ) : (b.finish kept).closed = b.closed := rfl

@[simp] theorem close_closed (b : OsSocket) (c d : ℕ) : (b.close d).closed c = true ↔ b.closed c = true ∨ d = c := by
  by_cases hd : c = d
  · subst hd
    simp [close]
  · simp [close, Function.update_of_ne hd, Ne.symm hd]

/-! ## The table -/

/-- The loops go over the table, which names a connection once. -/
structure Tabled (b : OsSocket) : Prop where
  nodup : b.tcpConnections.Nodup
  created : ∀ c ∈ b.tcpConnections, c < b.created
  ahead : b.line.ahead.Sublist b.tcpConnections

theorem tabled_empty : Tabled {} := ⟨List.nodup_nil, List.forall_mem_nil _, List.Sublist.refl _⟩

section Table
variable {b b' : OsSocket} {e : SocketEvent} {c : ℕ} {rest : List ℕ}

/-- A connection that a loop comes to is in the table, and not in the rest. -/
theorem Tabled.head (h : Tabled b) (hl : b.line.ahead = c :: rest) : c ∈ b.tcpConnections ∧ c ∉ rest := by
  have hsub := h.ahead
  rw [hl] at hsub
  exact ⟨hsub.subset (List.mem_cons_self ..), (List.nodup_cons.mp (h.nodup.sublist hsub)).1⟩

/-- The loop goes on, with less before it. -/
theorem Tabled.goto (h : Tabled b) {line : LoopLine} (hl : line.ahead.Sublist b.tcpConnections) :
    Tabled (b.goto line) := ⟨h.nodup, h.created, hl⟩

theorem Tabled.tail (h : Tabled b) (hl : b.line.ahead = c :: rest) : rest.Sublist b.tcpConnections := by
  have hsub := h.ahead
  rw [hl] at hsub
  exact (List.sublist_cons_self c rest).trans hsub

theorem Tabled.step (h : Tabled b) (hstep : OsSocketStep b e b') : Tabled b' := by
  have hahead := h.ahead
  cases hstep with
  | connect hl =>
    refine ⟨List.nodup_append.mpr ⟨h.nodup, List.nodup_singleton _, fun c hc d hd hcd => ?_⟩, fun c hc => ?_, ?_⟩
    · have hlt := h.created c hc
      rw [List.mem_singleton] at hd
      omega
    · rw [connect_tcpConnections, List.mem_append, List.mem_singleton] at hc
      rw [connect_created]
      rcases hc with hc | hc
      · have hlt := h.created c hc
        omega
      · omega
    · simp [hl, LoopLine.ahead]
  | close _ => exact ⟨h.nodup, h.created, h.ahead⟩
  | selected _ => exact h.goto (List.Sublist.refl _)
  | handleRead hl _ =>
    simp only [hl, LoopLine.ahead] at hahead
    exact h.goto hahead
  | unread hl => exact h.goto (h.tail (congrArg LoopLine.ahead hl))
  | dataCallback _ _ => exact h
  | @readFailed c rest hl =>
    have hclosed : Tabled (b.close c) := ⟨h.nodup, h.created, h.ahead⟩
    exact hclosed.goto (h.tail (congrArg LoopLine.ahead hl))
  | readDone hl => exact h.goto (h.tail (congrArg LoopLine.ahead hl))
  | readsDone _ => exact h.goto (List.Sublist.refl _)
  | errorCallback hl _ => exact h.goto (h.tail (congrArg LoopLine.ahead hl))
  | passed hl _ => exact h.goto (h.tail (congrArg LoopLine.ahead hl))
  | reportsDone _ => exact h.goto (List.Sublist.refl _)
  | kept hl _ =>
    simp only [hl, LoopLine.ahead] at hahead
    refine h.goto ?_
    simpa [LoopLine.ahead] using hahead
  | @erased c done rest hl _ =>
    simp only [hl, LoopLine.ahead] at hahead
    exact h.goto (((List.sublist_cons_self c rest).append_left done).trans hahead)
  | @finished done hl =>
    simp only [hl, LoopLine.ahead, List.append_nil] at hahead
    exact ⟨h.nodup.sublist hahead, fun c hc => h.created c (hahead.subset hc), List.nil_sublist _⟩

/-- What is closed stays closed. -/
theorem closed_step (hstep : OsSocketStep b e b') (c : ℕ) :
    b'.closed c = true ↔ b.closed c = true ∨ e.Closes c := by
  cases hstep <;> simp [SocketEvent.Closes]

end Table

/-! ## What the owner of a connection is told -/

/-- The error callback of the connection is still to come, if it is closed by then. -/
def IsDue (b : OsSocket) (c : ℕ) : Prop :=
  match b.line with
  | .outside | .reading _ | .handling _ _ => c ∈ b.tcpConnections
  | .reporting rest => c ∈ rest
  | .removing kept _ => c ∈ kept

/-- The connection is in the table, and was not removed in this round. -/
def IsThere (b : OsSocket) (c : ℕ) : Prop :=
  match b.line with
  | .outside | .reading _ | .handling _ _ | .reporting _ => c ∈ b.tcpConnections
  | .removing kept rest => c ∈ kept ++ rest

/-- The round did not come to look at the connection yet. -/
def IsUnseen (b : OsSocket) (c : ℕ) : Prop :=
  match b.line with
  | .reading _ | .handling _ _ => True
  | .reporting rest => c ∈ rest
  | .outside | .removing _ _ => False

/-- The round looked at the connection. -/
def IsSeen (b : OsSocket) (c : ℕ) : Prop :=
  match b.line with
  | .reporting rest => c ∈ b.tcpConnections ∧ c ∉ rest
  | .removing _ _ => c ∈ b.tcpConnections
  | .outside | .reading _ | .handling _ _ => False

end OsSocket

/-! ## Rounds -/

/-- The event is one of this round, and `Q` holds of what came before it. -/
def InRound (e : SocketEvent) (Q : List SocketEvent → Prop) (past : List SocketEvent) : Prop :=
  ∃ pre post, past = pre ++ e :: post ∧ .selected ∉ post ∧ Q pre

theorem inRound_append (e : SocketEvent) (Q : List SocketEvent → Prop) (past : List SocketEvent) (last : SocketEvent) :
    InRound e Q (past ++ [last]) ↔ (last = e ∧ Q past) ∨ (InRound e Q past ∧ last ≠ .selected) := by
  constructor
  · rintro ⟨pre, post, he, hno, hq⟩
    cases post using List.reverseRecOn with
    | nil =>
      obtain ⟨rfl, hlast⟩ := List.append_inj' he rfl
      exact Or.inl ⟨List.singleton_inj.mp hlast, hq⟩
    | append_singleton post x =>
      rw [← List.cons_append, ← List.append_assoc] at he
      obtain ⟨hpast, hlast⟩ := List.append_inj' he rfl
      cases hlast
      rw [List.mem_append, not_or, List.mem_singleton] at hno
      exact Or.inr ⟨⟨pre, post, hpast, hno.1, hq⟩, fun h => hno.2 h.symm⟩
  · rintro (⟨rfl, hq⟩ | ⟨⟨pre, post, rfl, hno, hq⟩, hne⟩)
    · exact ⟨past, [], rfl, List.not_mem_nil, hq⟩
    · refine ⟨pre, post ++ [last], by rw [List.append_assoc, List.cons_append], ?_, hq⟩
      rw [List.mem_append, not_or, List.mem_singleton]
      exact ⟨hno, fun h => hne h.symm⟩

/-- `close` was called for the connection. -/
def WasClosed (c : ℕ) (past : List SocketEvent) : Prop := ∃ e ∈ past, e.Closes c

/-- The loop looked at the connection in this round, and it was open. -/
def PassedNow (c : ℕ) : List SocketEvent → Prop := InRound (.passed c) fun _ => True

/-- The connection was closed when the loop was done with reading in this round. -/
def ClosedInTime (c : ℕ) : List SocketEvent → Prop := InRound .readsDone (WasClosed c)

theorem wasClosed_append (c : ℕ) (past : List SocketEvent) (e : SocketEvent) :
    WasClosed c (past ++ [e]) ↔ WasClosed c past ∨ e.Closes c := by
  simp [WasClosed, or_and_right, exists_or]

theorem passedNow_append (c : ℕ) (past : List SocketEvent) (e : SocketEvent) :
    PassedNow c (past ++ [e]) ↔ e = .passed c ∨ (PassedNow c past ∧ e ≠ .selected) := by
  simp [PassedNow, inRound_append]

theorem closedInTime_append (c : ℕ) (past : List SocketEvent) (e : SocketEvent) :
    ClosedInTime c (past ++ [e]) ↔ (e = .readsDone ∧ WasClosed c past) ∨ (ClosedInTime c past ∧ e ≠ .selected) :=
  inRound_append _ _ _ _

theorem told_append (c : ℕ) (past : List SocketEvent) (e : SocketEvent) :
    .errorCallback c ∈ past ++ [e] ↔ .errorCallback c ∈ past ∨ e = .errorCallback c := by
  rw [List.mem_append, List.mem_singleton, eq_comm (a := e)]

/-- What the past of a connection comes to. -/
structure Watched (c : ℕ) (past : List SocketEvent) (b : OsSocket) : Prop where
  tabled : b.Tabled
  closed : b.closed c = true ↔ WasClosed c past
  created : b.closed c = true → c < b.created
  told : .errorCallback c ∈ past → b.closed c = true ∧ ¬ b.IsDue c
  passed : PassedNow c past → .errorCallback c ∉ past
  erased : .erased c ∈ past → b.closed c = true ∧ ¬ b.IsThere c
  unseen : b.IsUnseen c → ¬ PassedNow c past
  seen : b.IsSeen c → .errorCallback c ∈ past ∨ PassedNow c past
  inTime : ClosedInTime c past → b.closed c = true ∧ ¬ PassedNow c past
  kept : ∀ done rest, b.line = .removing done rest → c ∈ done → ¬ ClosedInTime c past

namespace Watched
variable {c : ℕ} {past : List SocketEvent} {b b' : OsSocket} {e : SocketEvent}

theorem start (c : ℕ) : Watched c [] {} where
  tabled := OsSocket.tabled_empty
  closed := by simp [WasClosed]
  created h := by cases h
  told h := by cases h
  passed _ h := by cases h
  erased h := by cases h
  unseen h := h.elim
  seen h := h.elim
  inTime := by
    rintro ⟨pre, post, h, -⟩
    exact absurd h.symm (List.append_ne_nil_of_right_ne_nil pre (List.cons_ne_nil _ post))
  kept _ _ h := by cases h

/-- What is due after a step was due before it, unless it is open. -/
theorem isDue_step (h : Watched c past b) (hstep : OsSocketStep b e b') (hdue : b'.IsDue c) :
    (b.IsDue c ∧ e ≠ .errorCallback c) ∨ b.closed c = false := by
  cases hstep with
  | connect hl =>
    simp only [OsSocket.IsDue, OsSocket.connect_line, hl, OsSocket.connect_tcpConnections, List.mem_append,
      List.mem_singleton] at hdue ⊢
    rcases hdue with hdue | hdue
    · exact Or.inl ⟨hdue, by simp⟩
    · cases hclosed : b.closed c with
      | true =>
        have hlt := h.created hclosed
        omega
      | false => exact Or.inr rfl
  | close _ => exact Or.inl ⟨hdue, by simp⟩
  | dataCallback _ _ => exact Or.inl ⟨hdue, by simp⟩
  | @errorCallback d rest hl _ =>
    have hin : c ∈ rest := hdue
    have hnot := (h.tabled.head (congrArg LoopLine.ahead hl)).2
    refine Or.inl ⟨?_, fun he => ?_⟩
    · simp only [OsSocket.IsDue, hl]
      exact List.mem_cons_of_mem _ hin
    · cases he
      exact hnot hin
  | @passed d rest hl _ =>
    have hin : c ∈ rest := hdue
    refine Or.inl ⟨?_, by simp⟩
    simp only [OsSocket.IsDue, hl]
    exact List.mem_cons_of_mem _ hin
  | @kept d done rest hl ho =>
    have hin : c ∈ done ++ [d] := hdue
    rw [List.mem_append, List.mem_singleton] at hin
    rcases hin with hin | rfl
    · refine Or.inl ⟨?_, by simp⟩
      simp only [OsSocket.IsDue, hl]
      exact hin
    · exact Or.inr ho
  | reportsDone _ => cases hdue
  | selected hl => simpa [OsSocket.IsDue, hl] using Or.inl hdue
  | handleRead hl _ => simpa [OsSocket.IsDue, hl] using Or.inl hdue
  | unread hl => simpa [OsSocket.IsDue, hl] using Or.inl hdue
  | readFailed hl => simpa [OsSocket.IsDue, hl] using Or.inl hdue
  | readDone hl => simpa [OsSocket.IsDue, hl] using Or.inl hdue
  | readsDone hl => simpa [OsSocket.IsDue, hl] using Or.inl hdue
  | erased hl _ => simpa [OsSocket.IsDue, hl] using Or.inl hdue
  | finished hl => simpa [OsSocket.IsDue, hl] using Or.inl hdue

/-- What is in the table after a step was there before it, unless it is open. -/
theorem isThere_step (h : Watched c past b) (hstep : OsSocketStep b e b') (hthere : b'.IsThere c) :
    (b.IsThere c ∧ e ≠ .erased c) ∨ b.closed c = false := by
  cases hstep with
  | connect hl =>
    simp only [OsSocket.IsThere, OsSocket.connect_line, hl, OsSocket.connect_tcpConnections, List.mem_append,
      List.mem_singleton] at hthere ⊢
    rcases hthere with hthere | hthere
    · exact Or.inl ⟨hthere, by simp⟩
    · cases hclosed : b.closed c with
      | true =>
        have hlt := h.created hclosed
        omega
      | false => exact Or.inr rfl
  | close _ => exact Or.inl ⟨hthere, by simp⟩
  | dataCallback _ _ => exact Or.inl ⟨hthere, by simp⟩
  | @erased d done rest hl _ =>
    have hin : c ∈ done ++ rest := hthere
    have hnodup : (done ++ d :: rest).Nodup := by
      have hsub := h.tabled.ahead
      rw [hl] at hsub
      exact h.tabled.nodup.sublist hsub
    refine Or.inl ⟨?_, fun he => ?_⟩
    · simp only [OsSocket.IsThere, hl]
      exact ((List.sublist_cons_self d rest).append_left done).subset hin
    · cases he
      exact (List.nodup_cons.mp (List.nodup_middle.mp hnodup)).1 hin
  | selected hl => simpa [OsSocket.IsThere, hl] using Or.inl hthere
  | handleRead hl _ => simpa [OsSocket.IsThere, hl] using Or.inl hthere
  | unread hl => simpa [OsSocket.IsThere, hl] using Or.inl hthere
  | readFailed hl => simpa [OsSocket.IsThere, hl] using Or.inl hthere
  | readDone hl => simpa [OsSocket.IsThere, hl] using Or.inl hthere
  | readsDone hl => simpa [OsSocket.IsThere, hl] using Or.inl hthere
  | errorCallback hl _ => simpa [OsSocket.IsThere, hl] using Or.inl hthere
  | passed hl _ => simpa [OsSocket.IsThere, hl] using Or.inl hthere
  | reportsDone hl => simpa [OsSocket.IsThere, hl] using Or.inl hthere
  | kept hl _ => simpa [OsSocket.IsThere, hl] using Or.inl hthere
  | finished hl => simpa [OsSocket.IsThere, hl] using Or.inl hthere

theorem erased_step (hstep : OsSocketStep b (.erased c) b') : b.closed c = true := by
  cases hstep with
  | erased _ hc => exact hc

/-- The error callback runs of a closed connection that is due, and was not passed in this round. -/
theorem errorCallback (h : Watched c past b) (hstep : OsSocketStep b (.errorCallback c) b') :
    b.closed c = true ∧ .errorCallback c ∉ past ∧ ¬ PassedNow c past := by
  cases hstep with
  | @errorCallback _ rest hl hc =>
    have hdue : b.IsDue c := by simp [OsSocket.IsDue, hl]
    exact ⟨hc, fun ht => (h.told ht).2 hdue, h.unseen (by simp [OsSocket.IsUnseen, hl])⟩

theorem passed_step (h : Watched c past b) (hstep : OsSocketStep b (.passed c) b') :
    b.closed c = false ∧ .errorCallback c ∉ past := by
  cases hstep with
  | passed hl ho =>
    refine ⟨ho, fun ht => ?_⟩
    have hclosed := (h.told ht).1
    simp [ho] at hclosed

theorem unseen_step (h : Watched c past b) (hstep : OsSocketStep b e b') (hu : b'.IsUnseen c) :
    e = .selected ∨ (b.IsUnseen c ∧ e ≠ .passed c) := by
  cases hstep with
  | selected _ => exact Or.inl rfl
  | connect hl => simp [OsSocket.IsUnseen, hl] at hu
  | close _ => exact Or.inr ⟨hu, by simp⟩
  | dataCallback _ _ => exact Or.inr ⟨hu, by simp⟩
  | @errorCallback d rest hl _ =>
    have hin : c ∈ rest := hu
    refine Or.inr ⟨?_, by simp⟩
    simp only [OsSocket.IsUnseen, hl]
    exact List.mem_cons_of_mem _ hin
  | @passed d rest hl _ =>
    have hin : c ∈ rest := hu
    have hnot := (h.tabled.head (congrArg LoopLine.ahead hl)).2
    refine Or.inr ⟨?_, fun he => ?_⟩
    · simp only [OsSocket.IsUnseen, hl]
      exact List.mem_cons_of_mem _ hin
    · cases he
      exact hnot hin
  | handleRead hl _ => simp [OsSocket.IsUnseen, hl]
  | unread hl => simp [OsSocket.IsUnseen, hl]
  | readFailed hl => simp [OsSocket.IsUnseen, hl]
  | readDone hl => simp [OsSocket.IsUnseen, hl]
  | readsDone hl => simp [OsSocket.IsUnseen, hl]
  | reportsDone _ => cases hu
  | kept _ _ => cases hu
  | erased _ _ => cases hu
  | finished _ => cases hu

theorem seen_step (hstep : OsSocketStep b e b') (hs : b'.IsSeen c) :
    (b.IsSeen c ∧ e ≠ .selected) ∨ e = .errorCallback c ∨ e = .passed c := by
  cases hstep with
  | selected _ => cases hs
  | connect hl => simp [OsSocket.IsSeen, hl] at hs
  | close _ => exact Or.inl ⟨hs, by simp⟩
  | dataCallback _ _ => exact Or.inl ⟨hs, by simp⟩
  | @errorCallback d rest hl _ =>
    have hin : c ∈ b.tcpConnections ∧ c ∉ rest := hs
    by_cases hc : c = d
    · exact Or.inr (Or.inl (by rw [hc]))
    · refine Or.inl ⟨?_, by simp⟩
      simp [OsSocket.IsSeen, hl, hc, hin]
  | @passed d rest hl _ =>
    have hin : c ∈ b.tcpConnections ∧ c ∉ rest := hs
    by_cases hc : c = d
    · exact Or.inr (Or.inr (by rw [hc]))
    · refine Or.inl ⟨?_, by simp⟩
      simp [OsSocket.IsSeen, hl, hc, hin]
  | handleRead _ _ => cases hs
  | unread _ => cases hs
  | readFailed _ => cases hs
  | readDone _ => cases hs
  | readsDone _ => exact absurd hs.1 hs.2
  | reportsDone hl =>
    have hin : c ∈ b.tcpConnections := hs
    simp [OsSocket.IsSeen, hl, hin]
  | kept hl _ =>
    have hin : c ∈ b.tcpConnections := hs
    simp [OsSocket.IsSeen, hl, hin]
  | erased hl _ =>
    have hin : c ∈ b.tcpConnections := hs
    simp [OsSocket.IsSeen, hl, hin]
  | finished _ => cases hs

theorem kept_step (h : Watched c past b) (hstep : OsSocketStep b e b') {done rest : List ℕ}
    (hl : b'.line = .removing done rest) (hin : c ∈ done) : ¬ ClosedInTime c past ∧ e ≠ .readsDone := by
  cases hstep with
  | close _ => exact ⟨h.kept done rest hl hin, by simp⟩
  | @kept d done' rest' hl' ho =>
    cases hl
    rw [List.mem_append, List.mem_singleton] at hin
    refine ⟨?_, by simp⟩
    rcases hin with hin | rfl
    · exact h.kept done' _ hl' hin
    · intro htime
      have hclosed := (h.inTime htime).1
      simp [ho] at hclosed
  | @erased d done' rest' hl' _ =>
    cases hl
    exact ⟨h.kept done _ hl' hin, by simp⟩
  | reportsDone _ =>
    cases hl
    cases hin
  | connect hl' => simp [hl'] at hl
  | dataCallback hl' _ => simp [hl'] at hl
  | selected _ => cases hl
  | handleRead _ _ => cases hl
  | unread _ => cases hl
  | readFailed _ => cases hl
  | readDone _ => cases hl
  | readsDone _ => cases hl
  | errorCallback _ _ => cases hl
  | passed _ _ => cases hl
  | finished _ => cases hl

theorem readsDone_step (h : Watched c past b) (hstep : OsSocketStep b .readsDone b') : ¬ PassedNow c past := by
  cases hstep with
  | readsDone hl => exact h.unseen (by simp [OsSocket.IsUnseen, hl])

theorem created_step (hstep : OsSocketStep b e b') : b.created ≤ b'.created := by
  cases hstep <;> simp

theorem closes_created (h : Watched c past b) (hstep : OsSocketStep b e b') (he : e.Closes c) : c < b.created := by
  cases hstep with
  | close hlt =>
    simp only [SocketEvent.Closes, SocketEvent.close.injEq, reduceCtorEq, or_false] at he
    exact he ▸ hlt
  | readFailed hl =>
    simp only [SocketEvent.Closes, SocketEvent.readFailed.injEq, reduceCtorEq, false_or] at he
    exact he ▸ h.tabled.created _ (h.tabled.head (congrArg LoopLine.ahead hl)).1
  | _ => simp [SocketEvent.Closes] at he

/-- **One step** of the loop or of another thread. -/
theorem step (h : Watched c past b) (hstep : OsSocketStep b e b') : Watched c (past ++ [e]) b' where
  tabled := h.tabled.step hstep
  closed := by rw [OsSocket.closed_step hstep, wasClosed_append, h.closed]
  created hclosed := by
    have hle := created_step hstep
    rcases (OsSocket.closed_step hstep c).mp hclosed with hclosed | he
    · have hlt := h.created hclosed
      omega
    · have hlt := h.closes_created hstep he
      omega
  told ht := by
    rw [told_append] at ht
    have hclosed : b.closed c = true := by
      rcases ht with ht | rfl
      · exact (h.told ht).1
      · exact (h.errorCallback hstep).1
    refine ⟨(OsSocket.closed_step hstep c).mpr (Or.inl hclosed), fun hdue => ?_⟩
    rcases h.isDue_step hstep hdue with ⟨hdue, hne⟩ | hopen
    · rcases ht with ht | he
      · exact (h.told ht).2 hdue
      · exact hne he
    · simp [hclosed] at hopen
  passed hp ht := by
    rw [passedNow_append] at hp
    rw [told_append] at ht
    rcases hp with rfl | ⟨hp, -⟩
    · rcases ht with ht | he
      · exact (h.passed_step hstep).2 ht
      · cases he
    · rcases ht with ht | rfl
      · exact h.passed hp ht
      · exact (h.errorCallback hstep).2.2 hp
  erased he := by
    rw [List.mem_append, List.mem_singleton] at he
    have hclosed : b.closed c = true := by
      rcases he with he | rfl
      · exact (h.erased he).1
      · exact erased_step hstep
    refine ⟨(OsSocket.closed_step hstep c).mpr (Or.inl hclosed), fun hthere => ?_⟩
    rcases h.isThere_step hstep hthere with ⟨hthere, hne⟩ | hopen
    · rcases he with he | he
      · exact (h.erased he).2 hthere
      · exact hne he.symm
    · simp [hclosed] at hopen
  unseen hu hp := by
    rw [passedNow_append] at hp
    rcases h.unseen_step hstep hu with rfl | ⟨hu, hne⟩
    · simp at hp
    · rcases hp with he | ⟨hp, -⟩
      · exact hne he
      · exact h.unseen hu hp
  seen hs := by
    rw [told_append, passedNow_append]
    rcases seen_step hstep hs with ⟨hs, hne⟩ | he | he
    · rcases h.seen hs with ht | hp
      · exact Or.inl (Or.inl ht)
      · exact Or.inr (Or.inr ⟨hp, hne⟩)
    · exact Or.inl (Or.inr he)
    · exact Or.inr (Or.inl he)
  inTime ht := by
    rw [passedNow_append]
    rw [closedInTime_append] at ht
    have hbefore : b.closed c = true ∧ ¬ PassedNow c past := by
      rcases ht with ⟨rfl, hclosed⟩ | ⟨ht, -⟩
      · exact ⟨h.closed.mpr hclosed, h.readsDone_step hstep⟩
      · exact h.inTime ht
    refine ⟨(OsSocket.closed_step hstep c).mpr (Or.inl hbefore.1), ?_⟩
    rintro (rfl | ⟨hp, -⟩)
    · have hopen := (h.passed_step hstep).1
      simp [hbefore.1] at hopen
    · exact hbefore.2 hp
  kept done rest hl hin ht := by
    obtain ⟨hnot, hne⟩ := h.kept_step hstep hl hin
    rw [closedInTime_append] at ht
    rcases ht with ⟨he, -⟩ | ⟨ht, -⟩
    · exact hne he
    · exact hnot ht

end Watched

/-! ## What the owner is told -/

/-- What a step means to the owner of a connection, after the steps in `past`. -/
structure TellsOwner (c : ℕ) (past : List SocketEvent) (b : OsSocket) (e : SocketEvent) (b' : OsSocket) : Prop where
  data : ∀ d, e = .dataCallback c d → .errorCallback c ∉ past ∧ .erased c ∉ past
  error : e = .errorCallback c → WasClosed c past ∧ .errorCallback c ∉ past ∧ .erased c ∉ past
  erased : e = .erased c → (.errorCallback c ∈ past ↔ ¬ PassedNow c past)
  finished : e = .finished → c ∈ b.tcpConnections → ClosedInTime c past →
    .errorCallback c ∈ past ∧ c ∉ b'.tcpConnections

theorem Watched.tells {c : ℕ} {past : List SocketEvent} {b b' : OsSocket} {e : SocketEvent} (h : Watched c past b)
    (hstep : OsSocketStep b e b') : TellsOwner c past b e b' where
  data d he := by
    subst he
    cases hstep with
    | dataCallback hl _ =>
      have hin := (h.tabled.head (congrArg LoopLine.ahead hl)).1
      have hdue : b.IsDue c := by simpa [OsSocket.IsDue, hl] using hin
      have hthere : b.IsThere c := by simpa [OsSocket.IsThere, hl] using hin
      exact ⟨fun ht => (h.told ht).2 hdue, fun hg => (h.erased hg).2 hthere⟩
  error he := by
    subst he
    obtain ⟨hclosed, hnot, -⟩ := h.errorCallback hstep
    refine ⟨h.closed.mp hclosed, hnot, fun hg => ?_⟩
    cases hstep with
    | errorCallback hl _ =>
      have hthere : b.IsThere c := by simpa [OsSocket.IsThere, hl] using (h.tabled.head (congrArg LoopLine.ahead hl)).1
      exact (h.erased hg).2 hthere
  erased he := by
    subst he
    cases hstep with
    | @erased _ done rest hl _ =>
      have hin : c ∈ b.line.ahead := by simp [hl, LoopLine.ahead]
      have hseen : b.IsSeen c := by simpa [OsSocket.IsSeen, hl] using h.tabled.ahead.subset hin
      constructor
      · exact fun ht hp => h.passed hp ht
      · exact fun hnot => (h.seen hseen).resolve_right hnot
  finished he hin ht := by
    subst he
    cases hstep with
    | @finished done hl =>
      have hseen : b.IsSeen c := by simpa [OsSocket.IsSeen, hl] using hin
      refine ⟨(h.seen hseen).resolve_right (h.inTime ht).2, fun hkept => ?_⟩
      exact h.kept done [] hl hkept ht

/-- **Owners are told once, and in time.** In any run of the loop and the other threads, the error callback of a
connection runs once at most, after it was closed, and no data of the connection is handed on behind it. A connection
that is closed when the loop is done with reading is told and removed by the end of the round. One that is removed was
told, except where it was closed after the loop had passed it in the same round: its owner is never told. -/
theorem connections_told {tr : List (SocketEvent × OsSocket)} (hr : IsRun OsSocketStep {} tr) (c : ℕ)
    {pre post : List (SocketEvent × OsSocket)} {e : SocketEvent} {b' : OsSocket} (he : tr = pre ++ (e, b') :: post) :
    TellsOwner c (pre.map Prod.fst) (last {} pre) e b' := by
  subst he
  have hsplit := (isRun_append _ _ _).mp hr
  have hwatched : Watched c ([] ++ pre.map Prod.fst) (last {} pre) :=
    hr.history (I := Watched c) (G := fun _ _ _ => True) (Watched.start c) (fun _ _ _ _ h _ hstep => h.step hstep)
      (fun _ _ => trivial) pre _ rfl
  rw [List.nil_append] at hwatched
  exact hwatched.tells hsplit.2.1

/-! ## A connection that is closed behind the look -/

/-- A round that has passed the only connection. -/
def passedOnly : OsSocket := ((({} : OsSocket).connect.goto (.reading [])).goto (.reporting [])).close 0

/-- The loop passes the only connection, which another thread closes before the loop comes to remove. -/
def lateClose : List (SocketEvent × OsSocket) :=
  [(.connect, ({} : OsSocket).connect), (.selected, ({} : OsSocket).connect.goto (.reading [0])),
    (.unread 0, ({} : OsSocket).connect.goto (.reading [])), (.readsDone, ({} : OsSocket).connect.goto (.reporting [0])),
    (.passed 0, ({} : OsSocket).connect.goto (.reporting [])), (.close 0, passedOnly),
    (.reportsDone, passedOnly.goto (.removing [] [0]))]

theorem isRun_lateClose : IsRun OsSocketStep {} (lateClose ++ [(.erased 0, passedOnly.goto (.removing [] []))]) := by
  refine ⟨.connect rfl, .selected rfl, .unread rfl, .readsDone rfl, .passed rfl rfl, .close Nat.zero_lt_one,
    .reportsDone rfl, .erased rfl ?_, trivial⟩
  simp [passedOnly]

theorem connections_told_late_close :
    .errorCallback 0 ∉ lateClose.map Prod.fst ∧
      TellsOwner 0 (lateClose.map Prod.fst) (last {} lateClose) (.erased 0) (passedOnly.goto (.removing [] [])) :=
  ⟨by simp [lateClose], connections_told isRun_lateClose 0 rfl⟩

end Husarnet
