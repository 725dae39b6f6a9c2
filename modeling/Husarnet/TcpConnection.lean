import Husarnet.StringView
import Husarnet.Lib.Framing

/-! # TCP connections

`_handleRead` takes what `recv` has, up to the room in the read buffer. An encapsulated connection
takes the packets off the buffer and keeps the rest for the next read, a raw one hands the buffer
to the data callback as it is. What the socket has to give is kept with the connection, and the
state of the data callback too.
-/

namespace Husarnet
open Octets Framing
set_option autoImplicit false

def TCP_READ_BUFFER : ℕ := 2000

def TLS_HEADER : Bytes := [0x17, 0x03, 0x03]

inductive Encapsulation where
  | NONE
  | FRAMED_TLS_MASKED
  deriving DecidableEq

/-- Bytes that arrived together, or a packet: never none. -/
abbrev Segment := {data : Bytes // data ≠ []}

namespace TcpConnection

/-! ## Writing -/

/-- The bytes of a packet on the wire. The length field has two bytes. -/
def encapsulate (encapsulation : Encapsulation) (packet : Bytes) : Bytes :=
  match encapsulation with
  | .NONE => packet
  | .FRAMED_TLS_MASKED => TLS_HEADER ++ pack16 (UInt16.ofNat packet.length) ++ packet

/-- The loop around `send`, which takes some of the bytes each time and none when it fails: the
bytes that went out, and whether they are all. -/
def sendAll (packet : Bytes) : List ℕ → Bytes × Bool
  | [] => ([], false)
  | taken :: later =>
    let n := min taken packet.length
    if n = 0 then ([], false)
    else if n = packet.length then (packet, true)
    else
      let (sent, ok) := sendAll (packet.drop n) later
      (packet.take n ++ sent, ok)

/-- `write` on an open connection. That there is a packet is asserted. -/
def write (encapsulation : Encapsulation) (packet : Segment) (sends : List ℕ) : Bytes × Bool :=
  sendAll (encapsulate encapsulation packet) sends

theorem sendAll_ok (packet : Bytes) (sends : List ℕ) (h : (sendAll packet sends).2 = true) :
    (sendAll packet sends).1 = packet := by
  induction sends generalizing packet with
  | nil => cases h
  | cons taken later ih =>
    rw [sendAll] at h ⊢
    dsimp only at h ⊢
    split at h
    · cases h
    · rename_i hpos
      rw [if_neg hpos]
      split at h
      · rename_i hall
        rw [if_pos hall]
      · rename_i hsome
        rw [if_neg hsome]
        dsimp only
        rw [ih _ h, List.take_append_drop]

/-- A write that returns true put the packet on the wire. -/
theorem write_ok {encapsulation : Encapsulation} {packet : Segment} {sends : List ℕ}
    (h : (write encapsulation packet sends).2 = true) :
    (write encapsulation packet sends).1 = encapsulate encapsulation packet := sendAll_ok _ _ h

/-! ## Packets in the read buffer -/

inductive ReadExit where
  | returned
  | closed
  | incomplete
  deriving DecidableEq

/-- `unpack<uint16_t>` of the length field. -/
def expectedSize (buffer : Bytes) : ℕ := leNat (slice buffer 3 2)

/-- One turn of the loop over the packets in the read buffer. -/
def nextPacket (buffer : Bytes) : Front Bytes ReadExit :=
  if buffer.length ≤ 5 then .stop .returned
  else if slice buffer 0 3 ≠ TLS_HEADER then .stop .closed
  else
    let packetLen := 5 + expectedSize buffer
    if TCP_READ_BUFFER ≤ packetLen then .stop .closed
    else if packetLen ≤ buffer.length then .packet (slice buffer 5 (expectedSize buffer)) packetLen
    else .stop .incomplete

/-- What the front of the read buffer is. -/
inductive NextPacket (buffer : Bytes) : Front Bytes ReadExit → Prop where
  | short (hlen : buffer.length ≤ 5) : NextPacket buffer (.stop .returned)
  | badHeader (hlen : 5 < buffer.length) (hheader : slice buffer 0 3 ≠ TLS_HEADER) : NextPacket buffer (.stop .closed)
  | tooLarge (hlen : 5 < buffer.length) (hheader : slice buffer 0 3 = TLS_HEADER)
      (hsize : TCP_READ_BUFFER ≤ 5 + expectedSize buffer) : NextPacket buffer (.stop .closed)
  | packet (hlen : 5 < buffer.length) (hheader : slice buffer 0 3 = TLS_HEADER)
      (hsize : 5 + expectedSize buffer < TCP_READ_BUFFER) (hfull : 5 + expectedSize buffer ≤ buffer.length) :
      NextPacket buffer (.packet (slice buffer 5 (expectedSize buffer)) (5 + expectedSize buffer))
  | incomplete (hlen : 5 < buffer.length) (hheader : slice buffer 0 3 = TLS_HEADER)
      (hsize : 5 + expectedSize buffer < TCP_READ_BUFFER) (hpart : buffer.length < 5 + expectedSize buffer) :
      NextPacket buffer (.stop .incomplete)

theorem nextPacket_cases (buffer : Bytes) : NextPacket buffer (nextPacket buffer) := by
  rw [nextPacket]
  by_cases hlen : buffer.length ≤ 5
  · rw [if_pos hlen]
    exact .short hlen
  · rw [if_neg hlen]
    have hlen := not_le.mp hlen
    by_cases hheader : slice buffer 0 3 = TLS_HEADER
    · rw [if_neg (not_not.mpr hheader)]
      by_cases hsize : TCP_READ_BUFFER ≤ 5 + expectedSize buffer
      · simp only [if_pos hsize]
        exact .tooLarge hlen hheader hsize
      · simp only [if_neg hsize]
        have hsize := not_le.mp hsize
        by_cases hfull : 5 + expectedSize buffer ≤ buffer.length
        · rw [if_pos hfull]
          exact .packet hlen hheader hsize hfull
        · rw [if_neg hfull]
          exact .incomplete hlen hheader hsize (not_le.mp hfull)
    · rw [if_pos hheader]
      exact .badHeader hlen hheader

theorem expectedSize_append {buffer : Bytes} (arrived : Bytes) (h : 5 < buffer.length) :
    expectedSize (buffer ++ arrived) = expectedSize buffer := by
  rw [expectedSize, expectedSize, slice_append_left buffer arrived (by omega)]

theorem header_append {buffer : Bytes} (arrived : Bytes) (h : 5 < buffer.length) :
    slice (buffer ++ arrived) 0 3 = slice buffer 0 3 := slice_append_left buffer arrived (by omega)

theorem nextPacket_append {buffer : Bytes} (arrived : Bytes) (h : 5 < buffer.length)
    (hnext : nextPacket buffer ≠ .stop .incomplete) : nextPacket (buffer ++ arrived) = nextPacket buffer := by
  have hlong : ¬ (buffer ++ arrived).length ≤ 5 := by
    rw [List.length_append]
    omega
  rw [nextPacket, nextPacket, if_neg hlong, if_neg (not_le.mpr h), header_append arrived h, expectedSize_append arrived h]
  rw [nextPacket, if_neg (not_le.mpr h)] at hnext
  dsimp only at hnext ⊢
  by_cases hfull : 5 + expectedSize buffer ≤ buffer.length
  · have hlater : 5 + expectedSize buffer ≤ (buffer ++ arrived).length := by
      rw [List.length_append]
      omega
    rw [if_pos hfull, if_pos hlater, slice_append_left buffer arrived hfull]
  · rw [if_neg hfull] at hnext ⊢
    split
    · rfl
    · split
      · rfl
      · rename_i hheader hsize
        rw [if_neg hheader, if_neg hsize] at hnext
        exact absurd rfl hnext

/-- The packets of an encapsulated stream. -/
def packets : Framer UInt8 Bytes ReadExit where
  next := nextPacket
  final exit := exit == .closed
  size_pos := by
    intro s p n h
    have hcases := nextPacket_cases s
    rw [h] at hcases
    cases hcases
    exact Nat.lt_add_right _ (by decide)
  size_le := by
    intro s p n h
    have hcases := nextPacket_cases s
    rw [h] at hcases
    cases hcases with
    | packet _ _ _ hfull => exact hfull
  packet_stable := by
    intro s p n t h
    have hcases := nextPacket_cases s
    rw [h] at hcases
    cases hcases with
    | packet hlen _ _ _ =>
      rw [nextPacket_append t hlen (by rw [h]; nofun)]
      exact h
  final_stable := by
    intro s e t h he
    have hcases := nextPacket_cases s
    rw [h] at hcases
    cases hcases with
    | short _ => cases he
    | badHeader hlen _ =>
      rw [nextPacket_append t hlen (by rw [h]; nofun)]
      exact h
    | tooLarge hlen _ _ =>
      rw [nextPacket_append t hlen (by rw [h]; nofun)]
      exact h
    | incomplete _ _ _ _ => cases he

theorem nextPacket_rest (buffer : Bytes) :
    nextPacket (packets.drain buffer).rest = .stop (packets.drain buffer).exit := Framer.next_rest (F := packets) buffer

/-- What an open connection keeps has room behind it. -/
theorem rest_length_lt {buffer : Bytes} (h : (packets.drain buffer).exit ≠ .closed) :
    (packets.drain buffer).rest.length < TCP_READ_BUFFER := by
  have hcases := nextPacket_cases (packets.drain buffer).rest
  rw [nextPacket_rest] at hcases
  generalize (packets.drain buffer).exit = exit at h hcases
  cases hcases with
  | short hlen => exact lt_of_le_of_lt hlen (by decide)
  | badHeader => exact absurd rfl h
  | tooLarge => exact absurd rfl h
  | incomplete _ _ hsize hpart => exact hpart.trans hsize

/-! ## Reading -/

inductive Arrival where
  | bytes (data : Segment)
  | wouldBlock
  | failed
  deriving DecidableEq

inductive RecvResult (available : ℕ) where
  | data (bytes : Bytes) (fits : bytes.length ≤ available)
  | wouldBlock
  | failed

/-- `recv` with room for `available` bytes. What does not fit stays in the socket. -/
def recv (fd : Bool) (available : ℕ) (incoming : List Arrival) : RecvResult available × List Arrival :=
  if fd = false then (.failed, incoming)
  else match incoming with
    | [] => (.wouldBlock, [])
    | .wouldBlock :: later => (.wouldBlock, later)
    | .failed :: later => (.failed, later)
    | .bytes data :: later =>
      if h : data.1.length ≤ available then (.data data.1 h, later)
      else
        (.data (data.1.take available) (List.length_take_le ..),
          .bytes ⟨data.1.drop available, fun hnil => h (List.drop_eq_nil_iff.mp hnil)⟩ :: later)

end TcpConnection

/-- A connection, the state of its data callback and what its socket has. `fd` tells whether there
is a descriptor. -/
structure TcpConnection (α : Type) where
  encapsulation : Encapsulation
  fd : Bool
  readBuffer : Bytes
  fits : readBuffer.length ≤ TCP_READ_BUFFER
  callbackState : α
  incoming : List TcpConnection.Arrival

namespace TcpConnection

variable {α : Type}

def connect (encapsulation : Encapsulation) (callbackState : α) (incoming : List Arrival) : TcpConnection α where
  encapsulation := encapsulation
  fd := true
  readBuffer := []
  fits := Nat.zero_le _
  callbackState := callbackState
  incoming := incoming

def available (conn : TcpConnection α) : ℕ := TCP_READ_BUFFER - conn.readBuffer.length

def close (conn : TcpConnection α) : TcpConnection α := { conn with fd := false }

def keep (conn : TcpConnection α) (rest : Bytes) (h : rest.length ≤ conn.readBuffer.length) : TcpConnection α :=
  { conn with readBuffer := rest, fits := h.trans conn.fits }

/-- The data callback is called with `view`, and may close the connection. -/
def handOver (dataCallback : α → Bytes → α × Bool) (conn : TcpConnection α) (view : Bytes) : TcpConnection α :=
  let (callbackState, closes) := dataCallback conn.callbackState view
  { conn with callbackState := callbackState, fd := conn.fd && !closes }

/-- The first half of a turn: data is read behind what the buffer has, if there is room. The call
goes on or returns. -/
def receive (conn : TcpConnection α) : Bool × TcpConnection α :=
  if 0 < conn.available then
    match recv conn.fd conn.available conn.incoming with
    | (.data bytes h, later) =>
      (true, { conn with
        readBuffer := conn.readBuffer ++ bytes
        fits := by
          have hfits := conn.fits
          rw [available] at h
          rw [List.length_append]
          omega
        incoming := later })
    | (.wouldBlock, later) => (false, { conn with incoming := later })
    | (.failed, later) => (false, { conn.close with incoming := later })
  else (true, conn)

/-- The second half: the buffer goes to the data callback, as it is or packet by packet. -/
def handleBuffer (dataCallback : α → Bytes → α × Bool) (conn : TcpConnection α) : Bool × TcpConnection α :=
  match conn.encapsulation with
  | .NONE => (true, (conn.handOver dataCallback conn.readBuffer).keep [] (Nat.zero_le _))
  | .FRAMED_TLS_MASKED =>
    let drained := packets.drain conn.readBuffer
    let conn := drained.packets.foldl (handOver dataCallback) (conn.keep drained.rest (Framer.rest_length_le _))
    match drained.exit with
    | .returned => (false, conn)
    | .closed => (false, conn.close)
    | .incomplete => (true, conn)

def turn (dataCallback : α → Bytes → α × Bool) (conn : TcpConnection α) : Bool × TcpConnection α :=
  match conn.receive with
  | (true, conn) => conn.handleBuffer dataCallback
  | (false, conn) => (false, conn)

/-- The most `recv` calls that find something. -/
def Arrival.recvs : Arrival → ℕ
  | .bytes data => data.1.length
  | .wouldBlock => 1
  | .failed => 1

def recvs (incoming : List Arrival) : ℕ := (incoming.map Arrival.recvs).sum

def Arrival.content : Arrival → Bytes
  | .bytes data => data.1
  | .wouldBlock => []
  | .failed => []

/-- The byte stream that the results of `recv` cut. -/
def stream (incoming : List Arrival) : Bytes := incoming.flatMap Arrival.content

@[simp] theorem recvs_cons (a : Arrival) (later : List Arrival) : recvs (a :: later) = a.recvs + recvs later :=
  List.sum_cons

@[simp] theorem stream_cons (a : Arrival) (later : List Arrival) : stream (a :: later) = a.content ++ stream later :=
  List.flatMap_cons ..

/-- What the first half of a turn can do. -/
inductive Received (conn : TcpConnection α) : Bool × TcpConnection α → Prop where
  | full (hroom : conn.available = 0) : Received conn (true, conn)
  | data (bytes : Bytes) (later : List Arrival) (fits : (conn.readBuffer ++ bytes).length ≤ TCP_READ_BUFFER)
      (hopen : conn.fd = true) (hstream : stream conn.incoming = bytes ++ stream later)
      (hrecvs : recvs later + bytes.length ≤ recvs conn.incoming) (hpos : bytes ≠ [])
      (hfailed : Arrival.failed ∈ later → Arrival.failed ∈ conn.incoming) :
      Received conn (true, { conn with readBuffer := conn.readBuffer ++ bytes, fits := fits, incoming := later })
  | waits (later : List Arrival) (hopen : conn.fd = true) (hstream : stream conn.incoming = stream later)
      (hrecvs : recvs later < recvs conn.incoming ∨ conn.incoming = [] ∧ later = [])
      (hfailed : Arrival.failed ∈ later → Arrival.failed ∈ conn.incoming) :
      Received conn (false, { conn with incoming := later })
  | fails (later : List Arrival) (hfailed : conn.fd = false ∧ later = conn.incoming ∨
        Arrival.failed ∈ conn.incoming ∧ recvs later < recvs conn.incoming) :
      Received conn (false, { conn.close with incoming := later })

theorem receive_received (conn : TcpConnection α) : Received conn conn.receive := by
  rw [receive]
  by_cases hroom : 0 < conn.available
  · rw [if_pos hroom]
    unfold recv
    by_cases hfd : conn.fd = false
    · rw [if_pos hfd]
      exact .fails _ (Or.inl ⟨hfd, rfl⟩)
    · rw [if_neg hfd]
      have hopen := Bool.of_not_eq_false hfd
      cases hin : conn.incoming with
      | nil => exact .waits [] hopen (by rw [hin]) (Or.inr ⟨hin, rfl⟩) (by nofun)
      | cons a later =>
        cases a with
        | wouldBlock =>
          refine .waits later hopen (by rw [hin]; rfl) (Or.inl ?_) (fun h => by rw [hin]; exact List.mem_cons_of_mem _ h)
          rw [hin, recvs_cons, Arrival.recvs]
          omega
        | failed =>
          refine .fails later (Or.inr ⟨by rw [hin]; exact List.mem_cons_self .., ?_⟩)
          rw [hin, recvs_cons, Arrival.recvs]
          omega
        | bytes data =>
          have hall : recvs conn.incoming = data.1.length + recvs later := by rw [hin, recvs_cons, Arrival.recvs]
          have hcontent : stream conn.incoming = data.1 ++ stream later := by rw [hin, stream_cons, Arrival.content]
          dsimp only
          by_cases h : data.1.length ≤ conn.available
          · simp only [dif_pos h]
            refine .data data.1 later _ hopen hcontent ?_ data.2 fun hf => ?_
            · omega
            · rw [hin]
              exact List.mem_cons_of_mem _ hf
          · simp only [dif_neg h]
            refine .data _ _ _ hopen ?_ ?_ ?_ fun hf => ?_
            · rw [hcontent, stream_cons, Arrival.content, ← List.append_assoc, List.take_append_drop]
            · rw [hall, recvs_cons, Arrival.recvs, List.length_take, List.length_drop]
              omega
            · apply List.ne_nil_of_length_pos
              rw [List.length_take]
              omega
            · rw [hin]
              cases hf with
              | tail _ hf => exact List.mem_cons_of_mem _ hf
  · rw [if_neg hroom]
    exact .full (Nat.eq_zero_of_not_pos hroom)

theorem handOver_frame (dataCallback : α → Bytes → α × Bool) (conn : TcpConnection α) (views : List Bytes) :
    let conn' := views.foldl (handOver dataCallback) conn
    conn'.readBuffer = conn.readBuffer ∧ conn'.incoming = conn.incoming ∧ (conn.fd = false → conn'.fd = false) := by
  induction views generalizing conn with
  | nil => exact ⟨rfl, rfl, id⟩
  | cons view views ih =>
    obtain ⟨hbuffer, hincoming, hfd⟩ := ih (handOver dataCallback conn view)
    refine ⟨hbuffer, hincoming, fun h => hfd ?_⟩
    rw [handOver]
    dsimp only
    rw [h, Bool.false_and]

/-- The second half of a turn leaves the socket alone. -/
theorem handleBuffer_frame (dataCallback : α → Bytes → α × Bool) (conn : TcpConnection α) :
    let conn' := (conn.handleBuffer dataCallback).2
    conn'.incoming = conn.incoming ∧ (conn.fd = false → conn'.fd = false) := by
  dsimp only
  rw [handleBuffer]
  split
  · exact ⟨rfl, (handOver_frame dataCallback conn [conn.readBuffer]).2.2⟩
  · dsimp only
    obtain ⟨-, hincoming, hfd⟩ := handOver_frame dataCallback
      (conn.keep (packets.drain conn.readBuffer).rest (Framer.rest_length_le _)) (packets.drain conn.readBuffer).packets
    split
    · exact ⟨hincoming, hfd⟩
    · exact ⟨hincoming, fun _ => rfl⟩
    · exact ⟨hincoming, hfd⟩

/-- A turn that is followed by another one takes bytes off the socket or off the buffer. -/
def weight (conn : TcpConnection α) : ℕ := 2 * recvs conn.incoming + conn.readBuffer.length

theorem handleBuffer_again {dataCallback : α → Bytes → α × Bool} {conn conn' : TcpConnection α}
    (h : conn.handleBuffer dataCallback = (true, conn')) :
    conn'.incoming = conn.incoming ∧ conn'.readBuffer.length ≤ conn.readBuffer.length ∧
      conn'.readBuffer.length < TCP_READ_BUFFER := by
  have hincoming := (handleBuffer_frame dataCallback conn).1
  rw [h] at hincoming
  refine ⟨hincoming, ?_⟩
  rw [handleBuffer] at h
  split at h
  · cases h
    exact ⟨Nat.zero_le _, (by decide : 0 < TCP_READ_BUFFER)⟩
  · dsimp only at h
    have hrest : _ → (packets.drain conn.readBuffer).rest.length < TCP_READ_BUFFER := rest_length_lt
    have hle := Framer.rest_length_le (F := packets) conn.readBuffer
    obtain ⟨hbuffer, -, -⟩ :=
      handOver_frame dataCallback (conn.keep (packets.drain conn.readBuffer).rest hle) (packets.drain conn.readBuffer).packets
    split at h
    · cases h
    · cases h
    · rename_i hexit
      cases h
      rw [hbuffer]
      exact ⟨hle, hrest (by rw [hexit]; nofun)⟩

theorem turn_weight_lt {dataCallback : α → Bytes → α × Bool} {conn conn' : TcpConnection α}
    (h : conn.turn dataCallback = (true, conn')) : conn'.weight < conn.weight := by
  have hreceived := receive_received conn
  rw [turn] at h
  generalize conn.receive = r at hreceived h
  cases hreceived with
  | full hroom =>
    obtain ⟨hincoming, -, hlt⟩ := handleBuffer_again h
    rw [available] at hroom
    rw [weight, weight, hincoming]
    omega
  | data bytes later fits _ _ hrecvs hpos _ =>
    obtain ⟨hincoming, hle, -⟩ := handleBuffer_again h
    have hlen := List.length_pos_iff.mpr hpos
    rw [weight, weight, hincoming]
    rw [List.length_append] at hle
    dsimp only
    omega
  | waits => cases h
  | fails => cases h

/-- `_handleRead`: turns until one returns. -/
def handleRead (dataCallback : α → Bytes → α × Bool) (conn : TcpConnection α) : TcpConnection α :=
  match _h : conn.turn dataCallback with
  | (true, conn') => handleRead dataCallback conn'
  | (false, conn') => conn'
termination_by conn.weight
decreasing_by exact turn_weight_lt _h

theorem handleRead_again {dataCallback : α → Bytes → α × Bool} {conn conn' : TcpConnection α}
    (h : conn.turn dataCallback = (true, conn')) : conn.handleRead dataCallback = conn'.handleRead dataCallback := by
  rw [handleRead]
  split
  · rename_i h'
    rw [h] at h'
    cases h'
    rfl
  · rename_i h'
    rw [h] at h'
    cases h'

theorem handleRead_returned {dataCallback : α → Bytes → α × Bool} {conn conn' : TcpConnection α}
    (h : conn.turn dataCallback = (false, conn')) : conn.handleRead dataCallback = conn' := by
  rw [handleRead]
  split
  · rename_i h'
    rw [h] at h'
    cases h'
  · rename_i h'
    rw [h] at h'
    cases h'
    rfl

/-- **The rule for a call.** What every turn keeps, the call keeps. -/
theorem handleRead_invariant {dataCallback : α → Bytes → α × Bool} {I : TcpConnection α → Prop}
    (hturn : ∀ conn, I conn → I (conn.turn dataCallback).2) {conn : TcpConnection α} (h : I conn) :
    I (conn.handleRead dataCallback) := by
  induction conn using handleRead.induct dataCallback with
  | case1 conn conn' hagain ih =>
    rw [handleRead_again hagain]
    apply ih
    have hkeep := hturn conn h
    rwa [hagain] at hkeep
  | case2 conn conn' hreturn =>
    rw [handleRead_returned hreturn]
    have hkeep := hturn conn h
    rwa [hreturn] at hkeep

/-! ## Progress -/

theorem turn_recvs_le (dataCallback : α → Bytes → α × Bool) (conn : TcpConnection α) :
    recvs (conn.turn dataCallback).2.incoming ≤ recvs conn.incoming := by
  have hreceived := receive_received conn
  rw [turn]
  generalize conn.receive = r at hreceived
  cases hreceived with
  | full _ => exact (congrArg recvs (handleBuffer_frame dataCallback conn).1).le
  | data bytes later fits _ _ hrecvs _ _ =>
    have hincoming := (handleBuffer_frame dataCallback
      { conn with readBuffer := conn.readBuffer ++ bytes, fits := fits, incoming := later }).1
    exact (congrArg recvs hincoming).trans_le (Nat.le_of_add_right_le hrecvs)
  | waits later _ _ hrecvs _ =>
    rcases hrecvs with h | ⟨hin, hlater⟩
    · exact h.le
    · exact (congrArg recvs (hlater.trans hin.symm)).le
  | fails later hfailed =>
    rcases hfailed with ⟨-, hlater⟩ | ⟨-, h⟩
    · exact (congrArg recvs hlater).le
    · exact h.le

theorem turn_closed (dataCallback : α → Bytes → α × Bool) {conn : TcpConnection α} (h : conn.fd = false) :
    (conn.turn dataCallback).2.fd = false := by
  have hreceived := receive_received conn
  rw [turn]
  generalize conn.receive = r at hreceived
  cases hreceived with
  | full _ => exact (handleBuffer_frame dataCallback conn).2 h
  | data bytes later fits hopen _ _ _ _ =>
    rw [h] at hopen
    cases hopen
  | waits later _ _ _ _ => exact h
  | fails later _ => rfl

/-- With room in the buffer a call takes something off the socket, unless nothing is there. -/
theorem handleRead_recvs (dataCallback : α → Bytes → α × Bool) {conn : TcpConnection α} (hopen : conn.fd = true)
    (hroom : 0 < conn.available) : recvs (conn.handleRead dataCallback).incoming ≤ recvs conn.incoming - 1 := by
  have hfirst : recvs (conn.turn dataCallback).2.incoming ≤ recvs conn.incoming - 1 := by
    have hreceived := receive_received conn
    rw [turn]
    generalize conn.receive = r at hreceived
    cases hreceived with
    | full hfull => omega
    | data bytes later fits _ _ hrecvs hpos _ =>
      have hincoming := (handleBuffer_frame dataCallback
        { conn with readBuffer := conn.readBuffer ++ bytes, fits := fits, incoming := later }).1
      have hlen := List.length_pos_iff.mpr hpos
      rw [hincoming]
      dsimp only
      omega
    | waits later _ _ hrecvs _ =>
      rcases hrecvs with h | ⟨hin, hlater⟩
      · exact Nat.le_sub_one_of_lt h
      · rw [hlater]
        exact Nat.zero_le _
    | fails later hfailed =>
      rcases hfailed with ⟨hclosed, -⟩ | ⟨-, h⟩
      · rw [hopen] at hclosed
        cases hclosed
      · exact Nat.le_sub_one_of_lt h
  cases hturn : conn.turn dataCallback with
  | mk again conn' =>
    rw [hturn] at hfirst
    cases again with
    | true =>
      rw [handleRead_again hturn]
      exact handleRead_invariant (I := fun c => recvs c.incoming ≤ recvs conn.incoming - 1)
        (fun c h => (turn_recvs_le dataCallback c).trans h) hfirst
    | false =>
      rw [handleRead_returned hturn]
      exact hfirst

def handleReads (dataCallback : α → Bytes → α × Bool) : ℕ → TcpConnection α → TcpConnection α
  | 0, conn => conn
  | calls + 1, conn => handleReads dataCallback calls (conn.handleRead dataCallback)

theorem stream_length_le (incoming : List Arrival) : (stream incoming).length ≤ recvs incoming := by
  induction incoming with
  | nil => rfl
  | cons a later ih =>
    have ha : a.content.length ≤ a.recvs := by
      cases a with
      | bytes data => exact le_rfl
      | wouldBlock => exact Nat.zero_le _
      | failed => exact Nat.zero_le _
    rw [stream_cons, recvs_cons, List.length_append]
    exact Nat.add_le_add ha ih

theorem handleReads_invariant {dataCallback : α → Bytes → α × Bool} {I : TcpConnection α → Prop}
    (hturn : ∀ conn, I conn → I (conn.turn dataCallback).2) (calls : ℕ) {conn : TcpConnection α} (h : I conn) :
    I (conn.handleReads dataCallback calls) := by
  induction calls generalizing conn with
  | zero => exact h
  | succ calls ih => exact ih (handleRead_invariant hturn h)

/-! ## Raw connections -/

abbrev Read := {data : Bytes // data ≠ [] ∧ data.length ≤ TCP_READ_BUFFER}

def arrival : Option Read → Arrival
  | some r => .bytes ⟨r.1, r.2.1⟩
  | none => .wouldBlock

def received (reads : List (Option Read)) : List Bytes := reads.filterMap (Option.map Subtype.val)

/-- The data callback is called with read after read, until it closes the connection. -/
def feed (dataCallback : α → Bytes → α × Bool) : α → List Bytes → α
  | a, [] => a
  | a, r :: rs => if (dataCallback a r).2 = true then (dataCallback a r).1 else feed dataCallback (dataCallback a r).1 rs

/-- A raw connection between two turns: `a` is where the reads that are left will take the callback. -/
structure Raw (dataCallback : α → Bytes → α × Bool) (a : α) (conn : TcpConnection α) : Prop where
  raw : conn.encapsulation = .NONE
  empty : conn.readBuffer = []
  left : ∃ reads, conn.incoming = reads.map arrival ∧
    (conn.fd = true → a = feed dataCallback conn.callbackState (received reads)) ∧
    (conn.fd = false → a = conn.callbackState)

theorem feed_handOver (dataCallback : α → Bytes → α × Bool) (conn : TcpConnection α) (hopen : conn.fd = true)
    (view : Bytes) (later : List Bytes) :
    let conn' := conn.handOver dataCallback view
    (conn'.fd = true → feed dataCallback conn.callbackState (view :: later) = feed dataCallback conn'.callbackState later) ∧
      (conn'.fd = false → feed dataCallback conn.callbackState (view :: later) = conn'.callbackState) := by
  rw [handOver, feed]
  dsimp only
  rw [hopen, Bool.true_and]
  cases (dataCallback conn.callbackState view).2 with
  | true => exact ⟨nofun, fun _ => rfl⟩
  | false => exact ⟨fun _ => rfl, nofun⟩

theorem raw_turn {dataCallback : α → Bytes → α × Bool} {a : α} {conn : TcpConnection α} (h : Raw dataCallback a conn) :
    Raw dataCallback a (conn.turn dataCallback).2 := by
  obtain ⟨hraw, hempty, reads, hincoming, hopened, hclosed⟩ := h
  have hroom : conn.available = TCP_READ_BUFFER := by rw [available, hempty]; rfl
  rw [turn, receive, if_pos (by rw [hroom]; decide)]
  unfold recv
  by_cases hfd : conn.fd = false
  · rw [if_pos hfd]
    exact ⟨hraw, hempty, reads, hincoming, nofun, fun _ => hclosed hfd⟩
  · have hopen := Bool.of_not_eq_false hfd
    rw [if_neg hfd, hincoming]
    cases reads with
    | nil => exact ⟨hraw, hempty, [], rfl, hopened, hclosed⟩
    | cons read reads =>
      cases read with
      | none => exact ⟨hraw, hempty, reads, rfl, hopened, hclosed⟩
      | some r =>
        have hfits : r.1.length ≤ conn.available := r.2.2.trans_eq hroom.symm
        have hview : conn.readBuffer ++ r.1 = r.1 := by rw [hempty, List.nil_append]
        have ha := hopened hopen
        rw [List.map_cons]
        simp only [arrival, dif_pos hfits, hview]
        obtain ⟨hmore, hend⟩ := feed_handOver dataCallback
          { conn with readBuffer := r.1, fits := r.2.2, incoming := reads.map arrival } hopen r.1 (received reads)
        rw [handleBuffer, hraw]
        exact ⟨rfl, rfl, reads, rfl, fun h => ha.trans (hmore h), fun h => ha.trans (hend h)⟩

theorem recvs_arrival_pos (read : Option Read) : 0 < (arrival read).recvs := by
  cases read with
  | none => exact Nat.one_pos
  | some r => exact List.length_pos_iff.mpr r.2.1

/-- As many calls as there are results of `recv` bring the callback there. -/
theorem raw_handleReads {dataCallback : α → Bytes → α × Bool} {a : α} {conn : TcpConnection α}
    (h : Raw dataCallback a conn) {calls : ℕ} (hcalls : recvs conn.incoming ≤ calls) :
    (conn.handleReads dataCallback calls).callbackState = a := by
  induction calls generalizing conn with
  | zero =>
    obtain ⟨-, -, reads, hincoming, hopened, hclosed⟩ := h
    cases reads with
    | nil =>
      cases hfd : conn.fd with
      | false => exact (hclosed hfd).symm
      | true => exact (hopened hfd).symm
    | cons read reads =>
      have hpos := recvs_arrival_pos read
      rw [hincoming, List.map_cons, recvs_cons] at hcalls
      omega
  | succ calls ih =>
    cases hfd : conn.fd with
    | true =>
      have hroom : 0 < conn.available := by
        rw [available, h.empty]
        decide
      have hless := handleRead_recvs dataCallback hfd hroom
      exact ih (handleRead_invariant (fun c hc => raw_turn hc) h) (by omega)
    | false =>
      have hend := handleReads_invariant (I := fun c => Raw dataCallback a c ∧ c.fd = false)
        (fun c hc => ⟨raw_turn hc.1, turn_closed dataCallback hc.2⟩) (calls + 1) ⟨h, hfd⟩
      obtain ⟨⟨-, -, reads, -, -, hclosed⟩, hlast⟩ := hend
      exact (hclosed hlast).symm

/-- **Reading a raw connection.** The data callback is called with the reads as they come. -/
theorem handleReads_raw (dataCallback : α → Bytes → α × Bool) (a : α) (reads : List (Option Read)) {calls : ℕ}
    (hcalls : recvs (reads.map arrival) ≤ calls) :
    ((connect .NONE a (reads.map arrival)).handleReads dataCallback calls).callbackState =
      feed dataCallback a (received reads) :=
  raw_handleReads ⟨rfl, rfl, reads, rfl, fun _ => rfl, fun h => absurd h Bool.noConfusion⟩ hcalls

end TcpConnection
end Husarnet
