import Husarnet.WebSocketFrames
import Mathlib.Data.List.TakeWhile

/-! # Frames in a cut stream

The server's stream is its handshake response and its frames. The client gets all of it when the
first read is the response and every later read ends where a frame ends. A read that ends
elsewhere loses bytes, and no frame is so short that it could be made up for.
-/

namespace Husarnet
open Octets Framing TcpConnection
set_option autoImplicit false

namespace WebSocketClient

/-- An unfragmented frame with a short payload. Servers do not mask. -/
structure ServerFrame where
  opcode : Fin 16
  payload : Bytes
  short : payload.length ≤ 125
  deriving DecidableEq

namespace ServerFrame

def code (f : ServerFrame) : Opcode := UInt8.ofNat f.opcode.val

def encode (f : ServerFrame) : Bytes := (0x80 ||| f.code) :: UInt8.ofNat f.payload.length :: f.payload

def message (f : ServerFrame) : Message := ⟨⟨true, false, false, false⟩, f.code, false, f.payload⟩

def CarriesData (f : ServerFrame) : Prop := f.code = Opcode.TEXT ∨ f.code = Opcode.BINARY

instance (f : ServerFrame) : Decidable f.CarriesData := inferInstanceAs (Decidable (_ ∨ _))

def Answered (f : ServerFrame) : Prop := f.code = Opcode.PING ∨ f.code = Opcode.CLOSE

instance (f : ServerFrame) : Decidable f.Answered := inferInstanceAs (Decidable (_ ∨ _))

theorem flags_code (flags : UInt8) : flags &&& 0xF0 = 0x80 ↔ flags = 0x80 ||| (flags &&& 0x0F) := by
  revert flags
  exact forall_byte (by decide +kernel)

theorem code_flags (o : Fin 16) : (0x80 ||| UInt8.ofNat o.val) &&& 0x0F = (UInt8.ofNat o.val : UInt8) := by
  revert o
  decide

theorem code_lt (flags : UInt8) : (flags &&& 0x0F).toNat < 16 := by
  revert flags
  exact forall_byte (by decide +kernel)

theorem short_byte (byte : UInt8) : byte &&& 0x80 = 0 ∧ byte &&& 0x7F < 126 ↔ byte.toNat ≤ 125 := by
  revert byte
  exact forall_byte (by decide +kernel)

theorem length_byte (byte : UInt8) : byte.toNat ≤ 125 → byte &&& 0x7F = byte := by
  revert byte
  exact forall_byte (by decide +kernel)

theorem encode_length (f : ServerFrame) : f.encode.length = 2 + f.payload.length := by
  rw [encode, List.length_cons, List.length_cons]
  omega

/-- A frame has neither a longer length field nor a masking key. -/
theorem frameAt_encode (f : ServerFrame) :
    FrameAt .signed f.encode ∧ announcedLength f.encode = f.payload.length ∧
      frontSize f.encode + announcedLength f.encode = f.encode.length ∧ frameMessage f.encode = f.message := by
  have hcode : (0x80 ||| f.code) &&& 0x0F = f.code := code_flags f.opcode
  have hflags : (0x80 ||| f.code) &&& 0xF0 = 0x80 := (flags_code _).mpr (by rw [hcode])
  have hnat : (UInt8.ofNat f.payload.length).toNat = f.payload.length := by
    rw [UInt8.toNat_ofNat', Nat.mod_eq_of_lt (f.short.trans_lt (by decide))]
  have hshort := hnat.trans_le f.short
  obtain ⟨hmask, hlenByte⟩ := (short_byte _).mpr hshort
  have hext : ([] : Bytes).length = extendedSize (UInt8.ofNat f.payload.length &&& 0x7F) := by
    rw [extendedSize, if_pos hlenByte]
    rfl
  have hkey : ([] : Bytes).length = if UInt8.ofNat f.payload.length &&& 0x80 ≠ 0 then 4 else 0 := by
    rw [if_neg (not_not.mpr hmask)]
    rfl
  have hlen : (if UInt8.ofNat f.payload.length &&& 0x7F < 126 then (UInt8.ofNat f.payload.length &&& 0x7F).toNat
      else beNat []) = f.payload.length := by
    rw [if_pos hlenByte, length_byte _ hshort, hnat]
  obtain ⟨hframe, hannounced, hwhole, hmessage⟩ := frame_layout .signed hflags hext hkey hlen
  have hplain : Plain .signed [] := fun _ c hc => absurd hc List.not_mem_nil
  refine ⟨hframe.mpr hplain, hannounced, hwhole, hmessage.trans ?_⟩
  rw [hcode, hmask]
  rfl

/-- A frame is read back at the front of every stream. -/
theorem parse_encode (f : ServerFrame) (t : Bytes) : parse (f.encode ++ t) = .packet f.message f.encode.length := by
  obtain ⟨hframe, hannounced, hwhole, hmessage⟩ := frameAt_encode f
  have hfits : announcedLength f.encode ≤ DATA_CAPACITY := hannounced.trans_le (f.short.trans (by decide))
  have hparse : parseOn .signed f.encode = .packet f.message f.encode.length := by
    rw [parseOn_frame hframe hfits, hwhole, hmessage]
  rw [parse, parseOn_append t (by rw [hparse]; nofun), hparse]

theorem frontSize_eq_two {buffer : Bytes} (h : frontSize buffer = 2) :
    frameMasked buffer = false ∧ frameLenByte buffer < 126 := by
  cases hmask : frameMasked buffer with
  | true =>
    rw [frontSize_masked hmask] at h
    omega
  | false =>
    rw [frontSize_unmasked hmask, extendedSize] at h
    refine ⟨rfl, ?_⟩
    by_contra hlong
    rw [if_neg hlong] at h
    split at h <;> omega

/-- A front of two bytes is that of such a frame. -/
theorem parseHeader_two {buffer : Bytes} {header : Header} (h : parseHeaderOn .signed buffer = some header)
    (hsize : header.size = 2) :
    ∃ (o : Fin 16) (n : Fin 126) (behind : Bytes), buffer = (0x80 ||| UInt8.ofNat o.val) :: UInt8.ofNat n.val :: behind ∧
      header = ⟨⟨true, false, false, false⟩, UInt8.ofNat o.val, none, n.val, 2⟩ := by
  rw [parseHeaderOn_eq] at h
  split at h
  · rename_i hheader
    obtain ⟨hflags, hlen⟩ := hheader
    cases h
    have hfront : frontSize buffer = 2 := hsize
    obtain ⟨hmask, hshort⟩ := frontSize_eq_two hfront
    rw [readLengthAt, if_pos hshort, hmask, hfront]
    rw [hfront] at hlen
    cases buffer with
    | nil => exact absurd hlen (by decide)
    | cons flags tail =>
      cases tail with
      | nil =>
        rw [List.length_singleton] at hlen
        omega
      | cons byte behind =>
        have hbyte : byte.toNat ≤ 125 := (short_byte byte).mp ⟨not_not.mp (of_decide_eq_false hmask), hshort⟩
        have hlength : frameLenByte (flags :: byte :: behind) = byte := length_byte byte hbyte
        refine ⟨⟨(flags &&& 0x0F).toNat, code_lt flags⟩, ⟨byte.toNat, Nat.lt_succ_of_le hbyte⟩, behind, ?_, ?_⟩
        · rw [UInt8.ofNat_toNat, UInt8.ofNat_toNat, ← (flags_code flags).mp hflags]
        · rw [UInt8.ofNat_toNat, hlength]
          rfl
  · cases h

theorem encode_of_parse {buffer : Bytes} {m : Message} {n : ℕ} (h : parse buffer = .packet m n)
    (hn : n = 2 + m.data.length) : ∃ f : ServerFrame, m = f.message ∧ buffer.take n = f.encode := by
  have hparsed := parse_parsed buffer
  rw [h] at hparsed
  cases hparsed with
  | message header hheader hdata _ =>
    have hslice : (slice buffer header.size header.length).length = header.length := slice_length hdata
    rw [unmask_length, hslice] at hn
    obtain ⟨o, n, behind, rfl, rfl⟩ := parseHeader_two hheader (by omega)
    have hlen : (behind.take n.val).length = n.val := hslice
    refine ⟨⟨o, behind.take n.val, hlen.trans_le (Nat.le_of_lt_succ n.isLt)⟩, rfl, ?_⟩
    have hencode : (0x80 ||| UInt8.ofNat o.val) :: UInt8.ofNat (behind.take n.val).length :: behind.take n.val =
        ((0x80 ||| UInt8.ofNat o.val) :: UInt8.ofNat n.val :: behind).take (2 + n.val) := by
      rw [hlen, Nat.add_comm 2]
      rfl
    exact hencode.symm

end ServerFrame

open ServerFrame

def encodeAll (frames : List ServerFrame) : Bytes := frames.flatMap encode

/-- The calls of `onMessage` that the frames stand for. -/
def payloads (frames : List ServerFrame) : List Event :=
  (frames.filter (CarriesData ·)).map fun f => .onMessage f.payload

theorem payloads_append (fs gs : List ServerFrame) : payloads (fs ++ gs) = payloads fs ++ payloads gs := by
  rw [payloads, List.filter_append, List.map_append]
  rfl

theorem payloads_cons (f : ServerFrame) (fs : List ServerFrame) : payloads (f :: fs) = payloads [f] ++ payloads fs :=
  payloads_append [f] fs

theorem payloads_eq_nil {fs : List ServerFrame} : payloads fs = [] ↔ ∀ f ∈ fs, ¬ f.CarriesData := by
  rw [payloads, List.map_eq_nil_iff, List.filter_eq_nil_iff]
  simp only [decide_eq_true_eq]

theorem drain_encodeAll (fs : List ServerFrame) :
    messages.drain (encodeAll fs) = ⟨fs.map message, [], .invalid⟩ := by
  have hnil : messages.drain [] = ⟨[], [], .invalid⟩ := Framer.drain_stop rfl
  have hall : messages.drain (fs.flatMap encode ++ []) = (messages.drain []).before (fs.map message) :=
    Framer.drain_encoded encode message [] fun f _ t => parse_encode f t
  rw [List.append_nil, hnil, Drained.before, List.append_nil] at hall
  exact hall

/-! ## Frames that the client handles -/

theorem payloads_of_data {f : ServerFrame} (h : f.CarriesData) : payloads [f] = [.onMessage f.payload] := by
  simp [payloads, h]

theorem payloads_of_control {f : ServerFrame} (h : ¬ f.CarriesData) : payloads [f] = [] :=
  payloads_eq_nil.mpr fun g hg => by rwa [List.mem_singleton.mp hg]

theorem not_data_of_answered {f : ServerFrame} (h : f.Answered) : ¬ f.CarriesData := by
  intro hdata
  rcases h with h | h
  all_goals
    rw [CarriesData, h] at hdata
    exact absurd hdata (by decide)

theorem live_handleMessage {ws : WebSocketClient} (h : Live ws) {f : ServerFrame} (hclose : f.code ≠ Opcode.CLOSE) :
    Live (ws.handleMessage f.message) ∧ (ws.handleMessage f.message).events = ws.events ++ payloads [f] := by
  refine ⟨h.handleMessage hclose, ?_⟩
  by_cases hdata : f.CarriesData
  · rw [handleMessage_data (m := f.message) h.running hdata, payloads_of_data hdata]
    rfl
  · rw [payloads_of_control hdata, List.append_nil]
    by_cases hping : f.message.opcode = Opcode.PING
    · rw [handleMessage_ping h.running hping, sendPong, sendReply, if_pos h.conn]
    · rw [handleMessage_control (m := f.message) h.running hdata fun ha => ha.elim hping hclose]

theorem closed_handleMessage {ws : WebSocketClient} (h : Closed ws) {f : ServerFrame} (hanswered : ¬ f.Answered) :
    Closed (ws.handleMessage f.message) ∧ (ws.handleMessage f.message).events = ws.events ++ payloads [f] := by
  by_cases hdata : f.CarriesData
  · rw [handleMessage_data (m := f.message) h.running hdata, payloads_of_data hdata]
    exact ⟨⟨h.conn, h.running⟩, rfl⟩
  · rw [payloads_of_control hdata, List.append_nil, handleMessage_control (m := f.message) h.running hdata hanswered]
    exact ⟨h, rfl⟩

/-! ## Reads that are whole frames -/

theorem live_frames {ws : WebSocketClient} (h : Live ws) {fs : List ServerFrame} (hclose : ∀ f ∈ fs, f.code ≠ Opcode.CLOSE) :
    let ws' := (fs.map message).foldl handleMessage ws
    Live ws' ∧ ws'.events = ws.events ++ payloads fs := by
  induction fs generalizing ws with
  | nil => exact ⟨h, (List.append_nil _).symm⟩
  | cons f fs ih =>
    obtain ⟨hlive, hevents⟩ := live_handleMessage h (hclose f (List.mem_cons_self ..))
    obtain ⟨hlive', hevents'⟩ := ih hlive fun g hg => hclose g (List.mem_cons_of_mem _ hg)
    refine ⟨hlive', ?_⟩
    rw [payloads_cons, ← List.append_assoc, ← hevents]
    exact hevents'

theorem aborted_frames {ws : WebSocketClient} (h : ws.aborted = true) (ms : List Message) : ms.foldl handleMessage ws = ws := by
  induction ms with
  | nil => rfl
  | cons m ms ih =>
    rw [List.foldl_cons, handleMessage_aborted h]
    exact ih

/-- A closed client goes on with a read up to the first frame that it would have to answer. -/
theorem closed_frames {ws : WebSocketClient} (h : Closed ws) (fs : List ServerFrame) :
    let ws' := (fs.map message).foldl handleMessage ws
    ws'.conn = false ∧ ws'.events = ws.events ++ payloads (fs.takeWhile fun f => ¬ f.Answered) := by
  induction fs generalizing ws with
  | nil => exact ⟨h.conn, (List.append_nil _).symm⟩
  | cons f fs ih =>
    rw [List.map_cons, List.foldl_cons]
    by_cases hanswered : f.Answered
    · obtain ⟨habort, hconn, hevents⟩ := h.handleAnswered (m := f.message) hanswered
      rw [aborted_frames habort, List.takeWhile_cons_of_neg (by simp [hanswered])]
      exact ⟨hconn, hevents.trans (List.append_nil _).symm⟩
    · obtain ⟨hclosed, hevents⟩ := closed_handleMessage h hanswered
      obtain ⟨hconn, hevents'⟩ := ih hclosed
      refine ⟨hconn, ?_⟩
      rw [List.takeWhile_cons_of_pos (by simp [hanswered]), payloads_cons, ← List.append_assoc, ← hevents]
      exact hevents'

/-- The frames behind a CLOSE that a client which reads `groups` does not handle. -/
def behindClose : List (List ServerFrame) → List ServerFrame
  | [] => []
  | g :: later =>
    if ∃ f ∈ g, f.code = Opcode.CLOSE then
      ((g.dropWhile fun f => f.code ≠ Opcode.CLOSE).tail.dropWhile fun f => ¬ f.Answered) ++ later.flatten
    else behindClose later

/-- A read of whole frames, taken frame by frame. -/
theorem dataCallback_encodeAll (lib : HttpLibrary) {ws : WebSocketClient} (h : Live ws) (g : List ServerFrame) :
    (dataCallback lib ws (encodeAll g)).1 = (g.map message).foldl handleMessage ws := by
  rw [dataCallback, handleRead, h.opened]
  dsimp only
  rw [handleData, drain_encodeAll]

/-- The frames of a read up to the first CLOSE, and behind it. -/
theorem split_at_close {g : List ServerFrame} (h : ∃ f ∈ g, f.code = Opcode.CLOSE) :
    ∃ pre c post, g = pre ++ c :: post ∧ (∀ f ∈ pre, f.code ≠ Opcode.CLOSE) ∧ c.code = Opcode.CLOSE ∧
      (g.dropWhile fun f => f.code ≠ Opcode.CLOSE).tail = post := by
  have hsplit := List.takeWhile_append_dropWhile (p := fun f : ServerFrame => decide (f.code ≠ Opcode.CLOSE)) (l := g)
  have hfirst := List.head?_dropWhile_not (fun f : ServerFrame => decide (f.code ≠ Opcode.CLOSE)) g
  cases hdrop : g.dropWhile fun f => decide (f.code ≠ Opcode.CLOSE) with
  | nil =>
    obtain ⟨f, hf, hcode⟩ := h
    have hall := List.dropWhile_eq_nil_iff.mp hdrop f hf
    exact absurd hcode (of_decide_eq_true hall)
  | cons c post =>
    rw [hdrop] at hsplit hfirst
    refine ⟨_, c, post, hsplit.symm, fun f hf => ?_, ?_, rfl⟩
    · have hp := List.mem_takeWhile_imp (p := fun f : ServerFrame => decide (f.code ≠ Opcode.CLOSE)) hf
      exact of_decide_eq_true hp
    · exact not_not.mp (of_decide_eq_false hfirst)

theorem dataCallback_done (lib : HttpLibrary) (ws : WebSocketClient) (r : Bytes) :
    (dataCallback lib ws r).2 = (!(dataCallback lib ws r).1.conn || (dataCallback lib ws r).1.aborted) := rfl

/-- A read without a CLOSE leaves the client open. -/
theorem read_without_close (lib : HttpLibrary) {ws : WebSocketClient} (h : Live ws) {g : List ServerFrame}
    (hclose : ¬ ∃ f ∈ g, f.code = Opcode.CLOSE) :
    let r := dataCallback lib ws (encodeAll g)
    Live r.1 ∧ r.1.events = ws.events ++ payloads g ∧ ¬ r.2 = true := by
  intro r
  have hread : r.1 = (g.map message).foldl handleMessage ws := dataCallback_encodeAll lib h g
  obtain ⟨hlive, hevents⟩ := live_frames h fun f hf he => hclose ⟨f, hf, he⟩
  rw [← hread] at hlive hevents
  have hdone : r.2 = (!r.1.conn || r.1.aborted) := dataCallback_done lib ws (encodeAll g)
  refine ⟨hlive, hevents, ?_⟩
  rw [hdone, hlive.conn, hlive.running]
  decide

/-- The read with the first CLOSE is the last one that is handled. -/
theorem read_with_close (lib : HttpLibrary) {ws : WebSocketClient} (h : Live ws) {g : List ServerFrame}
    (hclose : ∃ f ∈ g, f.code = Opcode.CLOSE) :
    let r := dataCallback lib ws (encodeAll g)
    r.2 = true ∧ r.1.events ++ payloads ((g.dropWhile fun f => f.code ≠ Opcode.CLOSE).tail.dropWhile fun f => ¬ f.Answered) =
      ws.events ++ payloads g := by
  intro r
  have hread : r.1 = (g.map message).foldl handleMessage ws := dataCallback_encodeAll lib h g
  have hdone : r.2 = (!r.1.conn || r.1.aborted) := dataCallback_done lib ws (encodeAll g)
  obtain ⟨pre, c, post, hg, hpre, hc, htail⟩ := split_at_close hclose
  obtain ⟨hlive, hevents⟩ := live_frames h hpre
  obtain ⟨hclosed, -, hkept⟩ := hlive.handleClose (m := c.message) hc
  obtain ⟨hconn, hbehind⟩ := closed_frames hclosed post
  have hfold : (g.map message).foldl handleMessage ws =
      (post.map message).foldl handleMessage (((pre.map message).foldl handleMessage ws).handleMessage c.message) := by
    rw [hg, List.map_append, List.foldl_append, List.map_cons, List.foldl_cons]
  have hpost : payloads post = payloads (post.takeWhile fun f => ¬ f.Answered) ++
      payloads (post.dropWhile fun f => ¬ f.Answered) := by
    rw [← payloads_append, List.takeWhile_append_dropWhile]
  have hnone : payloads [c] = [] := payloads_of_control (not_data_of_answered (Or.inr hc))
  rw [hread, hfold] at hdone
  rw [hread, hfold, htail]
  constructor
  · rw [hdone, hconn, Bool.not_false, Bool.true_or]
  · rw [hbehind, hkept, hevents]
    conv_rhs => rw [hg, payloads_append, payloads_cons, hnone, List.nil_append, hpost]
    simp only [List.append_assoc]

/-- **Whole frames.** A client that reads whole frames handles all that it does not meet behind a CLOSE. -/
theorem feed_groups (lib : HttpLibrary) {ws : WebSocketClient} (h : Live ws) (groups : List (List ServerFrame)) :
    (feed (dataCallback lib) ws (groups.map encodeAll)).events ++ payloads (behindClose groups) =
      ws.events ++ payloads groups.flatten := by
  induction groups generalizing ws with
  | nil => rfl
  | cons g later ih =>
    rw [List.map_cons, feed, List.flatten_cons, payloads_append, behindClose]
    by_cases hclose : ∃ f ∈ g, f.code = Opcode.CLOSE
    · obtain ⟨hdone, hevents⟩ := read_with_close lib h hclose
      rw [if_pos hclose, if_pos hdone, payloads_append, ← List.append_assoc, hevents, List.append_assoc]
    · obtain ⟨hlive, hevents, hgoes⟩ := read_without_close lib h hclose
      rw [if_neg hclose, if_neg hgoes, ih hlive, hevents, List.append_assoc]

/-- Nothing is read behind the read with the first CLOSE. -/
theorem feed_behind_close (lib : HttpLibrary) {ws : WebSocketClient} (h : Live ws) {groups : List (List ServerFrame)}
    (hclose : ∃ f ∈ groups.flatten, f.code = Opcode.CLOSE) (rest : List Bytes) :
    feed (dataCallback lib) ws (groups.map encodeAll ++ rest) = feed (dataCallback lib) ws (groups.map encodeAll) := by
  induction groups generalizing ws with
  | nil =>
    obtain ⟨f, hf, -⟩ := hclose
    cases hf
  | cons g later ih =>
    rw [List.map_cons, List.cons_append, feed, feed]
    by_cases hfirst : ∃ f ∈ g, f.code = Opcode.CLOSE
    · have hdone := (read_with_close lib h hfirst).1
      rw [if_pos hdone, if_pos hdone]
    · obtain ⟨hlive, -, hgoes⟩ := read_without_close lib h hfirst
      obtain ⟨f, hf, hcode⟩ := hclose
      rw [List.flatten_cons, List.mem_append] at hf
      have hlater : f ∈ later.flatten := hf.resolve_left fun hin => hfirst ⟨f, hin, hcode⟩
      rw [if_neg hgoes, if_neg hgoes, ih hlive ⟨f, hlater, hcode⟩]

/-! ## Bytes that the calls of `onMessage` account for -/

/-- What the shortest frame with the data of a call takes. -/
def Event.cost : Event → ℕ
  | connected => 0
  | onMessage data => 2 + data.length

def cost (events : List Event) : ℕ := (events.map Event.cost).sum

theorem cost_append (es es' : List Event) : cost (es ++ es') = cost es + cost es' := by
  rw [cost, List.map_append, List.sum_append]
  rfl

/-- A stream of TEXT and BINARY frames is as long as its calls of `onMessage` cost. -/
theorem cost_payloads {fs : List ServerFrame} (h : ∀ f ∈ fs, f.CarriesData) :
    cost (payloads fs) = (encodeAll fs).length := by
  induction fs with
  | nil => rfl
  | cons f fs ih =>
    have hrest := ih fun g hg => h g (List.mem_cons_of_mem _ hg)
    rw [payloads_cons, payloads_of_data (h f (List.mem_cons_self ..)), cost_append, hrest, encodeAll, encodeAll,
      List.flatMap_cons, List.length_append, encode_length]
    rfl

def Message.cost (m : Message) : ℕ := 2 + m.data.length

/-- A message takes at least what it costs. -/
theorem cost_le_of_parse {buffer : Bytes} {m : Message} {n : ℕ} (h : parse buffer = .packet m n) : m.cost ≤ n := by
  have hparsed := parse_parsed buffer
  rw [h] at hparsed
  cases hparsed with
  | message header hheader hdata _ =>
    have hsize := (parseHeaderOn_append [] hheader).2.1
    have hslice : (slice buffer header.size header.length).length = header.length := slice_length hdata
    rw [Message.cost, unmask_length, hslice]
    exact Nat.add_le_add_right hsize _

/-- The messages of a read cost no more than it has bytes, and as many only if it is whole frames. -/
theorem drain_cost (buffer : Bytes) :
    ((messages.drain buffer).packets.map Message.cost).sum ≤ buffer.length ∧
      (((messages.drain buffer).packets.map Message.cost).sum = buffer.length → ∃ g, buffer = encodeAll g) := by
  induction buffer using Framer.drain.induct messages with
  | case1 s why h =>
    rw [Framer.drain_stop h]
    exact ⟨Nat.zero_le _, fun hlen => ⟨[], List.eq_nil_of_length_eq_zero hlen.symm⟩⟩
  | case2 s m n h ih =>
    have hle : n ≤ s.length := messages.size_le h
    have hm : m.cost ≤ n := cost_le_of_parse h
    rw [Framer.drain_packet h, Drained.before_packets, List.singleton_append, List.map_cons, List.sum_cons]
    rw [List.length_drop] at ih
    refine ⟨by omega, fun heq => ?_⟩
    obtain ⟨f, -, hfront⟩ := encode_of_parse h (by rw [Message.cost] at hm heq; omega)
    obtain ⟨g, hg⟩ := ih.2 (by omega)
    refine ⟨f :: g, ?_⟩
    rw [encodeAll, List.flatMap_cons, ← hfront, ← encodeAll, ← hg, List.take_append_drop]

/-- A client that goes on reading has its connection made. -/
def StaysOpen (ws : WebSocketClient) : Prop := ws.conn = true → ws.aborted = false → ws.state = .WS_OPEN

theorem sendReply_frame (ws : WebSocketClient) (m : Message) :
    (ws.sendReply m).events = ws.events ∧ (ws.sendReply m).conn = ws.conn ∧
      ((ws.sendReply m).aborted = false → (ws.sendReply m).state = ws.state ∧ ws.conn = true ∧ ws.aborted = false) := by
  rw [sendReply]
  split
  · rename_i hconn
    exact ⟨rfl, rfl, fun h => ⟨rfl, hconn, h⟩⟩
  · refine ⟨rfl, rfl, fun h => ?_⟩
    cases h

theorem handleMessage_cost (ws : WebSocketClient) (m : Message) :
    cost (ws.handleMessage m).events ≤ cost ws.events + m.cost ∧ (StaysOpen ws → StaysOpen (ws.handleMessage m)) := by
  rw [handleMessage]
  split
  · exact ⟨Nat.le_add_right .., id⟩
  · split
    · exact ⟨(cost_append ws.events [.onMessage m.data]).le, id⟩
    · split
      · obtain ⟨hevents, hconn, hstate⟩ := sendReply_frame ws { m with
          opcode := Opcode.PONG, masked := true, flags := { m.flags with fin := true } }
        rw [sendPong, hevents]
        refine ⟨Nat.le_add_right .., fun hopen hc ha => ?_⟩
        obtain ⟨hkept, hc', ha'⟩ := hstate ha
        rw [hkept]
        exact hopen hc' ha'
      · split
        · exact ⟨Nat.le_add_right .., id⟩
        · split
          · obtain ⟨hevents, hconn, -⟩ := sendReply_frame { ws with state := .WS_CLOSING }
              ⟨⟨true, false, false, false⟩, Opcode.CLOSE, true, []⟩
            dsimp only
            rw [sendClose]
            generalize sendReply { ws with state := State.WS_CLOSING } _ = ws' at hevents hconn ⊢
            split
            · rename_i haborted
              rw [hevents]
              refine ⟨Nat.le_add_right .., fun _ _ ha => ?_⟩
              rw [haborted] at ha
              cases ha
            · rw [close]
              split
              · rw [hevents]
                exact ⟨Nat.le_add_right .., fun _ hc => by cases hc⟩
              · rename_i hnot
                rw [hevents]
                exact ⟨Nat.le_add_right .., fun _ hc => absurd hc hnot⟩
          · exact ⟨Nat.le_add_right .., id⟩

theorem foldl_cost (ms : List Message) (ws : WebSocketClient) :
    cost (ms.foldl handleMessage ws).events ≤ cost ws.events + (ms.map Message.cost).sum ∧
      (StaysOpen ws → StaysOpen (ms.foldl handleMessage ws)) := by
  induction ms generalizing ws with
  | nil => exact ⟨Nat.le_add_right .., id⟩
  | cons m ms ih =>
    obtain ⟨hcost, hopen⟩ := handleMessage_cost ws m
    obtain ⟨hcost', hopen'⟩ := ih (ws.handleMessage m)
    rw [List.foldl_cons, List.map_cons, List.sum_cons]
    exact ⟨by omega, fun h => hopen' (hopen h)⟩

/-- What a read adds for the user costs no more than it has bytes, and as many only if it is whole
frames. -/
theorem read_cost (lib : HttpLibrary) {ws : WebSocketClient} (h : Live ws) (buf : Bytes) :
    let ws' := (dataCallback lib ws buf).1
    (cost ws'.events ≤ cost ws.events + buf.length ∧
      (cost ws'.events = cost ws.events + buf.length → ∃ g, buf = encodeAll g)) ∧ StaysOpen ws' := by
  obtain ⟨hle, hwhole⟩ := drain_cost buf
  obtain ⟨hcost, hopen⟩ := foldl_cost (messages.drain buf).packets ws
  have hopen := hopen fun _ _ => h.opened
  rw [dataCallback, handleRead, h.opened]
  dsimp only
  rw [handleData]
  split
  · exact ⟨⟨by omega, fun heq => hwhole (by omega)⟩, hopen⟩
  · exact ⟨⟨by dsimp only; omega, fun heq => hwhole (by dsimp only at heq; omega)⟩, fun _ ha => by cases ha⟩

/-- **Bytes are accounted for.** What a stream adds for the user costs no more than it has bytes,
and as many only if every read is whole frames. -/
theorem feed_cost (lib : HttpLibrary) {ws : WebSocketClient} (h : Live ws) {reads : List Bytes} (hreads : ∀ r ∈ reads, r ≠ []) :
    cost (feed (dataCallback lib) ws reads).events ≤ cost ws.events + reads.flatten.length ∧
      (cost (feed (dataCallback lib) ws reads).events = cost ws.events + reads.flatten.length →
        ∃ groups : List (List ServerFrame), reads = groups.map encodeAll) := by
  induction reads generalizing ws with
  | nil => exact ⟨le_rfl, fun _ => ⟨[], rfl⟩⟩
  | cons r later ih =>
    obtain ⟨⟨hcost, hwhole⟩, hopen⟩ := read_cost lib h r
    have hlater := fun x hx => hreads x (List.mem_cons_of_mem _ hx)
    rw [feed, List.flatten_cons, List.length_append]
    split
    · refine ⟨by omega, fun heq => ?_⟩
      -- a read that closes is the last one
      have hnone : later = [] := by
        cases later with
        | nil => rfl
        | cons r' later =>
          have hpos := List.length_pos_iff.mpr (hlater r' (List.mem_cons_self ..))
          rw [List.flatten_cons, List.length_append] at heq
          omega
      rw [hnone, List.flatten_nil, List.length_nil, Nat.add_zero] at heq
      obtain ⟨g, hg⟩ := hwhole heq
      exact ⟨[g], by rw [hnone, hg]; rfl⟩
    · rename_i hgoes
      have hnot := Bool.eq_false_of_not_eq_true hgoes
      have hparts : ((dataCallback lib ws r).1.conn = true) ∧ ((dataCallback lib ws r).1.aborted = false) := by
        have hor : (!(dataCallback lib ws r).1.conn || (dataCallback lib ws r).1.aborted) = false := hnot
        rwa [Bool.or_eq_false_iff, Bool.not_eq_false'] at hor
      obtain ⟨hcost', hwhole'⟩ := ih ⟨hopen hparts.1 hparts.2, hparts.1, hparts.2⟩ hlater
      refine ⟨by omega, fun heq => ?_⟩
      obtain ⟨g, hg⟩ := hwhole (by omega)
      obtain ⟨groups, hgroups⟩ := hwhole' (by omega)
      exact ⟨g :: groups, by rw [hg, hgroups]; rfl⟩

/-! ## The handshake -/

/-- The client takes these bytes, read at once, for the handshake response. -/
def accepts (lib : HttpLibrary) (nonce handshake : Bytes) : Bool :=
  match HTTPMessage.parse lib HTTPMessage.new handshake with
  | .ok (.OK, message) => verifyServerHandshake lib nonce message
  | _ => false

/-- A response that the client accepts and that ends with its empty line. -/
structure ValidHandshake (lib : HttpLibrary) (nonce handshake : Bytes) : Prop where
  accepted : accepts lib nonce handshake = true
  ends : ¬ HTTPMessage.BODY_DELIMITER <:+: handshake.dropLast

theorem ValidHandshake.part {lib : HttpLibrary} {nonce handshake part missing : Bytes}
    (h : ValidHandshake lib nonce handshake) (hpart : handshake = part ++ missing) (hmissing : missing ≠ []) :
    ¬ HTTPMessage.BODY_DELIMITER <:+: part := by
  intro hwithin
  refine h.ends (hwithin.trans ?_)
  rw [hpart, List.dropLast_append_of_ne_nil hmissing]
  exact (List.prefix_append part missing.dropLast).isInfix

theorem ValidHandshake.live {lib : HttpLibrary} {nonce handshake : Bytes} (h : ValidHandshake lib nonce handshake) :
    let ws := (dataCallback lib (connecting nonce) handshake).1
    Live ws ∧ ws.events = [.connected] := by
  have hread : (dataCallback lib (connecting nonce) handshake).1 =
      { connecting nonce with state := .WS_OPEN, events := [.connected] } := by
    have haccepts := h.accepted
    rw [accepts] at haccepts
    rw [dataCallback, handleRead, connecting]
    dsimp only
    rw [handleHandshake]
    split at haccepts
    · rename_i message hparse
      rw [hparse]
      dsimp only
      rw [if_pos haccepts]
      rfl
    · cases haccepts
  rw [hread]
  exact ⟨⟨rfl, rfl, rfl⟩, rfl⟩

/-- The first read connects the client, or closes it. -/
theorem first_read (lib : HttpLibrary) (nonce first : Bytes) :
    let r := dataCallback lib (connecting nonce) first
    (Live r.1 ∧ r.1.events = [.connected] ∧ ∃ message, HTTPMessage.parse lib HTTPMessage.new first = .ok (.OK, message)) ∨
      r.2 = true ∧ r.1.events = [] := by
  rw [dataCallback, handleRead, connecting]
  dsimp only
  rw [handleHandshake]
  split
  · exact Or.inr ⟨Bool.or_true _, rfl⟩
  · rename_i message hparse
    split
    · exact Or.inl ⟨⟨rfl, rfl, rfl⟩, rfl, message, hparse⟩
    · exact Or.inr ⟨rfl, rfl⟩
  · exact Or.inr ⟨rfl, rfl⟩

/-- The reads are the handshake response and then groups of whole frames, up to the read with the first CLOSE at
least. The frames in `unread` come behind it, in reads that are cut anywhere. -/
structure Aligned (handshake : Bytes) (frames : List ServerFrame) (reads : List Bytes) (groups : List (List ServerFrame))
    (unread : List ServerFrame) : Prop where
  frames : groups.flatten ++ unread = frames
  reads : ∃ rest, reads = handshake :: (groups.map encodeAll ++ rest) ∧
    ((∃ f ∈ groups.flatten, f.code = Opcode.CLOSE) ∨ rest = [] ∧ unread = [])

theorem encodeAll_append (fs gs : List ServerFrame) : encodeAll (fs ++ gs) = encodeAll fs ++ encodeAll gs :=
  List.flatMap_append ..

theorem flatten_map_encodeAll (groups : List (List ServerFrame)) :
    (groups.map encodeAll).flatten = encodeAll groups.flatten := by
  induction groups with
  | nil => rfl
  | cons g groups ih => rw [List.map_cons, List.flatten_cons, List.flatten_cons, encodeAll_append, ih]

theorem message_injective : Function.Injective message := by
  intro f g h
  have hcode : f.code = g.code := congrArg Message.opcode h
  have hpayload : f.payload = g.payload := congrArg Message.data h
  have hopcode : f.opcode = g.opcode := by
    have hnat := congrArg UInt8.toNat hcode
    rw [code, code, UInt8.toNat_ofNat', UInt8.toNat_ofNat'] at hnat
    have hf := f.opcode.isLt
    have hg := g.opcode.isLt
    exact Fin.ext (by omega)
  cases f
  cases g
  cases hopcode
  cases hpayload
  rfl

theorem encodeAll_injective : Function.Injective encodeAll := by
  intro fs gs h
  have hdrain := drain_encodeAll fs
  rw [h, drain_encodeAll gs] at hdrain
  exact (message_injective.list_map (congrArg Drained.packets hdrain)).symm

theorem received_nonempty (reads : List (Option Read)) : ∀ r ∈ received reads, r ≠ [] := by
  intro r hr
  obtain ⟨read, -, hread⟩ := List.mem_filterMap.mp hr
  cases read with
  | none => cases hread
  | some read =>
    cases hread
    exact read.2.1

theorem behindClose_of_data {groups : List (List ServerFrame)} (h : ∀ f ∈ groups.flatten, f.CarriesData) :
    behindClose groups = [] := by
  induction groups with
  | nil => rfl
  | cons g later ih =>
    rw [List.flatten_cons] at h
    rw [behindClose, if_neg, ih fun f hf => h f (List.mem_append_right _ hf)]
    rintro ⟨f, hf, hclose⟩
    exact not_data_of_answered (Or.inr hclose) (h f (List.mem_append_left _ hf))

/-- A client that reads the handshake response and then whole frames. -/
theorem feed_aligned {lib : HttpLibrary} {nonce handshake : Bytes} (hvalid : ValidHandshake lib nonce handshake)
    {frames : List ServerFrame} {reads : List Bytes} {groups : List (List ServerFrame)} {unread : List ServerFrame}
    (h : Aligned handshake frames reads groups unread) :
    (feed (dataCallback lib) (connecting nonce) reads).events = .connected :: payloads frames ↔
      ∀ f ∈ behindClose groups ++ unread, ¬ f.CarriesData := by
  obtain ⟨rfl, rest, rfl, hclosed⟩ := h
  obtain ⟨hlive, hevents⟩ := hvalid.live
  have hgoes : ¬ (dataCallback lib (connecting nonce) handshake).2 = true := by
    rw [dataCallback_done, hlive.conn, hlive.running]
    decide
  have hrest : feed (dataCallback lib) (dataCallback lib (connecting nonce) handshake).1 (groups.map encodeAll ++ rest) =
      feed (dataCallback lib) (dataCallback lib (connecting nonce) handshake).1 (groups.map encodeAll) := by
    rcases hclosed with hclose | ⟨rfl, -⟩
    · exact feed_behind_close lib hlive hclose rest
    · rw [List.append_nil]
  have hall := feed_groups lib hlive groups
  rw [hevents, List.singleton_append] at hall
  rw [feed, if_neg hgoes, hrest, ← payloads_eq_nil, payloads_append, payloads_append]
  generalize (feed (dataCallback lib) (dataCallback lib (connecting nonce) handshake).1 (groups.map encodeAll)).events =
    events at hall ⊢
  constructor
  · rintro rfl
    have hnone : (payloads unread ++ payloads (behindClose groups)).length = 0 := by
      have hlength := congrArg List.length hall
      simp only [List.length_append, List.length_cons] at hlength ⊢
      omega
    obtain ⟨hunread, hbehind⟩ := List.append_eq_nil_iff.mp (List.length_eq_zero_iff.mp hnone)
    rw [hbehind, hunread]
    rfl
  · intro hnone
    obtain ⟨hbehind, hunread⟩ := List.append_eq_nil_iff.mp hnone
    rw [hbehind, List.append_nil] at hall
    rw [hall, hunread, List.append_nil]

/-- Reads that lose nothing are the handshake response and then whole frames. -/
theorem aligned_of_survives {lib : HttpLibrary} {nonce handshake : Bytes} (hvalid : ValidHandshake lib nonce handshake)
    {frames : List ServerFrame} (hdata : ∀ f ∈ frames, f.CarriesData) {reads : List Bytes}
    (hreads : ∀ r ∈ reads, r ≠ []) (hstream : reads.flatten = handshake ++ encodeAll frames)
    (h : (feed (dataCallback lib) (connecting nonce) reads).events = .connected :: payloads frames) :
    ∃ groups, Aligned handshake frames reads groups [] := by
  cases reads with
  | nil => cases h
  | cons first later =>
    rw [feed] at h
    rcases first_read lib nonce first with ⟨hlive, hevents, message, hparse⟩ | ⟨hclosed, hevents⟩
    · have hgoes : ¬ (dataCallback lib (connecting nonce) first).2 = true := by
        rw [dataCallback_done, hlive.conn, hlive.running]
        decide
      rw [if_neg hgoes] at h
      obtain ⟨hcost, hwhole⟩ := feed_cost lib hlive fun r hr => hreads r (List.mem_cons_of_mem _ hr)
      have htotal : cost (Event.connected :: payloads frames) = (encodeAll frames).length :=
        (Nat.zero_add _).trans (cost_payloads hdata)
      have hzero : cost [Event.connected] = 0 := rfl
      rw [h, htotal, hevents, hzero, Nat.zero_add] at hcost hwhole
      rw [List.flatten_cons] at hstream
      -- the first read is no part of the response, and has nothing behind it
      have hfirst : first = handshake ∧ later.flatten = encodeAll frames := by
        rcases List.append_eq_append_iff.mp hstream with ⟨missing, hpart, hlater⟩ | ⟨lost, hmore, hframes⟩
        · have hnone : missing = [] := by
            by_contra hmissing
            exact HTTPMessage.parse_no_delimiter lib (hvalid.part hpart hmissing) message hparse
          rw [hnone, List.append_nil] at hpart
          rw [hnone, List.nil_append] at hlater
          exact ⟨hpart.symm, hlater⟩
        · have hnone : lost = [] := by
            rw [hframes, List.length_append] at hcost
            exact List.eq_nil_of_length_eq_zero (by omega)
          rw [hnone, List.append_nil] at hmore
          rw [hnone, List.nil_append] at hframes
          exact ⟨hmore, hframes.symm⟩
      obtain ⟨groups, hgroups⟩ := hwhole (congrArg List.length hfirst.2.symm)
      refine ⟨groups, ?_, [], by rw [hfirst.1, hgroups, List.append_nil], Or.inr ⟨rfl, rfl⟩⟩
      rw [List.append_nil]
      apply encodeAll_injective
      rw [← flatten_map_encodeAll, ← hgroups]
      exact hfirst.2
    · rw [if_pos hclosed, hevents] at h
      cases h

/-- **Frames and reads.** With reads that are the handshake response and then, up to the first CLOSE, whole
frames, the client connects and calls `onMessage` for every TEXT and BINARY frame, in order, if and only if
none of them is behind a CLOSE where it is not handled. For a stream of TEXT and BINARY frames it does so
with no other reads. -/
theorem frames_survive_iff (lib : HttpLibrary) (nonce handshake : Bytes) (hvalid : ValidHandshake lib nonce handshake)
    (frames : List ServerFrame) (reads : List (Option Read))
    (hstream : (received reads).flatten = handshake ++ encodeAll frames) (calls : ℕ)
    (hcalls : recvs (reads.map arrival) ≤ calls) :
    let client := ((connect .NONE (connecting nonce) (reads.map arrival)).handleReads (dataCallback lib) calls).callbackState
    (∀ groups unread, Aligned handshake frames (received reads) groups unread →
      (client.events = .connected :: payloads frames ↔ ∀ f ∈ behindClose groups ++ unread, ¬ f.CarriesData)) ∧
    ((∀ f ∈ frames, f.CarriesData) →
      (client.events = .connected :: payloads frames ↔ ∃ groups, Aligned handshake frames (received reads) groups [])) := by
  intro client
  have hclient : client = feed (dataCallback lib) (connecting nonce) (received reads) :=
    handleReads_raw (dataCallback lib) (connecting nonce) reads hcalls
  rw [hclient]
  refine ⟨fun groups unread => feed_aligned hvalid, fun hdata => ⟨?_, ?_⟩⟩
  · exact aligned_of_survives hvalid hdata (received_nonempty reads) hstream
  · rintro ⟨groups, haligned⟩
    have hframes := haligned.frames
    rw [List.append_nil] at hframes
    refine (feed_aligned hvalid haligned).mpr ?_
    rw [behindClose_of_data (hframes.symm ▸ hdata)]
    nofun

/-! ## A response and a frame -/

def decimal (s : Bytes) : Option ℕ :=
  if s ≠ [] ∧ s.all (fun c => 48 ≤ c && c ≤ 57) = true then some (s.foldl (fun n c => 10 * n + (c.toNat - 48)) 0)
  else none

/-- The library where the only hash is the one of `sampleNonce`. -/
def sampleLibrary : HttpLibrary where
  toUnsigned := decimal
  toSize s := (decimal s).getD 0
  sha1Base64 _ := ascii "s3pPLMBiTxaQ9kYGzzhZRbK+xOo="

def sampleNonce : Bytes := ascii "dGhlIHNhbXBsZSBub25jZQ=="

@[irreducible] def sampleHandshake : Bytes := ascii ("HTTP/1.1 101 Switching Protocols\r\nUpgrade: websocket\r\n" ++
  "Connection: Upgrade\r\nSec-WebSocket-Accept: s3pPLMBiTxaQ9kYGzzhZRbK+xOo=\r\n\r\n")

def sampleText : ServerFrame := ⟨1, ascii "hi", by decide⟩

theorem sampleHandshake_valid : ValidHandshake sampleLibrary sampleNonce sampleHandshake :=
  ⟨by decide +kernel, by decide +kernel⟩

def sampleResponse : Read := ⟨sampleHandshake, by decide +kernel⟩

theorem aligned_text_survives :
    let incoming := [some sampleResponse, none, some ⟨sampleText.encode, by decide +kernel⟩].map arrival
    ((connect .NONE (connecting sampleNonce) incoming).handleReads (dataCallback sampleLibrary)
      (recvs incoming)).callbackState.events = [.connected, .onMessage (ascii "hi")] := by
  intro incoming
  have hsurvives := (frames_survive_iff sampleLibrary sampleNonce sampleHandshake sampleHandshake_valid [sampleText]
    [some sampleResponse, none, some ⟨sampleText.encode, by decide +kernel⟩] rfl (recvs incoming) le_rfl).1 [[sampleText]] []
    ⟨rfl, [], rfl, Or.inr ⟨rfl, rfl⟩⟩
  exact hsurvives.mpr nofun

/-- One read with the response and the frame: the frame is lost. -/
theorem text_behind_handshake_lost :
    let reads : List (Option Read) := [some ⟨sampleHandshake ++ sampleText.encode, by decide +kernel⟩]
    let incoming := reads.map arrival
    ValidHandshake sampleLibrary sampleNonce sampleHandshake ∧
      (received reads).flatten = sampleHandshake ++ encodeAll [sampleText] ∧
      ((connect .NONE (connecting sampleNonce) incoming).handleReads (dataCallback sampleLibrary)
        (recvs incoming)).callbackState.events ≠ .connected :: payloads [sampleText] := by
  intro reads incoming
  refine ⟨sampleHandshake_valid, List.append_nil _, ?_⟩
  rw [handleReads_raw (dataCallback sampleLibrary) (connecting sampleNonce) reads le_rfl]
  decide +kernel

end WebSocketClient
end Husarnet
