import Husarnet.TcpConnection

/-! # Reassembly of packets

An encapsulated connection gives its data callback the packets of the stream, however `recv` cuts
it. What the buffer has after a read is what the loop over the packets would leave of all bytes
received so far; a frame with no payload waits there until another byte is behind it.
-/

namespace Husarnet
open Octets Framing
set_option autoImplicit false

namespace TcpConnection

def deliver (delivered : List Bytes) (packet : Bytes) : List Bytes × Bool := (delivered ++ [packet], false)

/-! ## Frames -/

/-- The length is below the buffer limit. -/
def WellFormed (packet : Bytes) : Prop := 5 + packet.length < TCP_READ_BUFFER

def frame (packet : Bytes) : Bytes := encapsulate .FRAMED_TLS_MASKED packet

theorem frame_eq (packet : Bytes) : frame packet = TLS_HEADER ++ (pack16 (UInt16.ofNat packet.length) ++ packet) :=
  List.append_assoc ..

theorem frame_length (packet : Bytes) : (frame packet).length = 5 + packet.length := by
  rw [frame_eq, List.length_append, List.length_append, pack16_length, ← Nat.add_assoc]
  rfl

theorem leNat_pack16 {n : ℕ} (h : n < TCP_READ_BUFFER) : leNat (pack16 (UInt16.ofNat n)) = n := by
  have hn : (UInt16.ofNat n).toNat = n := by
    rw [UInt16.toNat_ofNat']
    exact Nat.mod_eq_of_lt (h.trans (by decide))
  rw [pack16, hn, leNat_leBytes_of_lt (h.trans (by decide))]

theorem header_frame (packet arrived : Bytes) : slice (frame packet ++ arrived) 0 3 = TLS_HEADER := by
  rw [frame_eq, List.append_assoc]
  exact slice_field_first _ rfl

theorem expectedSize_frame {packet : Bytes} (arrived : Bytes) (h : WellFormed packet) :
    expectedSize (frame packet ++ arrived) = packet.length := by
  rw [WellFormed] at h
  rw [expectedSize, frame_eq, List.append_assoc, List.append_assoc, slice_field_next _ 2 (m := 3) rfl le_rfl,
    slice_field_first _ (pack16_length _), leNat_pack16 (by omega)]

theorem payload_frame (packet arrived : Bytes) : slice (frame packet ++ arrived) 5 packet.length = packet := by
  rw [frame_eq, List.append_assoc, List.append_assoc, slice_field_next _ _ (m := 3) rfl (by decide),
    slice_field_next _ _ (pack16_length _) (by decide)]
  exact slice_field_first _ rfl

theorem nextPacket_frame {packet : Bytes} (arrived : Bytes) (h : WellFormed packet)
    (hlong : 0 < packet.length + arrived.length) :
    nextPacket (frame packet ++ arrived) = .packet packet (frame packet).length := by
  have hlen : (frame packet ++ arrived).length = 5 + packet.length + arrived.length := by
    rw [List.length_append, frame_length]
  have hsize := expectedSize_frame arrived h
  have hcases := nextPacket_cases (frame packet ++ arrived)
  generalize nextPacket (frame packet ++ arrived) = front at hcases
  cases hcases with
  | short hshort => omega
  | badHeader _ hheader => exact absurd (header_frame packet arrived) hheader
  | tooLarge _ _ hlarge =>
    rw [WellFormed] at h
    omega
  | packet _ _ _ _ => rw [hsize, payload_frame, frame_length]
  | incomplete _ _ _ hpart => omega

/-- What is read from the front is a well-formed frame. -/
theorem take_nextPacket {buffer p : Bytes} {n : ℕ} (h : nextPacket buffer = .packet p n) :
    buffer.take n = frame p ∧ WellFormed p ∧ n = 5 + p.length := by
  have hcases := nextPacket_cases buffer
  rw [h] at hcases
  cases hcases with
  | packet hlen hheader hsize hfull =>
    have hpayload : (slice buffer 5 (expectedSize buffer)).length = expectedSize buffer := slice_length hfull
    have hlength : (slice buffer 3 2).length = 2 := slice_length (by omega)
    have hpack : pack16 (UInt16.ofNat (expectedSize buffer)) = slice buffer 3 2 := by
      have hlt : expectedSize buffer < 65536 := by
        have hbytes := leNat_lt (slice buffer 3 2)
        rw [hlength] at hbytes
        exact hbytes
      have hbytes := leBytes_leNat (slice buffer 3 2)
      rw [hlength] at hbytes
      rw [pack16, UInt16.toNat_ofNat', Nat.mod_eq_of_lt hlt]
      exact hbytes
    refine ⟨?_, ?_, ?_⟩
    · rw [frame_eq, hpayload, hpack, ← hheader]
      have hall : buffer = slice buffer 0 3 ++ (slice buffer 3 2 ++ buffer.drop 5) := by
        rw [← drop_eq_slice_append buffer 3 2, ← drop_eq_slice_append buffer 0 3]
        rfl
      have htake : buffer.take (5 + expectedSize buffer) = buffer.take 5 ++ slice buffer 5 (expectedSize buffer) :=
        List.take_add
      have hfive : buffer.take 5 = slice buffer 0 3 ++ slice buffer 3 2 := by
        have h35 : buffer.take (3 + 2) = buffer.take 3 ++ slice buffer 3 2 := List.take_add
        exact h35
      rw [htake, hfive, List.append_assoc]
    · rw [WellFormed, hpayload]
      exact hsize
    · rw [hpayload]

/-! ## The longest well-formed part of a stream -/

/-- `s` is the frames of `ps` and `rest`, which has no well-formed frame at its front. -/
structure LongestPart (s : Bytes) (ps : List Bytes) (rest : Bytes) : Prop where
  stream_eq : s = ps.flatMap frame ++ rest
  well_formed : ∀ p ∈ ps, WellFormed p
  longest : ∀ p later, WellFormed p → rest ≠ frame p ++ later

/-- More than a header is there, and it is not one, or it announces too much. -/
def Malformed (rest : Bytes) : Prop :=
  5 < rest.length ∧ (slice rest 0 3 ≠ TLS_HEADER ∨ TCP_READ_BUFFER ≤ 5 + expectedSize rest)

/-- The packets without an empty one that ends the stream. -/
def delivered (ps : List Bytes) (rest : Bytes) : List Bytes :=
  if rest = [] ∧ ps.getLast? = some [] then ps.dropLast else ps

theorem closed_iff_malformed (s : Bytes) :
    (packets.drain s).exit = .closed ↔ Malformed (packets.drain s).rest := by
  have hcases := nextPacket_cases (packets.drain s).rest
  rw [nextPacket_rest] at hcases
  generalize (packets.drain s).exit = exit at hcases
  rw [Malformed]
  cases hcases with
  | short hlen => exact ⟨nofun, fun h => absurd h.1 (not_lt.mpr hlen)⟩
  | badHeader hlen hheader => exact ⟨fun _ => ⟨hlen, Or.inl hheader⟩, fun _ => rfl⟩
  | tooLarge hlen _ hsize => exact ⟨fun _ => ⟨hlen, Or.inr hsize⟩, fun _ => rfl⟩
  | incomplete _ hheader hsize _ =>
    refine ⟨nofun, fun h => ?_⟩
    rcases h.2 with h | h
    · exact absurd hheader h
    · omega

theorem drain_decodes (s : Bytes) : s = (packets.drain s).packets.flatMap frame ++ (packets.drain s).rest :=
  Framer.drain_decodes (fun h => (take_nextPacket h).1) s

theorem drain_well_formed (s : Bytes) : ∀ p ∈ (packets.drain s).packets, WellFormed p := by
  induction s using Framer.drain.induct packets with
  | case1 s why h =>
    rw [Framer.drain_stop h]
    exact List.forall_mem_nil _
  | case2 s p n h ih =>
    rw [Framer.drain_packet h]
    intro q hq
    rcases List.mem_append.mp hq with hq | hq
    · rw [List.mem_singleton.mp hq]
      exact (take_nextPacket h).2.1
    · exact ih q hq

theorem last_empty_rest {s : Bytes} (h : (packets.drain s).packets.getLast? = some []) :
    (packets.drain s).rest ≠ [] := by
  induction s using Framer.drain.induct packets with
  | case1 s why hs =>
    rw [Framer.drain_stop hs] at h
    cases h
  | case2 s p n hs ih =>
    rw [Framer.drain_packet hs] at h ⊢
    rw [Drained.before_packets, List.singleton_append, List.getLast?_cons] at h
    cases hrest : (packets.drain (s.drop n)).packets.getLast? with
    | some q =>
      rw [hrest] at h
      exact ih (hrest.trans h)
    | none =>
      rw [hrest] at h
      have hp : p = [] := Option.some.inj h
      have hn := (take_nextPacket hs).2.2
      have hnone := List.getLast?_eq_none_iff.mp hrest
      have hcases := nextPacket_cases s
      rw [show nextPacket s = .packet p n from hs] at hcases
      have hlen : 5 < s.length := by
        cases hcases with
        | packet hlen _ _ _ => exact hlen
      have hall := drain_decodes (s.drop n)
      rw [hnone, List.flatMap_nil, List.nil_append] at hall
      rw [Drained.before_rest, ← hall, ← List.length_pos_iff, List.length_drop, hn, hp]
      exact Nat.sub_pos_of_lt hlen

/-- **What the loop over the packets does to a stream.** -/
theorem drain_longestPart (s : Bytes) :
    ∃ ps rest, LongestPart s ps rest ∧ (packets.drain s).packets = delivered ps rest ∧
      ((packets.drain s).exit = .closed ↔ Malformed rest) := by
  by_cases hempty : (packets.drain s).rest = frame []
  · refine ⟨(packets.drain s).packets ++ [[]], [], ⟨?_, ?_, ?_⟩, ?_, ?_⟩
    · rw [List.flatMap_append, List.append_nil, List.flatMap_singleton, ← hempty]
      exact drain_decodes s
    · intro p hp
      rcases List.mem_append.mp hp with hp | hp
      · exact drain_well_formed s p hp
      · rw [List.mem_singleton.mp hp, WellFormed]
        decide
    · intro p later _ hnil
      have hlen := congrArg List.length hnil
      rw [List.length_append, frame_length, List.length_nil] at hlen
      omega
    · rw [delivered, if_pos ⟨rfl, List.getLast?_concat⟩, List.dropLast_concat]
    · rw [closed_iff_malformed, hempty]
      exact ⟨fun h => absurd h.1 (by decide), fun h => absurd h.1 (by decide)⟩
  · refine ⟨(packets.drain s).packets, (packets.drain s).rest, ⟨drain_decodes s, drain_well_formed s, ?_⟩, ?_,
      closed_iff_malformed s⟩
    · intro p later hwell hfront
      have hnext := nextPacket_rest s
      rw [hfront] at hnext
      by_cases hlong : 0 < p.length + later.length
      · rw [nextPacket_frame later hwell hlong] at hnext
        cases hnext
      · have hp : p = [] := List.eq_nil_of_length_eq_zero (by omega)
        have hlater : later = [] := List.eq_nil_of_length_eq_zero (by omega)
        rw [hp, hlater, List.append_nil] at hfront
        exact hempty hfront
    · rw [delivered, if_neg]
      rintro ⟨hrest, hlast⟩
      exact last_empty_rest hlast hrest

/-! ## Reading a stream -/

/-- The connection is at a point of the stream `s`: it delivered, and its buffer is, what the loop
over the packets makes of the bytes received. -/
structure Follows (s : Bytes) (conn : TcpConnection (List Bytes)) : Prop where
  framed : conn.encapsulation = .FRAMED_TLS_MASKED
  unbroken : Arrival.failed ∉ conn.incoming
  drained : ∃ received exit, s = received ++ stream conn.incoming ∧
    packets.drain received = ⟨conn.callbackState, conn.readBuffer, exit⟩ ∧ (conn.fd = false ↔ exit = .closed)

theorem foldl_deliver (conn : TcpConnection (List Bytes)) (views : List Bytes) :
    views.foldl (handOver deliver) conn = { conn with callbackState := conn.callbackState ++ views } := by
  induction views generalizing conn with
  | nil => rw [List.append_nil, List.foldl_nil]
  | cons view views ih =>
    have hfd : (conn.fd && true) = conn.fd := Bool.and_true ..
    rw [List.foldl_cons, ih, handOver, deliver]
    simp only [Bool.not_false, hfd, List.append_assoc, List.singleton_append]

/-- The second half of a turn, on a buffer that stands for the bytes received. -/
theorem follows_handleBuffer {s received : Bytes} {conn : TcpConnection (List Bytes)}
    (hframed : conn.encapsulation = .FRAMED_TLS_MASKED) (hunbroken : Arrival.failed ∉ conn.incoming)
    (hstream : s = received ++ stream conn.incoming)
    (hdrain : packets.drain received = (packets.drain conn.readBuffer).before conn.callbackState)
    (hfd : conn.fd = false → (packets.drain conn.readBuffer).exit = .closed) :
    Follows s (conn.handleBuffer deliver).2 := by
  have hafter (exit : ReadExit) (he : (packets.drain conn.readBuffer).exit = exit) :
      packets.drain received =
        ⟨conn.callbackState ++ (packets.drain conn.readBuffer).packets, (packets.drain conn.readBuffer).rest, exit⟩ := by
    rw [hdrain, ← he]
    rfl
  rw [handleBuffer, hframed]
  dsimp only
  rw [foldl_deliver]
  split
  · rename_i he
    exact ⟨hframed, hunbroken, received, _, hstream, hafter _ he, fun h => he.symm.trans (hfd h), fun h => by cases h⟩
  · rename_i he
    exact ⟨hframed, hunbroken, received, _, hstream, hafter _ he, fun _ => rfl, fun _ => rfl⟩
  · rename_i he
    exact ⟨hframed, hunbroken, received, _, hstream, hafter _ he, fun h => he.symm.trans (hfd h), fun h => by cases h⟩

theorem follows_turn {s : Bytes} {conn : TcpConnection (List Bytes)} (h : Follows s conn) :
    Follows s (conn.turn deliver).2 := by
  obtain ⟨hframed, hunbroken, received, exit, hstream, hdrain, hfd⟩ := h
  have hreceived := receive_received conn
  rw [turn]
  generalize conn.receive = r at hreceived
  cases hreceived with
  | full _ =>
    have hagain := Framer.drain_rest (F := packets) received
    rw [hdrain] at hagain
    refine follows_handleBuffer hframed hunbroken hstream ?_ ?_
    · rw [hdrain, hagain, Drained.before, List.append_nil]
    · intro hclosed
      rw [hagain]
      exact hfd.mp hclosed
  | data bytes later fits hopen hbytes _ _ hfailed =>
    have hexit : exit ≠ .closed := fun he => by
      rw [hfd.mpr he] at hopen
      cases hopen
    have hgoes : packets.final (packets.drain received).exit = false := by
      rw [hdrain]
      exact beq_eq_false_iff_ne.mpr hexit
    have hmore := Framer.drain_append bytes hgoes
    rw [hdrain] at hmore
    refine follows_handleBuffer hframed (fun hf => hunbroken (hfailed hf)) ?_ hmore ?_
    · rw [hstream, hbytes, List.append_assoc]
    · intro hclosed
      have hclosed : conn.fd = false := hclosed
      rw [hclosed] at hopen
      cases hopen
  | waits later _ hbytes _ hfailed =>
    exact ⟨hframed, fun hf => hunbroken (hfailed hf), received, exit, hbytes ▸ hstream, hdrain, hfd⟩
  | fails later hfailed =>
    obtain ⟨hclosed, rfl⟩ := hfailed.resolve_right fun h => hunbroken h.1
    exact ⟨hframed, hunbroken, received, exit, hstream, hdrain, fun _ => hfd.mp hclosed, fun _ => rfl⟩

theorem follows_connect {incoming : List Arrival} (h : Arrival.failed ∉ incoming) :
    Follows (stream incoming) (connect .FRAMED_TLS_MASKED [] incoming) :=
  ⟨rfl, h, [], .returned, rfl, Framer.drain_stop rfl, nofun, nofun⟩

theorem available_pos {s : Bytes} {conn : TcpConnection (List Bytes)} (h : Follows s conn) (hopen : conn.fd = true) :
    0 < conn.available := by
  obtain ⟨-, -, received, exit, -, hdrain, hfd⟩ := h
  have hlt : (packets.drain received).exit ≠ .closed → (packets.drain received).rest.length < TCP_READ_BUFFER :=
    rest_length_lt
  rw [hdrain] at hlt
  refine Nat.sub_pos_of_lt (hlt fun he => ?_)
  rw [hfd.mpr he] at hopen
  cases hopen

/-- As many calls as there are results of `recv` read all of them, or the connection is closed before. -/
theorem handleReads_all {s : Bytes} {conn : TcpConnection (List Bytes)} (h : Follows s conn) {calls : ℕ}
    (hcalls : recvs conn.incoming ≤ calls) :
    (conn.handleReads deliver calls).fd = false ∨ stream (conn.handleReads deliver calls).incoming = [] := by
  induction calls generalizing conn with
  | zero =>
    refine Or.inr (List.eq_nil_of_length_eq_zero (Nat.le_zero.mp ?_))
    exact (stream_length_le conn.incoming).trans hcalls
  | succ calls ih =>
    cases hfd : conn.fd with
    | false =>
      left
      exact handleReads_invariant (I := fun c => c.fd = false) (fun c hc => turn_closed deliver hc) _ hfd
    | true =>
      have hless := handleRead_recvs deliver hfd (available_pos h hfd)
      exact ih (handleRead_invariant (fun c hc => follows_turn hc) h) (by omega)

/-- **Reading a stream.** However it is cut, the packets of the whole stream are delivered, and the
connection is closed if its loop over the packets closes it. -/
theorem handleReads_drained {incoming : List Arrival} (h : Arrival.failed ∉ incoming) {calls : ℕ}
    (hcalls : recvs incoming ≤ calls) :
    let conn := (connect .FRAMED_TLS_MASKED [] incoming).handleReads deliver calls
    conn.callbackState = (packets.drain (stream incoming)).packets ∧
      (conn.fd = false ↔ (packets.drain (stream incoming)).exit = .closed) := by
  intro conn
  have hfollows : Follows (stream incoming) conn :=
    handleReads_invariant (fun c hc => follows_turn hc) calls (follows_connect h)
  obtain ⟨-, -, received, exit, hstream, hdrain, hfd⟩ := hfollows
  rcases handleReads_all (follows_connect h) hcalls with hclosed | hall
  · have hfinal := Framer.drain_append_final (F := packets) (s := received) (stream conn.incoming)
    rw [hdrain] at hfinal
    rw [hstream, hfinal (beq_iff_eq.mpr (hfd.mp hclosed))]
    exact ⟨rfl, hfd⟩
  · have hall : stream conn.incoming = [] := hall
    rw [hall, List.append_nil] at hstream
    rw [hstream, hdrain]
    exact ⟨rfl, hfd⟩

/-- **Reassembly.** Packets of 1 to 1994 bytes that were written on an encapsulated connection
arrive one by one and unchanged, however `recv` cuts the stream. Of any stream the frames of the
longest well-formed part are delivered, but for an empty one at the end of all bytes, and the
connection is closed if what follows them is longer than a header and is malformed. -/
theorem stream_reassembled :
    (∀ (writes : List (Segment × List ℕ)) (incoming : List Arrival) (calls : ℕ),
      (∀ w ∈ writes, w.1.1.length ≤ 1994 ∧ (write .FRAMED_TLS_MASKED w.1 w.2).2 = true) →
      Arrival.failed ∉ incoming →
      stream incoming = writes.flatMap (fun w => (write .FRAMED_TLS_MASKED w.1 w.2).1) →
      recvs incoming ≤ calls →
      let conn := (connect .FRAMED_TLS_MASKED [] incoming).handleReads deliver calls
      conn.callbackState = writes.map (fun w => w.1.1) ∧ conn.fd = true) ∧
    ∀ (incoming : List Arrival) (calls : ℕ), Arrival.failed ∉ incoming → recvs incoming ≤ calls →
      let conn := (connect .FRAMED_TLS_MASKED [] incoming).handleReads deliver calls
      ∃ ps rest, LongestPart (stream incoming) ps rest ∧ conn.callbackState = delivered ps rest ∧
        (conn.fd = false ↔ Malformed rest) := by
  refine ⟨fun writes incoming calls hwrites hunbroken hstream hcalls => ?_, fun incoming calls hunbroken hcalls => ?_⟩
  · obtain ⟨hdelivered, hfd⟩ := handleReads_drained hunbroken hcalls
    have hdrain : packets.drain (stream incoming) = (packets.drain []).before (writes.map (fun w => w.1.1)) := by
      rw [hstream, ← List.append_nil (writes.flatMap (fun w => (write .FRAMED_TLS_MASKED w.1 w.2).1))]
      refine Framer.drain_encoded _ _ [] fun w hw later => ?_
      obtain ⟨hlen, hok⟩ := hwrites w hw
      have hpos := List.length_pos_iff.mpr w.1.2
      rw [write_ok hok]
      exact nextPacket_frame later (by rw [WellFormed, TCP_READ_BUFFER]; omega) (by omega)
    have hnil : packets.drain [] = ⟨[], [], .returned⟩ := Framer.drain_stop rfl
    rw [hdrain, hnil] at hdelivered hfd
    refine ⟨hdelivered.trans (List.append_nil _), ?_⟩
    exact Bool.of_not_eq_false fun hclosed => by cases hfd.mp hclosed
  · obtain ⟨hdelivered, hfd⟩ := handleReads_drained hunbroken hcalls
    obtain ⟨ps, rest, hlongest, hpackets, hexit⟩ := drain_longestPart (stream incoming)
    exact ⟨ps, rest, hlongest, hdelivered.trans hpackets, hfd.trans hexit⟩

theorem cut_header_reassembled :
    let incoming : List Arrival := [.bytes ⟨[0x17, 0x03], by decide⟩, .wouldBlock, .bytes ⟨[0x03, 0x01, 0x00, 0x41], by decide⟩]
    let conn := (connect .FRAMED_TLS_MASKED [] incoming).handleReads deliver 7
    conn.callbackState = [[0x41]] ∧ conn.fd = true := by
  intro incoming
  refine stream_reassembled.1 [(⟨[0x41], by decide⟩, [6])] incoming 7 ?_ (by decide) (by decide) (by decide)
  intro w hw
  rw [List.mem_singleton.mp hw]
  decide

/-- An empty frame is well formed, and is not delivered. -/
theorem empty_frame_waits :
    let incoming : List Arrival := [.bytes ⟨frame [], by decide⟩]
    let conn := (connect .FRAMED_TLS_MASKED [] incoming).handleReads deliver 5
    ¬ ∃ ps rest, LongestPart (stream incoming) ps rest ∧ conn.callbackState = ps := by
  rintro incoming conn ⟨ps, rest, hlongest, hps⟩
  have hunbroken : Arrival.failed ∉ incoming := by decide
  have hdelivered : conn.callbackState = (packets.drain (stream incoming)).packets :=
    (handleReads_drained hunbroken (by decide)).1
  have hnone : packets.drain (stream incoming) = ⟨[], stream incoming, .returned⟩ := Framer.drain_stop rfl
  rw [hnone] at hdelivered
  rw [← hps, hdelivered] at hlongest
  exact hlongest.longest [] [] (by rw [WellFormed]; decide) hlongest.stream_eq.symm

end TcpConnection
end Husarnet
