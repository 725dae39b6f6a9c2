import Husarnet.WebSocketFrames

/-! # websocket.cpp and the two build types

The reply to a PING is encoded in the argument of an `assert`. The repository's build script makes Debug and Release
builds, and a Release build has no such argument: what is sent there is a buffer that nothing was written to.
-/

namespace Husarnet
open Octets Framing
set_option autoImplicit false

namespace TcpConnection

/-! ## What send takes of a packet -/

/-- `send` takes some bytes each time until it has taken `n`. -/
def TakesAll (n : ℕ) (sends : List ℕ) : Prop := ∃ k, n ≤ (sends.take k).sum ∧ ∀ taken ∈ sends.take k, taken ≠ 0

theorem takesAll_cons {n taken : ℕ} (hpos : 0 < taken) (hn : taken < n) (later : List ℕ) :
    TakesAll n (taken :: later) ↔ TakesAll (n - taken) later := by
  constructor
  · rintro ⟨k, hsum, hsome⟩
    cases k with
    | zero =>
      rw [List.take_zero, List.sum_nil] at hsum
      omega
    | succ k =>
      rw [List.take_succ_cons, List.sum_cons] at hsum
      rw [List.take_succ_cons] at hsome
      exact ⟨k, by omega, fun t ht => hsome t (List.mem_cons_of_mem _ ht)⟩
  · rintro ⟨k, hsum, hsome⟩
    refine ⟨k + 1, ?_, ?_⟩
    · rw [List.take_succ_cons, List.sum_cons]
      omega
    · rw [List.take_succ_cons]
      exact List.forall_mem_cons.mpr ⟨by omega, hsome⟩

/-- What goes out of a packet is its front. -/
theorem sendAll_prefix (packet : Bytes) (sends : List ℕ) : (sendAll packet sends).1 <+: packet := by
  induction sends generalizing packet with
  | nil => exact List.nil_prefix
  | cons taken later ih =>
    rw [sendAll]
    dsimp only
    split
    · exact List.nil_prefix
    · split
      · exact List.prefix_rfl
      · have hrest := ih (packet.drop (min taken packet.length))
        have hfront := (List.prefix_append_right_inj (packet.take (min taken packet.length))).mpr hrest
        rwa [List.take_append_drop] at hfront

theorem sendAll_length_le (packet : Bytes) (sends : List ℕ) : (sendAll packet sends).1.length ≤ packet.length := by
  have hsent := sendAll_prefix packet sends
  exact hsent.length_le

/-- All of a packet is on the wire exactly if `send` takes it all. -/
theorem sendAll_whole_iff {packet : Bytes} (hne : packet ≠ []) (sends : List ℕ) :
    (sendAll packet sends).1.length = packet.length ↔ TakesAll packet.length sends := by
  induction sends generalizing packet with
  | nil =>
    have hpos := List.length_pos_of_ne_nil hne
    constructor
    · intro h
      rw [sendAll, List.length_nil] at h
      omega
    · rintro ⟨k, hsum, -⟩
      rw [List.take_nil, List.sum_nil] at hsum
      omega
  | cons taken later ih =>
    have hpos := List.length_pos_of_ne_nil hne
    rw [sendAll]
    dsimp only
    by_cases hnone : taken = 0
    · have hmin : min taken packet.length = 0 := by omega
      rw [if_pos hmin]
      constructor
      · intro h
        rw [List.length_nil] at h
        omega
      · rintro ⟨k, hsum, hsome⟩
        cases k with
        | zero =>
          rw [List.take_zero, List.sum_nil] at hsum
          omega
        | succ k => exact absurd hnone (hsome taken (by simp))
    · by_cases hall : packet.length ≤ taken
      · have hmin : min taken packet.length = packet.length := by omega
        rw [if_neg (by omega), if_pos hmin]
        refine iff_of_true rfl ⟨1, ?_, ?_⟩
        · rw [List.take_succ_cons, List.take_zero, List.sum_singleton]
          exact hall
        · rw [List.take_succ_cons, List.take_zero]
          simpa using hnone
      · have hmin : min taken packet.length = taken := by omega
        have hdrop : packet.drop taken ≠ [] := fun hnil => hall (List.drop_eq_nil_iff.mp hnil)
        have hlength : (packet.take taken).length = taken := by
          rw [List.length_take]
          exact hmin
        have hrest := ih hdrop
        rw [List.length_drop] at hrest
        rw [hmin, if_neg hnone, if_neg (by omega), takesAll_cons (by omega) (by omega), ← hrest]
        dsimp only
        rw [List.length_append, hlength]
        omega

end TcpConnection

namespace WebSocketClient

/-! ## The client and its wire -/

/-- The two build types of build.sh. -/
inductive BuildType where
  | Debug
  | Release
  deriving DecidableEq

/-- How the client was built and what it is given: the masking key of the `n`-th reply, and what `send` takes during
the `n`-th write. -/
structure Env where
  build : BuildType
  char : CharSign
  maskingKey : ℕ → FString 4
  sends : ℕ → List ℕ

/-- The client, the bytes it has written and the number of its writes. -/
structure OnWire where
  ws : WebSocketClient
  wire : Bytes
  writes : ℕ

/-- `assert(message.encode(buf))` on an empty buffer. NDEBUG takes the argument away, and the call with it. -/
def assertEncode (build : BuildType) (message : Message) (maskingKey : FString 4) : Option Bytes :=
  match build with
  | .Debug =>
    match message.encode maskingKey.bytes with
    | .ok buf => some buf
    | .error _ => none
  | .Release => some []

/-- The reply to a PING. -/
def pongOf (message : Message) : Message :=
  { message with opcode := Opcode.PONG, masked := true, flags := { message.flags with fin := true } }

namespace OnWire
variable (env : Env)

/-- `_sendRaw` needs a connection, and `write` asserts that there is a packet. What `write` returns is only logged. -/
def sendRaw (o : OnWire) (message : Message) (buf : Bytes) : OnWire :=
  let ws := o.ws.sendReply message
  if ws.aborted = true ∨ env.build = .Debug ∧ buf = [] then { o with ws := { ws with aborted := true } }
  else ⟨ws, o.wire ++ (TcpConnection.sendAll buf (env.sends o.writes)).1, o.writes + 1⟩

def sendMessage (o : OnWire) (message : Message) : OnWire :=
  match assertEncode env.build message (env.maskingKey o.writes) with
  | none => { o with ws := { o.ws with aborted := true } }
  | some buf => o.sendRaw env message buf

def sendPong (o : OnWire) (message : Message) : OnWire := o.sendMessage env (pongOf message)

def sendClose (o : OnWire) : OnWire := o.sendMessage env ⟨⟨true, false, false, false⟩, Opcode.CLOSE, true, []⟩

def handleMessage (o : OnWire) (message : Message) : OnWire :=
  if o.ws.aborted = true then o
  else if message.opcode = Opcode.TEXT ∨ message.opcode = Opcode.BINARY then
    { o with ws := { o.ws with events := o.ws.events ++ [.onMessage message.data] } }
  else if message.opcode = Opcode.PING then o.sendPong env message
  else if message.opcode = Opcode.PONG then o
  else if message.opcode = Opcode.CLOSE then
    let o := sendClose env { o with ws := { o.ws with state := .WS_CLOSING } }
    if o.ws.aborted = true then o else { o with ws := o.ws.close }
  else o

def handleData (o : OnWire) (buf : Bytes) : OnWire :=
  let drained := (messagesOn env.char).drain buf
  let o := drained.packets.foldl (handleMessage env) o
  match drained.exit with
  | .invalid => o
  | .overflow => { o with ws := { o.ws with aborted := true } }

def handleRead (lib : HttpLibrary) (o : OnWire) (buf : Bytes) : OnWire :=
  match o.ws.state with
  | .SOCK_CLOSED => o
  | .WS_CLOSED => o
  | .WS_CONNECTING => { o with ws := o.ws.handleHandshake lib buf }
  | .WS_OPEN => o.handleData env buf
  | .WS_CLOSING => o.handleData env buf

end OnWire

/-- A message that fits has its bytes, or none in a Release build: no assertion fails for it. -/
theorem assertEncode_some (build : BuildType) {message : Message} (maskingKey : FString 4)
    (hdata : message.data.length ≤ DATA_CAPACITY) :
    ∃ buf, assertEncode build message maskingKey = some buf ∧ ¬ (build = .Debug ∧ buf = []) := by
  cases build with
  | Debug =>
    obtain ⟨byte, ext, hencode, -⟩ := encode_ok maskingKey.size_eq hdata
    generalize hbuf : message.flagsByte :: byte :: _ = buf at hencode
    refine ⟨buf, by rw [assertEncode, hencode], fun h => ?_⟩
    rw [← hbuf] at h
    cases h.2
  | Release => exact ⟨[], rfl, fun h => absurd h.1 (by decide)⟩

/-! ## The frames of a read -/

/-- A whole frame with up to 125 bytes of data, however its length is written. -/
structure SmallFrame (frame : Bytes) : Prop where
  whole : frontSize frame + announcedLength frame = frame.length
  small : announcedLength frame ≤ 125
  opcode : (frameMessage frame).opcode ∈ [Opcode.TEXT, Opcode.BINARY, Opcode.PONG, Opcode.PING]

def IsPing (frame : Bytes) : Prop := (frameMessage frame).opcode = Opcode.PING

instance (frame : Bytes) : Decidable (IsPing frame) := inferInstanceAs (Decidable (_ = _))

/-- A final frame without extensions; the client has no others. -/
def Supported (frame : Bytes) : Prop := frame.getD 0 0 &&& 0xF0 = 0x80

instance (frame : Bytes) : Decidable (Supported frame) := inferInstanceAs (Decidable (_ = _))

theorem byte_le_fold {bytes : Bytes} (n : ℕ) :
    n ≤ bytes.foldl (fun n b => 256 * n + b.toNat) n ∧
      ∀ b ∈ bytes, b.toNat ≤ bytes.foldl (fun n b => 256 * n + b.toNat) n := by
  induction bytes generalizing n with
  | nil => exact ⟨le_rfl, by simp⟩
  | cons c bytes ih =>
    obtain ⟨hstart, hbytes⟩ := ih (256 * n + c.toNat)
    rw [List.foldl_cons]
    exact ⟨by omega, List.forall_mem_cons.mpr ⟨by omega, hbytes⟩⟩

/-- Every target reads a length below 128. -/
theorem SmallFrame.plain {frame : Bytes} (h : SmallFrame frame) (char : CharSign) : Plain char (extendedBytes frame) := by
  intro _ b hb
  have hsmall := h.small
  rw [announcedLength] at hsmall
  split at hsmall
  · rename_i hshort
    rw [extendedBytes, extendedSize, if_pos hshort, slice, List.take_zero] at hb
    cases hb
  · have hle : b.toNat ≤ beNat (extendedBytes frame) := (byte_le_fold 0).2 b hb
    exact UInt8.lt_iff_toNat_lt.mpr (lt_of_le_of_lt (hle.trans hsmall) (by decide))

theorem SmallFrame.parse {frame : Bytes} (h : SmallFrame frame) (hsupported : Supported frame) (char : CharSign)
    (behind : Bytes) : parseOn char (frame ++ behind) = .packet (frameMessage frame) frame.length := by
  have hfits : announcedLength frame ≤ DATA_CAPACITY := h.small.trans (by decide)
  have hparse := parseOn_frame ⟨hsupported, h.whole.le, h.plain char⟩ hfits
  rw [h.whole] at hparse
  rw [parseOn_append behind (by rw [hparse]; nofun), hparse]

theorem SmallFrame.two_le {frame : Bytes} (h : SmallFrame frame) : 2 ≤ frame.length := by
  have htwo := two_le_frontSize frame
  have hwhole := h.whole
  omega

theorem SmallFrame.reject {frame : Bytes} (h : SmallFrame frame) (hunsupported : ¬ Supported frame) (char : CharSign)
    (behind : Bytes) : parseOn char (frame ++ behind) = .stop .invalid := by
  have htwo := h.two_le
  have hget : (frame ++ behind).getD 0 0 = frame.getD 0 0 := by
    rw [List.getD_eq_getElem?_getD, List.getD_eq_getElem?_getD, List.getElem?_append_left (by omega)]
  have hno : ¬ (frame ++ behind).getD 0 0 &&& 0xF0 = 0x80 := by
    rw [hget]
    exact hunsupported
  rw [parseOn, parseHeaderOn_flags hno]

theorem SmallFrame.data_length {frame : Bytes} (h : SmallFrame frame) :
    (frameMessage frame).data.length = announcedLength frame := by
  rw [frameMessage, unmask_length, slice_length h.whole.le]

/-- The messages of a read are its frames in front of the first one that is not supported. -/
theorem drain_frames (char : CharSign) {frames : List Bytes} (h : ∀ frame ∈ frames, SmallFrame frame) :
    ((messagesOn char).drain frames.flatten).packets = (frames.takeWhile fun f => Supported f).map frameMessage ∧
      ((messagesOn char).drain frames.flatten).exit = .invalid := by
  induction frames with
  | nil =>
    have hstop : (messagesOn char).next [] = .stop .invalid := rfl
    rw [List.flatten_nil, Framer.drain_stop hstop]
    exact ⟨rfl, rfl⟩
  | cons frame frames ih =>
    obtain ⟨hframe, hframes⟩ := List.forall_mem_cons.mp h
    obtain ⟨hpackets, hexit⟩ := ih hframes
    by_cases hs : Supported frame
    · have hnext : (messagesOn char).next (frame ++ frames.flatten) = .packet (frameMessage frame) frame.length :=
        hframe.parse hs char frames.flatten
      rw [List.flatten_cons, Framer.drain_packet hnext, List.drop_left, List.takeWhile_cons_of_pos (by simpa using hs)]
      exact ⟨by rw [Drained.before_packets, hpackets]; rfl, hexit⟩
    · have hnext : (messagesOn char).next (frame ++ frames.flatten) = .stop .invalid :=
        hframe.reject hs char frames.flatten
      rw [List.flatten_cons, Framer.drain_stop hnext, List.takeWhile_cons_of_neg (by simpa using hs)]
      exact ⟨rfl, rfl⟩

/-! ## The replies -/

/-- What is in the buffer of a reply when it is sent. -/
def replyBuffer (env : Env) (k : ℕ) (ping : Message) : Bytes := (assertEncode env.build (pongOf ping) (env.maskingKey k)).getD []

/-- What the replies put on the wire, from the `k`-th write on. -/
def replies (env : Env) : ℕ → List Message → Bytes
  | _, [] => []
  | k, ping :: pings => (TcpConnection.sendAll (replyBuffer env k ping) (env.sends k)).1 ++ replies env (k + 1) pings

/-- A message of a supported frame. -/
structure SmallMessage (message : Message) : Prop where
  flags : message.flags = ⟨true, false, false, false⟩
  opcode : message.opcode ∈ [Opcode.TEXT, Opcode.BINARY, Opcode.PONG, Opcode.PING]
  small : message.data.length ≤ 125

theorem SmallFrame.message {frame : Bytes} (h : SmallFrame frame) : SmallMessage (frameMessage frame) :=
  ⟨rfl, h.opcode, h.data_length.trans_le h.small⟩

structure OnWire.Running (o : OnWire) : Prop where
  conn : o.ws.conn = true
  running : o.ws.aborted = false

theorem OnWire.Running.sendMessage (env : Env) {o : OnWire} (h : o.Running) {message : Message}
    (hdata : message.data.length ≤ DATA_CAPACITY) :
    (o.sendMessage env message).Running ∧ (o.sendMessage env message).writes = o.writes + 1 ∧
      (o.sendMessage env message).wire = o.wire ++
        (TcpConnection.sendAll ((assertEncode env.build message (env.maskingKey o.writes)).getD []) (env.sends o.writes)).1 := by
  obtain ⟨buf, hbuf, hne⟩ := assertEncode_some env.build (env.maskingKey o.writes) hdata
  have hreply : o.ws.sendReply message = { o.ws with sent := o.ws.sent ++ [message] } := if_pos h.conn
  have hgo : ¬ (o.ws.aborted = true ∨ env.build = .Debug ∧ buf = []) := by
    rintro (habort | hempty)
    · rw [h.running] at habort
      cases habort
    · exact hne hempty
  rw [OnWire.sendMessage, hbuf]
  dsimp only
  rw [sendRaw, hreply]
  dsimp only
  rw [if_neg hgo]
  exact ⟨⟨h.conn, h.running⟩, rfl, rfl⟩

/-- **One message**: a PING is answered by one write, and there is no other. -/
theorem OnWire.Running.handleMessage (env : Env) {o : OnWire} (h : o.Running) {message : Message}
    (hsmall : SmallMessage message) :
    (o.handleMessage env message).Running ∧
      if message.opcode = Opcode.PING then
        (o.handleMessage env message).writes = o.writes + 1 ∧ (o.handleMessage env message).wire = o.wire ++
          (TcpConnection.sendAll (replyBuffer env o.writes message) (env.sends o.writes)).1
      else (o.handleMessage env message).writes = o.writes ∧ (o.handleMessage env message).wire = o.wire := by
  have hrun : ¬ o.ws.aborted = true := by
    rw [h.running]
    decide
  have hfits : (pongOf message).data.length ≤ DATA_CAPACITY := hsmall.small.trans (by decide)
  obtain ⟨hping, hwrites, hwire⟩ := h.sendMessage env hfits
  have hopcode := hsmall.opcode
  simp only [List.mem_cons, List.not_mem_nil, or_false] at hopcode
  unfold OnWire.handleMessage
  rw [if_neg hrun]
  obtain hcode | hcode | hcode | hcode := hopcode
  · rw [if_pos (Or.inl hcode), if_neg (by rw [hcode]; decide)]
    exact ⟨⟨h.conn, h.running⟩, rfl, rfl⟩
  · rw [if_pos (Or.inr hcode), if_neg (by rw [hcode]; decide)]
    exact ⟨⟨h.conn, h.running⟩, rfl, rfl⟩
  · rw [hcode, if_neg (by decide), if_neg (by decide), if_pos rfl, if_neg (by decide)]
    exact ⟨h, rfl, rfl⟩
  · rw [hcode, if_neg (by decide), if_pos rfl, if_pos rfl]
    exact ⟨hping, hwrites, hwire⟩

/-- **A run of messages** puts the replies to its PINGs on the wire. -/
theorem OnWire.Running.foldl (env : Env) {messages : List Message} (hsmall : ∀ m ∈ messages, SmallMessage m) {o : OnWire}
    (h : o.Running) :
    (messages.foldl (OnWire.handleMessage env) o).wire =
      o.wire ++ replies env o.writes (messages.filter fun m => m.opcode = Opcode.PING) := by
  induction messages generalizing o with
  | nil => simp [replies]
  | cons m messages ih =>
    obtain ⟨hm, hmessages⟩ := List.forall_mem_cons.mp hsmall
    obtain ⟨hnext, hstep⟩ := h.handleMessage env hm
    rw [List.foldl_cons, ih hmessages hnext]
    split at hstep
    · rename_i hping
      rw [hstep.1, hstep.2, List.filter_cons_of_pos (by simpa using hping), replies, List.append_assoc]
    · rename_i hping
      rw [hstep.1, hstep.2, List.filter_cons_of_neg (by simpa using hping)]

theorem OnWire.Running.handleData (env : Env) {o : OnWire} (h : o.Running) {frames : List Bytes}
    (hframes : ∀ frame ∈ frames, SmallFrame frame) :
    (o.handleData env frames.flatten).wire = o.wire ++
      replies env o.writes (((frames.takeWhile fun f => Supported f).filter fun f => IsPing f).map frameMessage) := by
  obtain ⟨hpackets, hexit⟩ := drain_frames env.char hframes
  have hsmall : ∀ m ∈ (frames.takeWhile fun f => Supported f).map frameMessage, SmallMessage m :=
    List.forall_mem_map.mpr fun f hf => (hframes f (List.takeWhile_subset _ hf)).message
  have hrun := h.foldl env hsmall
  rw [List.filter_map] at hrun
  rw [OnWire.handleData, hpackets]
  dsimp only
  rw [hexit]
  exact hrun

/-! ## Whole replies -/

/-- The size of the reply to a PING: two bytes, the masking key and the data. -/
def pongSize (dataLength : ℕ) : ℕ := 6 + dataLength

/-- In a Debug build the buffer holds the reply. -/
theorem replyBuffer_debug {env : Env} (hbuild : env.build = .Debug) (k : ℕ) {ping : Message} (hsmall : SmallMessage ping) :
    parseOn env.char (replyBuffer env k ping) = .packet (pongOf ping) (replyBuffer env k ping).length ∧
      (replyBuffer env k ping).length = pongSize ping.data.length := by
  have hflags : (pongOf ping).flags = ⟨true, false, false, false⟩ := by
    rw [pongOf, hsmall.flags]
  have hlength := hsmall.small
  have hdata : (pongOf ping).data.length ≤ DATA_CAPACITY := hlength.trans (by decide)
  have hkey := (env.maskingKey k).size_eq
  have hcode : Opcode.PONG < 16 := by decide
  obtain ⟨buffer, hencode, hframe, hannounced, hwhole, hmessage⟩ := encoded_frame env.char hkey hflags hcode hdata
  have hbuffer : replyBuffer env k ping = buffer := by
    rw [replyBuffer, hbuild, assertEncode, hencode]
    rfl
  have hat : FrameAt env.char buffer := hframe.mpr (Or.inr (ne_of_lt (lt_of_le_of_lt hlength (by decide))))
  have hparse := parseOn_frame hat (hannounced.trans_le hdata)
  rw [hbuffer]
  refine ⟨by rw [hparse, hmessage, hwhole], ?_⟩
  have hshort : (pongOf ping).data.length < 126 := lt_of_le_of_lt hlength (by decide)
  have hfront : Message.lengthBytes (pongOf ping).data.length true = [UInt8.ofNat (pongOf ping).data.length ||| 0x80] :=
    if_pos hshort
  have hmasked : (pongOf ping).masked = true := rfl
  have hroom : ¬ TRANSPORT_CAPACITY - 2 < (pongOf ping).data.length := by
    rw [TRANSPORT_CAPACITY]
    omega
  rw [Message.encode, hmasked, hfront] at hencode
  dsimp only [List.length_cons, List.length_nil] at hencode
  rw [if_neg hroom, if_pos rfl] at hencode
  split at hencode
  · cases hencode
  · cases hencode
    have hpong : (pongOf ping).data = ping.data := rfl
    simp only [List.length_append, List.length_cons, List.length_nil, unmask_length, hkey, hpong, pongSize]

/-- In a Release build it is empty. -/
theorem replyBuffer_release {env : Env} (hbuild : env.build = .Release) (k : ℕ) (ping : Message) :
    replyBuffer env k ping = [] := by
  rw [replyBuffer, hbuild]
  rfl

theorem sendAll_nil (sends : List ℕ) : (TcpConnection.sendAll [] sends).1 = [] :=
  List.eq_nil_of_length_eq_zero (Nat.le_zero.mp (TcpConnection.sendAll_length_le [] sends))

/-- One write puts at most a reply on the wire, and a whole one exactly in a Debug build whose socket takes it. -/
theorem sent_length (env : Env) (k : ℕ) {ping : Message} (hsmall : SmallMessage ping) :
    (TcpConnection.sendAll (replyBuffer env k ping) (env.sends k)).1.length ≤ pongSize ping.data.length ∧
      ((TcpConnection.sendAll (replyBuffer env k ping) (env.sends k)).1.length = pongSize ping.data.length ↔
        env.build = .Debug ∧ TcpConnection.TakesAll (pongSize ping.data.length) (env.sends k)) := by
  cases hbuild : env.build with
  | Debug =>
    obtain ⟨-, hlength⟩ := replyBuffer_debug hbuild k hsmall
    have hne : replyBuffer env k ping ≠ [] := List.ne_nil_of_length_pos (by rw [hlength, pongSize]; omega)
    rw [← hlength, TcpConnection.sendAll_whole_iff hne]
    exact ⟨TcpConnection.sendAll_length_le .., by simp⟩
  | Release =>
    rw [replyBuffer_release hbuild, sendAll_nil, List.length_nil, pongSize]
    refine ⟨Nat.zero_le _, iff_of_false (by omega) ?_⟩
    rintro ⟨hdebug, -⟩
    cases hdebug

/-- The socket takes all of the writes from the `k`-th on. -/
def TakesReplies (env : Env) (k : ℕ) (sizes : List ℕ) : Prop :=
  ∀ i size, sizes[i]? = some size → TcpConnection.TakesAll size (env.sends (k + i))

theorem takesReplies_cons {env : Env} {k size : ℕ} {sizes : List ℕ} : TakesReplies env k (size :: sizes) ↔
    TcpConnection.TakesAll size (env.sends k) ∧ TakesReplies env (k + 1) sizes := by
  constructor
  · intro h
    refine ⟨h 0 size rfl, fun i s hs => ?_⟩
    have hnext := h (i + 1) s hs
    rwa [Nat.add_comm i 1, ← Nat.add_assoc] at hnext
  · rintro ⟨hfirst, hrest⟩ i s hs
    cases i with
    | zero =>
      cases hs
      exact hfirst
    | succ i =>
      have hnext := hrest i s hs
      rwa [Nat.add_assoc, Nat.add_comm 1 i] at hnext

def pongSizes (pings : List Message) : List ℕ := pings.map fun ping => pongSize ping.data.length

theorem replies_length (env : Env) (k : ℕ) {pings : List Message} (hsmall : ∀ ping ∈ pings, SmallMessage ping) :
    (replies env k pings).length ≤ (pongSizes pings).sum ∧
      ((replies env k pings).length = (pongSizes pings).sum ↔
        pings = [] ∨ env.build = .Debug ∧ TakesReplies env k (pongSizes pings)) := by
  induction pings generalizing k with
  | nil => exact ⟨le_rfl, iff_of_true rfl (Or.inl rfl)⟩
  | cons ping pings ih =>
    obtain ⟨hping, hpings⟩ := List.forall_mem_cons.mp hsmall
    obtain ⟨hle, hwhole⟩ := ih (k + 1) hpings
    obtain ⟨hfirstLe, hfirst⟩ := sent_length env k hping
    have hsizes : pongSizes (ping :: pings) = pongSize ping.data.length :: pongSizes pings := rfl
    have hboth : (TcpConnection.sendAll (replyBuffer env k ping) (env.sends k)).1.length + (replies env (k + 1) pings).length =
        pongSize ping.data.length + (pongSizes pings).sum ↔
          (TcpConnection.sendAll (replyBuffer env k ping) (env.sends k)).1.length = pongSize ping.data.length ∧
            (replies env (k + 1) pings).length = (pongSizes pings).sum := by omega
    rw [replies, List.length_append, hsizes, List.sum_cons, takesReplies_cons, hboth, hfirst, hwhole]
    refine ⟨by omega, ?_⟩
    constructor
    · rintro ⟨⟨hdebug, htakes⟩, hnil | ⟨-, hrest⟩⟩
      · subst hnil
        exact Or.inr ⟨hdebug, htakes, fun i s hs => by cases hs⟩
      · exact Or.inr ⟨hdebug, htakes, hrest⟩
    · rintro (hnil | ⟨hdebug, htakes, hrest⟩)
      · cases hnil
      · exact ⟨⟨hdebug, htakes⟩, Or.inr ⟨hdebug, hrest⟩⟩

/-- A frame that answers a PING: `parse` reads it as a masked PONG with the same data. -/
def Answers (char : CharSign) (pong ping : Bytes) : Prop :=
  ∃ m, parseOn char pong = .packet m pong.length ∧ m.opcode = Opcode.PONG ∧ m.masked = true ∧ m.data = (frameMessage ping).data

/-- An answer has at least the size of a reply. -/
theorem Answers.size_le {char : CharSign} {pong ping : Bytes} (h : Answers char pong ping) :
    pongSize (frameMessage ping).data.length ≤ pong.length := by
  obtain ⟨m, hparse, -, hmasked, hdata⟩ := h
  have hparsed := parseOn_parsed char pong
  rw [hparse] at hparsed
  generalize hsize : pong.length = size at hparsed
  rw [← hdata]
  cases hparsed with
  | message header hheader hfull hfits =>
    dsimp only at hmasked
    have hheader' := hheader
    rw [parseHeaderOn_eq] at hheader'
    split at hheader'
    · cases hheader'
      have hmask : frameMasked pong = true := by
        by_contra hno
        rw [if_neg hno] at hmasked
        cases hmasked
      have hfront := frontSize_masked hmask
      have hread := slice_length hfull
      dsimp only at hread hsize ⊢
      rw [unmask_length, hread, pongSize]
      omega
    · cases hheader'

/-- **Debug.** The replies to PINGs are one frame each. -/
theorem replies_frames {env : Env} (hbuild : env.build = .Debug) (k : ℕ) {pings : List Bytes}
    (hsmall : ∀ ping ∈ pings, SmallFrame ping) (htakes : TakesReplies env k (pongSizes (pings.map frameMessage))) :
    ∃ pongs : List Bytes, replies env k (pings.map frameMessage) = pongs.flatten ∧ List.Forall₂ (Answers env.char) pongs pings := by
  induction pings generalizing k with
  | nil => exact ⟨[], rfl, .nil⟩
  | cons ping pings ih =>
    obtain ⟨hping, hpings⟩ := List.forall_mem_cons.mp hsmall
    obtain ⟨hfirst, hrest⟩ := takesReplies_cons.mp htakes
    obtain ⟨pongs, hpongs, hanswers⟩ := ih (k + 1) hpings hrest
    obtain ⟨hparse, hlength⟩ := replyBuffer_debug hbuild k hping.message
    have hne : replyBuffer env k (frameMessage ping) ≠ [] := List.ne_nil_of_length_pos (by rw [hlength, pongSize]; omega)
    have hwhole := (TcpConnection.sendAll_whole_iff hne (env.sends k)).mpr (by rwa [hlength])
    have hsent := TcpConnection.sendAll_prefix (replyBuffer env k (frameMessage ping)) (env.sends k)
    rw [List.map_cons, replies, hpongs, hsent.eq_of_length hwhole, ← List.flatten_cons]
    exact ⟨_, rfl, .cons ⟨_, hparse, rfl, rfl, rfl⟩ hanswers⟩

/-! ## Every PING is answered -/

/-- After a read of frames, one frame for each PING is on the wire, in order. -/
def AnswersPings (env : Env) (lib : HttpLibrary) (o : OnWire) (frames : List Bytes) : Prop :=
  ∃ pongs : List Bytes, (o.handleRead env lib frames.flatten).wire = o.wire ++ pongs.flatten ∧
    List.Forall₂ (Answers env.char) pongs (frames.filter fun f => IsPing f)

theorem answers_length {char : CharSign} {pongs pings : List Bytes} (h : List.Forall₂ (Answers char) pongs pings) :
    (pongSizes (pings.map frameMessage)).sum ≤ pongs.flatten.length := by
  induction h with
  | nil => exact le_rfl
  | cons hanswer _ ih =>
    have hfirst := hanswer.size_le
    have hsizes (ping : Message) (pings : List Message) : (pongSizes (ping :: pings)).sum =
        pongSize ping.data.length + (pongSizes pings).sum := List.sum_cons
    rw [List.map_cons, hsizes, List.flatten_cons, List.length_append]
    omega

theorem pongSizes_frames {pings : List Bytes} (hsmall : ∀ ping ∈ pings, SmallFrame ping) :
    pongSizes (pings.map frameMessage) = pings.map fun ping => pongSize (announcedLength ping) := by
  rw [pongSizes, List.map_map]
  refine List.map_congr_left fun ping hping => ?_
  rw [Function.comp_apply, (hsmall ping hping).data_length]

/-- **Every PING is answered** exactly if there is none, or this is a Debug build, the socket takes every reply, and
no PING comes at or behind a frame that the client does not support. -/
theorem answers_pings_iff (env : Env) (lib : HttpLibrary) (o : OnWire) (hopen : Live o.ws) (frames : List Bytes)
    (hframes : ∀ frame ∈ frames, SmallFrame frame) :
    AnswersPings env lib o frames ↔ (∀ frame ∈ frames.dropWhile fun f => Supported f, ¬ IsPing frame) ∧
      ((∀ frame ∈ frames, ¬ IsPing frame) ∨ env.build = .Debug ∧
        TakesReplies env o.writes ((frames.filter fun f => IsPing f).map fun ping => pongSize (announcedLength ping))) := by
  have hrun : o.Running := ⟨hopen.conn, hopen.running⟩
  have hread : o.handleRead env lib frames.flatten = o.handleData env frames.flatten := by
    rw [OnWire.handleRead, hopen.opened]
  have hwire := hrun.handleData env hframes
  rw [← hread] at hwire
  have hsplit : (frames.filter fun f => IsPing f) = ((frames.takeWhile fun f => Supported f).filter fun f => IsPing f) ++
      (frames.dropWhile fun f => Supported f).filter fun f => IsPing f := by
    rw [← List.filter_append, List.takeWhile_append_dropWhile]
  have hbehind : (∀ frame ∈ frames.dropWhile fun f => Supported f, ¬ IsPing frame) ↔
      ((frames.dropWhile fun f => Supported f).filter fun f => IsPing f) = [] := by
    simp [List.filter_eq_nil_iff]
  have hnone : (∀ frame ∈ frames, ¬ IsPing frame) ↔ (frames.filter fun f => IsPing f) = [] := by
    simp [List.filter_eq_nil_iff]
  have hpings : ∀ ping ∈ frames.filter fun f => IsPing f, SmallFrame ping :=
    fun ping hping => hframes ping (List.mem_filter.mp hping).1
  rw [hbehind, hnone]
  unfold AnswersPings
  rw [hwire]
  generalize ((frames.takeWhile fun f => Supported f).filter fun f => IsPing f) = answered at hsplit
  generalize ((frames.dropWhile fun f => Supported f).filter fun f => IsPing f) = missed at hsplit
  rw [hsplit] at hpings ⊢
  have hanswered : ∀ ping ∈ answered, SmallFrame ping := fun ping hping => hpings ping (List.mem_append_left _ hping)
  have hmessages : ∀ m ∈ answered.map frameMessage, SmallMessage m :=
    List.forall_mem_map.mpr fun ping hping => (hanswered ping hping).message
  obtain ⟨hle, hwhole⟩ := replies_length env o.writes hmessages
  constructor
  · rintro ⟨pongs, hpongs, hforall⟩
    have hsame := List.append_cancel_left hpongs
    have hsizes := answers_length hforall
    rw [List.map_append, pongSizes, List.map_append, List.sum_append, ← hsame] at hsizes
    change (pongSizes (answered.map frameMessage)).sum + (pongSizes (missed.map frameMessage)).sum ≤ _ at hsizes
    have hempty : missed = [] := by
      cases missed with
      | nil => rfl
      | cons ping missed =>
        have hfirst : (pongSizes ((ping :: missed).map frameMessage)).sum =
            pongSize (frameMessage ping).data.length + (pongSizes (missed.map frameMessage)).sum := List.sum_cons
        rw [hfirst, pongSize] at hsizes
        omega
    refine ⟨hempty, ?_⟩
    rw [hempty, List.append_nil, ← pongSizes_frames hanswered]
    have hall := hwhole.mp (by omega)
    rwa [List.map_eq_nil_iff] at hall
  · rintro ⟨rfl, hall⟩
    rw [List.append_nil] at hall ⊢
    obtain hnil | ⟨hdebug, htakes⟩ := hall
    · subst hnil
      exact ⟨[], rfl, .nil⟩
    · rw [← pongSizes_frames hanswered] at htakes
      obtain ⟨pongs, hpongs, hforall⟩ := replies_frames hdebug o.writes hanswered htakes
      exact ⟨pongs, by rw [hpongs], hforall⟩

/-- A client that was just connected, of a build type, on a socket that takes everything. -/
def quickEnv (build : BuildType) : Env := ⟨build, .signed, fun _ => .zero 4, fun _ => [TRANSPORT_CAPACITY]⟩

/-- No message of this client is HTTP. -/
def noHttp : HttpLibrary := ⟨fun _ => none, fun _ => 0, fun _ => []⟩

def openOnWire : OnWire := ⟨⟨.WS_OPEN, true, [], [], [], false⟩, [], 0⟩

/-- A PING with one byte, and a text. -/
def pingAndText : List Bytes := [[0x89, 0x01, 0x61], [0x81, 0x02, 0x68, 0x69]]

theorem pingAndText_small : ∀ frame ∈ pingAndText, SmallFrame frame := by
  rw [pingAndText, List.forall_mem_cons, List.forall_mem_singleton]
  exact ⟨⟨by decide, by decide, by decide⟩, ⟨by decide, by decide, by decide⟩⟩

theorem debug_answers : AnswersPings (quickEnv .Debug) noHttp openOnWire pingAndText := by
  refine (answers_pings_iff (quickEnv .Debug) noHttp openOnWire ⟨rfl, rfl, rfl⟩ pingAndText pingAndText_small).mpr ?_
  refine ⟨by decide, Or.inr ⟨rfl, fun i size hsize => ?_⟩⟩
  cases i with
  | zero =>
    cases hsize
    exact ⟨1, by decide, by decide⟩
  | succ i => cases hsize

/-- A Release build does not answer. -/
theorem release_answers_nothing : ¬ AnswersPings (quickEnv .Release) noHttp openOnWire pingAndText := by
  rintro ⟨pongs, hwire, hforall⟩
  have hrun : OnWire.Running openOnWire := ⟨rfl, rfl⟩
  have hsilent : (openOnWire.handleRead (quickEnv .Release) noHttp pingAndText.flatten).wire = [] :=
    hrun.handleData (quickEnv .Release) pingAndText_small
  have hsize := answers_length hforall
  have hpongs : pongs.flatten = [] := by
    rw [hsilent] at hwire
    exact hwire.symm
  have hping : (pingAndText.filter fun f => IsPing f) = [[0x89, 0x01, 0x61]] := by decide
  rw [hpongs, hping] at hsize
  exact absurd hsize (by decide)

end WebSocketClient
end Husarnet
