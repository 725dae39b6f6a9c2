import Husarnet.HttpRoundTrip

/-! # HTTP messages in chunks

What arrives later does not change what the headers and the body of a text are. The start line is another matter:
its fields are cut at the first two spaces of all that has arrived, and where the first line has fewer than two of
them it is the chunks that decide.
-/

namespace Husarnet
open Octets Containers Numerals
set_option autoImplicit false

namespace HTTPMessage

/-! ## The header stage -/

/-- The headers of a block. -/
def headersIn (head : Bytes) : List (Bytes × Bytes) :=
  if (splitLines CR LF head).head? = some [] then [] else withLines [] (splitLines CR LF head)

/-- Header lines that all have a colon. An empty first line hides the others. -/
def HeaderLines (head : Bytes) : Prop :=
  (splitLines CR LF head).head? = some [] ∨ ∀ line ∈ splitLines CR LF head, COLON ∈ line

/-- Header lines, and as many bytes behind them as `Content-Length` tells. -/
structure CompleteBlock (lib : HttpLibrary) (head behind : Bytes) : Prop where
  lines : HeaderLines head
  body : ∀ value, get? (headersIn head) CONTENT_LENGTH = some value → lib.toSize value ≤ behind.length

theorem readBlock_ok {head : Bytes} (h : HeaderLines head) : readBlock (splitLines CR LF head) [] = (.OK, headersIn head) := by
  rw [readBlock, headersIn]
  by_cases hempty : (splitLines CR LF head).head? = some []
  · rw [if_pos hempty, if_pos hempty]
  · rw [if_neg hempty, if_neg hempty]
    exact readLines_ok (h.resolve_left hempty) []

theorem readBlock_invalid {head : Bytes} (h : ¬ HeaderLines head) :
    ∃ headers, readBlock (splitLines CR LF head) [] = (.INVALID, headers) := by
  rw [HeaderLines, not_or] at h
  rw [readBlock, if_neg h.1]
  exact readLines_invalid h.2 []

/-- The message behind its header block. -/
def behindBlock (m : HTTPMessage) (head : Bytes) : HTTPMessage :=
  { m with headers := headersIn head, it := m.it + head.length + BODY_DELIMITER.length, parserState := .BODY }

/-- What the header stage makes of a text without headers before it. -/
inductive HeaderRead (lib : HttpLibrary) (m : HTTPMessage) : Prop where
  | noBlock (hrun : runHeader lib m = (.INCOMPLETE, m))
  | invalid (head behind : Bytes) (hblock : Block m.view head behind) (hlines : ¬ HeaderLines head)
  | block (head behind : Bytes) (hblock : Block m.view head behind) (hlines : HeaderLines head)

section Blocks
variable {lib : HttpLibrary} {m : HTTPMessage} (hheaders : m.headers = []) {head behind : Bytes} (hblock : Block m.view head behind)
include hheaders hblock

theorem runHeader_accepted (hlines : HeaderLines head) : runHeader lib m = runBody lib (m.behindBlock head) := by
  have hread := parseHeader_block hblock
  rw [hheaders, readBlock_ok hlines] at hread
  rw [runHeader, hread]
  rfl

theorem runHeader_rejected (hlines : ¬ HeaderLines head) : (runHeader lib m).1 = .INVALID := by
  have hread := parseHeader_block hblock
  obtain ⟨headers, hinvalid⟩ := readBlock_invalid hlines
  rw [hheaders, hinvalid] at hread
  rw [runHeader, hread]

end Blocks

theorem runHeader_read (lib : HttpLibrary) (m : HTTPMessage) : HeaderRead lib m := by
  cases hfind : find BODY_DELIMITER m.view with
  | none => exact .noBlock (runHeader_open lib ((find_eq_none_iff (by decide)).mp hfind))
  | some sep =>
    obtain ⟨head, behind, hblock, -⟩ := exists_block hfind
    by_cases hlines : HeaderLines head
    · exact .block head behind hblock hlines
    · exact .invalid head behind hblock hlines

theorem Block.append {text head behind : Bytes} (h : Block text head behind) (more : Bytes) :
    Block (text ++ more) head (behind ++ more) := by
  refine ⟨?_, h.first⟩
  rw [h.text_eq, List.append_assoc, List.append_assoc]

theorem CompleteBlock.append {lib : HttpLibrary} {head behind : Bytes} (h : CompleteBlock lib head behind) (more : Bytes) :
    CompleteBlock lib head (behind ++ more) := by
  refine ⟨h.lines, fun value hvalue => ?_⟩
  have hle := h.body value hvalue
  rw [List.length_append]
  omega

/-- More bytes have arrived. -/
def received (m : HTTPMessage) (more : Bytes) : HTTPMessage := { m with buffer := m.buffer ++ more }

theorem view_received {m : HTTPMessage} (hit : m.it ≤ m.buffer.length) (more : Bytes) :
    (m.received more).view = m.view ++ more := List.drop_append_of_le_length hit

theorem runBody_ok_iff {lib : HttpLibrary} {m : HTTPMessage} : (runBody lib m).1 = .OK ↔
    ∀ value, get? m.headers CONTENT_LENGTH = some value → lib.toSize value ≤ m.view.length := by
  rw [runBody_eq]
  cases get? m.headers CONTENT_LENGTH with
  | none => simp
  | some value =>
    dsimp only
    by_cases hshort : m.view.length < lib.toSize value
    · rw [if_pos hshort]
      simpa using hshort
    · rw [if_neg hshort]
      simpa using hshort

theorem runBody_open {lib : HttpLibrary} {m : HTTPMessage} (h : (runBody lib m).1 ≠ .OK) :
    runBody lib m = (.INCOMPLETE, m) := by
  rw [runBody_eq] at h ⊢
  cases hlength : get? m.headers CONTENT_LENGTH with
  | none =>
    rw [hlength] at h
    exact absurd rfl h
  | some value =>
    rw [hlength] at h
    dsimp only at h ⊢
    by_cases hshort : m.view.length < lib.toSize value
    · rw [if_pos hshort]
    · rw [if_neg hshort] at h
      exact absurd rfl h

/-- The view behind the header block. -/
theorem view_behindBlock {m : HTTPMessage} {head behind : Bytes} (h : Block m.view head behind) :
    (m.behindBlock head).view = behind := by
  have hview := h.text_eq
  rw [view] at hview
  rw [view, behindBlock, Nat.add_assoc, ← List.drop_drop, hview, ← List.drop_drop, List.drop_left, List.drop_left]

section Stages
variable {lib : HttpLibrary} {m : HTTPMessage} (hheaders : m.headers = []) (hit : m.it ≤ m.buffer.length)
include hheaders

/-- **The header stage** goes through exactly for a complete block. -/
theorem runHeader_ok_iff : (runHeader lib m).1 = .OK ↔ ∃ head behind, Block m.view head behind ∧ CompleteBlock lib head behind := by
  have hbody {head behind : Bytes} (hblock : Block m.view head behind) (hlines : HeaderLines head) :
      (runHeader lib m).1 = .OK ↔
        ∀ value, get? (headersIn head) CONTENT_LENGTH = some value → lib.toSize value ≤ behind.length := by
    rw [runHeader_accepted hheaders hblock hlines, runBody_ok_iff, view_behindBlock hblock]
    rfl
  constructor
  · intro hok
    cases runHeader_read lib m with
    | noBlock hrun =>
      rw [hrun] at hok
      cases hok
    | invalid head behind hblock hlines =>
      rw [runHeader_rejected hheaders hblock hlines] at hok
      cases hok
    | block head behind hblock hlines => exact ⟨head, behind, hblock, hlines, (hbody hblock hlines).mp hok⟩
  · rintro ⟨head, behind, hblock, hcomplete⟩
    exact (hbody hblock hcomplete.lines).mpr hcomplete.body

include hit

/-- A result does not change with what arrives later. -/
theorem runHeader_stable (h : (runHeader lib m).1 ≠ .INCOMPLETE) (more : Bytes) :
    (runHeader lib (m.received more)).1 = (runHeader lib m).1 := by
  have hview := view_received hit more
  have hlater {head behind : Bytes} (hblock : Block m.view head behind) : Block (m.received more).view head (behind ++ more) := by
    rw [hview]
    exact hblock.append more
  cases runHeader_read lib m with
  | noBlock hrun =>
    rw [hrun] at h
    exact absurd rfl h
  | invalid head behind hblock hlines =>
    rw [runHeader_rejected hheaders hblock hlines]
    exact @runHeader_rejected lib (m.received more) hheaders _ _ (hlater hblock) hlines
  | block head behind hblock hlines =>
    have hok : (runHeader lib m).1 = .OK := by
      by_contra hnot
      rw [runHeader_accepted hheaders hblock hlines] at h hnot
      rw [runBody_open hnot] at h
      exact h rfl
    obtain ⟨head', behind', hblock', hcomplete⟩ := (runHeader_ok_iff hheaders).mp hok
    rw [hok]
    exact (@runHeader_ok_iff lib (m.received more) hheaders).mpr ⟨head', _, hlater hblock', hcomplete.append more⟩

/-- **An object that waits** behind its start line goes on as if all bytes had arrived at once. -/
theorem runHeader_resumes {m' : HTTPMessage} (hstate : m.parserState = .HEADER) (h : runHeader lib m = (.INCOMPLETE, m')) :
    m'.buffer = m.buffer ∧ m'.it ≤ m.buffer.length ∧
      ∀ more, run lib (m'.received more) = runHeader lib (m.received more) := by
  cases runHeader_read lib m with
  | noBlock hrun =>
    rw [h] at hrun
    cases hrun
    refine ⟨rfl, hit, fun more => ?_⟩
    have hstate' : (m.received more).parserState = .HEADER := hstate
    rw [run, hstate']
  | invalid head behind hblock hlines =>
    have hinvalid := @runHeader_rejected lib m hheaders _ _ hblock hlines
    rw [h] at hinvalid
    cases hinvalid
  | block head behind hblock hlines =>
    rw [runHeader_accepted hheaders hblock hlines] at h
    have hopen := runBody_open (fun hok => by rw [h] at hok; cases hok)
    rw [h] at hopen
    cases hopen
    refine ⟨rfl, ?_, fun more => ?_⟩
    · have hlength := congrArg List.length hblock.text_eq
      rw [view, List.length_drop, List.length_append, List.length_append] at hlength
      have hfour : BODY_DELIMITER.length = 4 := rfl
      rw [behindBlock]
      dsimp only
      omega
    · have hlater : Block (m.received more).view head (behind ++ more) := by
        rw [view_received hit]
        exact hblock.append more
      exact (@runHeader_accepted lib (m.received more) hheaders _ _ hlater hlines).symm

end Stages

/-! ## Chunk after chunk -/

theorem received_received (m : HTTPMessage) (more behind : Bytes) :
    (m.received more).received behind = m.received (more ++ behind) := by
  rw [received, received, received, List.append_assoc]

theorem received_nil (m : HTTPMessage) : m.received [] = m := by
  rw [received, List.append_nil]

/-- A new object behind the start line of a text. -/
def behindLine (text : Bytes) (start : Start) (endOfLine : ℕ) : HTTPMessage := started { new with buffer := text } start endOfLine

theorem behindLine_eq (text : Bytes) (start : Start) (endOfLine : ℕ) :
    (behindLine text start endOfLine).buffer = text ∧
      (behindLine text start endOfLine).it = endOfLine + EOL_DELIMITER.length ∧
      (behindLine text start endOfLine).headers = [] ∧ (behindLine text start endOfLine).parserState = .HEADER := by
  cases start <;> exact ⟨rfl, rfl, rfl, rfl⟩

theorem behindLine_received (text more : Bytes) (start : Start) (endOfLine : ℕ) :
    (behindLine text start endOfLine).received more = behindLine (text ++ more) start endOfLine := by
  cases start <;> rfl

theorem behindLine_it {text : Bytes} {endOfLine : ℕ} (h : find EOL_DELIMITER text = some endOfLine) (start : Start) :
    (behindLine text start endOfLine).it ≤ (behindLine text start endOfLine).buffer.length := by
  obtain ⟨hbuffer, hit, -⟩ := behindLine_eq text start endOfLine
  rw [hbuffer, hit]
  exact find_le (by decide) h

/-- **One call on a new object**, by the first line of the text. -/
theorem run_new {lib : HttpLibrary} {text : Bytes} {endOfLine : ℕ} (h : find EOL_DELIMITER text = some endOfLine) :
    match startOf lib text endOfLine with
    | none => (run lib { new with buffer := text }).1 = .INVALID
    | some start => run lib { new with buffer := text } = runHeader lib (behindLine text start endOfLine) :=
  @run_line lib { new with buffer := text } rfl endOfLine h

/-- Calls behind the start line end where the header stage has a result for all that has arrived. -/
inductive Fed (lib : HttpLibrary) (base : HTTPMessage) (rest : Bytes) : Checked (Result × HTTPMessage × Bytes) → Prop where
  | stops (more : Bytes) (m' : HTTPMessage) (hmore : more <+: rest) (hfirst : (runHeader lib base).1 ≠ .INCOMPLETE → more = [])
      (hend : (runHeader lib (base.received more)).1 = .INCOMPLETE → more = rest)
      (hok : (runHeader lib (base.received more)).1 = .OK →
        m' = { (runHeader lib (base.received more)).2 with parserState := .START_LINE }) :
      Fed lib base rest (.ok ((runHeader lib (base.received more)).1, m', base.buffer ++ more))

theorem Fed.extend {lib : HttpLibrary} {base : HTTPMessage} {chunk rest : Bytes} {outcome : Checked (Result × HTTPMessage × Bytes)}
    (hopen : (runHeader lib base).1 = .INCOMPLETE) (h : Fed lib (base.received chunk) rest outcome) :
    Fed lib base (chunk ++ rest) outcome := by
  obtain ⟨more, m', hmore, -, hend, hok⟩ := h
  have hwhole := received_received base chunk more
  have hbuffer : (base.received chunk).buffer ++ more = base.buffer ++ (chunk ++ more) := List.append_assoc _ _ _
  rw [hwhole] at hend hok ⊢
  rw [hbuffer]
  exact .stops (chunk ++ more) m' ((List.prefix_append_right_inj chunk).mpr hmore) (fun hne => absurd hopen hne)
    (fun h => by rw [hend h]) hok

/-- One call, and the calls behind it. -/
theorem feed_cons {lib : HttpLibrary} {m : HTTPMessage} {chunk : Bytes} (chunks : List Bytes) (fed : Bytes)
    (hsize : m.buffer.length + chunk.length ≤ BUFFER_CAPACITY) (hit : m.it ≤ m.buffer.length) :
    feed lib m fed (chunk :: chunks) = if (run lib (m.received chunk)).1 = .INCOMPLETE then
      feed lib (run lib (m.received chunk)).2 (fed ++ chunk) chunks
      else .ok ((run lib (m.received chunk)).1, (finish (run lib (m.received chunk))).2, fed ++ chunk) := by
  have hparse : parse lib m chunk = .ok (finish (run lib (m.received chunk))) :=
    parse_small lib hsize (hit.trans (Nat.le_add_right _ _))
  rw [feed, hparse]
  generalize run lib (m.received chunk) = r
  obtain ⟨result, m'⟩ := r
  cases result <;> rfl

/-- What a call returns in the header stage, and the calls behind it. -/
theorem fed_step {lib : HttpLibrary} {base : HTTPMessage} (chunks : List Bytes)
    (hwait : ∀ m', runHeader lib base = (.INCOMPLETE, m') → Fed lib base chunks.flatten (feed lib m' base.buffer chunks)) :
    Fed lib base chunks.flatten (if (runHeader lib base).1 = .INCOMPLETE then
      feed lib (runHeader lib base).2 base.buffer chunks
      else .ok ((runHeader lib base).1, (finish (runHeader lib base)).2, base.buffer)) := by
  by_cases hopen : (runHeader lib base).1 = .INCOMPLETE
  · rw [if_pos hopen]
    exact hwait _ (Prod.ext hopen rfl)
  · rw [if_neg hopen]
    have hnil := received_nil base
    have hbuffer : base.buffer ++ [] = base.buffer := List.append_nil _
    have hstops := @Fed.stops lib base chunks.flatten [] (finish (runHeader lib base)).2 List.nil_prefix fun _ => rfl
    rw [hnil, hbuffer] at hstops
    refine hstops (fun hincomplete => absurd hincomplete hopen) fun hok => ?_
    rw [finish_ok hok]

theorem feed_waiting {lib : HttpLibrary} {chunks : List Bytes} : ∀ {base m' : HTTPMessage}, base.headers = [] →
    base.parserState = .HEADER → base.it ≤ base.buffer.length → base.buffer.length + chunks.flatten.length ≤ BUFFER_CAPACITY →
    runHeader lib base = (.INCOMPLETE, m') → Fed lib base chunks.flatten (feed lib m' base.buffer chunks) := by
  induction chunks with
  | nil =>
    intro base m' hheaders hstate hit hsize hopen
    have hstops := @Fed.stops lib base [] [] m' List.nil_prefix fun _ => rfl
    rw [received_nil, hopen, List.append_nil] at hstops
    exact hstops (fun _ => rfl) nofun
  | cons chunk chunks ih =>
    intro base m' hheaders hstate hit hsize hopen
    obtain ⟨hbuffer, hbehind, hresumes⟩ := runHeader_resumes hheaders hit hstate hopen
    have hlength : (base.received chunk).buffer.length = base.buffer.length + chunk.length := List.length_append
    rw [List.flatten_cons, List.length_append] at hsize
    rw [List.flatten_cons, feed_cons chunks base.buffer (by rw [hbuffer]; omega) (by rw [hbuffer]; exact hbehind), hresumes]
    have hit' : (base.received chunk).it ≤ (base.received chunk).buffer.length := by
      rw [hlength]
      exact hit.trans (Nat.le_add_right _ _)
    have hnext := @fed_step lib (base.received chunk) chunks fun m'' hopen' =>
      @ih (base.received chunk) m'' hheaders hstate hit' (by omega) hopen'
    exact hnext.extend (by rw [hopen])

/-- The text up to the chunk that completes the first line. -/
def upToLine : Bytes → List Bytes → Option Bytes
  | _, [] => none
  | fed, chunk :: chunks =>
    match find EOL_DELIMITER (fed ++ chunk) with
    | some _ => some (fed ++ chunk)
    | none => upToLine (fed ++ chunk) chunks

theorem feed_new (lib : HttpLibrary) {chunks : List Bytes} : ∀ {fed : Bytes}, ¬ EOL_DELIMITER <:+: fed →
    fed.length + chunks.flatten.length ≤ BUFFER_CAPACITY →
    match upToLine fed chunks with
    | none => (∃ m', feed lib { new with buffer := fed } fed chunks = .ok (.INCOMPLETE, m', fed ++ chunks.flatten)) ∧
        ¬ EOL_DELIMITER <:+: fed ++ chunks.flatten
    | some arrived => ∃ endOfLine rest, find EOL_DELIMITER arrived = some endOfLine ∧ fed ++ chunks.flatten = arrived ++ rest ∧
        match startOf lib arrived endOfLine with
        | none => ∃ m', feed lib { new with buffer := fed } fed chunks = .ok (.INVALID, m', arrived)
        | some start =>
          Fed lib (behindLine arrived start endOfLine) rest (feed lib { new with buffer := fed } fed chunks) := by
  induction chunks with
  | nil =>
    intro fed hopen hsize
    rw [upToLine]
    dsimp only
    rw [List.flatten_nil, List.append_nil]
    exact ⟨⟨_, rfl⟩, hopen⟩
  | cons chunk chunks ih =>
    intro fed hopen hsize
    rw [List.flatten_cons, List.length_append] at hsize
    have hassoc : fed ++ (chunk ++ chunks.flatten) = (fed ++ chunk) ++ chunks.flatten := (List.append_assoc _ _ _).symm
    have hlength : (fed ++ chunk).length = fed.length + chunk.length := List.length_append
    have hcons := @feed_cons lib { new with buffer := fed } chunk chunks fed (by dsimp only; omega) (Nat.zero_le _)
    have hreceived : received { new with buffer := fed } chunk = { new with buffer := fed ++ chunk } := rfl
    rw [hreceived] at hcons
    rw [List.flatten_cons, hassoc, upToLine, hcons]
    cases hend : find EOL_DELIMITER (fed ++ chunk) with
    | none =>
      dsimp only
      have hnone := (find_eq_none_iff (by decide)).mp hend
      have hrun : run lib { new with buffer := fed ++ chunk } = (.INCOMPLETE, { new with buffer := fed ++ chunk }) :=
        run_open rfl hnone
      rw [hrun, if_pos rfl]
      exact ih hnone (by omega)
    | some endOfLine =>
      dsimp only
      refine ⟨endOfLine, chunks.flatten, hend, rfl, ?_⟩
      have hrun := @run_new lib (fed ++ chunk) endOfLine hend
      cases hstart : startOf lib (fed ++ chunk) endOfLine with
      | none =>
        rw [hstart] at hrun
        dsimp only at hrun ⊢
        rw [hrun, if_neg Result.noConfusion]
        exact ⟨_, rfl⟩
      | some start =>
        rw [hstart] at hrun
        dsimp only at hrun ⊢
        rw [hrun]
        obtain ⟨hbuffer, -, hheaders, hstate⟩ := behindLine_eq (fed ++ chunk) start endOfLine
        have hnext := @fed_step lib (behindLine (fed ++ chunk) start endOfLine) chunks fun m' hwait =>
          feed_waiting hheaders hstate (behindLine_it hend start) (by rw [hbuffer]; omega) hwait
        rwa [hbuffer] at hnext

/-! ## Start lines that go on -/

/-- A text by its first line. -/
structure FirstLine (text line rest : Bytes) : Prop where
  text_eq : text = line ++ (EOL_DELIMITER ++ rest)
  first : ¬ EOL_DELIMITER <:+: line

theorem FirstLine.find {text line rest : Bytes} (h : FirstLine text line rest) :
    find EOL_DELIMITER text = some line.length := by
  rw [h.text_eq]
  exact find_line cr_ne_lf h.first rest

theorem exists_firstLine {text : Bytes} {endOfLine : ℕ} (h : find EOL_DELIMITER text = some endOfLine) :
    ∃ line rest, FirstLine text line rest ∧ line.length = endOfLine := by
  obtain ⟨line, rest, htext, hlength, hfirst⟩ := find_split (by decide) h
  exact ⟨line, rest, ⟨htext, fun hwithin => hfirst (hwithin.trans (List.prefix_append _ _).isInfix)⟩, hlength⟩

theorem FirstLine.unique {text line line' rest rest' : Bytes} (h : FirstLine text line rest) (h' : FirstLine text line' rest') :
    line = line' ∧ rest = rest' := by
  have hlength := h.find.symm.trans h'.find
  have hwhole := h.text_eq.symm.trans h'.text_eq
  obtain ⟨rfl, hrest⟩ := List.append_inj hwhole (Option.some.inj hlength)
  exact ⟨rfl, List.append_cancel_left hrest⟩

theorem FirstLine.append {text line rest : Bytes} (h : FirstLine text line rest) (more : Bytes) :
    FirstLine (text ++ more) line (rest ++ more) := by
  refine ⟨?_, h.first⟩
  rw [h.text_eq, List.append_assoc, List.append_assoc]

/-- Two spaces cut a line into the fields of a start line. -/
theorem exists_startLine {line : Bytes} (h : 2 ≤ line.count SPACE) :
    ∃ field1 field2 field3, line = startLine field1 field2 field3 ∧ SPACE ∉ field1 ∧ SPACE ∉ field2 := by
  obtain ⟨field1, rest, rfl, hfirst⟩ := List.eq_append_cons_of_mem (List.count_pos_iff.mp (by omega) : SPACE ∈ line)
  rw [List.count_append, List.count_eq_zero.mpr hfirst, List.count_cons_self] at h
  obtain ⟨field2, field3, rfl, hsecond⟩ := List.eq_append_cons_of_mem (List.count_pos_iff.mp (by omega) : SPACE ∈ rest)
  exact ⟨field1, field2, field3, rfl, hfirst, hsecond⟩

/-- The start line of a first line with two spaces is there as soon as the line is. -/
theorem startOf_stable (lib : HttpLibrary) {text line rest : Bytes} (h : FirstLine text line rest) (hspaces : 2 ≤ line.count SPACE)
    (more : Bytes) : startOf lib (text ++ more) line.length = startOf lib text line.length := by
  obtain ⟨field1, field2, field3, rfl, hfirst, hsecond⟩ := exists_startLine hspaces
  rw [h.text_eq, List.append_assoc, startOf_line lib hfirst hsecond, startOf_line lib hfirst hsecond]

/-- A text that ends where a request line could end. -/
def EndsAsRequest (text : Bytes) : Prop :=
  ∃ method endpoint, text = startLine method endpoint HTTP_VERSION ∧ SPACE ∉ method ∧ SPACE ∉ endpoint ∧ method ≠ [] ∧
    endpoint ≠ [] ∧ method.length ≤ METHOD_CAPACITY ∧ endpoint.length ≤ ENDPOINT_CAPACITY

/-- Nothing but the version is behind the second space. -/
theorem EndsAsRequest.eq {text more : Bytes} (h : EndsAsRequest text) (h' : EndsAsRequest (text ++ more)) : more = [] := by
  obtain ⟨method, endpoint, rfl, hfirst, hsecond, -⟩ := h
  obtain ⟨method', endpoint', hwhole, hfirst', hsecond', -⟩ := h'
  rw [startLine, startLine, List.append_assoc, List.cons_append, List.append_assoc, List.cons_append] at hwhole
  obtain ⟨rfl, hrest⟩ := first_split_unique hfirst hfirst' hwhole
  obtain ⟨rfl, hversion⟩ := first_split_unique hsecond hsecond' hrest
  exact List.append_right_eq_self.mp hversion

/-- The second space of a text is behind a first line that has fewer than two. -/
theorem behind_line {field1 field2 behind line rest : Bytes} (h : FirstLine (field1 ++ SPACE :: (field2 ++ SPACE :: behind)) line rest)
    (hspaces : line.count SPACE < 2) : line.length < field1.length + 1 + field2.length + 1 := by
  by_contra hwithin
  have hfront : field1 ++ SPACE :: (field2 ++ [SPACE]) <+: field1 ++ SPACE :: (field2 ++ SPACE :: behind) :=
    ⟨behind, by simp⟩
  have hline : line <+: field1 ++ SPACE :: (field2 ++ SPACE :: behind) := ⟨_, h.text_eq.symm⟩
  have hlength : (field1 ++ SPACE :: (field2 ++ [SPACE])).length = field1.length + 1 + field2.length + 1 := by
    simp only [List.length_append, List.length_cons, List.length_nil]
    omega
  have hprefix := List.prefix_of_prefix_length_le hfront hline (by omega)
  have hcount := hprefix.sublist.count_le SPACE
  rw [List.count_append, List.count_cons_self, List.count_append, List.count_singleton_self] at hcount
  omega

/-- **A first line with fewer than two spaces** is a start line as long as nothing follows the version. -/
theorem startOf_loose {lib : HttpLibrary} (hlib : ∀ text, CR ∈ text → lib.toUnsigned text = none) {text line rest : Bytes}
    (h : FirstLine text line rest) (hspaces : line.count SPACE < 2) :
    (startOf lib text line.length).isSome ↔ EndsAsRequest text := by
  constructor
  · intro hsome
    obtain ⟨start, hstart⟩ := Option.isSome_iff_exists.mp hsome
    obtain ⟨field1, field2, behind, rfl, hfirst, hsecond, hfields⟩ := startOf_eq_some hstart
    have hbehind := behind_line h hspaces
    rw [thirdField, if_neg (by omega)] at hfields
    obtain ⟨hne, ⟨hresponse, statusCode, hstatus, -⟩ | ⟨-, rfl, hmethod, hendpoint, -⟩⟩ := Start.ofFields_eq_some hfields
    · -- the line ends in the second field, which is not a number then
      have hcr : CR ∈ field1 ++ SPACE :: (field2 ++ [SPACE]) := by
        have hfront : field1 ++ SPACE :: (field2 ++ [SPACE]) <+: field1 ++ SPACE :: (field2 ++ SPACE :: behind) :=
          ⟨behind, by simp⟩
        have hline : line ++ [CR] <+: field1 ++ SPACE :: (field2 ++ SPACE :: behind) := by
          rw [h.text_eq]
          exact ⟨LF :: rest, by simp [eol_eq]⟩
        have hprefix := List.prefix_of_prefix_length_le hline hfront (by
          simp only [List.length_append, List.length_cons, List.length_nil]
          omega)
        exact hprefix.subset (List.mem_append_right line (List.mem_singleton.mpr rfl))
      have hspace : CR ≠ SPACE := by decide
      have hversion : CR ∉ HTTP_VERSION := by decide
      rw [hresponse] at hcr
      simp only [List.mem_append, List.mem_cons, List.not_mem_nil, or_false] at hcr
      obtain hcr | hcr | hcr | hcr := hcr
      · exact absurd hcr hversion
      · exact absurd hcr hspace
      · rw [hlib field2 hcr] at hstatus
        cases hstatus
      · exact absurd hcr hspace
    · rw [not_or, not_or] at hne
      exact ⟨field1, field2, rfl, hfirst, hsecond, hne.1, hne.2.1, hmethod, hendpoint⟩
  · rintro ⟨method, endpoint, rfl, hfirst, hsecond, hmethod, hendpoint, hmethodFits, hendpointFits⟩
    have hbehind := behind_line h hspaces
    rw [startOf, startLine, cutAt_append hfirst]
    dsimp only
    rw [cutAt_append hsecond]
    dsimp only
    rw [thirdField, if_neg (by omega), Start.ofFields_request lib hmethod hendpoint hmethodFits hendpointFits]
    rfl

/-- A first line, a complete header block, and the body that it tells of. -/
def HeadersFollow (lib : HttpLibrary) (text : Bytes) : Prop :=
  ∃ line rest head behind, FirstLine text line rest ∧ Block rest head behind ∧ CompleteBlock lib head behind

theorem runHeader_behindLine {lib : HttpLibrary} {text line rest : Bytes} (h : FirstLine text line rest) (start : Start) :
    (runHeader lib (behindLine text start line.length)).1 = .OK ↔ HeadersFollow lib text := by
  obtain ⟨hbuffer, hit, hheaders, -⟩ := behindLine_eq text start line.length
  have hview : (behindLine text start line.length).view = rest := by
    rw [view, hbuffer, hit, h.text_eq, ← List.drop_drop, List.drop_left, List.drop_left]
  rw [runHeader_ok_iff hheaders, hview]
  constructor
  · rintro ⟨head, behind, hblock, hcomplete⟩
    exact ⟨line, rest, head, behind, h, hblock, hcomplete⟩
  · rintro ⟨line', rest', head, behind, h', hblock, hcomplete⟩
    obtain ⟨rfl, rfl⟩ := h.unique h'
    exact ⟨head, behind, hblock, hcomplete⟩

/-! ## Chunks and the whole text -/

/-- Both ways to feed a text return, what the chunks make of it is what one call makes of the text up to the last
chunk that was needed, and they come to a message if one call does. -/
def ChunkFree (lib : HttpLibrary) (chunks : List Bytes) : Prop :=
  ∃ result m fed result' m', feed lib new [] chunks = .ok (result, m, fed) ∧
    parse lib new chunks.flatten = .ok (result', m') ∧
    (result = .OK → ∃ single, parse lib new fed = .ok (.OK, single) ∧ SameMessage m single) ∧
    (result' = .OK → result = .OK)

/-- The text fits the memory, and the chunks do not decide on a start line. -/
structure ReadsAlike (lib : HttpLibrary) (chunks : List Bytes) : Prop where
  size : chunks.flatten.length ≤ BUFFER_CAPACITY
  line : ∀ arrived, upToLine [] chunks = some arrived →
    ∀ line rest, FirstLine chunks.flatten line rest → line.count SPACE < 2 → HeadersFollow lib chunks.flatten →
      (EndsAsRequest arrived → HeadersFollow lib arrived) ∧ (EndsAsRequest chunks.flatten → arrived = chunks.flatten)

theorem SameMessage.refl (m : HTTPMessage) : SameMessage m m := ⟨rfl, fun _ => ⟨rfl, rfl⟩, fun _ => rfl, fun _ => rfl, rfl⟩

/-- One call on a new object. -/
theorem parse_new (lib : HttpLibrary) {text : Bytes} (hsize : text.length ≤ BUFFER_CAPACITY) :
    parse lib new text = .ok (finish (run lib { new with buffer := text })) :=
  @parse_small lib new text ((Nat.zero_add _).trans_le hsize) (Nat.zero_le _)

/-- One call comes to a message where a start line is accepted and the rest follows. -/
theorem run_new_ok_iff {lib : HttpLibrary} {text line rest : Bytes} (h : FirstLine text line rest) :
    (run lib { new with buffer := text }).1 = .OK ↔ (startOf lib text line.length).isSome ∧ HeadersFollow lib text := by
  have hrun := @run_new lib text line.length h.find
  cases hstart : startOf lib text line.length with
  | none =>
    rw [hstart] at hrun
    dsimp only at hrun
    rw [hrun]
    simp
  | some start =>
    rw [hstart] at hrun
    dsimp only at hrun
    rw [hrun, runHeader_behindLine h start]
    simp

/-- **Behind an accepted start line** the chunks come to a message exactly if the whole text does. -/
theorem Fed.outcome {lib : HttpLibrary} {arrived line behind rest : Bytes} {start : Start}
    {outcome : Checked (Result × HTTPMessage × Bytes)} (h : FirstLine arrived line behind)
    (hfed : Fed lib (behindLine arrived start line.length) rest outcome) :
    ∃ result m more, outcome = .ok (result, m, arrived ++ more) ∧ more <+: rest ∧
      (HeadersFollow lib arrived → more = []) ∧ (result = .OK ↔ HeadersFollow lib (arrived ++ rest)) ∧
      (result = .OK → HeadersFollow lib (arrived ++ more) ∧
        m = { (runHeader lib (behindLine (arrived ++ more) start line.length)).2 with parserState := .START_LINE }) := by
  cases hfed with
  | stops more m' hmore hfirst hend hok =>
    obtain ⟨hbuffer, -⟩ := behindLine_eq arrived start line.length
    rw [behindLine_received] at hend hok ⊢
    rw [hbuffer]
    refine ⟨_, m', more, rfl, hmore, fun hfollow => ?_, ⟨fun hresult => ?_, fun hwhole => ?_⟩, fun hresult => ⟨?_, hok hresult⟩⟩
    · refine hfirst ?_
      rw [(runHeader_behindLine h start).mpr hfollow]
      exact Result.noConfusion
    · obtain ⟨line', rest', head, tail, hline, hblock, hcomplete⟩ := (runHeader_behindLine (h.append more) start).mp hresult
      obtain ⟨more', rfl⟩ := hmore
      rw [← List.append_assoc]
      exact ⟨line', rest' ++ more', head, tail ++ more', hline.append more', hblock.append more', hcomplete.append more'⟩
    · by_cases hopen : (runHeader lib (behindLine (arrived ++ more) start line.length)).1 = .INCOMPLETE
      · rw [← hend hopen, ← runHeader_behindLine (h.append more) start] at hwhole
        exact hwhole
      · obtain ⟨more', rfl⟩ := hmore
        obtain ⟨-, -, hheaders, -⟩ := behindLine_eq (arrived ++ more) start line.length
        have hstable := runHeader_stable hheaders (behindLine_it (h.append more).find start) hopen more'
        rw [← List.append_assoc] at hwhole
        rw [← hstable, behindLine_received]
        exact (runHeader_behindLine ((h.append more).append more') start).mpr hwhole
    · exact (runHeader_behindLine (h.append more) start).mp hresult

section Feeding
variable {lib : HttpLibrary} {chunks : List Bytes} {arrived line behind rest : Bytes} (hsize : chunks.flatten.length ≤ BUFFER_CAPACITY)
  (h : FirstLine arrived line behind) (hwhole : chunks.flatten = arrived ++ rest)
include hsize h hwhole

/-- The start line is refused when it arrives: one call must not come to a message. -/
theorem chunkFree_refused {m : HTTPMessage} (hfeed : feed lib new [] chunks = .ok (.INVALID, m, arrived)) :
    ChunkFree lib chunks ↔ ¬ ((startOf lib chunks.flatten line.length).isSome ∧ HeadersFollow lib chunks.flatten) := by
  have hline := h.append rest
  rw [← hwhole] at hline
  rw [← run_new_ok_iff hline]
  constructor
  · rintro ⟨result, m₁, fed, result', m', hchunks, hparse, -, hcomes⟩ hok
    rw [hfeed] at hchunks
    cases hchunks
    rw [parse_new lib hsize] at hparse
    have hcode := congrArg Prod.fst (Except.ok.inj hparse)
    rw [finish_fst, hok] at hcode
    cases hcomes hcode.symm
  · intro hnot
    refine ⟨.INVALID, m, arrived, (finish (run lib { new with buffer := chunks.flatten })).1,
      (finish (run lib { new with buffer := chunks.flatten })).2, hfeed, parse_new lib hsize, nofun, fun hok => ?_⟩
    rw [finish_fst] at hok
    exact absurd hok hnot

/-- The start line is accepted when it arrives, and still there when the chunks come to a message. -/
theorem chunkFree_accepted {result : Result} {m : HTTPMessage} {more : Bytes} {start : Start}
    (hfeed : feed lib new [] chunks = .ok (result, m, arrived ++ more)) (hmore : more <+: rest)
    (hiff : result = .OK ↔ HeadersFollow lib (arrived ++ rest))
    (hok : result = .OK → HeadersFollow lib (arrived ++ more) ∧ m =
      { (runHeader lib (behindLine (arrived ++ more) start line.length)).2 with parserState := .START_LINE })
    (hstart : result = .OK → startOf lib (arrived ++ more) line.length = some start) : ChunkFree lib chunks := by
  refine ⟨result, m, arrived ++ more, (finish (run lib { new with buffer := chunks.flatten })).1,
    (finish (run lib { new with buffer := chunks.flatten })).2, hfeed, parse_new lib hsize, fun hresult => ?_, fun hcode => ?_⟩
  · obtain ⟨hfollow, rfl⟩ := hok hresult
    have hline := h.append more
    have hfits : (arrived ++ more).length ≤ BUFFER_CAPACITY := by
      have hle := ((List.prefix_append_right_inj arrived).mpr hmore).length_le
      rw [← hwhole] at hle
      exact hle.trans hsize
    have hrun := @run_new lib (arrived ++ more) line.length hline.find
    rw [hstart hresult] at hrun
    dsimp only at hrun
    have hcode := (runHeader_behindLine hline start).mpr hfollow
    refine ⟨_, ?_, SameMessage.refl _⟩
    rw [parse_new lib hfits, hrun, finish_ok hcode]
  · have hline := h.append rest
    rw [← hwhole] at hline
    rw [finish_fst, run_new_ok_iff hline] at hcode
    rw [hiff, ← hwhole]
    exact hcode.2

end Feeding

/-- With two spaces in the first line, the chunks do not matter. -/
theorem chunkFree_tight {lib : HttpLibrary} {chunks : List Bytes} {arrived line behind rest : Bytes}
    (hsize : chunks.flatten.length ≤ BUFFER_CAPACITY) (h : FirstLine arrived line behind)
    (hwhole : chunks.flatten = arrived ++ rest) (hspaces : 2 ≤ line.count SPACE)
    (hfeed : match startOf lib arrived line.length with
      | none => ∃ m', feed lib new [] chunks = .ok (.INVALID, m', arrived)
      | some start => Fed lib (behindLine arrived start line.length) rest (feed lib new [] chunks)) :
    ChunkFree lib chunks := by
  cases hstart : startOf lib arrived line.length with
  | none =>
    rw [hstart] at hfeed
    obtain ⟨m, hfeed⟩ := hfeed
    refine (chunkFree_refused hsize h hwhole hfeed).mpr fun hcomes => ?_
    rw [hwhole, startOf_stable lib h hspaces, hstart] at hcomes
    exact absurd hcomes.1 (by simp)
  | some start =>
    rw [hstart] at hfeed
    obtain ⟨result, m, more, houtcome, hmore, -, hiff, hok⟩ := Fed.outcome h hfeed
    refine chunkFree_accepted hsize h hwhole houtcome hmore hiff hok fun _ => ?_
    rw [startOf_stable lib h hspaces, hstart]

/-- With fewer spaces, the chunks matter for a text that comes to a message. -/
theorem chunkFree_loose {lib : HttpLibrary} (hlib : ∀ text, CR ∈ text → lib.toUnsigned text = none) {chunks : List Bytes}
    {arrived line behind rest : Bytes} (hsize : chunks.flatten.length ≤ BUFFER_CAPACITY) (h : FirstLine arrived line behind)
    (hwhole : chunks.flatten = arrived ++ rest) (hspaces : line.count SPACE < 2)
    (hfeed : match startOf lib arrived line.length with
      | none => ∃ m', feed lib new [] chunks = .ok (.INVALID, m', arrived)
      | some start => Fed lib (behindLine arrived start line.length) rest (feed lib new [] chunks)) :
    ChunkFree lib chunks ↔ (HeadersFollow lib chunks.flatten →
      (EndsAsRequest arrived → HeadersFollow lib arrived) ∧ (EndsAsRequest chunks.flatten → arrived = chunks.flatten)) := by
  have hends := startOf_loose hlib h hspaces
  cases hstart : startOf lib arrived line.length with
  | none =>
    rw [hstart] at hfeed hends
    obtain ⟨m, hfeed⟩ := hfeed
    have hnot : ¬ EndsAsRequest arrived := fun hrequest => absurd (hends.mpr hrequest) (by simp)
    have hline := h.append rest
    rw [← hwhole] at hline
    rw [chunkFree_refused hsize h hwhole hfeed, startOf_loose hlib hline hspaces]
    constructor
    · exact fun hcomes hfollow => ⟨fun hrequest => absurd hrequest hnot, fun hrequest => absurd ⟨hrequest, hfollow⟩ hcomes⟩
    · rintro hall ⟨hrequest, hfollow⟩
      rw [← (hall hfollow).2 hrequest] at hrequest
      exact hnot hrequest
  | some start =>
    rw [hstart] at hfeed hends
    have hrequest : EndsAsRequest arrived := hends.mp rfl
    obtain ⟨result, m, more, houtcome, hmore, hfirst, hiff, hok⟩ := Fed.outcome h hfeed
    constructor
    · intro hfree hfollow
      refine ⟨fun _ => ?_, fun hwholeRequest => ?_⟩
      · rw [hwhole] at hfollow
        have hresult := hiff.mpr hfollow
        obtain ⟨result', m₁, fed, result'', m', hchunks, -, hsingle, -⟩ := hfree
        rw [houtcome] at hchunks
        cases hchunks
        obtain ⟨single, hparse, -⟩ := hsingle hresult
        have hfits : (arrived ++ more).length ≤ BUFFER_CAPACITY := by
          have hle := ((List.prefix_append_right_inj arrived).mpr hmore).length_le
          rw [← hwhole] at hle
          exact hle.trans hsize
        rw [parse_new lib hfits] at hparse
        have hcode := congrArg Prod.fst (Except.ok.inj hparse)
        rw [finish_fst, run_new_ok_iff (h.append more), startOf_loose hlib (h.append more) hspaces] at hcode
        -- what has arrived ends with the version, so nothing can follow
        have hnil := hrequest.eq hcode.1
        rw [hnil, List.append_nil] at hcode
        exact hcode.2
      · rw [hwhole] at hwholeRequest ⊢
        rw [hrequest.eq hwholeRequest, List.append_nil]
    · intro hall
      refine chunkFree_accepted hsize h hwhole houtcome hmore hiff hok fun hresult => ?_
      have hfollow := hiff.mp hresult
      rw [← hwhole] at hfollow
      rw [hfirst ((hall hfollow).1 hrequest), List.append_nil, hstart]

/-- **HTTP parsing does not depend on chunking** exactly if the text fits the memory that was reserved, and the chunks
do not decide on a start line whose second space is behind the first line. -/
theorem chunk_free_iff (lib : HttpLibrary) (hlib : ∀ text, CR ∈ text → lib.toUnsigned text = none) (chunks : List Bytes)
    (hmax : chunks.flatten.length ≤ MAX_MESSAGE_LENGTH) : ChunkFree lib chunks ↔ ReadsAlike lib chunks := by
  by_cases hsize : chunks.flatten.length ≤ BUFFER_CAPACITY
  · have hnew := @feed_new lib chunks [] (by decide) ((Nat.zero_add _).trans_le hsize)
    have hstart : { new with buffer := [] } = new := rfl
    rw [List.nil_append, hstart] at hnew
    cases harrived : upToLine [] chunks with
    | none =>
      rw [harrived] at hnew
      obtain ⟨⟨m, hfeed⟩, hopen⟩ := hnew
      have hrun := @run_open lib { new with buffer := chunks.flatten } rfl hopen
      refine iff_of_true ?_ ⟨hsize, fun arrived hsome => by rw [harrived] at hsome; cases hsome⟩
      refine ⟨.INCOMPLETE, m, chunks.flatten, .INCOMPLETE, { new with buffer := chunks.flatten }, hfeed, ?_, nofun, nofun⟩
      rw [parse_new lib hsize, hrun]
      rfl
    | some arrived =>
      rw [harrived] at hnew
      obtain ⟨endOfLine, rest, hend, hwhole, hfeed⟩ := hnew
      obtain ⟨line, behind, hline, rfl⟩ := exists_firstLine hend
      have hlineWhole := hline.append rest
      rw [← hwhole] at hlineWhole
      by_cases hspaces : 2 ≤ line.count SPACE
      · refine iff_of_true (chunkFree_tight hsize hline hwhole hspaces hfeed) ⟨hsize, ?_⟩
        intro arrived' hsome line' rest' hline' hfew
        obtain ⟨rfl, -⟩ := hlineWhole.unique hline'
        omega
      · rw [chunkFree_loose hlib hsize hline hwhole (by omega) hfeed]
        constructor
        · intro hall
          refine ⟨hsize, fun arrived' hsome line' rest' hline' hfew hfollow => ?_⟩
          rw [harrived] at hsome
          cases hsome
          exact hall hfollow
        · intro hreads hfollow
          exact hreads.line arrived harrived line _ hlineWhole (by omega) hfollow
  · refine iff_of_false ?_ fun h => hsize h.size
    rintro ⟨result, m, fed, result', m', -, hparse, -⟩
    have hempty : new.buffer.length = 0 := rfl
    rw [parse_large lib (by omega) (by omega)] at hparse
    cases hparse

/-- A library that reads digits only. -/
def digitLibrary : HttpLibrary :=
  ⟨fun s => if s.all (fun c => decide (0x30 ≤ c ∧ c ≤ 0x39)) then some (number 10 s) else none, number 10, fun _ => []⟩

theorem digitLibrary_toUnsigned : ∀ text, CR ∈ text → digitLibrary.toUnsigned text = none :=
  fun _ hcr => if_neg fun hall => absurd (List.all_eq_true.mp hall CR hcr) (by decide)

/-- A request that is cut in its start line and in its blank line. -/
theorem request_in_three_chunks :
    ChunkFree digitLibrary [ascii "GET / HT", ascii "TP/1.1\r\nA: b\r\n", ascii "\r\n"] := by
  refine (chunk_free_iff digitLibrary digitLibrary_toUnsigned _ (by decide +kernel)).mpr ⟨by decide +kernel, ?_⟩
  intro arrived hsome line rest hline hfew
  have htwo : FirstLine (ascii "GET / HTTP/1.1\r\nA: b\r\n\r\n") (ascii "GET / HTTP/1.1") (ascii "A: b\r\n\r\n") :=
    ⟨by decide +kernel, not_infix_of_not_mem (by decide)⟩
  obtain ⟨rfl, -⟩ := hline.unique htwo
  exact absurd hfew (by decide)

/-- The second space and the version are taken from a header line, as long as nothing follows them. -/
theorem version_in_header_line :
    let chunks := [ascii "GET /\r\nf:o HTTP/1.1", ascii "\r\n\r\n"]
    chunks.flatten.length ≤ MAX_MESSAGE_LENGTH ∧ ¬ ChunkFree digitLibrary chunks := by
  intro chunks
  refine ⟨by decide +kernel, ?_⟩
  rintro ⟨result, m, fed, result', m', hfeed, -, hsingle, -⟩
  have hchunks : (feed digitLibrary new [] chunks).map (fun r => (r.1, r.2.2)) = .ok (.OK, chunks.flatten) := by decide +kernel
  have hwhole : (parse digitLibrary new chunks.flatten).map Prod.fst = .ok .INVALID := by decide +kernel
  rw [hfeed] at hchunks
  obtain ⟨hok, hfed⟩ := Prod.mk.inj (Except.ok.inj hchunks)
  obtain ⟨single, hparse, -⟩ := hsingle hok
  dsimp only at hfed
  rw [hfed] at hparse
  rw [hparse] at hwhole
  exact Result.noConfusion (Except.ok.inj hwhole)

end HTTPMessage
end Husarnet
