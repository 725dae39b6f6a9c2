import Husarnet.HttpRoundTrip
import Husarnet.Lib.Runs

/-! # HTTP message objects that are used again

A call leaves its traces in an object: bytes in the buffer, a position, headers, a body. A later message is parsed as
a new object would parse it only where nothing of this is left.
-/

namespace Husarnet
open Octets Containers Numerals Runs
set_option autoImplicit false

namespace HTTPMessage

/-! ## Calls on an object -/

/-- The user fills in a request and encodes it, or feeds chunks until a call returns `OK` or `INVALID`. -/
inductive Call where
  | encode (method endpoint : Bytes) (headers : List (Bytes × Bytes)) (body : Bytes) (capacity : ℕ)
  | parse (chunks : List Bytes)

def CallStep (lib : HttpLibrary) (m : HTTPMessage) : Call → HTTPMessage → Prop
  | .encode method endpoint headers body capacity, m' =>
    ∃ text, encode capacity { m with method := method, endpoint := endpoint, headers := headers, body := body } = .ok (text, m')
  | .parse chunks, m' => ∃ result fed, feed lib m [] chunks = .ok (result, m', fed) ∧ result ≠ .INCOMPLETE

/-- Behind the start line the position is behind it too. -/
def Placed (m : HTTPMessage) : Prop := m.parserState ≠ .START_LINE → 0 < m.it

theorem parseHeader_it (m : HTTPMessage) : m.it ≤ m.parseHeader.2.it := by
  unfold parseHeader
  split
  · exact le_rfl
  · split
    · dsimp only
      omega
    · exact le_rfl

theorem runBody_it (lib : HttpLibrary) (m : HTTPMessage) : (runBody lib m).2.it = m.it := by
  rw [runBody_eq]
  cases get? m.headers CONTENT_LENGTH with
  | none => rfl
  | some value =>
    dsimp only
    split <;> rfl

theorem runHeader_it (lib : HttpLibrary) (m : HTTPMessage) : m.it ≤ (runHeader lib m).2.it := by
  have hheader := parseHeader_it m
  rw [runHeader]
  generalize m.parseHeader = r at hheader
  obtain ⟨result, m'⟩ := r
  cases result with
  | OK =>
    dsimp only
    rw [runBody_it]
    exact hheader
  | INCOMPLETE => exact hheader
  | INVALID => exact hheader

/-- Once the start line is read, the position is behind it. -/
theorem run_it {lib : HttpLibrary} {m m' : HTTPMessage} {result : Result} (hm : Placed m) (h : run lib m = (result, m'))
    (hread : result = .OK ∨ result = .INCOMPLETE ∧ m'.parserState ≠ .START_LINE) : 0 < m'.it := by
  have hheader {m₁ : HTTPMessage} (hit : 0 < m₁.it) (h : runHeader lib m₁ = (result, m')) : 0 < m'.it := by
    have hle := runHeader_it lib m₁
    rw [h] at hle
    exact hit.trans_le hle
  cases hstate : m.parserState with
  | START_LINE =>
    obtain hopen | hinvalid | ⟨endOfLine, start, -, hrun⟩ := run_line_cases hstate lib
    · rw [h] at hopen
      cases hopen
      obtain hok | ⟨-, hne⟩ := hread
      · cases hok
      · exact absurd hstate hne
    · rw [h] at hinvalid
      cases hinvalid
      obtain hok | ⟨hopen, -⟩ := hread
      · cases hok
      · cases hopen
    · obtain ⟨-, hit, -⟩ := started_eq m start endOfLine
      refine hheader ?_ (hrun.symm.trans h)
      rw [hit]
      exact Nat.add_pos_right _ (by decide)
  | HEADER =>
    rw [run, hstate] at h
    exact hheader (hm (by rw [hstate]; exact ParseState.noConfusion)) h
  | BODY =>
    rw [run, hstate] at h
    have hle := runBody_it lib m
    have hbody : runBody lib m = (result, m') := h
    rw [hbody] at hle
    have hpos := hm (by rw [hstate]; exact ParseState.noConfusion)
    exact hle ▸ hpos
  | DONE =>
    rw [run, hstate] at h
    cases h
    exact hm (by rw [hstate]; exact ParseState.noConfusion)

theorem parse_placed {lib : HttpLibrary} {m m' : HTTPMessage} {bufferView : Bytes} {result : Result} (hm : Placed m)
    (h : parse lib m bufferView = .ok (result, m')) : Placed m' := by
  obtain ⟨-, -, rfl⟩ | ⟨-, -, hfinish⟩ := parse_eq_ok h
  · exact hm
  · cases result with
    | OK =>
      obtain ⟨-, rfl⟩ := finish_eq_ok hfinish
      exact fun hne => absurd rfl hne
    | INCOMPLETE =>
      have hkeeps : Placed { m with buffer := m.buffer ++ bufferView } := hm
      exact fun hne => run_it hkeeps (finish_eq_incomplete hfinish) (Or.inr ⟨rfl, hne⟩)
    | INVALID =>
      obtain ⟨-, rfl⟩ := finish_eq_invalid hfinish
      exact fun hne => absurd rfl hne

/-- The last of the calls that are made for the chunks. What a call that returns `INCOMPLETE` keeps holds up to it. -/
theorem feed_last {lib : HttpLibrary} {I : HTTPMessage → Prop}
    (hkeep : ∀ {m m' : HTTPMessage} {chunk : Bytes}, I m → parse lib m chunk = .ok (.INCOMPLETE, m') → I m')
    {chunks : List Bytes} : ∀ {m m' : HTTPMessage} {fed fed' : Bytes} {result : Result}, I m →
      feed lib m fed chunks = .ok (result, m', fed') →
      result = .INCOMPLETE ∧ I m' ∨ ∃ m₁ chunk, I m₁ ∧ parse lib m₁ chunk = .ok (result, m') := by
  induction chunks with
  | nil =>
    intro m m' fed fed' result hm h
    cases h
    exact Or.inl ⟨rfl, hm⟩
  | cons chunk chunks ih =>
    intro m m' fed fed' result hm h
    rw [feed] at h
    obtain ⟨⟨code, m₁⟩, hparse, hrest⟩ := Checked.bind_eq_ok.mp h
    dsimp only at hrest
    split at hrest
    · rename_i hopen
      subst hopen
      exact ih (hkeep hm hparse) hrest
    · cases hrest
      exact Or.inr ⟨m, chunk, hm, hparse⟩

theorem feed_placed {lib : HttpLibrary} {chunks : List Bytes} {m m' : HTTPMessage} {fed fed' : Bytes} {result : Result}
    (hm : Placed m) (h : feed lib m fed chunks = .ok (result, m', fed')) : Placed m' := by
  obtain ⟨-, hplaced⟩ | ⟨m₁, chunk, hplaced, hparse⟩ := feed_last parse_placed hm h
  · exact hplaced
  · exact parse_placed hplaced hparse

/-- An object that has just parsed a message has the position behind its start line. -/
theorem feed_it {lib : HttpLibrary} {chunks : List Bytes} {m m' : HTTPMessage} {fed fed' : Bytes} (hm : Placed m)
    (h : feed lib m fed chunks = .ok (.OK, m', fed')) : 0 < m'.it := by
  obtain ⟨hopen, -⟩ | ⟨m₁, chunk, hplaced, hparse⟩ := feed_last parse_placed hm h
  · cases hopen
  · obtain ⟨hinvalid, -⟩ | ⟨-, -, hfinish⟩ := parse_eq_ok hparse
    · cases hinvalid
    · obtain ⟨hok, rfl⟩ := finish_eq_ok hfinish
      have hkeeps : Placed { m₁ with buffer := m₁.buffer ++ chunk } := hplaced
      have hpos := run_it hkeeps (Prod.eta _).symm (Or.inl hok)
      exact hpos

/-- **A run of calls** leaves the position behind the start line wherever this has been read. -/
theorem calls_placed {lib : HttpLibrary} {tr : List (Call × HTTPMessage)} (hr : IsRun (CallStep lib) new tr) :
    ∀ m ∈ states new tr, Placed m := by
  refine hr.keeps (fun hne => absurd rfl hne) ?_
  rintro m call m' hm hstep
  cases call with
  | encode method endpoint headers body capacity =>
    obtain ⟨text, htext⟩ := hstep
    rw [encode_eq] at htext
    split at htext
    · cases htext
    · cases htext
      exact hm
  | parse chunks =>
    obtain ⟨result, fed, hfeed, -⟩ := hstep
    exact feed_placed hm hfeed

/-! ## Well-formed messages -/

/-- A message by its parts. -/
structure Document where
  field1 : Bytes
  field2 : Bytes
  field3 : Bytes
  lines : List Bytes
  body : Bytes

namespace Document

def text (d : Document) : Bytes := messageText (startLine d.field1 d.field2 d.field3) d.lines d.body

/-- A request or a response with header lines and a body of the length that they tell. -/
structure WellFormed (lib : HttpLibrary) (d : Document) : Prop where
  field1 : d.field1 ≠ [] ∧ ∀ c ∈ d.field1, c ≠ SPACE ∧ c ≠ CR ∧ c ≠ LF
  field2 : d.field2 ≠ [] ∧ ∀ c ∈ d.field2, c ≠ SPACE ∧ c ≠ CR ∧ c ≠ LF
  field3 : ∀ c ∈ d.field3, c ≠ CR ∧ c ≠ LF
  version : d.field1 = HTTP_VERSION ∨ d.field3 = HTTP_VERSION
  lines : ∀ line ∈ d.lines, COLON ∈ line ∧ ∀ c ∈ line, c ≠ CR ∧ c ≠ LF
  body : match get? (withLines [] d.lines) CONTENT_LENGTH with
    | none => d.body = []
    | some value => lib.toSize value = d.body.length

variable {lib : HttpLibrary} {d : Document}

theorem WellFormed.oneLine (h : d.WellFormed lib) : OneLine d.field1 d.field2 d.field3 := by
  have hspace : CR ≠ SPACE := by decide
  refine ⟨fun hmem => (h.field1.2 SPACE hmem).1 rfl, fun hmem => (h.field2.2 SPACE hmem).1 rfl,
    not_infix_of_not_mem fun hcr => ?_⟩
  simp only [startLine, List.mem_append, List.mem_cons] at hcr
  obtain hcr | hcr | hcr | hcr | hcr := hcr
  · exact (h.field1.2 CR hcr).2.1 rfl
  · exact hspace hcr
  · exact (h.field2.2 CR hcr).2.1 rfl
  · exact hspace hcr
  · exact (h.field3 CR hcr).1 rfl

theorem WellFormed.plainLines (h : d.WellFormed lib) :
    ∀ line ∈ d.lines, line ≠ [] ∧ ¬ EOL_DELIMITER <:+: line ∧ COLON ∈ line := by
  intro line hline
  obtain ⟨hcolon, hfree⟩ := h.lines line hline
  exact ⟨List.ne_nil_of_mem hcolon, not_infix_of_not_mem fun hcr => (hfree CR hcr).1 rfl, hcolon⟩

/-- What an object without headers and body makes of a well-formed message. -/
theorem WellFormed.run (h : d.WellFormed lib) {m : HTTPMessage} (hstate : m.parserState = .START_LINE)
    (hheaders : m.headers = []) (hbody : m.body = []) (hview : m.view = d.text) :
    match Start.ofFields lib d.field1 d.field2 d.field3 with
    | none => (HTTPMessage.run lib m).1 = .INVALID
    | some start =>
      if d.lines = [] then (HTTPMessage.run lib m).1 = .INCOMPLETE
      else ∃ m', HTTPMessage.run lib m = (.OK, m') ∧ start.Shown m' ∧ m'.headers = withLines [] d.lines ∧ m'.body = d.body := by
  cases hstart : Start.ofFields lib d.field1 d.field2 d.field3 with
  | none => exact run_startLine_invalid hstate h.oneLine hview hstart
  | some start =>
    dsimp only
    have hcontent := h.body
    by_cases hlines : d.lines = []
    · rw [if_pos hlines]
      rw [hlines] at hcontent
      have hnothing : d.body = [] := hcontent
      rw [text, hlines, hnothing] at hview
      exact run_message_open lib hstate h.oneLine hstart hview
    · rw [if_neg hlines]
      obtain ⟨m', hrun, hshown, hheaders', hbody', hview'⟩ :=
        run_message lib hstate h.oneLine hstart hlines h.plainLines hview
      rw [hheaders] at hheaders'
      rw [hbody] at hbody'
      have hwhole : match get? m'.headers CONTENT_LENGTH with
          | none => m'.body = m'.view
          | some value => lib.toSize value = m'.view.length := by
        rw [hheaders', hbody', hview']
        cases hvalue : get? (withLines [] d.lines) CONTENT_LENGTH with
        | none =>
          rw [hvalue] at hcontent
          exact hcontent.symm
        | some value =>
          rw [hvalue] at hcontent
          exact hcontent
      refine ⟨_, hrun.trans (runBody_whole lib hwhole), ?_, hheaders', hview'⟩
      cases start <;> exact hshown

/-- Two objects without headers and body make the same of a well-formed message. -/
theorem WellFormed.run_agrees (h : d.WellFormed lib) {m m' : HTTPMessage} (hstate : m.parserState = .START_LINE)
    (hheaders : m.headers = []) (hbody : m.body = []) (hview : m.view = d.text) (hstate' : m'.parserState = .START_LINE)
    (hheaders' : m'.headers = []) (hbody' : m'.body = []) (hview' : m'.view = d.text) :
    (HTTPMessage.run lib m).1 = (HTTPMessage.run lib m').1 ∧
      ((HTTPMessage.run lib m).1 = .OK → SameMessage (HTTPMessage.run lib m).2 (HTTPMessage.run lib m').2) := by
  have hrun := h.run hstate hheaders hbody hview
  have hrun' := h.run hstate' hheaders' hbody' hview'
  cases hstart : Start.ofFields lib d.field1 d.field2 d.field3 with
  | none =>
    rw [hstart] at hrun hrun'
    dsimp only at hrun hrun'
    rw [hrun, hrun']
    exact ⟨rfl, nofun⟩
  | some start =>
    rw [hstart] at hrun hrun'
    dsimp only at hrun hrun'
    by_cases hlines : d.lines = []
    · rw [if_pos hlines] at hrun hrun'
      rw [hrun, hrun']
      exact ⟨rfl, nofun⟩
    · rw [if_neg hlines] at hrun hrun'
      obtain ⟨m₁, hm₁, hshown, hfields, hrest⟩ := hrun
      obtain ⟨m₂, hm₂, hshown', hfields', hrest'⟩ := hrun'
      rw [hm₁, hm₂]
      exact ⟨rfl, fun _ => hshown.same hshown' (fun key => by rw [hfields, hfields']) (hrest.trans hrest'.symm)⟩

end Document

/-- The object parses a message as a new one does, where this comes to a result. -/
def ParsesAsNew (lib : HttpLibrary) (m : HTTPMessage) (text : Bytes) : Prop :=
  ∀ result fresh, parse lib new text = .ok (result, fresh) →
    ∃ m', parse lib m text = .ok (result, m') ∧ (result = .OK → SameMessage m' fresh)

/-- Nothing is left of the calls before. -/
structure AsNew (m : HTTPMessage) : Prop where
  buffer : m.buffer = []
  it : m.it = 0
  headers : m.headers = []
  body : m.body = []

/-- An object that is as new parses every well-formed message as a new one does. -/
theorem AsNew.parses {lib : HttpLibrary} {m : HTTPMessage} (h : AsNew m) (hplaced : Placed m) {d : Document}
    (hd : d.WellFormed lib) : ParsesAsNew lib m d.text := by
  intro result fresh hfresh
  have hstate : m.parserState = .START_LINE := by
    by_contra hne
    have hpos := hplaced hne
    rw [h.it] at hpos
    exact absurd hpos (lt_irrefl 0)
  obtain ⟨rfl, hmax, rfl⟩ | ⟨hsize, -, hfinish⟩ := parse_eq_ok hfresh
  · have hexcess : MAX_MESSAGE_LENGTH < m.buffer.length + d.text.length := by
      rw [h.buffer]
      exact hmax
    exact ⟨_, parse_excessive lib hexcess, nofun⟩
  · have hroom : m.buffer.length + d.text.length ≤ BUFFER_CAPACITY := by
      rw [h.buffer]
      exact hsize
    have hit : m.it ≤ m.buffer.length + d.text.length := by
      rw [h.it]
      exact Nat.zero_le _
    have hview : view { m with buffer := m.buffer ++ d.text } = d.text := by
      rw [view, h.it, h.buffer]
      rfl
    obtain ⟨hcode, hsame⟩ := @Document.WellFormed.run_agrees lib d hd { m with buffer := m.buffer ++ d.text }
      { new with buffer := new.buffer ++ d.text } hstate h.headers h.body hview rfl rfl rfl rfl
    rw [parse_small lib hroom hit]
    refine ⟨(finish (run lib { m with buffer := m.buffer ++ d.text })).2, congrArg Except.ok (Prod.ext ?_ rfl), fun hok => ?_⟩
    · rw [finish_fst, hcode, ← finish_fst, hfinish]
    · subst hok
      obtain ⟨hcodeNew, rfl⟩ := finish_eq_ok hfinish
      rw [← hcode] at hcodeNew
      rw [finish_ok hcodeNew]
      have hboth := hsame hcodeNew
      exact ⟨hboth.messageType, hboth.request, hboth.response, hboth.headers, hboth.body⟩

/-! ## What the stages keep -/

/-- The fields of the start line are the same. -/
structure SameStart (m m' : HTTPMessage) : Prop where
  messageType : m'.messageType = m.messageType
  method : m'.method = m.method

theorem runBody_keeps (lib : HttpLibrary) (m : HTTPMessage) :
    SameStart m (runBody lib m).2 ∧ (runBody lib m).2.headers = m.headers := by
  rw [runBody_eq]
  cases get? m.headers CONTENT_LENGTH with
  | none => exact ⟨⟨rfl, rfl⟩, rfl⟩
  | some value =>
    dsimp only
    split
    · exact ⟨⟨rfl, rfl⟩, rfl⟩
    · exact ⟨⟨rfl, rfl⟩, rfl⟩

theorem parseHeader_keeps (m : HTTPMessage) : SameStart m m.parseHeader.2 := by
  unfold parseHeader
  split
  · exact ⟨rfl, rfl⟩
  · split <;> exact ⟨rfl, rfl⟩

theorem runHeader_keeps (lib : HttpLibrary) (m : HTTPMessage) : SameStart m (runHeader lib m).2 := by
  have hheader := parseHeader_keeps m
  rw [runHeader]
  generalize m.parseHeader = r at hheader
  obtain ⟨result, m'⟩ := r
  cases result with
  | OK =>
    obtain ⟨hbody, -⟩ := runBody_keeps lib { m' with parserState := .BODY }
    exact ⟨hbody.messageType.trans hheader.messageType, hbody.method.trans hheader.method⟩
  | INCOMPLETE => exact hheader
  | INVALID => exact hheader

theorem run_keeps (lib : HttpLibrary) {m : HTTPMessage} (h : m.parserState ≠ .START_LINE) : SameStart m (run lib m).2 := by
  rw [run]
  cases hstate : m.parserState with
  | START_LINE => exact absurd hstate h
  | HEADER => exact runHeader_keeps lib m
  | BODY => exact (runBody_keeps lib m).1
  | DONE => exact ⟨rfl, rfl⟩

/-- A request that was read has its method at the front of the text. -/
theorem run_method (lib : HttpLibrary) {m m' : HTTPMessage} (hstate : m.parserState = .START_LINE)
    (h : run lib m = (.OK, m')) (htype : m'.messageType = .REQUEST) : m'.method <+: m.view := by
  obtain hopen | hinvalid | ⟨endOfLine, start, hstart, hrun⟩ := run_line_cases hstate lib
  · rw [h] at hopen
    cases hopen
  · rw [h] at hinvalid
    cases hinvalid
  · obtain ⟨field1, field2, behind, hview, -, -, hfields⟩ := startOf_eq_some hstart
    have hkeeps := runHeader_keeps lib (m.started start endOfLine)
    rw [← hrun, h] at hkeeps
    obtain ⟨-, ⟨-, statusCode, -, rfl⟩ | ⟨-, -, -, -, rfl⟩⟩ := Start.ofFields_eq_some hfields
    · have hresponse : m'.messageType = .RESPONSE := hkeeps.messageType
      rw [htype] at hresponse
      cases hresponse
    · have hmethod : m'.method = field1 := hkeeps.method
      rw [hmethod, hview]
      exact List.prefix_append field1 _

/-! ## Messages that tell a used object from a new one -/

/-- A request with one header. -/
def probe (method key value : Bytes) : Document := ⟨method, ascii "/", HTTP_VERSION, [fieldLine (key, value)], []⟩

/-- A name that a header can have. -/
theorem nameA : ∀ c ∈ ascii "A", c ≠ COLON ∧ c ≠ CR ∧ c ≠ LF := by decide +kernel

theorem nameB : ∀ c ∈ ascii "B", c ≠ COLON ∧ c ≠ CR ∧ c ≠ LF := by decide +kernel

theorem value_free : ∀ c ∈ ascii "b", c ≠ CR ∧ c ≠ LF := by decide +kernel

theorem probeGet : RequestPart METHOD_CAPACITY (ascii "GET") := ⟨by decide, by decide, by decide +kernel⟩

theorem probeLock : RequestPart METHOD_CAPACITY (ascii "LOCK") := ⟨by decide, by decide, by decide +kernel⟩

theorem probeRoot : RequestPart ENDPOINT_CAPACITY (ascii "/") := ⟨by decide, by decide, by decide +kernel⟩

theorem probe_length (method key value : Bytes) :
    (probe method key value).text.length = method.length + key.length + value.length + 19 := by
  have hversion : HTTP_VERSION.length = 8 := rfl
  have hslash : (ascii "/").length = 1 := rfl
  have hseparator : (ascii ": ").length = 2 := rfl
  have heol : EOL_DELIMITER.length = 2 := rfl
  simp only [probe, Document.text, messageText, startLine, joinLines, fieldLine, List.flatMap_cons, List.flatMap_nil,
    List.length_append, List.length_cons, List.length_nil, hversion, hslash, hseparator, heol]
  omega

theorem withLines_probe (headers : List (Bytes × Bytes)) (method : Bytes) {key value : Bytes} (h : PlainField (key, value)) :
    withLines headers (probe method key value).lines = assign headers key value := by
  have hone : ∀ field ∈ [(key, value)], PlainField field := by simpa using h
  exact withLines_fields hone headers

section Probes
variable {method key value : Bytes} (hmethod : RequestPart METHOD_CAPACITY method) (hfield : PlainField (key, value))
  (hkey : key ≠ CONTENT_LENGTH)
include hmethod hfield hkey

theorem probe_wellFormed (lib : HttpLibrary) : (probe method key value).WellFormed lib := by
  have hversion : ∀ c ∈ HTTP_VERSION, c ≠ CR ∧ c ≠ LF := by decide +kernel
  refine ⟨⟨hmethod.ne, hmethod.free⟩, ⟨probeRoot.ne, probeRoot.free⟩, hversion, Or.inr rfl, ?_, ?_⟩
  · intro line hline
    rw [List.mem_singleton.mp hline]
    refine ⟨(fieldLine_plain hfield).2.2, fun c hc => ?_⟩
    rw [fieldLine, List.mem_append, List.mem_append] at hc
    have hseparator : ∀ c ∈ ascii ": ", c ≠ CR ∧ c ≠ LF := by decide +kernel
    obtain (hc | hc) | hc := hc
    · exact (hfield.key c hc).2
    · exact hseparator c hc
    · exact hfield.value c hc
  · rw [withLines_probe [] method hfield, get?_assign, if_neg (Ne.symm hkey)]
    rfl

/-- What an object must make of a probe to parse it as a new object. -/
theorem ParsesAsNew.reads_probe {lib : HttpLibrary} {m : HTTPMessage} (h : ParsesAsNew lib m (probe method key value).text)
    (hsize : method.length + key.length + value.length + 19 ≤ BUFFER_CAPACITY) :
    ∃ m', parse lib m (probe method key value).text = .ok (.OK, m') ∧ m'.messageType = .REQUEST ∧
      m'.method = method ∧ (∀ k, get? m'.headers k = get? (assign [] key value) k) ∧ m'.body = [] := by
  obtain ⟨-, hstart⟩ := request_accepted lib hmethod probeRoot
  have hlength := probe_length method key value
  have hroom : new.buffer.length + (probe method key value).text.length ≤ BUFFER_CAPACITY := by
    rw [hlength]
    exact (Nat.zero_add _).trans_le hsize
  have hrun := (probe_wellFormed hmethod hfield hkey lib).run (m := { new with
    buffer := new.buffer ++ (probe method key value).text }) rfl rfl rfl rfl
  have hof : Start.ofFields lib (probe method key value).field1 (probe method key value).field2
    (probe method key value).field3 = some (.request method (ascii "/")) := hstart
  have hlines : ¬ (probe method key value).lines = [] := List.cons_ne_nil _ _
  rw [hof] at hrun
  dsimp only at hrun
  rw [if_neg hlines] at hrun
  obtain ⟨fresh, hfresh, ⟨htype, hmethod', -⟩, hheaders, hbody⟩ := hrun
  have hparse := parse_small lib hroom (Nat.zero_le _)
  rw [hfresh] at hparse
  obtain ⟨m', hm', hsame⟩ := h _ _ hparse
  obtain ⟨hsameType, hrequest, -, hsameHeaders, hsameBody⟩ := hsame rfl
  refine ⟨m', hm', hsameType.trans htype, ((hrequest htype).1).trans hmethod', fun k => ?_, hsameBody.trans hbody⟩
  have hget : get? fresh.headers k = get? (assign [] key value) k := by
    rw [hheaders, withLines_probe [] method hfield]
  exact (hsameHeaders k).trans hget

end Probes

/-! ## Objects that parse every message as new ones do -/

section Necessity
variable {lib : HttpLibrary} {m : HTTPMessage} (h : ∀ d : Document, d.WellFormed lib → ParsesAsNew lib m d.text)
include h

/-- The memory has room for the largest message only if the buffer is empty. -/
theorem buffer_empty : m.buffer = [] := by
  have hkey : ascii "A" ≠ CONTENT_LENGTH := by decide
  have hpad : ∀ c ∈ List.replicate 2025 (0x78 : UInt8), c ≠ CR ∧ c ≠ LF := by
    intro c hc
    rw [List.eq_of_mem_replicate hc]
    decide
  have hfield : PlainField (ascii "A", List.replicate 2025 0x78) := ⟨nameA, hpad⟩
  have hget : (ascii "GET").length = 3 := rfl
  have hname : (ascii "A").length = 1 := rfl
  have hcapacity : BUFFER_CAPACITY = 2048 := rfl
  have hlength : (probe (ascii "GET") (ascii "A") (List.replicate 2025 0x78)).text.length = 2048 := by
    rw [probe_length, List.length_replicate, hget, hname]
  have hsize : (ascii "GET").length + (ascii "A").length + (List.replicate 2025 (0x78 : UInt8)).length + 19 ≤ BUFFER_CAPACITY := by
    rw [List.length_replicate, hget, hname, hcapacity]
  obtain ⟨m', hparse, -⟩ := (h _ (probe_wellFormed probeGet hfield hkey lib)).reads_probe probeGet hfield hkey hsize
  obtain ⟨hinvalid, -⟩ | ⟨hroom, -⟩ := parse_eq_ok hparse
  · cases hinvalid
  · rw [hlength] at hroom
    exact List.eq_nil_of_length_eq_zero (by omega)

/-- What comes of a short request. -/
theorem reads_short {method key : Bytes} (hmethod : RequestPart METHOD_CAPACITY method)
    (hname : ∀ c ∈ key, c ≠ COLON ∧ c ≠ CR ∧ c ≠ LF) (hkey : key ≠ CONTENT_LENGTH) (hshort : key.length ≤ 1) :
    ∃ m₁, run lib { m with buffer := (probe method key (ascii "b")).text } = (.OK, m₁) ∧ m₁.messageType = .REQUEST ∧
      m₁.method = method ∧ (∀ k, get? m₁.headers k = get? (assign [] key (ascii "b")) k) ∧ m₁.body = [] := by
  have hfield : PlainField (key, ascii "b") := ⟨hname, value_free⟩
  have hsize : method.length + key.length + (ascii "b").length + 19 ≤ BUFFER_CAPACITY := by
    have hcapacity : BUFFER_CAPACITY = 2048 := rfl
    have hseven : METHOD_CAPACITY = 7 := rfl
    have hone : (ascii "b").length = 1 := rfl
    have hfits := hmethod.fits
    omega
  obtain ⟨m', hparse, htype, hmethod', hheaders, hbody⟩ :=
    (h _ (probe_wellFormed hmethod hfield hkey lib)).reads_probe hmethod hfield hkey hsize
  obtain ⟨hinvalid, -⟩ | ⟨-, -, hfinish⟩ := parse_eq_ok hparse
  · cases hinvalid
  · rw [buffer_empty h, List.nil_append] at hfinish
    obtain ⟨hok, rfl⟩ := finish_eq_ok hfinish
    exact ⟨_, Prod.ext hok rfl, htype, hmethod', hheaders, hbody⟩

/-- A message is read from its start line on: two methods cannot both be left over. -/
theorem state_start : m.parserState = .START_LINE := by
  by_contra hne
  have hkept {method : Bytes} (hmethod : RequestPart METHOD_CAPACITY method) : m.method = method := by
    obtain ⟨m₁, hrun, -, hread, -⟩ := reads_short h hmethod nameA (by decide) le_rfl
    have hkeeps := run_keeps lib (m := { m with buffer := (probe method (ascii "A") (ascii "b")).text }) hne
    rw [hrun] at hkeeps
    exact hkeeps.method.symm.trans hread
  have hsame := (hkept probeGet).symm.trans (hkept probeLock)
  exact absurd hsame (by decide)

/-- The object is about to read a start line, whatever the buffer holds. -/
theorem starts_over (text : Bytes) : ({ m with buffer := text } : HTTPMessage).parserState = .START_LINE := by
  have hstate := state_start h
  exact hstate

/-- No later position of a request starts with its method. -/
theorem it_zero : m.it = 0 := by
  obtain ⟨m₁, hrun, htype, hread, -⟩ := reads_short h probeGet nameA (by decide) le_rfl
  have hfront : m₁.method <+: (probe (ascii "GET") (ascii "A") (ascii "b")).text.drop m.it :=
    run_method lib (starts_over h _) hrun htype
  rw [hread] at hfront
  have hfirst : ∀ i ∈ List.range 25, ascii "GET" <+: (probe (ascii "GET") (ascii "A") (ascii "b")).text.drop i → i = 0 := by
    decide +kernel
  have hlength : (probe (ascii "GET") (ascii "A") (ascii "b")).text.length = 24 := rfl
  by_cases hlarge : m.it < 25
  · exact hfirst m.it (List.mem_range.mpr hlarge) hfront
  · have hnil : (probe (ascii "GET") (ascii "A") (ascii "b")).text.drop m.it = [] := by
      rw [List.drop_eq_nil_iff]
      omega
    have hempty : ascii "GET" <+: [] := hnil ▸ hfront
    exact absurd (List.prefix_nil.mp hempty) (by decide)

/-- Before its body is parsed, a short request adds its header to those that were there. -/
theorem adds_header {key : Bytes} (hname : ∀ c ∈ key, c ≠ COLON ∧ c ≠ CR ∧ c ≠ LF) (hkey : key ≠ CONTENT_LENGTH) :
    ∃ m₁, run lib { m with buffer := (probe (ascii "GET") key (ascii "b")).text } = runBody lib m₁ ∧
      m₁.headers = assign m.headers key (ascii "b") ∧ m₁.body = m.body := by
  have hfield : PlainField (key, ascii "b") := ⟨hname, value_free⟩
  have hwell := probe_wellFormed probeGet hfield hkey lib
  obtain ⟨hline, hstart⟩ := request_accepted lib probeGet probeRoot
  have hview : view { m with buffer := (probe (ascii "GET") key (ascii "b")).text } =
      messageText (startLine (ascii "GET") (ascii "/") HTTP_VERSION) (probe (ascii "GET") key (ascii "b")).lines [] := by
    rw [view, it_zero h]
    rfl
  obtain ⟨m₁, hrun, -, hheaders, hbody, -⟩ := run_message lib (starts_over h _) hline hstart
    (List.cons_ne_nil _ _) hwell.plainLines hview
  exact ⟨_, hrun, hheaders.trans (withLines_probe m.headers (ascii "GET") hfield), hbody⟩

/-- Headers that were there are found again behind a request that does not have them. -/
theorem headers_empty : m.headers = [] := by
  by_contra hne
  obtain ⟨⟨stale, value⟩, headers, hheaders⟩ := List.exists_cons_of_ne_nil hne
  have hown {key : Bytes} (hname : ∀ c ∈ key, c ≠ COLON ∧ c ≠ CR ∧ c ≠ LF) (hkey : key ≠ CONTENT_LENGTH)
      (hshort : key.length ≤ 1) : stale = key := by
    by_contra hother
    obtain ⟨m₁, hrun, -, -, hget, -⟩ := reads_short h probeGet hname hkey hshort
    obtain ⟨m₂, hbody, hadds, -⟩ := adds_header h hname hkey
    have hkeeps := (runBody_keeps lib m₂).2
    rw [← hbody, hrun, hadds] at hkeeps
    have hstale := hget stale
    rw [hkeeps, get?_assign, get?_assign, if_neg hother, if_neg hother, hheaders] at hstale
    simp [get?] at hstale
  have hsame := (hown nameA (by decide) le_rfl).symm.trans (hown nameB (by decide) le_rfl)
  exact absurd hsame (by decide)

/-- A request without a body leaves the body that was there. -/
theorem body_empty : m.body = [] := by
  have hkey : ascii "A" ≠ CONTENT_LENGTH := by decide
  obtain ⟨m₁, hrun, -, -, -, hbody⟩ := reads_short h probeGet nameA hkey le_rfl
  obtain ⟨m₂, hbodyRun, hadds, hkept⟩ := adds_header h nameA hkey
  have hnone : get? m₂.headers CONTENT_LENGTH = none := by
    rw [hadds, headers_empty h, get?_assign, if_neg (Ne.symm hkey)]
    rfl
  rw [hbodyRun, runBody_eq, hnone] at hrun
  cases hrun
  exact hkept.symm.trans hbody

end Necessity

/-! ## Which calls leave nothing -/

/-- Headers stay, and without headers the body stays too. -/
def Gathers (m m' : HTTPMessage) : Prop := m'.headers = [] → m.headers = [] ∧ m'.body = m.body

theorem Gathers.trans {m m₁ m₂ : HTTPMessage} (h : Gathers m m₁) (h₁ : Gathers m₁ m₂) : Gathers m m₂ := by
  intro hnone
  obtain ⟨hheaders, hbody⟩ := h₁ hnone
  obtain ⟨hfirst, hbody'⟩ := h hheaders
  exact ⟨hfirst, hbody.trans hbody'⟩

theorem parseLines_gathers (view : Bytes) (sep pos : ℕ) (headers : List (Bytes × Bytes)) :
    (parseLines view sep pos headers).2 = [] → headers = [] := by
  induction pos, headers using parseLines.induct view sep with
  | case1 pos headers hpos hend =>
    rw [parseLines, if_pos hpos, hend]
    exact id
  | case2 pos headers hpos len hend line hline =>
    rw [parseLines, if_pos hpos, hend]
    dsimp only
    rw [if_pos hline]
    exact id
  | case3 pos headers hpos len hend line hline hcolon =>
    rw [parseLines, if_pos hpos, hend]
    dsimp only
    rw [if_neg hline, hcolon]
    exact id
  | case4 pos headers hpos len hend line hline colon hcolon ih =>
    rw [parseLines, if_pos hpos, hend]
    dsimp only
    rw [if_neg hline, hcolon]
    exact fun hnone => absurd (ih hnone) (List.cons_ne_nil _ _)
  | case5 pos headers hpos =>
    rw [parseLines, if_neg hpos]
    exact id

theorem parseHeader_gathers (m : HTTPMessage) : Gathers m m.parseHeader.2 := by
  unfold parseHeader
  cases find BODY_DELIMITER m.view with
  | none => exact fun hnone => ⟨hnone, rfl⟩
  | some sep =>
    have hlines := parseLines_gathers m.view sep 0 m.headers
    dsimp only
    generalize parseLines m.view sep 0 m.headers = r at hlines
    obtain ⟨result, headers⟩ := r
    cases result <;> exact fun hnone => ⟨hlines hnone, rfl⟩

/-- A body is only taken by the length that a header tells. -/
theorem runBody_gathers (lib : HttpLibrary) (m : HTTPMessage) : Gathers m (runBody lib m).2 := by
  intro hnone
  rw [(runBody_keeps lib m).2] at hnone
  refine ⟨hnone, ?_⟩
  rw [runBody_eq, hnone]
  rfl

theorem runHeader_gathers (lib : HttpLibrary) (m : HTTPMessage) : Gathers m (runHeader lib m).2 := by
  have hheader := parseHeader_gathers m
  rw [runHeader]
  generalize m.parseHeader = r at hheader
  obtain ⟨result, m'⟩ := r
  cases result with
  | OK =>
    have hbody : Gathers m' (runBody lib { m' with parserState := .BODY }).2 := runBody_gathers lib { m' with parserState := .BODY }
    exact hheader.trans hbody
  | INCOMPLETE => exact hheader
  | INVALID => exact hheader

theorem run_gathers (lib : HttpLibrary) (m : HTTPMessage) : Gathers m (run lib m).2 := by
  rw [run]
  cases m.parserState with
  | START_LINE =>
    obtain ⟨-, hheaders, hbody⟩ := parseStartLine_keeps lib { m with buffer := m.view, it := 0 }
    dsimp only
    rw [runStartLine]
    generalize parseStartLine lib { m with buffer := m.view, it := 0 } = r at hheaders hbody
    obtain ⟨result, m'⟩ := r
    have hstart : Gathers m m' := fun hnone => ⟨hheaders.symm.trans hnone, hbody⟩
    cases result with
    | OK =>
      have hrest : Gathers m' (runHeader lib { m' with parserState := .HEADER }).2 :=
        runHeader_gathers lib { m' with parserState := .HEADER }
      exact hstart.trans hrest
    | INCOMPLETE => exact hstart
    | INVALID => exact hstart
  | HEADER => exact runHeader_gathers lib m
  | BODY => exact runBody_gathers lib m
  | DONE => exact fun hnone => ⟨hnone, rfl⟩

theorem parse_gathers {lib : HttpLibrary} {m m' : HTTPMessage} {bufferView : Bytes} {result : Result}
    (h : parse lib m bufferView = .ok (result, m')) : Gathers m m' := by
  obtain ⟨-, -, rfl⟩ | ⟨-, -, hfinish⟩ := parse_eq_ok h
  · exact fun hnone => ⟨hnone, rfl⟩
  · have hrun : Gathers m (run lib { m with buffer := m.buffer ++ bufferView }).2 :=
      run_gathers lib { m with buffer := m.buffer ++ bufferView }
    generalize run lib { m with buffer := m.buffer ++ bufferView } = r at hrun hfinish
    obtain ⟨code, m₁⟩ := r
    cases code <;> cases hfinish <;> exact hrun

theorem feed_gathers {lib : HttpLibrary} {chunks : List Bytes} {m m' : HTTPMessage} {fed fed' : Bytes} {result : Result}
    (h : feed lib m fed chunks = .ok (result, m', fed')) : Gathers m m' := by
  obtain ⟨-, hkept⟩ | ⟨m₁, chunk, hkept, hparse⟩ :=
    feed_last (I := Gathers m) (fun hkept hparse => hkept.trans (parse_gathers hparse)) (fun hnone => ⟨hnone, rfl⟩) h
  · exact hkept
  · exact hkept.trans (parse_gathers hparse)

/-- Both exits with `INVALID` clear the buffer. -/
theorem feed_invalid {lib : HttpLibrary} {chunks : List Bytes} {m m' : HTTPMessage} {fed fed' : Bytes}
    (h : feed lib m fed chunks = .ok (.INVALID, m', fed')) : m'.buffer = [] := by
  obtain ⟨hopen, -⟩ | ⟨m₁, chunk, -, hparse⟩ := feed_last (I := fun _ => True) (fun _ _ => trivial) trivial h
  · cases hopen
  · obtain ⟨-, -, rfl⟩ | ⟨-, -, hfinish⟩ := parse_eq_ok hparse
    · rfl
    · obtain ⟨-, rfl⟩ := finish_eq_invalid hfinish
      rfl

def Call.isParse : Call → Bool
  | .encode .. => false
  | .parse _ => true

/-- The parse gave up with the position at the front. Behind the exit at the size limit it is where it was. -/
def GivesUp (lib : HttpLibrary) : HTTPMessage × Call × HTTPMessage → Prop
  | (_, .encode .., _) => True
  | (m, .parse chunks, m') => (∃ fed, feed lib m [] chunks = .ok (.INVALID, m', fed)) ∧ m'.it = 0

/-- A request without headers and body, or a parse that came to no header. -/
def AddsNothing : HTTPMessage × Call × HTTPMessage → Prop
  | (_, .encode _ _ headers body _, _) => headers = [] ∧ body = []
  | (m, .parse _, m') => m'.headers = m.headers ∧ m'.body = m.body

/-- The last parse gave up, and the last request and the parses behind it added nothing. -/
structure LeavesNothing (lib : HttpLibrary) (calls : List (HTTPMessage × Call × HTTPMessage)) : Prop where
  position : ∀ earlier x later, calls = earlier ++ x :: later → (∀ y ∈ later, y.2.1.isParse = false) → GivesUp lib x
  contents : ∀ earlier x later, calls = earlier ++ x :: later → (∀ y ∈ later, y.2.1.isParse = true) → AddsNothing x

/-- What an encode makes of an object. -/
theorem encode_step {lib : HttpLibrary} {m m' : HTTPMessage} {method endpoint body : Bytes} {headers : List (Bytes × Bytes)}
    {capacity : ℕ} (h : CallStep lib m (.encode method endpoint headers body capacity) m') :
    (m'.buffer = m.buffer ∧ m'.it = m.it) ∧ (m'.headers = [] ∧ m'.body = [] ↔ headers = [] ∧ body = []) := by
  obtain ⟨text, htext⟩ := h
  rw [encode_eq] at htext
  split at htext
  · cases htext
  · cases htext
    refine ⟨⟨rfl, rfl⟩, and_congr_left fun hbody => ?_⟩
    have hsent : sentHeaders { m with method := method, endpoint := endpoint, headers := headers, body := body } = headers :=
      if_pos hbody
    rw [hsent]

/-- What a parse call makes of an object. -/
theorem parse_step {lib : HttpLibrary} {m m' : HTTPMessage} {chunks : List Bytes} (hm : Placed m)
    (h : CallStep lib m (.parse chunks) m') :
    (m'.buffer = [] ∧ m'.it = 0 ↔ GivesUp lib (m, .parse chunks, m')) ∧
      (m'.headers = [] ∧ m'.body = [] ↔ (m.headers = [] ∧ m.body = []) ∧ AddsNothing (m, .parse chunks, m')) := by
  obtain ⟨result, fed, hfeed, hended⟩ := h
  refine ⟨⟨?_, ?_⟩, ⟨?_, ?_⟩⟩
  · rintro ⟨-, hit⟩
    cases result with
    | OK =>
      have hpos := feed_it hm hfeed
      exact absurd hit hpos.ne'
    | INCOMPLETE => exact absurd rfl hended
    | INVALID => exact ⟨⟨fed, hfeed⟩, hit⟩
  · rintro ⟨⟨fed', hinvalid⟩, hit⟩
    exact ⟨feed_invalid hinvalid, hit⟩
  · rintro ⟨hheaders, hbody⟩
    obtain ⟨hnone, hkept⟩ := feed_gathers hfeed hheaders
    exact ⟨⟨hnone, hkept.symm.trans hbody⟩, hheaders.trans hnone.symm, hkept⟩
  · rintro ⟨⟨hnone, hempty⟩, hheaders, hbody⟩
    exact ⟨hheaders.trans hnone, hbody.trans hempty⟩

/-- **Which runs leave nothing.** -/
theorem asNew_iff {lib : HttpLibrary} {tr : List (Call × HTTPMessage)} (hr : IsRun (CallStep lib) new tr) :
    AsNew (last new tr) ↔ LeavesNothing lib (transitions new tr) := by
  have hstep : ∀ x ∈ transitions new tr, Placed x.1 ∧ CallStep lib x.1 x.2.1 x.2.2 := fun x hx =>
    ⟨calls_placed hr _ (hr.of_mem hx).1, (hr.of_mem hx).2⟩
  -- only a parse moves the position
  have hparse : ∀ x ∈ transitions new tr, x.2.1.isParse = true → (x.2.2.buffer = [] ∧ x.2.2.it = 0 ↔ GivesUp lib x) := by
    rintro ⟨m, call, m'⟩ hx hparse
    obtain ⟨hm, hcall⟩ := hstep _ hx
    cases call with
    | encode method endpoint headers body capacity => cases hparse
    | parse chunks => exact (parse_step hm hcall).1
  have hencode : ∀ x ∈ transitions new tr, ¬ x.2.1.isParse = true →
      (x.2.2.buffer = [] ∧ x.2.2.it = 0 ↔ (x.1.buffer = [] ∧ x.1.it = 0) ∧ GivesUp lib x) := by
    rintro ⟨m, call, m'⟩ hx hencode
    obtain ⟨-, hcall⟩ := hstep _ hx
    cases call with
    | encode method endpoint headers body capacity =>
      obtain ⟨⟨hbuffer, hit⟩, -⟩ := encode_step hcall
      dsimp only at hbuffer hit ⊢
      rw [hbuffer, hit]
      exact (and_iff_left trivial).symm
    | parse chunks => exact absurd rfl hencode
  -- an encode sets the headers and the body, a parse adds to them
  have hset : ∀ x ∈ transitions new tr, x.2.1.isParse = false → (x.2.2.headers = [] ∧ x.2.2.body = [] ↔ AddsNothing x) := by
    rintro ⟨m, call, m'⟩ hx hencode
    obtain ⟨-, hcall⟩ := hstep _ hx
    cases call with
    | encode method endpoint headers body capacity => exact (encode_step hcall).2
    | parse chunks => cases hencode
  have hadd : ∀ x ∈ transitions new tr, ¬ x.2.1.isParse = false →
      (x.2.2.headers = [] ∧ x.2.2.body = [] ↔ (x.1.headers = [] ∧ x.1.body = []) ∧ AddsNothing x) := by
    rintro ⟨m, call, m'⟩ hx hparse
    obtain ⟨hm, hcall⟩ := hstep _ hx
    cases call with
    | encode method endpoint headers body capacity => exact absurd rfl hparse
    | parse chunks => exact (parse_step hm hcall).2
  have hposition := last_decides (P := fun m : HTTPMessage => m.buffer = [] ∧ m.it = 0)
    (W := fun x : HTTPMessage × Call × HTTPMessage => x.2.1.isParse = true) hparse hencode
  have hcontents := last_decides (P := fun m : HTTPMessage => m.headers = [] ∧ m.body = [])
    (W := fun x : HTTPMessage × Call × HTTPMessage => x.2.1.isParse = false) hset hadd
  simp only [Bool.not_eq_true, Bool.not_eq_false] at hposition hcontents
  constructor
  · intro h
    exact ⟨(hposition.mp ⟨h.buffer, h.it⟩).1, (hcontents.mp ⟨h.headers, h.body⟩).1⟩
  · intro h
    obtain ⟨hbuffer, hit⟩ := hposition.mpr ⟨h.position, fun _ => ⟨rfl, rfl⟩⟩
    obtain ⟨hheaders, hbody⟩ := hcontents.mpr ⟨h.contents, fun _ => ⟨rfl, rfl⟩⟩
    exact ⟨hbuffer, hit, hheaders, hbody⟩

/-- **An object can be used again** for every well-formed message exactly if nothing is left of the calls before: no
bytes in the buffer, the position at its start, no headers, and no body. These are the runs whose last parse gave up,
and whose last request and the parses behind it added nothing. -/
theorem reuse_iff (lib : HttpLibrary) {tr : List (Call × HTTPMessage)} (hr : IsRun (CallStep lib) new tr) :
    ((∀ d : Document, d.WellFormed lib → ParsesAsNew lib (last new tr) d.text) ↔ AsNew (last new tr)) ∧
      (AsNew (last new tr) ↔ LeavesNothing lib (transitions new tr)) :=
  ⟨⟨fun h => ⟨buffer_empty h, it_zero h, headers_empty h, body_empty h⟩,
    fun h _ hd => h.parses (calls_placed hr _ (mem_states_last new tr)) hd⟩, asNew_iff hr⟩

/-- A run of one encode: the bare request leaves nothing in the object. -/
theorem reuse_after_bare_request :
    ParsesAsNew decimalLibrary { new with method := ascii "GET", endpoint := ascii "/" }
      (probe (ascii "GET") (ascii "A") (ascii "b")).text := by
  have hstep : CallStep decimalLibrary new (.encode (ascii "GET") (ascii "/") [] [] 512)
      { new with method := ascii "GET", endpoint := ascii "/" } := by
    refine ⟨ascii "GET / HTTP/1.1\r\n\r\n", ?_⟩
    rw [encode_eq]
    rfl
  have hr : IsRun (CallStep decimalLibrary) new [(.encode (ascii "GET") (ascii "/") [] [] 512,
    { new with method := ascii "GET", endpoint := ascii "/" })] := ⟨hstep, trivial⟩
  obtain ⟨hreuse, hcalls⟩ := reuse_iff decimalLibrary hr
  have hone {earlier later : List (HTTPMessage × Call × HTTPMessage)} {x : HTTPMessage × Call × HTTPMessage}
      (he : transitions new [(.encode (ascii "GET") (ascii "/") [] [] 512,
        { new with method := ascii "GET", endpoint := ascii "/" })] = earlier ++ x :: later) :
      x = (new, .encode (ascii "GET") (ascii "/") [] [] 512, { new with method := ascii "GET", endpoint := ascii "/" }) := by
    have hmem := List.mem_append_right earlier (List.mem_cons_self (a := x) (l := later))
    rw [← he] at hmem
    exact List.mem_singleton.mp hmem
  refine hreuse.mpr (hcalls.mpr ⟨?_, ?_⟩) _ (probe_wellFormed probeGet ⟨nameA, value_free⟩ (by decide) decimalLibrary)
  · intro earlier x later he _
    rw [hone he]
    trivial
  · intro earlier x later he _
    rw [hone he]
    exact ⟨rfl, rfl⟩

/-- A response to a request. -/
def okResponse : Document := ⟨HTTP_VERSION, ascii "200", ascii "OK", [ascii "Content-Length: 2"], ascii "hi"⟩

/-- The headers of a request are still there in the response that is parsed into the same object. -/
theorem request_headers_stay : let m := { new with method := ascii "GET", endpoint := ascii "/", headers := [(ascii "Host", ascii "a")] }
    CallStep decimalLibrary new (.encode (ascii "GET") (ascii "/") [(ascii "Host", ascii "a")] [] 512) m ∧
      okResponse.WellFormed decimalLibrary ∧ ¬ ParsesAsNew decimalLibrary m okResponse.text := by
  intro m
  have hwell : okResponse.WellFormed decimalLibrary :=
    ⟨by decide +kernel, by decide +kernel, by decide +kernel, Or.inl rfl, by decide +kernel, rfl⟩
  refine ⟨⟨ascii "GET / HTTP/1.1\r\nHost: a\r\n\r\n", ?_⟩, hwell, fun h => ?_⟩
  · rw [encode_eq]
    rfl
  · have hstart : Start.ofFields decimalLibrary okResponse.field1 okResponse.field2 okResponse.field3 =
        some (.response 200) := rfl
    have hlines : okResponse.lines ≠ [] := List.cons_ne_nil _ _
    have hsize : okResponse.text.length ≤ BUFFER_CAPACITY := by decide +kernel
    -- what a new object makes of the response
    obtain ⟨fresh, hfresh, -, hheaders, -⟩ : ∃ m', run decimalLibrary { new with buffer := okResponse.text } = (.OK, m') ∧
        (Start.response 200).Shown m' ∧ m'.headers = withLines [] okResponse.lines ∧ m'.body = okResponse.body := by
      have hrun := hwell.run (m := { new with buffer := okResponse.text }) rfl rfl rfl rfl
      rw [hstart] at hrun
      dsimp only at hrun
      rwa [if_neg hlines] at hrun
    have hparse := @parse_small decimalLibrary new okResponse.text ((Nat.zero_add _).trans_le hsize) (Nat.zero_le _)
    have hbuffer : { new with buffer := new.buffer ++ okResponse.text } = { new with buffer := okResponse.text } := rfl
    rw [hbuffer, hfresh] at hparse
    -- and what the object of the request makes of it
    obtain ⟨m₁, hrun, -, hadds, -⟩ := run_message decimalLibrary (m := { m with buffer := okResponse.text }) rfl hwell.oneLine
      hstart hlines hwell.plainLines rfl
    obtain ⟨m', hm', hsame⟩ := h _ _ hparse
    obtain ⟨hinvalid, -⟩ | ⟨-, -, hfinish⟩ := parse_eq_ok hm'
    · cases hinvalid
    · obtain ⟨-, rfl⟩ := finish_eq_ok hfinish
      have hbuffer : { m with buffer := m.buffer ++ okResponse.text } = { m with buffer := okResponse.text } := rfl
      have hkept : (run decimalLibrary { m with buffer := m.buffer ++ okResponse.text }).2.headers =
          withLines m.headers okResponse.lines := by
        rw [hbuffer, hrun, (runBody_keeps decimalLibrary m₁).2]
        exact hadds
      have hhost := (hsame rfl).headers (ascii "Host")
      dsimp only at hhost
      rw [hkept, hheaders] at hhost
      exact absurd hhost (by decide +kernel)

end HTTPMessage
end Husarnet
