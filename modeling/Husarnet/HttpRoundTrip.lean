import Husarnet.HttpFields

/-! # HTTP requests that are encoded and parsed

A request is read back from its text with its method, endpoint, headers and body, unless it has neither headers nor a
body, or its text is longer than the memory that the parser's iterator points into.
-/

namespace Husarnet
open Octets Containers Numerals
set_option autoImplicit false

namespace HTTPMessage

/-! ## The parts of a request -/

/-- A part of a request line: its length fits, and it has no space and no line end. -/
structure RequestPart (capacity : ℕ) (s : Bytes) : Prop where
  ne : s ≠ []
  fits : s.length ≤ capacity
  free : ∀ c ∈ s, c ≠ SPACE ∧ c ≠ CR ∧ c ≠ LF

/-- **A request line** is accepted as it was written. -/
theorem request_accepted (lib : HttpLibrary) {method endpoint : Bytes} (hmethod : RequestPart METHOD_CAPACITY method)
    (hendpoint : RequestPart ENDPOINT_CAPACITY endpoint) :
    OneLine method endpoint HTTP_VERSION ∧
      Start.ofFields lib method endpoint HTTP_VERSION = some (.request method endpoint) := by
  have hversion : CR ∉ HTTP_VERSION := by decide
  have hspace : CR ≠ SPACE := by decide
  constructor
  · refine ⟨fun hmem => (hmethod.free SPACE hmem).1 rfl, fun hmem => (hendpoint.free SPACE hmem).1 rfl,
      not_infix_of_not_mem fun hcr => ?_⟩
    simp only [startLine, List.mem_append, List.mem_cons] at hcr
    obtain hcr | hcr | hcr | hcr | hcr := hcr
    · exact (hmethod.free CR hcr).2.1 rfl
    · exact hspace hcr
    · exact (hendpoint.free CR hcr).2.1 rfl
    · exact hspace hcr
    · exact hversion hcr
  · exact Start.ofFields_request lib hmethod.ne hendpoint.ne hmethod.fits hendpoint.fits

/-- A header that can stand in a line of its own. -/
structure PlainField (field : Bytes × Bytes) : Prop where
  key : ∀ c ∈ field.1, c ≠ COLON ∧ c ≠ CR ∧ c ≠ LF
  value : ∀ c ∈ field.2, c ≠ CR ∧ c ≠ LF

def fieldLine (field : Bytes × Bytes) : Bytes := field.1 ++ ascii ": " ++ field.2

theorem fieldOf_fieldLine {field : Bytes × Bytes} (h : PlainField field) : fieldOf (fieldLine field) = field := by
  have hcolon : COLON ∉ field.1 := fun hmem => (h.key COLON hmem).1 rfl
  have hline : fieldLine field = field.1 ++ COLON :: (SPACE :: field.2) := by
    have hseparator : ascii ": " = [COLON, SPACE] := rfl
    rw [fieldLine, hseparator, List.append_assoc]
    rfl
  rw [hline, fieldOf_split hcolon]
  rfl

theorem fieldLine_plain {field : Bytes × Bytes} (h : PlainField field) :
    fieldLine field ≠ [] ∧ ¬ EOL_DELIMITER <:+: fieldLine field ∧ COLON ∈ fieldLine field := by
  have hseparator : CR ∉ ascii ": " := by decide
  have hcolon : COLON ∈ fieldLine field := by
    rw [fieldLine, List.append_assoc]
    exact List.mem_append_right _ (List.mem_append_left _ (by decide))
  refine ⟨List.ne_nil_of_mem hcolon, not_infix_of_not_mem fun hcr => ?_, hcolon⟩
  rw [fieldLine, List.mem_append, List.mem_append] at hcr
  obtain (hcr | hcr) | hcr := hcr
  · exact (h.key CR hcr).2.1 rfl
  · exact hseparator hcr
  · exact (h.value CR hcr).1 rfl

theorem withLines_fields {fields : List (Bytes × Bytes)} (h : ∀ field ∈ fields, PlainField field)
    (headers : List (Bytes × Bytes)) :
    withLines headers (fields.map fieldLine) = fields.foldl (fun headers field => assign headers field.1 field.2) headers := by
  induction fields generalizing headers with
  | nil => rfl
  | cons field fields ih =>
    obtain ⟨hfield, hfields⟩ := List.forall_mem_cons.mp h
    have hread := ih hfields (assign headers field.1 field.2)
    rw [List.map_cons, withLines, List.foldl_cons, fieldOf_fieldLine hfield, List.foldl_cons]
    exact hread

/-! ## The body -/

/-- A body of the length that the headers tell, or none. -/
theorem runBody_whole (lib : HttpLibrary) {m : HTTPMessage}
    (h : match get? m.headers CONTENT_LENGTH with
      | none => m.body = m.view
      | some value => lib.toSize value = m.view.length) :
    runBody lib m = (.OK, { m with body := m.view, parserState := .DONE }) := by
  rw [runBody_eq]
  cases hvalue : get? m.headers CONTENT_LENGTH with
  | none =>
    rw [hvalue] at h
    dsimp only at h ⊢
    rw [← h]
  | some value =>
    rw [hvalue] at h
    dsimp only at h ⊢
    rw [if_neg (by omega), h, List.take_length]

/-! ## Encoding -/

/-- The headers that are sent. -/
def sentHeaders (m : HTTPMessage) : List (Bytes × Bytes) :=
  if m.body = [] then m.headers else assign m.headers CONTENT_LENGTH (decimalText m.body.length)

/-- A request that can be written: its parts fit their fields, and the keys of the map are its own. -/
structure Encodable (m : HTTPMessage) : Prop where
  method : RequestPart METHOD_CAPACITY m.method
  endpoint : RequestPart ENDPOINT_CAPACITY m.endpoint
  keys : (m.headers.map Prod.fst).Nodup
  fields : ∀ field ∈ m.headers, PlainField field ∧ field.1 ≠ CONTENT_LENGTH

/-- The bytes of a request line and of the blank line, of the headers, and of the body. -/
def encodedSize (m : HTTPMessage) : ℕ :=
  m.method.length + m.endpoint.length + 14 +
    (m.sentHeaders.map fun field => field.1.length + field.2.length + 4).sum + m.body.length

def encodedText (m : HTTPMessage) : Bytes :=
  messageText (startLine m.method m.endpoint HTTP_VERSION) ((inKeyOrder m.sentHeaders).map fieldLine) m.body

theorem inKeyOrder_perm (headers : List (Bytes × Bytes)) : (inKeyOrder headers).Perm headers :=
  List.perm_insertionSort _ headers

theorem encodedText_length (m : HTTPMessage) : m.encodedText.length = m.encodedSize := by
  have hlines (fields : List (Bytes × Bytes)) : (joinLines CR LF (fields.map fieldLine)).length =
      (fields.map fun field => field.1.length + field.2.length + 4).sum := by
    have hseparator : (ascii ": ").length = 2 := rfl
    rw [joinLines, List.flatMap_map, List.length_flatMap]
    refine congrArg List.sum (List.map_congr_left fun field _ => ?_)
    simp only [fieldLine, List.length_append, List.length_cons, List.length_nil, hseparator]
    omega
  have hsum := ((inKeyOrder_perm m.sentHeaders).map fun field => field.1.length + field.2.length + 4).sum_nat
  have heol : EOL_DELIMITER.length = 2 := rfl
  have hversion : HTTP_VERSION.length = 8 := rfl
  rw [encodedText, messageText, startLine, encodedSize, ← hsum, ← hlines]
  simp only [List.length_append, List.length_cons, heol, hversion]
  omega

theorem encode_eq (capacity : ℕ) (m : HTTPMessage) :
    encode capacity m = if capacity < m.encodedSize then .error .capacity
      else .ok (m.encodedText, { m with headers := m.sentHeaders }) := by
  have hversion : ascii " HTTP/1.1\r\n" = SPACE :: HTTP_VERSION ++ EOL_DELIMITER := rfl
  have hspace : ascii " " = [SPACE] := rfl
  have hlines (fields : List (Bytes × Bytes)) : fields.flatMap headerLine = joinLines CR LF (fields.map fieldLine) := by
    rw [joinLines, List.flatMap_map]
    rfl
  have htext : m.method ++ ascii " " ++ m.endpoint ++ ascii " HTTP/1.1\r\n" ++ (inKeyOrder m.sentHeaders).flatMap headerLine ++
      EOL_DELIMITER ++ m.body = m.encodedText := by
    rw [encodedText, messageText, startLine, hversion, hspace, hlines]
    simp only [List.append_assoc, List.cons_append, List.nil_append]
  have hsent : (if m.body = [] then m.headers else assign m.headers (ascii "Content-Length") (decimalText m.body.length)) =
      m.sentHeaders := rfl
  unfold encode
  dsimp only
  rw [hsent, htext, encodedText_length]

theorem Encodable.sent {m : HTTPMessage} (h : Encodable m) :
    (m.sentHeaders.map Prod.fst).Nodup ∧ ∀ field ∈ m.sentHeaders, PlainField field := by
  unfold sentHeaders
  by_cases hbody : m.body = []
  · rw [if_pos hbody]
    exact ⟨h.keys, fun field hfield => (h.fields field hfield).1⟩
  · have hfilter : (m.headers.filter fun x => x.1 ≠ CONTENT_LENGTH) = m.headers :=
      List.filter_eq_self.mpr fun field hfield => by simpa using (h.fields field hfield).2
    have hnew : CONTENT_LENGTH ∉ m.headers.map Prod.fst := by
      intro hmem
      obtain ⟨field, hfield, hkey⟩ := List.mem_map.mp hmem
      exact (h.fields field hfield).2 hkey
    have hlength : PlainField (CONTENT_LENGTH, decimalText m.body.length) := by
      have hkey : ∀ c ∈ CONTENT_LENGTH, c ≠ COLON ∧ c ≠ CR ∧ c ≠ LF := by decide +kernel
      constructor
      · exact hkey
      · have hdigit : ∀ c : UInt8, (0x30 : UInt8) ≤ c ∧ c ≤ 0x39 → c ≠ CR ∧ c ≠ LF := forall_byte (by decide +kernel)
        exact fun c hc => hdigit c (decimalText_digits m.body.length c hc)
    rw [if_neg hbody, assign, hfilter, List.map_cons, List.nodup_cons, List.forall_mem_cons]
    exact ⟨⟨hnew, h.keys⟩, hlength, fun field hfield => (h.fields field hfield).1⟩

/-! ## The round trip -/

/-- The text of a request is read back by a new object. -/
def RoundTrips (lib : HttpLibrary) (capacity : ℕ) (m : HTTPMessage) : Prop :=
  ∃ text sent m', encode capacity m = .ok (text, sent) ∧ parse lib new text = .ok (.OK, m') ∧
    m'.messageType = .REQUEST ∧ m'.method = m.method ∧ m'.endpoint = m.endpoint ∧
    (∀ key, get? m'.headers key =
      if key = CONTENT_LENGTH ∧ m.body ≠ [] then some (decimalText m.body.length) else get? m.headers key) ∧
    m'.body = m.body

theorem sentHeaders_get? (m : HTTPMessage) (key : Bytes) : get? m.sentHeaders key =
    if key = CONTENT_LENGTH ∧ m.body ≠ [] then some (decimalText m.body.length) else get? m.headers key := by
  unfold sentHeaders
  by_cases hbody : m.body = []
  · rw [if_pos hbody, if_neg fun h => h.2 hbody]
  · rw [if_neg hbody, get?_assign]
    by_cases hkey : key = CONTENT_LENGTH
    · rw [if_pos hkey, if_pos ⟨hkey, hbody⟩]
    · rw [if_neg hkey, if_neg fun h => hkey h.1]

theorem sentHeaders_ne_nil {m : HTTPMessage} : m.sentHeaders ≠ [] ↔ m.headers ≠ [] ∨ m.body ≠ [] := by
  unfold sentHeaders
  by_cases hbody : m.body = []
  · rw [if_pos hbody]
    simp [hbody]
  · rw [if_neg hbody]
    simp [hbody, assign]

/-- The text of a request that is read back. -/
theorem parse_encoded (lib : HttpLibrary) (hlib : ∀ n < 2 ^ 64, lib.toSize (decimalText n) = n) {m : HTTPMessage}
    (hm : Encodable m) (hsome : m.headers ≠ [] ∨ m.body ≠ []) (hsize : m.encodedSize ≤ BUFFER_CAPACITY) :
    ∃ m', parse lib new m.encodedText = .ok (.OK, m') ∧ m'.messageType = .REQUEST ∧ m'.method = m.method ∧
      m'.endpoint = m.endpoint ∧ (∀ key, get? m'.headers key = get? m.sentHeaders key) ∧ m'.body = m.body := by
  obtain ⟨hkeys, hfields⟩ := hm.sent
  have hperm := inKeyOrder_perm m.sentHeaders
  have hordered : ((inKeyOrder m.sentHeaders).map Prod.fst).Nodup := (hperm.map Prod.fst).nodup_iff.mpr hkeys
  have hplain : ∀ field ∈ inKeyOrder m.sentHeaders, PlainField field := fun field hfield => hfields field (hperm.mem_iff.mp hfield)
  have hlines : ∀ line ∈ (inKeyOrder m.sentHeaders).map fieldLine,
      line ≠ [] ∧ ¬ EOL_DELIMITER <:+: line ∧ COLON ∈ line :=
    List.forall_mem_map.mpr fun field hfield => fieldLine_plain (hplain field hfield)
  have hne : (inKeyOrder m.sentHeaders).map fieldLine ≠ [] := by
    rw [ne_eq, List.map_eq_nil_iff]
    intro hnil
    rw [hnil] at hperm
    exact sentHeaders_ne_nil.mpr hsome hperm.symm.eq_nil
  have htext : view { new with buffer := m.encodedText } =
      messageText (startLine m.method m.endpoint HTTP_VERSION) ((inKeyOrder m.sentHeaders).map fieldLine) m.body := rfl
  obtain ⟨hline, hstart⟩ := request_accepted lib hm.method hm.endpoint
  obtain ⟨m', hrun, ⟨htype, hmethod, hendpoint⟩, hheaders, hbody, hview⟩ :=
    run_message lib (m := { new with buffer := m.encodedText }) rfl hline hstart hne hlines htext
  have hget (key : Bytes) : get? m'.headers key = get? m.sentHeaders key := by
    have hassigned := get?_foldl_assign hordered ([] : List (Bytes × Bytes)) key
    rw [hheaders, withLines_fields hplain]
    exact hassigned.trans ((Option.or_none).trans (get?_perm hperm hordered key))
  have hcontent : match get? m'.headers CONTENT_LENGTH with
      | none => m'.body = m'.view
      | some value => lib.toSize value = m'.view.length := by
    rw [hget, sentHeaders_get?, hview]
    by_cases hempty : m.body = []
    · have hnone : get? m.headers CONTENT_LENGTH = none := by
        rw [Option.eq_none_iff_forall_ne_some]
        intro value hvalue
        exact (hm.fields _ ((get?_eq_some_iff hm.keys).mp hvalue)).2 rfl
      rw [if_neg fun h => h.2 hempty, hnone, hbody, hempty]
      rfl
    · rw [if_pos ⟨rfl, hempty⟩]
      have hsmall : m.body.length < 2 ^ 64 := by
        have hcapacity : BUFFER_CAPACITY = 2048 := rfl
        rw [encodedSize] at hsize
        omega
      exact hlib _ hsmall
  have hlength : ([] : Bytes).length + m.encodedText.length ≤ BUFFER_CAPACITY := by
    rw [encodedText_length, List.length_nil, Nat.zero_add]
    exact hsize
  have hparse := @parse_small lib new m.encodedText hlength (Nat.zero_le _)
  have hbuffer : { new with buffer := new.buffer ++ m.encodedText } = { new with buffer := m.encodedText } := rfl
  rw [hbuffer, hrun, runBody_whole lib hcontent] at hparse
  exact ⟨_, hparse, htype, hmethod, hendpoint, hget, hview⟩

/-- **Requests round-trip** exactly if there is a header or a body and the text fits the memory that was reserved. -/
theorem round_trips_iff (lib : HttpLibrary) (hlib : ∀ n < 2 ^ 64, lib.toSize (decimalText n) = n) (capacity : ℕ)
    (m : HTTPMessage) (hm : Encodable m) (hcapacity : m.encodedSize ≤ capacity) (hmax : m.encodedSize ≤ MAX_MESSAGE_LENGTH) :
    RoundTrips lib capacity m ↔ (m.headers ≠ [] ∨ m.body ≠ []) ∧ m.encodedSize ≤ BUFFER_CAPACITY := by
  have hencode : encode capacity m = .ok (m.encodedText, { m with headers := m.sentHeaders }) := by
    rw [encode_eq, if_neg (by omega)]
  have hstart : new.buffer.length + m.encodedText.length = m.encodedSize := by
    rw [encodedText_length]
    exact Nat.zero_add _
  constructor
  · rintro ⟨text, sent, m', htext, hparse, -⟩
    rw [hencode] at htext
    cases htext
    by_cases hsize : m.encodedSize ≤ BUFFER_CAPACITY
    · refine ⟨?_, hsize⟩
      by_contra hnothing
      rw [not_or, not_not, not_not] at hnothing
      obtain ⟨hheaders, hbody⟩ := hnothing
      have htext : view { new with buffer := m.encodedText } =
          messageText (startLine m.method m.endpoint HTTP_VERSION) [] [] := by
        rw [encodedText, sentHeaders, if_pos hbody, hheaders, hbody]
        rfl
      obtain ⟨hline, hstart⟩ := request_accepted lib hm.method hm.endpoint
      have hopen := run_message_open lib (m := { new with buffer := m.encodedText }) rfl hline hstart htext
      have hbuffer : { new with buffer := new.buffer ++ m.encodedText } = { new with buffer := m.encodedText } := rfl
      rw [parse_small lib (by omega) (Nat.zero_le _), hbuffer] at hparse
      have hcode := congrArg Prod.fst (Except.ok.inj hparse)
      rw [finish_fst, hopen] at hcode
      cases hcode
    · rw [parse_large lib (by omega) (by omega)] at hparse
      cases hparse
  · rintro ⟨hsome, hsize⟩
    obtain ⟨m', hparse, htype, hmethod, hendpoint, hheaders, hbody⟩ := parse_encoded lib hlib hm hsome hsize
    exact ⟨m.encodedText, _, m', hencode, hparse, htype, hmethod, hendpoint,
      fun key => (hheaders key).trans (sentHeaders_get? m key), hbody⟩

/-- A library that reads decimal numbers. -/
def decimalLibrary : HttpLibrary := ⟨fun s => some (number 10 s), number 10, fun _ => []⟩

theorem decimalLibrary_toSize : ∀ n < 2 ^ 64, decimalLibrary.toSize (decimalText n) = n := fun n _ => number_decimalText n

/-- A request with a header and a body. -/
def postRequest : HTTPMessage :=
  { new with method := ascii "POST", endpoint := ascii "/", headers := [(ascii "Host", ascii "a")], body := ascii "hi" }

theorem postRequest_encodable : Encodable postRequest where
  method := ⟨by decide, by decide, by decide +kernel⟩
  endpoint := ⟨by decide, by decide, by decide +kernel⟩
  keys := by decide
  fields := by
    intro field hfield
    rw [List.mem_singleton.mp hfield]
    exact ⟨⟨by decide +kernel, by decide +kernel⟩, by decide⟩

theorem post_round_trips : RoundTrips decimalLibrary 1024 postRequest :=
  (round_trips_iff decimalLibrary decimalLibrary_toSize 1024 postRequest postRequest_encodable (by decide +kernel)
    (by decide +kernel)).mpr ⟨Or.inl (by decide), by decide +kernel⟩

/-- A request without headers and body is not complete for the parser. -/
theorem bare_request_incomplete : let m := { new with method := ascii "GET", endpoint := ascii "/" }
    Encodable m ∧ m.encodedSize ≤ 1024 ∧ ¬ RoundTrips decimalLibrary 1024 m := by
  intro m
  have hsize : m.encodedSize = 18 := rfl
  refine ⟨⟨⟨by decide, by decide, by decide +kernel⟩, ⟨by decide, by decide, by decide +kernel⟩, by decide, nofun⟩, by omega, ?_⟩
  rintro ⟨text, sent, m', htext, hparse, -⟩
  rw [encode_eq, if_neg (by omega)] at htext
  cases htext
  have hrun : (parse decimalLibrary new m.encodedText).map Prod.fst = .ok .INCOMPLETE := by decide +kernel
  rw [hparse] at hrun
  cases hrun

end HTTPMessage
end Husarnet
