import MiniNetDist.GatewayProxy.HttpParse
import Mathlib.Data.List.DropRight

/-! Requests that `hm_build_request` of `mini-gateway-proxy/src/http_message.c` writes out. The parser reads back what was
written, and what the parser has read is written so that it reads the same again. -/

namespace MiniNetDist.GatewayProxy.HttpParse

open Library Library.Tokens

def hmVersionStr : HttpVersion → CString
  | .ver10 => ascii "HTTP/1.0"
  | .ver11 => ascii "HTTP/1.1"
  | .ver20 => ascii "HTTP/2.0"

def HttpHeader.line (h : HttpHeader) : CString := h.name.text ++ ascii ": " ++ h.value.text

def HttpRequest.requestLine (req : HttpRequest) : CString :=
  req.method.text ++ ascii " " ++ req.uri.text ++ ascii " " ++ hmVersionStr req.version

/-- The text is printed behind what the buffer holds; none if there is no room for it. -/
def printed (buf text : Bytes) : Option Bytes :=
  if buf.length + text.length ≥ HM_MAX_BODY then none else some (buf ++ text)

/-- `some none` for the null pointer. None where the body is copied beyond the buffer, for which there is no check. -/
def hmBuildRequest (req : HttpRequest) : Option (Option Bytes) :=
  match (req.headers.foldlM (fun buf h => printed buf (h.line ++ crlf)) (req.requestLine ++ crlf)).bind (printed · crlf) with
  | none => some none
  | some buf => if buf.length + req.body.length > HM_MAX_BODY then none else some (some (buf ++ req.body))

/-- The text of a request, if there is room for it. -/
def HttpRequest.written (req : HttpRequest) : Bytes :=
  req.requestLine ++ crlf ++ (req.headers.flatMap fun h => h.line ++ crlf) ++ crlf ++ req.body

/-- A header that is read as it is written. -/
structure SendableHeader (h : HttpHeader) : Prop where
  named : h.name.text ≠ []
  name : ∀ char ∈ h.name.text, char ≠ 58 ∧ isCrlf char = false
  value : ∀ char ∈ h.value.text, isCrlf char = false
  trimmed : headerValue h.value.text = h.value.text
  hosted : ¬(strcasecmp h.name.text (ascii "Host") = true ∧ h.value.text = [])

structure Sendable (req : HttpRequest) : Prop where
  method : Word HM_MAX_METHOD req.method.text
  uri : Word HM_MAX_URI req.uri.text
  version : req.version ≠ .ver20
  few : req.headers.length ≤ HM_MAX_HEADERS
  headers : ∀ h ∈ req.headers, SendableHeader h

/-- The parser notes a header. -/
def addHeader (head : HttpHead) (h : HttpHeader) : HttpHead :=
  let head := noteHeader head h
  { head with headers := head.headers ++ [h] }

/-- What the parser notes of a request line. -/
def startHead (method : CharArray HM_MAX_METHOD) (uri : CharArray HM_MAX_URI) (version : HttpVersion) : HttpHead :=
  { hmRequestInit.toHttpHead with method, uri, version, keepAlive := version ≠ .ver10 }

/-- What a request line and headers mean to the parser. -/
def HttpRequest.understood (req : HttpRequest) : HttpHead :=
  req.headers.foldl addHeader (startHead req.method req.uri req.version)

/-- The part of a body that the parser takes over. -/
def HttpHead.bodyOf (head : HttpHead) (text : Bytes) : Bytes :=
  if head.contentLengthSet ∧ head.contentLength > 0 then text.take head.contentLength.toNat else []

section Building

variable {req : HttpRequest} {text : Bytes}

theorem foldlM_printed {headers : List HttpHeader} {buf out : Bytes}
    (fits : headers.foldlM (fun buf h => printed buf (h.line ++ crlf)) buf = some out) :
    out = buf ++ headers.flatMap fun h => h.line ++ crlf := by
  induction headers generalizing buf with
  | nil =>
    obtain rfl := Option.some.inj fits
    exact (List.append_nil _).symm
  | cons h rest ih =>
    obtain ⟨next, here, later⟩ := Option.bind_eq_some_iff.mp fits
    obtain ⟨-, printed⟩ := Option.ite_none_left_eq_some.mp here
    obtain rfl := Option.some.inj printed
    rw [ih later, List.flatMap_cons, List.append_assoc]

theorem hmBuildRequest_text (built : hmBuildRequest req = some (some text)) : text = req.written := by
  rw [hmBuildRequest] at built
  split at built
  · cases built
  · rename_i buf fits
    obtain ⟨headed, lines, last⟩ := Option.bind_eq_some_iff.mp fits
    obtain ⟨-, ended⟩ := Option.ite_none_left_eq_some.mp last
    obtain rfl := Option.some.inj ended
    obtain ⟨-, whole⟩ := Option.ite_none_left_eq_some.mp built
    obtain rfl := Option.some.inj (Option.some.inj whole)
    rw [foldlM_printed lines, HttpRequest.written]

theorem printed_room {buf line : Bytes} (small : (buf ++ line).length < HM_MAX_BODY) :
    printed buf line = some (buf ++ line) := by
  rw [List.length_append] at small
  exact if_neg (Nat.not_le.mpr small)

theorem foldlM_printed_room {headers : List HttpHeader} {buf : Bytes}
    (small : (buf ++ headers.flatMap fun h => h.line ++ crlf).length < HM_MAX_BODY) :
    headers.foldlM (fun buf h => printed buf (h.line ++ crlf)) buf =
      some (buf ++ headers.flatMap fun h => h.line ++ crlf) := by
  induction headers generalizing buf with
  | nil => exact congrArg some (List.append_nil _).symm
  | cons h rest ih =>
    rw [List.flatMap_cons, ← List.append_assoc] at small ⊢
    have here : (buf ++ (h.line ++ crlf)).length < HM_MAX_BODY := by
      rw [List.length_append] at small
      exact Nat.lt_of_le_of_lt (Nat.le_add_right _ _) small
    rw [List.foldlM_cons, printed_room here]
    exact ih small

/-- A request whose text is below the size of the buffer is written. -/
theorem hmBuildRequest_written (small : req.written.length < HM_MAX_BODY) :
    hmBuildRequest req = some (some req.written) := by
  have ended : (req.requestLine ++ crlf ++ (req.headers.flatMap fun h => h.line ++ crlf) ++ crlf).length +
      req.body.length < HM_MAX_BODY := by
    rw [← List.length_append]
    exact small
  have headed := Nat.lt_of_le_of_lt (Nat.le_add_right _ _) ended
  have lines : (req.requestLine ++ crlf ++ req.headers.flatMap fun h => h.line ++ crlf).length < HM_MAX_BODY := by
    rw [List.length_append] at headed
    exact Nat.lt_of_le_of_lt (Nat.le_add_right _ _) headed
  rw [hmBuildRequest, foldlM_printed_room lines, Option.bind_some, printed_room headed]
  exact if_neg (Nat.not_lt.mpr (Nat.le_of_lt ended))

theorem joinLines_crlf (line : Bytes) (lines : List Bytes) :
    joinLines line lines ++ crlf = line ++ crlf ++ lines.flatMap fun line => line ++ crlf := by
  induction lines generalizing line with
  | nil => exact (List.append_nil _).symm
  | cons next lines ih =>
    rw [joinLines, List.append_assoc, List.append_assoc, ih, List.flatMap_cons]
    simp only [List.append_assoc]

theorem headerValue_blank (value : CString) : headerValue (32 :: value) = headerValue value := by
  rw [headerValue, List.dropWhile_cons_of_pos (by decide)]
  rfl

def SendableHeader.sent {h : HttpHeader} (sendable : SendableHeader h) : SentHeader where
  name := h.name.text
  value := 32 :: h.value.text
  named := sendable.named
  nameFits := h.name.fits
  namePlain := fun char held => ⟨fun zero => h.name.plain (zero ▸ held), sendable.name char held⟩
  valueFits := by
    rw [headerValue_blank, sendable.trimmed]
    exact h.value.fits
  valuePlain := by
    intro char held
    rcases List.mem_cons.mp held with rfl | inside
    · decide
    · exact ⟨fun zero => h.value.plain (zero ▸ inside), sendable.value char inside⟩

theorem SendableHeader.line_sent {h : HttpHeader} (sendable : SendableHeader h) : sendable.sent.line = h.line := by
  rw [SentHeader.line, HttpHeader.line, List.append_assoc]
  rfl

theorem word_hmVersionStr (version : HttpVersion) : Word HM_MAX_VERSION (hmVersionStr version) := by
  cases version with
  | ver10 | ver11 | ver20 => exact ⟨by decide, by decide, List.all_iff_forall_prop.mp (by decide)⟩

def Sendable.sent (sendable : Sendable req) : SentRequest where
  method := req.method.text
  uri := req.uri.text
  version := hmVersionStr req.version
  headers := req.headers.pmap (fun _ => SendableHeader.sent) sendable.headers
  body := req.body
  methodWord := sendable.method
  uriWord := sendable.uri
  versionWord := word_hmVersionStr req.version
  headersFit := by
    rw [List.length_pmap]
    exact sendable.few

theorem Sendable.lines_sent (sendable : Sendable req) :
    sendable.sent.headers.map SentHeader.line = req.headers.map HttpHeader.line := by
  rw [Sendable.sent, List.map_pmap, ← List.pmap_eq_map sendable.headers]
  exact List.pmap_congr_left req.headers fun _ _ first _ => first.line_sent

theorem Sendable.requestLine_sent (sendable : Sendable req) : sendable.sent.requestLine = req.requestLine := by
  simp [SentRequest.requestLine, HttpRequest.requestLine, Sendable.sent, ascii]

theorem Sendable.text_sent (sendable : Sendable req) (built : hmBuildRequest req = some (some text)) :
    sendable.sent.text = text := by
  rw [hmBuildRequest_text built, HttpRequest.written, SentRequest.text, SentRequest.headed, SentRequest.head,
    ← List.append_assoc, joinLines_crlf, sendable.lines_sent, sendable.requestLine_sent, List.flatMap_map]
  rfl

end Building

section Understanding

variable {head : HttpHead} {h : HttpHeader} {headers : List HttpHeader} {req : HttpRequest}

theorem addHeader_headers : (addHeader head h).headers = head.headers ++ [h] :=
  congrArg (· ++ [h]) (noteHeader_headers head h)

theorem noteHeader_line (head : HttpHead) (h : HttpHeader) : (noteHeader head h).method = head.method ∧
    (noteHeader head h).uri = head.uri ∧ (noteHeader head h).version = head.version := by
  simp only [noteHeader]
  split_ifs <;> exact ⟨rfl, rfl, rfl⟩

/-- Headers add to the message, and leave its request line as it is. -/
theorem foldl_addHeader (head : HttpHead) (headers : List HttpHeader) :
    (headers.foldl addHeader head).method = head.method ∧ (headers.foldl addHeader head).uri = head.uri ∧
      (headers.foldl addHeader head).version = head.version ∧
      (headers.foldl addHeader head).headers = head.headers ++ headers := by
  induction headers generalizing head with
  | nil => exact ⟨rfl, rfl, rfl, (List.append_nil _).symm⟩
  | cons h rest ih =>
    obtain ⟨method, uri, version, all⟩ := ih (addHeader head h)
    obtain ⟨sameMethod, sameUri, sameVersion⟩ := noteHeader_line head h
    rw [addHeader_headers, List.append_assoc] at all
    exact ⟨method.trans sameMethod, uri.trans sameUri, version.trans sameVersion, all⟩

theorem understood_line (req : HttpRequest) : req.understood.method = req.method ∧ req.understood.uri = req.uri ∧
    req.understood.version = req.version ∧ req.understood.headers = req.headers :=
  foldl_addHeader _ req.headers

theorem hmParseRequestLine_sendable (sendable : Sendable req) :
    hmParseRequestLine hmRequestInit.toHttpHead req.requestLine = some (startHead req.method req.uri req.version) := by
  have method : scanWord 15 req.requestLine =
      some (req.method.text, 32 :: (req.uri.text ++ 32 :: hmVersionStr req.version)) := by
    rw [← sendable.requestLine_sent]
    exact sendable.method.scan (by simp [Decimal.isSpace])
  have uri : scanWord 2047 (32 :: (req.uri.text ++ 32 :: hmVersionStr req.version)) =
      some (req.uri.text, 32 :: hmVersionStr req.version) := by
    rw [scanWord_space]
    exact sendable.uri.scan (by simp [Decimal.isSpace])
  have version : scanWord 15 (32 :: hmVersionStr req.version) = some (hmVersionStr req.version, []) := by
    have whole : scanWord 15 (hmVersionStr req.version ++ []) = some (hmVersionStr req.version, []) :=
      (word_hmVersionStr req.version).scan (by simp)
    rw [scanWord_space]
    rwa [List.append_nil] at whole
  simp only [hmParseRequestLine, method, uri, version, Option.bind_eq_bind, Option.bind_some, CharArray.store_text]
  cases spoken : req.version with
  | ver10 => exact if_pos rfl
  | ver11 => exact if_neg (by decide)
  | ver20 => exact absurd spoken sendable.version

theorem hmParseHeaderLine_sendable (sendable : SendableHeader h) (room : head.headers.length < HM_MAX_HEADERS) :
    hmParseHeaderLine head h.line = some (addHeader head h) := by
  have colon : h.line.findIdx? (· = 58) = some h.name.text.length := by
    have absent : h.name.text.findIdx? (· = 58) = none := by
      apply List.findIdx?_eq_none_iff.mpr
      exact fun char held => decide_eq_false (sendable.name char held).1
    rw [HttpHeader.line, List.append_assoc, List.findIdx?_append, absent]
    simp [ascii, List.findIdx?_cons]
  have behind : h.line.drop (h.name.text.length + 1) = 32 :: h.value.text := by
    simp [HttpHeader.line, ascii, List.drop_append]
  have name : h.line.take (min h.name.text.length (HM_MAX_HEADER_LEN - 1)) = h.name.text := by
    rw [Nat.min_eq_left h.name.fits, HttpHeader.line, List.append_assoc, List.take_left]
  have value : headerValue (32 :: h.value.text) = h.value.text := (headerValue_blank _).trans sendable.trimmed
  simp only [hmParseHeaderLine, colon, behind, name, value, CharArray.store_text, ge_iff_le,
    if_neg (Nat.not_le_of_lt room), if_neg sendable.hosted]
  rfl

theorem applyLines_sendable (sendable : ∀ h ∈ headers, SendableHeader h)
    (room : head.headers.length + headers.length ≤ HM_MAX_HEADERS) :
    applyLines head (headers.map HttpHeader.line) = (0, headers.foldl addHeader head) := by
  induction headers generalizing head with
  | nil => rfl
  | cons h rest ih =>
    obtain ⟨first, others⟩ := List.forall_mem_cons.mp sendable
    rw [List.length_cons] at room
    rw [List.map_cons, applyLines, hmParseHeaderLine_sendable first (by omega)]
    apply ih others
    rw [addHeader_headers, List.length_append, List.length_singleton]
    omega

end Understanding

section Memory

variable {saved next : Saved} {place : Nat} {tail : Bytes} {head last : HttpHead} {code : Int}

/-- A round of the loop over the header lines saves the pointer of its call of `strtok_r`. -/
theorem headerLineRound_saved (state : Saved × HttpHead) :
    (headerLineRound state).elim Prod.fst (fun result => result.2.1) = (strtokR isCrlf state.1).2 := by
  fun_cases headerLineRound state with
  | case1 _ _ _ found | case2 _ _ _ _ found | case3 _ _ _ _ found => exact (congrArg Prod.snd found).symm

theorem terminated_lines (ends : Loop.Ends headerLineRound (saved, head) (code, next, last))
    (here : Terminated place tail saved) : Terminated place tail next := by
  obtain ⟨final, reached, leaves⟩ := Loop.ends_iff.mp ends
  have stays : Terminated place tail final.1 := by
    clear leaves ends
    induction reached with
    | refl => exact here
    | @tail between after _ goesOn ih =>
      have kept := headerLineRound_saved between
      rw [goesOn, Sum.elim_inl] at kept
      exact kept ▸ terminated_strtokR isCrlf ih
  have kept := headerLineRound_saved final
  rw [leaves] at kept
  change next = _ at kept
  exact kept ▸ terminated_strtokR isCrlf stays

end Memory

section RoundTrip

variable {req : HttpRequest} {text : Bytes}

/-- The request that the parser makes of a text, apart from the raw buffer. -/
def HttpHead.complete (head : HttpHead) (text raw : Bytes) : HttpRequest :=
  { head with body := head.bodyOf text, parseState := .complete, raw }

theorem ends_sendable (sendable : Sendable req) (before tail : Bytes) :
    ∃ saved, Loop.Ends headerLineRound
      (⟨before, unread tail (sendable.sent.headers.map SentHeader.line)⟩, startHead req.method req.uri req.version)
      (0, saved, req.understood) := by
  have room : (startHead req.method req.uri req.version).headers.length + req.headers.length ≤ HM_MAX_HEADERS :=
    (Nat.zero_add _).trans_le sendable.few
  obtain ⟨saved, ends⟩ := ends_lines (headerLines_line sendable.sent) before tail
    (startHead req.method req.uri req.version)
  have applied := applyLines_sendable sendable.headers room
  rw [← sendable.lines_sent] at applied
  rw [applied] at ends
  exact ⟨saved, ends⟩

/-- What is written for a request is parsed in one call, and nothing of the request is lost but a body that no
`Content-Length` announces. -/
theorem hmParseRequest_sendable (sendable : Sendable req) (built : hmBuildRequest req = some (some text))
    (small : text.length < HM_MAX_BODY) :
    ∃ raw, hmParseRequest hmRequestInit text = some (0, req.understood.complete req.body raw) := by
  have whole : text = sendable.sent.headed ++ req.body := (sendable.text_sent built).symm
  have found := strstr_headed sendable.sent req.body
  rw [← whole] at found
  have nonempty : text ≠ [] := by
    intro nothing
    rw [nothing] at found
    cases found
  have copied : ([] : Bytes) ++ text.take (HM_MAX_BODY - ([] : Bytes).length) = text :=
    List.take_of_length_le (Nat.le_of_lt small)
  have cut : text.set sendable.sent.head.length 0 = sendable.sent.head ++ 0 :: (10 :: 13 :: 10 :: req.body) := by
    rw [whole, SentRequest.headed, List.append_assoc, List.set_append_right _ _ (Nat.le_refl _), Nat.sub_self]
    rfl
  have nothing : ∀ char ∈ ([] : Bytes), isCrlf char = true ∧ char ≠ 0 := by simp
  have begins : Terminated sendable.sent.head.length (10 :: 13 :: 10 :: req.body)
      ⟨[], sendable.sent.head ++ 0 :: (10 :: 13 :: 10 :: req.body)⟩ :=
    ⟨_, rfl, head_plain sendable.sent, Nat.zero_add _⟩
  have goesOn := terminated_strtokR isCrlf begins
  obtain ⟨passed, token⟩ : ∃ passed, strtokR isCrlf ⟨[], sendable.sent.head ++ 0 :: (10 :: 13 :: 10 :: req.body)⟩ =
      (some sendable.sent.requestLine,
        ⟨passed, unread (10 :: 13 :: 10 :: req.body) (sendable.sent.headers.map SentHeader.line)⟩) :=
    strtokR_line (requestLine_line sendable.sent) [] _ nothing
  rw [token] at goesOn
  obtain ⟨saved, ends⟩ := ends_sendable sendable passed (10 :: 13 :: 10 :: req.body)
  have ran := ends.run_eq (headerLines_isSome _ _)
  have line := hmParseRequestLine_sendable sendable
  rw [← sendable.requestLine_sent] at line
  have body : saved.memory.drop (sendable.sent.head.length + 4) = req.body := by
    have behind := congrArg (List.drop 3) (terminated_lines ends goesOn).drop
    rwa [List.drop_drop] at behind
  refine ⟨saved.memory, ?_⟩
  rw [hmParseRequest, if_neg nonempty]
  dsimp only [hmRequestInit] at line ⊢
  simp only [copied, found, cut, token, line, ran, Option.map_some, body]
  rw [if_neg (Int.lt_irrefl 0), HttpHead.complete, HttpHead.bodyOf]
  split <;> rfl

/-- What `hm_build_request` writes for a request is parsed to the same request: no header is split, merged or changed. Of
the body there remains what its headers announce. -/
theorem hmBuildRequest_parsed (sendable : Sendable req) (built : hmBuildRequest req = some (some text))
    (small : text.length < HM_MAX_BODY) :
    ∃ parsed, hmParseRequest hmRequestInit text = some (0, parsed) ∧ parsed.parseState = .complete ∧
      parsed.method = req.method ∧ parsed.uri = req.uri ∧ parsed.version = req.version ∧
      parsed.headers = req.headers ∧ parsed.body = parsed.bodyOf req.body := by
  obtain ⟨raw, parsed⟩ := hmParseRequest_sendable sendable built small
  obtain ⟨method, uri, version, headers⟩ := understood_line req
  exact ⟨_, parsed, rfl, method, uri, version, headers, rfl⟩

/-- A request with two bytes of body. -/
def postRequest : HttpRequest :=
  { hmRequestInit with
    method := .store _ (ascii "POST")
    uri := .store _ (ascii "/")
    headers := [⟨.store _ (ascii "Content-Length"), .store _ (ascii "2")⟩]
    body := ascii "ab" }

def postText : Bytes := ascii "POST / HTTP/1.1\r\nContent-Length: 2\r\n\r\nab"

theorem hmBuildRequest_parsed_post :
    ∃ parsed, hmParseRequest hmRequestInit postText = some (0, parsed) ∧ parsed.parseState = .complete ∧
      parsed.method = postRequest.method ∧ parsed.uri = postRequest.uri ∧ parsed.version = postRequest.version ∧
      parsed.headers = postRequest.headers ∧ parsed.body = parsed.bodyOf postRequest.body := by
  have header : SendableHeader ⟨.store _ (ascii "Content-Length"), .store _ (ascii "2")⟩ :=
    ⟨by decide, List.all_iff_forall_prop.mp (by decide), List.all_iff_forall_prop.mp (by decide), by decide, by decide⟩
  have sendable : Sendable postRequest :=
    ⟨⟨by decide, by decide, List.all_iff_forall_prop.mp (by decide)⟩,
      ⟨by decide, by decide, List.all_iff_forall_prop.mp (by decide)⟩, by decide, by decide,
      List.forall_mem_singleton.mpr header⟩
  exact hmBuildRequest_parsed sendable (by decide) (by decide)

end RoundTrip

section Accepted

variable {start head filled last : HttpHead} {h : HttpHeader} {line : CString} {saved next : Saved} {code : Int}
  {req : HttpRequest} {data text : Bytes}

/-- A header that has been read. Its name may be empty, and a value that was cut may end with a blank. -/
structure ReadHeader (h : HttpHeader) : Prop where
  name : ∀ char ∈ h.name.text, char ≠ 58 ∧ isCrlf char = false
  value : ∀ char ∈ h.value.text, isCrlf char = false
  begins : ∀ char ∈ h.value.text.head?, char ≠ 32 ∧ char ≠ 9
  hosted : ¬(strcasecmp h.name.text (ascii "Host") = true ∧ h.value.text = [])

/-- What the parser has made of the lines so far. -/
structure Accepted (start head : HttpHead) : Prop where
  noted : head = head.headers.foldl addHeader start
  few : head.headers.length ≤ HM_MAX_HEADERS
  read : ∀ h ∈ head.headers, ReadHeader h

theorem headerValue_eq {value : CString} (begins : ∀ char ∈ value.head?, char ≠ 32 ∧ char ≠ 9)
    (plain : ∀ char ∈ value, isCrlf char = false) (uncut : value.getLast? ≠ some 32) : headerValue value = value := by
  have leads : value.dropWhile (fun char => char = 32 || char = 9) = value := by
    cases value with
    | nil => rfl
    | cons first rest =>
      apply List.dropWhile_cons_of_neg
      simpa using begins first rfl
  rw [headerValue, leads]
  rcases List.eq_nil_or_concat' value with rfl | ⟨rest, final, rfl⟩
  · rfl
  · have ends := plain final (by simp)
    have blank : final ≠ 32 := fun same => uncut (by simp [same])
    rw [isCrlf, Bool.or_eq_false_iff] at ends
    rw [List.reverse_append, List.reverse_singleton, List.singleton_append, List.dropWhile_cons_of_neg]
    · simp
    · simpa [blank] using ends

theorem ReadHeader.sendable (read : ReadHeader h) (named : h.name.text ≠ []) (uncut : h.value.text.getLast? ≠ some 32) :
    SendableHeader h where
  named := named
  name := read.name
  value := read.value
  trimmed := headerValue_eq read.begins read.value uncut
  hosted := read.hosted

/-- The value behind the colon begins without a blank, and with what the text has in this place. -/
theorem headerValue_begins (value : CString) :
    (∀ char ∈ headerValue value, char ∈ value) ∧ ∀ char ∈ (headerValue value).head?, char ≠ 32 ∧ char ≠ 9 := by
  have behind := List.dropWhile_suffix (fun char : UInt8 => char = 32 || char = 9) (l := value)
  have before : headerValue value <+: value.dropWhile fun char => char = 32 || char = 9 := List.rdropWhile_prefix _ _
  refine ⟨fun char held => behind.subset (before.subset held), ?_⟩
  intro char first
  obtain ⟨rest, whole⟩ := before
  have leads : char ∈ (value.dropWhile fun char => char = 32 || char = 9).head? := by
    rw [← whole, List.head?_append, first]
    rfl
  have kept := List.head?_dropWhile_not (fun char : UInt8 => char = 32 || char = 9) value
  rw [leads] at kept
  simpa using kept

theorem readHeader_of_line (plain : ∀ char ∈ line, isCrlf char = false ∧ char ≠ 0)
    (parsed : hmParseHeaderLine head line = some filled) :
    ∃ h, filled = addHeader head h ∧ ReadHeader h ∧ head.headers.length < HM_MAX_HEADERS := by
  rw [hmParseHeaderLine] at parsed
  split at parsed
  · cases parsed
  · rename_i colon found
    obtain ⟨room, parsed⟩ := Option.ite_none_left_eq_some.mp parsed
    obtain ⟨hosted, parsed⟩ := Option.ite_none_left_eq_some.mp parsed
    obtain ⟨inside, begins⟩ := headerValue_begins (line.drop (colon + 1))
    generalize headerValue (line.drop (colon + 1)) = value at *
    have valuePlain (char : UInt8) (held : char ∈ value) := plain char (List.mem_of_mem_drop (inside char held))
    have stored : (CharArray.store HM_MAX_VALUE_LEN value).text = value.take (HM_MAX_VALUE_LEN - 1) :=
      cString_eq fun zero => (valuePlain 0 (List.mem_of_mem_take zero)).2 rfl
    have before (char : UInt8) (held : char ∈ line.take colon) : char ≠ 58 := by
      obtain ⟨position, within, rfl⟩ := List.mem_take_iff_getElem.mp held
      obtain ⟨_, _, earlier⟩ := List.findIdx?_eq_some_iff_getElem.mp found
      simpa using earlier position (Nat.lt_of_lt_of_le within (Nat.min_le_left _ _))
    refine ⟨_, (Option.some.inj parsed).symm, ?_, Nat.lt_of_not_le room⟩
    refine ⟨fun char held => ?_, fun char held => ?_, ?_, fun host => hosted ⟨host.1, ?_⟩⟩
    · have named := List.mem_of_mem_take ((List.takeWhile_prefix _).subset held)
      have earlier := (List.take_prefix_take_left (Nat.min_le_left colon (HM_MAX_HEADER_LEN - 1))).subset named
      exact ⟨before char earlier, (plain char (List.mem_of_mem_take named)).1⟩
    · rw [stored] at held
      exact (valuePlain char (List.mem_of_mem_take held)).1
    · rw [stored]
      cases value with
      | nil => exact begins
      | cons first rest => exact begins
    · have empty := host.2
      rw [stored] at empty
      cases value with
      | nil => rfl
      | cons first rest => cases empty

theorem accepted_of_round {state after : Saved × HttpHead} (goesOn : headerLineRound state = .inl after)
    (accepted : Accepted start state.2) : Accepted start after.2 := by
  revert goesOn
  fun_cases headerLineRound state with
  | case3 saved head line passed found filled parsed =>
    intro goesOn
    obtain rfl := Sum.inl.inj goesOn
    obtain ⟨_, plain⟩ := strtokR_plain (congrArg Prod.fst found)
    obtain ⟨h, rfl, read, room⟩ := readHeader_of_line plain parsed
    refine ⟨?_, ?_, ?_⟩
    · rw [addHeader_headers, List.foldl_append, ← accepted.noted]
      rfl
    · rw [addHeader_headers, List.length_append]
      exact room
    · rw [addHeader_headers]
      exact List.forall_mem_append.mpr ⟨accepted.read, List.forall_mem_singleton.mpr read⟩
  | _ =>
    intro goesOn
    cases goesOn

theorem head_of_leaving {state : Saved × HttpHead} (leaves : headerLineRound state = .inr (code, next, last)) :
    last = state.2 := by
  revert leaves
  fun_cases headerLineRound state with
  | case1 | case2 =>
    intro leaves
    cases leaves
    rfl
  | case3 =>
    intro leaves
    cases leaves

theorem accepted_lines (ends : Loop.Ends headerLineRound (saved, head) (code, next, last))
    (accepted : Accepted start head) : Accepted start last := by
  obtain ⟨final, reached, leaves⟩ := Loop.ends_iff.mp ends
  rw [head_of_leaving leaves]
  clear leaves ends
  induction reached with
  | refl => exact accepted
  | tail _ goesOn ih => exact accepted_of_round goesOn ih

/-- The words of a request line. -/
structure RequestWords (head : HttpHead) : Prop where
  method : Word HM_MAX_METHOD head.method.text
  uri : Word HM_MAX_URI head.uri.text
  version : head.version ≠ .ver20

theorem text_scanned {width : Nat} {word rest : Bytes} (nonzero : ∀ char ∈ line, char ≠ 0)
    (scanned : scanWord width line = some (word, rest)) :
    (CharArray.store (width + 1) word).text = word ∧ Word (width + 1) word ∧ ∀ char ∈ rest, char ≠ 0 := by
  obtain ⟨filled, fits, inside, later⟩ := scanWord_some scanned
  refine ⟨CharArray.text_store fits fun zero => nonzero 0 (inside 0 zero).1 rfl, ⟨filled, fits, ?_⟩, ?_⟩
  · exact fun char held => ⟨nonzero char (inside char held).1, (inside char held).2⟩
  · exact fun char held => nonzero char (later char held)

theorem requestWords_of_line (nonzero : ∀ char ∈ line, char ≠ 0)
    (parsed : hmParseRequestLine hmRequestInit.toHttpHead line = some head) :
    RequestWords head ∧ head = startHead head.method head.uri head.version := by
  simp only [hmParseRequestLine, Option.bind_eq_bind, Option.bind_eq_some_iff, Prod.exists] at parsed
  obtain ⟨method, afterMethod, first, uri, afterUri, second, version, _, _, rest⟩ := parsed
  obtain ⟨sameMethod, wordMethod, nonzero⟩ := text_scanned nonzero first
  obtain ⟨sameUri, wordUri, _⟩ := text_scanned nonzero second
  have earlier : HttpVersion.ver10 ≠ .ver20 ∧ HttpVersion.ver11 ≠ .ver20 := by decide
  split at rest
  · obtain rfl := Option.some.inj rest
    exact ⟨⟨sameMethod.symm ▸ wordMethod, sameUri.symm ▸ wordUri, earlier.1⟩, rfl⟩
  · obtain rfl := Option.some.inj rest
    exact ⟨⟨sameMethod.symm ▸ wordMethod, sameUri.symm ▸ wordUri, earlier.2⟩, rfl⟩

/-- A request that is complete after one call is what its request line and headers mean. -/
theorem hmParseRequest_accepted (parsed : hmParseRequest hmRequestInit data = some (0, req))
    (complete : req.parseState = .complete) :
    RequestWords req.toHttpHead ∧ Accepted (startHead req.method req.uri req.version) req.toHttpHead ∧
      ∃ text, req.body = req.bodyOf text := by
  have refused {result : HttpRequest} : some ((-1 : Int), result) ≠ some (0, req) := by
    intro same
    exact absurd (Prod.mk.inj (Option.some.inj same)).1 (by decide)
  rw [hmParseRequest] at parsed
  split at parsed
  · exact absurd parsed refused
  · dsimp only at parsed
    split at parsed
    · split at parsed
      · exact absurd parsed refused
      · obtain rfl := (Prod.mk.inj (Option.some.inj parsed)).2
        cases complete
    · split at parsed
      · exact absurd parsed refused
      · rename_i line saved found
        split at parsed
        · exact absurd parsed refused
        · rename_i head words
          obtain ⟨⟨code, later, last⟩, ran, same⟩ := Option.map_eq_some_iff.mp parsed
          dsimp only at same
          split at same
          · exact absurd (congrArg some same) refused
          · obtain ⟨_, plain⟩ := strtokR_plain (congrArg Prod.fst found)
            obtain ⟨requestWords, begins⟩ := requestWords_of_line (fun char held => (plain char held).2) words
            have none : head.headers = [] := begins ▸ rfl
            have accepted : Accepted head last :=
              accepted_lines ⟨_, ran⟩ ⟨by rw [none]; rfl, by rw [none]; exact Nat.zero_le _, by simp [none]⟩
            obtain ⟨method, uri, version, _⟩ := foldl_addHeader head last.headers
            rw [← accepted.noted] at method uri version
            have start : startHead last.method last.uri last.version = head := by rw [method, uri, version, ← begins]
            have outcome : req.toHttpHead = last ∧ ∃ text, req.body = last.bodyOf text := by
              obtain rfl := (Prod.mk.inj same).2
              dsimp only [HttpHead.bodyOf]
              split
              · exact ⟨rfl, _, rfl⟩
              · exact ⟨rfl, [], rfl⟩
            obtain ⟨rfl, body⟩ := outcome
            refine ⟨⟨method ▸ requestWords.method, uri ▸ requestWords.uri, version ▸ requestWords.version⟩, ?_, body⟩
            rw [start]
            exact accepted

theorem bodyOf_bodyOf (head : HttpHead) (text : Bytes) : head.bodyOf (head.bodyOf text) = head.bodyOf text := by
  rw [HttpHead.bodyOf, HttpHead.bodyOf]
  split
  · rw [List.take_take, Nat.min_self]
  · rfl

/-- Writing out what the parser has made of any text, and parsing that, gives the same request: method, URI, version,
headers, body and what the headers say about it. What is written may be longer than the text, and has to fit. -/
theorem hmParseRequest_rebuilt (parsed : hmParseRequest hmRequestInit data = some (0, req))
    (complete : req.parseState = .complete) (named : ∀ h ∈ req.headers, h.name.text ≠ [])
    (uncut : ∀ h ∈ req.headers, h.value.text.getLast? ≠ some 32) (small : req.written.length < HM_MAX_BODY) :
    ∃ text raw, hmBuildRequest req = some (some text) ∧
      hmParseRequest hmRequestInit text = some (0, { req with raw }) := by
  obtain ⟨words, accepted, body, same⟩ := hmParseRequest_accepted parsed complete
  have sendable : Sendable req :=
    ⟨words.method, words.uri, words.version, accepted.few,
      fun h held => (accepted.read h held).sendable (named h held) (uncut h held)⟩
  have built := hmBuildRequest_written small
  obtain ⟨raw, again⟩ := hmParseRequest_sendable sendable built small
  have understood : req.understood = req.toHttpHead := accepted.noted.symm
  have taken : req.bodyOf req.body = req.body := by rw [same, bodyOf_bodyOf]
  refine ⟨req.written, raw, built, again.trans ?_⟩
  rw [HttpHead.complete, understood, taken, ← complete]

/-- `Content-Length:2` and a blank. -/
def spacedText : Bytes := ascii "POST\t/ HTTP/1.1\nContent-Length:2 \r\n\r\nab"

theorem hmParseRequest_rebuilt_spaced : ∃ raw req, hmParseRequest hmRequestInit spacedText = some (0, req) ∧
    hmBuildRequest req = some (some postText) ∧ hmParseRequest hmRequestInit postText = some (0, { req with raw }) := by
  obtain ⟨req, parsed, complete, named, uncut, small, same⟩ :
      ∃ req, hmParseRequest hmRequestInit spacedText = some (0, req) ∧
      req.parseState = .complete ∧ (∀ h ∈ req.headers, h.name.text ≠ []) ∧
      (∀ h ∈ req.headers, h.value.text.getLast? ≠ some 32) ∧ req.written.length < HM_MAX_BODY ∧
      hmBuildRequest req = some (some postText) := by
    refine ⟨_, rfl, ?_⟩
    decide
  obtain ⟨text, raw, built, again⟩ := hmParseRequest_rebuilt parsed complete named uncut small
  cases built.symm.trans same
  exact ⟨raw, req, parsed, same, again⟩

end Accepted

end MiniNetDist.GatewayProxy.HttpParse
