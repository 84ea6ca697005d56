import Mathlib.Data.Bool.AllAny
import Mathlib.Tactic.SplitIfs
import MiniNetDist.Library.Loop
import MiniNetDist.Library.Tokens

/-! The incremental parser of requests in `mini-gateway-proxy/src/http_message.c`. It waits for the blank line behind
the headers, and does not wait for the body. -/

namespace MiniNetDist.GatewayProxy.HttpParse

open Library Library.Tokens

def HM_MAX_HEADERS : Nat := 64
def HM_MAX_HEADER_LEN : Nat := 256
def HM_MAX_VALUE_LEN : Nat := 1024
def HM_MAX_URI : Nat := 2048
def HM_MAX_METHOD : Nat := 16
def HM_MAX_VERSION : Nat := 16
def HM_MAX_BODY : Nat := 65536

inductive HttpVersion where
  | ver10
  | ver11
  | ver20
  deriving DecidableEq, Repr

inductive TransferEncoding where
  | identity
  | chunked
  | compress
  | deflate
  | gzip
  deriving DecidableEq, Repr

inductive HttpParseState where
  | startLine
  | headers
  | body
  | complete
  | error
  deriving DecidableEq, Repr

structure HttpHeader where
  name : CharArray HM_MAX_HEADER_LEN
  value : CharArray HM_MAX_VALUE_LEN
  deriving DecidableEq, Repr

/-- The fields that the request line and the header lines fill; the headers are those below `num_headers`. -/
structure HttpHead where
  method : CharArray HM_MAX_METHOD
  uri : CharArray HM_MAX_URI
  version : HttpVersion
  headers : List HttpHeader
  keepAlive : Bool
  te : TransferEncoding
  contentLength : UInt64
  contentLengthSet : Bool
  deriving DecidableEq, Repr

/-- The raw buffer up to `raw_len`, and the body up to `body_len`; all bytes behind them are zero. -/
structure HttpRequest extends HttpHead where
  body : Bytes
  parseState : HttpParseState
  raw : Bytes
  deriving DecidableEq, Repr

def hmRequestInit : HttpRequest where
  method := .store _ []
  uri := .store _ []
  version := .ver11
  headers := []
  keepAlive := true
  te := .identity
  contentLength := 0
  contentLengthSet := false
  body := []
  parseState := .startLine
  raw := []

/-- None for the return value -1. -/
def hmParseRequestLine (req : HttpHead) (line : CString) : Option HttpHead := do
  let (method, rest) ← scanWord 15 line
  let (uri, rest) ← scanWord 2047 rest
  let (version, _) ← scanWord 15 rest
  let req := { req with method := .store _ method, uri := .store _ uri }
  if version = ascii "HTTP/1.0" then some { req with version := .ver10, keepAlive := false }
  else some { req with version := .ver11 }

/-- The value behind the colon, without the blanks around it. -/
def headerValue (text : CString) : CString :=
  let value := text.dropWhile fun char => char = 32 || char = 9
  (value.reverse.dropWhile fun char => char = 13 || char = 10 || char = 32).reverse

/-- What a header means to the parser. -/
def noteHeader (req : HttpHead) (h : HttpHeader) : HttpHead :=
  let req :=
    if strcasecmp h.name.text (ascii "Content-Length") then
      { req with contentLength := ⟨Decimal.atoll h.value.text⟩, contentLengthSet := true }
    else req
  let req :=
    if strcasecmp h.name.text (ascii "Connection") ∧ strcasecmp h.value.text (ascii "close") then
      { req with keepAlive := false }
    else req
  if strcasecmp h.name.text (ascii "Transfer-Encoding") then
    if strcasecmp h.value.text (ascii "chunked") then { req with te := .chunked }
    else if strcasecmp h.value.text (ascii "gzip") then { req with te := .gzip }
    else if strcasecmp h.value.text (ascii "deflate") then { req with te := .deflate }
    else req
  else req

/-- None for the return value -1. -/
def hmParseHeaderLine (req : HttpHead) (line : CString) : Option HttpHead :=
  match line.findIdx? (· = 58) with
  | none => none
  | some colon =>
    let value := headerValue (line.drop (colon + 1))
    if req.headers.length ≥ HM_MAX_HEADERS then none
    else
      let h : HttpHeader := ⟨.store _ (line.take (min colon (HM_MAX_HEADER_LEN - 1))), .store _ value⟩
      if strcasecmp h.name.text (ascii "Host") ∧ value = [] then none
      else
        let req := noteHeader req h
        some { req with headers := req.headers ++ [h] }

def isCrlf (char : UInt8) : Bool := char = 13 || char = 10

def crlf : Bytes := [13, 10]

/-- The loop over the header lines, which is left with the return value. -/
def headerLineRound (state : Saved × HttpHead) : (Saved × HttpHead) ⊕ (Int × Saved × HttpHead) :=
  let (saved, req) := state
  match strtokR isCrlf saved with
  | (none, saved) => .inr (0, saved, req)
  | (some hdrLine, saved) =>
    match hmParseHeaderLine req hdrLine with
    | none => .inr (-1, saved, req)
    | some req => .inl (saved, req)

/-- The return value and the request. -/
def hmParseRequest (req : HttpRequest) (data : Bytes) : Option (Int × HttpRequest) :=
  if data = [] then some (-1, req)
  else
    let raw := req.raw ++ data.take (HM_MAX_BODY - req.raw.length)
    match strstr (crlf ++ crlf) (cString raw) with
    | none =>
      if raw.length ≥ HM_MAX_BODY then some (-1, { req with raw, parseState := .error })
      else some (0, { req with raw })
    | some bodyStart =>
      match strtokR isCrlf ⟨[], raw.set bodyStart 0⟩ with
      | (none, saved) => some (-1, { req with raw := saved.memory, parseState := .error })
      | (some reqLine, saved) =>
        match hmParseRequestLine req.toHttpHead reqLine with
        | none => some (-1, { req with raw := saved.memory, parseState := .error })
        | some head =>
          (Loop.run headerLineRound (saved.rest.length + 1) (saved, head)).map fun (code, saved, head) =>
            let req := { req with toHttpHead := head, raw := saved.memory }
            if code < 0 then (-1, { req with parseState := .error })
            else
              let req :=
                if head.contentLengthSet ∧ head.contentLength > 0 then
                  { req with body := (saved.memory.drop (bodyStart + 4)).take head.contentLength.toNat }
                else req
              (0, { req with parseState := .complete })

/-- The pieces of a request are fed to the parser one after another. -/
def feed : HttpRequest → List Bytes → Option HttpRequest
  | req, [] => some req
  | req, piece :: pieces => (hmParseRequest req piece).bind fun result => feed result.2 pieces

/-- A word of a request line. -/
structure Word (limit : Nat) (word : CString) : Prop where
  filled : word ≠ []
  fits : word.length ≤ limit - 1
  plain : ∀ char ∈ word, char ≠ 0 ∧ Decimal.isSpace char = false

/-- A header as it is sent, with any blanks around its value. -/
structure SentHeader where
  name : CString
  value : CString
  named : name ≠ []
  nameFits : name.length ≤ HM_MAX_HEADER_LEN - 1
  namePlain : ∀ char ∈ name, char ≠ 0 ∧ char ≠ 58 ∧ isCrlf char = false
  valueFits : (headerValue value).length ≤ HM_MAX_VALUE_LEN - 1
  valuePlain : ∀ char ∈ value, char ≠ 0 ∧ isCrlf char = false

def SentHeader.line (sent : SentHeader) : CString := sent.name ++ 58 :: sent.value

/-- The parser refuses a host without a value. -/
def SentHeader.EmptyHost (sent : SentHeader) : Prop :=
  strcasecmp sent.name (ascii "Host") = true ∧ headerValue sent.value = []

/-- Lines with line ends between them. -/
def joinLines : Bytes → List Bytes → Bytes
  | line, [] => line
  | line, next :: lines => line ++ (crlf ++ joinLines next lines)

/-- The lines fill the header one after another, up to one that is refused. -/
def applyLines : HttpHead → List CString → Int × HttpHead
  | head, [] => (0, head)
  | head, line :: lines =>
    match hmParseHeaderLine head line with
    | none => (-1, head)
    | some head => applyLines head lines

/-- A request as it is sent, whatever its headers say about the length of its body. -/
structure SentRequest where
  method : CString
  uri : CString
  version : CString
  headers : List SentHeader
  body : Bytes
  methodWord : Word HM_MAX_METHOD method
  uriWord : Word HM_MAX_URI uri
  versionWord : Word HM_MAX_VERSION version
  headersFit : headers.length ≤ HM_MAX_HEADERS

def SentRequest.requestLine (sent : SentRequest) : CString :=
  sent.method ++ 32 :: (sent.uri ++ 32 :: sent.version)

/-- The request line and the headers. -/
def SentRequest.head (sent : SentRequest) : Bytes :=
  joinLines sent.requestLine (sent.headers.map SentHeader.line)

/-- The request up to its body. -/
def SentRequest.headed (sent : SentRequest) : Bytes := sent.head ++ (crlf ++ crlf)

def SentRequest.text (sent : SentRequest) : Bytes := sent.headed ++ sent.body

/-- The pieces leave the same message as the whole text, and it is complete only with the last piece. -/
def SentRequest.FedAlike (sent : SentRequest) (pieces : List Bytes) : Prop :=
  ∃ whole parts, feed hmRequestInit [sent.text] = some whole ∧ feed hmRequestInit pieces = some parts ∧
    (parts.method = whole.method ∧ parts.uri = whole.uri ∧ parts.version = whole.version ∧
      parts.headers = whole.headers ∧ parts.body = whole.body) ∧
    ∀ earlier, earlier <+: pieces → earlier ≠ pieces →
      ∀ req ∈ feed hmRequestInit earlier, req.parseState ≠ .complete

section Lines

variable {line : Bytes} {lines : List Bytes} {rest cut : Bytes}

/-- A line of a message. -/
structure Line (line : Bytes) : Prop where
  filled : line ≠ []
  plain : ∀ char ∈ line, isCrlf char = false ∧ char ≠ 0

theorem Line.not_cr (whole : Line line) : 13 ∉ line := fun held => absurd (whole.plain 13 held).1 (by decide)

theorem joinLines_plain (first : Line line) (others : ∀ line ∈ lines, Line line) : 0 ∉ joinLines line lines := by
  induction lines generalizing line with
  | nil => exact fun zero => (first.plain 0 zero).2 rfl
  | cons next lines ih =>
    obtain ⟨second, rest⟩ := List.forall_mem_cons.mp others
    intro zero
    rcases List.mem_append.mp zero with here | later
    · exact (first.plain 0 here).2 rfl
    · rcases List.mem_append.mp later with ends | later
      · exact absurd ends (by decide)
      · exact ih second rest later

theorem strstr_line (first : Line line) (rest : Bytes) :
    strstr (crlf ++ crlf) (line ++ rest) = (strstr (crlf ++ crlf) rest).map (line.length + ·) :=
  strstr_skip first.not_cr rest

theorem strstr_lineEnd (goesOn : ∀ char ∈ rest.head?, char ≠ 13) :
    strstr (crlf ++ crlf) (crlf ++ rest) = (strstr (crlf ++ crlf) rest).map (2 + ·) := by
  have notCr : ¬crlf ++ crlf <+: 13 :: 10 :: rest := by
    intro here
    obtain ⟨more, same⟩ := (List.cons_prefix_cons.mp (List.cons_prefix_cons.mp here).2).2
    exact goesOn 13 (same ▸ rfl) rfl
  have notLf : ¬crlf ++ crlf <+: 10 :: rest := fun here => absurd (List.cons_prefix_cons.mp here).1 (by decide)
  change strstr (crlf ++ crlf) (13 :: 10 :: rest) = _
  rw [strstr, if_neg notCr, strstr, if_neg notLf, Option.map_map]
  congr 1
  funext index
  exact Nat.add_comm index 2

theorem head_joinLines (first : Line line) (rest : Bytes) :
    ∀ char ∈ (joinLines line lines ++ rest).head?, char ≠ 13 := by
  obtain ⟨byte, bytes, rfl⟩ := List.exists_cons_of_ne_nil first.filled
  intro char here
  have same : byte = char := by
    cases lines <;> exact Option.some.inj here
  subst same
  exact fun cr => first.not_cr (cr ▸ List.mem_cons_self ..)

/-- The blank line is found behind the last line. -/
theorem strstr_joinLines (first : Line line) (others : ∀ line ∈ lines, Line line) (rest : Bytes) :
    strstr (crlf ++ crlf) (joinLines line lines ++ (crlf ++ crlf ++ rest)) = some (joinLines line lines).length := by
  induction lines generalizing line with
  | nil =>
    have here : strstr (crlf ++ crlf) (crlf ++ crlf ++ rest) = some 0 := if_pos (List.prefix_append (crlf ++ crlf) rest)
    rw [joinLines, strstr_line first, here]
    rfl
  | cons next lines ih =>
    obtain ⟨second, more⟩ := List.forall_mem_cons.mp others
    rw [joinLines, List.append_assoc, strstr_line first, List.append_assoc, strstr_lineEnd (head_joinLines second _),
      ih second more]
    simp only [Option.map_some, List.length_append]
    rfl

end Lines

section Buffers

variable {sent : SentRequest} {rest cut : Bytes}

theorem isCrlf_of_not_space {char : UInt8} (plain : Decimal.isSpace char = false) : isCrlf char = false := by
  apply Bool.eq_false_iff.mpr
  intro ends
  simp only [isCrlf, Bool.or_eq_true, decide_eq_true_eq] at ends
  rcases ends with rfl | rfl
  · exact absurd plain (by decide)
  · exact absurd plain (by decide)

theorem Word.line {limit : Nat} {word : CString} (whole : Word limit word) : Line word where
  filled := whole.filled
  plain := fun char held => ⟨isCrlf_of_not_space (whole.plain char held).2, (whole.plain char held).1⟩

theorem Line.append {first second : Bytes} {between : UInt8} (whole : Line first)
    (plain : isCrlf between = false ∧ between ≠ 0)
    (more : ∀ char ∈ second, isCrlf char = false ∧ char ≠ 0) : Line (first ++ between :: second) where
  filled := by simp
  plain := by
    intro char held
    rcases List.mem_append.mp held with here | later
    · exact whole.plain char here
    · rcases List.mem_cons.mp later with rfl | later
      · exact plain
      · exact more char later

theorem requestLine_line (sent : SentRequest) : Line sent.requestLine :=
  sent.methodWord.line.append (by decide) (sent.uriWord.line.append (by decide) sent.versionWord.line.plain).plain

theorem headerLine_line (sent : SentHeader) : Line sent.line := by
  have name : Line sent.name := by
    refine ⟨sent.named, fun char held => ?_⟩
    obtain ⟨nonzero, _, plain⟩ := sent.namePlain char held
    exact ⟨plain, nonzero⟩
  exact name.append (by decide) fun char held => (sent.valuePlain char held).symm

theorem headerLines_line (sent : SentRequest) : ∀ line ∈ sent.headers.map SentHeader.line, Line line := by
  intro line held
  obtain ⟨header, _, rfl⟩ := List.mem_map.mp held
  exact headerLine_line header

theorem head_plain (sent : SentRequest) : 0 ∉ sent.head :=
  joinLines_plain (requestLine_line sent) (headerLines_line sent)

theorem headed_plain (sent : SentRequest) : 0 ∉ sent.headed := by
  intro zero
  rcases List.mem_append.mp zero with here | ends
  · exact head_plain sent here
  · exact absurd ends (by decide)

/-- The blank line of a request is found, whatever follows it. -/
theorem strstr_headed (sent : SentRequest) (rest : Bytes) :
    strstr (crlf ++ crlf) (cString (sent.headed ++ rest)) = some sent.head.length := by
  rw [cString_append (headed_plain sent), SentRequest.headed, List.append_assoc]
  exact strstr_joinLines (requestLine_line sent) (headerLines_line sent) _

/-- The parser waits as long as the blank line is not whole. -/
theorem strstr_cut (begins : cut <+: sent.headed) (short : cut.length < sent.headed.length) :
    strstr (crlf ++ crlf) (cString cut) = none := by
  obtain ⟨more, whole⟩ := begins
  cases found : strstr (crlf ++ crlf) (cString cut) with
  | none => rfl
  | some index =>
    have inside := strstr_inside found
    obtain ⟨tail, string⟩ := cString_append_prefix cut more
    have first := strstr_append (by decide) found tail
    rw [string, whole, ← List.append_nil sent.headed, strstr_headed] at first
    obtain rfl := Option.some.inj first
    have size := length_cString_le cut
    rw [SentRequest.headed, List.length_append] at short
    omega

end Buffers

section Rounds

variable {line : Bytes} {lines : List Bytes} {saved next : Saved} {head last : HttpHead} {code : Int}

/-- What the saved pointer leads to after a token. -/
def unread (tail : Bytes) : List Bytes → Bytes
  | [] => 0 :: tail
  | line :: lines => 10 :: (joinLines line lines ++ 0 :: tail)

theorem strtokR_line (first : Line line) (before tail : Bytes) {skipped : Bytes}
    (blank : ∀ char ∈ skipped, isCrlf char = true ∧ char ≠ 0) :
    ∃ passed, strtokR isCrlf ⟨before, skipped ++ (joinLines line lines ++ 0 :: tail)⟩ =
      (some line, ⟨passed, unread tail lines⟩) := by
  cases lines with
  | nil => exact ⟨_, strtokR_token blank first.filled first.plain (.inr rfl)⟩
  | cons next lines =>
    have split : joinLines line (next :: lines) ++ 0 :: tail =
        line ++ 13 :: 10 :: (joinLines next lines ++ 0 :: tail) := by
      simp [joinLines, crlf]
    rw [split]
    exact ⟨_, strtokR_token blank first.filled first.plain (.inl rfl)⟩

theorem ends_lines (others : ∀ line ∈ lines, Line line) (before tail : Bytes) (head : HttpHead) :
    ∃ saved, Loop.Ends headerLineRound (⟨before, unread tail lines⟩, head)
      ((applyLines head lines).1, saved, (applyLines head lines).2) := by
  induction lines generalizing before head with
  | nil =>
    have done : headerLineRound (⟨before, 0 :: tail⟩, head) = .inr (0, ⟨before, 0 :: tail⟩, head) := by
      rw [headerLineRound, strtokR_end]
    exact ⟨_, .last done⟩
  | cons line lines ih =>
    obtain ⟨first, more⟩ := List.forall_mem_cons.mp others
    have lineFeed : ∀ char ∈ [10], isCrlf char = true ∧ char ≠ 0 := List.forall_mem_singleton.mpr (by decide)
    obtain ⟨passed, token⟩ : ∃ passed, strtokR isCrlf ⟨before, unread tail (line :: lines)⟩ =
        (some line, ⟨passed, unread tail lines⟩) := strtokR_line first before tail lineFeed
    rw [applyLines]
    cases parsed : hmParseHeaderLine head line with
    | none =>
      have refused : headerLineRound (⟨before, unread tail (line :: lines)⟩, head) =
          .inr (-1, ⟨passed, unread tail lines⟩, head) := by
        simp only [headerLineRound, token, parsed]
      exact ⟨_, .last refused⟩
    | some filled =>
      have goesOn : headerLineRound (⟨before, unread tail (line :: lines)⟩, head) =
          .inl (⟨passed, unread tail lines⟩, filled) := by
        simp only [headerLineRound, token, parsed]
      obtain ⟨saved, ends⟩ := ih more passed filled
      exact ⟨saved, ends.before goesOn⟩

/-- A round shortens the string in memory, and what is left of it if the loop goes on. -/
theorem headerLineRound_inl {state following : Saved × HttpHead} (goesOn : headerLineRound state = .inl following) :
    following.1.rest.length < state.1.rest.length ∧ Shortened state.1.memory following.1.memory := by
  revert goesOn
  fun_cases headerLineRound state with
  | case3 saved head line passed found filled parsed =>
    intro goesOn
    obtain rfl := Sum.inl.inj goesOn
    have shortens := shortened_strtokR isCrlf saved
    have shorter : (strtokR isCrlf saved).2.rest.length < saved.rest.length :=
      length_strtokR_lt (congrArg Prod.fst found)
    rw [found] at shortens shorter
    exact ⟨shorter, shortens⟩
  | _ => exact fun goesOn => nomatch goesOn

theorem headerLineRound_inr {state : Saved × HttpHead} (leaves : headerLineRound state = .inr (code, next, last)) :
    Shortened state.1.memory next.memory := by
  revert leaves
  fun_cases headerLineRound state with
  | case1 saved head passed found =>
    intro leaves
    cases leaves
    have shortens := shortened_strtokR isCrlf saved
    rw [found] at shortens
    exact shortens
  | case2 saved head line passed found refused =>
    intro leaves
    cases leaves
    have shortens := shortened_strtokR isCrlf saved
    rw [found] at shortens
    exact shortens
  | case3 => exact fun leaves => nomatch leaves

theorem headerLines_isSome (saved : Saved) (head : HttpHead) :
    (Loop.run headerLineRound (saved.rest.length + 1) (saved, head)).isSome :=
  Loop.run_isSome (fun state => state.1.rest.length) (fun _ _ goesOn => (headerLineRound_inl goesOn).1) _
    (Nat.lt_succ_self _)

theorem shortened_lines (ends : Loop.Ends headerLineRound (saved, head) (code, next, last)) :
    Shortened saved.memory next.memory := by
  obtain ⟨final, reached, leaves⟩ := Loop.ends_iff.mp ends
  refine Shortened.trans ?_ (headerLineRound_inr leaves)
  clear leaves
  induction reached with
  | refl => exact .refl _
  | tail _ goesOn ih => exact ih.trans (headerLineRound_inl goesOn).2

end Rounds

section Messages

variable {sent : SentRequest} {sents : List SentHeader} {head : HttpHead}

theorem Word.scan {limit : Nat} {word : CString} (whole : Word limit word) {rest : Bytes}
    (stops : ∀ char ∈ rest.head?, Decimal.isSpace char = true) :
    scanWord (limit - 1) (word ++ rest) = some (word, rest) :=
  scanWord_word whole.filled (fun char held => (whole.plain char held).2) whole.fits stops

/-- The request line of a request is accepted. -/
theorem hmParseRequestLine_requestLine (sent : SentRequest) (head : HttpHead) :
    ∃ filled, hmParseRequestLine head sent.requestLine = some filled ∧ filled.headers = head.headers := by
  have method : scanWord 15 sent.requestLine = some (sent.method, 32 :: (sent.uri ++ 32 :: sent.version)) :=
    sent.methodWord.scan (by simp [Decimal.isSpace])
  have uri : scanWord 2047 (32 :: (sent.uri ++ 32 :: sent.version)) = some (sent.uri, 32 :: sent.version) := by
    rw [scanWord_space]
    exact sent.uriWord.scan (by simp [Decimal.isSpace])
  have version : scanWord 15 (32 :: sent.version) = some (sent.version, []) := by
    have whole : scanWord 15 (sent.version ++ []) = some (sent.version, []) := sent.versionWord.scan (by simp)
    rw [scanWord_space]
    rwa [List.append_nil] at whole
  simp only [hmParseRequestLine, method, uri, version, Option.bind_eq_bind, Option.bind_some]
  split
  · exact ⟨_, rfl, rfl⟩
  · exact ⟨_, rfl, rfl⟩

theorem noteHeader_headers (head : HttpHead) (h : HttpHeader) : (noteHeader head h).headers = head.headers := by
  simp only [noteHeader]
  split_ifs <;> rfl

/-- A header line is refused only for a host without a value, or for want of room. -/
theorem hmParseHeaderLine_line (header : SentHeader) (room : head.headers.length < HM_MAX_HEADERS) :
    header.EmptyHost ∧ hmParseHeaderLine head header.line = none ∨
      ¬header.EmptyHost ∧ ∃ filled, hmParseHeaderLine head header.line = some filled ∧
        filled.headers.length = head.headers.length + 1 := by
  have colon : header.line.findIdx? (· = 58) = some header.name.length := by
    have absent : header.name.findIdx? (· = 58) = none := by
      rw [List.findIdx?_eq_none_iff]
      exact fun char held => by simpa using (header.namePlain char held).2.1
    rw [SentHeader.line, List.findIdx?_append, absent]
    simp [List.findIdx?_cons]
  have value : header.line.drop (header.name.length + 1) = header.value := by
    simp [SentHeader.line, List.drop_append]
  have name : header.line.take (min header.name.length (HM_MAX_HEADER_LEN - 1)) = header.name := by
    rw [Nat.min_eq_left header.nameFits, SentHeader.line, List.take_left]
  have stored : (CharArray.store HM_MAX_HEADER_LEN header.name).text = header.name :=
    CharArray.text_store header.nameFits fun zero => (header.namePlain 0 zero).1 rfl
  simp only [hmParseHeaderLine, colon, value, name, stored, ge_iff_le, if_neg (Nat.not_le_of_lt room)]
  by_cases empty : header.EmptyHost
  · exact .inl ⟨empty, if_pos empty⟩
  · refine .inr ⟨empty, _, if_neg empty, ?_⟩
    rw [List.length_append, List.length_singleton, noteHeader_headers]

theorem applyLines_lt_zero_iff (room : head.headers.length + sents.length ≤ HM_MAX_HEADERS) :
    (applyLines head (sents.map SentHeader.line)).1 < 0 ↔ ∃ header ∈ sents, header.EmptyHost := by
  induction sents generalizing head with
  | nil => simp [applyLines]
  | cons header sents ih =>
    rw [List.length_cons] at room
    rw [List.map_cons, applyLines]
    have vacant : head.headers.length < HM_MAX_HEADERS := by omega
    rcases hmParseHeaderLine_line header vacant with ⟨empty, refused⟩ | ⟨named, filled, accepted, more⟩
    · rw [refused]
      simp [empty]
    · rw [accepted]
      have rest : filled.headers.length + sents.length ≤ HM_MAX_HEADERS := by omega
      simp only [ih rest, List.exists_mem_cons_iff, named, false_or]

end Messages

section Calls

variable {sent : SentRequest} {req : HttpRequest} {data rest more raw : Bytes} {filled : HttpHead} {pieces : List Bytes}

/-- The string in the raw buffer has been ended before its blank line. -/
structure Spent (raw : Bytes) : Prop where
  ended : (cString raw).length < raw.length
  idle : strstr (crlf ++ crlf) (cString raw) = none

theorem Spent.append (spent : Spent raw) (more : Bytes) : strstr (crlf ++ crlf) (cString (raw ++ more)) = none := by
  have same : cString (raw ++ more) = cString raw := by
    rw [cString, List.takeWhile_append]
    exact if_neg (Nat.ne_of_lt spent.ended)
  rw [same]
  exact spent.idle

/-- Memory in which the blank line was replaced, and then some bytes before it. -/
theorem spent_of_shortened {memory : Bytes} (sent : SentRequest) (tail : Bytes)
    (shorter : Shortened (sent.head ++ 0 :: tail) memory) : Spent memory where
  ended := by
    have string := shorter.1.length_le
    rw [cString_append_zero, cString_eq (head_plain sent)] at string
    rw [shorter.2, List.length_append, List.length_cons]
    omega
  idle := by
    cases found : strstr (crlf ++ crlf) (cString memory) with
    | none => rfl
    | some index =>
      have inside := strstr_inside found
      have string := shorter.1
      rw [cString_append_zero, cString_eq (head_plain sent)] at string
      have room := string.length_le
      obtain ⟨between, same⟩ := string
      have first := strstr_append (by decide) found (between ++ (crlf ++ crlf))
      rw [← List.append_assoc, same] at first
      have whole := strstr_headed sent []
      rw [List.append_nil, cString_eq (headed_plain sent), SentRequest.headed, first] at whole
      obtain rfl := Option.some.inj whole
      rw [List.length_append] at inside
      exact absurd inside (by simp [crlf]; omega)

/-- Nothing is parsed as long as no blank line is found. -/
theorem hmParseRequest_idle (nonempty : data ≠ []) (small : (req.raw ++ data).length < HM_MAX_BODY)
    (idle : strstr (crlf ++ crlf) (cString (req.raw ++ data)) = none) :
    hmParseRequest req data = some (0, { req with raw := req.raw ++ data }) := by
  rw [List.length_append] at small
  have copied : data.take (HM_MAX_BODY - req.raw.length) = data := List.take_of_length_le (by omega)
  have room : ¬(req.raw ++ data).length ≥ HM_MAX_BODY := by
    rw [List.length_append]
    omega
  rw [hmParseRequest, if_neg nonempty]
  simp only [copied, idle, if_neg room]

theorem feed_idle (nonempty : ∀ piece ∈ pieces, piece ≠ [])
    (small : (req.raw ++ pieces.flatten).length < HM_MAX_BODY)
    (idle : ∀ more, more <+: pieces.flatten → strstr (crlf ++ crlf) (cString (req.raw ++ more)) = none) :
    feed req pieces = some { req with raw := req.raw ++ pieces.flatten } := by
  induction pieces generalizing req with
  | nil => simp [feed]
  | cons piece pieces ih =>
    obtain ⟨first, others⟩ := List.forall_mem_cons.mp nonempty
    rw [List.flatten_cons, ← List.append_assoc] at small ⊢
    have here := idle piece (List.prefix_append piece pieces.flatten)
    have onward (more : Bytes) (begins : more <+: pieces.flatten) :
        strstr (crlf ++ crlf) (cString ((req.raw ++ piece) ++ more)) = none := by
      rw [List.append_assoc]
      exact idle (piece ++ more) ((List.prefix_append_right_inj piece).mpr begins)
    have short : (req.raw ++ piece).length < HM_MAX_BODY :=
      Nat.lt_of_le_of_lt (List.prefix_append _ pieces.flatten).length_le small
    rw [feed, hmParseRequest_idle first short here, Option.bind_some]
    exact ih others small onward

/-- With the blank line the message is parsed, whatever follows. -/
theorem hmParseRequest_parses (line : hmParseRequestLine req.toHttpHead sent.requestLine = some filled)
    (nonempty : data ≠ []) (held : req.raw ++ data = sent.headed ++ rest)
    (small : (req.raw ++ data).length < HM_MAX_BODY) :
    ∃ code result, hmParseRequest req data = some (code, result) ∧
      result.toHttpHead = (applyLines filled (sent.headers.map SentHeader.line)).2 ∧
      Spent result.raw ∧ result.raw.length = (req.raw ++ data).length ∧
      if (applyLines filled (sent.headers.map SentHeader.line)).1 < 0 then
        result.body = req.body ∧ result.parseState = .error
      else result.parseState = .complete := by
  have size := small
  rw [List.length_append] at size
  have copied : data.take (HM_MAX_BODY - req.raw.length) = data := List.take_of_length_le (by omega)
  have found := strstr_headed sent rest
  rw [← held] at found
  have cut : (req.raw ++ data).set sent.head.length 0 = sent.head ++ 0 :: (10 :: 13 :: 10 :: rest) := by
    rw [held, SentRequest.headed, List.append_assoc, List.set_append_right _ _ (Nat.le_refl _), Nat.sub_self]
    rfl
  have nothing : ∀ char ∈ ([] : Bytes), isCrlf char = true ∧ char ≠ 0 := by simp
  obtain ⟨passed, token⟩ : ∃ passed, strtokR isCrlf ⟨[], sent.head ++ 0 :: (10 :: 13 :: 10 :: rest)⟩ =
      (some sent.requestLine, ⟨passed, unread (10 :: 13 :: 10 :: rest) (sent.headers.map SentHeader.line)⟩) :=
    strtokR_line (requestLine_line sent) [] _ nothing
  have shortens := shortened_strtokR isCrlf ⟨[], sent.head ++ 0 :: (10 :: 13 :: 10 :: rest)⟩
  rw [token] at shortens
  obtain ⟨saved, ends⟩ := ends_lines (headerLines_line sent) passed (10 :: 13 :: 10 :: rest) filled
  have shorter := shortens.trans (shortened_lines ends)
  have ran := ends.run_eq (headerLines_isSome _ _)
  have spent := spent_of_shortened sent _ shorter
  have length : saved.memory.length = (req.raw ++ data).length :=
    shorter.2.trans ((congrArg List.length cut).symm.trans List.length_set)
  rw [hmParseRequest, if_neg nonempty]
  simp only [copied, found, cut, token, line, ran, Option.map_some]
  split
  · rename_i refused
    exact ⟨_, _, rfl, rfl, spent, length, rfl, rfl⟩
  · split
    · exact ⟨_, _, rfl, rfl, spent, length, rfl⟩
    · exact ⟨_, _, rfl, rfl, spent, length, rfl⟩

/-- What the buffer holds may as well come with the last piece. -/
theorem hmParseRequest_whole (empty : req.raw = []) (nonempty : data ≠ [])
    (small : (raw ++ data).length < HM_MAX_BODY) :
    hmParseRequest { req with raw } data = hmParseRequest req (raw ++ data) := by
  have all : raw ++ data ≠ [] := fun none => nonempty (List.append_eq_nil_iff.mp none).2
  have size := small
  rw [List.length_append] at size
  have copied : data.take (HM_MAX_BODY - raw.length) = data := List.take_of_length_le (by omega)
  have copiedAll : (raw ++ data).take (HM_MAX_BODY - ([] : Bytes).length) = raw ++ data :=
    List.take_of_length_le (Nat.le_of_lt small)
  rw [hmParseRequest, if_neg nonempty, hmParseRequest, if_neg all]
  simp only [copied, copiedAll, empty, List.nil_append]

theorem feed_append (req : HttpRequest) (first second : List Bytes) :
    feed req (first ++ second) = (feed req first).bind fun req => feed req second := by
  induction first generalizing req with
  | nil => rfl
  | cons piece pieces ih =>
    rw [List.cons_append, feed, feed, Option.bind_assoc]
    congr 1
    funext result
    exact ih result.2

end Calls

section Fragments

variable {sent : SentRequest} {pieces : List Bytes}

/-- The piece with which so many bytes have come. -/
theorem exists_piece {count : Nat} (positive : 0 < count) (reached : count ≤ pieces.flatten.length) :
    ∃ before piece after, pieces = before ++ piece :: after ∧ before.flatten.length < count ∧
      count ≤ (before.flatten ++ piece).length := by
  induction pieces generalizing count with
  | nil => exact absurd (Nat.lt_of_lt_of_le positive reached) (Nat.lt_irrefl 0)
  | cons piece pieces ih =>
    by_cases here : count ≤ piece.length
    · exact ⟨[], piece, pieces, rfl, positive, here⟩
    · have rest : count - piece.length ≤ pieces.flatten.length := by
        rw [List.flatten_cons, List.length_append] at reached
        omega
      obtain ⟨before, next, after, rfl, short, long⟩ := ih (by omega) rest
      refine ⟨piece :: before, next, after, rfl, ?_, ?_⟩
      · rw [List.flatten_cons, List.length_append]
        omega
      · rw [List.length_append] at long
        rw [List.flatten_cons, List.length_append, List.length_append]
        omega

/-- Before the blank line is whole, the pieces are only collected. -/
theorem feed_headed (nonempty : ∀ piece ∈ pieces, piece ≠ []) (small : sent.text.length < HM_MAX_BODY)
    (begins : pieces.flatten <+: sent.text) (short : pieces.flatten.length < sent.headed.length) :
    feed hmRequestInit pieces = some { hmRequestInit with raw := pieces.flatten } := by
  refine feed_idle nonempty (Nat.lt_of_le_of_lt begins.length_le small) ?_
  intro more initial
  have within : more <+: sent.headed := by
    refine List.prefix_of_prefix_length_le (initial.trans begins) (List.prefix_append _ _) ?_
    exact Nat.le_trans initial.length_le (Nat.le_of_lt short)
  exact strstr_cut within (Nat.lt_of_le_of_lt initial.length_le short)

theorem waits_of_prefix {before earlier : List Bytes} (nonempty : ∀ piece ∈ before, piece ≠ [])
    (small : sent.text.length < HM_MAX_BODY) (begins : before.flatten <+: sent.text)
    (short : before.flatten.length < sent.headed.length) (within : earlier <+: before) :
    ∀ req ∈ feed hmRequestInit earlier, req.parseState ≠ .complete := by
  have shorter := within.flatten
  intro req fed
  rw [feed_headed (fun part held => nonempty part (within.subset held)) small (shorter.trans begins)
    (Nat.lt_of_le_of_lt shorter.length_le short)] at fed
  cases fed
  change HttpParseState.startLine ≠ .complete
  decide

/-- The whole request in one call. -/
theorem feed_text (small : sent.text.length < HM_MAX_BODY) {filled : HttpHead}
    (line : hmParseRequestLine hmRequestInit.toHttpHead sent.requestLine = some filled) :
    ∃ code whole, hmParseRequest hmRequestInit sent.text = some (code, whole) ∧
      feed hmRequestInit [sent.text] = some whole ∧
      whole.toHttpHead = (applyLines filled (sent.headers.map SentHeader.line)).2 ∧
      ((applyLines filled (sent.headers.map SentHeader.line)).1 < 0 → whole.body = []) := by
  have nonempty : sent.text ≠ [] := by simp [SentRequest.text, SentRequest.headed, crlf]
  obtain ⟨code, whole, parsed, head, -, -, outcome⟩ := hmParseRequest_parses line nonempty rfl small
  refine ⟨code, whole, parsed, by rw [feed, parsed]; rfl, head, ?_⟩
  intro refused
  rw [if_pos refused] at outcome
  exact outcome.1

/-- The blank line comes with the last piece. -/
theorem fedAlike_of_headed {before : List Bytes} {piece : Bytes} (nonempty : ∀ part ∈ before ++ [piece], part ≠ [])
    (small : sent.text.length < HM_MAX_BODY) (whole : (before ++ [piece]).flatten = sent.text)
    (short : before.flatten.length < sent.headed.length) : sent.FedAlike (before ++ [piece]) := by
  obtain ⟨filled, line, -⟩ := hmParseRequestLine_requestLine sent hmRequestInit.toHttpHead
  obtain ⟨code, result, parsed, once, -⟩ := feed_text small line
  obtain ⟨earliers, last⟩ := List.forall_mem_append.mp nonempty
  have text : before.flatten ++ piece = sent.text := by simpa using whole
  have begins : before.flatten <+: sent.text := text ▸ List.prefix_append _ _
  have same : hmParseRequest { hmRequestInit with raw := before.flatten } piece = some (code, result) := by
    rw [hmParseRequest_whole rfl (last piece (List.mem_singleton_self _)) (text ▸ small), text, parsed]
  refine ⟨result, result, once, ?_, ⟨rfl, rfl, rfl, rfl, rfl⟩, ?_⟩
  · rw [feed_append, feed_headed earliers small begins short, Option.bind_some, feed, same]
    rfl
  · intro earlier initial other
    exact waits_of_prefix earliers small begins short ((List.prefix_concat_iff.mp initial).resolve_left other)

/-- The blank line comes before the last piece. -/
theorem fedAlike_iff_of_reached {before after : List Bytes} {piece : Bytes}
    (nonempty : ∀ part ∈ before ++ piece :: after, part ≠ []) (more : after ≠ [])
    (small : sent.text.length < HM_MAX_BODY) (whole : (before ++ piece :: after).flatten = sent.text)
    (short : before.flatten.length < sent.headed.length)
    (reached : sent.headed.length ≤ (before.flatten ++ piece).length) :
    sent.FedAlike (before ++ piece :: after) ↔ ∃ header ∈ sent.headers, header.EmptyHost := by
  obtain ⟨filled, line, none⟩ := hmParseRequestLine_requestLine sent hmRequestInit.toHttpHead
  obtain ⟨earliers, laters⟩ := List.forall_mem_append.mp nonempty
  obtain ⟨here, laters⟩ := List.forall_mem_cons.mp laters
  have text : (before.flatten ++ piece) ++ after.flatten = sent.text := by simpa using whole
  have begins : before.flatten <+: sent.text := ⟨piece ++ after.flatten, by rw [← text, List.append_assoc]⟩
  obtain ⟨rest, held⟩ : sent.headed <+: before.flatten ++ piece :=
    List.prefix_of_prefix_length_le (List.prefix_append _ _) ⟨after.flatten, text⟩ reached
  have fits : (before.flatten ++ piece).length < HM_MAX_BODY :=
    Nat.lt_of_le_of_lt (List.IsPrefix.length_le ⟨after.flatten, text⟩) small
  obtain ⟨code, result, parsed, head, spent, length, outcome⟩ :=
    @hmParseRequest_parses sent { hmRequestInit with raw := before.flatten } _ _ _ line here held.symm fits
  have collected := feed_headed earliers small begins short
  have onward (later : List Bytes) (initial : later <+: after) : feed hmRequestInit (before ++ piece :: later) =
      some { result with raw := result.raw ++ later.flatten } := by
    rw [feed_append, collected, Option.bind_some, feed, parsed, Option.bind_some]
    refine feed_idle (fun part held => laters part (initial.subset held)) ?_ fun more _ => spent.append more
    have total := congrArg List.length text
    have part := initial.flatten.length_le
    rw [List.length_append] at total
    rw [List.length_append, length]
    exact Nat.lt_of_le_of_lt (Nat.add_le_add_left part _) (total ▸ small)
  have room : filled.headers.length + sent.headers.length ≤ HM_MAX_HEADERS := by
    rw [none]
    exact (Nat.zero_add _).trans_le sent.headersFit
  rw [← applyLines_lt_zero_iff room]
  constructor
  · intro ⟨_, _, _, _, _, never⟩
    by_contra accepted
    rw [if_neg accepted] at outcome
    have early : before ++ [piece] <+: before ++ piece :: after := ⟨after, by simp⟩
    have proper : before ++ [piece] ≠ before ++ piece :: after := by simpa using more.symm
    exact never _ early proper _ (onward [] List.nil_prefix) outcome
  · intro refused
    rw [if_pos refused] at outcome
    obtain ⟨_, result', _, once, head', empty⟩ := feed_text small line
    have same : result.toHttpHead = result'.toHttpHead := head.trans head'.symm
    refine ⟨result', _, once, onward after (List.prefix_refl _), ?_, ?_⟩
    · exact ⟨congrArg HttpHead.method same, congrArg HttpHead.uri same, congrArg HttpHead.version same,
        congrArg HttpHead.headers same, outcome.1.trans (empty refused).symm⟩
    · intro earlier initial _
      rcases List.prefix_or_prefix_of_prefix initial (List.prefix_append before _) with within | ⟨later, rfl⟩
      · exact waits_of_prefix earliers small begins short within
      · cases later with
        | nil =>
          rw [List.append_nil]
          exact waits_of_prefix earliers small begins short (List.prefix_refl _)
        | cons first later =>
          obtain ⟨rfl, within⟩ := List.cons_prefix_cons.mp ((List.prefix_append_right_inj before).mp initial)
          intro req fed
          rw [onward later within] at fed
          cases fed
          change result.parseState ≠ .complete
          rw [outcome.2]
          decide

/-- For every request and every way to split it: the message does not depend on the pieces exactly if all pieces but the
last end before the blank line does, or a host without a value is refused. -/
theorem hmParseRequest_fedAlike_iff (sent : SentRequest) (nonempty : ∀ piece ∈ pieces, piece ≠ [])
    (small : sent.text.length < HM_MAX_BODY) (whole : pieces.flatten = sent.text) :
    sent.FedAlike pieces ↔ pieces.dropLast.flatten.length < sent.headed.length ∨
      ∃ header ∈ sent.headers, header.EmptyHost := by
  have headed : 0 < sent.headed.length := by simp [SentRequest.headed, crlf]
  have filled : pieces ≠ [] := by
    rintro rfl
    have none := congrArg List.length whole
    rw [SentRequest.text, List.length_append, List.flatten_nil, List.length_nil] at none
    omega
  obtain ⟨earlier, last, rfl⟩ : ∃ earlier last, pieces = earlier ++ [last] :=
    ⟨_, _, (List.dropLast_concat_getLast filled).symm⟩
  rw [List.dropLast_concat]
  by_cases short : earlier.flatten.length < sent.headed.length
  · exact ⟨fun _ => .inl short, fun _ => fedAlike_of_headed nonempty small whole short⟩
  · obtain ⟨before, piece, after, rfl, few, reached⟩ := exists_piece headed (Nat.le_of_not_lt short)
    rw [List.append_assoc, List.cons_append] at nonempty whole ⊢
    rw [fedAlike_iff_of_reached nonempty (by simp) small whole few reached]
    exact ⟨.inr, fun either => either.resolve_left short⟩

/-- `Content-Length: 2`. -/
def lengthTwo : SentHeader where
  name := ascii "Content-Length"
  value := ascii " 2"
  named := by decide
  nameFits := by decide
  namePlain := List.all_iff_forall_prop.mp (by decide)
  valueFits := by decide
  valuePlain := List.all_iff_forall_prop.mp (by decide)

/-- A request with two bytes of body. -/
def twoByteRequest : SentRequest where
  method := ascii "POST"
  uri := ascii "/"
  version := ascii "HTTP/1.1"
  headers := [lengthTwo]
  body := ascii "ab"
  methodWord := ⟨by decide, by decide, List.all_iff_forall_prop.mp (by decide)⟩
  uriWord := ⟨by decide, by decide, List.all_iff_forall_prop.mp (by decide)⟩
  versionWord := ⟨by decide, by decide, List.all_iff_forall_prop.mp (by decide)⟩
  headersFit := by decide

theorem hmParseRequest_fedAlike_twoBytes :
    twoByteRequest.FedAlike [ascii "POST", twoByteRequest.text.drop 4] ↔
      [ascii "POST", twoByteRequest.text.drop 4].dropLast.flatten.length < twoByteRequest.headed.length ∨
        ∃ header ∈ twoByteRequest.headers, header.EmptyHost :=
  hmParseRequest_fedAlike_iff twoByteRequest (by decide) (by decide) (by decide)

/-- The request is complete with the first byte of its body, and the second one is lost. -/
theorem hmParseRequest_cuts_body :
    [twoByteRequest.headed ++ ascii "a", ascii "b"].flatten = twoByteRequest.text ∧
      ¬twoByteRequest.FedAlike [twoByteRequest.headed ++ ascii "a", ascii "b"] := by
  have reached : twoByteRequest.FedAlike ([] ++ (twoByteRequest.headed ++ ascii "a") :: [ascii "b"]) ↔
      ∃ header ∈ twoByteRequest.headers, header.EmptyHost :=
    fedAlike_iff_of_reached (by decide) (by decide) (by decide) (by decide) (by decide) (by decide)
  refine ⟨by decide, fun alike => ?_⟩
  obtain ⟨header, held, host⟩ := reached.mp alike
  obtain rfl := List.mem_singleton.mp held
  exact absurd host.1 (by decide)

end Fragments

end MiniNetDist.GatewayProxy.HttpParse
