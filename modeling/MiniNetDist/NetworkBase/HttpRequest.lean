import Mathlib.Data.Bool.AllAny
import MiniNetDist.Library.Loop
import MiniNetDist.Library.Tokens

/-! The request parser of `mini-network-base/src/http_basic.c`. The helper that skips the end of a line skips the blank
line behind the headers as well, and with it the mark at which the headers end. -/

namespace MiniNetDist.NetworkBase.HttpBasic

open Library Library.Tokens

def HTTP_MAX_URI : Nat := 2048
def HTTP_MAX_HEADERS : Nat := 16
def HTTP_MAX_KEY_LEN : Nat := 128
def HTTP_MAX_VALUE_LEN : Nat := 1024
def HTTP_MAX_BODY : Nat := 65536
def HTTP_VERSION_LEN : Nat := 16
def HTTP_MAX_METHOD_LEN : Nat := 16

inductive HTTPMethod where
  | get
  | post
  | put
  | delete
  | head
  | options
  | patch
  deriving DecidableEq, Repr

structure HTTPHeader where
  key : CString
  value : CString
  deriving DecidableEq, Repr

structure HTTPRequest where
  method : HTTPMethod
  uri : CString
  version : CString
  headers : List HTTPHeader
  body : Bytes
  hasBody : Bool
  deriving DecidableEq, Repr

def strCaseCmp : CString → CString → Int
  | a :: as, b :: bs =>
    let ca := (tolower a).toNat
    let cb := (tolower b).toNat
    if ca ≠ cb then ca - cb else strCaseCmp as bs
  | as, bs => (tolower (as.headD 0)).toNat - (tolower (bs.headD 0)).toNat

def httpMethodFromStr (str : CString) : HTTPMethod :=
  if str = ascii "GET" then .get
  else if str = ascii "POST" then .post
  else if str = ascii "PUT" then .put
  else if str = ascii "DELETE" then .delete
  else if str = ascii "HEAD" then .head
  else if str = ascii "OPTIONS" then .options
  else if str = ascii "PATCH" then .patch
  else .get

def httpGetHeader (headers : List HTTPHeader) (key : CString) : Option CString :=
  (headers.find? fun header => strCaseCmp header.key key = 0).map (·.value)

def isCrlf (char : UInt8) : Bool := char = 13 || char = 10

def skipCrlf (rest : Bytes) : Bytes := rest.dropWhile isCrlf

/-- The bytes before a stop that fit a field of `size` characters, and what follows them. -/
def copyField (stop : UInt8 → Bool) (size : Nat) (rest : Bytes) : Bytes × Bytes :=
  let field := (rest.takeWhile fun char => !stop char).take (size - 1)
  (field, rest.drop field.length)

/-- One byte is skipped if it is this one. -/
def skipOne (char : UInt8) (rest : Bytes) : Bytes := if rest.head? = some char then rest.tail else rest

/-- The method, the URI and the version, with what follows their line. -/
def parseRequestLine (data : Bytes) : (HTTPMethod × CString × CString) × Bytes :=
  let (methodStr, rest) := copyField (· = 32) HTTP_MAX_METHOD_LEN data
  let (uri, rest) := copyField (· = 32) HTTP_MAX_URI (skipOne 32 rest)
  let (version, rest) := copyField isCrlf HTTP_VERSION_LEN (skipOne 32 rest)
  ((httpMethodFromStr (cString methodStr), cString uri, cString version), skipCrlf rest)

/-- A line that is taken for a header, with what follows it. -/
def parseHeaderLine (rest : Bytes) : HTTPHeader × Bytes :=
  let (key, rest) := copyField (· = 58) HTTP_MAX_KEY_LEN rest
  let (value, rest) := copyField isCrlf HTTP_MAX_VALUE_LEN ((skipOne 58 rest).dropWhile (· = 32))
  (⟨cString key, cString value⟩, skipCrlf rest)

/-- The body of the loop of `parse_header_lines`; the state is the data from `pos` on with the headers so far. -/
def headerRound (maxHeaders : Nat) (state : Bytes × List HTTPHeader) :
    (Bytes × List HTTPHeader) ⊕ (Bytes × List HTTPHeader) :=
  let (rest, headers) := state
  if rest = [] then .inr (rest, headers)
  else if rest.take 2 = [13, 10] then .inr (rest.drop 2, headers)
  else if rest.head? = some 10 then .inr (rest.drop 1, headers)
  else if headers.length ≥ maxHeaders then .inr (rest, headers)
  else
    let (header, rest) := parseHeaderLine rest
    .inl (rest, headers ++ [header])

def parseHeaderLines (maxHeaders : Nat) (data : Bytes) : Option (Bytes × List HTTPHeader) :=
  Loop.run (headerRound maxHeaders) (data.length + 1) (data, [])

/-- `atoi`, by way of `strtol`. -/
def atoi (text : CString) : BitVec 32 := (Decimal.atoll text).setWidth 32

/-- The body after the headers, if there are as many bytes as the length says. -/
def copyBody (headers : List HTTPHeader) (rest : Bytes) : Option Bytes :=
  match httpGetHeader headers (ascii "Content-Length") with
  | none => none
  | some cl =>
    let bodyLen := ((atoi cl).signExtend 64).toNat
    if bodyLen ≤ rest.length ∧ bodyLen < HTTP_MAX_BODY then some (rest.take bodyLen) else none

/-- The return value, or the request for the value 0. -/
def httpParseRequest (data : Bytes) : Option (Except Int HTTPRequest) :=
  if data = [] then some (.error (-2))
  else
    let ((method, uri, version), rest) := parseRequestLine data
    (parseHeaderLines HTTP_MAX_HEADERS rest).map fun (rest, headers) =>
      let body := copyBody headers rest
      .ok ⟨method, uri, version, headers, body.getD [], body.isSome⟩

/-- A header as it is sent, with blanks before the value. -/
structure SentHeader where
  key : CString
  gap : Nat
  value : CString
  named : key ≠ []
  keyFits : key.length ≤ HTTP_MAX_KEY_LEN - 1
  keyPlain : ∀ char ∈ key, char ≠ 0 ∧ char ≠ 58 ∧ isCrlf char = false
  valueFits : value.length ≤ HTTP_MAX_VALUE_LEN - 1
  valuePlain : ∀ char ∈ value, char ≠ 0 ∧ isCrlf char = false
  trimmed : ∀ char ∈ value.head?, char ≠ 32

def SentHeader.header (sent : SentHeader) : HTTPHeader := ⟨sent.key, sent.value⟩

def SentHeader.line (sent : SentHeader) : Bytes :=
  sent.key ++ 58 :: (List.replicate sent.gap 32 ++ (sent.value ++ [13, 10]))

def SentHeader.IsContentLength (sent : SentHeader) : Prop := strCaseCmp sent.key (ascii "Content-Length") = 0
  deriving Decidable

/-- The value is a numeral for the number. -/
def SentHeader.Counts (sent : SentHeader) (count : Nat) : Prop :=
  sent.value ≠ [] ∧ (∀ char ∈ sent.value, Decimal.isDigit char = true) ∧ Decimal.ofDigits sent.value = count

/-- A request as it is sent. -/
structure SentRequest where
  method : CString
  uri : CString
  version : CString
  headers : List SentHeader
  body : Bytes
  methodFits : method.length ≤ HTTP_MAX_METHOD_LEN - 1
  methodPlain : 32 ∉ method
  uriFits : uri.length ≤ HTTP_MAX_URI - 1
  uriPlain : 32 ∉ uri
  versionFits : version.length ≤ HTTP_VERSION_LEN - 1
  versionPlain : ∀ char ∈ version, isCrlf char = false
  headersFit : headers.length ≤ HTTP_MAX_HEADERS
  counted : ∃ sent ∈ headers, sent.IsContentLength
  counts : ∀ sent ∈ headers, sent.IsContentLength → sent.Counts body.length
  bodyFits : body.length < HTTP_MAX_BODY

def SentRequest.text (sent : SentRequest) : Bytes :=
  sent.method ++ 32 :: (sent.uri ++ 32 :: (sent.version ++ 13 :: 10 ::
    (sent.headers.flatMap SentHeader.line ++ 13 :: 10 :: sent.body)))

/-- The parser returns the headers in order and the body. -/
def SentRequest.Recovered (sent : SentRequest) : Prop :=
  ∃ req, httpParseRequest sent.text = some (.ok req) ∧ req.headers = sent.headers.map SentHeader.header ∧
    req.hasBody = true ∧ req.body = sent.body

section Fields

variable {stop : UInt8 → Bool} {size : Nat} {field rest : Bytes} {state next : Bytes × List HTTPHeader}

theorem copyField_fits (plain : ∀ char ∈ field, stop char = false) (fits : field.length ≤ size - 1)
    (stops : ∀ char ∈ rest.head?, stop char = true) : copyField stop size (field ++ rest) = (field, rest) := by
  have ended : rest.takeWhile (fun char => !stop char) = [] := by
    cases rest with
    | nil => rfl
    | cons char rest => simp [stops char rfl]
  have whole : (field ++ rest).takeWhile (fun char => !stop char) = field := by
    rw [List.takeWhile_append_of_pos (by simpa using plain), ended, List.append_nil]
  rw [copyField, whole, List.take_of_length_le fits, List.drop_left]

theorem skipCrlf_of_plain (plain : ∀ char ∈ rest.head?, isCrlf char = false) : skipCrlf rest = rest := by
  cases rest with
  | nil => rfl
  | cons char rest => exact List.dropWhile_cons_of_neg (by simp [plain char rfl])

theorem length_skipCrlf_le (rest : Bytes) : (skipCrlf rest).length ≤ rest.length :=
  (List.dropWhile_suffix _).length_le

theorem length_copyField_le (stop : UInt8 → Bool) (size : Nat) (rest : Bytes) :
    (copyField stop size rest).2.length ≤ rest.length := by
  rw [copyField, List.length_drop]
  exact Nat.sub_le _ _

theorem skipOne_cons (char : UInt8) (rest : Bytes) : skipOne char (char :: rest) = rest := if_pos rfl

theorem length_skipOne_le (char : UInt8) (rest : Bytes) : (skipOne char rest).length ≤ rest.length := by
  unfold skipOne
  split <;> simp

/-- A header line has at least one byte. -/
theorem length_parseHeaderLine_lt (filled : rest ≠ []) : (parseHeaderLine rest).2.length < rest.length := by
  have key : (skipOne 58 (copyField (· = 58) HTTP_MAX_KEY_LEN rest).2).length < rest.length := by
    obtain ⟨first, more, rfl⟩ := List.exists_cons_of_ne_nil filled
    by_cases colon : first = 58
    · rw [colon]
      exact Nat.lt_succ_self _
    · refine Nat.lt_of_le_of_lt (length_skipOne_le _ _) ?_
      rw [copyField, List.takeWhile_cons_of_pos (by simpa using colon)]
      simp only [HTTP_MAX_KEY_LEN, Nat.add_one_sub_one, List.take_succ_cons, List.length_cons, List.length_take,
        List.drop_succ_cons, List.length_drop]
      exact Nat.lt_succ_of_le (Nat.sub_le _ _)
  calc (parseHeaderLine rest).2.length
    _ ≤ (copyField isCrlf HTTP_MAX_VALUE_LEN _).2.length := length_skipCrlf_le _
    _ ≤ ((skipOne 58 (copyField (· = 58) HTTP_MAX_KEY_LEN rest).2).dropWhile (· = 32)).length := length_copyField_le ..
    _ ≤ (skipOne 58 (copyField (· = 58) HTTP_MAX_KEY_LEN rest).2).length := (List.dropWhile_suffix _).length_le
    _ < rest.length := key

theorem headerRound_progress {maxHeaders : Nat} (goesOn : headerRound maxHeaders state = .inl next) :
    next.1.length < state.1.length ∧ ∃ header, next.2 = state.2 ++ [header] := by
  obtain ⟨rest, headers⟩ := state
  revert goesOn
  rw [headerRound]
  split_ifs with ended crlf lf full
  · exact fun goesOn => nomatch goesOn
  · exact fun goesOn => nomatch goesOn
  · exact fun goesOn => nomatch goesOn
  · exact fun goesOn => nomatch goesOn
  · intro goesOn
    obtain rfl := Sum.inl.inj goesOn
    exact ⟨length_parseHeaderLine_lt ended, _, rfl⟩

theorem headerRound_end {maxHeaders : Nat} {result : Bytes × List HTTPHeader}
    (leaves : headerRound maxHeaders state = .inr result) : result.2 = state.2 := by
  obtain ⟨rest, headers⟩ := state
  revert leaves
  rw [headerRound]
  split_ifs with ended crlf lf full
  · exact fun leaves => (Sum.inr.inj leaves) ▸ rfl
  · exact fun leaves => (Sum.inr.inj leaves) ▸ rfl
  · exact fun leaves => (Sum.inr.inj leaves) ▸ rfl
  · exact fun leaves => (Sum.inr.inj leaves) ▸ rfl
  · exact fun leaves => nomatch leaves

theorem headerRun_isSome (maxHeaders : Nat) (state : Bytes × List HTTPHeader) :
    (Loop.run (headerRound maxHeaders) (state.1.length + 1) state).isSome :=
  Loop.run_isSome (fun state => state.1.length) (fun _ _ goesOn => (headerRound_progress goesOn).1) _
    (Nat.lt_succ_self _)

/-- Headers that were found stay. -/
theorem headers_grow {maxHeaders : Nat} {result : Bytes × List HTTPHeader}
    (ends : Loop.Ends (headerRound maxHeaders) state result) : state.2 <+: result.2 := by
  obtain ⟨last, reached, leaves⟩ := Loop.ends_iff.mp ends
  rw [headerRound_end leaves]
  clear leaves
  induction reached with
  | refl => exact List.prefix_refl _
  | tail _ goesOn ih =>
    obtain ⟨header, added⟩ := (headerRound_progress goesOn).2
    exact ih.trans ⟨[header], added.symm⟩

/-- What does not begin with a line end is taken for a header as long as there is room. -/
theorem headerRound_plain {first : UInt8} (plain : isCrlf first = false) (maxHeaders : Nat) (more : Bytes)
    (headers : List HTTPHeader) :
    headerRound maxHeaders (first :: more, headers) =
      if headers.length ≥ maxHeaders then .inr (first :: more, headers)
      else .inl ((parseHeaderLine (first :: more)).2, headers ++ [(parseHeaderLine (first :: more)).1]) := by
  simp only [isCrlf, Bool.or_eq_false_iff, decide_eq_false_iff_not] at plain
  have notEnd : (first :: more).take 2 ≠ [13, 10] := fun ended => plain.1 (List.cons.inj ended).1
  have notFeed : (first :: more).head? ≠ some 10 := fun ended => plain.2 (Option.some.inj ended)
  rw [headerRound]
  dsimp only
  rw [if_neg (List.cons_ne_nil _ _), if_neg notEnd, if_neg notFeed]

end Fields

section Lines

variable {sent : SentHeader} {sents : List SentHeader} {rest : Bytes}

theorem cString_key (sent : SentHeader) : cString sent.key = sent.key :=
  cString_eq fun zero => (sent.keyPlain 0 zero).1 rfl

theorem cString_value (sent : SentHeader) : cString sent.value = sent.value :=
  cString_eq fun zero => (sent.valuePlain 0 zero).1 rfl

/-- The blanks in front of a value are skipped. -/
theorem dropWhile_gap (sent : SentHeader) (rest : Bytes) :
    (List.replicate sent.gap 32 ++ (sent.value ++ 13 :: rest)).dropWhile (· = 32) = sent.value ++ 13 :: rest := by
  have trimmed := sent.trimmed
  rw [List.dropWhile_append_of_pos (by simp)]
  cases value : sent.value with
  | nil => rfl
  | cons char text =>
    rw [value] at trimmed
    exact List.dropWhile_cons_of_neg (by simpa using trimmed char rfl)

/-- A header that was sent is found, and the line ends behind it are skipped. -/
theorem parseHeaderLine_line (sent : SentHeader) (rest : Bytes) :
    parseHeaderLine (sent.line ++ rest) = (sent.header, skipCrlf rest) := by
  have line : sent.line ++ rest =
      sent.key ++ 58 :: (List.replicate sent.gap 32 ++ (sent.value ++ 13 :: (10 :: rest))) := by
    simp [SentHeader.line]
  have key : copyField (· = 58) HTTP_MAX_KEY_LEN (sent.line ++ rest) =
      (sent.key, 58 :: (List.replicate sent.gap 32 ++ (sent.value ++ 13 :: (10 :: rest)))) := by
    rw [line]
    exact copyField_fits (fun char held => by simpa using (sent.keyPlain char held).2.1) sent.keyFits (by simp)
  have value : copyField isCrlf HTTP_MAX_VALUE_LEN (sent.value ++ 13 :: (10 :: rest)) =
      (sent.value, 13 :: 10 :: rest) :=
    copyField_fits (fun char held => (sent.valuePlain char held).2) sent.valueFits (by simp [isCrlf])
  simp only [parseHeaderLine, key, skipOne_cons, dropWhile_gap, value, cString_key, cString_value]
  rfl

/-- A line that was sent begins with a name. -/
theorem headerRound_line {headers : List HTTPHeader} {maxHeaders : Nat} (sent : SentHeader) (rest : Bytes)
    (room : headers.length < maxHeaders) :
    headerRound maxHeaders (sent.line ++ rest, headers) = .inl (skipCrlf rest, headers ++ [sent.header]) := by
  obtain ⟨first, more, key⟩ := List.exists_cons_of_ne_nil sent.named
  obtain ⟨-, -, plain⟩ := sent.keyPlain first (key ▸ List.mem_cons_self ..)
  have parsed := parseHeaderLine_line sent rest
  rw [SentHeader.line, key, List.cons_append, List.cons_append] at parsed ⊢
  rw [headerRound_plain plain, if_neg (Nat.not_le_of_lt room), parsed]

/-- Line ends are skipped up to the next name. -/
theorem skipCrlf_line (sent : SentHeader) (rest : Bytes) : skipCrlf (sent.line ++ rest) = sent.line ++ rest := by
  apply skipCrlf_of_plain
  intro char first
  obtain ⟨name, more, key⟩ := List.exists_cons_of_ne_nil sent.named
  rw [SentHeader.line, key] at first
  cases first
  exact (sent.keyPlain _ (key ▸ List.mem_cons_self ..)).2.2

/-- The loop over the headers that were sent, with the line ends at the beginning of the body. -/
theorem reaches_headers {headers : List HTTPHeader} {maxHeaders : Nat} (body : Bytes)
    (room : headers.length + sents.length ≤ maxHeaders) :
    Loop.Reaches (headerRound maxHeaders)
      (skipCrlf (sents.flatMap SentHeader.line ++ 13 :: 10 :: body), headers)
      (skipCrlf body, headers ++ sents.map SentHeader.header) := by
  induction sents generalizing headers with
  | nil =>
    rw [List.map_nil, List.append_nil]
    exact .refl
  | cons sent sents ih =>
    rw [List.length_cons] at room
    rw [List.flatMap_cons, List.append_assoc, skipCrlf_line]
    refine .head (headerRound_line sent _ (by omega)) ?_
    rw [List.map_cons, List.append_cons headers sent.header (sents.map SentHeader.header)]
    exact ih (by rw [List.length_append, List.length_singleton]; omega)

end Lines

section Requests

variable {sent : SentRequest}

/-- The request line is passed over, with the line ends behind it. -/
theorem parseRequestLine_text (sent : SentRequest) :
    (parseRequestLine sent.text).2 = skipCrlf (sent.headers.flatMap SentHeader.line ++ 13 :: 10 :: sent.body) := by
  have method : copyField (· = 32) HTTP_MAX_METHOD_LEN sent.text = (sent.method, 32 :: (sent.uri ++ 32 ::
      (sent.version ++ 13 :: 10 :: (sent.headers.flatMap SentHeader.line ++ 13 :: 10 :: sent.body)))) :=
    copyField_fits (fun char held => decide_eq_false fun blank => sent.methodPlain (blank ▸ held)) sent.methodFits
      (by simp)
  have uri : copyField (· = 32) HTTP_MAX_URI (sent.uri ++ 32 ::
      (sent.version ++ 13 :: 10 :: (sent.headers.flatMap SentHeader.line ++ 13 :: 10 :: sent.body))) = (sent.uri, 32 ::
      (sent.version ++ 13 :: 10 :: (sent.headers.flatMap SentHeader.line ++ 13 :: 10 :: sent.body))) :=
    copyField_fits (fun char held => decide_eq_false fun blank => sent.uriPlain (blank ▸ held)) sent.uriFits (by simp)
  have version : copyField isCrlf HTTP_VERSION_LEN (sent.version ++ 13 :: 10 ::
      (sent.headers.flatMap SentHeader.line ++ 13 :: 10 :: sent.body)) = (sent.version, 13 :: 10 ::
      (sent.headers.flatMap SentHeader.line ++ 13 :: 10 :: sent.body)) :=
    copyField_fits sent.versionPlain sent.versionFits (by simp [isCrlf])
  simp only [parseRequestLine, method, skipOne_cons, uri, version]
  rfl

/-- The number that a numeral of digits stands for, as the code reads it. -/
theorem atoi_digits {text : CString} (filled : text ≠ []) (digits : ∀ char ∈ text, Decimal.isDigit char = true)
    (small : Decimal.ofDigits text < HTTP_MAX_BODY) :
    ((atoi text).signExtend 64).toNat = Decimal.ofDigits text := by
  obtain ⟨first, rest, rfl⟩ := List.exists_cons_of_ne_nil filled
  have bounds := digits first (List.mem_cons_self ..)
  simp only [Decimal.isDigit, Bool.and_eq_true, decide_eq_true_eq, UInt8.le_iff_toNat_le, UInt8.reduceToNat] at bounds
  have blank : Decimal.isSpace first = false := by
    simp only [Decimal.isSpace, UInt8.le_iff_toNat_le, ← UInt8.toNat_inj, UInt8.reduceToNat]
    simp
    omega
  have minus : first ≠ 45 := fun same => by simp [same] at bounds
  have plus : first ≠ 43 := fun same => by simp [same] at bounds
  have sign : Decimal.readSign (first :: rest) = (false, first :: rest) := by simp [Decimal.readSign, minus, plus]
  have whole : (first :: rest).takeWhile Decimal.isDigit = first :: rest := List.takeWhile_eq_self_iff.mpr digits
  unfold HTTP_MAX_BODY at small
  rw [atoi, Decimal.atoll, List.dropWhile_cons_of_neg (by simp [blank]), sign]
  simp only [whole, Bool.false_eq_true, if_false]
  rw [if_neg (by omega), if_neg (by omega), BitVec.ofInt_natCast, BitVec.signExtend_eq_setWidth_of_msb_false]
  · rw [BitVec.toNat_setWidth, BitVec.toNat_setWidth, BitVec.toNat_ofNat]
    omega
  · rw [BitVec.msb_eq_false_iff_two_mul_lt, BitVec.toNat_setWidth, BitVec.toNat_ofNat]
    omega

/-- The length that was sent is found among the headers. -/
theorem httpGetHeader_counts (sent : SentRequest) :
    ∃ value, httpGetHeader (sent.headers.map SentHeader.header) (ascii "Content-Length") = some value ∧
      ((atoi value).signExtend 64).toNat = sent.body.length := by
  have present : (sent.headers.find? fun sent => strCaseCmp sent.key (ascii "Content-Length") = 0).isSome := by
    obtain ⟨header, held, named⟩ := sent.counted
    exact List.find?_isSome.mpr ⟨header, held, decide_eq_true named⟩
  obtain ⟨header, found⟩ := Option.isSome_iff_exists.mp present
  have first := List.find?_some found
  have named : strCaseCmp header.key (ascii "Content-Length") = 0 := of_decide_eq_true first
  obtain ⟨filled, digits, count⟩ := sent.counts header (List.mem_of_find?_eq_some found) named
  refine ⟨header.value, ?_, ?_⟩
  · rw [httpGetHeader, List.find?_map]
    exact congrArg (fun first => (first.map SentHeader.header).map HTTPHeader.value) found
  · rw [atoi_digits filled digits (count ▸ sent.bodyFits), count]

theorem copyBody_headers (sent : SentRequest) (rest : Bytes) :
    copyBody (sent.headers.map SentHeader.header) rest =
      if sent.body.length ≤ rest.length then some (rest.take sent.body.length) else none := by
  obtain ⟨value, found, count⟩ := httpGetHeader_counts sent
  rw [copyBody, found]
  simp only [count, sent.bodyFits, and_true]

/-- A request is recovered if the headers that the loop leaves with are those sent, and the bytes behind them the
body. -/
theorem sent_recovered_iff (sent : SentRequest) {rest : Bytes} {headers : List HTTPHeader}
    (ends : Loop.Ends (headerRound HTTP_MAX_HEADERS) (skipCrlf sent.body, sent.headers.map SentHeader.header)
      (rest, headers)) :
    sent.Recovered ↔ headers = sent.headers.map SentHeader.header ∧ rest.take sent.body.length = sent.body := by
  have parsed : parseHeaderLines HTTP_MAX_HEADERS (parseRequestLine sent.text).2 = some (rest, headers) := by
    rw [parseRequestLine_text]
    refine Loop.Ends.run_eq ?_ (headerRun_isSome ..)
    exact (reaches_headers sent.body (by simpa using sent.headersFit)).ends ends
  have filled : sent.text ≠ [] := by simp [SentRequest.text]
  rw [SentRequest.Recovered, httpParseRequest, if_neg filled]
  simp only [parsed, Option.map_some, Option.some.injEq, Except.ok.injEq, exists_eq_left']
  apply and_congr_right
  rintro rfl
  rw [copyBody_headers]
  by_cases enough : sent.body.length ≤ rest.length
  · simp [enough]
  · have short : rest.take sent.body.length ≠ sent.body := by
      intro same
      have count := congrArg List.length same
      rw [List.length_take] at count
      omega
    simp [enough, short]

/-- The parser returns the headers and the body exactly if there is no body, or as many headers as there is room for
and a body that does not begin with a line end. -/
theorem httpParseRequest_recovers_iff (sent : SentRequest) :
    sent.Recovered ↔ sent.body = [] ∨
      sent.headers.length = HTTP_MAX_HEADERS ∧ ∀ char ∈ sent.body.head?, isCrlf char = false := by
  cases left : skipCrlf sent.body with
  | nil =>
    -- nothing is left for the loop
    have ends : Loop.Ends (headerRound HTTP_MAX_HEADERS) (skipCrlf sent.body, sent.headers.map SentHeader.header)
        ([], sent.headers.map SentHeader.header) := .last (by rw [left]; rfl)
    rw [sent_recovered_iff sent ends]
    cases body : sent.body with
    | nil => simp
    | cons first more =>
      have lineEnds := List.dropWhile_eq_nil_iff.mp left
      have end_first : isCrlf first = true := lineEnds first (body ▸ List.mem_cons_self ..)
      simp [end_first]
  | cons first more =>
    have plain : isCrlf first = false := by
      have stopped := List.head?_dropWhile_not isCrlf sent.body
      rw [show sent.body.dropWhile isCrlf = first :: more from left] at stopped
      exact stopped
    have filled : sent.body ≠ [] := by
      intro empty
      rw [empty] at left
      cases left
    have round := headerRound_plain plain HTTP_MAX_HEADERS more (sent.headers.map SentHeader.header)
    rw [← left, List.length_map] at round
    by_cases full : sent.headers.length = HTTP_MAX_HEADERS
    · -- the loop leaves the rest of the body
      rw [if_pos (Nat.le_of_eq full.symm)] at round
      rw [sent_recovered_iff sent (.last round)]
      simp only [filled, full, true_and, false_or]
      constructor
      · intro same char begins
        rw [left] at same
        have begun : sent.body.head? = some first := by
          rw [← same, List.head?_take, if_neg (List.length_pos_iff.mpr filled).ne', List.head?_cons]
        rw [begun] at begins
        exact Option.some.inj begins ▸ plain
      · intro begins
        rw [skipCrlf_of_plain begins, List.take_length]
    · -- the loop takes the body for headers
      have room : ¬sent.headers.length ≥ HTTP_MAX_HEADERS :=
        fun most => full (Nat.le_antisymm sent.headersFit most)
      rw [if_neg room] at round
      obtain ⟨⟨rest, headers⟩, ended⟩ := Option.isSome_iff_exists.mp
        (headerRun_isSome HTTP_MAX_HEADERS (skipCrlf sent.body, sent.headers.map SentHeader.header))
      have more_headers : headers ≠ sent.headers.map SentHeader.header := by
        rintro rfl
        rw [Loop.run_next round] at ended
        have longer := (headers_grow ⟨_, ended⟩).length_le
        rw [List.length_append] at longer
        exact absurd longer (by simp)
      rw [sent_recovered_iff sent ⟨_, ended⟩]
      simp [more_headers, filled, full]

theorem contentLength_named : ascii "Content-Length" ≠ [] := by decide

/-- `Content-Length: 1`. -/
def lengthOne : SentHeader where
  key := ascii "Content-Length"
  gap := 1
  value := ascii "1"
  named := contentLength_named
  keyFits := by decide
  keyPlain := List.all_iff_forall_prop.mp (by decide)
  valueFits := by decide
  valuePlain := List.all_iff_forall_prop.mp (by decide)
  trimmed := fun char first => (Option.some.inj first : 49 = char) ▸ by decide

/-- A request with one byte of body. -/
def oneByteRequest : SentRequest where
  method := ascii "POST"
  uri := ascii "/"
  version := ascii "HTTP/1.1"
  headers := [lengthOne]
  body := ascii "x"
  methodFits := by decide
  methodPlain := by decide
  uriFits := by decide
  uriPlain := by decide
  versionFits := by decide
  versionPlain := List.all_iff_forall_prop.mp (by decide)
  headersFit := by decide
  counted := ⟨lengthOne, List.mem_singleton_self _, by decide⟩
  counts := by
    intro sent held _
    rw [List.mem_singleton.mp held]
    exact ⟨by decide, List.all_iff_forall_prop.mp (by decide), by decide⟩
  bodyFits := by decide

/-- The body is taken for a second header, and none is left. -/
theorem httpParseRequest_loses_body : ¬oneByteRequest.Recovered := by
  intro ⟨req, parsed, _, hasBody, _⟩
  have lost : httpParseRequest oneByteRequest.text = some (.ok ⟨.post, ascii "/", ascii "HTTP/1.1",
      [⟨ascii "Content-Length", ascii "1"⟩, ⟨ascii "x", []⟩], [], false⟩) := by decide
  rw [lost] at parsed
  cases parsed
  cases hasBody

end Requests

end MiniNetDist.NetworkBase.HttpBasic
