import MiniNetDist.Library.Decimal
import Mathlib.Data.List.DropRight

/-! Server-sent events of `mini-app-protocol/src/sse.c`. The encoder writes the data as one line, whatever bytes are
in it; the parser reads lines of at most 4095 bytes. -/

namespace MiniNetDist.AppProtocol.Sse

open Library Library.Decimal

def SSE_MAX_EVENT_TYPE : Nat := 64
def SSE_MAX_EVENT_DATA : Nat := 4096
def SSE_MAX_EVENT_ID : Nat := 64
def SSE_MAX_LAST_EVENT_ID : Nat := 128

structure SSEEvent where
  id : CharArray SSE_MAX_EVENT_ID
  event : CharArray SSE_MAX_EVENT_TYPE
  data : CharArray SSE_MAX_EVENT_DATA
  dataLen : Nat
  retryMs : BitVec 64
  deriving DecidableEq, Repr

/-- The part of a connection that the parser uses. -/
structure SSEConnection where
  lastEventId : CharArray SSE_MAX_LAST_EVENT_ID
  reconnectionTimeMs : BitVec 64
  reconnectionTimeSet : Bool
  eventTypeBuffer : CharArray SSE_MAX_EVENT_TYPE
  dataBuffer : CharArray SSE_MAX_EVENT_DATA
  hasEventType : Bool
  deriving DecidableEq, Repr

section Encoding

def field (name : String) (value : Bytes) : Bytes := ascii name ++ value ++ [10]

/-- `snprintf` behind what is written, if the field is given; a line that does not fit with its terminator fails the
call. -/
def printField (outSize : Nat) (out : Bytes) (given : Prop) [Decidable given] (name : String) (value : Bytes) :
    Option Bytes :=
  if given then
    if outSize - out.length ≤ (field name value).length then none else some (out ++ field name value)
  else some out

def sseEncodeEvent (event : SSEEvent) (outSize : Nat) : Option Bytes := do
  let out ← printField outSize [] (event.id.text ≠ []) "id: " event.id.text
  let out ← printField outSize out (event.event.text ≠ []) "event: " event.event.text
  let out ← printField outSize out (0 < event.retryMs.toInt) "retry: " (formatD event.retryMs.toInt)
  let out ← printField outSize out (0 < event.dataLen ∧ event.data.text ≠ []) "data: " event.data.text
  -- without data the empty line is written the same way
  if outSize ≤ out.length + 1 then none else some (out ++ [10])

end Encoding

section Parsing

def sseTrimNewline (line : CString) : CString := line.rdropWhile fun char => char = 10 || char = 13

def skipSpaces (text : CString) : CString := text.dropWhile (· = 32)

/-- The event that an empty line ends. -/
def SSEConnection.event (conn : SSEConnection) : SSEEvent :=
  { id := if conn.lastEventId.text ≠ [] then .store _ conn.lastEventId.text else .store _ []
    event := if conn.hasEventType then .store _ conn.eventTypeBuffer.text else .store _ (ascii "message")
    data := conn.dataBuffer
    dataLen := conn.dataBuffer.text.length
    retryMs := if conn.reconnectionTimeSet then conn.reconnectionTimeMs else 0 }

/-- Data on a further line stands behind a newline; what does not fit is left out. -/
def SSEConnection.addData (conn : SSEConnection) (val : CString) : SSEConnection :=
  let buffer := conn.dataBuffer.text
  let buffer := if 0 < buffer.length ∧ buffer.length + 1 < SSE_MAX_EVENT_DATA then buffer ++ [10] else buffer
  { conn with
    dataBuffer := .store _ (if buffer.length + val.length < SSE_MAX_EVENT_DATA then buffer ++ val else buffer) }

def sseParseLine (conn : SSEConnection) (line : CString) : SSEConnection × Option SSEEvent :=
  if line.head? = some 58 then (conn, none)
  else if line = [] then
    if conn.dataBuffer.text = [] then (conn, none)
    else ({ conn with dataBuffer := .store _ [], hasEventType := false }, some conn.event)
  else if ascii "id:" <+: line then ({ conn with lastEventId := .store _ (skipSpaces (line.drop 3)) }, none)
  else if ascii "event:" <+: line ∨ ascii "event: " <+: line then
    let val := if (line)[6]? = some 32 then line.drop 7 else line.drop 6
    ({ conn with eventTypeBuffer := .store _ (skipSpaces val), hasEventType := true }, none)
  else if ascii "retry:" <+: line then
    ({ conn with reconnectionTimeMs := atoll (skipSpaces (line.drop 6)), reconnectionTimeSet := true }, none)
  else if ascii "data:" <+: line ∨ ascii "data: " <+: line then
    (conn.addData (if (line)[5]? = some 32 then line.drop 6 else line.drop 5), none)
  else (conn, none)

/-- The loop over the bytes; a line is cut at the size of its buffer. -/
def parseFrom (maxEvents : Nat) : SSEConnection → Bytes → List SSEEvent → Bytes → List SSEEvent
  | _, _, events, [] => events
  | conn, line, events, ch :: data =>
    if maxEvents ≤ events.length then events
    else if ch = 10 then
      let parsed := sseParseLine conn (sseTrimNewline (cString line))
      parseFrom maxEvents parsed.1 [] (events ++ parsed.2.toList) data
    else if ch = 13 then parseFrom maxEvents conn line events data
    else parseFrom maxEvents conn (if line.length < SSE_MAX_EVENT_DATA - 1 then line ++ [ch] else line) events data

/-- The connection filled with zeros. -/
def parseConn : SSEConnection := ⟨.store _ [], 0, false, .store _ [], .store _ [], false⟩

def sseParseEvent (data : Bytes) (maxEvents : Nat) : List SSEEvent := parseFrom maxEvents parseConn [] [] data

end Parsing

section Lines

variable {maxEvents : Nat}

/-- The bytes before a newline, without the carriage returns, as far as the buffer goes. -/
def lineOf (text : Bytes) : Bytes := (text.filter (· ≠ 13)).take (SSE_MAX_EVENT_DATA - 1)

theorem take_append_singleton (line : Bytes) (ch : UInt8) (rest : Bytes) (limit : Nat) (fits : line.length ≤ limit) :
    ((if line.length < limit then line ++ [ch] else line) ++ rest).take limit = (line ++ ch :: rest).take limit := by
  by_cases room : line.length < limit
  · rw [if_pos room, List.append_assoc, List.singleton_append]
  · have full : line.length = limit := Nat.le_antisymm fits (Nat.le_of_not_lt room)
    rw [if_neg room, ← full, List.take_left, List.take_left]

theorem parseFrom_text (conn : SSEConnection) (line text rest : Bytes) (events : List SSEEvent)
    (room : events.length < maxEvents) (fits : line.length ≤ SSE_MAX_EVENT_DATA - 1) (oneLine : 10 ∉ text) :
    parseFrom maxEvents conn line events (text ++ rest) =
      parseFrom maxEvents conn ((line ++ text.filter (· ≠ 13)).take (SSE_MAX_EVENT_DATA - 1)) events rest := by
  induction text generalizing line with
  | nil => rw [List.filter_nil, List.append_nil, List.take_of_length_le fits, List.nil_append]
  | cons ch text ih =>
    obtain ⟨newline, oneLine⟩ := List.ne_and_not_mem_of_not_mem_cons oneLine
    rw [List.cons_append, parseFrom, if_neg (Nat.not_le_of_lt room), if_neg newline.symm]
    by_cases return_ : ch = 13
    · rw [if_pos return_, ih line fits oneLine, List.filter_cons_of_neg (by simpa using return_)]
    · rw [if_neg return_, ih _ ?_ oneLine, take_append_singleton _ _ _ _ fits,
        List.filter_cons_of_pos (by simpa using return_)]
      split
      · rw [List.length_append]
        assumption
      · exact fits

theorem sseTrimNewline_lineOf (text : Bytes) (oneLine : 10 ∉ text) : sseTrimNewline (lineOf text) = lineOf text := by
  rw [sseTrimNewline, List.rdropWhile_eq_self_iff]
  intro nonempty
  have inside : (lineOf text).getLast nonempty ∈ text.filter (· ≠ 13) :=
    List.mem_of_mem_take (List.getLast_mem nonempty)
  obtain ⟨inside, noReturn⟩ := List.mem_filter.mp inside
  have notNewline : (lineOf text).getLast nonempty ≠ 10 := by
    intro newline
    rw [newline] at inside
    exact oneLine inside
  simp only [decide_eq_true_eq] at noReturn
  simp [noReturn, notNewline]

/-- What a line and its newline do. -/
theorem parseFrom_line (conn : SSEConnection) (text rest : Bytes) (events : List SSEEvent)
    (room : events.length < maxEvents) (oneLine : 10 ∉ text) (plain : 0 ∉ text) :
    parseFrom maxEvents conn [] events (text ++ [10] ++ rest) =
      parseFrom maxEvents (sseParseLine conn (lineOf text)).1 []
        (events ++ (sseParseLine conn (lineOf text)).2.toList) rest := by
  have noZero : 0 ∉ lineOf text := fun inside => plain (List.mem_filter.mp (List.mem_of_mem_take inside)).1
  rw [List.append_assoc, parseFrom_text conn [] text _ events room (Nat.zero_le _) oneLine, List.nil_append,
    List.singleton_append, parseFrom, if_neg (Nat.not_le_of_lt room), if_pos rfl]
  change parseFrom maxEvents (sseParseLine conn (sseTrimNewline (cString (lineOf text)))).1 []
    (events ++ (sseParseLine conn (sseTrimNewline (cString (lineOf text)))).2.toList) rest = _
  rw [cString_eq noZero, sseTrimNewline_lineOf text oneLine]

end Lines

section Fields

theorem skipSpaces_cons (text : CString) : skipSpaces (32 :: text) = skipSpaces text :=
  List.dropWhile_cons_of_pos rfl

theorem skipSpaces_eq {text : CString} (start : text.head? ≠ some 32) : skipSpaces text = text := by
  cases text with
  | nil => rfl
  | cons first rest =>
    have other : first ≠ 32 := fun same => start (congrArg some same)
    exact List.dropWhile_cons_of_neg (by simpa using other)

theorem sseParseLine_id (conn : SSEConnection) (value : CString) :
    sseParseLine conn (ascii "id: " ++ value) = ({ conn with lastEventId := .store _ (skipSpaces value) }, none) := by
  rw [sseParseLine, if_neg (by simp [ascii]), if_neg (by simp [ascii]), if_pos ⟨32 :: value, rfl⟩]
  change ({ conn with lastEventId := .store _ (skipSpaces (32 :: value)) }, none) = _
  rw [skipSpaces_cons]

theorem sseParseLine_event (conn : SSEConnection) (value : CString) :
    sseParseLine conn (ascii "event: " ++ value) =
      ({ conn with eventTypeBuffer := .store _ (skipSpaces value), hasEventType := true }, none) := by
  rw [sseParseLine, if_neg (by simp [ascii]), if_neg (by simp [ascii]), if_neg (by simp [ascii]),
    if_pos (.inr ⟨value, rfl⟩)]
  rfl

theorem sseParseLine_retry (conn : SSEConnection) (value : BitVec 64) :
    sseParseLine conn (ascii "retry: " ++ formatD value.toInt) =
      ({ conn with reconnectionTimeMs := value, reconnectionTimeSet := true }, none) := by
  have start : (formatD value.toInt).head? ≠ some 32 := fun blank =>
    absurd (head?_formatD_not_space value.toInt 32 blank) (by decide)
  rw [sseParseLine, if_neg (by simp [ascii]), if_neg (by simp [ascii]), if_neg (by simp [ascii]),
    if_neg (by simp [ascii]), if_pos ⟨32 :: formatD value.toInt, rfl⟩]
  change ({ conn with
    reconnectionTimeMs := atoll (skipSpaces (32 :: formatD value.toInt)), reconnectionTimeSet := true }, none) = _
  rw [skipSpaces_cons, skipSpaces_eq start, atoll_formatD]

theorem sseParseLine_data (conn : SSEConnection) (value : CString) :
    sseParseLine conn (ascii "data: " ++ value) = (conn.addData value, none) := by
  rw [sseParseLine, if_neg (by simp [ascii]), if_neg (by simp [ascii]), if_neg (by simp [ascii]),
    if_neg (by simp [ascii]), if_neg (by simp [ascii]), if_pos (.inr ⟨value, rfl⟩)]
  rfl

theorem sseParseLine_nil (conn : SSEConnection) (filled : conn.dataBuffer.text ≠ []) :
    sseParseLine conn [] = ({ conn with dataBuffer := .store _ [], hasEventType := false }, some conn.event) := by
  rw [sseParseLine, if_neg (by simp), if_pos rfl, if_neg filled]

/-- The first line of data is taken as it is. -/
theorem addData_empty (conn : SSEConnection) (value : CString) (empty : conn.dataBuffer.text = [])
    (short : value.length < SSE_MAX_EVENT_DATA) :
    conn.addData value = { conn with dataBuffer := .store _ value } := by
  rw [SSEConnection.addData]
  simp only [empty, List.length_nil, Nat.lt_irrefl, false_and, if_false, Nat.zero_add, if_pos short, List.nil_append]

theorem filter_noReturn {text : Bytes} (noReturn : 13 ∉ text) : text.filter (· ≠ 13) = text := by
  rw [List.filter_eq_self]
  intro byte inside
  have : byte ≠ 13 := fun same => noReturn (same ▸ inside)
  simpa using this

theorem lineOf_field (name value : Bytes) (noReturn : 13 ∉ name) (short : name.length ≤ SSE_MAX_EVENT_DATA - 1) :
    lineOf (name ++ value) =
      name ++ (value.filter (· ≠ 13)).take (SSE_MAX_EVENT_DATA - 1 - name.length) := by
  rw [lineOf, List.filter_append, filter_noReturn noReturn, List.take_append, List.take_of_length_le short]

/-- The bytes of a field's value that the parser sees. -/
def clean (text : CString) : CString := skipSpaces (text.filter (· ≠ 13))

theorem clean_eq_iff {text : CString} (start : text.head? ≠ some 32) : clean text = text ↔ 13 ∉ text := by
  constructor
  · intro same inside
    rw [← same] at inside
    have kept := (List.dropWhile_suffix _).mem inside
    simpa using (List.mem_filter.mp kept).2
  · intro noReturn
    rw [clean, filter_noReturn noReturn, skipSpaces_eq start]

end Fields

section RoundTrip

variable {maxEvents : Nat}

def givenField (given : Prop) [Decidable given] (name : String) (value : Bytes) : Bytes :=
  if given then field name value else []

/-- The lines before the data. -/
def header (event : SSEEvent) : Bytes :=
  givenField (event.id.text ≠ []) "id: " event.id.text ++
    (givenField (event.event.text ≠ []) "event: " event.event.text ++
      givenField (0 < event.retryMs.toInt) "retry: " (formatD event.retryMs.toInt))

theorem printField_eq {outSize : Nat} {out out' : Bytes} {given : Prop} [Decidable given] {name : String}
    {value : Bytes} (printed : printField outSize out given name value = some out') :
    out' = out ++ givenField given name value := by
  by_cases holds : given
  · rw [printField, if_pos holds] at printed
    rw [givenField, if_pos holds]
    split at printed
    · cases printed
    · exact (Option.some.inj printed).symm
  · rw [printField, if_neg holds] at printed
    rw [givenField, if_neg holds, List.append_nil]
    exact (Option.some.inj printed).symm

theorem sseEncodeEvent_eq {event : SSEEvent} {outSize : Nat} {out : Bytes} (counted : 0 < event.dataLen)
    (filled : event.data.text ≠ []) (written : sseEncodeEvent event outSize = some out) :
    out = header event ++ (field "data: " event.data.text ++ [10]) := by
  rw [sseEncodeEvent] at written
  obtain ⟨first, printedId, written⟩ := Option.bind_eq_some_iff.mp written
  obtain ⟨second, printedEvent, written⟩ := Option.bind_eq_some_iff.mp written
  obtain ⟨third, printedRetry, written⟩ := Option.bind_eq_some_iff.mp written
  obtain ⟨fourth, printedData, ended⟩ := Option.bind_eq_some_iff.mp written
  have data := printField_eq printedData
  rw [givenField, if_pos ⟨counted, filled⟩, printField_eq printedRetry, printField_eq printedEvent,
    printField_eq printedId] at data
  split at ended
  · cases ended
  · rw [← Option.some.inj ended, data, header]
    simp only [List.nil_append, List.append_assoc]

/-- A header line, if it is given, changes the connection. -/
theorem parseFrom_givenField {given : Prop} [Decidable given] {name : String} {value : Bytes}
    {conn conn' : SSEConnection} (rest : Bytes) (room : 0 < maxEvents) (oneLine : 10 ∉ ascii name ++ value)
    (plain : 0 ∉ ascii name ++ value) (parsed : sseParseLine conn (lineOf (ascii name ++ value)) = (conn', none)) :
    parseFrom maxEvents conn [] [] (givenField given name value ++ rest) =
      parseFrom maxEvents (if given then conn' else conn) [] [] rest := by
  by_cases holds : given
  · rw [givenField, if_pos holds, if_pos holds, field, parseFrom_line conn _ rest [] room oneLine plain, parsed]
    rfl
  · rw [givenField, if_neg holds, if_neg holds, List.nil_append]

/-- An event whose name and identity stand on one line each. -/
structure WellFormed (event : SSEEvent) : Prop where
  filled : event.data.text ≠ []
  counted : event.dataLen = event.data.text.length
  noReturn : 13 ∉ event.data.text
  idLine : 10 ∉ event.id.text
  idStart : event.id.text.head? ≠ some 32
  eventLine : 10 ∉ event.event.text
  eventStart : event.event.text.head? ≠ some 32
  retry : 0 ≤ event.retryMs.toInt

/-- What the parser knows when the data begins. -/
def afterHeader (event : SSEEvent) : SSEConnection :=
  { lastEventId := .store _ (clean event.id.text)
    reconnectionTimeMs := if 0 < event.retryMs.toInt then event.retryMs else 0
    reconnectionTimeSet := 0 < event.retryMs.toInt
    eventTypeBuffer := .store _ (clean event.event.text)
    dataBuffer := .store _ []
    hasEventType := event.event.text ≠ [] }

theorem lineOf_short {name value : Bytes} (noReturn : 13 ∉ name) (short : name.length + value.length ≤ 4095) :
    lineOf (name ++ value) = name ++ value.filter (· ≠ 13) := by
  have bound := List.length_filter_le (· ≠ 13) value
  rw [lineOf_field name value noReturn (by change _ ≤ 4095; omega), List.take_of_length_le]
  change _ ≤ 4095 - _
  omega

theorem parseFrom_id {event : SSEEvent} (valid : WellFormed event) (conn : SSEConnection) (rest : Bytes)
    (room : 0 < maxEvents) :
    parseFrom maxEvents conn [] [] (givenField (event.id.text ≠ []) "id: " event.id.text ++ rest) =
      parseFrom maxEvents
        (if event.id.text ≠ [] then { conn with lastEventId := .store _ (clean event.id.text) } else conn)
        [] [] rest := by
  have fits : event.id.text.length ≤ 63 := event.id.fits
  apply parseFrom_givenField rest room (by simp [ascii, valid.idLine]) (by simp [ascii, event.id.plain])
  rw [lineOf_short (by decide) (by change 4 + _ ≤ _; omega), sseParseLine_id]
  rfl

theorem parseFrom_event {event : SSEEvent} (valid : WellFormed event) (conn : SSEConnection) (rest : Bytes)
    (room : 0 < maxEvents) :
    parseFrom maxEvents conn [] [] (givenField (event.event.text ≠ []) "event: " event.event.text ++ rest) =
      parseFrom maxEvents
        (if event.event.text ≠ [] then
          { conn with eventTypeBuffer := .store _ (clean event.event.text), hasEventType := true }
        else conn) [] [] rest := by
  have fits : event.event.text.length ≤ 63 := event.event.fits
  apply parseFrom_givenField rest room (by simp [ascii, valid.eventLine]) (by simp [ascii, event.event.plain])
  rw [lineOf_short (by decide) (by change 7 + _ ≤ _; omega), sseParseLine_event]
  rfl

theorem parseFrom_retry (event : SSEEvent) (conn : SSEConnection) (rest : Bytes) (room : 0 < maxEvents) :
    parseFrom maxEvents conn [] []
        (givenField (0 < event.retryMs.toInt) "retry: " (formatD event.retryMs.toInt) ++ rest) =
      parseFrom maxEvents
        (if 0 < event.retryMs.toInt then
          { conn with reconnectionTimeMs := event.retryMs, reconnectionTimeSet := true }
        else conn) [] [] rest := by
  have fits := length_formatD_le event.retryMs
  have numeral : ∀ byte : UInt8, byte ≠ 45 → isDigit byte = false → byte ∉ formatD event.retryMs.toInt :=
    fun _ => notMem_formatD event.retryMs.toInt
  apply parseFrom_givenField rest room (by simp [ascii, numeral 10 (by decide) (by decide)])
    (by simp [ascii, numeral 0 (by decide) (by decide)])
  rw [lineOf_short (by decide) (by change 7 + _ ≤ _; omega), filter_noReturn (numeral 13 (by decide) (by decide)),
    sseParseLine_retry]

theorem parseFrom_header {event : SSEEvent} (valid : WellFormed event) (rest : Bytes) (room : 0 < maxEvents) :
    parseFrom maxEvents parseConn [] [] (header event ++ rest) =
      parseFrom maxEvents (afterHeader event) [] [] rest := by
  rw [header, List.append_assoc, List.append_assoc, parseFrom_id valid _ _ room, parseFrom_event valid _ _ room,
    parseFrom_retry _ _ _ room]
  congr 1
  by_cases id : event.id.text = [] <;> by_cases name : event.event.text = [] <;>
    by_cases retry : 0 < event.retryMs.toInt <;>
    simp [afterHeader, parseConn, id, name, retry, clean, skipSpaces]

theorem clean_subset (text : CString) : ∀ byte ∈ clean text, byte ∈ text := fun _ inside =>
  (List.mem_filter.mp ((List.dropWhile_suffix _).mem inside)).1

theorem length_clean_le (text : CString) : (clean text).length ≤ text.length :=
  Nat.le_trans (List.dropWhile_suffix _).length_le (List.length_filter_le _ _)

/-- A value that the parser stores is the cleaned one. -/
theorem text_store_clean {size room : Nat} (array : CharArray size) (wide : size ≤ room) :
    (CharArray.store room (clean array.text)).text = clean array.text := by
  have bound := length_clean_le array.text
  have fits := array.fits
  exact CharArray.text_store (by omega) fun zero => array.plain (clean_subset _ _ zero)

/-- What the parser knows when the data has been read. -/
def afterData (event : SSEEvent) : SSEConnection :=
  { afterHeader event with dataBuffer := .store _ (event.data.text.take 4089) }

theorem text_store_data (event : SSEEvent) :
    (CharArray.store SSE_MAX_EVENT_DATA (event.data.text.take 4089)).text = event.data.text.take 4089 :=
  CharArray.text_store (Nat.le_trans (List.length_take_le _ _) (by decide))
    fun zero => event.data.plain (List.mem_of_mem_take zero)

theorem id_afterData (event : SSEEvent) : (afterData event).event.id.text = clean event.id.text := by
  have whole : (CharArray.store SSE_MAX_LAST_EVENT_ID (clean event.id.text)).text = clean event.id.text :=
    text_store_clean event.id (by decide)
  change (if (CharArray.store SSE_MAX_LAST_EVENT_ID (clean event.id.text)).text ≠ [] then
      CharArray.store SSE_MAX_EVENT_ID (CharArray.store SSE_MAX_LAST_EVENT_ID (clean event.id.text)).text
    else CharArray.store SSE_MAX_EVENT_ID []).text = _
  rw [whole]
  by_cases empty : clean event.id.text = []
  · rw [if_neg (not_not_intro empty), empty]
    rfl
  · rw [if_pos empty]
    exact text_store_clean event.id (Nat.le_refl _)

theorem event_afterData (event : SSEEvent) : (afterData event).event.event =
    if event.event.text = [] then .store _ (ascii "message") else .store _ (clean event.event.text) := by
  have whole : (CharArray.store SSE_MAX_EVENT_TYPE (clean event.event.text)).text = clean event.event.text :=
    text_store_clean event.event (Nat.le_refl _)
  by_cases unnamed : event.event.text = []
  · simp [afterData, afterHeader, SSEConnection.event, unnamed]
  · simp [afterData, afterHeader, SSEConnection.event, unnamed, whole]

theorem retry_afterData {event : SSEEvent} (valid : WellFormed event) :
    (afterData event).event.retryMs = event.retryMs := by
  by_cases positive : 0 < event.retryMs.toInt
  · simp [afterData, afterHeader, SSEConnection.event, positive]
  · have zero : event.retryMs = 0 := by
      apply BitVec.toInt_inj.mp
      exact Int.le_antisymm (Int.not_lt.mp positive) valid.retry
    simp [afterData, afterHeader, SSEConnection.event, zero]

theorem lineOf_data {text : Bytes} (noReturn : 13 ∉ text) :
    lineOf (ascii "data: " ++ text) = ascii "data: " ++ text.take 4089 := by
  rw [lineOf_field _ _ (by decide) (by decide), filter_noReturn noReturn]
  rfl

theorem length_dataLine_lt (text : Bytes) : (text.take 4089).length < SSE_MAX_EVENT_DATA :=
  Nat.lt_of_le_of_lt (List.length_take_le _ _) (by decide)

/-- Data on one line gives one event. -/
theorem sseParseEvent_oneLine {event : SSEEvent} (valid : WellFormed event) (oneLine : 10 ∉ event.data.text)
    (room : 0 < maxEvents) :
    sseParseEvent (header event ++ (field "data: " event.data.text ++ [10])) maxEvents = [(afterData event).event] := by
  have filled : (afterData event).dataBuffer.text ≠ [] := by
    change (CharArray.store SSE_MAX_EVENT_DATA (event.data.text.take 4089)).text ≠ []
    rw [text_store_data]
    simpa using valid.filled
  rw [sseParseEvent, parseFrom_header valid _ room, field,
    parseFrom_line _ _ _ [] room (by simp [ascii, oneLine]) (by simp [ascii, event.data.plain]),
    lineOf_data valid.noReturn, sseParseLine_data, addData_empty _ _ rfl (length_dataLine_lt _)]
  change parseFrom maxEvents (afterData event) [] [] ([] ++ [10] ++ []) = _
  rw [parseFrom_line _ _ _ [] room (by simp) (by simp)]
  change parseFrom maxEvents (sseParseLine (afterData event) []).1 []
    ([] ++ (sseParseLine (afterData event) []).2.toList) [] = _
  rw [sseParseLine_nil _ filled]
  rfl

theorem length_addData_le (conn : SSEConnection) (value : CString) :
    (conn.addData value).dataBuffer.text.length ≤ conn.dataBuffer.text.length + 1 + value.length := by
  have buffered : ∀ buffer : Bytes,
      (if 0 < buffer.length ∧ buffer.length + 1 < SSE_MAX_EVENT_DATA then buffer ++ [10] else buffer).length ≤
        buffer.length + 1 := by
    intro buffer
    split
    · rw [List.length_append, List.length_singleton]
    · exact Nat.le_succ _
  have appended : ∀ buffer : Bytes,
      (if buffer.length + value.length < SSE_MAX_EVENT_DATA then buffer ++ value else buffer).length ≤
        buffer.length + value.length := by
    intro buffer
    split
    · rw [List.length_append]
    · exact Nat.le_add_right _ _
  refine Nat.le_trans (CharArray.length_store_le _ _) ?_
  exact Nat.le_trans (appended _) (Nat.add_le_add_right (buffered _) _)

/-- A line completes the event, or adds data that is shorter than the line, or leaves the data. -/
theorem sseParseLine_cases (conn : SSEConnection) (line : CString) :
    (sseParseLine conn line).1.dataBuffer = .store _ [] ∧ (sseParseLine conn line).2 = some conn.event ∨
      (∃ value, value.length + 5 ≤ line.length ∧ sseParseLine conn line = (conn.addData value, none)) ∨
      (sseParseLine conn line).1.dataBuffer = conn.dataBuffer ∧ (sseParseLine conn line).2 = none := by
  rw [sseParseLine]
  split
  · exact .inr (.inr ⟨rfl, rfl⟩)
  split
  · split
    · exact .inr (.inr ⟨rfl, rfl⟩)
    · exact .inl ⟨rfl, rfl⟩
  split
  · exact .inr (.inr ⟨rfl, rfl⟩)
  split
  · exact .inr (.inr ⟨rfl, rfl⟩)
  split
  · exact .inr (.inr ⟨rfl, rfl⟩)
  split
  case isTrue data =>
    have long : 5 ≤ line.length := by
      rcases data with tight | spaced
      · exact tight.length_le
      · exact Nat.le_trans (by decide) spaced.length_le
    refine .inr (.inl ⟨_, ?_, rfl⟩)
    split <;> rw [List.length_drop] <;> omega
  case isFalse => exact .inr (.inr ⟨rfl, rfl⟩)

/-- A line adds at most its length to the data. -/
theorem length_sseParseLine_le (conn : SSEConnection) (line : CString) :
    (sseParseLine conn line).1.dataBuffer.text.length ≤ conn.dataBuffer.text.length + line.length := by
  rcases sseParseLine_cases conn line with ⟨empty, -⟩ | ⟨value, shorter, added⟩ | ⟨kept, -⟩
  · rw [empty]
    exact Nat.le_trans (CharArray.length_store_le _ _) (Nat.zero_le _)
  · rw [added]
    have bound := length_addData_le conn value
    dsimp only
    omega
  · rw [kept]
    exact Nat.le_add_right _ _

theorem data_sseParseLine {conn : SSEConnection} {line : CString} {event : SSEEvent}
    (parsed : (sseParseLine conn line).2 = some event) : event.data = conn.dataBuffer := by
  rcases sseParseLine_cases conn line with ⟨-, completed⟩ | ⟨value, -, added⟩ | ⟨-, none⟩
  · rw [completed] at parsed
    cases parsed
    rfl
  · rw [added] at parsed
    cases parsed
  · rw [none] at parsed
    cases parsed

theorem length_sseTrimNewline_le (line : Bytes) : (sseTrimNewline (cString line)).length ≤ line.length :=
  Nat.le_trans (List.rdropWhile_prefix _ _).length_le (length_cString_le line)

/-- An event has no more data than the bytes, the newlines left out, that were read before and are still to be
read. -/
theorem length_data_le {bound : Nat} (conn : SSEConnection) (line : Bytes) (events : List SSEEvent) (data : Bytes)
    (before : ∀ event ∈ events, event.data.text.length ≤ bound)
    (ahead : conn.dataBuffer.text.length + line.length + (data.filter (· ≠ 10)).length ≤ bound) :
    ∀ event ∈ parseFrom maxEvents conn line events data, event.data.text.length ≤ bound := by
  induction data generalizing conn line events with
  | nil => exact before
  | cons ch data ih =>
    rw [parseFrom]
    split
    · exact before
    split
    case isTrue newline =>
      rw [List.filter_cons_of_neg (by simpa using newline)] at ahead
      have trimmed := length_sseTrimNewline_le line
      have added := length_sseParseLine_le conn (sseTrimNewline (cString line))
      apply ih
      · intro event inside
        rcases List.mem_append.mp inside with earlier | parsed
        · exact before event earlier
        · rw [data_sseParseLine (Option.mem_toList.mp parsed)]
          omega
      · rw [List.length_nil]
        omega
    case isFalse other =>
      rw [List.filter_cons_of_pos (by simpa using other), List.length_cons] at ahead
      split
      · exact ih conn line events before (by omega)
      · apply ih conn _ events before
        split
        · rw [List.length_append, List.length_singleton]
          omega
        · omega

/-- Data with a newline in it comes back shorter. -/
theorem length_data_lt {event : SSEEvent} (valid : WellFormed event) (room : 0 < maxEvents)
    (newline : 10 ∈ event.data.text) :
    ∀ parsed ∈ sseParseEvent (header event ++ (field "data: " event.data.text ++ [10])) maxEvents,
      parsed.data.text.length < event.data.text.length := by
  obtain ⟨first, others, split, oneLine⟩ := List.eq_append_cons_of_mem newline
  have returns : 13 ∉ first := fun inside => valid.noReturn (split ▸ List.mem_append_left _ inside)
  have zeros : 0 ∉ first := fun inside => event.data.plain (split ▸ List.mem_append_left _ inside)
  have total : event.data.text.length = first.length + (others.length + 1) := by
    rw [split, List.length_append, List.length_cons]
  have arranged : field "data: " event.data.text ++ [10] =
      ascii "data: " ++ first ++ [10] ++ (others ++ [10, 10]) := by
    rw [field, split]
    simp only [List.append_assoc, List.cons_append, List.nil_append]
  intro parsed inside
  rw [sseParseEvent, parseFrom_header valid _ room, arranged,
    parseFrom_line _ _ _ [] room (by simp [ascii, oneLine]) (by simp [ascii, zeros]), lineOf_data returns,
    sseParseLine_data, addData_empty _ _ rfl (length_dataLine_lt _)] at inside
  have stored := CharArray.length_store_le SSE_MAX_EVENT_DATA (first.take 4089)
  have cut := List.length_take_le' 4089 first
  have ahead : ((others ++ [10, 10]).filter (· ≠ 10)).length ≤ others.length := by
    rw [List.filter_append, List.length_append]
    exact List.length_filter_le _ others
  have bound : parsed.data.text.length ≤ first.length + others.length := by
    refine length_data_le _ _ _ _ ?_ ?_ parsed inside
    · intro event none
      cases none
    · change (CharArray.store SSE_MAX_EVENT_DATA (first.take 4089)).text.length + 0 + _ ≤ _
      omega
  omega

/-- The event as the parser is to give it. -/
def SSEEvent.received (event : SSEEvent) : SSEEvent :=
  { event with event := if event.event.text = [] then .store _ (ascii "message") else event.event }

/-- An event that survives the lines: its data is one line that fits the parser's buffer behind `data: `, and no
carriage return is in the name or the identity. -/
structure Readable (event : SSEEvent) : Prop where
  oneLine : 10 ∉ event.data.text
  short : event.data.text.length ≤ 4089
  idPlain : 13 ∉ event.id.text
  eventPlain : 13 ∉ event.event.text

theorem received_iff {event : SSEEvent} (valid : WellFormed event) :
    (afterData event).event = event.received ↔
      event.data.text.length ≤ 4089 ∧ 13 ∉ event.id.text ∧ 13 ∉ event.event.text := by
  have idSame := clean_eq_iff valid.idStart
  have nameSame := clean_eq_iff valid.eventStart
  have name := event_afterData event
  constructor
  · intro same
    refine ⟨?_, idSame.mp ?_, nameSame.mp ?_⟩
    · have data : event.data.text.take 4089 = event.data.text := by
        rw [← text_store_data]
        exact congrArg (·.data.text) same
      rw [← data]
      exact List.length_take_le _ _
    · rw [← id_afterData, same]
      rfl
    · by_cases unnamed : event.event.text = []
      · rw [unnamed]
        rfl
      · rw [same, SSEEvent.received, if_neg unnamed, if_neg unnamed] at name
        exact (congrArg CharArray.text name).trans (text_store_clean event.event (Nat.le_refl _)) |>.symm
  · rintro ⟨short, idPlain, eventPlain⟩
    have whole : event.data.text.take 4089 = event.data.text := List.take_of_length_le short
    have data : (afterData event).event.data = event.data := by
      apply CharArray.ext_text
      exact (text_store_data event).trans whole
    have size : (afterData event).event.dataLen = event.dataLen := by
      rw [valid.counted, ← data]
      rfl
    have id : (afterData event).event.id = event.id :=
      CharArray.ext_text ((id_afterData event).trans (idSame.mpr idPlain))
    rw [nameSame.mpr eventPlain, CharArray.store_text] at name
    have retry := retry_afterData valid
    cases given : (afterData event).event
    rw [given] at data size id name retry
    cases event
    simp only at data size id name retry
    simp only [SSEEvent.received, data, size, id, name, retry]

/-- The parser gives back the event that was encoded exactly when it is readable. -/
theorem sse_round_trip_iff {event : SSEEvent} {outSize maxEvents : Nat} {out : Bytes} (valid : WellFormed event)
    (room : 0 < maxEvents) (written : sseEncodeEvent event outSize = some out) :
    sseParseEvent out maxEvents = [event.received] ↔ Readable event := by
  have counted : 0 < event.dataLen := valid.counted ▸ List.length_pos_of_ne_nil valid.filled
  rw [sseEncodeEvent_eq counted valid.filled written]
  by_cases newline : 10 ∈ event.data.text
  · constructor
    · intro same
      have shorter := length_data_lt valid room newline event.received (same ▸ List.mem_singleton_self _)
      exact absurd shorter (Nat.lt_irrefl _)
    · intro readable
      exact absurd newline readable.oneLine
  · rw [sseParseEvent_oneLine valid newline room, List.singleton_inj, received_iff valid]
    constructor
    · rintro ⟨short, idPlain, eventPlain⟩
      exact ⟨newline, short, idPlain, eventPlain⟩
    · intro readable
      exact ⟨readable.short, readable.idPlain, readable.eventPlain⟩

/-- A text in `data` under the name and with the identity given. -/
def eventOf (id name data : String) : SSEEvent :=
  ⟨.store _ (ascii id), .store _ (ascii name), .store _ (ascii data), data.length, 0⟩

theorem ping_round_trip :
    sseParseEvent (ascii "id: 7\nevent: ping\ndata: hello\n\n") 4 = [(eventOf "7" "ping" "hello").received] :=
  (@sse_round_trip_iff (eventOf "7" "ping" "hello") 64 4 _
    ⟨by decide, by decide, by decide, by decide, by decide, by decide, by decide, by decide⟩ (by decide)
    (by decide)).mpr ⟨by decide, by decide, by decide, by decide⟩

/-- The second line of the data is lost. -/
theorem second_line_lost : WellFormed (eventOf "" "" "a\nb") ∧
    ∃ out, sseEncodeEvent (eventOf "" "" "a\nb") 64 = some out ∧
      sseParseEvent out 4 = [(eventOf "" "" "a").received] ∧
        sseParseEvent out 4 ≠ [(eventOf "" "" "a\nb").received] :=
  ⟨⟨by decide, by decide, by decide, by decide, by decide, by decide, by decide, by decide⟩,
    ascii "data: a\nb\n\n", by decide, by decide, by decide⟩

end RoundTrip

end MiniNetDist.AppProtocol.Sse
