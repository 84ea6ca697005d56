import MiniNetDist.NetworkBase.DnsQuery

/-! Responses of `mini-network-base/src/udp_dns.c`. The loop over the questions gives `dns_name_decode` no buffer for
the name, which that function takes for an error. -/

namespace MiniNetDist.NetworkBase.UdpDns

open Library

/-- The bytes of `rdata`. -/
def rdataSize : Nat := 512

/-- The answers that are stored at most. -/
def maxAnswers : Nat := 16

structure DNSRR where
  name : Bytes
  type : BitVec 16
  rrclass : BitVec 16
  ttl : BitVec 32
  rdlength : BitVec 16
  rdata : Bytes
  deriving DecidableEq, Repr

/-- A name is decoded into a buffer of a size, or into NULL. -/
def dnsNameDecodeInto (fuel : Nat) (data : Bytes) (offset : Nat) : Option UInt64 → Option (Except Failure DecodedName)
  | none => some (.error (.code (-1)))
  | some nameLen => dnsNameDecode fuel data offset nameLen

/-- The error code of a call is replaced by another one. -/
def reported (value : Int) : Failure → Failure
  | .code _ => .code value
  | .outOfBounds => .outOfBounds

/-- The loop over the questions, with the number of those that are left. -/
def dnsSkipQuestions (fuel : Nat) (data : Bytes) : Nat → Nat → Option (Except Failure Nat)
  | 0, pos => some (.ok pos)
  | count + 1, pos =>
    if pos < data.length then
      match dnsNameDecodeInto fuel data pos none with
      | none => none
      | some (.error failure) => some (.error (reported (-3) failure))
      | some (.ok decoded) => dnsSkipQuestions fuel data count (decoded.nextOffset + 4)
    else some (.ok pos)

/-- What follows the name of a record. -/
def dnsRecordFields (data : Bytes) (decoded : DecodedName) : Except Failure (DNSRR × Nat) :=
  let pos := decoded.nextOffset
  if pos + 10 > data.length then .error (.code (-5))
  else do
    let (type, rest) ← readU16 (data.drop pos)
    let (rrclass, rest) ← readU16 rest
    let (ttl, rest) ← readU32 rest
    let (rdlength, rest) ← readU16 rest
    if pos + 10 + rdlength.toNat > data.length then .error (.code (-6))
    else
      let copied := rest.take (min rdataSize rdlength.toNat)
      .ok (⟨decoded.name, type, rrclass, ttl, rdlength, copied ++ .replicate (rdataSize - copied.length) 0⟩,
        pos + 10 + rdlength.toNat)

/-- The loop over the answers, with the number of those that are left. -/
def dnsReadAnswers (fuel : Nat) (data : Bytes) : Nat → Nat → List DNSRR → Option (Except Failure (List DNSRR))
  | 0, _, answers => some (.ok answers)
  | count + 1, pos, answers =>
    if answers.length < maxAnswers ∧ pos < data.length then
      match dnsNameDecodeInto fuel data pos (some DNS_MAX_NAME) with
      | none => none
      | some (.error failure) => some (.error (reported (-4) failure))
      | some (.ok decoded) =>
        match dnsRecordFields data decoded with
        | .error failure => some (.error failure)
        | .ok (rr, pos) => dnsReadAnswers fuel data count pos (answers ++ [rr])
    else some (.ok answers)

/-- The header and the answers; none if a name takes more than `fuel` rounds. -/
def dnsParseResponse (fuel : Nat) (data : Bytes) : Option (Except Failure (DNSHeader × List DNSRR)) :=
  match dnsParseHeader data with
  | .error failure => some (.error (reported (-2) failure))
  | .ok hdr =>
    match dnsSkipQuestions fuel data hdr.qdcount.toNat 12 with
    | none => none
    | some (.error failure) => some (.error failure)
    | some (.ok pos) => (dnsReadAnswers fuel data hdr.ancount.toNat pos []).map (·.map (hdr, ·))

section Messages

/-- At an offset of a message stands the name with these labels, and behind it the next offset. A pointer leads to
the rest of a name at an earlier offset. -/
inductive NameAt (data : Bytes) : Nat → List CString → Nat → Prop where
  | root {pos : Nat} (zero : data[pos]? = some 0) : NameAt data pos [] (pos + 1)
  | label {pos next : Nat} {label : CString} {labels : List CString} (here : wireLabel label <+: data.drop pos)
      (length : LabelLength label) (others : NameAt data (pos + (wireLabel label).length) labels next) :
      NameAt data pos (label :: labels) next
  | compressed {pos next : Nat} {labelLen low : UInt8} {labels : List CString} (high : data[pos]? = some labelLen)
      (points : isPointer labelLen = true) (second : data[pos + 1]? = some low)
      (earlier : (pointer labelLen low).toNat < pos) (target : NameAt data (pointer labelLen low).toNat labels next) :
      NameAt data pos labels (pos + 2)

/-- A question as it is encoded. -/
structure Question where
  labels : List CString
  qtype : BitVec 16
  qclass : BitVec 16
  deriving DecidableEq, Repr

/-- A resource record as it is encoded. -/
structure ResourceRecord where
  labels : List CString
  type : BitVec 16
  rrclass : BitVec 16
  ttl : BitVec 32
  rdata : Bytes
  deriving DecidableEq, Repr

def Question.fields (question : Question) : Bytes := writeU16 question.qtype ++ writeU16 question.qclass

def ResourceRecord.fields (record : ResourceRecord) : Bytes :=
  writeU16 record.type ++ (writeU16 record.rrclass ++ (writeU32 record.ttl ++
    (writeU16 (.ofNat 16 record.rdata.length) ++ record.rdata)))

/-- The answer that a record becomes. -/
def ResourceRecord.answer (record : ResourceRecord) : DNSRR :=
  ⟨[dot].intercalate record.labels, record.type, record.rrclass, record.ttl, .ofNat 16 record.rdata.length,
    record.rdata ++ .replicate (rdataSize - record.rdata.length) 0⟩

/-- The labels of a name and the zero take 255 bytes at most. -/
def NameLength (labels : List CString) : Prop := (wireName labels).length ≤ 255

instance (label : CString) : Decidable (LabelLength label) := inferInstanceAs (Decidable (_ ∧ _))

instance (labels : List CString) : Decidable (NameLength labels) := Nat.decLe _ _

/-- From an offset on, the message has these questions one after the other. -/
inductive QuestionsAt (data : Bytes) : Nat → List Question → Nat → Prop where
  | nil {pos : Nat} : QuestionsAt data pos [] pos
  | cons {pos behind next : Nat} {question : Question} {questions : List Question}
      (name : NameAt data pos question.labels behind) (length : NameLength question.labels)
      (fields : question.fields <+: data.drop behind)
      (others : QuestionsAt data (behind + question.fields.length) questions next) :
      QuestionsAt data pos (question :: questions) next

/-- From an offset on, the message has these records one after the other. -/
inductive RecordsAt (data : Bytes) : Nat → List ResourceRecord → Nat → Prop where
  | nil {pos : Nat} : RecordsAt data pos [] pos
  | cons {pos behind next : Nat} {record : ResourceRecord} {records : List ResourceRecord}
      (name : NameAt data pos record.labels behind) (length : NameLength record.labels)
      (sized : record.rdata.length ≤ rdataSize) (fields : record.fields <+: data.drop behind)
      (others : RecordsAt data (behind + record.fields.length) records next) :
      RecordsAt data pos (record :: records) next

/-- What a response says. -/
structure Response where
  id : BitVec 16
  flags : BitVec 16
  questions : List Question
  records : List ResourceRecord
  nscount : BitVec 16
  arcount : BitVec 16
  deriving DecidableEq, Repr

def Response.header (response : Response) : DNSHeader :=
  ⟨response.id, response.flags, .ofNat 16 response.questions.length, .ofNat 16 response.records.length,
    response.nscount, response.arcount⟩

def DNSHeader.fields (hdr : DNSHeader) : Bytes :=
  writeU16 hdr.id ++ (writeU16 hdr.flags ++ (writeU16 hdr.qdcount ++ (writeU16 hdr.ancount ++
    (writeU16 hdr.nscount ++ writeU16 hdr.arcount))))

/-- A message that encodes a response; the sections behind the answers may be any. -/
structure Encodes (data : Bytes) (response : Response) : Prop where
  header : response.header.fields <+: data
  questionCount : response.questions.length < 65536
  answerCount : response.records.length ≤ maxAnswers
  sections : ∃ behind next, QuestionsAt data 12 response.questions behind ∧
    RecordsAt data behind response.records next

/-- The message is parsed without an error into the answers that it encodes, as many as its header says. -/
def ParsedCompletely (data : Bytes) (response : Response) : Prop :=
  ∃ fuel hdr answers, dnsParseResponse fuel data = some (.ok (hdr, answers)) ∧
    answers.length = hdr.ancount.toNat ∧ answers = response.records.map ResourceRecord.answer

end Messages

section Names

variable {data : Bytes} {nameLen : UInt64} {pos next fuel more : Nat} {labels : List CString}

/-- A round over a compression pointer. -/
theorem dnsNameRound_pointer {cursor : NameCursor} {labelLen low : UInt8} (high : data[cursor.pos]? = some labelLen)
    (points : isPointer labelLen = true) (second : data[cursor.pos + 1]? = some low) :
    dnsNameRound data nameLen cursor = .inl { cursor with
      pos := (pointer labelLen low).toNat
      jumped := true
      jumpOffset := if cursor.jumped then cursor.jumpOffset else cursor.pos + 2 } := by
  have more : labelLen ≠ 0 := by
    rintro rfl
    exact absurd points (by decide)
  simp only [dnsNameRound, high, if_neg more, points, if_true, second]

/-- Wherever the labels of a name stand, the loop puts them together, and goes on behind the name or behind the
first pointer in it. -/
theorem NameAt.ends (name : NameAt data pos labels next) {cursor : NameCursor} (here : cursor.pos = pos)
    (room : cursor.name.length + (labels.flatMap wireLabel).length ≤ (nameLen - 1).toNat) :
    Loop.Ends (dnsNameRound data nameLen) cursor (.ok ⟨(cursor.name ++ labels.flatMap (· ++ [dot])).dropLast,
      if cursor.jumped then cursor.jumpOffset else next⟩) := by
  induction name generalizing cursor with
  | root zero =>
    subst here
    apply Loop.Ends.last
    simp [dnsNameRound, zero]
  | @label pos next label labels begins length _ ih =>
    subst here
    obtain ⟨rest, split⟩ := begins
    rw [List.flatMap_cons, List.length_append, length_wireLabel] at room
    have round : dnsNameRound data nameLen cursor = _ := dnsNameRound_label split.symm length (by omega)
    have others := @ih { cursor with
        pos := cursor.pos + (wireLabel label).length
        name := cursor.name ++ label ++ [dot] } rfl
      (by simp only [List.length_append, List.length_singleton]; omega)
    rw [List.flatMap_cons, ← List.append_assoc, ← List.append_assoc]
    exact others.before round
  | compressed high points second _ _ ih =>
    subst here
    have target := @ih { cursor with
        pos := _
        jumped := true
        jumpOffset := if cursor.jumped then cursor.jumpOffset else cursor.pos + 2 } rfl room
    exact target.before (dnsNameRound_pointer high points second)

/-- A name of a message is decoded, compressed or not. -/
theorem NameAt.decoded (name : NameAt data pos labels next) (length : NameLength labels) :
    ∃ fuel, dnsNameDecode fuel data pos DNS_MAX_NAME = some (.ok ⟨[dot].intercalate labels, next⟩) := by
  have most : (DNS_MAX_NAME - 1).toNat = 255 := rfl
  rw [NameLength, wireName, List.length_append] at length
  have ended : Loop.Ends (dnsNameRound data DNS_MAX_NAME) (nameCursor pos) _ := name.ends rfl (by
    rw [most]
    exact Nat.le_trans (Nat.le_of_eq (Nat.zero_add _)) (Nat.le_of_add_right_le length))
  rw [nameCursor, List.nil_append, dropLast_dotted] at ended
  exact ended

/-- More rounds than a name takes change nothing. -/
theorem dnsNameDecode_more {result : Except Failure DecodedName} (enough : fuel ≤ more)
    (decoded : dnsNameDecode fuel data pos nameLen = some result) :
    dnsNameDecode more data pos nameLen = some result := by
  obtain ⟨rounds, rfl⟩ := Nat.exists_eq_add_of_le enough
  exact Loop.run_add decoded rounds

end Names

section Answers

variable {data : Bytes} {pos next behind : Nat} {record : ResourceRecord} {records : List ResourceRecord}

theorem ResourceRecord.length_fields (record : ResourceRecord) : record.fields.length = 10 + record.rdata.length := by
  simp only [ResourceRecord.fields, writeU16, writeU32, List.length_append, List.length_cons, List.length_nil]
  omega

/-- The fields of a record are read, and its data is filled up with zeros. -/
theorem dnsRecordFields_ok (begins : record.fields <+: data.drop behind) (sized : record.rdata.length ≤ rdataSize) :
    dnsRecordFields data ⟨[dot].intercalate record.labels, behind⟩ =
      .ok (record.answer, behind + record.fields.length) := by
  obtain ⟨rest, split⟩ := begins
  have inside : behind + record.fields.length ≤ data.length := by
    have size := congrArg List.length split
    have positive : 0 < record.fields.length := by
      rw [record.length_fields]
      omega
    rw [List.length_append, List.length_drop] at size
    omega
  rw [record.length_fields] at inside ⊢
  have narrow : (BitVec.ofNat 16 record.rdata.length).toNat = record.rdata.length :=
    Nat.mod_eq_of_lt (Nat.lt_of_le_of_lt sized (by decide))
  rw [ResourceRecord.fields] at split
  simp only [List.append_assoc] at split
  have header : ¬behind + 10 > data.length := by omega
  have whole : ¬behind + 10 + record.rdata.length > data.length := by omega
  have copied : (record.rdata ++ rest).take (min rdataSize record.rdata.length) = record.rdata := by
    rw [Nat.min_eq_right sized, List.take_left]
  rw [dnsRecordFields]
  simp only [if_neg header, ← split, readU16_writeU16, readU32_writeU32, ok_bind, narrow, if_neg whole, copied]
  rw [ResourceRecord.answer, Nat.add_assoc]

/-- A record begins inside the message. -/
theorem NameAt.inside {labels : List CString} (name : NameAt data pos labels next) : pos < data.length := by
  cases name with
  | root zero => exact (List.getElem?_eq_some_iff.mp zero).1
  | label begins length _ =>
    by_contra beyond
    rw [List.drop_of_length_le (Nat.le_of_not_lt beyond)] at begins
    cases List.prefix_nil.mp begins
  | compressed high _ _ _ _ => exact (List.getElem?_eq_some_iff.mp high).1

/-- The loop over the answers stores every record, with enough rounds for each name. -/
theorem RecordsAt.read (encoded : RecordsAt data pos records next) {answers : List DNSRR}
    (room : answers.length + records.length ≤ maxAnswers) :
    ∃ enough, ∀ fuel, enough ≤ fuel → dnsReadAnswers fuel data records.length pos answers =
      some (.ok (answers ++ records.map ResourceRecord.answer)) := by
  induction encoded generalizing answers with
  | nil =>
    refine ⟨0, fun fuel _ => ?_⟩
    rw [List.map_nil, List.append_nil]
    rfl
  | @cons pos behind next record records name length sized fields _ ih =>
    rw [List.length_cons] at room
    obtain ⟨rounds, decoded⟩ := name.decoded length
    obtain ⟨enough, others⟩ := @ih (answers ++ [record.answer]) (by
      rw [List.length_append, List.length_singleton]
      omega)
    refine ⟨max rounds enough, fun fuel most => ?_⟩
    have first := dnsNameDecode_more (Nat.le_trans (Nat.le_max_left _ _) most) decoded
    have open_loop : answers.length < maxAnswers ∧ pos < data.length := ⟨by omega, name.inside⟩
    rw [List.length_cons, dnsReadAnswers, if_pos open_loop, dnsNameDecodeInto, first]
    simp only [dnsRecordFields_ok fields sized]
    rw [others fuel (Nat.le_trans (Nat.le_max_right _ _) most), List.map_cons, List.append_assoc,
      List.singleton_append]

end Answers

section Parsing

variable {data : Bytes} {response : Response}

/-- The header is read as it is encoded. -/
theorem Encodes.parsed_header (encodes : Encodes data response) : dnsParseHeader data = .ok response.header := by
  obtain ⟨rest, rfl⟩ := encodes.header
  rw [DNSHeader.fields]
  simp only [List.append_assoc]
  exact dnsParseHeader_fields ..

/-- The first question ends the parse, whatever it is. -/
theorem dnsSkipQuestions_first (fuel : Nat) {count pos : Nat} (inside : pos < data.length) :
    dnsSkipQuestions fuel data (count + 1) pos = some (.error (.code (-3))) := by
  rw [dnsSkipQuestions, if_pos inside]
  rfl

/-- Without a question, the answers are read. -/
theorem Encodes.parsed (encodes : Encodes data response) (unasked : response.questions = []) :
    ParsedCompletely data response := by
  obtain ⟨behind, next, asked, answered⟩ := encodes.sections
  rw [unasked] at asked
  cases asked
  have counted : response.header.ancount.toNat = response.records.length :=
    Nat.mod_eq_of_lt (Nat.lt_of_le_of_lt encodes.answerCount (by decide))
  have none_asked : response.header.qdcount.toNat = 0 := by rw [Response.header, unasked]; rfl
  have room : ([] : List DNSRR).length + response.records.length ≤ maxAnswers := by simpa using encodes.answerCount
  obtain ⟨enough, read⟩ := answered.read room
  refine ⟨enough, response.header, _, ?_, ?_, rfl⟩
  · rw [dnsParseResponse, encodes.parsed_header]
    simp only [none_asked, dnsSkipQuestions, counted, read enough (Nat.le_refl _)]
    rfl
  · rw [counted, List.length_map]

/-- With a question, the parse ends with an error. -/
theorem Encodes.refused (encodes : Encodes data response) (asked : response.questions ≠ []) (fuel : Nat) :
    dnsParseResponse fuel data = some (.error (.code (-3))) := by
  obtain ⟨behind, next, questions, -⟩ := encodes.sections
  obtain ⟨question, more, split⟩ := List.exists_cons_of_ne_nil asked
  have inside : 12 < data.length := by
    rw [split] at questions
    cases questions with
    | cons name _ _ _ => exact name.inside
  have counted : response.header.qdcount.toNat = more.length + 1 := by
    have narrow := encodes.questionCount
    rw [split] at narrow
    rw [Response.header, split]
    exact Nat.mod_eq_of_lt narrow
  rw [dnsParseResponse, encodes.parsed_header]
  simp only [counted, dnsSkipQuestions_first fuel inside]

/-- A well-formed response is parsed completely exactly if it repeats no question. -/
theorem dnsParseResponse_complete_iff (data : Bytes) (response : Response) (encodes : Encodes data response) :
    ParsedCompletely data response ↔ response.questions = [] := by
  constructor
  · intro ⟨fuel, hdr, answers, parsed, _⟩
    by_contra asked
    rw [encodes.refused asked fuel] at parsed
    cases parsed
  · exact encodes.parsed

/-- The question for the address of `a`, and its answer, with the name of the question in place of one. -/
def askedReply : Response where
  id := 1
  flags := 0x8180
  questions := [⟨[[97]], 1, 1⟩]
  records := [⟨[[97]], 1, 1, 60, [93, 184, 216, 34]⟩]
  nscount := 0
  arcount := 0

def askedMessage : Bytes :=
  [0, 1, 0x81, 0x80, 0, 1, 0, 1, 0, 0, 0, 0, 1, 97, 0, 0, 1, 0, 1,
    0xC0, 12, 0, 1, 0, 1, 0, 0, 0, 60, 0, 4, 93, 184, 216, 34]

/-- Two answers without the question; the name of the second is a pointer to that of the first. -/
def unaskedReply : Response where
  id := 1
  flags := 0x8180
  questions := []
  records := [⟨[[97]], 1, 1, 60, [93, 184, 216, 34]⟩, ⟨[[98], [97]], 1, 1, 60, [8, 8, 8, 8]⟩]
  nscount := 0
  arcount := 0

def unaskedMessage : Bytes :=
  [0, 1, 0x81, 0x80, 0, 0, 0, 2, 0, 0, 0, 0, 1, 97, 0, 0, 1, 0, 1, 0, 0, 0, 60, 0, 4, 93, 184, 216, 34,
    1, 98, 0xC0, 12, 0, 1, 0, 1, 0, 0, 0, 60, 0, 4, 8, 8, 8, 8]

theorem askedMessage_encodes : Encodes askedMessage askedReply where
  header := by decide
  questionCount := by decide
  answerCount := by decide
  sections := by
    have named : NameAt askedMessage 12 [[97]] 15 := .label (by decide) (by decide) (.root (by decide))
    refine ⟨19, 35, ?_, ?_⟩
    · exact .cons named (by decide) (by decide) .nil
    · have compressed : NameAt askedMessage 19 [[97]] 21 :=
        @NameAt.compressed _ _ _ 0xC0 12 _ (by decide) (by decide) (by decide) (by decide) named
      exact .cons compressed (by decide) (by decide) (by decide) .nil

theorem unaskedMessage_encodes : Encodes unaskedMessage unaskedReply where
  header := by decide
  questionCount := by decide
  answerCount := by decide
  sections := by
    have named : NameAt unaskedMessage 12 [[97]] 15 := .label (by decide) (by decide) (.root (by decide))
    have compressed : NameAt unaskedMessage 31 [[97]] 33 :=
      @NameAt.compressed _ _ _ 0xC0 12 _ (by decide) (by decide) (by decide) (by decide) named
    refine ⟨12, 47, .nil, ?_⟩
    refine .cons named (by decide) (by decide) (by decide) ?_
    exact .cons (.label (by decide) (by decide) compressed) (by decide) (by decide) (by decide) .nil

theorem unaskedMessage_complete : ParsedCompletely unaskedMessage unaskedReply :=
  (dnsParseResponse_complete_iff unaskedMessage unaskedReply unaskedMessage_encodes).mpr rfl

/-- The answer to a question is well formed, and refused. -/
theorem askedMessage_refused : Encodes askedMessage askedReply ∧ ¬ParsedCompletely askedMessage askedReply := by
  refine ⟨askedMessage_encodes, ?_⟩
  intro ⟨fuel, hdr, answers, parsed, _⟩
  rw [askedMessage_encodes.refused (List.cons_ne_nil _ _) fuel] at parsed
  cases parsed

end Parsing

end MiniNetDist.NetworkBase.UdpDns
