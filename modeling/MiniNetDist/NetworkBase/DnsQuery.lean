import MiniNetDist.Library.CharArray
import MiniNetDist.Library.Memory
import MiniNetDist.NetworkBase.DnsName

/-! Queries of `mini-network-base/src/udp_dns.c`: a domain name becomes labels with their lengths in front, and is read
back from them. -/

namespace MiniNetDist.NetworkBase.UdpDns

open Library

def dot : UInt8 := 46

def DNS_MAX_NAME : UInt64 := 256

/-- A label goes behind the `total` bytes of the name; none for the return value 0. -/
def putLabel (label : CString) (buf : Bytes) (total : UInt16) : Option (Bytes × UInt16) :=
  if label.length > 63 then none
  else
    let buf := Memory.write buf total.toNat [.ofNat label.length]
    let total := total + 1
    some (Memory.write buf total.toNat label, total + .ofNat label.length)

/-- The loop over the name and its terminator; `label` is what stands between `start` and `pos`. -/
def dnsBuildLabels : CString → CString → Bytes → UInt16 → Option (Bytes × UInt16)
  | [], label, buf, total => putLabel label buf total
  | char :: rest, label, buf, total =>
    if char = dot then
      match putLabel label buf total with
      | none => none
      | some (buf, total) => dnsBuildLabels rest [] buf total
    else dnsBuildLabels rest (label ++ [char]) buf total

def dnsBuildName (name : CString) (buf : Bytes) : Option (Bytes × UInt16) :=
  match dnsBuildLabels name [] buf 0 with
  | none => none
  | some (buf, total) => some (Memory.write buf total.toNat [0], total + 1)

/-- The header of a query. -/
def queryHeader (msgId : BitVec 16) : Bytes :=
  writeU16 msgId ++ [0x01, 0x00, 0x00, 0x01, 0x00, 0x00, 0x00, 0x00, 0x00, 0x00]

/-- The buffer and the length of the message in it; `msgId` is drawn at random. -/
def dnsBuildQuery (name : CString) (qtype msgId : BitVec 16) (buf : Bytes) : Except Failure (Bytes × Nat) :=
  let buf := Memory.write buf 0 (queryHeader msgId)
  match dnsBuildName name (buf.drop 12) with
  | none => .error (.code (-2))
  | some (named, nameLen) =>
    if nameLen = 0 then .error (.code (-2))
    else
      let offset := 12 + nameLen
      .ok (Memory.write (buf.take 12 ++ named) offset.toNat (writeU16 qtype ++ [0x00, 0x01]), offset.toNat + 4)

structure DNSHeader where
  id : BitVec 16
  flags : BitVec 16
  qdcount : BitVec 16
  ancount : BitVec 16
  nscount : BitVec 16
  arcount : BitVec 16
  deriving DecidableEq, Repr

def dnsParseHeader (data : Bytes) : Except Failure DNSHeader :=
  if data.length < 12 then .error (.code (-1))
  else do
    let (id, rest) ← readU16 data
    let (flags, rest) ← readU16 rest
    let (qdcount, rest) ← readU16 rest
    let (ancount, rest) ← readU16 rest
    let (nscount, rest) ← readU16 rest
    let (arcount, _) ← readU16 rest
    .ok ⟨id, flags, qdcount, ancount, nscount, arcount⟩

structure DNSQuestion where
  qname : CString
  qtype : BitVec 16
  qclass : BitVec 16
  deriving DecidableEq, Repr

/-- What follows the name of a question. -/
def dnsQuestionFields (data : Bytes) : Except Failure DecodedName → Except Failure (DNSQuestion × Nat)
  | .error .outOfBounds => .error .outOfBounds
  | .error (.code _) => .error (.code (-3))
  | .ok decoded =>
    let pos := decoded.nextOffset
    if pos + 4 > data.length then .error (.code (-4))
    else do
      let (qtype, rest) ← readU16 (data.drop pos)
      let (qclass, _) ← readU16 rest
      .ok (⟨cString decoded.name, qtype, qclass⟩, pos + 4)

/-- The question and the offset behind it; none if the name takes more than `fuel` rounds. -/
def dnsParseQuestion (fuel : Nat) (data : Bytes) (offset : Nat) : Option (Except Failure (DNSQuestion × Nat)) :=
  if offset ≥ data.length then some (.error (.code (-2)))
  else (dnsNameDecode fuel data offset DNS_MAX_NAME).map (dnsQuestionFields data)

/-- A label as it stands in a message. -/
def wireLabel (label : CString) : Bytes := .ofNat label.length :: label

/-- A name as it stands in a message, by its labels. -/
def wireName (labels : List CString) : Bytes := labels.flatMap wireLabel ++ [0]

/-- What a label may be, by its length. -/
def LabelLength (label : CString) : Prop := 1 ≤ label.length ∧ label.length ≤ 63

section Building

variable {size : Nat} {bytes : Bytes} {buf : Bytes} {total : UInt16} {label : CString} {labels : List CString}

/-- The buffer begins with these bytes, and `total` is their number. -/
structure Written (size : Nat) (bytes : Bytes) (buf : Bytes) (total : UInt16) : Prop where
  begins : bytes <+: buf
  size : buf.length = size
  total : total.toNat = bytes.length

theorem Written.write (written : Written size bytes buf total) (more : Bytes)
    (room : bytes.length + more.length ≤ size) (narrow : bytes.length + more.length < 65536) :
    Written size (bytes ++ more) (Memory.write buf total.toNat more) (total + .ofNat more.length) where
  begins := Memory.prefix_write written.begins written.total
  size := by
    rw [Memory.length_write, written.size]
    rw [written.total, written.size]
    exact room
  total := by
    have count : (UInt16.ofNat more.length).toNat = more.length :=
      UInt16.toNat_ofNat_of_lt' (Nat.lt_of_le_of_lt (Nat.le_add_left _ _) narrow)
    rw [UInt16.toNat_add, count, written.total, List.length_append, Nat.mod_eq_of_lt narrow]

theorem length_wireLabel (label : CString) : (wireLabel label).length = label.length + 1 := rfl

theorem putLabel_written (written : Written size bytes buf total) (short : label.length ≤ 63)
    (room : bytes.length + (wireLabel label).length ≤ size) (narrow : bytes.length + (wireLabel label).length < 65536) :
    ∃ buf' total', putLabel label buf total = some (buf', total') ∧
      Written size (bytes ++ wireLabel label) buf' total' := by
  have length : (wireLabel label).length = 1 + label.length := Nat.add_comm _ _
  rw [length, ← Nat.add_assoc] at room narrow
  have counted := written.write [.ofNat label.length] (Nat.le_of_add_right_le room) (Nat.lt_of_add_right_lt narrow)
  have copied := counted.write label (by simpa using room) (by simpa using narrow)
  refine ⟨_, _, if_neg (Nat.not_lt_of_le short), ?_⟩
  rw [List.append_assoc] at copied
  exact copied

/-- The loop over a label that another one follows. -/
theorem dnsBuildLabels_dot (clear : dot ∉ label) (begun rest : CString) (buf : Bytes) (total : UInt16) :
    dnsBuildLabels (label ++ dot :: rest) begun buf total =
      match putLabel (begun ++ label) buf total with
      | none => none
      | some (buf, total) => dnsBuildLabels rest [] buf total := by
  induction label generalizing begun with
  | nil => rw [List.nil_append, List.append_nil, dnsBuildLabels, if_pos rfl]
  | cons char label ih =>
    obtain ⟨other, later⟩ := not_or.mp (List.mem_cons.not.mp clear)
    rw [List.cons_append, dnsBuildLabels, if_neg (Ne.symm other), ih later, List.append_assoc, List.singleton_append]

/-- The loop over the last label. -/
theorem dnsBuildLabels_last (clear : dot ∉ label) (begun : CString) (buf : Bytes) (total : UInt16) :
    dnsBuildLabels label begun buf total = putLabel (begun ++ label) buf total := by
  induction label generalizing begun with
  | nil => rw [List.append_nil, dnsBuildLabels]
  | cons char label ih =>
    obtain ⟨other, later⟩ := not_or.mp (List.mem_cons.not.mp clear)
    rw [dnsBuildLabels, if_neg (Ne.symm other), ih later, List.append_assoc, List.singleton_append]

theorem dnsBuildLabels_written (some_label : labels ≠ []) (lengths : ∀ label ∈ labels, LabelLength label)
    (clear : ∀ label ∈ labels, dot ∉ label) (written : Written size bytes buf total)
    (room : bytes.length + (labels.flatMap wireLabel).length ≤ size)
    (narrow : bytes.length + (labels.flatMap wireLabel).length < 65536) :
    ∃ buf' total', dnsBuildLabels ([dot].intercalate labels) [] buf total = some (buf', total') ∧
      Written size (bytes ++ labels.flatMap wireLabel) buf' total' := by
  induction labels generalizing bytes buf total with
  | nil => exact absurd rfl some_label
  | cons label rest ih =>
    rw [List.flatMap_cons, List.length_append, ← Nat.add_assoc] at room narrow
    obtain ⟨first, others⟩ := List.forall_mem_cons.mp lengths
    obtain ⟨dotless, later⟩ := List.forall_mem_cons.mp clear
    obtain ⟨buf', total', put, held⟩ := putLabel_written written first.2 (Nat.le_of_add_right_le room)
      (Nat.lt_of_add_right_lt narrow)
    cases rest with
    | nil =>
      rw [List.intercalate_singleton, dnsBuildLabels_last dotless, List.nil_append]
      exact ⟨buf', total', put, by simpa using held⟩
    | cons second rest =>
      rw [List.intercalate_cons_cons, List.append_assoc, List.singleton_append, dnsBuildLabels_dot dotless,
        List.nil_append, put, List.flatMap_cons, ← List.append_assoc]
      rw [← List.length_append] at room narrow
      exact ih (List.cons_ne_nil _ _) others later held room narrow

/-- A name takes two bytes more in a message than its text. -/
theorem length_wireName (some_label : labels ≠ []) :
    (wireName labels).length = ([dot].intercalate labels).length + 2 := by
  have each : (labels.flatMap wireLabel).length = ([dot].intercalate labels).length + 1 := by
    induction labels with
    | nil => exact absurd rfl some_label
    | cons label rest ih =>
      cases rest with
      | nil => simp [wireLabel]
      | cons second rest =>
        rw [List.flatMap_cons, List.length_append, ih (List.cons_ne_nil _ _), List.intercalate_cons_cons]
        simp [wireLabel]
        omega
  rw [wireName, List.length_append, each, List.length_singleton]

theorem dnsBuildName_written (some_label : labels ≠ []) (lengths : ∀ label ∈ labels, LabelLength label)
    (clear : ∀ label ∈ labels, dot ∉ label) (room : (wireName labels).length ≤ buf.length)
    (narrow : (wireName labels).length < 65536) :
    ∃ buf' total', dnsBuildName ([dot].intercalate labels) buf = some (buf', total') ∧
      Written buf.length (wireName labels) buf' total' := by
  have empty : Written buf.length [] buf 0 := ⟨List.nil_prefix, rfl, rfl⟩
  rw [wireName, List.length_append] at room narrow
  obtain ⟨buf', total', built, held⟩ := dnsBuildLabels_written some_label lengths clear empty
    (by rw [List.length_nil, Nat.zero_add]; exact Nat.le_of_add_right_le room)
    (by rw [List.length_nil, Nat.zero_add]; exact Nat.lt_of_add_right_lt narrow)
  refine ⟨_, _, by rw [dnsBuildName, built], ?_⟩
  exact held.write [0] room narrow

end Building

section Reading

variable {data rest : Bytes} {nameLen : UInt64} {label : CString} {labels : List CString} {cursor : NameCursor}

theorem emit_fits {name bytes : Bytes} (room : name.length + bytes.length ≤ (nameLen - 1).toNat) :
    emit nameLen name bytes = name ++ bytes := by
  rw [emit, List.take_of_length_le (Nat.le_sub_of_add_le' room)]

theorem labelLength_plain (length : Fin 64) :
    (UInt8.ofNat length).toNat = length ∧ isPointer (UInt8.ofNat length) = false := by
  decide +revert

/-- A round over a label. -/
theorem dnsNameRound_label (here : data.drop cursor.pos = wireLabel label ++ rest) (length : LabelLength label)
    (room : cursor.name.length + label.length + 1 ≤ (nameLen - 1).toNat) :
    dnsNameRound data nameLen cursor = .inl { cursor with
      pos := cursor.pos + (wireLabel label).length
      name := cursor.name ++ label ++ [dot] } := by
  obtain ⟨count, plain⟩ := labelLength_plain ⟨label.length, Nat.lt_succ_of_le length.2⟩
  dsimp only at count plain
  have first : data[cursor.pos]? = some (.ofNat label.length) := by
    rw [← List.head?_drop, here]
    rfl
  have behind : data.drop (cursor.pos + 1) = label ++ rest := by
    rw [← List.drop_drop, here]
    rfl
  have filled : UInt8.ofNat label.length ≠ 0 := by
    intro zero
    rw [zero] at count
    exact absurd (count ▸ length.1) (by decide)
  have inside : ¬cursor.pos + 1 + label.length > data.length := by
    have size := congrArg List.length behind
    rw [List.length_drop, List.length_append] at size
    have begun : cursor.pos < data.length := (List.getElem?_eq_some_iff.mp first).1
    omega
  have text : (data.drop (cursor.pos + 1)).take label.length = label := by rw [behind, List.take_left]
  have copied : emit nameLen cursor.name label = cursor.name ++ label := emit_fits (Nat.le_of_add_right_le room)
  have dotted : emit nameLen (cursor.name ++ label) [46] = cursor.name ++ label ++ [dot] :=
    emit_fits (by rw [List.length_append]; exact room)
  rw [dnsNameRound, first]
  simp only [if_neg filled, plain, count, if_neg inside, text, copied, dotted, Bool.false_eq_true, if_false]
  rw [wireLabel, List.length_cons, Nat.add_assoc, Nat.add_comm 1]

/-- The loop over labels. -/
theorem reaches_labels (here : data.drop cursor.pos = labels.flatMap wireLabel ++ rest)
    (lengths : ∀ label ∈ labels, LabelLength label)
    (room : cursor.name.length + (labels.flatMap wireLabel).length ≤ (nameLen - 1).toNat) :
    Loop.Reaches (dnsNameRound data nameLen) cursor { cursor with
      pos := cursor.pos + (labels.flatMap wireLabel).length
      name := cursor.name ++ labels.flatMap (· ++ [dot]) } := by
  induction labels generalizing cursor with
  | nil =>
    rw [List.flatMap_nil, List.length_nil, List.flatMap_nil, List.append_nil]
    exact .refl
  | cons label labels ih =>
    obtain ⟨first, others⟩ := List.forall_mem_cons.mp lengths
    rw [List.flatMap_cons, List.append_assoc] at here
    rw [List.flatMap_cons, List.length_append, length_wireLabel] at room
    have round : dnsNameRound data nameLen cursor = _ := dnsNameRound_label here first (by omega)
    refine .head round ?_
    have behind : data.drop (cursor.pos + (wireLabel label).length) = labels.flatMap wireLabel ++ rest := by
      rw [← List.drop_drop, here, List.drop_left]
    have later := @ih { cursor with
        pos := cursor.pos + (wireLabel label).length
        name := cursor.name ++ label ++ [dot] } behind others
      (by simp only [List.length_append, List.length_singleton]; omega)
    rw [List.flatMap_cons, List.length_append, ← Nat.add_assoc, List.flatMap_cons, ← List.append_assoc,
      ← List.append_assoc]
    exact later

/-- A name is read from its labels. -/
theorem dnsNameDecode_labels {offset : Nat} (here : data.drop offset = wireName labels ++ rest)
    (lengths : ∀ label ∈ labels, LabelLength label) (room : (labels.flatMap wireLabel).length ≤ (nameLen - 1).toNat) :
    ∃ fuel, dnsNameDecode fuel data offset nameLen =
      some (.ok ⟨(labels.flatMap (· ++ [dot])).dropLast, offset + (wireName labels).length⟩) := by
  rw [wireName, List.append_assoc] at here
  have reached : Loop.Reaches (dnsNameRound data nameLen) (nameCursor offset) _ :=
    reaches_labels here lengths (by simpa [nameCursor] using room)
  refine Loop.ends_iff.mpr ⟨_, reached, ?_⟩
  have zero : data[offset + (labels.flatMap wireLabel).length]? = some 0 := by
    rw [← List.head?_drop, ← List.drop_drop, here, List.drop_left]
    rfl
  rw [dnsNameRound]
  simp only [nameCursor, zero, if_true, List.nil_append, Bool.false_eq_true, if_false]
  rw [wireName, List.length_append, List.length_singleton, Nat.add_assoc]

/-- The dot behind the last label is the one that the terminator replaces. -/
theorem dropLast_dotted (labels : List CString) :
    (labels.flatMap (· ++ [dot])).dropLast = [dot].intercalate labels := by
  induction labels with
  | nil => rfl
  | cons label rest ih =>
    cases rest with
    | nil => simp
    | cons second rest =>
      rw [List.flatMap_cons, List.dropLast_append_of_ne_nil (by simp), ih, List.intercalate_cons_cons]

theorem dnsParseHeader_fields (id flags qdcount ancount nscount arcount : BitVec 16) (rest : Bytes) :
    dnsParseHeader (writeU16 id ++ (writeU16 flags ++ (writeU16 qdcount ++ (writeU16 ancount ++
      (writeU16 nscount ++ (writeU16 arcount ++ rest)))))) = .ok ⟨id, flags, qdcount, ancount, nscount, arcount⟩ := by
  rw [dnsParseHeader, if_neg (by simp [writeU16])]
  simp only [readU16_writeU16, ok_bind]

theorem dnsQuestionFields_ok (decoded : DecodedName) (qtype qclass : BitVec 16)
    (here : data.drop decoded.nextOffset = writeU16 qtype ++ (writeU16 qclass ++ rest)) :
    dnsQuestionFields data (.ok decoded) = .ok (⟨cString decoded.name, qtype, qclass⟩, decoded.nextOffset + 4) := by
  have inside : ¬decoded.nextOffset + 4 > data.length := by
    have size := congrArg List.length here
    rw [List.length_drop] at size
    simp [writeU16] at size
    omega
  rw [dnsQuestionFields]
  simp only [if_neg inside, here, readU16_writeU16, ok_bind]

end Reading

section RoundTrip

variable {buf : Bytes} {labels : List CString}

/-- The message of a query. -/
def queryMessage (labels : List CString) (qtype msgId : BitVec 16) : Bytes :=
  writeU16 msgId ++ (writeU16 0x0100 ++ (writeU16 1 ++ (writeU16 0 ++ (writeU16 0 ++ (writeU16 0 ++
    (wireName labels ++ (writeU16 qtype ++ (writeU16 1 ++ []))))))))

/-- No piece between dots has a dot. -/
theorem notMem_splitOn (name : CString) : ∀ label ∈ name.splitOn dot, dot ∉ label := by
  induction name with
  | nil => simp
  | cons char rest ih =>
    rw [List.splitOn_cons_eq_if_modifyHead]
    by_cases isDot : char = dot
    · rw [if_pos (beq_iff_eq.mpr isDot)]
      exact List.forall_mem_cons.mpr ⟨List.not_mem_nil, ih⟩
    · rw [if_neg (fun same => isDot (beq_iff_eq.mp same))]
      cases pieces : rest.splitOn dot with
      | nil => exact absurd pieces (List.splitOn_ne_nil dot rest)
      | cons first more =>
        rw [pieces] at ih
        obtain ⟨clear, later⟩ := List.forall_mem_cons.mp ih
        refine List.forall_mem_cons.mpr ⟨?_, later⟩
        exact fun inside => (List.mem_cons.mp inside).elim (fun same => isDot same.symm) clear

theorem queryMessage_eq (labels : List CString) (qtype msgId : BitVec 16) :
    queryMessage labels qtype msgId = queryHeader msgId ++ wireName labels ++ (writeU16 qtype ++ [0x00, 0x01]) := by
  rw [List.append_assoc]
  rfl

theorem length_queryMessage (qtype msgId : BitVec 16) (some_label : labels ≠ []) :
    (queryMessage labels qtype msgId).length = ([dot].intercalate labels).length + 18 := by
  rw [queryMessage_eq, List.length_append, List.length_append, length_wireName some_label]
  simp [queryHeader, writeU16]
  omega

/-- The message stands at the beginning of a buffer that is large enough. -/
theorem dnsBuildQuery_message (qtype msgId : BitVec 16) (some_label : labels ≠ [])
    (lengths : ∀ label ∈ labels, LabelLength label) (clear : ∀ label ∈ labels, dot ∉ label)
    (room : (queryMessage labels qtype msgId).length ≤ buf.length)
    (narrow : (queryMessage labels qtype msgId).length < 65536) :
    ∃ built, dnsBuildQuery ([dot].intercalate labels) qtype msgId buf =
        .ok (built, (queryMessage labels qtype msgId).length) ∧
      queryMessage labels qtype msgId <+: built := by
  have size : (queryMessage labels qtype msgId).length = 12 + (wireName labels).length + 4 := by
    rw [length_queryMessage qtype msgId some_label, length_wireName some_label]
    omega
  rw [size] at room narrow
  have front : Memory.write buf 0 (queryHeader msgId) = queryHeader msgId ++ buf.drop 12 := Memory.write_zero _ _
  have behind : (buf.drop 12).length = buf.length - 12 := List.length_drop
  obtain ⟨named, total, built, held⟩ := dnsBuildName_written some_label lengths clear
    (behind ▸ Nat.le_sub_of_add_le (by omega)) (by omega)
  have filled : total ≠ 0 := by
    intro none_written
    have count := held.total
    rw [none_written, length_wireName some_label] at count
    exact absurd count (by simp)
  have offset : (12 + total).toNat = (queryHeader msgId ++ wireName labels).length := by
    rw [UInt16.toNat_add, held.total, List.length_append]
    exact Nat.mod_eq_of_lt (Nat.lt_of_add_right_lt narrow)
  refine ⟨Memory.write (queryHeader msgId ++ named) (12 + total).toNat (writeU16 qtype ++ [0x00, 0x01]), ?_, ?_⟩
  · have kept : (queryHeader msgId ++ buf.drop 12).take 12 = queryHeader msgId := rfl
    have left : (queryHeader msgId ++ buf.drop 12).drop 12 = buf.drop 12 := rfl
    rw [dnsBuildQuery, front]
    simp only [left, built, if_neg filled, kept]
    rw [offset, size, List.length_append]
    rfl
  · rw [queryMessage_eq]
    exact Memory.prefix_write ((List.prefix_append_right_inj _).mpr held.begins) offset

/-- A query that was built for a name is parsed into that name. -/
theorem dnsBuildQuery_parsed (name : CString) (qtype msgId : BitVec 16) (buf : Bytes) (plain : 0 ∉ name)
    (short : name.length ≤ 253) (lengths : ∀ label ∈ name.splitOn dot, LabelLength label)
    (room : name.length + 18 ≤ buf.length) :
    ∃ built len, dnsBuildQuery name qtype msgId buf = .ok (built, len) ∧ len ≤ built.length ∧
      (∃ hdr, dnsParseHeader (built.take len) = .ok hdr ∧ hdr.qdcount = 1) ∧
      ∃ fuel, dnsParseQuestion fuel (built.take len) 12 = some (.ok (⟨name, qtype, 1⟩, len)) := by
  have joined : [dot].intercalate (name.splitOn dot) = name := List.intercalate_splitOn dot
  have some_label : name.splitOn dot ≠ [] := List.splitOn_ne_nil dot name
  have size := length_queryMessage qtype msgId some_label
  rw [joined] at size
  obtain ⟨built, query, begins⟩ := dnsBuildQuery_message qtype msgId some_label lengths (notMem_splitOn name)
    (size ▸ room) (by omega)
  rw [joined] at query
  have message : built.take (queryMessage (name.splitOn dot) qtype msgId).length =
      queryMessage (name.splitOn dot) qtype msgId := (List.prefix_iff_eq_take.mp begins).symm
  refine ⟨built, _, query, begins.length_le, ?_, ?_⟩
  · rw [message, queryMessage, dnsParseHeader_fields]
    exact ⟨_, rfl, rfl⟩
  · rw [message]
    have narrow : ((name.splitOn dot).flatMap wireLabel).length ≤ (DNS_MAX_NAME - 1).toNat := by
      have wire := length_wireName some_label
      rw [joined, wireName, List.length_append, List.length_singleton] at wire
      have most : (DNS_MAX_NAME - 1).toNat = 255 := rfl
      omega
    have here : (queryMessage (name.splitOn dot) qtype msgId).drop 12 =
        wireName (name.splitOn dot) ++ (writeU16 qtype ++ (writeU16 1 ++ [])) := rfl
    obtain ⟨fuel, decoded⟩ := dnsNameDecode_labels here lengths narrow
    rw [dropLast_dotted, joined] at decoded
    refine ⟨fuel, ?_⟩
    rw [dnsParseQuestion, if_neg (by omega), decoded, Option.map_some, dnsQuestionFields_ok]
    · rw [cString_eq plain, queryMessage_eq, List.length_append, List.length_append]
      rfl
    · rw [← List.drop_drop, here, List.drop_left]

/-- The name `a.bc.d`. -/
def threeLabels : CString := [97, 46, 98, 99, 46, 100]

theorem dnsBuildQuery_parsed_threeLabels :
    ∃ built len, dnsBuildQuery threeLabels 1 7 (List.replicate 24 0) = .ok (built, len) ∧ len ≤ built.length ∧
      (∃ hdr, dnsParseHeader (built.take len) = .ok hdr ∧ hdr.qdcount = 1) ∧
      ∃ fuel, dnsParseQuestion fuel (built.take len) 12 = some (.ok (⟨threeLabels, 1, 1⟩, len)) := by
  have lengths : ∀ label ∈ threeLabels.splitOn dot, LabelLength label := by
    unfold LabelLength
    decide
  exact dnsBuildQuery_parsed threeLabels 1 7 (List.replicate 24 0) (by decide) (by decide) lengths (by decide)

end RoundTrip

end MiniNetDist.NetworkBase.UdpDns
