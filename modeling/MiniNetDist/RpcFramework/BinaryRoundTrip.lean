import MiniNetDist.RpcFramework.Binary

/-! Whole messages in the binary encoding: the decoder's loop against the bytes of complete parameters,
and when an encoded message comes back. -/

namespace MiniNetDist.RpcFramework

open Library

section Loop

variable {data : Bytes} {len : Int} {pos count finished : Nat} {values : List RPCValue}

/-- From a position on, the input has the bytes of complete parameters with these values. -/
inductive Delimited (data : Bytes) (len : Int) : List RPCValue → Nat → Prop where
  | nil (pos : Nat) : Delimited data len [] pos
  | cons {item : Bytes} {value : RPCValue} {values : List RPCValue} {pos : Nat} (spelled : Spells item value)
      (there : item <+: data.drop pos) (inside : Inside len pos item)
      (rest : Delimited data len values (pos + item.length)) : Delimited data len (value :: values) pos

theorem Delimited.complete (delimited : Delimited data len values pos) (fits : len ≤ data.length)
    (small : len < 2147483648) : decodeParams data len values.length pos = .ok (values, values.length) := by
  induction delimited with
  | nil pos => rfl
  | cons spelled there inside rest ih =>
    rw [List.length_cons, decodeParams, spelled.complete there inside fits small, ok_bind]
    simp only []
    rw [ih, ok_bind]
    rfl

/-- What the loop leaves when it ends: complete parameters, and where it gave up one that is not. -/
structure Stopped (data : Bytes) (len : Int) (count pos : Nat) (values : List RPCValue) (finished : Nat)
    (done rest : List RPCValue) : Prop where
  split : values = done ++ rest
  delimited : Delimited data len done pos
  counted : finished = done.length
  ended : rest = [] ∧ done.length = count ∨
    done.length < count ∧ (rest = [.null] ∨ ∃ type, rest = [.unset type])

theorem readField_none {type : RPCValueType} {next : Bytes → Except Fault (RPCValue × Option Nat)} {value : RPCValue}
    (read : readField data len pos count type next = .ok (value, none)) :
    value = .unset type ∨ ∃ bytes, next bytes = .ok (value, none) := by
  rw [readField, bind_eq_ok_iff] at read
  obtain ⟨beyond, -, read⟩ := read
  split at read
  · exact .inl (Prod.mk.inj (Except.ok.inj read)).1.symm
  · rw [bind_eq_ok_iff] at read
    obtain ⟨bytes, -, followed⟩ := read
    exact .inr ⟨bytes, followed⟩

/-- A field that is read as a whole is given up only where it is not complete. -/
theorem readField_unset {type : RPCValueType} {next : Bytes → Except Fault (RPCValue × Option Nat)} {value : RPCValue}
    (read : readField data len pos count type next = .ok (value, none))
    (onward : ∀ bytes, ∃ result after, next bytes = .ok (result, some after)) : ∃ type, value = .unset type := by
  rcases readField_none read with same | ⟨bytes, followed⟩
  · exact ⟨type, same⟩
  · obtain ⟨result, after, reads⟩ := onward bytes
    rw [reads] at followed
    cases followed

theorem decodeString_none {value : RPCValue} (decoded : decodeString data len pos = .ok (value, none)) :
    ∃ type, value = .unset type := by
  rcases readField_none decoded with same | ⟨field, followed⟩
  · exact ⟨_, same⟩
  · simp only [] at followed
    split at followed
    · cases followed
    · exact readField_unset followed fun _ => ⟨_, _, rfl⟩

theorem decodeElements_none {arrlen : BitVec 32} {value : RPCValue}
    (decoded : decodeElements data len arrlen pos = .ok (value, none)) : value = .unset .array := by
  rw [decodeElements] at decoded
  split at decoded
  · exact (Prod.mk.inj (Except.ok.inj decoded)).1.symm
  · rw [bind_eq_ok_iff] at decoded
    obtain ⟨typeByte, -, decoded⟩ := decoded
    simp only [] at decoded
    split at decoded
    · rw [bind_eq_ok_iff] at decoded
      obtain ⟨result, -, decoded⟩ := decoded
      cases decoded
    · cases decoded

/-- A parameter that was given up has no value. -/
theorem rpcDecodeParamBinary_none {value : RPCValue} (decoded : rpcDecodeParamBinary data len pos = .ok (value, none)) :
    value = .null ∨ ∃ type, value = .unset type := by
  rw [rpcDecodeParamBinary] at decoded
  split at decoded
  · exact .inl (Prod.mk.inj (Except.ok.inj decoded)).1.symm
  · right
    rw [bind_eq_ok_iff] at decoded
    obtain ⟨typeByte, -, decoded⟩ := decoded
    unfold decodeValue at decoded
    split at decoded
    · exact readField_unset decoded fun _ => ⟨_, _, rfl⟩
    · exact readField_unset decoded fun _ => ⟨_, _, rfl⟩
    · exact decodeString_none decoded
    · rw [bind_eq_ok_iff] at decoded
      obtain ⟨bytes, -, decoded⟩ := decoded
      cases decoded
    · exact readField_unset decoded fun _ => ⟨_, _, rfl⟩
    · rcases readField_none decoded with same | ⟨field, followed⟩
      · exact ⟨_, same⟩
      · exact ⟨_, decodeElements_none followed⟩
    · cases decoded
    · cases decoded

theorem decodeParams_sound (decoded : decodeParams data len count pos = .ok (values, finished))
    (whole : ∀ value ∈ values, value.Whole) : ∃ done rest, Stopped data len count pos values finished done rest := by
  induction count generalizing pos values finished with
  | zero =>
    obtain ⟨rfl, rfl⟩ := Prod.mk.inj (Except.ok.inj decoded)
    exact ⟨[], [], rfl, .nil pos, rfl, .inl ⟨rfl, rfl⟩⟩
  | succ count ih =>
    simp only [decodeParams, bind_eq_ok_iff] at decoded
    obtain ⟨⟨value, reached⟩, first, decoded⟩ := decoded
    cases reached with
    | none =>
      obtain ⟨rfl, rfl⟩ := Prod.mk.inj (Except.ok.inj decoded)
      refine ⟨[], [value], rfl, .nil pos, rfl, .inr ⟨Nat.succ_pos count, ?_⟩⟩
      rcases rpcDecodeParamBinary_none first with rfl | ⟨type, rfl⟩
      · exact .inl rfl
      · exact .inr ⟨type, rfl⟩
    | some next =>
      simp only [bind_eq_ok_iff] at decoded
      obtain ⟨⟨others, further⟩, second, decoded⟩ := decoded
      obtain ⟨rfl, rfl⟩ := Prod.mk.inj (Except.ok.inj decoded)
      obtain ⟨item, spelled, there, rfl, inside⟩ := rpcDecodeParamBinary_sound first (whole value List.mem_cons_self)
      obtain ⟨done, rest, split, delimited, counted, ended⟩ :=
        ih second fun other member => whole other (List.mem_cons_of_mem _ member)
      refine ⟨value :: done, rest, by rw [split]; rfl, .cons spelled there inside delimited, by rw [counted]; rfl, ?_⟩
      rcases ended with ⟨nothing, all⟩ | ⟨fewer, given⟩
      · exact .inl ⟨nothing, by rw [List.length_cons, all]⟩
      · exact .inr ⟨Nat.succ_lt_succ fewer, given⟩

theorem decodeParams_length_le (decoded : decodeParams data len count pos = .ok (values, finished)) :
    values.length ≤ count := by
  induction count generalizing pos values finished with
  | zero =>
    obtain ⟨rfl, rfl⟩ := Prod.mk.inj (Except.ok.inj decoded)
    exact Nat.le_refl _
  | succ count ih =>
    simp only [decodeParams, bind_eq_ok_iff] at decoded
    obtain ⟨⟨value, reached⟩, -, decoded⟩ := decoded
    cases reached with
    | none =>
      obtain ⟨rfl, rfl⟩ := Prod.mk.inj (Except.ok.inj decoded)
      exact Nat.succ_le_succ (Nat.zero_le count)
    | some next =>
      simp only [bind_eq_ok_iff] at decoded
      obtain ⟨⟨others, further⟩, second, decoded⟩ := decoded
      obtain ⟨rfl, rfl⟩ := Prod.mk.inj (Except.ok.inj decoded)
      exact Nat.succ_le_succ (ih second)

end Loop

section Size

/-- The number of bytes of an encoded value. -/
def RPCValue.size : RPCValue → Nat
  | .int32 _ | .float _ => 5
  | .int64 _ => 9
  | .string text => 5 + text.length
  | .bool _ => 2
  | .array _ _ data => 6 + 4 * data.length
  | .null | .other _ | .unset _ => 1

def paramsSize : List RPCValue → Nat
  | [] => 0
  | value :: rest => value.size + paramsSize rest

/-- The number of bytes of an encoded message. -/
def RPCMessage.encodedSize (msg : RPCMessage) : Nat := 10 + paramsSize (msg.params.take msg.paramCount)

variable {data item : Bytes} {len : Int} {pos : Nat} {value : RPCValue} {values : List RPCValue}

theorem Spells.length_eq (spelled : Spells item value) : item.length = value.size := by
  cases spelled with
  | string text short =>
    rw [List.length_cons, List.length_append, length_writeI32be, RPCValue.size]
    omega
  | array elems few =>
    rw [List.length_cons, List.length_append, length_writeI32be, List.length_cons, length_flatMap_writeI32be, RPCValue.size]
    omega
  | _ => rfl

/-- A Boolean takes two bytes, so that its last one is at most the first after the end. -/
theorem Spells.inside_le (spelled : Spells item value) (inside : Inside len pos item) :
    ((pos + value.size : Nat) : Int) ≤ len + 1 := by
  rw [← spelled.length_eq]
  rcases inside with within | ⟨named, before⟩
  · omega
  · cases spelled with
    | bool byte =>
      simp only [List.length_cons, List.length_nil]
      omega
    | other code unknown =>
      obtain rfl := Option.some.inj named
      cases unknown
    | _ => exact absurd (Option.some.inj named) (by decide)

theorem Delimited.size_le (delimited : Delimited data len values pos) (start : (pos : Int) ≤ len + 1) :
    ((pos + paramsSize values : Nat) : Int) ≤ len + 1 := by
  induction delimited with
  | nil pos => exact start
  | cons spelled there inside rest ih =>
    have bound := spelled.inside_le inside
    have reached := ih (by rw [spelled.length_eq]; exact bound)
    rw [spelled.length_eq] at reached
    rw [paramsSize]
    omega

theorem size_le_of_mem (member : value ∈ values) : value.size ≤ paramsSize values := by
  induction values with
  | nil => cases member
  | cons head rest ih =>
    rw [paramsSize]
    rcases List.mem_cons.mp member with rfl | later
    · exact Nat.le_add_right _ _
    · exact Nat.le_trans (ih later) (Nat.le_add_left _ _)

theorem paramsSize_append (first second : List RPCValue) : paramsSize (first ++ second) = paramsSize first + paramsSize second := by
  induction first with
  | nil => rw [List.nil_append, paramsSize, Nat.zero_add]
  | cons value rest ih => rw [List.cons_append, paramsSize, paramsSize, ih, Nat.add_assoc]

theorem paramsSize_nulls (count : Nat) : paramsSize (List.replicate count .null) = count := by
  induction count with
  | zero => rfl
  | succ count ih =>
    rw [List.replicate_succ, paramsSize, ih, RPCValue.size]
    omega

/-- The strings of complete parameters are short. -/
theorem Delimited.string_short (delimited : Delimited data len values pos) {text : Bytes} (member : .string text ∈ values) :
    text.length < 2147483648 := by
  induction delimited with
  | nil pos => cases member
  | cons spelled there inside rest ih =>
    rcases List.mem_cons.mp member with rfl | later
    · cases spelled with
      | string _ short => exact short
    · exact ih later

end Size

section Encoding

variable {value : RPCValue} {values : List RPCValue}

/-- The values the encoding is meant for. -/
def RPCValue.Plain : RPCValue → Prop
  | .int32 _ | .int64 _ | .bool _ | .null => True
  | .string text => 0 ∉ text
  | .array elemType len data => elemType = .int32 ∧ len.toInt = data.length ∧ data.length ≤ RPC_MAX_ARRAY_LEN
  | .float _ | .other _ | .unset _ => False

theorem RPCValue.Plain.whole (plain : value.Plain) : value.Whole := by
  cases value with
  | array elemType len data =>
    obtain ⟨-, length, few⟩ := plain
    exact ⟨by rw [length]; exact Int.ofNat_le.mpr few, length⟩
  | _ => trivial

/-- The string of a value is shorter than 2^31 bytes. -/
def RPCValue.Short : RPCValue → Prop
  | .string text => text.length < 2147483648
  | _ => True

theorem flatMap_range_getD (elems : List (BitVec 32)) :
    (List.range elems.length).flatMap (fun i => writeI32be (elems.getD i 0#32)) = elems.flatMap writeI32be := by
  have listed : (List.range elems.length).map (fun i => elems.getD i 0#32) = elems := by
    apply List.ext_getElem
    · simp
    · intro i _ bound
      rw [List.getElem_map, List.getElem_range, List.getD_eq_getElem _ _ bound]
  rw [← List.flatMap_map (fun i => elems.getD i 0#32) writeI32be, listed]

/-- A value is encoded to the bytes that stand for it. -/
theorem RPCValue.Plain.encoded (plain : value.Plain) (short : value.Short) :
    ∃ item, rpcEncodeParamBinary value = .ok item ∧ Spells item value := by
  cases value with
  | int32 value => exact ⟨_, rfl, .int32 value⟩
  | int64 value => exact ⟨_, rfl, .int64 value⟩
  | bool value =>
    cases value with
    | false => exact ⟨_, rfl, .bool 0⟩
    | true => exact ⟨_, rfl, .bool 1⟩
  | null => exact ⟨_, rfl, .null⟩
  | string text =>
    obtain ⟨length, signed⟩ := toNat_ofNat_of_lt short
    refine ⟨_, ?_, .string text short⟩
    simp only [rpcEncodeParamBinary, cString_eq plain, signed, length]
    rw [if_neg (by omega), List.take_length]
    rfl
  | array elemType len data =>
    obtain ⟨rfl, count, few⟩ := plain
    obtain ⟨rfl, -⟩ := ofNat_eq_of_toInt count
    refine ⟨_, ?_, .array data few⟩
    simp only [rpcEncodeParamBinary, count, Int.toNat_natCast, flatMap_range_getD, ↓reduceIte]
    rfl
  | float _ | other _ | unset _ => exact plain.elim

/-- The parameters are encoded one after the other. -/
theorem encodeParams_spec (plain : ∀ value ∈ values, value.Plain) (short : ∀ value ∈ values, value.Short) :
    ∃ body, encodeParams values = .ok body ∧ body.length = paramsSize values ∧
      ∀ (front : Bytes) (len : Int), ((front.length + body.length : Nat) : Int) ≤ len →
        Delimited (front ++ body) len values front.length := by
  induction values with
  | nil => exact ⟨[], rfl, rfl, fun front len _ => .nil front.length⟩
  | cons value rest ih =>
    obtain ⟨item, first, spelled⟩ := (plain value List.mem_cons_self).encoded (short value List.mem_cons_self)
    obtain ⟨body, others, length, delimited⟩ :=
      ih (fun other member => plain other (List.mem_cons_of_mem _ member))
        (fun other member => short other (List.mem_cons_of_mem _ member))
    refine ⟨item ++ body, ?_, ?_, ?_⟩
    · rw [encodeParams, first, ok_bind, others, ok_bind]
      rfl
    · rw [List.length_append, length, spelled.length_eq, paramsSize]
    · intro front len inside
      rw [List.length_append] at inside
      have there : item <+: (front ++ (item ++ body)).drop front.length := by
        rw [List.drop_left]
        exact List.prefix_append _ _
      refine .cons spelled there (.inl (by omega)) ?_
      have after := delimited (front ++ item) len (by rw [List.length_append]; omega)
      rwa [List.append_assoc, List.length_append] at after

end Encoding

section Messages

inductive MessageKind where
  | request
  | response
  | error
  deriving DecidableEq, Repr

def RPCMessage.kind (msg : RPCMessage) : MessageKind :=
  if msg.isError then .error else if msg.isRequest then .request else .response

/-- The decoder's length of an input. -/
def inputLen (data : Bytes) : Int := (BitVec.ofNat 32 data.length).toInt

/-- How many parameters an input announces, as far as a message holds them. -/
def announced (data : Bytes) : Nat := min (data.getD 9 0).toNat RPC_MAX_PARAMS

/-- The message with the values stored by the loop. -/
def decodedMessage (data : Bytes) (values : List RPCValue) : RPCMessage :=
  { rpcMessageInit with
    isRequest := data.getD 0 0 = 1
    isError := data.getD 0 0 = 3
    paramCount := announced data
    params := values ++ List.replicate (RPC_MAX_PARAMS - values.length) .null }

theorem inputLen_bounds (data : Bytes) : inputLen data ≤ data.length ∧ inputLen data < 2147483648 := by
  have small := (BitVec.ofNat 32 data.length).isLt
  have cut : (BitVec.ofNat 32 data.length).toNat ≤ data.length := by
    rw [BitVec.toNat_ofNat]
    exact Nat.mod_le _ _
  rw [inputLen, BitVec.toInt_eq_toNat_cond]
  omega

/-- The head of a one-byte read. -/
theorem readAt_one {data : Bytes} {pos : Nat} (inside : pos < data.length) :
    readAt data pos 1 = .ok [data.getD pos 0] := by
  rw [readAt, if_pos (by omega), List.getD_eq_getElem _ _ inside, List.drop_eq_getElem_cons inside]
  rfl

theorem rpcDecodeBinary_of_long {data : Bytes} (long : 10 ≤ inputLen data) :
    rpcDecodeBinary data =
      decodeParams data (inputLen data) (announced data) 10 >>=
        fun result => .ok (0, decodedMessage data result.1, result.2) := by
  have bounds := inputLen_bounds data
  rw [rpcDecodeBinary, if_neg (by rw [inputLen] at long; omega), readAt_one (by omega), ok_bind, readAt_one (by omega), ok_bind]
  rfl

theorem rpcDecodeBinary_of_short {data : Bytes} (short : inputLen data < 10) :
    rpcDecodeBinary data = .ok (-1, rpcMessageInit, 0) := by
  rw [rpcDecodeBinary]
  exact if_pos short

/-- The header of an encoded message: its kind and the number of its parameters. -/
def RPCMessage.front (msg : RPCMessage) (length : Nat) : Bytes :=
  msg.typeByte :: (writeI32be (BitVec.ofNat 32 length) ++ writeI32be (rpcFnv1aHash (cString msg.methodName)) ++
    [.ofNat msg.paramCount])

theorem rpcEncodeBinary_eq (msg : RPCMessage) :
    rpcEncodeBinary msg = encodeParams (msg.params.take msg.paramCount) >>=
      fun body => .ok (msg.front (5 + body.length) ++ body) := by
  rw [rpcEncodeBinary]
  congr 1
  funext body
  have length : (writeI32be (rpcFnv1aHash (cString msg.methodName)) ++ UInt8.ofNat msg.paramCount :: body).length =
      5 + body.length := by
    rw [List.length_append, length_writeI32be, List.length_cons]
    omega
  simp only [length]
  rfl

theorem RPCMessage.kind_eq_of_typeByte {msg : RPCMessage} {length : Nat} {body : Bytes} {values : List RPCValue} :
    (decodedMessage (msg.front length ++ body) values).kind = msg.kind := by
  have first : (msg.front length ++ body).getD 0 0 = msg.typeByte := rfl
  rw [kind, decodedMessage, first, typeByte, kind]
  cases msg.isError <;> cases msg.isRequest <;> rfl

theorem announced_front {msg : RPCMessage} (few : msg.paramCount ≤ RPC_MAX_PARAMS) {length : Nat} {body : Bytes} :
    announced (msg.front length ++ body) = msg.paramCount := by
  have ninth : (msg.front length ++ body).getD 9 0 = .ofNat msg.paramCount := rfl
  have limit : RPC_MAX_PARAMS = 16 := rfl
  rw [announced, ninth, UInt8.toNat_ofNat', Nat.mod_eq_of_lt (by omega), Nat.min_eq_left few]

/-- What comes back of a message: its kind and all its parameters. -/
def BinaryRoundTrip (msg : RPCMessage) : Prop :=
  ∃ out decoded finished, rpcEncodeBinary msg = .ok out ∧ rpcDecodeBinary out = .ok (0, decoded, finished) ∧
    decoded.kind = msg.kind ∧ decoded.paramCount = msg.paramCount ∧
    decoded.params.take msg.paramCount = msg.params.take msg.paramCount

variable {msg : RPCMessage}

theorem BinaryRoundTrip.of_size (slots : msg.params.length = RPC_MAX_PARAMS) (few : msg.paramCount ≤ RPC_MAX_PARAMS)
    (plain : ∀ value ∈ msg.params.take msg.paramCount, value.Plain) (small : msg.encodedSize < 2147483648) :
    BinaryRoundTrip msg := by
  have short : ∀ value ∈ msg.params.take msg.paramCount, value.Short := by
    intro value member
    have bound := size_le_of_mem member
    rw [RPCMessage.encodedSize] at small
    cases value with
    | string text =>
      rw [RPCValue.size] at bound
      exact Nat.lt_of_le_of_lt (by omega) small
    | _ => trivial
  obtain ⟨body, encoded, length, delimited⟩ := encodeParams_spec plain short
  set out := msg.front (5 + body.length) ++ body with built
  have total : out.length = msg.encodedSize := by
    rw [built, List.length_append, length, RPCMessage.encodedSize]
    rfl
  have len : inputLen out = out.length := (toNat_ofNat_of_lt (by omega)).2
  have long : 10 ≤ inputLen out := by
    rw [len, total, RPCMessage.encodedSize]
    omega
  have bounds := inputLen_bounds out
  have count : (msg.params.take msg.paramCount).length = msg.paramCount := by
    rw [List.length_take]
    omega
  have within : ((msg.front (5 + body.length)).length + body.length : Nat) = inputLen out := by
    rw [len, built, List.length_append]
  have decoded := (delimited (msg.front (5 + body.length)) (inputLen out) (Int.le_of_eq within)).complete bounds.1 bounds.2
  rw [count] at decoded
  refine ⟨out, decodedMessage out (msg.params.take msg.paramCount), msg.paramCount, ?_, ?_,
    RPCMessage.kind_eq_of_typeByte, announced_front few, ?_⟩
  · rw [rpcEncodeBinary_eq, encoded, ok_bind]
  · rw [rpcDecodeBinary_of_long long, built, announced_front few]
    exact congrArg (· >>= _) decoded
  · rw [decodedMessage]
    exact List.take_append_of_le_length (Nat.le_of_eq count.symm) |>.trans (List.take_of_length_le (Nat.le_of_eq count))

/-- The parameters that came back of a plain message: complete ones, and null ones after them. -/
theorem Stopped.recovered {data : Bytes} {len : Int} {count finished : Nat} {values done rest params : List RPCValue}
    (stopped : Stopped data len count 10 values finished done rest)
    (same : (values ++ List.replicate (RPC_MAX_PARAMS - values.length) RPCValue.null).take count = params)
    (plain : ∀ value ∈ params, value.Plain) : ∃ nulls, params = done ++ List.replicate nulls .null ∧ nulls ≤ RPC_MAX_PARAMS := by
  obtain ⟨rfl, -, -, ended⟩ := stopped
  rcases ended with ⟨rfl, all⟩ | ⟨fewer, given⟩
  · refine ⟨0, ?_, Nat.zero_le _⟩
    rw [← same, List.append_nil, List.take_append_of_le_length (Nat.le_of_eq all.symm), List.take_of_length_le (Nat.le_of_eq all)]
    exact (List.append_nil done).symm
  · have split : params = done ++
        (rest ++ List.replicate (RPC_MAX_PARAMS - (done ++ rest).length) RPCValue.null).take (count - done.length) := by
      rw [← same, List.append_assoc, List.take_append, List.take_of_length_le (Nat.le_of_lt fewer)]
    rcases given with rfl | ⟨type, rfl⟩
    · refine ⟨min (count - done.length) (RPC_MAX_PARAMS - (done ++ [RPCValue.null]).length + 1), ?_, ?_⟩
      · rw [split, List.singleton_append, ← List.replicate_succ, List.take_replicate]
      · rw [List.length_append, List.length_singleton]
        have limit : RPC_MAX_PARAMS = 16 := rfl
        omega
    · have member : RPCValue.unset type ∈ params := by
        rw [split, List.singleton_append]
        obtain ⟨k, more⟩ : ∃ k, count - done.length = k + 1 := ⟨count - done.length - 1, by omega⟩
        rw [more, List.take_succ_cons]
        exact List.mem_append_right _ List.mem_cons_self
      exact (plain _ member).elim

theorem BinaryRoundTrip.size_lt (few : msg.paramCount ≤ RPC_MAX_PARAMS)
    (plain : ∀ value ∈ msg.params.take msg.paramCount, value.Plain) (trip : BinaryRoundTrip msg) :
    msg.encodedSize < 2147483648 := by
  obtain ⟨out, decoded, finished, encodes, decodes, -, -, params⟩ := trip
  rw [rpcEncodeBinary_eq, bind_eq_ok_iff] at encodes
  obtain ⟨body, encoded, built⟩ := encodes
  obtain rfl := Except.ok.inj built
  set out := msg.front (5 + body.length) ++ body with built
  have long : 10 ≤ inputLen out := by
    by_contra short
    rw [rpcDecodeBinary_of_short (by omega)] at decodes
    cases decodes
  rw [rpcDecodeBinary_of_long long, bind_eq_ok_iff] at decodes
  obtain ⟨⟨values, count⟩, loop, result⟩ := decodes
  obtain ⟨-, rest⟩ := Prod.mk.inj (Except.ok.inj result)
  obtain ⟨rfl, -⟩ := Prod.mk.inj rest
  rw [built, announced_front few, ← built] at loop
  have whole : ∀ value ∈ values, value.Whole := by
    intro value member
    refine (plain value ?_).whole
    rw [← params, decodedMessage, List.take_append, List.take_of_length_le (decodeParams_length_le loop)]
    exact List.mem_append_left _ member
  obtain ⟨done, rest, stopped⟩ := decodeParams_sound loop whole
  obtain ⟨nulls, recovered, bound⟩ := stopped.recovered params plain
  have reached := stopped.delimited.size_le (by omega)
  have short : ∀ value ∈ msg.params.take msg.paramCount, value.Short := by
    intro value member
    rw [recovered] at member
    cases value with
    | string text =>
      rcases List.mem_append.mp member with inside | null
      · exact stopped.delimited.string_short inside
      · cases List.eq_of_mem_replicate null
    | _ => trivial
  obtain ⟨same, again, length, -⟩ := encodeParams_spec plain short
  obtain rfl := Except.ok.inj (encoded.symm.trans again)
  have total : out.length = msg.encodedSize := by
    rw [built, List.length_append, length, RPCMessage.encodedSize]
    rfl
  have limit : RPC_MAX_PARAMS = 16 := rfl
  have bounds := inputLen_bounds out
  have size : msg.encodedSize = 10 + (paramsSize done + nulls) := by
    rw [RPCMessage.encodedSize, recovered, paramsSize_append, paramsSize_nulls]
  have cut : (BitVec.ofNat 32 out.length).toNat = out.length := by
    rw [BitVec.toNat_ofNat]
    omega
  rw [inputLen, BitVec.toInt_eq_toNat_cond, cut] at long
  omega

/-- A message comes back from its encoding exactly when that has fewer than 2^31 bytes. -/
theorem rpc_binary_round_trip_iff (msg : RPCMessage) (slots : msg.params.length = RPC_MAX_PARAMS)
    (few : msg.paramCount ≤ RPC_MAX_PARAMS) (plain : ∀ value ∈ msg.params.take msg.paramCount, value.Plain) :
    BinaryRoundTrip msg ↔ msg.encodedSize < 2 ^ 31 :=
  ⟨BinaryRoundTrip.size_lt few plain, BinaryRoundTrip.of_size slots few plain⟩

/-- A response with one value of each kind. -/
def sampleMessage : RPCMessage :=
  { rpcMessageInit with
    paramCount := 6
    isRequest := false
    params := [.int32 0xFFFFFFFF#32, .int64 0x8000000000000000#64, .string [104, 105], .bool true, .null,
      .array .int32 2#32 [7#32, 0x80000000#32]] ++ List.replicate 10 .null }

theorem rpc_binary_round_trip_sample : BinaryRoundTrip sampleMessage ↔ sampleMessage.encodedSize < 2 ^ 31 := by
  refine rpc_binary_round_trip_iff sampleMessage rfl (by decide) ?_
  intro value member
  simp only [sampleMessage, List.take, List.cons_append, List.mem_cons, List.not_mem_nil, or_false] at member
  rcases member with rfl | rfl | rfl | rfl | rfl | rfl
  · trivial
  · trivial
  · exact (by decide : (0 : UInt8) ∉ [104, 105])
  · trivial
  · trivial
  · exact ⟨rfl, by decide, by decide⟩

/-- A request with a string of `count` bytes. -/
def textMessage (count : Nat) : RPCMessage :=
  { rpcMessageInit with
    paramCount := 1
    params := .string (List.replicate count 65) :: List.replicate 15 .null }

theorem textMessage_plain (count : Nat) :
    ∀ value ∈ (textMessage count).params.take (textMessage count).paramCount, value.Plain := by
  intro value member
  obtain rfl := List.mem_singleton.mp member
  intro zero
  exact absurd (List.eq_of_mem_replicate zero) (by decide)

theorem textMessage_size (count : Nat) : (textMessage count).encodedSize = 15 + count := by
  have taken : (textMessage count).params.take (textMessage count).paramCount = [.string (List.replicate count 65)] := rfl
  rw [RPCMessage.encodedSize, taken, paramsSize, paramsSize, RPCValue.size, List.length_replicate]
  omega

/-- The encoder still writes a string of this length, but the decoder takes the 2^31 bytes for a negative number. -/
theorem long_text_lost :
    (textMessage 2147483633).paramCount ≤ RPC_MAX_PARAMS ∧
      (∀ value ∈ (textMessage 2147483633).params.take (textMessage 2147483633).paramCount, value.Plain) ∧
      ¬ BinaryRoundTrip (textMessage 2147483633) := by
  have few : (textMessage 2147483633).paramCount ≤ RPC_MAX_PARAMS := Nat.le_of_ble_eq_true rfl
  refine ⟨few, textMessage_plain _, ?_⟩
  intro trip
  have size := trip.size_lt few (textMessage_plain _)
  rw [textMessage_size] at size
  omega

end Messages

end MiniNetDist.RpcFramework
