import MiniNetDist.RpcFramework.Frame
import MiniNetDist.RpcFramework.Message

/-! The binary encoding of `mini-rpc-framework/src/rpc_encoding.c`. Lengths are 32-bit signed integers
throughout, so that a message comes back exactly when its encoding has fewer than 2^31 bytes. -/

namespace MiniNetDist.RpcFramework

open Library

/-- What a codec does that the language leaves undefined. -/
inductive Fault where
  | outsideInput
  | negativeLength
  | signedOverflow
  deriving DecidableEq, Repr

section Words

def writeI32be (val : BitVec 32) : Bytes := writeU32be val
def readI32be (buf : Bytes) : BitVec 32 := readU32be buf

def writeI64be (val : BitVec 64) : Bytes := writeI32be ((val >>> 32).setWidth 32) ++ writeI32be (val.setWidth 32)

def readI64be (buf : Bytes) : BitVec 64 :=
  (readI32be buf).signExtend 64 <<< 32 ||| (readI32be (buf.drop 4)).signExtend 64 &&& 0xFFFFFFFF#64

end Words

section Encoder

def rpcFnv1aHash (str : CString) : BitVec 32 :=
  str.foldl (fun hash byte => (hash ^^^ widen 32 byte) * 16777619#32) 2166136261#32

def rpcEncodeParamBinary : RPCValue → Except Fault Bytes
  | .int32 value => .ok (RPCValueType.int32.toByte :: writeI32be value)
  | .int64 value => .ok (RPCValueType.int64.toByte :: writeI64be value)
  | .string value =>
    let slen := BitVec.ofNat 32 (cString value).length
    if slen.toInt < 0 then .error .negativeLength
    else .ok (RPCValueType.string.toByte :: writeI32be slen ++ value.take slen.toNat)
  | .bool value => .ok [RPCValueType.bool.toByte, if value then 1 else 0]
  | .float value => .ok (RPCValueType.float.toByte :: writeI32be value.toFloat32.toBits.toBitVec)
  | .array elemType len data =>
    .ok (RPCValueType.array.toByte :: writeI32be len ++ elemType.toByte ::
      if elemType = .int32 then (List.range len.toInt.toNat).flatMap fun i => writeI32be (data.getD i 0#32) else [])
  | .null => .ok [RPCValueType.null.toByte]
  | .other code => .ok [code]
  | .unset type => .ok [type.toByte]

def encodeParams : List RPCValue → Except Fault Bytes
  | [] => .ok []
  | param :: rest => do
    let bytes ← rpcEncodeParamBinary param
    let others ← encodeParams rest
    return bytes ++ others

def RPCMessage.typeByte (msg : RPCMessage) : UInt8 := if msg.isError then 3 else if msg.isRequest then 1 else 2

def rpcEncodeBinary (msg : RPCMessage) : Except Fault Bytes := do
  let body ← encodeParams (msg.params.take msg.paramCount)
  let rest := writeI32be (rpcFnv1aHash (cString msg.methodName)) ++ .ofNat msg.paramCount :: body
  return msg.typeByte :: writeI32be (BitVec.ofNat 32 rest.length) ++ rest

end Encoder

section Decoder

/-- Read bytes of the input, which must be there. -/
def readAt (data : Bytes) (pos count : Nat) : Except Fault Bytes :=
  if pos + count ≤ data.length then .ok ((data.drop pos).take count) else .error .outsideInput

/-- The comparison `pos + count > len` of signed integers. -/
def exceeds (pos count : Nat) (len : Int) : Except Fault Bool :=
  if 2147483648 ≤ pos + count then .error .signedOverflow else .ok (len < (pos + count : Nat))

/-- Read a field of `count` bytes, unless it goes beyond the end, and go on from its bytes. -/
def readField (data : Bytes) (len : Int) (pos count : Nat) (type : RPCValueType)
    (next : Bytes → Except Fault (RPCValue × Option Nat)) : Except Fault (RPCValue × Option Nat) := do
  let beyond ← exceeds pos count len
  if beyond then return (.unset type, none)
  else
    let bytes ← readAt data pos count
    next bytes

/-- The elements of an array, as many as are there and are wanted, and the position after them. -/
def readElems (data : Bytes) (len : Int) : Nat → Nat → Except Fault (List (BitVec 32) × Nat)
  | 0, pos => .ok ([], pos)
  | wanted + 1, pos => do
    let beyond ← exceeds pos 4 len
    if beyond then return ([], pos)
    else
      let bytes ← readAt data pos 4
      let (rest, next) ← readElems data len wanted (pos + 4)
      return (readI32be bytes :: rest, next)

def decodeString (data : Bytes) (len : Int) (pos : Nat) : Except Fault (RPCValue × Option Nat) :=
  readField data len pos 4 .string fun bytes =>
    let slen := readI32be bytes
    -- a negative length passes the comparison with the end
    if slen.toInt < 0 then .error .negativeLength
    else readField data len (pos + 4) slen.toNat .string fun text => .ok (.string text, some (pos + 4 + slen.toNat))

/-- The element type and the elements of an array whose length was read. -/
def decodeElements (data : Bytes) (len : Int) (arrlen : BitVec 32) (pos : Nat) : Except Fault (RPCValue × Option Nat) :=
  if len ≤ pos then .ok (.unset .array, none)
  else do
    let typeByte ← readAt data pos 1
    let elemType := RPCValueType.ofByte (typeByte.headD 0)
    if elemType = .int32 then
      let (elems, next) ← readElems data len (min arrlen.toInt.toNat RPC_MAX_ARRAY_LEN) (pos + 1)
      return (.array elemType arrlen elems, some next)
    else return (.array elemType arrlen [], some (pos + 1))

def decodeArray (data : Bytes) (len : Int) (pos : Nat) : Except Fault (RPCValue × Option Nat) :=
  readField data len pos 4 .array fun bytes => decodeElements data len (readI32be bytes) (pos + 4)

/-- The value that is stored for a type, and the position after it unless the decoder gives up. -/
def decodeValue (data : Bytes) (len : Int) (pos : Nat) (type : RPCValueType) : Except Fault (RPCValue × Option Nat) :=
  match type with
  | .int32 => readField data len pos 4 type fun bytes => .ok (.int32 (readI32be bytes), some (pos + 4))
  | .int64 => readField data len pos 8 type fun bytes => .ok (.int64 (readI64be bytes), some (pos + 8))
  | .string => decodeString data len pos
  | .bool => do
    let bytes ← readAt data pos 1
    return (.bool (bytes.headD 0 ≠ 0), some (pos + 1))
  | .float => readField data len pos 4 type fun bytes =>
    .ok (.float (Float32.ofBits (UInt32.ofBitVec (readI32be bytes))).toFloat, some (pos + 4))
  | .array => decodeArray data len pos
  | .null => .ok (.null, some pos)
  | .other code => .ok (.other code, some pos)

def rpcDecodeParamBinary (data : Bytes) (len : Int) (pos : Nat) : Except Fault (RPCValue × Option Nat) :=
  if len ≤ pos then .ok (.null, none)
  else do
    let typeByte ← readAt data pos 1
    decodeValue data len (pos + 1) (.ofByte (typeByte.headD 0))

/-- The values stored by the loop, and how many of them were decoded to their end. -/
def decodeParams (data : Bytes) (len : Int) : Nat → Nat → Except Fault (List RPCValue × Nat)
  | 0, _ => .ok ([], 0)
  | count + 1, pos => do
    let (value, reached) ← rpcDecodeParamBinary data len pos
    match reached with
    | none => return ([value], 0)
    | some next =>
      let (rest, complete) ← decodeParams data len count next
      return (value :: rest, complete + 1)

/-- The result, the message, and how many of its parameters were decoded to their end. -/
def rpcDecodeBinary (data : Bytes) : Except Fault (Int × RPCMessage × Nat) :=
  let len := (BitVec.ofNat 32 data.length).toInt
  if len < 10 then .ok (-1, rpcMessageInit, 0)
  else do
    let mtype ← readAt data 0 1
    let pcount ← readAt data 9 1
    let paramCount := min (pcount.headD 0).toNat RPC_MAX_PARAMS
    let (values, complete) ← decodeParams data len paramCount 10
    return (0, { rpcMessageInit with
      isRequest := mtype.headD 0 = 1
      isError := mtype.headD 0 = 3
      paramCount
      params := values ++ List.replicate (RPC_MAX_PARAMS - values.length) .null }, complete)

end Decoder

section WordCodec

@[simp] theorem length_writeI32be (val : BitVec 32) : (writeI32be val).length = 4 := rfl

@[simp] theorem length_writeI64be (val : BitVec 64) : (writeI64be val).length = 8 := rfl

theorem readI32be_writeI32be (val : BitVec 32) : readI32be (writeI32be val) = val := by
  simpa [readI32be, writeI32be] using readU32be_writeU32be val []

theorem writeI32be_readI32be {bytes : Bytes} (four : bytes.length = 4) : writeI32be (readI32be bytes) = bytes := by
  rw [writeI32be, readI32be, writeU32be_readU32be (Nat.le_of_eq four.symm), List.take_of_length_le (Nat.le_of_eq four)]

/-- The two halves of a word, the lower one freed of its sign bits. -/
theorem halves_or (val : BitVec 64) :
    ((val >>> 32).setWidth 32).signExtend 64 <<< 32 ||| (val.setWidth 32).signExtend 64 &&& 0xFFFFFFFF#64 = val := by
  have mask (i : Nat) (bound : i < 64) : (0xFFFFFFFF#64).getLsbD i = decide (i < 32) := by
    revert i
    decide
  apply BitVec.eq_of_getLsbD_eq
  intro i bound
  rw [BitVec.getLsbD_or, BitVec.getLsbD_and, BitVec.getLsbD_shiftLeft, BitVec.getLsbD_signExtend,
    BitVec.getLsbD_signExtend, mask i bound]
  by_cases low : i < 32
  · simp [low, bound]
  · have inside : i - 32 < 32 := by omega
    have back : 32 + (i - 32) = i := by omega
    have within : i - 32 < 64 := by omega
    simp [low, bound, inside, back, within]

theorem readI64be_writeI64be (val : BitVec 64) : readI64be (writeI64be val) = val := by
  have high : readI32be (writeI64be val) = (val >>> 32).setWidth 32 := readU32be_writeU32be _ _
  have low : readI32be ((writeI64be val).drop 4) = val.setWidth 32 := readI32be_writeI32be _
  rw [readI64be, high, low, halves_or]

/-- Any two halves are those of a word. -/
theorem exists_halves (high low : BitVec 32) : ∃ val : BitVec 64, (val >>> 32).setWidth 32 = high ∧ val.setWidth 32 = low := by
  refine ⟨high.setWidth 64 <<< 32 ||| low.setWidth 64, ?_, ?_⟩
  · apply BitVec.eq_of_getLsbD_eq
    intro i bound
    have inside : 32 + i < 64 := by omega
    simp [bound, inside]
  · apply BitVec.eq_of_getLsbD_eq
    intro i bound
    simp [bound]

theorem exists_writeI64be {bytes : Bytes} (eight : bytes.length = 8) : ∃ val, writeI64be val = bytes := by
  have first : (bytes.take 4).length = 4 := by
    rw [List.length_take]
    omega
  have second : (bytes.drop 4).length = 4 := by
    rw [List.length_drop]
    omega
  obtain ⟨val, high, low⟩ := exists_halves (readI32be (bytes.take 4)) (readI32be (bytes.drop 4))
  refine ⟨val, ?_⟩
  rw [writeI64be, high, low, writeI32be_readI32be first, writeI32be_readI32be second, List.take_append_drop]

end WordCodec

section Readers

variable {data bytes rest : Bytes} {len : Int} {pos count : Nat} {type : RPCValueType}
  {next : Bytes → Except Fault (RPCValue × Option Nat)} {value : RPCValue} {reached : Nat}

theorem bind_eq_ok_iff {First Second : Type} {first : Except Fault First} {further : First → Except Fault Second}
    {result : Second} : (first >>= further) = .ok result ↔ ∃ middle, first = .ok middle ∧ further middle = .ok result := by
  cases first with
  | error fault =>
    constructor
    · intro impossible
      cases impossible
    · rintro ⟨_, impossible, -⟩
      cases impossible
  | ok middle =>
    constructor
    · exact fun same => ⟨middle, rfl, same⟩
    · rintro ⟨_, same, next⟩
      obtain rfl := Except.ok.inj same
      exact next

theorem ok_bind {First Second : Type} (first : First) (further : First → Except Fault Second) :
    (Except.ok first >>= further) = further first := rfl

/-- What is read was there. -/
theorem readAt_sound (read : readAt data pos count = .ok bytes) :
    bytes.length = count ∧ bytes <+: data.drop pos ∧ pos + count ≤ data.length := by
  rw [readAt] at read
  split at read
  · next inside =>
    obtain rfl := Except.ok.inj read
    refine ⟨?_, List.take_prefix _ _, inside⟩
    rw [List.length_take, List.length_drop]
    omega
  · cases read

theorem readByte_sound (read : readAt data pos 1 = .ok bytes) : ∃ byte, bytes = [byte] ∧ [byte] <+: data.drop pos := by
  obtain ⟨single, there, -⟩ := readAt_sound read
  obtain ⟨byte, rfl⟩ := List.length_eq_one_iff.mp single
  exact ⟨byte, rfl, there⟩

/-- Two results of a reader that has come to an end are the same value and position. -/
theorem decoded_inj {value other : RPCValue} {next last : Nat}
    (same : (Except.ok (value, some next) : Except Fault (RPCValue × Option Nat)) = .ok (other, some last)) :
    value = other ∧ next = last := by
  obtain ⟨value, position⟩ := Prod.mk.inj (Except.ok.inj same)
  exact ⟨value, Option.some.inj position⟩

/-- What is there is read. -/
theorem readAt_complete (there : bytes <+: data.drop pos) (inside : pos + bytes.length ≤ data.length) :
    readAt data pos bytes.length = .ok bytes := by
  rw [readAt, if_pos inside, ← List.prefix_iff_eq_take.mp there]

theorem exceeds_sound {beyond : Bool} (compared : exceeds pos count len = .ok beyond) :
    beyond = decide (len < (pos + count : Nat)) ∧ pos + count < 2147483648 := by
  rw [exceeds] at compared
  split at compared
  · cases compared
  · next small =>
    obtain rfl := Except.ok.inj compared
    exact ⟨rfl, Nat.lt_of_not_le small⟩

theorem exceeds_complete (inside : (pos + count : Nat) ≤ len) (small : len < 2147483648) :
    exceeds pos count len = .ok false := by
  rw [exceeds, if_neg (by omega), decide_eq_false (by omega)]

/-- A field that was read to its end was there, before the end. -/
theorem readField_sound (read : readField data len pos count type next = .ok (value, some reached)) :
    ∃ bytes, bytes.length = count ∧ bytes <+: data.drop pos ∧ (pos + count : Nat) ≤ len ∧
      next bytes = .ok (value, some reached) := by
  rw [readField, bind_eq_ok_iff] at read
  obtain ⟨beyond, compared, read⟩ := read
  obtain ⟨rfl, -⟩ := exceeds_sound compared
  split at read
  · cases read
  · next inside =>
    rw [bind_eq_ok_iff] at read
    obtain ⟨bytes, there, followed⟩ := read
    obtain ⟨length, start, -⟩ := readAt_sound there
    exact ⟨bytes, length, start, by simpa using inside, followed⟩

theorem readField_complete (there : bytes <+: data.drop pos) (inside : (pos + bytes.length : Nat) ≤ len)
    (fits : len ≤ data.length) (small : len < 2147483648) :
    readField data len pos bytes.length type next = next bytes := by
  rw [readField, exceeds_complete inside small, ok_bind, if_neg Bool.false_ne_true,
    readAt_complete there (by omega), ok_bind]

theorem drop_of_prefix_append {front : Bytes} (there : front ++ bytes <+: data.drop pos) :
    bytes <+: data.drop (pos + front.length) := by
  obtain ⟨after, whole⟩ := there
  refine ⟨after, ?_⟩
  rw [← List.drop_drop, ← whole, List.append_assoc, List.drop_left]

theorem append_prefix_drop {front : Bytes} (first : front <+: data.drop pos)
    (second : bytes <+: data.drop (pos + front.length)) : front ++ bytes <+: data.drop pos := by
  obtain ⟨more, whole⟩ := first
  rw [← List.drop_drop, ← whole, List.drop_left] at second
  rw [← whole]
  exact (List.prefix_append_right_inj front).mpr second

end Readers

section Grammar

/-- The bytes of a complete parameter and the value they stand for. -/
inductive Spells : Bytes → RPCValue → Prop where
  | int32 (value : BitVec 32) : Spells (RPCValueType.int32.toByte :: writeI32be value) (.int32 value)
  | int64 (value : BitVec 64) : Spells (RPCValueType.int64.toByte :: writeI64be value) (.int64 value)
  | string (text : Bytes) (short : text.length < 2147483648) :
    Spells (RPCValueType.string.toByte :: (writeI32be (BitVec.ofNat 32 text.length) ++ text)) (.string text)
  | bool (byte : UInt8) : Spells [RPCValueType.bool.toByte, byte] (.bool (byte ≠ 0))
  | float (bits : BitVec 32) :
    Spells (RPCValueType.float.toByte :: writeI32be bits) (.float (Float32.ofBits (UInt32.ofBitVec bits)).toFloat)
  | array (elems : List (BitVec 32)) (few : elems.length ≤ RPC_MAX_ARRAY_LEN) :
    Spells (RPCValueType.array.toByte :: (writeI32be (BitVec.ofNat 32 elems.length) ++
      RPCValueType.int32.toByte :: elems.flatMap writeI32be)) (.array .int32 (BitVec.ofNat 32 elems.length) elems)
  | emptyArray (type : UInt8) (other : RPCValueType.ofByte type ≠ .int32) :
    Spells (RPCValueType.array.toByte :: (writeI32be 0#32 ++ [type])) (.array (.ofByte type) 0#32 [])
  | null : Spells [RPCValueType.null.toByte] .null
  | other (code : UInt8) (unknown : RPCValueType.ofByte code = .other code) : Spells [code] (.other code)

/-- The parameter ends before the end; the byte of a Boolean may also be the first one after it. -/
def Inside (len : Int) (pos : Nat) (item : Bytes) : Prop :=
  (pos + item.length : Nat) ≤ len ∨ item.head? = some RPCValueType.bool.toByte ∧ pos < len

variable {data item : Bytes} {len : Int} {pos next : Nat} {value : RPCValue}

theorem length_flatMap_writeI32be (elems : List (BitVec 32)) : (elems.flatMap writeI32be).length = 4 * elems.length := by
  induction elems with
  | nil => rfl
  | cons elem rest ih =>
    rw [List.flatMap_cons, List.length_append, ih, length_writeI32be, List.length_cons]
    omega

theorem readElems_complete {elems : List (BitVec 32)} (there : elems.flatMap writeI32be <+: data.drop pos)
    (inside : (pos + 4 * elems.length : Nat) ≤ len) (fits : len ≤ data.length) (small : len < 2147483648) :
    readElems data len elems.length pos = .ok (elems, pos + 4 * elems.length) := by
  induction elems generalizing pos with
  | nil => rfl
  | cons elem rest ih =>
    rw [List.flatMap_cons] at there
    rw [List.length_cons] at inside ⊢
    have first : writeI32be elem <+: data.drop pos := (List.prefix_append _ _).trans there
    have others : rest.flatMap writeI32be <+: data.drop (pos + 4) := drop_of_prefix_append there
    have read := readAt_complete first (by rw [length_writeI32be]; omega)
    rw [length_writeI32be] at read
    rw [readElems, exceeds_complete (by omega) small, ok_bind, if_neg Bool.false_ne_true, read, ok_bind,
      ih others (by omega), ok_bind, readI32be_writeI32be]
    simp only [pure, Except.pure]
    congr 2
    omega

theorem readElems_sound {wanted : Nat} {elems : List (BitVec 32)} (before : pos ≤ len)
    (read : readElems data len wanted pos = .ok (elems, next)) :
    elems.length ≤ wanted ∧ elems.flatMap writeI32be <+: data.drop pos ∧ next = pos + 4 * elems.length ∧ next ≤ len := by
  induction wanted generalizing pos elems next with
  | zero =>
    obtain ⟨rfl, rfl⟩ := Prod.mk.inj (Except.ok.inj read)
    exact ⟨Nat.le_refl _, List.nil_prefix, rfl, before⟩
  | succ wanted ih =>
    rw [readElems, bind_eq_ok_iff] at read
    obtain ⟨beyond, compared, read⟩ := read
    obtain ⟨rfl, -⟩ := exceeds_sound compared
    split at read
    · obtain ⟨rfl, rfl⟩ := Prod.mk.inj (Except.ok.inj read)
      exact ⟨Nat.zero_le _, List.nil_prefix, rfl, before⟩
    · next inside =>
      simp only [bind_eq_ok_iff] at read
      obtain ⟨bytes, here, ⟨others, after⟩, rest, result⟩ := read
      obtain ⟨four, there, -⟩ := readAt_sound here
      have within : ((pos + 4 : Nat) : Int) ≤ len := Int.not_lt.mp fun beyond => inside (decide_eq_true beyond)
      obtain ⟨few, following, rfl, bound⟩ := ih within rest
      obtain ⟨rfl, rfl⟩ := Prod.mk.inj (Except.ok.inj result)
      refine ⟨Nat.succ_le_succ few, ?_, ?_, bound⟩
      · rw [List.flatMap_cons, writeI32be_readI32be four]
        exact append_prefix_drop there (four.symm ▸ following)
      · simp only [List.length_cons]
        omega

/-- The byte at a position, where it is known. -/
theorem readAt_cons {byte : UInt8} {body : Bytes} (there : byte :: body <+: data.drop pos) (before : pos < len)
    (fits : len ≤ data.length) : readAt data pos 1 = .ok [byte] := by
  have first : [byte] <+: data.drop pos := (List.prefix_append [byte] body).trans there
  exact readAt_complete first (by rw [List.length_singleton]; omega)

theorem rpcDecodeParamBinary_cons {byte : UInt8} {body : Bytes} (there : byte :: body <+: data.drop pos)
    (before : pos < len) (fits : len ≤ data.length) :
    rpcDecodeParamBinary data len pos = decodeValue data len (pos + 1) (.ofByte byte) := by
  rw [rpcDecodeParamBinary, if_neg (by omega), readAt_cons there before fits, ok_bind]
  rfl

theorem decodeElements_int32 {body : Bytes} {arrlen : BitVec 32}
    (there : RPCValueType.int32.toByte :: body <+: data.drop pos) (before : pos < len) (fits : len ≤ data.length) :
    decodeElements data len arrlen pos =
      readElems data len (min arrlen.toInt.toNat RPC_MAX_ARRAY_LEN) (pos + 1) >>=
        fun result => .ok (.array .int32 arrlen result.1, some result.2) := by
  rw [decodeElements, if_neg (by omega), readAt_cons there before fits, ok_bind]
  rfl

theorem decodeElements_other {byte : UInt8} {body : Bytes} {arrlen : BitVec 32}
    (there : byte :: body <+: data.drop pos) (other : RPCValueType.ofByte byte ≠ .int32) (before : pos < len)
    (fits : len ≤ data.length) :
    decodeElements data len arrlen pos = .ok (.array (.ofByte byte) arrlen [], some (pos + 1)) := by
  rw [decodeElements, if_neg (by omega), readAt_cons there before fits, ok_bind]
  exact if_neg other

/-- The length of a short list, as it is read from its field. -/
theorem toNat_ofNat_of_lt {count : Nat} (short : count < 2147483648) :
    (BitVec.ofNat 32 count).toNat = count ∧ (BitVec.ofNat 32 count).toInt = count := by
  have exact_ : (BitVec.ofNat 32 count).toNat = count := by
    rw [BitVec.toNat_ofNat]
    omega
  refine ⟨exact_, ?_⟩
  rw [BitVec.toInt_eq_toNat_cond, exact_]
  omega

theorem Inside.end_le {byte : UInt8} {body : Bytes} (inside : Inside len pos (byte :: body))
    (other : byte ≠ RPCValueType.bool.toByte) : ((pos + 1 + body.length : Nat) : Int) ≤ len := by
  rcases inside with within | ⟨named, -⟩
  · rw [List.length_cons] at within
    omega
  · exact absurd (Option.some.inj named) other

theorem drop_cons {byte : UInt8} {body : Bytes} (there : byte :: body <+: data.drop pos) : body <+: data.drop (pos + 1) := by
  have split : [byte] ++ body <+: data.drop pos := there
  exact drop_of_prefix_append split

/-- A complete parameter is decoded to its value. -/
theorem Spells.complete (spelled : Spells item value) (there : item <+: data.drop pos) (inside : Inside len pos item)
    (fits : len ≤ data.length) (small : len < 2147483648) :
    rpcDecodeParamBinary data len pos = .ok (value, some (pos + item.length)) := by
  cases spelled with
  | int32 value =>
    have within := inside.end_le (by decide)
    rw [rpcDecodeParamBinary_cons there (by omega) fits]
    refine (readField_complete (drop_cons there) within fits small).trans ?_
    rw [readI32be_writeI32be]
    rfl
  | int64 value =>
    have within := inside.end_le (by decide)
    rw [rpcDecodeParamBinary_cons there (by omega) fits]
    refine (readField_complete (drop_cons there) within fits small).trans ?_
    rw [readI64be_writeI64be]
    rfl
  | float bits =>
    have within := inside.end_le (by decide)
    rw [rpcDecodeParamBinary_cons there (by omega) fits]
    refine (readField_complete (drop_cons there) within fits small).trans ?_
    rw [readI32be_writeI32be]
    rfl
  | string text short =>
    have within := inside.end_le (by decide)
    rw [List.length_append, length_writeI32be] at within
    obtain ⟨length, signed⟩ := toNat_ofNat_of_lt short
    have body := drop_cons there
    have field : writeI32be (BitVec.ofNat 32 text.length) <+: data.drop (pos + 1) := (List.prefix_append _ _).trans body
    have after : text <+: data.drop (pos + 1 + 4) := drop_of_prefix_append body
    rw [rpcDecodeParamBinary_cons there (by omega) fits]
    refine (readField_complete field (by rw [length_writeI32be]; omega) fits small).trans ?_
    simp only [readI32be_writeI32be, signed, length]
    rw [if_neg (by omega), readField_complete after (by omega) fits small]
    simp only [List.length_cons, List.length_append, length_writeI32be]
    congr 3
    omega
  | bool byte =>
    have before : pos < len := by
      rcases inside with within | ⟨-, before⟩
      · simp only [List.length_cons, List.length_nil] at within
        omega
      · exact before
    have last := drop_cons there
    have room : pos + 1 + [byte].length ≤ data.length := by
      have nonempty := last.length_le
      rw [List.length_drop, List.length_singleton] at nonempty
      rw [List.length_singleton]
      omega
    have read : readAt data (pos + 1) 1 = .ok [byte] := readAt_complete last room
    rw [rpcDecodeParamBinary_cons there before fits]
    change (readAt data (pos + 1) 1 >>= _) = _
    rw [read]
    rfl
  | array elems few =>
    have within := inside.end_le (by decide)
    rw [List.length_append, length_writeI32be, List.length_cons, length_flatMap_writeI32be] at within
    have limit : RPC_MAX_ARRAY_LEN = 64 := rfl
    obtain ⟨length, signed⟩ := toNat_ofNat_of_lt (show elems.length < 2147483648 by omega)
    have body := drop_cons there
    have field : writeI32be (BitVec.ofNat 32 elems.length) <+: data.drop (pos + 1) := (List.prefix_append _ _).trans body
    have typed : RPCValueType.int32.toByte :: elems.flatMap writeI32be <+: data.drop (pos + 1 + 4) :=
      drop_of_prefix_append body
    rw [rpcDecodeParamBinary_cons there (by omega) fits]
    refine (readField_complete field (by rw [length_writeI32be]; omega) fits small).trans ?_
    rw [readI32be_writeI32be, decodeElements_int32 typed (by omega) fits, signed, Int.toNat_natCast, Nat.min_eq_left few,
      readElems_complete (drop_cons typed) (by omega) fits small, ok_bind]
    simp only [List.length_cons, List.length_append, length_writeI32be, length_flatMap_writeI32be]
    congr 3
    omega
  | emptyArray type other =>
    have within := inside.end_le (by decide)
    rw [List.length_append, length_writeI32be, List.length_singleton] at within
    have body := drop_cons there
    have field : writeI32be 0#32 <+: data.drop (pos + 1) := (List.prefix_append _ _).trans body
    have typed : [type] <+: data.drop (pos + 1 + 4) := drop_of_prefix_append body
    rw [rpcDecodeParamBinary_cons there (by omega) fits]
    refine (readField_complete field (by rw [length_writeI32be]; omega) fits small).trans ?_
    rw [readI32be_writeI32be, decodeElements_other typed other (by omega) fits]
    rfl
  | null =>
    have within := inside.end_le (by decide)
    rw [rpcDecodeParamBinary_cons there (by rw [List.length_nil] at within; omega) fits]
    rfl
  | other code unknown =>
    have different : code ≠ RPCValueType.bool.toByte := by
      rintro rfl
      cases unknown
    have within := inside.end_le different
    rw [rpcDecodeParamBinary_cons there (by rw [List.length_nil] at within; omega) fits, unknown]
    rfl

/-- An array has the length that is stored for it, and it is not over the limit. -/
def RPCValue.Whole : RPCValue → Prop
  | .array _ len data => len.toInt ≤ RPC_MAX_ARRAY_LEN ∧ len.toInt = data.length
  | _ => True

/-- A length field that is not negative is that of a short list. -/
theorem ofNat_eq_of_toInt {word : BitVec 32} {count : Nat} (signed : word.toInt = count) :
    word = BitVec.ofNat 32 count ∧ count < 2147483648 := by
  have bound := word.isLt
  rw [BitVec.toInt_eq_toNat_cond] at signed
  refine ⟨BitVec.eq_of_toNat_eq ?_, by omega⟩
  rw [BitVec.toNat_ofNat]
  omega

theorem decodeString_sound (decoded : decodeString data len pos = .ok (value, some next)) :
    ∃ text, value = .string text ∧ text.length < 2147483648 ∧
      writeI32be (BitVec.ofNat 32 text.length) ++ text <+: data.drop pos ∧ next = pos + 4 + text.length ∧ next ≤ len := by
  obtain ⟨field, four, start, -, decoded⟩ := readField_sound decoded
  simp only at decoded
  split at decoded
  · cases decoded
  · next positive =>
    obtain ⟨text, length, following, inside, decoded⟩ := readField_sound decoded
    obtain ⟨rfl, rfl⟩ := decoded_inj decoded
    have signed : (readI32be field).toInt = text.length := by
      rw [length]
      have := (readI32be field).isLt
      rw [BitVec.toInt_eq_toNat_cond] at positive ⊢
      omega
    obtain ⟨word, short⟩ := ofNat_eq_of_toInt signed
    refine ⟨text, rfl, short, ?_, by rw [length], inside⟩
    rw [← word, writeI32be_readI32be four]
    exact append_prefix_drop start (four.symm ▸ following)

theorem decodeArray_sound (decoded : decodeArray data len pos = .ok (value, some next)) (whole : value.Whole) :
    ∃ body, Spells (RPCValueType.array.toByte :: body) value ∧ body <+: data.drop pos ∧ next = pos + body.length ∧
      next ≤ len := by
  obtain ⟨field, four, start, -, decoded⟩ := readField_sound decoded
  simp only [decodeElements] at decoded
  split at decoded
  · cases decoded
  · next before =>
    rw [bind_eq_ok_iff] at decoded
    obtain ⟨typeByte, read, decoded⟩ := decoded
    obtain ⟨byte, rfl, typed⟩ := readByte_sound read
    have head : writeI32be (readI32be field) ++ [byte] <+: data.drop pos := by
      rw [writeI32be_readI32be four]
      exact append_prefix_drop start (four.symm ▸ typed)
    rw [List.headD_cons] at decoded
    by_cases int : RPCValueType.ofByte byte = .int32
    · rw [if_pos int] at decoded
      simp only [bind_eq_ok_iff] at decoded
      obtain ⟨⟨elems, after⟩, read, decoded⟩ := decoded
      obtain ⟨rfl, rfl⟩ := decoded_inj decoded
      obtain ⟨-, following, rfl, bound⟩ := readElems_sound (by omega) read
      obtain ⟨few, count⟩ := whole
      obtain ⟨word, -⟩ := ofNat_eq_of_toInt count
      have zero : byte = RPCValueType.int32.toByte := by
        rw [← int, RPCValueType.toByte_ofByte]
      have length : (writeI32be (readI32be field) ++ [byte]).length = 5 := rfl
      refine ⟨writeI32be (BitVec.ofNat 32 elems.length) ++ byte :: elems.flatMap writeI32be, ?_, ?_, ?_, bound⟩
      · rw [int, word, zero]
        exact .array elems (by rw [count] at few; exact Int.ofNat_le.mp few)
      · rw [← word, ← List.singleton_append, ← List.append_assoc]
        exact append_prefix_drop head (length.symm ▸ following)
      · simp only [List.length_append, length_writeI32be, List.length_cons, length_flatMap_writeI32be]
        omega
    · rw [if_neg int] at decoded
      obtain ⟨rfl, rfl⟩ := decoded_inj decoded
      have zero : readI32be field = 0#32 := (ofNat_eq_of_toInt whole.2).1
      rw [zero] at head ⊢
      exact ⟨_, .emptyArray byte int, head, rfl, by omega⟩

/-- A parameter that was decoded to its end was complete, provided its array has the length it says. -/
theorem rpcDecodeParamBinary_sound (decoded : rpcDecodeParamBinary data len pos = .ok (value, some next))
    (whole : value.Whole) :
    ∃ item, Spells item value ∧ item <+: data.drop pos ∧ next = pos + item.length ∧ Inside len pos item := by
  rw [rpcDecodeParamBinary] at decoded
  split at decoded
  · cases decoded
  · next before =>
    rw [bind_eq_ok_iff] at decoded
    obtain ⟨typeByte, read, decoded⟩ := decoded
    obtain ⟨byte, rfl, typed⟩ := readByte_sound read
    rw [List.headD_cons] at decoded
    have named : (RPCValueType.ofByte byte).toByte = byte := RPCValueType.toByte_ofByte byte
    -- what the value's bytes add to its type
    have assemble {body : Bytes} (spelled : Spells (byte :: body) value) (there : body <+: data.drop (pos + 1))
        (reached : next = pos + 1 + body.length) (bound : next ≤ len) :
        ∃ item, Spells item value ∧ item <+: data.drop pos ∧ next = pos + item.length ∧ Inside len pos item := by
      refine ⟨byte :: body, spelled, append_prefix_drop typed there, ?_, .inl ?_⟩
      · rw [List.length_cons]
        omega
      · rw [List.length_cons]
        omega
    cases type : RPCValueType.ofByte byte with
    | int32 =>
      rw [type] at decoded named
      obtain ⟨bytes, four, there, bound, decoded⟩ := readField_sound decoded
      obtain ⟨rfl, rfl⟩ := decoded_inj decoded
      have spelled := Spells.int32 (readI32be bytes)
      rw [writeI32be_readI32be four, named] at spelled
      exact assemble spelled there (by rw [four]) bound
    | int64 =>
      rw [type] at decoded named
      obtain ⟨bytes, eight, there, bound, decoded⟩ := readField_sound decoded
      obtain ⟨rfl, rfl⟩ := decoded_inj decoded
      obtain ⟨word, rfl⟩ := exists_writeI64be eight
      have spelled := Spells.int64 word
      rw [named] at spelled
      exact assemble (by rw [readI64be_writeI64be]; exact spelled) there rfl bound
    | float =>
      rw [type] at decoded named
      obtain ⟨bytes, four, there, bound, decoded⟩ := readField_sound decoded
      obtain ⟨rfl, rfl⟩ := decoded_inj decoded
      have spelled := Spells.float (readI32be bytes)
      rw [writeI32be_readI32be four, named] at spelled
      exact assemble spelled there (by rw [four]) bound
    | string =>
      rw [type] at decoded named
      obtain ⟨text, rfl, short, there, reached, bound⟩ := decodeString_sound decoded
      have spelled := Spells.string text short
      rw [named] at spelled
      refine assemble spelled there ?_ bound
      rw [reached, List.length_append, length_writeI32be]
      omega
    | array =>
      rw [type] at decoded named
      obtain ⟨body, spelled, there, reached, bound⟩ := decodeArray_sound decoded whole
      rw [named] at spelled
      exact assemble spelled there reached bound
    | bool =>
      rw [type] at decoded named
      simp only [decodeValue, bind_eq_ok_iff] at decoded
      obtain ⟨bytes, read, decoded⟩ := decoded
      obtain ⟨flag, rfl, there⟩ := readByte_sound read
      obtain ⟨rfl, rfl⟩ := decoded_inj decoded
      refine ⟨[byte, flag], ?_, append_prefix_drop typed there, rfl, .inr ⟨by rw [named]; rfl, by omega⟩⟩
      rw [← named]
      exact .bool flag
    | null =>
      rw [type] at decoded named
      obtain ⟨rfl, rfl⟩ := decoded_inj decoded
      have spelled := Spells.null
      rw [named] at spelled
      exact assemble spelled List.nil_prefix rfl (by omega)
    | other code =>
      rw [type] at decoded named
      obtain ⟨rfl, rfl⟩ := decoded_inj decoded
      have same : code = byte := named
      subst same
      exact assemble (.other code type) List.nil_prefix rfl (by omega)

end Grammar

end MiniNetDist.RpcFramework
