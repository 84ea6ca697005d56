import MiniNetDist.RpcFramework.Json

/-! The JSON reader of `mini-rpc-framework/src/rpc_encoding.c` on the texts of its writer: without special characters,
what was written is read. -/

namespace MiniNetDist.RpcFramework

open Library Decimal

variable {input : JsonInput} {pos : Nat} {rest : Bytes}

section Reading

theorem getElem?_of_drop {char : UInt8} (here : input.text.drop pos = char :: rest) :
    input.text[pos]? = some char := by
  rw [← List.head?_drop, here, List.head?_cons]

theorem byteAt_of_drop {char : UInt8} (here : input.text.drop pos = char :: rest) : input.byteAt pos = char := by
  rw [JsonInput.byteAt, List.getD_eq_getElem?_getD, getElem?_of_drop here, Option.getD_some]

theorem drop_of_append {item : Bytes} (here : input.text.drop pos = item ++ rest) :
    input.text.drop (pos + item.length) = rest := by
  rw [← List.drop_drop, here, List.drop_left]

theorem drop_succ {char : UInt8} (here : input.text.drop pos = char :: rest) : input.text.drop (pos + 1) = rest := by
  rw [← List.drop_drop, here, List.drop_one, List.tail_cons]

theorem lt_of_drop_append {item : Bytes} {char : UInt8} (here : input.text.drop pos = item ++ char :: rest) :
    pos < input.text.length := by
  by_contra outside
  rw [List.drop_eq_nil_of_le (Nat.le_of_not_lt outside)] at here
  exact absurd here.symm (by simp)

theorem skipWs_eq {char : UInt8} (here : input.text.drop pos = char :: rest) (dark : isWs char = false) :
    skipWs input pos = pos := by
  rw [skipWs, here, List.takeWhile_cons_of_neg (by rw [dark]; exact Bool.false_ne_true)]
  rfl

theorem expectChar_eq {char : UInt8} (here : input.text.drop pos = char :: rest) (dark : isWs char = false) :
    expectChar input pos char = (true, pos + 1) := by
  rw [expectChar, skipWs_eq here dark]
  exact if_pos (getElem?_of_drop here)

/-- A character that the reader of strings takes as it is. -/
def isPlain (char : UInt8) : Bool := char ≠ quote && char ≠ backslash

theorem readChars_plain {text : Bytes} {room : Nat} (plain : ∀ char ∈ text, isPlain char = true)
    (short : text.length < room) (here : input.text.drop pos = text ++ quote :: rest) :
    ∃ next, readChars input room pos = (some text, next) ∧ input.text.drop next = rest := by
  induction text generalizing room pos with
  | nil =>
    cases room with
    | zero => exact absurd short (Nat.not_lt_zero _)
    | succ room =>
      refine ⟨pos + 1, ?_, drop_succ here⟩
      rw [readChars, getElem?_of_drop here]
      rfl
  | cons char text ih =>
    cases room with
    | zero => exact absurd short (Nat.not_lt_zero _)
    | succ room =>
      obtain ⟨next, read, after⟩ := ih (fun other inside => plain other (List.mem_cons_of_mem _ inside))
        (Nat.lt_of_succ_lt_succ short) (drop_succ here)
      have ordinary := plain char (List.mem_cons_self ..)
      simp only [isPlain, Bool.and_eq_true, decide_eq_true_eq] at ordinary
      refine ⟨next, ?_, after⟩
      rw [readChars, getElem?_of_drop here]
      simp only [if_neg ordinary.1, if_neg ordinary.2, read, byteAt_of_drop here, Option.map_some]

theorem readJsonString_plain {text : Bytes} {maxout : Nat} (plain : ∀ char ∈ text, isPlain char = true)
    (short : text.length < maxout - 1) (here : input.text.drop pos = quoted text ++ rest) :
    ∃ next, readJsonString input pos maxout = (some text, next) ∧ input.text.drop next = rest := by
  rw [quoted, List.cons_append, List.append_assoc] at here
  obtain ⟨next, read, after⟩ := readChars_plain plain short (drop_succ here)
  refine ⟨next, ?_, after⟩
  rw [readJsonString, expectChar_eq here (by decide)]
  exact read

theorem isNumeric_of_mem_formatD {value : Int} {byte : UInt8} (inside : byte ∈ formatD value) :
    isNumeric byte = true := by
  rcases List.mem_append.mp inside with sign | digit
  · split at sign
    · rw [List.mem_singleton.mp sign]
      decide
    · cases sign
  · simp [isNumeric, isDigit_of_mem_digits digit]

theorem length_formatD_le (value : BitVec 32) : (formatD value.toInt).length ≤ 11 := by
  have least := BitVec.le_toInt value
  have most := BitVec.toInt_lt (x := value)
  have digitCount : (digits value.toInt.natAbs).length ≤ 10 := length_digits_le (by decide) (by omega)
  rw [formatD, List.length_append]
  split
  · rw [List.length_singleton]
    omega
  · rw [List.length_nil]
    omega

theorem formatD_ne_nil (value : Int) : formatD value ≠ [] := by
  intro empty
  exact digits_ne_nil _ (List.append_eq_nil_iff.mp empty).2

theorem dark_of_isNumeric {byte : UInt8} (numeric : isNumeric byte = true) : isWs byte = false := by
  by_contra white
  rw [Bool.not_eq_false, isWs] at white
  simp only [Bool.or_eq_true, decide_eq_true_eq] at white
  rcases white with ((rfl | rfl) | rfl) | rfl <;> exact absurd numeric (by decide)

theorem skipWs_formatD {value : Int} (here : input.text.drop pos = formatD value ++ rest) : skipWs input pos = pos := by
  cases shown : formatD value with
  | nil => exact absurd shown (formatD_ne_nil _)
  | cons first others =>
    rw [shown] at here
    exact skipWs_eq here (dark_of_isNumeric (isNumeric_of_mem_formatD (shown ▸ List.mem_cons_self ..)))

/-- A number that is followed by something else is read whole. -/
theorem readJsonNumber_formatD {value : BitVec 32} {char : UInt8} (stop : isNumeric char = false)
    (here : input.text.drop pos = formatD value.toInt ++ char :: rest) :
    ∃ number next, readJsonNumber input pos = (number, next) ∧ number.toInt32 = value ∧
      input.text.drop next = char :: rest := by
  have short := length_formatD_le value
  have tmp : ((formatD value.toInt ++ char :: rest).take 63).takeWhile isNumeric = formatD value.toInt := by
    rw [List.take_append, List.take_of_length_le (by omega), List.takeWhile_append_of_pos (fun _ => isNumeric_of_mem_formatD)]
    cases room : 63 - (formatD value.toInt).length with
    | zero => omega
    | succ room =>
      rw [List.take_succ_cons, List.takeWhile_cons_of_neg (by rw [stop]; exact Bool.false_ne_true), List.append_nil]
  refine ⟨_, _, rfl, ?_, ?_⟩
  · simp only [skipWs_formatD here, here, tmp, toInt32_atof_formatD]
  · simp only [skipWs_formatD here, here, tmp]
    exact drop_of_append here

theorem memcmpEqual_of_drop {word : Bytes} (here : input.text.drop pos = word ++ rest) :
    memcmpEqual input pos word = true := by
  rw [memcmpEqual, decide_eq_true_eq]
  refine List.ext_getElem (by rw [List.length_map, List.length_range]) ?_
  intro i _ inside
  have found : input.text[pos + i]? = some word[i] := by
    rw [← List.getElem?_drop, here, List.getElem?_append_left inside, List.getElem?_eq_getElem inside]
  rw [List.getElem_map, List.getElem_range, JsonInput.byteAt, List.getD_eq_getElem?_getD, found, Option.getD_some]

theorem memcmpEqual_ne {first char : UInt8} {word : Bytes} (here : input.text.drop pos = char :: rest)
    (different : char ≠ first) : memcmpEqual input pos (first :: word) = false := by
  rw [memcmpEqual, decide_eq_false_iff_not]
  intro same
  have head := congrArg List.head? same
  rw [List.length_cons, List.range_succ_eq_map, List.map_cons, List.head?_cons, List.head?_cons, Nat.add_zero,
    byteAt_of_drop here] at head
  exact different (Option.some.inj head)

/-- The elements of an array up to its end. -/
theorem readElements_formatD {element : BitVec 32} {others : List (BitVec 32)} {room : Nat}
    (fits : others.length < room)
    (here : input.text.drop pos = formatD element.toInt ++
      (others.flatMap (fun other => comma :: formatD other.toInt) ++ closeBracket :: rest)) :
    ∃ next, readElements input room pos = (element :: others, next) ∧ input.text.drop next = rest := by
  induction others generalizing element room pos with
  | nil =>
    cases room with
    | zero => exact absurd fits (Nat.not_lt_zero _)
    | succ room =>
      rw [List.flatMap_nil, List.nil_append] at here
      obtain ⟨number, next, read, value, after⟩ := readJsonNumber_formatD (by decide) here
      refine ⟨next + 1, ?_, drop_succ after⟩
      rw [readElements, if_pos (lt_of_drop_append here), read]
      simp only [skipWs_eq after (by decide), if_pos (byteAt_of_drop after), value]
  | cons other others ih =>
    cases room with
    | zero => exact absurd fits (Nat.not_lt_zero _)
    | succ room =>
      rw [List.flatMap_cons, List.cons_append, List.cons_append, List.append_assoc] at here
      obtain ⟨number, next, read, value, after⟩ := readJsonNumber_formatD (by decide) here
      have following := drop_succ after
      obtain ⟨last, onward, finish⟩ := ih (Nat.lt_of_succ_lt_succ fits) following
      have distinct : comma ≠ closeBracket := by decide
      refine ⟨last, ?_, finish⟩
      rw [readElements, if_pos (lt_of_drop_append here), read]
      simp only [skipWs_eq after (by decide), byteAt_of_drop after, if_neg distinct, if_true, skipWs_formatD following,
        onward, value]

theorem readJsonArray_formatD {data : List (BitVec 32)} (short : data.length < RPC_MAX_ARRAY_LEN)
    (here : input.text.drop pos = commaSeparated (data.map fun element => formatD element.toInt) ++ closeBracket :: rest) :
    ∃ next, readJsonArray input pos = (.array .int32 (BitVec.ofNat 32 data.length) data, next) ∧
      input.text.drop next = rest := by
  cases data with
  | nil =>
    refine ⟨pos + 1, ?_, drop_succ here⟩
    rw [readJsonArray, skipWs_eq here (by decide)]
    exact if_pos (byteAt_of_drop here)
  | cons element others =>
    rw [List.map_cons, commaSeparated, List.flatMap_map, List.append_assoc] at here
    obtain ⟨next, read, after⟩ := readElements_formatD (Nat.lt_of_succ_lt short) here
    refine ⟨next, ?_, after⟩
    obtain ⟨first, tail, shown⟩ := List.exists_cons_of_ne_nil (formatD_ne_nil element.toInt)
    have numeric : isNumeric first = true := isNumeric_of_mem_formatD (shown ▸ List.mem_cons_self ..)
    have unclosed : input.byteAt pos ≠ closeBracket := by
      rw [shown, List.cons_append] at here
      rw [byteAt_of_drop here]
      rintro rfl
      exact absurd numeric (by decide)
    rw [readJsonArray, skipWs_formatD here]
    simp only [if_neg unclosed, read]

end Reading

section Values

/-- The values that JSON texts are used for. -/
def RPCValue.Writable : RPCValue → Prop
  | .int32 _ | .bool _ | .null => True
  | .string value => value.length < 511 ∧ 0 ∉ value
  | .array elemType len data => elemType = .int32 ∧ len = BitVec.ofNat 32 data.length ∧ data.length < RPC_MAX_ARRAY_LEN
  | _ => False

/-- The text of a writable value. -/
def RPCValue.jsonText : RPCValue → Bytes
  | .int32 value => formatD value.toInt
  | .string value => quoted value
  | .bool value => ascii (if value then "true" else "false")
  | .array _ _ data => openBracket :: commaSeparated (data.map fun element => formatD element.toInt) ++ [closeBracket]
  | _ => ascii "null"

/-- The strings in a value. -/
def RPCValue.strings : RPCValue → List Bytes
  | .string value => [value]
  | _ => []

theorem encodeElements_int32 (data : List (BitVec 32)) :
    encodeElements .int32 data = some (data.map fun element => formatD element.toInt) := by
  induction data with
  | nil => rfl
  | cons element rest ih =>
    rw [encodeElements, ih]
    rfl

theorem map_range_getD (data : List (BitVec 32)) : (List.range data.length).map (data.getD · 0#32) = data := by
  refine List.ext_getElem (by rw [List.length_map, List.length_range]) ?_
  intro i _ inside
  rw [List.getElem_map, List.getElem_range, List.getD_eq_getElem?_getD, List.getElem?_eq_getElem inside,
    Option.getD_some]

theorem rpcEncodeValueJson_eq {value : RPCValue} (writable : value.Writable) :
    rpcEncodeValueJson value = some value.jsonText := by
  cases value with
  | int32 value => rfl
  | bool value => rfl
  | null => rfl
  | string value => rw [rpcEncodeValueJson, cString_eq writable.2, RPCValue.jsonText]
  | array elemType len data =>
    obtain ⟨rfl, rfl, short⟩ := writable
    have small : data.length < 64 := short
    have count : (BitVec.ofNat 32 data.length).toInt.toNat = data.length := by
      rw [BitVec.toInt_eq_toNat_of_lt (by rw [BitVec.toNat_ofNat]; omega), Int.toNat_natCast, BitVec.toNat_ofNat,
        Nat.mod_eq_of_lt (by omega)]
    rw [rpcEncodeValueJson, count, map_range_getD, encodeElements_int32]
    rfl
  | int64 value => exact writable.elim
  | float value => exact writable.elim
  | other code => exact writable.elim
  | unset type => exact writable.elim

theorem encodeValues_eq {values : List RPCValue} (writable : ∀ value ∈ values, value.Writable) :
    encodeValues values = some (values.map RPCValue.jsonText) := by
  induction values with
  | nil => rfl
  | cons value rest ih =>
    rw [encodeValues, rpcEncodeValueJson_eq (writable value (List.mem_cons_self ..)),
      ih fun other inside => writable other (List.mem_cons_of_mem value inside)]
    rfl

theorem readJsonValue_int32 {value : BitVec 32} {char : UInt8} (stop : isNumeric char = false)
    (here : input.text.drop pos = formatD value.toInt ++ char :: rest) :
    ∃ next, readJsonValue input pos = (some (.int32 value), next) ∧ input.text.drop next = char :: rest := by
  obtain ⟨number, next, read, same, after⟩ := readJsonNumber_formatD stop here
  refine ⟨next, ?_, after⟩
  obtain ⟨first, tail, shown⟩ := List.exists_cons_of_ne_nil (formatD_ne_nil value.toInt)
  have numeric : isNumeric first = true := isNumeric_of_mem_formatD (shown ▸ List.mem_cons_self ..)
  have start : input.text.drop pos = first :: (tail ++ char :: rest) := by rw [here, shown, List.cons_append]
  have other (letter : UInt8) (known : isNumeric letter = false) : first ≠ letter := by
    rintro rfl
    rw [known] at numeric
    cases numeric
  rw [readJsonValue, skipWs_formatD here, getElem?_of_drop start]
  simp only [read, same, if_neg (other quote (by decide)), if_neg (other 110 (by decide)),
    if_neg (other openBracket (by decide)), other 116 (by decide), other 102 (by decide), or_self, if_false]

theorem readJsonValue_bool {value : Bool} (here : input.text.drop pos = ascii (if value then "true" else "false") ++ rest) :
    ∃ next, readJsonValue input pos = (some (.bool value), next) ∧ input.text.drop next = rest := by
  cases value with
  | true =>
    have start : input.text.drop pos = 116 :: ([114, 117, 101] ++ rest) := here
    refine ⟨pos + 4, ?_, drop_of_append here⟩
    rw [readJsonValue, skipWs_eq start (by decide), getElem?_of_drop start]
    have letter : (116 : UInt8) ≠ quote := by decide
    have found : memcmpEqual input pos (ascii "true") = true := memcmpEqual_of_drop here
    simp only [if_neg letter, true_or, if_true, found]
  | false =>
    have start : input.text.drop pos = 102 :: ([97, 108, 115, 101] ++ rest) := here
    refine ⟨pos + 5, ?_, drop_of_append here⟩
    rw [readJsonValue, skipWs_eq start (by decide), getElem?_of_drop start]
    have letter : (102 : UInt8) ≠ quote := by decide
    have found : memcmpEqual input pos (ascii "false") = true := memcmpEqual_of_drop here
    have differs : memcmpEqual input pos (ascii "true") = false := memcmpEqual_ne start (by decide)
    simp only [if_neg letter, or_true, if_true, differs, Bool.false_eq_true, if_false,
      found]

theorem readJsonValue_null (here : input.text.drop pos = ascii "null" ++ rest) :
    ∃ next, readJsonValue input pos = (some .null, next) ∧ input.text.drop next = rest := by
  have start : input.text.drop pos = 110 :: ([117, 108, 108] ++ rest) := here
  refine ⟨pos + 4, ?_, drop_of_append here⟩
  rw [readJsonValue, skipWs_eq start (by decide), getElem?_of_drop start]
  have letter : (110 : UInt8) ≠ quote := by decide
  have found : memcmpEqual input pos (ascii "null") = true := memcmpEqual_of_drop here
  have word : ¬ ((110 : UInt8) = 116 ∨ (110 : UInt8) = 102) := by decide
  simp only [if_neg letter, if_neg word, if_true, found]

theorem readJsonValue_string {value : Bytes} (plain : ∀ char ∈ value, isPlain char = true) (short : value.length < 511)
    (whole : 0 ∉ value) (here : input.text.drop pos = quoted value ++ rest) :
    ∃ next, readJsonValue input pos = (some (.string value), next) ∧ input.text.drop next = rest := by
  have fits : value.length < 512 - 1 := short
  obtain ⟨next, read, after⟩ := readJsonString_plain plain fits here
  refine ⟨next, ?_, after⟩
  have start : input.text.drop pos = quote :: (value ++ [quote] ++ rest) := here
  rw [readJsonValue, skipWs_eq start (by decide), getElem?_of_drop start]
  simp only [if_true, read, Option.map_some, cString_eq whole]

theorem readJsonValue_array {data : List (BitVec 32)} (short : data.length < RPC_MAX_ARRAY_LEN)
    (here : input.text.drop pos =
      openBracket :: commaSeparated (data.map fun element => formatD element.toInt) ++ [closeBracket] ++ rest) :
    ∃ next, readJsonValue input pos = (some (.array .int32 (BitVec.ofNat 32 data.length) data), next) ∧
      input.text.drop next = rest := by
  rw [List.cons_append, List.cons_append, List.append_assoc] at here
  obtain ⟨next, read, after⟩ := readJsonArray_formatD short (drop_succ here)
  refine ⟨next, ?_, after⟩
  rw [readJsonValue, skipWs_eq here (by decide), getElem?_of_drop here]
  have letter : openBracket ≠ quote := by decide
  have word : ¬ (openBracket = 116 ∨ openBracket = 102) := by decide
  have start : openBracket ≠ 110 := by decide
  simp only [if_neg letter, if_neg word, if_neg start, if_true, read]

/-- A writable value without special characters is read back. -/
theorem readJsonValue_jsonText {value : RPCValue} {char : UInt8} (writable : value.Writable)
    (plain : ∀ text ∈ value.strings, ∀ char ∈ text, isPlain char = true) (stop : isNumeric char = false)
    (here : input.text.drop pos = value.jsonText ++ char :: rest) :
    ∃ next, readJsonValue input pos = (some value, next) ∧ input.text.drop next = char :: rest := by
  cases value with
  | int32 value => exact readJsonValue_int32 stop here
  | bool value => exact readJsonValue_bool here
  | null => exact readJsonValue_null here
  | string value => exact readJsonValue_string (plain value (List.mem_singleton_self value)) writable.1 writable.2 here
  | array elemType len data =>
    obtain ⟨rfl, rfl, short⟩ := writable
    exact readJsonValue_array short here
  | int64 value => exact writable.elim
  | float value => exact writable.elim
  | other code => exact writable.elim
  | unset type => exact writable.elim

/-- The list of the parameters up to its end. -/
theorem readParams_jsonText {value : RPCValue} {others before : List RPCValue} {steps : Nat}
    (writable : ∀ param ∈ value :: others, param.Writable)
    (plain : ∀ param ∈ value :: others, ∀ text ∈ param.strings, ∀ char ∈ text, isPlain char = true)
    (few : before.length + others.length < RPC_MAX_PARAMS) (enough : others.length < steps)
    (here : input.text.drop pos = value.jsonText ++
      (others.flatMap (fun other => comma :: other.jsonText) ++ closeBracket :: rest)) :
    ∃ next, readParams input steps pos before = some (before ++ value :: others, next) ∧ input.text.drop next = rest := by
  induction others generalizing value before steps pos with
  | nil =>
    cases steps with
    | zero => exact absurd enough (Nat.not_lt_zero _)
    | succ steps =>
      rw [List.flatMap_nil, List.nil_append] at here
      obtain ⟨next, read, after⟩ := readJsonValue_jsonText (writable value (List.mem_cons_self ..))
        (plain value (List.mem_cons_self ..)) (by decide) here
      have distinct : closeBracket ≠ comma := by decide
      refine ⟨next + 1, ?_, drop_succ after⟩
      rw [readParams, if_pos ⟨lt_of_drop_append here, few⟩, read]
      simp only [skipWs_eq after (by decide), byteAt_of_drop after, if_neg distinct, if_true, Option.toList_some]
  | cons other others ih =>
    cases steps with
    | zero => exact absurd enough (Nat.not_lt_zero _)
    | succ steps =>
      rw [List.flatMap_cons, List.cons_append, List.cons_append, List.append_assoc] at here
      obtain ⟨next, read, after⟩ := readJsonValue_jsonText (writable value (List.mem_cons_self ..))
        (plain value (List.mem_cons_self ..)) (by decide) here
      have longer : (before ++ [value]).length + others.length < RPC_MAX_PARAMS := by
        rw [List.length_append, List.length_singleton]
        rw [List.length_cons] at few
        omega
      obtain ⟨last, onward, finish⟩ := ih (fun param member => writable param (List.mem_cons_of_mem value member))
        (fun param member => plain param (List.mem_cons_of_mem value member)) longer
        (Nat.lt_of_succ_lt_succ enough) (drop_succ after)
      refine ⟨last, ?_, finish⟩
      rw [List.append_assoc, List.singleton_append] at onward
      rw [readParams, if_pos ⟨lt_of_drop_append here, by omega⟩, read]
      simp only [skipWs_eq after (by decide), byteAt_of_drop after, if_true, Option.toList_some]
      exact onward

end Values

section Messages

/-- The messages that JSON texts are used for. -/
structure RPCMessage.Writable (msg : RPCMessage) : Prop where
  slots : msg.params.length = RPC_MAX_PARAMS
  few : msg.paramCount ≤ 15
  short : msg.methodName.length < 127
  whole : 0 ∉ msg.methodName
  params : ∀ param ∈ msg.params.take msg.paramCount, param.Writable

/-- The strings in a message: the name of the method and the parameters that are strings. -/
def RPCMessage.strings (msg : RPCMessage) : List Bytes :=
  msg.methodName :: (msg.params.take msg.paramCount).flatMap RPCValue.strings

/-- The text of a writable message. -/
def RPCMessage.jsonText (msg : RPCMessage) : Bytes :=
  openBrace :: (quoted (ascii "method") ++ colon :: (quoted msg.methodName ++
    comma :: (quoted (ascii "params") ++ colon :: openBracket ::
      (commaSeparated ((msg.params.take msg.paramCount).map RPCValue.jsonText) ++
        closeBracket :: comma :: (quoted (ascii "id") ++ colon :: (formatD msg.id.toInt ++ [closeBrace]))))))

theorem rpcEncodeJson_eq {msg : RPCMessage} (writable : msg.Writable) : rpcEncodeJson msg = some msg.jsonText := by
  rw [rpcEncodeJson, encodeValues_eq writable.params, cString_eq writable.whole, RPCMessage.jsonText]
  simp only [Option.bind_eq_bind, Option.bind_some, Option.pure_def, List.cons_append, List.append_assoc]

/-- One member of the object. -/
theorem readMembers_member (steps : Nat) (msg : RPCMessage) {key body : Bytes} {msg' : RPCMessage} {char : UInt8}
    (plain : ∀ letter ∈ key, isPlain letter = true) (short : key.length < 127) (whole : 0 ∉ key)
    (dark : isWs char = false) (here : input.text.drop pos = quoted key ++ colon :: body)
    (member : ∀ start, input.text.drop start = body → ∃ next,
      readMember input steps key start msg = some (some next, msg') ∧ input.text.drop next = char :: rest) :
    ∃ next, readMembers input (steps + 1) pos msg = readMembers input steps next msg' ∧
      input.text.drop next = if char = comma then rest else char :: rest := by
  have fits : key.length < 128 - 1 := short
  obtain ⟨next, read, after⟩ := readJsonString_plain plain fits here
  obtain ⟨last, value, finish⟩ := member (next + 1) (drop_succ after)
  have start : input.text.drop pos = quote :: (key ++ [quote] ++ colon :: body) := here
  have inside : ¬ (input.text.length ≤ pos ∨ input.byteAt pos = closeBrace) := by
    rintro (outside | brace)
    · exact absurd (lt_of_drop_append here) (Nat.not_lt_of_le outside)
    · rw [byteAt_of_drop start] at brace
      exact absurd brace (by decide)
  refine ⟨if char = comma then last + 1 else last, ?_, ?_⟩
  · rw [readMembers]
    simp only [skipWs_eq start (by decide), if_neg inside, read, expectChar_eq after (by decide), cString_eq whole, value,
      Option.bind_eq_bind, Option.bind_some, skipWs_eq finish dark, getElem?_of_drop finish, Option.some.injEq]
  · split
    · exact drop_succ finish
    · exact finish

theorem readMember_method {steps : Nat} {name : Bytes} {msg : RPCMessage} {char : UInt8}
    (plain : ∀ letter ∈ name, isPlain letter = true) (short : name.length < 127) (whole : 0 ∉ name)
    (here : input.text.drop pos = quoted name ++ char :: rest) :
    ∃ next, readMember input steps (ascii "method") pos msg = some (some next, { msg with methodName := name }) ∧
      input.text.drop next = char :: rest := by
  have fits : name.length < RPC_MAX_METHOD_NAME - 1 := short
  obtain ⟨next, read, after⟩ := readJsonString_plain plain fits here
  refine ⟨next, ?_, after⟩
  have kept : strncpy name (RPC_MAX_METHOD_NAME - 1) = name := List.take_of_length_le (Nat.le_of_lt fits)
  rw [readMember, if_pos rfl]
  simp only [read, cString_eq whole, kept]

theorem readMember_id {steps : Nat} {id : BitVec 32} {msg : RPCMessage} {char : UInt8} (stop : isNumeric char = false)
    (here : input.text.drop pos = formatD id.toInt ++ char :: rest) :
    ∃ next, readMember input steps (ascii "id") pos msg = some (some next, { msg with id := id }) ∧
      input.text.drop next = char :: rest := by
  obtain ⟨number, next, read, same, after⟩ := readJsonNumber_formatD stop here
  refine ⟨next, ?_, after⟩
  have first : ascii "id" ≠ ascii "method" := by decide
  rw [readMember, if_neg first, if_pos rfl]
  simp only [read, same]

theorem jsonText_ne_bracket {value : RPCValue} (writable : value.Writable) :
    ∃ first tail, value.jsonText = first :: tail ∧ isWs first = false ∧ first ≠ closeBracket := by
  cases value with
  | int32 value =>
    obtain ⟨first, tail, shown⟩ := List.exists_cons_of_ne_nil (formatD_ne_nil value.toInt)
    have numeric : isNumeric first = true := isNumeric_of_mem_formatD (shown ▸ List.mem_cons_self ..)
    refine ⟨first, tail, shown, dark_of_isNumeric numeric, ?_⟩
    rintro rfl
    exact absurd numeric (by decide)
  | bool value =>
    cases value with
    | true => exact ⟨116, _, rfl, by decide, by decide⟩
    | false => exact ⟨102, _, rfl, by decide, by decide⟩
  | null => exact ⟨110, _, rfl, by decide, by decide⟩
  | string value => exact ⟨quote, _, rfl, by decide, by decide⟩
  | array elemType len data => exact ⟨openBracket, _, rfl, by decide, by decide⟩
  | int64 value => exact writable.elim
  | float value => exact writable.elim
  | other code => exact writable.elim
  | unset type => exact writable.elim

theorem readMember_params {steps : Nat} {params : List RPCValue} {msg : RPCMessage} {char : UInt8}
    (writable : ∀ param ∈ params, param.Writable)
    (plain : ∀ param ∈ params, ∀ text ∈ param.strings, ∀ letter ∈ text, isPlain letter = true)
    (fresh : msg.params = List.replicate RPC_MAX_PARAMS .null) (none : msg.paramCount = 0)
    (few : params.length ≤ 15) (enough : 15 ≤ steps)
    (here : input.text.drop pos =
      openBracket :: (commaSeparated (params.map RPCValue.jsonText) ++ closeBracket :: char :: rest)) :
    ∃ next, readMember input steps (ascii "params") pos msg = some (some next, msg.withParams params) ∧
      input.text.drop next = char :: rest := by
  have first : ascii "params" ≠ ascii "method" := by decide
  have second : ascii "params" ≠ ascii "id" := by decide
  have following := drop_succ here
  rw [readMember, if_neg first, if_neg second, if_pos rfl, expectChar_eq here (by decide)]
  cases params with
  | nil =>
    refine ⟨pos + 1 + 1, ?_, drop_succ following⟩
    have same : msg.withParams [] = msg := by
      rw [RPCMessage.withParams, List.nil_append, List.length_nil, Nat.sub_zero, ← fresh, ← none]
    simp only [skipWs_eq following (by decide), if_pos (byteAt_of_drop following), same]
  | cons value others =>
    rw [List.map_cons, commaSeparated, List.flatMap_map, List.append_assoc] at following
    have room : ([] : List RPCValue).length + others.length < RPC_MAX_PARAMS := by
      rw [List.length_nil, Nat.zero_add]
      exact Nat.lt_of_succ_le (Nat.le_succ_of_le few)
    obtain ⟨next, read, after⟩ := readParams_jsonText writable plain room (Nat.lt_of_lt_of_le few enough) following
    obtain ⟨head, tail, shown, dark, other⟩ := jsonText_ne_bracket (writable value (List.mem_cons_self ..))
    rw [shown, List.cons_append] at following
    refine ⟨next, ?_, after⟩
    simp only [skipWs_eq following dark, byteAt_of_drop following, if_neg other, none, List.take_zero, read,
      List.nil_append, Option.bind_eq_bind, Option.bind_some, Option.pure_def]

/-- A message without special characters is read back from its text. -/
theorem decodeInput_jsonText {msg : RPCMessage} (writable : msg.Writable)
    (plain : ∀ text ∈ msg.strings, ∀ letter ∈ text, isPlain letter = true) (text : input.text = msg.jsonText) :
    ∃ decoded, decodeInput input 20 = some (0, decoded) ∧ decoded.methodName = msg.methodName ∧ decoded.id = msg.id ∧
      decoded.paramCount = msg.paramCount ∧
      decoded.params.take msg.paramCount = msg.params.take msg.paramCount := by
  have start : input.text.drop 0 = msg.jsonText := text
  have count : (msg.params.take msg.paramCount).length = msg.paramCount := by
    have slots : msg.params.length = 16 := writable.slots
    have few := writable.few
    rw [List.length_take]
    omega
  have few : (msg.params.take msg.paramCount).length ≤ 15 := Nat.le_trans (List.length_take_le _ _) writable.few
  have paramsPlain : ∀ param ∈ msg.params.take msg.paramCount, ∀ text ∈ param.strings, ∀ letter ∈ text,
      isPlain letter = true := fun param member text inside =>
    plain text (List.mem_cons_of_mem _ (List.mem_flatMap.mpr ⟨param, member, inside⟩))
  have keys : ∀ key ∈ [ascii "method", ascii "params", ascii "id"],
      (∀ letter ∈ key, isPlain letter = true) ∧ key.length < 127 ∧ 0 ∉ key := by decide +kernel
  rw [RPCMessage.jsonText] at start
  obtain ⟨methodPlain, methodShort, methodWhole⟩ := keys (ascii "method") (by simp)
  obtain ⟨second, first, here⟩ := readMembers_member 19 rpcMessageInit methodPlain methodShort methodWhole
    (by decide) (drop_succ start) (fun _ => readMember_method
      (plain _ (List.mem_cons_self ..)) writable.short writable.whole)
  rw [if_pos rfl] at here
  obtain ⟨paramsPlainKey, paramsShort, paramsWhole⟩ := keys (ascii "params") (by simp)
  obtain ⟨third, next, here⟩ := readMembers_member 18 { rpcMessageInit with methodName := msg.methodName }
    paramsPlainKey paramsShort paramsWhole (by decide) here
    (fun _ => readMember_params writable.params paramsPlain rfl rfl few (by decide))
  rw [if_pos rfl] at here
  obtain ⟨idPlain, idShort, idWhole⟩ := keys (ascii "id") (by simp)
  obtain ⟨last, final, here⟩ := readMembers_member 17 _ idPlain idShort idWhole (by decide) here
    (fun _ => readMember_id (by decide))
  rw [if_neg (by decide)] at here
  have done : ∀ msg', readMembers input 17 last msg' = some (0, msg') := by
    intro msg'
    rw [readMembers, skipWs_eq here (by decide)]
    exact if_pos (.inr (byteAt_of_drop here))
  have run := first.trans (next.trans (final.trans (done _)))
  have decode : decodeInput input 20 = readMembers input 20 1 rpcMessageInit := by
    rw [decodeInput, expectChar_eq start (by decide)]
  refine ⟨_, decode.trans run, rfl, rfl, count, ?_⟩
  exact (List.take_append_of_le_length (Nat.le_of_eq count.symm)).trans (List.take_of_length_le (Nat.le_of_eq count))

theorem length_commaSeparated_le {items : List Bytes} {most : Nat} (short : ∀ item ∈ items, item.length ≤ most) :
    (commaSeparated items).length ≤ items.length * (most + 1) := by
  have each : ∀ rest : List Bytes, (∀ item ∈ rest, item.length ≤ most) →
      (rest.flatMap (comma :: ·)).length ≤ rest.length * (most + 1) := by
    intro rest
    induction rest with
    | nil => exact fun _ => Nat.zero_le _
    | cons item rest ih =>
      intro short
      have here := short item (List.mem_cons_self ..)
      have others := ih fun other inside => short other (List.mem_cons_of_mem item inside)
      rw [List.flatMap_cons, List.length_append, List.length_cons, List.length_cons, Nat.succ_mul]
      omega
  cases items with
  | nil => exact Nat.zero_le _
  | cons item rest =>
    have here := short item (List.mem_cons_self ..)
    have others := each rest fun other inside => short other (List.mem_cons_of_mem item inside)
    rw [commaSeparated, List.length_append, List.length_cons, Nat.succ_mul]
    omega

theorem length_jsonText_le {value : RPCValue} (writable : value.Writable) : value.jsonText.length ≤ 1000 := by
  cases value with
  | int32 value => exact Nat.le_trans (length_formatD_le value) (by decide)
  | bool value => cases value <;> decide
  | null => decide
  | string value =>
    have short := writable.1
    rw [RPCValue.jsonText, quoted, List.length_cons, List.length_append, List.length_singleton]
    omega
  | array elemType len data =>
    obtain ⟨rfl, rfl, short⟩ := writable
    have small : data.length < 64 := short
    have items : (commaSeparated (data.map fun element => formatD element.toInt)).length ≤ data.length * (11 + 1) := by
      rw [← List.length_map (fun element : BitVec 32 => formatD element.toInt)]
      refine length_commaSeparated_le ?_
      intro item inside
      obtain ⟨element, -, rfl⟩ := List.mem_map.mp inside
      exact length_formatD_le element
    rw [RPCValue.jsonText, List.length_append, List.length_cons, List.length_singleton]
    omega
  | int64 value => exact writable.elim
  | float value => exact writable.elim
  | other code => exact writable.elim
  | unset type => exact writable.elim

theorem RPCMessage.length_jsonText_lt {msg : RPCMessage} (writable : msg.Writable) : msg.jsonText.length < 2147483648 := by
  have count : (msg.params.take msg.paramCount).length ≤ 15 :=
    Nat.le_trans (List.length_take_le _ _) writable.few
  have params : (commaSeparated ((msg.params.take msg.paramCount).map RPCValue.jsonText)).length ≤
      (msg.params.take msg.paramCount).length * (1000 + 1) := by
    rw [← List.length_map RPCValue.jsonText]
    refine length_commaSeparated_le ?_
    intro item inside
    obtain ⟨param, member, rfl⟩ := List.mem_map.mp inside
    exact length_jsonText_le (writable.params param member)
  have name := writable.short
  have id := length_formatD_le msg.id
  have words : (ascii "method").length = 6 ∧ (ascii "params").length = 6 ∧ (ascii "id").length = 2 := by decide
  simp only [jsonText, quoted, List.length_cons, List.length_append, List.length_nil, words]
  omega

end Messages

end MiniNetDist.RpcFramework
