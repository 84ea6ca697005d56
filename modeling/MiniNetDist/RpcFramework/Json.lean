import MiniNetDist.Library.Decimal
import MiniNetDist.RpcFramework.Message

/-! The JSON encoding of `mini-rpc-framework/src/rpc_encoding.c`. The writer copies strings as they are; the reader
takes a backslash in them for an escape. -/

namespace MiniNetDist.RpcFramework

open Library Decimal

section Characters

def quote : UInt8 := 34
def comma : UInt8 := 44
def colon : UInt8 := 58
def openBracket : UInt8 := 91
def backslash : UInt8 := 92
def closeBracket : UInt8 := 93
def openBrace : UInt8 := 123
def closeBrace : UInt8 := 125

def isWs (byte : UInt8) : Bool := byte = 32 || byte = 9 || byte = 10 || byte = 13

/-- The characters of a number: digits, signs, a point and the letters of an exponent. -/
def isNumeric (byte : UInt8) : Bool := byte = 45 || byte = 43 || isDigit byte || byte = 46 || byte = 101 || byte = 69

end Characters

section Encoder

def quoted (text : Bytes) : Bytes := quote :: (text ++ [quote])

/-- The items with commas between them. -/
def commaSeparated : List Bytes → Bytes
  | [] => []
  | item :: rest => item ++ rest.flatMap (comma :: ·)

/-- An element of an array. One that is not an integer has nothing but a zero stored in it. -/
def rpcEncodeElementJson (elemType : RPCValueType) (element : BitVec 32) : Option Bytes :=
  match elemType with
  | .int32 => some (formatD element.toInt)
  | .bool => some (ascii "false")
  | .null => some (ascii "null")
  | .other _ => some []
  | .int64 | .string | .float | .array => none

def encodeElements (elemType : RPCValueType) : List (BitVec 32) → Option (List Bytes)
  | [] => some []
  | element :: rest => do
    let bytes ← rpcEncodeElementJson elemType element
    let others ← encodeElements elemType rest
    return bytes :: others

/-- The text of a value; there is none where the value was never stored. -/
def rpcEncodeValueJson : RPCValue → Option Bytes
  | .int32 value => some (formatD value.toInt)
  | .int64 value => some (formatD value.toInt)
  | .string value => some (quoted (cString value))
  | .bool value => some (ascii (if value then "true" else "false"))
  | .float value => some (formatG value)
  | .array elemType len data => do
    let items ← encodeElements elemType ((List.range len.toInt.toNat).map (data.getD · 0#32))
    return openBracket :: commaSeparated items ++ [closeBracket]
  | .null => some (ascii "null")
  | .other _ => some []
  | .unset .null => some (ascii "null")
  | .unset (.other _) => some []
  | .unset _ => none

def encodeValues : List RPCValue → Option (List Bytes)
  | [] => some []
  | value :: rest => do
    let bytes ← rpcEncodeValueJson value
    let others ← encodeValues rest
    return bytes :: others

def rpcEncodeJson (msg : RPCMessage) : Option Bytes := do
  let params ← encodeValues (msg.params.take msg.paramCount)
  return openBrace :: quoted (ascii "method") ++ colon :: quoted (cString msg.methodName) ++
    comma :: quoted (ascii "params") ++ colon :: openBracket :: commaSeparated params ++
    closeBracket :: comma :: quoted (ascii "id") ++ colon :: formatD msg.id.toInt ++ [closeBrace]

end Encoder

section Decoder

/-- The text, and the memory after it, which some comparisons reach. -/
structure JsonInput where
  text : Bytes
  beyond : Nat → UInt8

def JsonInput.byteAt (input : JsonInput) (pos : Nat) : UInt8 := input.text.getD pos (input.beyond pos)

variable (input : JsonInput)

def skipWs (pos : Nat) : Nat := pos + ((input.text.drop pos).takeWhile isWs).length

/-- Whether the character was there, and the position after it or where it was missed. -/
def expectChar (pos : Nat) (char : UInt8) : Bool × Nat :=
  let pos := skipWs input pos
  if input.text[pos]? = some char then (true, pos + 1) else (false, pos)

/-- The characters up to a quote, of which there is room for `room`. -/
def readChars : Nat → Nat → Option Bytes × Nat
  | 0, pos => (none, pos)
  | room + 1, pos =>
    match input.text[pos]? with
    | none => (none, pos)
    | some char =>
      if char = quote then (some [], pos + 1)
      else
        let pos := if char = backslash then pos + 1 else pos
        let (out, next) := readChars room (pos + 1)
        (out.map (input.byteAt pos :: ·), next)

def readJsonString (pos maxout : Nat) : Option Bytes × Nat :=
  match expectChar input pos quote with
  | (false, pos) => (none, pos)
  | (true, pos) => readChars input (maxout - 1) pos

def readJsonNumber (pos : Nat) : Number × Nat :=
  let pos := skipWs input pos
  let tmp := ((input.text.drop pos).take 63).takeWhile isNumeric
  (atof tmp, pos + tmp.length)

def memcmpEqual (pos : Nat) (word : Bytes) : Bool :=
  (List.range word.length).map (fun i => input.byteAt (pos + i)) = word

/-- The elements of an array, of which there is room for `room`. -/
def readElements : Nat → Nat → List (BitVec 32) × Nat
  | 0, pos => ([], pos)
  | room + 1, pos =>
    if pos < input.text.length then
      let (num, pos) := readJsonNumber input pos
      let pos := skipWs input pos
      if input.byteAt pos = closeBracket then ([num.toInt32], pos + 1)
      else
        let pos := if input.byteAt pos = comma then skipWs input (pos + 1) else pos + 1
        let (rest, next) := readElements room pos
        (num.toInt32 :: rest, next)
    else ([], pos)

def readJsonArray (pos : Nat) : RPCValue × Nat :=
  let pos := skipWs input pos
  if input.byteAt pos = closeBracket then (.array .int32 0#32 [], pos + 1)
  else
    let (elements, next) := readElements input RPC_MAX_ARRAY_LEN pos
    (.array .int32 (BitVec.ofNat 32 elements.length) elements, next)

/-- The value that was read, if any, and the position after it. -/
def readJsonValue (pos : Nat) : Option RPCValue × Nat :=
  let pos := skipWs input pos
  match input.text[pos]? with
  | none => (none, pos)
  | some char =>
    if char = quote then
      let (text, next) := readJsonString input pos 512
      (text.map fun text => .string (cString text), next)
    else if char = 116 ∨ char = 102 then
      if memcmpEqual input pos (ascii "true") then (some (.bool true), pos + 4)
      else if memcmpEqual input pos (ascii "false") then (some (.bool false), pos + 5)
      else (none, pos)
    else if char = 110 then
      if memcmpEqual input pos (ascii "null") then (some .null, pos + 4) else (none, pos)
    else if char = openBracket then
      let (value, next) := readJsonArray input (pos + 1)
      (some value, next)
    else
      let (num, next) := readJsonNumber input pos
      (some (.int32 num.toInt32), next)

/-- The values of a list of parameters after `params`. A value that cannot be read is tried again for ever: the
result is none when the steps run out. -/
def readParams : Nat → Nat → List RPCValue → Option (List RPCValue × Nat)
  | 0, _, _ => none
  | steps + 1, pos, params =>
    if pos < input.text.length ∧ params.length < RPC_MAX_PARAMS then
      let (value, pos) := readJsonValue input pos
      let params := params ++ value.toList
      let pos := skipWs input pos
      if input.byteAt pos = comma then readParams steps (pos + 1) params
      else if input.byteAt pos = closeBracket then some (params, pos + 1)
      else readParams steps pos params
    else some (params, pos)

/-- Store the parameters; the others are null. -/
def RPCMessage.withParams (msg : RPCMessage) (params : List RPCValue) : RPCMessage :=
  { msg with
    params := params ++ List.replicate (RPC_MAX_PARAMS - params.length) .null
    paramCount := params.length }

/-- What a member of the object does: the position after it, or none where the decoder returns -1, and the message. -/
def readMember (steps : Nat) (key : CString) (pos : Nat) (msg : RPCMessage) : Option (Option Nat × RPCMessage) :=
  if key = ascii "method" then
    match readJsonString input pos RPC_MAX_METHOD_NAME with
    | (some mname, next) =>
      some (some next, { msg with methodName := strncpy (cString mname) (RPC_MAX_METHOD_NAME - 1) })
    | (none, next) => some (some next, msg)
  else if key = ascii "id" then
    let (idnum, next) := readJsonNumber input pos
    some (some next, { msg with id := idnum.toInt32 })
  else if key = ascii "params" then
    match expectChar input pos openBracket with
    | (false, _) => some (none, msg)
    | (true, pos) =>
      let pos := skipWs input pos
      if input.byteAt pos = closeBracket then some (some (pos + 1), msg)
      else do
        let (params, next) ← readParams input steps pos (msg.params.take msg.paramCount)
        return (some next, msg.withParams params)
  else if key = ascii "error" then
    match readJsonString input pos 256 with
    | (some errbuf, next) =>
      some (some next, { msg with isError := true, errorMsg := strncpy (cString errbuf) 255 })
    | (none, next) => some (some next, msg)
  else if key = ascii "result" then some (some (skipWs input pos), { msg with isRequest := false })
  else some (some (readJsonValue input pos).2, msg)

/-- The members of the object. -/
def readMembers : Nat → Nat → RPCMessage → Option (Int × RPCMessage)
  | 0, _, _ => none
  | steps + 1, pos, msg =>
    let pos := skipWs input pos
    if input.text.length ≤ pos ∨ input.byteAt pos = closeBrace then some (0, msg)
    else
      match readJsonString input pos 128 with
      | (none, _) => some (-1, msg)
      | (some key, pos) =>
        match expectChar input pos colon with
        | (false, _) => some (-1, msg)
        | (true, pos) => do
          let (next, msg) ← readMember input steps (cString key) pos msg
          match next with
          | none => return (-1, msg)
          | some pos =>
            let pos := skipWs input pos
            readMembers steps (if input.text[pos]? = some comma then pos + 1 else pos) msg

def decodeInput (steps : Nat) : Option (Int × RPCMessage) :=
  match expectChar input 0 openBrace with
  | (false, _) => some (-1, rpcMessageInit)
  | (true, pos) => readMembers input steps pos rpcMessageInit

/-- The result and the message, unless the decoder takes more steps; the length of the text is a signed integer. -/
def rpcDecodeJson (steps : Nat) (data : Bytes) (beyond : Nat → UInt8) : Option (Int × RPCMessage) :=
  decodeInput ⟨data.take (BitVec.ofNat 32 data.length).toInt.toNat, fun pos => data.getD pos (beyond pos)⟩ steps

end Decoder

end MiniNetDist.RpcFramework
