import MiniNetDist.Library.Bytes
import MiniNetDist.Library.CharArray

/-! The header blocks of `mini-app-protocol/src/http2_frames.c`. The writer overwrites the mark of an index with
the index, and puts the length of a literal into its first byte, where the reader looks for marks. -/

namespace MiniNetDist.AppProtocol.H2

open Library

def H2_MAX_HEADER_FIELDS : Nat := 16
def H2_MAX_FIELD_VALUE : Nat := 256

/-- The entries of the dynamic table. -/
def HPACK_DYNAMIC_ENTRIES : Nat := 64

structure H2HeaderField where
  name : CharArray 128
  value : CharArray H2_MAX_FIELD_VALUE
  deriving DecidableEq, Repr

structure H2HeaderBlock where
  fields : List H2HeaderField
  count_le : fields.length ≤ H2_MAX_HEADER_FIELDS

/-- The part of a connection that the header coder reads and writes. -/
structure H2Connection where
  hpackDynamicTable : List H2HeaderField
  count_le : hpackDynamicTable.length ≤ HPACK_DYNAMIC_ENTRIES

def H2HeaderField.ofBytes (name value : Bytes) : H2HeaderField :=
  ⟨.store 128 name, .store H2_MAX_FIELD_VALUE value⟩

def staticTable : List (CString × CString) :=
  [(":authority", ""), (":method", "GET"), (":method", "POST"), (":path", "/"), (":path", "/index.html"),
    (":scheme", "http"), (":scheme", "https"), (":status", "200"), (":status", "204"), (":status", "206"),
    (":status", "304"), (":status", "400"), (":status", "404"), (":status", "500"), ("accept-charset", ""),
    ("accept-encoding", "gzip, deflate"), ("accept-language", ""), ("accept-ranges", ""), ("accept", ""),
    ("access-control-allow-origin", ""), ("age", ""), ("allow", ""), ("authorization", ""), ("cache-control", ""),
    ("content-disposition", ""), ("content-encoding", ""), ("content-language", ""), ("content-length", ""),
    ("content-location", ""), ("content-range", ""), ("content-type", ""), ("cookie", ""), ("date", ""),
    ("etag", ""), ("expect", ""), ("expires", ""), ("from", ""), ("host", ""), ("if-match", ""),
    ("if-modified-since", ""), ("if-none-match", ""), ("if-range", ""), ("if-unmodified-since", ""),
    ("last-modified", ""), ("link", ""), ("location", ""), ("max-forwards", ""), ("proxy-authenticate", ""),
    ("proxy-authorization", ""), ("range", ""), ("referer", ""), ("refresh", ""), ("retry-after", ""),
    ("server", ""), ("set-cookie", ""), ("strict-transport-security", ""), ("transfer-encoding", ""),
    ("user-agent", ""), ("vary", ""), ("via", ""), ("www-authenticate", "")].map
    fun (name, value) => (ascii name, ascii value)

/-- An entry without a value stands for every value. -/
def matchesEntry (field : H2HeaderField) (entry : CString × CString) : Bool :=
  field.name.text = entry.1 && (entry.2 = [] || field.value.text = entry.2)

def staticIndex (field : H2HeaderField) : Option Nat := staticTable.findIdx? (matchesEntry field)

theorem append_count_le {table : List H2HeaderField} (field : H2HeaderField)
    (room : table.length < HPACK_DYNAMIC_ENTRIES) : (table ++ [field]).length ≤ HPACK_DYNAMIC_ENTRIES := by
  rw [List.length_append, List.length_singleton]
  exact room

/-- A full table keeps its entries. -/
def H2Connection.add (conn : H2Connection) (field : H2HeaderField) : H2Connection :=
  if room : conn.hpackDynamicTable.length < HPACK_DYNAMIC_ENTRIES then
    ⟨conn.hpackDynamicTable ++ [field], append_count_le field room⟩
  else conn

section Writer

/-- The bytes after the prefix, in the space that is left. -/
def encodeRest : Nat → Nat → Option Bytes
  | 0, _ => none
  | space + 1, value =>
    if value ≥ 0x80 then (encodeRest space (value >>> 7)).map (.ofNat (value &&& 0x7F ||| 0x80) :: ·)
    else some [.ofNat (value &&& 0x7F)]

def hpackEncodeInt (outSize prefixBits value : Nat) : Option Bytes :=
  let mask := ((1 <<< prefixBits) - 1) % 256
  if outSize < 1 then none
  else if value < mask then some [.ofNat value]
  else (encodeRest (outSize - 1) (value - mask)).map (.ofNat mask :: ·)

def hpackEncodeString (str : CString) (outSize : Nat) : Option Bytes :=
  if outSize < str.length + 2 then none
  else (hpackEncodeInt outSize 7 str.length).map (· ++ str)

/-- The bytes of one field written at `pos`. -/
def encodeField (outSize pos : Nat) (field : H2HeaderField) : Option Bytes :=
  if pos ≥ outSize then none
  else match staticIndex field with
    -- the index is written over the byte 0x80
    | some j => hpackEncodeInt (outSize - pos) 7 (j + 1)
    | none => do
      let name ← hpackEncodeString field.name.text (outSize - (pos + 1))
      let value ← hpackEncodeString field.value.text (outSize - (pos + 1 + name.length))
      return .ofNat (0x40 ||| (name.length + value.length)) :: (name ++ value)

def encodeFields (outSize : Nat) : Nat → H2Connection → List H2HeaderField → Option Bytes × H2Connection
  | _, conn, [] => (some [], conn)
  | pos, conn, field :: rest =>
    match encodeField outSize pos field with
    | none => (none, conn)
    | some bytes =>
      let conn := if (staticIndex field).isSome then conn else conn.add field
      let (written, conn) := encodeFields outSize (pos + bytes.length) conn rest
      (written.map (bytes ++ ·), conn)

/-- What is written, `none` standing for the result -1, and the connection afterwards. -/
def h2HeaderEncode (outSize : Nat) (conn : H2Connection) (block : H2HeaderBlock) : Option Bytes × H2Connection :=
  encodeFields outSize 0 conn block.fields

end Writer

section Reader

/-- How the loop of the reader is left early: with the result 0 or with -1. -/
inductive HeaderEnd where
  | ended
  | failed
  deriving DecidableEq, Repr

/-- What one iteration reads. -/
inductive HeaderItem where
  | indexed (field : H2HeaderField)
  | literal (addToTable : Bool) (field : H2HeaderField)
  | skipped
  deriving DecidableEq, Repr

def HeaderItem.fields : HeaderItem → List H2HeaderField
  | .indexed field => [field]
  | .literal _ field => [field]
  | .skipped => []

def H2Connection.after (conn : H2Connection) : HeaderItem → H2Connection
  | .literal true field => conn.add field
  | _ => conn

def readExtra : Nat → BitVec 64 → Bytes → BitVec 64 × Bytes
  | _, extra, [] => (extra, [])
  | shift, extra, byte :: rest =>
    if byte &&& 0x80 ≠ 0 then readExtra (shift + 7) (extra ||| widen 64 (byte &&& 0x7F) <<< shift) rest
    else (extra ||| widen 64 byte <<< shift, rest)

def readIndex (first : UInt8) (rest : Bytes) : BitVec 64 × Bytes :=
  let idx := widen 64 (first &&& 0x7F)
  if idx = 0x7F#64 then
    let (extra, rest) := readExtra 0 0#64 rest
    (idx + extra, rest)
  else (idx, rest)

def H2Connection.entry (conn : H2Connection) (tableIdx : BitVec 64) : Option H2HeaderField :=
  match staticTable[tableIdx.toNat]? with
  | some (name, value) => some (.ofBytes name value)
  | none => conn.hpackDynamicTable[(tableIdx - 61#64).toNat]?

def readString : Bytes → Except HeaderEnd (Bytes × Bytes)
  | [] => .error .ended
  | first :: rest =>
    let len := (first &&& 0x7F).toNat
    if rest.length < len then .error .failed else .ok (rest.take len, rest.drop len)

def readItem (conn : H2Connection) (first : UInt8) (rest : Bytes) : Except HeaderEnd (HeaderItem × Bytes) :=
  if first &&& 0x80 ≠ 0 then
    let (idx, rest) := readIndex first rest
    match conn.entry (idx - 1#64) with
    | some field => .ok (.indexed field, rest)
    | none => .error .failed
  else if first &&& 0x40 ≠ 0 ∨ first = 0 ∨ first &&& 0x10 ≠ 0 then do
    let (name, rest) ← readString rest
    let (value, rest) ← readString rest
    return (.literal (first &&& 0x40 ≠ 0) (.ofBytes name value), rest)
  else .ok (.skipped, rest)

structure HeaderResult where
  code : Int
  fields : List H2HeaderField
  conn : H2Connection

/-- The loop of the reader; each iteration takes a byte at least. -/
def decodeFields : Nat → H2Connection → List H2HeaderField → Bytes → HeaderResult
  | iterations + 1, conn, fields, first :: rest =>
    if fields.length < H2_MAX_HEADER_FIELDS then
      match readItem conn first rest with
      | .ok (item, rest) => decodeFields iterations (conn.after item) (fields ++ item.fields) rest
      | .error .ended => ⟨0, fields, conn⟩
      | .error .failed => ⟨-1, fields, conn⟩
    else ⟨0, fields, conn⟩
  | _, conn, fields, _ => ⟨0, fields, conn⟩

def h2HeaderDecode (conn : H2Connection) (data : Bytes) : HeaderResult :=
  decodeFields data.length conn [] data

end Reader

end MiniNetDist.AppProtocol.H2
