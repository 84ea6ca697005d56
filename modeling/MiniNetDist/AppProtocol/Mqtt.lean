import MiniNetDist.Library.Buffer
import MiniNetDist.Library.CharArray
import MiniNetDist.Library.Varint

/-! The packets of `mini-app-protocol/src/mqtt.c`. The reader of a PUBLISH decodes the remaining length and does
not use it: everything up to the end of the input is payload. -/

namespace MiniNetDist.AppProtocol.Mqtt

open Library

def MQTT_MAX_CLIENT_ID : Nat := 64
def MQTT_MAX_TOPIC : Nat := 256
def MQTT_MAX_USERNAME : Nat := 64
def MQTT_MAX_PASSWORD : Nat := 64
def MQTT_MAX_WILL_TOPIC : Nat := 256
def MQTT_MAX_WILL_MSG : Nat := 256
def MQTT_PROTOCOL_VERSION : UInt8 := 5
def MQTT_CONNECT : UInt8 := 0x10
def MQTT_PUBLISH : UInt8 := 0x30

structure MQTTConnect where
  clientId : CharArray MQTT_MAX_CLIENT_ID
  cleanStart : Bool
  keepAlive : BitVec 16
  username : CharArray MQTT_MAX_USERNAME
  password : CharArray MQTT_MAX_PASSWORD
  willTopic : CharArray MQTT_MAX_WILL_TOPIC
  willMessage : CharArray MQTT_MAX_WILL_MSG
  willSet : Bool
  willQos : UInt8
  willRetain : Bool
  deriving DecidableEq, Repr

structure MQTTPublish where
  packetId : BitVec 16
  topic : CharArray MQTT_MAX_TOPIC
  payload : Bytes
  qos : UInt8
  retain : Bool
  dup : Bool
  deriving DecidableEq, Repr

section Writer

def mqttEncodeRemainingLength (value : BitVec 32) : Bytes := Varint.encode 5 value.toNat

def mqttEncodeUtf8 (str : CString) : Bytes := writeU16 (BitVec.ofNat 16 str.length) ++ str

/-- The bit of a flag in a byte of flags. -/
def flagBit (flag : Bool) (bit : UInt8) : UInt8 := if flag then bit else 0

/-- The flags of a will, if there is one. -/
def MQTTConnect.willFlags (connect : MQTTConnect) : UInt8 :=
  if connect.willSet then (0x04 : UInt8) ||| (connect.willQos &&& 0x03) <<< (3 : UInt8) ||| flagBit connect.willRetain 0x20
  else 0

def MQTTConnect.flags (connect : MQTTConnect) : UInt8 :=
  flagBit connect.cleanStart 0x02 ||| connect.willFlags ||| flagBit (connect.username.text ≠ []) 0x80 |||
    flagBit (connect.password.text ≠ []) 0x40

/-- A packet with its remaining length, for a buffer of `outSize` bytes. The length has room for four bytes. -/
def encodePacket (header : UInt8) (content : Bytes) (outSize : Nat) : Except Failure Bytes :=
  let remaining := mqttEncodeRemainingLength (BitVec.ofNat 32 content.length)
  if 4 < remaining.length then .error .outOfBounds
  else if outSize < 1 + remaining.length + content.length then .error (.code 0)
  else .ok (header :: (remaining ++ content))

/-- The variable header of a CONNECT: protocol name and version, flags and keep alive. -/
def MQTTConnect.header (connect : MQTTConnect) : Bytes :=
  [0x00, 0x04, 77, 81, 84, 84, MQTT_PROTOCOL_VERSION, connect.flags, byteOf connect.keepAlive 8, byteOf connect.keepAlive 0]

def MQTTConnect.body (connect : MQTTConnect) : Bytes :=
  mqttEncodeUtf8 connect.clientId.text ++
    (if connect.willSet then mqttEncodeUtf8 connect.willTopic.text ++ mqttEncodeUtf8 connect.willMessage.text else []) ++
    (if connect.username.text ≠ [] then mqttEncodeUtf8 connect.username.text else []) ++
    (if connect.password.text ≠ [] then mqttEncodeUtf8 connect.password.text else [])

/-- The bytes written; the result 0 is a failure. The first byte is written before the size is compared. -/
def mqttEncodeConnect (connect : MQTTConnect) (outSize : Nat) : Except Failure Bytes :=
  if outSize = 0 then .error .outOfBounds else encodePacket MQTT_CONNECT (connect.header ++ connect.body) outSize

/-- What follows the remaining length of a PUBLISH. -/
def MQTTPublish.content (pub : MQTTPublish) : Bytes :=
  mqttEncodeUtf8 pub.topic.text ++ (if pub.qos > 0 then writeU16 pub.packetId else []) ++ pub.payload

/-- The first byte of a PUBLISH. -/
def MQTTPublish.first (pub : MQTTPublish) : UInt8 :=
  MQTT_PUBLISH ||| flagBit pub.dup 0x08 ||| flagBit pub.retain 0x01 ||| (pub.qos &&& 0x03) <<< 1

def mqttEncodePublish (pub : MQTTPublish) (outSize : Nat) : Except Failure Bytes :=
  encodePacket pub.first pub.content outSize

end Writer

section Reader

def mqttDecodeRemainingLength (data : Bytes) : BitVec 32 × Nat := Varint.decode 4 0 0#32 data

/-- A string with its length before it; one that does not fit its array is left unread. -/
def readString {size : Nat} (old : CharArray size) (least : Nat) (rest : Bytes) :
    Except Failure (CharArray size × Bytes) := do
  let (len, rest) ← readU16 rest
  if least ≤ len.toNat ∧ len.toNat < size then
    let (text, rest) ← readBytes len.toNat rest
    return (.store size text, rest)
  else return (old, rest)

/-- A string that is there only if its flag is set. -/
def readOptional {size : Nat} (flag : Bool) (old : CharArray size) (least : Nat) (rest : Bytes) :
    Except Failure (CharArray size × Bytes) :=
  if flag then readString old least rest else .ok (old, rest)

/-- The fields of a CONNECT behind the protocol's name. -/
def readConnect (rest : Bytes) (connect : MQTTConnect) : Except Failure MQTTConnect := do
  let (_, rest) ← readByte rest
  let (flags, rest) ← readByte rest
  let (keepAlive, rest) ← readU16 rest
  let willSet : Bool := flags &&& 0x04 ≠ 0
  let (clientId, rest) ← readString connect.clientId 1 rest
  let (willTopic, rest) ← readOptional willSet connect.willTopic 0 rest
  let (willMessage, rest) ← readOptional willSet connect.willMessage 0 rest
  let (username, rest) ← readOptional (flags &&& 0x80 ≠ 0) connect.username 1 rest
  let (password, _) ← readOptional (flags &&& 0x40 ≠ 0) connect.password 1 rest
  return {
    clientId := clientId
    cleanStart := flags &&& 0x02 ≠ 0
    keepAlive := keepAlive
    username := username
    password := password
    willTopic := willTopic
    willMessage := willMessage
    willSet := willSet
    willQos := flags >>> 3 &&& 0x03
    willRetain := flags &&& 0x20 ≠ 0 }

/-- What is read into a structure that holds `connect`. -/
def mqttDecodeConnect (data : Bytes) (connect : MQTTConnect) : Except Failure MQTTConnect :=
  if data.length < 14 then .error (.code (-1))
  else if data.headD 0 &&& 0xF0 ≠ MQTT_CONNECT then .error (.code (-2))
  else do
    let rest := data.drop 1
    let (protoLen, rest) ← readU16 (rest.drop (mqttDecodeRemainingLength rest).2)
    readConnect (rest.drop protoLen.toNat) connect

/-- The packet id, which is there only above QoS 0. -/
def readPacketId (qos : UInt8) (old : BitVec 16) (rest : Bytes) : Except Failure (BitVec 16 × Bytes) :=
  if qos > 0 then readU16 rest else .ok (old, rest)

/-- What is read into a structure that holds `pub`. -/
def mqttDecodePublish (data : Bytes) (pub : MQTTPublish) : Except Failure MQTTPublish :=
  let first := data.headD 0
  if data.length < 2 then .error (.code (-1))
  else if first &&& 0xF0 ≠ MQTT_PUBLISH then .error (.code (-2))
  else do
    let qos := first >>> 1 &&& 0x03
    let rest := data.drop 1
    let (topicLen, rest) ← readU16 (rest.drop (mqttDecodeRemainingLength rest).2)
    if topicLen.toNat ≥ MQTT_MAX_TOPIC then .error (.code (-3))
    else
      let (topic, rest) ← readBytes topicLen.toNat rest
      let (packetId, rest) ← readPacketId qos pub.packetId rest
      return ⟨packetId, .store MQTT_MAX_TOPIC topic, rest, qos, first &&& 0x01 ≠ 0, first &&& 0x08 ≠ 0⟩

end Reader

section Packets

/-- The remaining length that is read is the one written, and its bytes are consumed. -/
theorem mqttDecodeRemainingLength_encode {length : Nat} (short : length < 2 ^ 28) (rest : Bytes) :
    mqttDecodeRemainingLength (mqttEncodeRemainingLength (BitVec.ofNat 32 length) ++ rest) =
      (BitVec.ofNat 32 length, (mqttEncodeRemainingLength (BitVec.ofNat 32 length)).length) := by
  have value : (BitVec.ofNat 32 length).toNat = length := by
    rw [BitVec.toNat_ofNat]
    omega
  have four : mqttEncodeRemainingLength (BitVec.ofNat 32 length) = Varint.encode 4 length := by
    rw [mqttEncodeRemainingLength, value]
    exact Varint.encode_add (by decide) short 1
  rw [four, mqttDecodeRemainingLength, Varint.decode_encode 4 0 length short]
  simp

theorem encodePacket_ok {header : UInt8} {content out : Bytes} {outSize : Nat}
    (encoded : encodePacket header content outSize = .ok out) :
    out = header :: (mqttEncodeRemainingLength (BitVec.ofNat 32 content.length) ++ content) := by
  simp only [encodePacket] at encoded
  split_ifs at encoded
  exact (Except.ok.inj encoded).symm

/-- The reader finds the content behind the remaining length, and what follows the packet behind that. -/
theorem content_read (content further : Bytes) (short : content.length < 2 ^ 28) :
    (mqttEncodeRemainingLength (BitVec.ofNat 32 content.length) ++ (content ++ further)).drop
      (mqttDecodeRemainingLength (mqttEncodeRemainingLength (BitVec.ofNat 32 content.length) ++ (content ++ further))).2 =
      content ++ further := by
  rw [mqttDecodeRemainingLength_encode short, List.drop_left]

theorem toNat_length {size : Nat} (array : CharArray size) (narrow : size ≤ 65536) :
    (BitVec.ofNat 16 array.text.length).toNat = array.text.length := by
  have fits := array.fits
  rw [BitVec.toNat_ofNat]
  omega

/-- A string that fits its array comes back; an empty one may be left unread. -/
theorem readString_encode {size : Nat} {old : CharArray size} (array : CharArray size) {least : Nat}
    (positive : 0 < size)
    (narrow : size ≤ 65536) (few : least ≤ 1) (unread : array.text = [] → old = array) (rest : Bytes) :
    readString old least (mqttEncodeUtf8 array.text ++ rest) = .ok (array, rest) := by
  have fits := array.fits
  rw [readString, mqttEncodeUtf8, List.append_assoc, readU16_writeU16, ok_bind]
  simp only [toNat_length array narrow]
  by_cases read : least ≤ array.text.length
  · rw [if_pos ⟨read, by omega⟩, readBytes_append rfl, ok_bind, CharArray.store_text]
    rfl
  · have empty : array.text = [] := List.length_eq_zero_iff.mp (by omega)
    rw [if_neg fun both => read both.1, unread empty, empty]
    rfl

end Packets

section Publish

/-- The bits of the first byte. -/
theorem publish_bits (pub : MQTTPublish) (small : pub.qos.toNat ≤ 2) :
    pub.first &&& 0xF0 = MQTT_PUBLISH ∧ pub.first >>> 1 &&& 0x03 = pub.qos ∧
      decide (pub.first &&& 0x01 ≠ 0) = pub.retain ∧ decide (pub.first &&& 0x08 ≠ 0) = pub.dup := by
  have every : ∀ dup retain : Bool, ∀ n ≤ 2,
      let first := MQTT_PUBLISH ||| flagBit dup 0x08 ||| flagBit retain 0x01 ||| (UInt8.ofNat n &&& 0x03) <<< 1
      first &&& 0xF0 = MQTT_PUBLISH ∧ first >>> 1 &&& 0x03 = .ofNat n ∧ decide (first &&& 0x01 ≠ 0) = retain ∧
        decide (first &&& 0x08 ≠ 0) = dup := by
    decide +kernel
  have here := every pub.dup pub.retain pub.qos.toNat small
  rwa [UInt8.ofNat_toNat] at here

theorem readPacketId_encode (pub old : MQTTPublish) (rest : Bytes) :
    readPacketId pub.qos old.packetId ((if pub.qos > 0 then writeU16 pub.packetId else []) ++ rest) =
      .ok (if pub.qos > 0 then pub.packetId else old.packetId, rest) := by
  rw [readPacketId]
  split
  · exact readU16_writeU16 pub.packetId rest
  · rfl

/-- What is read from a PUBLISH and the bytes after it, which all end up in the payload. -/
theorem mqttDecodePublish_encode (pub old : MQTTPublish) {outSize : Nat} {out : Bytes} (further : Bytes)
    (qos : pub.qos.toNat ≤ 2) (short : pub.content.length < 2 ^ 28)
    (encoded : mqttEncodePublish pub outSize = .ok out) :
    mqttDecodePublish (out ++ further) old = .ok
      { pub with
        packetId := if pub.qos > 0 then pub.packetId else old.packetId
        payload := pub.payload ++ further } := by
  obtain rfl := encodePacket_ok encoded
  obtain ⟨type, qosBits, retain, dup⟩ := publish_bits pub qos
  have two : 2 ≤ pub.content.length := by
    rw [MQTTPublish.content, mqttEncodeUtf8, List.length_append, List.length_append, List.length_append, writeU16,
      List.length_cons, List.length_cons]
    omega
  have length : ¬ (pub.first :: (mqttEncodeRemainingLength (BitVec.ofNat 32 pub.content.length) ++ (pub.content ++ further))).length < 2 := by
    rw [List.length_cons, List.length_append, List.length_append]
    omega
  have fits : ¬ pub.topic.text.length ≥ MQTT_MAX_TOPIC :=
    Nat.not_le.mpr (Nat.lt_of_le_of_lt pub.topic.fits (by decide))
  have layout : pub.content ++ further = writeU16 (BitVec.ofNat 16 pub.topic.text.length) ++ (pub.topic.text ++
      ((if pub.qos > 0 then writeU16 pub.packetId else []) ++ (pub.payload ++ further))) := by
    rw [MQTTPublish.content, mqttEncodeUtf8]
    simp only [List.append_assoc]
  rw [List.cons_append, List.append_assoc, mqttDecodePublish, if_neg length, List.headD_cons,
    if_neg (not_not_intro type), List.drop_one, List.tail_cons]
  simp only [content_read pub.content further short, qosBits]
  rw [layout, readU16_writeU16, ok_bind]
  simp only [toNat_length pub.topic (by decide)]
  rw [if_neg fits, readBytes_append rfl, ok_bind]
  dsimp only
  rw [readPacketId_encode, ok_bind, CharArray.store_text, retain, dup]
  rfl

/-- A PUBLISH is recovered from an input. -/
def RecoversPublish (data : Bytes) (pub old : MQTTPublish) : Prop :=
  ∃ read, mqttDecodePublish data old = .ok read ∧ read.dup = pub.dup ∧ read.retain = pub.retain ∧ read.qos = pub.qos ∧
    read.topic = pub.topic ∧ (pub.qos > 0 → read.packetId = pub.packetId) ∧ read.payload = pub.payload

/-- A PUBLISH is recovered from the bytes of a connection exactly when nothing follows it. -/
theorem mqtt_publish_delimited_iff (pub old : MQTTPublish) (outSize : Nat) (out further : Bytes)
    (qos : pub.qos.toNat ≤ 2) (short : pub.content.length < 2 ^ 28)
    (encoded : mqttEncodePublish pub outSize = .ok out) :
    RecoversPublish (out ++ further) pub old ↔ further = [] := by
  rw [RecoversPublish, mqttDecodePublish_encode pub old further qos short encoded]
  constructor
  · rintro ⟨read, decoded, -, -, -, -, -, payload⟩
    obtain rfl := Except.ok.inj decoded
    exact List.append_right_eq_self.mp payload
  · rintro rfl
    exact ⟨_, rfl, rfl, rfl, rfl, rfl, fun above => if_pos above, List.append_nil _⟩

/-- The message of the repository's own test. -/
def sensorReading : MQTTPublish := ⟨42#16, .store MQTT_MAX_TOPIC [115, 47, 116], [50, 53], 1, false, false⟩

theorem mqtt_publish_delimited_reading :
    RecoversPublish ([0x32, 9, 0, 3, 115, 47, 116, 0, 42, 50, 53] ++ []) sensorReading sensorReading ↔
      ([] : Bytes) = [] :=
  mqtt_publish_delimited_iff sensorReading sensorReading 512 [0x32, 9, 0, 3, 115, 47, 116, 0, 42, 50, 53] [] (by decide)
    (by decide) (by decide)

/-- A ping behind a PUBLISH becomes part of its payload. -/
theorem publish_takes_ping :
    mqttEncodePublish sensorReading 512 = .ok [0x32, 9, 0, 3, 115, 47, 116, 0, 42, 50, 53] ∧
      mqttDecodePublish ([0x32, 9, 0, 3, 115, 47, 116, 0, 42, 50, 53] ++ [0xC0, 0]) sensorReading =
        .ok { sensorReading with payload := [50, 53, 0xC0, 0] } ∧
      ¬ RecoversPublish ([0x32, 9, 0, 3, 115, 47, 116, 0, 42, 50, 53] ++ [0xC0, 0]) sensorReading sensorReading := by
  have decoded : mqttDecodePublish ([0x32, 9, 0, 3, 115, 47, 116, 0, 42, 50, 53] ++ [0xC0, 0]) sensorReading =
      .ok { sensorReading with payload := [50, 53, 0xC0, 0] } := by decide
  refine ⟨by decide, decoded, ?_⟩
  rintro ⟨read, result, -, -, -, -, -, payload⟩
  obtain rfl := Except.ok.inj (decoded.symm.trans result)
  exact absurd payload (by decide)

end Publish

section Connect

/-- What `memset` leaves. -/
def zeroConnect : MQTTConnect :=
  { clientId := .store _ []
    cleanStart := false
    keepAlive := 0#16
    username := .store _ []
    password := .store _ []
    willTopic := .store _ []
    willMessage := .store _ []
    willSet := false
    willQos := 0
    willRetain := false }

/-- Without a will its fields are empty. -/
structure MQTTConnect.WillEmpty (connect : MQTTConnect) : Prop where
  topic : connect.willTopic.text = []
  message : connect.willMessage.text = []
  qos : connect.willQos = 0
  retain : connect.willRetain = false

/-- The bits of the flags. -/
theorem connect_bits (connect : MQTTConnect) (qos : connect.willQos.toNat ≤ 3)
    (will : connect.willSet = false → connect.WillEmpty) :
    decide (connect.flags &&& 0x02 ≠ 0) = connect.cleanStart ∧ decide (connect.flags &&& 0x04 ≠ 0) = connect.willSet ∧
      connect.flags >>> 3 &&& 0x03 = connect.willQos ∧ decide (connect.flags &&& 0x20 ≠ 0) = connect.willRetain ∧
      decide (connect.flags &&& 0x80 ≠ 0) = decide (connect.username.text ≠ []) ∧
      decide (connect.flags &&& 0x40 ≠ 0) = decide (connect.password.text ≠ []) := by
  have every : ∀ clean willSet retain user pass : Bool, ∀ n ≤ 3,
      (willSet = false → UInt8.ofNat n = 0 ∧ retain = false) →
      let flags := flagBit clean 0x02 |||
        (if willSet then (0x04 : UInt8) ||| (UInt8.ofNat n &&& 0x03) <<< (3 : UInt8) ||| flagBit retain 0x20 else 0) |||
        flagBit user 0x80 ||| flagBit pass 0x40
      decide (flags &&& 0x02 ≠ 0) = clean ∧ decide (flags &&& 0x04 ≠ 0) = willSet ∧ flags >>> 3 &&& 0x03 = .ofNat n ∧
        decide (flags &&& 0x20 ≠ 0) = retain ∧ decide (flags &&& 0x80 ≠ 0) = user ∧
          decide (flags &&& 0x40 ≠ 0) = pass := by
    decide +kernel
  have here := every connect.cleanStart connect.willSet connect.willRetain (connect.username.text ≠ [])
    (connect.password.text ≠ []) connect.willQos.toNat qos
  rw [UInt8.ofNat_toNat] at here
  exact here fun unset => ⟨(will unset).qos, (will unset).retain⟩

/-- A string whose presence its flag tells. -/
theorem readOptional_encode {size : Nat} (array : CharArray size) (flag : Bool) {least : Nat} (positive : 0 < size)
    (narrow : size ≤ 65536) (few : least ≤ 1) (absent : flag = false → array.text = []) (rest : Bytes) :
    readOptional flag (.store size []) least ((if flag then mqttEncodeUtf8 array.text else []) ++ rest) =
      .ok (array, rest) := by
  have unread : array.text = [] → CharArray.store size [] = array := by
    intro empty
    rw [← CharArray.store_text array, empty]
  cases flag with
  | true => exact readString_encode array positive narrow few unread rest
  | false => exact congrArg (fun read => Except.ok (read, rest)) (unread (absent rfl))

/-- The strings of a CONNECT, each under its flag. -/
theorem body_eq (connect : MQTTConnect) : connect.body = mqttEncodeUtf8 connect.clientId.text ++
    ((if connect.willSet then mqttEncodeUtf8 connect.willTopic.text else []) ++
    ((if connect.willSet then mqttEncodeUtf8 connect.willMessage.text else []) ++
    ((if decide (connect.username.text ≠ []) then mqttEncodeUtf8 connect.username.text else []) ++
    ((if decide (connect.password.text ≠ []) then mqttEncodeUtf8 connect.password.text else []) ++ [])))) := by
  simp only [MQTTConnect.body, decide_eq_true_eq, List.append_assoc, List.append_nil]
  cases connect.willSet with
  | true => simp only [↓reduceIte, List.append_assoc]
  | false => rfl

theorem readConnect_encode (connect : MQTTConnect) (qos : connect.willQos.toNat ≤ 3)
    (will : connect.willSet = false → connect.WillEmpty) :
    readConnect (MQTT_PROTOCOL_VERSION :: connect.flags :: (writeU16 connect.keepAlive ++ connect.body)) zeroConnect =
      .ok connect := by
  obtain ⟨clean, willSet, willQos, retain, user, pass⟩ := connect_bits connect qos will
  have present {size : Nat} (array : CharArray size) (unset : decide (array.text ≠ []) = false) : array.text = [] :=
    Decidable.not_not.mp (of_decide_eq_false unset)
  have unread : connect.clientId.text = [] → CharArray.store MQTT_MAX_CLIENT_ID [] = connect.clientId := by
    intro empty
    rw [← CharArray.store_text connect.clientId, empty]
  rw [readConnect, readByte, ok_bind]
  dsimp only
  rw [readByte, ok_bind]
  dsimp only
  rw [readU16_writeU16, ok_bind, body_eq]
  simp only [willSet, user, pass, clean, willQos, retain]
  rw [zeroConnect, readString_encode connect.clientId (by decide) (by decide) (by decide) unread, ok_bind]
  dsimp only
  rw [readOptional_encode connect.willTopic connect.willSet (by decide) (by decide) (by decide) fun unset => (will unset).topic,
    ok_bind]
  dsimp only
  rw [readOptional_encode connect.willMessage connect.willSet (by decide) (by decide) (by decide)
    fun unset => (will unset).message, ok_bind]
  dsimp only
  rw [readOptional_encode connect.username _ (by decide) (by decide) (by decide) (present connect.username), ok_bind]
  dsimp only
  rw [readOptional_encode connect.password _ (by decide) (by decide) (by decide) (present connect.password), ok_bind]
  rfl

theorem length_mqttEncodeUtf8_le {size : Nat} (array : CharArray size) (flag : Prop) [Decidable flag] :
    (if flag then mqttEncodeUtf8 array.text else []).length ≤ 2 + (size - 1) := by
  have fits := array.fits
  split
  · rw [mqttEncodeUtf8, List.length_append, writeU16, List.length_cons, List.length_singleton]
    omega
  · exact Nat.zero_le _

/-- A CONNECT is never longer than 2 bytes of remaining length can tell. -/
theorem length_body (connect : MQTTConnect) : 2 ≤ connect.body.length ∧ connect.body.length ≤ 709 := by
  have client := connect.clientId.fits
  have first := length_mqttEncodeUtf8_le connect.willTopic (connect.willSet = true)
  have second := length_mqttEncodeUtf8_le connect.willMessage (connect.willSet = true)
  have third := length_mqttEncodeUtf8_le connect.username (decide (connect.username.text ≠ []) = true)
  have fourth := length_mqttEncodeUtf8_le connect.password (decide (connect.password.text ≠ []) = true)
  have sizes : MQTT_MAX_CLIENT_ID = 64 ∧ MQTT_MAX_USERNAME = 64 ∧ MQTT_MAX_PASSWORD = 64 ∧ MQTT_MAX_WILL_TOPIC = 256 ∧
      MQTT_MAX_WILL_MSG = 256 := ⟨rfl, rfl, rfl, rfl, rfl⟩
  rw [body_eq, mqttEncodeUtf8, List.length_append, List.length_append, List.length_append, List.length_append,
    List.length_append, List.length_append, writeU16, List.length_cons, List.length_singleton, List.length_nil]
  omega

/-- A CONNECT that was encoded is decoded to the same fields. -/
theorem mqtt_connect_round_trip (connect : MQTTConnect) (outSize : Nat) (out : Bytes)
    (qos : connect.willQos.toNat ≤ 3)
    (will : connect.willSet = false → connect.WillEmpty) (encoded : mqttEncodeConnect connect outSize = .ok out) :
    mqttDecodeConnect out zeroConnect = .ok connect := by
  rw [mqttEncodeConnect] at encoded
  split_ifs at encoded
  obtain rfl := encodePacket_ok encoded
  obtain ⟨least, most⟩ := length_body connect
  have header : connect.header.length = 10 := rfl
  have size : (connect.header ++ connect.body).length = 10 + connect.body.length := by
    rw [List.length_append, header]
  have remaining : 1 ≤ (mqttEncodeRemainingLength (BitVec.ofNat 32 (connect.header ++ connect.body).length)).length :=
    Varint.length_encode_pos 4 _
  have read := content_read (connect.header ++ connect.body) [] (by omega)
  rw [List.append_nil] at read
  rw [mqttDecodeConnect, if_neg (by rw [List.length_cons, List.length_append]; omega), List.headD_cons,
    if_neg (by decide), List.drop_one, List.tail_cons]
  simp only [read]
  exact readConnect_encode connect qos will

/-- The client of the repository's own test, with a will. -/
def testClient : MQTTConnect :=
  { zeroConnect with
    clientId := .store MQTT_MAX_CLIENT_ID [116, 49]
    cleanStart := true
    keepAlive := 60#16
    willTopic := .store MQTT_MAX_WILL_TOPIC [119]
    willSet := true
    willQos := 3 }

theorem mqtt_connect_round_trip_test :
    mqttDecodeConnect [16, 19, 0, 4, 77, 81, 84, 84, 5, 30, 0, 60, 0, 2, 116, 49, 0, 1, 119, 0, 0] zeroConnect =
      .ok testClient :=
  mqtt_connect_round_trip testClient 512 [16, 19, 0, 4, 77, 81, 84, 84, 5, 30, 0, 60, 0, 2, 116, 49, 0, 1, 119, 0, 0]
    (by decide) (fun unset => absurd unset (by decide)) (by decide)

end Connect

end MiniNetDist.AppProtocol.Mqtt
