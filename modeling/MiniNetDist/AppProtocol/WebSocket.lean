import MiniNetDist.Library.Buffer

/-! The frames of `mini-app-protocol/src/websocket.c`. The reader compares the end of the payload with the end of the
input in 64 bits, where the sum of the position and an announced length wraps around. -/

namespace MiniNetDist.AppProtocol.WebSocket

open Library

structure MaskingKey where
  k0 : UInt8
  k1 : UInt8
  k2 : UInt8
  k3 : UInt8
  deriving DecidableEq, Repr

def MaskingKey.bytes (key : MaskingKey) : Bytes := [key.k0, key.k1, key.k2, key.k3]

/-- A frame, with the memory from the address of its payload on. -/
structure WSFrame where
  fin : Bool
  opcode : UInt8
  mask : Bool
  payloadLen : BitVec 64
  maskingKey : MaskingKey
  payload : Bytes
  deriving DecidableEq, Repr

def wsEncodeLength (len : BitVec 64) (mask : Bool) : Bytes :=
  let first : UInt8 := if mask then 0x80 else 0x00
  if len.toNat ≤ 125 then [first ||| byteOf len 0]
  else if len.toNat ≤ 65535 then [first ||| 126, byteOf len 8, byteOf len 0]
  else [first ||| 127, byteOf len 56, byteOf len 48, byteOf len 40, byteOf len 32, byteOf len 24, byteOf len 16,
    byteOf len 8, byteOf len 0]

def wsApplyMask (data : Bytes) (mask : MaskingKey) : Bytes :=
  data.mapIdx fun i byte => byte ^^^ mask.bytes.getD (i % 4) 0

/-- The masking key, where a frame has one. -/
def WSFrame.keyBytes (frame : WSFrame) : Bytes := if frame.mask then frame.maskingKey.bytes else []

/-- The bytes of a frame: header, masking key and payload, masked if the frame is. -/
def WSFrame.bytes (frame : WSFrame) : Bytes :=
  let content := frame.payload.take frame.payloadLen.toNat
  ((if frame.fin then 0x80 else 0x00) ||| (frame.opcode &&& 0x0F)) ::
    (wsEncodeLength frame.payloadLen frame.mask ++ frame.keyBytes ++
      if frame.mask then wsApplyMask content frame.maskingKey else content)

/-- The bytes written to a buffer of `outSize` bytes. The size that is compared wraps around. -/
def wsFrameEncode (frame : WSFrame) (outSize : Nat) : Except Failure Bytes :=
  let total := BitVec.ofNat 64 (1 + (wsEncodeLength frame.payloadLen frame.mask).length + frame.keyBytes.length) +
    frame.payloadLen
  if outSize < total.toNat then .error (.code (-2))
  else if frame.payload.length < frame.payloadLen.toNat ∨ outSize < frame.bytes.length then .error .outOfBounds
  else .ok frame.bytes

section Reader

/-- The length of the payload, and what follows it. -/
def readLength (len7 : UInt8) (rest : Bytes) : Except Failure (BitVec 64 × Bytes) :=
  if len7 ≤ 125 then .ok (widen 64 len7, rest)
  else if len7 = 126 then
    match rest with
    | high :: low :: rest => .ok (widen 64 high <<< 8 ||| widen 64 low, rest)
    | _ => .error (.code (-3))
  else if rest.length < 8 then .error (.code (-4))
  else .ok (joinBytes 64 (rest.take 8), rest.drop 8)

/-- The masking key, zero without a mask, and what follows it. -/
def readKey (mask : Bool) (rest : Bytes) : Except Failure (MaskingKey × Bytes) :=
  if mask then
    match rest with
    | k0 :: k1 :: k2 :: k3 :: rest => .ok (⟨k0, k1, k2, k3⟩, rest)
    | _ => .error (.code (-5))
  else .ok (⟨0, 0, 0, 0⟩, rest)

/-- Unmask the first bytes of the memory from the payload on. -/
def unmask (mask : Bool) (key : MaskingKey) (len : Nat) (memory : Bytes) : Bytes :=
  if mask then wsApplyMask (memory.take len) key ++ memory.drop len else memory

/-- The frame and the number of bytes consumed. -/
def wsFrameDecode : Bytes → Except Failure (WSFrame × Nat)
  | b0 :: b1 :: rest => do
    let mask : Bool := b1 &&& 0x80 ≠ 0
    let (payloadLen, afterLength) ← readLength (b1 &&& 0x7F) rest
    let (key, memory) ← readKey mask afterLength
    let pos := 2 + rest.length - memory.length
    let stop := BitVec.ofNat 64 pos + payloadLen
    if 2 + rest.length < stop.toNat then .error (.code (-6))
    else if mask ∧ memory.length < payloadLen.toNat then .error .outOfBounds
    else .ok (⟨b0 &&& 0x80 ≠ 0, b0 &&& 0x0F, mask, payloadLen, key, unmask mask key payloadLen.toNat memory⟩, stop.toNat)
  | _ => .error (.code (-2))

end Reader

section Headers

/-- The flag above seven bits and the bits below it. -/
theorem flag_byte (flag : Bool) {low : UInt8} (small : low.toNat < 128) :
    decide (((if flag then 0x80 else 0x00) ||| low) &&& 0x80 ≠ 0) = flag ∧
      ((if flag then 0x80 else 0x00) ||| low) &&& 0x7F = low := by
  have every : ∀ n < 128, ∀ flag : Bool,
      decide (((if flag then 0x80 else 0x00) ||| UInt8.ofNat n) &&& 0x80 ≠ 0) = flag ∧
        ((if flag then 0x80 else 0x00) ||| UInt8.ofNat n) &&& 0x7F = UInt8.ofNat n := by
    decide +kernel
  have here := every low.toNat small flag
  rwa [UInt8.ofNat_toNat] at here

/-- The flag and the opcode of a first byte. -/
theorem first_byte (fin : Bool) {opcode : UInt8} (small : opcode.toNat < 16) :
    decide (((if fin then 0x80 else 0x00) ||| (opcode &&& 0x0F)) &&& 0x80 ≠ 0) = fin ∧
      ((if fin then 0x80 else 0x00) ||| (opcode &&& 0x0F)) &&& 0x0F = opcode := by
  have every : ∀ n < 16, ∀ fin : Bool,
      decide (((if fin then 0x80 else 0x00) ||| (UInt8.ofNat n &&& 0x0F)) &&& 0x80 ≠ 0) = fin ∧
        ((if fin then 0x80 else 0x00) ||| (UInt8.ofNat n &&& 0x0F)) &&& 0x0F = UInt8.ofNat n := by
    decide +kernel
  have here := every opcode.toNat small fin
  rwa [UInt8.ofNat_toNat] at here

theorem readLength_short {len : BitVec 64} (short : len.toNat ≤ 125) (rest : Bytes) :
    readLength (byteOf len 0) rest = .ok (len, rest) := by
  have byte : (byteOf len 0).toNat = len.toNat := by
    rw [toNat_byteOf_zero, Nat.mod_eq_of_lt (by omega)]
  have small : byteOf len 0 ≤ 125 := UInt8.le_iff_toNat_le.mpr (by rw [byte]; exact short)
  unfold readLength
  rw [if_pos small, widen_byteOf len 0 (by omega), BitVec.ushiftRight_zero]

theorem readLength_medium {len : BitVec 64} (medium : len.toNat ≤ 65535) (rest : Bytes) :
    readLength 126 (byteOf len 8 :: byteOf len 0 :: rest) = .ok (len, rest) := by
  have whole : joinBytes 64 [byteOf len 8, byteOf len 0] = len := joinBytes_bytesOf len 2 (Nat.lt_succ_of_le medium)
  rw [readLength, if_neg (by decide), if_pos rfl, ← joinBytes_two, whole]

theorem readLength_long {bytes : Bytes} (eight : bytes.length = 8) (rest : Bytes) :
    readLength 127 (bytes ++ rest) = .ok (joinBytes 64 bytes, rest) := by
  have enough : ¬ (bytes ++ rest).length < 8 := by
    rw [List.length_append]
    omega
  unfold readLength
  rw [if_neg (by decide), if_neg (by decide), if_neg enough, List.take_left' eight, List.drop_left' eight]

/-- The length that is read is the one written, in each of its three forms. -/
theorem readLength_wsEncodeLength (len : BitVec 64) (mask : Bool) (rest : Bytes) :
    ∃ b1 tail, wsEncodeLength len mask = b1 :: tail ∧ decide (b1 &&& 0x80 ≠ 0) = mask ∧
      readLength (b1 &&& 0x7F) (tail ++ rest) = .ok (len, rest) := by
  rw [wsEncodeLength]
  by_cases short : len.toNat ≤ 125
  · have seven : (byteOf len 0).toNat < 128 := by
      rw [toNat_byteOf_zero]
      omega
    obtain ⟨flag, low⟩ := flag_byte mask seven
    refine ⟨_, [], if_pos short, flag, ?_⟩
    rw [low, List.nil_append, readLength_short short]
  rw [if_neg short]
  by_cases medium : len.toNat ≤ 65535
  · obtain ⟨flag, low⟩ := flag_byte mask (show (126 : UInt8).toNat < 128 by decide)
    refine ⟨_, [byteOf len 8, byteOf len 0], if_pos medium, flag, ?_⟩
    rw [low, List.cons_append, List.cons_append, List.nil_append, readLength_medium medium]
  · obtain ⟨flag, low⟩ := flag_byte mask (show (127 : UInt8).toNat < 128 by decide)
    refine ⟨_, _, if_neg medium, flag, ?_⟩
    have whole := joinBytes_bytesOf len 8 len.isLt
    rw [low, readLength_long rfl]
    exact congrArg (fun word => Except.ok (word, rest)) whole

/-- What a length can be when it is read: below 2^16, or any eight bytes. -/
theorem readLength_ok {len7 : UInt8} {rest after : Bytes} {len : BitVec 64}
    (read : readLength len7 rest = .ok (len, after)) :
    len.toNat < 65536 ∧ after.length ≤ rest.length ∧ rest.length ≤ after.length + 2 ∨
      len7 ≠ 126 ∧ ¬ len7 ≤ 125 ∧ 8 ≤ rest.length ∧ len = joinBytes 64 (rest.take 8) ∧ after = rest.drop 8 := by
  unfold readLength at read
  split_ifs at read with short medium long
  · obtain ⟨rfl, rfl⟩ := Prod.mk.inj (Except.ok.inj read)
    refine .inl ⟨?_, Nat.le_refl _, by omega⟩
    rw [widen, BitVec.toNat_setWidth]
    exact Nat.lt_of_le_of_lt (Nat.mod_le _ _) (Nat.lt_trans len7.toNat_lt (by decide))
  · obtain _ | ⟨high, _ | ⟨low, others⟩⟩ := rest
    · cases read
    · cases read
    · obtain ⟨rfl, rfl⟩ := Prod.mk.inj (Except.ok.inj read)
      refine .inl ⟨?_, by simp; omega, Nat.le_refl _⟩
      have above : (widen 64 high <<< 8).toNat < 2 ^ 16 := by
        have bound := high.toNat_lt
        simp only [widen, BitVec.toNat_shiftLeft, BitVec.toNat_setWidth, UInt8.toNat_toBitVec, Nat.shiftLeft_eq]
        omega
      have below : (widen 64 low).toNat < 2 ^ 16 := by
        have bound := low.toNat_lt
        simp only [widen, BitVec.toNat_setWidth, UInt8.toNat_toBitVec]
        omega
      rw [BitVec.toNat_or]
      exact Nat.or_lt_two_pow above below
  · obtain ⟨rfl, rfl⟩ := Prod.mk.inj (Except.ok.inj read)
    exact .inr ⟨medium, short, Nat.le_of_not_lt long, rfl, rfl⟩

/-- A masking key takes four bytes if there is one. -/
theorem readKey_ok {mask : Bool} {rest memory : Bytes} {key : MaskingKey}
    (read : readKey mask rest = .ok (key, memory)) :
    memory.length + (if mask then 4 else 0) = rest.length := by
  unfold readKey at read
  split_ifs at read with masked
  · match rest, read with
    | k0 :: k1 :: k2 :: k3 :: others, read =>
      obtain ⟨-, rfl⟩ := Prod.mk.inj (Except.ok.inj read)
      rw [if_pos masked]
      rfl
  · obtain ⟨-, rfl⟩ := Prod.mk.inj (Except.ok.inj read)
    rw [if_neg masked]
    rfl

/-- The end of the decoder, once the header is read. -/
theorem wsFrameDecode_of_header (b0 : UInt8) {b1 : UInt8} {rest after memory : Bytes} {len : BitVec 64}
    {key : MaskingKey} {mask : Bool}
    (flag : decide (b1 &&& 0x80 ≠ 0) = mask) (length : readLength (b1 &&& 0x7F) rest = .ok (len, after))
    (found : readKey mask after = .ok (key, memory)) :
    wsFrameDecode (b0 :: b1 :: rest) =
      if 2 + rest.length < (BitVec.ofNat 64 (2 + rest.length - memory.length) + len).toNat then .error (.code (-6))
      else if mask ∧ memory.length < len.toNat then .error .outOfBounds
      else .ok (⟨b0 &&& 0x80 ≠ 0, b0 &&& 0x0F, mask, len, key, unmask mask key len.toNat memory⟩,
        (BitVec.ofNat 64 (2 + rest.length - memory.length) + len).toNat) := by
  rw [wsFrameDecode, flag, length]
  change (readKey mask after >>= _) = _
  rw [found]
  rfl

end Headers

section Frames

/-- A mask that is applied twice is gone. -/
theorem wsApplyMask_wsApplyMask (data : Bytes) (mask : MaskingKey) :
    wsApplyMask (wsApplyMask data mask) mask = data := by
  rw [wsApplyMask, wsApplyMask, List.mapIdx_mapIdx]
  apply List.ext_getElem
  · rw [List.length_mapIdx]
  · intro i _ inside
    rw [List.getElem_mapIdx, Function.comp_apply, UInt8.xor_assoc, UInt8.xor_self, UInt8.xor_zero]

@[simp] theorem length_wsApplyMask (data : Bytes) (mask : MaskingKey) :
    (wsApplyMask data mask).length = data.length :=
  List.length_mapIdx

theorem wsFrameEncode_ok {frame : WSFrame} {outSize : Nat} {out : Bytes}
    (encoded : wsFrameEncode frame outSize = .ok out) :
    out = frame.bytes := by
  rw [wsFrameEncode] at encoded
  split_ifs at encoded
  exact (Except.ok.inj encoded).symm

/-- The payload as it is sent. -/
def WSFrame.content (frame : WSFrame) : Bytes :=
  if frame.mask then wsApplyMask frame.payload frame.maskingKey else frame.payload

/-- The key that a reader finds. -/
def WSFrame.sentKey (frame : WSFrame) : MaskingKey := if frame.mask then frame.maskingKey else ⟨0, 0, 0, 0⟩

theorem length_content (frame : WSFrame) : frame.content.length = frame.payload.length := by
  rw [WSFrame.content]
  split
  · exact length_wsApplyMask _ _
  · rfl

theorem readKey_keyBytes (frame : WSFrame) (rest : Bytes) :
    readKey frame.mask (frame.keyBytes ++ rest) = .ok (frame.sentKey, rest) := by
  rw [WSFrame.keyBytes, WSFrame.sentKey]
  unfold readKey
  split
  · rfl
  · rfl

theorem unmask_content (frame : WSFrame) (further : Bytes) :
    unmask frame.mask frame.sentKey frame.payload.length (frame.content ++ further) = frame.payload ++ further := by
  rw [unmask, WSFrame.content, WSFrame.sentKey]
  split
  · rw [List.take_left' (length_wsApplyMask _ _), List.drop_left' (length_wsApplyMask _ _), wsApplyMask_wsApplyMask]
  · rfl

/-- The frame that is read from the bytes of a frame and others after them: the same one, but for a key that was
not sent. -/
theorem wsFrameDecode_bytes (frame : WSFrame) (further : Bytes) (opcode : frame.opcode.toNat < 16)
    (present : frame.payload.length = frame.payloadLen.toNat)
    (addressable : (frame.bytes ++ further).length < 2 ^ 64) :
    wsFrameDecode (frame.bytes ++ further) = .ok
      ({ frame with maskingKey := frame.sentKey, payload := frame.payload ++ further }, frame.bytes.length) := by
  obtain ⟨fin, low⟩ := first_byte frame.fin opcode
  have whole : frame.payload.take frame.payloadLen.toNat = frame.payload :=
    List.take_of_length_le (Nat.le_of_eq present)
  obtain ⟨b1, tail, encoded, flag, read⟩ := readLength_wsEncodeLength frame.payloadLen frame.mask
    (frame.keyBytes ++ (frame.content ++ further))
  have layout : frame.bytes = ((if frame.fin then 0x80 else 0x00) ||| (frame.opcode &&& 0x0F)) :: b1 ::
      (tail ++ (frame.keyBytes ++ frame.content)) := by
    rw [WSFrame.bytes, encoded, whole, WSFrame.content, List.append_assoc, List.cons_append]
  have size : frame.bytes.length = 2 + tail.length + frame.keyBytes.length + frame.payloadLen.toNat := by
    rw [layout, List.length_cons, List.length_cons, List.length_append, List.length_append, length_content, present]
    omega
  rw [List.length_append] at addressable
  have memory : (tail ++ (frame.keyBytes ++ (frame.content ++ further))).length =
      tail.length + frame.keyBytes.length + frame.payloadLen.toNat + further.length := by
    rw [List.length_append, List.length_append, List.length_append, length_content, present]
    omega
  have behind : (frame.content ++ further).length = frame.payloadLen.toNat + further.length := by
    rw [List.length_append, length_content, present]
  have stop : (BitVec.ofNat 64 (2 + (tail ++ (frame.keyBytes ++ (frame.content ++ further))).length -
      (frame.content ++ further).length) + frame.payloadLen).toNat = frame.bytes.length := by
    rw [memory, behind, BitVec.toNat_add, BitVec.toNat_ofNat, size]
    omega
  have bytes : frame.bytes ++ further = ((if frame.fin then 0x80 else 0x00) ||| (frame.opcode &&& 0x0F)) :: b1 ::
      (tail ++ (frame.keyBytes ++ (frame.content ++ further))) := by
    rw [layout, List.cons_append, List.cons_append, List.append_assoc, List.append_assoc]
  rw [bytes, wsFrameDecode_of_header _ flag read (readKey_keyBytes frame _), stop,
    if_neg (by rw [memory, size]; omega),
    if_neg (by rw [behind]; omega), fin, low, ← present, unmask_content]

/-- What was encoded is decoded from the front of any input; an unmasked frame carries no key. -/
theorem ws_frame_round_trip (frame : WSFrame) (outSize : Nat) (out further : Bytes) (opcode : frame.opcode.toNat < 16)
    (present : frame.payload.length = frame.payloadLen.toNat) (encoded : wsFrameEncode frame outSize = .ok out)
    (addressable : (out ++ further).length < 2 ^ 64) :
    ∃ read, wsFrameDecode (out ++ further) = .ok (read, out.length) ∧ read.fin = frame.fin ∧
      read.opcode = frame.opcode ∧
      read.mask = frame.mask ∧ read.maskingKey = (if frame.mask then frame.maskingKey else ⟨0, 0, 0, 0⟩) ∧
      read.payloadLen = frame.payloadLen ∧ read.payload.take read.payloadLen.toNat = frame.payload := by
  obtain rfl := wsFrameEncode_ok encoded
  exact ⟨_, wsFrameDecode_bytes frame further opcode present addressable, rfl, rfl, rfl, rfl, rfl,
    List.take_left' present⟩

/-- A masked text of two letters. -/
def greeting : WSFrame := ⟨true, 1, true, 2#64, ⟨0x12, 0x34, 0x56, 0x78⟩, [104, 105]⟩

theorem ws_frame_round_trip_greeting :
    ∃ read, wsFrameDecode ([0x81, 0x82, 0x12, 0x34, 0x56, 0x78, 0x7A, 0x5D] ++ [0x89]) = .ok (read, 8) ∧
      read.fin = true ∧
      read.opcode = 1 ∧ read.mask = true ∧ read.maskingKey = ⟨0x12, 0x34, 0x56, 0x78⟩ ∧ read.payloadLen = 2#64 ∧
      read.payload.take read.payloadLen.toNat = [104, 105] :=
  ws_frame_round_trip greeting 256 [0x81, 0x82, 0x12, 0x34, 0x56, 0x78, 0x7A, 0x5D] [0x89] (by decide) (by decide)
    (by decide) (by decide)

/-- The key of an unmasked frame is not sent, and comes back as zero. -/
theorem unmasked_key_lost :
    wsFrameEncode ⟨true, 2, false, 0#64, ⟨1, 2, 3, 4⟩, []⟩ 256 = .ok [0x82, 0x00] ∧
      ∀ read consumed, wsFrameDecode [0x82, 0x00] = .ok (read, consumed) → read.maskingKey ≠ ⟨1, 2, 3, 4⟩ := by
  refine ⟨by decide, ?_⟩
  intro read consumed decoded
  obtain ⟨rfl, -⟩ := Prod.mk.inj (Except.ok.inj decoded)
  decide

end Frames

section Bounds

/-- The decoder stays inside its input, and so does the payload it announces. -/
structure Bounded (data : Bytes) : Prop where
  inside : wsFrameDecode data ≠ .error .outOfBounds
  consumed_le : ∀ frame consumed, wsFrameDecode data = .ok (frame, consumed) →
    consumed ≤ data.length ∧ frame.payloadLen.toNat ≤ frame.payload.length

/-- The size of a header with a length of eight bytes. -/
def longHeader (b1 : UInt8) : Nat := if b1 &&& 0x80 ≠ 0 then 14 else 10

/-- A whole header announces a length of eight bytes that does not fit into 64 bits together with the header. -/
def Overflows : Bytes → Prop
  | _ :: b1 :: rest => b1 &&& 0x7F = 127 ∧ longHeader b1 ≤ 2 + rest.length ∧
    2 ^ 64 ≤ longHeader b1 + (joinBytes 64 (rest.take 8)).toNat
  | _ => False

theorem length_unmask (mask : Bool) (key : MaskingKey) (len : Nat) (memory : Bytes) :
    (unmask mask key len memory).length = memory.length := by
  rw [unmask]
  split
  · rw [List.length_append, length_wsApplyMask, ← List.length_append, List.take_append_drop]
  · rfl

variable {b0 b1 : UInt8} {rest after memory : Bytes} {len : BitVec 64} {key : MaskingKey}

/-- Without a wrap around the comparison says what it means. -/
theorem Bounded.of_header (length : readLength (b1 &&& 0x7F) rest = .ok (len, after))
    (found : readKey (decide (b1 &&& 0x80 ≠ 0)) after = .ok (key, memory)) (within : memory.length ≤ rest.length)
    (fits : 2 + rest.length - memory.length + len.toNat < 2 ^ 64) : Bounded (b0 :: b1 :: rest) := by
  have decoded := wsFrameDecode_of_header b0 rfl length found
  have stop : (BitVec.ofNat 64 (2 + rest.length - memory.length) + len).toNat =
      2 + rest.length - memory.length + len.toNat := by
    rw [BitVec.toNat_add, BitVec.toNat_ofNat]
    omega
  rw [stop] at decoded
  split_ifs at decoded with beyond outside
  · constructor
    · intro fault
      cases decoded.symm.trans fault
    · intro frame consumed result
      cases decoded.symm.trans result
  · omega
  · constructor
    · intro fault
      cases decoded.symm.trans fault
    · intro frame consumed result
      obtain ⟨rfl, rfl⟩ := Prod.mk.inj (Except.ok.inj (decoded.symm.trans result))
      change _ ≤ rest.length + 1 + 1 ∧ len.toNat ≤ (unmask _ key len.toNat memory).length
      rw [length_unmask]
      omega

/-- After a wrap around the comparison lets everything pass. -/
theorem not_bounded_of_header (length : readLength (b1 &&& 0x7F) rest = .ok (len, after))
    (found : readKey (decide (b1 &&& 0x80 ≠ 0)) after = .ok (key, memory)) (within : memory.length ≤ rest.length)
    (addressable : 2 + rest.length < 2 ^ 64) (wraps : 2 ^ 64 ≤ 2 + rest.length - memory.length + len.toNat) :
    ¬ Bounded (b0 :: b1 :: rest) := by
  rintro ⟨inside, bounded⟩
  have decoded := wsFrameDecode_of_header b0 rfl length found
  have small := len.isLt
  have stop : (BitVec.ofNat 64 (2 + rest.length - memory.length) + len).toNat =
      2 + rest.length - memory.length + len.toNat - 2 ^ 64 := by
    rw [BitVec.toNat_add, BitVec.toNat_ofNat]
    omega
  rw [stop, if_neg (by omega)] at decoded
  split_ifs at decoded with outside
  · exact inside decoded
  · have range : len.toNat ≤ (unmask _ key len.toNat memory).length := (bounded _ _ decoded).2
    rw [length_unmask] at range
    omega

theorem long_of_code {b1 : UInt8} (notMedium : b1 &&& 0x7F ≠ 126) (notShort : ¬ b1 &&& 0x7F ≤ 125) :
    b1 &&& 0x7F = 127 := by
  have most : (b1 &&& 0x7F).toNat ≤ 127 := by
    rw [UInt8.toNat_and]
    exact Nat.and_le_right
  rw [UInt8.le_iff_toNat_le] at notShort
  rw [Ne, ← UInt8.toNat_inj] at notMedium
  apply UInt8.toNat_inj.mp
  change ¬ _ ≤ 125 at notShort
  change ¬ _ = 126 at notMedium
  change _ = 127
  omega

/-- The position of the payload after a length of eight bytes. -/
theorem long_header_size (enough : 8 ≤ rest.length)
    (found : readKey (decide (b1 &&& 0x80 ≠ 0)) (rest.drop 8) = .ok (key, memory)) :
    2 + rest.length - memory.length = longHeader b1 ∧ memory.length ≤ rest.length := by
  have size := readKey_ok found
  rw [List.length_drop] at size
  rw [longHeader]
  by_cases masked : b1 &&& 0x80 ≠ 0
  · rw [if_pos (decide_eq_true masked)] at size
    rw [if_pos masked]
    omega
  · rw [if_neg (by rw [decide_eq_false masked]; decide)] at size
    rw [if_neg masked]
    omega

/-- A whole header has its key, if there is one. -/
theorem long_header_read (whole : longHeader b1 ≤ 2 + rest.length) :
    8 ≤ rest.length ∧ ∃ key memory, readKey (decide (b1 &&& 0x80 ≠ 0)) (rest.drop 8) = .ok (key, memory) := by
  rw [longHeader] at whole
  unfold readKey
  by_cases masked : b1 &&& 0x80 ≠ 0
  · rw [if_pos masked] at whole
    have four : 4 ≤ (rest.drop 8).length := by
      rw [List.length_drop]
      omega
    rw [decide_eq_true masked, if_pos rfl]
    match rest.drop 8, four with
    | k0 :: k1 :: k2 :: k3 :: memory, _ => exact ⟨by omega, _, memory, rfl⟩
  · rw [if_neg masked] at whole
    rw [decide_eq_false masked, if_neg Bool.false_ne_true]
    exact ⟨by omega, _, _, rfl⟩

theorem readLength_error {len7 : UInt8} {failure : Failure} (failed : readLength len7 rest = .error failure) :
    failure ≠ .outOfBounds := by
  unfold readLength at failed
  split_ifs at failed with short medium
  · match rest, failed with
    | [], failed | [_], failed =>
      obtain rfl := Except.error.inj failed
      decide
  · obtain rfl := Except.error.inj failed
    decide

theorem readKey_error {mask : Bool} {failure : Failure} (failed : readKey mask rest = .error failure) :
    failure ≠ .outOfBounds := by
  unfold readKey at failed
  split_ifs at failed
  match rest, failed with
  | [], failed | [_], failed | [_, _], failed | [_, _, _], failed =>
    obtain rfl := Except.error.inj failed
    decide

theorem Bounded.of_error {data : Bytes} {failure : Failure} (failed : wsFrameDecode data = .error failure)
    (code : failure ≠ .outOfBounds) : Bounded data := by
  constructor
  · intro fault
    exact code (Except.error.inj (failed.symm.trans fault))
  · intro frame consumed decoded
    cases failed.symm.trans decoded

/-- Every input is decoded inside its bounds, but for the lengths that wrap around. -/
theorem ws_decode_bounded_iff (data : Bytes) (addressable : data.length < 2 ^ 64) :
    Bounded data ↔ ¬ Overflows data := by
  match data, addressable with
  | [], _ => exact ⟨fun _ => id, fun _ => .of_error rfl (by decide)⟩
  | [_], _ => exact ⟨fun _ => id, fun _ => .of_error rfl (by decide)⟩
  | b0 :: b1 :: rest, addressable =>
    rw [List.length_cons, List.length_cons] at addressable
    constructor
    · rintro bounded ⟨long, whole, wraps⟩
      obtain ⟨enough, key, memory, found⟩ := long_header_read whole
      obtain ⟨size, within⟩ := long_header_size enough found
      have length : readLength (b1 &&& 0x7F) rest = .ok (joinBytes 64 (rest.take 8), rest.drop 8) := by
        unfold readLength
        rw [long, if_neg (by decide), if_neg (by decide), if_neg (by omega)]
      rw [← size] at wraps
      exact not_bounded_of_header length found within (by omega) wraps bounded
    · intro fits
      cases length : readLength (b1 &&& 0x7F) rest with
      | error failure =>
        refine .of_error ?_ (readLength_error length)
        rw [wsFrameDecode, length]
        rfl
      | ok pair =>
        obtain ⟨len, after⟩ := pair
        cases found : readKey (decide (b1 &&& 0x80 ≠ 0)) after with
        | error failure =>
          refine .of_error ?_ (readKey_error found)
          rw [wsFrameDecode, length]
          change (readKey (decide (b1 &&& 0x80 ≠ 0)) after >>= _) = _
          rw [found]
          rfl
        | ok pair =>
          obtain ⟨key, memory⟩ := pair
          rcases readLength_ok length with ⟨short, shorter, near⟩ | ⟨notMedium, notShort, enough, rfl, rfl⟩
          · have size := readKey_ok found
            have four : (if decide (b1 &&& 0x80 ≠ 0) = true then 4 else 0) ≤ 4 := by
              split <;> decide
            exact Bounded.of_header length found (by omega) (by omega)
          · obtain ⟨size, within⟩ := long_header_size enough found
            refine Bounded.of_header length found within ?_
            by_contra wraps
            rw [size] at wraps
            exact fits ⟨long_of_code notMedium notShort, by omega, Nat.le_of_not_lt wraps⟩

theorem ws_decode_bounded_greeting :
    Bounded [0x81, 0x82, 0x12, 0x34, 0x56, 0x78, 0x7A, 0x5D] ↔
      ¬ Overflows [0x81, 0x82, 0x12, 0x34, 0x56, 0x78, 0x7A, 0x5D] :=
  ws_decode_bounded_iff [0x81, 0x82, 0x12, 0x34, 0x56, 0x78, 0x7A, 0x5D] (by decide)

/-- A header that announces 2^64 - 1 bytes is accepted, and 9 of its 10 bytes are consumed. -/
theorem endless_payload_accepted :
    wsFrameDecode [0x82, 0x7F, 0xFF, 0xFF, 0xFF, 0xFF, 0xFF, 0xFF, 0xFF, 0xFF] =
      .ok (⟨true, 2, false, 0xFFFFFFFFFFFFFFFF#64, ⟨0, 0, 0, 0⟩, []⟩, 9) ∧
    ¬ Bounded [0x82, 0x7F, 0xFF, 0xFF, 0xFF, 0xFF, 0xFF, 0xFF, 0xFF, 0xFF] := by
  have decoded : wsFrameDecode [0x82, 0x7F, 0xFF, 0xFF, 0xFF, 0xFF, 0xFF, 0xFF, 0xFF, 0xFF] =
      .ok (⟨true, 2, false, 0xFFFFFFFFFFFFFFFF#64, ⟨0, 0, 0, 0⟩, []⟩, 9) := by decide
  refine ⟨decoded, ?_⟩
  intro bounded
  exact absurd (bounded.consumed_le _ _ decoded).2 (by decide)

end Bounds

end MiniNetDist.AppProtocol.WebSocket
