import MiniNetDist.Library.Crc
import Mathlib.Data.List.GetD

/-! The frames of `mini-rpc-framework/src/rpc_protocol.c`: a header of 22 bytes, the payload and a
CRC over both. The parser compares the length field with the buffer's length cut to 32 bits. -/

namespace MiniNetDist.RpcFramework

open Library

def RPC_PROTO_MAGIC : BitVec 32 := 0x52504321#32
def RPC_PROTO_MAX_FRAME_SIZE : Nat := 16 * 1024 * 1024
def RPC_PROTO_HEADER_SIZE : Nat := 22
def RPC_PROTO_CRC_SIZE : Nat := 4
def RPC_PROTO_OVERHEAD : Nat := RPC_PROTO_HEADER_SIZE + RPC_PROTO_CRC_SIZE

section Crc32

def crc32Polynomial : BitVec 32 := 0xEDB88320#32

def crc32Table : List (BitVec 32) :=
  (List.range 256).map fun i => Crc.bitSteps crc32Polynomial 8 (BitVec.ofNat 32 i)

def rpcCrc32Update (crc : BitVec 32) (data : Bytes) : BitVec 32 :=
  data.foldl (fun crc byte => crc >>> 8 ^^^ crc32Table.getD ((crc ^^^ widen 32 byte) &&& 0xFF#32).toNat 0#32) crc

def rpcCrc32Finalize (crc : BitVec 32) : BitVec 32 := crc ^^^ 0xFFFFFFFF#32

def rpcCrc32Compute (data : Bytes) : BitVec 32 := rpcCrc32Finalize (rpcCrc32Update 0xFFFFFFFF#32 data)

end Crc32

section Words

def writeU32be (val : BitVec 32) : Bytes := [byteOf val 24, byteOf val 16, byteOf val 8, byteOf val 0]

def readU32be : Bytes → BitVec 32
  | b0 :: b1 :: b2 :: b3 :: _ => widen 32 b0 <<< 24 ||| widen 32 b1 <<< 16 ||| widen 32 b2 <<< 8 ||| widen 32 b3
  | _ => 0#32

end Words

structure RPCProtoFrame where
  magic : BitVec 32
  version : BitVec 32
  frameType : UInt8
  flags : UInt8
  streamId : BitVec 32
  sequence : BitVec 32
  frameLen : BitVec 32
  deriving DecidableEq, Repr

def RPCProtoFrame.header (frame : RPCProtoFrame) : Bytes :=
  writeU32be frame.magic ++ writeU32be frame.version ++ [frame.frameType, frame.flags] ++
    writeU32be frame.streamId ++ writeU32be frame.sequence ++ writeU32be frame.frameLen

def RPCProtoFrame.ofHeader (data : Bytes) : RPCProtoFrame :=
  { magic := readU32be data
    version := readU32be (data.drop 4)
    frameType := data.getD 8 0
    flags := data.getD 9 0
    streamId := readU32be (data.drop 10)
    sequence := readU32be (data.drop 14)
    frameLen := readU32be (data.drop 18) }

/-- The frame as the builder completes it, and the bytes it writes. -/
def rpcProtoFrameBuild (frame : RPCProtoFrame) (payload : Bytes) : Except Int (RPCProtoFrame × Bytes) :=
  if payload.length > RPC_PROTO_MAX_FRAME_SIZE - RPC_PROTO_OVERHEAD then .error (-2)
  else
    let totalLen := BitVec.ofNat 32 (RPC_PROTO_HEADER_SIZE + payload.length + RPC_PROTO_CRC_SIZE)
    let frame := { frame with frameLen := totalLen, magic := RPC_PROTO_MAGIC }
    let crc := rpcCrc32Finalize (rpcCrc32Update (rpcCrc32Update 0xFFFFFFFF#32 frame.header) payload)
    .ok (frame, frame.header ++ payload ++ writeU32be crc)

/-- How a parse ends without a frame: with an error code, or with a read outside the buffer. -/
inductive ParseFailure where
  | code (value : Int)
  | outOfBounds
  deriving DecidableEq, Repr

def rpcProtoFrameParse (data : Bytes) : Except ParseFailure (RPCProtoFrame × Bytes) :=
  if data.length < RPC_PROTO_OVERHEAD then .error (.code (-1))
  else
    let frame := RPCProtoFrame.ofHeader data
    if frame.magic ≠ RPC_PROTO_MAGIC then .error (.code (-1))
    else if frame.frameLen.toNat > RPC_PROTO_MAX_FRAME_SIZE then .error (.code (-2))
    else if frame.frameLen ≠ BitVec.ofNat 32 data.length then .error (.code (-3))
    -- the subtraction below wraps around, and the buffer is read far outside
    else if frame.frameLen.toNat < RPC_PROTO_OVERHEAD then .error .outOfBounds
    else
      let payloadLen := frame.frameLen.toNat - RPC_PROTO_OVERHEAD
      if readU32be (data.drop (RPC_PROTO_HEADER_SIZE + payloadLen)) ≠
          rpcCrc32Compute (data.take (frame.frameLen.toNat - RPC_PROTO_CRC_SIZE)) then .error (.code (-4))
      else .ok (frame, (data.drop RPC_PROTO_HEADER_SIZE).take payloadLen)

section Checksum

theorem crc32Table_getD (word : BitVec 32) :
    crc32Table.getD (word &&& 0xFF#32).toNat 0#32 = Crc.bitSteps crc32Polynomial 8 (word &&& 0xFF#32) := by
  have bound : (word &&& 0xFF#32).toNat < 256 := by
    rw [BitVec.toNat_and]
    exact Nat.lt_of_le_of_lt Nat.and_le_right (by decide)
  rw [List.getD_eq_getElem _ _ (by rw [crc32Table, List.length_map, List.length_range]; exact bound)]
  simp [crc32Table]

/-- The table only speeds up the bitwise division. -/
theorem crc32_table_step (crc : BitVec 32) (byte : UInt8) :
    crc >>> 8 ^^^ crc32Table.getD ((crc ^^^ widen 32 byte) &&& 0xFF#32).toNat 0#32 =
      Crc.byteStep crc32Polynomial crc byte := by
  have short : widen 32 byte >>> 8 = 0#32 := by
    apply BitVec.eq_of_toNat_eq
    have := byte.toNat_lt
    simp [widen, Nat.shiftRight_eq_div_pow]
    omega
  rw [crc32Table_getD, Crc.byteStep,
    Crc.bitSteps_eq_table crc32Polynomial 8 (crc ^^^ widen 32 byte) 0xFF#32 (by decide),
    BitVec.ushiftRight_xor_distrib, short, BitVec.xor_zero]

theorem rpcCrc32Update_eq (crc : BitVec 32) (data : Bytes) :
    rpcCrc32Update crc data = Crc.remainder crc32Polynomial crc data := by
  rw [rpcCrc32Update, Crc.remainder]
  congr 1
  funext state byte
  exact crc32_table_step state byte

/-- The builder's two updates come to one over the whole. -/
theorem rpcCrc32Update_append (crc : BitVec 32) (first second : Bytes) :
    rpcCrc32Update (rpcCrc32Update crc first) second = rpcCrc32Update crc (first ++ second) :=
  List.foldl_append.symm

end Checksum

section WordCodec

@[simp] theorem length_writeU32be (val : BitVec 32) : (writeU32be val).length = 4 := rfl

@[simp] theorem readU32be_writeU32be (val : BitVec 32) (rest : Bytes) : readU32be (writeU32be val ++ rest) = val := by
  rw [writeU32be, List.cons_append, List.cons_append, List.cons_append, List.cons_append, readU32be,
    ← joinBytes_four, joinBytes_bytes val val.isLt]

theorem writeU32be_readU32be {data : Bytes} (long : 4 ≤ data.length) : writeU32be (readU32be data) = data.take 4 := by
  match data, long with
  | b0 :: b1 :: b2 :: b3 :: rest, _ =>
    rw [readU32be, ← joinBytes_four]
    exact bytesOf_joinBytes [b0, b1, b2, b3] (Nat.le_refl 32)

end WordCodec

section Header

@[simp] theorem RPCProtoFrame.length_header (frame : RPCProtoFrame) : frame.header.length = RPC_PROTO_HEADER_SIZE := rfl

/-- The fields are read back from where they were written. -/
theorem RPCProtoFrame.ofHeader_header (frame : RPCProtoFrame) (rest : Bytes) : ofHeader (frame.header ++ rest) = frame := by
  have magic : readU32be (frame.header ++ rest) = frame.magic := readU32be_writeU32be frame.magic _
  have version : readU32be ((frame.header ++ rest).drop 4) = frame.version := readU32be_writeU32be frame.version _
  have streamId : readU32be ((frame.header ++ rest).drop 10) = frame.streamId := readU32be_writeU32be frame.streamId _
  have sequence : readU32be ((frame.header ++ rest).drop 14) = frame.sequence := readU32be_writeU32be frame.sequence _
  have frameLen : readU32be ((frame.header ++ rest).drop 18) = frame.frameLen := readU32be_writeU32be frame.frameLen rest
  rw [ofHeader, magic, version, streamId, sequence, frameLen]
  rfl

/-- The fields that were read, written again, are the header's bytes. -/
theorem RPCProtoFrame.header_ofHeader {data : Bytes} (long : RPC_PROTO_HEADER_SIZE ≤ data.length) :
    (ofHeader data).header = data.take RPC_PROTO_HEADER_SIZE := by
  have word (start : Nat) (inside : start + 4 ≤ RPC_PROTO_HEADER_SIZE) :
      writeU32be (readU32be (data.drop start)) = (data.drop start).take 4 :=
    writeU32be_readU32be (by rw [List.length_drop]; omega)
  have middle : [data.getD 8 0, data.getD 9 0] = (data.drop 8).take 2 := by
    rw [RPC_PROTO_HEADER_SIZE] at long
    apply List.ext_getElem
    · simp
      omega
    · intro i _ bound
      have small : i < 2 := Nat.lt_of_lt_of_le bound (List.length_take_le ..)
      rw [List.getElem_take, List.getElem_drop]
      match i, small with
      | 0, _ => exact List.getD_eq_getElem data 0 (by omega)
      | 1, _ => exact List.getD_eq_getElem data 0 (by omega)
  have magic := word 0 (by decide)
  rw [List.drop_zero] at magic
  rw [header, ofHeader]
  simp only []
  rw [magic, word 4 (by decide), middle, word 10 (by decide), word 14 (by decide), word 18 (by decide)]
  simp only [RPC_PROTO_HEADER_SIZE, List.append_assoc]
  rw [show 22 = 4 + (4 + (2 + (4 + (4 + 4)))) by rfl]
  simp only [List.take_add, List.drop_drop]

end Header

section Codec

/-- The frame as the builder completes it for a payload. -/
def RPCProtoFrame.complete (frame : RPCProtoFrame) (payload : Bytes) : RPCProtoFrame :=
  { frame with
    frameLen := BitVec.ofNat 32 (RPC_PROTO_HEADER_SIZE + payload.length + RPC_PROTO_CRC_SIZE)
    magic := RPC_PROTO_MAGIC }

/-- The bytes of a completed frame: header, payload and the CRC over both. -/
def RPCProtoFrame.wire (frame : RPCProtoFrame) (payload : Bytes) : Bytes :=
  frame.header ++ payload ++ writeU32be (rpcCrc32Compute (frame.header ++ payload))

theorem rpcProtoFrameBuild_of_le (frame : RPCProtoFrame) {payload : Bytes}
    (small : payload.length ≤ RPC_PROTO_MAX_FRAME_SIZE - RPC_PROTO_OVERHEAD) :
    rpcProtoFrameBuild frame payload = .ok (frame.complete payload, (frame.complete payload).wire payload) := by
  rw [rpcProtoFrameBuild, if_neg (Nat.not_lt.mpr small)]
  simp only [rpcCrc32Update_append]
  rfl

theorem RPCProtoFrame.length_wire (frame : RPCProtoFrame) (payload : Bytes) :
    (frame.wire payload).length = RPC_PROTO_HEADER_SIZE + payload.length + RPC_PROTO_CRC_SIZE := by
  rw [wire, List.length_append, List.length_append, length_header, length_writeU32be]
  rfl

/-- What it takes for a buffer to be accepted. -/
structure Accepts (data : Bytes) (frame : RPCProtoFrame) (payload : Bytes) : Prop where
  long : RPC_PROTO_OVERHEAD ≤ data.length
  frame_eq : frame = .ofHeader data
  magic : frame.magic = RPC_PROTO_MAGIC
  bounded : frame.frameLen.toNat ≤ RPC_PROTO_MAX_FRAME_SIZE
  length_eq : frame.frameLen = BitVec.ofNat 32 data.length
  room : RPC_PROTO_OVERHEAD ≤ frame.frameLen.toNat
  crc : readU32be (data.drop (RPC_PROTO_HEADER_SIZE + (frame.frameLen.toNat - RPC_PROTO_OVERHEAD))) =
    rpcCrc32Compute (data.take (frame.frameLen.toNat - RPC_PROTO_CRC_SIZE))
  payload_eq : payload = (data.drop RPC_PROTO_HEADER_SIZE).take (frame.frameLen.toNat - RPC_PROTO_OVERHEAD)

theorem rpcProtoFrameParse_eq_ok_iff {data : Bytes} {frame : RPCProtoFrame} {payload : Bytes} :
    rpcProtoFrameParse data = .ok (frame, payload) ↔ Accepts data frame payload := by
  constructor
  · intro parsed
    simp only [rpcProtoFrameParse] at parsed
    split_ifs at parsed with long magic bounded length room crc
    obtain ⟨rfl, rfl⟩ := Prod.mk.inj (Except.ok.inj parsed)
    exact ⟨Nat.le_of_not_lt long, rfl, Decidable.not_not.mp magic, Nat.le_of_not_lt bounded,
      Decidable.not_not.mp length, Nat.le_of_not_lt room, Decidable.not_not.mp crc, rfl⟩
  · rintro ⟨long, rfl, magic, bounded, length, room, crc, rfl⟩
    simp only [rpcProtoFrameParse]
    rw [if_neg (Nat.not_lt.mpr long), if_neg (not_not_intro magic), if_neg (Nat.not_lt.mpr bounded),
      if_neg (not_not_intro length), if_neg (Nat.not_lt.mpr room), if_neg (not_not_intro crc)]

/-- A frame that was built is parsed to its own fields and payload, also when a multiple of 2^32 bytes follows it. -/
theorem rpcProtoFrameParse_wire_append (frame : RPCProtoFrame) {payload : Bytes}
    (small : payload.length ≤ RPC_PROTO_MAX_FRAME_SIZE - RPC_PROTO_OVERHEAD) (rest : Bytes)
    (wraps : rest.length % 2 ^ 32 = 0) :
    rpcProtoFrameParse ((frame.complete payload).wire payload ++ rest) = .ok (frame.complete payload, payload) := by
  have sizes : RPC_PROTO_HEADER_SIZE = 22 ∧ RPC_PROTO_CRC_SIZE = 4 ∧ RPC_PROTO_OVERHEAD = 26 ∧
      RPC_PROTO_MAX_FRAME_SIZE = 16777216 := ⟨rfl, rfl, rfl, rfl⟩
  have length : ((frame.complete payload).wire payload ++ rest).length =
      RPC_PROTO_HEADER_SIZE + payload.length + RPC_PROTO_CRC_SIZE + rest.length := by
    rw [List.length_append, RPCProtoFrame.length_wire]
  have total : (frame.complete payload).frameLen.toNat =
      RPC_PROTO_HEADER_SIZE + payload.length + RPC_PROTO_CRC_SIZE := by
    rw [RPCProtoFrame.complete, BitVec.toNat_ofNat, Nat.mod_eq_of_lt (by omega)]
  have payloadLen : (frame.complete payload).frameLen.toNat - RPC_PROTO_OVERHEAD = payload.length := by omega
  have checked : (frame.complete payload).frameLen.toNat - RPC_PROTO_CRC_SIZE =
      ((frame.complete payload).header ++ payload).length := by
    rw [List.length_append, RPCProtoFrame.length_header]
    omega
  refine rpcProtoFrameParse_eq_ok_iff.mpr ⟨by omega, ?_, rfl, by omega, ?_, by omega, ?_, ?_⟩
  · rw [RPCProtoFrame.wire, List.append_assoc, List.append_assoc, RPCProtoFrame.ofHeader_header]
  · apply BitVec.eq_of_toNat_eq
    rw [total, BitVec.toNat_ofNat, length]
    omega
  · rw [payloadLen, checked, RPCProtoFrame.wire, List.append_assoc, List.take_left, ← RPCProtoFrame.length_header,
      ← List.length_append, List.drop_left, readU32be_writeU32be]
  · rw [payloadLen, RPCProtoFrame.wire, List.append_assoc, List.append_assoc, ← RPCProtoFrame.length_header,
      List.drop_left, List.take_left]

theorem rpcProtoFrameParse_wire (frame : RPCProtoFrame) {payload : Bytes}
    (small : payload.length ≤ RPC_PROTO_MAX_FRAME_SIZE - RPC_PROTO_OVERHEAD) :
    rpcProtoFrameParse ((frame.complete payload).wire payload) = .ok (frame.complete payload, payload) := by
  simpa using rpcProtoFrameParse_wire_append frame small [] rfl

/-- The length field of an accepted buffer is the length of the frame built from what was parsed. -/
theorem Accepts.complete_eq {data : Bytes} {frame : RPCProtoFrame} {payload : Bytes} (accepted : Accepts data frame payload) :
    frame.complete payload = frame := by
  obtain ⟨long, rfl, magic, bounded, length, room, -, rfl⟩ := accepted
  have sizes : RPC_PROTO_HEADER_SIZE = 22 ∧ RPC_PROTO_CRC_SIZE = 4 ∧ RPC_PROTO_OVERHEAD = 26 := ⟨rfl, rfl, rfl⟩
  have cut : (RPCProtoFrame.ofHeader data).frameLen.toNat ≤ data.length := by
    rw [length, BitVec.toNat_ofNat]
    exact Nat.mod_le _ _
  have total : RPC_PROTO_HEADER_SIZE + ((data.drop RPC_PROTO_HEADER_SIZE).take
      ((RPCProtoFrame.ofHeader data).frameLen.toNat - RPC_PROTO_OVERHEAD)).length + RPC_PROTO_CRC_SIZE =
      (RPCProtoFrame.ofHeader data).frameLen.toNat := by
    rw [List.length_take, List.length_drop, Nat.min_eq_left (by omega)]
    omega
  rw [RPCProtoFrame.complete, total, ← magic, BitVec.ofNat_toNat, BitVec.setWidth_eq]

theorem Accepts.payload_small {data : Bytes} {frame : RPCProtoFrame} {payload : Bytes}
    (accepted : Accepts data frame payload) : payload.length ≤ RPC_PROTO_MAX_FRAME_SIZE - RPC_PROTO_OVERHEAD := by
  obtain ⟨-, rfl, -, bounded, -, -, -, rfl⟩ := accepted
  rw [List.length_take]
  omega

/-- A frame rebuilt from an accepted buffer is that buffer, unless the length comparison was cut to 32 bits. -/
theorem Accepts.wire_eq_iff {data : Bytes} {frame : RPCProtoFrame} {payload : Bytes}
    (accepted : Accepts data frame payload) : frame.wire payload = data ↔ data.length < 2 ^ 32 := by
  have sizes : RPC_PROTO_HEADER_SIZE = 22 ∧ RPC_PROTO_CRC_SIZE = 4 ∧ RPC_PROTO_OVERHEAD = 26 ∧
      RPC_PROTO_MAX_FRAME_SIZE = 16777216 := ⟨rfl, rfl, rfl, rfl⟩
  constructor
  · intro same
    have small := accepted.payload_small
    rw [← same, RPCProtoFrame.length_wire]
    omega
  · intro short
    obtain ⟨long, rfl, -, -, length, room, crc, rfl⟩ := accepted
    have total : (RPCProtoFrame.ofHeader data).frameLen.toNat = data.length := by
      rw [length, BitVec.toNat_ofNat, Nat.mod_eq_of_lt short]
    rw [total] at crc room ⊢
    have body : (RPCProtoFrame.ofHeader data).header ++
        (data.drop RPC_PROTO_HEADER_SIZE).take (data.length - RPC_PROTO_OVERHEAD) =
          data.take (data.length - RPC_PROTO_CRC_SIZE) := by
      rw [RPCProtoFrame.header_ofHeader (by omega), ← List.take_add]
      congr 1
      omega
    have trailer : data.drop (RPC_PROTO_HEADER_SIZE + (data.length - RPC_PROTO_OVERHEAD)) =
        data.drop (data.length - RPC_PROTO_CRC_SIZE) := by
      congr 1
      omega
    have four : (data.drop (data.length - RPC_PROTO_CRC_SIZE)).length = 4 := by
      rw [List.length_drop]
      omega
    rw [RPCProtoFrame.wire, body, ← crc, trailer, writeU32be_readU32be (Nat.le_of_eq four.symm), List.take_of_length_le (Nat.le_of_eq four),
      List.take_append_drop]

/-- The codec is exact on every frame it builds; of the buffers it accepts, it rebuilds exactly those whose
length fits the 32 bits it is compared in. -/
theorem rpc_frame_codec_exact_iff (frame accepted : RPCProtoFrame) (payload content data : Bytes)
    (small : payload.length ≤ RPC_PROTO_MAX_FRAME_SIZE - RPC_PROTO_OVERHEAD)
    (parsed : rpcProtoFrameParse data = .ok (accepted, content)) :
    (∃ built out read, rpcProtoFrameBuild frame payload = .ok (built, out) ∧
      rpcProtoFrameParse out = .ok (read, payload) ∧ read.version = frame.version ∧
      read.frameType = frame.frameType ∧ read.flags = frame.flags ∧ read.streamId = frame.streamId ∧
      read.sequence = frame.sequence) ∧
    ((∃ built, rpcProtoFrameBuild accepted content = .ok (built, data)) ↔ data.length < 2 ^ 32) := by
  constructor
  · exact ⟨_, _, _, rpcProtoFrameBuild_of_le frame small, rpcProtoFrameParse_wire frame small, rfl, rfl, rfl, rfl, rfl⟩
  · have accepts := rpcProtoFrameParse_eq_ok_iff.mp parsed
    rw [rpcProtoFrameBuild_of_le accepted accepts.payload_small, accepts.complete_eq, ← accepts.wire_eq_iff]
    constructor
    · rintro ⟨built, same⟩
      exact (Prod.mk.inj (Except.ok.inj same)).2
    · intro same
      exact ⟨accepted, by rw [same]⟩

/-- A keepalive frame with one byte. -/
def pingFrame : RPCProtoFrame := ⟨0#32, 0x10000#32, 3, 0, 5#32, 0#32, 0#32⟩

theorem rpc_frame_codec_ping :
    (∃ built out read, rpcProtoFrameBuild pingFrame [0] = .ok (built, out) ∧
      rpcProtoFrameParse out = .ok (read, [0]) ∧ read.version = pingFrame.version ∧
      read.frameType = pingFrame.frameType ∧ read.flags = pingFrame.flags ∧ read.streamId = pingFrame.streamId ∧
      read.sequence = pingFrame.sequence) ∧
    ((∃ built, rpcProtoFrameBuild (pingFrame.complete [0]) [0] = .ok (built, (pingFrame.complete [0]).wire [0])) ↔
      ((pingFrame.complete [0]).wire [0]).length < 2 ^ 32) :=
  rpc_frame_codec_exact_iff pingFrame (pingFrame.complete [0]) [0] [0] ((pingFrame.complete [0]).wire [0]) (by decide)
    (rpcProtoFrameParse_wire pingFrame (by decide))

/-- An empty frame, followed by zeros. -/
def oversized (extra : Nat) : Bytes :=
  (RPCProtoFrame.complete ⟨0#32, 0#32, 0, 0, 0#32, 0#32, 0#32⟩ []).wire [] ++ List.replicate extra 0

theorem length_oversized (extra : Nat) : (oversized extra).length = 26 + extra := by
  rw [oversized, List.length_append, RPCProtoFrame.length_wire, List.length_replicate]
  rfl

theorem oversized_accepted {extra : Nat} (wraps : extra % 2 ^ 32 = 0) :
    rpcProtoFrameParse (oversized extra) = .ok (RPCProtoFrame.complete ⟨0#32, 0#32, 0, 0, 0#32, 0#32, 0#32⟩ [], []) := by
  refine rpcProtoFrameParse_wire_append _ (Nat.zero_le _) _ ?_
  rw [List.length_replicate]
  exact wraps

/-- With 2^32 zeros the cut length is right again: the buffer is accepted, but what is rebuilt has its 26 first bytes
only. -/
theorem oversized_not_rebuilt :
    ∃ frame payload, rpcProtoFrameParse (oversized 4294967296) = .ok (frame, payload) ∧
      ¬ ∃ built, rpcProtoFrameBuild frame payload = .ok (built, oversized 4294967296) := by
  refine ⟨_, _, oversized_accepted (by decide), ?_⟩
  rintro ⟨built, same⟩
  rw [rpcProtoFrameBuild_of_le _ (Nat.zero_le _)] at same
  have length := congrArg List.length (Prod.mk.inj (Except.ok.inj same)).2
  rw [RPCProtoFrame.length_wire, length_oversized] at length
  exact absurd length (by decide)

end Codec

end MiniNetDist.RpcFramework
