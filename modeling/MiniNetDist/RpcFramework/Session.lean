import MiniNetDist.RpcFramework.Frame

/-! The protocol session of `mini-rpc-framework/src/rpc_protocol.c` and its handshake. Each side takes
over the other's settings as they are, so that two sessions which differ come out swapped. -/

namespace MiniNetDist.RpcFramework

open Library

def RPC_PROTO_VER_1_0 : BitVec 32 := 0x00010000#32
def RPC_PROTO_VER_ANY : BitVec 32 := 0xFFFFFFFF#32
def RPC_PROTO_MAX_STREAMS : Nat := 64

structure RPCProtoNegotiation where
  negotiatedVersion : BitVec 32
  compressionEnabled : Bool
  encryptionEnabled : Bool
  multiplexingSupported : Bool
  maxFrameSize : BitVec 32
  maxStreams : BitVec 32
  deriving DecidableEq, Repr

structure RPCStream where
  streamId : BitVec 32
  nextSequence : BitVec 32
  active : Bool
  closed : Bool
  reassemblyBuffer : Bytes
  expectedSequence : BitVec 32
  deriving DecidableEq, Repr

structure RPCProtocolSession where
  negotiation : RPCProtoNegotiation
  streams : List RPCStream
  streamCount : Int
  handshakeComplete : Bool
  nextStreamId : BitVec 32
  framesSent : Nat
  framesReceived : Nat
  crcErrors : Nat
  deriving DecidableEq, Repr

def rpcProtoSessionInit : RPCProtocolSession :=
  { negotiation := ⟨RPC_PROTO_VER_1_0, false, false, true, BitVec.ofNat 32 RPC_PROTO_MAX_FRAME_SIZE,
      BitVec.ofNat 32 RPC_PROTO_MAX_STREAMS⟩
    streams := List.replicate RPC_PROTO_MAX_STREAMS ⟨0#32, 0#32, false, false, [], 0#32⟩
    streamCount := 0
    handshakeComplete := false
    nextStreamId := 1#32
    framesSent := 0
    framesReceived := 0
    crcErrors := 0 }

def rpcProtoVersionCompare (a b : BitVec 32) : Int :=
  if a = b then 0
  else if a = RPC_PROTO_VER_ANY ∨ b = RPC_PROTO_VER_ANY then 0
  else if a >>> 16 ≠ b >>> 16 then if a >>> 16 > b >>> 16 then 1 else -1
  else if a >>> 8 &&& 0xFF#32 ≠ b >>> 8 &&& 0xFF#32 then if a >>> 8 &&& 0xFF#32 > b >>> 8 &&& 0xFF#32 then 1 else -1
  else if a &&& 0xFF#32 ≠ b &&& 0xFF#32 then if a &&& 0xFF#32 > b &&& 0xFF#32 then 1 else -1
  else 0

def rpcProtoVersionNegotiate (own remote : BitVec 32) : BitVec 32 :=
  if own = RPC_PROTO_VER_ANY then remote
  else if remote = RPC_PROTO_VER_ANY then own
  else if own = remote then own
  else if rpcProtoVersionCompare own remote ≤ 0 then own
  else remote

def flagByte (flag : Bool) : UInt8 := if flag then 1 else 0

/-- The settings as they stand in a handshake, before its CRC. -/
def RPCProtoNegotiation.payload (negotiation : RPCProtoNegotiation) : Bytes :=
  writeU32be negotiation.negotiatedVersion ++
    [flagByte negotiation.compressionEnabled, flagByte negotiation.encryptionEnabled,
      flagByte negotiation.multiplexingSupported] ++
    writeU32be negotiation.maxFrameSize ++ writeU32be negotiation.maxStreams

def rpcProtoBuildHandshake (sess : RPCProtocolSession) : RPCProtocolSession × Bytes :=
  ({ sess with handshakeComplete := true },
    sess.negotiation.payload ++ writeU32be (rpcCrc32Compute sess.negotiation.payload))

def rpcProtoParseHandshake (sess : RPCProtocolSession) (data : Bytes) : RPCProtocolSession × Int :=
  if data.length < 19 then (sess, -1)
  else if readU32be (data.drop 15) ≠ rpcCrc32Compute (data.take 15) then
    ({ sess with crcErrors := sess.crcErrors + 1 }, -2)
  else
    ({ sess with
      negotiation :=
        { negotiatedVersion := rpcProtoVersionNegotiate RPC_PROTO_VER_1_0 (readU32be data)
          compressionEnabled := data.getD 4 0 ≠ 0
          encryptionEnabled := data.getD 5 0 ≠ 0
          multiplexingSupported := data.getD 6 0 ≠ 0
          maxFrameSize := readU32be (data.drop 7)
          maxStreams := readU32be (data.drop 11) }
      handshakeComplete := true }, 0)

/-- One side of the handshake: build the own hello, then parse the peer's. -/
def handshake (sess peer : RPCProtocolSession) : RPCProtocolSession × Int :=
  rpcProtoParseHandshake (rpcProtoBuildHandshake sess).1 (rpcProtoBuildHandshake peer).2

/-- Both sides hold the same settings, with limits that neither side's own ones are below. -/
structure Agreement (left right : RPCProtoNegotiation) (left' right' : RPCProtoNegotiation) : Prop where
  version : left'.negotiatedVersion = right'.negotiatedVersion
  compression : left'.compressionEnabled = right'.compressionEnabled
  encryption : left'.encryptionEnabled = right'.encryptionEnabled
  multiplexing : left'.multiplexingSupported = right'.multiplexingSupported
  maxFrameSize : left'.maxFrameSize = right'.maxFrameSize
  maxStreams : left'.maxStreams = right'.maxStreams
  frameBound : left'.maxFrameSize.toInt ≤ left.maxFrameSize.toInt ∧ left'.maxFrameSize.toInt ≤ right.maxFrameSize.toInt
  streamBound : left'.maxStreams.toInt ≤ left.maxStreams.toInt ∧ left'.maxStreams.toInt ≤ right.maxStreams.toInt

/-- The two sides have the same settings to begin with; of their versions it is enough that neither is below 1.0. -/
structure Compatible (left right : RPCProtoNegotiation) : Prop where
  version : left.negotiatedVersion = right.negotiatedVersion ∨
    RPC_PROTO_VER_1_0 ≤ left.negotiatedVersion ∧ RPC_PROTO_VER_1_0 ≤ right.negotiatedVersion
  compression : left.compressionEnabled = right.compressionEnabled
  encryption : left.encryptionEnabled = right.encryptionEnabled
  multiplexing : left.multiplexingSupported = right.multiplexingSupported
  maxFrameSize : left.maxFrameSize = right.maxFrameSize
  maxStreams : left.maxStreams = right.maxStreams

section Negotiation

/-- The comparison finds version 1.0 the higher one exactly when the other has no major version. -/
theorem rpcProtoVersionCompare_own_le_zero_iff {remote : BitVec 32} (different : RPC_PROTO_VER_1_0 ≠ remote)
    (known : remote ≠ RPC_PROTO_VER_ANY) :
    rpcProtoVersionCompare RPC_PROTO_VER_1_0 remote ≤ 0 ↔ remote >>> 16 ≠ 0#32 := by
  have own : RPC_PROTO_VER_1_0 ≠ RPC_PROTO_VER_ANY := by decide
  have major : RPC_PROTO_VER_1_0 >>> 16 = 1#32 := by decide
  have minor : RPC_PROTO_VER_1_0 >>> 8 &&& 0xFF#32 = 0#32 := by decide
  have patch : RPC_PROTO_VER_1_0 &&& 0xFF#32 = 0#32 := by decide
  rw [rpcProtoVersionCompare, if_neg different, if_neg (not_or_intro own known), major, minor, patch]
  by_cases zero : remote >>> 16 = 0#32
  · rw [zero, if_pos (by decide), if_pos (by decide)]
    decide
  · have nonzero : ¬ 1#32 > remote >>> 16 := by
      rw [gt_iff_lt, BitVec.lt_def]
      rw [← BitVec.toNat_inj] at zero
      simp only [BitVec.toNat_ofNat, Nat.zero_mod] at zero ⊢
      omega
    have least (value : BitVec 32) : ¬ 0#32 > value := BitVec.not_lt_zero
    rw [if_neg nonzero, if_neg (least _), if_neg (least _)]
    simp only [zero, ne_eq, not_false_eq_true, iff_true]
    split_ifs <;> decide

/-- The parser negotiates for version 1.0 and so gets the smaller of it and the peer's version. -/
theorem rpcProtoVersionNegotiate_own (remote : BitVec 32) :
    rpcProtoVersionNegotiate RPC_PROTO_VER_1_0 remote =
      if RPC_PROTO_VER_1_0 ≤ remote then RPC_PROTO_VER_1_0 else remote := by
  have own : RPC_PROTO_VER_1_0 ≠ RPC_PROTO_VER_ANY := by decide
  have major : remote >>> 16 ≠ 0#32 ↔ RPC_PROTO_VER_1_0 ≤ remote := by
    rw [RPC_PROTO_VER_1_0, BitVec.le_def, ne_eq, ← BitVec.toNat_inj, BitVec.toNat_ushiftRight,
      Nat.shiftRight_eq_div_pow]
    simp
  rw [rpcProtoVersionNegotiate, if_neg own]
  by_cases any : remote = RPC_PROTO_VER_ANY
  · rw [any]
    rfl
  by_cases same : RPC_PROTO_VER_1_0 = remote
  · rw [← same]
    rfl
  rw [if_neg any, if_neg same]
  simp only [rpcProtoVersionCompare_own_le_zero_iff same any, major]

theorem rpcProtoVersionNegotiate_own_eq_iff (left right : BitVec 32) :
    rpcProtoVersionNegotiate RPC_PROTO_VER_1_0 left = rpcProtoVersionNegotiate RPC_PROTO_VER_1_0 right ↔
      left = right ∨ RPC_PROTO_VER_1_0 ≤ left ∧ RPC_PROTO_VER_1_0 ≤ right := by
  rw [rpcProtoVersionNegotiate_own, rpcProtoVersionNegotiate_own]
  by_cases first : RPC_PROTO_VER_1_0 ≤ left <;> by_cases second : RPC_PROTO_VER_1_0 ≤ right
  · simp [first, second]
  · rw [if_pos first, if_neg second]
    constructor
    · rintro rfl
      exact absurd (BitVec.le_refl _) second
    · rintro (rfl | both)
      · exact absurd first second
      · exact absurd both.2 second
  · rw [if_neg first, if_pos second]
    constructor
    · rintro rfl
      exact absurd (BitVec.le_refl _) first
    · rintro (rfl | both)
      · exact absurd second first
      · exact absurd both.1 first
  · simp [first, second]

end Negotiation

section Handshake

/-- A hello that was built is accepted, and its settings are taken over. -/
theorem handshake_eq (sess peer : RPCProtocolSession) :
    handshake sess peer =
      ({ sess with
        negotiation :=
          { peer.negotiation with
            negotiatedVersion := rpcProtoVersionNegotiate RPC_PROTO_VER_1_0 peer.negotiation.negotiatedVersion }
        handshakeComplete := true }, 0) := by
  set hello := (rpcProtoBuildHandshake peer).2 with definition
  have crc : readU32be (hello.drop 15) = rpcCrc32Compute (hello.take 15) :=
    readU32be_writeU32be (rpcCrc32Compute peer.negotiation.payload) []
  have version : readU32be hello = peer.negotiation.negotiatedVersion := readU32be_writeU32be _ _
  have maxFrameSize : readU32be (hello.drop 7) = peer.negotiation.maxFrameSize := readU32be_writeU32be _ _
  have maxStreams : readU32be (hello.drop 11) = peer.negotiation.maxStreams := readU32be_writeU32be _ _
  have flag (value : Bool) : decide (flagByte value ≠ 0) = value := by cases value <;> rfl
  have compression : decide (hello.getD 4 0 ≠ 0) = peer.negotiation.compressionEnabled := flag _
  have encryption : decide (hello.getD 5 0 ≠ 0) = peer.negotiation.encryptionEnabled := flag _
  have multiplexing : decide (hello.getD 6 0 ≠ 0) = peer.negotiation.multiplexingSupported := flag _
  have long : ¬ hello.length < 19 := by
    have : hello.length = 19 := rfl
    omega
  rw [handshake, ← definition, rpcProtoParseHandshake, if_neg long, if_neg (not_not_intro crc), version, maxFrameSize,
    maxStreams, compression, encryption, multiplexing]
  rfl

/-- Both hellos are always accepted, and the two sessions agree exactly when their settings did before. -/
theorem rpc_handshake_agreement_iff (left right : RPCProtocolSession) :
    (handshake left right).2 = 0 ∧ (handshake right left).2 = 0 ∧
      (Agreement left.negotiation right.negotiation (handshake left right).1.negotiation
        (handshake right left).1.negotiation ↔ Compatible left.negotiation right.negotiation) := by
  rw [handshake_eq, handshake_eq]
  refine ⟨rfl, rfl, ?_, ?_⟩
  · intro agreed
    exact ⟨((rpcProtoVersionNegotiate_own_eq_iff _ _).mp agreed.version.symm), agreed.compression.symm,
      agreed.encryption.symm, agreed.multiplexing.symm, agreed.maxFrameSize.symm, agreed.maxStreams.symm⟩
  · intro compatible
    refine ⟨(rpcProtoVersionNegotiate_own_eq_iff _ _).mpr (compatible.version.imp Eq.symm And.symm),
      compatible.compression.symm, compatible.encryption.symm, compatible.multiplexing.symm,
      compatible.maxFrameSize.symm, compatible.maxStreams.symm, ?_, ?_⟩
    · simp [compatible.maxFrameSize]
    · simp [compatible.maxStreams]

/-- A session that asks for compression meets one that does not: each ends with the other's setting. -/
theorem handshake_flags_swapped :
    let left := { rpcProtoSessionInit with
      negotiation := { rpcProtoSessionInit.negotiation with compressionEnabled := true } }
    (handshake left rpcProtoSessionInit).2 = 0 ∧ (handshake rpcProtoSessionInit left).2 = 0 ∧
      ¬ Agreement left.negotiation rpcProtoSessionInit.negotiation (handshake left rpcProtoSessionInit).1.negotiation
        (handshake rpcProtoSessionInit left).1.negotiation := by
  intro left
  rw [handshake_eq, handshake_eq]
  refine ⟨rfl, rfl, ?_⟩
  intro agreed
  exact absurd agreed.compression Bool.false_ne_true

end Handshake

end MiniNetDist.RpcFramework
