import MiniNetDist.Library.Bytes

/-! The HTTP/2 frames of `mini-app-protocol/src/http2_frames.c`. The writer means to clear the
reserved bit above the stream id, but clears the top bit of the id's lowest byte. -/

namespace MiniNetDist.AppProtocol.H2

open Library

def H2_FRAME_HEADER_SIZE : Nat := 9

structure H2FrameHeader where
  length : BitVec 24
  type : UInt8
  flags : UInt8
  streamId : BitVec 31
  deriving DecidableEq, Repr

/-- The bytes written to a buffer of `bufSize` bytes; `none` stands for the result 0. -/
def h2FrameBuild (bufSize : Nat) (type flags : UInt8) (streamId : BitVec 32) (payload : Bytes) : Option Bytes :=
  if H2_FRAME_HEADER_SIZE + payload.length > bufSize then none
  else
    let payloadLen := BitVec.ofNat 64 payload.length
    some ([byteOf payloadLen 16, byteOf payloadLen 8, byteOf payloadLen 0, type, flags,
      byteOf streamId 24, byteOf streamId 16, byteOf streamId 8, byteOf streamId 0 &&& 0x7F] ++ payload)

/-- The header and the payload, or the error code. -/
def h2FrameParse : Bytes → Except Int (H2FrameHeader × Bytes)
  | b0 :: b1 :: b2 :: b3 :: b4 :: b5 :: b6 :: b7 :: b8 :: rest =>
    let hdr : H2FrameHeader :=
      { length := (widen 32 b0 <<< 16 ||| widen 32 b1 <<< 8 ||| widen 32 b2).setWidth 24
        type := b3
        flags := b4
        streamId :=
          (widen 32 (b5 &&& 0x7F) <<< 24 ||| widen 32 b6 <<< 16 ||| widen 32 b7 <<< 8 ||| widen 32 b8).setWidth 31 }
    if rest.length < hdr.length.toNat then .error (-2) else .ok (hdr, rest.take hdr.length.toNat)
  | _ => .error (-1)

/-- The bytes parse to a frame with these fields and this payload. -/
def Carries (bytes : Bytes) (type flags : UInt8) (streamId : BitVec 32) (payload : Bytes) : Prop :=
  ∃ hdr, h2FrameParse bytes = .ok (hdr, payload) ∧ hdr.type = type ∧ hdr.flags = flags ∧
    hdr.streamId.toNat = streamId.toNat ∧ hdr.length.toNat = payload.length

/-- The length field is the length of the payload. -/
theorem length_field (length : Nat) (short : length < 2 ^ 24) :
    joinBytes 32 [byteOf (BitVec.ofNat 64 length) 16, byteOf (BitVec.ofNat 64 length) 8,
      byteOf (BitVec.ofNat 64 length) 0] = BitVec.ofNat 32 length := by
  have small : (BitVec.ofNat 32 length).toNat < 2 ^ (8 * 3) := by
    rw [BitVec.toNat_ofNat]
    omega
  have cut : BitVec.ofNat 32 length = (BitVec.ofNat 64 length).setWidth 32 :=
    (BitVec.setWidth_ofNat_of_le (by decide) length).symm
  have narrow (shift : Nat) (inside : shift + 8 ≤ 32) :
      byteOf (BitVec.ofNat 64 length) shift = byteOf (BitVec.ofNat 32 length) shift := by
    rw [cut, byteOf_setWidth _ shift inside]
  rw [narrow 16 (by decide), narrow 8 (by decide), narrow 0 (by decide)]
  exact joinBytes_bytesOf _ 3 small

/-- A stream id below 2^31 leaves the reserved bit clear. -/
theorem reserved_clear (streamId : BitVec 32) (small : streamId.toNat < 2 ^ 31) :
    byteOf streamId 24 &&& 0x7F = byteOf streamId 24 := by
  apply (and_mask_eq_iff _).mpr
  have top : (byteOf streamId 24).toNat = streamId.toNat / 2 ^ 24 % 256 := by
    simp [byteOf, Nat.shiftRight_eq_div_pow]
  omega

/-- The id that is read is the one written exactly when the masked byte was not changed. -/
theorem streamId_read_iff (streamId : BitVec 32) (small : streamId.toNat < 2 ^ 31) :
    ((joinBytes 32 [byteOf streamId 24 &&& 0x7F, byteOf streamId 16, byteOf streamId 8,
      byteOf streamId 0 &&& 0x7F]).setWidth 31).toNat = streamId.toNat ↔ streamId.toNat % 256 < 128 := by
  rw [reserved_clear streamId small, ← toNat_byteOf_zero, ← and_mask_eq_iff]
  constructor
  · intro same
    have equal : (joinBytes 32 [byteOf streamId 24, byteOf streamId 16, byteOf streamId 8,
        byteOf streamId 0 &&& 0x7F]).setWidth 31 = streamId.setWidth 31 := by
      apply BitVec.eq_of_toNat_eq
      rw [same, BitVec.toNat_setWidth, Nat.mod_eq_of_lt small]
    have lowest := congrArg (byteOf · 0) equal
    rw [byteOf_setWidth _ 0 (by decide), byteOf_setWidth _ 0 (by decide)] at lowest
    simp only [joinBytes, List.foldl_cons, List.foldl_nil] at lowest
    rwa [byteOf_push _ _ (by decide)] at lowest
  · intro kept
    rw [kept, joinBytes_bytes streamId streamId.isLt, BitVec.toNat_setWidth, Nat.mod_eq_of_lt small]

/-- What is read from a frame that was written: all but the stream id is always right. -/
theorem h2FrameParse_build (type flags : UInt8) (streamId : BitVec 32) (payload further : Bytes)
    (short : payload.length < 2 ^ 24) {bufSize : Nat} {written : Bytes}
    (built : h2FrameBuild bufSize type flags streamId payload = some written) :
    h2FrameParse (written ++ further) = .ok
      (⟨BitVec.ofNat 24 payload.length, type, flags,
        (joinBytes 32 [byteOf streamId 24 &&& 0x7F, byteOf streamId 16, byteOf streamId 8,
          byteOf streamId 0 &&& 0x7F]).setWidth 31⟩, payload) := by
  rw [h2FrameBuild] at built
  split at built
  · cases built
  · obtain rfl := Option.some.inj built
    have length : (widen 32 (byteOf (BitVec.ofNat 64 payload.length) 16) <<< 16 |||
        widen 32 (byteOf (BitVec.ofNat 64 payload.length) 8) <<< 8 |||
        widen 32 (byteOf (BitVec.ofNat 64 payload.length) 0)).setWidth 24 = BitVec.ofNat 24 payload.length := by
      rw [← joinBytes_three, length_field payload.length short, BitVec.setWidth_ofNat_of_le (by decide)]
    have measure : (BitVec.ofNat 24 payload.length).toNat = payload.length := by
      rw [BitVec.toNat_ofNat, Nat.mod_eq_of_lt short]
    simp only [List.cons_append, List.nil_append, h2FrameParse, length, measure, ← joinBytes_four]
    rw [if_neg (by simp), List.take_left]

/-- A frame survives the round trip exactly when the lowest byte of its stream id is below 128. -/
theorem h2_frame_round_trip_iff (bufSize : Nat) (type flags : UInt8) (streamId : BitVec 32)
    (payload further : Bytes) (small : streamId.toNat < 2 ^ 31) (short : payload.length < 2 ^ 24)
    (room : H2_FRAME_HEADER_SIZE + payload.length ≤ bufSize) :
    ∃ written, h2FrameBuild bufSize type flags streamId payload = some written ∧
      (Carries (written ++ further) type flags streamId payload ↔ streamId.toNat % 256 < 128) := by
  obtain ⟨written, built⟩ : ∃ written, h2FrameBuild bufSize type flags streamId payload = some written := by
    rw [h2FrameBuild, if_neg (Nat.not_lt.mpr room)]
    exact ⟨_, rfl⟩
  refine ⟨written, built, ?_⟩
  rw [← streamId_read_iff streamId small, Carries, h2FrameParse_build type flags streamId payload further short built]
  constructor
  · rintro ⟨hdr, parsed, -, -, same, -⟩
    obtain rfl := (Prod.mk.inj (Except.ok.inj parsed)).1
    exact same
  · intro same
    refine ⟨_, rfl, rfl, rfl, same, ?_⟩
    rw [BitVec.toNat_ofNat, Nat.mod_eq_of_lt short]

theorem h2_frame_round_trip_stream_3 :
    ∃ written, h2FrameBuild 16384 1 4 3 [7, 8] = some written ∧
      (Carries (written ++ [9]) 1 4 3 [7, 8] ↔ (3 : BitVec 32).toNat % 256 < 128) :=
  h2_frame_round_trip_iff 16384 1 4 3 [7, 8] [9] (by decide) (by decide) (by decide)

/-- Stream 129 is read back as stream 1. -/
theorem h2_frame_stream_129_lost :
    (129 : BitVec 32).toNat < 2 ^ 31 ∧
      ∃ written, h2FrameBuild 16384 1 4 129 [] = some written ∧ ¬ Carries written 1 4 129 [] := by
  refine ⟨by decide, [0, 0, 0, 1, 4, 0, 0, 0, 1], by decide, ?_⟩
  rintro ⟨hdr, parsed, -, -, same, -⟩
  obtain rfl := (Prod.mk.inj (Except.ok.inj parsed)).1
  exact absurd same (by decide)

end MiniNetDist.AppProtocol.H2
