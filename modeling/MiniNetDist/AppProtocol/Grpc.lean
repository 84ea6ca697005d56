import MiniNetDist.Library.Buffer
import MiniNetDist.Library.CharArray
import Mathlib.Data.List.GetD

/-! The wire format of `mini-app-protocol/src/grpc_proto.c`. A request is checked against the size of its parts
without the two bytes that hold the lengths of the names, so a message can be left out for want of room. -/

namespace MiniNetDist.AppProtocol.Grpc

open Library

def GRPC_MESSAGE_HEADER_SIZE : Nat := 5

section Messages

/-- The bytes written; the result 0 is a failure. Sizes are computed in 64 bits. -/
def grpcEncodeMessage (payload : Bytes) (compressed : Bool) (outSize : Nat) : Except Failure Bytes :=
  let payloadLen := BitVec.ofNat 64 payload.length
  if (GRPC_MESSAGE_HEADER_SIZE + payload.length) % 2 ^ 64 > outSize then .error (.code 0)
  else if GRPC_MESSAGE_HEADER_SIZE + payload.length > outSize then .error .outOfBounds
  else .ok ((if compressed then 0x01 else 0x00) :: byteOf payloadLen 24 :: byteOf payloadLen 16 ::
    byteOf payloadLen 8 :: byteOf payloadLen 0 :: payload)

/-- Whether the message is compressed, and its payload. -/
def grpcDecodeMessage : Bytes → Except Int (Bool × Bytes)
  | flag :: b1 :: b2 :: b3 :: b4 :: rest =>
    let payloadLen :=
      (widen 32 b1 <<< 24 ||| widen 32 b2 <<< 16 ||| widen 32 b3 <<< 8 ||| widen 32 b4).toNat
    if rest.length < payloadLen then .error (-3) else .ok (flag = 0x01, rest.take payloadLen)
  | _ => .error (-2)

end Messages

section Requests

/-- The call id and the names, each behind one byte for its length. -/
def requestHeader (callId : BitVec 32) (service method : CString) : Bytes :=
  byteOf callId 24 :: byteOf callId 16 :: byteOf callId 8 :: byteOf callId 0 ::
    (.ofNat service.length :: service ++ .ofNat method.length :: method)

/-- The size a request is checked against. -/
def requestSize (service method : CString) (payload : Bytes) : Nat :=
  (4 + service.length + method.length + payload.length + GRPC_MESSAGE_HEADER_SIZE) % 2 ^ 64

def grpcSendRequest (callId : BitVec 32) (service method : CString) (payload : Bytes) (outSize : Nat) :
    Except Failure Bytes :=
  let header := requestHeader callId service method
  if requestSize service method payload > outSize then .error (.code (-2))
  else if header.length > outSize then .error .outOfBounds
  else if payload = [] then .ok header
  else
    match grpcEncodeMessage payload false (outSize - header.length) with
    | .ok message => .ok (header ++ message)
    -- the result 0 is added to the position
    | .error (.code _) => .ok header
    | .error .outOfBounds => .error .outOfBounds

end Requests

section Framing

variable {callId : BitVec 32} {service method : CString} {payload : Bytes} {outSize : Nat}

/-- The length that is written keeps to 32 bits. -/
theorem join_length (length : Nat) :
    (widen 32 (byteOf (BitVec.ofNat 64 length) 24) <<< 24 ||| widen 32 (byteOf (BitVec.ofNat 64 length) 16) <<< 16 |||
      widen 32 (byteOf (BitVec.ofNat 64 length) 8) <<< 8 ||| widen 32 (byteOf (BitVec.ofNat 64 length) 0)).toNat =
      length % 2 ^ 32 := by
  have cut (shift : Nat) (inside : shift + 8 ≤ 32) :
      byteOf (BitVec.ofNat 64 length) shift = byteOf (BitVec.ofNat 32 length) shift := by
    rw [← BitVec.setWidth_ofNat_of_le (show 32 ≤ 64 by decide) length, byteOf_setWidth _ shift inside]
  rw [cut 24 (by decide), cut 16 (by decide), cut 8 (by decide), cut 0 (by decide), ← joinBytes_four,
    joinBytes_bytes _ (BitVec.isLt _), BitVec.toNat_ofNat]

/-- A message that is written fits the buffer. -/
theorem grpcEncodeMessage_ok {compressed : Bool} {message : Bytes}
    (written : grpcEncodeMessage payload compressed outSize = .ok message) :
    message.length = 5 + payload.length ∧ 5 + payload.length ≤ outSize ∧
      grpcDecodeMessage message = .ok (compressed, payload.take (payload.length % 2 ^ 32)) := by
  rw [grpcEncodeMessage] at written
  by_cases wraps : (GRPC_MESSAGE_HEADER_SIZE + payload.length) % 2 ^ 64 > outSize
  · rw [if_pos wraps] at written
    cases written
  rw [if_neg wraps] at written
  by_cases room : GRPC_MESSAGE_HEADER_SIZE + payload.length > outSize
  · rw [if_pos room] at written
    cases written
  rw [if_neg room] at written
  cases written
  refine ⟨?_, Nat.le_of_not_lt room, ?_⟩
  · simp only [List.length_cons]
    omega
  · simp only [grpcDecodeMessage, join_length]
    rw [if_neg (Nat.not_lt.mpr (Nat.mod_le _ _))]
    cases compressed <;> rfl

theorem length_requestHeader (callId : BitVec 32) (service method : CString) :
    (requestHeader callId service method).length = 6 + service.length + method.length := by
  simp only [requestHeader, List.length_cons, List.length_append]
  omega

/-- A request that is reported as written is complete: the call id, the names behind their lengths, and the message of
a payload that is not empty. No byte outside the buffer is written. -/
structure Complete (callId : BitVec 32) (service method : CString) (payload : Bytes) (outSize : Nat) : Prop where
  inside : grpcSendRequest callId service method payload outSize ≠ .error .outOfBounds
  whole : ∀ out, grpcSendRequest callId service method payload outSize = .ok out →
    out.length ≤ outSize ∧ ∃ serviceLen methodLen : UInt8, ∃ message,
      serviceLen.toNat = service.length ∧ methodLen.toNat = method.length ∧
      out = byteOf callId 24 :: byteOf callId 16 :: byteOf callId 8 :: byteOf callId 0 ::
        (serviceLen :: service ++ methodLen :: method) ++ message ∧
      (payload ≠ [] → grpcDecodeMessage message = .ok (false, payload))

/-- The request is refused, or it has no payload, or there is room for the lengths of the names as well. -/
def Fits (service method : CString) (payload : Bytes) (outSize : Nat) : Prop :=
  payload = [] ∨ outSize < requestSize service method payload ∨
    payload.length < 2 ^ 32 ∧ requestSize service method payload + 2 ≤ outSize

instance : Decidable (Fits service method payload outSize) := inferInstanceAs (Decidable (_ ∨ _ ∨ _ ∧ _))

/-- What becomes of a request with a payload that passes the check of its size. -/
theorem grpcSendRequest_cases (nonempty : payload ≠ []) (accepted : requestSize service method payload ≤ outSize) :
    grpcSendRequest callId service method payload outSize = .error .outOfBounds ∨
      grpcSendRequest callId service method payload outSize = .ok (requestHeader callId service method ++ []) ∨
      ∃ message, grpcSendRequest callId service method payload outSize =
          .ok (requestHeader callId service method ++ message) ∧
        grpcEncodeMessage payload false (outSize - (requestHeader callId service method).length) = .ok message := by
  simp only [grpcSendRequest, if_neg (Nat.not_lt.mpr accepted), if_neg nonempty]
  split_ifs with outside
  · exact .inl rfl
  · cases encoded : grpcEncodeMessage payload false (outSize - (requestHeader callId service method).length) with
    | ok message => exact .inr (.inr ⟨message, rfl, rfl⟩)
    | error failure =>
      cases failure with
      | code value => exact .inr (.inl (congrArg Except.ok (List.append_nil _).symm))
      | outOfBounds => exact .inl rfl

theorem requestSize_le (service method : CString) (payload : Bytes) :
    requestSize service method payload ≤ 9 + service.length + method.length + payload.length := by
  refine Nat.le_trans (Nat.mod_le _ _) ?_
  rw [GRPC_MESSAGE_HEADER_SIZE]
  omega

theorem requestSize_eq (serviceShort : service.length ≤ 255) (methodShort : method.length ≤ 255)
    (payloadShort : payload.length < 2 ^ 32) :
    requestSize service method payload = 9 + service.length + method.length + payload.length := by
  rw [requestSize, GRPC_MESSAGE_HEADER_SIZE, Nat.mod_eq_of_lt (by omega)]
  omega

/-- A complete request that was not refused has room for all of its parts. -/
theorem Complete.fits (complete : Complete callId service method payload outSize) :
    Fits service method payload outSize := by
  by_cases empty : payload = []
  · exact .inl empty
  by_cases refused : outSize < requestSize service method payload
  · exact .inr (.inl refused)
  refine .inr (.inr ?_)
  have heads (serviceLen methodLen : UInt8) : (byteOf callId 24 :: byteOf callId 16 :: byteOf callId 8 ::
      byteOf callId 0 :: (serviceLen :: service ++ methodLen :: method)).length =
        (requestHeader callId service method).length := by
    simp [requestHeader]
  have cases := @grpcSendRequest_cases callId service method payload outSize empty (Nat.le_of_not_lt refused)
  rcases cases with outside | sent | ⟨tail, sent, encoded⟩
  · exact absurd outside complete.inside
  · obtain ⟨-, serviceLen, methodLen, message, -, -, parts, decoded⟩ := complete.whole _ sent
    obtain ⟨-, rfl⟩ := List.append_inj parts.symm (heads serviceLen methodLen)
    cases decoded empty
  · obtain ⟨-, serviceLen, methodLen, message, -, -, parts, decoded⟩ := complete.whole _ sent
    obtain ⟨-, rfl⟩ := List.append_inj parts.symm (heads serviceLen methodLen)
    obtain ⟨-, room, read⟩ := grpcEncodeMessage_ok encoded
    have cut := (Prod.mk.inj (Except.ok.inj (read.symm.trans (decoded empty)))).2
    have short : payload.length ≤ payload.length % 2 ^ 32 := by
      have length := congrArg List.length cut
      rw [List.length_take] at length
      omega
    have size := requestSize_le service method payload
    rw [length_requestHeader] at room
    omega

/-- What it takes for a request that was sent to be complete. -/
theorem Complete.ofSent {message : Bytes} (serviceShort : service.length ≤ 255) (methodShort : method.length ≤ 255)
    (sent : grpcSendRequest callId service method payload outSize =
      .ok (requestHeader callId service method ++ message))
    (room : 6 + service.length + method.length + message.length ≤ outSize)
    (decoded : payload ≠ [] → grpcDecodeMessage message = .ok (false, payload)) :
    Complete callId service method payload outSize where
  inside := by
    rw [sent]
    intro outside
    cases outside
  whole := by
    intro out same
    rw [sent] at same
    cases same
    refine ⟨?_, .ofNat service.length, .ofNat method.length, message, ?_, ?_, rfl, decoded⟩
    · rw [List.length_append, length_requestHeader]
      exact room
    · rw [UInt8.toNat_ofNat', Nat.mod_eq_of_lt (by omega)]
    · rw [UInt8.toNat_ofNat', Nat.mod_eq_of_lt (by omega)]

/-- A request that is refused writes nothing. -/
theorem Complete.ofRefused (refused : outSize < requestSize service method payload) :
    Complete callId service method payload outSize := by
  have sent : grpcSendRequest callId service method payload outSize = .error (.code (-2)) := by
    simp only [grpcSendRequest, if_pos refused]
  constructor
  · rw [sent]
    intro outside
    cases outside
  · intro out same
    rw [sent] at same
    cases same

/-- A request with room for all of its parts is complete. -/
theorem Fits.complete (fits : Fits service method payload outSize) (serviceShort : service.length ≤ 255)
    (methodShort : method.length ≤ 255) : Complete callId service method payload outSize := by
  have header := length_requestHeader callId service method
  by_cases refused : outSize < requestSize service method payload
  · exact .ofRefused refused
  have short : payload.length < 2 ^ 32 := by
    rcases fits with rfl | small | ⟨short, -⟩
    · decide
    · exact absurd small refused
    · exact short
  have size := requestSize_eq serviceShort methodShort short
  by_cases empty : payload = []
  · have sent : grpcSendRequest callId service method payload outSize =
        .ok (requestHeader callId service method ++ []) := by
      simp only [grpcSendRequest, if_neg refused, if_pos empty, List.append_nil]
      rw [if_neg (by omega)]
    refine .ofSent serviceShort methodShort sent ?_ fun nonempty => absurd empty nonempty
    rw [List.length_nil]
    omega
  · have room : requestSize service method payload + 2 ≤ outSize := by
      rcases fits with none | small | ⟨-, room⟩
      · exact absurd none empty
      · exact absurd small refused
      · exact room
    obtain ⟨message, encoded⟩ : ∃ message,
        grpcEncodeMessage payload false (outSize - (requestHeader callId service method).length) = .ok message := by
      rw [grpcEncodeMessage, GRPC_MESSAGE_HEADER_SIZE, if_neg (by omega), if_neg (by omega)]
      exact ⟨_, rfl⟩
    obtain ⟨length, -, read⟩ := grpcEncodeMessage_ok encoded
    have sent : grpcSendRequest callId service method payload outSize =
        .ok (requestHeader callId service method ++ message) := by
      simp only [grpcSendRequest, if_neg refused, if_neg empty, encoded]
      rw [if_neg (by omega)]
    refine .ofSent serviceShort methodShort sent (by omega) fun _ => ?_
    rw [read, Nat.mod_eq_of_lt short, List.take_length]

/-- A request is complete exactly when it has no payload, is refused by the check of its size, or has a payload of less
than 2^32 bytes and room for the two bytes that the check leaves out. -/
theorem grpc_request_complete_iff (callId : BitVec 32) (service method : CString) (payload : Bytes) (outSize : Nat)
    (serviceShort : service.length ≤ 255) (methodShort : method.length ≤ 255) :
    Complete callId service method payload outSize ↔ Fits service method payload outSize :=
  ⟨Complete.fits, fun fits => fits.complete serviceShort methodShort⟩

theorem grpc_request_complete_call :
    Complete 7#32 (ascii "Svc") (ascii "M") [1, 2] 17 ↔ Fits (ascii "Svc") (ascii "M") [1, 2] 17 :=
  grpc_request_complete_iff 7#32 (ascii "Svc") (ascii "M") [1, 2] 17 (by decide) (by decide)

/-- With 15 or 16 bytes for a request of 17, the message is left out and the call still succeeds. -/
theorem grpc_message_left_out :
    grpcSendRequest 7#32 (ascii "Svc") (ascii "M") [1, 2] 15 = .ok [0, 0, 0, 7, 3, 83, 118, 99, 1, 77] ∧
      ¬ Complete 7#32 (ascii "Svc") (ascii "M") [1, 2] 15 := by
  refine ⟨by decide, ?_⟩
  intro complete
  exact absurd complete.fits (by decide)

end Framing

section KeyValue

def grpcKvSerialize (key value : CString) (outSize : Nat) : Except Failure Bytes :=
  if (2 + key.length + value.length) % 2 ^ 64 > outSize then .error (.code (-2))
  else if 2 + key.length + value.length > outSize then .error .outOfBounds
  else .ok (.ofNat key.length :: key ++ .ofNat value.length :: value)

/-- The strings left in a key buffer and a value buffer of these sizes. -/
def grpcKvDeserialize (data : Bytes) (keySize valueSize : Nat) : Except Int (CString × CString) :=
  if data.length < 2 then .error (-2)
  else
    let keyLen := (data.getD 0 0).toNat
    if 1 + keyLen ≥ data.length then .error (-3)
    else
      let valueLen := (data.getD (1 + keyLen) 0).toNat
      if 2 + keyLen + valueLen > data.length then .error (-4)
      else if keyLen ≥ keySize ∨ valueLen ≥ valueSize then .error (-5)
      else .ok (cString ((data.drop 1).take keyLen), cString ((data.drop (2 + keyLen)).take valueLen))

/-- A string is read with a length of one byte. -/
theorem length_of_deserialize {data : Bytes} {keySize valueSize : Nat} {key value : CString}
    (read : grpcKvDeserialize data keySize valueSize = .ok (key, value)) : key.length ≤ 255 ∧ value.length ≤ 255 := by
  have cut (memory : Bytes) (byte : UInt8) : (cString (memory.take byte.toNat)).length ≤ 255 :=
    calc (cString (memory.take byte.toNat)).length
      _ ≤ (memory.take byte.toNat).length := length_cString_le _
      _ ≤ byte.toNat := List.length_take_le _ _
      _ ≤ 255 := Nat.le_of_lt_succ byte.toNat_lt
  simp only [grpcKvDeserialize] at read
  split_ifs at read
  cases read
  exact ⟨cut _ _, cut _ _⟩

/-- Lengths that fit one byte are read as they were written. -/
theorem grpcKvDeserialize_serialize {key value : CString} {outSize : Nat} {out : Bytes} (keyPlain : 0 ∉ key)
    (valuePlain : 0 ∉ value) (written : grpcKvSerialize key value outSize = .ok out) (keyShort : key.length < 256)
    (valueShort : value.length < 256) {keySize valueSize : Nat} (keyRoom : key.length < keySize)
    (valueRoom : value.length < valueSize) : grpcKvDeserialize out keySize valueSize = .ok (key, value) := by
  have keyLen : (UInt8.ofNat key.length).toNat = key.length := by
    rw [UInt8.toNat_ofNat', Nat.mod_eq_of_lt keyShort]
  have valueLen : (UInt8.ofNat value.length).toNat = value.length := by
    rw [UInt8.toNat_ofNat', Nat.mod_eq_of_lt valueShort]
  unfold grpcKvSerialize at written
  split_ifs at written
  cases written
  generalize parts : UInt8.ofNat key.length :: key ++ UInt8.ofNat value.length :: value = data
  have first : (data.getD 0 0).toNat = key.length := by
    rw [← parts]
    exact keyLen
  have second : (data.getD (1 + key.length) 0).toNat = value.length := by
    rw [← parts, List.cons_append, Nat.add_comm, List.getD_cons_succ, List.getD_append_right _ _ _ _ (Nat.le_refl _),
      Nat.sub_self]
    exact valueLen
  have size : data.length = 2 + key.length + value.length := by
    rw [← parts]
    simp only [List.length_append, List.length_cons]
    omega
  have keyBytes : (data.drop 1).take key.length = key := by
    rw [← parts]
    exact List.take_left
  have valueBytes : (data.drop (2 + key.length)).take value.length = value := by
    have after : 2 + key.length = (key.length + 1) + 1 := by omega
    rw [← parts, List.cons_append, after, List.drop_succ_cons, List.drop_append,
      List.drop_eq_nil_of_le (Nat.le_succ _), Nat.add_sub_cancel_left, List.drop_succ_cons, List.drop_zero,
      List.nil_append, List.take_length]
  simp only [grpcKvDeserialize, first, second, size]
  rw [if_neg (by omega), if_neg (by omega), if_neg (by omega), if_neg (by omega), keyBytes, valueBytes,
    cString_eq keyPlain, cString_eq valuePlain]

/-- Key and value come back exactly when both lengths fit one byte. -/
theorem grpc_kv_round_trip_iff (key value : CString) (outSize : Nat) (out : Bytes) (keyPlain : 0 ∉ key)
    (valuePlain : 0 ∉ value) (written : grpcKvSerialize key value outSize = .ok out) :
    (∀ keySize valueSize, key.length < keySize → value.length < valueSize →
      grpcKvDeserialize out keySize valueSize = .ok (key, value)) ↔ key.length < 256 ∧ value.length < 256 := by
  constructor
  · intro recovered
    have read := recovered _ _ (Nat.lt_succ_self _) (Nat.lt_succ_self _)
    obtain ⟨keyShort, valueShort⟩ := length_of_deserialize read
    exact ⟨Nat.lt_succ_of_le keyShort, Nat.lt_succ_of_le valueShort⟩
  · rintro ⟨keyShort, valueShort⟩ keySize valueSize keyRoom valueRoom
    exact grpcKvDeserialize_serialize keyPlain valuePlain written keyShort valueShort keyRoom valueRoom

theorem grpc_kv_round_trip_test :
    (∀ keySize valueSize, (ascii "k").length < keySize → (ascii "v").length < valueSize →
      grpcKvDeserialize [1, 107, 1, 118] keySize valueSize = .ok (ascii "k", ascii "v")) ↔
      (ascii "k").length < 256 ∧ (ascii "v").length < 256 :=
  grpc_kv_round_trip_iff (ascii "k") (ascii "v") 256 [1, 107, 1, 118] (by decide) (by decide) (by decide)

/-- A key of 256 bytes is written behind the length 0. -/
theorem long_key_lost :
    grpcKvSerialize (List.replicate 256 97) [118] 259 = .ok (0 :: List.replicate 256 97 ++ [1, 118]) ∧
      ∀ keySize valueSize, grpcKvDeserialize (0 :: List.replicate 256 97 ++ [1, 118]) keySize valueSize ≠
        .ok (List.replicate 256 97, [118]) := by
  constructor
  · rw [grpcKvSerialize, List.length_replicate, if_neg (by decide), if_neg (by decide)]
    rfl
  · intro keySize valueSize read
    have short := (length_of_deserialize read).1
    rw [List.length_replicate] at short
    exact absurd short (by decide)

end KeyValue

end MiniNetDist.AppProtocol.Grpc
