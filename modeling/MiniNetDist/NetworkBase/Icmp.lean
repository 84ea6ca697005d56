import MiniNetDist.Library.Base64
import MiniNetDist.Library.OnesComplement
import MiniNetDist.NetworkBase.IpPacket

/-! ICMP messages of `mini-network-base/src/icmp_proto.c`: echo requests and their replies, error messages, and the
checksum that guards them. -/

namespace MiniNetDist.NetworkBase.Icmp

open Library Library.OnesComplement IpPacket

def ICMP_HEADER_SIZE : Nat := 8
def ICMP_MAX_DATA : Nat := 1472
def ICMP_TYPE_ECHO_REPLY : UInt8 := 0
def ICMP_TYPE_DEST_UNREACHABLE : UInt8 := 3
def ICMP_TYPE_ECHO_REQUEST : UInt8 := 8
def ICMP_TYPE_TIME_EXCEEDED : UInt8 := 11
def ICMP_CODE_TTL_EXCEEDED : UInt8 := 0
def ICMP_CODE_FRAG_REASSEMBLY_TIMEOUT : UInt8 := 1

/-- The fields that `icmp_echo_parse` writes. -/
structure ICMPEcho where
  type : UInt8
  code : UInt8
  checksum : BitVec 16
  identifier : BitVec 16
  sequenceNumber : BitVec 16
  data : Bytes
  deriving DecidableEq, Repr

/-- Statement by statement this is `ip_checksum`. -/
def icmpChecksum (data : Bytes) : BitVec 16 := ipChecksum data

def icmpChecksumVerify (data : Bytes) : Bool :=
  if data.length < ICMP_HEADER_SIZE then false else icmpChecksum data = 0

/-- The checksum goes into the field that was zero. -/
def sealed (packet : Bytes) : Bytes :=
  let ck := icmpChecksum packet
  (packet.set 2 (byteOf ck 8)).set 3 (byteOf ck 0)

/-- The packet, if there is room for it, or the negative result. -/
def icmpEchoBuild (identifier seqNum : BitVec 16) (payload : Bytes) (room : Nat) : Except Int Bytes :=
  if payload.length > ICMP_MAX_DATA then .error (-2)
  else if ICMP_HEADER_SIZE + payload.length > room then .error (-3)
  else .ok (sealed ([ICMP_TYPE_ECHO_REQUEST, 0, 0, 0, byteOf identifier 8, byteOf identifier 0, byteOf seqNum 8,
    byteOf seqNum 0] ++ payload))

def icmpEchoReply (request : Bytes) (room : Nat) : Except Int Bytes :=
  if request.length < ICMP_HEADER_SIZE then .error (-2)
  else if request.getD 0 0 ≠ ICMP_TYPE_ECHO_REQUEST then .error (-3)
  else if request.length > room then .error (-4)
  else .ok (sealed (((request.set 0 ICMP_TYPE_ECHO_REPLY).set 2 0).set 3 0))

def icmpEchoParse (data : Bytes) : Option ICMPEcho :=
  if data.length < ICMP_HEADER_SIZE then none
  else some
    { type := data.getD 0 0
      code := data.getD 1 0
      checksum := joinBytes 16 ((data.drop 2).take 2)
      identifier := joinBytes 16 ((data.drop 4).take 2)
      sequenceNumber := joinBytes 16 ((data.drop 6).take 2)
      data := (data.drop ICMP_HEADER_SIZE).take ICMP_MAX_DATA }

/-- What `icmp_time_exceeded_build` and `icmp_dest_unreachable_build` do after their checks of the code. -/
def icmpErrorBuild (type code : UInt8) (originalDatagram : Bytes) (room : Nat) : Except Int Bytes :=
  let embedded := originalDatagram.take (60 + 8)
  if ICMP_HEADER_SIZE + embedded.length > room then .error (-3)
  else .ok (sealed ([type, code, 0, 0, 0, 0, 0, 0] ++ embedded))

def icmpTimeExceededBuild (code : UInt8) (originalDatagram : Bytes) (room : Nat) : Except Int Bytes :=
  if code ≠ ICMP_CODE_TTL_EXCEEDED ∧ code ≠ ICMP_CODE_FRAG_REASSEMBLY_TIMEOUT then .error (-2)
  else icmpErrorBuild ICMP_TYPE_TIME_EXCEEDED code originalDatagram room

def icmpDestUnreachableBuild (code : UInt8) (originalDatagram : Bytes) (room : Nat) : Except Int Bytes :=
  if code > 15 then .error (-2) else icmpErrorBuild ICMP_TYPE_DEST_UNREACHABLE code originalDatagram room

section Checksum

variable {data before after rest : Bytes} {high low : UInt8}

/-- The longest data whose sum the accumulator of 32 bits holds. -/
def longest : Nat := 131074

theorem toNat_widen (byte : UInt8) : (widen 32 byte).toNat = byte.toNat := by
  rw [widen, BitVec.toNat_setWidth, UInt8.toNat_toBitVec]
  exact Nat.mod_eq_of_lt (Nat.lt_trans byte.toNat_lt (by decide))

theorem toNat_word (high low : UInt8) :
    (widen 32 high <<< 8 ||| widen 32 low).toNat = 256 * high.toNat + low.toNat := by
  have bound := high.toNat_lt
  have wide : (widen 32 high).toNat * 256 + 256 ≤ 2 ^ 32 := by
    rw [toNat_widen]
    omega
  have pushed := Base64.toNat_push (widen 32 high) low wide
  rw [push, toNat_widen] at pushed
  rw [pushed, Nat.mul_comm]

theorem toNat_checksumWords (sum : BitVec 32) (data : Bytes) :
    (checksumWords sum data).toNat = (sum.toNat + wordSum data) % 2 ^ 32 := by
  induction data using wordSum.induct generalizing sum with
  | case1 high low rest ih =>
    rw [checksumWords, ih, BitVec.toNat_add, toNat_word, wordSum, Nat.mod_add_mod]
    congr 1
    omega
  | case2 last =>
    have bound := last.toNat_lt
    rw [checksumWords, wordSum, BitVec.toNat_add, BitVec.toNat_shiftLeft, toNat_widen, Nat.shiftLeft_eq,
      Nat.mod_eq_of_lt (a := last.toNat * 2 ^ 8) (by omega), Nat.mul_comm]
  | case3 =>
    rw [checksumWords, wordSum]
    exact (Nat.mod_eq_of_lt sum.isLt).symm

theorem foldCarries_carry (sum : BitVec 32) : (foldCarries sum).toNat = carry sum.toNat := toNat_foldCarries sum

theorem wordSum_small (short : data.length ≤ longest) : wordSum data < 2 ^ 32 := by
  have bound := wordSum_le data
  rw [longest] at short
  omega

theorem toNat_icmpChecksum (short : data.length ≤ longest) :
    (icmpChecksum data).toNat = 65535 - carried (wordSum data) := by
  have small := wordSum_small short
  have bound := carried_lt small
  have start : (0 : BitVec 32).toNat = 0 := rfl
  have total : (foldCarries (foldCarries (foldCarries (checksumWords 0 data)))).toNat = carried (wordSum data) := by
    rw [foldCarries_carry, foldCarries_carry, foldCarries_carry, toNat_checksumWords, start, Nat.zero_add,
      Nat.mod_eq_of_lt small, carried]
  rw [icmpChecksum, ipChecksum, BitVec.toNat_setWidth, BitVec.toNat_not, total]
  omega

/-- A message is accepted exactly if its words add up to a multiple of 65535 other than zero. -/
theorem icmpChecksumVerify_iff (short : data.length ≤ longest) :
    icmpChecksumVerify data = true ↔ ICMP_HEADER_SIZE ≤ data.length ∧ wordSum data ≠ 0 ∧ wordSum data % 65535 = 0 := by
  have small := wordSum_small short
  have bound := carried_lt small
  unfold icmpChecksumVerify
  split
  · rename_i tooShort
    exact ⟨nofun, fun valid => absurd valid.1 (Nat.not_le_of_lt tooShort)⟩
  · rename_i enough
    have zero : (0 : BitVec 16).toNat = 0 := rfl
    rw [decide_eq_true_iff, ← BitVec.toNat_inj, toNat_icmpChecksum short, zero, ← carried_eq_top small,
      and_iff_right (Nat.le_of_not_lt enough)]
    omega

/-- A change of one word goes undetected exactly if it sets all bits of a zero word, or clears them and leaves something
in the message. -/
theorem icmpChecksumVerify_detects (even : before.length % 2 = 0) (high low changedHigh changedLow : UInt8)
    (short : (before ++ high :: low :: after).length ≤ longest)
    (sent : icmpChecksumVerify (before ++ high :: low :: after) = true) :
    icmpChecksumVerify (before ++ changedHigh :: changedLow :: after) = true ↔
      (changedHigh = high ∧ changedLow = low) ∨
      ([high, low] = [0, 0] ∧ [changedHigh, changedLow] = [0xFF, 0xFF]) ∨
      ([high, low] = [0xFF, 0xFF] ∧ [changedHigh, changedLow] = [0, 0] ∧ wordSum before + wordSum after ≠ 0) := by
  have same : (before ++ changedHigh :: changedLow :: after).length = (before ++ high :: low :: after).length := by
    rw [List.length_append, List.length_append]
    rfl
  obtain ⟨long, some, valid⟩ := (icmpChecksumVerify_iff short).mp sent
  rw [icmpChecksumVerify_iff (same ▸ short), same, and_iff_right long, wordSum_word even]
  rw [wordSum_word even] at some valid
  have h1 := high.toNat_lt
  have h2 := low.toNat_lt
  have h3 := changedHigh.toNat_lt
  have h4 := changedLow.toNat_lt
  simp only [List.cons.injEq, and_true, ← UInt8.toNat_inj]
  have zero : (0 : UInt8).toNat = 0 := rfl
  have top : (0xFF : UInt8).toNat = 255 := rfl
  rw [zero, top]
  generalize wordSum before + wordSum after = others at some valid ⊢
  constructor
  · rintro ⟨someToo, validToo⟩
    rcases word_unique (by omega) (by omega) valid validToo with equal | ⟨clear, set⟩ | ⟨set, clear⟩
    · omega
    · omega
    · omega
  · rintro (⟨sameHigh, sameLow⟩ | ⟨clear, set⟩ | ⟨set, clear, left⟩)
    · rw [sameHigh, sameLow]
      exact ⟨some, valid⟩
    · omega
    · omega

/-- An empty echo request whose identifier is changed from zero to all ones. -/
theorem zeroIdentifier_undetected : icmpChecksumVerify [8, 0, 0xF7, 0xFF, 0xFF, 0xFF, 0, 0] = true := by
  have sent : icmpChecksumVerify ([8, 0, 0xF7, 0xFF] ++ 0 :: 0 :: [0, 0]) = true := by decide
  exact (icmpChecksumVerify_detects rfl 0 0 0xFF 0xFF (by decide) sent).mpr (.inr (.inl ⟨rfl, rfl⟩))

/-- The field of the checksum in a sealed message. -/
theorem sealed_eq (type code : UInt8) (rest : Bytes) : sealed (type :: code :: 0 :: 0 :: rest) =
    type :: code :: byteOf (icmpChecksum (type :: code :: 0 :: 0 :: rest)) 8 ::
      byteOf (icmpChecksum (type :: code :: 0 :: 0 :: rest)) 0 :: rest := rfl

theorem toNat_bytes (word : BitVec 16) : 256 * (byteOf word 8).toNat + (byteOf word 0).toNat = word.toNat := by
  have whole := congrArg BitVec.toNat (u16_bytes word)
  have high : (byteOf word 8).toNat = word.toNat / 256 := by
    rw [byteOf, UInt8.toNat_ofBitVec, BitVec.toNat_setWidth, BitVec.toNat_ushiftRight, Nat.shiftRight_eq_div_pow]
    have bound := word.isLt
    omega
  rw [high, toNat_byteOf_zero]
  omega

/-- A sealed message is accepted. -/
theorem sealed_verifies (type code : UInt8) (enough : 4 ≤ rest.length) (short : rest.length + 4 ≤ longest) :
    icmpChecksumVerify (sealed (type :: code :: 0 :: 0 :: rest)) = true := by
  have shortToo : (type :: code :: 0 :: 0 :: rest).length ≤ longest := short
  have small := wordSum_small shortToo
  obtain ⟨valid, some⟩ := complement_valid (wordSum (type :: code :: 0 :: 0 :: rest)) small
  have cleared : wordSum (type :: code :: 0 :: 0 :: rest) = 256 * type.toNat + code.toNat + wordSum rest := by
    rw [wordSum, wordSum]
    simp
  have total : wordSum (sealed (type :: code :: 0 :: 0 :: rest)) = wordSum (type :: code :: 0 :: 0 :: rest) +
      (65535 - carried (wordSum (type :: code :: 0 :: 0 :: rest))) := by
    rw [sealed_eq, wordSum, wordSum, toNat_bytes, toNat_icmpChecksum shortToo, cleared]
    omega
  have shortSealed : (sealed (type :: code :: 0 :: 0 :: rest)).length ≤ longest := short
  rw [icmpChecksumVerify_iff shortSealed, total]
  exact ⟨Nat.add_le_add_right enough 4, some, valid⟩

end Checksum

section Echo

variable {identifier seqNum : BitVec 16} {payload : Bytes} {room : Nat}

/-- What is behind the checksum of an echo message. -/
def echoRest (identifier seqNum : BitVec 16) (payload : Bytes) : Bytes :=
  byteOf identifier 8 :: byteOf identifier 0 :: byteOf seqNum 8 :: byteOf seqNum 0 :: payload

theorem icmpEchoParse_sealed (type code : UInt8) (identifier seqNum : BitVec 16)
    (fits : payload.length ≤ ICMP_MAX_DATA) : ∃ checksum,
      icmpEchoParse (sealed (type :: code :: 0 :: 0 :: echoRest identifier seqNum payload)) =
        some ⟨type, code, checksum, identifier, seqNum, payload⟩ := by
  rw [sealed_eq]
  refine ⟨icmpChecksum (type :: code :: 0 :: 0 :: echoRest identifier seqNum payload), ?_⟩
  have whole : ∀ word : BitVec 16, joinBytes 16 [byteOf word 8, byteOf word 0] = word := by
    intro word
    rw [joinBytes_two, u16_bytes]
  have long : ∀ high low : UInt8, ¬ (type :: code :: high :: low :: echoRest identifier seqNum payload).length <
      ICMP_HEADER_SIZE := fun _ _ => Nat.not_lt.mpr (Nat.le_add_left 8 _)
  unfold icmpEchoParse
  rw [if_neg (long _ _)]
  simp only [echoRest, ICMP_HEADER_SIZE, List.drop_succ_cons, List.drop_zero, List.take_succ_cons, List.take_zero, whole,
    List.take_of_length_le fits, List.getD_cons_zero, List.getD_cons_succ]

/-- An echo request that is built is accepted and read back, and so is the reply to it. -/
theorem icmpEcho_answered (identifier seqNum : BitVec 16) (fits : payload.length ≤ ICMP_MAX_DATA)
    (roomy : ICMP_HEADER_SIZE + payload.length ≤ room) :
    ∃ request reply checksum replyChecksum,
      icmpEchoBuild identifier seqNum payload room = .ok request ∧
      icmpChecksumVerify request = true ∧
      icmpEchoParse request = some ⟨ICMP_TYPE_ECHO_REQUEST, 0, checksum, identifier, seqNum, payload⟩ ∧
      icmpEchoReply request room = .ok reply ∧
      icmpChecksumVerify reply = true ∧
      icmpEchoParse reply = some ⟨ICMP_TYPE_ECHO_REPLY, 0, replyChecksum, identifier, seqNum, payload⟩ := by
  have enough : 4 ≤ (echoRest identifier seqNum payload).length := Nat.le_add_left _ _
  have short : (echoRest identifier seqNum payload).length + 4 ≤ longest := by
    rw [ICMP_MAX_DATA] at fits
    exact Nat.le_trans (Nat.add_le_add_right fits 8) (by decide)
  obtain ⟨checksum, parsed⟩ := icmpEchoParse_sealed ICMP_TYPE_ECHO_REQUEST 0 identifier seqNum fits
  obtain ⟨replyChecksum, parsedReply⟩ := icmpEchoParse_sealed ICMP_TYPE_ECHO_REPLY 0 identifier seqNum fits
  refine ⟨_, _, checksum, replyChecksum, ?_, sealed_verifies _ _ enough short, parsed, ?_, sealed_verifies _ _ enough short,
    parsedReply⟩
  · unfold icmpEchoBuild
    rw [if_neg (Nat.not_lt.mpr fits), if_neg (Nat.not_lt.mpr roomy)]
    rfl
  · have sized : (sealed (ICMP_TYPE_ECHO_REQUEST :: 0 :: 0 :: 0 :: echoRest identifier seqNum payload)).length =
        ICMP_HEADER_SIZE + payload.length := Nat.add_comm payload.length 8
    unfold icmpEchoReply
    rw [sized, if_neg (Nat.not_lt.mpr (Nat.le_add_right _ _)), if_neg, if_neg (Nat.not_lt.mpr roomy)]
    · rfl
    · exact not_not.mpr rfl

/-- Error messages are accepted, too, and carry the start of the datagram that they are about. -/
theorem icmpErrorBuild_verifies (type code : UInt8) (originalDatagram : Bytes) {packet : Bytes}
    (built : icmpErrorBuild type code originalDatagram room = .ok packet) :
    icmpChecksumVerify packet = true ∧ (packet.getD 0 0, packet.getD 1 0) = (type, code) ∧
      packet.drop ICMP_HEADER_SIZE = originalDatagram.take 68 := by
  unfold icmpErrorBuild at built
  dsimp only at built
  split at built
  · cases built
  · cases built
    have bound : (originalDatagram.take (60 + 8)).length ≤ 68 := List.length_take_le _ _
    refine ⟨sealed_verifies type code (Nat.le_add_left 4 _) ?_, rfl, rfl⟩
    exact Nat.le_trans (Nat.add_le_add_right bound 8) (by decide)

theorem ping_answered :
    ∃ request reply checksum replyChecksum,
      icmpEchoBuild 1 7 [0x70, 0x69, 0x6E] 64 = .ok request ∧
      icmpChecksumVerify request = true ∧
      icmpEchoParse request = some ⟨ICMP_TYPE_ECHO_REQUEST, 0, checksum, 1, 7, [0x70, 0x69, 0x6E]⟩ ∧
      icmpEchoReply request 64 = .ok reply ∧
      icmpChecksumVerify reply = true ∧
      icmpEchoParse reply = some ⟨ICMP_TYPE_ECHO_REPLY, 0, replyChecksum, 1, 7, [0x70, 0x69, 0x6E]⟩ :=
  icmpEcho_answered 1 7 (by decide) (by decide)

end Echo

end MiniNetDist.NetworkBase.Icmp
