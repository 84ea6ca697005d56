import MiniNetDist.Library.XorSpan
import MiniNetDist.RpcFramework.Frame
import Mathlib.Data.List.TakeWhile

/-! Which bursts of errors the frames of `mini-rpc-framework/src/rpc_protocol.c` let pass. The CRC divides the bits of a
byte from the lowest one up, but the bytes of a frame are sent from the highest bit down, and so is the CRC itself:
a window of 32 bits that starts inside a byte is no burst of 32 bits for the division. -/

namespace MiniNetDist.RpcFramework

open Library

section Errors

/-- Change the bits that are set in the error. -/
def flipBits (bytes error : Bytes) : Bytes := List.zipWith (· ^^^ ·) bytes error

/-- A bit of a frame: bytes in order, the most significant bit first. -/
def bitAt (bytes : Bytes) (place : Nat) : Bool := (bytes.getD (place / 8) 0).toBitVec.getLsbD (7 - place % 8)

/-- Some bits were changed, all of them in one window of 32 bits. -/
structure Burst (sent received : Bytes) : Prop where
  length_eq : received.length = sent.length
  changed : ∃ place, bitAt sent place ≠ bitAt received place
  window : ∃ start, ∀ place, bitAt sent place ≠ bitAt received place → start ≤ place ∧ place < start + 32

/-- What an error adds to the difference of the CRC that is computed and the one that is stored. -/
def syndrome (error : Bytes) : BitVec 32 :=
  Crc.remainder crc32Polynomial 0#32 (error.take (error.length - RPC_PROTO_CRC_SIZE)) ^^^
    readU32be (error.drop (error.length - RPC_PROTO_CRC_SIZE))

@[simp] theorem length_flipBits {bytes error : Bytes} (same : bytes.length = error.length) :
    (flipBits bytes error).length = error.length := by
  rw [flipBits, List.length_zipWith, same, Nat.min_self]

theorem xor_xor_cancel (byte second : UInt8) : byte ^^^ (byte ^^^ second) = second := by
  rw [← UInt8.xor_assoc, UInt8.xor_self, UInt8.zero_xor]

theorem flipBits_flipBits {bytes other : Bytes} (same : bytes.length = other.length) :
    flipBits bytes (flipBits bytes other) = other := by
  induction bytes generalizing other with
  | nil => exact (List.length_eq_zero_iff.mp same.symm).symm
  | cons byte rest ih =>
    cases other with
    | nil => cases same
    | cons second others =>
      rw [flipBits, flipBits, List.zipWith_cons_cons, List.zipWith_cons_cons, xor_xor_cancel]
      exact congrArg (second :: ·) (ih (Nat.succ.inj same))

theorem byteOf_xor {n : Nat} (left right : BitVec n) (shift : Nat) :
    byteOf (left ^^^ right) shift = byteOf left shift ^^^ byteOf right shift := by
  apply UInt8.toBitVec_inj.mp
  rw [UInt8.toBitVec_xor]
  apply BitVec.eq_of_getLsbD_eq
  intro i bound
  rw [BitVec.getLsbD_xor, getLsbD_byteOf, getLsbD_byteOf, getLsbD_byteOf, BitVec.getLsbD_xor]
  cases decide (i < 8) <;> simp

theorem readU32be_flipBits {bytes error : Bytes} (same : bytes.length = error.length) (long : 4 ≤ error.length) :
    readU32be (flipBits bytes error) = readU32be bytes ^^^ readU32be error := by
  have word (left right : BitVec 32) : writeU32be (left ^^^ right) = flipBits (writeU32be left) (writeU32be right) := by
    simp only [writeU32be, flipBits, List.zipWith_cons_cons, List.zipWith_nil_left, byteOf_xor]
  have first : flipBits bytes error = flipBits (bytes.take 4) (error.take 4) ++ flipBits (bytes.drop 4) (error.drop 4) := by
    rw [flipBits, flipBits, flipBits, ← List.zipWith_append (by rw [List.length_take, List.length_take, same]),
      List.take_append_drop, List.take_append_drop]
  rw [first, ← writeU32be_readU32be (by omega), ← writeU32be_readU32be long, ← word, readU32be_writeU32be]

theorem syndrome_flipBits {bytes error : Bytes} (same : bytes.length = error.length) (long : 4 ≤ error.length) :
    syndrome (flipBits bytes error) = syndrome bytes ^^^ syndrome error := by
  have size : RPC_PROTO_CRC_SIZE = 4 := rfl
  have front := Crc.remainder_xor crc32Polynomial
    (show (bytes.take (error.length - 4)).length = (error.take (error.length - 4)).length by
      rw [List.length_take, List.length_take, same]) 0#32 0#32
  have back := readU32be_flipBits
    (show (bytes.drop (error.length - 4)).length = (error.drop (error.length - 4)).length by
      rw [List.length_drop, List.length_drop, same]) (by rw [List.length_drop]; omega)
  rw [BitVec.xor_self] at front
  rw [flipBits, ← List.drop_zipWith] at back
  rw [← List.take_zipWith] at front
  rw [syndrome, syndrome, syndrome, length_flipBits same, same, size, flipBits, front, back]
  ac_rfl

/-- Zeros before an error change nothing. -/
theorem syndrome_zeros_append (count : Nat) {error : Bytes} (long : 4 ≤ error.length) :
    syndrome (List.replicate count 0 ++ error) = syndrome error := by
  have size : RPC_PROTO_CRC_SIZE = 4 := rfl
  have length : (List.replicate count (0 : UInt8) ++ error).length - 4 = count + (error.length - 4) := by
    rw [List.length_append, List.length_replicate]
    omega
  have zeros : Crc.remainder crc32Polynomial 0#32 (List.replicate count 0) = 0#32 :=
    (Crc.remainder_zeros_eq_zero_iff (by decide) 0#32 count).mpr rfl
  have before : (List.replicate count (0 : UInt8)).length ≤ count + (error.length - 4) := by
    rw [List.length_replicate]
    omega
  rw [syndrome, size, length, List.take_append, List.drop_append, List.take_of_length_le before,
    List.drop_eq_nil_of_le before, List.nil_append, List.length_replicate, Nat.add_sub_cancel_left, Crc.remainder_append,
    zeros, syndrome, size]

/-- Of the zeros after an error only those in the stored CRC count. -/
theorem syndrome_append_zeros_iff (error : Bytes) {count : Nat} (enough : 4 ≤ count) :
    syndrome (error ++ List.replicate count 0) = 0#32 ↔ syndrome (error ++ List.replicate 4 0) = 0#32 := by
  have size : RPC_PROTO_CRC_SIZE = 4 := rfl
  have each (further : Nat) : syndrome (error ++ List.replicate (further + 4) 0) = 0#32 ↔
      Crc.remainder crc32Polynomial 0#32 error = 0#32 := by
    have length : (error ++ List.replicate (further + 4) (0 : UInt8)).length - 4 = error.length + further := by
      rw [List.length_append, List.length_replicate]
      omega
    have stored : readU32be (List.replicate 4 0) = 0#32 := by decide
    rw [syndrome, size, length, List.take_append, List.drop_append, List.take_of_length_le (by omega),
      List.drop_eq_nil_of_le (by omega), Nat.add_sub_cancel_left, List.take_replicate, List.drop_replicate,
      Nat.min_eq_left (by omega), Nat.add_sub_cancel_left, List.nil_append, stored, BitVec.xor_zero, Crc.remainder_append,
      Crc.remainder_zeros_eq_zero_iff (by decide)]
  have split : count = count - 4 + 4 := by omega
  rw [split, each, ← each 0]

end Errors

section Kernel

/-- The bytes of a word, the most significant one first. -/
def fiveBytes (word : BitVec 40) : Bytes := [byteOf word 32, byteOf word 24, byteOf word 16, byteOf word 8, byteOf word 0]

/-- An error in five bytes of a frame, with `after` bytes behind them, and its syndrome. -/
def withSyndrome (after : Nat) (word : BitVec 40) : BitVec 72 :=
  word ++ syndrome (fiveBytes word ++ List.replicate after 0)

def errorOf (pair : BitVec 72) : BitVec 40 := (pair.ushiftRight 32).setWidth 40

/-- The bits of five bytes that are not in the window of 32 bits from `offset` on. -/
def outside (offset : Nat) : List Nat :=
  (List.range (8 - offset)).map (32 + ·) ++ (List.range offset).map (72 - offset + ·)

def InWindow (offset : Nat) (word : BitVec 40) : Prop :=
  ∀ i < 40, word.getLsbD i = true → 8 - offset ≤ i ∧ i < 40 - offset

/-- Compute the errors in a window that have no syndrome, and whether all of them are known. -/
def allKnown (after : Nat) (known : BitVec 40 → Bool) : Bool :=
  XorSpan.settleAll ((List.range 40).map fun i => withSyndrome after (BitVec.twoPow 40 i)) fun words =>
    XorSpan.settleAll (XorSpan.eliminate (List.range 32) words) fun unseen =>
      (List.range 9).all fun offset => XorSpan.settleAll (XorSpan.eliminate (outside offset) unseen) fun inside =>
        (XorSpan.span inside).all fun pair => pair = 0#72 || known (errorOf pair)

theorem fiveBytes_xor (left right : BitVec 40) :
    fiveBytes (left ^^^ right) = flipBits (fiveBytes left) (fiveBytes right) := by
  simp only [fiveBytes, flipBits, List.zipWith_cons_cons, List.zipWith_nil_left, byteOf_xor]

theorem withSyndrome_xor (after : Nat) (left right : BitVec 40) :
    withSyndrome after (left ^^^ right) = withSyndrome after left ^^^ withSyndrome after right := by
  have zeros : List.replicate after (0 : UInt8) = flipBits (List.replicate after 0) (List.replicate after 0) := by
    rw [flipBits, List.zipWith_replicate, Nat.min_self]
    rfl
  have joined : fiveBytes (left ^^^ right) ++ List.replicate after 0 =
      flipBits (fiveBytes left ++ List.replicate after 0) (fiveBytes right ++ List.replicate after 0) := by
    conv_lhs => rw [fiveBytes_xor, zeros]
    have five : (fiveBytes left).length = (fiveBytes right).length := rfl
    rw [flipBits, flipBits, flipBits, List.zipWith_append five]
  have long : 4 ≤ (fiveBytes right ++ List.replicate after 0).length := by
    have five : (fiveBytes right).length = 5 := rfl
    rw [List.length_append]
    omega
  rw [withSyndrome, joined, syndrome_flipBits (by rw [List.length_append, List.length_append]; rfl) long, withSyndrome,
    withSyndrome, BitVec.xor_append]

theorem errorOf_withSyndrome (after : Nat) (word : BitVec 40) : errorOf (withSyndrome after word) = word := by
  apply BitVec.eq_of_getLsbD_eq
  intro i bound
  rw [errorOf, BitVec.getLsbD_setWidth, BitVec.ushiftRight_eq, BitVec.getLsbD_ushiftRight, withSyndrome,
    BitVec.getLsbD_append, if_neg (by omega), Nat.add_sub_cancel_left]
  simp [bound]

/-- What the computation says about an error in a window that has no syndrome. -/
theorem known_of_allKnown {after offset : Nat} {known : BitVec 40 → Bool} {word : BitVec 40}
    (computed : allKnown after known = true) (small : offset < 9) (window : InWindow offset word)
    (unseen : syndrome (fiveBytes word ++ List.replicate after 0) = 0#32) : word = 0#40 ∨ known word = true := by
  rw [allKnown, XorSpan.settleAll_eq, XorSpan.settleAll_eq, List.all_eq_true] at computed
  have here := computed offset (List.mem_range.mpr small)
  rw [XorSpan.settleAll_eq, List.all_eq_true] at here
  have sum := XorSpan.map_mem_span (withSyndrome_xor after) (XorSpan.mem_span_bits word)
  rw [List.map_map] at sum
  have low : ∀ i ∈ List.range 32, (withSyndrome after word).getLsbD i = false := by
    intro i member
    rw [withSyndrome, BitVec.getLsbD_append, if_pos (List.mem_range.mp member), unseen, BitVec.getLsbD_zero]
  have high : ∀ i ∈ outside offset, (withSyndrome after word).getLsbD i = false := by
    intro i member
    have place : 32 ≤ i ∧ ¬ (8 - offset ≤ i - 32 ∧ i - 32 < 40 - offset) := by
      rcases List.mem_append.mp member with below | above
      · obtain ⟨k, inside, rfl⟩ := List.mem_map.mp below
        have := List.mem_range.mp inside
        omega
      · obtain ⟨k, inside, rfl⟩ := List.mem_map.mp above
        have := List.mem_range.mp inside
        omega
    rw [withSyndrome, BitVec.getLsbD_append, if_neg (by omega)]
    by_contra on
    rw [Bool.not_eq_false] at on
    exact place.2 (window (i - 32) (BitVec.lt_of_getLsbD on) on)
  have survives := here _ (XorSpan.mem_span_eliminate (XorSpan.mem_span_eliminate sum low) high)
  rw [Bool.or_eq_true, decide_eq_true_eq, errorOf_withSyndrome] at survives
  rcases survives with zero | known
  · have := congrArg errorOf zero
    rw [errorOf_withSyndrome] at this
    exact .inl this
  · exact .inr known

/-- The errors inside a frame that have no syndrome. -/
def innerPatterns : List Bytes :=
  [[0x05, 0x8F, 0xF4, 0x6A, 0x70], [0x0A, 0x1E, 0xE9, 0xD5, 0xE0], [0x0F, 0x91, 0x1D, 0xBF, 0x90]]

/-- The errors up to the end of a frame that have no syndrome. -/
def endPatterns : List Bytes :=
  [[0x01, 0x77, 0x07, 0x30, 0x96], [0x02, 0xEE, 0x0E, 0x61, 0x2C], [0x19, 0x64, 0x6B, 0xA8, 0xC0],
    [0x2B, 0xAC, 0xBC, 0xF9, 0x40], [0x32, 0xC8, 0xD7, 0x51, 0x80], [0x01, 0x64, 0x53, 0xC4, 0x94, 0],
    [0x02, 0xC8, 0xA7, 0x89, 0x28, 0], [0x03, 0xAC, 0xF4, 0x4D, 0xBC, 0], [0x16, 0x65, 0x21, 0x40, 0x20, 0],
    [0x2C, 0xCA, 0x42, 0x80, 0x40, 0], [0x61, 0xD8, 0xF4, 0xEE, 0, 0], [0x07, 0x54, 0x9F, 0xBB, 0x28, 0, 0],
    [0x15, 0x28, 0xBD, 0xF2, 0x60, 0, 0], [0x72, 0x25, 0x1D, 0xDC, 0x80, 0, 0], [0x01, 0x89, 0x80, 0xCF, 0x66, 0, 0, 0],
    [0x1A, 0xCB, 0x17, 0x9B, 0xC0, 0, 0, 0]]

/-- The pattern of an error up to the end of the frame, from its first byte on. -/
def endPattern (after : Nat) (word : BitVec 40) : Bytes := (fiveBytes word).dropWhile (· = 0) ++ List.replicate after 0

theorem inner_known : allKnown 4 (fun word => fiveBytes word ∈ innerPatterns) = true := by
  decide +kernel

theorem end_known : ∀ after < 4, allKnown after (fun word => endPattern after word ∈ endPatterns) = true := by
  decide +kernel

theorem inner_unseen : ∀ pattern ∈ innerPatterns, syndrome (pattern ++ List.replicate 4 0) = 0#32 ∧
    pattern.length = 5 ∧ ∀ i < 5, pattern.getD i 0 ≠ 0 := by
  decide +kernel

theorem end_unseen : ∀ pattern ∈ endPatterns, syndrome pattern = 0#32 ∧ 4 ≤ pattern.length ∧
    ∀ i < pattern.length - 4, pattern.getD i 0 ≠ 0 := by
  decide +kernel

end Kernel

section Windows

theorem getD_flipBits {bytes error : Bytes} (same : bytes.length = error.length) (i : Nat) :
    (flipBits bytes error).getD i 0 = bytes.getD i 0 ^^^ error.getD i 0 := by
  by_cases inside : i < error.length
  · rw [List.getD_eq_getElem _ _ (by rw [length_flipBits same]; exact inside), List.getD_eq_getElem _ _ (by omega),
      List.getD_eq_getElem _ _ inside]
    exact List.getElem_zipWith
  · rw [List.getD_eq_default _ _ (by rw [length_flipBits same]; omega), List.getD_eq_default _ _ (by omega),
      List.getD_eq_default _ _ (by omega)]
    rfl

/-- The bits of the error are those that were changed. -/
theorem bitAt_flipBits {sent received : Bytes} (same : sent.length = received.length) (place : Nat) :
    bitAt (flipBits sent received) place = true ↔ bitAt sent place ≠ bitAt received place := by
  rw [bitAt, getD_flipBits same, UInt8.toBitVec_xor, BitVec.getLsbD_xor]
  exact bne_iff_ne

theorem byte_eq_zero {bytes : Bytes} {i : Nat} (clear : ∀ k < 8, bitAt bytes (8 * i + k) = false) :
    bytes.getD i 0 = 0 := by
  apply UInt8.toBitVec_inj.mp
  apply BitVec.eq_of_getLsbD_eq
  intro k bound
  have bit := clear (7 - k) (by omega)
  have byte : (8 * i + (7 - k)) / 8 = i := by omega
  have place : 7 - (8 * i + (7 - k)) % 8 = k := by omega
  rw [bitAt, byte, place] at bit
  rw [bit]
  exact (BitVec.getLsbD_zero).symm

theorem fiveBytes_joinBytes (b0 b1 b2 b3 b4 : UInt8) :
    fiveBytes (joinBytes 40 [b0, b1, b2, b3, b4]) = [b0, b1, b2, b3, b4] :=
  bytesOf_joinBytes [b0, b1, b2, b3, b4] (Nat.le_refl 40)

/-- A bit of a word is a bit of one of its five bytes. -/
theorem getLsbD_eq_bitAt (word : BitVec 40) {i : Nat} (bound : i < 40) :
    word.getLsbD i = bitAt (fiveBytes word) (39 - i) := by
  have byte (k : Nat) (inside : k < 5) : (fiveBytes word).getD k 0 = byteOf word (8 * (4 - k)) := by
    match k, inside with
    | 0, _ => rfl
    | 1, _ => rfl
    | 2, _ => rfl
    | 3, _ => rfl
    | 4, _ => rfl
  rw [bitAt, byte _ (by omega), getLsbD_byteOf, decide_eq_true (by omega), Bool.true_and]
  congr 1
  omega

/-- An error in a window of 32 bits is an error in five bytes. -/
theorem exists_word {error : Bytes} {start : Nat} (long : 5 ≤ error.length)
    (window : ∀ place, bitAt error place = true → start ≤ place ∧ place < start + 32) :
    ∃ before word after offset, offset < 9 ∧ InWindow offset word ∧
      error = List.replicate before 0 ++ (fiveBytes word ++ List.replicate after 0) := by
  obtain ⟨before, first⟩ : ∃ before, before = min (start / 8) (error.length - 5) := ⟨_, rfl⟩
  have zero (i : Nat) (apart : 8 * i + 8 ≤ start ∨ start + 32 ≤ 8 * i) : error.getD i 0 = 0 := by
    refine byte_eq_zero fun k small => ?_
    by_contra on
    have := window (8 * i + k) (Bool.not_eq_false _ ▸ on)
    omega
  have bytes := fiveBytes_joinBytes (error.getD before 0) (error.getD (before + 1) 0) (error.getD (before + 2) 0)
    (error.getD (before + 3) 0) (error.getD (before + 4) 0)
  generalize joinBytes 40 _ = word at bytes
  have five : (fiveBytes word).length = 5 := rfl
  have byte (k : Nat) (inside : k < 5) : error.getD (before + k) 0 = (fiveBytes word).getD k 0 := by
    rw [bytes]
    match k, inside with
    | 0, _ => rfl
    | 1, _ => rfl
    | 2, _ => rfl
    | 3, _ => rfl
    | 4, _ => rfl
  have split : error = List.replicate before 0 ++ (fiveBytes word ++ List.replicate (error.length - 5 - before) 0) := by
    refine List.ext_getElem (by simp only [List.length_append, List.length_replicate, five]; omega) ?_
    intro i inside _
    rw [← List.getD_eq_getElem error 0 inside]
    by_cases early : i < before
    · rw [zero i (.inl (by omega)), List.getElem_append_left (by rw [List.length_replicate]; exact early),
        List.getElem_replicate]
    obtain ⟨k, rfl⟩ := Nat.exists_eq_add_of_le (Nat.le_of_not_lt early)
    rw [List.getElem_append_right (by rw [List.length_replicate]; omega)]
    simp only [List.length_replicate, Nat.add_sub_cancel_left]
    by_cases late : k < 5
    · rw [List.getElem_append_left (five ▸ late), byte k late, List.getD_eq_getElem _ 0 (five ▸ late)]
    · rw [zero (before + k) (.inr (by omega)), List.getElem_append_right (five ▸ Nat.le_of_not_lt late),
        List.getElem_replicate]
  refine ⟨before, word, error.length - 5 - before, min (start - 8 * before) 8, by omega, ?_, split⟩
  intro i bound on
  have place : bitAt error (8 * before + (39 - i)) = true := by
    rw [← on, getLsbD_eq_bitAt word bound, bitAt, bitAt]
    have same : (8 * before + (39 - i)) % 8 = (39 - i) % 8 := by omega
    have inByte : (8 * before + (39 - i)) / 8 = before + (39 - i) / 8 := by omega
    rw [same, inByte, byte ((39 - i) / 8) (by omega)]
  have := window _ place
  omega

end Windows

section Acceptance

/-- The stored CRC of a buffer is the one that is computed. -/
def Checks (data : Bytes) : Prop :=
  readU32be (data.drop (data.length - RPC_PROTO_CRC_SIZE)) = rpcCrc32Compute (data.take (data.length - RPC_PROTO_CRC_SIZE))

theorem readU32be_eq_iff {left right : Bytes} (leftLong : 4 ≤ left.length) (rightLong : 4 ≤ right.length) :
    readU32be left = readU32be right ↔ left.take 4 = right.take 4 := by
  constructor
  · intro same
    rw [← writeU32be_readU32be leftLong, ← writeU32be_readU32be rightLong, same]
  · intro same
    have short (data : Bytes) (long : 4 ≤ data.length) : readU32be data = readU32be (data.take 4 ++ []) := by
      rw [← writeU32be_readU32be long, readU32be_writeU32be]
    rw [short left leftLong, short right rightLong, same]

variable {frame : RPCProtoFrame} {payload sent received : Bytes}

/-- A buffer of the length of a frame is accepted if its magic number, its length field and its CRC are right. -/
theorem accepted_iff (small : payload.length ≤ RPC_PROTO_MAX_FRAME_SIZE - RPC_PROTO_OVERHEAD)
    (built : sent = (frame.complete payload).wire payload) (same : received.length = sent.length) :
    (∃ read content, rpcProtoFrameParse received = .ok (read, content)) ↔
      received.take 4 = sent.take 4 ∧ (received.drop 18).take 4 = (sent.drop 18).take 4 ∧ Checks received := by
  have sizes : RPC_PROTO_HEADER_SIZE = 22 ∧ RPC_PROTO_CRC_SIZE = 4 ∧ RPC_PROTO_OVERHEAD = 26 ∧
      RPC_PROTO_MAX_FRAME_SIZE = 16777216 := ⟨rfl, rfl, rfl, rfl⟩
  have length : sent.length = 26 + payload.length := by
    rw [built, RPCProtoFrame.length_wire]
    omega
  have header : RPCProtoFrame.ofHeader sent = frame.complete payload := by
    rw [built, RPCProtoFrame.wire, List.append_assoc, RPCProtoFrame.ofHeader_header]
  have magic : readU32be sent = RPC_PROTO_MAGIC := congrArg RPCProtoFrame.magic header
  have total : readU32be (sent.drop 18) = BitVec.ofNat 32 sent.length := by
    have field := congrArg RPCProtoFrame.frameLen header
    rw [built, RPCProtoFrame.length_wire, ← built]
    exact field
  have long (data : Bytes) (enough : 26 ≤ data.length) : 4 ≤ (data.drop 18).length := by
    rw [List.length_drop]
    omega
  rw [← readU32be_eq_iff (by omega) (by omega), ← readU32be_eq_iff (long _ (by omega)) (long _ (by omega)), magic, total,
    ← same]
  have value : (BitVec.ofNat 32 received.length).toNat = received.length := by
    rw [BitVec.toNat_ofNat, Nat.mod_eq_of_lt (by omega)]
  constructor
  · rintro ⟨read, content, parsed⟩
    obtain ⟨-, rfl, magicRead, -, lengthRead, -, crc, -⟩ := rpcProtoFrameParse_eq_ok_iff.mp parsed
    refine ⟨magicRead, lengthRead, ?_⟩
    rw [lengthRead, value] at crc
    have trailer : RPC_PROTO_HEADER_SIZE + (received.length - RPC_PROTO_OVERHEAD) = received.length - RPC_PROTO_CRC_SIZE := by
      omega
    rwa [trailer] at crc
  · rintro ⟨magicRead, lengthRead, crc⟩
    have field : (RPCProtoFrame.ofHeader received).frameLen.toNat = received.length :=
      (congrArg BitVec.toNat lengthRead).trans value
    refine ⟨_, _, rpcProtoFrameParse_eq_ok_iff.mpr ⟨by omega, rfl, magicRead, by omega, lengthRead, by omega, ?_, rfl⟩⟩
    have trailer : RPC_PROTO_HEADER_SIZE + (received.length - RPC_PROTO_OVERHEAD) = received.length - RPC_PROTO_CRC_SIZE := by
      omega
    rw [field, trailer]
    exact crc

/-- A frame that is not accepted is refused with an error code. -/
theorem refused_iff (long : RPC_PROTO_OVERHEAD ≤ received.length) (short : received.length < 2 ^ 32) :
    (∃ code, code ≠ 0 ∧ rpcProtoFrameParse received = .error (.code code)) ↔
      ¬ ∃ read content, rpcProtoFrameParse received = .ok (read, content) := by
  constructor
  · rintro ⟨code, -, refused⟩ ⟨read, content, parsed⟩
    rw [refused] at parsed
    cases parsed
  · intro none
    cases result : rpcProtoFrameParse received with
    | ok pair => exact absurd ⟨pair.1, pair.2, result⟩ none
    | error failure =>
      simp only [rpcProtoFrameParse] at result
      split_ifs at result with tooShort magic bounded length room crc
      · exact ⟨-1, by decide, congrArg Except.error (Except.error.inj result).symm⟩
      · exact ⟨-1, by decide, congrArg Except.error (Except.error.inj result).symm⟩
      · exact ⟨-2, by decide, congrArg Except.error (Except.error.inj result).symm⟩
      · exact ⟨-3, by decide, congrArg Except.error (Except.error.inj result).symm⟩
      · rw [Decidable.not_not.mp length, BitVec.toNat_ofNat, Nat.mod_eq_of_lt short] at room
        omega
      · exact ⟨-4, by decide, congrArg Except.error (Except.error.inj result).symm⟩

/-- The check of a frame with an error in it. -/
theorem checks_flipBits_iff {error : Bytes} (same : sent.length = error.length) (long : 4 ≤ error.length)
    (right : Checks sent) : Checks (flipBits sent error) ↔ syndrome error = 0#32 := by
  have size : RPC_PROTO_CRC_SIZE = 4 := rfl
  have front := Crc.remainder_xor crc32Polynomial
    (show (sent.take (error.length - 4)).length = (error.take (error.length - 4)).length by
      rw [List.length_take, List.length_take, same]) 0xFFFFFFFF#32 0#32
  have back := readU32be_flipBits
    (show (sent.drop (error.length - 4)).length = (error.drop (error.length - 4)).length by
      rw [List.length_drop, List.length_drop, same]) (by rw [List.length_drop]; omega)
  rw [BitVec.xor_zero, ← List.take_zipWith] at front
  rw [flipBits, ← List.drop_zipWith] at back
  rw [Checks, same, size, rpcCrc32Compute, rpcCrc32Finalize, rpcCrc32Update_eq] at right
  rw [Checks, length_flipBits same, size, rpcCrc32Compute, rpcCrc32Finalize, rpcCrc32Update_eq, flipBits, front, back,
    right, syndrome, size]
  generalize Crc.remainder crc32Polynomial 0xFFFFFFFF#32 (sent.take (error.length - 4)) = computed
  generalize Crc.remainder crc32Polynomial 0#32 (error.take (error.length - 4)) = change
  generalize readU32be (error.drop (error.length - 4)) = stored
  have sorted : computed ^^^ change ^^^ 0xFFFFFFFF#32 = computed ^^^ 0xFFFFFFFF#32 ^^^ change := by
    rw [BitVec.xor_assoc, BitVec.xor_comm change, BitVec.xor_assoc]
  rw [sorted, BitVec.xor_right_inj, BitVec.xor_eq_zero_iff, eq_comm]

/-- A part of a frame is as it was sent if the error has only zeros there. -/
theorem part_flipBits_eq_iff {error : Bytes} (same : sent.length = error.length) (start count : Nat) :
    ((flipBits sent error).drop start).take count = (sent.drop start).take count ↔
      ∀ i, start ≤ i → i < start + count → error.getD i 0 = 0 := by
  have part (data : Bytes) (i : Nat) (early : start ≤ i) (late : i < start + count) :
      ((data.drop start).take count).getD (i - start) 0 = data.getD i 0 := by
    rw [List.getD_eq_getElem?_getD, List.getElem?_take_of_lt (by omega), List.getElem?_drop, Nat.add_sub_cancel' early,
      List.getD_eq_getElem?_getD]
  constructor
  · intro equal i early late
    have byte := congrArg (·.getD (i - start) 0) equal
    simp only [part _ i early late, getD_flipBits same] at byte
    rw [← xor_xor_cancel (sent.getD i 0) (error.getD i 0), byte, UInt8.xor_self]
  · intro zero
    refine List.ext_getElem (by simp [length_flipBits same, same]) ?_
    intro i inside _
    have late : i < count := Nat.lt_of_lt_of_le inside (List.length_take_le ..)
    rw [← List.getD_eq_getElem _ 0, ← List.getD_eq_getElem _ 0]
    have place := part (flipBits sent error) (start + i) (by omega) (by omega)
    have before := part sent (start + i) (by omega) (by omega)
    rw [Nat.add_sub_cancel_left] at place before
    rw [place, before, getD_flipBits same, zero (start + i) (by omega) (by omega), UInt8.xor_zero]

end Acceptance

section Detection

/-- The errors that the check of a frame does not see: a pattern before the stored CRC, outside the magic number and the
length field, or a pattern that ends with the frame. -/
inductive Missed : Bytes → Prop where
  | inside {pattern : Bytes} {before after : Nat} (known : pattern ∈ innerPatterns) (magic : 4 ≤ before)
      (lengthField : before + 5 ≤ 18 ∨ 22 ≤ before) (trailer : 4 ≤ after) :
      Missed (List.replicate before 0 ++ (pattern ++ List.replicate after 0))
  | atEnd {pattern : Bytes} {before : Nat} (known : pattern ∈ endPatterns) (header : 22 ≤ before) :
      Missed (List.replicate before 0 ++ pattern)

/-- The magic number and the length field are as they were sent, and the check is. -/
structure Unseen (error : Bytes) : Prop where
  magic : ∀ i, 0 ≤ i → i < 0 + 4 → error.getD i 0 = 0
  lengthField : ∀ i, 18 ≤ i → i < 18 + 4 → error.getD i 0 = 0
  check : syndrome error = 0#32

theorem getD_zeros_append (before : Nat) (bytes : Bytes) (i : Nat) :
    (List.replicate before 0 ++ bytes).getD i 0 = if before ≤ i then bytes.getD (i - before) 0 else 0 := by
  by_cases late : before ≤ i
  · rw [if_pos late, List.getD_append_right _ _ _ _ (by rw [List.length_replicate]; exact late), List.length_replicate]
  · rw [if_neg late, List.getD_append _ _ _ _ (by rw [List.length_replicate]; omega), List.getD_eq_getElem?_getD,
      List.getElem?_getD_replicate_default_eq]

theorem getD_append_zeros (bytes : Bytes) (after i : Nat) : (bytes ++ List.replicate after 0).getD i 0 = bytes.getD i 0 := by
  by_cases early : i < bytes.length
  · rw [List.getD_append _ _ _ _ early]
  · rw [List.getD_append_right _ _ _ _ (by omega), List.getD_eq_default bytes _ (by omega), List.getD_eq_getElem?_getD,
      List.getElem?_getD_replicate_default_eq]

/-- Every byte of an inner pattern is changed, so the pattern misses the magic number and the length field. -/
theorem unseen_inside_iff {pattern : Bytes} {before after : Nat} (known : pattern ∈ innerPatterns) (trailer : 4 ≤ after) :
    Unseen (List.replicate before 0 ++ (pattern ++ List.replicate after 0)) ↔
      4 ≤ before ∧ (before + 5 ≤ 18 ∨ 22 ≤ before) := by
  obtain ⟨check, length, bytes⟩ := inner_unseen pattern known
  have byte (i : Nat) : (List.replicate before 0 ++ (pattern ++ List.replicate after 0)).getD i 0 =
      if before ≤ i then pattern.getD (i - before) 0 else 0 := by
    rw [getD_zeros_append, getD_append_zeros]
  have changed (i : Nat) (early : before ≤ i) (late : i < before + 5) :
      (List.replicate before 0 ++ (pattern ++ List.replicate after 0)).getD i 0 ≠ 0 := by
    rw [byte, if_pos early]
    exact bytes _ (by omega)
  have kept (i : Nat) (apart : i < before ∨ before + 5 ≤ i) :
      (List.replicate before 0 ++ (pattern ++ List.replicate after 0)).getD i 0 = 0 := by
    rw [byte]
    split
    · exact List.getD_eq_default _ _ (by omega)
    · rfl
  constructor
  · rintro ⟨magic, lengthField, -⟩
    constructor
    · by_contra low
      exact changed before (by omega) (by omega) (magic before (by omega) (by omega))
    · by_contra overlap
      exact changed (max before 18) (by omega) (by omega) (lengthField (max before 18) (by omega) (by omega))
  · rintro ⟨magic, lengthField⟩
    refine ⟨fun i _ late => kept i (by omega), fun i early late => kept i (by omega), ?_⟩
    rw [syndrome_zeros_append _ (by rw [List.length_append]; omega), syndrome_append_zeros_iff _ trailer]
    exact check

/-- The first byte of a pattern that ends with the frame is before the stored CRC, or the pattern is inside it. -/
theorem unseen_atEnd_iff {pattern : Bytes} {before : Nat} (known : pattern ∈ endPatterns)
    (long : 26 ≤ before + pattern.length) : Unseen (List.replicate before 0 ++ pattern) ↔ 22 ≤ before := by
  obtain ⟨check, length, bytes⟩ := end_unseen pattern known
  constructor
  · rintro ⟨-, lengthField, -⟩
    by_contra low
    have zero := lengthField (max before 18) (by omega) (by omega)
    rw [getD_zeros_append, if_pos (by omega)] at zero
    exact bytes _ (by omega) zero
  · intro header
    have kept (i : Nat) (early : i < before) : (List.replicate before 0 ++ pattern).getD i 0 = 0 := by
      rw [getD_zeros_append, if_neg (by omega)]
    refine ⟨fun i _ late => kept i (by omega), fun i _ late => kept i (by omega), ?_⟩
    rw [syndrome_zeros_append _ length]
    exact check

/-- The zeros that an error begins with can be counted to the zeros before it. -/
theorem exists_endPattern (before after : Nat) (word : BitVec 40) :
    ∃ first, List.replicate before 0 ++ (fiveBytes word ++ List.replicate after 0) =
      List.replicate first 0 ++ endPattern after word := by
  have zeros : (fiveBytes word).takeWhile (· = 0) = List.replicate ((fiveBytes word).takeWhile (· = 0)).length 0 := by
    refine List.eq_replicate_of_mem fun byte member => ?_
    have zero := List.mem_takeWhile_imp member
    exact of_decide_eq_true zero
  refine ⟨before + ((fiveBytes word).takeWhile (· = 0)).length, ?_⟩
  conv_lhs => rw [← List.takeWhile_append_dropWhile (p := (· = 0)) (l := fiveBytes word), zeros]
  rw [endPattern, ← List.replicate_append_replicate, List.append_assoc, List.append_assoc]

theorem word_ne_zero {before after : Nat} {word : BitVec 40}
    (changed : ∃ place, bitAt (List.replicate before 0 ++ (fiveBytes word ++ List.replicate after 0)) place = true) :
    word ≠ 0#40 := by
  rintro rfl
  obtain ⟨place, on⟩ := changed
  have zeros : fiveBytes 0#40 = [] ++ List.replicate 5 0 := by decide
  have byte : (List.replicate before 0 ++ (fiveBytes 0#40 ++ List.replicate after 0)).getD (place / 8) 0 = 0 := by
    rw [getD_zeros_append, getD_append_zeros, zeros, getD_append_zeros]
    split
    · rfl
    · rfl
  rw [bitAt, byte] at on
  exact absurd on (by rw [UInt8.toBitVec_zero, BitVec.getLsbD_zero]; decide)

/-- The errors in one window that are not seen are the listed ones. -/
theorem unseen_iff_missed {error : Bytes} {start : Nat} (long : 26 ≤ error.length)
    (changed : ∃ place, bitAt error place = true)
    (window : ∀ place, bitAt error place = true → start ≤ place ∧ place < start + 32) : Unseen error ↔ Missed error := by
  constructor
  · intro unseen
    obtain ⟨before, word, after, offset, small, inside, rfl⟩ := exists_word (by omega) window
    have nonzero := word_ne_zero changed
    have five : (fiveBytes word).length = 5 := rfl
    have check := unseen.check
    rw [syndrome_zeros_append _ (by rw [List.length_append]; omega)] at check
    by_cases trailer : 4 ≤ after
    · rw [syndrome_append_zeros_iff _ trailer] at check
      have known := (known_of_allKnown inner_known small inside check).resolve_left nonzero
      obtain ⟨magic, lengthField⟩ := (unseen_inside_iff (of_decide_eq_true known) trailer).mp unseen
      exact .inside (of_decide_eq_true known) magic lengthField trailer
    · have known := (known_of_allKnown (end_known after (by omega)) small inside check).resolve_left nonzero
      obtain ⟨first, split⟩ := exists_endPattern before after word
      rw [split] at unseen long ⊢
      rw [List.length_append, List.length_replicate] at long
      exact .atEnd (of_decide_eq_true known) ((unseen_atEnd_iff (of_decide_eq_true known) long).mp unseen)
  · intro missed
    cases missed with
    | inside known magic lengthField trailer => exact (unseen_inside_iff known trailer).mpr ⟨magic, lengthField⟩
    | atEnd known header =>
      rw [List.length_append, List.length_replicate] at long
      exact (unseen_atEnd_iff known long).mpr header

variable {frame : RPCProtoFrame} {payload sent received : Bytes}

/-- A frame with an error in it is accepted if the error is not seen. -/
theorem accepted_flipBits_iff {error : Bytes} (small : payload.length ≤ RPC_PROTO_MAX_FRAME_SIZE - RPC_PROTO_OVERHEAD)
    (built : sent = (frame.complete payload).wire payload) (same : sent.length = error.length) :
    (∃ read content, rpcProtoFrameParse (flipBits sent error) = .ok (read, content)) ↔ Unseen error := by
  have right : Checks sent := by
    refine ((accepted_iff small built rfl).mp ⟨frame.complete payload, payload, ?_⟩).2.2
    rw [built, rpcProtoFrameParse_wire frame small]
  have long : 4 ≤ error.length := by
    rw [← same, built, RPCProtoFrame.length_wire, RPC_PROTO_CRC_SIZE]
    omega
  have magic := part_flipBits_eq_iff same 0 4
  rw [List.drop_zero, List.drop_zero] at magic
  rw [accepted_iff small built ((length_flipBits same).trans same.symm), magic, part_flipBits_eq_iff same 18 4,
    checks_flipBits_iff same long right]
  constructor
  · rintro ⟨magic, lengthField, check⟩
    exact ⟨magic, lengthField, check⟩
  · rintro ⟨magic, lengthField, check⟩
    exact ⟨magic, lengthField, check⟩

theorem Burst.accepted_iff_missed (burst : Burst sent received)
    (small : payload.length ≤ RPC_PROTO_MAX_FRAME_SIZE - RPC_PROTO_OVERHEAD)
    (built : sent = (frame.complete payload).wire payload) :
    (∃ read content, rpcProtoFrameParse received = .ok (read, content)) ↔ Missed (flipBits sent received) := by
  obtain ⟨same, changed, start, window⟩ := burst
  have errorLength : (flipBits sent received).length = received.length := length_flipBits same.symm
  have long : 26 ≤ (flipBits sent received).length := by
    rw [errorLength, same, built, RPCProtoFrame.length_wire, RPC_PROTO_HEADER_SIZE, RPC_PROTO_CRC_SIZE]
    omega
  have accepted := accepted_flipBits_iff small built (same.symm.trans errorLength.symm)
  rw [flipBits_flipBits same.symm] at accepted
  have inside (place : Nat) (on : bitAt (flipBits sent received) place = true) : start ≤ place ∧ place < start + 32 :=
    window place ((bitAt_flipBits same.symm place).mp on)
  rw [accepted, unseen_iff_missed long (changed.imp fun place => (bitAt_flipBits same.symm place).mpr) inside]

/-- A frame is never built for a payload that is too long. -/
theorem rpcProtoFrameBuild_eq_ok {built : RPCProtoFrame} (done : rpcProtoFrameBuild frame payload = .ok (built, sent)) :
    payload.length ≤ RPC_PROTO_MAX_FRAME_SIZE - RPC_PROTO_OVERHEAD ∧ sent = (frame.complete payload).wire payload := by
  by_cases small : payload.length ≤ RPC_PROTO_MAX_FRAME_SIZE - RPC_PROTO_OVERHEAD
  · rw [rpcProtoFrameBuild_of_le frame small] at done
    exact ⟨small, (Prod.mk.inj (Except.ok.inj done)).2.symm⟩
  · rw [rpcProtoFrameBuild, if_pos (Nat.lt_of_not_le small)] at done
    cases done

/-- The parser refuses exactly those bursts that are not one of the listed patterns: the others leave the CRC right. -/
theorem rpc_frame_burst_detected_iff (frame built : RPCProtoFrame) (payload sent received : Bytes)
    (done : rpcProtoFrameBuild frame payload = .ok (built, sent)) (burst : Burst sent received) :
    (∃ code, code ≠ 0 ∧ rpcProtoFrameParse received = .error (.code code)) ↔ ¬ Missed (flipBits sent received) := by
  obtain ⟨small, wire⟩ := rpcProtoFrameBuild_eq_ok done
  have length : received.length = 26 + payload.length := by
    rw [burst.length_eq, wire, RPCProtoFrame.length_wire, RPC_PROTO_HEADER_SIZE, RPC_PROTO_CRC_SIZE]
    omega
  have sizes : RPC_PROTO_OVERHEAD = 26 ∧ RPC_PROTO_MAX_FRAME_SIZE = 16777216 := ⟨rfl, rfl⟩
  rw [refused_iff (by omega) (by omega), burst.accepted_iff_missed small wire]

/-- Only the bits inside the frames can differ. -/
theorem Burst.of_inside (start : Nat) (same : received.length = sent.length)
    (changed : ∃ place < 8 * sent.length, bitAt sent place ≠ bitAt received place)
    (window : ∀ place < 8 * sent.length, bitAt sent place ≠ bitAt received place → start ≤ place ∧ place < start + 32) :
    Burst sent received := by
  refine ⟨same, changed.imp fun _ => And.right, start, fun place differ => ?_⟩
  by_cases inside : place < 8 * sent.length
  · exact window place inside differ
  · have beyond (data : Bytes) (length : data.length = sent.length) : data.getD (place / 8) 0 = 0 :=
      List.getD_eq_default _ _ (by omega)
    rw [bitAt, bitAt, beyond sent rfl, beyond received same] at differ
    exact absurd rfl differ

/-- A keepalive frame without a payload, as it is sent. -/
def pingSent : Bytes :=
  [0x52, 0x50, 0x43, 0x21, 0x00, 0x01, 0x00, 0x00, 0x03, 0x00, 0x00, 0x00, 0x00, 0x05, 0x00, 0x00, 0x00, 0x00, 0x00, 0x00,
    0x00, 0x1A, 0x7D, 0xC0, 0x07, 0xC6]

theorem pingSent_built : rpcProtoFrameBuild pingFrame [] = .ok (pingFrame.complete [], pingSent) := by
  have wire : (pingFrame.complete []).wire [] = pingSent := by decide +kernel
  rw [rpcProtoFrameBuild_of_le pingFrame (by decide), wire]

/-- The flags with one bit changed. -/
def pingFlagged : Bytes := pingSent.set 9 0x10

theorem pingFlagged_burst : Burst pingSent pingFlagged :=
  Burst.of_inside 72 (by decide) ⟨75, by decide, by decide⟩ (by decide +kernel)

theorem rpc_frame_burst_detected_ping :
    (∃ code, code ≠ 0 ∧ rpcProtoFrameParse pingFlagged = .error (.code code)) ↔ ¬ Missed (flipBits pingSent pingFlagged) :=
  rpc_frame_burst_detected_iff pingFrame (pingFrame.complete []) [] pingSent pingFlagged pingSent_built pingFlagged_burst

/-- The version and the type changed in a window of 31 bits. -/
def pingDamaged : Bytes :=
  [0x52, 0x50, 0x43, 0x21, 0x0A, 0x1F, 0xE9, 0xD5, 0xE3, 0x00, 0x00, 0x00, 0x00, 0x05, 0x00, 0x00, 0x00, 0x00, 0x00, 0x00,
    0x00, 0x1A, 0x7D, 0xC0, 0x07, 0xC6]

/-- The damaged frame is parsed as one of another version and type. -/
theorem ping_damage_unseen :
    rpcProtoFrameBuild pingFrame [] = .ok (pingFrame.complete [], pingSent) ∧ Burst pingSent pingDamaged ∧
      rpcProtoFrameParse pingDamaged = .ok (⟨RPC_PROTO_MAGIC, 0x0A1FE9D5#32, 0xE3, 0, 5#32, 0#32, 26#32⟩, []) ∧
      ¬ ∃ code, code ≠ 0 ∧ rpcProtoFrameParse pingDamaged = .error (.code code) := by
  have parsed : rpcProtoFrameParse pingDamaged =
      .ok (⟨RPC_PROTO_MAGIC, 0x0A1FE9D5#32, 0xE3, 0, 5#32, 0#32, 26#32⟩, []) := by
    refine rpcProtoFrameParse_eq_ok_iff.mpr ?_
    constructor <;> decide +kernel
  refine ⟨pingSent_built, Burst.of_inside 36 (by decide) ⟨36, by decide, by decide⟩ (by decide +kernel), parsed, ?_⟩
  rintro ⟨code, -, refused⟩
  rw [parsed] at refused
  cases refused

end Detection

end MiniNetDist.RpcFramework
