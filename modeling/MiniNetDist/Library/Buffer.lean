import MiniNetDist.Library.Bytes

/-! Reading a buffer from its front, as C code does with a position that it moves on: a read that goes beyond the end
is a failure of its own, not an error code. -/

namespace MiniNetDist.Library

/-- How a call ends without a result: with an error code, or with an access outside its buffers. -/
inductive Failure where
  | code (value : Int)
  | outOfBounds
  deriving DecidableEq, Repr

/-- The next bytes, and what follows them. -/
def readBytes (count : Nat) (rest : Bytes) : Except Failure (Bytes × Bytes) :=
  if rest.length < count then .error .outOfBounds else .ok (rest.take count, rest.drop count)

def readByte : Bytes → Except Failure (UInt8 × Bytes)
  | byte :: rest => .ok (byte, rest)
  | [] => .error .outOfBounds

/-- The next two bytes as a number, the high one first. -/
def readU16 : Bytes → Except Failure (BitVec 16 × Bytes)
  | high :: low :: rest => .ok (widen 16 high <<< 8 ||| widen 16 low, rest)
  | _ => .error .outOfBounds

def writeU16 (value : BitVec 16) : Bytes := [byteOf value 8, byteOf value 0]

/-- The next four bytes as a number, the high one first. -/
def readU32 : Bytes → Except Failure (BitVec 32 × Bytes)
  | b0 :: b1 :: b2 :: b3 :: rest =>
    .ok (widen 32 b0 <<< 24 ||| widen 32 b1 <<< 16 ||| widen 32 b2 <<< 8 ||| widen 32 b3, rest)
  | _ => .error .outOfBounds

def writeU32 (value : BitVec 32) : Bytes := [byteOf value 24, byteOf value 16, byteOf value 8, byteOf value 0]

@[simp] theorem ok_bind {First Second : Type} (first : First) (further : First → Except Failure Second) :
    (Except.ok first >>= further) = further first := rfl

theorem readBytes_append {count : Nat} {item : Bytes} (length : item.length = count) (rest : Bytes) :
    readBytes count (item ++ rest) = .ok (item, rest) := by
  rw [readBytes, if_neg (by rw [List.length_append]; omega), List.take_left' length, List.drop_left' length]

theorem readU16_writeU16 (value : BitVec 16) (rest : Bytes) :
    readU16 (writeU16 value ++ rest) = .ok (value, rest) := by
  simp only [writeU16, List.cons_append, List.nil_append, readU16, u16_bytes]

theorem readU32_writeU32 (value : BitVec 32) (rest : Bytes) :
    readU32 (writeU32 value ++ rest) = .ok (value, rest) := by
  simp only [writeU32, List.cons_append, List.nil_append, readU32, ← joinBytes_four,
    joinBytes_bytes value value.isLt]

end MiniNetDist.Library
