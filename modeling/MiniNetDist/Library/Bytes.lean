import Mathlib.Algebra.Group.Nat.Defs
import Mathlib.Data.List.Basic
import Mathlib.Data.List.Induction

/-! Machine words and their bytes, in the shifts and casts of C code: a byte is cut out of a word by
a shift and a cast, and a word is put together from bytes, the most significant one first. -/

namespace MiniNetDist.Library

abbrev Bytes := List UInt8

variable {n : Nat}

/-- The cast of `word >> shift` to one byte. -/
def byteOf (word : BitVec n) (shift : Nat) : UInt8 := .ofBitVec ((word >>> shift).setWidth 8)

/-- The cast of a byte to a wider word. -/
def widen (n : Nat) (byte : UInt8) : BitVec n := byte.toBitVec.setWidth n

/-- Append a byte below the bits of a word. -/
def push (word : BitVec n) (byte : UInt8) : BitVec n := word <<< 8 ||| widen n byte

/-- The word with these bytes, the most significant one first. -/
def joinBytes (n : Nat) (bytes : Bytes) : BitVec n := bytes.foldl push 0

theorem getLsbD_byteOf (word : BitVec n) (shift i : Nat) :
    (byteOf word shift).toBitVec.getLsbD i = (decide (i < 8) && word.getLsbD (shift + i)) := by
  simp [byteOf]

theorem getLsbD_push (word : BitVec n) (byte : UInt8) {i : Nat} (bound : i < n) :
    (push word byte).getLsbD i = if i < 8 then byte.toBitVec.getLsbD i else word.getLsbD (i - 8) := by
  by_cases low : i < 8
  · simp [push, widen, bound, low]
  · have above : byte.toBitVec.getLsbD i = false := BitVec.getLsbD_of_ge _ _ (Nat.le_of_not_lt low)
    rw [if_neg low, push, BitVec.getLsbD_or, BitVec.getLsbD_shiftLeft, widen, BitVec.getLsbD_setWidth, above]
    simp [bound, low]

/-- The byte that was appended is the lowest one. -/
theorem byteOf_push (word : BitVec n) (byte : UInt8) (wide : 8 ≤ n) : byteOf (push word byte) 0 = byte := by
  apply UInt8.toBitVec_inj.mp
  apply BitVec.eq_of_getLsbD_eq
  intro i bound
  rw [getLsbD_byteOf, Nat.zero_add, getLsbD_push word byte (Nat.lt_of_lt_of_le bound wide)]
  simp [bound]

/-- The bytes that were there have moved up by one. -/
theorem byteOf_push_add (word : BitVec n) (byte : UInt8) (shift : Nat) (wide : shift + 16 ≤ n) :
    byteOf (push word byte) (shift + 8) = byteOf word shift := by
  apply UInt8.toBitVec_inj.mp
  apply BitVec.eq_of_getLsbD_eq
  intro i bound
  rw [getLsbD_byteOf, getLsbD_byteOf, getLsbD_push word byte (by omega), if_neg (by omega)]
  congr 2
  omega

/-- Appending a byte of a word to the bits above it gives the word from that byte on. -/
theorem push_byteOf (word : BitVec n) (shift : Nat) :
    push (word >>> (shift + 8)) (byteOf word shift) = word >>> shift := by
  apply BitVec.eq_of_getLsbD_eq
  intro i bound
  rw [getLsbD_push _ _ bound, getLsbD_byteOf]
  by_cases low : i < 8
  · simp [low]
  · have back : shift + 8 + (i - 8) = shift + i := by omega
    simp [low, back]

/-- The highest byte that is not zero is all there is from it on. -/
theorem widen_byteOf (word : BitVec n) (shift : Nat) (top : word.toNat < 2 ^ (shift + 8)) :
    widen n (byteOf word shift) = word >>> shift := by
  apply BitVec.eq_of_getLsbD_eq
  intro i bound
  rw [widen, BitVec.getLsbD_setWidth, getLsbD_byteOf, BitVec.getLsbD_ushiftRight]
  by_cases low : i < 8
  · simp [bound, low]
  · have clear : word.getLsbD (shift + i) = false := by
      refine Nat.testBit_lt_two_pow (Nat.lt_of_lt_of_le top ?_)
      exact Nat.pow_le_pow_right (by decide) (by omega)
    simp [clear]

/-- The low bytes of a word stay when it is cut. -/
theorem byteOf_setWidth {m : Nat} (word : BitVec n) (shift : Nat) (inside : shift + 8 ≤ m) :
    byteOf (word.setWidth m) shift = byteOf word shift := by
  apply UInt8.toBitVec_inj.mp
  apply BitVec.eq_of_getLsbD_eq
  intro i bound
  have low : shift + i < m := by omega
  rw [getLsbD_byteOf, getLsbD_byteOf, BitVec.getLsbD_setWidth]
  simp [low]

theorem toNat_byteOf_zero (word : BitVec n) : (byteOf word 0).toNat = word.toNat % 256 := by
  simp [byteOf]

/-- The mask of the low seven bits keeps a byte that has no other. -/
theorem and_mask_eq_iff (byte : UInt8) : byte &&& 0x7F = byte ↔ byte.toNat < 128 := by
  have masked : (byte &&& 0x7F).toNat = byte.toNat % 128 := by
    rw [UInt8.toNat_and]
    exact Nat.and_two_pow_sub_one_eq_mod byte.toNat 7
  rw [← UInt8.toNat_inj, masked]
  omega

theorem push_zero (byte : UInt8) : push (0 : BitVec n) byte = widen n byte := by
  simp [push]

/-- Four bytes put together by shifts, as C code writes it. -/
theorem joinBytes_four (first second third fourth : UInt8) :
    joinBytes n [first, second, third, fourth] =
      widen n first <<< 24 ||| widen n second <<< 16 ||| widen n third <<< 8 ||| widen n fourth := by
  simp only [joinBytes, List.foldl_cons, List.foldl_nil, push_zero]
  simp only [push, BitVec.shiftLeft_or_distrib, ← BitVec.shiftLeft_add, Nat.reduceAdd]

theorem joinBytes_two (first second : UInt8) :
    joinBytes n [first, second] = widen n first <<< 8 ||| widen n second := by
  simp only [joinBytes, List.foldl_cons, List.foldl_nil, push_zero]
  rw [push]

theorem joinBytes_three (first second third : UInt8) :
    joinBytes n [first, second, third] = widen n first <<< 16 ||| widen n second <<< 8 ||| widen n third := by
  simp only [joinBytes, List.foldl_cons, List.foldl_nil, push_zero]
  simp only [push, BitVec.shiftLeft_or_distrib, ← BitVec.shiftLeft_add, Nat.reduceAdd]

/-- The low bytes of a word, the most significant one first. -/
def bytesOf (word : BitVec n) : Nat → Bytes
  | 0 => []
  | count + 1 => byteOf word (8 * count) :: bytesOf word count

/-- The low bytes, put below the bits above them. -/
theorem foldl_push_bytesOf (word : BitVec n) (count : Nat) :
    (bytesOf word count).foldl push (word >>> (8 * count)) = word := by
  induction count with
  | zero => exact BitVec.ushiftRight_zero word
  | succ count ih =>
    rw [bytesOf, List.foldl_cons, Nat.mul_succ, push_byteOf]
    exact ih

/-- A word with nothing above its low bytes is put together from them again. -/
theorem joinBytes_bytesOf (word : BitVec n) (count : Nat) (small : word.toNat < 2 ^ (8 * count)) :
    joinBytes n (bytesOf word count) = word := by
  have above : word >>> (8 * count) = 0 := by
    apply BitVec.eq_of_toNat_eq
    rw [BitVec.toNat_ushiftRight, Nat.shiftRight_eq_div_pow, Nat.div_eq_of_lt small]
    rfl
  rw [joinBytes, ← above, foldl_push_bytesOf]

/-- The two bytes of a word of 16 bits. -/
theorem u16_bytes (word : BitVec 16) : widen 16 (byteOf word 8) <<< 8 ||| widen 16 (byteOf word 0) = word := by
  rw [← joinBytes_two]
  exact joinBytes_bytesOf word 2 word.isLt

/-- The four bytes of a word of 32 bits. -/
theorem joinBytes_bytes (word : BitVec n) (small : word.toNat < 2 ^ 32) :
    joinBytes n [byteOf word 24, byteOf word 16, byteOf word 8, byteOf word 0] = word :=
  joinBytes_bytesOf word 4 small

theorem bytesOf_push (word : BitVec n) (byte : UInt8) {count : Nat} (wide : 8 * (count + 1) ≤ n) :
    bytesOf (push word byte) (count + 1) = bytesOf word count ++ [byte] := by
  induction count with
  | zero => exact congrArg (fun first => [first]) (byteOf_push word byte wide)
  | succ count ih =>
    rw [bytesOf, ih (by omega), Nat.mul_succ, byteOf_push_add word byte (8 * count) (by omega), bytesOf,
      List.cons_append]

/-- Bytes that were put together are cut out again. -/
theorem bytesOf_joinBytes (bytes : Bytes) (wide : 8 * bytes.length ≤ n) :
    bytesOf (joinBytes n bytes) bytes.length = bytes := by
  induction bytes using List.reverseRecOn with
  | nil => rfl
  | append_singleton bytes byte ih =>
    rw [List.length_append, List.length_singleton] at wide ⊢
    rw [joinBytes, List.foldl_concat, bytesOf_push _ byte wide]
    exact congrArg (· ++ [byte]) (ih (by omega))

end MiniNetDist.Library
