import Mathlib.Data.Nat.Basic
import MiniNetDist.Library.Bytes
import MiniNetDist.Library.CharArray

/-! Base64: three bytes become four characters of six bits each, and a group of one or two bytes at the end is filled
up with `=`. -/

namespace MiniNetDist.Library.Base64

def alphabet : Bytes := ascii "ABCDEFGHIJKLMNOPQRSTUVWXYZabcdefghijklmnopqrstuvwxyz0123456789+/"

def pad : UInt8 := 61

/-- The number of 24 bits that three bytes make. -/
def joined (first second third : UInt8) : Nat := (first.toNat * 256 + second.toNat) * 256 + third.toNat

/-- The character for six bits of a number, counted in groups of six from the lowest ones on. -/
def character (value place : Nat) : UInt8 := alphabet.getD (value / 64 ^ place % 64) pad

def encode : Bytes → Bytes
  | [] => []
  | [first] => [character (joined first 0 0) 3, character (joined first 0 0) 2, pad, pad]
  | [first, second] =>
    [character (joined first second 0) 3, character (joined first second 0) 2, character (joined first second 0) 1, pad]
  | first :: second :: third :: rest =>
    character (joined first second third) 3 :: character (joined first second third) 2 ::
      character (joined first second third) 1 :: character (joined first second third) 0 :: encode rest

/-- The six bits that a character stands for. -/
def sextet (char : UInt8) : Option Nat := alphabet.idxOf? char

/-- The number that four characters make. -/
def value (c3 c2 c1 c0 : UInt8) : Option Nat := do
  let s3 ← sextet c3
  let s2 ← sextet c2
  let s1 ← sextet c1
  let s0 ← sextet c0
  return ((s3 * 64 + s2) * 64 + s1) * 64 + s0

def byteAt (value place : Nat) : UInt8 := .ofNat (value / 256 ^ place)

/-- The bytes of a text; nothing if it has characters that do not belong, or padding before its end. -/
def decode : Bytes → Option Bytes
  | [] => some []
  | c3 :: c2 :: c1 :: c0 :: rest =>
    if rest = [] ∧ c0 = pad then
      if c1 = pad then (value c3 c2 65 65).map fun found => [byteAt found 2]
      else (value c3 c2 c1 65).map fun found => [byteAt found 2, byteAt found 1]
    else do
      let found ← value c3 c2 c1 c0
      let others ← decode rest
      return byteAt found 2 :: byteAt found 1 :: byteAt found 0 :: others
  | _ => none

variable {first second third : UInt8} {number place : Nat} {bytes : Bytes}

section Characters

theorem alphabet_getD {index : Nat} (inside : index < 64) :
    sextet (alphabet.getD index pad) = some index ∧ alphabet.getD index pad ≠ pad ∧ alphabet.getD index pad ≠ 0 := by
  revert index
  decide +kernel

theorem sextet_character (number place : Nat) : sextet (character number place) = some (number / 64 ^ place % 64) :=
  (alphabet_getD (Nat.mod_lt _ (by decide))).1

theorem character_ne_pad (number place : Nat) : character number place ≠ pad :=
  (alphabet_getD (Nat.mod_lt _ (by decide))).2.1

theorem character_ne_zero (number place : Nat) : character number place ≠ 0 :=
  (alphabet_getD (Nat.mod_lt _ (by decide))).2.2

theorem character_zero (none : number / 64 ^ place % 64 = 0) : character number place = 65 := by
  rw [character, none]
  decide +kernel

/-- The four characters of a number make it again. -/
theorem value_characters (small : number < 2 ^ 24) :
    value (character number 3) (character number 2) (character number 1) (character number 0) = some number := by
  simp only [value, sextet_character, bind, Option.bind_some, pure, Option.some.injEq]
  omega

theorem joined_lt (first second third : UInt8) : joined first second third < 2 ^ 24 := by
  have h1 := first.toNat_lt
  have h2 := second.toNat_lt
  have h3 := third.toNat_lt
  unfold joined
  omega

theorem toNat_push {n : Nat} (word : BitVec n) (byte : UInt8) (wide : word.toNat * 256 + 256 ≤ 2 ^ n) :
    (push word byte).toNat = word.toNat * 256 + byte.toNat := by
  have bound := byte.toNat_lt
  have inside : word.toNat <<< 8 < 2 ^ n := by
    rw [Nat.shiftLeft_eq]
    omega
  rw [push, widen, BitVec.toNat_or, BitVec.toNat_shiftLeft, BitVec.toNat_setWidth, UInt8.toNat_toBitVec,
    Nat.mod_eq_of_lt inside, Nat.mod_eq_of_lt (a := byte.toNat) (by omega), ← Nat.shiftLeft_add_eq_or_of_lt bound,
    Nat.shiftLeft_eq]

/-- The number as the low bits of a word. -/
theorem toNat_joinBytes_three (first second third : UInt8) :
    (joinBytes 32 [first, second, third]).toNat = joined first second third := by
  have h1 := first.toNat_lt
  have h2 := second.toNat_lt
  have zero : (0 : BitVec 32).toNat = 0 := rfl
  have one : (push (0 : BitVec 32) first).toNat = first.toNat := by
    rw [toNat_push _ _ (by rw [zero]; decide), zero, Nat.zero_mul, Nat.zero_add]
  have two : (push (push (0 : BitVec 32) first) second).toNat = first.toNat * 256 + second.toNat := by
    rw [toNat_push _ _ (by rw [one]; omega), one]
  rw [joinBytes, List.foldl_cons, List.foldl_cons, List.foldl_cons, List.foldl_nil, toNat_push _ _ (by rw [two]; omega),
    two, joined]

theorem byteAt_joined (first second third : UInt8) :
    byteAt (joined first second third) 2 = first ∧ byteAt (joined first second third) 1 = second ∧
      byteAt (joined first second third) 0 = third := by
  have h1 := first.toNat_lt
  have h2 := second.toNat_lt
  have h3 := third.toNat_lt
  refine ⟨?_, ?_, ?_⟩ <;>
  · apply UInt8.toNat_inj.mp
    rw [byteAt, UInt8.toNat_ofNat', joined]
    omega

end Characters

/-- Decoding gives back the bytes. -/
theorem decode_encode (bytes : Bytes) : decode (encode bytes) = some bytes := by
  induction bytes using encode.induct with
  | case1 => rfl
  | case2 first =>
    have third : character (joined first 0 0) 1 = 65 := character_zero (by simp [joined]; omega)
    have last : character (joined first 0 0) 0 = 65 := character_zero (by simp [joined]; omega)
    have whole := value_characters (joined_lt first 0 0)
    rw [third, last] at whole
    simp [encode, decode, whole, byteAt_joined]
  | case3 first second =>
    have last : character (joined first second 0) 0 = 65 := character_zero (by simp [joined]; omega)
    have whole := value_characters (joined_lt first second 0)
    rw [last] at whole
    simp [encode, decode, whole, byteAt_joined, character_ne_pad]
  | case4 first second third rest ih =>
    have whole := value_characters (joined_lt first second third)
    simp [encode, decode, whole, byteAt_joined, character_ne_pad, ih]

/-- No text begins with padding. -/
theorem decode_pad (rest : Bytes) : decode (pad :: rest) = none := by
  have unknown : sextet pad = none := by decide +kernel
  rcases rest with _ | ⟨c2, _ | ⟨c1, _ | ⟨c0, rest⟩⟩⟩
  · rfl
  · rfl
  · rfl
  · simp [decode, value, unknown]

theorem length_encode (bytes : Bytes) : (encode bytes).length = 4 * ((bytes.length + 2) / 3) := by
  induction bytes using encode.induct with
  | case1 => rfl
  | case2 first => simp [encode]
  | case3 first second => simp [encode]
  | case4 first second third rest ih =>
    simp only [encode, List.length_cons, ih]
    omega

theorem zero_notMem_encode (bytes : Bytes) : 0 ∉ encode bytes := by
  have filled : pad ≠ 0 := by decide
  induction bytes using encode.induct with
  | case1 => exact List.not_mem_nil
  | case2 first => simp [encode, (character_ne_zero _ _).symm, filled.symm]
  | case3 first second => simp [encode, (character_ne_zero _ _).symm, filled.symm]
  | case4 first second third rest ih => simp [encode, (character_ne_zero _ _).symm, ih]

theorem le_character (number place : Nat) : 43 ≤ character number place := by
  have visible : ∀ index < 64, 43 ≤ alphabet.getD index pad := by decide +kernel
  exact visible _ (Nat.mod_lt _ (by decide))

/-- There are no line ends and no blanks in the text. -/
theorem le_of_mem_encode {char : UInt8} (held : char ∈ encode bytes) : 43 ≤ char := by
  have filled : 43 ≤ pad := by decide
  induction bytes using encode.induct with
  | case1 => cases held
  | case2 first | case3 first second =>
    simp only [encode, List.mem_cons, List.not_mem_nil, or_false] at held
    rcases held with rfl | rfl | rfl | rfl <;> first | exact le_character _ _ | exact filled
  | case4 first second third rest ih =>
    simp only [encode, List.mem_cons] at held
    rcases held with rfl | rfl | rfl | rfl | later
    · exact le_character _ _
    · exact le_character _ _
    · exact le_character _ _
    · exact le_character _ _
    · exact ih later

/-- The text is that of the groups of three bytes, one after the other. -/
theorem encode_eq_flatMap (bytes : Bytes) :
    encode bytes = (List.range ((bytes.length + 2) / 3)).flatMap fun round => encode ((bytes.drop (3 * round)).take 3) := by
  induction bytes using encode.induct with
  | case1 => rfl
  | case2 first => simp [List.range_succ]
  | case3 first second => simp [List.range_succ]
  | case4 first second third rest ih =>
    have rounds : ((first :: second :: third :: rest).length + 2) / 3 = (rest.length + 2) / 3 + 1 := by
      simp only [List.length_cons]
      omega
    rw [rounds, List.range_succ_eq_map, List.flatMap_cons, List.flatMap_map, encode, ih]
    rfl

end MiniNetDist.Library.Base64
