import MiniNetDist.Library.Bytes

/-! Checksums by one's complement addition of words of 16 bits. Adding the carries back in keeps the residue modulo 65535,
and tells zero from its other multiples. -/

namespace MiniNetDist.Library.OnesComplement

/-- The sum of the words, the last byte of an odd number of bytes standing for the high half of a word. -/
def wordSum : Bytes → Nat
  | high :: low :: rest => 256 * high.toNat + low.toNat + wordSum rest
  | [last] => 256 * last.toNat
  | [] => 0

/-- What is above 16 bits is added to the rest. -/
def carry (sum : Nat) : Nat := sum % 65536 + sum / 65536

/-- Three rounds leave nothing above 16 bits of a sum of 32 bits. -/
def carried (sum : Nat) : Nat := carry (carry (carry sum))

variable {sum : Nat} {bytes before after : Bytes}

theorem carry_mod (sum : Nat) : carry sum % 65535 = sum % 65535 := by
  rw [carry]
  omega

theorem carry_eq_zero : carry sum = 0 ↔ sum = 0 := by
  rw [carry]
  omega

theorem carried_mod (sum : Nat) : carried sum % 65535 = sum % 65535 := by
  rw [carried, carry_mod, carry_mod, carry_mod]

theorem carried_eq_zero : carried sum = 0 ↔ sum = 0 := by
  rw [carried, carry_eq_zero, carry_eq_zero, carry_eq_zero]

theorem carried_lt (small : sum < 2 ^ 32) : carried sum < 65536 := by
  have first : carry sum < 2 * 65536 := by
    rw [carry]
    omega
  have second : carry (carry sum) < 65536 + 1 := by
    rw [carry.eq_1 (carry sum)]
    omega
  rw [carried, carry]
  omega

/-- All bits are set exactly if the sum is a multiple of 65535 other than zero. -/
theorem carried_eq_top (small : sum < 2 ^ 32) : carried sum = 65535 ↔ sum ≠ 0 ∧ sum % 65535 = 0 := by
  have bound := carried_lt small
  have residue := carried_mod sum
  have zero : carried sum = 0 ↔ sum = 0 := carried_eq_zero
  omega

theorem wordSum_append (even : before.length % 2 = 0) : wordSum (before ++ after) = wordSum before + wordSum after := by
  induction before using wordSum.induct with
  | case1 high low rest ih =>
    rw [List.length_cons, List.length_cons] at even
    rw [List.cons_append, List.cons_append, wordSum, wordSum, ih (by omega)]
    exact (Nat.add_assoc _ _ _).symm
  | case2 last => exact absurd even (by simp)
  | case3 => exact (Nat.zero_add _).symm

theorem wordSum_le (bytes : Bytes) : wordSum bytes ≤ 65535 * ((bytes.length + 1) / 2) := by
  induction bytes using wordSum.induct with
  | case1 high low rest ih =>
    have first := high.toNat_lt
    have second := low.toNat_lt
    rw [wordSum, List.length_cons, List.length_cons]
    omega
  | case2 last =>
    have bound := last.toNat_lt
    rw [wordSum, List.length_singleton]
    omega
  | case3 => exact Nat.zero_le _

/-- The sum when a word of the data is this one. -/
theorem wordSum_word (even : before.length % 2 = 0) (high low : UInt8) :
    wordSum (before ++ high :: low :: after) = wordSum before + wordSum after + (256 * high.toNat + low.toNat) := by
  rw [wordSum_append even, wordSum]
  omega

/-- A word that complements the sum of the others makes it all ones. -/
theorem complement_valid (sum : Nat) (small : sum < 2 ^ 32) :
    (sum + (65535 - carried sum)) % 65535 = 0 ∧ sum + (65535 - carried sum) ≠ 0 := by
  have bound := carried_lt small
  have residue := carried_mod sum
  have zero : carried sum = 0 ↔ sum = 0 := carried_eq_zero
  omega

/-- Two words that leave the same sum of the others valid are the same, or all ones and zero. -/
theorem word_unique {one two : Nat} (first : one < 65536) (second : two < 65536)
    (valid : (sum + one) % 65535 = 0) (validToo : (sum + two) % 65535 = 0) :
    one = two ∨ (one = 0 ∧ two = 65535) ∨ (one = 65535 ∧ two = 0) := by
  omega

end MiniNetDist.Library.OnesComplement
