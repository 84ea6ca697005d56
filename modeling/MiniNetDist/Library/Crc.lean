import MiniNetDist.Library.Bytes

/-! Reflected cyclic redundancy checks of any width. Every step is linear over exclusive or, and
when the polynomial has its highest bit set no step forgets anything. -/

namespace MiniNetDist.Library.Crc

variable {n : Nat} (polynomial : BitVec n)

/-- One bit of the division: the remainder moves down, and the polynomial is added when a one falls out. -/
def bitStep (crc : BitVec n) : BitVec n :=
  if crc.getLsbD 0 then crc >>> 1 ^^^ polynomial else crc >>> 1

def bitSteps : Nat → BitVec n → BitVec n
  | 0, crc => crc
  | count + 1, crc => bitSteps count (bitStep polynomial crc)

/-- One byte of input, bit by bit. -/
def byteStep (crc : BitVec n) (byte : UInt8) : BitVec n := bitSteps polynomial 8 (crc ^^^ widen n byte)

def remainder (crc : BitVec n) (bytes : Bytes) : BitVec n := bytes.foldl (byteStep polynomial) crc

theorem bitStep_xor (left right : BitVec n) :
    bitStep polynomial (left ^^^ right) = bitStep polynomial left ^^^ bitStep polynomial right := by
  have cancel (first second added : BitVec n) : first ^^^ second = (first ^^^ added) ^^^ (second ^^^ added) := by
    rw [BitVec.xor_assoc, BitVec.xor_comm second added, ← BitVec.xor_assoc added, BitVec.xor_self,
      BitVec.zero_xor]
  simp only [bitStep, BitVec.getLsbD_xor, BitVec.ushiftRight_xor_distrib]
  cases left.getLsbD 0 <;> cases right.getLsbD 0 <;> simp only [Bool.false_xor, Bool.true_xor, Bool.not_false,
    Bool.not_true, Bool.false_eq_true, ↓reduceIte]
  · rw [BitVec.xor_assoc]
  · rw [BitVec.xor_assoc, BitVec.xor_assoc, BitVec.xor_comm polynomial]
  · exact cancel _ _ polynomial

theorem bitSteps_xor (count : Nat) (left right : BitVec n) :
    bitSteps polynomial count (left ^^^ right) = bitSteps polynomial count left ^^^ bitSteps polynomial count right := by
  induction count generalizing left right with
  | zero => rfl
  | succ count ih => rw [bitSteps, bitStep_xor, ih, bitSteps, bitSteps]

/-- While only zeros fall out, the remainder just moves down. -/
theorem bitSteps_of_low_zero (count : Nat) (crc : BitVec n) (zeros : ∀ i < count, crc.getLsbD i = false) :
    bitSteps polynomial count crc = crc >>> count := by
  induction count generalizing crc with
  | zero => exact (BitVec.ushiftRight_zero crc).symm
  | succ count ih =>
    have even : bitStep polynomial crc = crc >>> 1 := by
      rw [bitStep, zeros 0 (Nat.succ_pos count), if_neg Bool.false_ne_true]
    have moved : ∀ i < count, (crc >>> 1).getLsbD i = false := by
      intro i bound
      rw [BitVec.getLsbD_ushiftRight]
      exact zeros (1 + i) (by omega)
    rw [bitSteps, even, ih _ moved, ← BitVec.shiftRight_add, Nat.add_comm]

/-- The bits that fall out decide what is added, so a table of their remainders replaces the single steps. -/
theorem bitSteps_eq_table (count : Nat) (crc mask : BitVec n)
    (low : ∀ i < n, mask.getLsbD i = decide (i < count)) :
    bitSteps polynomial count crc = crc >>> count ^^^ bitSteps polynomial count (crc &&& mask) := by
  have split : crc = (crc &&& ~~~mask) ^^^ (crc &&& mask) := by
    apply BitVec.eq_of_getLsbD_eq
    intro i bound
    simp only [BitVec.getLsbD_xor, BitVec.getLsbD_and, BitVec.getLsbD_not, low i bound]
    by_cases inside : i < count <;> simp [inside, bound]
  have zeros : ∀ i < count, (crc &&& ~~~mask).getLsbD i = false := by
    intro i inside
    by_cases bound : i < n
    · simp [low i bound, inside]
    · exact BitVec.getLsbD_of_ge _ _ (Nat.le_of_not_lt bound)
  have shifted : (crc &&& ~~~mask) >>> count = crc >>> count := by
    apply BitVec.eq_of_getLsbD_eq
    intro i bound
    rw [BitVec.getLsbD_ushiftRight, BitVec.getLsbD_ushiftRight, BitVec.getLsbD_and, BitVec.getLsbD_not]
    by_cases inside : count + i < n
    · rw [low _ inside]
      simp [inside]
    · simp [BitVec.getLsbD_of_ge crc (count + i) (Nat.le_of_not_lt inside)]
  conv_lhs => rw [split]
  rw [bitSteps_xor, bitSteps_of_low_zero polynomial count _ zeros, shifted]

theorem widen_xor (left right : UInt8) : widen n (left ^^^ right) = widen n left ^^^ widen n right := by
  rw [widen, UInt8.toBitVec_xor, BitVec.setWidth_xor, widen, widen]

theorem byteStep_xor (left right : BitVec n) (first second : UInt8) :
    byteStep polynomial (left ^^^ right) (first ^^^ second) =
      byteStep polynomial left first ^^^ byteStep polynomial right second := by
  have sorted : left ^^^ right ^^^ (widen n first ^^^ widen n second) =
      (left ^^^ widen n first) ^^^ (right ^^^ widen n second) := by
    rw [BitVec.xor_assoc, ← BitVec.xor_assoc right, BitVec.xor_comm right, BitVec.xor_assoc, BitVec.xor_assoc]
  rw [byteStep, widen_xor, sorted, bitSteps_xor, byteStep, byteStep]

/-- The remainder of a sum of two strings is the sum of their remainders. -/
theorem remainder_xor {first second : Bytes} (same : first.length = second.length) (left right : BitVec n) :
    remainder polynomial (left ^^^ right) (List.zipWith (· ^^^ ·) first second) =
      remainder polynomial left first ^^^ remainder polynomial right second := by
  induction first generalizing second left right with
  | nil =>
    obtain rfl := List.length_eq_zero_iff.mp same.symm
    rfl
  | cons byte rest ih =>
    cases second with
    | nil => cases same
    | cons other others =>
      simp only [remainder, List.zipWith_cons_cons, List.foldl_cons] at ih ⊢
      rw [byteStep_xor]
      exact ih (Nat.succ.inj same) _ _

theorem remainder_append (crc : BitVec n) (first second : Bytes) :
    remainder polynomial crc (first ++ second) = remainder polynomial (remainder polynomial crc first) second :=
  List.foldl_append

variable {polynomial}

/-- Nothing but zero is sent to zero: the highest bit tells whether the polynomial was added. -/
theorem eq_zero_of_bitStep (high : polynomial.msb = true) {crc : BitVec n} (zero : bitStep polynomial crc = 0#n) :
    crc = 0#n := by
  have positive : 0 < n := by
    rcases Nat.eq_zero_or_pos n with rfl | positive
    · simp [BitVec.msb, BitVec.getMsbD] at high
    · exact positive
  rw [bitStep] at zero
  have top : (crc >>> 1).getLsbD (n - 1) = false := by
    rw [BitVec.getLsbD_ushiftRight]
    exact BitVec.getLsbD_of_ge _ _ (by omega)
  rw [BitVec.msb_eq_getLsbD_last] at high
  cases odd : crc.getLsbD 0 with
  | true =>
    rw [odd, if_pos rfl] at zero
    have bit := congrArg (·.getLsbD (n - 1)) zero
    simp [top, high] at bit
  | false =>
    rw [odd, if_neg Bool.false_ne_true] at zero
    apply BitVec.eq_of_getLsbD_eq
    intro i bound
    cases i with
    | zero => rw [odd, BitVec.getLsbD_zero]
    | succ i =>
      have bit := congrArg (·.getLsbD i) zero
      simp only [BitVec.getLsbD_ushiftRight, BitVec.getLsbD_zero] at bit
      rw [Nat.add_comm, bit, BitVec.getLsbD_zero]

theorem eq_zero_of_bitSteps (high : polynomial.msb = true) {count : Nat} {crc : BitVec n}
    (zero : bitSteps polynomial count crc = 0#n) : crc = 0#n := by
  induction count generalizing crc with
  | zero => exact zero
  | succ count ih => exact eq_zero_of_bitStep high (ih zero)

theorem bitStep_zero : bitStep polynomial 0#n = 0#n := by
  simp [bitStep]

theorem bitSteps_zero (count : Nat) : bitSteps polynomial count 0#n = 0#n := by
  induction count with
  | zero => rfl
  | succ count ih => rw [bitSteps, bitStep_zero, ih]

/-- A byte leaves nothing behind exactly when it cancels the low bits of the remainder. -/
theorem byteStep_eq_zero_iff (high : polynomial.msb = true) (crc : BitVec n) (byte : UInt8) :
    byteStep polynomial crc byte = 0#n ↔ crc = widen n byte := by
  constructor
  · intro zero
    exact BitVec.xor_eq_zero_iff.mp (eq_zero_of_bitSteps high zero)
  · rintro rfl
    rw [byteStep, BitVec.xor_self, bitSteps_zero]

/-- Zero bytes neither make nor hide a difference. -/
theorem remainder_zeros_eq_zero_iff (high : polynomial.msb = true) (crc : BitVec n) (count : Nat) :
    remainder polynomial crc (List.replicate count 0) = 0#n ↔ crc = 0#n := by
  induction count generalizing crc with
  | zero => rfl
  | succ count ih =>
    rw [List.replicate_succ, remainder, List.foldl_cons, ← remainder, ih, byteStep_eq_zero_iff high]
    simp [widen]

end MiniNetDist.Library.Crc
