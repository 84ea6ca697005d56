import MiniNetDist.Library.Bytes

/-! Numbers in groups of seven bits, the lowest group first. Every byte but the last has its top bit set. -/

namespace MiniNetDist.Library.Varint

/-- The bytes of a number, of which there are at most `groups`. -/
def encode : Nat → Nat → Bytes
  | 0, _ => []
  | groups + 1, value =>
    if value >>> 7 > 0 then .ofNat (value &&& 0x7F ||| 0x80) :: encode groups (value >>> 7)
    else [.ofNat (value &&& 0x7F)]

/-- Read at most `groups` bytes on top of what was read before; the number and how many bytes it took. -/
def decode {n : Nat} : Nat → Nat → BitVec n → Bytes → BitVec n × Nat
  | 0, _, value, _ => (value, 0)
  | _ + 1, _, value, [] => (value, 0)
  | groups + 1, shift, value, byte :: rest =>
    let value := value ||| widen n (byte &&& 0x7F) <<< shift
    if byte &&& 0x80 = 0 then (value, 1)
    else
      let (result, consumed) := decode groups (shift + 7) value rest
      (result, consumed + 1)

theorem and_127 (value : Nat) : value &&& 0x7F = value % 128 := Nat.and_two_pow_sub_one_eq_mod value 7

/-- What the two kinds of bytes hold. -/
theorem group_bits {group : Nat} (small : group < 128) :
    (UInt8.ofNat group &&& 0x80 = 0 ∧ UInt8.ofNat group &&& 0x7F = .ofNat group) ∧
      UInt8.ofNat (group ||| 0x80) &&& 0x80 ≠ 0 ∧ UInt8.ofNat (group ||| 0x80) &&& 0x7F = .ofNat group := by
  revert group
  decide +kernel

theorem widen_group {n : Nat} {group : Nat} (small : group < 128) :
    widen n (.ofNat group) = BitVec.ofNat n group := by
  apply BitVec.eq_of_toNat_eq
  rw [widen, BitVec.toNat_setWidth, UInt8.toNat_toBitVec, UInt8.toNat_ofNat', BitVec.toNat_ofNat,
    Nat.mod_eq_of_lt (Nat.lt_trans small (by decide))]

/-- A number is its lowest group and the others above it. -/
theorem ofNat_groups {n : Nat} (value shift : Nat) :
    BitVec.ofNat n (value &&& 0x7F) <<< shift ||| BitVec.ofNat n (value >>> 7) <<< (shift + 7) =
      BitVec.ofNat n value <<< shift := by
  have low (k : Nat) : (0x7F).testBit k = decide (k < 7) := Nat.testBit_two_pow_sub_one 7 k
  apply BitVec.eq_of_getLsbD_eq
  intro i bound
  rw [BitVec.getLsbD_or, BitVec.getLsbD_shiftLeft, BitVec.getLsbD_shiftLeft, BitVec.getLsbD_shiftLeft,
    BitVec.getLsbD_ofNat,
    BitVec.getLsbD_ofNat, BitVec.getLsbD_ofNat, Nat.testBit_and, Nat.testBit_shiftRight, low]
  by_cases before : i < shift
  · simp [before, Nat.lt_add_right 7 before]
  by_cases lowest : i < shift + 7
  · have inside : i - shift < 7 := by omega
    simp [before, lowest, inside]
  · have inside : ¬ i - shift < 7 := by omega
    have place : 7 + (i - (shift + 7)) = i - shift := by omega
    have within : i - (shift + 7) < n ∧ i - shift < n := by omega
    simp [before, lowest, inside, place, within]

theorem shiftRight_lt {groups value : Nat} (fits : value < 128 ^ (groups + 1)) : value >>> 7 < 128 ^ groups := by
  rw [Nat.shiftRight_eq_div_pow]
  exact Nat.div_lt_of_lt_mul (by rwa [Nat.mul_comm, ← Nat.pow_succ])

/-- A number that fits the groups is read back, and its bytes are consumed. -/
theorem decode_encode {n : Nat} (groups shift value : Nat) (fits : value < 128 ^ groups) (earlier : BitVec n)
    (rest : Bytes) :
    decode groups shift earlier (encode groups value ++ rest) =
      (earlier ||| BitVec.ofNat n value <<< shift, (encode groups value).length) := by
  induction groups generalizing shift value earlier with
  | zero =>
    obtain rfl : value = 0 := by simpa using fits
    simp [decode, encode]
  | succ groups ih =>
    have small : value &&& 0x7F < 128 := by
      rw [and_127]
      exact Nat.mod_lt _ (by decide)
    obtain ⟨⟨last, lastGroup⟩, more, moreGroup⟩ := group_bits small
    rw [encode]
    by_cases further : value >>> 7 > 0
    · rw [if_pos further]
      have higher : value >>> 7 < 128 ^ groups := shiftRight_lt fits
      simp only [List.cons_append, decode, moreGroup, widen_group small, if_neg more, ih _ _ higher, BitVec.or_assoc,
        ofNat_groups, List.length_cons]
    · have only : value &&& 0x7F = value := by
        rw [Nat.shiftRight_eq_div_pow] at further
        rw [and_127]
        omega
      rw [if_neg further]
      rw [only] at last lastGroup small ⊢
      simp only [List.cons_append, List.nil_append, decode, lastGroup, widen_group small, if_pos last,
        List.length_singleton]

theorem length_encode_pos (groups value : Nat) : 1 ≤ (encode (groups + 1) value).length := by
  rw [encode]
  split
  · rw [List.length_cons]
    omega
  · exact Nat.le_refl 1

/-- Further groups are not used. -/
theorem encode_add {groups value : Nat} (positive : 0 < groups) (fits : value < 128 ^ groups) (more : Nat) :
    encode (groups + more) value = encode groups value := by
  induction groups generalizing value with
  | zero => cases positive
  | succ groups ih =>
    rw [Nat.add_right_comm, encode, encode]
    by_cases further : value >>> 7 > 0
    · have higher : value >>> 7 < 128 ^ groups := shiftRight_lt fits
      have some : 0 < groups := by
        by_contra none
        obtain rfl : groups = 0 := by omega
        rw [Nat.pow_zero] at higher
        omega
      rw [if_pos further, if_pos further, ih some higher]
    · rw [if_neg further, if_neg further]

section Codes

variable {n groups shift : Nat} {value : BitVec n} {byte : UInt8} {bytes code : Bytes}

/-- The bytes of one number: every byte but the last has its top bit set. -/
inductive Complete : Bytes → Prop where
  | last {byte : UInt8} (ends : byte &&& 0x80 = 0) : Complete [byte]
  | more {byte : UInt8} {rest : Bytes} (goesOn : byte &&& 0x80 ≠ 0) (others : Complete rest) : Complete (byte :: rest)

theorem complete_encode (groups value : Nat) (fits : value < 128 ^ (groups + 1)) :
    Complete (encode (groups + 1) value) := by
  have small (value : Nat) : value &&& 0x7F < 128 := by
    rw [and_127]
    exact Nat.mod_lt _ (by decide)
  induction groups generalizing value with
  | zero =>
    have top : ¬value >>> 7 > 0 := Nat.not_lt.mpr (Nat.le_of_lt_succ (shiftRight_lt fits))
    rw [encode, if_neg top]
    exact .last (group_bits (small value)).1.1
  | succ groups ih =>
    rw [encode]
    split
    · exact .more (group_bits (small value)).2.1 (ih _ (shiftRight_lt fits))
    · exact .last (group_bits (small value)).1.1

/-- What is read as one number is the code that the bytes begin with, if it has no more bytes than are read. -/
theorem decode_complete (complete : Complete code) (short : code.length ≤ groups) (begins : code <+: bytes) :
    (decode groups shift value bytes).2 = code.length := by
  induction complete generalizing groups shift value bytes with
  | @last byte ends =>
    obtain ⟨rest, rfl⟩ := begins
    cases groups with
    | zero => cases short
    | succ groups => simp only [List.cons_append, decode, if_pos ends, List.length_singleton]
  | @more byte code goesOn _ ih =>
    obtain ⟨rest, rfl⟩ := begins
    cases groups with
    | zero => cases short
    | succ groups =>
      simp only [List.cons_append, decode, if_neg goesOn, List.length_cons]
      exact congrArg (· + 1) (ih (Nat.le_of_succ_le_succ short) (List.prefix_append code rest))

theorem Complete.exists_last (complete : Complete code) : ∃ byte ∈ code, byte &&& 0x80 = 0 := by
  induction complete with
  | last ends => exact ⟨_, List.mem_singleton_self _, ends⟩
  | more _ _ ih =>
    obtain ⟨byte, inside, ends⟩ := ih
    exact ⟨byte, List.mem_cons_of_mem _ inside, ends⟩

/-- Bytes begin with a code of so many bytes exactly if one of so many has its top bit clear. -/
theorem exists_complete_iff : (∃ code, Complete code ∧ code.length ≤ groups ∧ code <+: bytes) ↔
    ∃ byte ∈ bytes.take groups, byte &&& 0x80 = 0 := by
  constructor
  · intro ⟨code, complete, short, begins⟩
    have inside : code <+: bytes.take groups := List.prefix_take_iff.mpr ⟨begins, short⟩
    obtain ⟨byte, member, ends⟩ := complete.exists_last
    exact ⟨byte, inside.subset member, ends⟩
  · intro ⟨byte, member, ends⟩
    induction groups generalizing bytes with
    | zero => cases member
    | succ groups ih =>
      cases bytes with
      | nil => cases member
      | cons first rest =>
        by_cases only : first &&& 0x80 = 0
        · exact ⟨[first], .last only, Nat.succ_le_succ (Nat.zero_le _), ⟨rest, rfl⟩⟩
        · rcases List.mem_cons.mp member with rfl | later
          · exact absurd ends only
          · obtain ⟨code, complete, short, begins⟩ := ih later
            exact ⟨first :: code, .more only complete, Nat.succ_le_succ short, (List.prefix_cons_inj first).mpr begins⟩

end Codes

end MiniNetDist.Library.Varint
