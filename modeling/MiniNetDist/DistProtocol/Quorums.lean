import MiniNetDist.Library.BitSubsets

/-! The majorities of a system as masks: their enumeration by the next number with as many bits, and what two of them
share. -/

namespace MiniNetDist.DistProtocol.Quorums

open Library.BitSubsets

/-- Whatever two majorities share at least. -/
def quorumIntersectionMin (n : Int) : Int :=
  if n ≤ 0 then 0 else if n = 1 then 1 else 2 * (n / 2 + 1) - n

/-- The lowest process of both masks, or `-1`. -/
def quorumPairIntersection (quorumA quorumB : BitVec 64) (n : Int) : Int :=
  let intersection := quorumA &&& quorumB
  if intersection = 0 then -1
  else match (List.range (min n.toNat 64)).find? fun i => intersection &&& (1#64 <<< i) != 0 with
    | some i => i
    | none => -1

/-- The body of the loop; a division by zero is undefined. -/
def nextSubset (subset : BitVec 64) : Option (BitVec 64) :=
  let c := subset &&& (~~~subset + 1)
  let r := subset + c
  if c * 4 = 0 then none else some (r ||| ((r ^^^ subset) / (c * 4)))

/-- The loop, with the number of masks that are still accepted. -/
def quorumLoop (maxMask : BitVec 64) : Nat → BitVec 64 → Option (List (BitVec 64))
  | 0, _ => some []
  | rounds + 1, subset =>
    if subset ≤ maxMask then do
      let next ← nextSubset subset
      let masks ← quorumLoop maxMask rounds next
      return subset :: masks
    else some []

/-- The masks in the order they are written. For 64 processes the mask of all is a shift by the whole width, which is
undefined. -/
def quorumEnumerateAll (n maxQuorums : Int) : Option (List (BitVec 64)) :=
  if n ≤ 0 ∨ 64 < n then some []
  else if n = 64 then none
  else quorumLoop ((1#64 <<< n.toNat) - 1) maxQuorums.toNat ((1#64 <<< (n / 2 + 1).toNat) - 1)

variable {n : Nat} {a b subset : BitVec 64}

/-- The step of the loop finds the successor wherever the last one of the mask is below the two highest bits. -/
theorem nextSubset_eq {high k last : Nat} (shape : subset.toNat = run high k last) (room : last + 2 < 64)
    (small : moved high k last < 2 ^ 64) : ∃ next, nextSubset subset = some next ∧
      next.toNat = successor 64 subset.toNat := by
  have inside : run high k last < 2 ^ 64 := shape ▸ subset.isLt
  have positive : 0 < run high k last := Nat.lt_of_lt_of_le (Nat.two_pow_pos _) (two_pow_le_run high k last)
  have complement : (~~~subset + 1#64).toNat = 2 ^ 64 - run high k last := by
    rw [← BitVec.neg_eq_not_add, BitVec.toNat_neg, shape]
    exact Nat.mod_eq_of_lt (by omega)
  have lowest : (subset &&& (~~~subset + 1#64)).toNat = 2 ^ last := by
    rw [BitVec.toNat_and, complement, shape, last_run inside]
  have carry : run high k last + 2 ^ last < 2 ^ 64 := by
    refine Nat.lt_of_le_of_lt ?_ small
    rw [run_add, moved]
    exact Nat.le_add_right _ _
  have carried : (subset + (subset &&& (~~~subset + 1#64))).toNat = run high k last + 2 ^ last := by
    rw [BitVec.toNat_add, lowest, shape, Nat.mod_eq_of_lt carry]
  have divisor : ((subset &&& (~~~subset + 1#64)) * 4#64).toNat = 2 ^ last * 4 := by
    have fits : 2 ^ last * 4 < 2 ^ 64 := by
      rw [show 2 ^ last * 4 = 2 ^ (last + 2) from (Nat.pow_add 2 last 2).symm]
      exact Nat.pow_lt_pow_right Nat.one_lt_two room
    rw [BitVec.toNat_mul, lowest]
    exact Nat.mod_eq_of_lt fits
  have nonzero : (subset &&& (~~~subset + 1#64)) * 4#64 ≠ 0#64 := by
    intro zero
    have := Nat.two_pow_pos last
    rw [zero] at divisor
    change 0 = _ at divisor
    omega
  refine ⟨_, if_neg nonzero, ?_⟩
  rw [shape, successor_run inside]
  rw [BitVec.toNat_or, BitVec.toNat_udiv, BitVec.toNat_xor]
  change (subset + (subset &&& (~~~subset + 1#64))).toNat |||
    ((subset + (subset &&& (~~~subset + 1#64))).toNat ^^^ subset.toNat) /
      ((subset &&& (~~~subset + 1#64)) * 4#64).toNat = _
  rw [carried, divisor, shape, run_xor_div, run_or]

/-- The least mask of a majority is inside the width of the processes. -/
theorem quorum_le (positive : 0 < n) : n / 2 + 1 ≤ n := by omega

/-- A majority leaves out half of the bits, so its last one is in the lower half. -/
theorem last_le {high k last : Nat} (inside : run high k last < 2 ^ n)
    (majority : weight n (run high k last) = n / 2 + 1) : last + (n / 2 + 1) ≤ n := by
  have short : last + k < n := (Nat.pow_lt_pow_iff_right Nat.one_lt_two).mp
    (Nat.lt_of_le_of_lt (two_pow_le_run high k last) inside)
  obtain ⟨rest, rfl⟩ := Nat.exists_eq_add_of_le (show last ≤ n by omega)
  rw [run, ← Nat.add_zero (_ * 2 ^ last), weight_join _ (Nat.two_pow_pos last), weight_zero, Nat.zero_add] at majority
  have bound := weight_le rest (high * 2 ^ (k + 2) + (2 ^ (k + 1) - 1))
  omega

theorem weight_pos {width m k : Nat} (count : weight width m = k + 1) : 0 < m := by
  apply Nat.pos_of_ne_zero
  intro zero
  rw [zero, weight_zero] at count
  cases count

/-- The loop walks through the majorities. -/
theorem quorumLoop_eq (width : n < 64) {maxMask : BitVec 64} (mask : maxMask.toNat + 1 = 2 ^ n) (rounds : Nat)
    (majority : weight (n + 1) subset.toNat = n / 2 + 1) :
    ∃ masks, quorumLoop maxMask rounds subset = some masks ∧
      masks.map BitVec.toNat = walk (successor 64) (2 ^ n) rounds subset.toNat := by
  induction rounds generalizing subset with
  | zero => exact ⟨[], rfl, rfl⟩
  | succ rounds ih =>
    rw [quorumLoop, walk]
    by_cases inside : subset.toNat < 2 ^ n
    · have positive : 0 < subset.toNat := weight_pos majority
      have fewer : weight n subset.toNat = n / 2 + 1 := by rw [← weight_of_lt inside 1, majority]
      obtain ⟨high, k, last, shape⟩ := exists_run positive
      have low := last_le (shape ▸ inside) (shape ▸ fewer)
      have small : moved high k last < 2 ^ 64 := by
        have grows := moved_le high k last
        have below := two_pow_le_run high k last
        have double : 2 ^ (n + 1) ≤ 2 ^ 64 := Nat.pow_le_pow_right Nat.two_pos width
        rw [Nat.pow_succ] at double
        omega
      obtain ⟨next, step, successive⟩ := nextSubset_eq shape (by omega) small
      have kept : weight (n + 1) next.toNat = n / 2 + 1 := by
        rw [successive, weight_successor positive inside (Nat.le_of_lt width), majority]
      obtain ⟨masks, rest, listed⟩ := ih kept
      have bound : subset ≤ maxMask := BitVec.le_def.mpr (by omega)
      refine ⟨subset :: masks, ?_, ?_⟩
      · rw [if_pos bound, step, Option.bind_eq_bind, Option.bind_some, rest]
        rfl
      · rw [if_pos inside, List.map_cons, listed, successive]
    · have above : ¬ subset ≤ maxMask := fun bound => inside (by have := BitVec.le_def.mp bound; omega)
      rw [if_neg above, if_neg inside]
      exact ⟨[], rfl, rfl⟩

theorem toNat_ones {k : Nat} (inside : k < 64) : ((1#64 <<< k) - 1).toNat + 1 = 2 ^ k := by
  have positive := Nat.two_pow_pos k
  have bound : 2 ^ k < 2 ^ 64 := Nat.pow_lt_pow_right Nat.one_lt_two inside
  have power : (1#64 <<< k).toNat = 2 ^ k := by
    rw [BitVec.toNat_shiftLeft, Nat.shiftLeft_eq]
    exact (congrArg (· % 2 ^ 64) (Nat.one_mul _)).trans (Nat.mod_eq_of_lt bound)
  have least : (1#64).toNat ≤ (1#64 <<< k).toNat := power ▸ positive
  rw [show (1#64 <<< k) - 1 = (1#64 <<< k) - 1#64 from rfl, BitVec.toNat_sub_of_le (BitVec.le_def.mpr least), power]
  exact Nat.sub_add_cancel positive

/-- Nothing below the first subset is a majority. -/
theorem filter_majorities (fewer : n / 2 + 1 ≤ n) :
    (List.range' (2 ^ (n / 2 + 1) - 1) (2 ^ n - (2 ^ (n / 2 + 1) - 1))).filter
        (fun m => decide (weight (n + 1) m = n / 2 + 1)) =
      (List.range (2 ^ n)).filter fun m => decide (weight n m = n / 2 + 1) := by
  have least : 2 ^ (n / 2 + 1) ≤ 2 ^ n := Nat.pow_le_pow_right Nat.two_pos fewer
  have positive := Nat.two_pow_pos (n / 2 + 1)
  have parts := @List.range'_append_1 0 (2 ^ (n / 2 + 1) - 1) (2 ^ n - (2 ^ (n / 2 + 1) - 1))
  rw [Nat.zero_add, show 2 ^ (n / 2 + 1) - 1 + (2 ^ n - (2 ^ (n / 2 + 1) - 1)) = 2 ^ n by omega] at parts
  have none : (List.range' 0 (2 ^ (n / 2 + 1) - 1)).filter (fun m => decide (weight n m = n / 2 + 1)) = [] := by
    refine List.filter_eq_nil_iff.mpr fun m listed holds => ?_
    have bounds := List.mem_range'_1.mp listed
    have few := two_pow_weight_le n m
    rw [of_decide_eq_true holds] at few
    omega
  rw [List.range_eq_range', ← parts, List.filter_append, none, List.nil_append]
  refine List.filter_congr fun m listed => ?_
  have bounds := List.mem_range'_1.mp listed
  rw [weight_of_lt (show m < 2 ^ n by omega) 1]

/-- The list of all majorities in order, cut to what is asked for. -/
theorem quorumEnumerateAll_eq (nonempty : 0 < n) (width : n < 64) (maxQuorums : Int) :
    ∃ masks, quorumEnumerateAll n maxQuorums = some masks ∧
      masks.map BitVec.toNat =
        ((List.range (2 ^ n)).filter fun m => decide (weight n m = n / 2 + 1)).take maxQuorums.toNat := by
  have fewer := quorum_le nonempty
  have mask := toNat_ones width
  have first := toNat_ones (Nat.lt_of_le_of_lt fewer width)
  have start : ((1#64 <<< (n / 2 + 1)) - 1).toNat = 2 ^ (n / 2 + 1) - 1 := by omega
  have majority : weight (n + 1) (2 ^ (n / 2 + 1) - 1) = n / 2 + 1 := by
    obtain ⟨rest, wider⟩ := Nat.exists_eq_add_of_le (Nat.le_succ_of_le fewer)
    rw [show n + 1 = n / 2 + 1 + rest from wider, weight_of_lt (by have := Nat.two_pow_pos (n / 2 + 1); omega),
      weight_ones]
  obtain ⟨masks, listed, walked⟩ := quorumLoop_eq width mask maxQuorums.toNat (start ▸ majority)
  refine ⟨masks, ?_, ?_⟩
  · rw [quorumEnumerateAll, if_neg (by omega), if_neg (by omega), ← listed]
    congr 3
  rw [walked, start, walk_eq (P := fun m => decide (weight (n + 1) m = n / 2 + 1)) (decide_eq_true majority)]
  · rw [filter_majorities fewer]
  · intro m holds inside
    have count := of_decide_eq_true holds
    have positive : 0 < m := weight_pos count
    exact decide_eq_true ((weight_successor positive inside (Nat.le_of_lt width)).trans count)
  · intro m holds inside
    have positive : 0 < m := weight_pos (of_decide_eq_true holds)
    exact lt_successor positive (Nat.lt_trans inside (Nat.pow_lt_pow_right Nat.one_lt_two width))
  · intro m other holds inside above below
    have count := of_decide_eq_true holds
    have positive : 0 < m := weight_pos count
    have differs := successor_between positive inside (Nat.le_of_lt width) above below
    exact decide_eq_false (count ▸ differs)

/-- The test of one bit. -/
theorem and_shiftLeft_ne_zero (x : BitVec 64) {i : Nat} (inside : i < 64) :
    (x &&& (1#64 <<< i) != 0) = x.toNat.testBit i := by
  have tested := @BitVec.and_twoPow 64 x i
  have power : BitVec.twoPow 64 i ≠ 0#64 := by
    intro zero
    have bit := congrArg (BitVec.getLsbD · i) zero
    simp [inside] at bit
  rw [show 1#64 <<< i = BitVec.twoPow 64 i from rfl, tested, show x.toNat.testBit i = x.getLsbD i from rfl]
  cases x.getLsbD i
  · rfl
  · simpa using power

/-- Two masks with a common process: the pair's answer is the lowest. -/
theorem quorumPairIntersection_eq (width : n ≤ 64) (common : 0 < weight n (a &&& b).toNat) :
    ∃ i, i < n ∧ quorumPairIntersection a b n = Int.ofNat i ∧ (a &&& b).toNat.testBit i = true ∧
      ∀ j, j < i → (a &&& b).toNat.testBit j = false := by
  obtain ⟨shared, inside, member⟩ := exists_testBit common
  have nonzero : ¬ a &&& b = 0 := by
    intro zero
    rw [zero] at common
    exact absurd common (by rw [show (0 : BitVec 64).toNat = 0 from rfl, weight_zero]; exact Nat.lt_irrefl 0)
  rw [quorumPairIntersection, if_neg nonzero]
  split
  next i found =>
    obtain ⟨holds, listed, before⟩ := List.find?_range_eq_some.mp found
    have bound := List.mem_range.mp listed
    refine ⟨i, by omega, rfl, ?_, fun j lower => ?_⟩
    · rwa [and_shiftLeft_ne_zero _ (by omega)] at holds
    · have misses := before j lower
      rw [and_shiftLeft_ne_zero _ (by omega)] at misses
      exact Bool.not_eq_true' _ ▸ misses
  next none =>
    have misses := List.find?_eq_none.mp none shared (List.mem_range.mpr (by omega))
    rw [and_shiftLeft_ne_zero _ (by omega)] at misses
    exact absurd member misses

/-- Two majorities share at least what the bound says. -/
theorem quorumIntersectionMin_le (nonempty : 0 < n) {x y : Nat} (first : weight n x = n / 2 + 1)
    (second : weight n y = n / 2 + 1) : quorumIntersectionMin n ≤ weight n (x &&& y) := by
  have counted := weight_and_add_or n x y
  have bound := weight_le n (x ||| y)
  rw [quorumIntersectionMin]
  split
  · omega
  · split <;> omega

/-- The masks listed are the first of all majorities in increasing order. Two of them always share at least as many
processes as the bound says, and the answer for the pair is the lowest one. -/
theorem quorumEnumerateAll_intersect (nonempty : 0 < n) (width : n < 64) (maxQuorums : Int) :
    ∃ masks, quorumEnumerateAll n maxQuorums = some masks ∧
      masks.map BitVec.toNat =
        ((List.range (2 ^ n)).filter fun m => decide (weight n m = n / 2 + 1)).take maxQuorums.toNat ∧
      ∀ a ∈ masks, ∀ b ∈ masks, quorumIntersectionMin n ≤ weight n (a &&& b).toNat ∧
        ∃ i, i < n ∧ quorumPairIntersection a b n = Int.ofNat i ∧ (a &&& b).toNat.testBit i = true ∧
          ∀ j, j < i → (a &&& b).toNat.testBit j = false := by
  obtain ⟨masks, listed, all⟩ := quorumEnumerateAll_eq nonempty width maxQuorums
  have counts : ∀ a ∈ masks, weight n a.toNat = n / 2 + 1 := by
    intro a member
    have kept := all ▸ List.mem_map_of_mem (f := BitVec.toNat) member
    exact of_decide_eq_true (List.mem_filter.mp (List.mem_of_mem_take kept)).2
  refine ⟨masks, listed, all, fun a first b second => ?_⟩
  have shared := quorumIntersectionMin_le nonempty (counts a first) (counts b second)
  rw [← BitVec.toNat_and] at shared
  refine ⟨shared, quorumPairIntersection_eq (Nat.le_of_lt width) ?_⟩
  rw [quorumIntersectionMin, if_neg (by omega)] at shared
  split at shared <;> omega

theorem quorumEnumerateAll_intersect_five : ∃ masks, quorumEnumerateAll (5 : Nat) 4 = some masks ∧
    masks.map BitVec.toNat = [7, 11, 13, 14] ∧
      ∀ a ∈ masks, ∀ b ∈ masks, quorumIntersectionMin (5 : Nat) ≤ weight 5 (a &&& b).toNat := by
  obtain ⟨masks, listed, all, share⟩ := quorumEnumerateAll_intersect (n := 5) (by decide) (by decide) 4
  exact ⟨masks, listed, all.trans (by decide), fun a first b second => (share a first b second).1⟩

end MiniNetDist.DistProtocol.Quorums
