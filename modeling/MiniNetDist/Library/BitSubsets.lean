import Mathlib.Algebra.Group.Nat.Defs
import Mathlib.Data.Nat.Factorization.Basic
import Mathlib.Data.Nat.Bitwise
import Mathlib.Data.List.Range

/-! Sets of numbers below a width as the bits of a number. Those with as many elements as a given one are enumerated in
order by one step: the lowest run of ones moves its highest bit up, and the others down to the end. -/

namespace MiniNetDist.Library.BitSubsets

/-- How many of the lowest bits are ones. -/
def weight : Nat → Nat → Nat
  | 0, _ => 0
  | width + 1, n => n % 2 + weight width (n / 2)

variable {width count a b n m high low : Nat}

theorem weight_zero (width : Nat) : weight width 0 = 0 := by
  induction width with
  | zero => rfl
  | succ width ih => exact (Nat.zero_add _).trans ih

/-- The bits of a number are those of its two parts. -/
theorem weight_join (high : Nat) (inside : low < 2 ^ a) :
    weight (a + b) (high * 2 ^ a + low) = weight a low + weight b high := by
  induction a generalizing low with
  | zero =>
    obtain rfl := Nat.lt_one_iff.mp inside
    rw [Nat.zero_add, Nat.pow_zero, Nat.mul_one, Nat.add_zero]
    exact (Nat.zero_add _).symm
  | succ a ih =>
    have half : low / 2 < 2 ^ a := Nat.div_lt_of_lt_mul (by rwa [Nat.pow_succ, Nat.mul_comm] at inside)
    have split : high * 2 ^ (a + 1) + low = 2 * (high * 2 ^ a) + low := by
      rw [Nat.pow_succ, ← Nat.mul_assoc, Nat.mul_comm]
    have rest : (2 * (high * 2 ^ a) + low) / 2 = high * 2 ^ a + low / 2 := by omega
    have last : (2 * (high * 2 ^ a) + low) % 2 = low % 2 := by omega
    rw [Nat.add_right_comm, weight, weight, split, rest, last, ih half, Nat.add_assoc]

theorem weight_of_lt (inside : low < 2 ^ a) (b : Nat) : weight (a + b) low = weight a low := by
  have joined := @weight_join a b low 0 inside
  rwa [Nat.zero_mul, Nat.zero_add, weight_zero, Nat.add_zero] at joined

theorem weight_le (width n : Nat) : weight width n ≤ width := by
  induction width generalizing n with
  | zero => exact Nat.le_refl 0
  | succ width ih =>
    have rest := ih (n / 2)
    rw [weight]
    omega

/-- The least number with so many ones has them at its end. -/
theorem two_pow_weight_le (width n : Nat) : 2 ^ weight width n ≤ n + 1 := by
  induction width generalizing n with
  | zero => exact Nat.succ_le_succ (Nat.zero_le n)
  | succ width ih =>
    have rest := ih (n / 2)
    rw [weight, Nat.pow_add]
    rcases Nat.mod_two_eq_zero_or_one n with even | odd
    · rw [even, Nat.pow_zero, Nat.one_mul]
      omega
    · rw [odd, Nat.pow_one]
      omega

/-- The greatest number with so many ones has them at its beginning. -/
theorem add_two_pow_le (inside : n < 2 ^ width) : n + 2 ^ (width - weight width n) ≤ 2 ^ width := by
  induction width generalizing n with
  | zero => exact inside
  | succ width ih =>
    have rest := ih (Nat.div_lt_of_lt_mul (by rwa [Nat.pow_succ, Nat.mul_comm] at inside))
    have few := weight_le width (n / 2)
    rw [weight, Nat.pow_succ]
    rcases Nat.mod_two_eq_zero_or_one n with even | odd
    · rw [even, Nat.zero_add, Nat.succ_sub few, Nat.pow_succ]
      omega
    · rw [odd, Nat.add_comm 1, Nat.add_sub_add_right]
      omega

theorem weight_ones (b : Nat) : weight b (2 ^ b - 1) = b := by
  induction b with
  | zero => rfl
  | succ b ih =>
    have positive := Nat.two_pow_pos b
    have half : (2 ^ (b + 1) - 1) / 2 = 2 ^ b - 1 := by
      rw [Nat.pow_succ]
      omega
    have last : (2 ^ (b + 1) - 1) % 2 = 1 := by
      rw [Nat.pow_succ]
      omega
    rw [weight, half, last, ih, Nat.add_comm]

theorem exists_testBit (some : 0 < weight width n) : ∃ i, i < width ∧ n.testBit i = true := by
  induction width generalizing n with
  | zero => exact absurd some (Nat.lt_irrefl 0)
  | succ width ih =>
    rcases Nat.mod_two_eq_zero_or_one n with even | odd
    · rw [weight, even, Nat.zero_add] at some
      obtain ⟨i, inside, member⟩ := ih some
      exact ⟨i + 1, Nat.succ_lt_succ inside, (Nat.testBit_succ n i).trans member⟩
    · exact ⟨0, Nat.succ_pos width, by rw [Nat.testBit_zero, odd]; rfl⟩

/-- Two sets have as many elements as what they share and what is in either. -/
theorem weight_and_add_or (width n m : Nat) :
    weight width (n &&& m) + weight width (n ||| m) = weight width n + weight width m := by
  induction width generalizing n m with
  | zero => rfl
  | succ width ih =>
    have rest := ih (n / 2) (m / 2)
    have both := @Nat.and_mod_two_pow n m 1
    have either := @Nat.or_mod_two_pow n m 1
    rw [Nat.pow_one] at both either
    have last : (n &&& m) % 2 + (n ||| m) % 2 = n % 2 + m % 2 := by
      rcases Nat.mod_two_eq_zero_or_one n with n0 | n1 <;> rcases Nat.mod_two_eq_zero_or_one m with m0 | m1 <;>
        rw [both, either] <;> simp only [*] <;> rfl
    simp only [weight, Nat.and_div_two, Nat.or_div_two]
    omega

section Run

variable {k c : Nat}

/-- A number whose lowest ones are `k + 1`, from the bit `a` on. -/
def run (high k a : Nat) : Nat := (high * 2 ^ (k + 2) + (2 ^ (k + 1) - 1)) * 2 ^ a

/-- The highest of these ones is moved up and the others to the end. -/
def moved (high k a : Nat) : Nat := (2 * high + 1) * 2 ^ (a + (k + 1)) + (2 ^ k - 1)

theorem exists_run (positive : 0 < n) : ∃ high k a, n = run high k a := by
  obtain ⟨a, odd, ⟨t, isOdd⟩, factored⟩ := Nat.exists_eq_two_pow_mul_odd (Nat.ne_of_gt positive)
  obtain ⟨b, rest, ⟨high, isRest⟩, carried⟩ := Nat.exists_eq_two_pow_mul_odd (Nat.succ_ne_zero odd)
  cases b with
  | zero => omega
  | succ k =>
    refine ⟨high, k, a, ?_⟩
    have ones : odd = high * 2 ^ (k + 2) + (2 ^ (k + 1) - 1) := by
      have positive := Nat.two_pow_pos (k + 1)
      have doubled : 2 ^ (k + 1) * (2 * high + 1) = high * 2 ^ (k + 2) + 2 ^ (k + 1) := by
        rw [Nat.pow_succ 2 (k + 1), Nat.mul_add, Nat.mul_one, ← Nat.mul_assoc, Nat.mul_comm _ high]
      rw [isRest, doubled] at carried
      omega
    rw [factored, ones, Nat.mul_comm, run]

/-- The ones above the run, at their place. -/
theorem run_eq (high k a : Nat) : run high k a = high * 2 ^ (a + (k + 2)) + (2 ^ (a + (k + 1)) - 2 ^ a) := by
  rw [run, Nat.add_mul, Nat.mul_assoc, ← Nat.pow_add, Nat.add_comm (k + 2), Nat.sub_mul, Nat.one_mul, ← Nat.pow_add,
    Nat.add_comm (k + 1)]

theorem moved_eq (high k a : Nat) :
    moved high k a = high * 2 ^ (a + (k + 2)) + (2 ^ (a + (k + 1)) + (2 ^ k - 1)) := by
  rw [moved, Nat.add_mul, Nat.one_mul, Nat.mul_comm 2, Nat.mul_assoc, ← Nat.pow_succ', Nat.add_assoc]
  rfl

theorem two_pow_le_run (high k a : Nat) : 2 ^ (a + k) ≤ run high k a := by
  have grows : 2 ^ a ≤ 2 ^ (a + k) := Nat.pow_le_pow_right Nat.two_pos (Nat.le_add_right a k)
  have doubled : 2 ^ (a + (k + 1)) = 2 ^ (a + k) * 2 := Nat.pow_succ _ _
  rw [run_eq]
  omega

theorem run_lt_moved (high k a : Nat) : run high k a < moved high k a := by
  have positive := Nat.two_pow_pos a
  have grows : 2 ^ a ≤ 2 ^ (a + (k + 1)) := Nat.pow_le_pow_right Nat.two_pos (Nat.le_add_right a _)
  rw [run_eq, moved_eq]
  omega

private theorem ones_lt (k a : Nat) : 2 ^ k - 1 < 2 ^ (a + (k + 1)) := by
  have positive := Nat.two_pow_pos k
  have grows : 2 ^ k ≤ 2 ^ (a + (k + 1)) := Nat.pow_le_pow_right Nat.two_pos (by omega)
  omega

theorem weight_run (high k a c : Nat) : weight (a + (k + 2 + c)) (run high k a) = k + 1 + weight c high := by
  have positive := Nat.two_pow_pos (k + 1)
  have doubled : 2 ^ (k + 2) = 2 ^ (k + 1) * 2 := Nat.pow_succ _ _
  have ones : weight (k + 2) (2 ^ (k + 1) - 1) = k + 1 := by
    rw [show k + 2 = k + 1 + 1 from rfl, weight_of_lt (by omega), weight_ones]
  rw [run, ← Nat.add_zero (_ * 2 ^ a), weight_join _ (Nat.two_pow_pos a), weight_zero, Nat.zero_add,
    weight_join _ (by omega), ones]

/-- Moving the run keeps the number of ones. -/
theorem weight_moved (high k a c : Nat) : weight (a + (k + 2 + c)) (moved high k a) = k + 1 + weight c high := by
  have ones : weight (a + (k + 1)) (2 ^ k - 1) = k := by
    rw [show a + (k + 1) = k + (a + 1) by omega, weight_of_lt (by have := Nat.two_pow_pos k; omega), weight_ones]
  have last : weight (c + 1) (2 * high + 1) = 1 + weight c high := by
    rw [weight, show (2 * high + 1) % 2 = 1 by omega, show (2 * high + 1) / 2 = high by omega]
  rw [show a + (k + 2 + c) = a + (k + 1) + (c + 1) by omega, moved, weight_join _ (ones_lt k a), ones, last,
    ← Nat.add_assoc]

/-- No number between has as many ones. -/
theorem weight_between (above : run high k a < m) (below : m < moved high k a) :
    weight (a + (k + 2 + c)) m ≠ k + 1 + weight c high := by
  have grows : 2 ^ a ≤ 2 ^ (a + (k + 1)) := Nat.pow_le_pow_right Nat.two_pos (Nat.le_add_right a _)
  have doubled : 2 ^ (a + (k + 2)) = 2 ^ (a + (k + 1)) * 2 := Nat.pow_succ _ _
  have short := ones_lt k a
  rw [run_eq] at above
  rw [moved_eq] at below
  -- The ones above the run stay, so the number differs from the run only below them.
  obtain ⟨rest, rfl⟩ := Nat.exists_eq_add_of_le (show high * 2 ^ (a + (k + 2)) ≤ m by omega)
  rw [show a + (k + 2 + c) = a + (k + 2) + c by omega, weight_join high (show rest < 2 ^ (a + (k + 2)) by omega)]
  intro same
  have count : weight (a + (k + 2)) rest = k + 1 := by omega
  by_cases inside : rest < 2 ^ (a + (k + 1))
  · rw [show a + (k + 2) = a + (k + 1) + 1 by omega, weight_of_lt inside] at count
    have greatest := add_two_pow_le inside
    rw [count, Nat.add_sub_cancel] at greatest
    omega
  · obtain ⟨low, rfl⟩ := Nat.exists_eq_add_of_le (Nat.le_of_not_lt inside)
    have joined := @weight_join (a + (k + 1)) 1 low 1 (by omega)
    rw [Nat.one_mul, show weight 1 1 = 1 from rfl] at joined
    rw [show a + (k + 2) = a + (k + 1) + 1 by omega, joined] at count
    have least := two_pow_weight_le (a + (k + 1)) low
    rw [show weight (a + (k + 1)) low = k by omega] at least
    omega

/-- The last one of a number, found with its two's complement. -/
theorem and_complement (odd : n % 2 = 1) (inside : n * 2 ^ a < 2 ^ width) :
    n * 2 ^ a &&& (2 ^ width - n * 2 ^ a) = 2 ^ a := by
  have fits : a < width := by
    apply (Nat.pow_lt_pow_iff_right Nat.one_lt_two).mp
    exact Nat.lt_of_le_of_lt (Nat.le_mul_of_pos_left _ (by omega)) inside
  obtain ⟨rest, rfl⟩ := Nat.exists_eq_add_of_lt fits
  obtain ⟨t, rfl⟩ : ∃ t, n = 2 * t + 1 := ⟨n / 2, by omega⟩
  have scaled : 2 ^ (a + rest + 1) = 2 * 2 ^ rest * 2 ^ a := by
    rw [Nat.add_assoc, Nat.add_comm, Nat.pow_add, Nat.pow_succ, Nat.mul_comm 2]
  have room : t < 2 ^ rest := by
    rw [scaled] at inside
    have := Nat.lt_of_mul_lt_mul_right inside
    omega
  have other : 2 * 2 ^ rest - (2 * t + 1) = 2 * (2 ^ rest - (t + 1)) + 1 := by omega
  have disjoint : t &&& (2 ^ rest - (t + 1)) = 0 := by
    apply Nat.eq_of_testBit_eq
    intro i
    rw [Nat.testBit_and, Nat.testBit_two_pow_sub_succ room, Nat.zero_testBit]
    cases t.testBit i <;> simp
  have last : (2 * t + 1) &&& (2 * (2 ^ rest - (t + 1)) + 1) = 1 := by
    have half := @Nat.and_div_two (2 * t + 1) (2 * (2 ^ rest - (t + 1)) + 1)
    have parity := @Nat.and_mod_two_pow (2 * t + 1) (2 * (2 ^ rest - (t + 1)) + 1) 1
    rw [show (2 * t + 1) / 2 = t by omega, show (2 * (2 ^ rest - (t + 1)) + 1) / 2 = 2 ^ rest - (t + 1) by omega,
      disjoint] at half
    rw [Nat.pow_one, show (2 * t + 1) % 2 = 1 by omega, show (2 * (2 ^ rest - (t + 1)) + 1) % 2 = 1 by omega,
      show 1 &&& 1 = 1 from rfl] at parity
    omega
  rw [scaled, ← Nat.sub_mul, other, ← Nat.shiftLeft_eq, ← Nat.shiftLeft_eq, ← Nat.shiftLeft_and_distrib, last,
    Nat.shiftLeft_eq, Nat.one_mul]

/-- The carry of adding the last one ends above the run. -/
theorem run_add (high k a : Nat) : run high k a + 2 ^ a = (2 * high + 1) * 2 ^ (a + (k + 1)) := by
  have grows : 2 ^ a ≤ 2 ^ (a + (k + 1)) := Nat.pow_le_pow_right Nat.two_pos (Nat.le_add_right a _)
  have joined := moved_eq high k a
  rw [moved] at joined
  rw [run_eq]
  omega

/-- The carry has changed the run and the bit above it. -/
theorem run_xor (high k a : Nat) : (run high k a + 2 ^ a) ^^^ run high k a = (2 ^ (k + 2) - 1) * 2 ^ a := by
  have positive := Nat.two_pow_pos (k + 1)
  have doubled : 2 ^ (k + 2) = 2 ^ (k + 1) * 2 := Nat.pow_succ _ _
  have carried : run high k a + 2 ^ a = (high * 2 ^ (k + 2) + 2 ^ (k + 1)) * 2 ^ a := by
    rw [run, ← Nat.succ_mul]
    congr 1
    omega
  have low : 2 ^ (k + 1) ^^^ (2 ^ (k + 1) - 1) = 2 ^ (k + 2) - 1 := by
    apply Nat.eq_of_testBit_eq
    intro i
    rw [Nat.testBit_xor, Nat.testBit_two_pow, Nat.testBit_two_pow_sub_one, Nat.testBit_two_pow_sub_one]
    by_cases atTop : k + 1 = i
    · subst atTop; simp
    · simp [atTop]; omega
  have both : (high * 2 ^ (k + 2) + 2 ^ (k + 1)) ^^^ (high * 2 ^ (k + 2) + (2 ^ (k + 1) - 1)) = 2 ^ (k + 2) - 1 := by
    rw [← Nat.div_add_mod (_ ^^^ _) (2 ^ (k + 2)), Nat.xor_div_two_pow, Nat.xor_mod_two_pow]
    rw [Nat.mul_comm high, Nat.mul_add_div (Nat.two_pow_pos _), Nat.mul_add_div (Nat.two_pow_pos _),
      Nat.div_eq_of_lt (show 2 ^ (k + 1) < 2 ^ (k + 2) by omega),
      Nat.div_eq_of_lt (show 2 ^ (k + 1) - 1 < 2 ^ (k + 2) by omega), Nat.xor_self, Nat.mul_zero, Nat.zero_add,
      Nat.mul_add_mod, Nat.mul_add_mod, Nat.mod_eq_of_lt (show 2 ^ (k + 1) < 2 ^ (k + 2) by omega),
      Nat.mod_eq_of_lt (show 2 ^ (k + 1) - 1 < 2 ^ (k + 2) by omega), low]
  rw [carried, run, ← Nat.shiftLeft_eq _ a, ← Nat.shiftLeft_eq _ a, ← Nat.shiftLeft_xor_distrib, both,
    Nat.shiftLeft_eq]

/-- What it changed, less two bits, are the ones to put at the end. -/
theorem run_xor_div (high k a : Nat) :
    ((run high k a + 2 ^ a) ^^^ run high k a) / (2 ^ a * 4) = 2 ^ k - 1 := by
  have doubled : 2 ^ (k + 2) = 2 ^ k * 4 := Nat.pow_add ..
  rw [run_xor, Nat.mul_comm, Nat.mul_div_mul_left _ _ (Nat.two_pow_pos a), doubled]
  omega

theorem run_or (high k a : Nat) : (run high k a + 2 ^ a) ||| (2 ^ k - 1) = moved high k a := by
  rw [run_add, moved, Nat.mul_comm, Nat.two_pow_add_eq_or_of_lt (ones_lt k a)]

/-- The moved run is below the next power of two. -/
theorem moved_le (high k a : Nat) : moved high k a ≤ run high k a + 2 ^ (a + k) := by
  have grows : 2 ^ a ≤ 2 ^ (a + (k + 1)) := Nat.pow_le_pow_right Nat.two_pos (Nat.le_add_right a _)
  obtain ⟨rest, more⟩ := Nat.exists_eq_add_of_lt (Nat.two_pow_pos a)
  have product : 2 ^ (a + k) = rest * 2 ^ k + 2 ^ k := by rw [Nat.pow_add, more, Nat.zero_add, Nat.succ_mul]
  have room : rest ≤ rest * 2 ^ k := Nat.le_mul_of_pos_right rest (Nat.two_pow_pos k)
  have positive := Nat.two_pow_pos k
  rw [run_eq, moved_eq]
  omega

variable {bits : Nat}

/-- The next number with as many ones, from its last one and the carry of adding it. -/
def successor (width n : Nat) : Nat :=
  let last := n &&& (2 ^ width - n)
  (n + last) ||| (((n + last) ^^^ n) / (last * 4))

theorem last_run (inside : run high k a < 2 ^ width) : run high k a &&& (2 ^ width - run high k a) = 2 ^ a := by
  have doubled : 2 ^ (k + 2) = 2 ^ (k + 1) * 2 := Nat.pow_succ _ _
  have again : 2 ^ (k + 1) = 2 ^ k * 2 := Nat.pow_succ _ _
  have positive := Nat.two_pow_pos k
  refine and_complement ?_ inside
  rw [doubled, again, ← Nat.mul_assoc]
  omega

theorem successor_run (inside : run high k a < 2 ^ width) : successor width (run high k a) = moved high k a := by
  rw [successor, last_run inside, run_xor_div, run_or]

theorem lt_successor (positive : 0 < n) (inside : n < 2 ^ width) : n < successor width n := by
  obtain ⟨high, k, a, rfl⟩ := exists_run positive
  rw [successor_run inside]
  exact run_lt_moved high k a

/-- The bits of a run are inside the width of its number. -/
theorem run_bits (inside : run high k a < 2 ^ bits) : ∃ c, bits + 1 = a + (k + 2 + c) := by
  have short : a + k < bits := (Nat.pow_lt_pow_iff_right Nat.one_lt_two).mp
    (Nat.lt_of_le_of_lt (two_pow_le_run high k a) inside)
  exact ⟨bits + 1 - (a + (k + 2)), by omega⟩

private theorem lt_of_bits (inside : n < 2 ^ bits) (fits : bits ≤ width) : n < 2 ^ width :=
  Nat.lt_of_lt_of_le inside (Nat.pow_le_pow_right Nat.two_pos fits)

theorem weight_successor (positive : 0 < n) (inside : n < 2 ^ bits) (fits : bits ≤ width) :
    weight (bits + 1) (successor width n) = weight (bits + 1) n := by
  obtain ⟨high, k, a, rfl⟩ := exists_run positive
  obtain ⟨c, bound⟩ := run_bits inside
  rw [successor_run (lt_of_bits inside fits), bound, weight_moved, weight_run]

theorem successor_between (positive : 0 < n) (inside : n < 2 ^ bits) (fits : bits ≤ width) (above : n < m)
    (below : m < successor width n) : weight (bits + 1) m ≠ weight (bits + 1) n := by
  obtain ⟨high, k, a, rfl⟩ := exists_run positive
  obtain ⟨c, bound⟩ := run_bits inside
  rw [successor_run (lt_of_bits inside fits)] at below
  rw [bound, weight_run]
  exact weight_between above below

end Run

section Walk

variable {next : Nat → Nat} {P : Nat → Bool} {limit rounds start : Nat}

/-- The values of a step from a start on, below a limit. -/
def walk (next : Nat → Nat) (limit : Nat) : Nat → Nat → List Nat
  | 0, _ => []
  | rounds + 1, n => if n < limit then n :: walk next limit rounds (next n) else []

/-- A step to the next number of a set lists the set in order. -/
theorem walk_eq (holds : P start = true) (kept : ∀ n, P n = true → n < limit → P (next n) = true)
    (grows : ∀ n, P n = true → n < limit → n < next n)
    (between : ∀ n m, P n = true → n < limit → n < m → m < next n → P m = false) :
    walk next limit rounds start = ((List.range' start (limit - start)).filter P).take rounds := by
  induction rounds generalizing start with
  | zero => rfl
  | succ rounds ih =>
    rw [walk]
    split
    next inside =>
      have later := grows start holds inside
      -- What lies before the next member is passed over.
      have none : ∀ count, start + 1 + count ≤ next start →
          (List.range' (start + 1) count).filter P = [] := by
        intro count short
        refine List.filter_eq_nil_iff.mpr fun m listed => ?_
        have bounds := List.mem_range'_1.mp listed
        simp [between start m holds inside (by omega) (by omega)]
      rw [show limit - start = limit - (start + 1) + 1 by omega, List.range'_succ, List.filter_cons_of_pos holds,
        List.take_succ_cons, ih (kept start holds inside)]
      by_cases past : limit ≤ next start
      · rw [none _ (by omega), Nat.sub_eq_zero_of_le past]
        rfl
      · have parts := @List.range'_append_1 (start + 1) (next start - (start + 1)) (limit - next start)
        rw [show start + 1 + (next start - (start + 1)) = next start by omega,
          show next start - (start + 1) + (limit - next start) = limit - (start + 1) by omega] at parts
        rw [← parts, List.filter_append, none _ (by omega), List.nil_append]
    next outside => rw [Nat.sub_eq_zero_of_le (Nat.le_of_not_lt outside)]; rfl

end Walk

end MiniNetDist.Library.BitSubsets
