import Mathlib.Data.Fin.Basic
import Mathlib.Data.Nat.ModEq
import Mathlib.Data.Set.Basic

/-! Places on a circle, counted by how many steps they lie ahead of a given place, and the search for
the first place of a kind. -/

namespace MiniNetDist.Library.Circle

variable {n : Nat} {i j : Fin n} {k m : Nat}

/-- The place so many steps on. -/
def ahead (i : Fin n) (steps : Nat) : Fin n :=
  ⟨(i.val + steps) % n, Nat.mod_lt _ (Nat.lt_of_le_of_lt (Nat.zero_le _) i.isLt)⟩

@[simp] theorem ahead_zero (i : Fin n) : ahead i 0 = i := Fin.ext (Nat.mod_eq_of_lt i.isLt)

theorem ahead_ahead (i : Fin n) (k m : Nat) : ahead (ahead i k) m = ahead i (k + m) :=
  Fin.ext (by simp only [ahead, Nat.mod_add_mod, Nat.add_assoc])

@[simp] theorem ahead_size (i : Fin n) : ahead i n = i :=
  Fin.ext (by simp only [ahead, Nat.add_mod_right, Nat.mod_eq_of_lt i.isLt])

theorem ahead_inj (inside : k < n) (inside' : m < n) (same : ahead i k = ahead i m) : k = m := by
  have congruent : i.val + k ≡ i.val + m [MOD n] := congrArg Fin.val same
  exact (Nat.ModEq.add_left_cancel' i.val congruent).eq_of_lt_of_lt inside inside'

/-- Every place lies fewer than a whole turn ahead. -/
theorem exists_ahead (i j : Fin n) : ∃ k, k < n ∧ ahead i k = j := by
  have start := i.isLt
  have target := j.isLt
  by_cases behind : j.val < i.val
  · refine ⟨n + j.val - i.val, by omega, Fin.ext ?_⟩
    have sum : i.val + (n + j.val - i.val) = j.val + n := by omega
    simp only [ahead, sum, Nat.add_mod_right, Nat.mod_eq_of_lt target]
  · refine ⟨j.val - i.val, by omega, Fin.ext ?_⟩
    have sum : i.val + (j.val - i.val) = j.val := by omega
    simp only [ahead, sum, Nat.mod_eq_of_lt target]

/-- The same, with a whole turn for the place itself. -/
theorem exists_ahead_pos (i j : Fin n) : ∃ k, 0 < k ∧ k ≤ n ∧ ahead i k = j := by
  obtain ⟨k, inside, here⟩ := exists_ahead i j
  rcases Nat.eq_zero_or_pos k with rfl | pos
  · exact ⟨n, Nat.lt_of_le_of_lt (Nat.zero_le _) i.isLt, Nat.le_refl n, by rw [ahead_size, ← here, ahead_zero]⟩
  · exact ⟨k, pos, Nat.le_of_lt inside, here⟩

/-- The rest of a turn leads back. -/
theorem ahead_remainder (k : Nat) (inside : k ≤ n) : ahead (ahead i k) (n - k) = i := by
  rw [ahead_ahead, Nat.add_sub_cancel' inside, ahead_size]

section Clear

variable {stops fewer : Set (Fin n)}

/-- None of `stops` lies strictly between a place and the one so many steps ahead. -/
def Clear (stops : Set (Fin n)) (i : Fin n) (k : Nat) : Prop := ∀ step, 0 < step → step < k → ahead i step ∉ stops

theorem clear_one : Clear stops i 1 := fun _ pos below => absurd below (Nat.not_lt.mpr pos)

theorem Clear.mono (clear : Clear stops i k) (subset : fewer ⊆ stops) : Clear fewer i k :=
  fun step pos below stop => clear step pos below (subset stop)

theorem Clear.join (clear : Clear stops i k) (free : ahead i k ∉ stops) (onward : Clear stops (ahead i k) m) :
    Clear stops i (k + m) := by
  intro step pos below
  rcases Nat.lt_trichotomy step k with before | rfl | after
  · exact clear step pos before
  · exact free
  · have further := onward (step - k) (by omega) (by omega)
    rwa [ahead_ahead, Nat.add_sub_cancel' (Nat.le_of_lt after)] at further

/-- A stop further on is not passed over. -/
theorem Clear.le_of_mem (clear : Clear stops i k) (pos : 0 < m) (stop : ahead i m ∈ stops) : k ≤ m :=
  Nat.not_lt.mp fun below => clear m pos below stop

/-- The stops from a place on, so many steps ahead. -/
def passed (stops : Set (Fin n)) (i : Fin n) (k : Nat) : Set (Fin n) :=
  { j ∈ stops | ∃ step, step ≤ k ∧ ahead i step = j }

theorem passed_zero (stop : i ∈ stops) : passed stops i 0 = {i} := by
  ext j
  constructor
  · rintro ⟨_, step, least, rfl⟩
    rw [Nat.le_zero.mp least, ahead_zero]
    rfl
  · rintro rfl
    exact ⟨stop, 0, Nat.le_refl 0, ahead_zero j⟩

/-- On the way to the next stop, no other is passed. -/
theorem passed_next (clear : Clear stops (ahead i k) m) (stop : ahead i (k + m) ∈ stops) :
    passed stops i (k + m) = insert (ahead i (k + m)) (passed stops i k) := by
  ext j
  constructor
  · rintro ⟨member, step, inside, rfl⟩
    by_cases before : step ≤ k
    · exact .inr ⟨member, step, before, rfl⟩
    · by_cases last : step = k + m
      · exact .inl (last ▸ rfl)
      · have between := clear (step - k) (by omega) (by omega)
        rw [ahead_ahead, Nat.add_sub_cancel' (by omega)] at between
        exact absurd member between
  · rintro (rfl | ⟨member, step, inside, rfl⟩)
    · exact ⟨stop, k + m, Nat.le_refl _, rfl⟩
    · exact ⟨member, step, Nat.le_add_right_of_le inside, rfl⟩

/-- A whole turn passes everything. -/
theorem passed_turn (turn : n ≤ k + 1) : passed stops i k = stops := by
  ext j
  refine ⟨And.left, fun member => ?_⟩
  obtain ⟨step, inside, here⟩ := exists_ahead i j
  exact ⟨member, step, by omega, here⟩

end Clear

section Seek

variable {stop : Fin n → Bool} {left : Nat}

/-- The first stop at or after a place, looked for at so many places. -/
def seek (stop : Fin n → Bool) : Nat → Fin n → Option (Fin n)
  | 0, _ => none
  | left + 1, i => if stop i then some i else seek stop left (ahead i 1)

theorem seek_some (found : seek stop left i = some j) :
    ∃ k, k < left ∧ j = ahead i k ∧ stop j = true ∧ ∀ step, step < k → stop (ahead i step) = false := by
  induction left generalizing i with
  | zero => cases found
  | succ left ih =>
    rw [seek] at found
    by_cases here : stop i = true
    · rw [if_pos here] at found
      cases found
      exact ⟨0, Nat.succ_pos left, (ahead_zero _).symm, here, fun _ none => absurd none (Nat.not_lt_zero _)⟩
    · rw [if_neg here] at found
      obtain ⟨k, inside, rfl, stops, passed⟩ := ih found
      rw [ahead_ahead, Nat.add_comm 1 k] at stops ⊢
      refine ⟨k + 1, by omega, rfl, stops, fun step below => ?_⟩
      cases step with
      | zero => simpa using here
      | succ step =>
        have earlier := passed step (by omega)
        rwa [ahead_ahead, Nat.add_comm 1 step] at earlier

theorem seek_none (missing : seek stop left i = none) : ∀ step, step < left → stop (ahead i step) = false := by
  induction left generalizing i with
  | zero => exact fun _ none => absurd none (Nat.not_lt_zero _)
  | succ left ih =>
    intro step below
    rw [seek] at missing
    by_cases here : stop i = true
    · rw [if_pos here] at missing
      cases missing
    · rw [if_neg here] at missing
      cases step with
      | zero => simpa using here
      | succ step =>
        have later := ih missing step (by omega)
        rwa [ahead_ahead, Nat.add_comm 1 step] at later

/-- One turn finds a stop if there is any. -/
theorem exists_seek (stop : Fin n → Bool) (i : Fin n) (stops : stop j = true) :
    ∃ first, seek stop n i = some first := by
  cases found : seek stop n i with
  | some first => exact ⟨first, rfl⟩
  | none =>
    obtain ⟨k, inside, rfl⟩ := exists_ahead i j
    have passed := seek_none found k inside
    rw [stops] at passed
    cases passed

/-- The search that starts at the next place finds the first stop ahead. -/
theorem seek_ahead (found : seek stop left (ahead i 1) = some j) :
    ∃ k, 0 < k ∧ k ≤ left ∧ j = ahead i k ∧ stop j = true ∧ Clear { place | stop place = true } i k := by
  obtain ⟨k, inside, rfl, stops, passed⟩ := seek_some found
  rw [ahead_ahead, Nat.add_comm 1 k] at stops ⊢
  refine ⟨k + 1, Nat.succ_pos k, inside, rfl, stops, fun step pos below member => ?_⟩
  obtain ⟨step, rfl⟩ : ∃ before, step = before + 1 := ⟨step - 1, by omega⟩
  have stopped : stop (ahead i (step + 1)) = true := member
  have earlier := passed step (by omega)
  rw [ahead_ahead, Nat.add_comm 1 step, stopped] at earlier
  cases earlier

end Seek

end MiniNetDist.Library.Circle
