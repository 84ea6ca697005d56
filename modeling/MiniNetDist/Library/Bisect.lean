import Mathlib.Data.List.Basic

/-! The search by halving for the first item with a property, in a list where every item behind one that has it has it
too. The bounds of the interval belong to it, and a read outside the list has no result. -/

namespace MiniNetDist.Library.Bisect

variable {Item : Type*} {reached : Item → Bool} {items : List Item} {lo hi idx : Int} {i : Nat} {item : Item}

/-- The lower bound at the end, and the last position where the property was found. -/
def bisect (reached : Item → Bool) (items : List Item) (lo hi idx : Int) : Option (Int × Int) :=
  if lo ≤ hi then
    let mid := lo + (hi - lo) / 2
    match items[mid.toNat]? with
    | none => none
    | some item =>
      if reached item then bisect reached items lo (mid - 1) mid else bisect reached items (mid + 1) hi idx
  else some (lo, idx)
termination_by (hi + 1 - lo).toNat
decreasing_by all_goals omega

/-- The items with the property are the last ones. -/
def Rising (reached : Item → Bool) (items : List Item) : Prop :=
  items.Pairwise fun first second => reached first → reached second

/-- The interval is inside the list, nothing before it has the property, and what is right behind it has it. -/
structure Narrowed (reached : Item → Bool) (items : List Item) (lo hi idx : Int) : Prop where
  low : 0 ≤ lo
  order : lo ≤ hi + 1
  high : hi + 1 ≤ items.length
  before : ∀ i : Nat, (i : Int) < lo → ∀ item ∈ items[i]?, reached item = false
  behind : hi + 1 < items.length → idx = hi + 1 ∧ ∃ item, items[idx.toNat]? = some item ∧ reached item

theorem narrowed_whole (reached : Item → Bool) (items : List Item) (idx : Int) :
    Narrowed reached items 0 (items.length - 1) idx where
  low := Int.le_refl 0
  order := by omega
  high := by omega
  before := fun i negative => absurd negative (by omega)
  behind := fun less => absurd less (by omega)

theorem Rising.before (rising : Rising reached items) (there : items[i]? = some item)
    (missing : reached item = false) {j : Nat} (earlier : j ≤ i) : ∀ other ∈ items[j]?, reached other = false := by
  intro other here
  rcases Nat.lt_or_eq_of_le earlier with less | rfl
  · obtain ⟨inside, rfl⟩ := List.getElem?_eq_some_iff.mp there
    obtain ⟨inside', rfl⟩ := List.getElem?_eq_some_iff.mp here
    have follows := List.pairwise_iff_getElem.mp rising j i inside' inside less
    by_contra found
    rw [follows (by simpa using found)] at missing
    cases missing
  · obtain rfl := Option.some.inj (here.symm.trans there)
    exact missing

/-- The search ends with its lower bound where the property begins. -/
theorem bisect_narrowed (rising : Rising reached items) (narrowed : Narrowed reached items lo hi idx) :
    ∃ first last, bisect reached items lo hi idx = some (first, last) ∧
      Narrowed reached items first (first - 1) last := by
  fun_induction bisect reached items lo hi idx with
  | case1 lo hi idx inside mid outside =>
    have missing := List.getElem?_eq_none_iff.mp outside
    have high := narrowed.high
    have low := narrowed.low
    omega
  | case2 lo hi idx inside mid item there found ih =>
    have high := narrowed.high
    have low := narrowed.low
    refine ih ⟨low, by omega, by omega, narrowed.before, fun _ => ⟨by omega, item, there, found⟩⟩
  | case3 lo hi idx inside mid item there missing ih =>
    have high := narrowed.high
    have low := narrowed.low
    refine ih ⟨by omega, by omega, high, fun i below => ?_, narrowed.behind⟩
    exact rising.before there (by simpa using missing) (by omega)
  | case4 lo hi idx outside =>
    have order := narrowed.order
    obtain rfl : hi = lo - 1 := by omega
    exact ⟨lo, idx, rfl, narrowed⟩

/-- Searched as a whole, the list gives the first item with the property, or the bound behind its end. -/
theorem bisect_whole (rising : Rising reached items) (idx : Int) :
    ∃ first last, bisect reached items 0 (items.length - 1) idx = some (first, last) ∧
      ((first = items.length ∧ items.find? reached = none) ∨
        first < items.length ∧ items[last.toNat]? = items.find? reached ∧ (items.find? reached).isSome) := by
  obtain ⟨first, last, found, narrowed⟩ := bisect_narrowed rising (narrowed_whole reached items idx)
  have low := narrowed.low
  have high := narrowed.high
  refine ⟨first, last, found, ?_⟩
  by_cases whole : first = items.length
  · refine .inl ⟨whole, List.find?_eq_none.mpr fun item inside => ?_⟩
    obtain ⟨i, bound, rfl⟩ := List.mem_iff_getElem.mp inside
    have missing := narrowed.before i (by omega) _ (List.getElem?_eq_getElem bound)
    simp [missing]
  · obtain ⟨rfl, item, there, has⟩ := narrowed.behind (by omega)
    obtain ⟨bound, rfl⟩ := List.getElem?_eq_some_iff.mp there
    have earliest : items.find? reached = some items[(first - 1 + 1).toNat] := by
      refine List.find?_eq_some_iff_getElem.mpr ⟨has, _, bound, rfl, fun j less => ?_⟩
      have missing := narrowed.before j (by omega) _ (List.getElem?_eq_getElem (by omega))
      simp [missing]
    exact .inr ⟨by omega, there.trans earliest.symm, by rw [earliest]; rfl⟩

end MiniNetDist.Library.Bisect
