import Mathlib.Data.List.Basic

/-! Slots of a table that are looked for and counted by what they hold. -/

namespace MiniNetDist.Library.Slots

variable {Item : Type*} {eligible : Item → Bool} {before : Item → Item → Bool} {items : List Item}

/-- A scan for an eligible item: the first one, until one that comes before it is met. -/
def choose (eligible : Item → Bool) (before : Item → Item → Bool) :
    Nat → Option (Nat × Item) → List Item → Option (Nat × Item)
  | _, best, [] => best
  | slot, best, item :: items =>
    if eligible item ∧ best.all (fun best => before item best.2) = true then
      choose eligible before (slot + 1) (some (slot, item)) items
    else choose eligible before (slot + 1) best items

theorem choose_found {slot : Nat} {best : Option (Nat × Item)} {found : Nat × Item}
    (chosen : choose eligible before slot best items = some found) :
    best = some found ∨ ∃ index, found.1 = slot + index ∧ items[index]? = some found.2 ∧ eligible found.2 = true := by
  induction items generalizing slot best with
  | nil => exact .inl chosen
  | cons item items ih =>
    have later (rest : ∃ index, found.1 = slot + 1 + index ∧ items[index]? = some found.2 ∧ eligible found.2 = true) :
        ∃ index, found.1 = slot + index ∧ (item :: items)[index]? = some found.2 ∧ eligible found.2 = true := by
      obtain ⟨index, place, held, fits⟩ := rest
      exact ⟨index + 1, by rw [place, Nat.add_assoc, Nat.add_comm 1], held, fits⟩
    rw [choose] at chosen
    split at chosen
    · rename_i here
      rcases ih chosen with same | rest
      · obtain rfl := Option.some.inj same
        exact .inr ⟨0, rfl, rfl, here.1⟩
      · exact .inr (later rest)
    · rcases ih chosen with same | rest
      · exact .inl same
      · exact .inr (later rest)

theorem choose_eq_some {found : Nat × Item} (chosen : choose eligible before 0 none items = some found) :
    items[found.1]? = some found.2 ∧ eligible found.2 = true := by
  rcases choose_found chosen with none | ⟨index, place, held, fits⟩
  · cases none
  · rw [Nat.zero_add] at place
    exact ⟨place ▸ held, fits⟩

theorem choose_isSome {slot : Nat} {found : Nat × Item} : (choose eligible before slot (some found) items).isSome := by
  induction items generalizing slot found with
  | nil => rfl
  | cons item items ih =>
    rw [choose]
    split <;> exact ih

/-- The scan fails only where nothing is eligible. -/
theorem choose_eq_none_iff {slot : Nat} :
    choose eligible before slot none items = none ↔ ∀ item ∈ items, eligible item = false := by
  induction items generalizing slot with
  | nil => simp [choose]
  | cons item items ih =>
    rw [choose, List.forall_mem_cons]
    by_cases fits : eligible item = true
    · have found := Option.isSome_iff_ne_none.mp
        (choose_isSome : (choose eligible before (slot + 1) (some (slot, item)) items).isSome)
      simp [fits, found]
    · rw [if_neg fun here => fits here.1, ih]
      simp [fits]

/-- The number of items of a kind. -/
def tally (kind : Item → Bool) (items : List Item) : Int := items.countP kind

/-- What one item weighs in the number of a kind. -/
def weight (kind : Item → Bool) (item : Item) : Int := if kind item then 1 else 0

theorem tally_set (kind : Item → Bool) {slot : Nat} {old : Item} (held : items[slot]? = some old) (new : Item) :
    tally kind (items.set slot new) = tally kind items - weight kind old + weight kind new := by
  induction items generalizing slot with
  | nil => cases held
  | cons item items ih =>
    cases slot with
    | zero =>
      obtain rfl := Option.some.inj held
      simp only [tally, weight, List.set_cons_zero, List.countP_cons]
      split <;> split <;> omega
    | succ slot =>
      have rest := ih held
      simp only [tally, List.set_cons_succ, List.countP_cons] at rest ⊢
      omega

theorem tally_append (kind : Item → Bool) (items : List Item) (new : Item) :
    tally kind (items ++ [new]) = tally kind items + weight kind new := by
  simp only [tally, weight, List.countP_append, List.countP_singleton]
  split <;> rfl

/-- As many of a kind as there are items: all are of the kind. -/
theorem tally_eq_length_iff {kind : Item → Bool} :
    tally kind items = items.length ↔ ∀ item ∈ items, kind item = true := by
  rw [tally, Int.natCast_inj, List.countP_eq_length]

theorem tally_eq_zero_iff {kind : Item → Bool} : tally kind items = 0 ↔ ∀ item ∈ items, kind item = false := by
  rw [tally, Int.natCast_eq_zero, List.countP_eq_zero]
  simp

end MiniNetDist.Library.Slots
