import MiniNetDist.Library.Circle
import Mathlib.Data.List.FinRange
import Mathlib.Logic.Function.Basic
import Mathlib.Order.Lattice

/-! Knowledge that spreads from node to node with the contacts between them, in the order in which they are made. -/

namespace MiniNetDist.Library.Rumor

open MiniNetDist.Library.Circle

variable {Node Knowledge : Type*} [DecidableEq Node] [SemilatticeSup Knowledge]

/-- The second node of a contact gets to know what the first knows. -/
def tell (known : Node → Knowledge) (contact : Node × Node) : Node → Knowledge :=
  Function.update known contact.2 (known contact.2 ⊔ known contact.1)

variable {known more : Node → Knowledge} {contact : Node × Node} {few many : List (Node × Node)}

theorem le_tell (known : Node → Knowledge) (contact : Node × Node) : known ≤ tell known contact := by
  intro node
  by_cases same : node = contact.2
  · subst same
    rw [tell, Function.update_self]
    exact le_sup_left
  · rw [tell, Function.update_of_ne same]

theorem tell_mono (less : known ≤ more) (contact : Node × Node) : tell known contact ≤ tell more contact := by
  intro node
  by_cases same : node = contact.2
  · subst same
    rw [tell, tell, Function.update_self, Function.update_self]
    exact sup_le_sup (less _) (less _)
  · rw [tell, tell, Function.update_of_ne same, Function.update_of_ne same]
    exact less node

theorem le_foldl (known : Node → Knowledge) (contacts : List (Node × Node)) : known ≤ contacts.foldl tell known := by
  induction contacts generalizing known with
  | nil => exact le_refl known
  | cons contact rest ih => exact (le_tell known contact).trans (ih _)

/-- Who knows more to begin with and has more contacts knows more in the end. -/
theorem foldl_le_foldl (less : known ≤ more) (among : few.Sublist many) :
    few.foldl tell known ≤ many.foldl tell more := by
  induction among generalizing known more with
  | slnil => exact less
  | cons contact _ ih => exact ih (less.trans (le_tell more contact))
  | cons_cons contact _ ih => exact ih (tell_mono less contact)

/-- The contacts of one who goes from place to place. -/
def way (place : Nat → Node) (steps : Nat) : List (Node × Node) :=
  (List.range steps).map fun step => (place step, place (step + 1))

omit [DecidableEq Node] in
theorem way_succ (place : Nat → Node) (steps : Nat) :
    way place (steps + 1) = way place steps ++ [(place steps, place (steps + 1))] := by
  rw [way, List.range_succ, List.map_append]
  rfl

variable {place : Nat → Node} {early late steps : Nat}

/-- What was known at any place on the way is known where it ends. -/
theorem le_arrival (before : early ≤ steps) :
    known (place early) ≤ (way place steps).foldl tell known (place steps) := by
  induction steps with
  | zero =>
    rw [Nat.le_zero.mp before]
    exact le_refl _
  | succ steps ih =>
    rw [way_succ, List.foldl_append, List.foldl_cons, List.foldl_nil, tell, Function.update_self]
    rcases Nat.lt_or_eq_of_le before with earlier | rfl
    · exact (ih (Nat.le_of_lt_succ earlier)).trans le_sup_right
    · exact (le_foldl known (way place steps) _).trans le_sup_left

/-- What was known at any place is known at all later ones. -/
theorem le_later (before : early ≤ late) (inside : late ≤ steps) :
    known (place early) ≤ (way place steps).foldl tell known (place late) := by
  induction steps with
  | zero => exact Nat.le_zero.mp inside ▸ le_arrival before
  | succ steps ih =>
    rcases Nat.lt_or_eq_of_le inside with earlier | rfl
    · rw [way_succ, List.foldl_append]
      exact (ih (Nat.le_of_lt_succ earlier)).trans (le_foldl _ _ _)
    · exact le_arrival before

section Laps

variable {n : Nat} {start : Fin n}

theorem way_lap (start : Fin n) :
    way (ahead start) n = (List.finRange n).map fun i => (ahead start i.val, ahead start (i.val + 1)) := by
  rw [way, ← List.map_coe_finRange_eq_range, List.map_map]
  rfl

theorem way_laps (start : Fin n) (laps : Nat) :
    way (ahead start) ((laps + 1) * n) = way (ahead start) (laps * n) ++ way (ahead start) n := by
  have turns : ∀ k, ahead start (laps * n + k) = ahead start k := by
    intro k
    apply Fin.ext
    simp only [ahead]
    rw [show start.val + (laps * n + k) = start.val + k + laps * n by omega, Nat.add_mul_mod_self_right]
  rw [way, Nat.succ_mul, List.range_add, List.map_append, List.map_map]
  congr 1
  apply List.map_congr_left
  intro k _
  rw [Function.comp_apply, Nat.add_assoc, turns, turns]

/-- Who goes around twice tells everyone what anyone knew. -/
theorem le_twoLaps {known : Fin n → Knowledge} (i j : Fin n) :
    known j ≤ (way (ahead start) (2 * n)).foldl tell known i := by
  obtain ⟨early, inside, rfl⟩ := exists_ahead start j
  obtain ⟨late, insideToo, rfl⟩ := exists_ahead start i
  have second : ahead start late = ahead start (n + late) := by
    rw [← ahead_ahead, ahead_size]
  rw [second]
  exact le_later (by omega) (by omega)

end Laps

end MiniNetDist.Library.Rumor
