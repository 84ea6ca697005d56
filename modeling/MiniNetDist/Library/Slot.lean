import Mathlib.Data.Fin.Basic

/-! Signed identifiers used as array indices, after the range check with which C functions begin. -/

namespace MiniNetDist.Library

theorem toNat_lt_of_valid {n : Nat} {id : Int} (valid : 0 ≤ id ∧ id < n) : id.toNat < n := by omega

/-- The index that an identifier is, if it is in range. -/
def slot (n : Nat) (id : Int) : Option (Fin n) :=
  if valid : 0 ≤ id ∧ id < n then some ⟨id.toNat, toNat_lt_of_valid valid⟩ else none

variable {n : Nat} {id other : Int} {i : Fin n}

theorem slot_eq_some_iff : slot n id = some i ↔ (i : Int) = id := by
  unfold slot
  split
  · rename_i valid
    simp only [Option.some.injEq, Fin.ext_iff]
    omega
  · rename_i invalid
    have inside := i.isLt
    simp only [reduceCtorEq, false_iff]
    omega

@[simp] theorem slot_val (i : Fin n) : slot n i = some i := slot_eq_some_iff.mpr rfl

end MiniNetDist.Library
