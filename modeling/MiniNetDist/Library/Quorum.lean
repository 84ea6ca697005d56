import Mathlib.Data.Fintype.Card
import Mathlib.Data.Finset.Card
import Mathlib.Data.List.FinRange

/-! Majorities of a finite set of members, and the ledger of one vote a member
and term that elections are decided from. -/

namespace MiniNetDist.Library

variable {Member : Type*} [Fintype Member]

/-- More than half of all members. -/
def Majority (members : Finset Member) : Prop := Fintype.card Member < 2 * members.card

instance Majority.decidable (members : Finset Member) : Decidable (Majority members) :=
  inferInstanceAs (Decidable (_ < _))

theorem Majority.of_quorum {members : Finset Member}
    (enough : Fintype.card Member / 2 + 1 ≤ members.card) : Majority members := by
  unfold Majority
  omega

theorem Majority.mono {smaller larger : Finset Member} (majority : Majority smaller)
    (subset : smaller ⊆ larger) : Majority larger := by
  have bound := Finset.card_le_card subset
  unfold Majority at *
  omega

variable [DecidableEq Member]

/-- What a loop over all members counts. -/
theorem countP_finRange {n : Nat} (counted : Fin n → Bool) :
    (List.finRange n).countP counted = (Finset.univ.filter fun member => counted member = true).card := by
  rw [List.countP_eq_length_filter, ← List.toFinset_card_of_nodup ((List.nodup_finRange n).filter counted)]
  congr 1
  ext member
  simp

/-- Two sets that have more members together than there are share one. -/
theorem meet_of_card {first second : Finset Member} (many : Fintype.card Member < first.card + second.card) :
    ∃ member, member ∈ first ∧ member ∈ second := by
  obtain ⟨member, shared⟩ := Finset.inter_nonempty_of_card_lt_card_add_card
    (Finset.subset_univ first) (Finset.subset_univ second) many
  exact ⟨member, Finset.mem_inter.mp shared⟩

/-- Any two majorities share a member. -/
theorem Majority.meet {first second : Finset Member} (one : Majority first) (two : Majority second) :
    ∃ member, member ∈ first ∧ member ∈ second := by
  apply meet_of_card
  unfold Majority at one two
  omega

/-- The vote each member has cast in each term, if any. -/
abbrev Ledger (Member : Type*) := Member → Nat → Option Member

namespace Ledger

variable (ledger : Ledger Member) {voter candidate other : Member} {term : Nat}

/-- The members that have voted for `candidate` in `term`. -/
def supporters (term : Nat) (candidate : Member) : Finset Member :=
  Finset.univ.filter fun voter => ledger voter term = some candidate

@[simp] theorem mem_supporters :
    voter ∈ ledger.supporters term candidate ↔ ledger voter term = some candidate := by
  simp [supporters]

/-- One vote a member and term leaves room for one majority a term. -/
theorem winner_unique {ledger : Ledger Member} (one : Majority (ledger.supporters term candidate))
    (two : Majority (ledger.supporters term other)) : candidate = other := by
  obtain ⟨voter, first, second⟩ := one.meet two
  rw [mem_supporters] at first second
  exact Option.some.inj (first.symm.trans second)

/-- Enter a vote that was not cast before. -/
def cast (voter : Member) (term : Nat) (candidate : Member) : Ledger Member := fun member at_ =>
  if member = voter ∧ at_ = term then some candidate else ledger member at_

variable {ledger}

omit [Fintype Member] in
@[simp] theorem cast_self : ledger.cast voter term candidate voter term = some candidate := by
  simp [cast]

omit [Fintype Member] in
theorem cast_other {member : Member} {at_ : Nat} (different : ¬ (member = voter ∧ at_ = term)) :
    ledger.cast voter term candidate member at_ = ledger member at_ := by
  simp only [cast, if_neg different]

omit [Fintype Member] in
/-- Casting a fresh vote keeps every vote already in the ledger. -/
theorem cast_keeps {member chosen : Member} {at_ : Nat} (fresh : ledger voter term = none)
    (present : ledger member at_ = some chosen) :
    ledger.cast voter term candidate member at_ = some chosen := by
  rw [cast_other, present]
  rintro ⟨rfl, rfl⟩
  rw [fresh] at present
  cases present

theorem supporters_cast_subset {at_ : Nat} (fresh : ledger voter term = none) :
    ledger.supporters at_ other ⊆ (ledger.cast voter term candidate).supporters at_ other := by
  intro member present
  rw [mem_supporters] at present ⊢
  exact cast_keeps fresh present

/-- A fresh vote adds exactly one supporter. -/
theorem card_supporters_cast (fresh : ledger voter term = none) :
    ((ledger.cast voter term candidate).supporters term candidate).card =
      (ledger.supporters term candidate).card + 1 := by
  have added : (ledger.cast voter term candidate).supporters term candidate =
      insert voter (ledger.supporters term candidate) := by
    ext member
    by_cases same : member = voter
    · subst same; simp
    · simp [cast_other, same]
  rw [added, Finset.card_insert_of_notMem]
  simp [fresh]

end Ledger

end MiniNetDist.Library
