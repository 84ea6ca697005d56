import Mathlib.Algebra.BigOperators.Group.Finset.Piecewise
import Mathlib.Algebra.Order.BigOperators.Group.Finset
import Mathlib.Tactic.Ring

/-! Turns by running credit. In each turn every member earns its share, and one with the largest credit is served and
pays the sum of all shares. In as many turns as that sum every member is served as often as its share says. -/

namespace MiniNetDist.Library.Credit

variable {Member : Type*} {members : Finset Member} {share credit after : Member → Int} {served m : Member}
  {order : List Member}

def total (members : Finset Member) (share : Member → Int) : Int := ∑ m ∈ members, share m

/-- What is owed is what the others have, and nobody owes as much as one turn costs. -/
structure Balanced (members : Finset Member) (share credit : Member → Int) : Prop where
  even : ∑ m ∈ members, credit m = 0
  bounded : ∀ m ∈ members, 0 < total members share + credit m

theorem total_pos (positive : ∀ m ∈ members, 0 < share m) (inside : m ∈ members) : 0 < total members share :=
  Finset.sum_pos positive ⟨m, inside⟩

theorem balanced_zero (positive : ∀ m ∈ members, 0 < share m) (zero : ∀ m ∈ members, credit m = 0) :
    Balanced members share credit where
  even := Finset.sum_eq_zero zero
  bounded := by
    intro m inside
    rw [zero m inside, Int.add_zero]
    exact total_pos positive inside

/-- Nobody has more than all the others can owe. -/
theorem Balanced.credit_le (balanced : Balanced members share credit) (inside : m ∈ members) :
    credit m ≤ members.card * total members share := by
  have all : 0 ≤ ∑ other ∈ members, (total members share + credit other) - (total members share + credit m) := by
    have one := Finset.single_le_sum (fun other within => Int.le_of_lt (balanced.bounded other within)) inside
    omega
  rw [Finset.sum_add_distrib, balanced.even, Finset.sum_const, nsmul_eq_mul] at all
  have owed : 0 ≤ total members share := by
    by_contra negative
    have some : ∑ other ∈ members, (0 : Int) < ∑ other ∈ members, credit other := by
      refine Finset.sum_lt_sum_of_nonempty ⟨m, inside⟩ fun other within => ?_
      have above := balanced.bounded other within
      omega
    rw [balanced.even, Finset.sum_const_zero] at some
    exact absurd some (Int.lt_irrefl 0)
  omega

variable [DecidableEq Member]

structure Turn (members : Finset Member) (share credit : Member → Int) (served : Member) (after : Member → Int) :
    Prop where
  member : served ∈ members
  largest : ∀ m ∈ members, credit m + share m ≤ credit served + share served
  paid : ∀ m ∈ members, after m = credit m + share m - if m = served then total members share else 0

/-- Turns one after the other, with those who are served. -/
inductive Turns (members : Finset Member) (share : Member → Int) :
    (Member → Int) → List Member → (Member → Int) → Prop where
  | none {credit : Member → Int} : Turns members share credit [] credit
  | next {credit between after : Member → Int} {served : Member} {order : List Member}
      (turn : Turn members share credit served between) (later : Turns members share between order after) :
      Turns members share credit (served :: order) after

/-- Somebody has credit after the shares were earned, hence the one who is served. -/
theorem Turn.served_pos (turn : Turn members share credit served after) (positive : ∀ m ∈ members, 0 < share m)
    (balanced : Balanced members share credit) : 0 < credit served + share served := by
  by_contra broke
  have none : ∑ m ∈ members, (credit m + share m) ≤ 0 :=
    Finset.sum_nonpos fun m inside => Int.le_trans (turn.largest m inside) (Int.not_lt.mp broke)
  rw [Finset.sum_add_distrib, balanced.even, Int.zero_add] at none
  exact absurd (total_pos positive turn.member) (Int.not_lt.mpr none)

theorem Turn.balanced (turn : Turn members share credit served after) (positive : ∀ m ∈ members, 0 < share m)
    (balanced : Balanced members share credit) : Balanced members share after where
  even := by
    rw [Finset.sum_congr rfl turn.paid, Finset.sum_sub_distrib, Finset.sum_add_distrib, balanced.even,
      Finset.sum_ite_eq' members served, if_pos turn.member]
    simp [total]
  bounded := by
    intro m inside
    rw [turn.paid m inside]
    split_ifs with same
    · have pays := turn.served_pos positive balanced
      rw [same]
      omega
    · have before := balanced.bounded m inside
      have earns := positive m inside
      omega

theorem Turns.balanced (turns : Turns members share credit order after) (positive : ∀ m ∈ members, 0 < share m)
    (balanced : Balanced members share credit) : Balanced members share after := by
  induction turns with
  | none => exact balanced
  | next turn _ ih => exact ih (turn.balanced positive balanced)

/-- The credit counts the turns and the times the member was served. -/
theorem Turns.account (turns : Turns members share credit order after) (inside : m ∈ members) :
    after m = credit m + order.length * share m - order.count m * total members share := by
  induction turns with
  | none => simp
  | @next _ _ _ served order turn _ ih =>
    rw [ih, turn.paid m inside, List.length_cons, List.count_cons]
    by_cases same : m = served
    · subst same
      simp only [if_true, beq_self_eq_true]
      push_cast
      ring
    · have other : (served == m) = false := beq_false_of_ne (Ne.symm same)
      simp only [if_neg same, other, Bool.false_eq_true, if_false]
      push_cast
      ring

/-- A round of as many turns as the shares sum up to is fair, and nobody has credit left. -/
theorem Turns.fair (turns : Turns members share credit order after) (positive : ∀ m ∈ members, 0 < share m)
    (zero : ∀ m ∈ members, credit m = 0) (full : order.length = total members share) (inside : m ∈ members) :
    order.count m = share m ∧ after m = 0 := by
  have balanced := turns.balanced positive (balanced_zero positive zero)
  have whole := total_pos positive inside
  have left : ∀ other ∈ members, after other = total members share * (share other - order.count other) := by
    intro other within
    rw [turns.account within, zero other within, full]
    ring
  have enough : ∀ other ∈ members, 0 ≤ after other := by
    intro other within
    have bounded := balanced.bounded other within
    rw [left other within] at bounded ⊢
    have served : 0 ≤ share other - order.count other := by
      by_contra often
      have owes : total members share * (share other - order.count other) ≤ total members share * (-1) :=
        Int.mul_le_mul_of_nonneg_left (by omega) (Int.le_of_lt whole)
      omega
    exact Int.mul_nonneg (Int.le_of_lt whole) served
  have settled : after m = 0 := (Finset.sum_eq_zero_iff_of_nonneg enough).mp balanced.even m inside
  have exactly := left m inside
  rw [settled, eq_comm, Int.mul_eq_zero] at exactly
  refine ⟨?_, settled⟩
  omega

end MiniNetDist.Library.Credit
