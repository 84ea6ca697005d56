import Mathlib.Algebra.BigOperators.Group.List.Basic
import Mathlib.Algebra.GroupWithZero.Nat
import Mathlib.Algebra.Order.Group.Nat
import Mathlib.Data.List.Basic

/-! A total that is divided in proportion to weights, in whole units. Each share is rounded down, but nobody is left
without a unit as long as there is one, so that the shares may have more units than the total. -/

namespace MiniNetDist.Library.Apportion

variable {total all weight heavier : Nat}

/-- The share of a weight among weights with a sum. -/
def share (total all weight : Nat) : Nat := max (total * weight / all) (min 1 total)

/-- There is something to share, and the share in proportion is less than one unit. -/
def BelowOne (total all weight : Nat) : Prop := 0 < total ∧ total * weight < all

instance (total all weight : Nat) : Decidable (BelowOne total all weight) := inferInstanceAs (Decidable (_ ∧ _))

theorem share_mono (total all : Nat) (more : weight ≤ heavier) : share total all weight ≤ share total all heavier :=
  max_le_max_right _ (Nat.div_le_div_right (Nat.mul_le_mul_left total more))

/-- A share is at most one unit more than the one in proportion. -/
theorem share_mul_le (total all weight : Nat) :
    share total all weight * all ≤ total * weight + all := by
  rcases Nat.le_total (total * weight / all) (min 1 total) with raised | kept
  · rw [share, Nat.max_eq_right raised]
    exact Nat.le_trans (Nat.mul_le_mul_right all (Nat.min_le_left 1 total))
      (Nat.le_trans (Nat.le_of_eq (Nat.one_mul all)) (Nat.le_add_left _ _))
  · rw [share, Nat.max_eq_left kept]
    exact Nat.le_trans (Nat.div_mul_le_self _ _) (Nat.le_add_right _ _)

/-- A share is less than one unit below the one in proportion. -/
theorem lt_share_succ_mul (total : Nat) (positive : 0 < all) (weight : Nat) :
    total * weight < (share total all weight + 1) * all := by
  have rounded : total * weight < (total * weight / all + 1) * all :=
    (Nat.div_lt_iff_lt_mul positive).mp (Nat.lt_succ_self _)
  exact Nat.lt_of_lt_of_le rounded (Nat.mul_le_mul_right all (Nat.succ_le_succ (Nat.le_max_left _ _)))

theorem share_le (total : Nat) (positive : 0 < all) (weight : Nat) :
    share total all weight ≤ total * weight / all + if BelowOne total all weight then 1 else 0 := by
  rw [share]
  split_ifs with below
  · exact Nat.max_le.mpr ⟨Nat.le_add_right _ _, Nat.le_trans (Nat.min_le_left 1 total) (Nat.le_add_left _ _)⟩
  · rw [Nat.add_zero]
    refine Nat.max_le.mpr ⟨Nat.le_refl _, ?_⟩
    rcases Nat.eq_zero_or_pos total with rfl | some_total
    · exact Nat.le_trans (Nat.min_le_right 1 0) (Nat.zero_le _)
    · have some_unit : 1 ≤ total * weight / all :=
        (Nat.one_le_div_iff positive).mpr (Nat.le_of_not_lt fun less => below ⟨some_total, less⟩)
      exact Nat.le_trans (Nat.min_le_left 1 total) some_unit

/-- The shares of some of the weights. -/
theorem sum_share_le_div (total : Nat) (positive : 0 < all) (weights : List Nat) :
    (weights.map (share total all)).sum ≤ total * weights.sum / all + weights.countP (BelowOne total all ·) := by
  induction weights with
  | nil => exact Nat.zero_le _
  | cons weight rest ih =>
    have first := share_le total positive weight
    have both : total * weight / all + total * rest.sum / all ≤ (total * weight + total * rest.sum) / all :=
      Nat.div_add_div_le_add_div
    rw [List.map_cons, List.sum_cons, List.sum_cons, Nat.mul_add, List.countP_cons]
    simp only [decide_eq_true_eq]
    omega

/-- Together the shares have at most one unit more for each weight whose share would be less than one, and none more if
there is nothing to share. -/
theorem sum_share_le (total : Nat) (weights : List Nat) (positive : 0 < weights.sum) :
    (weights.map (share total weights.sum)).sum ≤ total + weights.countP (BelowOne total weights.sum ·) := by
  have bound := sum_share_le_div total positive weights
  rw [Nat.mul_div_cancel _ positive] at bound
  exact bound

end MiniNetDist.Library.Apportion
