import Mathlib.Order.Bounds.Basic

/-! The depth of an element under a relation: how many elements the longest chain has that ends there. A numbering that
rises along the relation, and at each element by one over some element below it, is the depth. -/

namespace MiniNetDist.Library.Depth

variable {Node : Type*} {below : Node → Node → Prop}

/-- A chain of this many elements ends in the element. -/
inductive Chain (below : Node → Node → Prop) : Nat → Node → Prop
  | single (node : Node) : Chain below 1 node
  | longer {n : Nat} {earlier later : Node} (chain : Chain below n earlier) (step : below earlier later) :
      Chain below (n + 1) later

variable {level : Node → Nat} {inside : Node → Prop} {node : Node} {n : Nat}

theorem Chain.le_level (rises : ∀ {a b}, below a b → inside a ∧ level a < level b) (positive : ∀ a, inside a → 0 < level a)
    (chain : Chain below n node) (within : inside node) : n ≤ level node := by
  induction chain with
  | single node => exact positive node within
  | longer _ step ih =>
    obtain ⟨earlier, less⟩ := rises step
    exact Nat.lt_of_le_of_lt (ih earlier) less

theorem chain_level (tight : ∀ b, inside b → level b = 1 ∨ ∃ a, below a b ∧ inside a ∧ level b = level a + 1)
    (within : inside node) : Chain below (level node) node := by
  generalize same : level node = depth
  induction depth generalizing node with
  | zero =>
    rcases tight node within with one | ⟨a, -, -, next⟩
    · omega
    · omega
  | succ depth ih =>
    rcases tight node within with one | ⟨a, step, earlier, next⟩
    · rw [← same, one]
      exact .single node
    · exact .longer (ih earlier (by omega)) step

/-- The numbering is the depth. -/
theorem isGreatest_level (inside : Node → Prop) (rises : ∀ {a b}, below a b → inside a ∧ level a < level b)
    (tight : ∀ b, inside b → level b = 1 ∨ ∃ a, below a b ∧ inside a ∧ level b = level a + 1) (within : inside node) :
    IsGreatest {n | Chain below n node} (level node) := by
  refine ⟨chain_level tight within, ?_⟩
  intro n chain
  refine chain.le_level rises ?_ within
  intro a earlier
  rcases tight a earlier with one | ⟨_, -, -, next⟩
  · omega
  · omega

end MiniNetDist.Library.Depth
