import Mathlib.Data.List.Basic

/-! Memory of a fixed size that is written to in place. -/

namespace MiniNetDist.Library.Memory

variable {Cell : Type*} {memory begun item : List Cell} {position : Nat}

/-- The cells from a position on are replaced. -/
def write (memory : List Cell) (position : Nat) (item : List Cell) : List Cell :=
  memory.take position ++ item ++ memory.drop (position + item.length)

theorem length_write (room : position + item.length ≤ memory.length) :
    (write memory position item).length = memory.length := by
  rw [write, List.length_append, List.length_append, List.length_take, List.length_drop]
  omega

/-- What is written behind a beginning continues it. -/
theorem prefix_write (begins : begun <+: memory) (behind : position = begun.length) :
    begun ++ item <+: write memory position item := by
  obtain ⟨rest, rfl⟩ := begins
  subst position
  rw [write, List.take_left]
  exact List.prefix_append _ _

theorem write_zero (memory item : List Cell) : write memory 0 item = item ++ memory.drop item.length := by
  rw [write, List.take_zero, List.nil_append, Nat.zero_add]

end MiniNetDist.Library.Memory
