import Mathlib.Data.List.Nodup
import Mathlib.Data.List.Perm.Basic

/-! Texts that are cut into pieces of a size, of which only so many are made, and pieces that are put in order again. -/

namespace MiniNetDist.Library.Pieces

variable {Cell Item : Type*} {text : List Cell} {size count offset start : Nat}

/-- Where the pieces begin: at most `count` of them, from an offset on. -/
def cuts (size length : Nat) : Nat → Nat → List Nat
  | 0, _ => []
  | count + 1, offset => if offset < length then offset :: cuts size length count (offset + size) else []

def piece (text : List Cell) (size offset : Nat) : List Cell := (text.drop offset).take size

theorem length_piece (text : List Cell) (size offset : Nat) :
    (piece text size offset).length = min size (text.length - offset) := by
  rw [piece, List.length_take, List.length_drop]

section Cuts

theorem length_cuts_le (size length count offset : Nat) : (cuts size length count offset).length ≤ count := by
  induction count generalizing offset with
  | zero => exact Nat.le_refl 0
  | succ count ih =>
    rw [cuts]
    split
    · exact Nat.succ_le_succ (ih _)
    · exact Nat.zero_le _

theorem mem_cuts {length : Nat} (made : offset ∈ cuts size length count start) :
    start ≤ offset ∧ offset < length ∧ size ∣ offset - start := by
  induction count generalizing start with
  | zero => exact nomatch made
  | succ count ih =>
    rw [cuts] at made
    split at made
    · rename_i inside
      rcases List.mem_cons.mp made with rfl | later
      · exact ⟨Nat.le_refl _, inside, by simp⟩
      · obtain ⟨behind, within, whole⟩ := ih later
        refine ⟨Nat.le_trans (Nat.le_add_right _ _) behind, within, ?_⟩
        have apart : offset - start = offset - (start + size) + size := by omega
        exact apart ▸ Nat.dvd_add whole (Nat.dvd_refl size)
    · exact nomatch made

theorem pairwise_cuts (positive : 0 < size) (length count offset : Nat) :
    (cuts size length count offset).Pairwise (· < ·) := by
  induction count generalizing offset with
  | zero => exact .nil
  | succ count ih =>
    rw [cuts]
    split
    · refine List.pairwise_cons.mpr ⟨?_, ih _⟩
      intro later made
      exact Nat.lt_of_lt_of_le (Nat.lt_add_of_pos_right positive) (mem_cuts made).1
    · exact .nil

/-- The pieces put together are as much of the text as they can be. -/
theorem flatMap_cuts (text : List Cell) (size count offset : Nat) :
    (cuts size text.length count offset).flatMap (piece text size) = (text.drop offset).take (count * size) := by
  induction count generalizing offset with
  | zero => simp [cuts]
  | succ count ih =>
    rw [cuts]
    split
    · rw [List.flatMap_cons, ih, piece, Nat.succ_mul, Nat.add_comm (count * size), List.take_add, List.drop_drop]
    · rename_i beyond
      rw [List.drop_of_length_le (Nat.le_of_not_lt beyond), List.take_nil, List.flatMap_nil]

/-- Where a piece reaches the end of the text, the pieces are all there are. -/
theorem cuts_reach {length : Nat} (made : offset ∈ cuts size length count start) (last : length ≤ offset + size) :
    length ≤ start + count * size := by
  induction count generalizing start with
  | zero => exact nomatch made
  | succ count ih =>
    rw [cuts] at made
    rw [Nat.succ_mul]
    split at made
    · rcases List.mem_cons.mp made with rfl | later
      · omega
      · have reached := ih later
        omega
    · exact nomatch made

end Cuts

section Order

variable {key : Item → Nat} {items other : List Item}

/-- Sorting by a key puts items with increasing keys in order again, however they were arranged. -/
theorem mergeSort_eq (sorted : items.Pairwise fun first second => key first < key second) (same : other.Perm items) :
    other.mergeSort (fun first second => key first ≤ key second) = items := by
  have ascending : items.Pairwise fun first second => decide (key first ≤ key second) = true :=
    sorted.imp fun less => decide_eq_true (Nat.le_of_lt less)
  have arranged : (other.mergeSort fun first second => key first ≤ key second).Pairwise
      fun first second => decide (key first ≤ key second) = true := by
    apply List.pairwise_mergeSort
    · intro first second third below above
      exact decide_eq_true (Nat.le_trans (of_decide_eq_true below) (of_decide_eq_true above))
    · intro first second
      simpa using Nat.le_total (key first) (key second)
  have arrangement := (List.mergeSort_perm other fun first second => key first ≤ key second).trans same
  refine List.Perm.eq_of_pairwise ?_ arranged ascending arrangement
  intro first second among held below above
  have distinct : (items.map key).Nodup := List.pairwise_map.mpr (sorted.imp Nat.ne_of_lt)
  have equal := Nat.le_antisymm (of_decide_eq_true below) (of_decide_eq_true above)
  exact List.inj_on_of_nodup_map distinct (arrangement.mem_iff.mp among) held equal

end Order

end MiniNetDist.Library.Pieces
