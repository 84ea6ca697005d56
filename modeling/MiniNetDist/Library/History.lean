import Mathlib.Data.Finset.Card
import Mathlib.Data.Finset.Insert
import Mathlib.Data.Finset.Lattice.Basic

/-! Histories of updates that several owners make and pass on. The updates are numbered in the
order in which they are made and a history is a set of numbers. It is closed if it holds with
each update the earlier ones of the same owner. Of two closed histories one holds all that the
other holds of an owner, so the larger count is that of the union. -/

namespace MiniNetDist.Library.History

variable {Update Owner : Type*} {owner : Update → Owner} {log : List Update}
  {history other : Finset Nat} {update : Update}

structure Closed (owner : Update → Owner) (log : List Update) (history : Finset Nat) : Prop where
  made : ∀ i ∈ history, i < log.length
  earlier : ∀ i ∈ history, ∀ j < i, log[j]?.map owner = log[i]?.map owner → j ∈ history

/-- The history holds every update of one owner. -/
def Complete (owner : Update → Owner) (log : List Update) (who : Owner) (history : Finset Nat) : Prop :=
  ∀ i, log[i]?.map owner = some who → i ∈ history

theorem Closed.empty : Closed owner log ∅ :=
  ⟨fun i absurdly => absurd absurdly (Finset.notMem_empty i), fun i absurdly => absurd absurdly (Finset.notMem_empty i)⟩

theorem Closed.union (closed : Closed owner log history) (closedToo : Closed owner log other) :
    Closed owner log (history ∪ other) := by
  constructor
  · intro i inside
    rcases Finset.mem_union.mp inside with here | there
    · exact closed.made i here
    · exact closedToo.made i there
  · intro i inside j before same
    rcases Finset.mem_union.mp inside with here | there
    · exact Finset.mem_union_left _ (closed.earlier i here j before same)
    · exact Finset.mem_union_right _ (closedToo.earlier i there j before same)

theorem Closed.append (closed : Closed owner log history) (update : Update) :
    Closed owner (log ++ [update]) history := by
  refine ⟨fun i inside => ?_, fun i inside j before same => closed.earlier i inside j before ?_⟩
  · rw [List.length_append]
    exact Nat.lt_add_right _ (closed.made i inside)
  · have bound := closed.made i inside
    rw [List.getElem?_append_left (Nat.lt_trans before bound), List.getElem?_append_left bound] at same
    exact same

/-- An owner that knows all it has done can do one thing more. -/
theorem Closed.insert (closed : Closed owner log history) (complete : Complete owner log (owner update) history) :
    Closed owner (log ++ [update]) (insert log.length history) := by
  constructor
  · intro i inside
    rw [List.length_append, List.length_singleton]
    rcases Finset.mem_insert.mp inside with rfl | old
    · exact Nat.lt_succ_self _
    · exact Nat.lt_succ_of_lt (closed.made i old)
  · intro i inside j before same
    apply Finset.mem_insert_of_mem
    rcases Finset.mem_insert.mp inside with rfl | old
    · apply complete
      rw [List.getElem?_append_left before, List.getElem?_concat_length] at same
      exact same
    · exact (closed.append update).earlier i old j before same

theorem Complete.append {who : Owner} (complete : Complete owner log who history) (different : owner update ≠ who) :
    Complete owner (log ++ [update]) who history := by
  intro i made
  rcases Nat.lt_trichotomy i log.length with old | rfl | beyond
  · rw [List.getElem?_append_left old] at made
    exact complete i made
  · rw [List.getElem?_concat_length] at made
    exact absurd (Option.some.inj made) different
  · rw [List.getElem?_eq_none (by rw [List.length_append, List.length_singleton]; exact beyond)] at made
    cases made

theorem Complete.insert {who : Owner} (complete : Complete owner log who history) :
    Complete owner (log ++ [update]) who (insert log.length history) := by
  intro i made
  rcases Nat.lt_trichotomy i log.length with old | rfl | beyond
  · rw [List.getElem?_append_left old] at made
    exact Finset.mem_insert_of_mem (complete i made)
  · exact Finset.mem_insert_self _ _
  · rw [List.getElem?_eq_none (by rw [List.length_append, List.length_singleton]; exact beyond)] at made
    cases made

theorem Complete.union {who : Owner} (complete : Complete owner log who history) :
    Complete owner log who (history ∪ other) :=
  fun i made => Finset.mem_union_left _ (complete i made)

/-- Of each owner's updates, one of two closed histories has all that the other has. -/
theorem Closed.nested (closed : Closed owner log history) (closedToo : Closed owner log other) (who : Owner) :
    (∀ i ∈ history, log[i]?.map owner = some who → i ∈ other) ∨
      (∀ i ∈ other, log[i]?.map owner = some who → i ∈ history) := by
  by_cases within : ∀ i ∈ history, log[i]?.map owner = some who → i ∈ other
  · exact .inl within
  · right
    push Not at within
    obtain ⟨i, inside, mine, outside⟩ := within
    intro j present hers
    rcases Nat.lt_trichotomy j i with before | rfl | after
    · exact closed.earlier i inside j before (hers.trans mine.symm)
    · exact absurd present outside
    · exact absurd (closedToo.earlier j present i after (mine.trans hers.symm)) outside

variable [DecidableEq Update]

/-- How often the history holds one kind of update. -/
def tally (log : List Update) (history : Finset Nat) (update : Update) : Nat :=
  (history.filter fun i => log[i]? = some update).card

theorem tally_empty : tally log ∅ update = 0 := by
  rw [tally, Finset.filter_empty, Finset.card_empty]

theorem tally_append (made : ∀ i ∈ history, i < log.length) (next : Update) :
    tally (log ++ [next]) history update = tally log history update := by
  unfold tally
  congr 1
  apply Finset.filter_congr
  intro i inside
  rw [List.getElem?_append_left (made i inside)]

theorem tally_insert (made : ∀ i ∈ history, i < log.length) (next : Update) :
    tally (log ++ [next]) (insert log.length history) update =
      tally log history update + if next = update then 1 else 0 := by
  have fresh : log.length ∉ history := fun inside => Nat.lt_irrefl _ (made _ inside)
  rw [← tally_append made next]
  unfold tally
  rw [Finset.filter_insert, List.getElem?_concat_length]
  by_cases same : next = update
  · rw [if_pos (congrArg some same), if_pos same, Finset.card_insert_of_notMem]
    intro inside
    exact fresh (Finset.mem_filter.mp inside).1
  · rw [if_neg (fun equal => same (Option.some.inj equal)), if_neg same, Nat.add_zero]

theorem tally_le (owner : Update → Owner)
    (within : ∀ i ∈ history, log[i]?.map owner = some (owner update) → i ∈ other) :
    tally log history update ≤ tally log other update := by
  apply Finset.card_le_card
  intro i inside
  obtain ⟨present, same⟩ := Finset.mem_filter.mp inside
  exact Finset.mem_filter.mpr ⟨within i present (by rw [same, Option.map_some]), same⟩

private theorem tally_union_eq (within : ∀ i ∈ history, log[i]?.map owner = some (owner update) → i ∈ other) :
    tally log (history ∪ other) update = tally log other update := by
  apply Nat.le_antisymm
  · refine tally_le owner fun i inside mine => ?_
    rcases Finset.mem_union.mp inside with here | there
    · exact within i here mine
    · exact there
  · exact tally_le owner fun i inside _ => Finset.mem_union_right _ inside

/-- The union of two closed histories counts what the larger one counts. -/
theorem tally_union (closed : Closed owner log history) (closedToo : Closed owner log other) :
    tally log (history ∪ other) update = max (tally log history update) (tally log other update) := by
  rcases closed.nested closedToo (owner update) with within | within
  · rw [tally_union_eq within, max_eq_right (tally_le owner within)]
  · rw [Finset.union_comm, tally_union_eq within, max_eq_left (tally_le owner within)]

/-- An update that is the latest of its owner in one history is in another exactly if that
counts as many. -/
theorem mem_iff_tally_le (closed : Closed owner log history) (closedToo : Closed owner log other) {i : Nat}
    (inside : i ∈ history) (made : log[i]? = some update)
    (latest : ∀ j ∈ history, log[j]?.map owner = some (owner update) → j ≤ i) :
    i ∈ other ↔ tally log history update ≤ tally log other update := by
  have mine : log[i]?.map owner = some (owner update) := by rw [made, Option.map_some]
  constructor
  · intro present
    refine tally_le owner fun j here same => ?_
    rcases Nat.lt_or_eq_of_le (latest j here same) with before | rfl
    · exact closedToo.earlier i present j before (same.trans mine.symm)
    · exact present
  · intro enough
    rcases closed.nested closedToo (owner update) with within | within
    · exact within i inside mine
    · have contained : (other.filter fun j => log[j]? = some update) ⊆ history.filter fun j => log[j]? = some update := by
        intro j there
        obtain ⟨present, same⟩ := Finset.mem_filter.mp there
        exact Finset.mem_filter.mpr ⟨within j present (by rw [same, Option.map_some]), same⟩
      have equal := Finset.eq_of_subset_of_card_le contained enough
      have both : i ∈ history.filter fun j => log[j]? = some update := Finset.mem_filter.mpr ⟨inside, made⟩
      rw [← equal] at both
      exact (Finset.mem_filter.mp both).1

end MiniNetDist.Library.History
