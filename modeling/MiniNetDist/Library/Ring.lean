import Mathlib.Data.List.Basic

/-! A buffer that is filled once and then overwritten lap by lap from its first slot. -/

namespace MiniNetDist.Library.Ring

variable {Item : Type*} {capacity total slot : Nat} {history : List Item} {item : Item}

/-- The slots after the items have been written: the lap under way, then what it has not reached of
the lap before. -/
def retained (capacity : Nat) (history : List Item) : List Item :=
  if history.length ≤ capacity then history
  else history.drop (history.length - history.length % capacity) ++
    (history.drop (history.length - capacity)).take (capacity - history.length % capacity)

/-- The number of the item that a slot of a full buffer holds. -/
def source (capacity total slot : Nat) : Nat :=
  if slot < total % capacity then total - total % capacity + slot
  else total - capacity + (slot - total % capacity)

theorem retained_short (short : history.length ≤ capacity) : retained capacity history = history :=
  if_pos short

theorem length_retained (room : 0 < capacity) (history : List Item) :
    (retained capacity history).length = min history.length capacity := by
  unfold retained
  split_ifs with short
  · omega
  · have lap := Nat.mod_lt history.length room
    simp only [List.length_append, List.length_drop, List.length_take]
    omega

theorem source_lt (room : 0 < capacity) (full : capacity ≤ total) (inside : slot < capacity) :
    source capacity total slot < total := by
  have lap := Nat.mod_lt total room
  unfold source
  split_ifs <;> omega

/-- A write changes the slot it goes to and no other. -/
theorem source_succ (room : 0 < capacity) (full : capacity ≤ total) (inside : slot < capacity) :
    source capacity (total + 1) slot = if total % capacity = slot then total else source capacity total slot := by
  have lap := Nat.mod_lt total room
  unfold source
  rw [← Nat.mod_add_mod]
  by_cases around : total % capacity + 1 = capacity
  · rw [around, Nat.mod_self]
    split_ifs <;> omega
  · rw [Nat.mod_eq_of_lt (Nat.lt_of_le_of_ne lap around)]
    split_ifs <;> omega

theorem getElem?_retained (room : 0 < capacity) (full : capacity ≤ history.length) (inside : slot < capacity) :
    (retained capacity history)[slot]? = history[source capacity history.length slot]? := by
  have lap := Nat.mod_lt history.length room
  have newer : (history.drop (history.length - history.length % capacity)).length = history.length % capacity := by
    rw [List.length_drop]
    omega
  unfold retained source
  by_cases short : history.length ≤ capacity
  · have once : history.length = capacity := Nat.le_antisymm short full
    rw [if_pos short, once, Nat.mod_self, if_neg (Nat.not_lt_zero slot), Nat.sub_self, Nat.sub_zero, Nat.zero_add]
  · rw [if_neg short]
    by_cases here : slot < history.length % capacity
    · rw [if_pos here, List.getElem?_append_left (by omega), List.getElem?_drop]
    · rw [if_neg here, List.getElem?_append_right (by omega), newer, List.getElem?_take_of_lt (by omega),
        List.getElem?_drop]

theorem retained_append_short (short : history.length < capacity) :
    retained capacity (history ++ [item]) = retained capacity history ++ [item] := by
  rw [retained_short (Nat.le_of_lt short), retained_short]
  rw [List.length_append, List.length_singleton]
  exact short

/-- Once the buffer is full, an item replaces what stands in the next slot. -/
theorem retained_append_full (room : 0 < capacity) (full : capacity ≤ history.length) :
    retained capacity (history ++ [item]) = (retained capacity history).set (history.length % capacity) item := by
  have longer : (history ++ [item]).length = history.length + 1 := by simp
  have size := length_retained room history
  apply List.ext_getElem?
  intro slot
  rw [List.getElem?_set]
  by_cases inside : slot < capacity
  · have before := source_lt room full inside
    rw [getElem?_retained room (by omega) inside, longer, source_succ room full inside]
    by_cases here : history.length % capacity = slot
    · rw [if_pos here, if_pos here, if_pos (by omega)]
      simp
    · rw [if_neg here, if_neg here, List.getElem?_append_left before, getElem?_retained room full inside]
  · have lap := Nat.mod_lt history.length room
    rw [List.getElem?_eq_none (by rw [length_retained room]; omega), if_neg (by omega),
      List.getElem?_eq_none (by omega)]

end MiniNetDist.Library.Ring
