import Mathlib.Data.List.Basic
import Mathlib.Data.Nat.ModEq
import Mathlib.Logic.Function.Basic

/-! A queue in a circle of slots, and queues in order whose oldest items are given up. -/

namespace MiniNetDist.Library.Fifo

variable {Item : Type*} {slots : Nat → Item} {capacity head : Nat} {items : List Item} {item : Item}

/-- The slots from `head` on hold the items. -/
structure Holds (slots : Nat → Item) (capacity head : Nat) (items : List Item) : Prop where
  room : items.length ≤ capacity
  held : ∀ index (inside : index < items.length), slots ((head + index) % capacity) = items[index]

theorem Holds.empty (slots : Nat → Item) (capacity head : Nat) : Holds slots capacity head [] where
  room := Nat.zero_le _
  held := fun _ inside => absurd inside (Nat.not_lt_zero _)

theorem Holds.front (holds : Holds slots capacity head (item :: items)) (inside : head < capacity) :
    slots head = item := by
  have first := holds.held 0 (Nat.zero_lt_succ _)
  rw [Nat.add_zero, Nat.mod_eq_of_lt inside] at first
  exact first

theorem Holds.pop (holds : Holds slots capacity head (item :: items)) :
    Holds slots capacity ((head + 1) % capacity) items where
  room := Nat.le_of_succ_le holds.room
  held := by
    intro index inside
    have later := holds.held (index + 1) (Nat.succ_lt_succ inside)
    rw [Nat.mod_add_mod, Nat.add_assoc, Nat.add_comm 1 index, later]
    rfl

/-- Two places of a queue that fits are two slots. -/
theorem slot_ne {index next : Nat} (before : index < next) (inside : next < capacity) :
    (head + index) % capacity ≠ (head + next) % capacity := by
  intro same
  have apart : index % capacity = next % capacity := Nat.ModEq.add_left_cancel' head same
  rw [Nat.mod_eq_of_lt (Nat.lt_trans before inside), Nat.mod_eq_of_lt inside] at apart
  exact absurd apart (Nat.ne_of_lt before)

theorem Holds.push (holds : Holds slots capacity head items) (free : items.length < capacity) (item : Item) :
    Holds (Function.update slots ((head + items.length) % capacity) item) capacity head (items ++ [item]) where
  room := by
    rw [List.length_append]
    exact free
  held := by
    intro index inside
    rw [List.length_append, List.length_singleton] at inside
    rcases Nat.lt_succ_iff_lt_or_eq.mp inside with before | rfl
    · rw [Function.update_of_ne (slot_ne before free), holds.held index before, List.getElem_append_left before]
    · rw [Function.update_self, List.getElem_concat_length rfl]

/-- Where what stays is behind what goes, giving up the oldest items leaves those that stay. -/
theorem dropWhile_eq_filter {stale : Item → Bool}
    (sorted : items.Pairwise fun older newer => stale newer = true → stale older = true) :
    items.dropWhile stale = items.filter fun item => !stale item := by
  induction items with
  | nil => rfl
  | cons item items ih =>
    obtain ⟨first, others⟩ := List.pairwise_cons.mp sorted
    cases goes : stale item with
    | true =>
      rw [List.dropWhile_cons_of_pos goes, List.filter_cons_of_neg (by simp [goes])]
      exact ih others
    | false =>
      have stay : ∀ newer ∈ items, (!stale newer) = true := by
        intro newer held
        rw [Bool.not_eq_true']
        exact Bool.eq_false_iff.mpr fun stales => Bool.false_ne_true (goes.symm.trans (first newer held stales))
      rw [List.dropWhile_cons_of_neg (by simp [goes]), List.filter_cons_of_pos (by simp [goes]),
        List.filter_eq_self.mpr stay]

/-- An item that comes to a full queue is lost. -/
def accept (capacity : Nat) (items : List Item) (item : Item) : List Item :=
  if items.length < capacity then items ++ [item] else items

/-- Of several items that come to a queue, the first ones stay. -/
theorem foldl_accept (capacity : Nat) (items more : List Item) :
    more.foldl (accept capacity) items = items ++ more.take (capacity - items.length) := by
  induction more generalizing items with
  | nil => rw [List.take_nil, List.append_nil]; rfl
  | cons item more ih =>
    rw [List.foldl_cons, ih, accept]
    split
    next room =>
      have left : capacity - items.length = capacity - (items.length + 1) + 1 := by omega
      rw [List.length_append, List.length_singleton, left, List.take_succ_cons, List.append_assoc]
      rfl
    next full =>
      rw [Nat.sub_eq_zero_of_le (Nat.le_of_not_lt full), List.take_zero, List.take_zero]

end MiniNetDist.Library.Fifo
