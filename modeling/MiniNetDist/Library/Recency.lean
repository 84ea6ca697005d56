import Mathlib.Data.List.Nodup
import Mathlib.Data.List.Perm.Basic
import Mathlib.Order.Defs.LinearOrder

/-! Keys in the order of their last use, and records that carry this order in their stamps: each use stamps a record
with the next number, and the record with the smallest stamp is the one used longest ago. -/

namespace MiniNetDist.Library.Recency

section Order

variable {Key : Type*} [DecidableEq Key] {keys : List Key} {key : Key} {n : Nat}

/-- The keys after one of them was used, the latest first. -/
def touch (key : Key) (keys : List Key) : List Key := key :: keys.erase key

/-- The keys that were used, each once, the latest first. -/
def recency (uses : List Key) : List Key := uses.foldl (fun keys key => touch key keys) []

theorem recency_concat (uses : List Key) (key : Key) : recency (uses ++ [key]) = touch key (recency uses) := by
  rw [recency, List.foldl_append]
  rfl

theorem nodup_touch (distinct : keys.Nodup) : (touch key keys).Nodup :=
  List.nodup_cons.mpr ⟨distinct.not_mem_erase, distinct.erase key⟩

theorem nodup_recency (uses : List Key) : (recency uses).Nodup :=
  List.foldlRecOn uses _ List.nodup_nil fun _ distinct _ _ => nodup_touch distinct

theorem mem_touch {other : Key} : other ∈ touch key keys ↔ other = key ∨ other ∈ keys := by
  by_cases same : other = key
  · simp [touch, same]
  · simp [touch, same, List.mem_erase_of_ne same]

/-- Among the latest ones, a use moves a key as it does among all. -/
theorem take_touch_of_mem (inside : key ∈ keys.take n) : (touch key keys).take n = touch key (keys.take n) := by
  have positive : n ≠ 0 := by
    rintro rfl
    simp at inside
  obtain ⟨n, rfl⟩ := Nat.exists_eq_succ_of_ne_zero positive
  unfold touch
  rw [List.take_succ_cons]
  congr 1
  clear positive
  induction keys generalizing n with
  | nil => simp at inside
  | cons head rest ih =>
    rw [List.take_succ_cons] at inside ⊢
    by_cases here : head = key
    · subst here
      rw [List.erase_cons_head, List.erase_cons_head]
    · rw [List.erase_cons_tail (by simpa using here), List.erase_cons_tail (by simpa using here)]
      have further : key ∈ rest.take n := (List.mem_cons.mp inside).resolve_left (Ne.symm here)
      cases n with
      | zero => simp at further
      | succ n => rw [List.take_succ_cons, ih n further]

/-- A key that is not among the latest ones pushes the last of them out. -/
theorem take_touch_of_not_mem (outside : key ∉ keys.take (n + 1)) :
    (touch key keys).take (n + 1) = key :: keys.take n := by
  unfold touch
  rw [List.take_succ_cons]
  congr 1
  induction keys generalizing n with
  | nil => rfl
  | cons head rest ih =>
    rw [List.take_succ_cons, List.mem_cons, not_or] at outside
    rw [List.erase_cons_tail (by simpa using Ne.symm outside.1)]
    cases n with
    | zero => rfl
    | succ n => rw [List.take_succ_cons, List.take_succ_cons, ih outside.2]

end Order

section Stamps

variable {Record Key : Type*} (keyOf : Record → Key) (stampOf : Record → Int)

/-- In the order of their stamps, the records have these keys, the latest first; no stamp is above the counter. -/
structure Stamped (records : List Record) (counter : Int) (keys : List Key) : Prop where
  view : ∃ order : List Record, order.Perm records ∧ order.map keyOf = keys ∧
    order.Pairwise fun a b => stampOf b < stampOf a
  below : ∀ record ∈ records, stampOf record ≤ counter

variable {keyOf stampOf} {records earlier later : List Record} {counter next : Int} {keys : List Key}
  {record record' : Record}

theorem stamped_nil (counter : Int) : Stamped keyOf stampOf [] counter [] :=
  ⟨⟨[], .refl _, rfl, .nil⟩, by simp⟩

theorem Stamped.perm_keys (stamped : Stamped keyOf stampOf records counter keys) : (records.map keyOf).Perm keys := by
  obtain ⟨order, perm, rfl, _⟩ := stamped.view
  exact (perm.map keyOf).symm

theorem Stamped.length_eq (stamped : Stamped keyOf stampOf records counter keys) : records.length = keys.length := by
  rw [← stamped.perm_keys.length_eq, List.length_map]

theorem Stamped.mem_iff (stamped : Stamped keyOf stampOf records counter keys) {key : Key} :
    key ∈ keys ↔ ∃ record ∈ records, keyOf record = key := by
  rw [← stamped.perm_keys.mem_iff, List.mem_map]

/-- A new record gets the next stamp. -/
theorem Stamped.insert (stamped : Stamped keyOf stampOf records counter keys) (newer : counter < next)
    (stamp : stampOf record = next) : Stamped keyOf stampOf (records ++ [record]) next (keyOf record :: keys) where
  view := by
    obtain ⟨order, perm, rfl, sorted⟩ := stamped.view
    refine ⟨record :: order, ?_, rfl, List.pairwise_cons.mpr ⟨fun other inside => ?_, sorted⟩⟩
    · exact (perm.cons record).trans (List.perm_append_singleton record records).symm
    · exact stamp ▸ Int.lt_of_le_of_lt (stamped.below other (perm.mem_iff.mp inside)) newer
  below other inside := by
    rcases List.mem_append.mp inside with old | new
    · exact Int.le_of_lt (Int.lt_of_le_of_lt (stamped.below other old) newer)
    · exact Int.le_of_eq (List.mem_singleton.mp new ▸ stamp)

/-- A record that is used gets the next stamp. -/
theorem Stamped.touch [DecidableEq Key] (stamped : Stamped keyOf stampOf (earlier ++ record :: later) counter keys)
    (distinct : keys.Nodup) (newer : counter < next) (same : keyOf record' = keyOf record)
    (stamp : stampOf record' = next) :
    Stamped keyOf stampOf (earlier ++ record' :: later) next (Recency.touch (keyOf record) keys) where
  view := by
    obtain ⟨order, perm, rfl, sorted⟩ := stamped.view
    obtain ⟨before, after, rfl⟩ := List.append_of_mem (perm.mem_iff.mpr (by simp : record ∈ earlier ++ record :: later))
    have rest : (before ++ after).Perm (earlier ++ later) :=
      (List.perm_middle.symm.trans (perm.trans List.perm_middle)).cons_inv
    have absent : keyOf record ∉ before.map keyOf := by
      rw [List.map_append, List.map_cons, List.nodup_append] at distinct
      exact fun inside => distinct.2.2 _ inside _ List.mem_cons_self rfl
    refine ⟨record' :: (before ++ after), (rest.cons record').trans List.perm_middle.symm, ?_, ?_⟩
    · rw [List.map_cons, List.map_append, List.map_append, List.map_cons, Recency.touch, same,
        List.erase_append_right _ absent, List.erase_cons_head]
    · have less : (before ++ after).Sublist (before ++ record :: after) :=
        (List.sublist_cons_self record after).append_left before
      refine List.pairwise_cons.mpr ⟨fun other inside => ?_, sorted.sublist less⟩
      exact stamp ▸ Int.lt_of_le_of_lt (stamped.below other (perm.mem_iff.mp (less.subset inside))) newer
  below other inside := by
    rcases List.mem_append.mp inside with old | inside
    · exact Int.le_of_lt (Int.lt_of_le_of_lt (stamped.below other (by simp [old])) newer)
    · rcases List.mem_cons.mp inside with rfl | old
      · exact Int.le_of_eq stamp
      · exact Int.le_of_lt (Int.lt_of_le_of_lt (stamped.below other (by simp [old])) newer)

/-- The record with the smallest stamp is the one that was not used for longest. -/
theorem Stamped.evict (stamped : Stamped keyOf stampOf (earlier ++ record :: later) counter keys)
    (smallest : ∀ other ∈ earlier ++ record :: later, stampOf record ≤ stampOf other) :
    Stamped keyOf stampOf (earlier ++ later) counter keys.dropLast where
  view := by
    obtain ⟨order, perm, rfl, sorted⟩ := stamped.view
    obtain ⟨before, after, rfl⟩ := List.append_of_mem (perm.mem_iff.mpr (by simp : record ∈ earlier ++ record :: later))
    -- nothing can stand behind the record
    obtain rfl : after = [] := by
      refine List.eq_nil_iff_forall_not_mem.mpr fun other inside => ?_
      have less := (List.pairwise_cons.mp (List.pairwise_append.mp sorted).2.1).1 other inside
      have least := smallest other (perm.mem_iff.mp (by simp [inside]))
      omega
    refine ⟨before, ?_, ?_, sorted.sublist (List.sublist_append_left _ _)⟩
    · exact ((List.perm_append_singleton record before).symm.trans (perm.trans List.perm_middle)).cons_inv
    · rw [List.map_append, List.map_singleton, List.dropLast_concat]
  below other inside := stamped.below other (by
    rcases List.mem_append.mp inside with old | old <;> simp [old])

end Stamps

end MiniNetDist.Library.Recency
