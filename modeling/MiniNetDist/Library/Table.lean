import Mathlib.Data.List.Basic
import Mathlib.Data.List.Nodup

/-! Tables as C code keeps them: records in an array, found by the first whose key
matches, changed in place, and added at the end. Strings are their bytes up to the
terminating zero. -/

namespace MiniNetDist.Library

abbrev CString := List UInt8

/-- `strncpy` of at most `bound` bytes into a buffer that is terminated after them. -/
def strncpy (source : CString) (bound : Nat) : CString := source.take bound

/-- A string that fits the buffer with its terminator is copied whole. -/
theorem strncpy_of_lt {source : CString} {size : Nat} (short : source.length < size) :
    strncpy source (size - 1) = source :=
  List.take_of_length_le (Nat.le_pred_of_lt short)

theorem length_strncpy_le (source : CString) (bound : Nat) : (strncpy source bound).length ≤ bound :=
  List.length_take_le bound source

/-- The record that is found stands between those before it, none of which match, and the rest. -/
theorem split_of_findIdx? {Record : Type*} {matching : Record → Bool} {table : List Record} {i : Nat}
    (found : table.findIdx? matching = some i) :
    ∃ earlier record later, table = earlier ++ record :: later ∧ earlier.length = i ∧ matching record = true ∧
      ∀ other ∈ earlier, matching other = false := by
  induction table generalizing i with
  | nil => cases found
  | cons head rest ih =>
    rw [List.findIdx?_cons] at found
    cases hit : matching head with
    | true =>
      rw [hit, if_pos rfl] at found
      exact ⟨[], head, rest, rfl, Option.some.inj found, hit, by simp⟩
    | false =>
      rw [hit, if_neg Bool.false_ne_true] at found
      obtain ⟨j, further, rfl⟩ := Option.map_eq_some_iff.mp found
      obtain ⟨earlier, record, later, rfl, length, here, none⟩ := ih further
      refine ⟨head :: earlier, record, later, rfl, by rw [List.length_cons, length], here, ?_⟩
      intro other inside
      rcases List.mem_cons.mp inside with rfl | older
      · exact hit
      · exact none other older

theorem modify_middle {Record : Type*} (earlier : List Record) (record : Record) (later : List Record)
    (change : Record → Record) :
    (earlier ++ record :: later).modify earlier.length change = earlier ++ change record :: later := by
  induction earlier with
  | nil => rfl
  | cons head rest ih => exact congrArg (head :: ·) ih

/-- The last record is moved into the place of one that is removed. -/
def swapRemove {Record : Type*} (table : List Record) (i : Nat) : List Record :=
  match table.getLast? with
  | some last => (if i < table.length - 1 then table.set i last else table).dropLast
  | none => table

/-- Of the records, only the one in the middle is removed. -/
theorem swapRemove_middle {Record : Type*} (earlier : List Record) (record : Record) (later : List Record) :
    (swapRemove (earlier ++ record :: later) earlier.length).Perm (earlier ++ later) := by
  rcases later.eq_nil_or_concat with rfl | ⟨front, last, rfl⟩
  · have ended : ¬ earlier.length < (earlier ++ [record]).length - 1 := by simp
    rw [swapRemove, List.getLast?_concat]
    simp only [if_neg ended, List.dropLast_concat, List.append_nil]
    exact .refl _
  · have whole : earlier ++ record :: (front ++ [last]) = (earlier ++ record :: front) ++ [last] := by simp
    have inside : earlier.length < (earlier ++ record :: (front ++ [last])).length - 1 := by simp
    have moved : (earlier ++ record :: (front ++ [last])).set earlier.length last =
      (earlier ++ last :: front) ++ [last] := by
      simp
    rw [List.concat_eq_append, swapRemove, whole, List.getLast?_concat, ← whole]
    simp only [if_pos inside, moved, List.dropLast_concat]
    exact List.Perm.append_left earlier (List.perm_append_singleton last front).symm

theorem length_swapRemove_le {Record : Type*} (table : List Record) (i : Nat) :
    (swapRemove table i).length ≤ table.length := by
  unfold swapRemove
  split
  · rw [List.length_dropLast, apply_ite List.length, List.length_set, ite_self]
    exact Nat.sub_le _ _
  · exact Nat.le_refl _

namespace Table

variable {Record Key : Type*} [DecidableEq Key] (keyOf : Record → Key)

/-- The first record with the key. -/
def find (table : List Record) (key : Key) : Option Record :=
  table.find? fun record => keyOf record = key

/-- The position of the first record with the key. -/
def position (table : List Record) (key : Key) : Option Nat :=
  table.findIdx? fun record => keyOf record = key

/-- Change the first record with the key, if there is one. -/
def update (table : List Record) (key : Key) (change : Record → Record) : List Record :=
  match position keyOf table key with
  | some i => table.modify i change
  | none => table

variable {keyOf} {table : List Record} {key other : Key} {change : Record → Record} {record : Record}

@[simp] theorem find_nil : find keyOf [] key = none := rfl

theorem find_cons (record : Record) (rest : List Record) :
    find keyOf (record :: rest) key = if keyOf record = key then some record else find keyOf rest key := by
  unfold find
  rw [List.find?_cons]
  by_cases same : keyOf record = key <;> simp [same]

theorem position_cons (record : Record) (rest : List Record) :
    position keyOf (record :: rest) key =
      if keyOf record = key then some 0 else (position keyOf rest key).map (· + 1) := by
  unfold position
  rw [List.findIdx?_cons]
  by_cases same : keyOf record = key <;> simp [same]

theorem position_eq_none_iff : position keyOf table key = none ↔ find keyOf table key = none := by
  simp [position, find, List.findIdx?_eq_none_iff]

/-- The position leads to the record that is found. -/
theorem getElem?_position {i : Nat} (found : position keyOf table key = some i) :
    table[i]? = find keyOf table key := by
  unfold find
  unfold position at found
  rw [List.find?_eq_bind_findIdx?_getElem?, found, Option.bind_some]

theorem modify_position {i : Nat} (found : position keyOf table key = some i) :
    table.modify i change = update keyOf table key change := by
  rw [update, found]

theorem update_cons (record : Record) (rest : List Record) :
    update keyOf (record :: rest) key change =
      if keyOf record = key then change record :: rest else record :: update keyOf rest key change := by
  unfold update
  rw [position_cons]
  by_cases same : keyOf record = key
  · simp [same]
  · rw [if_neg same, if_neg same]
    cases position keyOf rest key with
    | none => rfl
    | some i => rfl

theorem update_middle {earlier : List Record} (none : ∀ other ∈ earlier, keyOf other ≠ key)
    (here : keyOf record = key) (later : List Record) :
    update keyOf (earlier ++ record :: later) key change = earlier ++ change record :: later := by
  induction earlier with
  | nil => exact (update_cons record later).trans (if_pos here)
  | cons head rest ih =>
    rw [List.cons_append, update_cons, if_neg (none head List.mem_cons_self),
      ih fun other inside => none other (List.mem_cons_of_mem _ inside), List.cons_append]

/-- The record that is found stands after others of which none has its key, and is the one that is changed. -/
theorem split_of_find (found : find keyOf table key = some record) :
    ∃ earlier later, table = earlier ++ record :: later ∧ keyOf record = key ∧
      (∀ other ∈ earlier, keyOf other ≠ key) ∧
      ∀ change, update keyOf table key change = earlier ++ change record :: later := by
  obtain ⟨here, earlier, later, rfl, none⟩ := List.find?_eq_some_iff_append.mp found
  have named : keyOf record = key := by simpa using here
  have others : ∀ other ∈ earlier, keyOf other ≠ key := by
    intro other inside
    simpa using none other inside
  exact ⟨earlier, later, rfl, named, others, fun change => update_middle others named later⟩

theorem key_of_find (found : find keyOf table key = some record) : keyOf record = key := by
  have matched := List.find?_some found
  simpa using matched

theorem mem_of_find (found : find keyOf table key = some record) : record ∈ table := List.mem_of_find?_eq_some found

/-- Where no two records share a key, each is found by its own. -/
theorem find_of_mem (distinct : (table.map keyOf).Nodup) (inside : record ∈ table) :
    find keyOf table (keyOf record) = some record := by
  induction table with
  | nil => cases inside
  | cons head rest ih =>
    rw [List.map_cons, List.nodup_cons] at distinct
    rw [find_cons]
    rcases List.mem_cons.mp inside with rfl | later
    · exact if_pos rfl
    · have different : keyOf head ≠ keyOf record := by
        intro same
        exact distinct.1 (same ▸ List.mem_map_of_mem later)
      rw [if_neg different, ih distinct.2 later]

theorem find_eq_none_iff : find keyOf table key = none ↔ key ∉ table.map keyOf := by
  simp [find, List.find?_eq_none]

theorem find_isSome_iff : (find keyOf table key).isSome ↔ key ∈ table.map keyOf := by
  rw [← not_iff_not, Option.not_isSome_iff_eq_none, find_eq_none_iff]

theorem position_isSome_iff : (position keyOf table key).isSome ↔ key ∈ table.map keyOf := by
  rw [← find_isSome_iff, ← not_iff_not, Option.not_isSome_iff_eq_none, Option.not_isSome_iff_eq_none,
    position_eq_none_iff]

/-- A change that keeps the key is seen under that key only. -/
theorem find_update (keeps : ∀ record, keyOf (change record) = keyOf record) :
    find keyOf (update keyOf table key change) other =
      if other = key then (find keyOf table key).map change else find keyOf table other := by
  induction table with
  | nil => simp [update, position]
  | cons record rest ih =>
    rw [update_cons]
    by_cases same : keyOf record = key
    · rw [if_pos same, find_cons, find_cons, find_cons, keeps, same]
      by_cases equal : key = other
      · subst equal; simp
      · simp [equal, Ne.symm equal]
    · rw [if_neg same, find_cons, find_cons, find_cons, ih, if_neg same]
      by_cases equal : other = key
      · subst equal; simp [same]
      · simp [equal]

theorem update_absent (absent : find keyOf table key = none) : update keyOf table key change = table := by
  unfold update
  rw [position_eq_none_iff.mpr absent]

theorem length_update : (update keyOf table key change).length = table.length := by
  unfold update
  cases position keyOf table key with
  | none => rfl
  | some i => exact List.length_modify change table i

theorem map_update (keeps : ∀ record, keyOf (change record) = keyOf record) :
    (update keyOf table key change).map keyOf = table.map keyOf := by
  induction table with
  | nil => rfl
  | cons record rest ih =>
    rw [update_cons]
    split_ifs
    · simp [keeps]
    · simp [ih]

/-- Where no two records share a key, the change is made wherever the key stands. -/
theorem update_eq_map (distinct : (table.map keyOf).Nodup) :
    update keyOf table key change = table.map fun record => if keyOf record = key then change record else record := by
  induction table with
  | nil => rfl
  | cons record rest ih =>
    rw [List.map_cons, List.nodup_cons] at distinct
    rw [update_cons, List.map_cons]
    by_cases same : keyOf record = key
    · subst same
      have elsewhere : rest.map (fun other => if keyOf other = keyOf record then change other else other) = rest := by
        refine (List.map_congr_left ?_).trans (List.map_id rest)
        intro other inside
        apply if_neg
        intro same
        exact distinct.1 (same ▸ List.mem_map_of_mem inside)
      rw [if_pos rfl, if_pos rfl, elsewhere]
    · rw [if_neg same, if_neg same, ih distinct.2]

/-- A record with the key, put where the first one was, is the one found. -/
theorem find_set_position {i : Nat} (found : position keyOf table key = some i) (named : keyOf record = key) :
    find keyOf (table.set i record) key = some record := by
  induction table generalizing i with
  | nil => cases found
  | cons head rest ih =>
    rw [position_cons] at found
    by_cases same : keyOf head = key
    · rw [if_pos same] at found
      cases found
      rw [List.set_cons_zero, find_cons, if_pos named]
    · rw [if_neg same] at found
      obtain ⟨j, later, rfl⟩ := Option.map_eq_some_iff.mp found
      rw [List.set_cons_succ, find_cons, if_neg same, ih later]

/-- Such a record is in nobody else's way. -/
theorem find_set_other {i : Nat} (found : position keyOf table key = some i) (named : keyOf record = key)
    (different : other ≠ key) : find keyOf (table.set i record) other = find keyOf table other := by
  induction table generalizing i with
  | nil => cases found
  | cons head rest ih =>
    rw [position_cons] at found
    by_cases same : keyOf head = key
    · rw [if_pos same] at found
      cases found
      rw [List.set_cons_zero, find_cons, find_cons, if_neg fun equal => different (equal.symm.trans named),
        if_neg fun equal => different (equal.symm.trans same)]
    · rw [if_neg same] at found
      obtain ⟨j, later, rfl⟩ := Option.map_eq_some_iff.mp found
      rw [List.set_cons_succ, find_cons, find_cons, ih later]

/-- A record added at the end is found if no earlier one has its key. -/
theorem find_append : find keyOf (table ++ [record]) key =
    (find keyOf table key).or (if keyOf record = key then some record else none) := by
  unfold find
  rw [List.find?_append, List.find?_singleton]
  simp

theorem find_map (keeps : ∀ record, keyOf (change record) = keyOf record) :
    find keyOf (table.map change) key = (find keyOf table key).map change := by
  unfold find
  rw [List.find?_map]
  simp only [Function.comp_def, keeps]

theorem mem_update_cases (present : record ∈ update keyOf table key change) :
    record ∈ table ∨ ∃ old ∈ table, record = change old := by
  induction table with
  | nil => cases present
  | cons head rest ih =>
    rw [update_cons] at present
    split_ifs at present
    · rcases List.mem_cons.mp present with rfl | old
      · exact .inr ⟨head, List.mem_cons_self, rfl⟩
      · exact .inl (List.mem_cons_of_mem _ old)
    · rcases List.mem_cons.mp present with rfl | later
      · exact .inl List.mem_cons_self
      · rcases ih later with old | ⟨old, inside, same⟩
        · exact .inl (List.mem_cons_of_mem _ old)
        · exact .inr ⟨old, List.mem_cons_of_mem _ inside, same⟩

/-- The keys of a table after a record for `key` is found or created. -/
def enter (present : List Key) (key : Key) : List Key :=
  if key ∈ present then present else present ++ [key]

/-- A table of bounded size has a record for the key, or space for one. -/
def HasRoom (capacity : Nat) (present : List Key) (key : Key) : Prop :=
  key ∈ present ∨ present.length < capacity

/-- The records that some of the needed keys still lack fit in the table. -/
def Room (capacity : Nat) (present needed : List Key) : Prop :=
  present.length + (needed.filter (· ∉ present)).length ≤ capacity

instance (capacity : Nat) (present : List Key) (key : Key) : Decidable (HasRoom capacity present key) :=
  inferInstanceAs (Decidable (_ ∨ _))

instance (capacity : Nat) (present needed : List Key) : Decidable (Room capacity present needed) :=
  inferInstanceAs (Decidable (_ ≤ _))

variable {capacity : Nat} {present rest : List Key}

theorem mem_enter : other ∈ enter present key ↔ other ∈ present ∨ other = key := by
  unfold enter
  split_ifs with inside
  · constructor
    · exact .inl
    · rintro (old | rfl)
      · exact old
      · exact inside
  · simp

theorem nodup_enter (distinct : present.Nodup) : (enter present key).Nodup := by
  unfold enter
  split_ifs with inside
  · exact distinct
  · rw [← List.concat_eq_append]
    exact distinct.concat inside

theorem mem_enter_all : other ∈ rest.foldl enter present ↔ other ∈ present ∨ other ∈ rest := by
  induction rest generalizing present with
  | nil => simp
  | cons key rest ih => rw [List.foldl_cons, ih, mem_enter, List.mem_cons, or_assoc]

theorem nodup_enter_all (distinct : present.Nodup) : (rest.foldl enter present).Nodup := by
  induction rest generalizing present with
  | nil => exact distinct
  | cons key rest ih => exact ih (nodup_enter distinct)

/-- What a bounded table shows of the keys entered. -/
theorem take_enter : (enter present key).take capacity =
    if key ∉ present.take capacity ∧ (present.take capacity).length < capacity
    then present.take capacity ++ [key] else present.take capacity := by
  rw [List.length_take]
  by_cases space : present.length < capacity
  · rw [List.take_of_length_le (Nat.le_of_lt space)]
    unfold enter
    by_cases old : key ∈ present
    · rw [if_pos old, if_neg (fun fresh => fresh.1 old), List.take_of_length_le (Nat.le_of_lt space)]
    · rw [if_neg old, if_pos ⟨old, by omega⟩, List.take_of_length_le]
      rw [List.length_append, List.length_singleton]
      exact space
  · rw [if_neg (by omega)]
    unfold enter
    split_ifs
    · rfl
    · exact List.take_append_of_le_length (Nat.le_of_not_lt space)

/-- Entering one key uses up the room of that key only. -/
theorem room_cons_iff (fresh : key ∉ rest) :
    Room capacity present (key :: rest) ↔
      HasRoom capacity present key ∧ Room capacity (enter present key) rest := by
  have sameNew : (rest.filter (· ∉ enter present key)) = rest.filter (· ∉ present) := by
    apply List.filter_congr
    intro other inside
    have different : other ≠ key := by
      rintro rfl
      exact fresh inside
    simp [mem_enter, different]
  unfold Room HasRoom
  rw [sameNew]
  by_cases inside : key ∈ present
  · simp [enter, inside]
  · simp [enter, inside]
    omega

end Table

end MiniNetDist.Library
