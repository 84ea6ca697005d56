import Mathlib.Data.Finset.Card
import Mathlib.Data.List.Nodup

/-! Tables of bounded size with one entry for each key. An entry that is put into the table replaces one of the same
key if it has the higher rank. While the keys fit into the table, it holds the highest of all entries that have been put
for each key. -/

namespace MiniNetDist.Library.Latest

variable {Entry Key Rank : Type*} [LinearOrder Rank] (key : Entry → Key) (rank : Entry → Rank)
  (capacity : Nat)

/-- The first entry of the key is replaced if the new one has the higher rank. -/
def renew [DecidableEq Key] (entry : Entry) : List Entry → List Entry
  | [] => []
  | old :: rest =>
    if key old = key entry then (if rank old < rank entry then entry else old) :: rest else old :: renew entry rest

def put [DecidableEq Key] (entries : List Entry) (entry : Entry) : List Entry :=
  if ∃ old ∈ entries, key old = key entry then renew key rank entry entries
  else if capacity ≤ entries.length then entries
  else entries ++ [entry]

/-- The keys fit into a table. -/
def Fits (updates : Set Entry) : Prop :=
  ∃ keys : Finset Key, keys.card ≤ capacity ∧ ∀ update ∈ updates, key update ∈ keys

/-- No two entries of one key have the same rank. -/
def Ranked (updates : Set Entry) : Prop :=
  ∀ one ∈ updates, ∀ two ∈ updates, key one = key two → rank one = rank two → one = two

/-- The table holds what has been put into it, and of each key an entry as high as any. -/
structure Holds (updates : Set Entry) (entries : List Entry) : Prop where
  keyed : (entries.map key).Nodup
  room : entries.length ≤ capacity
  told : ∀ entry ∈ entries, entry ∈ updates
  highest : Fits key capacity updates → ∀ update ∈ updates, ∃ entry ∈ entries, key entry = key update ∧
    rank update ≤ rank entry

variable {key rank capacity} {updates others : Set Entry} {entries received : List Entry} {entry update : Entry}

theorem Fits.mono (fits : Fits key capacity updates) (fewer : others ⊆ updates) : Fits key capacity others := by
  obtain ⟨keys, small, listed⟩ := fits
  exact ⟨keys, small, fun update inside => listed update (fewer inside)⟩

theorem Holds.nil : Holds key rank capacity ∅ [] where
  keyed := .nil
  room := Nat.zero_le _
  told _ absurdly := absurd absurdly List.not_mem_nil
  highest _ update absurdly := absurd absurdly (Set.notMem_empty update)

/-- The table is exactly the highest entries. -/
theorem Holds.mem_iff (holds : Holds key rank capacity updates entries) (fits : Fits key capacity updates)
    (ranked : Ranked key rank updates) :
    entry ∈ entries ↔ entry ∈ updates ∧ ∀ update ∈ updates, key update = key entry → rank update ≤ rank entry := by
  constructor
  · intro present
    refine ⟨holds.told entry present, ?_⟩
    intro update inside same
    obtain ⟨kept, there, sameToo, ahead⟩ := holds.highest fits update inside
    have equal : kept = entry := List.inj_on_of_nodup_map holds.keyed there present (sameToo.trans same)
    rw [← equal]
    exact ahead
  · rintro ⟨inside, highest⟩
    obtain ⟨kept, present, same, ahead⟩ := holds.highest fits entry inside
    have told := holds.told kept present
    have equal : kept = entry := ranked kept told entry inside same (le_antisymm (highest kept told same) ahead)
    rw [← equal]
    exact present

/-- Two tables that have been told the same hold the same. -/
theorem Holds.perm (holds : Holds key rank capacity updates entries)
    (holdsToo : Holds key rank capacity updates received) (fits : Fits key capacity updates)
    (ranked : Ranked key rank updates) : entries.Perm received := by
  apply (List.perm_ext_iff_of_nodup holds.keyed.of_map holdsToo.keyed.of_map).mpr
  intro entry
  rw [holds.mem_iff fits ranked, holdsToo.mem_iff fits ranked]

/-- Nothing higher than what is in the table has been put exactly if the keys fit. -/
theorem Holds.highest_iff (holds : Holds key rank capacity updates entries) :
    (∀ update ∈ updates, ∃ entry ∈ entries, key entry = key update ∧ rank update ≤ rank entry) ↔
      Fits key capacity updates := by
  classical
  refine ⟨?_, holds.highest⟩
  intro all
  refine ⟨(entries.map key).toFinset, ?_, ?_⟩
  · rw [List.toFinset_card_of_nodup holds.keyed, List.length_map]
    exact holds.room
  · intro update inside
    obtain ⟨entry, present, same, -⟩ := all update inside
    rw [List.mem_toFinset, ← same]
    exact List.mem_map_of_mem present

variable [DecidableEq Key]

theorem map_key_renew (entry : Entry) (entries : List Entry) :
    (renew key rank entry entries).map key = entries.map key := by
  induction entries with
  | nil => rfl
  | cons old rest ih =>
    rw [renew]
    split
    · rename_i same
      rw [List.map_cons, List.map_cons]
      split
      · rw [same]
      · rfl
    · rw [List.map_cons, List.map_cons, ih]

theorem mem_renew (present : update ∈ renew key rank entry entries) : update = entry ∨ update ∈ entries := by
  induction entries with
  | nil => exact .inr present
  | cons old rest ih =>
    rw [renew] at present
    split at present
    · rcases List.mem_cons.mp present with rfl | later
      · split
        · exact .inl rfl
        · exact .inr List.mem_cons_self
      · exact .inr (List.mem_cons_of_mem _ later)
    · rcases List.mem_cons.mp present with rfl | later
      · exact .inr List.mem_cons_self
      · exact (ih later).imp_right (List.mem_cons_of_mem _)

/-- No key gets a lower rank. -/
theorem exists_renew_ge {old : Entry} (present : old ∈ entries) :
    ∃ kept ∈ renew key rank entry entries, key kept = key old ∧ rank old ≤ rank kept := by
  induction entries with
  | nil => exact absurd present List.not_mem_nil
  | cons head rest ih =>
    rw [renew]
    split
    · rename_i same
      rcases List.mem_cons.mp present with rfl | later
      · refine ⟨_, List.mem_cons_self, ?_⟩
        split
        · rename_i higher
          exact ⟨same.symm, le_of_lt higher⟩
        · exact ⟨rfl, le_refl _⟩
      · exact ⟨old, List.mem_cons_of_mem _ later, rfl, le_refl _⟩
    · rcases List.mem_cons.mp present with rfl | later
      · exact ⟨_, List.mem_cons_self, rfl, le_refl _⟩
      · obtain ⟨kept, inside, which⟩ := ih later
        exact ⟨kept, List.mem_cons_of_mem _ inside, which⟩

/-- The key of the new entry gets at least its rank. -/
theorem exists_renew_entry (found : ∃ old ∈ entries, key old = key entry) :
    ∃ kept ∈ renew key rank entry entries, key kept = key entry ∧ rank entry ≤ rank kept := by
  induction entries with
  | nil => exact absurd found (by simp)
  | cons head rest ih =>
    rw [renew]
    split
    · rename_i same
      refine ⟨_, List.mem_cons_self, ?_⟩
      split
      · exact ⟨rfl, le_refl _⟩
      · rename_i lower
        exact ⟨same, le_of_not_gt lower⟩
    · rename_i different
      obtain ⟨old, present, same⟩ := found
      rcases List.mem_cons.mp present with rfl | later
      · exact absurd same different
      · obtain ⟨kept, inside, which⟩ := ih ⟨old, later, same⟩
        exact ⟨kept, List.mem_cons_of_mem _ inside, which⟩

/-- A full table has all keys if they fit. -/
theorem Holds.has_key (holds : Holds key rank capacity updates entries)
    (fits : Fits key capacity (insert entry updates)) (full : capacity ≤ entries.length) :
    ∃ old ∈ entries, key old = key entry := by
  obtain ⟨keys, small, listed⟩ := fits
  have within : (entries.map key).toFinset ⊆ keys := by
    intro other present
    obtain ⟨old, inside, rfl⟩ := List.mem_map.mp (List.mem_toFinset.mp present)
    exact listed old (.inr (holds.told old inside))
  have many : keys.card ≤ (entries.map key).toFinset.card := by
    rw [List.toFinset_card_of_nodup holds.keyed, List.length_map]
    exact Nat.le_trans small full
  have all := Finset.eq_of_subset_of_card_le within many
  have mine : key entry ∈ (entries.map key).toFinset := by
    rw [all]
    exact listed entry (Set.mem_insert _ _)
  exact List.mem_map.mp (List.mem_toFinset.mp mine)

theorem length_renew (entry : Entry) (entries : List Entry) :
    (renew key rank entry entries).length = entries.length := by
  rw [← List.length_map key, map_key_renew, List.length_map]

theorem nodup_put (keyed : (entries.map key).Nodup) : ((put key rank capacity entries entry).map key).Nodup := by
  unfold put
  split
  · rw [map_key_renew]
    exact keyed
  · rename_i fresh
    split
    · exact keyed
    · rw [List.map_append, List.map_singleton]
      apply keyed.append (List.nodup_singleton _)
      rw [List.disjoint_singleton]
      exact fun present => fresh (List.mem_map.mp present)

theorem length_put_le (room : entries.length ≤ capacity) :
    (put key rank capacity entries entry).length ≤ capacity := by
  unfold put
  split
  · rw [length_renew]
    exact room
  · split
    · exact room
    · rename_i free
      rw [List.length_append]
      exact Nat.lt_of_not_le free

theorem mem_put (present : update ∈ put key rank capacity entries entry) : update = entry ∨ update ∈ entries := by
  unfold put at present
  split at present
  · exact mem_renew present
  · split at present
    · exact .inr present
    · rcases List.mem_append.mp present with old | new
      · exact .inr old
      · exact .inl (List.mem_singleton.mp new)

theorem Holds.put (holds : Holds key rank capacity updates entries) (entry : Entry) :
    Holds key rank capacity (insert entry updates) (put key rank capacity entries entry) := by
  refine ⟨nodup_put holds.keyed, length_put_le holds.room, ?_, ?_⟩
  · intro update present
    exact (mem_put present).imp_right (holds.told update)
  · intro fits update inside
    unfold Latest.put
    split
    · rename_i found
      rcases inside with rfl | old
      · exact exists_renew_entry found
      · obtain ⟨high, present, same, ahead⟩ := holds.highest (fits.mono (Set.subset_insert _ _)) update old
        obtain ⟨kept, stays, sameToo, further⟩ : ∃ kept ∈ renew key rank entry entries, key kept = key high ∧
          rank high ≤ rank kept := exists_renew_ge present
        exact ⟨kept, stays, sameToo.trans same, le_trans ahead further⟩
    · rename_i fresh
      split
      · rename_i full
        exact absurd (holds.has_key fits full) fresh
      · rcases inside with rfl | old
        · exact ⟨update, List.mem_append_right _ List.mem_cons_self, rfl, le_refl _⟩
        · obtain ⟨high, present, which⟩ := holds.highest (fits.mono (Set.subset_insert _ _)) update old
          exact ⟨high, List.mem_append_left _ present, which⟩

theorem Holds.foldl_put (holds : Holds key rank capacity updates entries) (received : List Entry) :
    Holds key rank capacity (updates ∪ {update | update ∈ received})
      (received.foldl (Latest.put key rank capacity) entries) := by
  induction received generalizing updates entries with
  | nil =>
    have same : updates ∪ {update | update ∈ ([] : List Entry)} = updates := by simp
    rw [same]
    exact holds
  | cons head rest ih =>
    have same : updates ∪ {update | update ∈ head :: rest} = insert head updates ∪ {update | update ∈ rest} := by
      ext update
      simp only [Set.mem_union, Set.mem_insert_iff, List.mem_cons, Set.mem_ofPred_eq]
      tauto
    rw [same]
    exact ih (holds.put head)

/-- A table takes over the entries of another one. -/
theorem Holds.merge (holds : Holds key rank capacity updates entries)
    (holdsToo : Holds key rank capacity others received) :
    Holds key rank capacity (updates ∪ others) (received.foldl (Latest.put key rank capacity) entries) := by
  have both := holds.foldl_put received
  have fewer : updates ∪ {update | update ∈ received} ⊆ updates ∪ others :=
    Set.union_subset_union_right _ holdsToo.told
  refine ⟨both.keyed, both.room, fun entry present => fewer (both.told entry present), ?_⟩
  rintro fits update (mine | hers)
  · exact both.highest (fits.mono fewer) update (.inl mine)
  · obtain ⟨passed, inside, same, ahead⟩ := holdsToo.highest (fits.mono Set.subset_union_right) update hers
    obtain ⟨kept, present, sameToo, further⟩ := both.highest (fits.mono fewer) passed (.inr inside)
    exact ⟨kept, present, sameToo.trans same, le_trans ahead further⟩

end MiniNetDist.Library.Latest
