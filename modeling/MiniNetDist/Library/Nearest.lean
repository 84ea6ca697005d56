import Mathlib.Data.List.Basic

/-! The search loop for the nearest item of a list: it keeps the best distance so far and replaces
the item only by one that is strictly nearer, so that the first of several wins. -/

namespace MiniNetDist.Library.Nearest

variable {Item : Type*} {distance : Item → Int} {limit : Int} {items : List Item} {item : Item}

/-- One round of the search. -/
def nearer (distance : Item → Int) (best : Option Item × Int) (item : Item) : Option Item × Int :=
  if distance item < best.2 then (some item, distance item) else best

def nearest (distance : Item → Int) (limit : Int) (items : List Item) : Option Item :=
  (items.foldl (nearer distance) (none, limit)).1

/-- The item is in the list, nearer than those before it and no farther than those after it. -/
def FirstNearest (distance : Item → Int) (items : List Item) (item : Item) : Prop :=
  ∃ before after, items = before ++ item :: after ∧
    (∀ other ∈ before, distance item < distance other) ∧ ∀ other ∈ after, distance item ≤ distance other

/-- What the loop makes of a state it starts from. -/
theorem nearer_fold (distance : Item → Int) (items : List Item) (best : Option Item × Int) :
    (items.foldl (nearer distance) best = best ∧ ∀ other ∈ items, best.2 ≤ distance other) ∨
    ∃ item, items.foldl (nearer distance) best = (some item, distance item) ∧ distance item < best.2 ∧
      FirstNearest distance items item := by
  induction items generalizing best with
  | nil => exact .inl ⟨rfl, by simp⟩
  | cons head rest ih =>
    rw [List.foldl_cons]
    by_cases better : distance head < best.2
    · have next : nearer distance best head = (some head, distance head) := if_pos better
      rw [next]
      rcases ih (some head, distance head) with ⟨kept, farther⟩ | ⟨item, found, near, before, after, rfl, first, last⟩
      · exact .inr ⟨head, kept, better, [], rest, rfl, by simp, farther⟩
      · refine .inr ⟨item, found, Int.lt_trans near better, head :: before, after, rfl, ?_, last⟩
        intro other inside
        rcases List.mem_cons.mp inside with rfl | later
        · exact near
        · exact first other later
    · have next : nearer distance best head = best := if_neg better
      rw [next]
      rcases ih best with ⟨kept, farther⟩ | ⟨item, found, near, before, after, rfl, first, last⟩
      · refine .inl ⟨kept, ?_⟩
        intro other inside
        rcases List.mem_cons.mp inside with rfl | later
        · exact Int.not_lt.mp better
        · exact farther other later
      · refine .inr ⟨item, found, near, head :: before, after, rfl, ?_, last⟩
        intro other inside
        rcases List.mem_cons.mp inside with rfl | later
        · exact Int.lt_of_lt_of_le near (Int.not_lt.mp better)
        · exact first other later

theorem nearest_eq_none_iff : nearest distance limit items = none ↔ ∀ other ∈ items, limit ≤ distance other := by
  unfold nearest
  rcases nearer_fold distance items (none, limit) with ⟨kept, farther⟩ | ⟨item, found, near, nearestItem⟩
  · rw [kept]
    exact ⟨fun _ => farther, fun _ => rfl⟩
  · rw [found]
    obtain ⟨before, after, rfl, -, -⟩ := nearestItem
    constructor
    · intro none
      cases none
    · intro farther
      exact absurd near (Int.not_lt.mpr (farther item (by simp)))

/-- No two items are both the first nearest. -/
theorem FirstNearest.unique {other : Item} (first : FirstNearest distance items item)
    (second : FirstNearest distance items other) : item = other := by
  obtain ⟨before, after, split, nearer, noFarther⟩ := first
  obtain ⟨before₂, after₂, split₂, nearer₂, noFarther₂⟩ := second
  rcases List.append_eq_append_iff.mp (split.symm.trans split₂) with ⟨middle, same, rest⟩ | ⟨middle, same, rest⟩
  · cases middle with
    | nil => exact (List.cons.inj rest).1
    | cons head tail =>
      obtain ⟨rfl, rfl⟩ := List.cons.inj rest
      have above := nearer₂ item (by simp [same])
      have below := noFarther other (by simp)
      omega
  · cases middle with
    | nil => exact (List.cons.inj rest).1.symm
    | cons head tail =>
      obtain ⟨rfl, rfl⟩ := List.cons.inj rest
      have above := nearer other (by simp [same])
      have below := noFarther₂ item (by simp)
      omega

theorem nearest_eq_some_iff :
    nearest distance limit items = some item ↔ distance item < limit ∧ FirstNearest distance items item := by
  unfold nearest
  rcases nearer_fold distance items (none, limit) with ⟨kept, farther⟩ | ⟨found, result, near, first⟩
  · rw [kept]
    constructor
    · intro absurdly
      cases absurdly
    · rintro ⟨near, before, after, rfl, -, -⟩
      exact absurd near (Int.not_lt.mpr (farther item (by simp)))
  · rw [result]
    constructor
    · intro same
      cases same
      exact ⟨near, first⟩
    · rintro ⟨-, second⟩
      exact congrArg some (first.unique second)

theorem nearest_mem (found : nearest distance limit items = some item) : item ∈ items := by
  obtain ⟨-, before, after, rfl, -, -⟩ := nearest_eq_some_iff.mp found
  simp

theorem nearest_le (found : nearest distance limit items = some item) {other : Item} (inside : other ∈ items) :
    distance item ≤ distance other := by
  obtain ⟨-, before, after, rfl, nearer, noFarther⟩ := nearest_eq_some_iff.mp found
  rcases List.mem_append.mp inside with earlier | rest
  · exact Int.le_of_lt (nearer other earlier)
  · rcases List.mem_cons.mp rest with rfl | later
    · exact Int.le_refl _
    · exact noFarther other later

/-- Items at the end of the list win or change nothing. -/
theorem nearest_append (distance : Item → Int) (limit : Int) (items more : List Item) :
    nearest distance limit (items ++ more) = nearest distance limit items ∨
      ∃ item ∈ more, nearest distance limit (items ++ more) = some item := by
  unfold nearest
  rw [List.foldl_append]
  rcases nearer_fold distance more (items.foldl (nearer distance) (none, limit)) with
    ⟨kept, -⟩ | ⟨item, found, -, before, after, rfl, -, -⟩
  · rw [kept]
    exact .inl rfl
  · refine .inr ⟨item, by simp, ?_⟩
    rw [found]

/-- Taking away others leaves the nearest as it is. -/
theorem nearest_filter {keep : Item → Bool} (found : nearest distance limit items = some item)
    (kept : keep item = true) : nearest distance limit (items.filter keep) = some item := by
  obtain ⟨near, before, after, rfl, nearer, noFarther⟩ := nearest_eq_some_iff.mp found
  refine nearest_eq_some_iff.mpr ⟨near, before.filter keep, after.filter keep, ?_, ?_, ?_⟩
  · rw [List.filter_append, List.filter_cons_of_pos kept]
  · exact fun other inside => nearer other (List.mem_filter.mp inside).1
  · exact fun other inside => noFarther other (List.mem_filter.mp inside).1

theorem nearest_filter_none {keep : Item → Bool} (none : nearest distance limit items = none) :
    nearest distance limit (items.filter keep) = Option.none := by
  rw [nearest_eq_none_iff] at none ⊢
  exact fun other inside => none other (List.mem_filter.mp inside).1

/-- The search sees an item only through its distance. -/
theorem nearest_map {Source : Type*} (label : Source → Item) (sources : List Source) :
    nearest distance limit (sources.map label) =
      (nearest (fun source => distance (label source)) limit sources).map label := by
  have folds : ∀ (sources : List Source) (best : Option Source × Int),
      (sources.map label).foldl (nearer distance) (best.1.map label, best.2) =
        ((sources.foldl (nearer fun source => distance (label source)) best).1.map label,
          (sources.foldl (nearer fun source => distance (label source)) best).2) := by
    intro sources
    induction sources with
    | nil => exact fun _ => rfl
    | cons source rest ih =>
      intro best
      rw [List.map_cons, List.foldl_cons, List.foldl_cons, ← ih]
      congr 1
      unfold nearer
      split_ifs <;> rfl
  unfold nearest
  rw [show ((none : Option Item), limit) = ((none : Option Source).map label, limit) from rfl,
    folds sources (none, limit)]

/-- One more item wins if it is strictly nearer. -/
theorem nearest_concat {best : Item} (found : nearest distance limit items = some best) (item : Item) :
    nearest distance limit (items ++ [item]) = some (if distance item < distance best then item else best) := by
  unfold nearest at found ⊢
  rw [List.foldl_append, List.foldl_cons, List.foldl_nil]
  rcases nearer_fold distance items (none, limit) with ⟨kept, -⟩ | ⟨other, result, -, -⟩
  · rw [kept] at found
    cases found
  · rw [result] at found ⊢
    cases found
    unfold nearer
    split_ifs <;> rfl

end MiniNetDist.Library.Nearest
