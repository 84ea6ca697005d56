import Mathlib.Data.List.Basic

/-! Lists that are searched from the front for an item that is accepted in view of those before it. -/

namespace MiniNetDist.Library.Earliest

variable {Item State : Type*} {accepts : List Item → Item → Prop} {items before other after later : List Item}
  {item found : Item}

/-- No item is accepted. -/
def Nowhere (accepts : List Item → Item → Prop) (items : List Item) : Prop :=
  ∀ before item after, items = before ++ item :: after → ¬accepts before item

/-- An item is accepted, and none before it. -/
structure First (accepts : List Item → Item → Prop) (items before : List Item) (item : Item) (after : List Item) :
    Prop where
  split : items = before ++ item :: after
  accepted : accepts before item
  earlier : Nowhere accepts before

theorem First.notNowhere (first : First accepts items before item after) : ¬Nowhere accepts items :=
  fun nowhere => nowhere before item after first.split first.accepted

theorem First.unique (first : First accepts items before item after) (second : First accepts items other found later) :
    item = found := by
  rcases List.append_eq_append_iff.mp (first.split.symm.trans second.split) with ⟨between, longer, rest⟩ |
      ⟨between, longer, rest⟩
  · cases between with
    | nil => exact (List.cons.inj rest).1
    | cons next between =>
      obtain ⟨rfl, -⟩ := List.cons.inj rest
      exact absurd first.accepted (second.earlier before item between longer)
  · cases between with
    | nil => exact (List.cons.inj rest).1.symm
    | cons next between =>
      obtain ⟨rfl, -⟩ := List.cons.inj rest
      exact absurd second.accepted (first.earlier other found between longer)

theorem Nowhere.concat (nowhere : Nowhere accepts before) (refused : ¬accepts before item) :
    Nowhere accepts (before ++ [item]) := by
  intro start other more split
  rcases List.eq_nil_or_concat more with rfl | ⟨rest, last, rfl⟩
  · obtain ⟨rfl, same⟩ := List.append_inj' split rfl
    exact List.singleton_inj.mp same ▸ refused
  · have shorter : before ++ [item] = (start ++ other :: rest) ++ [last] := by simpa using split
    exact nowhere start other rest (List.append_inj' shorter rfl).1

/-- A loop over a list that returns an item, or goes on. -/
def search (round : State → Item → State ⊕ Item) : State → List Item → State ⊕ Item
  | state, [] => .inl state
  | state, item :: items =>
    match round state item with
    | .inl next => search round next items
    | .inr found => .inr found

/-- A loop that returns what is accepted, and keeps an invariant of the items it passes over, finds the first item that
is accepted. -/
theorem search_cases {round : State → Item → State ⊕ Item} {invariant : List Item → State → Prop} {state : State}
    (rounds : ∀ before item after state, items = before ++ item :: after → invariant before state →
      accepts before item ∧ round state item = .inr item ∨
        ¬accepts before item ∧ ∃ next, round state item = .inl next ∧ invariant (before ++ [item]) next)
    (initial : invariant [] state) :
    (∃ before item after, First accepts items before item after ∧ search round state items = .inr item) ∨
      Nowhere accepts items ∧ ∃ last, search round state items = .inl last ∧ invariant items last := by
  suffices onward : ∀ rest before state, items = before ++ rest → Nowhere accepts before → invariant before state →
      (∃ before item after, First accepts items before item after ∧ search round state rest = .inr item) ∨
        Nowhere accepts items ∧ ∃ last, search round state rest = .inl last ∧ invariant items last by
    refine onward items [] state rfl ?_ initial
    intro start other rest split
    simp at split
  intro rest
  induction rest with
  | nil =>
    intro before state split nowhere holds
    rw [List.append_nil] at split
    subst split
    exact .inr ⟨nowhere, state, rfl, holds⟩
  | cons item rest ih =>
    intro before state split nowhere holds
    rcases rounds before item rest state split holds with ⟨accepted, leaves⟩ | ⟨refused, next, goesOn, kept⟩
    · refine .inl ⟨before, item, rest, ⟨split, accepted, nowhere⟩, ?_⟩
      rw [search, leaves]
    · rw [search, goesOn]
      exact ih (before ++ [item]) next (split.trans (List.append_cons before item rest)) (nowhere.concat refused) kept

end MiniNetDist.Library.Earliest
