import MiniNetDist.Library.Table
import Mathlib.Data.Fintype.Card
import Mathlib.Logic.Function.Basic

/-! Ownership that is recorded on both sides: every item knows its holder, and every holder lists its items. -/

namespace MiniNetDist.Library

variable {Item Holder : Type*} [DecidableEq Item] [DecidableEq Holder]

/-- Each holder lists exactly the items it holds, without repetition. -/
def Holdings (holder : Item → Option Holder) (held : Holder → List Item) : Prop :=
  ∀ owner, (held owner).Nodup ∧ ∀ item, item ∈ held owner ↔ holder item = some owner

/-- The last item is moved into the place of the first occurrence of the one removed. -/
def removeHeld (items : List Item) (item : Item) : List Item :=
  match Table.position id items item with
  | some i => swapRemove items i
  | none => items

theorem removeHeld_perm (items : List Item) (item : Item) : (removeHeld items item).Perm (items.erase item) := by
  unfold removeHeld
  cases found : Table.position id items item with
  | none =>
    have absent : item ∉ items := by
      have none := Table.position_eq_none_iff.mp found
      simpa using Table.find_eq_none_iff.mp none
    rw [List.erase_of_not_mem absent]
  | some i =>
    obtain ⟨earlier, record, later, rfl, rfl, same, others⟩ := split_of_findIdx? found
    obtain rfl : record = item := by simpa using same
    have fresh : record ∉ earlier := fun among => by simpa using others record among
    rw [List.erase_append_right _ fresh, List.erase_cons_head]
    exact swapRemove_middle earlier record later

namespace Holdings

variable {holder : Item → Option Holder} {held : Holder → List Item} {item : Item} {owner : Holder}

/-- An item is given up by its holder. -/
theorem free (holdings : Holdings holder held) (holds : holder item = some owner) {rest : List Item}
    (removed : rest.Perm ((held owner).erase item)) :
    Holdings (Function.update holder item none) (Function.update held owner rest) := by
  intro other
  obtain ⟨distinct, listed⟩ := holdings other
  by_cases same : other = owner
  · subst same
    rw [Function.update_self]
    refine ⟨removed.nodup_iff.mpr (distinct.erase item), fun item' => ?_⟩
    rw [removed.mem_iff, distinct.mem_erase_iff, listed, Function.update_apply]
    by_cases equal : item' = item <;> simp [equal]
  · rw [Function.update_of_ne same]
    refine ⟨distinct, fun item' => ?_⟩
    rw [listed, Function.update_apply]
    split
    · rename_i equal
      subst equal
      rw [holds]
      simp [Ne.symm same]
    · rfl

/-- An item that nobody holds is taken. -/
theorem take (holdings : Holdings holder held) (unheld : holder item = none) :
    Holdings (Function.update holder item (some owner)) (Function.update held owner (held owner ++ [item])) := by
  intro other
  obtain ⟨distinct, listed⟩ := holdings other
  have absent : item ∉ held other := by
    rw [listed, unheld]
    exact nofun
  by_cases same : other = owner
  · subst same
    rw [Function.update_self]
    refine ⟨List.nodup_append.mpr ⟨distinct, List.nodup_singleton item, ?_⟩, fun item' => ?_⟩
    · rintro _ among _ last rfl
      exact absent (List.mem_singleton.mp last ▸ among)
    · rw [List.mem_append, List.mem_singleton, listed, Function.update_apply]
      by_cases equal : item' = item <;> simp [equal]
  · rw [Function.update_of_ne same]
    refine ⟨distinct, fun item' => ?_⟩
    rw [listed, Function.update_apply]
    split
    · rename_i equal
      subst equal
      rw [unheld]
      simp [Ne.symm same]
    · rfl

omit [DecidableEq Item] [DecidableEq Holder] in
/-- A holder that does not hold everything has room in a list as long as there are items. -/
theorem length_lt [Fintype Item] (holdings : Holdings holder held) (other : holder item ≠ some owner) :
    (held owner).length < Fintype.card Item := by
  obtain ⟨distinct, listed⟩ := holdings owner
  have more : (item :: held owner).Nodup := List.nodup_cons.mpr ⟨fun among => other ((listed item).mp among), distinct⟩
  exact more.length_le_card

end Holdings

end MiniNetDist.Library
