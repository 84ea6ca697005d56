import MiniNetDist.Library.Quorum

/-! Registers that several members keep, each with a value and a version under a key. Members take over what was
written somewhere, never an older version; a quorum that holds a version then shows it to every quorum that is read. -/

namespace MiniNetDist.Library

variable {Member Key Value : Type*}

/-- What a member holds under each key. -/
abbrev Register (Key Value : Type*) := Key → Option (Value × Nat)

variable {written more : Key → Value × Nat → Prop} {before between after : Register Key Value} {key : Key}
  {version : Nat}

/-- A register holds only what was written. -/
def Register.Genuine (written : Key → Value × Nat → Prop) (register : Register Key Value) : Prop :=
  ∀ key, ∀ held ∈ register key, written key held

/-- A register holds the version or a later one. -/
def Register.Covers (register : Register Key Value) (key : Key) (version : Nat) : Prop :=
  ∃ held ∈ register key, version ≤ held.2

/-- A register keeps or raises its versions, and what is new in it was written. -/
structure Advances (written : Key → Value × Nat → Prop) (before after : Register Key Value) : Prop where
  rises : ∀ key, ∀ held ∈ before key, after.Covers key held.2
  takes : ∀ key, ∀ held ∈ after key, held ∈ before key ∨ written key held

theorem Advances.refl (register : Register Key Value) : Advances written register register where
  rises _ held inside := ⟨held, inside, Nat.le_refl _⟩
  takes _ _ inside := .inl inside

/-- What was written is put under its key in place of no later version. -/
theorem Advances.update [DecidableEq Key] {held : Value × Nat} (new : written key held)
    (older : ∀ old ∈ before key, old.2 ≤ held.2) :
    Advances written before (Function.update before key (some held)) where
  rises other old inside := by
    by_cases same : other = key
    · subst same
      exact ⟨held, Function.update_self .., older old inside⟩
    · refine ⟨old, ?_, Nat.le_refl _⟩
      rw [Function.update_of_ne same]
      exact inside
  takes other later inside := by
    by_cases same : other = key
    · subst same
      rw [Function.update_self] at inside
      cases inside
      exact .inr new
    · rw [Function.update_of_ne same] at inside
      exact .inl inside

theorem Advances.covers (advances : Advances written before after) (covers : before.Covers key version) :
    after.Covers key version := by
  obtain ⟨held, inside, enough⟩ := covers
  obtain ⟨later, present, rises⟩ := advances.rises key held inside
  exact ⟨later, present, Nat.le_trans enough rises⟩

theorem Advances.trans (first : Advances written before between) (second : Advances written between after) :
    Advances written before after where
  rises key held inside := second.covers (first.rises key held inside)
  takes key held inside := by
    rcases second.takes key held inside with earlier | new
    · exact first.takes key held earlier
    · exact .inr new

theorem Advances.genuine (advances : Advances written before after) (genuine : before.Genuine written) :
    after.Genuine written := by
  intro key held inside
  rcases advances.takes key held inside with earlier | new
  · exact genuine key held earlier
  · exact new

theorem Register.Genuine.mono (genuine : before.Genuine written)
    (grows : ∀ key held, written key held → more key held) : before.Genuine more := fun key held inside => grows key held (genuine key held inside)

section Newest

variable {entries : List (Value × Nat)} {start : Value × Nat}

/-- The entry if its version is higher. -/
def newer (best entry : Value × Nat) : Value × Nat := if entry.2 > best.2 then entry else best

/-- The entry with the highest version, the first of several; `start` unless some entry has a higher version. -/
def newest (start : Value × Nat) (entries : List (Value × Nat)) : Value × Nat := entries.foldl newer start

theorem le_newer (best entry : Value × Nat) : best.2 ≤ (newer best entry).2 ∧ entry.2 ≤ (newer best entry).2 := by
  unfold newer
  split <;> omega

theorem newer_eq (best entry : Value × Nat) : newer best entry = best ∨ newer best entry = entry := by
  unfold newer
  split
  · exact .inr rfl
  · exact .inl rfl

theorem start_le_newest : start.2 ≤ (newest start entries).2 := by
  induction entries generalizing start with
  | nil => exact Nat.le_refl _
  | cons first rest ih => exact Nat.le_trans (le_newer start first).1 ih

theorem le_newest {entry : Value × Nat} (inside : entry ∈ entries) : entry.2 ≤ (newest start entries).2 := by
  induction entries generalizing start with
  | nil => cases inside
  | cons first rest ih =>
    rcases List.mem_cons.mp inside with rfl | later
    · exact Nat.le_trans (le_newer start entry).2 start_le_newest
    · exact ih later

theorem newest_mem : newest start entries = start ∨ newest start entries ∈ entries := by
  induction entries generalizing start with
  | nil => exact .inl rfl
  | cons first rest ih =>
    rcases @ih (newer start first) with same | inside
    · rcases newer_eq start first with kept | taken
      · exact .inl (same.trans kept)
      · exact .inr (List.mem_cons.mpr (.inl (same.trans taken)))
    · exact .inr (List.mem_cons_of_mem _ inside)

end Newest

section Quorums

variable [Fintype Member] {registers later : Member → Register Key Value}

open Classical in
/-- The members that hold the version or a later one. -/
noncomputable def holders (registers : Member → Register Key Value) (key : Key) (version : Nat) : Finset Member :=
  Finset.univ.filter fun member => (registers member).Covers key version

@[simp] theorem mem_holders {member : Member} :
    member ∈ holders registers key version ↔ (registers member).Covers key version := by
  simp [holders]

theorem holders_subset (advances : ∀ member, Advances written (registers member) (later member)) :
    holders registers key version ⊆ holders later key version := by
  intro member held
  rw [mem_holders] at held ⊢
  exact (advances member).covers held

/-- Readers and holders that are more together than there are members have a reader among them who holds the version. -/
theorem holder_among {readers : Finset Member}
    (many : Fintype.card Member < readers.card + (holders registers key version).card) :
    ∃ member ∈ readers, (registers member).Covers key version := by
  classical
  obtain ⟨member, reads, holds⟩ := meet_of_card many
  exact ⟨member, reads, mem_holders.mp holds⟩

end Quorums

end MiniNetDist.Library
