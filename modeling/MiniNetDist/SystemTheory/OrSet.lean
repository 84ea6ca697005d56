import MiniNetDist.Library.Run
import MiniNetDist.Library.Table

/-! The observed-remove set of `mini-dist-system-theory/src/crdt.c`. An addition makes an entry
with a tag of its own; a removal overwrites the first byte of the tag with an exclamation mark
and the element with -1. -/

namespace MiniNetDist.SystemTheory.OrSet

open Library

def CRDT_MAX_ELEMENTS : Nat := 256
def ORSET_TAG_LEN : Nat := 32

structure ORSetEntry where
  tag : CString
  element : Int
  deriving DecidableEq, Repr

structure ORSet where
  entries : List ORSetEntry
  nodeId : Int
  seqCounter : Int
  deriving DecidableEq, Repr

/-- The bytes that `%d` prints. -/
def decimal (value : Int) : CString :=
  (if value < 0 then [45] else []) ++ (Nat.toDigits 10 value.natAbs).map fun digit => digit.toNat.toUInt8

/-- The tag `n<node>-s<seq>`. -/
def orsTag (nodeId seqCounter : Int) : CString :=
  strncpy ([110] ++ decimal nodeId ++ [45, 115] ++ decimal seqCounter) (ORSET_TAG_LEN - 1)

def orsetInit (nodeId : Int) : ORSet := ⟨[], nodeId, 0⟩

def ORSetEntry.removed (entry : ORSetEntry) : Bool := entry.tag.head? = some 33

/-- The entry is one of the element and has not been removed. -/
def ORSetEntry.live (element : Int) (entry : ORSetEntry) : Bool := entry.element = element && !entry.removed

def ORSetEntry.bury (entry : ORSetEntry) : ORSetEntry := ⟨33 :: entry.tag.tail, -1⟩

def orsAdd (ors : ORSet) (element : Int) : ORSet :=
  if ors.entries.any (·.element = element) then ors
  else if ors.entries.length ≥ CRDT_MAX_ELEMENTS then ors
  else { ors with
    entries := ors.entries ++ [⟨orsTag ors.nodeId ors.seqCounter, element⟩]
    seqCounter := ors.seqCounter + 1 }

def orsRemove (ors : ORSet) (element : Int) : ORSet :=
  if ors.entries.length ≥ CRDT_MAX_ELEMENTS then ors
  else match ors.entries.findIdx? (·.live element) with
  | none => ors
  | some i => { ors with entries := ors.entries.modify i ORSetEntry.bury }

def orsContains (ors : ORSet) (element : Int) : Bool := ors.entries.any (·.live element)

/-- The first loop of `ors_merge`, for one entry of the other replica. -/
def orsAdopt (entries : List ORSetEntry) (entry : ORSetEntry) : List ORSetEntry :=
  if entries.any (·.tag = entry.tag) then entries
  else if entries.length < CRDT_MAX_ELEMENTS then entries ++ [entry]
  else entries

/-- The second loop of `ors_merge`, for one pair of positions. -/
def orsSupersede (entries : List ORSetEntry) (i j : Nat) : List ORSetEntry :=
  match entries[i]?, entries[j]? with
  | some first, some second =>
    if i ≠ j ∧ first.tag = second.tag ∧ !second.removed ∧ first.removed then entries.set j first else entries
  | _, _ => entries

def orsMerge (ors other : ORSet) : ORSet :=
  let entries := other.entries.foldl orsAdopt ors.entries
  let positions := List.range entries.length
  { ors with
    entries := positions.foldl (fun entries i => positions.foldl (orsSupersede · i ·) entries) entries }

/-- Equal tags are both removed or both not, so the second loop never changes anything. -/
theorem orsSupersede_eq (entries : List ORSetEntry) (i j : Nat) : orsSupersede entries i j = entries := by
  unfold orsSupersede
  split
  · rename_i first second _ _
    apply if_neg
    rintro ⟨-, same, kept, gone⟩
    rw [ORSetEntry.removed, ← same] at kept
    rw [ORSetEntry.removed] at gone
    simp [gone] at kept
  · rfl

theorem orsMerge_entries (ors other : ORSet) :
    (orsMerge ors other).entries = other.entries.foldl orsAdopt ors.entries := by
  have inner : ∀ (positions : List Nat) (entries : List ORSetEntry) (i : Nat),
      positions.foldl (orsSupersede · i ·) entries = entries := by
    intro positions entries i
    induction positions with
    | nil => rfl
    | cons j rest ih => rw [List.foldl_cons, orsSupersede_eq, ih]
  have outer : ∀ (positions rows : List Nat) (entries : List ORSetEntry),
      rows.foldl (fun entries i => positions.foldl (orsSupersede · i ·) entries) entries = entries := by
    intro positions rows entries
    induction rows with
    | nil => rfl
    | cons i rest ih => rw [List.foldl_cons, inner, ih]
  exact outer _ _ _

/-- A merge brings no live entry that neither side had, and drops none of its own. -/
theorem mem_adopted {entry : ORSetEntry} (others entries : List ORSetEntry)
    (adopted : entry ∈ others.foldl orsAdopt entries) : entry ∈ entries ∨ entry ∈ others := by
  induction others generalizing entries with
  | nil => exact .inl adopted
  | cons first rest ih =>
    rcases ih (orsAdopt entries first) adopted with here | later
    · unfold orsAdopt at here
      split_ifs at here
      · exact .inl here
      · rcases List.mem_append.mp here with own | new
        · exact .inl own
        · rw [List.mem_singleton.mp new]
          exact .inr List.mem_cons_self
      · exact .inl here
    · exact .inr (List.mem_cons_of_mem _ later)

theorem mem_of_adopting {entry : ORSetEntry} (others entries : List ORSetEntry) (own : entry ∈ entries) :
    entry ∈ others.foldl orsAdopt entries := by
  induction others generalizing entries with
  | nil => exact own
  | cons first rest ih =>
    apply ih
    unfold orsAdopt
    split_ifs
    · exact own
    · exact List.mem_append_left _ own
    · exact own

theorem orsContains_iff {ors : ORSet} {element : Int} :
    orsContains ors element = true ↔ ∃ entry ∈ ors.entries, entry.live element = true :=
  List.any_eq_true

/-- What a replica contains survives a merge. -/
theorem orsContains_merge_left {ors other : ORSet} {element : Int} (contained : orsContains ors element = true) :
    orsContains (orsMerge ors other) element = true := by
  obtain ⟨entry, own, live⟩ := orsContains_iff.mp contained
  rw [orsContains_iff, orsMerge_entries]
  exact ⟨entry, mem_of_adopting _ _ own, live⟩

theorem orsContains_merge_cases {ors other : ORSet} {element : Int}
    (contained : orsContains (orsMerge ors other) element = true) :
    orsContains ors element = true ∨ orsContains other element = true := by
  rw [orsContains_iff, orsMerge_entries] at contained
  obtain ⟨entry, adopted, live⟩ := contained
  rcases mem_adopted _ _ adopted with own | others
  · exact .inl (orsContains_iff.mpr ⟨entry, own, live⟩)
  · exact .inr (orsContains_iff.mpr ⟨entry, others, live⟩)

section Replicas

variable {Replica : Type} [DecidableEq Replica]

inductive ORSetCall (Replica : Type) where
  | add (replica : Replica) (element : Int)
  | remove (replica : Replica) (element : Int)
  | merge (replica other : Replica)
  deriving DecidableEq, Repr

def orsetsInit (nodeId : Replica → Int) (replica : Replica) : ORSet := orsetInit (nodeId replica)

def orsetsStep (replicas : Replica → ORSet) : ORSetCall Replica → Replica → ORSet
  | .add replica element => Function.update replicas replica (orsAdd (replicas replica) element)
  | .remove replica element => Function.update replicas replica (orsRemove (replicas replica) element)
  | .merge replica other => Function.update replicas replica (orsMerge (replicas replica) (replicas other))

/-- `remover` has merged everything `other` contained, has removed the element since until it
was gone, and `other` has not added it again. -/
structure ObservedRemoval (nodeId : Replica → Int) (remover other : Replica) (element : Int)
    (replicas : Replica → ORSet) : Prop where
  distinct : Function.Injective nodeId
  nonnegative : 0 ≤ element
  observed : ∃ earlier, Reaches orsetsStep Always (orsetsInit nodeId) earlier ∧
    Reaches orsetsStep (fun _ call => call ≠ .add other element) (orsetsStep earlier (.merge remover other)) replicas
  removed : orsContains (replicas remover) element = false

/-- The removal reaches the other replica exactly when that replica had lost the element
anyway before it merged. -/
theorem observedRemoval_iff {nodeId : Replica → Int} {remover other : Replica} {element : Int}
    {replicas : Replica → ORSet} (removal : ObservedRemoval nodeId remover other element replicas) :
    orsContains (orsetsStep replicas (.merge other remover) other) element = false ↔
      orsContains (replicas other) element = false := by
  have merged : orsetsStep replicas (.merge other remover) other = orsMerge (replicas other) (replicas remover) :=
    Function.update_self ..
  rw [merged, ← Bool.not_eq_true, ← Bool.not_eq_true, not_iff_not]
  constructor
  · intro contained
    rcases orsContains_merge_cases contained with own | others
    · exact own
    · rw [removal.removed] at others
      cases others
  · exact orsContains_merge_left

end Replicas

/-- Two replicas, numbered 0 and 1. -/
def pair (second : Bool) : Int := if second then 1 else 0

/-- The second replica adds 5, the first one merges it, and `rest` follows. -/
def observedThen (rest : List (ORSetCall Bool)) : Bool → ORSet :=
  rest.foldl orsetsStep (orsetsStep (orsetsStep (orsetsInit pair) (.add true 5)) (.merge false true))

theorem observedThen_removal {rest : List (ORSetCall Bool)}
    (kept : Permitted orsetsStep (fun _ call => call ≠ .add true 5) (observedThen []) rest)
    (removed : orsContains (observedThen rest false) 5 = false) :
    ObservedRemoval pair false true 5 (observedThen rest) := by
  refine ⟨?_, by decide, ?_, removed⟩
  · intro first second same
    cases first <;> cases second <;> first | rfl | cases same
  · exact ⟨_, Reaches.ofFold [ORSetCall.add true 5], Reaches.ofCalls rest kept⟩

/-- The first replica removes 5, and the second one keeps it after merging. -/
theorem removal_unheard :
    ObservedRemoval pair false true 5 (observedThen [.remove false 5]) ∧
    orsContains (orsetsStep (observedThen [.remove false 5]) (.merge true false) true) 5 = true :=
  ⟨observedThen_removal ⟨by decide, trivial⟩ (by decide), by decide⟩

/-- If the second replica removes 5 as well, the merge leaves it without. -/
theorem removal_repeated :
    orsContains (orsetsStep (observedThen [.remove false 5, .remove true 5]) (.merge true false) true) 5 = false := by
  have observed : ObservedRemoval pair false true 5 (observedThen [.remove false 5, .remove true 5]) :=
    observedThen_removal ⟨by decide, by decide, trivial⟩ (by decide)
  exact (observedRemoval_iff observed).mpr (by decide)

end MiniNetDist.SystemTheory.OrSet
