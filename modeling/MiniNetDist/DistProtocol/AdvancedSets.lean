import MiniNetDist.Library.Latest
import MiniNetDist.Library.Replicated
import Mathlib.Order.Nat

/-! The sets of `mini-dist-protocol/src/advanced_topics.c`. A `GSet` is an array of elements, an `LWWSet` an array of
entries of which the one with the later timestamp counts. Both arrays are bounded, and what does not fit is
dropped. -/

namespace MiniNetDist.DistProtocol.Crdt

open Library Library.Replicated

def GSET_MAX_ELEMENTS : Nat := 64

structure GSet where
  elements : List Int
  deriving DecidableEq, Repr

def gsetInit : GSet := ⟨[]⟩

def gsetContains (gs : GSet) (element : Int) : Bool := gs.elements.any fun other => other = element

def gsetAdd (gs : GSet) (element : Int) : Bool × GSet :=
  if gsetContains gs element then (true, gs)
  else if gs.elements.length ≥ GSET_MAX_ELEMENTS then (false, gs)
  else (true, ⟨gs.elements ++ [element]⟩)

def gsetMerge (dst src : GSet) : GSet := src.elements.foldl (fun dst element => (gsetAdd dst element).2) dst

def gsetSize (gs : GSet) : Nat := gs.elements.length

def LWW_MAX_ELEMENTS : Nat := 64

structure LWWEntry where
  element : Int
  timestamp : UInt64
  tombstone : Bool
  deriving DecidableEq, Repr

/-- The timestamp as a number. -/
def LWWEntry.rank (entry : LWWEntry) : Nat := entry.timestamp.toNat

structure LWWSet where
  entries : List LWWEntry
  deriving DecidableEq, Repr

def lwwInit : LWWSet := ⟨[]⟩

/-- The index of the entry to which the source returns a pointer. -/
def lwwFind (lw : LWWSet) (element : Int) : Option Nat := lw.entries.findIdx? fun entry => entry.element = element

/-- What an entry becomes when a later one of its element comes. -/
def LWWEntry.renewed (entry existing : LWWEntry) : LWWEntry :=
  if entry.timestamp > existing.timestamp then
    { existing with timestamp := entry.timestamp, tombstone := entry.tombstone }
  else existing

/-- The body of `lww_add` and `lww_remove` and of the loop of `lww_merge`. -/
def lwwPut (lw : LWWSet) (entry : LWWEntry) : Bool × LWWSet :=
  match lwwFind lw entry.element with
  | some i => (true, ⟨lw.entries.modify i entry.renewed⟩)
  | none => if lw.entries.length ≥ LWW_MAX_ELEMENTS then (false, lw) else (true, ⟨lw.entries ++ [entry]⟩)

def lwwAdd (lw : LWWSet) (element : Int) (timestamp : UInt64) : Bool × LWWSet := lwwPut lw ⟨element, timestamp, false⟩

def lwwRemove (lw : LWWSet) (element : Int) (timestamp : UInt64) : Bool × LWWSet := lwwPut lw ⟨element, timestamp, true⟩

/-- An entry is added, or removed if it is a tombstone. -/
def lwwUpdate (lw : LWWSet) (entry : LWWEntry) : LWWSet :=
  if entry.tombstone then (lwwRemove lw entry.element entry.timestamp).2 else (lwwAdd lw entry.element entry.timestamp).2

/-- The source looks for any element at all. -/
def lwwContains (lw : LWWSet) (_currentTime : UInt64) : Bool := lw.entries.any fun entry => !entry.tombstone

def lwwMerge (dst src : LWWSet) : LWWSet := src.entries.foldl (fun dst entry => (lwwPut dst entry).2) dst

def lwwSize (lw : LWWSet) (_currentTime : UInt64) : Nat := lw.entries.countP fun entry => !entry.tombstone

section Tables

variable {gs : GSet} {lw : LWWSet} {element : Int} {entry : LWWEntry}

theorem lwwUpdate_eq (lw : LWWSet) (entry : LWWEntry) : lwwUpdate lw entry = (lwwPut lw entry).2 := by
  obtain ⟨element, timestamp, tombstone⟩ := entry
  cases tombstone <;> rfl

theorem gsetContains_iff : gsetContains gs element = true ↔ element ∈ gs.elements := by
  rw [gsetContains, List.any_eq_true]
  constructor
  · rintro ⟨other, present, same⟩
    rw [← of_decide_eq_true same]
    exact present
  · intro present
    exact ⟨element, present, decide_eq_true rfl⟩

/-- An element is never replaced by another one. -/
theorem renew_id (element : Int) (elements : List Int) : Latest.renew id (fun _ => 0) element elements = elements := by
  induction elements with
  | nil => rfl
  | cons old rest ih =>
    rw [Latest.renew, ih, if_neg (Nat.lt_irrefl 0), ite_self]

theorem gsetAdd_elements (gs : GSet) (element : Int) :
    (gsetAdd gs element).2.elements = Latest.put id (fun _ => 0) GSET_MAX_ELEMENTS gs.elements element := by
  unfold gsetAdd Latest.put
  rw [renew_id]
  by_cases present : element ∈ gs.elements
  · rw [if_pos (gsetContains_iff.mpr present), if_pos ⟨element, present, rfl⟩]
  · have absent : ¬ ∃ old ∈ gs.elements, id old = id element := by
      rintro ⟨old, inside, same⟩
      rw [id, id] at same
      exact present (same ▸ inside)
    rw [if_neg (gsetContains_iff.not.mpr present), if_neg absent]
    split
    · rfl
    · rfl

theorem gsetMerge_elements (dst src : GSet) :
    (gsetMerge dst src).elements =
      src.elements.foldl (Latest.put id (fun _ => 0) GSET_MAX_ELEMENTS) dst.elements := by
  cases src with
  | mk elements =>
    unfold gsetMerge
    induction elements generalizing dst with
    | nil => rfl
    | cons element rest ih =>
      rw [List.foldl_cons, List.foldl_cons, ih, gsetAdd_elements]

theorem modify_renewed (entry : LWWEntry) (entries : List LWWEntry) (i : Nat)
    (found : entries.findIdx? (fun old => old.element = entry.element) = some i) :
    entries.modify i entry.renewed = Latest.renew LWWEntry.element LWWEntry.rank entry entries := by
  induction entries generalizing i with
  | nil => cases found
  | cons old rest ih =>
    rw [List.findIdx?_cons] at found
    rw [Latest.renew]
    by_cases same : old.element = entry.element
    · rw [decide_eq_true same, if_pos rfl] at found
      cases found
      rw [if_pos same, List.modify_zero_cons, LWWEntry.renewed]
      by_cases later : old.timestamp < entry.timestamp
      · rw [if_pos later, if_pos (show old.rank < entry.rank from later), same]
      · rw [if_neg later, if_neg (show ¬ old.rank < entry.rank from later)]
    · rw [decide_eq_false same, if_neg Bool.false_ne_true] at found
      obtain ⟨j, further, rfl⟩ := Option.map_eq_some_iff.mp found
      rw [if_neg same, List.modify_succ_cons, ih j further]

theorem lwwPut_entries (lw : LWWSet) (entry : LWWEntry) :
    (lwwPut lw entry).2.entries =
      Latest.put LWWEntry.element LWWEntry.rank LWW_MAX_ELEMENTS lw.entries entry := by
  unfold lwwPut Latest.put
  cases found : lwwFind lw entry.element with
  | none =>
    have absent : ¬ ∃ old ∈ lw.entries, old.element = entry.element := by
      rintro ⟨old, inside, same⟩
      exact absurd (decide_eq_true same) (by simpa using List.findIdx?_eq_none_iff.mp found old inside)
    rw [if_neg absent]
    dsimp only
    split
    · rfl
    · rfl
  | some i =>
    obtain ⟨old, inside, same⟩ : ∃ old ∈ lw.entries, old.element = entry.element := by
      obtain ⟨bound, holds, -⟩ := List.findIdx?_eq_some_iff_getElem.mp found
      exact ⟨_, List.getElem_mem bound, of_decide_eq_true holds⟩
    dsimp only
    rw [if_pos ⟨old, inside, same⟩]
    exact modify_renewed entry lw.entries i found

theorem lwwMerge_entries (dst src : LWWSet) :
    (lwwMerge dst src).entries =
      src.entries.foldl (Latest.put LWWEntry.element LWWEntry.rank LWW_MAX_ELEMENTS) dst.entries := by
  cases src with
  | mk entries =>
    unfold lwwMerge
    induction entries generalizing dst with
    | nil => rfl
    | cons entry rest ih =>
      rw [List.foldl_cons, List.foldl_cons, ih, lwwPut_entries]

end Tables

section Replicas

variable {Replica : Type}

def gsetDesign : Design Replica Int GSet := ⟨fun _ => gsetInit, fun gs element => (gsetAdd gs element).2, gsetMerge⟩

def GSetMeaning (updates : Set Int) (gs : GSet) : Prop :=
  Latest.Holds id (fun _ => 0) GSET_MAX_ELEMENTS updates gs.elements

theorem gset_means : Means (gsetDesign : Design Replica Int GSet) GSetMeaning where
  initial _ := .nil
  update meant element := by
    unfold GSetMeaning
    rw [show (gsetDesign.update _ element).elements = _ from gsetAdd_elements _ element]
    exact meant.put element
  merge meant meantToo := by
    unfold GSetMeaning
    rw [show (gsetDesign.merge _ _).elements = _ from gsetMerge_elements _ _]
    exact meant.merge meantToo

def lwwDesign : Design Replica LWWEntry LWWSet := ⟨fun _ => lwwInit, lwwUpdate, lwwMerge⟩

def LWWMeaning (updates : Set LWWEntry) (lw : LWWSet) : Prop :=
  Latest.Holds LWWEntry.element LWWEntry.rank LWW_MAX_ELEMENTS updates lw.entries

theorem lww_means : Means (lwwDesign : Design Replica LWWEntry LWWSet) LWWMeaning where
  initial _ := .nil
  update meant entry := by
    unfold LWWMeaning
    rw [show lwwDesign.update _ entry = _ from lwwUpdate_eq _ entry, lwwPut_entries]
    exact meant.put entry
  merge meant meantToo := by
    unfold LWWMeaning
    rw [show (lwwDesign.merge _ _).entries = _ from lwwMerge_entries _ _]
    exact meant.merge meantToo

/-- In every run, a replica's `GSet` has no element that was not added, and it has all that have reached the replica
exactly if they are no more than the array has room for; then replicas that the same elements have reached agree. -/
theorem gset_exact [DecidableEq Replica] {system : System Replica Int GSet}
    (reached : Reaches gsetDesign.step Always gsetDesign.init system) (who : Replica) :
    (∀ element, gsetContains (system.held who).state element = true →
      element ∈ learned system.log (system.held who).absorbed) ∧
    ((∀ element ∈ learned system.log (system.held who).absorbed,
      gsetContains (system.held who).state element = true) ↔
        Latest.Fits id GSET_MAX_ELEMENTS (learned system.log (system.held who).absorbed)) ∧
    ∀ other, Latest.Fits id GSET_MAX_ELEMENTS (learned system.log (system.held who).absorbed) →
      learned system.log (system.held who).absorbed = learned system.log (system.held other).absorbed →
        gsetSize (system.held who).state = gsetSize (system.held other).state := by
  have meant := gset_means.holds reached
  refine ⟨?_, ?_, ?_⟩
  · intro element contained
    exact (meant who).told element (gsetContains_iff.mp contained)
  · rw [← (meant who).highest_iff]
    refine forall₂_congr fun element _ => ?_
    rw [gsetContains_iff]
    constructor
    · intro present
      exact ⟨element, present, rfl, Nat.le_refl 0⟩
    · rintro ⟨kept, present, same, -⟩
      rw [id, id] at same
      exact same ▸ present
  · intro other fits same
    have hers := meant other
    rw [← same] at hers
    exact ((meant who).perm hers fits fun _ _ _ _ equal _ => equal).length_eq

/-- Two replicas add an element each, and one passes its set on. -/
def addedRun : List (Call Bool Int) := [.update false 3, .update true 4, .send false, .receive true 0]

theorem addedRun_exact : gsetContains ((addedRun.foldl gsetDesign.step gsetDesign.init).held true).state 3 = true := by
  apply (gset_exact (.ofFold addedRun) true).2.1.mpr
  · refine ⟨{3, 4}, by decide, ?_⟩
    intro element known
    have listed : ∀ element ∈ [(3 : Int), 4], element ∈ ({3, 4} : Finset Int) := by decide
    exact listed element (mem_log_of_learned known)
  · exact ⟨0, by decide, rfl⟩

/-- In every run without ties between timestamps, a replica's `LWWSet` has for each element the latest of the updates
that have reached the replica, if their elements are no more than the array has room for; then replicas that the same
updates have reached agree. -/
theorem lww_exact [DecidableEq Replica] {system : System Replica LWWEntry LWWSet}
    (reached : Reaches lwwDesign.step Always lwwDesign.init system) (who : Replica)
    (fits : Latest.Fits LWWEntry.element LWW_MAX_ELEMENTS (learned system.log (system.held who).absorbed))
    (ranked : Latest.Ranked LWWEntry.element LWWEntry.rank (learned system.log (system.held who).absorbed)) :
    (∀ entry, entry ∈ (system.held who).state.entries ↔ entry ∈ learned system.log (system.held who).absorbed ∧
      ∀ update ∈ learned system.log (system.held who).absorbed, update.element = entry.element →
        update.rank ≤ entry.rank) ∧
    ∀ other, learned system.log (system.held who).absorbed = learned system.log (system.held other).absorbed →
      ∀ now, lwwContains (system.held who).state now = lwwContains (system.held other).state now ∧
        lwwSize (system.held who).state now = lwwSize (system.held other).state now := by
  have meant := lww_means.holds reached
  refine ⟨fun entry => (meant who).mem_iff fits ranked, ?_⟩
  intro other same now
  have hers := meant other
  rw [← same] at hers
  have shuffled := (meant who).perm hers fits ranked
  exact ⟨shuffled.any_eq, shuffled.countP_eq _⟩

/-- A removal overtakes the addition that it came after. -/
def overtakenRun : List (Call Bool LWWEntry) :=
  [.update false ⟨3, 10, false⟩, .update true ⟨3, 20, true⟩, .send true, .receive false 0]

theorem overtakenRun_exact :
    (⟨3, 20, true⟩ : LWWEntry) ∈ ((overtakenRun.foldl lwwDesign.step lwwDesign.init).held false).state.entries := by
  have listed : ∀ {update}, update ∈ learned (overtakenRun.foldl lwwDesign.step lwwDesign.init).log
      ((overtakenRun.foldl lwwDesign.step lwwDesign.init).held false).absorbed →
        update ∈ [(⟨3, 10, false⟩ : LWWEntry), ⟨3, 20, true⟩] := mem_log_of_learned
  refine ((lww_exact (.ofFold overtakenRun) false ?_ ?_).1 _).mpr ⟨⟨1, by decide, rfl⟩, ?_⟩
  · refine ⟨{3}, by decide, ?_⟩
    have keys : ∀ update ∈ [(⟨3, 10, false⟩ : LWWEntry), ⟨3, 20, true⟩], update.element ∈ ({3} : Finset Int) := by
      decide
    exact fun update known => keys update (listed known)
  · have distinct : ∀ one ∈ [(⟨3, 10, false⟩ : LWWEntry), ⟨3, 20, true⟩],
        ∀ two ∈ [(⟨3, 10, false⟩ : LWWEntry), ⟨3, 20, true⟩],
          one.element = two.element → one.rank = two.rank → one = two := by decide
    exact fun one known two knownToo => distinct one (listed known) two (listed knownToo)
  · have latest : ∀ update ∈ [(⟨3, 10, false⟩ : LWWEntry), ⟨3, 20, true⟩], update.element = 3 → update.rank ≤ 20 := by
      decide
    exact fun update known => latest update (listed known)

end Replicas

end MiniNetDist.DistProtocol.Crdt
