import MiniNetDist.Library.History
import Mathlib.Data.Finset.Range
import Mathlib.Logic.Relation

/-! Events of several processes in the order in which they happened, some of them caused by a
message that an earlier event sent. Causality is generated by the order within a process and
from sending to receiving; the past of an event grows along the trace by what its process
knows and by what the message brings. -/

namespace MiniNetDist.Library.Causality

open History

variable {Event Process : Type*} (process : Event → Process) (cause : Event → Option Nat)

inductive Direct (events : List Event) (i j : Nat) : Prop where
  | program (earlier : i < j) (event : events[j]?.isSome)
      (same : events[i]?.map process = events[j]?.map process) : Direct events i j
  | message (event : events[j]?.bind cause = some i) : Direct events i j

def HappensBefore (events : List Event) : Nat → Nat → Prop := Relation.TransGen (Direct process cause events)

/-- The first event is the second one or happened before it. -/
def Within (events : List Event) : Nat → Nat → Prop := Relation.ReflTransGen (Direct process cause events)

/-- Messages are sent before they arrive. -/
def Sound (events : List Event) : Prop := ∀ i j, events[j]?.bind cause = some i → i < j

open Classical in
/-- The past of an event, itself included. -/
noncomputable def past (events : List Event) (j : Nat) : Finset Nat :=
  (Finset.range (j + 1)).filter fun i => Within process cause events i j

open Classical in
/-- The past of all events of a process. -/
noncomputable def known (events : List Event) (who : Process) : Finset Nat :=
  (Finset.range events.length).filter fun i =>
    ∃ j, events[j]?.map process = some who ∧ Within process cause events i j

variable {process cause} {events : List Event} {event : Event} {i j : Nat}

theorem Direct.lt (sound : Sound cause events) (direct : Direct process cause events i j) : i < j := by
  cases direct with
  | program earlier _ _ => exact earlier
  | message received => exact sound i j received

theorem Within.le (sound : Sound cause events) (within : Within process cause events i j) : i ≤ j := by
  induction within with
  | refl => exact Nat.le_refl i
  | tail _ direct ih => exact Nat.le_of_lt (Nat.lt_of_le_of_lt ih (direct.lt sound))

theorem HappensBefore.lt (sound : Sound cause events) (before : HappensBefore process cause events i j) : i < j := by
  induction before with
  | single direct => exact direct.lt sound
  | tail _ direct ih => exact Nat.lt_trans ih (direct.lt sound)

/-- For two different events, to be in the past of the other is to have happened before it. -/
theorem happensBefore_iff (distinct : i ≠ j) :
    HappensBefore process cause events i j ↔ Within process cause events i j := by
  constructor
  · exact Relation.TransGen.to_reflTransGen
  · intro within
    rcases Relation.reflTransGen_iff_eq_or_transGen.mp within with same | before
    · exact absurd same.symm distinct
    · exact before

theorem mem_past (sound : Sound cause events) :
    i ∈ past process cause events j ↔ Within process cause events i j := by
  classical
  rw [past, Finset.mem_filter, Finset.mem_range]
  exact ⟨fun inside => inside.2, fun within => ⟨Nat.lt_succ_of_le (within.le sound), within⟩⟩

theorem lt_of_found {who : Process} (found : events[j]?.map process = some who) : j < events.length := by
  obtain ⟨event, present, -⟩ := Option.map_eq_some_iff.mp found
  exact (List.getElem?_eq_some_iff.mp present).1

theorem lt_or_eq_of_found {who : Process} (found : (events ++ [event])[j]?.map process = some who) :
    j < events.length ∨ j = events.length := by
  have bound := lt_of_found found
  rw [List.length_append, List.length_singleton] at bound
  exact Nat.lt_or_eq_of_le (Nat.le_of_lt_succ bound)

theorem Direct.lt_length (direct : Direct process cause events i j) : j < events.length := by
  cases direct with
  | program _ there _ =>
    obtain ⟨_, found⟩ := Option.isSome_iff_exists.mp there
    exact (List.getElem?_eq_some_iff.mp found).1
  | message received =>
    obtain ⟨_, found, -⟩ := Option.bind_eq_some_iff.mp received
    exact (List.getElem?_eq_some_iff.mp found).1

theorem mem_known (sound : Sound cause events) {who : Process} :
    i ∈ known process cause events who ↔
      ∃ j, events[j]?.map process = some who ∧ Within process cause events i j := by
  classical
  rw [known, Finset.mem_filter, Finset.mem_range]
  refine ⟨fun inside => inside.2, fun inside => ⟨?_, inside⟩⟩
  obtain ⟨j, found, within⟩ := inside
  exact Nat.lt_of_le_of_lt (within.le sound) (lt_of_found found)

section Append

theorem sound_append (sound : Sound cause events) (sent : ∀ i, cause event = some i → i < events.length) :
    Sound cause (events ++ [event]) := by
  intro i j received
  rcases Nat.lt_trichotomy j events.length with old | rfl | beyond
  · rw [List.getElem?_append_left old] at received
    exact sound i j received
  · rw [List.getElem?_concat_length] at received
    exact sent i received
  · rw [List.getElem?_eq_none (by rw [List.length_append, List.length_singleton]; exact beyond)] at received
    cases received

theorem direct_append_iff (old : j < events.length) :
    Direct process cause (events ++ [event]) i j ↔ Direct process cause events i j := by
  constructor
  · intro direct
    cases direct with
    | program earlier found same =>
      rw [List.getElem?_append_left old] at found same
      rw [List.getElem?_append_left (Nat.lt_trans earlier old)] at same
      exact .program earlier found same
    | message received =>
      rw [List.getElem?_append_left old] at received
      exact .message received
  · intro direct
    cases direct with
    | program earlier found same =>
      refine .program earlier ?_ ?_
      · rw [List.getElem?_append_left old]
        exact found
      · rw [List.getElem?_append_left old, List.getElem?_append_left (Nat.lt_trans earlier old)]
        exact same
    | message received =>
      apply Direct.message
      rw [List.getElem?_append_left old]
      exact received

/-- A new event directly follows the events of its process and the message that it received. -/
theorem direct_last_iff (sent : ∀ i, cause event = some i → i < events.length) :
    Direct process cause (events ++ [event]) i events.length ↔
      i < events.length ∧ (events[i]?.map process = some (process event) ∨ cause event = some i) := by
  constructor
  · intro direct
    cases direct with
    | program earlier _ same =>
      rw [List.getElem?_append_left earlier, List.getElem?_concat_length] at same
      exact ⟨earlier, .inl same⟩
    | message received =>
      rw [List.getElem?_concat_length] at received
      exact ⟨sent i received, .inr received⟩
  · rintro ⟨old, own | received⟩
    · refine .program old ?_ ?_
      · rw [List.getElem?_concat_length]
        rfl
      · rw [List.getElem?_append_left old, List.getElem?_concat_length]
        exact own
    · apply Direct.message
      rw [List.getElem?_concat_length]
      exact received

/-- A new event changes nothing about the causality of the old ones. -/
theorem within_append_iff (sound : Sound cause (events ++ [event])) (old : j < events.length) :
    Within process cause (events ++ [event]) i j ↔ Within process cause events i j := by
  constructor
  · intro within
    induction within with
    | refl => exact .refl
    | tail _ direct ih =>
      exact (ih (Nat.lt_trans (direct.lt sound) old)).tail ((direct_append_iff old).mp direct)
  · intro within
    induction within with
    | refl => exact .refl
    | tail _ direct ih =>
      have later : Direct process cause (events ++ [event]) _ _ := (direct_append_iff old).mpr direct
      exact (ih (Nat.lt_trans (later.lt sound) old)).tail later

theorem past_append (sound : Sound cause (events ++ [event])) (old : j < events.length) :
    past process cause (events ++ [event]) j = past process cause events j := by
  classical
  exact Finset.filter_congr fun _ _ => within_append_iff sound old

/-- The past of a new event: what its process knew and what the message brought. -/
theorem past_last (sound : Sound cause events) (sent : ∀ i, cause event = some i → i < events.length) :
    past process cause (events ++ [event]) events.length =
      insert events.length
        (known process cause events (process event) ∪ (cause event).elim ∅ (past process cause events)) := by
  have soundToo := sound_append sound sent
  ext i
  rw [mem_past soundToo, Finset.mem_insert, Finset.mem_union, mem_known sound]
  constructor
  · intro within
    rcases Relation.ReflTransGen.cases_tail within with same | ⟨k, before, direct⟩
    · exact .inl same.symm
    · obtain ⟨old, follows⟩ := (direct_last_iff sent).mp direct
      have earlier : Within process cause events i k := (within_append_iff soundToo old).mp before
      right
      rcases follows with own | received
      · exact .inl ⟨k, own, earlier⟩
      · right
        rw [received]
        exact (mem_past sound).mpr earlier
  · rintro (rfl | ⟨k, found, earlier⟩ | brought)
    · exact .refl
    · have old := lt_of_found found
      exact ((within_append_iff soundToo old).mpr earlier).tail ((direct_last_iff sent).mpr ⟨old, .inl found⟩)
    · cases received : cause event with
      | none =>
        rw [received] at brought
        exact absurd brought (Finset.notMem_empty i)
      | some k =>
        rw [received] at brought
        have old := sent k received
        have earlier := (mem_past sound).mp brought
        exact ((within_append_iff soundToo old).mpr earlier).tail ((direct_last_iff sent).mpr ⟨old, .inr received⟩)

theorem known_append_of_ne (sound : Sound cause events) (sent : ∀ i, cause event = some i → i < events.length)
    {who : Process} (different : process event ≠ who) :
    known process cause (events ++ [event]) who = known process cause events who := by
  have soundToo := sound_append sound sent
  ext i
  rw [mem_known sound, mem_known soundToo]
  constructor
  · rintro ⟨j, found, within⟩
    rcases lt_or_eq_of_found found with old | rfl
    · rw [List.getElem?_append_left old] at found
      exact ⟨j, found, (within_append_iff soundToo old).mp within⟩
    · rw [List.getElem?_concat_length] at found
      exact absurd (Option.some.inj found) different
  · rintro ⟨j, found, within⟩
    have old := lt_of_found found
    refine ⟨j, ?_, (within_append_iff soundToo old).mpr within⟩
    rw [List.getElem?_append_left old]
    exact found

/-- A process knows the past of its last event. -/
theorem known_append_self (sound : Sound cause events) (sent : ∀ i, cause event = some i → i < events.length) :
    known process cause (events ++ [event]) (process event) = past process cause (events ++ [event]) events.length := by
  have soundToo := sound_append sound sent
  ext i
  rw [mem_known soundToo, mem_past soundToo]
  constructor
  · rintro ⟨j, found, within⟩
    rcases lt_or_eq_of_found found with old | rfl
    · refine within.tail (.program old ?_ ?_)
      · rw [List.getElem?_concat_length]
        rfl
      · rw [found, List.getElem?_concat_length]
        rfl
    · exact within
  · intro within
    refine ⟨events.length, ?_, within⟩
    rw [List.getElem?_concat_length]
    rfl

end Append

section Histories

theorem closed_past (sound : Sound cause events) (made : j < events.length) :
    Closed id (events.map process) (past process cause events j) := by
  constructor
  · intro i inside
    rw [List.length_map]
    exact Nat.lt_of_le_of_lt (((mem_past sound).mp inside).le sound) made
  · intro i inside k earlier same
    have within := (mem_past sound).mp inside
    have bound : i < events.length := Nat.lt_of_le_of_lt (within.le sound) made
    rw [Option.map_id, id, id, List.getElem?_map, List.getElem?_map] at same
    rw [mem_past sound]
    refine Relation.ReflTransGen.head (.program earlier ?_ same) within
    rw [List.getElem?_eq_getElem bound]
    rfl

theorem closed_known (sound : Sound cause events) (who : Process) :
    Closed id (events.map process) (known process cause events who) := by
  constructor
  · intro i inside
    obtain ⟨j, found, within⟩ := (mem_known sound).mp inside
    exact (closed_past sound (lt_of_found found)).made i ((mem_past sound).mpr within)
  · intro i inside k earlier same
    obtain ⟨j, found, within⟩ := (mem_known sound).mp inside
    have further := (closed_past sound (lt_of_found found)).earlier i ((mem_past sound).mpr within) k earlier same
    exact (mem_known sound).mpr ⟨j, found, (mem_past sound).mp further⟩

end Histories

end MiniNetDist.Library.Causality
