import Mathlib.Data.List.Perm.Lattice
import Mathlib.Logic.Function.Basic

/-! Serial histories over a database of values. A transaction works on a buffer of its
own writes and remembers what it read from outside; replayed on a database that still
agrees with those reads, it returns the same values and applies its buffer. -/

namespace MiniNetDist.Library

/-- An access that succeeded: a read with the value it returned, or a write. -/
inductive Access (Key Value : Type*) where
  | read (key : Key) (value : Value)
  | write (key : Key) (value : Value)

namespace Serial

variable {Key Value : Type*} [DecidableEq Key] [DecidableEq Value]

/-- Execute the accesses in order. The result is the database at the end, or `none` if
some read would have returned another value. -/
def replay (db : Key → Value) : List (Access Key Value) → Option (Key → Value)
  | [] => some db
  | .read key value :: rest => if db key = value then replay db rest else none
  | .write key value :: rest => replay (Function.update db key value) rest

variable {db : Key → Value} {buffer : Key → Option Value} {seen : List (Key × Value)} {key : Key} {value : Value}
  {accesses : List (Access Key Value)}

theorem replay_append (first second : List (Access Key Value)) :
    replay db (first ++ second) = (replay db first).bind fun middle => replay middle second := by
  induction first generalizing db with
  | nil => rfl
  | cons access rest ih =>
    cases access with
    | read key value =>
      simp only [List.cons_append, replay]
      split_ifs
      · exact ih
      · rfl
    | write key value => exact ih

/-- The database seen through the buffer. -/
def overlay (buffer : Key → Option Value) (db : Key → Value) (key : Key) : Value :=
  (buffer key).getD (db key)

/-- Whenever the outside reads still hold, the accesses replay and leave the buffer on
top of the database. -/
def Buffered (accesses : List (Access Key Value)) (buffer : Key → Option Value) (seen : List (Key × Value)) : Prop :=
  ∀ db : Key → Value, (∀ read ∈ seen, db read.1 = read.2) → replay db accesses = some (overlay buffer db)

theorem buffered_nil : Buffered ([] : List (Access Key Value)) (fun _ => none) [] :=
  fun _ _ => rfl

theorem Buffered.readOwn (buffered : Buffered accesses buffer seen) (own : buffer key = some value) :
    Buffered (accesses ++ [.read key value]) buffer seen := by
  intro db holds
  have same : overlay buffer db key = value := by simp [overlay, own]
  rw [replay_append, buffered db holds, Option.bind_some, replay, if_pos same, replay]

theorem Buffered.readOutside (buffered : Buffered accesses buffer seen) (outside : buffer key = none) :
    Buffered (accesses ++ [.read key value]) buffer ((key, value) :: seen) := by
  intro db holds
  rw [List.forall_mem_cons] at holds
  have same : overlay buffer db key = value := by simpa [overlay, outside] using holds.1
  rw [replay_append, buffered db holds.2, Option.bind_some, replay, if_pos same, replay]

theorem Buffered.write (buffered : Buffered accesses buffer seen) (key : Key) (value : Value) :
    Buffered (accesses ++ [.write key value]) (Function.update buffer key (some value)) seen := by
  intro db holds
  rw [replay_append, buffered db holds, Option.bind_some, replay, replay]
  congr 1
  funext other
  by_cases same : other = key
  · subst same
    simp [overlay]
  · simp [overlay, same]

/-- A strictly increasing stamp leaves one order for a set of members. -/
theorem order_unique {Member : Type*} {stamp : Member → Int} {order other : List Member}
    (sorted : order.Pairwise fun first second => stamp first < stamp second)
    (otherSorted : other.Pairwise fun first second => stamp first < stamp second)
    (members : ∀ member, member ∈ order ↔ member ∈ other) : order = other := by
  have distinct : order.Nodup := sorted.imp fun before same => by subst same; omega
  have otherDistinct : other.Nodup := otherSorted.imp fun before same => by subst same; omega
  have rearranged : order.Perm other := (List.perm_ext_iff_of_nodup distinct otherDistinct).mpr members
  refine rearranged.eq_of_pairwise ?_ sorted otherSorted
  intro first second _ _ before after
  omega

end Serial

end MiniNetDist.Library
