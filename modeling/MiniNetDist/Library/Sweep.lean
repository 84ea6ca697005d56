import Mathlib.Data.List.FinRange
import Mathlib.Logic.Function.Basic

/-! A loop over members that each keep a state: every member is asked once, its state is replaced, and its answer is
added to a result. -/

namespace MiniNetDist.Library

variable {Member State Answer Result : Type*} [DecidableEq Member]

def sweep (ask : State → State × Answer) (collect : Result → Answer → Result) (members : List Member)
    (states : Member → State) (result : Result) : (Member → State) × Result :=
  members.foldl (fun (states, result) member =>
    let (state, answer) := ask (states member)
    (Function.update states member state, collect result answer)) (states, result)

variable (ask : State → State × Answer) (collect : Result → Answer → Result) {members : List Member}

/-- Members that are asked once answer from the state they had before. -/
theorem sweep_eq (nodup : members.Nodup) (states : Member → State) (result : Result) :
    sweep ask collect members states result =
      (fun member => if member ∈ members then (ask (states member)).1 else states member,
        members.foldl (fun result member => collect result (ask (states member)).2) result) := by
  induction members generalizing states result with
  | nil =>
    simp only [List.not_mem_nil, if_false]
    rfl
  | cons first rest ih =>
    obtain ⟨fresh, nodup⟩ := List.nodup_cons.mp nodup
    have unchanged : ∀ member ∈ rest, Function.update states first (ask (states first)).1 member = states member := by
      intro member inside
      have other : member ≠ first := fun same => fresh (same ▸ inside)
      exact Function.update_of_ne other _ _
    have next := ih nodup (Function.update states first (ask (states first)).1)
      (collect result (ask (states first)).2)
    change sweep ask collect rest _ _ = _
    rw [next]
    apply Prod.ext
    · funext member
      by_cases here : member = first
      · subst here
        simp [fresh]
      · simp [here]
    · exact List.foldl_ext _ _ _ fun result member inside => by rw [unchanged member inside]

/-- A sweep over all members. -/
theorem sweep_finRange {n : Nat} (states : Fin n → State) (result : Result) :
    sweep ask collect (List.finRange n) states result =
      (fun member => (ask (states member)).1,
        (List.finRange n).foldl (fun result member => collect result (ask (states member)).2) result) := by
  rw [sweep_eq ask collect (List.nodup_finRange n)]
  simp only [List.mem_finRange, if_true]

omit [DecidableEq Member] in
/-- A result that counts the answers of one kind. -/
theorem foldl_count (count : Result → Nat) (counted : Answer → Bool) (answer : Member → Answer)
    (collects : ∀ result answer, count (collect result answer) = count result + (if counted answer then 1 else 0))
    (members : List Member) (result : Result) :
    count (members.foldl (fun result member => collect result (answer member)) result) =
      count result + members.countP fun member => counted (answer member) := by
  induction members generalizing result with
  | nil => rfl
  | cons first rest ih =>
    rw [List.foldl_cons, ih, collects, List.countP_cons]
    omega

end MiniNetDist.Library
