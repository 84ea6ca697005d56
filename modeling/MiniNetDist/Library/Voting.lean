import Mathlib.Data.Finset.Basic
import MiniNetDist.Library.Quorum

/-! Agreement by numbered proposals. Members promise not to vote below a number
and vote for proposals; a value is chosen once a majority has voted for it under
one number. A value that can still be chosen under a number is `Choosable` there,
and a proposal is safe when it carries every value choosable below it. -/

namespace MiniNetDist.Library

/-- Everything promised, voted for and proposed so far. -/
structure Voting (Member Value : Type*) where
  promised : Member → Nat
  votes : Member → Nat → Value → Prop
  proposal : Nat → Value → Prop

namespace Voting

variable {Member Value : Type*} [Fintype Member] [DecidableEq Member]
  {voting next : Voting Member Value} {number other : Nat} {value chosen : Value}

/-- A majority has voted for the value under the number. -/
def Chosen (voting : Voting Member Value) (number : Nat) (value : Value) : Prop :=
  ∃ quorum, Majority quorum ∧ ∀ member ∈ quorum, voting.votes member number value

/-- A majority has voted for the value under the number, or is still free to. -/
def Choosable (voting : Voting Member Value) (number : Nat) (value : Value) : Prop :=
  ∃ quorum, Majority quorum ∧ ∀ member ∈ quorum,
    voting.votes member number value ∨ voting.promised member ≤ number

structure Sound (voting : Voting Member Value) : Prop where
  voted : ∀ member number value, voting.votes member number value → voting.proposal number value
  single : ∀ number value other, voting.proposal number value → voting.proposal number other →
    value = other
  safe : ∀ number value, voting.proposal number value →
    ∀ lower < number, ∀ chosen, voting.Choosable lower chosen → chosen = value

/-- What a proposer has to learn from a majority that promised its number: no vote
below it, or a proposal with its value at or above all of them. -/
def Shows (voting : Voting Member Value) (number : Nat) (value : Value) : Prop :=
  ∃ quorum, Majority quorum ∧ (∀ member ∈ quorum, number ≤ voting.promised member) ∧
    ((∀ member ∈ quorum, ∀ lower < number, ∀ chosen, ¬ voting.votes member lower chosen) ∨
      ∃ highest, voting.proposal highest value ∧
        ∀ member ∈ quorum, ∀ lower < number, ∀ chosen, voting.votes member lower chosen → lower ≤ highest)

/-- One change of the voting. -/
inductive Step : Voting Member Value → Voting Member Value → Prop where
  | promise (voting : Voting Member Value) (member : Member) (number : Nat) (later : voting.promised member ≤ number) :
      Step voting { voting with promised := Function.update voting.promised member number }
  | propose (voting : Voting Member Value) (number : Nat) (value : Value)
      (unused : ∀ other, ¬ voting.proposal number other) (shown : voting.Shows number value) :
      Step voting { voting with proposal := fun k v =>
        k = number ∧ v = value ∨ voting.proposal k v }
  | vote (voting : Voting Member Value) (member : Member) (number : Nat) (value : Value)
      (proposed : voting.proposal number value) (free : voting.promised member ≤ number) :
      Step voting { voting with votes := fun a k v =>
        a = member ∧ k = number ∧ v = value ∨ voting.votes a k v }

omit [DecidableEq Member] in
theorem Chosen.choosable (chosen : voting.Chosen number value) : voting.Choosable number value := by
  obtain ⟨quorum, majority, votes⟩ := chosen
  exact ⟨quorum, majority, fun member present => .inl (votes member present)⟩

/-- Nothing becomes choosable that was not choosable before. -/
theorem Choosable.before (step : Step voting next) (choosable : next.Choosable number value) :
    voting.Choosable number value := by
  obtain ⟨quorum, majority, support⟩ := choosable
  refine ⟨quorum, majority, ?_⟩
  intro member present
  cases step with
  | promise promiser later increased =>
    rcases support member present with voted | free
    · exact .inl voted
    · right
      by_cases same : member = promiser
      · subst same
        simp only [Function.update_self] at free
        exact increased.trans free
      · simpa [Function.update_of_ne same] using free
  | propose => exact support member present
  | vote voter at_ cast proposed free =>
    rcases support member present with (⟨rfl, rfl, rfl⟩ | voted) | open_
    · exact .inr free
    · exact .inl voted
    · exact .inr open_

/-- What the majority shows makes the proposal safe: a voter for a lower number
that has promised this one voted before it promised. -/
theorem Shows.safe (shown : voting.Shows number value) (sound : voting.Sound) {lower : Nat}
    (below : lower < number) (choosable : voting.Choosable lower chosen) : chosen = value := by
  obtain ⟨quorum, majority, promised, reported⟩ := shown
  obtain ⟨supporters, supported, support⟩ := choosable
  obtain ⟨member, asked, supports⟩ := majority.meet supported
  have bound := promised member asked
  have voted : voting.votes member lower chosen := by
    rcases support member supports with voted | free
    · exact voted
    · exact absurd (bound.trans free) (not_le.mpr below)
  rcases reported with none | ⟨highest, proposed, above⟩
  · exact absurd voted (none member asked lower below chosen)
  · rcases Nat.lt_or_eq_of_le (above member asked lower below chosen voted) with less | same
    · exact sound.safe highest value proposed lower less chosen ⟨supporters, supported, support⟩
    · subst same
      exact sound.single _ _ _ (sound.voted member lower chosen voted) proposed

theorem Sound.step (sound : voting.Sound) (step : Step voting next) : next.Sound := by
  have stillSafe : ∀ number value, voting.proposal number value →
      ∀ lower < number, ∀ chosen, next.Choosable lower chosen → chosen = value :=
    fun number value proposed lower below chosen choosable =>
      sound.safe number value proposed lower below chosen (choosable.before step)
  cases step with
  | promise member number later => exact ⟨sound.voted, sound.single, stillSafe⟩
  | vote member number value proposed free =>
    refine ⟨?_, sound.single, stillSafe⟩
    rintro a k v (⟨-, rfl, rfl⟩ | voted)
    · exact proposed
    · exact sound.voted a k v voted
  | propose number value unused shown =>
    constructor
    · exact fun a k v voted => .inr (sound.voted a k v voted)
    · rintro k v w (⟨rfl, rfl⟩ | old) (⟨same, rfl⟩ | older)
      · rfl
      · exact absurd older (unused w)
      · subst same
        exact absurd old (unused v)
      · exact sound.single k v w old older
    · rintro k v (⟨rfl, rfl⟩ | old) lower below chosen choosable
      · have before := Choosable.before (.propose voting k v unused shown) choosable
        exact shown.safe sound below before
      · exact stillSafe k v old lower below chosen choosable

/-- Two chosen values are equal. -/
theorem Sound.agree (sound : voting.Sound) (one : voting.Chosen number value)
    (two : voting.Chosen other chosen) : value = chosen := by
  have proposed {number : Nat} {value : Value} (chosen : voting.Chosen number value) :
      voting.proposal number value := by
    obtain ⟨quorum, majority, votes⟩ := chosen
    obtain ⟨member, present, -⟩ := majority.meet majority
    exact sound.voted member number value (votes member present)
  rcases Nat.lt_trichotomy number other with below | rfl | above
  · exact sound.safe other chosen (proposed two) number below value one.choosable
  · exact sound.single number value chosen (proposed one) (proposed two)
  · exact (sound.safe number value (proposed one) other above chosen two.choosable).symm

end Voting

end MiniNetDist.Library
