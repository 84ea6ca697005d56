import Mathlib.Data.Set.Finite.Basic
import Mathlib.Logic.Relation
import Mathlib.Order.Preorder.Finite

/-! Loops of C code that need not end: the body goes on with another state or leaves the loop with a result. A loop
that is always at one of finitely many places ends exactly if no place it comes to leads back to itself. -/

namespace MiniNetDist.Library.Loop

open Relation

variable {State Result Place : Type*} {body : State → State ⊕ Result} {state next : State} {result other : Result}
  {fuel : Nat}

/-- At most `fuel` rounds of a loop; no result if they are too few. -/
def run (body : State → State ⊕ Result) : Nat → State → Option Result
  | 0, _ => none
  | fuel + 1, state =>
    match body state with
    | .inl next => run body fuel next
    | .inr result => some result

/-- The loop comes from one state to another. -/
def Reaches (body : State → State ⊕ Result) : State → State → Prop :=
  ReflTransGen fun state next => body state = .inl next

/-- The loop ends with a result. -/
def Ends (body : State → State ⊕ Result) (state : State) (result : Result) : Prop :=
  ∃ fuel, run body fuel state = some result

section Rounds

theorem run_next (goesOn : body state = .inl next) (fuel : Nat) : run body (fuel + 1) state = run body fuel next := by
  rw [run, goesOn]

theorem run_last (leaves : body state = .inr result) (fuel : Nat) : run body (fuel + 1) state = some result := by
  rw [run, leaves]

theorem Ends.last (leaves : body state = .inr result) : Ends body state result := ⟨1, run_last leaves 0⟩

theorem Ends.before (goesOn : body state = .inl next) (later : Ends body next result) : Ends body state result := by
  obtain ⟨fuel, ended⟩ := later
  exact ⟨fuel + 1, (run_next goesOn fuel).trans ended⟩

/-- Further rounds change nothing. -/
theorem run_add (ended : run body fuel state = some result) (more : Nat) :
    run body (fuel + more) state = some result := by
  induction fuel generalizing state with
  | zero => cases ended
  | succ fuel ih =>
    rw [Nat.add_right_comm]
    cases round : body state with
    | inl next =>
      rw [run_next round] at ended ⊢
      exact ih ended
    | inr last =>
      rw [run_last round] at ended ⊢
      exact ended

theorem Ends.run_eq (ends : Ends body state result) (finished : (run body fuel state).isSome) :
    run body fuel state = some result := by
  obtain ⟨enough, ended⟩ := ends
  obtain ⟨found, holds⟩ := Option.isSome_iff_exists.mp finished
  have first := run_add holds enough
  rw [Nat.add_comm, run_add ended fuel] at first
  rw [holds, first]

/-- A loop has one result. -/
theorem Ends.unique (first : Ends body state result) (second : Ends body state other) : result = other := by
  obtain ⟨fuel, ended⟩ := second
  have same := first.run_eq (Option.isSome_iff_exists.mpr ⟨other, ended⟩)
  exact Option.some.inj (same.symm.trans ended)

/-- A loop ends if every round makes a measure smaller. -/
theorem run_isSome (measure : State → Nat) (less : ∀ state next, body state = .inl next → measure next < measure state)
    (state : State) (enough : measure state < fuel) : (run body fuel state).isSome := by
  induction fuel generalizing state with
  | zero => cases enough
  | succ fuel ih =>
    cases round : body state with
    | inl next =>
      rw [run_next round]
      have smaller := less state next round
      exact ih next (Nat.lt_of_lt_of_le smaller (Nat.le_of_lt_succ enough))
    | inr last =>
      rw [run_last round]
      rfl

theorem ends_iff : Ends body state result ↔ ∃ last, Reaches body state last ∧ body last = .inr result := by
  constructor
  · intro ⟨fuel, ended⟩
    induction fuel generalizing state with
    | zero => cases ended
    | succ fuel ih =>
      cases round : body state with
      | inl next =>
        rw [run_next round] at ended
        obtain ⟨last, reached, leaves⟩ := ih ended
        exact ⟨last, .head round reached, leaves⟩
      | inr found =>
        rw [run_last round] at ended
        exact ⟨state, .refl, round.trans (congrArg Sum.inr (Option.some.inj ended))⟩
  · intro ⟨last, reached, leaves⟩
    induction reached using ReflTransGen.head_induction_on with
    | refl => exact .last leaves
    | head goesOn _ ih => exact ih.before goesOn

theorem Reaches.ends (reached : Reaches body state next) (ends : Ends body next result) : Ends body state result := by
  obtain ⟨last, further, leaves⟩ := ends_iff.mp ends
  exact ends_iff.mpr ⟨last, reached.trans further, leaves⟩

end Rounds

section Endless

variable {stuck : State → Prop}

theorem Ends.after (ends : Ends body state result) (goesOn : body state = .inl next) : Ends body next result := by
  obtain ⟨fuel, ended⟩ := ends
  cases fuel with
  | zero => cases ended
  | succ fuel =>
    rw [run_next goesOn] at ended
    exact ⟨fuel, ended⟩

theorem Ends.reached (ends : Ends body state result) (reached : Reaches body state next) : Ends body next result := by
  induction reached with
  | refl => exact ends
  | tail _ goesOn ih => exact ih.after goesOn

/-- A loop that gets stuck goes on for ever. -/
theorem not_ends (stays : ∀ state, stuck state → ∃ next, body state = .inl next ∧ stuck next) (here : stuck state) :
    ¬Ends body state result := by
  intro ⟨fuel, ended⟩
  induction fuel generalizing state with
  | zero => cases ended
  | succ fuel ih =>
    obtain ⟨next, goesOn, still⟩ := stays state here
    rw [run_next goesOn] at ended
    exact ih still ended

/-- If every round makes a measure smaller unless the loop is stuck, then it ends exactly if it never gets stuck. -/
theorem exists_ends_iff_not_stuck (stays : ∀ state, stuck state → ∃ next, body state = .inl next ∧ stuck next)
    (measure : State → Nat)
    (less : ∀ state next, body state = .inl next → ¬stuck state → measure next < measure state) (state : State) :
    (∃ result, Ends body state result) ↔ ∀ later, Reaches body state later → ¬stuck later := by
  constructor
  · intro ⟨result, ends⟩ later reached here
    exact not_ends stays here (ends.reached reached)
  · intro free
    induction size : measure state using Nat.strong_induction_on generalizing state with
    | _ count ih =>
      cases round : body state with
      | inl next =>
        have smaller := less state next round (free state .refl)
        obtain ⟨result, ends⟩ := ih (measure next) (size ▸ smaller) next
          (fun later reached => free later (.head round reached)) rfl
        exact ⟨result, ends.before round⟩
      | inr result => exact ⟨result, .last round⟩

end Endless

section Places

variable {hop : Place → Option Place} {start place final : Place}

/-- The next place, where there is one. -/
def Hop (hop : Place → Option Place) (place next : Place) : Prop := hop place = some next

theorem hop_unique (hop : Place → Option Place) : Relator.RightUnique (Hop hop) := by
  intro place next other first second
  exact Option.some.inj (first.symm.trans second)

/-- Nothing that leads to a place without a next one leads back to itself. -/
theorem not_cycle (leads : ReflTransGen (Hop hop) place final) (last : hop final = none) :
    ¬TransGen (Hop hop) place place := by
  induction leads using ReflTransGen.head_induction_on with
  | refl =>
    intro cycle
    obtain ⟨next, first, -⟩ := TransGen.head'_iff.mp cycle
    exact absurd (last.symm.trans first) (by simp)
  | head first _ ih =>
    intro cycle
    obtain ⟨next, again, back⟩ := TransGen.head'_iff.mp cycle
    obtain rfl := hop_unique hop first again
    exact ih (.tail' back first)

/-- From finitely many places with a next one, the way ends exactly if no place on it leads back to itself. -/
theorem exists_final_iff (finite : {place | hop place ≠ none}.Finite) :
    (∃ final, ReflTransGen (Hop hop) start final ∧ hop final = none) ↔
      ∀ place, ReflTransGen (Hop hop) start place → ¬TransGen (Hop hop) place place := by
  constructor
  · intro ⟨final, reached, last⟩ place passed
    rcases passed.total_of_right_unique (hop_unique hop) reached with onward | behind
    · exact not_cycle onward last
    · rcases behind.cases_head with rfl | ⟨next, first, -⟩
      · exact not_cycle .refl last
      · exact absurd (last.symm.trans first) (by simp)
  · intro acyclic
    by_contra endless
    have further : ∀ place, ReflTransGen (Hop hop) start place → hop place ≠ none :=
      fun place passed last => endless ⟨place, passed, last⟩
    -- the places that are passed, in turn
    let way : Nat → Place := fun rounds => (fun place => (hop place).getD place)^[rounds] start
    have step : ∀ rounds, way (rounds + 1) = (hop (way rounds)).getD (way rounds) :=
      fun rounds => Function.iterate_succ_apply' _ rounds start
    have passed : ∀ rounds, ReflTransGen (Hop hop) start (way rounds) := by
      intro rounds
      induction rounds with
      | zero => exact .refl
      | succ rounds ih =>
        obtain ⟨next, first⟩ := Option.ne_none_iff_exists'.mp (further _ ih)
        rw [step, first]
        exact ih.tail first
    have link : ∀ rounds, Hop hop (way rounds) (way (rounds + 1)) := by
      intro rounds
      obtain ⟨next, first⟩ := Option.ne_none_iff_exists'.mp (further _ (passed rounds))
      rw [step, first]
      exact first
    have onward : ∀ rounds more, TransGen (Hop hop) (way rounds) (way (rounds + (more + 1))) := by
      intro rounds more
      induction more with
      | zero => exact .single (link rounds)
      | succ more ih => exact ih.tail (link _)
    obtain ⟨early, late, before, same⟩ :=
      finite.exists_lt_map_eq_of_forall_mem fun rounds => further _ (passed rounds)
    obtain ⟨more, rfl⟩ := Nat.exists_eq_add_of_lt before
    refine acyclic _ (passed early) ?_
    have cycle := onward early more
    rw [← Nat.add_assoc, ← same] at cycle
    exact cycle

variable {placeOf : State → Place}

/-- The states of a loop follow its places. -/
theorem Reaches.passes (follows : ∀ state next, body state = .inl next → hop (placeOf state) = some (placeOf next))
    (reached : Reaches body state next) : ReflTransGen (Hop hop) (placeOf state) (placeOf next) :=
  ReflTransGen.lift placeOf follows _ _ reached

/-- Every place on the way is that of a state. -/
theorem exists_reaches (follows : ∀ state next, body state = .inl next → hop (placeOf state) = some (placeOf next))
    (halts : ∀ state result, body state = .inr result → hop (placeOf state) = none) (state : State)
    (passed : ReflTransGen (Hop hop) (placeOf state) place) :
    ∃ later, Reaches body state later ∧ placeOf later = place := by
  induction passed with
  | refl => exact ⟨state, .refl, rfl⟩
  | tail _ first ih =>
    obtain ⟨later, reached, rfl⟩ := ih
    cases round : body later with
    | inl next =>
      refine ⟨next, reached.tail round, ?_⟩
      exact Option.some.inj ((follows _ _ round).symm.trans first)
    | inr result => exact absurd ((halts _ _ round).symm.trans first) (by simp)

/-- A loop whose next place depends on its place alone ends exactly if no place it comes to leads back to itself. -/
theorem exists_ends_iff (follows : ∀ state next, body state = .inl next → hop (placeOf state) = some (placeOf next))
    (halts : ∀ state result, body state = .inr result → hop (placeOf state) = none)
    (finite : {place | hop place ≠ none}.Finite) (state : State) :
    (∃ result, Ends body state result) ↔
      ∀ place, ReflTransGen (Hop hop) (placeOf state) place → ¬TransGen (Hop hop) place place := by
  rw [← exists_final_iff finite]
  constructor
  · intro ⟨result, ends⟩
    obtain ⟨last, reached, leaves⟩ := ends_iff.mp ends
    exact ⟨placeOf last, reached.passes follows, halts _ _ leaves⟩
  · intro ⟨final, passed, last⟩
    obtain ⟨later, reached, rfl⟩ := exists_reaches follows halts state passed
    cases round : body later with
    | inl next => exact absurd ((follows _ _ round).symm.trans last) (by simp)
    | inr result => exact ⟨result, ends_iff.mpr ⟨later, reached, round⟩⟩

end Places

end MiniNetDist.Library.Loop
