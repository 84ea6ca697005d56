import Mathlib.Logic.Basic

/-! Runs of a system given by an executable step function. The guard restricts
which calls a run may make in which state; `Always` allows every call. -/

namespace MiniNetDist.Library

variable {State : Type*} {Call : Type*}

/-- The states a run can reach from `start` when every call meets `guard` in
the state it is made in. -/
inductive Reaches (step : State → Call → State) (guard : State → Call → Prop) (start : State) :
    State → Prop where
  | refl : Reaches step guard start start
  | call {state : State} (earlier : Reaches step guard start state) (call : Call)
      (allowed : guard state call) : Reaches step guard start (step state call)

/-- The guard of an unrestricted run. -/
def Always (_ : State) (_ : Call) : Prop := True

variable {step : State → Call → State} {guard stronger : State → Call → Prop}
  {start state later : State}

/-- A property that holds initially and survives every permitted call holds of
every reachable state. -/
theorem Reaches.invariant {motive : State → Prop} (reached : Reaches step guard start state)
    (initial : motive start)
    (preserved : ∀ state call, motive state → guard state call → motive (step state call)) :
    motive state := by
  induction reached with
  | refl => exact initial
  | call _ call allowed ih => exact preserved _ call ih allowed

theorem Reaches.trans (first : Reaches step guard start state)
    (second : Reaches step guard state later) : Reaches step guard start later := by
  induction second with
  | refl => exact first
  | call _ call allowed ih => exact .call ih call allowed

theorem Reaches.weaken (reached : Reaches step stronger start state)
    (weaker : ∀ state call, stronger state call → guard state call) :
    Reaches step guard start state := by
  induction reached with
  | refl => exact .refl
  | call _ call allowed ih => exact .call ih call (weaker _ call allowed)

/-- Every call of the list meets the guard at the point where it is made. -/
def Permitted (step : State → Call → State) (guard : State → Call → Prop) :
    State → List Call → Prop
  | _, [] => True
  | state, call :: rest => guard state call ∧ Permitted step guard (step state call) rest

instance Permitted.decidable [∀ state call, Decidable (guard state call)] :
    (state : State) → (calls : List Call) → Decidable (Permitted step guard state calls)
  | _, [] => .isTrue trivial
  | state, call :: rest =>
    have := Permitted.decidable (step state call) rest
    inferInstanceAs (Decidable (_ ∧ _))

/-- A list of calls that meets the guard reaches the state the calls compute. -/
theorem Reaches.ofCalls (calls : List Call) (permitted : Permitted step guard start calls) :
    Reaches step guard start (calls.foldl step start) := by
  induction calls generalizing start with
  | nil => exact .refl
  | cons call rest ih => exact (Reaches.refl.call call permitted.1).trans (ih permitted.2)

/-- Two guards that agree wherever an invariant holds permit the same runs. The calls may be
restricted to a `domain` under which the invariant is kept. -/
theorem Permitted.congr {domain other : State → Call → Prop} {motive : State → Prop} (calls : List Call)
    (within : Permitted step domain start calls) (initial : motive start)
    (preserved : ∀ state call, motive state → domain state call → guard state call → motive (step state call))
    (agree : ∀ state call, motive state → domain state call → (guard state call ↔ other state call)) :
    Permitted step guard start calls ↔ Permitted step other start calls := by
  induction calls generalizing start with
  | nil => exact Iff.rfl
  | cons call rest ih =>
    obtain ⟨here, later⟩ := within
    have same := agree start call initial here
    constructor
    · rintro ⟨allowed, permitted⟩
      exact ⟨same.mp allowed, (ih later (preserved start call initial here allowed)).mp permitted⟩
    · rintro ⟨allowed, permitted⟩
      have held := same.mpr allowed
      exact ⟨held, (ih later (preserved start call initial here held)).mpr permitted⟩

/-- A guard that follows from an invariant is met by every run within the domain. -/
theorem Permitted.ofInvariant {domain : State → Call → Prop} {motive : State → Prop} (calls : List Call)
    (within : Permitted step domain start calls) (initial : motive start)
    (preserved : ∀ state call, motive state → domain state call → motive (step state call))
    (holds : ∀ state call, motive state → domain state call → guard state call) :
    Permitted step guard start calls := by
  induction calls generalizing start with
  | nil => trivial
  | cons call rest ih =>
    obtain ⟨here, later⟩ := within
    exact ⟨holds start call initial here, ih later (preserved start call initial here)⟩

theorem Permitted.ofForall {allowed : Call → Prop} (calls : List Call) (all : ∀ call ∈ calls, allowed call) :
    Permitted step (fun _ call => allowed call) start calls := by
  induction calls generalizing start with
  | nil => trivial
  | cons call rest ih =>
    obtain ⟨here, later⟩ := List.forall_mem_cons.mp all
    exact ⟨here, ih later⟩

theorem Permitted.and {other : State → Call → Prop} (calls : List Call) (first : Permitted step guard start calls)
    (second : Permitted step other start calls) :
    Permitted step (fun state call => guard state call ∧ other state call) start calls := by
  induction calls generalizing start with
  | nil => trivial
  | cons call rest ih => exact ⟨⟨first.1, second.1⟩, ih first.2 second.2⟩

/-- A property of states holds along a whole run exactly if every call meets the guard that says
when one call keeps it. -/
theorem Permitted.throughout_iff {domain : State → Call → Prop} {motive property : State → Prop} (calls : List Call)
    (within : Permitted step domain start calls) (initial : motive start) (holds : property start)
    (preserved : ∀ state call, motive state → domain state call → property (step state call) → motive (step state call))
    (exactly : ∀ state call, motive state → domain state call → property state →
      (property (step state call) ↔ guard state call)) :
    (∀ earlier, earlier <+: calls → property (earlier.foldl step start)) ↔ Permitted step guard start calls := by
  induction calls generalizing start with
  | nil =>
    refine ⟨fun _ => trivial, ?_⟩
    intro _ earlier initially
    rw [List.prefix_nil.mp initially]
    exact holds
  | cons call rest ih =>
    obtain ⟨here, later⟩ := within
    have next := preserved start call initial here
    have same := exactly start call initial here holds
    constructor
    · intro throughout
      have kept : property (step start call) := throughout [call] ((List.prefix_append [call] rest))
      refine ⟨same.mp kept, (ih later (next kept) kept).mp ?_⟩
      intro earlier initially
      exact throughout (call :: earlier) ((List.prefix_cons_inj call).mpr initially)
    · rintro ⟨allowed, permitted⟩ earlier initially
      cases earlier with
      | nil => exact holds
      | cons first earlier =>
        obtain ⟨rfl, shorter⟩ := List.cons_prefix_cons.mp initially
        have kept := same.mpr allowed
        exact (ih later (next kept) kept).mpr permitted earlier shorter

theorem Permitted.always (calls : List Call) : Permitted step Always start calls := by
  induction calls generalizing start with
  | nil => trivial
  | cons call rest ih => exact ⟨trivial, ih⟩

theorem Reaches.ofFold (calls : List Call) : Reaches step Always start (calls.foldl step start) := by
  induction calls generalizing start with
  | nil => exact .refl
  | cons call rest ih =>
    have first : Reaches step Always start (step start call) := .call .refl call trivial
    exact first.trans ih

end MiniNetDist.Library
