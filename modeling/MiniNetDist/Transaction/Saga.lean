import MiniNetDist.Library.CharArray
import MiniNetDist.Library.Run

/-! Sagas, `mini-dist-transaction/src/saga.c`. An execution invokes each callback at most once, so
what a callback answers in it is a function of its context and of the world it finds then. Every
call also gives the trace of the callbacks it invoked. -/

namespace MiniNetDist.Transaction.Saga

open Library

def SAGA_MAX_STEPS : Nat := 16
def SAGA_NAME_LEN : Nat := 48

inductive SagaStepStatus where
  | pending
  | succeeded
  | failed
  | running
  deriving DecidableEq, Repr

inductive SagaTxnStatus where
  | created
  | running
  | completed
  | compensating
  | compensated
  | failed
  deriving DecidableEq, Repr

abbrev SagaActionFn (Ctx World : Type) := Option Ctx → World → Bool
abbrev SagaCompensateFn (Ctx World : Type) := Option Ctx → World → Bool

structure SagaStep (Ctx World : Type) where
  id : Int
  action : Option (SagaActionFn Ctx World)
  compensate : Option (SagaCompensateFn Ctx World)
  status : SagaStepStatus
  name : CString

structure SagaTransaction (Ctx World : Type) where
  txnId : Int
  steps : List (SagaStep Ctx World)
  currentStep : Nat
  status : SagaTxnStatus

inductive SagaCallback where
  | action
  | compensate
  deriving DecidableEq, Repr

/-- A callback invoked for the step at this place, and what it returned. -/
structure SagaEvent where
  callback : SagaCallback
  step : Nat
  ok : Bool
  deriving DecidableEq, Repr

variable {Ctx World : Type}

def sagaStepInit (id : Int) (name : CString) (action : Option (SagaActionFn Ctx World))
    (compensate : Option (SagaCompensateFn Ctx World)) : SagaStep Ctx World :=
  ⟨id, action, compensate, .pending, strncpy name (SAGA_NAME_LEN - 1)⟩

def sagaTransactionInit (txnId : Int) : SagaTransaction Ctx World := ⟨txnId, [], 0, .created⟩

def sagaTransactionAddStep (st : SagaTransaction Ctx World) (s : SagaStep Ctx World) : SagaTransaction Ctx World :=
  if st.steps.length ≥ SAGA_MAX_STEPS then st else { st with steps := st.steps ++ [s] }

section Execution

variable (contexts : Option (Nat → Ctx)) (world : World)

/-- The call of the action of the `i`-th step, if it has one. -/
def SagaStep.attempted (step : SagaStep Ctx World) (i : Nat) : Option SagaEvent :=
  step.action.map fun action => ⟨.action, i, action (contexts.map (· i)) world⟩

def SagaStep.undone (step : SagaStep Ctx World) (i : Nat) : Option SagaEvent :=
  step.compensate.map fun compensate => ⟨.compensate, i, compensate (contexts.map (· i)) world⟩

/-- The compensation loop over the steps before the one that failed, the latest first. What a
compensation returns is not looked at. -/
def sagaCompensateFrom : List (SagaStep Ctx World) → List (SagaStep Ctx World) × List SagaEvent
  | [] => ([], [])
  | cs :: earlier =>
    let called := (cs.undone contexts world earlier.length).toList
    let (steps, events) := sagaCompensateFrom earlier
    ({ cs with status := .pending } :: steps, called ++ events)

/-- The loop of `saga_execute` from the step after those that are done, the latest of which comes first.
The statuses RUNNING and COMPENSATING are overwritten before the call returns. -/
def sagaExecuteFrom (st : SagaTransaction Ctx World) (done : List (SagaStep Ctx World)) :
    List (SagaStep Ctx World) → SagaTransaction Ctx World × List SagaEvent × Bool
  | [] => ({ st with steps := done.reverse, status := .completed }, [], true)
  | step :: rest =>
    let st := { st with currentStep := done.length }
    let called := step.attempted contexts world done.length
    if !called.any (·.ok) then
      let (undone, events) := sagaCompensateFrom contexts world done
      ({ st with steps := undone.reverse ++ { step with status := .failed } :: rest, status := .compensated },
        called.toList ++ events, false)
    else
      let (st, events, ok) := sagaExecuteFrom st ({ step with status := .succeeded } :: done) rest
      (st, called.toList ++ events, ok)

def sagaExecute (st : SagaTransaction Ctx World) : SagaTransaction Ctx World × List SagaEvent × Bool :=
  if st.steps.length = 0 then (st, [], false)
  else sagaExecuteFrom contexts world { st with status := .running, currentStep := 0 } [] st.steps

/-- The loop with which `saga_retry` forgets how far the steps came. -/
def resetSteps (st : SagaTransaction Ctx World) : SagaTransaction Ctx World :=
  { st with steps := st.steps.map fun step => { step with status := .pending } }

def sagaRetry (st : SagaTransaction Ctx World) : SagaTransaction Ctx World × List SagaEvent × Bool :=
  if st.status ≠ .compensated ∧ st.status ≠ .failed then (st, [], false)
  else sagaExecute contexts world (resetSteps st)

end Execution

/-- A call on a transaction, with the contexts it is given and the world its callbacks find. -/
inductive SagaCall (Ctx World : Type) where
  | execute (contexts : Option (Nat → Ctx)) (world : World)
  | retry (contexts : Option (Nat → Ctx)) (world : World)

namespace SagaCall

def contexts : SagaCall Ctx World → Option (Nat → Ctx)
  | execute contexts _ => contexts
  | retry contexts _ => contexts

def world : SagaCall Ctx World → World
  | execute _ world => world
  | retry _ world => world

/-- The call goes on to execute the steps. -/
def Executes (st : SagaTransaction Ctx World) : SagaCall Ctx World → Prop
  | execute _ _ => True
  | retry _ _ => st.status = .compensated ∨ st.status = .failed

end SagaCall

def sagaCall (st : SagaTransaction Ctx World) :
    SagaCall Ctx World → SagaTransaction Ctx World × List SagaEvent × Bool
  | .execute contexts world => sagaExecute contexts world st
  | .retry contexts world => sagaRetry contexts world st

/-- A fresh transaction with these steps added. -/
def sagaBuilt (txnId : Int) (steps : List (SagaStep Ctx World)) : SagaTransaction Ctx World :=
  steps.foldl sagaTransactionAddStep (sagaTransactionInit txnId)

section Recovery

variable (contexts : Option (Nat → Ctx)) (world : World)

/-- The step at place `i` has an action and it succeeds. -/
def succeedsAt (steps : List (SagaStep Ctx World)) (i : Nat) : Bool :=
  (steps[i]?.bind (·.action)).any fun action => action (contexts.map (· i)) world

/-- The compensation of the step at place `i` succeeds, if the step has one. -/
def undoesAt (steps : List (SagaStep Ctx World)) (i : Nat) : Bool :=
  (steps[i]?.bind (·.compensate)).all fun compensate => compensate (contexts.map (· i)) world

/-- The actions up to the `i`-th succeed and that one does not. -/
def FailsAt (steps : List (SagaStep Ctx World)) (i : Nat) : Prop :=
  i < steps.length ∧ (∀ j < i, succeedsAt contexts world steps j) ∧ succeedsAt contexts world steps i = false

instance (steps : List (SagaStep Ctx World)) (i : Nat) : Decidable (FailsAt contexts world steps i) :=
  inferInstanceAs (Decidable (_ ∧ _ ∧ _))

end Recovery

def compensations (events : List SagaEvent) : List SagaEvent := events.filter (·.callback = .compensate)

/-- Backward recovery from a failure at step `i`: what is invoked, in which order, and what the
status says of it. -/
structure Recovered (steps : List (SagaStep Ctx World)) (i : Nat)
    (outcome : SagaTransaction Ctx World × List SagaEvent × Bool) : Prop where
  undone : (compensations outcome.2.1).map (·.step) =
    (List.range i).reverse.filter fun j => (steps[j]?.bind (·.compensate)).isSome
  stopped : ∀ event ∈ outcome.2.1, event.callback = .action → event.step ≤ i
  status : outcome.1.status = if ∀ event ∈ compensations outcome.2.1, event.ok then .compensated else .failed

/-- If the call executes the steps and fails, it recovers. -/
def Recovers (st : SagaTransaction Ctx World) (call : SagaCall Ctx World) : Prop :=
  call.Executes st → ∀ i, FailsAt call.contexts call.world st.steps i → Recovered st.steps i (sagaCall st call)

/-- If the call executes the steps and fails, the compensations of the steps before the failure succeed. -/
def Compensable (st : SagaTransaction Ctx World) (call : SagaCall Ctx World) : Prop :=
  call.Executes st → ∀ i, FailsAt call.contexts call.world st.steps i →
    ∀ j < i, undoesAt call.contexts call.world st.steps j

section Trace

variable (contexts : Option (Nat → Ctx)) (world : World)

/-- What is invoked, if anything, when the action at place `i` is due. -/
def attemptedAt (steps : List (SagaStep Ctx World)) (i : Nat) : Option SagaEvent :=
  steps[i]?.bind (·.attempted contexts world i)

def undoneAt (steps : List (SagaStep Ctx World)) (i : Nat) : Option SagaEvent :=
  steps[i]?.bind (·.undone contexts world i)

variable {contexts world} {steps : List (SagaStep Ctx World)} {i : Nat} {event : SagaEvent}

theorem any_attemptedAt : (attemptedAt contexts world steps i).any (·.ok) = succeedsAt contexts world steps i := by
  unfold attemptedAt succeedsAt SagaStep.attempted
  cases steps[i]? with
  | none => rfl
  | some step => cases acts : step.action <;> simp [acts]

theorem all_undoneAt : (undoneAt contexts world steps i).all (·.ok) = undoesAt contexts world steps i := by
  unfold undoneAt undoesAt SagaStep.undone
  cases steps[i]? with
  | none => rfl
  | some step => cases undoes : step.compensate <;> simp [undoes]

variable (contexts world) in
theorem isSome_undoneAt :
    (undoneAt contexts world steps i).isSome = (steps[i]?.bind (·.compensate)).isSome := by
  unfold undoneAt SagaStep.undone
  cases steps[i]? <;> simp

theorem attemptedAt_some (attempted : attemptedAt contexts world steps i = some event) :
    event.callback = .action ∧ event.step = i := by
  obtain ⟨step, _, acts⟩ := Option.bind_eq_some_iff.mp attempted
  obtain ⟨action, _, rfl⟩ := Option.map_eq_some_iff.mp acts
  exact ⟨rfl, rfl⟩

theorem undoneAt_some (undone : undoneAt contexts world steps i = some event) :
    event.callback = .compensate ∧ event.step = i := by
  obtain ⟨step, _, undoes⟩ := Option.bind_eq_some_iff.mp undone
  obtain ⟨compensate, _, rfl⟩ := Option.map_eq_some_iff.mp undoes
  exact ⟨rfl, rfl⟩

/-- The compensations before step `i`, the latest first. -/
def undoings (contexts : Option (Nat → Ctx)) (world : World) (steps : List (SagaStep Ctx World)) (i : Nat) :
    List SagaEvent :=
  (List.range i).reverse.filterMap (undoneAt contexts world steps)

theorem undoings_succ :
    undoings contexts world steps (i + 1) =
      (undoneAt contexts world steps i).toList ++ undoings contexts world steps i := by
  unfold undoings
  rw [List.range_succ, List.reverse_append, List.filterMap_append]
  cases missing : undoneAt contexts world steps i <;> simp [missing]

/-- The compensation loop undoes all steps that are done. It looks at their callbacks only. -/
theorem sagaCompensateFrom_events (done : List (SagaStep Ctx World))
    (kept : ∀ j < done.length, undoneAt contexts world done.reverse j = undoneAt contexts world steps j) :
    (sagaCompensateFrom contexts world done).2 = undoings contexts world steps done.length := by
  induction done with
  | nil => rfl
  | cons cs earlier ih =>
    have latest := kept earlier.length (by simp)
    have here : undoneAt contexts world (cs :: earlier).reverse earlier.length =
        cs.undone contexts world earlier.length := by
      simp [undoneAt]
    have before : ∀ j < earlier.length,
        undoneAt contexts world earlier.reverse j = undoneAt contexts world steps j := by
      intro j below
      rw [← kept j (Nat.lt_succ_of_lt below)]
      simp [undoneAt, List.getElem?_append_left, below]
    simp only [sagaCompensateFrom, List.length_cons]
    rw [ih before, undoings_succ, ← latest, here]

/-- What an execution that fails at step `i` leaves: attempts of actions up to that step, then the
compensations before it, and one and the same status. -/
def Undid (contexts : Option (Nat → Ctx)) (world : World) (steps : List (SagaStep Ctx World)) (i : Nat)
    (outcome : SagaTransaction Ctx World × List SagaEvent × Bool) : Prop :=
  outcome.1.status = .compensated ∧
  ∃ attempts, outcome.2.1 = attempts ++ undoings contexts world steps i ∧
    ∀ event ∈ attempts, event.callback = .action ∧ event.step ≤ i

/-- The execution loop from a step that is not after the failing one: the actions up to it are
attempted, then everything before it is undone. -/
theorem sagaExecuteFrom_failed (fails : FailsAt contexts world steps i) (rest : List (SagaStep Ctx World))
    (st : SagaTransaction Ctx World) (done : List (SagaStep Ctx World)) (due : done.length ≤ i)
    (split : steps.drop done.length = rest)
    (kept : ∀ j < done.length, undoneAt contexts world done.reverse j = undoneAt contexts world steps j) :
    Undid contexts world steps i (sagaExecuteFrom contexts world st done rest) := by
  induction rest generalizing st done with
  | nil =>
    have beyond : steps.length ≤ done.length := List.drop_eq_nil_iff.mp split
    have inside := fails.1
    omega
  | cons step rest ih =>
    have current : steps[done.length]? = some step := by
      rw [← List.head?_drop, split, List.head?_cons]
    have here : attemptedAt contexts world steps done.length = step.attempted contexts world done.length := by
      simp [attemptedAt, current]
    have called : ∀ event ∈ (step.attempted contexts world done.length).toList,
        event.callback = .action ∧ event.step ≤ i := by
      intro event among
      have attempted := attemptedAt_some (here.trans (Option.mem_toList.mp among))
      exact ⟨attempted.1, attempted.2 ▸ due⟩
    by_cases now : done.length = i
    · have failed : (step.attempted contexts world done.length).any (·.ok) = false := by
        rw [← here, any_attemptedAt, now]
        exact fails.2.2
      refine ⟨by simp [sagaExecuteFrom, failed], (step.attempted contexts world done.length).toList, ?_, called⟩
      simp only [sagaExecuteFrom, failed, Bool.not_false, ↓reduceIte]
      rw [sagaCompensateFrom_events done kept, now]
    · have earlier : done.length < i := Nat.lt_of_le_of_ne due now
      have succeeded : (step.attempted contexts world done.length).any (·.ok) = true := by
        rw [← here, any_attemptedAt]
        exact fails.2.1 _ earlier
      have still : ∀ j < done.length + 1,
          undoneAt contexts world (({ step with status := .succeeded } : SagaStep Ctx World) :: done).reverse j =
            undoneAt contexts world steps j := by
        intro j below
        rcases Nat.lt_succ_iff_lt_or_eq.mp below with before | rfl
        · rw [← kept j before]
          simp [undoneAt, List.getElem?_append_left, before]
        · simp [undoneAt, current, SagaStep.undone]
      have later : steps.drop (done.length + 1) = rest := by
        rw [← List.tail_drop, split, List.tail_cons]
      obtain ⟨status, attempts, events, among⟩ := ih { st with currentStep := done.length }
        ({ step with status := .succeeded } :: done) earlier later still
      simp only [sagaExecuteFrom, succeeded, Bool.not_true, Bool.false_eq_true, ↓reduceIte]
      refine ⟨status, (step.attempted contexts world done.length).toList ++ attempts, ?_, ?_⟩
      · rw [events, List.append_assoc]
      intro event member
      rcases List.mem_append.mp member with first | later
      · exact called event first
      · exact among event later

theorem sagaExecute_failed {st : SagaTransaction Ctx World} (fails : FailsAt contexts world st.steps i) :
    Undid contexts world st.steps i (sagaExecute contexts world st) := by
  have filled : st.steps.length ≠ 0 := Nat.ne_of_gt (Nat.lt_of_le_of_lt (Nat.zero_le i) fails.1)
  rw [sagaExecute, if_neg filled]
  exact sagaExecuteFrom_failed fails _ _ [] (Nat.zero_le i) rfl (by simp)

/-- Resetting the steps keeps their callbacks. -/
theorem getElem?_resetSteps (st : SagaTransaction Ctx World) (i : Nat) :
    (resetSteps st).steps[i]? = st.steps[i]?.map fun step => { step with status := .pending } := by
  simp [resetSteps]

theorem failsAt_resetSteps (st : SagaTransaction Ctx World) (i : Nat) :
    FailsAt contexts world (resetSteps st).steps i ↔ FailsAt contexts world st.steps i := by
  have same : ∀ j, succeedsAt contexts world (resetSteps st).steps j = succeedsAt contexts world st.steps j := by
    intro j
    unfold succeedsAt
    rw [getElem?_resetSteps]
    cases st.steps[j]? <;> rfl
  have length : (resetSteps st).steps.length = st.steps.length := by simp [resetSteps]
  simp only [FailsAt, same, length]

theorem undoings_resetSteps (st : SagaTransaction Ctx World) (i : Nat) :
    undoings contexts world (resetSteps st).steps i = undoings contexts world st.steps i := by
  have same : undoneAt contexts world (resetSteps st).steps = undoneAt contexts world st.steps := by
    funext j
    unfold undoneAt
    rw [getElem?_resetSteps]
    cases st.steps[j]? <;> rfl
  rw [undoings, same, undoings]

end Trace

/-- What a failing call does, whether it executes the steps for the first time or again. -/
theorem sagaCall_failed {st : SagaTransaction Ctx World} {call : SagaCall Ctx World} {i : Nat}
    (executes : call.Executes st) (fails : FailsAt call.contexts call.world st.steps i) :
    Undid call.contexts call.world st.steps i (sagaCall st call) := by
  cases call with
  | execute contexts world => exact sagaExecute_failed fails
  | retry contexts world =>
    have allowed : ¬ (st.status ≠ .compensated ∧ st.status ≠ .failed) := by
      rcases executes with compensated | failed
      · exact fun refused => refused.1 compensated
      · exact fun refused => refused.2 failed
    have again := sagaExecute_failed ((failsAt_resetSteps st i).mpr fails)
    rw [Undid, undoings_resetSteps] at again
    rw [sagaCall, sagaRetry, if_neg allowed]
    exact again

section Undoings

variable {contexts : Option (Nat → Ctx)} {world : World} {steps : List (SagaStep Ctx World)} {i : Nat}

theorem compensations_append {attempts : List SagaEvent} (actions : ∀ event ∈ attempts, event.callback = .action) :
    compensations (attempts ++ undoings contexts world steps i) = undoings contexts world steps i := by
  have none : attempts.filter (·.callback = .compensate) = [] := by
    rw [List.filter_eq_nil_iff]
    intro event among
    simp [actions event among]
  have all : (undoings contexts world steps i).filter (·.callback = .compensate) =
      undoings contexts world steps i := by
    rw [List.filter_eq_self]
    intro event among
    obtain ⟨j, _, undone⟩ := List.mem_filterMap.mp among
    simpa using (undoneAt_some undone).1
  rw [compensations, List.filter_append, none, all, List.nil_append]

theorem steps_undoings : (undoings contexts world steps i).map (·.step) =
    (List.range i).reverse.filter fun j => (steps[j]?.bind (·.compensate)).isSome := by
  unfold undoings
  induction (List.range i).reverse with
  | nil => rfl
  | cons j rest ih =>
    rw [List.filterMap_cons, List.filter_cons, ← isSome_undoneAt contexts world]
    cases undone : undoneAt contexts world steps j with
    | none => simpa using ih
    | some event => simpa [(undoneAt_some undone).2] using ih

theorem undoings_ok_iff :
    (∀ event ∈ undoings contexts world steps i, event.ok) ↔ ∀ j < i, undoesAt contexts world steps j := by
  constructor
  · intro ok j below
    rw [← all_undoneAt, Option.all_eq_true]
    intro event undone
    exact ok event (List.mem_filterMap.mpr ⟨j, by simpa using below, undone⟩)
  · intro ok event among
    obtain ⟨j, inside, undone⟩ := List.mem_filterMap.mp among
    have undoes := ok j (by simpa using inside)
    rw [← all_undoneAt, undone] at undoes
    simpa using undoes

/-- The trace of a failing execution is as it should be; its status is right if every compensation
succeeded. -/
theorem recovered_iff_undoes {outcome : SagaTransaction Ctx World × List SagaEvent × Bool}
    (undid : Undid contexts world steps i outcome) :
    Recovered steps i outcome ↔ ∀ j < i, undoesAt contexts world steps j := by
  obtain ⟨status, attempts, events, actions⟩ := undid
  have invoked : compensations outcome.2.1 = undoings contexts world steps i := by
    rw [events, compensations_append fun event among => (actions event among).1]
  rw [← undoings_ok_iff]
  constructor
  · intro recovered
    by_contra failed
    have wrong := recovered.status
    rw [invoked, if_neg failed, status] at wrong
    cases wrong
  · intro ok
    refine ⟨by rw [invoked, steps_undoings], ?_, by rw [invoked, if_pos ok, status]⟩
    intro event among isAction
    rw [events] at among
    rcases List.mem_append.mp among with attempt | undoing
    · exact (actions event attempt).2
    · obtain ⟨j, _, undone⟩ := List.mem_filterMap.mp undoing
      rw [(undoneAt_some undone).1] at isAction
      cases isAction

end Undoings

theorem recovers_iff (st : SagaTransaction Ctx World) (call : SagaCall Ctx World) :
    Recovers st call ↔ Compensable st call := by
  constructor
  · intro recovers executes i fails
    exact (recovered_iff_undoes (sagaCall_failed executes fails)).mp (recovers executes i fails)
  · intro compensable executes i fails
    exact (recovered_iff_undoes (sagaCall_failed executes fails)).mpr (compensable executes i fails)

/-- Every failure along a run is recovered from exactly if the compensations it calls for succeed. -/
theorem sagaRun_recovers_iff (txnId : Int) (steps : List (SagaStep Ctx World)) (calls : List (SagaCall Ctx World)) :
    Permitted (fun st call => (sagaCall st call).1) Recovers (sagaBuilt txnId steps) calls ↔
      Permitted (fun st call => (sagaCall st call).1) Compensable (sagaBuilt txnId steps) calls := by
  have within : Permitted (fun st call => (sagaCall st call).1) Always (sagaBuilt txnId steps) calls := .always calls
  refine Permitted.congr (motive := fun _ => True) calls within trivial ?_ ?_
  · intros
    trivial
  · intro st call _ _
    exact recovers_iff st call

/-- A first step whose compensation fails, and a second whose action fails. -/
def stuckSteps : List (SagaStep Unit Unit) :=
  [sagaStepInit 1 (ascii "reserve") (some fun _ _ => true) (some fun _ _ => false),
    sagaStepInit 2 (ascii "pay") (some fun _ _ => false) none]

/-- The transaction is said to be compensated though the only compensation failed. -/
theorem sagaExecute_ignores_compensation :
    ¬ Permitted (fun st call => (sagaCall st call).1) Recovers (sagaBuilt 1 stuckSteps) [.execute none ()] := by
  intro recovers
  have fails : FailsAt none () (sagaBuilt 1 stuckSteps).steps 1 := by decide
  have recovered := (recovers.1 trivial 1 fails).status
  revert recovered
  decide

end MiniNetDist.Transaction.Saga
