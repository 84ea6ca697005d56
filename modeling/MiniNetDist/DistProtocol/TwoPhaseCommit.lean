import MiniNetDist.Library.Bytes
import Mathlib.Data.List.Basic

/-! Two-phase commit in `mini-dist-protocol/src/distributed_apps.c`. All participants are in one structure with their
coordinator. The calls on it do what they do to a transaction that is collected, refused or made ready, and then done or
cancelled as a whole. -/

namespace MiniNetDist.DistProtocol.TwoPhaseCommit

def DTX_MAX_PARTICIPANTS : Nat := 8

inductive DTXState
  | init
  | preparing
  | prepared
  | committing
  | aborting
  | committed
  | aborted
  deriving DecidableEq, Repr

structure DTXParticipant where
  participantId : Nat
  state : DTXState
  voteYes : Bool
  dataValue : Int
  preparedValue : Int
  deriving DecidableEq, Repr

structure DTXCoordinator where
  participants : List DTXParticipant
  coordinatorState : DTXState
  transactionId : Int
  deriving DecidableEq, Repr

/-- What `dtx_init` writes. -/
def dtxFresh (n : Nat) (txnId : Int) : DTXCoordinator :=
  ⟨(List.range n).map fun i => ⟨i, .init, false, 0, 0⟩, .init, txnId⟩

/-- None beyond the array of participants, where the loop writes over the coordinator. -/
def dtxInit (n : Nat) (txnId : Int) : Option DTXCoordinator :=
  if n ≤ DTX_MAX_PARTICIPANTS then some (dtxFresh n txnId) else none

def dtxSetValue (dtx : DTXCoordinator) (pid : Int) (value : Int) : DTXCoordinator × Bool :=
  if pid < 0 ∨ pid ≥ dtx.participants.length then (dtx, false)
  else if dtx.coordinatorState ≠ .init then (dtx, false)
  else
    ({ dtx with participants := dtx.participants.modify pid.toNat fun p => { p with dataValue := value } }, true)

/-- A participant votes, against the transaction if its value is 0. -/
def DTXParticipant.vote (p : DTXParticipant) : DTXParticipant :=
  if p.dataValue ≠ 0 then { p with voteYes := true, preparedValue := p.dataValue, state := .prepared }
  else { p with state := .preparing, voteYes := false }

def dtxPrepare (dtx : DTXCoordinator) : DTXCoordinator × Bool :=
  if dtx.coordinatorState ≠ .init then (dtx, false)
  else
    let yesVotes := dtx.participants.countP fun p => p.dataValue ≠ 0
    let voted := { dtx with participants := dtx.participants.map .vote, coordinatorState := .preparing }
    if yesVotes = dtx.participants.length then ({ voted with coordinatorState := .prepared }, true) else (voted, false)

def DTXParticipant.commit (p : DTXParticipant) : DTXParticipant :=
  if p.voteYes then { p with state := .committed, dataValue := p.preparedValue } else { p with state := .aborted }

def dtxCommit (dtx : DTXCoordinator) : DTXCoordinator × Bool :=
  if dtx.coordinatorState ≠ .prepared then (dtx, false)
  else ({ dtx with participants := dtx.participants.map .commit, coordinatorState := .committed }, true)

def DTXParticipant.abort (p : DTXParticipant) : DTXParticipant :=
  { p with state := .aborted, dataValue := 0, preparedValue := 0 }

def dtxAbort (dtx : DTXCoordinator) : DTXCoordinator :=
  { dtx with participants := dtx.participants.map .abort, coordinatorState := .aborted }

inductive DTXCall
  | setValue (pid value : Int)
  | prepare
  | commit
  | abort
  deriving DecidableEq, Repr

/-- The coordinator after a call, and the result of the call. -/
def dtxStep (dtx : DTXCoordinator) : DTXCall → DTXCoordinator × Bool
  | .setValue pid value => dtxSetValue dtx pid value
  | .prepare => dtxPrepare dtx
  | .commit => dtxCommit dtx
  | .abort => (dtxAbort dtx, true)

/-- The coordinator after the calls, and their results. -/
def dtxRun (dtx : DTXCoordinator) : List DTXCall → DTXCoordinator × List Bool
  | [] => (dtx, [])
  | call :: rest => ((dtxRun (dtxStep dtx call).1 rest).1, (dtxStep dtx call).2 :: (dtxRun (dtxStep dtx call).1 rest).2)

/-- The transaction as a whole, with the values of the participants, or with how they voted. -/
inductive Transaction
  | collecting (values : List Int)
  | refused (values : List Int)
  | ready (values : List Int) (agreed : ∀ value ∈ values, value ≠ 0)
  | done (values : List Int) (agreed : ∀ value ∈ values, value ≠ 0)
  | cancelled (votes : List Bool)
  deriving DecidableEq, Repr

def Transaction.votes : Transaction → List Bool
  | .collecting values => values.map fun _ => false
  | .refused values | .ready values _ | .done values _ => values.map fun value => value ≠ 0
  | .cancelled votes => votes

/-- What a call is to do. -/
def Transaction.step (txn : Transaction) : DTXCall → Transaction × Bool
  | .setValue pid value =>
    match txn with
    | .collecting values =>
      if 0 ≤ pid ∧ pid < values.length then (.collecting (values.set pid.toNat value), true) else (txn, false)
    | _ => (txn, false)
  | .prepare =>
    match txn with
    | .collecting values =>
      if agreed : ∀ value ∈ values, value ≠ 0 then (.ready values agreed, true) else (.refused values, false)
    | _ => (txn, false)
  | .commit =>
    match txn with
    | .ready values agreed => (.done values agreed, true)
    | _ => (txn, false)
  | .abort => (.cancelled txn.votes, true)

def Transaction.run (txn : Transaction) : List DTXCall → Transaction × List Bool
  | [] => (txn, [])
  | call :: rest => (((txn.step call).1.run rest).1, (txn.step call).2 :: ((txn.step call).1.run rest).2)

/-- A participant with a value of its own is in one of two states after the vote. -/
def votedParticipant (i : Nat) (value : Int) : DTXParticipant :=
  if value ≠ 0 then ⟨i, .prepared, true, value, value⟩ else ⟨i, .preparing, false, value, 0⟩

/-- The coordinator of a transaction. -/
def Transaction.coordinator (txnId : Int) : Transaction → DTXCoordinator
  | .collecting values => ⟨values.mapIdx fun i value => ⟨i, .init, false, value, 0⟩, .init, txnId⟩
  | .refused values => ⟨values.mapIdx votedParticipant, .preparing, txnId⟩
  | .ready values _ => ⟨values.mapIdx votedParticipant, .prepared, txnId⟩
  | .done values _ => ⟨values.mapIdx fun i value => ⟨i, .committed, true, value, value⟩, .committed, txnId⟩
  | .cancelled votes => ⟨votes.mapIdx fun i vote => ⟨i, .aborted, vote, 0, 0⟩, .aborted, txnId⟩

section Refinement

variable {values : List Int} {txnId : Int}

theorem dtxFresh_eq (n : Nat) (txnId : Int) :
    dtxFresh n txnId = (Transaction.collecting (List.replicate n 0)).coordinator txnId := by
  refine congrArg (fun participants => (⟨participants, .init, txnId⟩ : DTXCoordinator)) ?_
  apply List.ext_getElem
  · simp
  · intro i _ _
    simp

theorem vote_collecting (i : Nat) (value : Int) :
    DTXParticipant.vote ⟨i, .init, false, value, 0⟩ = votedParticipant i value := rfl

/-- A participant of a transaction that is ready has voted for it. -/
theorem commit_voted (i : Nat) {value : Int} (agrees : value ≠ 0) :
    (votedParticipant i value).commit = ⟨i, .committed, true, value, value⟩ := by
  rw [votedParticipant, if_pos agrees]
  rfl

theorem abort_voted (i : Nat) (value : Int) :
    (votedParticipant i value).abort = ⟨i, .aborted, value ≠ 0, 0, 0⟩ := by
  rw [votedParticipant]
  by_cases agrees : value ≠ 0
  · rw [if_pos agrees, decide_eq_true agrees]
    rfl
  · rw [if_neg agrees, decide_eq_false agrees]
    rfl

theorem dtxSetValue_collecting (pid value : Int) :
    dtxStep ((Transaction.collecting values).coordinator txnId) (.setValue pid value) =
      (((Transaction.collecting values).step (.setValue pid value)).1.coordinator txnId,
        ((Transaction.collecting values).step (.setValue pid value)).2) := by
  have many : ((Transaction.collecting values).coordinator txnId).participants.length = values.length :=
    List.length_mapIdx
  rw [dtxStep, dtxSetValue, many, Transaction.step]
  by_cases inside : 0 ≤ pid ∧ pid < values.length
  · rw [if_neg (by omega), if_neg (by exact not_not.mpr rfl), if_pos inside]
    refine congrArg (fun participants => ((⟨participants, .init, txnId⟩ : DTXCoordinator), true)) ?_
    apply List.ext_getElem
    · simp [Transaction.coordinator]
    · intro i _ _
      by_cases here : pid.toNat = i
      · simp [Transaction.coordinator, here]
      · simp [Transaction.coordinator, here]
  · rw [if_pos (by omega), if_neg inside]

theorem dtxPrepare_collecting :
    dtxStep ((Transaction.collecting values).coordinator txnId) .prepare =
      (((Transaction.collecting values).step .prepare).1.coordinator txnId,
        ((Transaction.collecting values).step .prepare).2) := by
  have voted : (((Transaction.collecting values).coordinator txnId).participants.map .vote) =
      values.mapIdx votedParticipant := by
    apply List.ext_getElem
    · simp [Transaction.coordinator]
    · intro i _ _
      simp [Transaction.coordinator, vote_collecting]
  have count : ((Transaction.collecting values).coordinator txnId).participants.countP (fun p => p.dataValue ≠ 0) =
      values.countP fun value => value ≠ 0 := by
    have read : ((Transaction.collecting values).coordinator txnId).participants.map DTXParticipant.dataValue = values := by
      apply List.ext_getElem
      · simp [Transaction.coordinator]
      · intro i _ _
        simp [Transaction.coordinator]
    have counted := List.countP_map (p := fun value => value ≠ 0) (f := DTXParticipant.dataValue)
      (l := ((Transaction.collecting values).coordinator txnId).participants)
    rw [read] at counted
    exact counted.symm
  have many : ((Transaction.collecting values).coordinator txnId).participants.length = values.length :=
    List.length_mapIdx
  rw [dtxStep, dtxPrepare, if_neg (by exact not_not.mpr rfl)]
  dsimp only
  rw [voted, count, many, Transaction.step]
  by_cases agreed : ∀ value ∈ values, value ≠ 0
  · rw [dif_pos agreed, if_pos (List.countP_eq_length.mpr (by simpa using agreed))]
    rfl
  · rw [dif_neg agreed, if_neg (fun all => agreed (by simpa using List.countP_eq_length.mp all))]
    rfl

theorem dtxCommit_ready (agreed : ∀ value ∈ values, value ≠ 0) :
    dtxStep ((Transaction.ready values agreed).coordinator txnId) .commit =
      ((Transaction.done values agreed).coordinator txnId, true) := by
  refine congrArg (fun participants => ((⟨participants, .committed, txnId⟩ : DTXCoordinator), true)) ?_
  apply List.ext_getElem
  · simp [Transaction.coordinator]
  · intro i inside _
    have present : i < values.length := by simpa [Transaction.coordinator] using inside
    simp [Transaction.coordinator, commit_voted i (agreed _ (List.getElem_mem present))]

theorem dtxAbort_coordinator (txn : Transaction) :
    dtxAbort (txn.coordinator txnId) = (Transaction.cancelled txn.votes).coordinator txnId := by
  have aborted : (txn.coordinator txnId).participants.map DTXParticipant.abort =
      txn.votes.mapIdx fun i vote => (⟨i, .aborted, vote, 0, 0⟩ : DTXParticipant) := by
    cases txn with
    | collecting _ | cancelled _ =>
      apply List.ext_getElem
      · simp [Transaction.coordinator, Transaction.votes]
      · intro i _ _
        simp [Transaction.coordinator, Transaction.votes, DTXParticipant.abort]
    | refused _ | ready _ _ =>
      apply List.ext_getElem
      · simp [Transaction.coordinator, Transaction.votes]
      · intro i _ _
        simp [Transaction.coordinator, Transaction.votes, abort_voted]
    | done values agreed =>
      apply List.ext_getElem
      · simp [Transaction.coordinator, Transaction.votes]
      · intro i _ inside
        have present : i < values.length := by simpa [Transaction.votes] using inside
        simp [Transaction.coordinator, Transaction.votes, DTXParticipant.abort, agreed _ (List.getElem_mem present)]
  rw [dtxAbort, aborted]
  cases txn <;> rfl

/-- A call on the coordinator does to its transaction what it is to do, and returns what it is to return. -/
theorem dtxStep_coordinator (txn : Transaction) (txnId : Int) (call : DTXCall) :
    dtxStep (txn.coordinator txnId) call = ((txn.step call).1.coordinator txnId, (txn.step call).2) := by
  cases call with
  | setValue pid value =>
    cases txn with
    | collecting values => exact dtxSetValue_collecting pid value
    | refused _ | ready _ _ | done _ _ | cancelled _ => exact ite_self _
  | prepare =>
    cases txn with
    | collecting values => exact dtxPrepare_collecting
    | refused _ | ready _ _ | done _ _ | cancelled _ => rfl
  | commit =>
    cases txn with
    | ready values agreed => exact dtxCommit_ready agreed
    | collecting _ | refused _ | done _ _ | cancelled _ => rfl
  | abort => exact congrArg (·, true) (dtxAbort_coordinator txn)

theorem dtxRun_coordinator (txn : Transaction) (txnId : Int) (calls : List DTXCall) :
    dtxRun (txn.coordinator txnId) calls = ((txn.run calls).1.coordinator txnId, (txn.run calls).2) := by
  induction calls generalizing txn with
  | nil => rfl
  | cons call rest ih =>
    rw [dtxRun, dtxStep_coordinator]
    dsimp only
    rw [ih, Transaction.run]

/-- Either all participants have committed, having voted for it, or none has. -/
theorem coordinator_atomic (txn : Transaction) (txnId : Int) :
    (∀ p ∈ (txn.coordinator txnId).participants, p.state = .committed ∧ p.voteYes = true) ∨
      ∀ p ∈ (txn.coordinator txnId).participants, p.state ≠ .committed := by
  cases txn with
  | done values _ =>
    left
    intro p present
    obtain ⟨i, _, rfl⟩ := List.mem_mapIdx.mp present
    exact ⟨rfl, rfl⟩
  | collecting values | cancelled votes =>
    right
    intro p present
    obtain ⟨i, _, rfl⟩ := List.mem_mapIdx.mp present
    exact nofun
  | refused values | ready values _ =>
    right
    intro p present
    obtain ⟨i, _, rfl⟩ := List.mem_mapIdx.mp present
    dsimp only [votedParticipant]
    split
    · exact nofun
    · exact nofun

/-- The coordinator refines the transaction as a whole: in every run it stands for the transaction that the calls make,
and returns what they are to return. So the participants commit together or not at all. -/
theorem dtxRun_refines {n : Nat} (few : n ≤ DTX_MAX_PARTICIPANTS) (txnId : Int) (calls : List DTXCall) :
    (dtxInit n txnId).map (fun dtx => dtxRun dtx calls) =
        some (((Transaction.collecting (List.replicate n 0)).run calls).1.coordinator txnId,
          ((Transaction.collecting (List.replicate n 0)).run calls).2) ∧
      ∀ dtx ∈ dtxInit n txnId,
        (∀ p ∈ (dtxRun dtx calls).1.participants, p.state = .committed ∧ p.voteYes = true) ∨
          ∀ p ∈ (dtxRun dtx calls).1.participants, p.state ≠ .committed := by
  have refined := dtxRun_coordinator (Transaction.collecting (List.replicate n 0)) txnId calls
  rw [← dtxFresh_eq] at refined
  have fits : dtxInit n txnId = some (dtxFresh n txnId) := if_pos few
  constructor
  · rw [fits, Option.map_some, refined]
  · intro dtx made
    cases Option.mem_some_iff.mp (fits ▸ made)
    rw [refined]
    exact coordinator_atomic _ txnId

/-- Two participants get values and commit, after which no value can be set. -/
def twoCommit : List DTXCall := [.setValue 0 5, .setValue 1 6, .prepare, .commit, .setValue 0 9]

theorem dtxRun_refines_two :
    (dtxInit 2 7).map (fun dtx => (dtxRun dtx twoCommit).2) = some [true, true, true, true, false] := by
  have run := congrArg (Option.map Prod.snd) (dtxRun_refines (n := 2) (by decide) 7 twoCommit).1
  rw [Option.map_map] at run
  exact run.trans (by decide)

end Refinement

end MiniNetDist.DistProtocol.TwoPhaseCommit
