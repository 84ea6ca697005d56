import MiniNetDist.Library.Run
import MiniNetDist.Library.Table

/-! Two- and three-phase commit, `mini-dist-transaction/src/two_pc.c`. The two coordinators
have the same fields and differ in their phases and transitions. -/

namespace MiniNetDist.Transaction.TwoPC

open Library

def TPC_MAX_PARTICIPANTS : Nat := 8
def TPC_NAME_LEN : Nat := 32

inductive TPCState where
  | init
  | ready
  | committed
  | aborted
  deriving DecidableEq, Repr

inductive TPCVote where
  | yes
  | no
  | pending
  deriving DecidableEq, Repr

inductive TPCPhase where
  | prepare
  | commit
  | abort
  deriving DecidableEq, Repr

inductive ThreePCPhase where
  | prepare
  | precommit
  | commit
  | abort
  deriving DecidableEq, Repr

structure TPCParticipant where
  id : Int
  state : TPCState
  vote : TPCVote
  prepared : Bool
  name : CString
  deriving DecidableEq, Repr

structure Coordinator (Phase : Type) where
  txnId : Int
  participants : List TPCParticipant
  phase : Phase
  timedOut : Bool
  deriving DecidableEq, Repr

abbrev TPCCoordinator := Coordinator TPCPhase
abbrev ThreePCCoordinator := Coordinator ThreePCPhase

def tpcParticipantInit (id : Int) (name : CString) : TPCParticipant :=
  ⟨id, .init, .pending, false, strncpy name (TPC_NAME_LEN - 1)⟩

def tpcParticipantVote (p : TPCParticipant) (canCommit : Bool) : TPCParticipant × TPCVote :=
  if canCommit then ({ p with vote := .yes, state := .ready }, .yes)
  else ({ p with vote := .no, state := .aborted }, .no)

section Shared

variable {Phase : Type}

/-- Both coordinators add a participant in the same way, silently refusing when full. -/
def addParticipant (c : Coordinator Phase) (p : TPCParticipant) : Coordinator Phase :=
  if c.participants.length ≥ TPC_MAX_PARTICIPANTS then c
  else { c with participants := c.participants ++ [p] }

/-- The loop with which an abort or a commit sets every state. -/
def enterAll (state : TPCState) (phase : Phase) (c : Coordinator Phase) : Coordinator Phase :=
  { c with phase, participants := c.participants.map fun p => { p with state } }

def voteStored (c : Coordinator Phase) (i : Nat) (canCommit : Bool) : Coordinator Phase :=
  { c with participants := c.participants.modify i fun p => (tpcParticipantVote p canCommit).1 }

end Shared

def tpcCoordinatorInit (txnId : Int) : TPCCoordinator := ⟨txnId, [], .prepare, false⟩

def tpcCoordinatorAddParticipant : TPCCoordinator → TPCParticipant → TPCCoordinator := addParticipant

/-- One pass of the loop in `tpc_coordinator_prepare`; a pending vote counts as a yes. -/
def tpcPrepareParticipant (p : TPCParticipant) : TPCParticipant :=
  match p.vote with
  | .yes => { p with state := .ready, prepared := true }
  | .no => { p with state := .aborted }
  | .pending => { p with state := .ready, prepared := true, vote := .yes }

def tpcCoordinatorPrepare (c : TPCCoordinator) : TPCCoordinator × Bool :=
  if c.timedOut then ({ c with phase := .abort }, false)
  else
    let noCount := c.participants.countP (·.vote = .no)
    let yesCount := c.participants.countP (·.vote ≠ .no)
    let c := { c with phase := .prepare, participants := c.participants.map tpcPrepareParticipant }
    if noCount > 0 then ({ c with phase := .abort }, false)
    else (c, yesCount = c.participants.length)

def tpcCoordinatorAbort : TPCCoordinator → TPCCoordinator := enterAll .aborted .abort

def tpcCoordinatorCommit (c : TPCCoordinator) : TPCCoordinator × Bool :=
  if c.phase ≠ .prepare then (c, false)
  else if c.timedOut then (tpcCoordinatorAbort c, false)
  else
    let allYes := c.participants.countP (·.vote = .yes)
    if allYes ≠ c.participants.length ∨ c.participants.length = 0 then (tpcCoordinatorAbort c, false)
    else (enterAll .committed .commit c, true)

def tpcHandleTimeout (c : TPCCoordinator) : TPCCoordinator × Bool :=
  (tpcCoordinatorAbort { c with timedOut := true }, false)

def threepcCoordinatorInit (txnId : Int) : ThreePCCoordinator := ⟨txnId, [], .prepare, false⟩

def threepcCoordinatorAddParticipant : ThreePCCoordinator → TPCParticipant → ThreePCCoordinator := addParticipant

def threepcAbort : ThreePCCoordinator → ThreePCCoordinator := enterAll .aborted .abort

/-- The loop of `threepc_prepare`, left at the first vote against. -/
def threepcPrepareLoop : List TPCParticipant → List TPCParticipant × Bool
  | [] => ([], true)
  | p :: rest =>
    if p.vote = .yes ∨ p.vote = .pending then
      let (rest, ok) := threepcPrepareLoop rest
      ({ p with vote := .yes, state := .ready } :: rest, ok)
    else ({ p with state := .aborted } :: rest, false)

def threepcPrepare (c : ThreePCCoordinator) : ThreePCCoordinator × Bool :=
  let (participants, ok) := threepcPrepareLoop c.participants
  let c := { c with phase := .prepare, participants }
  if ok then (c, c.participants.length > 0) else (threepcAbort c, false)

/-- The loop of `threepc_precommit`, left at the first vote that is not a yes. -/
def threepcPrecommitLoop : List TPCParticipant → List TPCParticipant × Bool
  | [] => ([], true)
  | p :: rest =>
    if p.vote ≠ .yes then (p :: rest, false)
    else
      let (rest, ok) := threepcPrecommitLoop rest
      ({ p with prepared := true } :: rest, ok)

def threepcPrecommit (c : ThreePCCoordinator) : ThreePCCoordinator × Bool :=
  if c.phase ≠ .prepare then (c, false)
  else
    let (participants, ok) := threepcPrecommitLoop c.participants
    let c := { c with phase := .precommit, participants }
    if ok then (c, true) else (threepcAbort c, false)

def threepcCommit (c : ThreePCCoordinator) : ThreePCCoordinator × Bool :=
  if c.phase ≠ .precommit then (c, false)
  else (enterAll .committed .commit c, true)

/-- A participant as its owner hands it in: initialised, and perhaps with its vote cast. -/
structure Candidate where
  id : Int
  name : CString
  vote : Option Bool
  deriving DecidableEq, Repr

def Candidate.participant (candidate : Candidate) : TPCParticipant :=
  let p := tpcParticipantInit candidate.id candidate.name
  candidate.vote.elim p fun canCommit => (tpcParticipantVote p canCommit).1

inductive TPCCall where
  | add (candidate : Candidate)
  | vote (i : Nat) (canCommit : Bool)
  | prepare
  | commit
  | abort
  | timeout
  deriving DecidableEq, Repr

inductive ThreePCCall where
  | add (candidate : Candidate)
  | vote (i : Nat) (canCommit : Bool)
  | prepare
  | precommit
  | commit
  | abort
  deriving DecidableEq, Repr

def TPCCoordinator.call (c : TPCCoordinator) : TPCCall → TPCCoordinator
  | .add candidate => tpcCoordinatorAddParticipant c candidate.participant
  | .vote i canCommit => voteStored c i canCommit
  | .prepare => (tpcCoordinatorPrepare c).1
  | .commit => (tpcCoordinatorCommit c).1
  | .abort => tpcCoordinatorAbort c
  | .timeout => (tpcHandleTimeout c).1

def ThreePCCoordinator.call (c : ThreePCCoordinator) : ThreePCCall → ThreePCCoordinator
  | .add candidate => threepcCoordinatorAddParticipant c candidate.participant
  | .vote i canCommit => voteStored c i canCommit
  | .prepare => (threepcPrepare c).1
  | .precommit => (threepcPrecommit c).1
  | .commit => (threepcCommit c).1
  | .abort => threepcAbort c

/-- A coordinator, and whether some participant has been committed so far. -/
structure Protocol (Phase : Type) where
  coordinator : Coordinator Phase
  decided : Bool

def Protocol.enter {Phase : Type} (protocol : Protocol Phase) (next : Coordinator Phase) : Protocol Phase :=
  ⟨next, protocol.decided || next.participants.any (·.state = .committed)⟩

def tpcInit (txnId : Int) : Protocol TPCPhase := ⟨tpcCoordinatorInit txnId, false⟩
def threepcInit (txnId : Int) : Protocol ThreePCPhase := ⟨threepcCoordinatorInit txnId, false⟩

def tpcStep (protocol : Protocol TPCPhase) (call : TPCCall) : Protocol TPCPhase :=
  protocol.enter (TPCCoordinator.call protocol.coordinator call)

def threepcStep (protocol : Protocol ThreePCPhase) (call : ThreePCCall) : Protocol ThreePCPhase :=
  protocol.enter (ThreePCCoordinator.call protocol.coordinator call)

end MiniNetDist.Transaction.TwoPC
