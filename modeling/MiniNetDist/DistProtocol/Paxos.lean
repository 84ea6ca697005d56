import Mathlib.Data.List.FinRange
import Mathlib.Logic.Function.Basic

/-! Single-decree Paxos of `mini-dist-protocol/src/paxos.c`. The handlers of one
acceptor and the loops of one proposer are those of the source; the system below
lets any number of proposers make their calls one at a time and in any order. -/

namespace MiniNetDist.DistProtocol.Paxos

structure PaxosProposer where
  proposalNum : Nat
  value : Int

/-- An acceptor as `paxos_init_cluster` leaves it, unless fields are given. -/
structure PaxosAcceptor where
  promisedNum : Nat := 0
  acceptedNum : Nat := 0
  acceptedValue : Int := 0
  hasAccepted : Bool := false

/-- The out-parameters of a `paxos_promise` that returns true. -/
structure PaxosPromise where
  prevAcceptedNum : Nat
  prevAcceptedValue : Int
  hasPrev : Bool

def paxosPromise (acceptor : PaxosAcceptor) (proposalNum : Nat) : PaxosAcceptor × Option PaxosPromise :=
  if proposalNum ≤ acceptor.promisedNum then (acceptor, none)
  else ({ acceptor with promisedNum := proposalNum },
    some ⟨acceptor.acceptedNum, acceptor.acceptedValue, acceptor.hasAccepted⟩)

/-- The acceptance leaves `promised_num` where it was. -/
def paxosAccepted (acceptor : PaxosAcceptor) (proposalNum : Nat) (value : Int) : PaxosAcceptor × Bool :=
  if proposalNum < acceptor.promisedNum then (acceptor, false)
  else ({ acceptor with acceptedNum := proposalNum, acceptedValue := value, hasAccepted := true }, true)

/-- The out-parameters of `paxos_prepare`. -/
structure Prepared where
  promiseCount : Nat := 0
  highestAcceptedNum : Nat := 0
  highestAcceptedValue : Int := 0

/-- The body of the loop in `paxos_prepare` for one answer. -/
def Prepared.collect (prepared : Prepared) : Option PaxosPromise → Prepared
  | none => prepared
  | some promise =>
    let counted := { prepared with promiseCount := prepared.promiseCount + 1 }
    if promise.hasPrev = true ∧ promise.prevAcceptedNum > prepared.highestAcceptedNum then
      { counted with
        highestAcceptedNum := promise.prevAcceptedNum
        highestAcceptedValue := promise.prevAcceptedValue }
    else counted

/-- The value a proposer goes on with. -/
def Prepared.value (prepared : Prepared) (proposer : PaxosProposer) : Int :=
  if prepared.highestAcceptedNum > 0 then prepared.highestAcceptedValue else proposer.value

variable {n : Nat} {P : Type} [DecidableEq P]

/-- The acceptors after the loop of `paxos_prepare`, and what it has collected. -/
def paxosPrepare (proposer : PaxosProposer) (acceptors : Fin n → PaxosAcceptor) :
    (Fin n → PaxosAcceptor) × Prepared :=
  (List.finRange n).foldl (fun (acceptors, prepared) i =>
    let (acceptor, promise) := paxosPromise (acceptors i) proposer.proposalNum
    (Function.update acceptors i acceptor, prepared.collect promise)) (acceptors, {})

/-- Acceptors, what each proposer has collected and the value it has picked. `accepted` records
every acceptance so far: who, under which number, which value. -/
structure System (n : Nat) (P : Type) where
  acceptors : Fin n → PaxosAcceptor
  prepared : P → Prepared
  picked : P → Option Int
  accepted : List (Fin n × Nat × Int)

/-- A call of one proposer. The answer to a promise may be lost; a call that is
lost on the way is not made. -/
inductive PaxosCall (n : Nat) (P : Type) where
  | promise (proposer : P) (acceptor : Fin n) (heard : Bool)
  | pick (proposer : P)
  | accept (proposer : P) (acceptor : Fin n)

def paxosStep (proposers : P → PaxosProposer) (sys : System n P) : PaxosCall n P → System n P
  | .promise p a heard =>
    if (sys.picked p).isSome then sys
    else
      let (acceptor, promise) := paxosPromise (sys.acceptors a) (proposers p).proposalNum
      { sys with
        acceptors := Function.update sys.acceptors a acceptor
        prepared := if heard then Function.update sys.prepared p ((sys.prepared p).collect promise)
          else sys.prepared }
  | .pick p =>
    if (sys.picked p).isNone ∧ (sys.prepared p).promiseCount > n / 2 then
      { sys with picked := Function.update sys.picked p (some ((sys.prepared p).value (proposers p))) }
    else sys
  | .accept p a =>
    match sys.picked p with
    | none => sys
    | some value =>
      let (acceptor, ok) := paxosAccepted (sys.acceptors a) (proposers p).proposalNum value
      { sys with
        acceptors := Function.update sys.acceptors a acceptor
        accepted := if ok then (a, (proposers p).proposalNum, value) :: sys.accepted else sys.accepted }

/-- `n` is at most `PAXOS_MAX_NODES`, which `paxos_init_cluster` does not check. -/
def paxosInit (n : Nat) (P : Type) : System n P where
  acceptors := fun _ => {}
  prepared := fun _ => {}
  picked := fun _ => none
  accepted := []

/-- `paxos_prepare` is the run in which its proposer asks every acceptor in turn
and hears every answer. -/
theorem paxosPrepare_run (proposers : P → PaxosProposer) (sys : System n P) (p : P)
    (asking : sys.picked p = none) (fresh : sys.prepared p = {}) :
    let run := ((List.finRange n).map fun a => .promise p a true).foldl (paxosStep proposers) sys
    run.acceptors = (paxosPrepare (proposers p) sys.acceptors).1 ∧
      run.prepared p = (paxosPrepare (proposers p) sys.acceptors).2 := by
  unfold paxosPrepare
  dsimp only
  rw [← fresh]
  clear fresh
  induction List.finRange n generalizing sys with
  | nil => exact ⟨rfl, rfl⟩
  | cons a rest ih =>
    rw [List.map_cons, List.foldl_cons, List.foldl_cons]
    have next := ih (paxosStep proposers sys (.promise p a true)) (by simp [paxosStep, asking])
    simpa [paxosStep, asking] using next

end MiniNetDist.DistProtocol.Paxos
