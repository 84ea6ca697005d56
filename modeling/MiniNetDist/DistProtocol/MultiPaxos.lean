import MiniNetDist.DistProtocol.Paxos
import MiniNetDist.Library.Run
import MiniNetDist.Library.Sweep
import Mathlib.Algebra.Ring.Nat

/-! Multi-Paxos of `mini-dist-protocol/src/paxos.c`. A leader is deposed by promises of a higher number and is not
told; `multi_paxos_replicate` writes the log before it asks the acceptors. -/

namespace MiniNetDist.DistProtocol.Paxos

open Library

def PAXOS_MAX_LOG_ENTRIES : Nat := 512

/-- A learner as `paxos_init_cluster` leaves it, unless fields are given. -/
structure PaxosLearner where
  learnedValue : Int := 0
  learnedRound : Nat := 0
  hasLearned : Bool := false

/-- `node_count` is `n`. `prepares` records every call of `paxos_prepare` so far: whose and under which number. -/
structure PaxosCluster (n : Nat) where
  proposers : Fin n → PaxosProposer
  acceptors : Fin n → PaxosAcceptor
  learners : Fin n → PaxosLearner
  quorum : Nat
  prepares : List (Fin n × Nat)

variable {n : Nat}

section Calls

/-- `n` is at most `PAXOS_MAX_NODES`, which `paxos_init_cluster` does not check. -/
def paxosInitCluster (n : Nat) : PaxosCluster n :=
  ⟨fun _ => ⟨0, 0⟩, fun _ => {}, fun _ => {}, n / 2 + 1, []⟩

/-- The acceptors after the loop of `paxos_accept`, and how many have accepted. -/
def paxosAccept (proposer : PaxosProposer) (acceptors : Fin n → PaxosAcceptor) (value : Int) :
    (Fin n → PaxosAcceptor) × Nat :=
  (List.finRange n).foldl (fun (acceptors, acceptCount) i =>
    let (acceptor, ok) := paxosAccepted (acceptors i) proposer.proposalNum value
    (Function.update acceptors i acceptor, if ok then acceptCount + 1 else acceptCount)) (acceptors, 0)

/-- A proposer prepares with a new number. -/
def PaxosCluster.prepare (cluster : PaxosCluster n) (p : Fin n) (proposer : PaxosProposer) :
    PaxosCluster n × Prepared :=
  let (acceptors, prepared) := paxosPrepare proposer cluster.acceptors
  ({ cluster with
    proposers := Function.update cluster.proposers p { proposer with value := prepared.value proposer }
    acceptors := acceptors
    prepares := cluster.prepares ++ [(p, proposer.proposalNum)] }, prepared)

/-- All learners are told a value. -/
def PaxosCluster.learn (cluster : PaxosCluster n) (value : Int) (round : Nat) : PaxosCluster n :=
  { cluster with learners := fun _ => ⟨value, round, true⟩ }

/-- The number of a proposer's next instance. With the eight proposers of a cluster it stays far below 2^64. -/
def instanceNum (p : Fin n) (proposalNum : Nat) : Nat := (p.val + 1) * 1000 + proposalNum % 1000 + 1

def paxosRunInstance (cluster : PaxosCluster n) (p : Fin n) (value : Int) : PaxosCluster n × Bool :=
  let number := instanceNum p (cluster.proposers p).proposalNum
  let (cluster, prepared) := cluster.prepare p ⟨number, value⟩
  if prepared.promiseCount ≥ n / 2 + 1 then
    let finalValue := if prepared.highestAcceptedNum > 0 then prepared.highestAcceptedValue else value
    let (acceptors, acceptCount) := paxosAccept (cluster.proposers p) cluster.acceptors finalValue
    let cluster := { cluster with acceptors := acceptors }
    if acceptCount ≥ n / 2 + 1 then (cluster.learn finalValue number, true) else (cluster, false)
  else (cluster, false)

end Calls

section Leading

/-- The cluster with the static log and leader of the source; no leader is -1 there. -/
structure MultiPaxos (n : Nat) where
  cluster : PaxosCluster n
  log : List Int
  leader : Option (Fin n)

/-- Adding 1000 to an `uint64_t`. -/
@[irreducible] def leaderNum (proposalNum : Nat) : Nat := (proposalNum + 1000) % 2 ^ 64

theorem leaderNum_eq {proposalNum : Nat} (small : proposalNum + 1000 < 2 ^ 64) :
    leaderNum proposalNum = proposalNum + 1000 := by
  unfold leaderNum
  exact Nat.mod_eq_of_lt small

/-- Past 2^64 the number becomes smaller. -/
theorem leaderNum_le {proposalNum : Nat} (large : 2 ^ 64 ≤ proposalNum + 1000) :
    leaderNum proposalNum ≤ proposalNum := by
  unfold leaderNum
  omega

/-- The loop of `multi_paxos_become_leader` and whether an attempt has succeeded. -/
def leaderLoop (p : Fin n) : Nat → PaxosCluster n → PaxosCluster n × Bool
  | 0, cluster => (cluster, false)
  | tries + 1, cluster =>
    let proposer := cluster.proposers p
    let (cluster, prepared) := cluster.prepare p { proposer with proposalNum := leaderNum proposer.proposalNum }
    if prepared.promiseCount ≥ n / 2 + 1 then (cluster, true) else leaderLoop p tries cluster

def multiPaxosBecomeLeader (sys : MultiPaxos n) (p : Fin n) : MultiPaxos n :=
  let (cluster, success) := leaderLoop p 3 sys.cluster
  { sys with
    cluster := cluster
    leader := if success then some p else none }

def multiPaxosReplicate (sys : MultiPaxos n) (p : Fin n) (value : Int) : MultiPaxos n × Bool :=
  if sys.leader ≠ some p then (sys, false)
  else if sys.log.length ≥ PAXOS_MAX_LOG_ENTRIES then (sys, false)
  else
    let proposer := sys.cluster.proposers p
    let (acceptors, acceptCount) := paxosAccept proposer sys.cluster.acceptors value
    let cluster := { sys.cluster with acceptors := acceptors }
    let log := sys.log ++ [value]
    if acceptCount ≥ cluster.quorum then
      (⟨cluster.learn value proposer.proposalNum, log, sys.leader⟩, true)
    else (⟨cluster, log, sys.leader⟩, false)

inductive MultiPaxosCall (n : Nat) where
  | becomeLeader (p : Fin n)
  | replicate (p : Fin n) (value : Int)
  | runInstance (p : Fin n) (value : Int)

/-- A run so far; `replicated` records the values whose `multi_paxos_replicate` returned true. -/
structure History (n : Nat) where
  sys : MultiPaxos n
  replicated : List Int

def History.call (history : History n) : MultiPaxosCall n → History n
  | .becomeLeader p => { history with sys := multiPaxosBecomeLeader history.sys p }
  | .replicate p value =>
    let (sys, ok) := multiPaxosReplicate history.sys p value
    ⟨sys, if ok then history.replicated ++ [value] else history.replicated⟩
  | .runInstance p value =>
    { history with sys := { history.sys with cluster := (paxosRunInstance history.sys.cluster p value).1 } }

def startHistory (n : Nat) : History n := ⟨⟨paxosInitCluster n, [], none⟩, []⟩

end Leading

section Counting

/-- How many acceptors have promised no more than a number. -/
def acceptCount (acceptors : Fin n → PaxosAcceptor) (number : Nat) : Nat :=
  (List.finRange n).countP fun a => (acceptors a).promisedNum ≤ number

/-- How many acceptors have promised less than a number. -/
def promiseCount (acceptors : Fin n → PaxosAcceptor) (number : Nat) : Nat :=
  (List.finRange n).countP fun a => (acceptors a).promisedNum < number

theorem paxosAccept_eq_sweep (proposer : PaxosProposer) (acceptors : Fin n → PaxosAcceptor) (value : Int) :
    paxosAccept proposer acceptors value =
      sweep (fun acceptor => paxosAccepted acceptor proposer.proposalNum value)
        (fun count ok => if ok then count + 1 else count) (List.finRange n) acceptors 0 := rfl

theorem paxosPrepare_eq_sweep (proposer : PaxosProposer) (acceptors : Fin n → PaxosAcceptor) :
    paxosPrepare proposer acceptors =
      sweep (fun acceptor => paxosPromise acceptor proposer.proposalNum) Prepared.collect (List.finRange n)
        acceptors {} := rfl

theorem paxosAccepted_snd (acceptor : PaxosAcceptor) (number : Nat) (value : Int) :
    (paxosAccepted acceptor number value).2 = decide (acceptor.promisedNum ≤ number) := by
  by_cases less : number < acceptor.promisedNum
  · rw [paxosAccepted, if_pos less, decide_eq_false (Nat.not_le_of_lt less)]
  · rw [paxosAccepted, if_neg less, decide_eq_true (Nat.le_of_not_lt less)]

theorem paxosPromise_isSome (acceptor : PaxosAcceptor) (number : Nat) :
    (paxosPromise acceptor number).2.isSome = decide (acceptor.promisedNum < number) := by
  by_cases refused : number ≤ acceptor.promisedNum
  · rw [paxosPromise, if_pos refused, decide_eq_false (Nat.not_lt_of_le refused)]
    rfl
  · rw [paxosPromise, if_neg refused, decide_eq_true (Nat.lt_of_not_le refused)]
    rfl

theorem paxosPromise_promisedNum (acceptor : PaxosAcceptor) (number : Nat) :
    (paxosPromise acceptor number).1.promisedNum =
      if acceptor.promisedNum < number then number else acceptor.promisedNum := by
  by_cases refused : number ≤ acceptor.promisedNum
  · rw [paxosPromise, if_pos refused, if_neg (Nat.not_lt_of_le refused)]
  · rw [paxosPromise, if_neg refused, if_pos (Nat.lt_of_not_le refused)]

theorem paxosAccept_count (proposer : PaxosProposer) (acceptors : Fin n → PaxosAcceptor) (value : Int) :
    (paxosAccept proposer acceptors value).2 = acceptCount acceptors proposer.proposalNum := by
  have counts : ∀ (count : Nat) (ok : Bool),
      (if ok then count + 1 else count) = count + (if ok then 1 else 0) := by
    intro count ok
    cases ok <;> rfl
  have counted := foldl_count (fun (count : Nat) (ok : Bool) => if ok then count + 1 else count) id id
    (fun a => (paxosAccepted (acceptors a) proposer.proposalNum value).2) counts (List.finRange n) 0
  rw [paxosAccept_eq_sweep, sweep_finRange]
  refine counted.trans ?_
  simp only [id_eq, Nat.zero_add, paxosAccepted_snd]
  rfl

theorem paxosPrepare_count (proposer : PaxosProposer) (acceptors : Fin n → PaxosAcceptor) :
    (paxosPrepare proposer acceptors).2.promiseCount = promiseCount acceptors proposer.proposalNum := by
  have counts : ∀ (prepared : Prepared) (answer : Option PaxosPromise),
      (prepared.collect answer).promiseCount = prepared.promiseCount + (if answer.isSome then 1 else 0) := by
    intro prepared answer
    cases answer with
    | none => rfl
    | some promise =>
      simp only [Prepared.collect]
      split <;> rfl
  have counted := foldl_count Prepared.collect Prepared.promiseCount Option.isSome
    (fun a => (paxosPromise (acceptors a) proposer.proposalNum).2) counts (List.finRange n) {}
  rw [paxosPrepare_eq_sweep, sweep_finRange]
  refine counted.trans ?_
  simp only [paxosPromise_isSome, Nat.zero_add]
  rfl

theorem paxosPrepare_promisedNum (proposer : PaxosProposer) (acceptors : Fin n → PaxosAcceptor) (a : Fin n) :
    ((paxosPrepare proposer acceptors).1 a).promisedNum =
      if (acceptors a).promisedNum < proposer.proposalNum then proposer.proposalNum
      else (acceptors a).promisedNum := by
  rw [paxosPrepare_eq_sweep, sweep_finRange]
  exact paxosPromise_promisedNum _ _

end Counting

section LogExactness

/-- The call, if it writes the log, finds a quorum that has promised no more than the leader's number. -/
def KeepsLeadership (history : History n) : MultiPaxosCall n → Prop
  | .replicate p _ =>
    history.sys.leader = some p → history.sys.log.length < PAXOS_MAX_LOG_ENTRIES →
      history.sys.cluster.quorum ≤
        acceptCount history.sys.cluster.acceptors (history.sys.cluster.proposers p).proposalNum
  | _ => True

instance (history : History n) : (call : MultiPaxosCall n) → Decidable (KeepsLeadership history call)
  | .replicate _ _ => inferInstanceAs (Decidable (_ → _ → _))
  | .becomeLeader _ => .isTrue trivial
  | .runInstance _ _ => .isTrue trivial

/-- A replication is refused, or it writes the log and reports whether a quorum has accepted. -/
theorem multiPaxosReplicate_cases (sys : MultiPaxos n) (p : Fin n) (value : Int) :
    (sys.leader = some p → ¬ sys.log.length < PAXOS_MAX_LOG_ENTRIES) ∧ multiPaxosReplicate sys p value = (sys, false) ∨
      (sys.leader = some p ∧ sys.log.length < PAXOS_MAX_LOG_ENTRIES) ∧
        (multiPaxosReplicate sys p value).1.log = sys.log ++ [value] ∧
        (multiPaxosReplicate sys p value).2 =
          decide (sys.cluster.quorum ≤ acceptCount sys.cluster.acceptors (sys.cluster.proposers p).proposalNum) := by
  by_cases leads : sys.leader = some p
  · by_cases room : sys.log.length < PAXOS_MAX_LOG_ENTRIES
    · right
      refine ⟨⟨leads, room⟩, ?_⟩
      rw [multiPaxosReplicate, if_neg (not_not_intro leads), if_neg (Nat.not_le_of_lt room),
        ← paxosAccept_count _ _ value]
      by_cases enough : sys.cluster.quorum ≤ (paxosAccept (sys.cluster.proposers p) sys.cluster.acceptors value).2
      · simp only [ge_iff_le, if_pos enough, decide_eq_true enough, and_self]
      · simp only [ge_iff_le, if_neg enough, decide_eq_false enough, and_self]
    · left
      refine ⟨fun _ => room, ?_⟩
      rw [multiPaxosReplicate, if_neg (not_not_intro leads), if_pos (Nat.le_of_not_lt room)]
  · left
    refine ⟨fun same => absurd same leads, ?_⟩
    rw [multiPaxosReplicate, if_pos leads]

/-- What a call adds to the log, and what of it is reported. -/
theorem call_log (history : History n) (call : MultiPaxosCall n) :
    ∃ added : List Int, (history.call call).sys.log = history.sys.log ++ added ∧
      (history.call call).replicated =
        history.replicated ++ (if KeepsLeadership history call then added else []) ∧
      (¬ KeepsLeadership history call → added ≠ []) := by
  cases call with
  | becomeLeader p =>
    exact ⟨[], (List.append_nil _).symm, by simp [History.call], fun deposed => absurd trivial deposed⟩
  | runInstance p value =>
    exact ⟨[], (List.append_nil _).symm, by simp [History.call], fun deposed => absurd trivial deposed⟩
  | replicate p value =>
    rcases multiPaxosReplicate_cases history.sys p value with ⟨refused, same⟩ | ⟨⟨leads, room⟩, written, reported⟩
    · refine ⟨[], ?_, ?_, ?_⟩
      · simp [History.call, same]
      · simp [History.call, same]
      · intro deposed
        exact absurd (fun leads room => absurd room (refused leads)) deposed
    · refine ⟨[value], written, ?_, fun _ => List.cons_ne_nil _ _⟩
      by_cases enough : history.sys.cluster.quorum ≤
          acceptCount history.sys.cluster.acceptors (history.sys.cluster.proposers p).proposalNum
      · have keeps : KeepsLeadership history (.replicate p value) := fun _ _ => enough
        rw [if_pos keeps]
        simp [History.call, reported, enough]
      · have deposed : ¬ KeepsLeadership history (.replicate p value) := fun keeps => enough (keeps leads room)
        rw [if_neg deposed]
        simp [History.call, reported, enough]

/-- Once a value is in the log and was not reported, the log stays longer than the reports. -/
theorem replicated_length_lt (calls : List (MultiPaxosCall n)) (history : History n)
    (shorter : history.replicated.length < history.sys.log.length) :
    (calls.foldl History.call history).replicated.length < (calls.foldl History.call history).sys.log.length := by
  induction calls generalizing history with
  | nil => exact shorter
  | cons call rest ih =>
    apply ih
    obtain ⟨added, written, reported, -⟩ := call_log history call
    rw [written, reported, List.length_append, List.length_append]
    split
    · omega
    · rw [List.length_nil]
      omega

/-- The log of a run is what was reported exactly when no deposed leader has written it. -/
theorem multi_paxos_log_from (calls : List (MultiPaxosCall n)) (history : History n)
    (exact : history.sys.log = history.replicated) :
    (calls.foldl History.call history).sys.log = (calls.foldl History.call history).replicated ↔
      Permitted History.call KeepsLeadership history calls := by
  induction calls generalizing history with
  | nil => exact iff_of_true exact trivial
  | cons call rest ih =>
    obtain ⟨added, written, reported, lost⟩ := call_log history call
    rw [List.foldl_cons]
    by_cases keeps : KeepsLeadership history call
    · rw [if_pos keeps] at reported
      rw [ih _ (by rw [written, reported, exact])]
      exact (and_iff_right keeps).symm
    · rw [if_neg keeps, List.append_nil] at reported
      have nonempty := List.length_pos_of_ne_nil (lost keeps)
      have shorter := replicated_length_lt rest (history.call call) (by
        rw [written, reported, exact, List.length_append]
        omega)
      constructor
      · intro same
        rw [same] at shorter
        exact absurd shorter (Nat.lt_irrefl _)
      · intro permitted
        exact absurd permitted.1 keeps

/-- The log is exactly what was replicated with success if and only if no deposed leader replicates. -/
theorem multi_paxos_log_iff (n : Nat) (calls : List (MultiPaxosCall n)) :
    (calls.foldl History.call (startHistory n)).sys.log = (calls.foldl History.call (startHistory n)).replicated ↔
      Permitted History.call KeepsLeadership (startHistory n) calls :=
  multi_paxos_log_from calls (startHistory n) rfl

/-- A leader replicates after another proposer has run an instance. -/
def deposedLeader (leader other : Fin n) : List (MultiPaxosCall n) :=
  [.becomeLeader leader, .runInstance other 5, .replicate leader 7]

/-- The value is in the log, although no acceptor has taken it. -/
theorem deposedLeader_writes :
    ((deposedLeader 0 1).foldl History.call (startHistory 3)).sys.log = [7] ∧
      ((deposedLeader 0 1).foldl History.call (startHistory 3)).replicated = [] := by decide +kernel

end LogExactness

end MiniNetDist.DistProtocol.Paxos
