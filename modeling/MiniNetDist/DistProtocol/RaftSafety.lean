import MiniNetDist.Library.Run
import MiniNetDist.DistProtocol.RaftReplication

/-! Safety of whole runs of the Raft simulation. Three lines of the source lose a
vote that Raft needs for the rest of the term: a candidate asks its voters again on
every tick and counts the same vote again, `raft_become_leader` clears the
leader's own vote, and `raft_become_follower` clears the vote of a node that
reconnects in its current term. Runs that never reach one of them are safe. -/

namespace MiniNetDist.DistProtocol.Raft

open Library Library.Replicas

variable {n : Nat} {cluster : Cluster n} {replicas : Replicas (Fin n) Int}

/-- If the pass of `raft_tick` for node `i` asks for votes, no vote is lost. -/
def PassKeepsVotes (deltaMs : UInt64) (cluster : Cluster n) (i : Fin n) : Prop :=
  (cluster.nodes i).active = true → (cluster.nodes i).state = .candidate →
    ¬ (cluster.nodes i).electionElapsedMs + deltaMs ≥ (cluster.nodes i).electionTimeoutMs →
    ∀ voter, voter ≠ i → KeepsVote cluster i voter

/-- The same for the remaining passes of a tick, each in the state it starts from. -/
def TickKeepsVotes (deltaMs : UInt64) : List (Fin n) → Cluster n → Prop
  | [], _ => True
  | i :: rest, cluster =>
    PassKeepsVotes deltaMs cluster i ∧ TickKeepsVotes deltaMs rest (raftTickNode deltaMs cluster i)

/-- The call loses no vote of a current term. -/
def KeepsVotes (cluster : Cluster n) : RaftCall n → Prop
  | .tick deltaMs => TickKeepsVotes deltaMs (List.finRange n) cluster
  | .reconnect nodeId => ∀ node : Fin n, (node : Int) = nodeId →
      (cluster.nodes node).votedFor = none ∧ (cluster.nodes node).state ≠ .leader
  | _ => True

instance (cluster : Cluster n) (node voter : Fin n) : Decidable (KeepsVote cluster node voter) :=
  inferInstanceAs (Decidable (_ → _))

instance (deltaMs : UInt64) (cluster : Cluster n) (i : Fin n) :
    Decidable (PassKeepsVotes deltaMs cluster i) :=
  inferInstanceAs (Decidable (_ → _))

instance TickKeepsVotes.decidable (deltaMs : UInt64) : (visited : List (Fin n)) → (cluster : Cluster n) →
    Decidable (TickKeepsVotes deltaMs visited cluster)
  | [], _ => .isTrue trivial
  | i :: rest, cluster =>
    have := TickKeepsVotes.decidable deltaMs rest (raftTickNode deltaMs cluster i)
    inferInstanceAs (Decidable (_ ∧ _))

instance (cluster : Cluster n) : (call : RaftCall n) → Decidable (KeepsVotes cluster call)
  | .tick deltaMs => TickKeepsVotes.decidable deltaMs (List.finRange n) cluster
  | .reconnect nodeId => inferInstanceAs (Decidable (∀ node : Fin n, (node : Int) = nodeId → _))
  | .submit _ _ => .isTrue trivial
  | .isolate _ => .isTrue trivial

theorem raftTickNode_simulates (deltaMs : UInt64) (i : Fin n) (keeps : PassKeepsVotes deltaMs cluster i) :
    Simulates cluster (raftTickNode deltaMs cluster i) := by
  unfold raftTickNode
  split_ifs with inactive
  · exact .refl cluster
  cases state : (cluster.nodes i).state with
  | follower =>
    dsimp only
    have clock : Simulates cluster (cluster.modify i fun nd =>
        { nd with electionElapsedMs := nd.electionElapsedMs + deltaMs }) :=
      .clocks (Cluster.modify_clockless _ rfl)
    split_ifs
    · exact clock.trans (raftBecomeCandidate_simulates _ i)
    · exact clock
  | candidate =>
    dsimp only
    have clock : Simulates cluster (cluster.modify i fun nd =>
        { nd with electionElapsedMs := nd.electionElapsedMs + deltaMs }) :=
      .clocks (Cluster.modify_clockless _ rfl)
    have stands : ((cluster.modify i fun nd =>
        { nd with electionElapsedMs := nd.electionElapsedMs + deltaMs }).nodes i).state = .candidate := by
      rw [Cluster.modify_self]
      exact state
    have asks (early : ¬ (cluster.nodes i).electionElapsedMs + deltaMs ≥
        (cluster.nodes i).electionTimeoutMs) : ∀ voter, voter ≠ i → KeepsVote (cluster.modify i fun nd =>
          { nd with electionElapsedMs := nd.electionElapsedMs + deltaMs }) i voter := by
      intro voter different
      have kept := keeps (by simpa using inactive) state early voter different
      unfold KeepsVote raftRequestVoteRPC at kept ⊢
      rw [Cluster.modify_other _ _ different, Cluster.modify_self]
      exact kept
    split_ifs with timeout quorum
    · exact clock.trans (raftBecomeCandidate_simulates _ i)
    · rw [Cluster.modify_self] at timeout
      refine clock.trans ((raftSendRequestVote_simulates stands (asks timeout)).trans ?_)
      exact raftBecomeLeader_simulates ((raftSendRequestVote_state _ i).trans stands) quorum
    · rw [Cluster.modify_self] at timeout
      exact clock.trans (raftSendRequestVote_simulates stands (asks timeout))
  | leader =>
    dsimp only
    have clock : Simulates cluster (cluster.modify i fun nd =>
        { nd with heartbeatElapsedMs := nd.heartbeatElapsedMs + deltaMs }) :=
      .clocks (Cluster.modify_clockless _ rfl)
    have leads : ((cluster.modify i fun nd =>
        { nd with heartbeatElapsedMs := nd.heartbeatElapsedMs + deltaMs }).nodes i).state = .leader := by
      rw [Cluster.modify_self]
      exact state
    split_ifs
    · obtain ⟨heartbeat, stillLeads⟩ := raftSendHeartbeat_simulates leads
      refine clock.trans (heartbeat.trans ((raftSendAppendEntries_simulates stillLeads).trans ?_))
      exact .clocks (Cluster.modify_clockless _ rfl)
    · exact clock

theorem raftTick_simulates (deltaMs : UInt64) (visited : List (Fin n))
    (keeps : TickKeepsVotes deltaMs visited cluster) :
    Simulates cluster (visited.foldl (raftTickNode deltaMs) cluster) := by
  induction visited generalizing cluster with
  | nil => exact .refl cluster
  | cons i rest ih => exact (raftTickNode_simulates deltaMs i keeps.1).trans (ih keeps.2)

/-- A leader's new entry is an append of the protocol. -/
theorem raftSubmitCommand_simulates (leader : Fin n) (commandValue : Int) :
    Simulates cluster (raftSubmitCommand cluster leader commandValue).1 := by
  unfold raftSubmitCommand
  dsimp only
  split_ifs with refused full
  · exact .refl cluster
  · exact .refl cluster
  rw [not_not] at refused
  have appended : Simulates cluster (cluster.modify leader fun nd =>
      { nd with log := nd.log ++ [⟨nd.currentTerm, commandValue⟩] }) := by
    intro replicas safe refines
    have node := refines leader
    have elected : replicas.leader (replicas.term leader) = some leader := by
      rw [node.term]
      exact node.leading refused
    refine ⟨replicas.append leader commandValue, .single (.append leader commandValue elected), ?_⟩
    intro i
    by_cases same : i = leader
    · subst same
      rw [Cluster.modify_self]
      exact {
        term := node.term
        log := by simp [append, node.log, node.term]
        commit := node.commit
        room := by
          rw [List.length_append, List.length_singleton]
          omega
        voted := node.voted
        standing := node.standing
        leading := node.leading
        indices := by
          intro leads j
          have bounds := node.indices leads j
          rw [List.length_append, List.length_singleton]
          exact ⟨bounds.1, bounds.2.trans (Nat.le_succ _)⟩
        matched := by
          intro leads j different
          simpa [append, different] using node.matched leads j different
        own := by
          intro _
          simp [append, node.term, node.log] }
    · rw [Cluster.modify_other _ _ same]
      refine (refines i).frame rfl ?_ rfl rfl (Finset.Subset.refl _) Iff.rfl ?_
      · simp [append, same]
      · intro j
        by_cases target : j = leader
        · subst target
          by_cases here : (cluster.nodes i).currentTerm = replicas.term j
          · have bound := safe.acked_inside j (replicas.term j)
            rw [← safe.leader_log _ j elected rfl] at bound
            simp only [append, here, Function.update_self, List.length_append]
            omega
          · simp [append, here]
        · simp [append, target]
  exact appended.trans (raftSendAppendEntries_simulates (by rw [Cluster.modify_self]; exact refused))

/-- Reconnecting a node that has not voted in its term changes no ledger entry. -/
theorem raftReconnectNode_simulates (nodeId : Int)
    (keeps : ∀ node : Fin n, (node : Int) = nodeId →
      (cluster.nodes node).votedFor = none ∧ (cluster.nodes node).state ≠ .leader) :
    Simulates cluster (raftReconnectNode cluster nodeId) := by
  unfold raftReconnectNode
  split_ifs with range
  · generalize named : (⟨nodeId.toNat, by omega⟩ : Fin n) = node
    obtain ⟨unvoted, follows⟩ := keeps node (by rw [← named]; simp; omega)
    intro replicas safe refines
    refine ⟨replicas, .refl, ?_⟩
    intro i
    by_cases same : i = node
    · subst same
      have moved : NodeRefines replicas i
          { (cluster.nodes i).clockless with state := .follower, votedFor := none, votesReceived := 0 } := {
        term := (refines i).term
        log := (refines i).log
        commit := (refines i).commit
        room := (refines i).room
        voted := fun _ => ((refines i).voted follows).trans unvoted
        standing := by simp
        leading := by simp
        indices := by simp
        matched := by simp
        own := by simp }
      refine moved.clockless ?_
      simp [raftBecomeFollower, RaftNode.clockless]
    · dsimp only
      rw [raftBecomeFollower_other _ _ same, Cluster.modify_other _ _ same]
      exact refines i
  · exact .refl cluster

theorem raftStep_simulates (call : RaftCall n) (keeps : KeepsVotes cluster call) :
    Simulates cluster (raftStep cluster call) := by
  cases call with
  | tick deltaMs => exact raftTick_simulates deltaMs (List.finRange n) keeps
  | submit leader commandValue => exact raftSubmitCommand_simulates leader commandValue
  | isolate node =>
    simp only [raftStep, raftIsolateNode]
    exact .clocks (Cluster.modify_clockless _ rfl)
  | reconnect nodeId => exact raftReconnectNode_simulates nodeId keeps

private theorem initLoop_nodes (visited : List (Fin n)) (start : Cluster n)
    (initial : ∀ i, ∃ timeout, start.nodes i = raftInitNode n timeout) (i : Fin n) :
    ∃ timeout, (visited.foldl raftInitEntry start).nodes i = raftInitNode n timeout := by
  induction visited generalizing start with
  | nil => exact initial i
  | cons first rest ih =>
    rw [List.foldl_cons]
    refine ih (raftInitEntry start first) ?_
    intro j
    by_cases same : j = first
    · subst same
      exact ⟨(raftRandomTimeout start.seed).1, by simp [raftInitEntry]⟩
    · obtain ⟨timeout, node⟩ := initial j
      exact ⟨timeout, by simp [raftInitEntry, Cluster.modify, same, node]⟩

theorem raftInitCluster_refines (n : Nat) (seed : UInt64) :
    Refines (raftInitCluster n seed) Replicas.initial := by
  intro i
  obtain ⟨timeout, node⟩ := initLoop_nodes (List.finRange n)
    (⟨seed, fun _ => raftInitNode n 0⟩ : Cluster n) (fun _ => ⟨0, rfl⟩) i
  rw [raftInitCluster, node]
  constructor <;> simp [raftInitNode, Replicas.initial]

/-- A run that loses no vote stays inside the abstract protocol. -/
theorem raftRun_refines {seed : UInt64}
    (reached : Reaches raftStep KeepsVotes (raftInitCluster n seed) cluster) :
    ∃ replicas, Safe replicas ∧ Refines cluster replicas := by
  refine reached.invariant (motive := fun cluster => ∃ replicas, Safe replicas ∧ Refines cluster replicas)
    ⟨Replicas.initial, Safe.initial, raftInitCluster_refines n seed⟩ ?_
  rintro cluster call ⟨replicas, safe, refines⟩ keeps
  obtain ⟨next, moves, refinesNext⟩ := raftStep_simulates call keeps replicas safe refines
  exact ⟨next, safe.steps moves, refinesNext⟩

/-- No two nodes lead the same term. -/
def ElectionSafe (cluster : Cluster n) : Prop :=
  ∀ i j, (cluster.nodes i).state = .leader → (cluster.nodes j).state = .leader →
    (cluster.nodes i).currentTerm = (cluster.nodes j).currentTerm → i = j

/-- Nodes agree on every entry both have committed, and commit only what they hold. -/
def StateMachineSafe (cluster : Cluster n) : Prop :=
  (∀ i j k, 1 ≤ k → k ≤ min (cluster.nodes i).commitIndex (cluster.nodes j).commitIndex →
    (cluster.nodes i).log[k - 1]? = (cluster.nodes j).log[k - 1]?) ∧
  ∀ i, (cluster.nodes i).commitIndex ≤ (cluster.nodes i).log.length

/-- Election safety of every run in which no vote is counted twice or forgotten. -/
theorem electionSafe_of_keepsVotes (n : Nat) (seed : UInt64) (cluster : Cluster n)
    (reached : Reaches raftStep KeepsVotes (raftInitCluster n seed) cluster) :
    ElectionSafe cluster := by
  obtain ⟨replicas, _, refines⟩ := raftRun_refines reached
  intro i j leads alsoLeads same
  have first := (refines i).leading leads
  have second := (refines j).leading alsoLeads
  rw [same] at first
  exact Option.some.inj (first.symm.trans second)

/-- A node wins its election, is isolated and leads on. -/
def quietElection : List (RaftCall 3) := [.tick 160, .tick 0, .submit 0 7, .isolate 2, .tick 60]

theorem electionSafe_quietElection :
    ((quietElection.foldl raftStep (raftInitCluster 3 2)).nodes 0).state = .leader ∧
      ElectionSafe (quietElection.foldl raftStep (raftInitCluster 3 2)) :=
  ⟨by decide +kernel, electionSafe_of_keepsVotes 3 2 _ (.ofCalls quietElection (by decide +kernel))⟩

/-- Two candidates of one term: the first to win clears its own vote and then
votes for the second. -/
theorem election_unsafe : ¬ ∀ (n : Nat) (seed : UInt64) (cluster : Cluster n), 1 ≤ n → n ≤ 8 →
    Reaches raftStep Always (raftInitCluster n seed) cluster → ElectionSafe cluster := by
  intro safe
  have two := safe 3 2 _ (by decide) (by decide) (.ofFold [.tick 200, .tick 0])
  exact absurd (two 0 1 (by decide +kernel) (by decide +kernel) (by decide +kernel)) (by decide)

/-- State-machine safety of every run in which no vote is counted twice or forgotten. -/
theorem stateMachineSafe_of_keepsVotes (n : Nat) (seed : UInt64) (cluster : Cluster n)
    (reached : Reaches raftStep KeepsVotes (raftInitCluster n seed) cluster) :
    StateMachineSafe cluster := by
  obtain ⟨replicas, safe, refines⟩ := raftRun_refines reached
  constructor
  · intro i j k positive bound
    rw [← (refines i).commit, ← (refines j).commit] at bound
    rw [← (refines i).log, ← (refines j).log]
    exact safe.commit_agree (by omega) (by omega)
  · intro i
    have settled := (safe.settled i).1
    rwa [(refines i).commit, (refines i).log] at settled

theorem stateMachineSafe_quietElection :
    ((quietElection.foldl raftStep (raftInitCluster 3 2)).nodes 0).commitIndex = 1 ∧
      StateMachineSafe (quietElection.foldl raftStep (raftInitCluster 3 2)) :=
  ⟨by decide +kernel, stateMachineSafe_of_keepsVotes 3 2 _ (.ofCalls quietElection (by decide +kernel))⟩

/-- Commands are only submitted to nodes that lead. -/
def SubmitsToLeader (cluster : Cluster n) : RaftCall n → Prop
  | .submit leader _ => (cluster.nodes leader).state = .leader
  | _ => True

instance (cluster : Cluster n) : (call : RaftCall n) → Decidable (SubmitsToLeader cluster call)
  | .submit leader _ => inferInstanceAs (Decidable ((cluster.nodes leader).state = .leader))
  | .tick _ => .isTrue trivial
  | .isolate _ => .isTrue trivial
  | .reconnect _ => .isTrue trivial

/-- Two leaders of one term: an isolated one still commits its own entry. -/
def splitTerm : List (RaftCall 3) := [.tick 200, .tick 0, .isolate 1, .submit 0 10, .submit 1 20]

theorem stateMachine_unsafe : ¬ ∀ (n : Nat) (seed : UInt64) (cluster : Cluster n),
    Reaches raftStep SubmitsToLeader (raftInitCluster n seed) cluster → StateMachineSafe cluster := by
  intro safe
  have agree := (safe 3 2 _ (.ofCalls splitTerm (by decide +kernel))).1 0 1 1 (by decide)
    (by decide +kernel)
  revert agree
  decide +kernel

end MiniNetDist.DistProtocol.Raft
