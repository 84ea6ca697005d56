import MiniNetDist.DistProtocol.Raft
import MiniNetDist.Library.ReplicationSafety

/-! Every handler of the Raft simulation is a sequence of moves of the abstract
replication protocol, as long as no vote is counted twice or forgotten. -/

namespace MiniNetDist.DistProtocol.Raft

open Library Library.Replicas

variable {n : Nat} {cluster : Cluster n} {replicas next : Replicas (Fin n) Int} {i j node : Fin n}
  {nd : RaftNode n}

@[simp] theorem Cluster.modify_self (cluster : Cluster n) (node : Fin n)
    (change : RaftNode n → RaftNode n) :
    (cluster.modify node change).nodes node = change (cluster.nodes node) := by
  simp [Cluster.modify]

theorem Cluster.modify_other (cluster : Cluster n) (change : RaftNode n → RaftNode n)
    (different : i ≠ node) : (cluster.modify node change).nodes i = cluster.nodes i := by
  simp [Cluster.modify, different]

/-- What a node's fields say about its member of the abstract protocol. Clocks
and the `active` flag are not part of it. -/
structure NodeRefines (replicas : Replicas (Fin n) Int) (i : Fin n) (nd : RaftNode n) : Prop where
  term : replicas.term i = nd.currentTerm
  log : replicas.log i = nd.log
  commit : replicas.commit i = nd.commitIndex
  room : nd.log.length ≤ RAFT_MAX_LOG_ENTRIES
  voted : nd.state ≠ .leader → replicas.ledger i nd.currentTerm = nd.votedFor
  standing : nd.state = .candidate →
    nd.votedFor = some i ∧ replicas.leader nd.currentTerm ≠ some i ∧
      nd.votesReceived ≤ (replicas.ledger.supporters nd.currentTerm i).card
  leading : nd.state = .leader → replicas.leader nd.currentTerm = some i
  indices : nd.state = .leader → ∀ j, 1 ≤ nd.nextIndex j ∧ nd.nextIndex j ≤ nd.log.length + 1
  matched : nd.state = .leader → ∀ j, j ≠ i → nd.matchIndex j ≤ replicas.acked j nd.currentTerm
  own : nd.state = .leader → nd.log.length ≤ replicas.acked i nd.currentTerm

def Refines (cluster : Cluster n) (replicas : Replicas (Fin n) Int) : Prop :=
  ∀ i, NodeRefines replicas i (cluster.nodes i)

/-- The fields the protocol depends on. -/
def RaftNode.clockless (nd : RaftNode n) : RaftNode n :=
  { nd with electionTimeoutMs := 0, electionElapsedMs := 0, heartbeatElapsedMs := 0, active := true }

theorem NodeRefines.clockless (refines : NodeRefines replicas i nd) {other : RaftNode n}
    (same : other.clockless = nd.clockless) : NodeRefines replicas i other := by
  have of : NodeRefines replicas i nd.clockless :=
    ⟨refines.term, refines.log, refines.commit, refines.room, refines.voted, refines.standing,
      refines.leading, refines.indices, refines.matched, refines.own⟩
  rw [← same] at of
  exact ⟨of.term, of.log, of.commit, of.room, of.voted, of.standing, of.leading, of.indices,
    of.matched, of.own⟩

/-- A node that does not lead has only its term, log and votes to match. -/
theorem NodeRefines.ofFollowing (follows : nd.state ≠ .leader) (term : replicas.term i = nd.currentTerm)
    (log : replicas.log i = nd.log) (commit : replicas.commit i = nd.commitIndex)
    (room : nd.log.length ≤ RAFT_MAX_LOG_ENTRIES) (voted : replicas.ledger i nd.currentTerm = nd.votedFor)
    (standing : nd.state = .candidate → nd.votedFor = some i ∧ replicas.leader nd.currentTerm ≠ some i ∧
      nd.votesReceived ≤ (replicas.ledger.supporters nd.currentTerm i).card) : NodeRefines replicas i nd where
  term := term
  log := log
  commit := commit
  room := room
  voted := fun _ => voted
  standing := standing
  leading := fun leads => absurd leads follows
  indices := fun leads => absurd leads follows
  matched := fun leads => absurd leads follows
  own := fun leads => absurd leads follows

/-- A node keeps refining its member when a move leaves that member alone and
loses neither supporters nor acknowledgements. -/
theorem NodeRefines.frame (refines : NodeRefines replicas i nd)
    (term : next.term i = replicas.term i) (log : next.log i = replicas.log i)
    (commit : next.commit i = replicas.commit i)
    (ledger : next.ledger i nd.currentTerm = replicas.ledger i nd.currentTerm)
    (support : replicas.ledger.supporters nd.currentTerm i ⊆ next.ledger.supporters nd.currentTerm i)
    (leader : next.leader nd.currentTerm = some i ↔ replicas.leader nd.currentTerm = some i)
    (acked : ∀ j, replicas.acked j nd.currentTerm ≤ next.acked j nd.currentTerm) :
    NodeRefines next i nd where
  term := term.trans refines.term
  log := log.trans refines.log
  commit := commit.trans refines.commit
  room := refines.room
  voted := fun follows => ledger.trans (refines.voted follows)
  standing := by
    intro stands
    obtain ⟨own, vacant, votes⟩ := refines.standing stands
    exact ⟨own, fun leads => vacant (leader.mp leads), votes.trans (Finset.card_le_card support)⟩
  leading := fun leads => leader.mpr (refines.leading leads)
  indices := refines.indices
  matched := fun leads j different => (refines.matched leads j different).trans (acked j)
  own := fun leads => (refines.own leads).trans (acked i)

/-- A cluster step matched by moves of the protocol from every safe state. -/
def Simulates (before after : Cluster n) : Prop :=
  ∀ replicas, Safe replicas → Refines before replicas →
    ∃ next, Steps replicas next ∧ Refines after next

theorem Simulates.refl (cluster : Cluster n) : Simulates cluster cluster :=
  fun replicas _ refines => ⟨replicas, .refl, refines⟩

theorem Simulates.trans {before middle after : Cluster n} (first : Simulates before middle)
    (second : Simulates middle after) : Simulates before after := by
  intro replicas safe refines
  obtain ⟨between, moves, refinesBetween⟩ := first replicas safe refines
  obtain ⟨next, rest, refinesNext⟩ := second between (safe.steps moves) refinesBetween
  exact ⟨next, moves.trans rest, refinesNext⟩

/-- A loop over nodes is simulated when every pass is, under a loop invariant. -/
theorem Simulates.fold {holds : Cluster n → Prop} {body : Cluster n → Fin n → Cluster n}
    (step : ∀ cluster i, holds cluster → Simulates cluster (body cluster i) ∧ holds (body cluster i))
    (visited : List (Fin n)) (initial : holds cluster) :
    Simulates cluster (visited.foldl body cluster) ∧ holds (visited.foldl body cluster) := by
  induction visited generalizing cluster with
  | nil => exact ⟨.refl _, initial⟩
  | cons i rest ih =>
    obtain ⟨first, kept⟩ := step cluster i initial
    obtain ⟨remaining, final⟩ := ih kept
    exact ⟨first.trans remaining, final⟩

/-- Changing only clocks and flags needs no move. -/
theorem Refines.clocks {after : Cluster n} (refines : Refines cluster replicas)
    (same : ∀ i, (after.nodes i).clockless = (cluster.nodes i).clockless) : Refines after replicas :=
  fun i => (refines i).clockless (same i)

theorem Simulates.clocks {after : Cluster n}
    (same : ∀ i, (after.nodes i).clockless = (cluster.nodes i).clockless) : Simulates cluster after :=
  fun replicas _ refines => ⟨replicas, .refl, refines.clocks same⟩

theorem Cluster.modify_clockless (change : RaftNode n → RaftNode n)
    (same : (change (cluster.nodes node)).clockless = (cluster.nodes node).clockless) :
    ∀ i, ((cluster.modify node change).nodes i).clockless = (cluster.nodes i).clockless := by
  intro i
  by_cases equal : i = node
  · subst equal; simpa using same
  · rw [Cluster.modify_other cluster change equal]

theorem raftBecomeFollower_self (cluster : Cluster n) (node : Fin n) (term : Nat) :
    ((raftBecomeFollower cluster node term).nodes node).clockless =
      { (cluster.nodes node).clockless with
        currentTerm := if term > (cluster.nodes node).currentTerm then term
          else (cluster.nodes node).currentTerm
        state := .follower, votedFor := none, votesReceived := 0 } := by
  simp [raftBecomeFollower, RaftNode.clockless]

theorem raftBecomeFollower_other (cluster : Cluster n) (term : Nat) (different : i ≠ node) :
    (raftBecomeFollower cluster node term).nodes i = cluster.nodes i := by
  simp [raftBecomeFollower, Cluster.modify, different]

theorem raftBecomeFollower_fields (cluster : Cluster n) (node : Fin n) {term : Nat}
    (higher : (cluster.nodes node).currentTerm < term) :
    ((raftBecomeFollower cluster node term).nodes node).currentTerm = term ∧
      ((raftBecomeFollower cluster node term).nodes node).state = .follower ∧
      ((raftBecomeFollower cluster node term).nodes node).votedFor = none := by
  simp [raftBecomeFollower, higher]

/-- Stepping down to a higher term only advances the member's term. -/
theorem raftBecomeFollower_refines {term : Nat} (safe : Safe replicas) (refines : Refines cluster replicas)
    (higher : (cluster.nodes node).currentTerm < term) :
    Refines (raftBecomeFollower cluster node term) (replicas.advance node term) := by
  intro i
  by_cases same : i = node
  · subst same
    have fresh : replicas.ledger i term = none := safe.unvoted (by rw [(refines i).term]; exact higher)
    have moved : NodeRefines (replicas.advance i term) i
        { (cluster.nodes i).clockless with
          currentTerm := term, state := .follower, votedFor := none, votesReceived := 0 } :=
      .ofFollowing (by simp) (by simp [advance]) (refines i).log (refines i).commit (refines i).room fresh
        (by simp)
    refine moved.clockless ?_
    rw [raftBecomeFollower_self, if_pos higher]
    rfl
  · rw [raftBecomeFollower_other cluster term same]
    refine (refines i).frame ?_ rfl rfl rfl (Finset.Subset.refl _) Iff.rfl fun _ => Nat.le_refl _
    simp [advance, same]

/-- Standing for election advances the term and casts the node's own vote. -/
theorem raftBecomeCandidate_simulates (cluster : Cluster n) (node : Fin n) :
    Simulates cluster (raftBecomeCandidate cluster node) := by
  intro replicas safe refines
  have term := (refines node).term
  have higher : replicas.term node < replicas.term node + 1 := Nat.lt_succ_self _
  have reached : (replicas.advance node (replicas.term node + 1)).term node = replicas.term node + 1 := by
    simp [advance]
  have fresh : replicas.ledger node (replicas.term node + 1) = none := safe.unvoted higher
  have unled : replicas.leader (replicas.term node + 1) ≠ some node := by
    intro leads
    have past := safe.leader_term _ node leads
    omega
  refine ⟨(replicas.advance node (replicas.term node + 1)).vote node node,
    (Relation.ReflTransGen.single (.advance node _ higher)).tail
      (.vote node node rfl (by rw [reached]; exact fresh) (UpToDate.refl _)), ?_⟩
  intro i
  by_cases same : i = node
  · subst same
    have moved : NodeRefines ((replicas.advance i (replicas.term i + 1)).vote i i) i
        { (cluster.nodes i).clockless with
          state := .candidate, currentTerm := (cluster.nodes i).currentTerm + 1,
          votedFor := some i, votesReceived := 1 } := by
      refine .ofFollowing (by simp) (by simp [vote, advance, term]) (refines i).log (refines i).commit
        (refines i).room ?_ fun _ => ⟨rfl, term ▸ unled, ?_⟩
      · simp only [vote, reached]
        rw [← term, Ledger.cast_self]
      · simp only [vote, reached]
        refine Finset.card_pos.mpr ⟨i, ?_⟩
        rw [Ledger.mem_supporters, ← term, Ledger.cast_self]
    refine moved.clockless ?_
    simp [raftBecomeCandidate, RaftNode.clockless]
  · have kept : (raftBecomeCandidate cluster node).nodes i = cluster.nodes i := by
      simp [raftBecomeCandidate, Cluster.modify, same]
    rw [kept]
    refine (refines i).frame ?_ rfl rfl ?_ ?_ Iff.rfl fun _ => Nat.le_refl _
    · simp [vote, advance, same]
    · simp only [vote, reached]
      rw [Ledger.cast_other (fun both => same both.1)]
      rfl
    · simp only [vote, reached]
      exact Ledger.supporters_cast_subset fresh

theorem raftVoteLogOk_iff (cluster : Cluster n) (node : Fin n) (nd : RaftNode n) :
    raftVoteLogOk nd (raftRequestVoteRPC cluster node) = true ↔
      UpToDate (cluster.nodes node).log nd.log := by
  simp [raftVoteLogOk, raftRequestVoteRPC, raftLastLogTerm, raftLastLogIndex, UpToDate]

/-- The handler's change at a voter and the candidate's count, as one update. -/
def raftGrantVote (cluster : Cluster n) (voter node : Fin n) : Cluster n :=
  (cluster.modify voter fun nd =>
    { nd with votedFor := some node, electionElapsedMs := 0 }).modify node fun nd =>
      { nd with votesReceived := nd.votesReceived + 1 }

/-- A first vote in the current term is one vote cast in the ledger. -/
theorem raftGrantVote_refines {voter : Fin n} (refines : Refines cluster replicas)
    (different : voter ≠ node) (stands : (cluster.nodes node).state = .candidate)
    (same : (cluster.nodes voter).currentTerm = (cluster.nodes node).currentTerm)
    (follows : (cluster.nodes voter).state ≠ .leader) (free : (cluster.nodes voter).votedFor = none)
    (newer : UpToDate (cluster.nodes node).log (cluster.nodes voter).log) :
    Steps replicas (replicas.vote voter node) ∧
      Refines (raftGrantVote cluster voter node) (replicas.vote voter node) := by
  have termVoter := (refines voter).term
  have termNode := (refines node).term
  have fresh : replicas.ledger voter (cluster.nodes voter).currentTerm = none :=
    ((refines voter).voted follows).trans free
  have voted : (replicas.vote voter node).ledger =
      replicas.ledger.cast voter (cluster.nodes voter).currentTerm node := by
    simp only [vote, termVoter]
  refine ⟨.single (.vote voter node ?_ ?_ ?_), ?_⟩
  · rw [termVoter, termNode, same]
  · rw [termVoter]; exact fresh
  · rw [(refines node).log, (refines voter).log]; exact newer
  intro i
  by_cases atVoter : i = voter
  · subst atVoter
    have kept : (raftGrantVote cluster i node).nodes i =
        { cluster.nodes i with votedFor := some node, electionElapsedMs := 0 } := by
      simp [raftGrantVote, Cluster.modify, different]
    rw [kept]
    have notStanding : (cluster.nodes i).state ≠ .candidate := by
      intro candidate
      have own := ((refines i).standing candidate).1
      rw [free] at own
      cases own
    exact .ofFollowing follows termVoter (refines i).log (refines i).commit (refines i).room
      (by rw [voted]; exact Ledger.cast_self) fun candidate => absurd candidate notStanding
  by_cases atNode : i = node
  · subst atNode
    have kept : (raftGrantVote cluster voter i).nodes i =
        { cluster.nodes i with votesReceived := (cluster.nodes i).votesReceived + 1 } := by
      simp [raftGrantVote, Cluster.modify, Ne.symm different]
    rw [kept]
    have notLeader : (cluster.nodes i).state ≠ .leader := by simp [stands]
    obtain ⟨own, vacant, votes⟩ := (refines i).standing stands
    refine .ofFollowing notLeader termNode (refines i).log (refines i).commit (refines i).room ?_
      fun _ => ⟨own, vacant, ?_⟩
    · rw [voted, Ledger.cast_other fun both => atVoter both.1]
      exact (refines i).voted notLeader
    · rw [voted, same, Ledger.card_supporters_cast (same ▸ fresh)]
      exact Nat.succ_le_succ votes
  · have kept : (raftGrantVote cluster voter node).nodes i = cluster.nodes i := by
      simp [raftGrantVote, Cluster.modify, atVoter, atNode]
    rw [kept]
    refine (refines i).frame rfl rfl rfl ?_ ?_ Iff.rfl fun _ => Nat.le_refl _
    · rw [voted, Ledger.cast_other fun both => atVoter both.1]
    · rw [voted]
      exact Ledger.supporters_cast_subset fresh

/-- Asking `voter` for its vote neither counts a vote a second time nor draws on
one that was forgotten: a node in the candidate's own term that leads, or that
already voted for it, refuses because its log is ahead. -/
def KeepsVote (cluster : Cluster n) (node voter : Fin n) : Prop :=
  (cluster.nodes voter).active = true →
    (cluster.nodes voter).currentTerm = (cluster.nodes node).currentTerm →
    (cluster.nodes voter).state = .leader ∨ (cluster.nodes voter).votedFor = some node →
    raftVoteLogOk (cluster.nodes voter) (raftRequestVoteRPC cluster node) = false

/-- A vote request changes the node it is sent to and no other. -/
theorem raftHandleRequestVote_other {voter : Fin n} (rpc : RequestVoteRPC n) (different : i ≠ voter) :
    (raftHandleRequestVote cluster voter rpc).1.nodes i = cluster.nodes i := by
  have entered : (if rpc.term > (cluster.nodes voter).currentTerm then raftBecomeFollower cluster voter rpc.term
      else cluster).nodes i = cluster.nodes i := by
    split
    · rw [raftBecomeFollower, Cluster.modify_other _ _ different]
    · rfl
  simp only [raftHandleRequestVote]
  generalize (if rpc.term > (cluster.nodes voter).currentTerm then raftBecomeFollower cluster voter rpc.term
    else cluster) = current at entered ⊢
  split_ifs
  · rfl
  · rw [Cluster.modify_other _ _ different]
    exact entered
  · exact entered
  · exact entered

/-- A vote request leaves the asking node's own protocol fields alone, apart from
its count, and touches no third node. -/
theorem raftRequestVoteFrom_frame (rpc : RequestVoteRPC n) (cluster : Cluster n) (voter node : Fin n) :
    (((raftRequestVoteFrom rpc node cluster voter).nodes node).state = (cluster.nodes node).state ∧
      ((raftRequestVoteFrom rpc node cluster voter).nodes node).currentTerm =
        (cluster.nodes node).currentTerm ∧
      ((raftRequestVoteFrom rpc node cluster voter).nodes node).log = (cluster.nodes node).log) ∧
    ∀ i, i ≠ node → i ≠ voter →
      (raftRequestVoteFrom rpc node cluster voter).nodes i = cluster.nodes i := by
  by_cases skipped : voter = node ∨ (cluster.nodes voter).active = false
  · rw [raftRequestVoteFrom, if_pos skipped]
    exact ⟨⟨rfl, rfl, rfl⟩, fun _ _ _ => rfl⟩
  · have different : node ≠ voter := fun same => skipped (.inl same.symm)
    rw [raftRequestVoteFrom, if_neg skipped]
    dsimp only
    split
    · rw [Cluster.modify_self, raftHandleRequestVote_other rpc different]
      refine ⟨⟨rfl, rfl, rfl⟩, ?_⟩
      intro i notNode notVoter
      rw [Cluster.modify_other _ _ notNode, raftHandleRequestVote_other rpc notVoter]
    · rw [raftHandleRequestVote_other rpc different]
      exact ⟨⟨rfl, rfl, rfl⟩, fun i _ notVoter => raftHandleRequestVote_other rpc notVoter⟩

/-- What one vote request can do once the voter is in the candidate's term. -/
theorem raftRequestVoteFrom_cases {voter : Fin n} (different : voter ≠ node)
    (active : (cluster.nodes voter).active = true) :
    let rpc := raftRequestVoteRPC cluster node
    let current := if (cluster.nodes node).currentTerm > (cluster.nodes voter).currentTerm
      then raftBecomeFollower cluster voter (cluster.nodes node).currentTerm else cluster
    let after := raftRequestVoteFrom rpc node cluster voter
    (after = cluster ∧ (cluster.nodes node).currentTerm < (cluster.nodes voter).currentTerm) ∨
      ((cluster.nodes voter).currentTerm ≤ (cluster.nodes node).currentTerm ∧
        (after = current ∨ after = raftGrantVote current voter node ∧
          ((current.nodes voter).votedFor = none ∨ (current.nodes voter).votedFor = some node) ∧
          raftVoteLogOk (current.nodes voter) rpc = true)) := by
  intro rpc current after
  have attended : ¬ (voter = node ∨ (cluster.nodes voter).active = false) := by simp [different, active]
  by_cases lower : (cluster.nodes node).currentTerm < (cluster.nodes voter).currentTerm
  · left
    refine ⟨?_, lower⟩
    simp only [after, rpc, raftRequestVoteFrom, attended, ↓reduceIte, raftHandleRequestVote,
      raftRequestVoteRPC, lower, Bool.false_eq_true, false_and]
  · right
    refine ⟨Nat.le_of_not_lt lower, ?_⟩
    have terms : (current.nodes voter).currentTerm = (cluster.nodes node).currentTerm := by
      by_cases higher : (cluster.nodes node).currentTerm > (cluster.nodes voter).currentTerm
      · simp [current, higher, raftBecomeFollower]
      · simp only [current, higher, ↓reduceIte]
        omega
    have candidate : current.nodes node = cluster.nodes node := by
      simp only [current]
      split_ifs
      · exact raftBecomeFollower_other cluster _ (Ne.symm different)
      · rfl
    by_cases free : (current.nodes voter).votedFor = none ∨ (current.nodes voter).votedFor = some node
    · by_cases newer : raftVoteLogOk (current.nodes voter) rpc = true
      · right
        refine ⟨?_, free, newer⟩
        have counted : ((current.modify voter fun nd =>
            { nd with votedFor := some node, electionElapsedMs := 0 }).nodes voter).currentTerm ≥
            ((current.modify voter fun nd =>
              { nd with votedFor := some node, electionElapsedMs := 0 }).nodes node).currentTerm := by
          rw [Cluster.modify_self, Cluster.modify_other _ _ (Ne.symm different), candidate]
          exact terms.ge
        simp only [after, raftRequestVoteFrom, attended, ↓reduceIte, raftHandleRequestVote]
        rw [show rpc.term = (cluster.nodes node).currentTerm from rfl,
          show rpc.candidateId = node from rfl, if_neg lower, if_pos free, if_pos newer]
        exact if_pos ⟨rfl, counted⟩
      · left
        simp only [after, raftRequestVoteFrom, attended, ↓reduceIte, raftHandleRequestVote]
        rw [show rpc.term = (cluster.nodes node).currentTerm from rfl,
          show rpc.candidateId = node from rfl, if_neg lower, if_pos free, if_neg newer]
        exact if_neg (by simp)
    · left
      simp only [after, raftRequestVoteFrom, attended, ↓reduceIte, raftHandleRequestVote]
      rw [show rpc.term = (cluster.nodes node).currentTerm from rfl,
        show rpc.candidateId = node from rfl, if_neg lower, if_neg free]
      exact if_neg (by simp)

theorem raftRequestVoteFrom_simulates {voter : Fin n}
    (stands : (cluster.nodes node).state = .candidate) (keeps : voter ≠ node → KeepsVote cluster node voter) :
    Simulates cluster (raftRequestVoteFrom (raftRequestVoteRPC cluster node) node cluster voter) := by
  intro replicas safe refines
  by_cases skipped : voter = node ∨ (cluster.nodes voter).active = false
  · simp only [raftRequestVoteFrom, skipped, ↓reduceIte]
    exact ⟨replicas, .refl, refines⟩
  have different : voter ≠ node := fun same => skipped (.inl same)
  have active : (cluster.nodes voter).active = true := by
    cases flag : (cluster.nodes voter).active with
    | true => rfl
    | false => exact absurd (.inr flag) skipped
  obtain ⟨unchanged, _⟩ | ⟨order, outcome⟩ := raftRequestVoteFrom_cases different active
  · rw [unchanged]
    exact ⟨replicas, .refl, refines⟩
  by_cases higher : (cluster.nodes node).currentTerm > (cluster.nodes voter).currentTerm
  · -- The voter steps down first and enters the term with no vote cast.
    simp only [higher, ↓reduceIte] at outcome
    have stepped := raftBecomeFollower_refines safe refines higher
    have moves : Steps replicas (replicas.advance voter (cluster.nodes node).currentTerm) :=
      .single (.advance voter _ (by rw [(refines voter).term]; exact higher))
    obtain ⟨reached, follower, unvoted⟩ := raftBecomeFollower_fields cluster voter higher
    have candidate := raftBecomeFollower_other cluster (cluster.nodes node).currentTerm (Ne.symm different)
    rcases outcome with same | ⟨granted, _, newer⟩
    · rw [same]
      exact ⟨_, moves, stepped⟩
    · rw [granted]
      obtain ⟨cast, final⟩ := raftGrantVote_refines stepped different (by rw [candidate]; exact stands)
        (by rw [candidate]; exact reached) (by rw [follower]; decide) unvoted
        (by rw [candidate]; exact (raftVoteLogOk_iff cluster node _).mp newer)
      exact ⟨_, moves.trans cast, final⟩
  · simp only [higher, ↓reduceIte] at outcome
    rcases outcome with same | ⟨granted, free, newer⟩
    · rw [same]
      exact ⟨replicas, .refl, refines⟩
    · have terms : (cluster.nodes voter).currentTerm = (cluster.nodes node).currentTerm := by omega
      have guard := keeps different active terms
      have follows : (cluster.nodes voter).state ≠ .leader := by
        intro leads
        rw [guard (.inl leads)] at newer
        cases newer
      have unvoted : (cluster.nodes voter).votedFor = none := by
        rcases free with none | own
        · exact none
        · rw [guard (.inr own)] at newer
          cases newer
      rw [granted]
      obtain ⟨cast, final⟩ := raftGrantVote_refines refines different stands terms follows unvoted
        ((raftVoteLogOk_iff cluster node _).mp newer)
      exact ⟨_, cast, final⟩

/-- The requests to the nodes still to be asked, in the state reached so far. -/
private theorem raftRequestVotes_simulates (asked : List (Fin n)) (distinct : asked.Nodup)
    (stands : (cluster.nodes node).state = .candidate)
    (keeps : ∀ voter ∈ asked, voter ≠ node → KeepsVote cluster node voter) :
    Simulates cluster
      (asked.foldl (raftRequestVoteFrom (raftRequestVoteRPC cluster node) node) cluster) := by
  induction asked generalizing cluster with
  | nil => exact .refl cluster
  | cons voter rest ih =>
    obtain ⟨fresh, distinctRest⟩ := List.nodup_cons.mp distinct
    have first := raftRequestVoteFrom_simulates stands (keeps voter (by simp))
    obtain ⟨⟨state, term, log⟩, others⟩ :=
      raftRequestVoteFrom_frame (raftRequestVoteRPC cluster node) cluster voter node
    -- The candidate sends the same request all along, and later voters are untouched.
    have request : raftRequestVoteRPC
        (raftRequestVoteFrom (raftRequestVoteRPC cluster node) node cluster voter) node =
        raftRequestVoteRPC cluster node := by
      simp only [raftRequestVoteRPC, raftLastLogIndex, raftLastLogTerm] at term log ⊢
      rw [term, log]
    have remaining := ih distinctRest (state.trans stands) (by
      intro other member notNode
      have untouched := others other notNode (by rintro rfl; exact fresh member)
      have kept := keeps other (by simp [member]) notNode
      unfold KeepsVote at kept ⊢
      rw [request, untouched, term]
      exact kept)
    rw [request] at remaining
    exact first.trans remaining

/-- A whole round of vote requests. -/
theorem raftSendRequestVote_simulates (stands : (cluster.nodes node).state = .candidate)
    (keeps : ∀ voter, voter ≠ node → KeepsVote cluster node voter) :
    Simulates cluster (raftSendRequestVote cluster node) :=
  raftRequestVotes_simulates (List.finRange n) (List.nodup_finRange n) stands fun voter _ => keeps voter

theorem raftSendRequestVote_state (cluster : Cluster n) (node : Fin n) :
    ((raftSendRequestVote cluster node).nodes node).state = (cluster.nodes node).state := by
  unfold raftSendRequestVote
  generalize raftRequestVoteRPC cluster node = rpc
  induction List.finRange n generalizing cluster with
  | nil => rfl
  | cons voter rest ih =>
    rw [List.foldl_cons, ih]
    exact (raftRequestVoteFrom_frame rpc cluster voter node).1.1

/-- A candidate with a quorum of counted votes wins its vacant term. -/
theorem raftBecomeLeader_simulates (stands : (cluster.nodes node).state = .candidate)
    (quorum : (cluster.nodes node).votesReceived ≥ raftQuorumSize n) :
    Simulates cluster (raftBecomeLeader cluster node) := by
  intro replicas safe refines
  have term := (refines node).term
  obtain ⟨_, unled, votes⟩ := (refines node).standing stands
  have won : Majority (replicas.ledger.supporters (cluster.nodes node).currentTerm node) := by
    refine Majority.of_quorum ?_
    simp only [raftQuorumSize, Fintype.card_fin] at quorum ⊢
    omega
  have vacant : replicas.leader (cluster.nodes node).currentTerm = none := by
    cases elected : replicas.leader (cluster.nodes node).currentTerm with
    | none => rfl
    | some other =>
      have same := safe.leader_unique elected won
      rw [elected, same] at unled
      exact absurd rfl unled
  refine ⟨replicas.elect node, .single (.elect node (by rw [term]; exact vacant) (by rw [term]; exact won)), ?_⟩
  intro i
  by_cases same : i = node
  · subst same
    have moved : NodeRefines (replicas.elect i) i
        { cluster.nodes i with
          state := .leader, votedFor := none, votesReceived := 0,
          nextIndex := fun _ => (cluster.nodes i).log.length + 1, matchIndex := fun _ => 0,
          heartbeatElapsedMs := 0 } := {
      term := term
      log := (refines i).log
      commit := (refines i).commit
      room := (refines i).room
      voted := by simp
      standing := by simp
      leading := by
        intro _
        simp [elect, term]
      indices := by
        intro _ j
        exact ⟨Nat.le_add_left 1 _, Nat.le_refl _⟩
      matched := fun _ j _ => Nat.zero_le _
      own := by
        intro _
        simp [elect, term, (refines i).log] }
    simpa [raftBecomeLeader] using moved
  · have kept : (raftBecomeLeader cluster node).nodes i = cluster.nodes i := by
      simp [raftBecomeLeader, Cluster.modify, same]
    rw [kept]
    refine (refines i).frame rfl rfl rfl rfl (Finset.Subset.refl _) ?_ ?_
    · by_cases here : (cluster.nodes i).currentTerm = (cluster.nodes node).currentTerm
      · simp [elect, term, here, vacant, Ne.symm same]
      · simp [elect, term, here]
    · intro j
      by_cases winner : j = node
      · subst winner
        by_cases here : (cluster.nodes i).currentTerm = (cluster.nodes j).currentTerm
        · have none := safe.acked_inside j (cluster.nodes i).currentTerm
          rw [here, safe.vacant _ vacant] at none
          simp only [List.length_nil, Nat.le_zero_eq] at none
          rw [here, none]
          exact Nat.zero_le _
        · simp [elect, term, here]
      · simp [elect, winner]

end MiniNetDist.DistProtocol.Raft
