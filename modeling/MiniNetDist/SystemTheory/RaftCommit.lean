import MiniNetDist.SystemTheory.RaftElection

/-! State-machine safety of the message-passing Raft. `raft_client_submit` appends
to the log of the node named by `leader_id` and does not ask whether that node
leads; two nodes of one term can then hold different entries of it, and both get
committed. If every submission finds a leader under that name, commit indices
rest on entries of the current term that no other node has acknowledged, since
`raft_build_append_entries` sends none. -/

namespace MiniNetDist.SystemTheory.Raft

open Library

variable {n : Nat} {rc : RaftCluster n} {messages : List (RaftMessage n)} {m : RaftMessage n}
  {nd other : RaftNode n} {nid : Fin n} {rand : Nat → Nat} {position : Int}

/-- The log reaches `position`, and up to there it has no entry of the current term. -/
def Settled (nd : RaftNode n) (position : Int) : Prop :=
  position < nd.log.length ∧ ∀ entry ∈ nd.log.take (position + 1).toNat, entry.term < nd.currentTerm

def Grows (nd other : RaftNode n) : Prop :=
  nd.log <+: other.log ∧ nd.currentTerm ≤ other.currentTerm

theorem Grows.refl (nd : RaftNode n) : Grows nd nd := ⟨List.prefix_refl _, le_rfl⟩

theorem Settled.grow (settled : Settled nd position) (grows : Grows nd other) : Settled other position := by
  obtain ⟨⟨added, longer⟩, later⟩ := grows
  obtain ⟨inside, old⟩ := settled
  constructor
  · rw [← longer, List.length_append]
    omega
  · intro entry present
    rw [← longer, List.take_append_of_le_length (by omega)] at present
    exact (old entry present).trans_le later

theorem Settled.below {lower : Int} (settled : Settled nd position) (le : lower ≤ position) :
    Settled nd lower := by
  obtain ⟨inside, old⟩ := settled
  refine ⟨by omega, ?_⟩
  intro entry present
  exact old entry ((List.take_subset_take_left nd.log (by omega)) present)

theorem Settled.empty (nd : RaftNode n) : Settled nd (-1) := by
  constructor
  · omega
  · intro entry present
    simp at present

/-- An entry of the current term lies beyond every settled position. -/
theorem Settled.lt_of_current {index : Nat} (settled : Settled nd position)
    (current : (nd.log[index]?.map (·.term)) = some nd.currentTerm) : position < index := by
  by_contra covered
  obtain ⟨entry, found, term⟩ := Option.map_eq_some_iff.mp current
  have inside : index < (position + 1).toNat := by omega
  have taken : entry ∈ nd.log.take (position + 1).toNat := by
    apply List.mem_of_getElem?
    rw [List.getElem?_take_of_lt inside]
    exact found
  have earlier := settled.2 entry taken
  omega

/-- What guarded runs keep true of every node: entries of the current term exist on
leaders only, and nobody else has acknowledged one. -/
structure NodeDormant (owner : Fin n) (nd : RaftNode n) : Prop where
  terms : ∀ entry ∈ nd.log, entry.term ≤ nd.currentTerm
  fresh : nd.role ≠ .leader → ∀ entry ∈ nd.log, entry.term < nd.currentTerm
  next : ∀ j, j ≠ owner → Settled nd (nd.nextIndex j - 1)
  matched : ∀ j, j ≠ owner → Settled nd (nd.matchIndex j)
  floor : -1 ≤ nd.commitIndex
  bounded : nd.commitIndex < nd.log.length
  idle : n ≠ 1 → nd.commitIndex = -1

/-- Messages in flight promise no more than the nodes they are about. -/
structure MessageDormant (nodes : Fin n → RaftNode n) (m : RaftMessage n) : Prop where
  command : m.type ≠ .clientCommand
  empty : m.entries = []
  commit : m.type = .appendEntries → m.leaderCommit = -1
  probe : m.type = .appendEntries → Settled (nodes m.sender) m.prevLogIndex
  ack : m.type = .appendEntriesReply → m.success = true → Settled (nodes m.receiver) m.matchIndexReply

structure Dormant (rc : RaftCluster n) (messages : List (RaftMessage n)) : Prop where
  nodes : ∀ i, NodeDormant i (rc.nodes i)
  sent : ∀ m ∈ rc.messageQueue ++ messages, MessageDormant rc.nodes m

/-- A node that keeps its log and its counters stays dormant if its entries fit its term. -/
theorem NodeDormant.frame (dormant : NodeDormant nid nd) (term : nd.currentTerm ≤ other.currentTerm)
    (terms : ∀ entry ∈ other.log, entry.term ≤ other.currentTerm)
    (fresh : other.role ≠ .leader → ∀ entry ∈ other.log, entry.term < other.currentTerm) (log : other.log = nd.log)
    (next : other.nextIndex = nd.nextIndex) (matched : other.matchIndex = nd.matchIndex)
    (commit : other.commitIndex = nd.commitIndex) : NodeDormant nid other := by
  have grows : Grows nd other := ⟨by rw [log], term⟩
  refine ⟨terms, fresh, ?_, ?_, ?_, ?_, ?_⟩
  · rw [next]; exact fun j different => (dormant.next j different).grow grows
  · rw [matched]; exact fun j different => (dormant.matched j different).grow grows
  · rw [commit]; exact dormant.floor
  · rw [commit, log]; exact dormant.bounded
  · rw [commit]; exact dormant.idle

theorem NodeDormant.same (dormant : NodeDormant nid nd) (role : other.role ≠ .leader → nd.role ≠ .leader)
    (term : other.currentTerm = nd.currentTerm) (log : other.log = nd.log)
    (next : other.nextIndex = nd.nextIndex) (matched : other.matchIndex = nd.matchIndex)
    (commit : other.commitIndex = nd.commitIndex) : NodeDormant nid other := by
  apply dormant.frame (Nat.le_of_eq term.symm) ?_ ?_ log next matched commit
  · rw [log, term]; exact dormant.terms
  · rw [log, term]; exact fun idle => dormant.fresh (role idle)

/-- Entering a later term leaves no entry of the current one. -/
theorem NodeDormant.advance (dormant : NodeDormant nid nd) (later : nd.currentTerm < other.currentTerm)
    (log : other.log = nd.log) (next : other.nextIndex = nd.nextIndex)
    (matched : other.matchIndex = nd.matchIndex) (commit : other.commitIndex = nd.commitIndex) :
    NodeDormant nid other := by
  have old : ∀ entry ∈ other.log, entry.term < other.currentTerm := by
    rw [log]
    exact fun entry present => (dormant.terms entry present).trans_lt later
  exact dormant.frame later.le (fun entry present => (old entry present).le) (fun _ => old) log next matched commit

theorem MessageDormant.grow {nodes later : Fin n → RaftNode n} (dormant : MessageDormant nodes m)
    (grows : ∀ i, Grows (nodes i) (later i)) : MessageDormant later m where
  command := dormant.command
  empty := dormant.empty
  commit := dormant.commit
  probe := fun type => (dormant.probe type).grow (grows _)
  ack := fun type success => (dormant.ack type success).grow (grows _)

theorem Dormant.modify (dormant : Dormant rc messages) {change : RaftNode n → RaftNode n}
    (node : NodeDormant nid (change (rc.nodes nid)))
    (grows : Grows (rc.nodes nid) (change (rc.nodes nid))) : Dormant (rc.modify nid change) messages := by
  constructor
  · intro i
    by_cases same : i = nid
    · subst same
      rw [RaftCluster.modify_self]
      exact node
    · rw [RaftCluster.modify_other _ _ same]
      exact dormant.nodes i
  · intro m present
    apply (dormant.sent m present).grow
    intro i
    by_cases same : i = nid
    · subst same
      rw [RaftCluster.modify_self]
      exact grows
    · rw [RaftCluster.modify_other _ _ same]
      exact .refl _

theorem Dormant.enqueue (dormant : Dormant rc messages) (sent : MessageDormant rc.nodes m) :
    Dormant (raftEnqueueMsg rc m) messages := by
  unfold raftEnqueueMsg
  split_ifs
  · exact dormant
  · refine ⟨dormant.nodes, ?_⟩
    intro message present
    simp only [List.append_assoc, List.singleton_append, List.mem_append, List.mem_cons] at present
    rcases present with queued | rfl | other
    · exact dormant.sent message (List.mem_append_left _ queued)
    · exact sent
    · exact dormant.sent message (List.mem_append_right _ other)

theorem Dormant.subset {after : RaftCluster n} {fewer : List (RaftMessage n)} (dormant : Dormant rc messages)
    (nodes : after.nodes = rc.nodes)
    (subset : after.messageQueue ++ fewer ⊆ rc.messageQueue ++ messages) : Dormant after fewer := by
  constructor
  · rw [nodes]
    exact dormant.nodes
  · rw [nodes]
    exact fun m present => dormant.sent m (subset present)

theorem Dormant.drop (dormant : Dormant rc (m :: messages)) : Dormant rc messages :=
  dormant.subset rfl ((List.sublist_cons_self m messages).append_left _).subset

theorem Dormant.delivered (dormant : Dormant rc (m :: messages)) : MessageDormant rc.nodes m :=
  dormant.sent m (List.mem_append_right _ List.mem_cons_self)

/-- Fields no log or index depends on. -/
theorem Dormant.restart (dormant : Dormant rc messages) {leaderId : Option (Fin n)}
    {simTimeMs randCalls : Nat} :
    Dormant { rc with leaderId, simTimeMs, randCalls } messages :=
  ⟨dormant.nodes, dormant.sent⟩

theorem raftResetDeadline_dormant (dormant : Dormant rc messages) :
    Dormant (raftResetDeadline rand rc nid) messages := by
  apply Dormant.modify
  · exact dormant.restart
  · exact (dormant.nodes nid).same id rfl rfl rfl rfl rfl
  · exact .refl _

theorem raftLeaderSendHeartbeats_dormant (dormant : Dormant rc messages) :
    Dormant (raftLeaderSendHeartbeats rc) messages := by
  unfold raftLeaderSendHeartbeats
  cases rc.leaderId with
  | none => exact dormant
  | some lid =>
    dsimp only
    induction List.finRange n generalizing rc with
    | nil => exact dormant
    | cons i rest ih =>
      rw [List.foldl_cons]
      split_ifs with self
      · exact ih dormant
      · apply ih
        apply dormant.enqueue
        have leader := dormant.nodes lid
        have several : n ≠ 1 := by
          rintro rfl
          exact self (Subsingleton.elim i lid)
        exact {
          command := by simp [raftBuildAppendEntries]
          empty := rfl
          commit := fun _ => leader.idle several
          probe := fun _ => leader.next i self
          ack := by simp [raftBuildAppendEntries] }

theorem raftBecomeFollower_dormant (dormant : Dormant rc messages) {term : Nat}
    (later : (rc.nodes nid).currentTerm < term) :
    Dormant (raftBecomeFollower rand rc nid term) messages := by
  apply raftResetDeadline_dormant
  apply dormant.modify
  · exact (dormant.nodes nid).advance later rfl rfl rfl rfl
  · exact ⟨List.prefix_refl _, later.le⟩

/-- A new leader knows that its followers may have all of its log, none of it of the
current term. -/
theorem raftBecomeLeader_dormant (dormant : Dormant rc messages)
    (stands : (rc.nodes nid).role = .candidate) : Dormant (raftBecomeLeader rc nid) messages := by
  unfold raftBecomeLeader
  apply raftLeaderSendHeartbeats_dormant
  have node := dormant.nodes nid
  apply Dormant.modify
  · exact dormant.restart
  · constructor
    · exact node.terms
    · intro idle; exact absurd rfl idle
    · intro j _
      constructor
      · dsimp only
        omega
      · intro entry present
        apply node.fresh (by rw [stands]; decide) entry
        exact List.mem_of_mem_take present
    · intro j _
      exact Settled.empty _
    · exact node.floor
    · exact node.bounded
    · exact node.idle
  · exact .refl _

theorem raftStartElection_dormant (dormant : Dormant rc messages) :
    Dormant (raftStartElection rand rc nid) messages := by
  unfold raftStartElection
  dsimp only
  generalize startedDef : raftResetDeadline rand (rc.modify nid fun nd =>
    { nd with
      role := .candidate
      currentTerm := nd.currentTerm + 1
      votedFor := some nid
      votesReceived := 1 }) nid = started
  have role : (started.nodes nid).role = .candidate := by
    rw [← startedDef]
    simp [raftResetDeadline]
  have standing : Dormant started messages := by
    rw [← startedDef]
    apply raftResetDeadline_dormant
    apply dormant.modify
    · exact (dormant.nodes nid).advance (Nat.lt_succ_self _) rfl rfl rfl rfl
    · exact ⟨List.prefix_refl _, Nat.le_succ _⟩
  have asking (visited : List (Fin n)) (rc : RaftCluster n) (dormant : Dormant rc messages) :
      Dormant (visited.foldl (fun rc i =>
        if i = nid then rc else raftEnqueueMsg rc (raftBuildRequestVote rc nid i)) rc) messages := by
    induction visited generalizing rc with
    | nil => exact dormant
    | cons i rest ih =>
      rw [List.foldl_cons]
      apply ih
      split_ifs
      · exact dormant
      · apply dormant.enqueue
        constructor <;> simp [raftBuildRequestVote]
  split_ifs
  · apply raftBecomeLeader_dormant (asking _ _ standing)
    rw [raftRequestVotes_nodes]
    exact role
  · exact asking _ _ standing

theorem raftTick_dormant (dormant : Dormant rc messages) : Dormant (raftTick rand rc) messages := by
  have passes (visited : List (Fin n)) (rc : RaftCluster n) (dormant : Dormant rc messages) :
      Dormant (visited.foldl (raftTickNode rand) rc) messages := by
    induction visited generalizing rc with
    | nil => exact dormant
    | cons i rest ih =>
      apply ih
      unfold raftTickNode
      split_ifs
      · exact dormant
      · exact raftResetDeadline_dormant (raftStartElection_dormant dormant)
      · exact dormant
  exact passes _ _ dormant.restart

theorem raftReachTerm_dormant (rand : Nat → Nat) (nid : Fin n) (dormant : Dormant rc messages) (term : Nat) :
    Dormant (if term > (rc.nodes nid).currentTerm then raftBecomeFollower rand rc nid term else rc)
      messages := by
  split_ifs with later
  · exact raftBecomeFollower_dormant dormant later
  · exact dormant

theorem raftBuildRequestVoteReply_dormant (nodes : Fin n → RaftNode n) (sender receiver : Fin n)
    (term : Nat) (granted : Bool) :
    MessageDormant nodes (raftBuildRequestVoteReply sender receiver term granted) := by
  constructor <;> simp [raftBuildRequestVoteReply]

theorem raftHandleRequestVote_dormant (dormant : Dormant rc messages) :
    Dormant (raftHandleRequestVote rand rc m) messages := by
  unfold raftHandleRequestVote
  by_cases stale : m.term < (rc.nodes m.receiver).currentTerm
  · rw [if_pos stale]
    exact dormant.enqueue (raftBuildRequestVoteReply_dormant _ _ _ _ _)
  rw [if_neg stale]
  have reachedDormant := raftReachTerm_dormant rand m.receiver dormant m.term
  revert reachedDormant
  generalize (if m.term > (rc.nodes m.receiver).currentTerm
    then raftBecomeFollower rand rc m.receiver m.term else rc) = reached
  intro reachedDormant
  dsimp only
  split_ifs
  · apply Dormant.enqueue _ (raftBuildRequestVoteReply_dormant _ _ _ _ _)
    apply raftResetDeadline_dormant
    apply reachedDormant.modify
    · exact (reachedDormant.nodes m.receiver).same id rfl rfl rfl rfl rfl
    · exact .refl _
  · exact reachedDormant.enqueue (raftBuildRequestVoteReply_dormant _ _ _ _ _)

theorem raftHandleRequestVoteReply_dormant (dormant : Dormant rc messages) :
    Dormant (raftHandleRequestVoteReply rand rc m) messages := by
  unfold raftHandleRequestVoteReply
  dsimp only
  have counted : Dormant (rc.modify m.receiver fun nd =>
      { nd with votesReceived := nd.votesReceived + 1 }) messages := by
    apply dormant.modify
    · exact (dormant.nodes m.receiver).same id rfl rfl rfl rfl rfl
    · exact .refl _
  split_ifs with later stale counts
  · exact raftBecomeFollower_dormant dormant later
  · exact dormant
  · apply raftBecomeLeader_dormant counted
    rw [RaftCluster.modify_self]
    exact counts.1
  · exact counted
  · exact dormant

theorem raftBuildAppendEntriesReply_dormant {nodes : Fin n → RaftNode n} {sender receiver : Fin n}
    {term : Nat} {success : Bool} {matchIdx : Int}
    (settled : success = true → Settled (nodes receiver) matchIdx) :
    MessageDormant nodes (raftBuildAppendEntriesReply sender receiver term success matchIdx) := by
  constructor
  · simp [raftBuildAppendEntriesReply]
  · rfl
  · simp [raftBuildAppendEntriesReply]
  · simp [raftBuildAppendEntriesReply]
  · exact fun _ => settled

/-- What the sender of a heartbeat has settled may be acknowledged to it. -/
theorem Dormant.acknowledge (dormant : Dormant rc (m :: messages)) (type : m.type = .appendEntries)
    {term : Nat} :
    Dormant (raftEnqueueMsg rc (raftBuildAppendEntriesReply m.receiver m.sender term true m.prevLogIndex))
      messages :=
  dormant.drop.enqueue (raftBuildAppendEntriesReply_dormant fun _ => dormant.delivered.probe type)

/-- A heartbeat carries no entries and commits nothing; a successful one is
acknowledged up to a settled position of its sender. -/
theorem raftHandleAppendEntries_dormant (dormant : Dormant rc (m :: messages))
    (type : m.type = .appendEntries) : Dormant (raftHandleAppendEntries rand rc m) messages := by
  have sent := dormant.delivered
  unfold raftHandleAppendEntries
  by_cases stale : m.term < (rc.nodes m.receiver).currentTerm
  · rw [if_pos stale]
    exact dormant.drop.enqueue (raftBuildAppendEntriesReply_dormant (by simp))
  rw [if_neg stale, sent.empty, sent.commit type]
  have heard : Dormant (raftResetDeadline rand rc m.receiver) (m :: messages) :=
    raftResetDeadline_dormant dormant
  have reachedDormant := raftReachTerm_dormant rand m.receiver heard m.term
  revert reachedDormant
  dsimp only [raftAppendLoop]
  generalize (if m.term > ((raftResetDeadline rand rc m.receiver).nodes m.receiver).currentTerm
    then raftBecomeFollower rand (raftResetDeadline rand rc m.receiver) m.receiver m.term
    else raftResetDeadline rand rc m.receiver) = reached
  intro reachedDormant
  have following : Dormant { reached.modify m.receiver fun nd =>
      { nd with role := if nd.role = .candidate then .follower else nd.role } with
        leaderId := some m.sender } (m :: messages) := by
    apply Dormant.restart
    apply reachedDormant.modify
    · refine (reachedDormant.nodes m.receiver).same ?_ rfl rfl rfl rfl rfl
      dsimp only
      split_ifs with candidate
      · intro _ leads
        rw [candidate] at leads
        cases leads
      · exact id
    · exact .refl _
  split
  · apply Dormant.acknowledge _ type
    have node := following.nodes m.receiver
    apply following.modify
    · exact node.same id rfl rfl rfl rfl (if_neg (not_lt.mpr node.floor))
    · exact .refl _
  · exact following.drop.enqueue (raftBuildAppendEntriesReply_dormant (by simp))

/-- The entries `raft_advance_commit` looks for are acknowledged by nobody else. -/
theorem raftReplicated_eq_one {lid : Fin n} {index : Nat} (node : NodeDormant lid (rc.nodes lid))
    (current : ((rc.nodes lid).log[index]?.map (·.term)) = some (rc.nodes lid).currentTerm) :
    raftReplicated rc lid index = 1 := by
  unfold raftReplicated
  induction List.finRange n with
  | nil => rfl
  | cons i rest ih =>
    rw [List.foldl_cons]
    by_cases self : i = lid
    · rw [if_pos self]
      exact ih
    · have beyond := (node.matched i self).lt_of_current current
      rw [if_neg self, if_neg (by omega)]
      exact ih

theorem raftAdvanceLoop_idle {lid : Fin n} (node : NodeDormant lid (rc.nodes lid)) (several : n ≠ 1)
    (rest index : Nat) (commitIndex : Int) :
    raftAdvanceLoop rc lid rest index commitIndex = commitIndex := by
  induction rest generalizing index with
  | zero => rfl
  | succ rest ih =>
    rw [raftAdvanceLoop]
    split_ifs with other enough
    · exact ih (index + 1)
    · rw [not_not] at other
      rw [raftReplicated_eq_one node other, raftQuorumSize] at enough
      have nodes : 0 < n := lid.pos
      omega
    · exact ih (index + 1)

theorem raftAdvanceLoop_bounds (lid : Fin n) (rest index : Nat) (commitIndex : Int)
    (floor : -1 ≤ commitIndex) (bounded : commitIndex < (rc.nodes lid).log.length)
    (inside : rest = 0 ∨ index + rest ≤ (rc.nodes lid).log.length) :
    -1 ≤ raftAdvanceLoop rc lid rest index commitIndex ∧
      raftAdvanceLoop rc lid rest index commitIndex < (rc.nodes lid).log.length := by
  induction rest generalizing index commitIndex with
  | zero => exact ⟨floor, bounded⟩
  | succ rest ih =>
    rw [raftAdvanceLoop]
    split_ifs
    · exact ih _ _ floor bounded (by omega)
    · exact ih _ _ (by omega) (by omega) (by omega)
    · exact ih _ _ floor bounded (by omega)

theorem raftAdvanceCommit_dormant (dormant : Dormant rc messages) (lid : Fin n) :
    Dormant (raftAdvanceCommit rc lid) messages := by
  have node := dormant.nodes lid
  apply dormant.modify
  · have bounds := raftAdvanceLoop_bounds lid
      ((rc.nodes lid).log.length - ((rc.nodes lid).commitIndex + 1).toNat)
      ((rc.nodes lid).commitIndex + 1).toNat (rc.nodes lid).commitIndex node.floor node.bounded (by omega)
    constructor
    · exact node.terms
    · exact node.fresh
    · exact node.next
    · exact node.matched
    · exact bounds.1
    · exact bounds.2
    · intro several
      dsimp only
      rw [raftAdvanceLoop_idle node several]
      exact node.idle several
  · exact .refl _

theorem raftHandleAppendEntriesReply_dormant (dormant : Dormant rc messages)
    (sent : MessageDormant rc.nodes m) (type : m.type = .appendEntriesReply) :
    Dormant (raftHandleAppendEntriesReply rand rc m) messages := by
  have node := dormant.nodes m.receiver
  unfold raftHandleAppendEntriesReply
  split_ifs with later idle success retry
  · exact (raftBecomeFollower_dormant dormant later).restart
  · exact dormant
  · apply raftAdvanceCommit_dormant
    have settled := sent.ack type success
    apply dormant.modify
    · constructor
      · exact node.terms
      · exact node.fresh
      · intro j different
        dsimp only
        split_ifs
        · exact settled.below (by omega)
        · exact node.next j different
      · intro j different
        dsimp only
        split_ifs
        · exact settled
        · exact node.matched j different
      · exact node.floor
      · exact node.bounded
      · exact node.idle
    · exact .refl _
  · apply dormant.modify
    · constructor
      · exact node.terms
      · exact node.fresh
      · intro j different
        dsimp only
        split_ifs
        · exact (node.next j different).below (by omega)
        · exact node.next j different
      · exact node.matched
      · exact node.floor
      · exact node.bounded
      · exact node.idle
    · exact .refl _
  · exact dormant

/-- A leader's own append is of its current term and past everything acknowledged. -/
theorem raftLeaderAppendEntry_dormant (dormant : Dormant rc messages) (cmd : Int)
    (leads : ∀ lid, rc.leaderId = some lid → (rc.nodes lid).role = .leader) :
    Dormant (raftLeaderAppendEntry rc cmd) messages := by
  unfold raftLeaderAppendEntry
  cases named : rc.leaderId with
  | none => exact dormant
  | some lid =>
    dsimp only
    split_ifs with full
    · exact dormant
    have node := dormant.nodes lid
    have grows : Grows (rc.nodes lid) { rc.nodes lid with
        log := (rc.nodes lid).log ++ [⟨(rc.nodes lid).currentTerm, cmd⟩] } :=
      ⟨List.prefix_append _ _, le_rfl⟩
    apply dormant.modify
    · constructor
      · intro entry present
        rcases List.mem_append.mp present with old | new
        · exact node.terms entry old
        · rw [List.mem_singleton.mp new]
      · intro idle
        exact absurd (leads lid named) idle
      · intro j different
        dsimp only
        rw [if_neg different]
        exact (node.next j different).grow grows
      · intro j different
        dsimp only
        rw [if_neg different]
        exact (node.matched j different).grow grows
      · exact node.floor
      · have bounded := node.bounded
        simp only [List.length_append, List.length_singleton]
        omega
      · exact node.idle
    · exact grows

/-- A client submission finds a node that leads under `leader_id`, or no name there. -/
def SubmitsToLeader (net : Network n) : RaftCall → Prop
  | .clientSubmit _ => ∀ lid, net.cluster.leaderId = some lid → (net.cluster.nodes lid).role = .leader
  | _ => True

theorem raftStep_dormant {net : Network n} (dormant : Dormant net.cluster net.inFlight) (call : RaftCall)
    (leads : SubmitsToLeader net call) :
    Dormant (raftStep rand net call).cluster (raftStep rand net call).inFlight := by
  cases call with
  | tick => exact raftTick_dormant dormant
  | clientSubmit cmd =>
    simp only [raftStep, raftClientSubmit]
    have appended := raftLeaderAppendEntry_dormant dormant cmd leads
    split
    · exact dormant
    · exact appended
  | sendHeartbeats => exact raftLeaderSendHeartbeats_dormant dormant
  | commitEntries =>
    simp only [raftStep, raftLeaderCommitEntries]
    split
    · exact dormant
    · exact raftAdvanceCommit_dormant dormant _
  | dequeue =>
    simp only [raftStep, raftDequeueMsg]
    cases queued : net.cluster.messageQueue with
    | nil => simpa using dormant
    | cons m rest =>
      refine dormant.subset rfl ?_
      intro message present
      rw [queued]
      simp only [Option.toList_some, List.mem_append, List.mem_cons, List.not_mem_nil, or_false] at present ⊢
      tauto
  | deliver position =>
    simp only [raftStep]
    split
    · exact dormant
    · rename_i m found
      have taken : Dormant net.cluster (m :: net.inFlight.eraseIdx position) := by
        obtain ⟨inside, rfl⟩ := List.getElem?_eq_some_iff.mp found
        exact dormant.subset rfl ((List.getElem_cons_eraseIdx_perm inside).append_left _).subset
      unfold raftProcessMessage
      cases type : m.type with
      | requestVote => exact raftHandleRequestVote_dormant taken.drop
      | requestVoteReply => exact raftHandleRequestVoteReply_dormant taken.drop
      | appendEntries => exact raftHandleAppendEntries_dormant taken type
      | appendEntriesReply => exact raftHandleAppendEntriesReply_dormant taken.drop taken.delivered type
      | clientCommand => exact absurd type taken.delivered.command
  | lose position =>
    exact dormant.subset rfl ((List.eraseIdx_sublist _ _).append_left _).subset

theorem raftInitNetwork_dormant (n : Int) :
    Dormant (raftInitNetwork rand n).cluster (raftInitNetwork rand n).inFlight := by
  constructor
  · intro i
    constructor
    · intro entry present; cases present
    · intro _ entry present; cases present
    · exact fun j _ => Settled.empty _
    · exact fun j _ => Settled.empty _
    · exact le_rfl
    · exact Int.negSucc_lt_zero 0
    · exact fun _ => rfl
  · intro m present
    cases present

/-- Two nodes hold the same command wherever both have committed. -/
def StateMachineSafe (rc : RaftCluster n) : Prop :=
  ∀ i j, ∀ k : Nat, (k : Int) ≤ (rc.nodes i).commitIndex → (k : Int) ≤ (rc.nodes j).commitIndex →
    ∃ command, (rc.nodes i).log[k]?.map (·.command) = some command ∧
      (rc.nodes j).log[k]?.map (·.command) = some command

theorem Dormant.stateMachineSafe (dormant : Dormant rc messages) : StateMachineSafe rc := by
  intro i j k first second
  by_cases several : n ≠ 1
  · have idle := (dormant.nodes i).idle several
    omega
  · rw [not_not] at several
    subst several
    obtain rfl : i = j := Subsingleton.elim i j
    have bounded := (dormant.nodes i).bounded
    have inside : k < (rc.nodes i).log.length := by omega
    rw [List.getElem?_eq_getElem inside]
    exact ⟨_, rfl, rfl⟩

/-- State-machine safety of every run whose submissions reach a leader. What is submitted stays on the leader then, as
`raft_build_append_entries` sends no entries, and a cluster of several nodes commits nothing (`Dormant`). -/
theorem stateMachineSafe_of_submitsToLeader (rand : Nat → Nat) (n : Int) (net : Network (raftNodeCount n))
    (reached : Reaches (raftStep rand) SubmitsToLeader (raftInitNetwork rand n) net) :
    StateMachineSafe net.cluster := by
  have dormant := reached.invariant (motive := fun net => Dormant net.cluster net.inFlight)
    (raftInitNetwork_dormant n) (fun _ call dormant leads => raftStep_dormant dormant call leads)
  exact dormant.stateMachineSafe

/-- A cluster of one elects itself and commits what it is given. -/
def soleCommit : List RaftCall := List.replicate 150 .tick ++ [.clientSubmit 7, .commitEntries]

instance (net : Network n) : (call : RaftCall) → Decidable (SubmitsToLeader net call)
  | .clientSubmit _ => inferInstanceAs (Decidable (∀ lid, net.cluster.leaderId = some lid → _))
  | .tick | .sendHeartbeats | .commitEntries | .dequeue | .deliver _ | .lose _ => .isTrue trivial

theorem stateMachineSafe_soleCommit :
    let net := soleCommit.foldl (raftStep fun _ => 0) (raftInitNetwork (fun _ => 0) 1)
    (net.cluster.nodes ⟨0, by decide⟩).commitIndex = 0 ∧ StateMachineSafe net.cluster :=
  ⟨by decide +kernel,
    stateMachineSafe_of_submitsToLeader _ 1 _ (.ofCalls soleCommit (by decide +kernel))⟩

def Network.wait (net : Network n) (ms : Nat) : Network n :=
  { net with cluster := { net.cluster with simTimeMs := net.cluster.simTimeMs + ms } }

/-- Every node leads or has more than `ms` left. -/
def Quiet (net : Network n) (ms : Nat) : Prop :=
  ∀ i, (net.cluster.nodes i).role = .leader ∨
    net.cluster.simTimeMs + ms < (net.cluster.nodes i).electionDeadlineMs

instance (net : Network n) (ms : Nat) : Decidable (Quiet net ms) :=
  inferInstanceAs (Decidable (∀ _, _ ∨ _))

theorem raftStep_tick_quiet {net : Network n} (quiet : Quiet net 1) : raftStep rand net .tick = net.wait 1 := by
  have passes (visited : List (Fin n)) :
      visited.foldl (raftTickNode rand) (net.wait 1).cluster = (net.wait 1).cluster := by
    induction visited with
    | nil => rfl
    | cons i rest ih =>
      have still : raftTickNode rand (net.wait 1).cluster i = (net.wait 1).cluster := by
        unfold raftTickNode
        rcases quiet i with leads | early
        · exact if_pos leads
        · have waits : ¬ (net.wait 1).cluster.simTimeMs ≥
              ((net.wait 1).cluster.nodes i).electionDeadlineMs := not_le.mpr early
          rw [if_neg waits, ite_self]
      rw [List.foldl_cons, still]
      exact ih
  exact congrArg (fun cluster => { net with cluster := cluster }) (passes (List.finRange n))

/-- Ticks that no node times out in only advance the clock. -/
theorem reaches_wait {start net : Network n} (ms : Nat) (quiet : Quiet net ms)
    (reached : Reaches (raftStep rand) Always start net) :
    Reaches (raftStep rand) Always start (net.wait ms) := by
  induction ms with
  | zero => exact reached
  | succ ms ih =>
    have before : Quiet net ms := fun i => (quiet i).imp_right (by omega)
    have last : Quiet (net.wait ms) 1 := fun i => (quiet i).imp_right (fun early => by
      simpa [Network.wait, Nat.add_assoc] using early)
    have ticked := (ih before).call .tick trivial
    rwa [raftStep_tick_quiet last] at ticked

def scheduledRand (k : Nat) : Nat := if k % 6 = 0 then 0 else 150

/-- Node 0 is elected in term 1; a heartbeat to node 2 stays in flight. -/
def termOne : Network 3 :=
  [.tick, .dequeue, .deliver 0, .dequeue, .dequeue, .deliver 1, .lose 0, .dequeue, .dequeue, .lose 0].foldl
    (raftStep scheduledRand) ((raftInitNetwork scheduledRand 3).wait 149)

/-- Node 1 is elected in term 2 by node 0. -/
def termTwo : Network 3 :=
  [.tick, .dequeue, .deliver 1, .dequeue, .dequeue, .dequeue, .dequeue, .deliver 4].foldl
    (raftStep scheduledRand) (termOne.wait 149)

/-- Node 0 stands in term 3 and gets the vote of node 1. One command goes to node 1, which
`leader_id` still names; the old heartbeat makes `leader_id` 0 again and another goes to node 0. Then
node 0 wins, takes the entry of node 1 for its own and both commit. -/
def termThree : Network 3 :=
  [.tick, .dequeue, .dequeue, .dequeue, .deliver 6, .clientSubmit 20, .deliver 0, .clientSubmit 10,
    .dequeue, .dequeue, .deliver 6, .dequeue, .dequeue, .deliver 7, .dequeue, .dequeue, .deliver 8,
    .sendHeartbeats, .dequeue, .deliver 8].foldl (raftStep scheduledRand) (termTwo.wait 149)

theorem staleLeader_unsafe : ∃ net : Network 3,
    Reaches (raftStep scheduledRand) Always (raftInitNetwork scheduledRand 3) net ∧
      ¬ StateMachineSafe net.cluster := by
  refine ⟨termThree, ?_, ?_⟩
  · have start : Quiet (raftInitNetwork scheduledRand 3) 149 := by decide +kernel
    have led : Quiet termOne 149 := by decide +kernel
    have replaced : Quiet termTwo 149 := by decide +kernel
    have first : Reaches (raftStep scheduledRand) Always (raftInitNetwork scheduledRand 3) termOne :=
      (reaches_wait 149 start .refl).trans (.ofFold _)
    have second : Reaches (raftStep scheduledRand) Always (raftInitNetwork scheduledRand 3) termTwo :=
      (reaches_wait 149 led first).trans (.ofFold _)
    exact (reaches_wait 149 replaced second).trans (.ofFold _)
  · intro safe
    obtain ⟨command, one, two⟩ := safe 0 1 0 (by decide +kernel) (by decide +kernel)
    have first : (termThree.cluster.nodes 0).log[0]?.map (·.command) = some 10 := by decide +kernel
    have second : (termThree.cluster.nodes 1).log[0]?.map (·.command) = some 20 := by decide +kernel
    rw [first] at one
    rw [second, ← one] at two
    cases two

end MiniNetDist.SystemTheory.Raft
