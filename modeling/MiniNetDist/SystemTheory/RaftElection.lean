import MiniNetDist.Library.Ballot
import MiniNetDist.Library.Run
import MiniNetDist.SystemTheory.Raft

/-! Election safety of the message-passing Raft. `votes_received` is a bare
counter, so the proof carries a poll beside the cluster: a vote request and the
granted reply to it are one ballot, and every message is delivered at most once. -/

namespace MiniNetDist.SystemTheory.Raft

open Library

variable {n : Nat} {rc after : RaftCluster n} {messages : List (RaftMessage n)} {m : RaftMessage n}
  {poll next : Poll (Fin n)} {nd : RaftNode n} {i nid : Fin n} {rand : Nat → Nat}

@[simp] theorem RaftCluster.modify_self (rc : RaftCluster n) (nid : Fin n)
    (change : RaftNode n → RaftNode n) : (rc.modify nid change).nodes nid = change (rc.nodes nid) := by
  simp [RaftCluster.modify]

theorem RaftCluster.modify_other (rc : RaftCluster n) (change : RaftNode n → RaftNode n)
    (different : i ≠ nid) : (rc.modify nid change).nodes i = rc.nodes i := by
  simp [RaftCluster.modify, different]

@[simp] theorem RaftCluster.modify_messageQueue (rc : RaftCluster n) (change : RaftNode n → RaftNode n) :
    (rc.modify nid change).messageQueue = rc.messageQueue := rfl

@[simp] theorem RaftCluster.modify_leaderId (rc : RaftCluster n) (change : RaftNode n → RaftNode n) :
    (rc.modify nid change).leaderId = rc.leaderId := rfl

@[simp] theorem raftEnqueueMsg_nodes (rc : RaftCluster n) (m : RaftMessage n) :
    (raftEnqueueMsg rc m).nodes = rc.nodes := by
  unfold raftEnqueueMsg
  split_ifs <;> rfl

@[simp] theorem raftEnqueueMsg_leaderId (rc : RaftCluster n) (m : RaftMessage n) :
    (raftEnqueueMsg rc m).leaderId = rc.leaderId := by
  unfold raftEnqueueMsg
  split_ifs <;> rfl

@[simp] theorem raftResetDeadline_messageQueue (rc : RaftCluster n) :
    (raftResetDeadline rand rc nid).messageQueue = rc.messageQueue := rfl

@[simp] theorem raftResetDeadline_leaderId (rc : RaftCluster n) :
    (raftResetDeadline rand rc nid).leaderId = rc.leaderId := rfl

/-- The fields an election depends on. -/
def RaftNode.electoral (nd : RaftNode n) : RaftRole × Nat × Option (Fin n) × Nat :=
  (nd.role, nd.currentTerm, nd.votedFor, nd.votesReceived)

theorem RaftCluster.modify_electoral (rc : RaftCluster n) (change : RaftNode n → RaftNode n)
    (same : (change (rc.nodes nid)).electoral = (rc.nodes nid).electoral) (i : Fin n) :
    ((rc.modify nid change).nodes i).electoral = (rc.nodes i).electoral := by
  by_cases equal : i = nid
  · subst equal; simpa using same
  · rw [RaftCluster.modify_other rc change equal]

theorem raftResetDeadline_electoral (rc : RaftCluster n) (i : Fin n) :
    ((raftResetDeadline rand rc nid).nodes i).electoral = (rc.nodes i).electoral :=
  RaftCluster.modify_electoral { rc with randCalls := rc.randCalls + 1 } _ rfl i

/-- The ballot a message carries, if it is part of an election. -/
def RaftMessage.ballot (m : RaftMessage n) : Option (Ballot (Fin n)) :=
  match m.type with
  | .requestVote => some ⟨m.sender, m.receiver, m.term, false⟩
  | .requestVoteReply => if m.voteGranted then some ⟨m.receiver, m.sender, m.term, true⟩ else none
  | _ => none

def ballots (messages : List (RaftMessage n)) : Multiset (Ballot (Fin n)) :=
  messages.filterMap RaftMessage.ballot

theorem ballots_append (first second : List (RaftMessage n)) :
    ballots (first ++ second) = ballots first + ballots second := by
  simp [ballots]

theorem ballots_cons (m : RaftMessage n) (rest : List (RaftMessage n)) :
    ballots (m :: rest) = ballots [m] + ballots rest := ballots_append [m] rest

theorem ballots_neutral (neutral : m.ballot = none) : ballots [m] = 0 := by
  simp [ballots, neutral]

theorem ballots_carried {ballot : Ballot (Fin n)} (carried : m.ballot = some ballot)
    (queue rest : List (RaftMessage n)) :
    ballots (queue ++ m :: rest) = ballot ::ₘ ballots (queue ++ rest) := by
  have moved : ballots (queue ++ m :: rest) = ballots (m :: (queue ++ rest)) :=
    Multiset.coe_eq_coe.mpr (List.perm_middle.filterMap _)
  rw [moved]
  simp [ballots, carried]

theorem ballots_perm {first second : List (RaftMessage n)} (perm : first.Perm second) :
    ballots first = ballots second :=
  Multiset.coe_eq_coe.mpr (perm.filterMap _)

theorem ballots_sublist {first second : List (RaftMessage n)} (sublist : first.Sublist second) :
    ballots first ≤ ballots second :=
  Multiset.coe_le.mpr (sublist.filterMap _).subperm

/-- What a node's fields say about its member of the poll. -/
structure NodePolled (poll : Poll (Fin n)) (i : Fin n) (nd : RaftNode n) : Prop where
  term : poll.term i = nd.currentTerm
  voted : poll.ledger i nd.currentTerm = nd.votedFor
  standing : nd.role = .candidate →
    nd.votedFor = some i ∧ nd.votesReceived ≤ (poll.counted i nd.currentTerm).card + 1
  leading : nd.role = .leader → Majority (poll.ledger.supporters nd.currentTerm i)

theorem NodePolled.electoral (polled : NodePolled poll i nd) {other : RaftNode n}
    (same : other.electoral = nd.electoral) : NodePolled poll i other := by
  simp only [RaftNode.electoral, Prod.mk.injEq] at same
  obtain ⟨role, term, votedFor, votesReceived⟩ := same
  constructor
  · rw [term]; exact polled.term
  · rw [term, votedFor]; exact polled.voted
  · rw [role, term, votedFor, votesReceived]; exact polled.standing
  · rw [role, term]; exact polled.leading

/-- A node is left alone by a move that keeps its term, its vote and what it has
counted, and takes no supporters away. -/
theorem NodePolled.frame (polled : NodePolled poll i nd) (term : next.term i = poll.term i)
    (voted : next.ledger i nd.currentTerm = poll.ledger i nd.currentTerm)
    (counted : next.counted i nd.currentTerm = poll.counted i nd.currentTerm)
    (support : poll.ledger.supporters nd.currentTerm i ⊆ next.ledger.supporters nd.currentTerm i) :
    NodePolled next i nd where
  term := term.trans polled.term
  voted := voted.trans polled.voted
  standing := by rw [counted]; exact polled.standing
  leading := fun leads => (polled.leading leads).mono support

/-- The cluster's nodes and all messages that can still be delivered, `messages`
among them, belong to a sound poll. -/
def Polled (rc : RaftCluster n) (messages : List (RaftMessage n)) : Prop :=
  ∃ poll : Poll (Fin n), poll.Sound ∧ poll.ballots = ballots (rc.messageQueue ++ messages) ∧
    ∀ i, NodePolled poll i (rc.nodes i)

theorem Polled.weaken {fewer : List (RaftMessage n)} (polled : Polled rc messages)
    (nodes : ∀ i, (after.nodes i).electoral = (rc.nodes i).electoral)
    (subset : ballots (after.messageQueue ++ fewer) ≤ ballots (rc.messageQueue ++ messages)) :
    Polled after fewer := by
  obtain ⟨poll, sound, held, members⟩ := polled
  refine ⟨{ poll with ballots := ballots (after.messageQueue ++ fewer) },
    sound.lose (held ▸ subset), rfl, ?_⟩
  intro i
  apply NodePolled.electoral _ (nodes i)
  exact (members i).frame rfl rfl rfl subset_rfl

/-- Changes that no election depends on. -/
theorem Polled.electoral (polled : Polled rc messages)
    (nodes : ∀ i, (after.nodes i).electoral = (rc.nodes i).electoral)
    (queue : after.messageQueue = rc.messageQueue) : Polled after messages :=
  polled.weaken nodes (by rw [queue])

theorem Polled.neutral (polled : Polled rc messages) (neutral : m.ballot = none) :
    Polled rc (m :: messages) := by
  apply polled.weaken (fun _ => rfl)
  rw [ballots_append, ballots_append, ballots_cons, ballots_neutral neutral, Multiset.zero_add]

theorem Polled.drop (polled : Polled rc (m :: messages)) : Polled rc messages :=
  polled.weaken (fun _ => rfl) (ballots_sublist ((List.sublist_cons_self m messages).append_left _))

/-- A message put on the queue, or lost there. -/
theorem Polled.enqueue (polled : Polled rc (m :: messages)) : Polled (raftEnqueueMsg rc m) messages := by
  apply polled.weaken
  · intro i
    rw [raftEnqueueMsg_nodes]
  · unfold raftEnqueueMsg
    split_ifs with full
    · exact ballots_sublist ((List.sublist_cons_self m messages).append_left _)
    · rw [List.append_assoc, List.singleton_append]

theorem Polled.enqueueNeutral (polled : Polled rc messages) (neutral : m.ballot = none) :
    Polled (raftEnqueueMsg rc m) messages :=
  (polled.neutral neutral).enqueue

theorem raftLeaderSendHeartbeats_polled (polled : Polled rc messages) :
    Polled (raftLeaderSendHeartbeats rc) messages := by
  unfold raftLeaderSendHeartbeats
  cases rc.leaderId with
  | none => exact polled
  | some lid =>
    dsimp only
    induction List.finRange n generalizing rc with
    | nil => exact polled
    | cons i rest ih =>
      rw [List.foldl_cons]
      split_ifs
      · exact ih polled
      · exact ih (polled.enqueueNeutral rfl)

/-- Stepping down into a later term clears a vote that term never had. -/
theorem raftBecomeFollower_polled (polled : Polled rc messages) {term : Nat}
    (later : (rc.nodes nid).currentTerm < term) :
    Polled (raftBecomeFollower rand rc nid term) messages := by
  apply Polled.electoral _ (raftResetDeadline_electoral _) rfl
  obtain ⟨poll, sound, held, members⟩ := polled
  have before : poll.term nid < term := by rw [(members nid).term]; exact later
  refine ⟨poll.advance nid term, sound.advance before.le, held, ?_⟩
  intro i
  by_cases same : i = nid
  · subst same
    rw [RaftCluster.modify_self]
    constructor
    · simp [Poll.advance]
    · exact sound.unvoted before
    · intro stands; cases stands
    · intro leads; cases leads
  · rw [RaftCluster.modify_other _ _ same]
    exact (members i).frame (by simp [Poll.advance, same]) rfl rfl subset_rfl

/-- A candidate becomes leader once its counter, and so its supporters, make a quorum. -/
theorem raftBecomeLeader_polled (polled : Polled rc messages)
    (stands : (rc.nodes nid).role = .candidate)
    (quorum : (rc.nodes nid).votesReceived ≥ raftQuorumSize n) :
    Polled (raftBecomeLeader rc nid) messages := by
  apply raftLeaderSendHeartbeats_polled
  obtain ⟨poll, sound, held, members⟩ := polled
  refine ⟨poll, sound, held, ?_⟩
  intro i
  by_cases same : i = nid
  · subst same
    rw [RaftCluster.modify_self]
    have node := members i
    obtain ⟨own, votes⟩ := node.standing stands
    constructor
    · exact node.term
    · exact node.voted
    · intro stands; cases stands
    · intro _
      apply sound.majority (node.voted.trans own)
      rw [Fintype.card_fin]
      exact le_trans quorum votes
  · rw [RaftCluster.modify_other _ _ same]
    exact members i

/-- The loop that asks every other node for its vote. -/
theorem raftRequestVotes_polled (visited : List (Fin n))
    (polled : Polled rc ((visited.filter (· ≠ nid)).map (raftBuildRequestVote rc nid) ++ messages)) :
    Polled (visited.foldl (fun rc i =>
      if i = nid then rc else raftEnqueueMsg rc (raftBuildRequestVote rc nid i)) rc) messages := by
  induction visited generalizing rc with
  | nil => exact polled
  | cons i rest ih =>
    rw [List.foldl_cons]
    by_cases self : i = nid
    · rw [if_pos self]
      apply ih
      simpa [self] using polled
    · rw [if_neg self]
      apply ih
      have sameRequests : raftBuildRequestVote (raftEnqueueMsg rc (raftBuildRequestVote rc nid i)) nid =
          raftBuildRequestVote rc nid := by
        funext receiver
        simp [raftBuildRequestVote]
      rw [sameRequests]
      apply Polled.enqueue
      simpa [self] using polled

theorem raftRequestVotes_nodes (visited : List (Fin n)) :
    (visited.foldl (fun rc i =>
      if i = nid then rc else raftEnqueueMsg rc (raftBuildRequestVote rc nid i)) rc).nodes = rc.nodes := by
  induction visited generalizing rc with
  | nil => rfl
  | cons i rest ih =>
    rw [List.foldl_cons, ih]
    split_ifs <;> simp

theorem ballots_requests (rc : RaftCluster n) (nid : Fin n) (voters : List (Fin n)) :
    ballots (voters.map (raftBuildRequestVote rc nid)) =
      (voters : Multiset (Fin n)).map fun voter => ⟨nid, voter, (rc.nodes nid).currentTerm, false⟩ := by
  rw [ballots, List.filterMap_map, Multiset.map_coe, ← List.filterMap_eq_map]
  rfl

/-- The requests of a candidate are ballots its new term has not seen. -/
theorem raftRequests_polled {started : RaftCluster n} (polled : Polled rc messages)
    (self : (started.nodes nid).electoral = (.candidate, (rc.nodes nid).currentTerm + 1, some nid, 1))
    (others : ∀ i, i ≠ nid → (started.nodes i).electoral = (rc.nodes i).electoral)
    (queue : started.messageQueue = rc.messageQueue) :
    Polled (((List.finRange n).foldl (fun rc i =>
      if i = nid then rc else raftEnqueueMsg rc (raftBuildRequestVote rc nid i)) started)) messages := by
  simp only [RaftNode.electoral, Prod.mk.injEq] at self
  obtain ⟨role, term, votedFor, votesReceived⟩ := self
  apply raftRequestVotes_polled
  obtain ⟨poll, sound, held, members⟩ := polled
  have newTerm : (poll.stand nid).term nid = (started.nodes nid).currentTerm := by
    rw [term, ← (members nid).term]
    simp [Poll.stand, Poll.advance]
  have fresh := sound.uncounted (Nat.lt_succ_self (poll.term nid))
  refine ⟨(poll.stand nid).ask nid ((List.finRange n).filter (· ≠ nid)), ?_, ?_, ?_⟩
  · apply sound.stand.ask
    · exact Multiset.coe_nodup.mpr ((List.nodup_finRange n).filter _)
    · simp
    · rw [newTerm, term, ← (members nid).term]
      exact fresh
  · rw [ballots_append, ballots_append, ballots_requests, queue, Poll.ask, newTerm]
    have sameBallots : (poll.stand nid).ballots = poll.ballots := rfl
    dsimp only
    rw [sameBallots, held, ballots_append, ← Multiset.add_assoc, ← Multiset.add_assoc]
    congr 1
    exact Multiset.add_comm _ _
  · intro i
    by_cases same : i = nid
    · subst same
      constructor
      · exact newTerm
      · rw [term, votedFor, ← (members i).term]
        exact Ledger.cast_self
      · intro _
        rw [votesReceived]
        exact ⟨votedFor, Nat.le_add_left _ _⟩
      · rw [role]
        intro leads
        cases leads
    · apply NodePolled.electoral _ (others i same)
      apply (members i).frame
      · simp [Poll.ask, Poll.stand, Poll.advance, same]
      · exact Ledger.cast_other (fun equal => same equal.1)
      · rfl
      · exact Ledger.supporters_cast_subset (sound.unvoted (Nat.lt_succ_self _))

theorem raftStartElection_polled (polled : Polled rc messages) :
    Polled (raftStartElection rand rc nid) messages := by
  unfold raftStartElection
  dsimp only
  generalize startedDef : raftResetDeadline rand (rc.modify nid fun nd =>
    { nd with
      role := .candidate
      currentTerm := nd.currentTerm + 1
      votedFor := some nid
      votesReceived := 1 }) nid = started
  have self : (started.nodes nid).electoral =
      (.candidate, (rc.nodes nid).currentTerm + 1, some nid, 1) := by
    rw [← startedDef, raftResetDeadline_electoral, RaftCluster.modify_self]
    rfl
  have others (i : Fin n) (different : i ≠ nid) :
      (started.nodes i).electoral = (rc.nodes i).electoral := by
    rw [← startedDef, raftResetDeadline_electoral, RaftCluster.modify_other _ _ different]
  have queue : started.messageQueue = rc.messageQueue := by rw [← startedDef]; rfl
  have asking := raftRequests_polled polled self others queue
  split_ifs with quorum
  · apply raftBecomeLeader_polled asking
    · rw [raftRequestVotes_nodes]
      exact congrArg Prod.fst self
    · exact quorum
  · exact asking

theorem raftTick_polled (polled : Polled rc messages) : Polled (raftTick rand rc) messages := by
  have passes (visited : List (Fin n)) (rc : RaftCluster n) (polled : Polled rc messages) :
      Polled (visited.foldl (raftTickNode rand) rc) messages := by
    induction visited generalizing rc with
    | nil => exact polled
    | cons i rest ih =>
      apply ih
      unfold raftTickNode
      split_ifs
      · exact polled
      · exact (raftStartElection_polled polled).electoral (raftResetDeadline_electoral _) rfl
      · exact polled
  exact passes _ _ (polled.electoral (fun _ => rfl) rfl)

/-- Granting turns the request into the ballot on its way back. -/
theorem raftGrantVote_polled (polled : Polled rc (m :: messages)) (request : m.type = .requestVote)
    (now : m.term = (rc.nodes m.receiver).currentTerm)
    (free : (rc.nodes m.receiver).votedFor = none ∨ (rc.nodes m.receiver).votedFor = some m.sender) :
    Polled (rc.modify m.receiver fun nd => { nd with votedFor := some m.sender })
      (raftBuildRequestVoteReply m.receiver m.sender (rc.nodes m.receiver).currentTerm true :: messages) := by
  obtain ⟨poll, sound, held, members⟩ := polled
  have voter := members m.receiver
  have carried : m.ballot = some ⟨m.sender, m.receiver, m.term, false⟩ := by
    simp [RaftMessage.ballot, request]
  rw [ballots_carried carried] at held
  have asked : m.receiver ≠ m.sender :=
    sound.foreign ⟨m.sender, m.receiver, m.term, false⟩ (by rw [held]; exact Multiset.mem_cons_self _ _)
  have unbound : poll.ledger m.receiver m.term = none ∨ poll.ledger m.receiver m.term = some m.sender := by
    rw [now, voter.voted]
    exact free
  refine ⟨poll.grant ⟨m.sender, m.receiver, m.term, false⟩ _, sound.grant held ?_ unbound, ?_, ?_⟩
  · rw [voter.term, now]
  · rw [ballots_carried rfl, now]
    rfl
  · intro i
    by_cases same : i = m.receiver
    · subst same
      rw [RaftCluster.modify_self]
      constructor
      · exact voter.term
      · dsimp only
        rw [← now]
        exact Ledger.cast_self
      · -- A candidate has voted for itself and no node sends itself a request.
        intro stands
        obtain ⟨own, -⟩ := voter.standing stands
        rcases free with none | same
        · rw [own] at none
          cases none
        · rw [own] at same
          exact absurd (Option.some.inj same) asked
      · intro leads
        exact (voter.leading leads).mono (Poll.supporters_grant_subset unbound)
    · rw [RaftCluster.modify_other _ _ same]
      apply (members i).frame
      · rfl
      · exact Ledger.cast_other (fun equal => same equal.1)
      · rfl
      · exact Poll.supporters_grant_subset unbound

/-- A node that sees a later term steps down before it handles the message. -/
theorem raftReachTerm_polled (rand : Nat → Nat) (nid : Fin n) (polled : Polled rc messages) (term : Nat) :
    Polled (if term > (rc.nodes nid).currentTerm then raftBecomeFollower rand rc nid term else rc)
      messages := by
  split_ifs with later
  · exact raftBecomeFollower_polled polled later
  · exact polled

theorem raftReachTerm_currentTerm (rand : Nat → Nat) {term : Nat} (current : ¬ term < (rc.nodes nid).currentTerm) :
    term = ((if term > (rc.nodes nid).currentTerm then raftBecomeFollower rand rc nid term
      else rc).nodes nid).currentTerm := by
  split_ifs with later
  · simp [raftBecomeFollower, raftResetDeadline]
  · omega

theorem raftHandleRequestVote_polled (polled : Polled rc (m :: messages)) (request : m.type = .requestVote) :
    Polled (raftHandleRequestVote rand rc m) messages := by
  unfold raftHandleRequestVote
  by_cases stale : m.term < (rc.nodes m.receiver).currentTerm
  · rw [if_pos stale]
    exact polled.drop.enqueueNeutral rfl
  rw [if_neg stale]
  have reachedPolled := raftReachTerm_polled rand m.receiver polled m.term
  have now := raftReachTerm_currentTerm rand stale
  revert reachedPolled now
  generalize (if m.term > (rc.nodes m.receiver).currentTerm
    then raftBecomeFollower rand rc m.receiver m.term else rc) = reached
  intro reachedPolled now
  dsimp only
  split_ifs with grant
  · rw [grant]
    rw [decide_eq_true_iff] at grant
    have granted := raftGrantVote_polled reachedPolled request now grant.1
    have sameTerm : (reached.nodes m.receiver).currentTerm =
        ((raftResetDeadline rand (reached.modify m.receiver fun nd =>
          { nd with votedFor := some m.sender }) m.receiver).nodes m.receiver).currentTerm := by
      simp [raftResetDeadline]
    rw [sameTerm] at granted
    exact (granted.electoral (raftResetDeadline_electoral _) rfl).enqueue
  · rw [Bool.not_eq_true] at grant
    rw [grant]
    exact reachedPolled.drop.enqueueNeutral rfl

/-- A granted reply adds its sender, who was not counted before. -/
theorem raftCountVote_polled (polled : Polled rc (m :: messages)) (reply : m.type = .requestVoteReply)
    (granted : m.voteGranted = true) (now : m.term = (rc.nodes m.receiver).currentTerm) :
    Polled (rc.modify m.receiver fun nd => { nd with votesReceived := nd.votesReceived + 1 }) messages := by
  obtain ⟨poll, sound, held, members⟩ := polled
  have carried : m.ballot = some ⟨m.receiver, m.sender, m.term, true⟩ := by
    simp [RaftMessage.ballot, reply, granted]
  rw [ballots_carried carried] at held
  refine ⟨poll.count ⟨m.receiver, m.sender, m.term, true⟩ _, sound.count held rfl, rfl, ?_⟩
  intro i
  by_cases same : i = m.receiver
  · subst same
    rw [RaftCluster.modify_self]
    have node := members m.receiver
    constructor
    · exact node.term
    · exact node.voted
    · intro stands
      obtain ⟨own, votes⟩ := node.standing stands
      have more := sound.card_count held
      dsimp only at more ⊢
      rw [← now] at votes ⊢
      rw [more]
      exact ⟨own, Nat.succ_le_succ votes⟩
    · exact node.leading
  · rw [RaftCluster.modify_other _ _ same]
    apply (members i).frame
    · rfl
    · rfl
    · simp [Poll.count, same]
    · exact subset_rfl

theorem raftHandleRequestVoteReply_polled (polled : Polled rc (m :: messages))
    (reply : m.type = .requestVoteReply) : Polled (raftHandleRequestVoteReply rand rc m) messages := by
  unfold raftHandleRequestVoteReply
  dsimp only
  split_ifs with later stale counts quorum
  · exact raftBecomeFollower_polled polled.drop later
  · exact polled.drop
  · apply raftBecomeLeader_polled (raftCountVote_polled polled reply counts.2 (by omega))
    · rw [RaftCluster.modify_self]
      exact counts.1
    · exact quorum
  · exact raftCountVote_polled polled reply counts.2 (by omega)
  · exact polled.drop

/-- A heartbeat can end a candidacy; everything else it changes is not electoral. -/
theorem raftHandleAppendEntries_polled (polled : Polled rc messages) :
    Polled (raftHandleAppendEntries rand rc m) messages := by
  unfold raftHandleAppendEntries
  by_cases stale : m.term < (rc.nodes m.receiver).currentTerm
  · rw [if_pos stale]
    exact polled.enqueueNeutral rfl
  rw [if_neg stale]
  have heard : Polled (raftResetDeadline rand rc m.receiver) messages :=
    polled.electoral (raftResetDeadline_electoral rc) rfl
  have reachedPolled := raftReachTerm_polled rand m.receiver heard m.term
  revert reachedPolled
  dsimp only
  generalize (if m.term > ((raftResetDeadline rand rc m.receiver).nodes m.receiver).currentTerm
    then raftBecomeFollower rand (raftResetDeadline rand rc m.receiver) m.receiver m.term
    else raftResetDeadline rand rc m.receiver) = reached
  intro reachedPolled
  have following : Polled { reached.modify m.receiver fun nd =>
      { nd with role := if nd.role = .candidate then .follower else nd.role } with
        leaderId := some m.sender } messages := by
    obtain ⟨poll, sound, held, members⟩ := reachedPolled
    refine ⟨poll, sound, held, ?_⟩
    intro i
    by_cases same : i = m.receiver
    · subst same
      have node := members m.receiver
      dsimp only
      rw [RaftCluster.modify_self]
      constructor
      · exact node.term
      · exact node.voted
      · dsimp only
        split_ifs with candidate
        · intro stands; cases stands
        · exact node.standing
      · dsimp only
        split_ifs
        · intro leads; cases leads
        · exact node.leading
    · dsimp only
      rw [RaftCluster.modify_other _ _ same]
      exact members i
  split
  · apply Polled.enqueueNeutral _ rfl
    exact following.electoral (RaftCluster.modify_electoral _ _ rfl) rfl
  · apply Polled.enqueueNeutral
    · exact following
    · rfl

theorem raftAdvanceCommit_electoral (lid i : Fin n) :
    ((raftAdvanceCommit rc lid).nodes i).electoral = (rc.nodes i).electoral :=
  RaftCluster.modify_electoral _ _ rfl i

theorem raftHandleAppendEntriesReply_polled (polled : Polled rc messages) :
    Polled (raftHandleAppendEntriesReply rand rc m) messages := by
  unfold raftHandleAppendEntriesReply
  split_ifs with later idle success retry
  · exact (raftBecomeFollower_polled polled later).electoral (fun _ => rfl) rfl
  · exact polled
  · refine polled.electoral ?_ rfl
    intro i
    rw [raftAdvanceCommit_electoral]
    exact RaftCluster.modify_electoral _ _ rfl i
  · exact polled.electoral (RaftCluster.modify_electoral _ _ rfl) rfl
  · exact polled

theorem raftLeaderAppendEntry_polled (polled : Polled rc messages) (cmd : Int) :
    Polled (raftLeaderAppendEntry rc cmd) messages := by
  unfold raftLeaderAppendEntry
  cases rc.leaderId with
  | none => exact polled
  | some lid =>
    dsimp only
    split_ifs
    · exact polled
    · exact polled.electoral (RaftCluster.modify_electoral _ _ rfl) rfl

theorem raftProcessMessage_polled (polled : Polled rc (m :: messages)) :
    Polled (raftProcessMessage rand rc m) messages := by
  unfold raftProcessMessage
  cases type : m.type with
  | requestVote => exact raftHandleRequestVote_polled polled type
  | requestVoteReply => exact raftHandleRequestVoteReply_polled polled type
  | appendEntries => exact raftHandleAppendEntries_polled polled.drop
  | appendEntriesReply => exact raftHandleAppendEntriesReply_polled polled.drop
  | clientCommand =>
    dsimp only
    split_ifs
    · exact raftLeaderAppendEntry_polled polled.drop m.command
    · exact polled.drop

/-- Every call of a driver keeps the poll. -/
theorem raftStep_polled {net : Network n} (polled : Polled net.cluster net.inFlight) (call : RaftCall) :
    Polled (raftStep rand net call).cluster (raftStep rand net call).inFlight := by
  cases call with
  | tick => exact raftTick_polled polled
  | clientSubmit cmd =>
    unfold raftStep raftClientSubmit
    cases net.cluster.leaderId with
    | none => exact polled
    | some lid => exact raftLeaderAppendEntry_polled polled cmd
  | sendHeartbeats => exact raftLeaderSendHeartbeats_polled polled
  | commitEntries =>
    unfold raftStep raftLeaderCommitEntries
    cases net.cluster.leaderId with
    | none => exact polled
    | some lid => exact polled.electoral (raftAdvanceCommit_electoral lid) rfl
  | dequeue =>
    unfold raftStep raftDequeueMsg
    cases queued : net.cluster.messageQueue with
    | nil => simpa using polled
    | cons m rest =>
      have taken : Polled { net.cluster with messageQueue := rest } (net.inFlight ++ [m]) := by
        refine polled.weaken (fun _ => rfl) (le_of_eq (ballots_perm ?_))
        rw [queued, ← List.append_assoc]
        exact List.perm_append_singleton m (rest ++ net.inFlight)
      exact taken
  | deliver position =>
    simp only [raftStep]
    split
    · exact polled
    · rename_i m found
      apply raftProcessMessage_polled
      refine polled.weaken (fun _ => rfl) (le_of_eq (ballots_perm ?_))
      obtain ⟨inside, rfl⟩ := List.getElem?_eq_some_iff.mp found
      exact (List.getElem_cons_eraseIdx_perm inside).append_left _
  | lose position =>
    apply polled.weaken (fun _ => rfl)
    exact ballots_sublist ((List.eraseIdx_sublist _ _).append_left _)

theorem raftInitNetwork_polled (n : Int) :
    Polled (raftInitNetwork rand n).cluster (raftInitNetwork rand n).inFlight := by
  refine ⟨⟨fun _ => 0, fun _ _ => none, fun _ _ => ∅, 0⟩, ?_, rfl, ?_⟩
  · constructor <;> simp
  · intro i
    constructor
    · rfl
    · rfl
    · intro stands; cases stands
    · intro leads; cases leads

/-- No two nodes lead in one term. -/
def ElectionSafe (rc : RaftCluster n) : Prop :=
  ∀ i j, (rc.nodes i).role = .leader → (rc.nodes j).role = .leader →
    (rc.nodes i).currentTerm = (rc.nodes j).currentTerm → i = j

theorem Polled.electionSafe (polled : Polled rc messages) : ElectionSafe rc := by
  intro i j first second sameTerm
  obtain ⟨poll, -, -, members⟩ := polled
  have one := (members i).leading first
  have two := (members j).leading second
  rw [sameTerm] at one
  exact Ledger.winner_unique one two

/-- Election safety, for every cluster size the source sets up, every sequence
of random timeouts, and every order of calls, deliveries and losses. -/
theorem electionSafe_of_reaches (rand : Nat → Nat) (n : Int) (net : Network (raftNodeCount n))
    (reached : Reaches (raftStep rand) Always (raftInitNetwork rand n) net) :
    ElectionSafe net.cluster := by
  have polled := reached.invariant (motive := fun net => Polled net.cluster net.inFlight)
    (raftInitNetwork_polled n) (fun _ call polled _ => raftStep_polled polled call)
  exact polled.electionSafe

/-- Node 0 of three times out first; its request to node 1 and the reply arrive. -/
def firstElection : List RaftCall :=
  List.replicate 150 .tick ++ [.dequeue, .deliver 0, .dequeue, .dequeue, .deliver 1]

theorem electionSafe_firstElection :
    let net := firstElection.foldl (raftStep (50 * ·)) (raftInitNetwork (50 * ·) 3)
    (net.cluster.nodes ⟨0, by decide⟩).role = .leader ∧ ElectionSafe net.cluster :=
  ⟨by decide +kernel, electionSafe_of_reaches _ 3 _ (.ofFold firstElection)⟩

end MiniNetDist.SystemTheory.Raft
