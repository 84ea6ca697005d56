import MiniNetDist.DistProtocol.RaftRefinement

/-! Log replication in the Raft simulation: the copy loop of the receiver adopts
a prefix of the sender's log, and both commit rules only follow chosen prefixes. -/

namespace MiniNetDist.DistProtocol.Raft

open Library Library.Replicas

variable {n : Nat} {cluster : Cluster n} {replicas next : Replicas (Fin n) Int} {i leader : Fin n}
  {leaders : LeaderLogs Int} {log source : List LogEntry}

private theorem adopts_extension {result adopted : List LogEntry} (adopts : Adopts log adopted result)
    (shorter : log <+: adopted) : result = adopted := by
  rcases adopts with ⟨longer, same⟩ | ⟨_, same⟩
  · rw [same]
    exact shorter.eq_of_length_le longer.length_le
  · exact same

/-- The copy loop keeps a log that already holds the sent prefix and otherwise
ends with exactly that prefix. -/
theorem raftAppendLoop_adopts {pos : Nat} (count : Nat) (agree : Matching log source) (room : source.length ≤ RAFT_MAX_LOG_ENTRIES)
    (reach : pos ≤ log.length) (inside : pos ≤ source.length)
    (shared : log.take pos = source.take pos) :
    Adopts log (source.take (pos + ((source.drop pos).take count).length))
      (raftAppendLoop pos ((source.drop pos).take count) log) := by
  induction count generalizing pos log with
  | zero =>
    simp only [List.take_zero, List.length_nil, Nat.add_zero, raftAppendLoop]
    exact .inl ⟨shared ▸ List.take_prefix pos log, rfl⟩
  | succ count ih =>
    rcases Nat.lt_or_ge pos source.length with more | done
    · obtain ⟨entry, found⟩ : ∃ entry, source[pos]? = some entry := ⟨_, List.getElem?_eq_getElem more⟩
      have split : source.drop pos = entry :: source.drop (pos + 1) := by
        rw [List.drop_eq_getElem_cons more, ← Option.some.inj ((List.getElem?_eq_getElem more).symm.trans found)]
      have longer : source.take (pos + 1) = source.take pos ++ [entry] := by
        rw [List.take_add_one, found]
        rfl
      have total : pos + ((source.drop pos).take (count + 1)).length =
          pos + 1 + ((source.drop (pos + 1)).take count).length := by
        rw [split, List.take_succ_cons, List.length_cons]
        omega
      have below : ¬ pos ≥ RAFT_MAX_LOG_ENTRIES := by omega
      -- Writing the entry after the shared part makes the log a prefix of the source.
      have rewritten : Adopts (source.take (pos + 1))
          (source.take (pos + 1 + ((source.drop (pos + 1)).take count).length))
          (raftAppendLoop (pos + 1) ((source.drop (pos + 1)).take count) (source.take (pos + 1))) := by
        refine ih (.ofPrefix (List.take_prefix _ _)) ?_ more ?_
        · rw [List.length_take]; omega
        · rw [List.take_take, Nat.min_self]
      have result := adopts_extension rewritten (List.take_prefix_take_left (Nat.le_add_right _ _))
      rw [total, split, List.take_succ_cons, raftAppendLoop, if_neg below]
      rcases Nat.lt_or_ge pos log.length with within | outside
      · rw [if_pos within]
        obtain ⟨old, present⟩ : ∃ old, log[pos]? = some old := ⟨_, List.getElem?_eq_getElem within⟩
        by_cases terms : old.term = entry.term
        · have equal : log.take (pos + 1) = source.take (pos + 1) :=
            agree pos old entry present found terms
          rw [if_neg (by simp [present, terms])]
          exact ih agree within more equal
        · rw [if_pos (by simpa [present] using terms), shared, ← longer]
          refine .inr ⟨?_, result⟩
          intro held
          have sent : (source.take (pos + 1 + ((source.drop (pos + 1)).take count).length))[pos]? =
              some entry := by rw [List.getElem?_take_of_lt (by omega), found]
          have kept := getElem?_longer held sent
          rw [present] at kept
          exact terms (congrArg Stamped.term (Option.some.inj kept))
      · have whole : log = source.take pos := by rw [← shared, List.take_of_length_le outside]
        rw [if_neg (Nat.not_lt.mpr outside)]
        have extended : log ++ [entry] = source.take (pos + 1) := by rw [whole, longer]
        rw [extended]
        refine .inr ⟨?_, result⟩
        intro held
        have bound := held.length_le
        simp only [List.length_take, List.length_drop] at bound
        omega
    · have empty : source.drop pos = [] := List.drop_eq_nil_of_le done
      simp only [empty, List.take_nil, List.length_nil, Nat.add_zero, raftAppendLoop]
      exact .inl ⟨shared ▸ List.take_prefix pos log, rfl⟩

/-- An accepted `prev_log_index` lies inside the receiver's log, and both logs
are the same up to it. -/
theorem raftLogOk_agree {nd : RaftNode n} {prevLogIndex prevLogTerm : Nat} (agree : Matching nd.log source)
    (cut : 0 < prevLogIndex → source[prevLogIndex - 1]?.map (·.term) = some prevLogTerm)
    (accepted : raftLogOk nd prevLogIndex prevLogTerm = true) :
    prevLogIndex ≤ nd.log.length ∧ nd.log.take prevLogIndex = source.take prevLogIndex := by
  unfold raftLogOk at accepted
  split_ifs at accepted with zero beyond
  · simp [zero]
  · have reach : prevLogIndex ≤ nd.log.length := Nat.le_of_not_lt beyond
    refine ⟨reach, ?_⟩
    obtain ⟨index, rfl⟩ : ∃ index, prevLogIndex = index + 1 := ⟨prevLogIndex - 1, by omega⟩
    obtain ⟨sent, found, stamp⟩ := Option.map_eq_some_iff.mp (cut (Nat.succ_pos index))
    have present := List.getElem?_eq_getElem (l := nd.log) (i := index) (by omega)
    refine agree index _ sent present found ?_
    simpa [present, stamp] using accepted

/-- The term that a sender puts before the next entry is the one of its log. -/
theorem raftPrevLogTerm_eq {sender : RaftNode n} {prevLogIndex : Nat} (inside : prevLogIndex ≤ sender.log.length)
    (positive : 0 < prevLogIndex) :
    sender.log[prevLogIndex - 1]?.map (·.term) = some (raftPrevLogTerm sender prevLogIndex) := by
  rw [raftPrevLogTerm, if_pos ⟨positive, inside⟩, List.getElem?_eq_getElem (by omega)]
  rfl

/-- The receiver's update once the previous entry matched. -/
def raftAcceptEntries (cluster : Cluster n) (i : Fin n) (rpc : AppendEntriesRPC n) : Cluster n :=
  cluster.modify i fun nd =>
    { nd with
      log := raftAppendLoop rpc.prevLogIndex rpc.entries nd.log
      commitIndex := raftFollowCommit nd rpc }

/-- The new commit index is the old one, or one the sender has committed and the
call covered. -/
theorem raftFollowCommit_cases (nd : RaftNode n) (rpc : AppendEntriesRPC n) :
    raftFollowCommit nd rpc = nd.commitIndex ∨
      raftFollowCommit nd rpc ≤ rpc.leaderCommit ∧
        raftFollowCommit nd rpc ≤ rpc.prevLogIndex + rpc.entries.length := by
  unfold raftFollowCommit
  dsimp only
  split_ifs <;> omega

/-- The receiver's fields match the adopted log, whatever else the protocol does to the
commit index. -/
theorem raftAcceptEntries_matches {rpc : AppendEntriesRPC n} {log : List LogEntry} {count : Nat}
    (refines : Refines cluster replicas) (follows : (cluster.nodes i).state ≠ .leader)
    (length : log.length ≤ RAFT_MAX_LOG_ENTRIES)
    (stored : raftAppendLoop rpc.prevLogIndex rpc.entries (cluster.nodes i).log = log)
    (next : Replicas (Fin n) Int) (terms : next.term = (replicas.adopt i count log).term)
    (logs : next.log = (replicas.adopt i count log).log)
    (ledger : next.ledger = (replicas.adopt i count log).ledger)
    (leaderOf : next.leader = (replicas.adopt i count log).leader)
    (acks : next.acked = (replicas.adopt i count log).acked)
    (commits : next.commit = Function.update replicas.commit i (raftFollowCommit (cluster.nodes i) rpc)) :
    Refines (raftAcceptEntries cluster i rpc) next := by
  intro j
  by_cases here : j = i
  · subst here
    have node : (raftAcceptEntries cluster j rpc).nodes j =
        { cluster.nodes j with log := log, commitIndex := raftFollowCommit (cluster.nodes j) rpc } := by
      rw [raftAcceptEntries, Cluster.modify_self, ← stored]
    rw [node]
    exact .ofFollowing follows (by rw [terms]; exact (refines j).term) (by rw [logs, adopt_log_self])
      (by rw [commits, Function.update_self]) length (by rw [ledger]; exact (refines j).voted follows)
      (by rw [ledger, leaderOf]; exact (refines j).standing)
  · have node : (raftAcceptEntries cluster i rpc).nodes j = cluster.nodes j :=
      Cluster.modify_other cluster _ here
    rw [node]
    refine (refines j).frame (by rw [terms]; rfl) ?_ ?_ (by rw [ledger]; rfl)
      (by rw [ledger]; exact Finset.Subset.refl _) (by rw [leaderOf]; rfl) ?_
    · rw [logs, adopt_log_of_ne here]
    · rw [commits, Function.update_of_ne here]
    · intro other
      rw [acks]
      by_cases own : other = i ∧ (cluster.nodes j).currentTerm = replicas.term i
      · rw [own.1, own.2, adopt_acked_self]
        exact Nat.le_max_left _ _
      · rw [adopt_acked_of_ne own]

/-- The loop leaves a log that adopts the sent prefix. -/
theorem raftAcceptEntries_adopts (count : Nat) (safe : Safe replicas) (refines : Refines cluster replicas)
    (leads : (cluster.nodes leader).state = .leader) :
    let sender := cluster.nodes leader
    let entries := (sender.log.drop (sender.nextIndex i - 1)).take count
    let rpc := raftAppendRPC cluster leader i entries
    raftLogOk (cluster.nodes i) rpc.prevLogIndex rpc.prevLogTerm = true →
    sender.nextIndex i - 1 + entries.length ≤ sender.log.length ∧
    Adopts (cluster.nodes i).log (sender.log.take (sender.nextIndex i - 1 + entries.length))
      (raftAppendLoop (sender.nextIndex i - 1) entries (cluster.nodes i).log) := by
  intro sender entries rpc accepted
  have bounds : 1 ≤ sender.nextIndex i ∧ sender.nextIndex i ≤ sender.log.length + 1 :=
    (refines leader).indices leads i
  have inside : sender.nextIndex i - 1 ≤ sender.log.length := by omega
  have rooted := safe.rooted i
  have rootedSender := safe.rooted leader
  rw [(refines i).log] at rooted
  rw [(refines leader).log] at rootedSender
  have agree := rooted.matching rootedSender
  obtain ⟨reach, shared⟩ := raftLogOk_agree agree (raftPrevLogTerm_eq inside) accepted
  refine ⟨?_, raftAppendLoop_adopts count agree (refines leader).room reach inside shared⟩
  simp only [entries, List.length_take, List.length_drop]
  omega

/-- A receiver in the sender's term adopts the sent prefix and follows its commits. -/
theorem raftAcceptEntries_refines (count : Nat) (safe : Safe replicas) (refines : Refines cluster replicas)
    (leads : (cluster.nodes leader).state = .leader) (different : i ≠ leader)
    (same : (cluster.nodes i).currentTerm = (cluster.nodes leader).currentTerm) :
    let sender := cluster.nodes leader
    let entries := (sender.log.drop (sender.nextIndex i - 1)).take count
    let rpc := raftAppendRPC cluster leader i entries
    raftLogOk (cluster.nodes i) rpc.prevLogIndex rpc.prevLogTerm = true →
    ∃ next, Steps replicas next ∧ Refines (raftAcceptEntries cluster i rpc) next ∧
      sender.nextIndex i - 1 + entries.length ≤ next.acked i sender.currentTerm := by
  intro sender entries rpc accepted
  have senderTerm := (refines leader).term
  have receiverTerm := (refines i).term
  have elected : replicas.leader (cluster.nodes i).currentTerm = some leader := by
    rw [same]
    exact (refines leader).leading leads
  have follows : (cluster.nodes i).state ≠ .leader := by
    intro alsoLeads
    exact different (Option.some.inj (((refines i).leading alsoLeads).symm.trans elected))
  have senderLog : replicas.leaderLog (cluster.nodes i).currentTerm = sender.log := by
    rw [same, ← (refines leader).log]
    exact (safe.leader_log _ leader ((refines leader).leading leads) senderTerm).symm
  obtain ⟨total, adopts⟩ := raftAcceptEntries_adopts count safe refines leads accepted
  generalize result : raftAppendLoop (sender.nextIndex i - 1) entries (cluster.nodes i).log = log at adopts
  have length : log.length ≤ RAFT_MAX_LOG_ENTRIES := by
    rcases adopts with ⟨_, rfl⟩ | ⟨_, rfl⟩
    · exact (refines i).room
    · rw [List.length_take]
      exact (Nat.min_le_right _ _).trans (refines leader).room
  have covers := adopts.covers
  let adopted := replicas.adopt i (sender.nextIndex i - 1 + entries.length) log
  have move : Step replicas adopted := by
    refine .adopt i leader _ log ?_ (Ne.symm different) ?_ ?_
    · rw [receiverTerm]; exact elected
    · rw [receiverTerm, senderLog]; exact total
    · rw [receiverTerm, senderLog, (refines i).log]; exact adopts
  have acked : sender.nextIndex i - 1 + entries.length ≤ adopted.acked i sender.currentTerm := by
    simp [adopted, adopt, receiverTerm, same, sender]
  have stored : raftAppendLoop rpc.prevLogIndex rpc.entries (cluster.nodes i).log = log := result
  have settled := @raftAcceptEntries_matches n cluster replicas i rpc log
    (sender.nextIndex i - 1 + entries.length) refines follows length stored
  rcases raftFollowCommit_cases (cluster.nodes i) rpc with unchanged | ⟨covered, within⟩
  · refine ⟨adopted, .single move, ?_, acked⟩
    refine settled _ rfl rfl rfl rfl rfl ?_
    rw [unchanged, ← (refines i).commit, Function.update_eq_self]
    rfl
  · refine ⟨adopted.settle i (raftFollowCommit (cluster.nodes i) rpc),
      (Relation.ReflTransGen.single move).tail (.follow i leader _ ?_ ?_ ?_ ?_),
      settled _ rfl rfl rfl rfl rfl rfl, acked⟩
    · exact senderTerm.trans (same.symm.trans receiverTerm.symm)
    · have bound := covers.length_le
      rw [List.length_take, Nat.min_eq_left total] at bound
      simp only [adopted, adopt, Function.update_self]
      exact Nat.le_trans within bound
    · have commits : adopted.commit leader = rpc.leaderCommit := (refines leader).commit
      rw [commits]
      exact covered
    · have senderKept : adopted.log leader = sender.log := by
        simp [adopted, adopt, Ne.symm different, (refines leader).log, sender]
      rw [senderKept]
      simp only [adopted, adopt, Function.update_self]
      rw [take_longer covers (by rw [List.length_take, Nat.min_eq_left total]; exact within)]
      exact (List.take_prefix _ _).trans (List.take_prefix _ _)

/-- The receiver's state after the term check of `raft_handle_append_entries`. -/
def raftEnterTerm (cluster : Cluster n) (i : Fin n) (term : Nat) : Cluster n :=
  (if term > (cluster.nodes i).currentTerm then raftBecomeFollower cluster i term else cluster).modify i
    fun nd => { nd with electionElapsedMs := 0, heartbeatElapsedMs := 0 }

theorem raftEnterTerm_other {j : Fin n} (cluster : Cluster n) (term : Nat) (different : j ≠ i) :
    (raftEnterTerm cluster i term).nodes j = cluster.nodes j := by
  rw [raftEnterTerm, Cluster.modify_other _ _ different]
  split_ifs
  · exact raftBecomeFollower_other cluster term different
  · rfl

theorem raftEnterTerm_term {term : Nat} (current : (cluster.nodes i).currentTerm ≤ term) :
    ((raftEnterTerm cluster i term).nodes i).currentTerm = term := by
  by_cases higher : term > (cluster.nodes i).currentTerm
  · rw [raftEnterTerm, if_pos higher, Cluster.modify_self]
    exact (raftBecomeFollower_fields cluster i higher).1
  · rw [raftEnterTerm, if_neg higher, Cluster.modify_self]
    exact Nat.le_antisymm current (Nat.le_of_not_lt higher)

theorem raftEnterTerm_log (cluster : Cluster n) (i : Fin n) (term : Nat) :
    ((raftEnterTerm cluster i term).nodes i).log = (cluster.nodes i).log := by
  rw [raftEnterTerm, Cluster.modify_self]
  split
  · simp [raftBecomeFollower]
  · rfl

theorem raftEnterTerm_refines {term : Nat} (safe : Safe replicas) (refines : Refines cluster replicas)
    (current : (cluster.nodes i).currentTerm ≤ term) :
    (∃ next, Steps replicas next ∧ Refines (raftEnterTerm cluster i term) next) ∧
      ((raftEnterTerm cluster i term).nodes i).currentTerm = term := by
  refine ⟨?_, raftEnterTerm_term current⟩
  by_cases higher : term > (cluster.nodes i).currentTerm
  · have stepped := raftBecomeFollower_refines safe refines higher
    refine ⟨replicas.advance i term, .single (.advance i term ?_), ?_⟩
    · rw [(refines i).term]; exact higher
    · rw [raftEnterTerm, if_pos higher]
      exact stepped.clocks (Cluster.modify_clockless _ rfl)
  · refine ⟨replicas, .refl, ?_⟩
    rw [raftEnterTerm, if_neg higher]
    exact refines.clocks (Cluster.modify_clockless _ rfl)

/-- What an append call can do to its receiver. -/
theorem raftHandleAppendEntries_cases (cluster : Cluster n) (i : Fin n) (rpc : AppendEntriesRPC n) :
    raftHandleAppendEntries cluster i rpc = (cluster, false) ∨
      ((cluster.nodes i).currentTerm ≤ rpc.term ∧
        (raftHandleAppendEntries cluster i rpc = (raftEnterTerm cluster i rpc.term, false) ∨
          raftLogOk ((raftEnterTerm cluster i rpc.term).nodes i) rpc.prevLogIndex rpc.prevLogTerm = true ∧
            raftHandleAppendEntries cluster i rpc =
              (raftAcceptEntries (raftEnterTerm cluster i rpc.term) i rpc, true))) := by
  by_cases stale : rpc.term < (cluster.nodes i).currentTerm
  · left
    rw [raftHandleAppendEntries, if_pos stale]
  · right
    refine ⟨Nat.le_of_not_lt stale, ?_⟩
    rw [raftHandleAppendEntries, if_neg stale]
    by_cases accepted :
        raftLogOk ((raftEnterTerm cluster i rpc.term).nodes i) rpc.prevLogIndex rpc.prevLogTerm = true
    · right
      exact ⟨accepted, if_pos accepted⟩
    · left
      exact if_neg accepted

theorem raftHandleAppendEntries_other {j : Fin n} (cluster : Cluster n) (rpc : AppendEntriesRPC n)
    (different : j ≠ i) : (raftHandleAppendEntries cluster i rpc).1.nodes j = cluster.nodes j := by
  obtain same | ⟨_, same | ⟨_, same⟩⟩ := raftHandleAppendEntries_cases cluster i rpc
  · rw [same]
  · rw [same, raftEnterTerm_other cluster rpc.term different]
  · rw [same, raftAcceptEntries, Cluster.modify_other _ _ different,
      raftEnterTerm_other cluster rpc.term different]

/-- One append call by a leader, together with what a success acknowledges. -/
theorem raftHandleAppendEntries_refines (count : Nat) (safe : Safe replicas)
    (refines : Refines cluster replicas) (leads : (cluster.nodes leader).state = .leader)
    (different : i ≠ leader) :
    let sender := cluster.nodes leader
    let entries := (sender.log.drop (sender.nextIndex i - 1)).take count
    let result := raftHandleAppendEntries cluster i (raftAppendRPC cluster leader i entries)
    ∃ next, Steps replicas next ∧ Refines result.1 next ∧
      (result.2 = true → sender.nextIndex i - 1 + entries.length ≤ next.acked i sender.currentTerm) := by
  intro sender entries result
  obtain same | ⟨current, outcome⟩ :=
    raftHandleAppendEntries_cases cluster i (raftAppendRPC cluster leader i entries)
  · simp only [result, same]
    exact ⟨replicas, .refl, refines, by simp⟩
  · obtain ⟨⟨entered, moves, refinesEntered⟩, reached⟩ := raftEnterTerm_refines safe refines current
    have kept := raftEnterTerm_other cluster (raftAppendRPC cluster leader i entries).term (Ne.symm different)
    obtain same | ⟨accepted, same⟩ := outcome
    · simp only [result, same]
      exact ⟨entered, moves, refinesEntered, by simp⟩
    · -- The sender is not the receiver, so the call reads the same after the term check.
      have request : raftAppendRPC (raftEnterTerm cluster i (raftAppendRPC cluster leader i entries).term)
          leader i entries = raftAppendRPC cluster leader i entries := by
        unfold raftAppendRPC at kept ⊢
        rw [kept]
      have step := raftAcceptEntries_refines count (safe.steps moves) refinesEntered
        (by rw [kept]; exact leads) different (by rw [kept]; exact reached)
      simp only [kept] at step
      rw [show ((cluster.nodes leader).log.drop ((cluster.nodes leader).nextIndex i - 1)).take count =
        entries from rfl, request] at step
      obtain ⟨next, rest, final, acked⟩ := step accepted
      simp only [result, same]
      exact ⟨next, moves.trans rest, final, fun _ => acked⟩

theorem raftHeartbeatTo_simulates (leads : (cluster.nodes leader).state = .leader) (i : Fin n) :
    Simulates cluster (raftHeartbeatTo leader cluster i) ∧
      ((raftHeartbeatTo leader cluster i).nodes leader).state = .leader := by
  unfold raftHeartbeatTo
  split_ifs with skipped
  · exact ⟨.refl cluster, leads⟩
  · have different : i ≠ leader := fun same => skipped (.inl same)
    refine ⟨?_, ?_⟩
    · intro replicas safe refines
      obtain ⟨next, moves, final, _⟩ := raftHandleAppendEntries_refines 0 safe refines leads different
      exact ⟨next, moves, by simpa using final⟩
    · rw [raftHandleAppendEntries_other cluster _ (Ne.symm different)]
      exact leads

theorem raftSendHeartbeat_simulates (leads : (cluster.nodes leader).state = .leader) :
    Simulates cluster (raftSendHeartbeat cluster leader) ∧
      ((raftSendHeartbeat cluster leader).nodes leader).state = .leader :=
  Simulates.fold (fun _ i leads => raftHeartbeatTo_simulates leads i) (List.finRange n) leads

/-- The sender's bookkeeping after an append call that succeeded. -/
theorem NodeRefines.acknowledged {nd : RaftNode n} {sent : Nat} (before : NodeRefines replicas leader nd)
    (leads : nd.state = .leader) (inside : nd.nextIndex i + sent ≤ nd.log.length + 1)
    (acked : nd.nextIndex i - 1 + sent ≤ replicas.acked i nd.currentTerm) :
    NodeRefines replicas leader { nd with
      nextIndex := fun j => if j = i then nd.nextIndex i + sent else nd.nextIndex j
      matchIndex := fun j => if j = i then nd.nextIndex i + sent - 1 else nd.matchIndex j } := by
  have bounds := before.indices leads
  exact { before with
    indices := by
      intro _ other
      by_cases target : other = i
      · subst target
        have own := bounds other
        simp only [↓reduceIte]
        omega
      · simpa [target] using bounds other
    matched := by
      intro _ other notSelf
      by_cases target : other = i
      · subst target
        have own := bounds other
        simp only [↓reduceIte]
        omega
      · simpa [target] using before.matched leads other notSelf }

/-- The sender's bookkeeping after an append call that was refused. -/
theorem NodeRefines.backedOff {nd : RaftNode n} (before : NodeRefines replicas leader nd)
    (leads : nd.state = .leader) :
    NodeRefines replicas leader { nd with
      nextIndex := fun j => if j = i ∧ nd.nextIndex i > 1 then nd.nextIndex i - 1 else nd.nextIndex j } := by
  have bounds := before.indices leads
  exact { before with
    indices := by
      intro _ other
      have own := bounds i
      have range := bounds other
      dsimp only
      split_ifs <;> omega }

theorem raftAppendTo_simulates (leads : (cluster.nodes leader).state = .leader) (i : Fin n) :
    Simulates cluster (raftAppendTo leader cluster i) ∧
      ((raftAppendTo leader cluster i).nodes leader).state = .leader := by
  unfold raftAppendTo
  split_ifs with skipped
  · exact ⟨.refl cluster, leads⟩
  have different : i ≠ leader := fun same => skipped (.inl same)
  dsimp only
  generalize sent : (cluster.nodes leader).log.drop ((cluster.nodes leader).nextIndex i - 1) = suffix
  generalize outcome : raftHandleAppendEntries cluster i
    (raftAppendRPC cluster leader i (suffix.take RAFT_MAX_RPC_ENTRIES)) = result
  have kept : result.1.nodes leader = cluster.nodes leader := by
    rw [← outcome]
    exact raftHandleAppendEntries_other cluster _ (Ne.symm different)
  refine ⟨?_, ?_⟩
  · intro replicas safe refines
    have step := raftHandleAppendEntries_refines RAFT_MAX_RPC_ENTRIES safe refines leads different
    simp only [sent, outcome] at step
    obtain ⟨next, moves, refinesNext, acked⟩ := step
    refine ⟨next, moves, ?_⟩
    intro j
    by_cases sender : j = leader
    · subst sender
      rw [Cluster.modify_self]
      have before := refinesNext j
      rw [kept] at before ⊢
      have bounds := before.indices leads
      have length : (suffix.take RAFT_MAX_RPC_ENTRIES).length ≤ suffix.length := by
        rw [List.length_take]; omega
      have total : suffix.length = (cluster.nodes j).log.length - ((cluster.nodes j).nextIndex i - 1) := by
        rw [← sent, List.length_drop]
      have own := bounds i
      by_cases success : result.2 = true
      · simp only [success, ↓reduceIte]
        have acknowledged := acked success
        exact before.acknowledged leads (by omega) (by omega)
      · simp only [success, Bool.false_eq_true, ↓reduceIte]
        exact before.backedOff leads
    · rw [Cluster.modify_other _ _ sender]
      exact refinesNext j
  · rw [Cluster.modify_self, kept]
    split_ifs <;> exact leads

private theorem matched_fold (counts : Fin n → Bool) (visited : List (Fin n)) (start : Nat) :
    visited.foldl (fun matched i => if counts i then matched + 1 else matched) start =
      start + (visited.filter counts).length := by
  induction visited generalizing start with
  | nil => rfl
  | cons i rest ih =>
    rw [List.foldl_cons, ih, List.filter_cons]
    by_cases counted : counts i = true
    · simp only [counted, ↓reduceIte, List.length_cons]
      omega
    · simp [counted]

/-- The counted nodes are the leader and the active nodes it has matched. -/
theorem raftMatched_quorum (cluster : Cluster n) (node : Fin n) (count : Nat) :
    ∃ quorum : Finset (Fin n), quorum.card = raftMatched cluster node count ∧
      ∀ i ∈ quorum, i = node ∨ i ≠ node ∧ count ≤ (cluster.nodes node).matchIndex i := by
  let counts : Fin n → Bool := fun i =>
    decide (i ≠ node) && (cluster.nodes i).active && decide (count ≤ (cluster.nodes node).matchIndex i)
  have scan : raftMatched cluster node count = 1 + ((List.finRange n).filter counts).length := by
    rw [← matched_fold]
    unfold raftMatched
    congr 1
    funext matched i
    by_cases same : i = node
    · simp [counts, same]
    · cases active : (cluster.nodes i).active <;> simp [counts, same, active]
  have distinct : ((List.finRange n).filter counts).Nodup := (List.nodup_finRange n).filter _
  refine ⟨insert node ((List.finRange n).filter counts).toFinset, ?_, ?_⟩
  · rw [Finset.card_insert_of_notMem (by simp [counts]), List.toFinset_card_of_nodup distinct, scan]
    omega
  · intro i member
    rcases Finset.mem_insert.mp member with same | inside
    · exact .inl same
    · have found := (List.mem_filter.mp (List.mem_toFinset.mp inside)).2
      simp only [counts, Bool.and_eq_true, decide_eq_true_eq] at found
      exact .inr ⟨found.1.1, found.2⟩

/-- The commit scan leaves the index alone or moves it to a matched entry of the
leader's own term. -/
theorem raftCommitScan_cases (cluster : Cluster n) (node : Fin n) (count : Nat) :
    raftCommitScan cluster node count = (cluster.nodes node).commitIndex ∨
      ∃ index, raftCommitScan cluster node count = index + 1 ∧
        (∃ entry, (cluster.nodes node).log[index]? = some entry ∧
          entry.term = (cluster.nodes node).currentTerm) ∧
        raftQuorumSize n ≤ raftMatched cluster node (index + 1) := by
  induction count with
  | zero => exact .inl rfl
  | succ count ih =>
    rw [raftCommitScan]
    split_ifs with above other enough
    · exact ih
    · rw [not_not] at other
      obtain ⟨entry, found, term⟩ := Option.map_eq_some_iff.mp other
      exact .inr ⟨count, rfl, ⟨entry, found, term⟩, enough⟩
    · exact ih
    · exact .inl rfl

theorem raftSendAppendEntries_simulates (leads : (cluster.nodes leader).state = .leader) :
    Simulates cluster (raftSendAppendEntries cluster leader) := by
  obtain ⟨replicate, stillLeads⟩ := Simulates.fold
    (fun _ i leads => raftAppendTo_simulates leads i) (List.finRange n) leads
  refine replicate.trans ?_
  unfold raftSendAppendEntries
  generalize (List.finRange n).foldl (raftAppendTo leader) cluster = sent at stillLeads
  intro replicas safe refines
  have node := refines leader
  have elected := node.leading stillLeads
  dsimp only
  generalize scan : raftCommitScan sent leader (raftLastLogIndex (sent.nodes leader)) = commit
  have unchanged : ∀ {next : Replicas (Fin n) Int}, next.term = replicas.term → next.log = replicas.log →
      next.ledger = replicas.ledger → next.leader = replicas.leader → next.acked = replicas.acked →
      next.commit = Function.update replicas.commit leader commit →
      Refines (sent.modify leader fun nd =>
        { nd with commitIndex := raftCommitScan sent leader (raftLastLogIndex nd) }) next := by
    intro next terms logs ledger leaderOf acks commits j
    by_cases here : j = leader
    · subst here
      rw [Cluster.modify_self, scan]
      exact {
        term := by rw [terms]; exact node.term
        log := by rw [logs]; exact node.log
        commit := by rw [commits]; simp
        room := node.room
        voted := by rw [ledger]; exact node.voted
        standing := by rw [ledger, leaderOf]; exact node.standing
        leading := by rw [leaderOf]; exact node.leading
        indices := node.indices
        matched := by rw [acks]; exact node.matched
        own := by rw [acks]; exact node.own }
    · rw [Cluster.modify_other _ _ here]
      refine (refines j).frame (by rw [terms]) (by rw [logs]) ?_ (by rw [ledger])
        (by rw [ledger]) (by rw [leaderOf]) (by rw [acks]; exact fun _ => Nat.le_refl _)
      rw [commits]
      simp [here]
  rcases raftCommitScan_cases sent leader (raftLastLogIndex (sent.nodes leader)) with
    same | ⟨index, moved, ⟨entry, found, stamp⟩, enough⟩
  · refine ⟨replicas, .refl, unchanged rfl rfl rfl rfl rfl ?_⟩
    rw [← scan, same, ← node.commit, Function.update_eq_self]
  · refine ⟨replicas.settle leader commit, .single ?_, unchanged rfl rfl rfl rfl rfl rfl⟩
    rw [← scan, moved]
    refine .commit leader index (by rw [node.term]; exact elected) ⟨⟨entry, ?_, ?_⟩, ?_⟩
    · rw [← safe.leader_log _ leader (by rw [node.term]; exact elected) rfl, node.log]
      exact found
    · rw [node.term]; exact stamp
    · obtain ⟨quorum, size, members⟩ := raftMatched_quorum sent leader (index + 1)
      refine ⟨quorum, Majority.of_quorum ?_, ?_⟩
      · rw [Fintype.card_fin, size]
        exact enough
      · intro member inside
        rw [node.term]
        rcases members member inside with rfl | ⟨other, matched⟩
        · exact Nat.lt_of_lt_of_le (List.getElem?_eq_some_iff.mp found).1 (node.own stillLeads)
        · exact Nat.lt_of_lt_of_le matched (node.matched stillLeads member other)

end MiniNetDist.DistProtocol.Raft
