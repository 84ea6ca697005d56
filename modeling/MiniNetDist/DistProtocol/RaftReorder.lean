import MiniNetDist.DistProtocol.RaftReplication

/-! AppendEntries requests that a network repeats and reorders. All requests are cut from one leader log; a follower
whose log matches it keeps whatever prefix an earlier request made it agree on. -/

namespace MiniNetDist.DistProtocol.Raft

open Library Library.Replicas

variable {n : Nat} {cluster : Cluster n} {i : Fin n} {leaderLog : List LogEntry} {term : Nat}

/-- A request of this term with some entries of the leader's log and the term of the entry before them. -/
structure CutFrom (leaderLog : List LogEntry) (term : Nat) (rpc : AppendEntriesRPC n) : Prop where
  term : rpc.term = term
  inside : rpc.prevLogIndex ≤ leaderLog.length
  prevTerm : 0 < rpc.prevLogIndex → leaderLog[rpc.prevLogIndex - 1]?.map (·.term) = some rpc.prevLogTerm
  entries : ∃ count, rpc.entries = (leaderLog.drop rpc.prevLogIndex).take count
  commit : rpc.leaderCommit ≤ leaderLog.length

/-- The leader's log as far as a request goes. -/
def sent (leaderLog : List LogEntry) (rpc : AppendEntriesRPC n) : List LogEntry :=
  leaderLog.take (rpc.prevLogIndex + rpc.entries.length)

/-- The requests that a leader sends are cut from its log. -/
theorem raftAppendRPC_cut {leader : Fin n} (count : Nat) (next : (cluster.nodes leader).nextIndex i ≤
      (cluster.nodes leader).log.length + 1)
    (committed : (cluster.nodes leader).commitIndex ≤ (cluster.nodes leader).log.length) :
    CutFrom (cluster.nodes leader).log (cluster.nodes leader).currentTerm (raftAppendRPC cluster leader i
      (((cluster.nodes leader).log.drop ((cluster.nodes leader).nextIndex i - 1)).take count)) where
  term := rfl
  inside := Nat.sub_le_of_le_add next
  prevTerm := raftPrevLogTerm_eq (Nat.sub_le_of_le_add next)
  entries := ⟨count, rfl⟩
  commit := committed

/-- What the follower keeps between two requests. -/
structure Follows (cluster : Cluster n) (i : Fin n) (leaderLog : List LogEntry) (term : Nat) : Prop where
  current : (cluster.nodes i).currentTerm ≤ term
  matching : Matching (cluster.nodes i).log leaderLog

/-- A request from the leader's log leaves the log as it is, or cut and filled up with what was sent. -/
theorem raftHandleAppendEntries_log {rpc : AppendEntriesRPC n} (follows : Follows cluster i leaderLog term)
    (cut : CutFrom leaderLog term rpc) (room : leaderLog.length ≤ RAFT_MAX_LOG_ENTRIES) :
    Adopts (cluster.nodes i).log (sent leaderLog rpc) ((raftHandleAppendEntries cluster i rpc).1.nodes i).log ∨
      (raftHandleAppendEntries cluster i rpc).2 = false ∧
        ((raftHandleAppendEntries cluster i rpc).1.nodes i).log = (cluster.nodes i).log := by
  rcases raftHandleAppendEntries_cases cluster i rpc with refused | ⟨-, refused | ⟨matched, accepted⟩⟩
  · rw [refused]
    exact .inr ⟨rfl, rfl⟩
  · rw [refused]
    exact .inr ⟨rfl, raftEnterTerm_log cluster i rpc.term⟩
  · rw [accepted, raftAcceptEntries, Cluster.modify_self, raftEnterTerm_log]
    obtain ⟨count, entries⟩ := cut.entries
    have agree : Matching ((raftEnterTerm cluster i rpc.term).nodes i).log leaderLog := by
      rw [raftEnterTerm_log]
      exact follows.matching
    obtain ⟨reach, shared⟩ := raftLogOk_agree agree cut.prevTerm matched
    rw [raftEnterTerm_log] at reach shared
    left
    rw [sent, entries]
    exact raftAppendLoop_adopts count follows.matching room reach cut.inside shared

theorem raftHandleAppendEntries_term {rpc : AppendEntriesRPC n} (current : (cluster.nodes i).currentTerm ≤ rpc.term) :
    ((raftHandleAppendEntries cluster i rpc).1.nodes i).currentTerm ≤ rpc.term := by
  rcases raftHandleAppendEntries_cases cluster i rpc with refused | ⟨-, refused | ⟨-, accepted⟩⟩
  · rw [refused]
    exact current
  · rw [refused, raftEnterTerm_term current]
  · rw [accepted, raftAcceptEntries, Cluster.modify_self, raftEnterTerm_term current]

/-- One request keeps the follower's log matching and every prefix that it shares with the leader's log. -/
theorem Follows.handle {rpc : AppendEntriesRPC n} (follows : Follows cluster i leaderLog term)
    (cut : CutFrom leaderLog term rpc) (room : leaderLog.length ≤ RAFT_MAX_LOG_ENTRIES) :
    Follows (raftHandleAppendEntries cluster i rpc).1 i leaderLog term ∧
      ((raftHandleAppendEntries cluster i rpc).2 = true →
        sent leaderLog rpc <+: ((raftHandleAppendEntries cluster i rpc).1.nodes i).log) ∧
      ∀ shared, shared <+: leaderLog → shared <+: (cluster.nodes i).log →
        shared <+: ((raftHandleAppendEntries cluster i rpc).1.nodes i).log := by
  have within : ((raftHandleAppendEntries cluster i rpc).1.nodes i).currentTerm ≤ term := by
    rw [← cut.term]
    exact raftHandleAppendEntries_term (cut.term ▸ follows.current)
  rcases raftHandleAppendEntries_log follows cut room with adopts | ⟨refused, unchanged⟩
  · refine ⟨⟨within, ?_⟩, fun _ => adopts.covers, fun shared common held => adopts.keeps held common⟩
    rcases adopts with ⟨-, unchanged⟩ | ⟨-, replaced⟩
    · rw [unchanged]
      exact follows.matching
    · rw [replaced]
      exact .ofPrefix (List.take_prefix _ _)
  · rw [refused, unchanged]
    exact ⟨⟨within, unchanged ▸ follows.matching⟩, fun accepted => absurd accepted Bool.false_ne_true,
      fun _ _ held => held⟩

/-- The follower's side of a run: the requests in the order in which they arrive. -/
def raftDeliver (cluster : Cluster n) (i : Fin n) (requests : List (AppendEntriesRPC n)) : Cluster n :=
  requests.foldl (fun cluster rpc => (raftHandleAppendEntries cluster i rpc).1) cluster

theorem Follows.deliver (requests : List (AppendEntriesRPC n)) (follows : Follows cluster i leaderLog term)
    (cut : ∀ rpc ∈ requests, CutFrom leaderLog term rpc) (room : leaderLog.length ≤ RAFT_MAX_LOG_ENTRIES) :
    Follows (raftDeliver cluster i requests) i leaderLog term ∧
      ∀ shared, shared <+: leaderLog → shared <+: (cluster.nodes i).log →
        shared <+: ((raftDeliver cluster i requests).nodes i).log := by
  induction requests generalizing cluster with
  | nil => exact ⟨follows, fun _ _ held => held⟩
  | cons rpc rest ih =>
    obtain ⟨next, -, kept⟩ := follows.handle (cut rpc (List.mem_cons_self ..)) room
    obtain ⟨last, keeps⟩ := ih next fun other inside => cut other (List.mem_cons_of_mem _ inside)
    exact ⟨last, fun shared common held => keeps shared common (kept shared common held)⟩

/-- Whatever requests come before and after it, in whatever order and however often, a request leaves a matching log;
if it succeeds, the follower has what was sent and keeps it. -/
theorem raft_append_entries_reordered (before later : List (AppendEntriesRPC n)) (rpc : AppendEntriesRPC n)
    (room : leaderLog.length ≤ RAFT_MAX_LOG_ENTRIES) (current : (cluster.nodes i).currentTerm ≤ term)
    (agree : Matching (cluster.nodes i).log leaderLog)
    (cut : ∀ other ∈ before ++ rpc :: later, CutFrom leaderLog term other) :
    let handled := raftHandleAppendEntries (raftDeliver cluster i before) i rpc
    Matching (handled.1.nodes i).log leaderLog ∧
      (handled.2 = true → sent leaderLog rpc <+: (handled.1.nodes i).log ∧
        sent leaderLog rpc <+: ((raftDeliver handled.1 i later).nodes i).log) := by
  intro handled
  have here := cut rpc (List.mem_append_right _ (List.mem_cons_self ..))
  obtain ⟨reached, -⟩ := Follows.deliver before ⟨current, agree⟩
    (fun other inside => cut other (List.mem_append_left _ inside)) room
  obtain ⟨next, covers, -⟩ := reached.handle here room
  obtain ⟨-, keeps⟩ := next.deliver later
    (fun other inside => cut other (List.mem_append_right _ (List.mem_cons_of_mem _ inside))) room
  exact ⟨next.matching, fun success => ⟨covers success, keeps _ (List.take_prefix _ _) (covers success)⟩⟩

/-- The log of a leader in term 2. -/
def threeEntries : List LogEntry := [⟨1, 10⟩, ⟨2, 20⟩, ⟨2, 30⟩]

/-- A node holds an entry of term 1 where the leader has one of term 2. -/
def conflicting (i : Fin 2) : Cluster 2 :=
  (raftInitCluster 2 0).modify i fun nd =>
    { nd with
      currentTerm := 1
      log := [⟨1, 10⟩, ⟨1, 90⟩] }

def cutRequest (leader : Fin 2) (prevLogIndex prevLogTerm count : Nat) : AppendEntriesRPC 2 :=
  ⟨2, leader, prevLogIndex, prevLogTerm, (threeEntries.drop prevLogIndex).take count, 0⟩

/-- A request too early is refused, the conflict is overwritten, and an old request takes nothing back. -/
theorem conflicting_reordered :
    (raftHandleAppendEntries (raftDeliver (conflicting 1) 1 [cutRequest 0 2 2 1]) 1
        (cutRequest 0 1 1 2)).2 = true ∧
      sent threeEntries (cutRequest 0 1 1 2) <+:
        ((raftDeliver (raftHandleAppendEntries (raftDeliver (conflicting 1) 1 [cutRequest 0 2 2 1]) 1
          (cutRequest 0 1 1 2)).1 1 [cutRequest 0 0 0 1]).nodes 1).log := by
  have accepted : (raftHandleAppendEntries (raftDeliver (conflicting 1) 1 [cutRequest 0 2 2 1]) 1
      (cutRequest 0 1 1 2)).2 = true := by decide
  have agree : Matching ((conflicting 1).nodes 1).log threeEntries := by
    change Matching [⟨1, 10⟩, ⟨1, 90⟩] threeEntries
    rintro (_ | _ | index) first second present found terms
    · rfl
    · cases present
      cases found
      exact absurd terms (by decide)
    · cases present
  have cut : ∀ other ∈ [cutRequest 0 2 2 1] ++ cutRequest 0 1 1 2 :: [cutRequest 0 0 0 1],
      CutFrom threeEntries 2 other := by
    intro other inside
    simp only [List.cons_append, List.nil_append, List.mem_cons, List.not_mem_nil, or_false] at inside
    rcases inside with rfl | rfl | rfl
    · exact ⟨rfl, by decide, by decide, ⟨1, rfl⟩, by decide⟩
    · exact ⟨rfl, by decide, by decide, ⟨2, rfl⟩, by decide⟩
    · exact ⟨rfl, by decide, by decide, ⟨1, rfl⟩, by decide⟩
  exact ⟨accepted, ((raft_append_entries_reordered [cutRequest 0 2 2 1] [cutRequest 0 0 0 1] (cutRequest 0 1 1 2)
    (by decide) (by decide) agree cut).2 accepted).2⟩

end MiniNetDist.DistProtocol.Raft
