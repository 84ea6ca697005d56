import Mathlib.Data.Fintype.Card
import Mathlib.Data.List.FinRange
import MiniNetDist.Library.RootedLog

/-! The Raft simulation of `mini-dist-protocol/src/raft.c`. All nodes live in one
array and call each other's handlers directly, so a remote call is a change of
the receiver's entry; `nodes[i].id` is `i` and `cluster_size` is `n` throughout.
Terms and log positions count single steps from zero; the millisecond counters
take arbitrary deltas and wrap as `uint64_t` does. -/

namespace MiniNetDist.DistProtocol.Raft

def RAFT_MAX_LOG_ENTRIES : Nat := 1024
def RAFT_MAX_RPC_ENTRIES : Nat := 128
def RAFT_ELECTION_TIMEOUT_MIN_MS : UInt64 := 150
def RAFT_ELECTION_TIMEOUT_MAX_MS : UInt64 := 300
def RAFT_HEARTBEAT_INTERVAL_MS : UInt64 := 50

inductive RaftState where
  | follower
  | candidate
  | leader
  deriving DecidableEq, Repr

abbrev LogEntry := Library.Stamped Int

structure AppendEntriesRPC (n : Nat) where
  term : Nat
  leaderId : Fin n
  prevLogIndex : Nat
  prevLogTerm : Nat
  entries : List LogEntry
  leaderCommit : Nat

structure RequestVoteRPC (n : Nat) where
  term : Nat
  candidateId : Fin n
  lastLogIndex : Nat
  lastLogTerm : Nat

/-- One node. `votedFor` is `none` for the source's -1, and `log` holds the
`log_count` entries in use. -/
structure RaftNode (n : Nat) where
  state : RaftState
  currentTerm : Nat
  votedFor : Option (Fin n)
  log : List LogEntry
  commitIndex : Nat
  nextIndex : Fin n → Nat
  matchIndex : Fin n → Nat
  electionTimeoutMs : UInt64
  electionElapsedMs : UInt64
  heartbeatElapsedMs : UInt64
  votesReceived : Nat
  active : Bool

/-- The node array together with the generator state `g_seed`. -/
structure Cluster (n : Nat) where
  seed : UInt64
  nodes : Fin n → RaftNode n

variable {n : Nat}

def Cluster.modify (cluster : Cluster n) (node : Fin n) (change : RaftNode n → RaftNode n) :
    Cluster n :=
  { cluster with nodes := fun i => if i = node then change (cluster.nodes node) else cluster.nodes i }

/-- `raft_rand`: the drawn number and the next seed. -/
def raftRand (seed : UInt64) : UInt64 × UInt64 :=
  let next := seed * 1103515245 + 12345
  (next / 65536 % 32768, next)

def raftRandomTimeout (seed : UInt64) : UInt64 × UInt64 :=
  let (drawn, next) := raftRand seed
  (RAFT_ELECTION_TIMEOUT_MIN_MS +
    drawn % (RAFT_ELECTION_TIMEOUT_MAX_MS - RAFT_ELECTION_TIMEOUT_MIN_MS + 1), next)

def raftQuorumSize (clusterSize : Nat) : Nat := clusterSize / 2 + 1

def raftInitNode (n : Nat) (timeout : UInt64) : RaftNode n where
  state := .follower
  currentTerm := 0
  votedFor := none
  log := []
  commitIndex := 0
  nextIndex := fun _ => 1
  matchIndex := fun _ => 0
  electionTimeoutMs := timeout
  electionElapsedMs := 0
  heartbeatElapsedMs := 0
  votesReceived := 0
  active := true

/-- One pass of the loop in `raft_init_cluster`. -/
def raftInitEntry (cluster : Cluster n) (i : Fin n) : Cluster n :=
  let (timeout, next) := raftRandomTimeout cluster.seed
  { cluster with seed := next }.modify i fun _ => raftInitNode n timeout

/-- The loop overwrites every entry of the array; the seed stands for the clock
and the array's address. `n` is at most `RAFT_MAX_NODES`, which
`raft_init_cluster` does not check. -/
def raftInitCluster (n : Nat) (seed : UInt64) : Cluster n :=
  (List.finRange n).foldl raftInitEntry ⟨seed, fun _ => raftInitNode n 0⟩

def raftBecomeFollower (cluster : Cluster n) (node : Fin n) (term : Nat) : Cluster n :=
  let (timeout, next) := raftRandomTimeout cluster.seed
  { cluster with seed := next }.modify node fun nd =>
    { nd with
      currentTerm := if term > nd.currentTerm then term else nd.currentTerm
      state := .follower
      votedFor := none
      votesReceived := 0
      electionTimeoutMs := timeout
      electionElapsedMs := 0 }

def raftBecomeCandidate (cluster : Cluster n) (node : Fin n) : Cluster n :=
  let (timeout, next) := raftRandomTimeout cluster.seed
  { cluster with seed := next }.modify node fun nd =>
    { nd with
      state := .candidate
      currentTerm := nd.currentTerm + 1
      votedFor := some node
      votesReceived := 1
      electionTimeoutMs := timeout
      electionElapsedMs := 0 }

def raftBecomeLeader (cluster : Cluster n) (node : Fin n) : Cluster n :=
  cluster.modify node fun nd =>
    { nd with
      state := .leader
      votedFor := none
      votesReceived := 0
      nextIndex := fun _ => nd.log.length + 1
      matchIndex := fun _ => 0
      heartbeatElapsedMs := 0 }

def raftLastLogIndex (node : RaftNode n) : Nat := node.log.length

def raftLastLogTerm (node : RaftNode n) : Nat := Library.lastTerm node.log

def raftLogOk (node : RaftNode n) (prevLogIndex prevLogTerm : Nat) : Bool :=
  if prevLogIndex = 0 then true
  else if prevLogIndex > node.log.length then false
  else (node.log[prevLogIndex - 1]?.map (·.term)) == some prevLogTerm

/-- The copy loop of `raft_handle_append_entries`; `pos` is the array position
of the next entry. -/
def raftAppendLoop : Nat → List LogEntry → List LogEntry → List LogEntry
  | _, [], log => log
  | pos, entry :: rest, log =>
    if pos ≥ RAFT_MAX_LOG_ENTRIES then log
    else if pos < log.length then
      -- A conflicting entry cuts the log at `pos` before it is overwritten.
      if (log[pos]?.map (·.term)) ≠ some entry.term then
        raftAppendLoop (pos + 1) rest (log.take pos ++ [entry])
      else raftAppendLoop (pos + 1) rest log
    else raftAppendLoop (pos + 1) rest (log ++ [entry])

/-- The commit index after an accepted call. -/
def raftFollowCommit (node : RaftNode n) (rpc : AppendEntriesRPC n) : Nat :=
  if rpc.leaderCommit > node.commitIndex then
    let lastNew := rpc.prevLogIndex + rpc.entries.length
    let newCommit := if rpc.leaderCommit > lastNew then lastNew else rpc.leaderCommit
    if newCommit > node.commitIndex then newCommit else node.commitIndex
  else node.commitIndex

def raftHandleAppendEntries (cluster : Cluster n) (node : Fin n) (rpc : AppendEntriesRPC n) :
    Cluster n × Bool :=
  if rpc.term < (cluster.nodes node).currentTerm then (cluster, false)
  else
    let cluster := if rpc.term > (cluster.nodes node).currentTerm
      then raftBecomeFollower cluster node rpc.term else cluster
    let cluster := cluster.modify node fun nd =>
      { nd with electionElapsedMs := 0, heartbeatElapsedMs := 0 }
    if raftLogOk (cluster.nodes node) rpc.prevLogIndex rpc.prevLogTerm then
      (cluster.modify node fun nd =>
        { nd with
          log := raftAppendLoop rpc.prevLogIndex rpc.entries nd.log
          commitIndex := raftFollowCommit nd rpc }, true)
    else (cluster, false)

/-- The log comparison of `raft_handle_request_vote`. -/
def raftVoteLogOk (node : RaftNode n) (rpc : RequestVoteRPC n) : Bool :=
  decide (rpc.lastLogTerm > raftLastLogTerm node ∨
    rpc.lastLogTerm = raftLastLogTerm node ∧ rpc.lastLogIndex ≥ raftLastLogIndex node)

/-- The cluster after the call, its return value, and whether the vote was granted. -/
def raftHandleRequestVote (cluster : Cluster n) (node : Fin n) (rpc : RequestVoteRPC n) :
    Cluster n × Bool × Bool :=
  if rpc.term < (cluster.nodes node).currentTerm then (cluster, false, false)
  else
    let cluster := if rpc.term > (cluster.nodes node).currentTerm
      then raftBecomeFollower cluster node rpc.term else cluster
    let nd := cluster.nodes node
    if nd.votedFor = none ∨ nd.votedFor = some rpc.candidateId then
      if raftVoteLogOk nd rpc then
        (cluster.modify node fun nd =>
          { nd with votedFor := some rpc.candidateId, electionElapsedMs := 0 }, true, true)
      else (cluster, true, false)
    else (cluster, false, false)

def raftRequestVoteRPC (cluster : Cluster n) (node : Fin n) : RequestVoteRPC n where
  term := (cluster.nodes node).currentTerm
  candidateId := node
  lastLogIndex := raftLastLogIndex (cluster.nodes node)
  lastLogTerm := raftLastLogTerm (cluster.nodes node)

/-- One pass of the loop in `raft_send_request_vote`. -/
def raftRequestVoteFrom (rpc : RequestVoteRPC n) (node : Fin n) (cluster : Cluster n) (i : Fin n) :
    Cluster n :=
  if i = node ∨ (cluster.nodes i).active = false then cluster
  else
    let (cluster, _, granted) := raftHandleRequestVote cluster i rpc
    if granted ∧ (cluster.nodes i).currentTerm ≥ (cluster.nodes node).currentTerm then
      cluster.modify node fun nd => { nd with votesReceived := nd.votesReceived + 1 }
    else cluster

def raftSendRequestVote (cluster : Cluster n) (node : Fin n) : Cluster n :=
  (List.finRange n).foldl (raftRequestVoteFrom (raftRequestVoteRPC cluster node) node) cluster

/-- The term of the entry before the next one for a follower, as both senders
compute it. -/
def raftPrevLogTerm (node : RaftNode n) (prevLogIndex : Nat) : Nat :=
  if prevLogIndex > 0 ∧ prevLogIndex ≤ node.log.length then
    (node.log[prevLogIndex - 1]?.map (·.term)).getD 0
  else 0

def raftAppendRPC (cluster : Cluster n) (node i : Fin n) (entries : List LogEntry) :
    AppendEntriesRPC n :=
  let nd := cluster.nodes node
  { term := nd.currentTerm
    leaderId := node
    prevLogIndex := nd.nextIndex i - 1
    prevLogTerm := raftPrevLogTerm nd (nd.nextIndex i - 1)
    entries := entries
    leaderCommit := nd.commitIndex }

def raftHeartbeatTo (node : Fin n) (cluster : Cluster n) (i : Fin n) : Cluster n :=
  if i = node ∨ (cluster.nodes i).active = false then cluster
  else (raftHandleAppendEntries cluster i (raftAppendRPC cluster node i [])).1

def raftSendHeartbeat (cluster : Cluster n) (node : Fin n) : Cluster n :=
  (List.finRange n).foldl (raftHeartbeatTo node) cluster

/-- One pass of the replication loop in `raft_send_append_entries`. -/
def raftAppendTo (node : Fin n) (cluster : Cluster n) (i : Fin n) : Cluster n :=
  if i = node ∨ (cluster.nodes i).active = false then cluster
  else
    let nd := cluster.nodes node
    let entries := (nd.log.drop (nd.nextIndex i - 1)).take RAFT_MAX_RPC_ENTRIES
    let (cluster, success) := raftHandleAppendEntries cluster i (raftAppendRPC cluster node i entries)
    cluster.modify node fun nd =>
      if success then
        { nd with
          nextIndex := fun j => if j = i then nd.nextIndex i + entries.length else nd.nextIndex j
          matchIndex := fun j => if j = i then nd.nextIndex i + entries.length - 1 else nd.matchIndex j }
      else
        { nd with
          nextIndex := fun j => if j = i ∧ nd.nextIndex i > 1 then nd.nextIndex i - 1 else nd.nextIndex j }

/-- The number of nodes that hold the first `count` entries, the leader included. -/
def raftMatched (cluster : Cluster n) (node : Fin n) (count : Nat) : Nat :=
  (List.finRange n).foldl (fun matched i =>
    if i = node then matched
    else if (cluster.nodes i).active = false then matched
    else if (cluster.nodes node).matchIndex i ≥ count then matched + 1
    else matched) 1

/-- The commit scan of `raft_send_append_entries`, from the end of the log down. -/
def raftCommitScan (cluster : Cluster n) (node : Fin n) : Nat → Nat
  | 0 => (cluster.nodes node).commitIndex
  | count + 1 =>
    let nd := cluster.nodes node
    if count + 1 > nd.commitIndex then
      if (nd.log[count]?.map (·.term)) ≠ some nd.currentTerm then raftCommitScan cluster node count
      else if raftMatched cluster node (count + 1) ≥ raftQuorumSize n then count + 1
      else raftCommitScan cluster node count
    else nd.commitIndex

def raftSendAppendEntries (cluster : Cluster n) (node : Fin n) : Cluster n :=
  let cluster := (List.finRange n).foldl (raftAppendTo node) cluster
  cluster.modify node fun nd =>
    { nd with commitIndex := raftCommitScan cluster node (raftLastLogIndex nd) }

def raftTickNode (deltaMs : UInt64) (cluster : Cluster n) (i : Fin n) : Cluster n :=
  if (cluster.nodes i).active = false then cluster
  else match (cluster.nodes i).state with
  | .follower =>
    let cluster := cluster.modify i fun nd =>
      { nd with electionElapsedMs := nd.electionElapsedMs + deltaMs }
    if (cluster.nodes i).electionElapsedMs ≥ (cluster.nodes i).electionTimeoutMs
    then raftBecomeCandidate cluster i else cluster
  | .candidate =>
    let cluster := cluster.modify i fun nd =>
      { nd with electionElapsedMs := nd.electionElapsedMs + deltaMs }
    if (cluster.nodes i).electionElapsedMs ≥ (cluster.nodes i).electionTimeoutMs
    then raftBecomeCandidate cluster i
    else
      let cluster := raftSendRequestVote cluster i
      if (cluster.nodes i).votesReceived ≥ raftQuorumSize n
      then raftBecomeLeader cluster i else cluster
  | .leader =>
    let cluster := cluster.modify i fun nd =>
      { nd with heartbeatElapsedMs := nd.heartbeatElapsedMs + deltaMs }
    if (cluster.nodes i).heartbeatElapsedMs ≥ RAFT_HEARTBEAT_INTERVAL_MS then
      let cluster := raftSendAppendEntries (raftSendHeartbeat cluster i) i
      cluster.modify i fun nd => { nd with heartbeatElapsedMs := 0 }
    else cluster

def raftTick (cluster : Cluster n) (deltaMs : UInt64) : Cluster n :=
  (List.finRange n).foldl (raftTickNode deltaMs) cluster

def raftSubmitCommand (cluster : Cluster n) (leader : Fin n) (commandValue : Int) :
    Cluster n × Bool :=
  let nd := cluster.nodes leader
  if nd.state ≠ .leader then (cluster, false)
  else if nd.log.length ≥ RAFT_MAX_LOG_ENTRIES then (cluster, false)
  else
    let cluster := cluster.modify leader fun nd =>
      { nd with log := nd.log ++ [⟨nd.currentTerm, commandValue⟩] }
    (raftSendAppendEntries cluster leader, true)

def raftIsolateNode (cluster : Cluster n) (node : Fin n) : Cluster n :=
  cluster.modify node fun nd => { nd with active := false }

def raftReconnectNode (cluster : Cluster n) (nodeId : Int) : Cluster n :=
  if range : 0 ≤ nodeId ∧ nodeId < n then
    let node : Fin n := ⟨nodeId.toNat, by omega⟩
    let cluster := cluster.modify node fun nd => { nd with active := true }
    raftBecomeFollower cluster node (cluster.nodes node).currentTerm
  else cluster

/-- The calls a program makes on a cluster. -/
inductive RaftCall (n : Nat) where
  | tick (deltaMs : UInt64)
  | submit (leader : Fin n) (commandValue : Int)
  | isolate (node : Fin n)
  | reconnect (nodeId : Int)

def raftStep (cluster : Cluster n) : RaftCall n → Cluster n
  | .tick deltaMs => raftTick cluster deltaMs
  | .submit leader commandValue => (raftSubmitCommand cluster leader commandValue).1
  | .isolate node => raftIsolateNode cluster node
  | .reconnect nodeId => raftReconnectNode cluster nodeId

end MiniNetDist.DistProtocol.Raft
