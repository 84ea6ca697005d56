import Mathlib.Data.Fintype.Card
import Mathlib.Data.List.FinRange
import MiniNetDist.Library.RootedLog

/-! The message-passing Raft of `mini-dist-system-theory/src/raft.c`. Handlers
read and write one cluster record and enqueue their messages in its bounded
queue; whoever drives the simulation dequeues and delivers them. `nodes[i].id`
is `i`; -1 stands as `none` for a missing vote or leader and as itself for log
positions. Terms and the simulated clock count single steps from zero. -/

namespace MiniNetDist.SystemTheory.Raft

def RAFT_MAX_NODES : Nat := 7
def RAFT_MAX_LOG : Nat := 256
def RAFT_MAX_MSG_QUEUE : Nat := 128

inductive RaftRole where
  | follower
  | candidate
  | leader
  deriving DecidableEq, Repr

abbrev RaftLogEntry := Library.Stamped Int

structure RaftNode (n : Nat) where
  role : RaftRole
  currentTerm : Nat
  votedFor : Option (Fin n)
  log : List RaftLogEntry
  commitIndex : Int
  nextIndex : Fin n → Int
  matchIndex : Fin n → Int
  votesReceived : Nat
  electionDeadlineMs : Nat

inductive RaftMsgType where
  | requestVote
  | requestVoteReply
  | appendEntries
  | appendEntriesReply
  | clientCommand
  deriving DecidableEq, Repr

/-- A message; the defaults are the zeroed fields of the source's builders. -/
structure RaftMessage (n : Nat) where
  type : RaftMsgType
  sender : Fin n
  receiver : Fin n
  term : Nat
  lastLogIndex : Int := 0
  lastLogTerm : Nat := 0
  voteGranted : Bool := false
  prevLogIndex : Int := 0
  prevLogTerm : Nat := 0
  entries : List RaftLogEntry := []
  leaderCommit : Int := 0
  success : Bool := false
  matchIndexReply : Int := 0
  command : Int := 0

/-- The cluster record. `messageQueue` lists the messages between `msg_head` and
`msg_tail`, and `randCalls` counts the values drawn from `rand`. -/
structure RaftCluster (n : Nat) where
  nodes : Fin n → RaftNode n
  messageQueue : List (RaftMessage n)
  leaderId : Option (Fin n)
  simTimeMs : Nat
  randCalls : Nat

variable {n : Nat}

def RaftCluster.modify (rc : RaftCluster n) (nid : Fin n) (change : RaftNode n → RaftNode n) :
    RaftCluster n :=
  { rc with nodes := fun i => if i = nid then change (rc.nodes nid) else rc.nodes i }

/-- `raft_random_election_timeout`, where `rand k` is the `k`-th value of the C
library's generator. -/
def raftRandomElectionTimeout (rand : Nat → Nat) (calls : Nat) : Nat := 150 + rand calls % 151

/-- Give a node a fresh election deadline. -/
def raftResetDeadline (rand : Nat → Nat) (rc : RaftCluster n) (nid : Fin n) : RaftCluster n :=
  { rc with randCalls := rc.randCalls + 1 }.modify nid fun nd =>
    { nd with electionDeadlineMs := rc.simTimeMs + raftRandomElectionTimeout rand rc.randCalls }

def raftLastLogIndex (nd : RaftNode n) : Int := nd.log.length - 1

def raftLastLogTerm (nd : RaftNode n) : Nat := Library.lastTerm nd.log

/-- A full ring keeps one slot free and drops the message. -/
def raftEnqueueMsg (rc : RaftCluster n) (msg : RaftMessage n) : RaftCluster n :=
  if rc.messageQueue.length + 1 = RAFT_MAX_MSG_QUEUE then rc
  else { rc with messageQueue := rc.messageQueue ++ [msg] }

def raftDequeueMsg (rc : RaftCluster n) : RaftCluster n × Option (RaftMessage n) :=
  match rc.messageQueue with
  | [] => (rc, none)
  | msg :: rest => ({ rc with messageQueue := rest }, some msg)

def raftQuorumSize (n : Nat) : Nat := n / 2 + 1

def raftLogOk (nd : RaftNode n) (prevLogIndex : Int) (prevLogTerm : Nat) : Bool :=
  if prevLogIndex < 0 then true
  else if prevLogIndex ≥ nd.log.length then false
  else (nd.log[prevLogIndex.toNat]?.map (·.term)) == some prevLogTerm

/-- The number of nodes that hold the entry at `index`, the leader included. -/
def raftReplicated (rc : RaftCluster n) (lid : Fin n) (index : Nat) : Nat :=
  (List.finRange n).foldl (fun replicated i =>
    if i = lid then replicated
    else if (rc.nodes lid).matchIndex i ≥ index then replicated + 1
    else replicated) 1

/-- The loop of `raft_advance_commit` from `index` on, for `rest` more entries. -/
def raftAdvanceLoop (rc : RaftCluster n) (lid : Fin n) : Nat → Nat → Int → Int
  | 0, _, commitIndex => commitIndex
  | rest + 1, index, commitIndex =>
    if ((rc.nodes lid).log[index]?.map (·.term)) ≠ some (rc.nodes lid).currentTerm then
      raftAdvanceLoop rc lid rest (index + 1) commitIndex
    else if raftReplicated rc lid index ≥ raftQuorumSize n then
      raftAdvanceLoop rc lid rest (index + 1) index
    else raftAdvanceLoop rc lid rest (index + 1) commitIndex

def raftAdvanceCommit (rc : RaftCluster n) (lid : Fin n) : RaftCluster n :=
  rc.modify lid fun nd =>
    let start := (nd.commitIndex + 1).toNat
    { nd with commitIndex := raftAdvanceLoop rc lid (nd.log.length - start) start nd.commitIndex }

/-- The number of nodes `raft_init_cluster` sets up for an argument. -/
def raftNodeCount (n : Int) : Nat :=
  if n > RAFT_MAX_NODES then RAFT_MAX_NODES else if n < 1 then 3 else n.toNat

def raftInitCluster (rand : Nat → Nat) (n : Int) : RaftCluster (raftNodeCount n) where
  nodes := fun i =>
    { role := .follower
      currentTerm := 0
      votedFor := none
      log := []
      commitIndex := -1
      nextIndex := fun _ => 0
      matchIndex := fun _ => -1
      votesReceived := 0
      electionDeadlineMs := raftRandomElectionTimeout rand i }
  messageQueue := []
  leaderId := none
  simTimeMs := 0
  randCalls := raftNodeCount n

def raftBuildRequestVote (rc : RaftCluster n) (sender receiver : Fin n) : RaftMessage n :=
  { type := .requestVote, sender, receiver
    term := (rc.nodes sender).currentTerm
    lastLogIndex := raftLastLogIndex (rc.nodes sender)
    lastLogTerm := raftLastLogTerm (rc.nodes sender) }

def raftBuildRequestVoteReply (sender receiver : Fin n) (term : Nat) (granted : Bool) : RaftMessage n :=
  { type := .requestVoteReply, sender, receiver, term, voteGranted := granted }

/-- The builder never fills `entries`. -/
def raftBuildAppendEntries (rc : RaftCluster n) (sender receiver : Fin n) : RaftMessage n :=
  let l := rc.nodes sender
  let prevLogIndex := l.nextIndex receiver - 1
  { type := .appendEntries, sender, receiver
    term := l.currentTerm
    prevLogIndex := prevLogIndex
    prevLogTerm := if prevLogIndex ≥ 0 ∧ prevLogIndex < l.log.length
      then (l.log[prevLogIndex.toNat]?.map (·.term)).getD 0 else 0
    leaderCommit := l.commitIndex }

def raftBuildAppendEntriesReply (sender receiver : Fin n) (term : Nat) (success : Bool)
    (matchIdx : Int) : RaftMessage n :=
  { type := .appendEntriesReply, sender, receiver, term, success, matchIndexReply := matchIdx }

def raftLeaderSendHeartbeats (rc : RaftCluster n) : RaftCluster n :=
  match rc.leaderId with
  | none => rc
  | some lid => (List.finRange n).foldl (fun rc i =>
      if i = lid then rc else raftEnqueueMsg rc (raftBuildAppendEntries rc lid i)) rc

def raftBecomeLeader (rc : RaftCluster n) (nid : Fin n) : RaftCluster n :=
  let rc := { rc with leaderId := some nid }.modify nid fun nd =>
    { nd with role := .leader, nextIndex := fun _ => nd.log.length, matchIndex := fun _ => -1 }
  raftLeaderSendHeartbeats rc

def raftBecomeFollower (rand : Nat → Nat) (rc : RaftCluster n) (nid : Fin n) (term : Nat) :
    RaftCluster n :=
  raftResetDeadline rand (rc.modify nid fun nd =>
    { nd with role := .follower, currentTerm := term, votedFor := none }) nid

def raftStartElection (rand : Nat → Nat) (rc : RaftCluster n) (nid : Fin n) : RaftCluster n :=
  let rc := rc.modify nid fun nd =>
    { nd with
      role := .candidate
      currentTerm := nd.currentTerm + 1
      votedFor := some nid
      votesReceived := 1 }
  let rc := raftResetDeadline rand rc nid
  let rc := (List.finRange n).foldl (fun rc i =>
    if i = nid then rc else raftEnqueueMsg rc (raftBuildRequestVote rc nid i)) rc
  if (rc.nodes nid).votesReceived ≥ raftQuorumSize n then raftBecomeLeader rc nid else rc

/-- One pass of the loop in `raft_tick`. -/
def raftTickNode (rand : Nat → Nat) (rc : RaftCluster n) (i : Fin n) : RaftCluster n :=
  if (rc.nodes i).role = .leader then rc
  else if rc.simTimeMs ≥ (rc.nodes i).electionDeadlineMs then
    raftResetDeadline rand (raftStartElection rand rc i) i
  else rc

def raftTick (rand : Nat → Nat) (rc : RaftCluster n) : RaftCluster n :=
  (List.finRange n).foldl (raftTickNode rand) { rc with simTimeMs := rc.simTimeMs + 1 }

def raftHandleRequestVote (rand : Nat → Nat) (rc : RaftCluster n) (m : RaftMessage n) : RaftCluster n :=
  if m.term < (rc.nodes m.receiver).currentTerm then
    raftEnqueueMsg rc (raftBuildRequestVoteReply m.receiver m.sender
      (rc.nodes m.receiver).currentTerm false)
  else
    let rc := if m.term > (rc.nodes m.receiver).currentTerm
      then raftBecomeFollower rand rc m.receiver m.term else rc
    let nd := rc.nodes m.receiver
    let grant := decide ((nd.votedFor = none ∨ nd.votedFor = some m.sender) ∧
      (m.lastLogTerm > raftLastLogTerm nd ∨
        m.lastLogTerm = raftLastLogTerm nd ∧ m.lastLogIndex ≥ raftLastLogIndex nd))
    let rc := if grant then
        raftResetDeadline rand (rc.modify m.receiver fun nd => { nd with votedFor := some m.sender })
          m.receiver
      else rc
    raftEnqueueMsg rc (raftBuildRequestVoteReply m.receiver m.sender
      (rc.nodes m.receiver).currentTerm grant)

def raftHandleRequestVoteReply (rand : Nat → Nat) (rc : RaftCluster n) (m : RaftMessage n) :
    RaftCluster n :=
  if m.term > (rc.nodes m.receiver).currentTerm then raftBecomeFollower rand rc m.receiver m.term
  else if m.term < (rc.nodes m.receiver).currentTerm then rc
  else if (rc.nodes m.receiver).role = .candidate ∧ m.voteGranted = true then
    let rc := rc.modify m.receiver fun nd => { nd with votesReceived := nd.votesReceived + 1 }
    if (rc.nodes m.receiver).votesReceived ≥ raftQuorumSize n then raftBecomeLeader rc m.receiver else rc
  else rc

/-- The copy loop of `raft_handle_append_entries`; `idx` is the position of the
next entry. Returns the log and the last position copied. -/
def raftAppendLoop : Int → List RaftLogEntry → List RaftLogEntry → Int → List RaftLogEntry × Int
  | _, [], log, mi => (log, mi)
  | idx, entry :: rest, log, _ =>
    let log := if idx < log.length ∧ (log[idx.toNat]?.map (·.term)) ≠ some entry.term
      then log.take idx.toNat else log
    let log := if idx ≥ log.length ∧ log.length < RAFT_MAX_LOG then log ++ [entry] else log
    raftAppendLoop (idx + 1) rest log idx

def raftHandleAppendEntries (rand : Nat → Nat) (rc : RaftCluster n) (m : RaftMessage n) : RaftCluster n :=
  if m.term < (rc.nodes m.receiver).currentTerm then
    raftEnqueueMsg rc (raftBuildAppendEntriesReply m.receiver m.sender
      (rc.nodes m.receiver).currentTerm false (-1))
  else
    let rc := raftResetDeadline rand rc m.receiver
    let rc := if m.term > (rc.nodes m.receiver).currentTerm
      then raftBecomeFollower rand rc m.receiver m.term else rc
    let rc := rc.modify m.receiver fun nd =>
      { nd with role := if nd.role = .candidate then .follower else nd.role }
    let rc := { rc with leaderId := some m.sender }
    if raftLogOk (rc.nodes m.receiver) m.prevLogIndex m.prevLogTerm then
      let copied := raftAppendLoop (m.prevLogIndex + 1) m.entries (rc.nodes m.receiver).log m.prevLogIndex
      let rc := rc.modify m.receiver fun nd =>
        { nd with
          log := copied.1
          commitIndex := if m.leaderCommit > nd.commitIndex then
              if m.leaderCommit ≥ copied.1.length then copied.1.length - 1 else m.leaderCommit
            else nd.commitIndex }
      raftEnqueueMsg rc (raftBuildAppendEntriesReply m.receiver m.sender
        (rc.nodes m.receiver).currentTerm true copied.2)
    else
      raftEnqueueMsg rc (raftBuildAppendEntriesReply m.receiver m.sender
        (rc.nodes m.receiver).currentTerm false (-1))

def raftHandleAppendEntriesReply (rand : Nat → Nat) (rc : RaftCluster n) (m : RaftMessage n) :
    RaftCluster n :=
  if m.term > (rc.nodes m.receiver).currentTerm then
    { raftBecomeFollower rand rc m.receiver m.term with leaderId := none }
  else if (rc.nodes m.receiver).role ≠ .leader then rc
  else if m.success then
    raftAdvanceCommit (rc.modify m.receiver fun l =>
      { l with
        matchIndex := fun i => if i = m.sender then m.matchIndexReply else l.matchIndex i
        nextIndex := fun i => if i = m.sender then m.matchIndexReply + 1 else l.nextIndex i }) m.receiver
  else if (rc.nodes m.receiver).nextIndex m.sender > 0 then
    rc.modify m.receiver fun l =>
      { l with nextIndex := fun i => if i = m.sender then l.nextIndex i - 1 else l.nextIndex i }
  else rc

/-- Nothing here asks whether the node named by `leader_id` leads. -/
def raftLeaderAppendEntry (rc : RaftCluster n) (cmd : Int) : RaftCluster n :=
  match rc.leaderId with
  | none => rc
  | some lid =>
    if (rc.nodes lid).log.length ≥ RAFT_MAX_LOG then rc
    else rc.modify lid fun l =>
      { l with
        log := l.log ++ [⟨l.currentTerm, cmd⟩]
        matchIndex := fun i => if i = lid then l.log.length else l.matchIndex i
        nextIndex := fun i => if i = lid then l.log.length + 1 else l.nextIndex i }

def raftLeaderCommitEntries (rc : RaftCluster n) : RaftCluster n × Bool :=
  match rc.leaderId with
  | none => (rc, false)
  | some lid => (raftAdvanceCommit rc lid, true)

/-- The cluster after the call and, on success, the index put in `out_log_index`. -/
def raftClientSubmit (rc : RaftCluster n) (cmd : Int) : RaftCluster n × Option Int :=
  match rc.leaderId with
  | none => (rc, none)
  | some lid =>
    let rc := raftLeaderAppendEntry rc cmd
    (rc, some (raftLastLogIndex (rc.nodes lid)))

def raftProcessMessage (rand : Nat → Nat) (rc : RaftCluster n) (m : RaftMessage n) : RaftCluster n :=
  match m.type with
  | .requestVote => raftHandleRequestVote rand rc m
  | .requestVoteReply => raftHandleRequestVoteReply rand rc m
  | .appendEntries => raftHandleAppendEntries rand rc m
  | .appendEntriesReply => raftHandleAppendEntriesReply rand rc m
  | .clientCommand => if rc.leaderId.isSome then raftLeaderAppendEntry rc m.command else rc

/-- A cluster and the messages taken from its queue but not yet delivered. -/
structure Network (n : Nat) where
  cluster : RaftCluster n
  inFlight : List (RaftMessage n)

/-- The calls a driver makes. A message leaves the queue once, is delivered from
any position among those in flight, and may be lost instead. -/
inductive RaftCall where
  | tick
  | clientSubmit (cmd : Int)
  | sendHeartbeats
  | commitEntries
  | dequeue
  | deliver (position : Nat)
  | lose (position : Nat)

def raftStep (rand : Nat → Nat) (net : Network n) : RaftCall → Network n
  | .tick => { net with cluster := raftTick rand net.cluster }
  | .clientSubmit cmd => { net with cluster := (raftClientSubmit net.cluster cmd).1 }
  | .sendHeartbeats => { net with cluster := raftLeaderSendHeartbeats net.cluster }
  | .commitEntries => { net with cluster := (raftLeaderCommitEntries net.cluster).1 }
  | .dequeue =>
    let (cluster, msg) := raftDequeueMsg net.cluster
    ⟨cluster, net.inFlight ++ msg.toList⟩
  | .deliver position =>
    match net.inFlight[position]? with
    | none => net
    | some msg => ⟨raftProcessMessage rand net.cluster msg, net.inFlight.eraseIdx position⟩
  | .lose position => { net with inFlight := net.inFlight.eraseIdx position }

def raftInitNetwork (rand : Nat → Nat) (n : Int) : Network (raftNodeCount n) :=
  ⟨raftInitCluster rand n, []⟩

end MiniNetDist.SystemTheory.Raft
