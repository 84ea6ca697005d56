import MiniNetDist.Library.Fifo
import MiniNetDist.SystemTheory.LeaderElection
import Mathlib.Algebra.Group.Action.Defs
import Mathlib.Algebra.Order.BigOperators.Group.List

/-! The message-driven bully election of `mini-dist-system-theory/src/leader_election.c`, in the mode `LE_BULLY`. A node
that is asked asks all nodes above it again, so a large network fills the queue and loses messages. -/

namespace MiniNetDist.SystemTheory.LeaderElection

open Library Library.Circle Library.Fifo

def leMaxNodes : Nat := 16

variable {n : Nat}

/-- The nodes that an election of this node asks. -/
def leHigher (nodes : Fin n → LENode) (nodeId : Fin n) : List (Fin n) :=
  (List.finRange n).filter fun i =>
    !(i = nodeId ∨ (nodes i).isActive = false) && decide ((nodes nodeId).priority < (nodes i).priority)

def leElectionMsg (nodes : Fin n → LENode) (nodeId i : Fin n) : LEMessage :=
  ⟨.election, nodeId.val, i.val, (nodes nodeId).priority, nodeId.val⟩

def leCoordinatorMsg (nodes : Fin n → LENode) (nodeId i : Fin n) : LEMessage :=
  ⟨.coordinator, nodeId.val, i.val, (nodes nodeId).priority, nodeId.val⟩

/-- The messages of an election, or those of the leader that nobody is above. -/
def leBullyMessages (nodes : Fin n → LENode) (nodeId : Fin n) : List LEMessage :=
  if leHigher nodes nodeId = [] then
    ((List.finRange n).filter fun i => i ≠ nodeId).map (leCoordinatorMsg nodes nodeId)
  else (leHigher nodes nodeId).map (leElectionMsg nodes nodeId)

/-- The loops over the nodes send what `leBullyMessages` lists. -/
def leBullyStartElection (net : LENetwork n) (nodeId : Fin n) : LENetwork n :=
  let asking := { net with electionInProgress := true }
  let decided := if leHigher net.nodes nodeId = [] then leRingWin asking nodeId else asking
  (leBullyMessages net.nodes nodeId).foldl leEnqueueMsg decided

def leBullyHandleElection (net : LENetwork n) (msg : LEMessage) : Option (LENetwork n) :=
  (slot n msg.toId).map fun node =>
    let nd := net.nodes node
    if !nd.isActive then net
    else if nd.priority > msg.priority then
      leBullyStartElection (leEnqueueMsg net ⟨.answer, msg.toId, msg.fromId, nd.priority, msg.toId⟩) node
    else net

/-- Every node takes over the leader, whoever the message is for. -/
def leBullyHandleCoordinator (net : LENetwork n) (msg : LEMessage) : LENetwork n :=
  { net with
    nodes := fun i =>
      { net.nodes i with leaderId := msg.candidateId, isLeader := decide ((i.val : Int) = msg.candidateId) }
    electedLeader := msg.candidateId
    electionInProgress := false }

/-- The loop of `le_process_messages` in this mode. -/
def leBullyProcessMessages : Nat → LENetwork n → Option (LENetwork n)
  | 0, _ => none
  | messages + 1, net =>
    match leDequeueMsg net with
    | none => some net
    | some (msg, net) =>
      match msg.type with
      | .election => (leBullyHandleElection net msg).bind (leBullyProcessMessages messages)
      | .coordinator => leBullyProcessMessages messages (leBullyHandleCoordinator net msg)
      | _ => leBullyProcessMessages messages net

section Queue

variable {net : LENetwork n} {queue : List LEMessage} {msg : LEMessage}

/-- The messages in the queue, from the head on. One cell always stays free. -/
structure Pending (net : LENetwork n) (queue : List LEMessage) : Prop where
  room : queue.length < leMaxMsg
  tail : net.msgTail = ahead net.msgHead queue.length
  held : ∀ index (inside : index < queue.length), net.msgQueue (ahead net.msgHead index) = queue[index]

theorem Pending.idle (idle : net.msgHead = net.msgTail) : Pending net [] where
  room := by decide
  tail := by rw [List.length_nil, ahead_zero, idle]
  held := fun _ inside => absurd inside (Nat.not_lt_zero _)

theorem Pending.enqueue (pending : Pending net queue) (msg : LEMessage) :
    Pending (leEnqueueMsg net msg) (accept (leMaxMsg - 1) queue msg) := by
  have next : ahead net.msgTail 1 = ahead net.msgHead (queue.length + 1) := by rw [pending.tail, ahead_ahead]
  have bound := pending.room
  rw [accept, leEnqueueMsg, next]
  by_cases room : queue.length < leMaxMsg - 1
  · have free : ahead net.msgHead (queue.length + 1) ≠ net.msgHead := by
      intro same
      have := ahead_inj (by omega) (by decide) (same.trans (ahead_zero _).symm)
      omega
    rw [if_pos room, if_neg free]
    refine ⟨by rw [List.length_append, List.length_singleton]; omega,
      by rw [List.length_append, List.length_singleton], fun index inside => ?_⟩
    rw [List.length_append, List.length_singleton] at inside
    dsimp only
    rw [pending.tail]
    rcases Nat.lt_succ_iff_lt_or_eq.mp inside with before | rfl
    · have apart : ahead net.msgHead index ≠ ahead net.msgHead queue.length := by
        intro same
        have := ahead_inj (by omega) bound same
        omega
      rw [Function.update_of_ne apart, pending.held index before, List.getElem_append_left before]
    · rw [Function.update_self, List.getElem_concat_length rfl]
  · have full : ahead net.msgHead (queue.length + 1) = net.msgHead := by
      rw [show queue.length + 1 = leMaxMsg by omega, ahead_size]
    rw [if_neg room, if_pos full]
    exact pending

theorem Pending.foldl (pending : Pending net queue) (messages : List LEMessage) :
    Pending (messages.foldl leEnqueueMsg net) (queue ++ messages.take (leMaxMsg - 1 - queue.length)) := by
  rw [← foldl_accept]
  induction messages generalizing net queue with
  | nil => exact pending
  | cons msg messages ih => exact ih (pending.enqueue msg)

theorem foldl_frame (net : LENetwork n) (messages : List LEMessage) :
    (messages.foldl leEnqueueMsg net).nodes = net.nodes ∧
      (messages.foldl leEnqueueMsg net).electedLeader = net.electedLeader := by
  induction messages generalizing net with
  | nil => exact ⟨rfl, rfl⟩
  | cons msg messages ih =>
    obtain ⟨nodes, elected⟩ := ih (leEnqueueMsg net msg)
    obtain ⟨same, _, leader⟩ := enqueue_frame net msg
    exact ⟨nodes.trans same, elected.trans leader⟩

theorem Pending.none (pending : Pending net []) : leDequeueMsg net = none := by
  have tail := pending.tail
  rw [List.length_nil, ahead_zero] at tail
  rw [leDequeueMsg, if_pos tail.symm]

theorem Pending.some (pending : Pending net (msg :: queue)) :
    leDequeueMsg net = some (msg, { net with msgHead := ahead net.msgHead 1 }) ∧
      Pending { net with msgHead := ahead net.msgHead 1 } queue := by
  have bound := pending.room
  rw [List.length_cons] at bound
  have first := pending.held 0 (Nat.zero_lt_succ _)
  rw [ahead_zero] at first
  have waits : net.msgHead ≠ net.msgTail := by
    intro same
    rw [pending.tail, List.length_cons] at same
    have := ahead_inj (by decide) bound ((ahead_zero _).trans same)
    omega
  refine ⟨by rw [leDequeueMsg, if_neg waits, first]; rfl, by omega, ?_, fun index inside => ?_⟩
  · rw [pending.tail, List.length_cons, ahead_ahead, Nat.add_comm]
  · have later := pending.held (index + 1) (Nat.succ_lt_succ inside)
    dsimp only
    rw [ahead_ahead, Nat.add_comm 1, later]
    rfl

end Queue

section Election

variable {nodes : Fin n → LENode} {best i : Fin n} {net : LENetwork n} {queue : List LEMessage} {msg : LEMessage}

/-- The only active node with the highest priority. -/
structure Highest (nodes : Fin n → LENode) (best : Fin n) : Prop where
  awake : (nodes best).isActive = true
  above : ∀ i, (nodes i).isActive = true → i ≠ best → (nodes i).priority < (nodes best).priority

/-- All nodes have taken the leader over. -/
def Agreed (best : Fin n) (net : LENetwork n) : Prop :=
  net.electedLeader = best.val ∧ ∀ i, (net.nodes i).leaderId = best.val ∧ (net.nodes i).isLeader = decide (i = best)

/-- Nodes that differ at most in the leader they know. -/
def Alike (nodes other : Fin n → LENode) : Prop :=
  ∀ i, (nodes i).priority = (other i).priority ∧ (nodes i).isActive = (other i).isActive

/-- An election at the head of a queue that is not full: what it sends first finds room. -/
def Ready (queue : List LEMessage) : Prop :=
  ∃ ask rest, queue = ask :: rest ∧ ask.type = .election ∧ rest.length + 2 < leMaxMsg

/-- An election behind a message of another kind, which leaves a cell free before it. -/
def Behind (queue : List LEMessage) : Prop :=
  ∃ before msg ask rest, queue = before ++ msg :: ask :: rest ∧ msg.type ≠ .election ∧ ask.type = .election

def Announced (queue : List LEMessage) : Prop := ∃ msg ∈ queue, msg.type = .coordinator

/-- An election asks an active node above the one it is from, and a leader that is announced is the highest. -/
def Proper (nodes : Fin n → LENode) (best : Fin n) (msg : LEMessage) : Prop :=
  (msg.type = .election →
      ∃ i : Fin n, msg.toId = i.val ∧ (nodes i).isActive = true ∧ msg.priority < (nodes i).priority) ∧
    (msg.type = .coordinator → msg.candidateId = best.val)

/-- What stays true while messages are handled, whichever of them are lost. -/
structure Electing (nodes : Fin n → LENode) (best : Fin n) (net : LENetwork n) (queue : List LEMessage) : Prop where
  alike : Alike net.nodes nodes
  proper : ∀ msg ∈ queue, Proper nodes best msg
  goesOn : Ready queue ∨ Behind queue ∨ Announced queue ∨ Agreed best net

theorem mem_leHigher : i ∈ leHigher nodes best ↔
    (nodes i).isActive = true ∧ (nodes best).priority < (nodes i).priority := by
  simp only [leHigher, List.mem_filter, List.mem_finRange, true_and, Bool.and_eq_true, Bool.not_eq_true',
    decide_eq_false_iff_not, decide_eq_true_eq, not_or, Bool.not_eq_false]
  constructor
  · exact fun ⟨⟨_, awake⟩, above⟩ => ⟨awake, above⟩
  · rintro ⟨awake, above⟩
    exact ⟨⟨fun same => absurd (same ▸ above) (lt_irrefl _), awake⟩, above⟩

/-- Nobody but the highest node finds that nobody is above. -/
theorem leHigher_eq_nil (highest : Highest nodes best) (awake : (nodes i).isActive = true) :
    leHigher nodes i = [] ↔ i = best := by
  constructor
  · intro none
    by_contra other
    have above : best ∈ leHigher nodes i := mem_leHigher.mpr ⟨highest.awake, highest.above i awake other⟩
    rw [none] at above
    cases above
  · rintro rfl
    refine List.eq_nil_iff_forall_not_mem.mpr fun j member => ?_
    obtain ⟨active, above⟩ := mem_leHigher.mp member
    by_cases same : j = i
    · exact absurd (same ▸ above) (lt_irrefl _)
    · exact absurd above (not_lt.mpr (le_of_lt (highest.above j active same)))

theorem leHigher_congr (alike : Alike net.nodes nodes) (i : Fin n) : leHigher net.nodes i = leHigher nodes i := by
  simp only [leHigher, (alike _).1, (alike _).2]

theorem leBullyMessages_congr (alike : Alike net.nodes nodes) (i : Fin n) :
    leBullyMessages net.nodes i = leBullyMessages nodes i := by
  have election : leElectionMsg net.nodes i = leElectionMsg nodes i :=
    funext fun j => by rw [leElectionMsg, leElectionMsg, (alike i).1]
  have coordinator : leCoordinatorMsg net.nodes i = leCoordinatorMsg nodes i :=
    funext fun j => by rw [leCoordinatorMsg, leCoordinatorMsg, (alike i).1]
  rw [leBullyMessages, leBullyMessages, leHigher_congr alike, election, coordinator]

theorem Highest.alike (highest : Highest nodes best) (alike : Alike net.nodes nodes) : Highest net.nodes best where
  awake := (alike best).2.trans highest.awake
  above i awake other := by
    rw [(alike i).1, (alike best).1]
    exact highest.above i ((alike i).2.symm.trans awake) other

/-- The messages of an active node: its elections have its own priority. -/
theorem leBullyMessages_proper (highest : Highest nodes best) (awake : (nodes i).isActive = true)
    (member : msg ∈ leBullyMessages nodes i) : Proper nodes best msg ∧
      (msg.type = .election ∧ msg.priority = (nodes i).priority ∨ msg.type = .coordinator) := by
  rw [leBullyMessages] at member
  split at member
  next none =>
    obtain ⟨j, _, rfl⟩ := List.mem_map.mp member
    obtain rfl := (leHigher_eq_nil highest awake).mp none
    exact ⟨⟨nofun, fun _ => rfl⟩, .inr rfl⟩
  next =>
    obtain ⟨j, listed, rfl⟩ := List.mem_map.mp member
    obtain ⟨active, above⟩ := mem_leHigher.mp listed
    exact ⟨⟨fun _ => ⟨j, rfl, active, above⟩, nofun⟩, .inl ⟨rfl, rfl⟩⟩

theorem leBullyStartElection_alike (alike : Alike net.nodes nodes) (i : Fin n) :
    Alike (leBullyStartElection net i).nodes nodes := by
  intro j
  rw [leBullyStartElection, (foldl_frame _ _).1]
  split
  · by_cases same : j = i
    · subst same
      simpa [leRingWin, LENetwork.modify] using alike j
    · simpa [leRingWin, LENetwork.modify, Function.update_of_ne same] using alike j
  · exact alike j

theorem leRingWin_agreed (agreed : Agreed best net) : Agreed best (leRingWin net best) := by
  refine ⟨rfl, fun i => ?_⟩
  by_cases same : i = best
  · subst same
    simp [leRingWin, LENetwork.modify]
  · simpa [leRingWin, LENetwork.modify, Function.update_of_ne same] using agreed.2 i

theorem leBullyStartElection_agreed (highest : Highest net.nodes best) (awake : (net.nodes i).isActive = true)
    (agreed : Agreed best net) : Agreed best (leBullyStartElection net i) := by
  have frame := foldl_frame (if leHigher net.nodes i = [] then leRingWin { net with electionInProgress := true } i
    else { net with electionInProgress := true }) (leBullyMessages net.nodes i)
  rw [leBullyStartElection, Agreed, frame.1, frame.2]
  split
  next none =>
    obtain rfl := (leHigher_eq_nil highest awake).mp none
    exact leRingWin_agreed agreed
  next => exact agreed

/-- A node without messages is alone. -/
theorem leBullyStartElection_alone (highest : Highest net.nodes best) (awake : (net.nodes i).isActive = true)
    (none : leBullyMessages net.nodes i = []) : Agreed best (leBullyStartElection net i) := by
  have top : leHigher net.nodes i = [] := by
    by_contra some
    rw [leBullyMessages, if_neg some] at none
    exact some (List.map_eq_nil_iff.mp none)
  obtain rfl := (leHigher_eq_nil highest awake).mp top
  rw [leBullyMessages, if_pos top] at none
  have alone : ∀ j, j = i := by
    intro j
    by_contra other
    have listed := List.filter_eq_nil_iff.mp (List.map_eq_nil_iff.mp none) j (List.mem_finRange j)
    exact listed (decide_eq_true other)
  rw [leBullyStartElection, Agreed, (foldl_frame _ _).1, (foldl_frame _ _).2, if_pos top]
  refine ⟨rfl, fun j => ?_⟩
  obtain rfl := alone j
  simp [leRingWin, LENetwork.modify]

theorem pending_start (pending : Pending net queue) (i : Fin n) : Pending (leBullyStartElection net i)
    (queue ++ (leBullyMessages net.nodes i).take (leMaxMsg - 1 - queue.length)) := by
  rw [leBullyStartElection]
  refine Pending.foldl ?_ _
  split <;> exact ⟨pending.room, pending.tail, pending.held⟩

/-- A queue that elections are behind keeps them when more comes. -/
theorem Behind.append (behind : Behind queue) (more : List LEMessage) : Behind (queue ++ more) := by
  obtain ⟨before, msg, ask, rest, rfl, other, election⟩ := behind
  exact ⟨before, msg, ask, rest ++ more, by rw [List.append_assoc]; rfl, other, election⟩

theorem Announced.append (announced : Announced queue) (more : List LEMessage) : Announced (queue ++ more) := by
  obtain ⟨msg, member, coordinator⟩ := announced
  exact ⟨msg, List.mem_append_left more member, coordinator⟩

/-- Where an election starts behind a message of another kind and there is room, its first message goes on. -/
theorem first_goesOn (highest : Highest nodes best) (awake : (nodes i).isActive = true) (queue : List LEMessage)
    {first : LEMessage} (other : first.type ≠ .election) {count : Nat} (some : leBullyMessages nodes i ≠ [])
    (room : 0 < count) :
    Behind (queue ++ first :: (leBullyMessages nodes i).take count) ∨
      Announced (queue ++ first :: (leBullyMessages nodes i).take count) := by
  obtain ⟨msg, rest, listed⟩ := List.exists_cons_of_ne_nil some
  obtain ⟨more, rfl⟩ := Nat.exists_eq_succ_of_ne_zero (Nat.ne_of_gt room)
  have member : msg ∈ leBullyMessages nodes i := listed ▸ List.mem_cons_self
  rw [listed, List.take_succ_cons]
  rcases (leBullyMessages_proper highest awake member).2 with ⟨election, _⟩ | coordinator
  · exact .inl ⟨queue, first, msg, rest.take more, rfl, other, election⟩
  · exact .inr ⟨msg, by simp, coordinator⟩

/-- What a node sends back to the one that asked it. -/
def leAnswerMsg (nodes : Fin n → LENode) (msg : LEMessage) (i : Fin n) : LEMessage :=
  ⟨.answer, msg.toId, msg.fromId, (nodes i).priority, msg.toId⟩

/-- An election that is handled answers, for which there is always room, and starts another one. -/
theorem handleElection_spec (pending : Pending net queue) (short : queue.length + 1 < leMaxMsg)
    (here : msg.toId = i.val) (awake : (net.nodes i).isActive = true)
    (above : msg.priority < (net.nodes i).priority) :
    leBullyHandleElection net msg = some (leBullyStartElection (leEnqueueMsg net (leAnswerMsg net.nodes msg i)) i) ∧
      Pending (leBullyStartElection (leEnqueueMsg net (leAnswerMsg net.nodes msg i)) i)
        (queue ++ leAnswerMsg net.nodes msg i :: (leBullyMessages net.nodes i).take (leMaxMsg - 2 - queue.length)) := by
  constructor
  · rw [leBullyHandleElection, here, slot_val]
    simp only [Option.map_some, awake, Bool.not_true, Bool.false_eq_true, if_false, if_pos above, leAnswerMsg, here]
  · have answered := pending.enqueue (leAnswerMsg net.nodes msg i)
    rw [accept, if_pos (by omega)] at answered
    have sent := pending_start answered i
    rw [(enqueue_frame net _).1, List.length_append, List.length_singleton, List.append_assoc,
      show leMaxMsg - 1 - (queue.length + 1) = leMaxMsg - 2 - queue.length by omega] at sent
    exact sent

theorem proper_answer (msg : LEMessage) (i : Fin n) : Proper nodes best (leAnswerMsg net.nodes msg i) := ⟨nofun, nofun⟩

theorem Alike.enqueue (alike : Alike net.nodes nodes) (msg : LEMessage) : Alike (leEnqueueMsg net msg).nodes nodes := by
  rw [(enqueue_frame net msg).1]
  exact alike

/-- With the messages that answer an election, another election or the announcement is still to come, unless all agree. -/
theorem Electing.goesOn_election (electing : Electing nodes best net (msg :: queue)) (highest : Highest nodes best)
    (awake : (nodes i).isActive = true) (ask : msg.type = .election) {after : List LEMessage}
    (sent : after =
      queue ++ leAnswerMsg net.nodes msg i :: (leBullyMessages nodes i).take (leMaxMsg - 2 - queue.length)) :
    Ready after ∨ Behind after ∨ Announced after ∨
      Agreed best (leBullyStartElection (leEnqueueMsg net (leAnswerMsg net.nodes msg i)) i) := by
  have answered := electing.alike.enqueue (leAnswerMsg net.nodes msg i)
  have active := (answered i).2.trans awake
  subst sent
  rcases electing.goesOn with ready | behind | ⟨other, member, coordinator⟩ | agreed
  · obtain ⟨_, rest, shape, _, room⟩ := ready
    obtain ⟨rfl, rfl⟩ := List.cons.inj shape
    by_cases none : leBullyMessages nodes i = []
    · refine .inr (.inr (.inr (leBullyStartElection_alone (highest.alike answered) active ?_)))
      rwa [leBullyMessages_congr answered]
    · have other : (leAnswerMsg net.nodes msg i).type ≠ .election := by
        intro same
        cases same
      rcases first_goesOn highest awake queue other none
        (show 0 < leMaxMsg - 2 - queue.length by omega) with behind | announced
      · exact .inr (.inl behind)
      · exact .inr (.inr (.inl announced))
  · obtain ⟨before, other, next, rest, shape, different, election⟩ := behind
    cases before with
    | nil => exact absurd ((List.cons.inj shape).1 ▸ ask) different
    | cons first before =>
      have rest : Behind queue := ⟨before, other, next, rest, (List.cons.inj shape).2, different, election⟩
      exact .inr (.inl (rest.append _))
  · rcases List.mem_cons.mp member with rfl | later
    · rw [ask] at coordinator
      cases coordinator
    · exact .inr (.inr (.inl (Announced.append ⟨other, later, coordinator⟩ _)))
  · refine .inr (.inr (.inr (leBullyStartElection_agreed (highest.alike answered) active ?_)))
    obtain ⟨same, _, leader⟩ := enqueue_frame net (leAnswerMsg net.nodes msg i)
    rw [Agreed, same, leader]
    exact agreed

/-- An election that was at the head of the queue. -/
theorem Electing.election (electing : Electing nodes best net (msg :: queue)) (highest : Highest nodes best)
    (pending : Pending net queue) (bound : queue.length + 1 < leMaxMsg) (ask : msg.type = .election) :
    ∃ i next, leBullyHandleElection net msg = some next ∧ msg.priority < (nodes i).priority ∧
      (nodes i).isActive = true ∧
      Pending next
        (queue ++ leAnswerMsg net.nodes msg i :: (leBullyMessages nodes i).take (leMaxMsg - 2 - queue.length)) ∧
      Electing nodes best next
        (queue ++ leAnswerMsg net.nodes msg i :: (leBullyMessages nodes i).take (leMaxMsg - 2 - queue.length)) := by
  obtain ⟨i, here, awake, above⟩ := (electing.proper msg List.mem_cons_self).1 ask
  have alike := electing.alike
  obtain ⟨handled, later⟩ := handleElection_spec pending bound here ((alike i).2.trans awake)
    (by rwa [(alike i).1])
  rw [leBullyMessages_congr alike] at later
  have answered := alike.enqueue (leAnswerMsg net.nodes msg i)
  refine ⟨i, _, handled, above, awake, later, leBullyStartElection_alike answered i, ?_,
    electing.goesOn_election highest awake ask rfl⟩
  intro other member
  rcases List.mem_append.mp member with old | new
  · exact electing.proper other (List.mem_cons_of_mem msg old)
  · rcases List.mem_cons.mp new with rfl | sent
    · exact proper_answer msg i
    · exact (leBullyMessages_proper highest awake (List.mem_of_mem_take sent)).1

/-- An announcement that was at the head of the queue. -/
theorem Electing.coordinator (electing : Electing nodes best net (msg :: queue)) (tells : msg.type = .coordinator) :
    Electing nodes best (leBullyHandleCoordinator net msg) queue where
  alike := electing.alike
  proper other member := electing.proper other (List.mem_cons_of_mem msg member)
  goesOn := by
    have leader := (electing.proper msg List.mem_cons_self).2 tells
    refine .inr (.inr (.inr ⟨leader, fun i => ⟨leader, ?_⟩⟩))
    change decide ((i.val : Int) = msg.candidateId) = _
    rw [leader, decide_eq_decide, Int.ofNat_inj, Fin.val_inj]

/-- A message at the head of the queue that is ignored leaves a cell free. -/
theorem Electing.ignored (electing : Electing nodes best net (msg :: queue)) (bound : queue.length + 1 < leMaxMsg)
    (election : msg.type ≠ .election) (tells : msg.type ≠ .coordinator) : Electing nodes best net queue where
  alike := electing.alike
  proper other member := electing.proper other (List.mem_cons_of_mem msg member)
  goesOn := by
    rcases electing.goesOn with ready | behind | ⟨other, member, coordinator⟩ | agreed
    · obtain ⟨_, _, shape, ask, _⟩ := ready
      exact absurd ((List.cons.inj shape).1 ▸ ask) election
    · obtain ⟨before, other, next, rest, shape, different, ask⟩ := behind
      cases before with
      | nil =>
        have rest_eq := (List.cons.inj shape).2
        refine .inl ⟨next, rest, rest_eq, ask, ?_⟩
        rw [rest_eq, List.length_cons] at bound
        exact bound
      | cons first before => exact .inr (.inl ⟨before, other, next, rest, (List.cons.inj shape).2, different, ask⟩)
    · rcases List.mem_cons.mp member with rfl | later
      · exact absurd coordinator tells
      · exact .inr (.inr (.inl ⟨other, later, coordinator⟩))
    · exact .inr (.inr (.inr agreed))

/-- The active nodes above a priority. -/
def leAbove (nodes : Fin n → LENode) (priority : Int) : List (Fin n) :=
  (List.finRange n).filter fun i => (nodes i).isActive && decide (priority < (nodes i).priority)

/-- A bound on the messages that follow from an election with so many nodes above. -/
def leCost (n : Nat) : Nat → Nat
  | 0 => 1
  | above + 1 => n + 2 + above * leCost n above

def leWork (nodes : Fin n → LENode) (msg : LEMessage) : Nat :=
  if msg.type = .election then leCost n (leAbove nodes msg.priority).length else 1

theorem leCost_mono {few many : Nat} (le : few ≤ many) : leCost n few ≤ leCost n many := by
  induction le with
  | refl => exact Nat.le_refl _
  | @step many _ ih =>
    refine Nat.le_trans ih ?_
    rw [leCost]
    cases many with
    | zero => rw [leCost]; omega
    | succ many =>
      have repeated : leCost n (many + 1) ≤ (many + 1) * leCost n (many + 1) :=
        Nat.le_mul_of_pos_left _ (Nat.succ_pos many)
      omega

theorem leHigher_eq (nodes : Fin n → LENode) (i : Fin n) : leHigher nodes i = leAbove nodes (nodes i).priority := by
  refine List.filter_congr fun j _ => Bool.eq_iff_iff.mpr ?_
  by_cases same : j = i <;> simp [same]

/-- Above a node that is above a priority there are fewer. -/
theorem length_leAbove_lt {priority : Int} (awake : (nodes i).isActive = true) (above : priority < (nodes i).priority) :
    (leAbove nodes (nodes i).priority).length < (leAbove nodes priority).length := by
  have sublist : (leAbove nodes (nodes i).priority).Sublist (leAbove nodes priority) := by
    refine List.monotone_filter_right _ fun j holds => ?_
    rw [Bool.and_eq_true, decide_eq_true_eq] at holds ⊢
    exact ⟨holds.1, lt_trans above holds.2⟩
  refine Nat.lt_of_le_of_ne sublist.length_le fun same => ?_
  have here : i ∈ leAbove nodes priority := by simp [leAbove, awake, above]
  rw [← sublist.eq_of_length same] at here
  simp [leAbove] at here

theorem leBullyMessages_work (nodes : Fin n → LENode) (i : Fin n) :
    ((leBullyMessages nodes i).map (leWork nodes)).sum ≤
      n + (leAbove nodes (nodes i).priority).length * leCost n (leAbove nodes (nodes i).priority).length := by
  by_cases none : leHigher nodes i = []
  · have cheap : ∀ work ∈ (leBullyMessages nodes i).map (leWork nodes), work ≤ 1 := by
      intro work member
      obtain ⟨msg, listed, rfl⟩ := List.mem_map.mp member
      rw [leBullyMessages, if_pos none] at listed
      obtain ⟨j, _, rfl⟩ := List.mem_map.mp listed
      exact Nat.le_refl 1
    have total := List.sum_le_card_nsmul _ 1 cheap
    have count := List.length_filter_le (fun j => decide (j ≠ i)) (List.finRange n)
    rw [List.length_map, leBullyMessages, if_pos none, List.length_map, smul_eq_mul, Nat.mul_one] at total
    rw [List.length_finRange] at count
    rw [leBullyMessages, if_pos none]
    exact Nat.le_trans total (Nat.le_trans count (Nat.le_add_right _ _))
  · have each : ∀ work ∈ (leBullyMessages nodes i).map (leWork nodes),
        work ≤ leCost n (leAbove nodes (nodes i).priority).length := by
      intro work member
      obtain ⟨msg, listed, rfl⟩ := List.mem_map.mp member
      rw [leBullyMessages, if_neg none] at listed
      obtain ⟨j, _, rfl⟩ := List.mem_map.mp listed
      exact Nat.le_refl _
    have total := List.sum_le_card_nsmul _ _ each
    rw [List.length_map, leBullyMessages, if_neg none, List.length_map, smul_eq_mul, leHigher_eq] at total
    rw [leBullyMessages, if_neg none, leHigher_eq]
    exact Nat.le_trans total (Nat.le_add_left _ _)

/-- Handling an election leaves less to do, answer included. -/
theorem election_work (awake : (nodes i).isActive = true) (ask : msg.type = .election)
    (above : msg.priority < (nodes i).priority) (count : Nat) :
    1 + (((leBullyMessages nodes i).take count).map (leWork nodes)).sum < leWork nodes msg := by
  have parts := congrArg (fun messages => (messages.map (leWork nodes)).sum)
    (List.take_append_drop count (leBullyMessages nodes i))
  rw [List.map_append, List.sum_append] at parts
  have total := leBullyMessages_work nodes i
  have fewer := leCost_mono (n := n) (length_leAbove_lt awake above)
  rw [leCost] at fewer
  rw [leWork, if_pos ask]
  omega

theorem Electing.agreed (electing : Electing nodes best net []) : Agreed best net := by
  rcases electing.goesOn with ⟨_, _, shape, _⟩ | ⟨before, _, _, _, shape, _⟩ | ⟨_, member, _⟩ | agreed
  · cases shape
  · cases before <;> cases shape
  · cases member
  · exact agreed

/-- The loop comes to an end, and the highest node is the leader of all. -/
theorem leBullyProcessMessages_agrees (highest : Highest nodes best) (messages : Nat) (pending : Pending net queue)
    (electing : Electing nodes best net queue) (enough : (queue.map (leWork nodes)).sum < messages) :
    ∃ later, leBullyProcessMessages messages net = some later ∧ later.msgHead = later.msgTail ∧
      Alike later.nodes nodes ∧ Agreed best later := by
  induction messages generalizing net queue with
  | zero => exact absurd enough (Nat.not_lt_zero _)
  | succ messages ih =>
    rw [leBullyProcessMessages]
    cases queue with
    | nil =>
      rw [pending.none]
      have tail := pending.tail
      rw [List.length_nil, ahead_zero] at tail
      exact ⟨net, rfl, tail.symm, electing.alike, electing.agreed⟩
    | cons msg queue =>
      obtain ⟨dequeued, popped⟩ := pending.some
      have bound := pending.room
      rw [List.length_cons] at bound
      rw [List.map_cons, List.sum_cons] at enough
      have after : Electing nodes best { net with msgHead := ahead net.msgHead 1 } (msg :: queue) :=
        ⟨electing.alike, electing.proper, electing.goesOn⟩
      rw [dequeued]
      dsimp only
      by_cases ask : msg.type = .election
      · obtain ⟨i, next, handled, above, awake, waits, goes⟩ := after.election highest popped bound ask
        have less := election_work awake ask above (leMaxMsg - 2 - queue.length)
        rw [ask, handled]
        refine ih waits goes ?_
        have answer : ∀ net : LENetwork n, leWork nodes (leAnswerMsg net.nodes msg i) = 1 := fun _ => rfl
        rw [List.map_append, List.map_cons, List.sum_append, List.sum_cons, answer]
        omega
      · have one : leWork nodes msg = 1 := if_neg ask
        by_cases tells : msg.type = .coordinator
        · rw [tells]
          have told : Pending (leBullyHandleCoordinator { net with msgHead := ahead net.msgHead 1 } msg) queue :=
            ⟨popped.room, popped.tail, popped.held⟩
          exact ih told (after.coordinator tells) (by omega)
        · have rest := ih popped (after.ignored bound ask tells) (by omega)
          cases kind : msg.type with
          | election => exact absurd kind ask
          | coordinator => exact absurd kind tells
          | answer => exact rest
          | heartbeat => exact rest

end Election

theorem length_leBullyMessages (nodes : Fin n → LENode) (i : Fin n) : (leBullyMessages nodes i).length ≤ n := by
  rw [leBullyMessages]
  split
  · rw [List.length_map]
    exact Nat.le_trans (List.length_filter_le _ _) (Nat.le_of_eq List.length_finRange)
  · rw [List.length_map]
    exact Nat.le_trans (List.length_filter_le _ _) (Nat.le_of_eq List.length_finRange)

/-- However many messages the queue loses, an election that any active node starts comes to an end with the active node
of the highest priority as the leader that all nodes agree on, and nobody else leads. -/
theorem bullyElection_elects (net : LENetwork n) (small : n ≤ leMaxNodes) (idle : net.msgHead = net.msgTail)
    {best initiator : Fin n} (highest : Highest net.nodes best) (awake : (net.nodes initiator).isActive = true) :
    ∃ messages later, leBullyProcessMessages messages (leBullyStartElection net initiator) = some later ∧
      later.msgHead = later.msgTail ∧ later.electedLeader = best.val ∧ leAllAgreeLeader later = true ∧
      ∀ i, (later.nodes i).isLeader = decide (i = best) := by
  have waits := pending_start (Pending.idle idle) initiator
  rw [List.nil_append] at waits
  have electing : Electing net.nodes best (leBullyStartElection net initiator)
      ((leBullyMessages net.nodes initiator).take (leMaxMsg - 1 - 0)) := by
    refine ⟨leBullyStartElection_alike (fun i => ⟨rfl, rfl⟩) initiator,
      fun msg member => (leBullyMessages_proper highest awake (List.mem_of_mem_take member)).1, ?_⟩
    by_cases none : leBullyMessages net.nodes initiator = []
    · exact .inr (.inr (.inr (leBullyStartElection_alone highest awake none)))
    · obtain ⟨msg, rest, listed⟩ := List.exists_cons_of_ne_nil none
      have fits := length_leBullyMessages net.nodes initiator
      rw [leMaxNodes] at small
      rw [List.take_of_length_le (show _ ≤ leMaxMsg - 1 - 0 by rw [leMaxMsg]; omega), listed]
      rw [listed, List.length_cons] at fits
      rcases (leBullyMessages_proper highest awake (listed ▸ List.mem_cons_self)).2 with ⟨election, _⟩ | coordinator
      · exact .inl ⟨msg, rest, rfl, election, by rw [leMaxMsg]; omega⟩
      · exact .inr (.inr (.inl ⟨msg, List.mem_cons_self, coordinator⟩))
  obtain ⟨later, run, empty, _, leader, agreed⟩ :=
    leBullyProcessMessages_agrees highest _ waits electing (Nat.lt_succ_self _)
  refine ⟨_, later, run, empty, leader, ?_, fun i => (agreed i).2⟩
  rw [leAllAgreeLeader, leader, if_neg (by omega)]
  refine List.all_eq_true.mpr fun i _ => ?_
  simp [(agreed i).1]

/-- The highest of five nodes is not active. -/
theorem bullyElection_elects_five :
    let net := (ranked 5).modify ⟨4, by decide⟩ fun nd => { nd with isActive := false }
    ∃ messages later, leBullyProcessMessages messages (leBullyStartElection net ⟨1, by decide⟩) = some later ∧
      later.electedLeader = 3 ∧ leAllAgreeLeader later = true := by
  intro net
  have highest : Highest net.nodes ⟨3, by decide⟩ := ⟨by decide, by decide⟩
  have awake : (net.nodes ⟨1, by decide⟩).isActive = true := by decide
  obtain ⟨messages, later, run, _, leader, agree, _⟩ := bullyElection_elects net (by decide) rfl highest awake
  exact ⟨messages, later, run, leader, agree⟩

end MiniNetDist.SystemTheory.LeaderElection
