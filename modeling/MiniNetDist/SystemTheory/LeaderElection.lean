import MiniNetDist.Library.Circle
import MiniNetDist.Library.Slot
import Mathlib.Algebra.Order.Ring.Nat
import Mathlib.Data.Finset.Card
import Mathlib.Data.Fintype.Basic
import Mathlib.Data.List.FinRange
import Mathlib.Logic.Function.Basic

/-! The message-driven ring election of `mini-dist-system-theory/src/leader_election.c`, in the mode
`LE_RING`. A message to a node that does not exist has no result. -/

namespace MiniNetDist.SystemTheory.LeaderElection

open Library Library.Circle

def leMaxMsg : Nat := 64

inductive LEMsgType where
  | election
  | answer
  | coordinator
  | heartbeat
  deriving DecidableEq, Repr

/-- A node whose `id` is its place; a `leader_id` of -1 is no leader. -/
structure LENode where
  priority : Int
  isLeader : Bool
  isActive : Bool
  leaderId : Int
  deriving DecidableEq, Repr

structure LEMessage where
  type : LEMsgType
  fromId : Int
  toId : Int
  priority : Int
  candidateId : Int
  deriving DecidableEq, Repr

/-- `node_count` is `n`. -/
structure LENetwork (n : Nat) where
  nodes : Fin n → LENode
  electedLeader : Int
  electionInProgress : Bool
  msgQueue : Fin leMaxMsg → LEMessage
  msgHead : Fin leMaxMsg
  msgTail : Fin leMaxMsg
  ringOrder : Fin n → Int

variable {n : Nat}

/-- A full queue drops the message. -/
def leEnqueueMsg (net : LENetwork n) (msg : LEMessage) : LENetwork n :=
  let nxt := ahead net.msgTail 1
  if nxt = net.msgHead then net
  else { net with msgQueue := Function.update net.msgQueue net.msgTail msg, msgTail := nxt }

def leDequeueMsg (net : LENetwork n) : Option (LEMessage × LENetwork n) :=
  if net.msgHead = net.msgTail then none
  else some (net.msgQueue net.msgHead, { net with msgHead := ahead net.msgHead 1 })

def leNextRingNode (net : LENetwork n) (nodeId : Int) : Int :=
  match (List.finRange n).find? fun i => net.ringOrder i = nodeId with
  | some i => net.ringOrder (ahead i 1)
  | none => -1

/-- `memory` is what the queue's cells hold before. -/
def leInitNetwork (priorities : Fin n → Int) (memory : Fin leMaxMsg → LEMessage) : LENetwork n where
  nodes i := ⟨priorities i, false, true, -1⟩
  electedLeader := -1
  electionInProgress := false
  msgQueue := memory
  msgHead := ⟨0, by decide⟩
  msgTail := ⟨0, by decide⟩
  ringOrder i := i.val

def LENetwork.modify (net : LENetwork n) (i : Fin n) (change : LENode → LENode) : LENetwork n :=
  { net with nodes := Function.update net.nodes i (change (net.nodes i)) }

/-- The message goes on to the next node of the ring. -/
def leForward (net : LENetwork n) (msg : LEMessage) : LENetwork n :=
  let next := leNextRingNode net msg.toId
  if next ≥ 0 then leEnqueueMsg net { msg with toId := next, fromId := msg.toId } else net

def leRingStartElection (net : LENetwork n) (nodeId : Fin n) : LENetwork n :=
  let net := { net with electionInProgress := true }
  let next := leNextRingNode net nodeId.val
  if next < 0 then net
  else leEnqueueMsg net ⟨.election, nodeId.val, next, (net.nodes nodeId).priority, nodeId.val⟩

/-- The node that gets its own message back declares itself the leader. -/
def leRingWin (net : LENetwork n) (node : Fin n) : LENetwork n :=
  { net.modify node fun nd => { nd with isLeader := true, leaderId := node.val } with
    electedLeader := node.val, electionInProgress := false }

def leRingHandleElection (net : LENetwork n) (msg : LEMessage) : Option (LENetwork n) :=
  (slot n msg.toId).map fun node =>
    let nd := net.nodes node
    if !nd.isActive then leForward net msg
    else if msg.priority > nd.priority then leForward net msg
    else if msg.priority < nd.priority then
      leEnqueueMsg net ⟨.election, msg.toId, leNextRingNode net msg.toId, nd.priority, msg.toId⟩
    else
      let net := leRingWin net node
      leEnqueueMsg net ⟨.coordinator, msg.toId, leNextRingNode net msg.toId, nd.priority, msg.toId⟩

def leRingHandleCoordinator (net : LENetwork n) (msg : LEMessage) : Option (LENetwork n) :=
  if msg.toId = msg.candidateId then some net
  else
    (slot n msg.toId).map fun node =>
      let net := net.modify node fun nd => { nd with leaderId := msg.candidateId, isLeader := false }
      leForward { net with electedLeader := msg.candidateId } msg

/-- The loop of `le_process_messages` over at most so many messages, if that empties the queue. -/
def leProcessMessages : Nat → LENetwork n → Option (LENetwork n)
  | 0, _ => none
  | messages + 1, net =>
    match leDequeueMsg net with
    | none => some net
    | some (msg, net) =>
      match msg.type with
      | .election => (leRingHandleElection net msg).bind (leProcessMessages messages)
      | .coordinator => (leRingHandleCoordinator net msg).bind (leProcessMessages messages)
      | _ => leProcessMessages messages net

def leAllAgreeLeader (net : LENetwork n) : Bool :=
  if net.electedLeader < 0 then false
  else (List.finRange n).all fun i => !(net.nodes i).isActive || (net.nodes i).leaderId = net.electedLeader

/-- The active nodes. -/
def alive (nodes : Fin n → LENode) : Set (Fin n) := { i | (nodes i).isActive = true }

/-- An active node that no active node exceeds in priority. -/
def Best (nodes : Fin n → LENode) (best : Fin n) : Prop :=
  best ∈ alive nodes ∧ ∀ i ∈ alive nodes, (nodes i).priority ≤ (nodes best).priority

/-- The election of this initiator comes to an end, with the best node as the leader all agree on. -/
def Elects (net : LENetwork n) (initiator : Fin n) : Prop :=
  ∃ messages later, leProcessMessages messages (leRingStartElection net initiator) = some later ∧
    ∃ best, Best net.nodes best ∧ later.electedLeader = best.val ∧ leAllAgreeLeader later = true

/-- The order that `le_init_network` sets, which nothing changes. -/
def Ordered (net : LENetwork n) : Prop := ∀ i, net.ringOrder i = i.val

/-- The queue holds this message and no other. -/
def Waits (net : LENetwork n) (msg : LEMessage) : Prop :=
  net.msgTail = ahead net.msgHead 1 ∧ net.msgQueue net.msgHead = msg

/-- The network whose only message is taken out of the queue. -/
def delivered (net : LENetwork n) : LENetwork n := { net with msgHead := net.msgTail }

section Queue

variable {net : LENetwork n} {msg : LEMessage}

theorem ahead_one_ne (cell : Fin leMaxMsg) : ahead cell 1 ≠ cell := by
  intro same
  have step := ahead_inj (by decide) (by decide) (same.trans (ahead_zero cell).symm)
  cases step

theorem waits_enqueue (idle : net.msgHead = net.msgTail) (msg : LEMessage) : Waits (leEnqueueMsg net msg) msg := by
  have room := ahead_one_ne net.msgTail
  simp [leEnqueueMsg, Waits, idle, room]

/-- The frame of an enqueueing: nothing but the queue. -/
theorem enqueue_frame (net : LENetwork n) (msg : LEMessage) :
    (leEnqueueMsg net msg).nodes = net.nodes ∧ (leEnqueueMsg net msg).ringOrder = net.ringOrder ∧
      (leEnqueueMsg net msg).electedLeader = net.electedLeader := by
  simp only [leEnqueueMsg]
  split <;> exact ⟨rfl, rfl, rfl⟩

theorem dequeue_waits (waits : Waits net msg) :
    leDequeueMsg net = some (msg, delivered net) := by
  have some_waits : net.msgHead ≠ net.msgTail := waits.1 ▸ (ahead_one_ne net.msgHead).symm
  rw [leDequeueMsg, if_neg some_waits, waits.2, delivered, waits.1]

@[simp] theorem nodes_delivered (net : LENetwork n) : (delivered net).nodes = net.nodes := rfl

theorem dequeue_delivered (net : LENetwork n) : leDequeueMsg (delivered net) = none := if_pos rfl

theorem leNextRingNode_ordered (ordered : Ordered net) (i : Fin n) : leNextRingNode net i.val = (ahead i 1).val := by
  unfold leNextRingNode
  cases found : (List.finRange n).find? fun j => net.ringOrder j = i.val with
  | none =>
    have missing := List.find?_eq_none.mp found i (List.mem_finRange i)
    simp [ordered i] at missing
  | some j =>
    have here : net.ringOrder j = i.val := by simpa using List.find?_some found
    have same : j = i := Fin.ext (by have := ordered j; omega)
    subst same
    exact ordered _

theorem leForward_ordered (ordered : Ordered net) {i : Fin n} (here : msg.toId = i.val) :
    leForward net msg = leEnqueueMsg net { msg with toId := (ahead i 1).val, fromId := i.val } := by
  simp only [leForward, here, leNextRingNode_ordered ordered]
  exact if_pos (Int.natCast_nonneg _)

end Queue

section Announcement

variable {net : LENetwork n} {c : Fin n} {o : Nat}

/-- Messages are processed until the queue is empty, and then all agree on this leader. -/
def Ends (net : LENetwork n) (leader : Fin n) : Prop :=
  ∃ messages later, leProcessMessages messages net = some later ∧ later.electedLeader = leader.val ∧
    leAllAgreeLeader later = true

/-- The news of the leader has come to the nodes up to the one it is on its way to. -/
structure Announces (net : LENetwork n) (c : Fin n) (o : Nat) : Prop where
  ordered : Ordered net
  elected : net.electedLeader = c.val
  told : ∀ step, step < o → (net.nodes (ahead c step)).leaderId = c.val
  waits : ∃ fromId priority, Waits net ⟨.coordinator, fromId, (ahead c o).val, priority, c.val⟩

theorem Announces.agree (announces : Announces net c n) : leAllAgreeLeader net = true := by
  rw [leAllAgreeLeader, announces.elected, if_neg (Int.not_lt.mpr (Int.natCast_nonneg _))]
  refine List.all_eq_true.mpr fun i _ => ?_
  obtain ⟨step, inside, rfl⟩ := exists_ahead c i
  simp [announces.told step inside]

/-- A node that hears of the leader passes the news on. -/
theorem Announces.next (announces : Announces net c o) (pos : 0 < o) (inside : o < n) :
    ∃ next, Announces next c (o + 1) ∧
      ∀ messages, leProcessMessages (messages + 1) net = leProcessMessages messages next := by
  obtain ⟨fromId, priority, waits⟩ := announces.waits
  have apart : ahead c o ≠ c := by
    intro same
    have zero := ahead_inj inside (by omega) (same.trans (ahead_zero c).symm)
    omega
  set msg : LEMessage := ⟨.coordinator, fromId, (ahead c o).val, priority, c.val⟩ with msg_eq
  set told := ((delivered net).modify (ahead c o) fun nd =>
    { nd with leaderId := c.val, isLeader := false }) with told_eq
  set base : LENetwork n := { told with electedLeader := c.val } with base_eq
  have other : msg.toId ≠ msg.candidateId := fun same => apart (Fin.ext (Int.ofNat.inj same))
  have handled : leRingHandleCoordinator (delivered net) msg = some (leForward base msg) := by
    rw [leRingHandleCoordinator, if_neg other, msg_eq, slot_val]
    rfl
  have onward := ahead_ahead c o 1
  set news : LEMessage := { msg with toId := (ahead c (o + 1)).val, fromId := (ahead c o).val }
  have forwarded : leForward base msg = leEnqueueMsg base news := by
    have still : Ordered base := announces.ordered
    rw [leForward_ordered still (congrArg LEMessage.toId msg_eq), onward]
  obtain ⟨nodes_eq, order, elected⟩ := enqueue_frame base news
  rw [forwarded] at handled
  have ordered : Ordered (leEnqueueMsg base news) := fun j => (congrFun order j).trans (announces.ordered j)
  refine ⟨_, ⟨ordered, elected, fun step below => ?_, ?_⟩, fun messages => ?_⟩
  · rw [nodes_eq]
    rcases Nat.lt_succ_iff_lt_or_eq.mp below with before | rfl
    · have apart : ahead c step ≠ ahead c o :=
        fun same => absurd (ahead_inj (by omega) inside same) (Nat.ne_of_lt before)
      simpa [base_eq, told_eq, LENetwork.modify, delivered, apart] using announces.told step before
    · simp [base_eq, told_eq, LENetwork.modify]
  · exact ⟨_, priority, waits_enqueue rfl _⟩
  · rw [leProcessMessages, dequeue_waits waits]
    simp only [msg_eq] at handled ⊢
    rw [handled, Option.bind_some]

/-- The news goes once around the ring. -/
theorem Announces.ends (announces : Announces net c o) (pos : 0 < o) (inside : o ≤ n) : Ends net c := by
  induction left : n - o generalizing o net with
  | zero =>
    obtain rfl : o = n := by omega
    obtain ⟨fromId, priority, waits⟩ := announces.waits
    refine ⟨2, delivered net, ?_, announces.elected, ?_⟩
    · rw [leProcessMessages, dequeue_waits waits]
      simp [leRingHandleCoordinator, leProcessMessages, dequeue_delivered]
    · exact announces.agree
  | succ left ih =>
    obtain ⟨next, announced, step⟩ := announces.next pos (by omega)
    obtain ⟨messages, later, run, agreed⟩ := ih announced (by omega) (by omega) (by omega)
    exact ⟨messages + 1, later, (step messages).trans run, agreed⟩

end Announcement

section Election

variable {nodes : Fin n → LENode} {net : LENetwork n} {c i : Fin n} {o : Nat}

/-- The election message of a candidate, the only one in the queue, is on its way to a node. -/
structure Carries (nodes : Fin n → LENode) (net : LENetwork n) (c i : Fin n) : Prop where
  nodes_eq : net.nodes = nodes
  ordered : Ordered net
  waits : ∃ fromId, Waits net ⟨.election, fromId, i.val, (nodes c).priority, c.val⟩

theorem carries_enqueue (nodes_eq : net.nodes = nodes) (ordered : Ordered net) (idle : net.msgHead = net.msgTail)
    (fromId : Int) : Carries nodes (leEnqueueMsg net ⟨.election, fromId, i.val, (nodes c).priority, c.val⟩) c i := by
  obtain ⟨same, order, _⟩ := enqueue_frame net ⟨.election, fromId, i.val, (nodes c).priority, c.val⟩
  exact ⟨same.trans nodes_eq, fun j => (congrFun order j).trans (ordered j), fromId, waits_enqueue idle _⟩

/-- The winner knows itself to be the leader, and tells the next node. -/
theorem announces_win (ordered : Ordered net) (fromId priority : Int) :
    Announces (leEnqueueMsg (leRingWin (delivered net) i)
      ⟨.coordinator, fromId, leNextRingNode (leRingWin (delivered net) i) i.val, priority, i.val⟩) i 1 := by
  set base := leRingWin (delivered net) i with base_eq
  set msg : LEMessage := ⟨.coordinator, fromId, leNextRingNode base i.val, priority, i.val⟩ with msg_eq
  obtain ⟨nodes_eq, order, elected⟩ := enqueue_frame base msg
  refine ⟨fun j => (congrFun order j).trans (ordered j), elected, fun step below => ?_, fromId, priority, ?_⟩
  · obtain rfl : step = 0 := by omega
    rw [nodes_eq, ahead_zero]
    simp [base_eq, leRingWin, LENetwork.modify]
  · have still : Ordered base := ordered
    have next := leNextRingNode_ordered still i
    exact next ▸ waits_enqueue rfl msg

/-- A node passes the message on, or stands for election itself, or is the candidate and has won. -/
inductive Passes (nodes : Fin n → LENode) (c i : Fin n) (next : LENetwork n) : Prop where
  | on (carries : Carries nodes next c (ahead i 1))
      (below : i ∈ alive nodes → (nodes i).priority < (nodes c).priority)
  | instead (carries : Carries nodes next i (ahead i 1)) (awake : i ∈ alive nodes)
      (above : (nodes c).priority < (nodes i).priority)
  | won (announces : Announces next i 1) (awake : i ∈ alive nodes)
      (equal : (nodes c).priority = (nodes i).priority)

theorem Carries.next (carries : Carries nodes net c i) :
    ∃ next, Passes nodes c i next ∧
      ∀ messages, leProcessMessages (messages + 1) net = leProcessMessages messages next := by
  obtain ⟨rfl, ordered, fromId, waits⟩ := carries
  set msg : LEMessage := ⟨.election, fromId, i.val, (net.nodes c).priority, c.val⟩ with msg_eq
  suffices handles : ∃ next, leRingHandleElection (delivered net) msg = some next ∧ Passes net.nodes c i next by
    obtain ⟨next, handled, passes⟩ := handles
    refine ⟨next, passes, fun messages => ?_⟩
    rw [leProcessMessages, dequeue_waits waits]
    simp only [msg_eq] at handled ⊢
    rw [handled, Option.bind_some]
  have still : Ordered (delivered net) := ordered
  have forwarded : leForward (delivered net) msg =
      leEnqueueMsg (delivered net) ⟨.election, i.val, (ahead i 1).val, (net.nodes c).priority, c.val⟩ :=
    leForward_ordered still rfl
  have onward : Carries net.nodes (leForward (delivered net) msg) c (ahead i 1) := by
    rw [forwarded]
    exact carries_enqueue rfl still rfl _
  have next := leNextRingNode_ordered still i
  simp only [leRingHandleElection, msg_eq, slot_val, Option.map_some, nodes_delivered]
  refine ⟨_, rfl, ?_⟩
  cases awake : (net.nodes i).isActive with
  | false =>
    rw [if_pos (by simp)]
    exact .on onward fun awake' => absurd (awake.symm.trans awake') nofun
  | true =>
    rw [if_neg (by simp)]
    rcases lt_trichotomy (net.nodes i).priority (net.nodes c).priority with below | equal | above
    · rw [if_pos below]
      exact .on onward fun _ => below
    · rw [if_neg (not_lt.mpr (le_of_eq equal.symm)), if_neg (not_lt.mpr (le_of_eq equal))]
      exact .won (announces_win ordered _ _) awake equal.symm
    · rw [if_neg (not_lt.mpr (le_of_lt above)), if_pos above, next]
      exact .instead (carries_enqueue rfl still rfl _) awake above

/-- The active nodes with a higher priority than the candidate. -/
def rivals (nodes : Fin n → LENode) (c : Fin n) : Finset (Fin n) :=
  Finset.univ.filter fun i => (nodes i).isActive = true ∧ (nodes c).priority < (nodes i).priority

theorem card_rivals_lt (awake : i ∈ alive nodes) (above : (nodes c).priority < (nodes i).priority) :
    (rivals nodes i).card < (rivals nodes c).card := by
  refine Finset.card_lt_card (Finset.ssubset_iff_of_subset ?_ |>.mpr ⟨i, ?_, ?_⟩)
  · intro j member
    simp only [rivals, Finset.mem_filter, Finset.mem_univ, true_and] at member ⊢
    exact ⟨member.1, lt_trans above member.2⟩
  · exact Finset.mem_filter.mpr ⟨Finset.mem_univ i, awake, above⟩
  · simp [rivals]

/-- The message has come past no active node that the candidate does not exceed. -/
def Ahead (nodes : Fin n → LENode) (c : Fin n) (o : Nat) : Prop :=
  ∀ step, 0 < step → step < o → ahead c step ∈ alive nodes → (nodes (ahead c step)).priority < (nodes c).priority

/-- After a whole turn, the candidate exceeds all other active nodes. -/
theorem Ahead.turn (passed : Ahead nodes c n) (awake : i ∈ alive nodes) : (nodes i).priority ≤ (nodes c).priority := by
  obtain ⟨step, pos, inside, rfl⟩ := exists_ahead_pos c i
  rcases Nat.lt_or_eq_of_le inside with before | rfl
  · exact le_of_lt (passed step pos before awake)
  · rw [ahead_size]

theorem ahead_eq_self (pos : 0 < o) (inside : o ≤ n) (same : ahead c o = c) : o = n := by
  by_contra short
  have zero := ahead_inj (by omega) (by omega) (same.trans (ahead_zero c).symm)
  omega

/-- Each message either brings the candidate's own one step nearer to it, or leaves a candidate with
fewer rivals. -/
theorem Carries.ends (distinct : Function.Injective fun i => (nodes i).priority)
    (carries : Carries nodes net c (ahead c o)) (pos : 0 < o) (inside : o ≤ n) (passed : Ahead nodes c o)
    (contested : c ∈ alive nodes ∨ ∃ i ∈ alive nodes, (nodes c).priority < (nodes i).priority) :
    ∃ best, Best nodes best ∧ Ends net best := by
  induction size : (rivals nodes c).card * (n + 1) + (n - o) using Nat.strong_induction_on generalizing net c o with
  | _ size ih =>
    obtain ⟨next, passes, step⟩ := carries.next
    have ends {best : Fin n} (later : Ends next best) : Ends net best := by
      obtain ⟨messages, last, run, agreed⟩ := later
      exact ⟨messages + 1, last, (step messages).trans run, agreed⟩
    cases passes with
    | on carries below =>
      have further : o < n := by
        refine Nat.lt_of_le_of_ne inside ?_
        rintro rfl
        rw [ahead_size] at below
        rcases contested with awake | ⟨i, awake, above⟩
        · exact lt_irrefl _ (below awake)
        · exact not_lt.mpr (passed.turn awake) above
      rw [ahead_ahead] at carries
      have onward : Ahead nodes c (o + 1) := by
        intro step pos before awake
        rcases Nat.lt_succ_iff_lt_or_eq.mp before with earlier | rfl
        · exact passed step pos earlier awake
        · exact below awake
      obtain ⟨best, highest, later⟩ := ih _ (by omega) carries (Nat.succ_pos o) further onward contested rfl
      exact ⟨best, highest, ends later⟩
    | instead carries awake above =>
      have fewer := Nat.mul_le_mul_right (n + 1) (card_rivals_lt awake above)
      rw [Nat.succ_mul] at fewer
      have fresh : Ahead nodes (ahead c o) 1 := fun step pos before => absurd before (Nat.not_lt.mpr pos)
      obtain ⟨best, highest, later⟩ := ih _ (by omega) carries Nat.one_pos (by omega) fresh (.inl awake) rfl
      exact ⟨best, highest, ends later⟩
    | won announces awake equal =>
      have same : ahead c o = c := distinct equal.symm
      obtain rfl := ahead_eq_self pos inside same
      rw [same] at announces awake
      exact ⟨c, ⟨awake, fun i awake => passed.turn awake⟩, ends (announces.ends Nat.one_pos pos)⟩

/-- The message of a node that exceeds all active nodes, and so is not active, circulates for ever. -/
theorem Carries.endless (carries : Carries nodes net c i)
    (highest : ∀ i ∈ alive nodes, (nodes i).priority < (nodes c).priority) (messages : Nat) :
    leProcessMessages messages net = none := by
  induction messages generalizing net i with
  | zero => rfl
  | succ messages ih =>
    obtain ⟨next, passes, step⟩ := carries.next
    rw [step]
    cases passes with
    | on carries => exact ih carries
    | instead _ awake above => exact absurd above (not_lt.mpr (le_of_lt (highest i awake)))
    | won _ awake equal => exact absurd equal (ne_of_gt (highest i awake))

end Election

section Start

variable {net : LENetwork n}

theorem carries_start (ordered : Ordered net) (idle : net.msgHead = net.msgTail) (initiator : Fin n) :
    Carries net.nodes (leRingStartElection net initiator) initiator (ahead initiator 1) := by
  have still : Ordered { net with electionInProgress := true } := ordered
  have next := leNextRingNode_ordered still initiator
  simp only [leRingStartElection, next]
  rw [if_neg (not_lt.mpr (Int.natCast_nonneg _))]
  exact carries_enqueue rfl still idle _

/-- An election ends with the best node as leader exactly if the initiator is active, or an active node
exceeds it. -/
theorem ringElection_elects_iff (net : LENetwork n) (ordered : Ordered net) (idle : net.msgHead = net.msgTail)
    (distinct : Function.Injective fun i => (net.nodes i).priority) (initiator : Fin n) :
    Elects net initiator ↔ initiator ∈ alive net.nodes ∨
      ∃ i ∈ alive net.nodes, (net.nodes initiator).priority < (net.nodes i).priority := by
  have carries := carries_start ordered idle initiator
  have room : 1 ≤ n := Nat.lt_of_le_of_lt (Nat.zero_le _) initiator.isLt
  constructor
  · rintro ⟨messages, later, run, _⟩
    by_contra uncontested
    obtain ⟨asleep, unexceeded⟩ := not_or.mp uncontested
    have highest : ∀ i ∈ alive net.nodes, (net.nodes i).priority < (net.nodes initiator).priority := by
      intro i awake
      refine lt_of_le_of_ne (not_lt.mp fun above => unexceeded ⟨i, awake, above⟩) fun equal => ?_
      exact asleep (distinct equal ▸ awake)
    rw [carries.endless highest] at run
    cases run
  · intro contested
    have fresh : Ahead net.nodes initiator 1 := fun step pos before => absurd before (Nat.not_lt.mpr pos)
    obtain ⟨best, highest, messages, later, run, agreed⟩ := carries.ends distinct Nat.one_pos room fresh contested
    exact ⟨messages, later, run, best, highest, agreed⟩

/-- `le_init_network` without priorities, which takes the place of a node instead. -/
def ranked (n : Nat) : LENetwork n := leInitNetwork (fun i => i.val) fun _ => ⟨.answer, 0, 0, 0, 0⟩

/-- The best of three nodes is not active. -/
theorem ringElection_elects_three :
    let net := (ranked 3).modify 2 fun nd => { nd with isActive := false }
    Elects net 0 ↔ 0 ∈ alive net.nodes ∨ ∃ i ∈ alive net.nodes, (net.nodes 0).priority < (net.nodes i).priority :=
  ringElection_elects_iff _ (fun _ => rfl) rfl (by decide) 0

/-- The best of two nodes starts an election though it is not active. -/
theorem ringElection_circulates :
    let net := (ranked 2).modify 1 fun nd => { nd with isActive := false }
    0 ∈ alive net.nodes ∧ ¬ Elects net 1 := by
  intro net
  refine ⟨rfl, ?_⟩
  rintro ⟨messages, later, run, _⟩
  have carries : Carries net.nodes (leRingStartElection net 1) 1 (ahead 1 1) := carries_start (fun _ => rfl) rfl 1
  have highest : ∀ i ∈ alive net.nodes, (net.nodes i).priority < (net.nodes 1).priority := by
    intro i awake
    match i with
    | 0 => decide
    | 1 => cases awake
  rw [carries.endless highest] at run
  cases run

end Start

end MiniNetDist.SystemTheory.LeaderElection
