import MiniNetDist.Library.Circle
import MiniNetDist.Library.Slot
import Mathlib.Data.List.FinRange
import Mathlib.Logic.Function.Basic
import Mathlib.Order.Bounds.Basic

/-! The token ring of `mini-dist-protocol/src/leader_election.c`. A crash links only one predecessor past
the node that is gone, so a live node may go on pointing at a dead one. -/

namespace MiniNetDist.DistProtocol.RingElection

open Library Library.Circle

def ringMaxNodes : Nat := 10

structure RingElectionToken where
  candidateId : Int
  highestId : Int
  hopCount : Nat
  complete : Bool
  deriving DecidableEq, Repr

/-- A node whose `id` is its place; a `leader_id` of -1 is no leader. -/
structure RingNode (n : Nat) where
  leaderId : Int
  nextId : Fin n
  active : Bool
  token : RingElectionToken
  tokenOwner : Bool
  messageCount : Nat
  deriving DecidableEq, Repr

/-- `node_count` is `n`. -/
structure RingCluster (n : Nat) where
  nodes : Fin n → RingNode n

variable {n : Nat}

def ringInit (n : Nat) : RingCluster n :=
  ⟨fun i => ⟨-1, ahead i 1, true, ⟨0, 0, 0, false⟩, false, 0⟩⟩

def RingCluster.modify (cluster : RingCluster n) (i : Fin n) (change : RingNode n → RingNode n) : RingCluster n :=
  ⟨Function.update cluster.nodes i (change (cluster.nodes i))⟩

/-- The next hop of `ring_election`: the link, or the first active node behind a dead one. -/
def nextHop (cluster : RingCluster n) (current : Fin n) : Option (Fin n) :=
  let next := (cluster.nodes current).nextId
  if (cluster.nodes next).active then some next
  else seek (fun i => (cluster.nodes i).active) n (ahead next 1)

/-- A node that the token reaches. -/
def takeToken (cluster : RingCluster n) (i : Fin n) : RingCluster n :=
  cluster.modify i fun node => { node with messageCount := node.messageCount + 1, tokenOwner := true }

def storeToken (cluster : RingCluster n) (i : Fin n) (token : RingElectionToken) : RingCluster n :=
  cluster.modify i fun node => { node with token }

def RingElectionToken.visit (token : RingElectionToken) (id : Int) : RingElectionToken :=
  { token with
    highestId := if id > token.highestId then id else token.highestId
    hopCount := token.hopCount + 1 }

def announceLeader (cluster : RingCluster n) (leaderId : Int) : RingCluster n :=
  ⟨fun i => { cluster.nodes i with leaderId, tokenOwner := false }⟩

/-- The loop of `ring_election` with so many hops left. -/
def passToken (initiator : Fin n) : Nat → Fin n → RingElectionToken → RingCluster n → RingCluster n × Int
  | 0, _, _, cluster => (cluster, -1)
  | left + 1, current, token, cluster =>
    match nextHop cluster current with
    | none => (cluster, -1)
    | some next =>
      let cluster := takeToken cluster next
      let token := token.visit next.val
      if next = initiator then (announceLeader cluster token.highestId, token.highestId)
      else passToken initiator left next token (storeToken cluster next token)

def ringElection (cluster : RingCluster n) (initiator : Fin n) : RingCluster n × Int :=
  let token : RingElectionToken := ⟨initiator.val, initiator.val, 0, false⟩
  passToken initiator (ringMaxNodes * 2) initiator token (storeToken (takeToken cluster initiator) initiator token)

/-- The loop of `ring_node_crash` over the predecessors; it leaves after the first. Looking around the
ring without end has no result. -/
def linkPast (cluster : RingCluster n) (node : Fin n) : Option (RingCluster n) :=
  match (List.finRange n).find? fun i => (cluster.nodes i).nextId = node with
  | none => some cluster
  | some i =>
    (seek (fun j => (cluster.nodes j).active || j = i) n (ahead node 1)).map fun newNext =>
      cluster.modify i fun link => { link with nextId := newNext }

def ringNodeCrash (cluster : RingCluster n) (nodeId : Int) : Option (RingCluster n) :=
  match slot n nodeId with
  | none => some cluster
  | some node =>
    (linkPast (cluster.modify node fun gone => { gone with active := false }) node).bind fun cluster =>
      if (cluster.nodes node).leaderId = nodeId then
        (seek (fun i => (cluster.nodes i).active) n (ahead node 1)).map fun nextAlive =>
          (ringElection cluster nextAlive).1
      else some cluster

inductive RingCall (n : Nat) where
  | crash (nodeId : Int)
  | election (initiator : Fin n)
  deriving DecidableEq

def ringCall (cluster : Option (RingCluster n)) (call : RingCall n) : Option (RingCluster n) :=
  cluster.bind fun cluster =>
    match call with
    | .crash nodeId => ringNodeCrash cluster nodeId
    | .election initiator => some (ringElection cluster initiator).1

/-- The active nodes. -/
def RingCluster.alive (cluster : RingCluster n) : Set (Fin n) := { i | (cluster.nodes i).active = true }

/-- An election from this node returns the highest active node, which all nodes follow then. -/
def Elects (cluster : RingCluster n) (initiator : Fin n) : Prop :=
  ∃ top, IsGreatest cluster.alive top ∧ (ringElection cluster initiator).2 = top.val ∧
    ∀ i, ((ringElection cluster initiator).1.nodes i).leaderId = top.val

/-- What elections leave as it is: who is active, and the links. -/
def RingCluster.links (cluster : RingCluster n) (i : Fin n) : Bool × Fin n :=
  ((cluster.nodes i).active, (cluster.nodes i).nextId)

/-- The link of an active node passes over no other active node. -/
def Linked (cluster : RingCluster n) : Prop :=
  ∀ i ∈ cluster.alive, ∃ k, 0 < k ∧ k ≤ n ∧ (cluster.nodes i).nextId = ahead i k ∧ Clear cluster.alive i k

section Frame

variable {cluster later : RingCluster n} {i : Fin n}

theorem links_modify {change : RingNode n → RingNode n} (active : ∀ node, (change node).active = node.active)
    (nextId : ∀ node, (change node).nextId = node.nextId) : (cluster.modify i change).links = cluster.links := by
  funext j
  by_cases same : j = i
  · subst same
    simp [RingCluster.links, RingCluster.modify, active, nextId]
  · simp [RingCluster.links, RingCluster.modify, same]

theorem alive_modify {change : RingNode n → RingNode n} (active : ∀ node, (change node).active = node.active) :
    (cluster.modify i change).alive = cluster.alive := by
  ext j
  by_cases same : j = i
  · subst same
    simp [RingCluster.alive, RingCluster.modify, active]
  · simp [RingCluster.alive, RingCluster.modify, same]

@[simp] theorem links_takeToken : (takeToken cluster i).links = cluster.links :=
  links_modify (fun _ => rfl) fun _ => rfl

@[simp] theorem links_storeToken (token : RingElectionToken) : (storeToken cluster i token).links = cluster.links :=
  links_modify (fun _ => rfl) fun _ => rfl

theorem active_of_links (same : later.links = cluster.links) (i : Fin n) :
    (later.nodes i).active = (cluster.nodes i).active := congrArg Prod.fst (congrFun same i)

theorem nextId_of_links (same : later.links = cluster.links) (i : Fin n) :
    (later.nodes i).nextId = (cluster.nodes i).nextId := congrArg Prod.snd (congrFun same i)

theorem alive_of_links (same : later.links = cluster.links) : later.alive = cluster.alive := by
  ext i
  exact iff_of_eq (congrArg (· = true) (active_of_links same i))

theorem Linked.of_links (linked : Linked cluster) (same : later.links = cluster.links) : Linked later := by
  intro i awake
  rw [alive_of_links same] at awake ⊢
  rw [nextId_of_links same]
  exact linked i awake

theorem links_passToken (initiator current : Fin n) (left : Nat) (token : RingElectionToken)
    (cluster : RingCluster n) : (passToken initiator left current token cluster).1.links = cluster.links := by
  induction left generalizing current token cluster with
  | zero => rfl
  | succ left ih =>
    rw [passToken]
    cases nextHop cluster current with
    | none => rfl
    | some next =>
      simp only
      split
      · exact links_takeToken
      · rw [ih, links_storeToken, links_takeToken]

theorem links_ringElection (cluster : RingCluster n) (initiator : Fin n) :
    (ringElection cluster initiator).1.links = cluster.links := by
  rw [ringElection, links_passToken, links_storeToken, links_takeToken]

end Frame

section Election

variable {cluster : RingCluster n} {initiator current : Fin n}

/-- A hop goes to the next active node, whatever dead nodes the link leads to. -/
theorem nextHop_of_linked (linked : Linked cluster) (awake : current ∈ cluster.alive) :
    ∃ k, 0 < k ∧ k ≤ n ∧ nextHop cluster current = some (ahead current k) ∧
      ahead current k ∈ cluster.alive ∧ Clear cluster.alive current k := by
  obtain ⟨k, pos, inside, link, clear⟩ := linked current awake
  simp only [nextHop, link]
  by_cases active : ahead current k ∈ cluster.alive
  · exact ⟨k, pos, inside, if_pos active, active, clear⟩
  · obtain ⟨first, found⟩ := exists_seek (fun i => (cluster.nodes i).active) (ahead (ahead current k) 1) awake
    obtain ⟨m, further, _, rfl, stops, onward⟩ := seek_ahead found
    have whole : Clear cluster.alive current (k + m) := clear.join active onward
    have turn : k + m ≤ n := whole.le_of_mem (Nat.lt_of_lt_of_le pos inside) ((ahead_size current).symm ▸ awake)
    rw [ahead_ahead current k m] at found stops
    exact ⟨k + m, Nat.add_pos_left pos m, turn, (if_neg active).trans found, stops, whole⟩

theorem highestId_visit {token : RingElectionToken} {next top : Fin n} (highest : token.highestId = top.val) :
    (token.visit next.val).highestId = (max next top).val := by
  rw [RingElectionToken.visit, highest]
  rcases lt_or_ge top next with above | below
  · rw [max_eq_left (le_of_lt above)]
    exact if_pos (Int.ofNat_lt.mpr above)
  · rw [max_eq_right below]
    exact if_neg (not_lt.mpr (Int.ofNat_le.mpr below))

theorem passToken_elects (token : RingElectionToken) (linked : Linked cluster) (starts : initiator ∈ cluster.alive)
    {o left : Nat} {top : Fin n} (inside : o < n) (enough : n ≤ o + left)
    (awake : ahead initiator o ∈ cluster.alive) (highest : token.highestId = top.val)
    (greatest : IsGreatest (passed cluster.alive initiator o) top) :
    ∃ last, IsGreatest cluster.alive last ∧
      (passToken initiator left (ahead initiator o) token cluster).2 = last.val ∧
      ∀ i, ((passToken initiator left (ahead initiator o) token cluster).1.nodes i).leaderId = last.val := by
  induction left generalizing o token top cluster with
  | zero => omega
  | succ left ih =>
    obtain ⟨k, pos, _, hop, stops, clear⟩ := nextHop_of_linked linked awake
    rw [ahead_ahead] at hop stops
    -- the initiator itself is active, so the token does not overtake it
    have turn : k ≤ n - o :=
      clear.le_of_mem (Nat.sub_pos_of_lt inside) ((ahead_remainder o (Nat.le_of_lt inside)).symm ▸ starts)
    have further : IsGreatest (passed cluster.alive initiator (o + k)) (max (ahead initiator (o + k)) top) := by
      rw [passed_next clear stops]
      exact greatest.insert _
    have noted : (token.visit (ahead initiator (o + k)).val).highestId = (max (ahead initiator (o + k)) top).val :=
      highestId_visit highest
    rw [passToken, hop]
    simp only
    by_cases around : o + k = n
    · have home : ahead initiator (o + k) = initiator := around ▸ ahead_size initiator
      rw [passed_turn (by omega)] at further
      rw [if_pos home]
      exact ⟨_, further, noted, fun _ => noted⟩
    · have away : ahead initiator (o + k) ≠ initiator := by
        intro home
        have zero := ahead_inj (by omega) (by omega) (home.trans (ahead_zero initiator).symm)
        omega
      rw [if_neg away]
      set later := storeToken (takeToken cluster (ahead initiator (o + k))) (ahead initiator (o + k))
        (token.visit (ahead initiator (o + k)).val) with later_eq
      have same : later.links = cluster.links := by rw [later_eq, links_storeToken, links_takeToken]
      have alive := alive_of_links same
      have elected := ih _ (linked.of_links same) (alive ▸ starts) (by omega) (by omega) (alive ▸ stops) noted
        (alive ▸ further)
      rwa [alive] at elected

theorem ringElection_elects (bounded : n ≤ ringMaxNodes) (linked : Linked cluster)
    (starts : initiator ∈ cluster.alive) : Elects cluster initiator := by
  set token : RingElectionToken := ⟨initiator.val, initiator.val, 0, false⟩
  set first := storeToken (takeToken cluster initiator) initiator token with first_eq
  have same : first.links = cluster.links := by rw [first_eq, links_storeToken, links_takeToken]
  have alive := alive_of_links same
  have begun : IsGreatest (passed first.alive initiator 0) initiator := by
    rw [alive, passed_zero starts]
    exact isGreatest_singleton
  have room : 0 < n := Nat.lt_of_le_of_lt (Nat.zero_le _) initiator.isLt
  have hops : n ≤ 0 + ringMaxNodes * 2 := by omega
  have here : ahead initiator 0 ∈ first.alive := by rwa [ahead_zero, alive]
  have elected := passToken_elects token (linked.of_links same) (alive ▸ starts) room hops here rfl begun
  rwa [ahead_zero, alive] at elected

end Election

section Crash

variable {cluster : RingCluster n} {node i : Fin n}

theorem alive_crash :
    (cluster.modify node fun gone => { gone with active := false }).alive = cluster.alive \ {node} := by
  ext j
  by_cases same : j = node
  · subst same
    simp [RingCluster.alive, RingCluster.modify]
  · simp [RingCluster.alive, RingCluster.modify, same]

theorem nextId_crash (j : Fin n) :
    ((cluster.modify node fun gone => { gone with active := false }).nodes j).nextId = (cluster.nodes j).nextId := by
  by_cases same : j = node
  · subst same
    simp [RingCluster.modify]
  · simp [RingCluster.modify, same]

/-- Whoever is gone, the links of the others still pass over no active node. -/
theorem Linked.crash (linked : Linked cluster) :
    Linked (cluster.modify node fun gone => { gone with active := false }) := by
  intro j awake
  rw [alive_crash] at awake ⊢
  obtain ⟨k, pos, inside, link, clear⟩ := linked j awake.1
  exact ⟨k, pos, inside, (nextId_crash j).trans link, clear.mono Set.sdiff_subset⟩

/-- The link of the first node before a dead one is moved on to the next active node, or back to itself. -/
theorem linkPast_linked (linked : Linked cluster) (gone : node ∉ cluster.alive) :
    ∃ later, linkPast cluster node = some later ∧ later.alive = cluster.alive ∧ Linked later := by
  unfold linkPast
  cases found : (List.finRange n).find? fun i => (cluster.nodes i).nextId = node with
  | none => exact ⟨cluster, rfl, rfl, linked⟩
  | some i =>
    have leads : (cluster.nodes i).nextId = node := by simpa using List.find?_some found
    obtain ⟨first, sought⟩ := exists_seek (fun j => (cluster.nodes j).active || j = i) (ahead node 1) (j := i)
      (by simp)
    obtain ⟨k, pos, _, rfl, _, onward⟩ := seek_ahead sought
    simp only [sought, Option.map_some]
    have alive : (cluster.modify i fun link => { link with nextId := ahead node k }).alive = cluster.alive :=
      alive_modify fun _ => rfl
    refine ⟨_, rfl, alive, fun j awake => ?_⟩
    rw [alive] at awake ⊢
    obtain ⟨m, further, inside, link, clear⟩ := linked j awake
    by_cases same : j = i
    · subst same
      have name : ahead j m = node := link.symm.trans leads
      have apart : m ≠ n := by
        rintro rfl
        rw [ahead_size] at name
        exact gone (name ▸ awake)
      have room : 0 < n - m := by omega
      have home : ahead node (n - m) = j := name ▸ ahead_remainder m inside
      have turn : k ≤ n - m := onward.le_of_mem room (by simp [home])
      have free : Clear cluster.alive (ahead j m) k := by
        rw [name]
        refine onward.mono fun other member => ?_
        have active : (cluster.nodes other).active = true := member
        simp [active]
      refine ⟨m + k, Nat.add_pos_left further k, by omega, ?_, clear.join (name ▸ gone) free⟩
      rw [← ahead_ahead, name]
      simp [RingCluster.modify]
    · refine ⟨m, further, inside, ?_, clear⟩
      rw [← link]
      simp [RingCluster.modify, same]

/-- A crash that leaves a node active terminates. -/
theorem ringNodeCrash_linked (linked : Linked cluster) (nodeId : Int) (awake : i ∈ cluster.alive)
    (survives : (i.val : Int) ≠ nodeId) :
    ∃ later, ringNodeCrash cluster nodeId = some later ∧
      later.alive = { j ∈ cluster.alive | (j.val : Int) ≠ nodeId } ∧ Linked later := by
  unfold ringNodeCrash
  cases named : slot n nodeId with
  | none =>
    refine ⟨cluster, rfl, ?_, linked⟩
    ext j
    refine ⟨fun member => ⟨member, ?_⟩, And.left⟩
    rintro rfl
    rw [slot_val] at named
    cases named
  | some node =>
    have name : (node.val : Int) = nodeId := slot_eq_some_iff.mp named
    have gone : node ∉ (cluster.modify node fun gone => { gone with active := false }).alive := by simp [alive_crash]
    obtain ⟨later, repaired, alive, links⟩ := linkPast_linked linked.crash gone
    have left : later.alive = { j ∈ cluster.alive | (j.val : Int) ≠ nodeId } := by
      rw [alive, alive_crash, ← name]
      ext j
      simp only [Set.mem_sdiff, Set.mem_singleton_iff, Fin.ext_iff, Set.mem_ofPred_eq]
      exact and_congr_right fun _ => by omega
    simp only [repaired, Option.bind_some]
    by_cases leads : (later.nodes node).leaderId = nodeId
    · rw [if_pos leads]
      have stays : i ∈ later.alive := left ▸ ⟨awake, survives⟩
      obtain ⟨next, found⟩ := exists_seek (fun i => (later.nodes i).active) (ahead node 1) stays
      rw [found, Option.map_some]
      have same := links_ringElection later next
      exact ⟨_, rfl, (alive_of_links same).trans left, links.of_links same⟩
    · rw [if_neg leads]
      exact ⟨later, rfl, left, links⟩

end Crash

section Run

variable {cluster : RingCluster n} {i : Fin n}

theorem linked_ringInit : Linked (ringInit n) :=
  fun i _ => ⟨1, Nat.one_pos, Nat.lt_of_le_of_lt (Nat.zero_le _) i.isLt, rfl, clear_one⟩

/-- As long as a node survives all crashes of a run, every call terminates, and the links keep leading
from each active node to active ones. -/
theorem ringRun_linked (calls : List (RingCall n)) (linked : Linked cluster) (awake : i ∈ cluster.alive)
    (survives : RingCall.crash i.val ∉ calls) :
    ∃ later, calls.foldl ringCall (some cluster) = some later ∧
      later.alive = { j ∈ cluster.alive | RingCall.crash j.val ∉ calls } ∧ Linked later := by
  induction calls generalizing cluster with
  | nil => exact ⟨cluster, rfl, by simp, linked⟩
  | cons call rest ih =>
    obtain ⟨others, after⟩ := not_or.mp (List.mem_cons.not.mp survives)
    cases call with
    | crash nodeId =>
      have stays : (i.val : Int) ≠ nodeId := fun same => others (congrArg RingCall.crash same)
      obtain ⟨next, crashes, alive, links⟩ := ringNodeCrash_linked linked nodeId awake stays
      have step : ringCall (some cluster) (.crash nodeId) = some next := crashes
      obtain ⟨later, onward, left, kept⟩ := ih links (alive ▸ ⟨awake, stays⟩) after
      refine ⟨later, ?_, ?_, kept⟩
      · rw [List.foldl_cons, step, onward]
      · rw [left, alive]
        ext j
        simp [and_assoc]
    | election initiator =>
      have links := links_ringElection cluster initiator
      obtain ⟨later, onward, left, kept⟩ := ih (linked.of_links links) (alive_of_links links ▸ awake) after
      refine ⟨later, onward, ?_, kept⟩
      rw [left, alive_of_links links]
      simp

/-- After any crashes and elections that leave a node active, the elections of the active nodes succeed. -/
theorem ringRun_elects (bounded : n ≤ ringMaxNodes) (calls : List (RingCall n))
    (survivor : ∃ i : Fin n, RingCall.crash i.val ∉ calls) :
    ∃ later, calls.foldl ringCall (some (ringInit n)) = some later ∧
      later.alive = { i | RingCall.crash i.val ∉ calls } ∧ ∀ initiator ∈ later.alive, Elects later initiator := by
  obtain ⟨i, survives⟩ := survivor
  obtain ⟨later, run, alive, linked⟩ := ringRun_linked calls linked_ringInit (i := i) rfl survives
  refine ⟨later, run, ?_, fun initiator awake => ringElection_elects bounded linked awake⟩
  rw [alive]
  ext j
  exact and_iff_right rfl

/-- Four nodes, two of which crash one after the other. -/
theorem ringRun_elects_four :
    ∃ later, [RingCall.crash 2, .crash 3, .election (2 : Fin 4)].foldl ringCall (some (ringInit 4)) = some later ∧
      later.alive = { i | RingCall.crash i.val ∉ [.crash 2, .crash 3, .election (2 : Fin 4)] } ∧
        ∀ initiator ∈ later.alive, Elects later initiator :=
  ringRun_elects (by decide) _ ⟨0, by decide⟩

end Run

end MiniNetDist.DistProtocol.RingElection
