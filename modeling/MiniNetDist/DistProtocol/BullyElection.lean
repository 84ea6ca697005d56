import MiniNetDist.Library.Run
import MiniNetDist.Library.Slot
import Mathlib.Data.List.FinRange
import Mathlib.Logic.Function.Basic
import Mathlib.Order.Bounds.Basic

/-! The bully election of `mini-dist-protocol/src/leader_election.c`. An election calls itself; a call that
would be nested deeper than the number of nodes has no result. -/

namespace MiniNetDist.DistProtocol.BullyElection

open Library

def BULLY_MAX_NODES : Nat := 10

inductive BullyState where
  | idle
  | election
  | leader
  deriving DecidableEq, Repr

/-- A node whose `id` is its place; a `leader_id` of -1 is no leader. -/
structure BullyNode where
  leaderId : Int
  state : BullyState
  active : Bool
  messageCount : Nat
  deriving DecidableEq, Repr

/-- `node_count` is `n`. -/
structure BullyCluster (n : Nat) where
  nodes : Fin n → BullyNode

variable {n : Nat}

def bullyFresh (n : Nat) : BullyCluster n := ⟨fun _ => ⟨-1, .idle, true, 0⟩⟩

/-- No result when a node is set up outside the array of nodes. -/
def bullyInit (n : Nat) : Option (BullyCluster n) := if n ≤ BULLY_MAX_NODES then some (bullyFresh n) else none

def BullyCluster.modify (cluster : BullyCluster n) (i : Fin n) (change : BullyNode → BullyNode) : BullyCluster n :=
  ⟨Function.update cluster.nodes i (change (cluster.nodes i))⟩

def bullyDeclareLeader (cluster : BullyCluster n) (leaderId : Fin n) : BullyCluster n where
  nodes i :=
    { cluster.nodes i with
      leaderId := leaderId.val, state := .leader
      messageCount := (cluster.nodes i).messageCount + if i = leaderId then 0 else 1 }

/-- The locals of `bully_election` with the cluster. -/
structure Ballot (n : Nat) where
  cluster : BullyCluster n
  highest : Fin n
  anyResponse : Bool

/-- A node that is asked to take part in the election of the initiator. -/
def askNode (cluster : BullyCluster n) (initiator i : Fin n) : BullyCluster n :=
  (cluster.modify i fun node => { node with state := .election, messageCount := node.messageCount + 1 }).modify
    initiator fun node => { node with messageCount := node.messageCount + 1 }

/-- The loop of `bully_election`; `elect` is the election of a node with a higher id. -/
def bullyLoop (elect : BullyCluster n → Fin n → Option (BullyCluster n × Fin n)) (initiator : Fin n) :
    List (Fin n) → Ballot n → Option (Ballot n)
  | [], ballot => some ballot
  | i :: rest, ballot =>
    if i = initiator ∨ !(ballot.cluster.nodes i).active then bullyLoop elect initiator rest ballot
    else
      let cluster := askNode ballot.cluster initiator i
      if i > ballot.highest then
        match elect cluster i with
        | none => none
        | some (cluster, subWinner) => bullyLoop elect initiator rest ⟨cluster, max i subWinner, true⟩
      else bullyLoop elect initiator rest { ballot with cluster }

/-- The end of `bully_election`. -/
def closeElection (initiator : Fin n) (ballot : Ballot n) : BullyCluster n × Fin n :=
  if !ballot.anyResponse && (ballot.cluster.nodes initiator).active then
    (bullyDeclareLeader ballot.cluster initiator, ballot.highest)
  else (ballot.cluster, ballot.highest)

/-- `bully_election` as long as calls are nested at most so deep. -/
def bullyElectionWithin : Nat → BullyCluster n → Fin n → Option (BullyCluster n × Fin n)
  | 0, _, _ => none
  | depth + 1, cluster, initiator =>
    (bullyLoop (bullyElectionWithin depth) initiator (List.finRange n) ⟨cluster, initiator, false⟩).map
      (closeElection initiator)

def bullyElection (cluster : BullyCluster n) (initiator : Fin n) : Option (BullyCluster n × Fin n) :=
  bullyElectionWithin n cluster initiator

/-- `highest_active`, if it is not -1. -/
def highestActive (cluster : BullyCluster n) : Option (Fin n) :=
  (List.finRange n).foldl (fun highest i =>
    if (cluster.nodes i).active ∧ ∀ before ∈ highest, i > before then some i else highest) none

def bullyNodeCrash (cluster : BullyCluster n) (nodeId : Int) : Option (BullyCluster n) :=
  match slot n nodeId with
  | none => some cluster
  | some node =>
    let cluster := cluster.modify node fun node => { node with active := false, state := .idle }
    if (cluster.nodes node).leaderId = nodeId then
      match highestActive cluster with
      | none => some cluster
      | some highest => (bullyElection cluster highest).map (·.1)
    else some cluster

/-- The node at index 0, in a cluster with at least one node. -/
def firstNode (node : Fin n) : Fin n := ⟨0, Nat.lt_of_le_of_lt (Nat.zero_le _) node.isLt⟩

def bullyNodeRecover (cluster : BullyCluster n) (nodeId : Int) : Option (BullyCluster n) :=
  match slot n nodeId with
  | none => some cluster
  | some node =>
    let cluster := cluster.modify node fun node => { node with active := true, state := .idle }
    if nodeId > (cluster.nodes (firstNode node)).leaderId then (bullyElection cluster node).map (·.1)
    else some cluster

inductive BullyCall (n : Nat) where
  | crash (nodeId : Int)
  | recover (nodeId : Int)
  | election (initiator : Fin n)

def bullyCall (cluster : Option (BullyCluster n)) (call : BullyCall n) : Option (BullyCluster n) :=
  cluster.bind fun cluster =>
    match call with
    | .crash nodeId => bullyNodeCrash cluster nodeId
    | .recover nodeId => bullyNodeRecover cluster nodeId
    | .election initiator => (bullyElection cluster initiator).map (·.1)

/-- The active nodes. -/
def BullyCluster.alive (cluster : BullyCluster n) : Set (Fin n) := { i | (cluster.nodes i).active = true }

/-- The call before terminated, and every active node follows the highest of them. -/
def Led (cluster : Option (BullyCluster n)) : Prop :=
  ∃ cluster', cluster = some cluster' ∧
    ∀ top, IsGreatest cluster'.alive top → ∀ i ∈ cluster'.alive, (cluster'.nodes i).leaderId = top.val

/-- Elections are started by active nodes. -/
def FromActive (cluster : Option (BullyCluster n)) : BullyCall n → Prop
  | .election initiator => ∀ cluster' ∈ cluster, initiator ∈ cluster'.alive
  | _ => True

/-- When no node is active, no node below the last leader recovers. -/
def RevivesLeader (cluster : Option (BullyCluster n)) : BullyCall n → Prop
  | .recover nodeId => ∀ cluster' ∈ cluster, ∀ node, slot n nodeId = some node → cluster'.alive = ∅ →
      (cluster'.nodes (firstNode node)).leaderId ≤ nodeId
  | _ => True

theorem mem_alive {cluster : BullyCluster n} {i : Fin n} : i ∈ cluster.alive ↔ (cluster.nodes i).active = true :=
  Iff.rfl

section Frame

variable (cluster : BullyCluster n) (i : Fin n)

theorem alive_modify {change : BullyNode → BullyNode} (keeps : ∀ node, (change node).active = node.active) :
    (cluster.modify i change).alive = cluster.alive := by
  ext j
  by_cases same : j = i
  · subst same
    simp [BullyCluster.alive, BullyCluster.modify, keeps]
  · simp [BullyCluster.alive, BullyCluster.modify, same]

theorem leaderId_modify {change : BullyNode → BullyNode} (keeps : ∀ node, (change node).leaderId = node.leaderId)
    (j : Fin n) : ((cluster.modify i change).nodes j).leaderId = (cluster.nodes j).leaderId := by
  by_cases same : j = i
  · subst same
    simp [BullyCluster.modify, keeps]
  · simp [BullyCluster.modify, same]

@[simp] theorem alive_askNode (initiator : Fin n) : (askNode cluster initiator i).alive = cluster.alive := by
  rw [askNode, alive_modify, alive_modify] <;> exact fun _ => rfl

@[simp] theorem leaderId_askNode (initiator j : Fin n) :
    ((askNode cluster initiator i).nodes j).leaderId = (cluster.nodes j).leaderId := by
  rw [askNode, leaderId_modify, leaderId_modify] <;> exact fun _ => rfl

end Frame

/-- An election ended with `top`, which all nodes now follow. -/
def Elected (alive : Set (Fin n)) (top : Fin n) (result : Option (BullyCluster n × Fin n)) : Prop :=
  ∃ later, result = some (later, top) ∧ later.alive = alive ∧ ∀ j, (later.nodes j).leaderId = top.val

section Election

variable {alive : Set (Fin n)} {initiator top : Fin n}

/-- Once a higher node has responded, the highest is elected; before that nobody else is. -/
structure Counted (alive : Set (Fin n)) (initiator top : Fin n) (ballot : Ballot n) : Prop where
  alive_eq : ballot.cluster.alive = alive
  responded : ballot.anyResponse = true → ballot.highest = top ∧ ∀ j, (ballot.cluster.nodes j).leaderId = top.val
  alone : ballot.anyResponse = false → ballot.highest = initiator

/-- The loop finds a higher node if there is one, and then only notes that the others were asked. -/
theorem bullyLoop_counted {elect : BullyCluster n → Fin n → Option (BullyCluster n × Fin n)}
    (greatest : IsGreatest alive top)
    (elects : ∀ (cluster : BullyCluster n) i, cluster.alive = alive → i ∈ alive → initiator < i →
      Elected alive top (elect cluster i))
    (nodes : List (Fin n)) (ballot : Ballot n) (counted : Counted alive initiator top ballot) :
    ∃ later, bullyLoop elect initiator nodes ballot = some later ∧ Counted alive initiator top later ∧
      (ballot.anyResponse = true → later.anyResponse = true) ∧
      (later.anyResponse = false → ∀ i ∈ nodes, i ∈ alive → i ≤ initiator) := by
  induction nodes generalizing ballot with
  | nil => exact ⟨ballot, rfl, counted, id, fun _ i none => nomatch none⟩
  | cons i rest ih =>
    by_cases skipped : i = initiator ∨ (!(ballot.cluster.nodes i).active) = true
    · obtain ⟨later, run, after, keeps, below⟩ := ih ballot counted
      refine ⟨later, by rw [bullyLoop, if_pos skipped, run], after, keeps, fun alone j among awake => ?_⟩
      rcases List.mem_cons.mp among with rfl | further
      · rcases skipped with rfl | asleep
        · exact le_refl _
        · rw [← counted.alive_eq, mem_alive] at awake
          simp [awake] at asleep
      · exact below alone j further awake
    · have awake : i ∈ alive := by
        rw [← counted.alive_eq, mem_alive]
        simpa using (not_or.mp skipped).2
      have asked : (askNode ballot.cluster initiator i).alive = alive := (alive_askNode ..).trans counted.alive_eq
      rw [bullyLoop, if_neg skipped]
      simp only
      by_cases higher : i > ballot.highest
      · have first : ballot.anyResponse = false := by
          by_contra responded
          have top_eq := (counted.responded (Bool.not_eq_false _ ▸ responded)).1
          exact absurd (greatest.2 awake) (not_le.mpr (top_eq ▸ higher))
        rw [counted.alone first] at higher
        obtain ⟨cluster, elected, alive_eq, leaders⟩ := elects _ i asked awake higher
        have known : Counted alive initiator top ⟨cluster, max i top, true⟩ :=
          ⟨alive_eq, fun _ => ⟨max_eq_right (greatest.2 awake), leaders⟩, fun none => nomatch none⟩
        obtain ⟨later, run, after, keeps, below⟩ := ih _ known
        refine ⟨later, ?_, after, fun _ => keeps rfl, fun alone => ?_⟩
        · rw [if_pos (by rw [counted.alone first]; exact higher), elected]
          exact run
        · rw [keeps rfl] at alone
          cases alone
      · have known : Counted alive initiator top { ballot with cluster := askNode ballot.cluster initiator i } :=
          ⟨asked, fun responded => ⟨(counted.responded responded).1, by simpa using (counted.responded responded).2⟩,
            counted.alone⟩
        obtain ⟨later, run, after, keeps, below⟩ := ih _ known
        refine ⟨later, by rw [if_neg higher, run], after, keeps, fun alone j among awake => ?_⟩
        rcases List.mem_cons.mp among with rfl | further
        · have first : ballot.anyResponse = false := by
            by_contra responded
            rw [keeps (Bool.not_eq_false _ ▸ responded)] at alone
            cases alone
          rw [← counted.alone first]
          exact not_lt.mp higher
        · exact below alone j further awake

/-- An election from an active node terminates, with calls nested no deeper than there are higher nodes. -/
theorem bullyElectionWithin_elected (depth : Nat) (cluster : BullyCluster n) (greatest : IsGreatest cluster.alive top)
    (starts : initiator ∈ cluster.alive) (deep : n ≤ depth + initiator.val) :
    Elected cluster.alive top (bullyElectionWithin depth cluster initiator) := by
  induction depth generalizing cluster initiator with
  | zero =>
    have inside := initiator.isLt
    omega
  | succ depth ih =>
    have elects : ∀ (later : BullyCluster n) i, later.alive = cluster.alive → i ∈ cluster.alive → initiator < i →
        Elected cluster.alive top (bullyElectionWithin depth later i) := by
      intro later i same awake higher
      rw [← same] at greatest awake ⊢
      exact ih later greatest awake (by have := Fin.lt_def.mp higher; omega)
    have begun : Counted cluster.alive initiator top ⟨cluster, initiator, false⟩ :=
      ⟨rfl, fun none => (nomatch none), fun _ => rfl⟩
    obtain ⟨later, run, after, _, below⟩ := bullyLoop_counted greatest elects (List.finRange n) _ begun
    rw [bullyElectionWithin, run, Option.map_some]
    have awake : (later.cluster.nodes initiator).active = true := by
      have still : initiator ∈ later.cluster.alive := after.alive_eq ▸ starts
      exact still
    cases response : later.anyResponse with
    | true =>
      obtain ⟨highest, leaders⟩ := after.responded response
      exact ⟨later.cluster, by simp [closeElection, response, highest], after.alive_eq, leaders⟩
    | false =>
      have only : initiator = top :=
        le_antisymm (greatest.2 starts) (below response top (List.mem_finRange top) greatest.1)
      subst only
      refine ⟨bullyDeclareLeader later.cluster initiator, ?_, after.alive_eq, fun j => rfl⟩
      simp [closeElection, response, awake, after.alone response]

theorem bullyElection_elected (cluster : BullyCluster n) (greatest : IsGreatest cluster.alive top)
    (starts : initiator ∈ cluster.alive) : Elected cluster.alive top (bullyElection cluster initiator) :=
  bullyElectionWithin_elected n cluster greatest starts (Nat.le_add_right _ _)

end Election

/-- The loop over the indices keeps the highest active one so far. -/
theorem highestActive_fold (cluster : BullyCluster n) (nodes : List (Fin n)) (start : Option (Fin n)) :
    let found := nodes.foldl (fun highest i =>
      if (cluster.nodes i).active ∧ ∀ before ∈ highest, i > before then some i else highest) start
    (∀ top ∈ found, top ∈ start ∨ top ∈ cluster.alive) ∧
      (∀ i, (i ∈ start ∨ i ∈ nodes ∧ i ∈ cluster.alive) → ∃ top ∈ found, i ≤ top) := by
  induction nodes generalizing start with
  | nil => exact ⟨fun top here => .inl here, fun i among => ⟨i, by simpa using among, le_refl i⟩⟩
  | cons i rest ih =>
    intro found
    by_cases higher : (cluster.nodes i).active ∧ ∀ before ∈ start, i > before
    · obtain ⟨sound, covers⟩ := ih (some i)
      have same : found = _ := congrArg (rest.foldl _) (if_pos higher)
      rw [same]
      refine ⟨fun top here => ?_, fun j among => ?_⟩
      · rcases sound top here with latest | awake
        · exact .inr (Option.mem_some.mp latest ▸ higher.1)
        · exact .inr awake
      · obtain ⟨top, here, le⟩ := covers i (.inl rfl)
        rcases among with before | ⟨among, awake⟩
        · exact ⟨top, here, le_trans (le_of_lt (higher.2 j before)) le⟩
        · rcases List.mem_cons.mp among with rfl | further
          · exact ⟨top, here, le⟩
          · exact covers j (.inr ⟨further, awake⟩)
    · obtain ⟨sound, covers⟩ := ih start
      have same : found = _ := congrArg (rest.foldl _) (if_neg higher)
      rw [same]
      refine ⟨sound, fun j among => ?_⟩
      rcases among with before | ⟨among, awake⟩
      · exact covers j (.inl before)
      · rcases List.mem_cons.mp among with rfl | further
        · obtain ⟨before, known, le⟩ : ∃ before ∈ start, j ≤ before := by
            by_contra none
            refine higher ⟨awake, fun before known => ?_⟩
            exact not_le.mp fun le => none ⟨before, known, le⟩
          obtain ⟨top, here, below⟩ := covers before (.inl known)
          exact ⟨top, here, le_trans le below⟩
        · exact covers j (.inr ⟨further, awake⟩)

theorem highestActive_some {cluster : BullyCluster n} {top : Fin n} (found : highestActive cluster = some top) :
    IsGreatest cluster.alive top := by
  obtain ⟨sound, covers⟩ := highestActive_fold cluster (List.finRange n) none
  refine ⟨(sound top found).resolve_left nofun, fun i awake => ?_⟩
  obtain ⟨other, here, le⟩ := covers i (.inr ⟨List.mem_finRange i, awake⟩)
  obtain rfl : top = other := Option.some.inj (found.symm.trans here)
  exact le

theorem highestActive_none {cluster : BullyCluster n} (found : highestActive cluster = none) : cluster.alive = ∅ := by
  obtain ⟨_, covers⟩ := highestActive_fold cluster (List.finRange n) none
  rw [Set.eq_empty_iff_forall_notMem]
  intro i awake
  obtain ⟨top, here, _⟩ := covers i (.inr ⟨List.mem_finRange i, awake⟩)
  have missing : (none : Option (Fin n)) = some top := found.symm.trans here
  cases missing

theorem exists_greatest {cluster : BullyCluster n} {i : Fin n} (awake : i ∈ cluster.alive) :
    ∃ top, IsGreatest cluster.alive top := by
  cases found : highestActive cluster with
  | none =>
    rw [highestActive_none found] at awake
    exact absurd awake (Set.notMem_empty i)
  | some top => exact ⟨top, highestActive_some found⟩

/-- All nodes follow one leader, or none yet. -/
def OneLeader (cluster : Option (BullyCluster n)) : Prop :=
  ∀ cluster' ∈ cluster, ∃ leader : Int, ∀ i, (cluster'.nodes i).leaderId = leader

section Calls

variable {cluster : BullyCluster n} {i : Fin n}

theorem Elected.led {top : Fin n} {result : Option (BullyCluster n × Fin n)} (greatest : IsGreatest cluster.alive top)
    (elected : Elected cluster.alive top result) :
    Led (result.map (·.1)) ∧ OneLeader (result.map (·.1)) := by
  obtain ⟨later, rfl, alive, leaders⟩ := elected
  refine ⟨⟨later, rfl, fun other highest j _ => ?_⟩, ?_⟩
  · have same : IsGreatest cluster.alive other := alive ▸ highest
    rw [leaders, same.unique greatest]
  · rintro _ ⟨⟩
    exact ⟨top, leaders⟩

theorem bullyElection_led (awake : i ∈ cluster.alive) :
    Led ((bullyElection cluster i).map (·.1)) ∧ OneLeader ((bullyElection cluster i).map (·.1)) := by
  obtain ⟨top, greatest⟩ := exists_greatest awake
  exact (bullyElection_elected cluster greatest awake).led greatest

/-- Without active nodes there is nobody to follow a leader. -/
theorem led_of_empty (empty : cluster.alive = ∅) : Led (some cluster) :=
  ⟨cluster, rfl, fun _ greatest => absurd (empty ▸ greatest.1) (Set.notMem_empty _)⟩

theorem alive_crash : (cluster.modify i fun node => { node with active := false, state := .idle }).alive =
    cluster.alive \ {i} := by
  ext j
  by_cases same : j = i
  · subst same
    simp [mem_alive, BullyCluster.modify]
  · simp [mem_alive, BullyCluster.modify, same]

theorem alive_recover : (cluster.modify i fun node => { node with active := true, state := .idle }).alive =
    insert i cluster.alive := by
  ext j
  by_cases same : j = i
  · subst same
    simp [mem_alive, BullyCluster.modify]
  · simp [mem_alive, BullyCluster.modify, same]

theorem leaderId_recover : ∀ j : Fin n, ((cluster.modify i fun node =>
    { node with active := true, state := .idle }).nodes j).leaderId = (cluster.nodes j).leaderId :=
  leaderId_modify cluster i fun _ => rfl

theorem mem_alive_recover : i ∈ (cluster.modify i fun node => { node with active := true, state := .idle }).alive :=
  alive_recover ▸ Set.mem_insert i cluster.alive

/-- The leader that all nodes follow is the highest active node, if any is active. -/
theorem Led.exists_top (led : Led (some cluster)) {leader : Int} (follow : ∀ j, (cluster.nodes j).leaderId = leader)
    (awake : i ∈ cluster.alive) : ∃ top, IsGreatest cluster.alive top ∧ leader = top.val := by
  obtain ⟨top, greatest⟩ := exists_greatest awake
  obtain ⟨_, ⟨⟩, followed⟩ := led
  exact ⟨top, greatest, (follow top).symm.trans (followed top greatest top greatest.1)⟩

/-- A change of one node that keeps its leader. -/
theorem OneLeader.modify (one : OneLeader (some cluster)) {change : BullyNode → BullyNode}
    (keeps : ∀ node, (change node).leaderId = node.leaderId) : OneLeader (some (cluster.modify i change)) := by
  obtain ⟨leader, follow⟩ := one cluster rfl
  rintro _ ⟨⟩
  exact ⟨leader, fun j => (leaderId_modify cluster i keeps j).trans (follow j)⟩

theorem bullyNodeCrash_oneLeader (one : OneLeader (some cluster)) (nodeId : Int) :
    OneLeader (bullyNodeCrash cluster nodeId) := by
  unfold bullyNodeCrash
  cases slot n nodeId with
  | none => exact one
  | some node =>
    simp only
    split
    · split
      · exact one.modify fun _ => rfl
      · rename_i highest found
        exact (bullyElection_led (highestActive_some found).1).2
    · exact one.modify fun _ => rfl

/-- Without its leader, the cluster elects the next; another node may go unnoticed. -/
theorem bullyNodeCrash_led (led : Led (some cluster)) (one : OneLeader (some cluster)) (nodeId : Int) :
    Led (bullyNodeCrash cluster nodeId) := by
  unfold bullyNodeCrash
  cases named : slot n nodeId with
  | none => exact led
  | some node =>
    simp only
    set crashed := cluster.modify node fun node => { node with active := false, state := .idle } with crashed_eq
    have leaders : ∀ j, (crashed.nodes j).leaderId = (cluster.nodes j).leaderId :=
      leaderId_modify cluster node fun _ => rfl
    obtain ⟨leader, follow⟩ := one cluster rfl
    by_cases leads : (crashed.nodes node).leaderId = nodeId
    · rw [if_pos leads]
      cases found : highestActive crashed with
      | none => exact led_of_empty (highestActive_none found)
      | some highest => exact (bullyElection_led (highestActive_some found).1).1
    · rw [if_neg leads]
      refine ⟨crashed, rfl, fun top' greatest' i _ => ?_⟩
      rw [alive_crash] at greatest'
      obtain ⟨top, greatest, top_eq⟩ := led.exists_top follow greatest'.1.1
      have survives : top ∈ cluster.alive \ {node} := by
        refine ⟨greatest.1, ?_⟩
        rintro rfl
        rw [leaders, follow, top_eq] at leads
        exact leads (slot_eq_some_iff.mp named)
      have same : top = top' := le_antisymm (greatest'.2 survives) (greatest.2 greatest'.1.1)
      rw [leaders, follow, top_eq, same]

theorem bullyNodeRecover_oneLeader (one : OneLeader (some cluster)) (nodeId : Int) :
    OneLeader (bullyNodeRecover cluster nodeId) := by
  unfold bullyNodeRecover
  cases named : slot n nodeId with
  | none => exact one
  | some node =>
    simp only
    split
    · exact (bullyElection_led mem_alive_recover).2
    · exact one.modify fun _ => rfl

/-- A node that recovers and is not above the leader leaves it the highest active node, if it is active. -/
theorem led_recover_iff (led : Led (some cluster)) {leader : Int} (follow : ∀ j, (cluster.nodes j).leaderId = leader)
    (below : i.val ≤ leader) :
    Led (some (cluster.modify i fun node => { node with active := true, state := .idle })) ↔
      (cluster.alive = ∅ → leader ≤ i.val) := by
  set recovered := cluster.modify i fun node => { node with active := true, state := .idle } with recovered_eq
  have leaders : ∀ j, (recovered.nodes j).leaderId = (cluster.nodes j).leaderId := leaderId_recover
  have alive : recovered.alive = insert i cluster.alive := alive_recover
  constructor
  · rintro ⟨_, ⟨⟩, followed⟩ empty
    have only : IsGreatest recovered.alive i := by
      rw [alive, empty]
      simp [isGreatest_singleton]
    have leads := followed i only i only.1
    rw [leaders, follow] at leads
    exact Int.le_of_eq leads
  · intro revives
    refine ⟨recovered, rfl, fun top' greatest' j _ => ?_⟩
    rw [leaders, follow]
    rw [alive] at greatest'
    by_cases empty : cluster.alive = ∅
    · rw [empty] at greatest'
      have only : top' = i := by simpa using greatest'.1
      rw [only]
      exact Int.le_antisymm (revives empty) below
    · obtain ⟨awake, among⟩ := Set.nonempty_iff_ne_empty.mpr empty
      obtain ⟨top, greatest, top_eq⟩ := led.exists_top follow among
      have highest : IsGreatest (insert i cluster.alive) top := by
        refine ⟨Set.mem_insert_of_mem _ greatest.1, fun k member => ?_⟩
        rcases Set.mem_insert_iff.mp member with rfl | member
        · exact Fin.le_def.mpr (by omega)
        · exact greatest.2 member
      rw [top_eq, highest.unique greatest']

/-- A node that recovers is elected if it is above the leader; otherwise the leader has to be active. -/
theorem bullyNodeRecover_led_iff (led : Led (some cluster)) (one : OneLeader (some cluster)) (nodeId : Int) :
    Led (bullyNodeRecover cluster nodeId) ↔ RevivesLeader (some cluster) (.recover nodeId) := by
  unfold bullyNodeRecover
  cases named : slot n nodeId with
  | none =>
    refine iff_of_true led ?_
    intro _ _ node named'
    rw [named] at named'
    cases named'
  | some node =>
    simp only
    have name : (node.val : Int) = nodeId := slot_eq_some_iff.mp named
    obtain ⟨leader, follow⟩ := one cluster rfl
    have condition : RevivesLeader (some cluster) (.recover nodeId) ↔ (cluster.alive = ∅ → leader ≤ nodeId) := by
      constructor
      · intro revives empty
        exact follow (firstNode node) ▸ revives cluster rfl node named empty
      · rintro revives _ ⟨⟩ other _ empty
        exact (follow (firstNode other)).symm ▸ revives empty
    rw [condition, leaderId_recover, follow]
    by_cases above : nodeId > leader
    · rw [if_pos above]
      exact iff_of_true (bullyElection_led mem_alive_recover).1 fun _ => Int.le_of_lt above
    · rw [if_neg above, ← name]
      exact led_recover_iff led follow (name ▸ Int.not_lt.mp above)

end Calls

theorem led_bullyCall_iff {cluster : Option (BullyCluster n)} {call : BullyCall n} (one : OneLeader cluster)
    (started : FromActive cluster call) (led : Led cluster) :
    Led (bullyCall cluster call) ↔ RevivesLeader cluster call := by
  obtain ⟨cluster, rfl, _⟩ := id led
  cases call with
  | crash nodeId => exact iff_of_true (bullyNodeCrash_led led one nodeId) trivial
  | recover nodeId => exact bullyNodeRecover_led_iff led one nodeId
  | election initiator => exact iff_of_true (bullyElection_led (started cluster rfl)).1 trivial

theorem oneLeader_bullyCall {cluster : Option (BullyCluster n)} {call : BullyCall n} (one : OneLeader cluster)
    (started : FromActive cluster call) : OneLeader (bullyCall cluster call) := by
  cases cluster with
  | none => exact one
  | some cluster =>
    cases call with
    | crash nodeId => exact bullyNodeCrash_oneLeader one nodeId
    | recover nodeId => exact bullyNodeRecover_oneLeader one nodeId
    | election initiator => exact (bullyElection_led (started cluster rfl)).2

/-- The cluster after the first election. -/
def bullyStart (first : Fin n) : Option (BullyCluster n) :=
  (bullyInit n).bind fun cluster => (bullyElection cluster first).map (·.1)

/-- Every call of a run terminates and leaves the highest active node as leader, exactly if the nodes fit into
their array and no node below the last leader recovers while no node is active. -/
theorem bullyRun_led_iff (first : Fin n) (calls : List (BullyCall n))
    (started : Permitted bullyCall FromActive (bullyStart first) calls) :
    (∀ earlier, earlier <+: calls → Led (earlier.foldl bullyCall (bullyStart first))) ↔
      n ≤ BULLY_MAX_NODES ∧ Permitted bullyCall RevivesLeader (bullyStart first) calls := by
  by_cases fits : n ≤ BULLY_MAX_NODES
  · have begin : bullyStart first = (bullyElection (bullyFresh n) first).map (·.1) := by
      rw [bullyStart, bullyInit, if_pos fits, Option.bind_some]
    have awake : first ∈ (bullyFresh n).alive := rfl
    obtain ⟨led, one⟩ := bullyElection_led awake
    rw [← begin] at led one
    rw [and_iff_right fits]
    refine Permitted.throughout_iff calls started one led ?_ ?_
    · exact fun cluster call one started _ => oneLeader_bullyCall one started
    · exact fun cluster call one started led => led_bullyCall_iff one started led
  · have begin : bullyStart first = none := by
      rw [bullyStart, bullyInit, if_neg fits, Option.bind_none]
    refine iff_of_false ?_ fun met => fits met.1
    intro throughout
    obtain ⟨cluster, running, -⟩ := throughout [] List.nil_prefix
    rw [List.foldl_nil, begin] at running
    cases running

/-- The leader of three nodes crashes and comes back. -/
theorem bullyRun_led_three :
    Led ([.crash 2, .recover 2, .election 0].foldl bullyCall (bullyStart (1 : Fin 3))) := by
  refine (bullyRun_led_iff 1 [.crash 2, .recover 2, .election 0] ⟨trivial, trivial, ?_, trivial⟩).mpr
    ⟨by decide, trivial, ?_, trivial, trivial⟩ _ (List.prefix_refl _)
  · rintro _ ⟨⟩
    rfl
  · rintro _ ⟨⟩ node _ empty
    have awake : (0 : Fin 3) ∈ (∅ : Set (Fin 3)) := by
      rw [← empty]
      rfl
    exact absurd awake (Set.notMem_empty 0)

/-- Both nodes crash, and the lower one that comes back still follows the higher. -/
theorem bullyNodeRecover_follows_crashed :
    Permitted bullyCall FromActive (bullyStart (0 : Fin 2)) [.crash 0, .crash 1, .recover 0] ∧
      ¬ Led ([.crash 0, .crash 1, .recover 0].foldl bullyCall (bullyStart (0 : Fin 2))) := by
  refine ⟨⟨trivial, trivial, trivial, trivial⟩, ?_⟩
  rintro ⟨_, ⟨⟩, followed⟩
  have leads := followed 0 ⟨rfl, ?_⟩ 0 rfl
  · revert leads
    decide
  · intro i
    revert i
    refine Fin.forall_fin_two.mpr ⟨fun _ => le_refl 0, fun awake => ?_⟩
    cases awake

end MiniNetDist.DistProtocol.BullyElection
