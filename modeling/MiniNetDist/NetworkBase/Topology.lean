import MiniNetDist.Library.Nearest
import MiniNetDist.Library.Run
import MiniNetDist.Library.ShortestPath
import MiniNetDist.Library.Table
import Mathlib.Data.List.FinRange

/-! The topology graph of `mini-network-base/src/ip_routing.c` and its shortest paths by Dijkstra's algorithm. -/

namespace MiniNetDist.NetworkBase.Topology

open Library Library.ShortestPath

def IP_ROUTE_NETWORK_COUNT : Nat := 32

/-- A node with the addresses of its first `neighbor_count` neighbours and the costs of the edges to them. -/
structure IPNetworkNode where
  addr : UInt32
  neighbors : List (UInt32 × UInt32)
  deriving DecidableEq, Repr

/-- The first `node_count` nodes. -/
structure IPTopologyGraph where
  nodes : List IPNetworkNode
  deriving DecidableEq, Repr

def ipTopologyInit : IPTopologyGraph := ⟨[]⟩

def ipTopologyAddNode (graph : IPTopologyGraph) (addr : UInt32) : IPTopologyGraph × Int :=
  if graph.nodes.length ≥ IP_ROUTE_NETWORK_COUNT then (graph, -2)
  else if graph.nodes.any (·.addr = addr) then (graph, 0)
  else (⟨graph.nodes ++ [⟨addr, []⟩]⟩, 0)

/-- A neighbour that is there gets the new cost, another one is added. -/
def setNeighbor (neighbors : List (UInt32 × UInt32)) (addr cost : UInt32) : List (UInt32 × UInt32) :=
  if neighbors.any (·.1 = addr) then Table.update Prod.fst neighbors addr fun _ => (addr, cost)
  else neighbors ++ [(addr, cost)]

def ipTopologyAddEdge (graph : IPTopologyGraph) (fromNode toNode : Nat) (cost : UInt32) : IPTopologyGraph × Int :=
  match graph.nodes[fromNode]?, graph.nodes[toNode]? with
  | some n, some target =>
    if n.neighbors.length ≥ IP_ROUTE_NETWORK_COUNT then (graph, -3)
    else (⟨graph.nodes.modify fromNode fun n =>
      { n with neighbors := setNeighbor n.neighbors target.addr cost }⟩, 0)
  | _, _ => (graph, -2)

inductive TopologyCall where
  | addNode (addr : UInt32)
  | addEdge (fromNode toNode : Nat) (cost : UInt32)
  deriving DecidableEq, Repr

def topologyCall (graph : IPTopologyGraph) : TopologyCall → IPTopologyGraph
  | .addNode addr => (ipTopologyAddNode graph addr).1
  | .addEdge fromNode toNode cost => (ipTopologyAddEdge graph fromNode toNode cost).1

def topologyBuilt (calls : List TopologyCall) : IPTopologyGraph := calls.foldl topologyCall ipTopologyInit

namespace IPTopologyGraph

variable (graph : IPTopologyGraph)

abbrev count : Nat := graph.nodes.length

abbrev node (i : Fin graph.count) : IPNetworkNode := graph.nodes.get i

/-- The loop that looks for the node with an address. -/
def resolve (addr : UInt32) : Option (Fin graph.count) :=
  (List.finRange graph.count).find? fun j => (graph.node j).addr = addr

/-- An edge as it was added: the first node has the address of the second among its neighbours. -/
def Edge (u v : Fin graph.count) (weight : Nat) : Prop :=
  ∃ cost, ((graph.node v).addr, cost) ∈ (graph.node u).neighbors ∧ cost.toNat = weight

end IPTopologyGraph

/-- `INF` of the two algorithms. -/
def unreachable : UInt32 := 0xFFFFFFFF

/-- The arrays `distances` and `previous`; a `previous` of `node_count` is none. -/
structure PathArrays (n : Nat) where
  distances : Fin n → UInt32
  previous : Fin n → Option (Fin n)

namespace PathArrays

variable {n : Nat}

def start (source : Fin n) : PathArrays n := ⟨fun i => if i = source then 0 else unreachable, fun _ => none⟩

def set (arrays : PathArrays n) (v : Fin n) (distance : UInt32) (previous : Option (Fin n)) : PathArrays n :=
  ⟨Function.update arrays.distances v distance, Function.update arrays.previous v previous⟩

/-- The distances as numbers. -/
def label (arrays : PathArrays n) (v : Fin n) : Nat := (arrays.distances v).toNat

end PathArrays

section Dijkstra

variable (graph : IPTopologyGraph)

/-- The body of the loop over the neighbours of `u`. -/
def dijkstraRelax (u : Fin graph.count) (arrays : PathArrays graph.count) (neighbor : UInt32 × UInt32) :
    PathArrays graph.count :=
  match graph.resolve neighbor.1 with
  | none => arrays
  | some v =>
    if arrays.distances u = unreachable ∨ neighbor.2 > unreachable - arrays.distances u then arrays
    else
      let alt := arrays.distances u + neighbor.2
      if alt < arrays.distances v then arrays.set v alt (some u) else arrays

/-- The unvisited node with the smallest distance, the first of several. -/
def nearestUnvisited (visited : Fin graph.count → Bool) (arrays : PathArrays graph.count) : Option (Fin graph.count) :=
  Nearest.nearest (fun i => (arrays.label i : Int)) unreachable.toNat
    ((List.finRange graph.count).filter fun i => !visited i)

/-- The main loop with so many rounds left. -/
def dijkstraLoop : Nat → (Fin graph.count → Bool) → PathArrays graph.count → PathArrays graph.count
  | 0, _, arrays => arrays
  | rounds + 1, visited, arrays =>
    match nearestUnvisited graph visited arrays with
    | none => arrays
    | some u =>
      dijkstraLoop rounds (Function.update visited u true)
        ((graph.node u).neighbors.foldl (dijkstraRelax graph u) arrays)

/-- No result for a source that is out of range. -/
def ipTopologyDijkstra (srcIdx : Nat) : Option (PathArrays graph.count) :=
  if valid : srcIdx < graph.count then
    some (dijkstraLoop graph graph.count (fun _ => false) (.start ⟨srcIdx, valid⟩))
  else none

end Dijkstra

section Built

/-- No two nodes share an address. -/
def IPTopologyGraph.Distinct (graph : IPTopologyGraph) : Prop := (graph.nodes.map (·.addr)).Nodup

theorem distinct_addNode {graph : IPTopologyGraph} (distinct : graph.Distinct) (addr : UInt32) :
    (ipTopologyAddNode graph addr).1.Distinct := by
  unfold ipTopologyAddNode
  split_ifs with full known
  · exact distinct
  · exact distinct
  · have fresh : addr ∉ graph.nodes.map (·.addr) := by simpa using known
    unfold IPTopologyGraph.Distinct
    rw [List.map_append, List.map_singleton, ← List.concat_eq_append]
    exact List.Nodup.concat fresh distinct

/-- An edge leaves the addresses as they are. -/
theorem addr_addEdge (graph : IPTopologyGraph) (fromNode toNode : Nat) (cost : UInt32) :
    (ipTopologyAddEdge graph fromNode toNode cost).1.nodes.map (·.addr) = graph.nodes.map (·.addr) := by
  unfold ipTopologyAddEdge
  split
  · split_ifs
    · rfl
    · refine List.ext_getElem? fun i => ?_
      rw [List.getElem?_map, List.getElem?_map, List.getElem?_modify, Option.map_eq_map, Option.map_map]
      congr 1
      funext node
      exact apply_ite IPNetworkNode.addr _ _ _ |>.trans (ite_self _)
  · rfl

theorem distinct_built (calls : List TopologyCall) : (topologyBuilt calls).Distinct := by
  refine List.foldlRecOn calls topologyCall List.nodup_nil ?_
  intro graph distinct call _
  cases call with
  | addNode addr => exact distinct_addNode distinct addr
  | addEdge fromNode toNode cost => exact (congrArg List.Nodup (addr_addEdge graph fromNode toNode cost)).mpr distinct

variable {graph : IPTopologyGraph}

/-- The loop over the addresses finds the node that has the address, if there is one. -/
theorem resolve_eq_some_iff (distinct : graph.Distinct) {addr : UInt32} {v : Fin graph.count} :
    graph.resolve addr = some v ↔ (graph.node v).addr = addr := by
  have named : ∀ u, graph.resolve addr = some u → (graph.node u).addr = addr := by
    intro u found
    have matched := List.find?_some found
    simpa using matched
  refine ⟨named v, fun here => ?_⟩
  cases found : graph.resolve addr with
  | none =>
    have absent := List.find?_eq_none.mp found v (List.mem_finRange v)
    exact absurd here (by simpa using absent)
  | some u =>
    have same : u = v := by
      have inside : u.val < (graph.nodes.map (·.addr)).length := by simp
      have inside' : v.val < (graph.nodes.map (·.addr)).length := by simp
      have injective : (graph.nodes.map (·.addr))[u.val] = (graph.nodes.map (·.addr))[v.val] ↔ u.val = v.val :=
        distinct.getElem_inj_iff
      apply Fin.ext
      rw [← injective, List.getElem_map, List.getElem_map]
      exact (named u found).trans here.symm
    rw [same]

end Built

section Exact

variable {graph : IPTopologyGraph} {n : Nat}

/-- The guards against overflow compare the exact sums. -/
theorem guard_iff (distance cost : UInt32) :
    (distance = unreachable ∨ cost > unreachable - distance) ↔
      distance = unreachable ∨ unreachable.toNat < distance.toNat + cost.toNat := by
  have most : distance.toNat ≤ unreachable.toNat := Nat.le_pred_of_lt distance.toNat_lt
  have rest : (unreachable - distance).toNat = unreachable.toNat - distance.toNat :=
    UInt32.toNat_sub_of_le _ _ (UInt32.le_iff_toNat_le.mpr most)
  rw [gt_iff_lt, UInt32.lt_iff_toNat_lt, rest]
  exact or_congr_right (by omega)

/-- The nodes that a list of addresses and costs leads to. -/
def IPTopologyGraph.Offered (graph : IPTopologyGraph) (neighbors : List (UInt32 × UInt32)) (_ v : Fin graph.count)
    (weight : Nat) : Prop :=
  ∃ cost, ((graph.node v).addr, cost) ∈ neighbors ∧ cost.toNat = weight

namespace PathArrays

theorem label_le (arrays : PathArrays n) (v : Fin n) : arrays.label v ≤ unreachable.toNat :=
  Nat.le_pred_of_lt (arrays.distances v).toNat_lt

@[simp] theorem label_set (arrays : PathArrays n) (v : Fin n) (distance : UInt32) (previous : Option (Fin n)) :
    (arrays.set v distance previous).label = Function.update arrays.label v distance.toNat := by
  funext i
  exact Function.apply_update (fun _ => UInt32.toNat) arrays.distances v distance i

@[simp] theorem previous_set (arrays : PathArrays n) (v : Fin n) (distance : UInt32) (previous : Option (Fin n)) :
    (arrays.set v distance previous).previous = Function.update arrays.previous v previous := rfl

theorem label_start (source : Fin n) :
    (start source).label = fun v => if v = source then 0 else unreachable.toNat :=
  funext fun _ => apply_ite UInt32.toNat _ _ _

end PathArrays

/-- A sum that passes the guards is the exact one. -/
theorem toNat_alt {distance cost : UInt32} (fits : distance.toNat + cost.toNat ≤ unreachable.toNat) :
    (distance + cost).toNat = distance.toNat + cost.toNat := by
  rw [UInt32.toNat_add]
  exact Nat.mod_eq_of_lt (Nat.lt_of_le_of_lt fits (by decide))

/-- A neighbour that is in the graph takes the sum if it is smaller than what it has. -/
theorem dijkstraRelax_found {u v : Fin graph.count} {arrays : PathArrays graph.count} {neighbor : UInt32 × UInt32}
    (found : graph.resolve neighbor.1 = some v) :
    dijkstraRelax graph u arrays neighbor =
      if arrays.label u + neighbor.2.toNat < arrays.label v then
        arrays.set v (arrays.distances u + neighbor.2) (some u)
      else arrays := by
  have most := arrays.label_le v
  unfold dijkstraRelax
  rw [found]
  simp only [guard_iff]
  by_cases guarded : arrays.distances u = unreachable ∨
      unreachable.toNat < (arrays.distances u).toNat + neighbor.2.toNat
  · have above : ¬ arrays.label u + neighbor.2.toNat < arrays.label v := by
      rcases guarded with none | large
      · have full : arrays.label u = unreachable.toNat := congrArg UInt32.toNat none
        omega
      · exact Nat.not_lt.mpr (Nat.le_trans most (Nat.le_of_lt large))
    rw [if_pos guarded, if_neg above]
  · have sum := toNat_alt (Nat.not_lt.mp (not_or.mp guarded).2)
    have compared : arrays.distances u + neighbor.2 < arrays.distances v ↔
        arrays.label u + neighbor.2.toNat < arrays.label v := by
      rw [UInt32.lt_iff_toNat_lt, sum]
      rfl
    rw [if_neg guarded]
    exact if_congr compared rfl rfl

/-- One address and cost lead to the node that the address is resolved to. -/
theorem offered_singleton (distinct : graph.Distinct) {u v : Fin graph.count} {neighbor : UInt32 × UInt32}
    {weight : Nat} (offered : graph.Offered [neighbor] u v weight) :
    graph.resolve neighbor.1 = some v ∧ neighbor.2.toNat = weight := by
  obtain ⟨cost, inside, rfl⟩ := offered
  rw [List.mem_singleton] at inside
  subst inside
  exact ⟨(resolve_eq_some_iff distinct).mpr rfl, rfl⟩

theorem relaxes_neighbor (distinct : graph.Distinct) (u : Fin graph.count) (arrays : PathArrays graph.count)
    (neighbor : UInt32 × UInt32) :
    Relaxes (graph.Offered [neighbor]) u arrays.label arrays.previous
      (dijkstraRelax graph u arrays neighbor).label (dijkstraRelax graph u arrays neighbor).previous := by
  have offer : ∀ v weight, graph.Offered [neighbor] u v weight →
      graph.resolve neighbor.1 = some v ∧ neighbor.2.toNat = weight := fun v weight => offered_singleton distinct
  cases found : graph.resolve neighbor.1 with
  | none =>
    have same : dijkstraRelax graph u arrays neighbor = arrays := by
      unfold dijkstraRelax
      rw [found]
    rw [same]
    refine ⟨fun v weight along => ?_, fun v => .inl ⟨rfl, rfl⟩⟩
    have resolved := (offer v weight along).1
    rw [found] at resolved
    cases resolved
  | some v =>
    have along : graph.Offered [neighbor] u v neighbor.2.toNat :=
      ⟨neighbor.2, by rw [(resolve_eq_some_iff distinct).mp found]; exact List.mem_singleton_self _, rfl⟩
    have only : ∀ x weight, graph.Offered [neighbor] u x weight → x = v ∧ weight = neighbor.2.toNat := by
      intro x weight along
      obtain ⟨resolved, rfl⟩ := offer x weight along
      exact ⟨Option.some.inj (resolved.symm.trans found), rfl⟩
    rw [dijkstraRelax_found found]
    by_cases better : arrays.label u + neighbor.2.toNat < arrays.label v
    · have fits : (arrays.distances u).toNat + neighbor.2.toNat ≤ unreachable.toNat :=
        Nat.le_trans (Nat.le_of_lt better) (arrays.label_le v)
      rw [if_pos better, PathArrays.label_set, PathArrays.previous_set, toNat_alt fits]
      refine ⟨fun x weight along => ?_, fun x => ?_⟩
      · obtain ⟨rfl, rfl⟩ := only x weight along
        rw [Function.update_self]
        exact Nat.le_refl _
      · by_cases here : x = v
        · subst here
          rw [Function.update_self, Function.update_self]
          exact .inr ⟨neighbor.2.toNat, along, better, rfl, rfl⟩
        · rw [Function.update_of_ne here, Function.update_of_ne here]
          exact .inl ⟨rfl, rfl⟩
    · rw [if_neg better]
      refine ⟨fun x weight along => ?_, fun x => .inl ⟨rfl, rfl⟩⟩
      obtain ⟨rfl, rfl⟩ := only x weight along
      exact Nat.not_lt.mp better

/-- The loop over the neighbours makes the offers of all of them. -/
theorem relaxes_fold (distinct : graph.Distinct) (u : Fin graph.count) (neighbors : List (UInt32 × UInt32))
    (arrays : PathArrays graph.count) :
    Relaxes (graph.Offered neighbors) u arrays.label arrays.previous
      (neighbors.foldl (dijkstraRelax graph u) arrays).label
      (neighbors.foldl (dijkstraRelax graph u) arrays).previous := by
  induction neighbors generalizing arrays with
  | nil =>
    refine ⟨?_, fun v => .inl ⟨rfl, rfl⟩⟩
    rintro v weight ⟨cost, inside, _⟩
    cases inside
  | cons neighbor rest ih =>
    refine (relaxes_neighbor distinct u arrays neighbor).trans (ih _) fun v weight => ?_
    unfold IPTopologyGraph.Offered
    simp only [List.mem_cons, List.not_mem_nil, or_false, or_and_right, exists_or]

theorem relaxes_node (distinct : graph.Distinct) (u : Fin graph.count) (arrays : PathArrays graph.count) :
    Relaxes graph.Edge u arrays.label arrays.previous
      ((graph.node u).neighbors.foldl (dijkstraRelax graph u) arrays).label
      ((graph.node u).neighbors.foldl (dijkstraRelax graph u) arrays).previous :=
  have offers := relaxes_fold distinct u (graph.node u).neighbors arrays
  ⟨offers.covers, offers.outcome⟩

theorem nearestUnvisited_eq_none {visited : Fin graph.count → Bool} {arrays : PathArrays graph.count}
    (none : nearestUnvisited graph visited arrays = none) {v : Fin graph.count} (fresh : visited v = false) :
    arrays.label v = unreachable.toNat := by
  have all := Nearest.nearest_eq_none_iff.mp none v (List.mem_filter.mpr ⟨List.mem_finRange v, by rw [fresh]; rfl⟩)
  exact Nat.le_antisymm (arrays.label_le v) (Int.ofNat_le.mp all)

theorem nearestUnvisited_eq_some {visited : Fin graph.count → Bool} {arrays : PathArrays graph.count}
    {u : Fin graph.count} (found : nearestUnvisited graph visited arrays = some u) :
    visited u = false ∧ arrays.label u < unreachable.toNat ∧
      ∀ v, visited v = false → arrays.label u ≤ arrays.label v := by
  have inside := Nearest.nearest_mem found
  have short := (Nearest.nearest_eq_some_iff.mp found).1
  refine ⟨by simpa using inside, Int.ofNat_lt.mp short, fun v fresh => ?_⟩
  exact Int.ofNat_le.mp (Nearest.nearest_le found (List.mem_filter.mpr ⟨List.mem_finRange v, by rw [fresh]; rfl⟩))

/-- With a round left for each open node, the main loop settles all that a walk leads to. -/
theorem settled_dijkstraLoop (distinct : graph.Distinct) {source : Fin graph.count} {rounds : Nat}
    {visited : Fin graph.count → Bool} {arrays : PathArrays graph.count}
    (invariant : Settled graph.Edge source unreachable.toNat { v | visited v = true } arrays.label arrays.previous)
    (enough : (Finset.univ.filter (visited · = false)).card ≤ rounds) :
    ∃ settled, Settled graph.Edge source unreachable.toNat settled (dijkstraLoop graph rounds visited arrays).label
        (dijkstraLoop graph rounds visited arrays).previous ∧
      ∀ v ∉ settled, (dijkstraLoop graph rounds visited arrays).label v = unreachable.toNat := by
  induction rounds generalizing visited arrays with
  | zero =>
    have all : ∀ v, visited v = true := by
      intro v
      have empty := Finset.card_eq_zero.mp (Nat.le_zero.mp enough)
      simpa using Finset.filter_eq_empty_iff.mp empty (Finset.mem_univ v)
    exact ⟨_, invariant, fun v open' => absurd (all v) open'⟩
  | succ rounds ih =>
    unfold dijkstraLoop
    cases found : nearestUnvisited graph visited arrays with
    | none => exact ⟨_, invariant, fun v fresh => nearestUnvisited_eq_none found (Bool.eq_false_of_not_eq_true fresh)⟩
    | some u =>
      obtain ⟨fresh, short, least⟩ := nearestUnvisited_eq_some found
      have open' : u ∉ { v | visited v = true } := by simp [fresh]
      have next := invariant.settle open' short (fun v outside => least v (Bool.eq_false_of_not_eq_true outside))
        (relaxes_node distinct u arrays)
      have same : insert u { v | visited v = true } = { v | Function.update visited u true v = true } := by
        ext v
        by_cases here : v = u <;> simp [here]
      rw [same] at next
      refine ih next (Nat.le_of_lt_succ (Nat.lt_of_lt_of_le (Finset.card_lt_card ?_) enough))
      refine Finset.ssubset_iff_subset_ne.mpr ⟨fun v => ?_, fun equal => ?_⟩
      · by_cases here : v = u <;> simp [here]
      · have inside : u ∈ Finset.univ.filter (visited · = false) := by simp [fresh]
        rw [← equal] at inside
        simp at inside

/-- What Dijkstra's algorithm leaves in its arrays. -/
theorem exists_settled (distinct : graph.Distinct) (source : Fin graph.count) :
    ∃ arrays settled, ipTopologyDijkstra graph source = some arrays ∧
      Settled graph.Edge source unreachable.toNat settled arrays.label arrays.previous ∧
      ∀ v ∉ settled, arrays.label v = unreachable.toNat := by
  have started : Settled graph.Edge source unreachable.toNat { _v | false = true }
      (PathArrays.start source).label (PathArrays.start source).previous := by
    have none : { _v : Fin graph.count | false = true } = ∅ := by simp
    rw [PathArrays.label_start, none]
    exact settled_start graph.Edge source unreachable.toNat
  have enough : (Finset.univ.filter fun _ : Fin graph.count => false = false).card ≤ graph.count := by simp
  obtain ⟨settled, invariant, done⟩ := settled_dijkstraLoop distinct started enough
  exact ⟨_, settled, dif_pos source.isLt, invariant, done⟩

/-- The labels are the least costs below the limit, and the links lead back along edges of these costs. -/
theorem exists_exact (distinct : graph.Distinct) (source : Fin graph.count) :
    ∃ arrays, ipTopologyDijkstra graph source = some arrays ∧
      ∀ v, (∀ least, IsLeast (costs graph.Edge source v) least → least < unreachable.toNat → arrays.label v = least) ∧
        ((∀ cost ∈ costs graph.Edge source v, unreachable.toNat ≤ cost) → arrays.distances v = unreachable) ∧
        (arrays.distances v ≠ unreachable → Traces graph.Edge arrays.previous source v (arrays.label v)) := by
  obtain ⟨arrays, settled, computed, invariant, done⟩ := exists_settled distinct source
  refine ⟨arrays, computed, fun v => ⟨fun least isLeast below => ?_, fun far => ?_, fun reached => ?_⟩⟩
  · have above : arrays.label v ≤ least := invariant.le_of_done done isLeast.1
    exact (invariant.isLeast_label done (Nat.lt_of_le_of_lt above below)).unique isLeast
  · have full : ¬ arrays.label v < unreachable.toNat := fun short =>
      Nat.not_le.mpr short (far _ (invariant.attained v short))
    exact UInt32.toNat_inj.mp (Nat.le_antisymm (arrays.label_le v) (Nat.not_lt.mp full))
  · have inside : v ∈ settled := by
      by_contra outside
      exact reached (UInt32.toNat_inj.mp (done v outside))
    exact invariant.traced v inside

/-- In every graph that was built, Dijkstra's algorithm finds the least costs and the ways back to the source. -/
theorem ipTopologyDijkstra_exact (calls : List TopologyCall) (source : Fin (topologyBuilt calls).count) :
    ∃ arrays, ipTopologyDijkstra (topologyBuilt calls) source = some arrays ∧
      ∀ v, (∀ least, IsLeast (costs (topologyBuilt calls).Edge source v) least → least < unreachable.toNat →
          (arrays.distances v).toNat = least) ∧
        ((∀ cost ∈ costs (topologyBuilt calls).Edge source v, unreachable.toNat ≤ cost) →
          arrays.distances v = unreachable) ∧
        (arrays.distances v ≠ unreachable → v ≠ source →
          Traces (topologyBuilt calls).Edge arrays.previous source v (arrays.distances v).toNat) := by
  obtain ⟨arrays, computed, exact'⟩ := exists_exact (distinct_built calls) source
  exact ⟨arrays, computed, fun v => ⟨(exact' v).1, (exact' v).2.1, fun reached _ => (exact' v).2.2 reached⟩⟩

end Exact

end MiniNetDist.NetworkBase.Topology
