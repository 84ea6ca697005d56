import MiniNetDist.NetworkBase.Topology

/-! The Bellman-Ford algorithm of `mini-network-base/src/ip_routing.c`, which counts distances up to RIP's infinity. -/

namespace MiniNetDist.NetworkBase.Topology

open Library Library.ShortestPath

def IP_ROUTE_INF : UInt32 := 16

section BellmanFord

variable (graph : IPTopologyGraph)

/-- The body of the loop over the neighbours of `u`; the flag says that a distance was updated. -/
def bellmanFordRelax (u : Fin graph.count) (state : PathArrays graph.count × Bool) (neighbor : UInt32 × UInt32) :
    PathArrays graph.count × Bool :=
  match graph.resolve neighbor.1 with
  | none => state
  | some v =>
    if neighbor.2 > unreachable - state.1.distances u then state
    else
      let alt := state.1.distances u + neighbor.2
      if alt < state.1.distances v then
        if alt ≥ IP_ROUTE_INF then (state.1.set v IP_ROUTE_INF none, true)
        else (state.1.set v alt (some u), true)
      else state

/-- The body of the loop over the nodes. -/
def bellmanFordNode (state : PathArrays graph.count × Bool) (u : Fin graph.count) : PathArrays graph.count × Bool :=
  if state.1.distances u = unreachable then state
  else (graph.node u).neighbors.foldl (bellmanFordRelax graph u) state

def bellmanFordRound (arrays : PathArrays graph.count) : PathArrays graph.count × Bool :=
  (List.finRange graph.count).foldl (bellmanFordNode graph) (arrays, false)

/-- The loop with so many rounds left; a round without an update ends it. -/
def bellmanFordLoop : Nat → PathArrays graph.count → PathArrays graph.count
  | 0, arrays => arrays
  | rounds + 1, arrays =>
    let (arrays', updated) := bellmanFordRound graph arrays
    if updated then bellmanFordLoop rounds arrays' else arrays'

/-- No result for a source that is out of range. -/
def ipTopologyBellmanFord (srcIdx : Nat) : Option (PathArrays graph.count) :=
  if valid : srcIdx < graph.count then some (bellmanFordLoop graph (graph.count - 1) (.start ⟨srcIdx, valid⟩))
  else none

end BellmanFord

section Rounds

variable {graph : IPTopologyGraph} {u v : Fin graph.count} {state : PathArrays graph.count × Bool}
  {neighbor : UInt32 × UInt32}

/-- A neighbour that is in the graph takes the sum, or the infinity, if the sum is smaller than what it has. -/
theorem bellmanFordRelax_found (found : graph.resolve neighbor.1 = some v) (known : state.1.distances u ≠ unreachable) :
    (state.1.label v ≤ state.1.label u + neighbor.2.toNat ∧ bellmanFordRelax graph u state neighbor = state) ∨
    (state.1.label u + neighbor.2.toNat < state.1.label v ∧ ∃ distance previous,
      bellmanFordRelax graph u state neighbor = (state.1.set v distance previous, true) ∧
      distance.toNat = min (state.1.label u + neighbor.2.toNat) IP_ROUTE_INF.toNat) := by
  have most := state.1.label_le v
  have guard : neighbor.2 > unreachable - state.1.distances u ↔
      unreachable.toNat < (state.1.distances u).toNat + neighbor.2.toNat := by
    simpa [known] using guard_iff (state.1.distances u) neighbor.2
  unfold bellmanFordRelax
  rw [found]
  by_cases large : unreachable.toNat < (state.1.distances u).toNat + neighbor.2.toNat
  · exact .inl ⟨Nat.le_trans most (Nat.le_of_lt large), if_pos (guard.mpr large)⟩
  · have sum : (state.1.distances u + neighbor.2).toNat = state.1.label u + neighbor.2.toNat :=
      toNat_alt (Nat.not_lt.mp large)
    have compared : state.1.distances u + neighbor.2 < state.1.distances v ↔
        state.1.label u + neighbor.2.toNat < state.1.label v := by
      rw [UInt32.lt_iff_toNat_lt, sum]
      rfl
    simp only [if_neg (mt guard.mp large)]
    by_cases better : state.1.label u + neighbor.2.toNat < state.1.label v
    · refine .inr ⟨better, ?_⟩
      rw [if_pos (compared.mpr better)]
      by_cases far : state.1.distances u + neighbor.2 ≥ IP_ROUTE_INF
      · have above := UInt32.le_iff_toNat_le.mp far
        exact ⟨IP_ROUTE_INF, none, if_pos far, by rw [← sum]; exact (Nat.min_eq_right above).symm⟩
      · have below := UInt32.lt_iff_toNat_lt.mp (UInt32.not_le.mp far)
        exact ⟨_, some u, if_neg far, by rw [← sum]; exact (Nat.min_eq_left (Nat.le_of_lt below)).symm⟩
    · exact .inl ⟨Nat.not_lt.mp better, if_neg (mt compared.mp better)⟩

/-- A part of a round goes over these edges, and leaves the state as it is if it updates nothing. -/
structure Passes (graph : IPTopologyGraph) (source : Fin graph.count)
    (part : Fin graph.count → Fin graph.count → Nat → Prop) (state state' : PathArrays graph.count × Bool) : Prop where
  estimates : Estimates graph.Edge source unreachable.toNat IP_ROUTE_INF.toNat state'.1.label
  round : Round part unreachable.toNat IP_ROUTE_INF.toNat state.1.label state'.1.label
  quiet : state'.2 = false → state' = state

variable {source : Fin graph.count} {part : Fin graph.count → Fin graph.count → Nat → Prop}

theorem Passes.trans {first second : Fin graph.count → Fin graph.count → Nat → Prop}
    {state' state'' : PathArrays graph.count × Bool} (one : Passes graph source first state state')
    (other : Passes graph source second state' state'')
    (parts : ∀ u v weight, part u v weight → first u v weight ∨ second u v weight) :
    Passes graph source part state state'' where
  estimates := other.estimates
  round := one.round.trans other.round parts
  quiet calm := by
    have same := other.quiet calm
    exact same.trans (one.quiet (same ▸ calm))

/-- Where no edge of the part offers anything, nothing has to be done. -/
theorem passes_self (estimates : Estimates graph.Edge source unreachable.toNat IP_ROUTE_INF.toNat state.1.label)
    (taken : ∀ u v weight, part u v weight → state.1.label u + weight < unreachable.toNat →
      state.1.label v ≤ state.1.label u + weight) : Passes graph source part state state where
  estimates := estimates
  round := ⟨fun _ => Nat.le_refl _, fun u v weight along below =>
    have enough := taken u v weight along below
    Nat.le_min.mpr ⟨enough, estimates.saturated v (Nat.lt_of_le_of_lt enough below)⟩⟩
  quiet _ := rfl

theorem passes_neighbor (distinct : graph.Distinct)
    (estimates : Estimates graph.Edge source unreachable.toNat IP_ROUTE_INF.toNat state.1.label)
    (known : state.1.distances u ≠ unreachable) (inside : neighbor ∈ (graph.node u).neighbors) :
    Passes graph source (fun x v weight => x = u ∧ graph.Offered [neighbor] u v weight) state
      (bellmanFordRelax graph u state neighbor) := by
  have offer : ∀ v weight, graph.Offered [neighbor] u v weight →
      graph.resolve neighbor.1 = some v ∧ neighbor.2.toNat = weight := fun v weight => offered_singleton distinct
  cases found : graph.resolve neighbor.1 with
  | none =>
    have same : bellmanFordRelax graph u state neighbor = state := by
      unfold bellmanFordRelax
      rw [found]
    rw [same]
    refine passes_self estimates ?_
    rintro x v weight ⟨rfl, along⟩ _
    have resolved := (offer v weight along).1
    rw [found] at resolved
    cases resolved
  | some v =>
    have only : ∀ x weight, graph.Offered [neighbor] u x weight → x = v ∧ weight = neighbor.2.toNat := by
      intro x weight along
      obtain ⟨resolved, rfl⟩ := offer x weight along
      exact ⟨Option.some.inj (resolved.symm.trans found), rfl⟩
    rcases bellmanFordRelax_found found known with ⟨enough, same⟩ | ⟨better, distance, previous, same, saturated⟩
    · rw [same]
      refine passes_self estimates ?_
      rintro x y weight ⟨rfl, along⟩ _
      obtain ⟨rfl, rfl⟩ := only y weight along
      exact enough
    · have along : graph.Edge u v neighbor.2.toNat :=
        ⟨neighbor.2, by rw [(resolve_eq_some_iff distinct).mp found]; exact inside, rfl⟩
      have short : state.1.label u < unreachable.toNat :=
        Nat.lt_of_le_of_lt (Nat.le_add_right _ _) (Nat.lt_of_lt_of_le better (state.1.label_le v))
      rw [same]
      refine ⟨?_, ⟨fun x => ?_, ?_⟩, fun calm => ?_⟩
      · rw [PathArrays.label_set, saturated]
        exact estimates.relax along short better
      · rw [PathArrays.label_set, saturated]
        by_cases here : x = v
        · rw [here, Function.update_self]
          omega
        · rw [Function.update_of_ne here]
      · rintro x y weight ⟨rfl, along⟩ _
        obtain ⟨rfl, rfl⟩ := only y weight along
        rw [PathArrays.label_set, Function.update_self, saturated]
      · cases calm

theorem passes_neighbors (distinct : graph.Distinct) {neighbors : List (UInt32 × UInt32)}
    (inside : neighbors ⊆ (graph.node u).neighbors)
    (estimates : Estimates graph.Edge source unreachable.toNat IP_ROUTE_INF.toNat state.1.label)
    (known : state.1.distances u ≠ unreachable) :
    Passes graph source (fun x v weight => x = u ∧ graph.Offered neighbors u v weight) state
      (neighbors.foldl (bellmanFordRelax graph u) state) := by
  induction neighbors generalizing state with
  | nil =>
    refine passes_self estimates ?_
    rintro x v weight ⟨_, cost, none, _⟩
    cases none
  | cons neighbor rest ih =>
    have first := passes_neighbor distinct estimates known (inside List.mem_cons_self)
    have still : (bellmanFordRelax graph u state neighbor).1.distances u ≠ unreachable := by
      intro full
      have label : (bellmanFordRelax graph u state neighbor).1.label u = unreachable.toNat := congrArg UInt32.toNat full
      have fallen := first.round.less u
      exact known (UInt32.toNat_inj.mp (Nat.le_antisymm (state.1.label_le u) (label ▸ fallen)))
    refine first.trans (ih (fun other later => inside (List.mem_cons_of_mem _ later)) first.estimates still) ?_
    rintro x v weight ⟨here, cost, listed, rfl⟩
    rcases List.mem_cons.mp listed with rfl | later
    · exact .inl ⟨here, cost, List.mem_singleton_self _, rfl⟩
    · exact .inr ⟨here, cost, later, rfl⟩

theorem passes_node (distinct : graph.Distinct)
    (estimates : Estimates graph.Edge source unreachable.toNat IP_ROUTE_INF.toNat state.1.label) (u : Fin graph.count) :
    Passes graph source (fun x v weight => x = u ∧ graph.Edge u v weight) state (bellmanFordNode graph state u) := by
  unfold bellmanFordNode
  split_ifs with unknown
  · refine passes_self estimates ?_
    rintro x v weight ⟨rfl, _⟩ below
    have full : state.1.label x = unreachable.toNat := congrArg UInt32.toNat unknown
    omega
  · exact passes_neighbors distinct (List.Subset.refl _) estimates unknown

theorem passes_nodes (distinct : graph.Distinct)
    (estimates : Estimates graph.Edge source unreachable.toNat IP_ROUTE_INF.toNat state.1.label)
    (nodes : List (Fin graph.count)) :
    Passes graph source (fun x v weight => x ∈ nodes ∧ graph.Edge x v weight) state
      (nodes.foldl (bellmanFordNode graph) state) := by
  induction nodes generalizing state with
  | nil =>
    refine passes_self estimates ?_
    rintro x v weight ⟨none, _⟩
    cases none
  | cons u rest ih =>
    have first := passes_node distinct estimates u
    refine first.trans (ih first.estimates) ?_
    rintro x v weight ⟨listed, along⟩
    rcases List.mem_cons.mp listed with rfl | later
    · exact .inl ⟨rfl, along⟩
    · exact .inr ⟨later, along⟩

/-- One iteration goes over all edges. -/
theorem passes_round (distinct : graph.Distinct) {arrays : PathArrays graph.count}
    (estimates : Estimates graph.Edge source unreachable.toNat IP_ROUTE_INF.toNat arrays.label) :
    Passes graph source graph.Edge (arrays, false) (bellmanFordRound graph arrays) := by
  have all : Passes graph source (fun x v weight => x ∈ List.finRange graph.count ∧ graph.Edge x v weight)
    (arrays, false) (bellmanFordRound graph arrays) := passes_nodes distinct estimates _
  exact ⟨all.estimates, ⟨all.round.less, fun u v weight along =>
    all.round.offers u v weight ⟨List.mem_finRange u, along⟩⟩, all.quiet⟩

/-- Each iteration makes the walks with one more edge count, and one without an update makes all walks count. -/
theorem covers_bellmanFordLoop (distinct : graph.Distinct) {rounds k : Nat} {arrays : PathArrays graph.count}
    (estimates : Estimates graph.Edge source unreachable.toNat IP_ROUTE_INF.toNat arrays.label)
    (covers : Covers graph.Edge source unreachable.toNat IP_ROUTE_INF.toNat k arrays.label) :
    Estimates graph.Edge source unreachable.toNat IP_ROUTE_INF.toNat (bellmanFordLoop graph rounds arrays).label ∧
      Covers graph.Edge source unreachable.toNat IP_ROUTE_INF.toNat (k + rounds)
        (bellmanFordLoop graph rounds arrays).label := by
  induction rounds generalizing k arrays with
  | zero => exact ⟨estimates, covers⟩
  | succ rounds ih =>
    have passes := passes_round distinct estimates
    unfold bellmanFordLoop
    cases updated : (bellmanFordRound graph arrays).2 with
    | true =>
      have next := ih passes.estimates (covers.round passes.round)
      rw [Nat.add_assoc, Nat.add_comm 1 rounds] at next
      simpa [updated] using next
    | false =>
      have same := congrArg Prod.fst (passes.quiet updated)
      have fixed := passes.round
      rw [same] at fixed
      simpa [updated, same] using And.intro estimates (covers_of_fixed estimates.start fixed (k + (rounds + 1)))

theorem exists_covers (distinct : graph.Distinct) (source : Fin graph.count) :
    ∃ arrays, ipTopologyBellmanFord graph source = some arrays ∧
      Estimates graph.Edge source unreachable.toNat IP_ROUTE_INF.toNat arrays.label ∧
      Covers graph.Edge source unreachable.toNat IP_ROUTE_INF.toNat (graph.count - 1) arrays.label := by
  have started : Estimates graph.Edge source unreachable.toNat IP_ROUTE_INF.toNat (PathArrays.start source).label := by
    rw [PathArrays.label_start]
    exact estimates_start graph.Edge source _ _
  obtain ⟨estimates, covers⟩ := covers_bellmanFordLoop distinct started (covers_zero started.start)
  rw [Nat.zero_add] at covers
  exact ⟨_, dif_pos source.isLt, estimates, covers⟩

end Rounds

/-- In every graph that was built, Bellman-Ford's distances are Dijkstra's up to the infinity. -/
theorem ipTopologyBellmanFord_agrees (calls : List TopologyCall) (source : Fin (topologyBuilt calls).count) :
    ∃ shortest rip, ipTopologyDijkstra (topologyBuilt calls) source = some shortest ∧
      ipTopologyBellmanFord (topologyBuilt calls) source = some rip ∧
      ∀ v, ((shortest.distances v).toNat < unreachable.toNat →
          (rip.distances v).toNat = min (shortest.distances v).toNat IP_ROUTE_INF.toNat) ∧
        (costs (topologyBuilt calls).Edge source v = ∅ → rip.distances v = unreachable) := by
  obtain ⟨shortest, settled, computed, invariant, done⟩ := exists_settled (distinct_built calls) source
  obtain ⟨rip, computed', estimates, covers⟩ := exists_covers (distinct_built calls) source
  have most : Fintype.card (Fin (topologyBuilt calls).count) = (topologyBuilt calls).count := Fintype.card_fin _
  refine ⟨shortest, rip, computed, computed', fun v => ⟨fun reached => ?_, fun nowhere => ?_⟩⟩
  · exact estimates.exact (most.symm ▸ covers) (invariant.isLeast_label done reached) reached
  · exact UInt32.toNat_inj.mp (Nat.le_antisymm (rip.label_le v) (estimates.unreached nowhere))

end MiniNetDist.NetworkBase.Topology
