import MiniNetDist.GatewayProxy.WeightedRoundRobin
import MiniNetDist.Library.Circle
import MiniNetDist.Library.Run

/-! When `lb_select_server` returns a healthy server: the counter of the round robin and the sums of the weighted one
have to fit into an `int`, and the ring of the consistent hash, which has the virtual nodes of all servers, has to lead
to one that is up. -/

namespace MiniNetDist.GatewayProxy.Lb

open Library Library.Bisect Library.Circle

section Property

/-- There is a server at this position, and it is healthy. -/
def HealthyAt (lb : LoadBalancer) (i : Nat) : Prop := ∃ s, lb.servers[i]? = some s ∧ s.healthy = true

/-- The index is one of a healthy server whenever there is one, and -1 otherwise. -/
structure RightIndex (lb : LoadBalancer) (idx : Int) : Prop where
  healthy : (∃ s ∈ lb.servers, s.healthy = true) → ∃ i : Nat, idx = i ∧ HealthyAt lb i
  otherwise : (∀ s ∈ lb.servers, s.healthy = false) → idx = -1

def SelectsHealthy (lb : LoadBalancer) (key : Option CString) (rand : Nat) : Prop :=
  ∃ after idx, lbSelectServer lb key rand = some (after, idx) ∧ RightIndex lb idx

/-- The counter of the round robin can be raised until the first healthy server, or once for each server. -/
def CountsOn (lb : LoadBalancer) (tries : Nat) : Prop :=
  ∀ k < tries, (∀ j < k, ¬ HealthyAt lb ((lb.rrIndex + j) % lb.servers.length)) → (lb.rrIndex + k : Int) < INT_MAX

/-- The virtual node of a key: the first whose hash is not smaller, and the first of all behind the last. -/
def ringSuccessor (ring : List LBVirtualNode) (h : UInt32) : Option LBVirtualNode :=
  (ring.find? fun node => node.hash ≥ h).or ring.head?

/-- What a selection asks of the state before it, if there are servers. -/
def Selectable (lb : LoadBalancer) (key : Option CString) : Prop :=
  lb.servers ≠ [] →
    match lb.algorithm with
    | .roundRobin => CountsOn lb lb.servers.length
    | .weightedRoundRobin => SwrrFits lb.servers
    | .leastConnections => True
    | .consistentHash =>
      ∃ node, ringSuccessor lb.ring (lbHashKey (key.getD (ascii "default"))) = some node ∧ HealthyAt lb node.serverIndex
    | .random => True

end Property

section Algorithms

variable {lb : LoadBalancer} {i : Nat} {idx : Int}

theorem rightIndex_of_healthyAt (healthy : HealthyAt lb i) : RightIndex lb i where
  healthy := fun _ => ⟨i, rfl, healthy⟩
  otherwise := by
    intro unhealthy
    obtain ⟨s, there, up⟩ := healthy
    rw [unhealthy s (List.mem_of_getElem? there)] at up
    cases up

theorem rightIndex_of_unhealthy (unhealthy : ∀ s ∈ lb.servers, s.healthy = false) : RightIndex lb (-1) where
  healthy := by
    rintro ⟨s, member, up⟩
    rw [unhealthy s member] at up
    cases up
  otherwise := fun _ => rfl

/-- No other index is right. -/
theorem RightIndex.healthyAt (right : RightIndex lb i) : HealthyAt lb i := by
  by_cases exist : ∃ s ∈ lb.servers, s.healthy = true
  · obtain ⟨j, same, healthy⟩ := right.healthy exist
    obtain rfl : i = j := Int.ofNat.inj same
    exact healthy
  · have unhealthy : ∀ s ∈ lb.servers, s.healthy = false := by simpa using exist
    have absurdly := right.otherwise unhealthy
    omega

/-- The rounds from here on, after one that found no healthy server. -/
theorem countsOn_succ (unhealthy : ¬ HealthyAt lb (lb.rrIndex % lb.servers.length)) (tries : Nat) :
    CountsOn lb (tries + 1) ↔
      (lb.rrIndex : Int) < INT_MAX ∧ CountsOn { lb with rrIndex := lb.rrIndex + 1 } tries := by
  have shift : ∀ j, lb.rrIndex + 1 + j = lb.rrIndex + (j + 1) := by omega
  constructor
  · intro counts
    have first := counts 0 (Nat.succ_pos _) (by simp)
    refine ⟨by simpa using first, fun k below earlier => ?_⟩
    have later := counts (k + 1) (Nat.succ_lt_succ below) fun j before => ?_
    · push_cast at later ⊢
      omega
    · cases j with
      | zero => exact unhealthy
      | succ j =>
        have other := earlier j (Nat.lt_of_succ_lt_succ before)
        rwa [shift] at other
  · rintro ⟨first, counts⟩ k below earlier
    cases k with
    | zero => simpa using first
    | succ k =>
      have later := counts k (Nat.lt_of_succ_lt_succ below) fun j before => ?_
      · push_cast at later ⊢
        omega
      · have other := earlier (j + 1) (Nat.succ_lt_succ before)
        rwa [← shift] at other

/-- One round of the loop. -/
theorem roundRobinTry_succ (tries : Nat) (nonempty : lb.servers ≠ []) :
    (¬ (lb.rrIndex : Int) < INT_MAX → roundRobinTry (tries + 1) lb = none) ∧
      ((lb.rrIndex : Int) < INT_MAX → HealthyAt lb (lb.rrIndex % lb.servers.length) →
        roundRobinTry (tries + 1) lb =
          some ({ lb with rrIndex := lb.rrIndex + 1 }, ((lb.rrIndex % lb.servers.length : Nat) : Int))) ∧
      ((lb.rrIndex : Int) < INT_MAX → ¬ HealthyAt lb (lb.rrIndex % lb.servers.length) →
        roundRobinTry (tries + 1) lb = roundRobinTry tries { lb with rrIndex := lb.rrIndex + 1 }) := by
  have bound : lb.rrIndex % lb.servers.length < lb.servers.length := Nat.mod_lt _ (List.length_pos_iff.mpr nonempty)
  have there := List.getElem?_eq_getElem bound
  have fits : IsInt (lb.rrIndex + 1) ↔ (lb.rrIndex : Int) < INT_MAX := by
    unfold IsInt INT_MAX
    omega
  have next : (lb.rrIndex : Int) < INT_MAX → int (lb.rrIndex + 1) = some ((lb.rrIndex + 1 : Nat) : Int) :=
    fun counts => if_pos (fits.mpr counts)
  rw [roundRobinTry]
  refine ⟨fun stuck => ?_, fun counts healthy => ?_, fun counts unhealthy => ?_⟩
  · rw [int, if_neg (mt fits.mp stuck)]
    rfl
  · obtain ⟨s, found, up⟩ := healthy
    simp only [next counts, Option.bind_eq_bind, Option.bind_some, Int.toNat_natCast, found, if_pos up]
  · have down : ¬ lb.servers[lb.rrIndex % lb.servers.length].healthy = true := fun up => unhealthy ⟨_, there, up⟩
    simp only [next counts, Option.bind_eq_bind, Option.bind_some, Int.toNat_natCast, there, if_neg down]

/-- The loop ends at the first healthy server or after its tries; a counter that cannot be raised so far overflows. -/
theorem roundRobinTry_spec (tries : Nat) (nonempty : lb.servers ≠ []) :
    (¬ CountsOn lb tries → roundRobinTry tries lb = none) ∧
      (CountsOn lb tries → ∃ rrIndex,
        (∃ k, HealthyAt lb ((lb.rrIndex + k) % lb.servers.length) ∧ roundRobinTry tries lb =
          some ({ lb with rrIndex := rrIndex }, (((lb.rrIndex + k) % lb.servers.length : Nat) : Int))) ∨
        (∀ k < tries, ¬ HealthyAt lb ((lb.rrIndex + k) % lb.servers.length)) ∧
          roundRobinTry tries lb = some ({ lb with rrIndex := rrIndex }, -1)) := by
  induction tries generalizing lb with
  | zero => exact ⟨fun stuck => absurd (fun k below => absurd below (by simp)) stuck, fun _ => ⟨_, .inr ⟨by simp, rfl⟩⟩⟩
  | succ tries ih =>
    obtain ⟨overflow, found, onward⟩ := roundRobinTry_succ tries nonempty
    by_cases counts : (lb.rrIndex : Int) < INT_MAX
    · by_cases healthy : HealthyAt lb (lb.rrIndex % lb.servers.length)
      · refine ⟨fun stuck => absurd (fun k below earlier => ?_) stuck,
          fun _ => ⟨_, .inl ⟨0, healthy, found counts healthy⟩⟩⟩
        cases k with
        | zero => simpa using counts
        | succ k => exact absurd healthy (earlier 0 (Nat.succ_pos k))
      · rw [onward counts healthy, countsOn_succ healthy]
        obtain ⟨stuck, fits⟩ := @ih { lb with rrIndex := lb.rrIndex + 1 } nonempty
        refine ⟨fun unfit => stuck fun rest => unfit ⟨counts, rest⟩, fun ⟨_, rest⟩ => ?_⟩
        rcases fits rest with ⟨rrIndex, ⟨k, up, ended⟩ | ⟨down, ended⟩⟩
        · refine ⟨rrIndex, .inl ⟨k + 1, ?_, ?_⟩⟩
          · rwa [Nat.add_comm k, ← Nat.add_assoc]
          · rw [ended, Nat.add_comm k, ← Nat.add_assoc]
        · refine ⟨rrIndex, .inr ⟨fun k below => ?_, ended⟩⟩
          cases k with
          | zero => exact healthy
          | succ k =>
            have other := down k (Nat.lt_of_succ_lt_succ below)
            rwa [Nat.add_comm k, ← Nat.add_assoc]
    · refine ⟨fun _ => overflow counts, fun fits => absurd (fits 0 (Nat.succ_pos _) (by simp)) ?_⟩
      simpa using counts

/-- As many rounds as there are servers come to all of them. -/
theorem unhealthy_of_round
    (down : ∀ k < lb.servers.length, ¬ HealthyAt lb ((lb.rrIndex + k) % lb.servers.length)) :
    ∀ s ∈ lb.servers, s.healthy = false := by
  intro s member
  obtain ⟨i, bound, rfl⟩ := List.mem_iff_getElem.mp member
  by_contra up
  have start : lb.rrIndex % lb.servers.length < lb.servers.length := Nat.mod_lt _ (Nat.zero_lt_of_lt bound)
  obtain ⟨k, below, same⟩ := exists_ahead ⟨lb.rrIndex % lb.servers.length, start⟩ ⟨i, bound⟩
  have here : (lb.rrIndex + k) % lb.servers.length = i := by
    rw [← Nat.mod_add_mod]
    exact congrArg Fin.val same
  refine down k below ⟨lb.servers[i], ?_, by simpa using up⟩
  rw [here]
  exact List.getElem?_eq_getElem bound

/-- The right index as a result of a call. -/
def Selects (lb : LoadBalancer) (result : Option (LoadBalancer × Int)) : Prop :=
  ∃ after idx, result = some (after, idx) ∧ RightIndex lb idx

theorem not_selects_none : ¬ Selects lb none := by
  rintro ⟨after, idx, absurdly, -⟩
  cases absurdly

theorem selects_roundRobin (nonempty : lb.servers ≠ []) :
    Selects lb (lbSelectRoundRobin lb) ↔ CountsOn lb lb.servers.length := by
  obtain ⟨overflow, fits⟩ := roundRobinTry_spec lb.servers.length nonempty
  unfold lbSelectRoundRobin
  constructor
  · intro selects
    by_contra stuck
    rw [overflow stuck] at selects
    exact not_selects_none selects
  · intro counts
    rcases fits counts with ⟨rrIndex, ⟨k, up, ended⟩ | ⟨down, ended⟩⟩
    · exact ⟨_, _, ended, rightIndex_of_healthyAt up⟩
    · exact ⟨_, _, ended, rightIndex_of_unhealthy (unhealthy_of_round down)⟩

theorem selects_weightedRr (weights : ∀ s ∈ lb.servers, 0 < s.effectiveWeight) :
    Selects lb (lbSelectWeightedRr lb) ↔ SwrrFits lb.servers := by
  constructor
  · intro selects
    by_contra unfit
    rw [lbSelectWeightedRr_overflow weights unfit] at selects
    exact not_selects_none selects
  · intro fits
    rcases lbSelectWeightedRr_fits weights fits with ⟨none, unhealthy⟩ | ⟨i, s, there, healthy, -, selected⟩
    · exact ⟨_, _, none, rightIndex_of_unhealthy unhealthy⟩
    · exact ⟨_, _, selected, rightIndex_of_healthyAt ⟨s, there, healthy⟩⟩

/-- The best that the loop finds is the healthy server with the fewest connections. -/
theorem leastConn_best (servers : List LBServer) :
    BestAmong (fun value minConn => value < minConn) LBServer.activeConnections servers
      (servers.zipIdx.foldl leastConnRound (-1, -1)) := by
  induction servers using List.reverseRecOn with
  | nil => exact .nobody (by simp) rfl
  | append_singleton servers s ih =>
    rw [List.zipIdx_append, List.foldl_append]
    by_cases healthy : s.healthy = true
    · have taken := ih.take healthy (by simp) (by simp only [decide_eq_true_eq, decide_eq_false_iff_not]; omega)
      simpa [leastConnRound, healthy] using taken
    · have skipped := ih.skip (s := s) (by simpa using healthy)
      simpa [leastConnRound, healthy] using skipped

theorem rightIndex_leastConn (lb : LoadBalancer) : RightIndex lb (lbSelectLeastConn lb) := by
  unfold lbSelectLeastConn
  cases leastConn_best lb.servers with
  | nobody unhealthy start =>
    rw [start]
    exact rightIndex_of_unhealthy unhealthy
  | chosen i s there healthy found first =>
    rw [found]
    exact rightIndex_of_healthyAt ⟨s, there, healthy⟩

/-- Any random number leads to one of the healthy servers. -/
theorem selects_random (lb : LoadBalancer) (rand : Nat) : Selects lb ((lbSelectRandom lb rand).map (lb, ·)) := by
  have listed : ∀ i, i ∈ (List.range lb.servers.length).filter (fun i => lb.servers[i]?.any (·.healthy)) →
      HealthyAt lb i := by
    intro i member
    have up := (List.mem_filter.mp member).2
    rwa [Option.any_eq_true] at up
  unfold lbSelectRandom
  dsimp only
  split_ifs with none
  · refine ⟨lb, -1, rfl, rightIndex_of_unhealthy fun s member => ?_⟩
    obtain ⟨i, bound, rfl⟩ := List.mem_iff_getElem.mp member
    have unlisted := List.filter_eq_nil_iff.mp (List.eq_nil_of_length_eq_zero none) i (List.mem_range.mpr bound)
    simpa [List.getElem?_eq_getElem bound] using unlisted
  · have bound := Nat.mod_lt rand (Nat.pos_of_ne_zero none)
    refine ⟨lb, _, by rw [List.getElem?_eq_getElem bound]; rfl, rightIndex_of_healthyAt (listed _ ?_)⟩
    exact List.getElem_mem bound

/-- The search by halving finds the virtual node of the key. -/
theorem lbSelectConsistentHash_spec {ring : List LBVirtualNode} (same : lb.ring = ring) (nonempty : ring ≠ [])
    (sorted : ring.Pairwise fun first second => first.hash ≤ second.hash) (key : CString) :
    ∃ node, ringSuccessor ring (lbHashKey key) = some node ∧ node ∈ ring ∧
      lbSelectConsistentHash lb key = some (lb, (node.serverIndex : Int)) := by
  have rising : Rising (fun node => decide (node.hash ≥ lbHashKey key)) ring := by
    refine sorted.imp fun {first second} order reached => ?_
    simp only [decide_eq_true_eq] at reached ⊢
    exact UInt32.le_trans reached order
  obtain ⟨lo, idx, found, ended⟩ := bisect_whole rising 0
  have used : ring.length ≠ 0 := fun zero => nonempty (List.eq_nil_of_length_eq_zero zero)
  unfold lbSelectConsistentHash ringSuccessor
  rw [same, if_neg used]
  simp only [found, Option.bind_eq_bind, Option.bind_some]
  rcases ended with ⟨whole, none⟩ | ⟨inside, here, some⟩
  · obtain ⟨node, rest, rfl⟩ := List.exists_cons_of_ne_nil nonempty
    refine ⟨node, by rw [none]; rfl, List.mem_cons_self, ?_⟩
    rw [if_pos (by omega)]
    rfl
  · obtain ⟨node, first⟩ := Option.isSome_iff_exists.mp some
    refine ⟨node, by rw [first]; rfl, List.mem_of_find?_eq_some first, ?_⟩
    rw [if_neg (by omega), here, first]
    rfl

theorem selects_consistentHash (wellformed : Wellformed lb) (hashing : lb.algorithm = .consistentHash)
    (nonempty : lb.servers ≠ []) (key : CString) :
    Selects lb (lbSelectConsistentHash lb key) ↔
      ∃ node, ringSuccessor lb.ring (lbHashKey key) = some node ∧ HealthyAt lb node.serverIndex := by
  have ring := wellformed.ring hashing
  obtain ⟨ringFor, length⟩ := ringOf_spec (lb.servers.map (·.address))
  rw [← ring] at ringFor length
  have used : lb.ring ≠ [] := by
    intro empty
    rw [empty, List.length_map, List.length_nil] at length
    have servers := List.length_pos_iff.mpr nonempty
    unfold LB_VIRTUAL_NODES at length
    omega
  obtain ⟨node, successor, -, selected⟩ := lbSelectConsistentHash_spec rfl used ringFor.sorted key
  rw [selected, successor]
  constructor
  · rintro ⟨after, idx, result, right⟩
    obtain ⟨rfl, rfl⟩ := Prod.mk.inj (Option.some.inj result)
    exact ⟨node, rfl, right.healthyAt⟩
  · rintro ⟨other, same, healthy⟩
    obtain rfl := Option.some.inj same
    exact ⟨_, _, rfl, rightIndex_of_healthyAt healthy⟩

/-- A selection is right exactly if the state allows it. -/
theorem selectsHealthy_iff (wellformed : Wellformed lb) (key : Option CString) (rand : Nat) :
    SelectsHealthy lb key rand ↔ Selectable lb key := by
  change Selects lb (lbSelectServer lb key rand) ↔ _
  unfold lbSelectServer Selectable
  by_cases empty : lb.servers = []
  · refine ⟨fun _ nonempty => absurd empty nonempty, fun _ => ?_⟩
    rw [if_pos (by rw [empty]; rfl)]
    exact ⟨lb, -1, rfl, rightIndex_of_unhealthy (by simp [empty])⟩
  · rw [if_neg fun zero => empty (List.eq_nil_of_length_eq_zero zero), forall_prop_of_true empty]
    cases algorithm : lb.algorithm with
    | roundRobin => exact selects_roundRobin empty
    | weightedRoundRobin => exact selects_weightedRr fun s member => (wellformed.weights s member).2
    | leastConnections => exact ⟨fun _ => trivial, fun _ => ⟨lb, _, rfl, rightIndex_leastConn lb⟩⟩
    | consistentHash => exact selects_consistentHash wellformed algorithm empty _
    | random => exact ⟨fun _ => trivial, fun _ => selects_random lb rand⟩

end Algorithms

section Runs

variable {lb lb' : LoadBalancer} {key : Option CString} {rand : Nat} {idx : Int}

/-- Nothing but the counter of the round robin and running weights is changed. -/
def Turned (lb lb' : LoadBalancer) : Prop :=
  ∃ servers rrIndex, lb' = { lb with servers := servers, rrIndex := rrIndex } ∧
    servers.map LBServer.atRest = lb.servers.map LBServer.atRest

theorem Turned.refl (lb : LoadBalancer) : Turned lb lb := ⟨lb.servers, lb.rrIndex, rfl, rfl⟩

theorem turned_roundRobin (nonempty : lb.servers ≠ []) (selected : lbSelectRoundRobin lb = some (lb', idx)) :
    Turned lb lb' := by
  obtain ⟨overflow, fits⟩ := roundRobinTry_spec lb.servers.length nonempty
  unfold lbSelectRoundRobin at selected
  by_cases counts : CountsOn lb lb.servers.length
  · rcases fits counts with ⟨rrIndex, ⟨k, -, ended⟩ | ⟨-, ended⟩⟩
    · obtain ⟨rfl, -⟩ := Prod.mk.inj (Option.some.inj (ended.symm.trans selected))
      exact ⟨lb.servers, rrIndex, rfl, rfl⟩
    · obtain ⟨rfl, -⟩ := Prod.mk.inj (Option.some.inj (ended.symm.trans selected))
      exact ⟨lb.servers, rrIndex, rfl, rfl⟩
  · rw [overflow counts] at selected
    cases selected

theorem turned_weightedRr (weights : ∀ s ∈ lb.servers, 0 < s.effectiveWeight)
    (selected : lbSelectWeightedRr lb = some (lb', idx)) : Turned lb lb' := by
  by_cases fits : SwrrFits lb.servers
  · rcases lbSelectWeightedRr_fits weights fits with ⟨ended, -⟩ | ⟨i, s, there, -, -, ended⟩
    · obtain ⟨rfl, -⟩ := Prod.mk.inj (Option.some.inj (ended.symm.trans selected))
      exact Turned.refl lb
    · obtain ⟨rfl, -⟩ := Prod.mk.inj (Option.some.inj (ended.symm.trans selected))
      exact ⟨_, lb.rrIndex, rfl, swrrAfter_atRest there⟩
  · rw [lbSelectWeightedRr_overflow weights fits] at selected
    cases selected

theorem turned_consistentHash (nonempty : lb.servers ≠ []) {hash : CString}
    (selected : lbSelectConsistentHash lb hash = some (lb', idx)) : Turned lb lb' := by
  unfold lbSelectConsistentHash at selected
  split_ifs at selected
  · exact turned_roundRobin nonempty selected
  · obtain ⟨bounds, -, rest⟩ := Option.bind_eq_some_iff.mp selected
    obtain ⟨node, -, result⟩ := Option.bind_eq_some_iff.mp rest
    obtain ⟨rfl, -⟩ := Prod.mk.inj (Option.some.inj result)
    exact Turned.refl lb

theorem turned_select (wellformed : Wellformed lb) (selected : lbSelectServer lb key rand = some (lb', idx)) :
    Turned lb lb' := by
  unfold lbSelectServer at selected
  split_ifs at selected with empty
  · obtain ⟨rfl, -⟩ := Prod.mk.inj (Option.some.inj selected)
    exact Turned.refl lb
  · have nonempty : lb.servers ≠ [] := fun none => empty (by rw [none]; rfl)
    cases algorithm : lb.algorithm with
    | roundRobin =>
      rw [algorithm] at selected
      exact turned_roundRobin nonempty selected
    | weightedRoundRobin =>
      rw [algorithm] at selected
      exact turned_weightedRr (fun s member => (wellformed.weights s member).2) selected
    | leastConnections =>
      rw [algorithm] at selected
      obtain ⟨rfl, -⟩ := Prod.mk.inj (Option.some.inj selected)
      exact Turned.refl lb
    | consistentHash =>
      rw [algorithm] at selected
      exact turned_consistentHash nonempty selected
    | random =>
      rw [algorithm] at selected
      obtain ⟨chosen, -, result⟩ := Option.map_eq_some_iff.mp selected
      obtain ⟨rfl, -⟩ := Prod.mk.inj result
      exact Turned.refl lb

theorem wellformed_select (wellformed : Wellformed lb) (selected : lbSelectServer lb key rand = some (lb', idx)) :
    Wellformed lb' := by
  obtain ⟨servers, rrIndex, rfl, same⟩ := turned_select wellformed selected
  have addresses : servers.map (·.address) = lb.servers.map (·.address) := by
    have rested := congrArg (List.map (·.address)) same
    rwa [List.map_map, List.map_map] at rested
  have next := wellformed.table addresses (forall_of_atRest (fun _ => Iff.rfl) same wellformed.weights)
  exact ⟨next.room, next.weights, next.ring⟩

/-- Every selection of the call is right. -/
def CallSelects (property : LoadBalancer → Option CString → Nat → Prop) (state : Option LoadBalancer) (call : LBCall) :
    Prop :=
  ∀ lb ∈ state, ∀ key rand, call = .selectServer key rand → property lb key rand

theorem wellformed_step {state : Option LoadBalancer} (wellformed : ∀ lb ∈ state, Wellformed lb) (call : LBCall) :
    ∀ lb ∈ lbStep state call, Wellformed lb := by
  intro lb' next
  obtain ⟨lb, here, called⟩ := Option.bind_eq_some_iff.mp next
  have before := wellformed lb here
  cases call with
  | addServer addr port weight => exact Option.some.inj called ▸ wellformed_add before addr port weight
  | removeServer addr port => exact Option.some.inj called ▸ wellformed_remove before addr port
  | healthPing index alive => exact Option.some.inj called ▸ wellformed_ping before index alive
  | healthCheck => exact Option.some.inj called ▸ wellformed_check before
  | setConnections index activeConnections =>
    exact Option.some.inj called ▸ before.modify index _ (fun _ => rfl) fun _ kept => kept
  | selectServer key rand =>
    obtain ⟨⟨after, idx⟩, selected, rfl⟩ := Option.map_eq_some_iff.mp called
    exact wellformed_select before selected

end Runs

/-- In every run the selections return the index of a healthy server, or -1 if there is none, exactly if each is made in
a state that allows it: the counter and the weights do not overflow, and the virtual node of the key is of a healthy
server. -/
theorem lbSelectServer_healthy_iff (algo : LBAlgorithm) (calls : List LBCall) :
    Permitted lbStep (CallSelects SelectsHealthy) (some (lbInit algo)) calls ↔
      Permitted lbStep (CallSelects fun lb key _ => Selectable lb key) (some (lbInit algo)) calls := by
  refine Permitted.congr (motive := fun state => ∀ lb ∈ state, Wellformed lb) calls
    (Permitted.always calls) (fun lb start => Option.some.inj start ▸ wellformed_init algo)
    (fun state call wellformed _ _ => wellformed_step wellformed call) fun state call wellformed _ => ?_
  constructor
  · intro right lb here key rand made
    exact (selectsHealthy_iff (wellformed lb here) key rand).mp (right lb here key rand made)
  · intro allowed lb here key rand made
    exact (selectsHealthy_iff (wellformed lb here) key rand).mpr (allowed lb here key rand made)

/-- After the only server was reported down, the ring still leads to it. -/
theorem lbSelectServer_down :
    ¬ ∀ (algo : LBAlgorithm) (calls : List LBCall),
      Permitted lbStep (CallSelects SelectsHealthy) (some (lbInit algo)) calls := by
  intro always
  let added := (lbAddServer (lbInit .consistentHash) [97] 80 1).1
  have wellformed : Wellformed added := wellformed_add (wellformed_init _) _ _ _
  have run := always .consistentHash [.addServer [97] 80 1, .healthPing 0 false, .selectServer (some [107]) 0]
  have right : SelectsHealthy (lbHealthPing added 0 false) (some [107]) 0 := run.2.2.1 _ rfl _ _ rfl
  have servers : (lbHealthPing added 0 false).servers = [{ newServer [97] 80 1 with healthy := false }] := rfl
  have algorithm : (lbHealthPing added 0 false).algorithm = .consistentHash := rfl
  have allowed := (selectsHealthy_iff (wellformed_ping wellformed 0 false) _ _).mp right (by simp [servers])
  rw [algorithm] at allowed
  obtain ⟨node, -, s, there, healthy⟩ := allowed
  have down := List.mem_of_getElem? there
  rw [servers, List.mem_singleton] at down
  rw [down] at healthy
  cases healthy

end MiniNetDist.GatewayProxy.Lb
