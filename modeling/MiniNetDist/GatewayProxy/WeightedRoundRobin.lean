import MiniNetDist.GatewayProxy.LoadBalancer
import MiniNetDist.Library.Credit
import Mathlib.Data.List.Induction
import Mathlib.Algebra.BigOperators.Fin

/-! What one call of `lb_select_weighted_rr` does, and that a round of its calls serves every server as often as its
weight says. -/

namespace MiniNetDist.GatewayProxy.Lb

open Library Library.Credit

section Scan

variable {servers : List LBServer} {s : LBServer} {best : Int × Int}

/-- The server after the loop: the weight of a healthy one is added to its running weight. -/
def LBServer.raised (s : LBServer) : LBServer :=
  if s.healthy then { s with currentWeight := s.currentWeight + s.effectiveWeight } else s

/-- The total weight of the loop. -/
def healthyWeight (servers : List LBServer) : Int := ((servers.filter (·.healthy)).map (·.effectiveWeight)).sum

/-- The sums of the loop are values of type `int`. -/
structure ScanFits (servers : List LBServer) : Prop where
  raises : ∀ s ∈ servers, s.healthy = true → IsInt (s.currentWeight + s.effectiveWeight)
  total : IsInt (healthyWeight servers)

/-- No healthy server has more weight than this one once the weights are raised. -/
def MayWin (servers : List LBServer) (s : LBServer) : Prop :=
  ∀ other ∈ servers, other.healthy = true →
    other.currentWeight + other.effectiveWeight ≤ s.currentWeight + s.effectiveWeight

/-- Then so is what is left to a server that can be selected. -/
structure SwrrFits (servers : List LBServer) : Prop extends ScanFits servers where
  pays : ∀ s ∈ servers, s.healthy = true → MayWin servers s →
    IsInt (s.currentWeight + s.effectiveWeight - healthyWeight servers)

@[simp] theorem raised_healthy (s : LBServer) : s.raised.healthy = s.healthy := by
  unfold LBServer.raised
  split_ifs <;> rfl

theorem raised_currentWeight (healthy : s.healthy = true) :
    s.raised.currentWeight = s.currentWeight + s.effectiveWeight := by
  rw [LBServer.raised, if_pos healthy]

@[simp] theorem healthyWeight_nil : healthyWeight [] = 0 := rfl

theorem healthyWeight_append (servers : List LBServer) (s : LBServer) :
    healthyWeight (servers ++ [s]) = healthyWeight servers + if s.healthy then s.effectiveWeight else 0 := by
  unfold healthyWeight
  rw [List.filter_append, List.map_append, List.sum_append]
  congr 1
  by_cases healthy : s.healthy = true <;> simp [healthy]

theorem healthyWeight_nonneg (weights : ∀ s ∈ servers, 0 < s.effectiveWeight) : 0 ≤ healthyWeight servers := by
  refine List.sum_nonneg fun weight member => ?_
  obtain ⟨s, inside, rfl⟩ := List.mem_map.mp member
  exact Int.le_of_lt (weights s (List.mem_of_mem_filter inside))

/-- The loop fits as far as it has come, and with the next server. -/
theorem scanFits_append (weights : ∀ s ∈ servers, 0 < s.effectiveWeight) (positive : 0 < s.effectiveWeight) :
    ScanFits (servers ++ [s]) ↔ ScanFits servers ∧ (s.healthy = true →
      IsInt (s.currentWeight + s.effectiveWeight) ∧ IsInt (healthyWeight servers + s.effectiveWeight)) := by
  have lower := healthyWeight_nonneg weights
  have whole := healthyWeight_append servers s
  constructor
  · rintro ⟨raises, total⟩
    rw [whole] at total
    refine ⟨⟨fun other member => raises other (List.mem_append_left _ member), ?_⟩, fun healthy => ?_⟩
    · unfold IsInt at total ⊢
      split_ifs at total <;> omega
    · rw [if_pos healthy] at total
      exact ⟨raises s (by simp) healthy, total⟩
  · rintro ⟨⟨raises, total⟩, next⟩
    refine ⟨fun other member healthy => ?_, ?_⟩
    · rcases List.mem_append.mp member with old | new
      · exact raises other old healthy
      · obtain rfl := List.mem_singleton.mp new
        exact (next healthy).1
    · rw [whole]
      split_ifs with healthy
      · exact (next healthy).2
      · rwa [Int.add_zero]

/-- The best of the servers passed, by their running weights. -/
def Heaviest (servers : List LBServer) (best : Int × Int) : Prop :=
  BestAmong (fun value bestWeight => value > bestWeight) LBServer.currentWeight servers best

theorem swrrRound_healthy (scan : SwrrScan) (healthy : s.healthy = true) :
    swrrRound scan s =
      if IsInt (s.currentWeight + s.effectiveWeight) ∧ IsInt (scan.totalWeight + s.effectiveWeight) then
        some ⟨scan.servers ++ [s.raised], scan.totalWeight + s.effectiveWeight,
          takeBest (fun value bestWeight => value > bestWeight) scan.best scan.servers.length s.raised.currentWeight⟩
      else none := by
  have raised : s.raised = { s with currentWeight := s.currentWeight + s.effectiveWeight } := if_pos healthy
  unfold swrrRound int
  rw [if_pos healthy, raised]
  by_cases raises : IsInt (s.currentWeight + s.effectiveWeight)
  · by_cases total : IsInt (scan.totalWeight + s.effectiveWeight)
    · simp [raises, total]
    · simp [raises, total]
  · simp [raises]

theorem swrrRound_unhealthy (scan : SwrrScan) (unhealthy : s.healthy = false) :
    swrrRound scan s = some { scan with servers := scan.servers ++ [s.raised] } := by
  unfold swrrRound LBServer.raised
  rw [unhealthy]
  rfl

/-- The heaviest is still so after one more round of the loop. -/
theorem Heaviest.take (heaviest : Heaviest servers best) (healthy : s.healthy = true) :
    Heaviest (servers ++ [s])
      (takeBest (fun value bestWeight => value > bestWeight) best servers.length s.currentWeight) := by
  refine BestAmong.take heaviest healthy (by simp) ?_
  simp only [gt_iff_lt, decide_eq_true_eq, decide_eq_false_iff_not]
  omega

/-- The loop raises the weights, sums them up and finds the heaviest server, as long as its sums fit. -/
theorem swrrScan_spec (servers : List LBServer) (weights : ∀ s ∈ servers, 0 < s.effectiveWeight) :
    (ScanFits servers → ∃ best, servers.foldlM swrrRound ⟨[], 0, (-1, -1)⟩ =
        some ⟨servers.map LBServer.raised, healthyWeight servers, best⟩ ∧ Heaviest (servers.map LBServer.raised) best) ∧
      (¬ ScanFits servers → servers.foldlM swrrRound ⟨[], 0, (-1, -1)⟩ = none) := by
  induction servers using List.reverseRecOn with
  | nil => exact ⟨fun _ => ⟨(-1, -1), rfl, .nobody (by simp) rfl⟩, fun unfit => absurd ⟨by simp, by decide⟩ unfit⟩
  | append_singleton servers s ih =>
    have earlier : ∀ other ∈ servers, 0 < other.effectiveWeight := fun other member => weights other (by simp [member])
    obtain ⟨fit, unfit⟩ := ih earlier
    rw [scanFits_append earlier (weights s (by simp)), List.foldlM_append, healthyWeight_append, List.map_append,
      List.map_singleton]
    by_cases fits : ScanFits servers
    · obtain ⟨best, passed, heaviest⟩ := fit fits
      rw [passed, Option.bind_eq_bind, Option.bind_some, List.foldlM_cons]
      by_cases healthy : s.healthy = true
      · rw [swrrRound_healthy _ healthy, if_pos healthy]
        have taken := heaviest.take (s := s.raised) (by rwa [raised_healthy])
        refine ⟨fun ⟨_, next⟩ => ⟨_, ?_, taken⟩, fun unfits => ?_⟩
        · rw [if_pos (next healthy)]
          rfl
        · rw [if_neg fun next => unfits ⟨fits, fun _ => next⟩]
          rfl
      · have down : s.healthy = false := by simpa using healthy
        rw [swrrRound_unhealthy _ down, if_neg healthy, Int.add_zero]
        have skipped := BestAmong.skip (s := s.raised) heaviest (by rwa [raised_healthy])
        exact ⟨fun _ => ⟨best, rfl, skipped⟩, fun unfits => absurd ⟨fits, fun up => absurd up healthy⟩ unfits⟩
    · rw [unfit fits]
      exact ⟨fun both => absurd both.1 fits, fun _ => rfl⟩

end Scan

section Call

variable {lb : LoadBalancer} {servers : List LBServer} {s : LBServer} {i : Nat}

/-- The servers after the one at position `i` was selected. -/
def swrrAfter (servers : List LBServer) (i : Nat) (s : LBServer) : List LBServer :=
  (servers.map LBServer.raised).set i
    { s with currentWeight := s.currentWeight + s.effectiveWeight - healthyWeight servers }

/-- What the loop has found, said of the servers before it. -/
theorem heaviest_raised {best : Int × Int} (heaviest : Heaviest (servers.map LBServer.raised) best) :
    (best.1 = -1 ∧ ∀ s ∈ servers, s.healthy = false) ∨
      ∃ (i : Nat) (s : LBServer), best.1 = i ∧ servers[i]? = some s ∧ s.healthy = true ∧ MayWin servers s := by
  cases heaviest with
  | nobody unhealthy start =>
    refine .inl ⟨start, fun s member => ?_⟩
    have down := unhealthy s.raised (List.mem_map_of_mem member)
    rwa [raised_healthy] at down
  | chosen i raised there healthy found first =>
    rw [List.getElem?_map] at there
    obtain ⟨s, before, rfl⟩ := Option.map_eq_some_iff.mp there
    rw [raised_healthy] at healthy
    refine .inr ⟨i, s, by rw [found], before, healthy, fun other member up => ?_⟩
    have lighter := first other.raised (List.mem_map_of_mem member) (by rwa [raised_healthy])
    rw [raised_currentWeight up, raised_currentWeight healthy] at lighter
    simpa using lighter

theorem map_raised_of_unhealthy (unhealthy : ∀ s ∈ servers, s.healthy = false) :
    servers.map LBServer.raised = servers := by
  refine (List.map_congr_left fun s member => ?_).trans (List.map_id servers)
  rw [LBServer.raised, unhealthy s member]
  rfl

/-- A call selects a healthy server of the largest weight, which pays the total, if all sums fit. -/
theorem lbSelectWeightedRr_fits (weights : ∀ s ∈ lb.servers, 0 < s.effectiveWeight) (fits : SwrrFits lb.servers) :
    (lbSelectWeightedRr lb = some (lb, -1) ∧ ∀ s ∈ lb.servers, s.healthy = false) ∨
      ∃ (i : Nat) (s : LBServer), lb.servers[i]? = some s ∧ s.healthy = true ∧ MayWin lb.servers s ∧
        lbSelectWeightedRr lb = some ({ lb with servers := swrrAfter lb.servers i s }, (i : Int)) := by
  obtain ⟨best, passed, heaviest⟩ := (swrrScan_spec lb.servers weights).1 fits.toScanFits
  unfold lbSelectWeightedRr
  rw [passed]
  rcases heaviest_raised heaviest with ⟨start, unhealthy⟩ | ⟨i, s, found, there, healthy, wins⟩
  · refine .inl ⟨?_, unhealthy⟩
    simp [start, map_raised_of_unhealthy unhealthy]
  · refine .inr ⟨i, s, there, healthy, wins, ?_⟩
    have raised : s.raised = { s with currentWeight := s.currentWeight + s.effectiveWeight } := if_pos healthy
    have pays := fits.pays s (List.mem_of_getElem? there) healthy wins
    simp [found, there, raised, int, pays, swrrAfter]

/-- Otherwise one of them overflows. -/
theorem lbSelectWeightedRr_overflow (weights : ∀ s ∈ lb.servers, 0 < s.effectiveWeight)
    (unfit : ¬ SwrrFits lb.servers) : lbSelectWeightedRr lb = none := by
  unfold lbSelectWeightedRr
  by_cases scan : ScanFits lb.servers
  · obtain ⟨best, passed, heaviest⟩ := (swrrScan_spec lb.servers weights).1 scan
    rw [passed]
    rcases heaviest_raised heaviest with ⟨start, unhealthy⟩ | ⟨i, s, found, there, healthy, wins⟩
    · refine absurd ⟨scan, fun s member up => ?_⟩ unfit
      rw [unhealthy s member] at up
      cases up
    · have raised : s.raised = { s with currentWeight := s.currentWeight + s.effectiveWeight } := if_pos healthy
      have short : ¬ IsInt (s.currentWeight + s.effectiveWeight - healthyWeight lb.servers) := by
        intro pays
        refine unfit ⟨scan, fun other member up heavy => ?_⟩
        have same := Int.le_antisymm (wins other member up) (heavy s (List.mem_of_getElem? there) healthy)
        rwa [same]
      simp [found, there, raised, int, short]
  · rw [(swrrScan_spec lb.servers weights).2 scan]
    rfl

end Call

section Fairness

variable {lb lb' : LoadBalancer} {servers servers' : List LBServer} {s : LBServer} {i count : Nat}

def runningWeight (servers : List LBServer) (i : Nat) : Int := (servers[i]?.map (·.currentWeight)).getD 0

def shareOf (servers : List LBServer) (i : Nat) : Int := (servers[i]?.map (·.effectiveWeight)).getD 0

/-- All of the server but its running weight. -/
def LBServer.atRest (s : LBServer) : LBServer := { s with currentWeight := 0 }

/-- A table of few servers that are all up, with weights that are small together. -/
structure Steady (servers : List LBServer) : Prop where
  room : servers.length ≤ LB_MAX_SERVERS
  healthy : ∀ s ∈ servers, s.healthy = true
  weights : ∀ s ∈ servers, 0 < s.effectiveWeight
  small : healthyWeight servers < 2 ^ 20
  balanced : Balanced (Finset.range servers.length) (shareOf servers) (runningWeight servers)

@[simp] theorem raised_atRest (s : LBServer) : s.raised.atRest = s.atRest := by
  unfold LBServer.raised
  split_ifs <;> rfl

/-- A call changes nothing but running weights. -/
theorem swrrAfter_atRest (there : servers[i]? = some s) :
    (swrrAfter servers i s).map LBServer.atRest = servers.map LBServer.atRest := by
  obtain ⟨bound, rfl⟩ := List.getElem?_eq_some_iff.mp there
  have raised : (servers.map LBServer.raised).map LBServer.atRest = servers.map LBServer.atRest := by
    rw [List.map_map]
    exact List.map_congr_left fun s _ => raised_atRest s
  rw [swrrAfter, List.map_set, raised]
  refine List.ext_getElem? fun j => ?_
  rw [List.getElem?_set]
  split_ifs with here inside
  · subst here
    rw [List.getElem?_map, List.getElem?_eq_getElem bound]
    rfl
  · subst here
    rw [List.length_map] at inside
    exact absurd bound inside
  · rfl

theorem shareOf_congr (same : servers'.map LBServer.atRest = servers.map LBServer.atRest) :
    shareOf servers' = shareOf servers := by
  have resting : ∀ servers : List LBServer, shareOf servers = shareOf (servers.map LBServer.atRest) := by
    intro servers
    funext i
    unfold shareOf
    rw [List.getElem?_map, Option.map_map]
    rfl
  rw [resting servers', same, ← resting]

theorem sum_range_getD (servers : List LBServer) (value : LBServer → Int) :
    ∑ i ∈ Finset.range servers.length, (servers[i]?.map value).getD 0 = (servers.map value).sum := by
  rw [Finset.sum_range, ← Fin.sum_univ_fun_getElem]
  exact Finset.sum_congr rfl fun i _ => by simp

theorem total_shareOf (healthy : ∀ s ∈ servers, s.healthy = true) :
    total (Finset.range servers.length) (shareOf servers) = healthyWeight servers := by
  unfold total shareOf healthyWeight
  rw [sum_range_getD, List.filter_eq_self.mpr healthy]

theorem shareOf_pos (weights : ∀ s ∈ servers, 0 < s.effectiveWeight) :
    ∀ i ∈ Finset.range servers.length, 0 < shareOf servers i := by
  intro i inside
  have bound := Finset.mem_range.mp inside
  unfold shareOf
  rw [List.getElem?_eq_getElem bound]
  exact weights _ (List.getElem_mem bound)

theorem runningWeight_of_getElem? (there : servers[i]? = some s) : runningWeight servers i = s.currentWeight := by
  rw [runningWeight, there]
  rfl

theorem shareOf_of_getElem? (there : servers[i]? = some s) : shareOf servers i = s.effectiveWeight := by
  rw [shareOf, there]
  rfl

/-- Running weights of a steady table are far from the bounds of `int`. -/
theorem Steady.bounds (steady : Steady servers) (member : s ∈ servers) :
    -1048576 < s.currentWeight ∧ s.currentWeight < 33554432 ∧ 0 < s.effectiveWeight ∧
      s.effectiveWeight < 1048576 ∧ 0 < healthyWeight servers ∧ healthyWeight servers < 1048576 := by
  obtain ⟨i, there⟩ := List.mem_iff_getElem?.mp member
  have inside : i ∈ Finset.range servers.length := Finset.mem_range.mpr (List.getElem?_eq_some_iff.mp there).1
  have lower := steady.balanced.bounded i inside
  have upper := steady.balanced.credit_le inside
  have share := Finset.single_le_sum (fun j within => Int.le_of_lt (shareOf_pos steady.weights j within)) inside
  have whole := total_shareOf steady.healthy
  have positive := total_pos (shareOf_pos steady.weights) inside
  have small := steady.small
  have room := steady.room
  unfold LB_MAX_SERVERS at room
  change shareOf servers i ≤ total _ _ at share
  rw [runningWeight_of_getElem? there] at lower upper
  rw [shareOf_of_getElem? there] at share
  rw [Finset.card_range] at upper
  rw [whole] at lower upper share positive
  have most : (servers.length : Int) * healthyWeight servers ≤ 32 * healthyWeight servers :=
    Int.mul_le_mul_of_nonneg_right (by omega) (Int.le_of_lt positive)
  have weight := steady.weights s member
  omega

theorem Steady.fits (steady : Steady servers) : SwrrFits servers where
  raises := by
    intro s member _
    obtain ⟨lower, upper, positive, below, -, -⟩ := steady.bounds member
    unfold IsInt INT_MAX
    omega
  total := by
    have lower := healthyWeight_nonneg steady.weights
    have upper := steady.small
    unfold IsInt INT_MAX
    omega
  pays := by
    intro s member _ _
    obtain ⟨lower, upper, positive, below, whole, small⟩ := steady.bounds member
    unfold IsInt INT_MAX
    omega

/-- A call is a turn in which the selected server is served. -/
theorem swrrAfter_turn (healthy : ∀ s ∈ servers, s.healthy = true) (there : servers[i]? = some s)
    (wins : MayWin servers s) :
    Turn (Finset.range servers.length) (shareOf servers) (runningWeight servers) i
      (runningWeight (swrrAfter servers i s)) := by
  have inside := (List.getElem?_eq_some_iff.mp there).1
  refine ⟨Finset.mem_range.mpr inside, fun j within => ?_, fun j within => ?_⟩
  · have other := List.getElem?_eq_getElem (Finset.mem_range.mp within)
    rw [runningWeight_of_getElem? other, shareOf_of_getElem? other, runningWeight_of_getElem? there,
      shareOf_of_getElem? there]
    exact wins _ (List.mem_of_getElem? other) (healthy _ (List.mem_of_getElem? other))
  · rw [total_shareOf healthy]
    by_cases same : j = i
    · subst same
      have after : (swrrAfter servers j s)[j]? = some
          { s with currentWeight := s.currentWeight + s.effectiveWeight - healthyWeight servers } := by
        rw [swrrAfter, List.getElem?_set_self (by rwa [List.length_map])]
      rw [runningWeight_of_getElem? after, runningWeight_of_getElem? there, shareOf_of_getElem? there, if_pos rfl]
    · have bound := Finset.mem_range.mp within
      have other := List.getElem?_eq_getElem bound
      have after : (swrrAfter servers i s)[j]? = some servers[j].raised := by
        rw [swrrAfter, List.getElem?_set_ne (Ne.symm same), List.getElem?_map, other]
        rfl
      rw [runningWeight_of_getElem? after, runningWeight_of_getElem? other, shareOf_of_getElem? other, if_neg same,
        raised_currentWeight (healthy _ (List.mem_of_getElem? other)), Int.sub_zero]

/-- What does not depend on running weights holds of both tables. -/
theorem forall_of_atRest {P : LBServer → Prop} (blind : ∀ s, P s.atRest ↔ P s)
    (same : servers'.map LBServer.atRest = servers.map LBServer.atRest) (holds : ∀ s ∈ servers, P s) :
    ∀ s ∈ servers', P s := by
  intro s member
  have rested := List.mem_map_of_mem (f := LBServer.atRest) member
  rw [same] at rested
  obtain ⟨other, inside, equal⟩ := List.mem_map.mp rested
  rw [← blind, ← equal, blind]
  exact holds other inside

theorem length_of_atRest (same : servers'.map LBServer.atRest = servers.map LBServer.atRest) :
    servers'.length = servers.length := by
  have length := congrArg List.length same
  rwa [List.length_map, List.length_map] at length

theorem Steady.after (steady : Steady servers) (there : servers[i]? = some s) (wins : MayWin servers s) :
    Steady (swrrAfter servers i s) := by
  have same := swrrAfter_atRest there
  have length := length_of_atRest same
  have healthy := forall_of_atRest (P := fun s => s.healthy = true) (fun _ => Iff.rfl) same steady.healthy
  refine ⟨length ▸ steady.room, healthy, ?_, ?_, ?_⟩
  · exact forall_of_atRest (P := fun s => 0 < s.effectiveWeight) (fun _ => Iff.rfl) same steady.weights
  · rw [← total_shareOf healthy, length, shareOf_congr same, total_shareOf steady.healthy]
    exact steady.small
  · rw [length, shareOf_congr same]
    exact (swrrAfter_turn steady.healthy there wins).balanced (shareOf_pos steady.weights) steady.balanced

theorem Steady.call (steady : Steady lb.servers) (nonempty : lb.servers ≠ []) :
    ∃ (i : Nat) (servers : List LBServer), lbSelectWeightedRr lb = some ({ lb with servers := servers }, (i : Int)) ∧
      Turn (Finset.range lb.servers.length) (shareOf lb.servers) (runningWeight lb.servers) i (runningWeight servers) ∧
      servers.map LBServer.atRest = lb.servers.map LBServer.atRest ∧ Steady servers := by
  rcases lbSelectWeightedRr_fits steady.weights steady.fits with ⟨-, unhealthy⟩ | ⟨i, s, there, -, wins, selected⟩
  · obtain ⟨s, member⟩ := List.exists_mem_of_ne_nil _ nonempty
    have up := steady.healthy s member
    rw [unhealthy s member] at up
    cases up
  · exact ⟨i, _, selected, swrrAfter_turn steady.healthy there wins, swrrAfter_atRest there, steady.after there wins⟩

/-- Calls one after the other, and what they return. -/
def swrrCalls : Nat → LoadBalancer → Option (LoadBalancer × List Int)
  | 0, lb => some (lb, [])
  | count + 1, lb => do
    let (lb, idx) ← lbSelectWeightedRr lb
    let (lb, indices) ← swrrCalls count lb
    some (lb, idx :: indices)

theorem swrrCalls_add (first second : Nat) (lb : LoadBalancer) :
    swrrCalls (first + second) lb = (swrrCalls first lb).bind fun run =>
      (swrrCalls second run.1).map fun further => (further.1, run.2 ++ further.2) := by
  induction first generalizing lb with
  | zero => simp [swrrCalls]
  | succ first ih =>
    rw [Nat.add_right_comm, swrrCalls, swrrCalls]
    cases lbSelectWeightedRr lb with
    | none => rfl
    | some called =>
      obtain ⟨lb, idx⟩ := called
      simp only [Option.bind_eq_bind, Option.bind_some, ih]
      cases swrrCalls first lb with
      | none => rfl
      | some run =>
        simp only [Option.bind_some]
        cases swrrCalls second run.1 <;> rfl

/-- A run of calls is a sequence of turns. -/
theorem Steady.calls (lb : LoadBalancer) (steady : Steady lb.servers) (nonempty : lb.servers ≠ []) (count : Nat) :
    ∃ (order : List Nat) (servers : List LBServer),
      swrrCalls count lb = some ({ lb with servers := servers }, order.map Int.ofNat) ∧ order.length = count ∧
      Turns (Finset.range lb.servers.length) (shareOf lb.servers) (runningWeight lb.servers) order
        (runningWeight servers) ∧
      servers.map LBServer.atRest = lb.servers.map LBServer.atRest ∧ Steady servers := by
  induction count generalizing lb with
  | zero => exact ⟨[], lb.servers, rfl, rfl, .none, rfl, steady⟩
  | succ count ih =>
    obtain ⟨i, between, selected, turn, same, next⟩ := steady.call nonempty
    have length := length_of_atRest same
    have left : between ≠ [] := by
      rintro rfl
      exact nonempty (List.eq_nil_of_length_eq_zero length.symm)
    obtain ⟨order, servers, ran, counted, turns, rest, last⟩ := ih { lb with servers := between } next left
    rw [shareOf_congr same, length] at turns
    refine ⟨i :: order, servers, ?_, by rw [List.length_cons, counted], .next turn turns, rest.trans same, last⟩
    rw [swrrCalls, selected, Option.bind_eq_bind, Option.bind_some]
    dsimp only
    rw [ran]
    rfl

/-- The table where a block of `count` calls may start: `count` is the sum of the weights, and nobody has any credit. -/
structure BlockStart (count : Nat) (servers : List LBServer) : Prop extends Steady servers where
  nonempty : servers ≠ []
  zero : ∀ s ∈ servers, s.currentWeight = 0
  full : (count : Int) = healthyWeight servers

/-- A block selects everyone as often as its share says, and leads to where the next may start. -/
theorem BlockStart.block (lb : LoadBalancer) (start : BlockStart count lb.servers) :
    ∃ (order : List Nat) (servers : List LBServer),
      swrrCalls count lb = some ({ lb with servers := servers }, order.map Int.ofNat) ∧
      (∀ i < lb.servers.length, order.count i = shareOf lb.servers i) ∧
      servers.map LBServer.atRest = lb.servers.map LBServer.atRest ∧ BlockStart count servers := by
  have steady := start.toSteady
  obtain ⟨order, servers, ran, counted, turns, same, last⟩ := Steady.calls lb steady start.nonempty count
  have length := length_of_atRest same
  have even : ∀ i ∈ Finset.range lb.servers.length, runningWeight lb.servers i = 0 := by
    intro i inside
    have bound := Finset.mem_range.mp inside
    rw [runningWeight_of_getElem? (List.getElem?_eq_getElem bound)]
    exact start.zero _ (List.getElem_mem bound)
  have full : order.length = total (Finset.range lb.servers.length) (shareOf lb.servers) := by
    rw [counted, total_shareOf steady.healthy, start.full]
  have fair := fun i bound =>
    turns.fair (m := i) (shareOf_pos steady.weights) even full (Finset.mem_range.mpr bound)
  refine ⟨order, servers, ran, fun i bound => (fair i bound).1, same, last, ?_, fun s member => ?_, ?_⟩
  · rintro rfl
    exact start.nonempty (List.eq_nil_of_length_eq_zero length.symm)
  · obtain ⟨i, there⟩ := List.mem_iff_getElem?.mp member
    have inside := (List.getElem?_eq_some_iff.mp there).1
    rw [← runningWeight_of_getElem? there]
    exact (fair i (length ▸ inside)).2
  · rw [start.full, ← total_shareOf last.healthy, length, shareOf_congr same, total_shareOf steady.healthy]

theorem BlockStart.blocks (start : BlockStart count lb.servers) (blocks : Nat) :
    ∃ (indices : List Int) (servers : List LBServer),
      swrrCalls (blocks * count) lb = some ({ lb with servers := servers }, indices) ∧
      servers.map LBServer.atRest = lb.servers.map LBServer.atRest ∧ BlockStart count servers := by
  induction blocks with
  | zero => exact ⟨[], lb.servers, by rw [Nat.zero_mul]; rfl, rfl, start⟩
  | succ blocks ih =>
    obtain ⟨indices, before, ran, same, next⟩ := ih
    obtain ⟨order, servers, last, -, rest, final⟩ := BlockStart.block { lb with servers := before } next
    refine ⟨indices ++ order.map Int.ofNat, servers, ?_, rest.trans same, final⟩
    rw [Nat.succ_mul, swrrCalls_add, ran, Option.bind_some, last]
    rfl

/-- A table to which servers were added and nothing else happened. -/
def lbAddServers (algo : LBAlgorithm) (added : List (CString × Int × Int)) : LoadBalancer :=
  added.foldl (fun lb server => (lbAddServer lb server.1 server.2.1 server.2.2).1) (lbInit algo)

structure Fresh (servers : List LBServer) : Prop where
  room : servers.length ≤ LB_MAX_SERVERS
  server : ∀ s ∈ servers, s.healthy = true ∧ s.currentWeight = 0 ∧ s.effectiveWeight = s.weight ∧ 0 < s.weight

/-- As many as there is room for, as they were given. -/
theorem lbAddServers_servers (algo : LBAlgorithm) (added : List (CString × Int × Int)) :
    (lbAddServers algo added).servers =
      (added.take LB_MAX_SERVERS).map fun server => newServer server.1 server.2.1 server.2.2 := by
  induction added using List.reverseRecOn with
  | nil => rfl
  | append_singleton added server ih =>
    have next : lbAddServers algo (added ++ [server]) =
        (lbAddServer (lbAddServers algo added) server.1 server.2.1 server.2.2).1 := List.foldl_concat ..
    have length : (lbAddServers algo added).servers.length = min LB_MAX_SERVERS added.length := by
      rw [ih, List.length_map, List.length_take]
    rw [next, lbAddServer]
    split_ifs with full
    · rw [ih, List.take_append_of_le_length (by omega)]
    · rw [lbRebuild_servers, ih, List.take_of_length_le (by omega), List.take_of_length_le (by simp; omega),
        List.map_append, List.map_singleton]

theorem fresh_lbAddServers (algo : LBAlgorithm) (added : List (CString × Int × Int)) :
    Fresh (lbAddServers algo added).servers := by
  rw [lbAddServers_servers]
  refine ⟨?_, fun s member => ?_⟩
  · rw [List.length_map]
    exact List.length_take_le ..
  · obtain ⟨server, -, rfl⟩ := List.mem_map.mp member
    exact ⟨rfl, rfl, rfl, (newServer_weights ..).1⟩

theorem healthyWeight_fresh (fresh : Fresh servers) : healthyWeight servers = (servers.map (·.weight)).sum := by
  unfold healthyWeight
  rw [List.filter_eq_self.mpr fun s member => (fresh.server s member).1,
    List.map_congr_left fun s member => (fresh.server s member).2.2.1]

theorem steady_fresh (fresh : Fresh servers) (small : (servers.map (·.weight)).sum < 2 ^ 20) : Steady servers where
  room := fresh.room
  healthy := fun s member => (fresh.server s member).1
  weights := by
    intro s member
    obtain ⟨-, -, same, positive⟩ := fresh.server s member
    rwa [same]
  small := healthyWeight_fresh fresh ▸ small
  balanced := by
    refine balanced_zero (shareOf_pos fun s member => ?_) fun i inside => ?_
    · obtain ⟨-, -, same, positive⟩ := fresh.server s member
      rwa [same]
    · have bound := Finset.mem_range.mp inside
      rw [runningWeight_of_getElem? (List.getElem?_eq_getElem bound)]
      exact (fresh.server _ (List.getElem_mem bound)).2.1

end Fairness

/-- In every block of `W` calls that starts at a multiple of `W`, the sum of the weights, every server is selected as
often as its weight says, and all running weights are zero again. -/
theorem lbSelectWeightedRr_fair (algo : LBAlgorithm) (added : List (CString × Int × Int)) (W : Nat)
    (sum : ((lbAddServers algo added).servers.map (·.weight)).sum = W) (small : W < 2 ^ 20) (blocks : Nat) :
    ∃ before after earlier block, swrrCalls (blocks * W) (lbAddServers algo added) = some (before, earlier) ∧
      swrrCalls W before = some (after, block) ∧
      (∀ (i : Nat) (s : LBServer), (lbAddServers algo added).servers[i]? = some s →
        (block.count (i : Int) : Int) = s.weight) ∧
      ∀ s ∈ after.servers, s.currentWeight = 0 := by
  have fresh := fresh_lbAddServers algo added
  generalize lbAddServers algo added = lb at sum fresh
  by_cases empty : lb.servers = []
  · obtain rfl : W = 0 := by
      rw [empty] at sum
      exact Int.ofNat.inj sum.symm
    exact ⟨lb, lb, [], [], rfl, rfl, by simp [empty], by simp [empty]⟩
  · have start : BlockStart W lb.servers :=
      ⟨steady_fresh fresh (by rw [sum]; exact_mod_cast small), empty, fun s member => (fresh.server s member).2.1,
        by rw [healthyWeight_fresh fresh, sum]⟩
    obtain ⟨earlier, servers, ran, same, next⟩ := start.blocks blocks
    obtain ⟨order, after, last, counts, -, final⟩ := BlockStart.block { lb with servers := servers } next
    refine ⟨_, _, earlier, _, ran, last, fun i s there => ?_, final.zero⟩
    have bound := (List.getElem?_eq_some_iff.mp there).1
    have served := counts i (length_of_atRest same ▸ bound)
    rw [shareOf_congr same, shareOf_of_getElem? there,
      (fresh.server s (List.mem_of_getElem? there)).2.2.1] at served
    have named : (order.map Int.ofNat).count (i : Int) = order.count i :=
      List.count_map_of_injective order Int.ofNat (fun _ _ => Int.ofNat.inj) i
    rw [named, served]

theorem lbSelectWeightedRr_fair_three :
    let lb := lbAddServers .weightedRoundRobin [([97], 80, 2), ([98], 80, 1)]
    ∃ before after earlier block, swrrCalls (1 * 3) lb = some (before, earlier) ∧
      swrrCalls 3 before = some (after, block) ∧
      (∀ (i : Nat) (s : LBServer), lb.servers[i]? = some s → (block.count (i : Int) : Int) = s.weight) ∧
      ∀ s ∈ after.servers, s.currentWeight = 0 :=
  lbSelectWeightedRr_fair .weightedRoundRobin [([97], 80, 2), ([98], 80, 1)] 3 (by decide) (by decide) 1

end MiniNetDist.GatewayProxy.Lb
