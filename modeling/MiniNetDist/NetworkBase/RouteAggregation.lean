import MiniNetDist.Library.Run
import MiniNetDist.NetworkBase.IpRouting

/-! The aggregation of routes in `mini-network-base/src/ip_routing.c`: pairs of routes by one next hop are joined into
one to the block of both, whether or not a route to that block is in the table. -/

namespace MiniNetDist.NetworkBase.IpRouting

open Library Library.PrefixMatch

/-- What the loops ask of two entries before they are joined. -/
def mergeable (a b : IPRouteEntry) : Bool :=
  a.active && b.active && a.prefixLen == b.prefixLen && a.nexthop == b.nexthop && a.prefixLen != 0 &&
    let mask := ipPrefixToMask (a.prefixLen - 1)
    a.network &&& mask == b.network &&& mask

/-- The entry `a` after `b` was joined to it. -/
def aggregated (a b : IPRouteEntry) : IPRouteEntry :=
  let pl := a.prefixLen - 1
  { a with prefixLen := pl, network := a.network &&& ipPrefixToMask pl,
           metric := if a.metric < b.metric then a.metric else b.metric }

/-- The body of the two loops, for the entries at positions `i` and `j`, with the count of joins. -/
def aggregatePair (state : List IPRouteEntry × Nat) (pair : Nat × Nat) : List IPRouteEntry × Nat :=
  match state.1[pair.1]?, state.1[pair.2]? with
  | some a, some b =>
    if mergeable a b then
      ((state.1.set pair.1 (aggregated a b)).set pair.2 { b with active := false }, state.2 + 1)
    else state
  | _, _ => state

/-- The positions in the order of the two loops. -/
def aggregatePairs (count : Nat) : List (Nat × Nat) :=
  (List.range count).flatMap fun i => (List.range' (i + 1) (count - (i + 1))).map fun j => (i, j)

def ipRoutingAggregate (rt : IPRoutingTable) : IPRoutingTable × Nat :=
  if rt.entries.length < 2 then (rt, 0)
  else
    let (entries, merged) := (aggregatePairs rt.entries.length).foldl aggregatePair (rt.entries, 0)
    ({ rt with entries := entries.filter (·.active) }, merged)

/-- The arguments of a call of `ip_routing_add`. -/
structure RouteAddition where
  network : UInt32
  prefixLen : UInt8
  nexthop : UInt32
  iface : UInt32
  metric : UInt16

def addRoute (rt : IPRoutingTable) (route : RouteAddition) : IPRoutingTable :=
  (ipRoutingAdd rt route.network route.prefixLen route.nexthop route.iface route.metric).1

def addedRoutes (routes : List RouteAddition) : IPRoutingTable := routes.foldl addRoute ipRoutingTableInit

/-- No host bits are set in the network. -/
def RouteAddition.Clean (route : RouteAddition) : Prop :=
  route.network &&& ipPrefixToMask route.prefixLen = route.network

/-- If the two entries are joined here, then no entry in use has the network and prefix length of the result, and the
lookup does not overlook the result, as it does with a default route of the largest metric that was never added. -/
def Unclaimed (hasDefault : Bool) (state : List IPRouteEntry × Nat) (pair : Nat × Nat) : Prop :=
  ∀ a ∈ state.1[pair.1]?, ∀ b ∈ state.1[pair.2]?, mergeable a b = true →
    (∀ e ∈ state.1, e.active = true →
      (e.network, e.prefixLen) ≠ ((aggregated a b).network, (aggregated a b).prefixLen)) ∧
    ((aggregated a b).prefixLen = 0 → hasDefault = true ∨ (aggregated a b).metric < IP_ROUTE_METRIC_MAX)

instance (hasDefault : Bool) (state : List IPRouteEntry × Nat) (pair : Nat × Nat) :
    Decidable (Unclaimed hasDefault state pair) :=
  inferInstanceAs (Decidable (∀ a ∈ state.1[pair.1]?, ∀ b ∈ state.1[pair.2]?, _ → _ ∧ _))

/-- In every iteration of the loops. -/
def AggregatesUnclaimed (rt : IPRoutingTable) : Prop :=
  Permitted aggregatePair (Unclaimed rt.hasDefault) (rt.entries, 0) (aggregatePairs rt.entries.length)

section Routes

variable {a b e : IPRouteEntry}

theorem clean_route (short : e.prefixLen ≤ 32) (clean : e.network &&& ipPrefixToMask e.prefixLen = e.network) :
    e.route.Clean 32 where
  short := UInt8.le_iff_toNat_le.mp short
  aligned := by
    have masked := toNat_and_mask e.network short
    rw [clean] at masked
    exact ⟨_, masked.trans (Nat.mul_comm _ _)⟩

theorem route_key_eq_iff : a.route.key = b.route.key ↔ (a.network, a.prefixLen) = (b.network, b.prefixLen) := by
  unfold Route.key IPRouteEntry.route
  rw [Prod.mk.injEq, Prod.mk.injEq, UInt32.toNat_inj, UInt8.toNat_inj]

section Mergeable

variable (mergeable' : mergeable a b = true)

include mergeable'

/-- The conditions of the loops, one by one. -/
theorem conditions_of_mergeable :
    a.active = true ∧ b.active = true ∧ a.prefixLen = b.prefixLen ∧ a.nexthop = b.nexthop ∧ a.prefixLen ≠ 0 ∧
      a.network &&& ipPrefixToMask (a.prefixLen - 1) = b.network &&& ipPrefixToMask (a.prefixLen - 1) := by
  simpa [mergeable, and_assoc] using mergeable'

theorem toNat_sub_one : (a.prefixLen - 1).toNat = a.prefixLen.toNat - 1 := by
  have positive : a.prefixLen ≠ 0 := (conditions_of_mergeable mergeable').2.2.2.2.1
  have one : (1 : UInt8) ≤ a.prefixLen := by
    have nonzero : a.prefixLen.toNat ≠ 0 := fun zero => positive (UInt8.toNat_inj.mp zero)
    exact UInt8.le_iff_toNat_le.mpr (Nat.one_le_iff_ne_zero.mpr nonzero)
  exact UInt8.toNat_sub_of_le _ _ one

theorem sub_one_le (short : a.prefixLen ≤ 32) : a.prefixLen - 1 ≤ 32 := by
  have most := UInt8.le_iff_toNat_le.mp short
  rw [UInt8.le_iff_toNat_le, toNat_sub_one mergeable']
  exact Nat.le_trans (Nat.sub_le _ _) most

/-- What is left of the two is the route to the larger block. -/
theorem route_aggregated (short : a.prefixLen ≤ 32) : (aggregated a b).route = a.route.parent 32 := by
  have masked := toNat_and_mask a.network (sub_one_le mergeable' short)
  rw [toNat_sub_one mergeable'] at masked
  unfold IPRouteEntry.route aggregated Route.parent
  simp only [masked, toNat_sub_one mergeable']

theorem siblings_of_mergeable (short : a.prefixLen ≤ 32) : a.route.Siblings 32 b.route := by
  obtain ⟨_, _, length, hop, positive, joined⟩ := conditions_of_mergeable mergeable'
  have nonzero : a.prefixLen.toNat ≠ 0 := fun zero => positive (UInt8.toNat_inj.mp zero)
  have networks := congrArg UInt32.toNat joined
  rw [toNat_and_mask _ (sub_one_le mergeable' short), toNat_and_mask _ (sub_one_le mergeable' short),
    toNat_sub_one mergeable'] at networks
  refine ⟨congrArg UInt8.toNat length, nonzero, hop, ?_⟩
  unfold Route.parent IPRouteEntry.route
  rw [← length]
  exact networks

end Mergeable

end Routes

section Joining

/-- The entries in use, as routes. -/
def liveRoutes (entries : List IPRouteEntry) : List (Route UInt32) := (entries.filter (·.active)).map IPRouteEntry.route

/-- What holds of the entries between two iterations. -/
structure Live (hasDefault : Bool) (entries : List IPRouteEntry) : Prop where
  short : ∀ e ∈ entries, e.prefixLen ≤ 32
  visible : ∀ e ∈ entries, e.active = true → e.prefixLen = 0 → hasDefault = true ∨ e.metric < IP_ROUTE_METRIC_MAX
  wellformed : Wellformed 32 (liveRoutes entries)

theorem split_at {entries : List IPRouteEntry} {i : Nat} {a : IPRouteEntry} (found : entries[i]? = some a) :
    ∃ before after, entries = before ++ a :: after ∧ before.length = i := by
  obtain ⟨inside, rfl⟩ := List.getElem?_eq_some_iff.mp found
  refine ⟨entries.take i, entries.drop (i + 1), ?_, List.length_take_of_le (Nat.le_of_lt inside)⟩
  rw [← List.drop_eq_getElem_cons inside, List.take_append_drop]

/-- The two entries, and what becomes of the list when both are changed. -/
theorem split_pair {entries : List IPRouteEntry} {i j : Nat} {a b : IPRouteEntry} (first : entries[i]? = some a)
    (second : entries[j]? = some b) (less : i < j) :
    ∃ before middle after, entries = before ++ a :: (middle ++ b :: after) ∧
      ∀ a' b', (entries.set i a').set j b' = before ++ a' :: (middle ++ b' :: after) := by
  obtain ⟨before, rest, rfl, rfl⟩ := split_at first
  have later : rest[j - before.length - 1]? = some b := by
    rw [List.getElem?_append_right (Nat.le_of_lt less)] at second
    obtain ⟨k, rfl⟩ := Nat.exists_eq_add_of_lt less
    rw [show before.length + k + 1 - before.length = k + 1 by omega, List.getElem?_cons_succ] at second
    rw [show before.length + k + 1 - before.length - 1 = k by omega]
    exact second
  obtain ⟨middle, after, rfl, length⟩ := split_at later
  refine ⟨before, middle, after, rfl, fun a' b' => ?_⟩
  obtain rfl : j = before.length + (middle.length + 1) := by omega
  rw [List.set_append_right _ _ (Nat.le_refl _), Nat.sub_self, List.set_cons_zero,
    List.set_append_right _ _ (Nat.le_add_right _ _), Nat.add_sub_cancel_left, List.set_cons_succ,
    List.set_append_right _ _ (Nat.le_refl _), Nat.sub_self, List.set_cons_zero]

variable {before middle after : List IPRouteEntry} {a b : IPRouteEntry}

theorem perm_pair : (before ++ a :: (middle ++ b :: after)).Perm (a :: b :: (before ++ middle ++ after)) := by
  refine List.perm_middle.trans (List.Perm.cons a ?_)
  rw [← List.append_assoc]
  exact List.perm_middle

theorem mem_pair {e : IPRouteEntry} :
    e ∈ before ++ a :: (middle ++ b :: after) ↔ e = a ∨ e = b ∨ e ∈ before ++ middle ++ after := by
  rw [perm_pair.mem_iff, List.mem_cons, List.mem_cons]

theorem liveRoutes_pair (usedA : a.active = true) (usedB : b.active = true) :
    (liveRoutes (before ++ a :: (middle ++ b :: after))).Perm
      (a.route :: b.route :: liveRoutes (before ++ middle ++ after)) := by
  refine ((perm_pair.filter _).map _).trans (List.Perm.of_eq ?_)
  rw [List.filter_cons_of_pos usedA, List.filter_cons_of_pos usedB]
  rfl

theorem liveRoutes_single (usedA : a.active = true) (unusedB : b.active = false) :
    (liveRoutes (before ++ a :: (middle ++ b :: after))).Perm (a.route :: liveRoutes (before ++ middle ++ after)) := by
  refine ((perm_pair.filter _).map _).trans (List.Perm.of_eq ?_)
  rw [List.filter_cons_of_pos usedA, List.filter_cons_of_neg (by simp [unusedB])]
  rfl

variable {hasDefault : Bool} {state : List IPRouteEntry × Nat} {pair : Nat × Nat}

/-- Two entries are joined to one that leads where they did. -/
theorem Live.join (live : Live hasDefault (before ++ a :: (middle ++ b :: after))) (joins : mergeable a b = true)
    (free : ∀ e ∈ before ++ a :: (middle ++ b :: after), e.active = true →
      (e.network, e.prefixLen) ≠ ((aggregated a b).network, (aggregated a b).prefixLen))
    (shown : (aggregated a b).prefixLen = 0 → hasDefault = true ∨ (aggregated a b).metric < IP_ROUTE_METRIC_MAX) :
    Live hasDefault (before ++ aggregated a b :: (middle ++ { b with active := false } :: after)) ∧
      Preserves 32 (liveRoutes (before ++ a :: (middle ++ b :: after)))
        (liveRoutes (before ++ aggregated a b :: (middle ++ { b with active := false } :: after))) := by
  obtain ⟨usedA, usedB, _⟩ := conditions_of_mergeable joins
  have shortA : a.prefixLen ≤ 32 := live.short a (by simp)
  have usedAggregate : (aggregated a b).active = true := usedA
  -- the routes in use before and after, up to their order
  have old : (liveRoutes (before ++ a :: (middle ++ b :: after))).Perm
      (a.route :: b.route :: liveRoutes (before ++ middle ++ after)) := liveRoutes_pair usedA usedB
  have new : (liveRoutes (before ++ aggregated a b :: (middle ++ { b with active := false } :: after))).Perm
      (a.route.parent 32 :: liveRoutes (before ++ middle ++ after)) := by
    rw [← route_aggregated joins shortA]
    exact liveRoutes_single usedAggregate rfl
  have fresh : (a.route.parent 32).key ∉ (liveRoutes (before ++ middle ++ after)).map Route.key := by
    intro taken
    obtain ⟨route, inside, same⟩ := List.mem_map.mp taken
    obtain ⟨e, used, rfl⟩ := List.mem_map.mp inside
    obtain ⟨present, active⟩ := List.mem_filter.mp used
    rw [← route_aggregated joins shortA] at same
    exact free e (mem_pair.mpr (.inr (.inr present))) active (route_key_eq_iff.mp same)
  have joined := (live.wellformed.preserves_perm old).wellformed.preserves_join
    (siblings_of_mergeable joins shortA) fresh
  have preserves := ((live.wellformed.preserves_perm old).trans joined).trans
    (joined.wellformed.preserves_perm new.symm)
  refine ⟨⟨fun e inside => ?_, fun e inside active zero => ?_, preserves.wellformed⟩, preserves⟩
  · rcases mem_pair.mp inside with rfl | rfl | other
    · exact sub_one_le joins shortA
    · exact live.short b (by simp)
    · exact live.short e (mem_pair.mpr (.inr (.inr other)))
  · rcases mem_pair.mp inside with rfl | rfl | other
    · exact shown zero
    · cases active
    · exact live.visible e (mem_pair.mpr (.inr (.inr other))) active zero

/-- One iteration preserves where the routes in use lead. -/
theorem Live.aggregatePair (live : Live hasDefault state.1) (ordered : pair.1 < pair.2)
    (unclaimed : Unclaimed hasDefault state pair) :
    Live hasDefault (aggregatePair state pair).1 ∧
      Preserves 32 (liveRoutes state.1) (liveRoutes (IpRouting.aggregatePair state pair).1) := by
  have unchanged : Live hasDefault state.1 ∧ Preserves 32 (liveRoutes state.1) (liveRoutes state.1) :=
    ⟨live, live.wellformed.preserves_self⟩
  unfold IpRouting.aggregatePair
  cases first : state.1[pair.1]? with
  | none => exact unchanged
  | some a =>
    cases second : state.1[pair.2]? with
    | none => exact unchanged
    | some b =>
      by_cases joins : mergeable a b = true
      · obtain ⟨free, shown⟩ := unclaimed a first b second joins
        obtain ⟨before, middle, after, whole, replaced⟩ := split_pair first second ordered
        simp only [if_pos joins, replaced]
        rw [whole] at live free ⊢
        exact live.join joins free shown
      · simp only [if_neg joins]
        exact unchanged

/-- So does a run of iterations that meet the condition. -/
theorem Live.aggregatePairs {pairs : List (Nat × Nat)} (live : Live hasDefault state.1)
    (ordered : ∀ pair ∈ pairs, pair.1 < pair.2)
    (unclaimed : Permitted IpRouting.aggregatePair (Unclaimed hasDefault) state pairs) :
    Live hasDefault (pairs.foldl IpRouting.aggregatePair state).1 ∧
      Preserves 32 (liveRoutes state.1) (liveRoutes (pairs.foldl IpRouting.aggregatePair state).1) := by
  induction pairs generalizing state with
  | nil => exact ⟨live, live.wellformed.preserves_self⟩
  | cons pair rest ih =>
    obtain ⟨here, later⟩ := unclaimed
    obtain ⟨next, first⟩ := live.aggregatePair (ordered pair List.mem_cons_self) here
    obtain ⟨last, others⟩ := ih next (fun other inside => ordered other (List.mem_cons_of_mem _ inside)) later
    exact ⟨last, first.trans others⟩

theorem lt_of_mem_aggregatePairs {count : Nat} (inside : pair ∈ IpRouting.aggregatePairs count) : pair.1 < pair.2 := by
  obtain ⟨i, _, inside⟩ := List.mem_flatMap.mp inside
  obtain ⟨j, later, rfl⟩ := List.mem_map.mp inside
  obtain ⟨k, _, rfl⟩ := List.mem_range'.mp later
  show i < i + 1 + 1 * k
  omega

end Joining

section Forwarding

variable {rt rt' : IPRoutingTable}

theorem covers_route_iff {e : IPRouteEntry} {dst : UInt32} : e.route.Covers 32 dst.toNat ↔ e.Covers dst := Iff.rfl

theorem best_of_lookup (visible : Visible rt) {dst : UInt32} {e : IPRouteEntry}
    (found : ipRoutingLookup rt dst = some e) :
    Best 32 (rt.entries.map IPRouteEntry.route) dst.toNat e.route := by
  obtain ⟨inside, covers, best⟩ := lookup_best visible found
  refine ⟨List.mem_map_of_mem inside, covers, fun other inside' covers' => ?_⟩
  obtain ⟨e', present, rfl⟩ := List.mem_map.mp inside'
  exact UInt8.le_iff_toNat_le.mp (prefixLen_le_of_rank (best e' present covers'))

/-- A table whose routes lead to the same hops gives the same next hops. -/
theorem nexthop_of_preserves (visible : Visible rt) (visible' : Visible rt')
    (preserves : Preserves 32 (rt.entries.map IPRouteEntry.route) (rt'.entries.map IPRouteEntry.route)) (dst : UInt32) :
    (ipRoutingLookup rt' dst).map (·.nexthop) = (ipRoutingLookup rt dst).map (·.nexthop) := by
  have covered := preserves.covered dst.toNat
  simp only [List.mem_map, exists_exists_and_eq_and, covers_route_iff] at covered
  have none_iff : ipRoutingLookup rt' dst = none ↔ ipRoutingLookup rt dst = none := by
    rw [lookup_eq_none_iff visible, lookup_eq_none_iff visible', ← not_iff_not]
    simpa using covered
  cases found : ipRoutingLookup rt dst with
  | none => rw [none_iff.mpr found]
  | some e =>
    cases found' : ipRoutingLookup rt' dst with
    | none => rw [none_iff.mp found'] at found; cases found
    | some e' =>
      obtain ⟨route, best, hop⟩ := preserves.best _ _ (best_of_lookup visible found)
      have same := best.unique preserves.wellformed (best_of_lookup visible' found')
      have nexthop : e'.nexthop = e.nexthop := (congrArg Route.hop same).symm.trans hop
      exact congrArg some nexthop

end Forwarding

section Added

variable {rt : IPRoutingTable}

/-- A table to which only networks without host bits were added. -/
structure Added (rt : IPRoutingTable) : Prop where
  standing : Standing rt
  clean : ∀ e ∈ rt.entries, e.network &&& ipPrefixToMask e.prefixLen = e.network
  distinct : (rt.entries.map IPRouteEntry.addKey).Nodup

theorem Added.add (added : Added rt) {route : RouteAddition} (clean : route.Clean) : Added (addRoute rt route) where
  standing := added.standing.add _ _ _ _ _
  clean := by
    unfold addRoute ipRoutingAdd
    split_ifs
    · exact added.clean
    · exact added.clean
    · intro e present
      rcases Table.mem_update_cases present with old | ⟨old, inside, rfl⟩
      · exact added.clean e old
      · exact added.clean old inside
    all_goals
      intro e present
      rcases List.mem_append.mp present with old | new
      · exact added.clean e old
      · rw [List.mem_singleton.mp new]
        exact clean
  distinct := by
    unfold addRoute ipRoutingAdd
    split_ifs with full large known
    · exact added.distinct
    · exact added.distinct
    · change ((Table.update IPRouteEntry.addKey rt.entries _ _).map IPRouteEntry.addKey).Nodup
      rw [Table.map_update]
      · exact added.distinct
      · exact fun _ => rfl
    all_goals
      have fresh : (route.network, route.prefixLen, true) ∉ rt.entries.map IPRouteEntry.addKey := by simpa using known
      rw [List.map_append, List.map_singleton, ← List.concat_eq_append]
      exact List.Nodup.concat fresh added.distinct

theorem added_addedRoutes {routes : List RouteAddition} (clean : ∀ route ∈ routes, route.Clean) :
    Added (addedRoutes routes) :=
  List.foldlRecOn routes addRoute
    ⟨standing_init, by simp [ipRoutingTableInit], by simp [ipRoutingTableInit]⟩
    fun _ added route inside => added.add (clean route inside)

theorem liveRoutes_of_active {entries : List IPRouteEntry} (active : ∀ e ∈ entries, e.active = true) :
    liveRoutes entries = entries.map IPRouteEntry.route := by
  unfold liveRoutes
  rw [List.filter_eq_self.mpr active]

theorem Added.live (added : Added rt) : Live rt.hasDefault rt.entries where
  short := added.standing.short
  visible e inside _ := added.standing.visible.visible e inside
  wellformed := by
    rw [liveRoutes_of_active added.standing.active]
    refine ⟨fun route inside => ?_, ?_⟩
    · obtain ⟨e, present, rfl⟩ := List.mem_map.mp inside
      exact clean_route (added.standing.short e present) (added.clean e present)
    · have distinct := added.distinct
      unfold List.Nodup at distinct ⊢
      rw [List.pairwise_map] at distinct
      rw [List.pairwise_map, List.pairwise_map]
      refine distinct.imp_of_mem fun {a b} insideA insideB different same => different ?_
      have keys := route_key_eq_iff.mp same
      rw [Prod.mk.injEq] at keys
      unfold IPRouteEntry.addKey
      rw [keys.1, keys.2, added.standing.active a insideA, added.standing.active b insideB]

end Added

/-- Aggregation leaves the next hops as they are if no iteration joins two routes to a block that a route in use leads
to already. -/
theorem ipRoutingAggregate_forwards (routes : List RouteAddition) (clean : ∀ route ∈ routes, route.Clean)
    (unclaimed : AggregatesUnclaimed (addedRoutes routes)) (dst : UInt32) :
    (ipRoutingLookup (ipRoutingAggregate (addedRoutes routes)).1 dst).map (·.nexthop) =
      (ipRoutingLookup (addedRoutes routes) dst).map (·.nexthop) := by
  have added := added_addedRoutes clean
  unfold ipRoutingAggregate
  split_ifs with few
  · rfl
  · obtain ⟨live, preserves⟩ := added.live.aggregatePairs (fun _ inside => lt_of_mem_aggregatePairs inside) unclaimed
    rw [liveRoutes_of_active added.standing.active] at preserves
    have visible : Visible { addedRoutes routes with
        entries := ((aggregatePairs (addedRoutes routes).entries.length).foldl aggregatePair
          ((addedRoutes routes).entries, 0)).1.filter (·.active) } := by
      refine ⟨fun e inside => (List.mem_filter.mp inside).2, fun e inside => ?_, fun e inside => ?_⟩
      · exact live.short e (List.mem_filter.mp inside).1
      · obtain ⟨present, active⟩ := List.mem_filter.mp inside
        exact live.visible e present active
    exact nexthop_of_preserves added.standing.visible visible preserves dst

theorem ipRoutingAggregate_forwards_halves :
    (ipRoutingLookup (ipRoutingAggregate (addedRoutes [⟨0xC0A80000, 24, 1, 0, 1⟩, ⟨0xC0A80100, 24, 1, 0, 1⟩])).1
      0xC0A80142).map (·.nexthop) =
    (ipRoutingLookup (addedRoutes [⟨0xC0A80000, 24, 1, 0, 1⟩, ⟨0xC0A80100, 24, 1, 0, 1⟩])
      0xC0A80142).map (·.nexthop) :=
  ipRoutingAggregate_forwards _ (by simp [RouteAddition.Clean]; decide)
    (by unfold AggregatesUnclaimed; decide) _

/-- A route to the block of the halves, by another hop at a smaller metric, takes all that went to the halves. -/
theorem ipRoutingAggregate_diverts :
    ¬ ∀ routes : List RouteAddition, (∀ route ∈ routes, route.Clean) → ∀ dst,
      (ipRoutingLookup (ipRoutingAggregate (addedRoutes routes)).1 dst).map (·.nexthop) =
        (ipRoutingLookup (addedRoutes routes) dst).map (·.nexthop) := by
  intro forwards
  have same := forwards [⟨0xC0A80000, 24, 1, 0, 5⟩, ⟨0xC0A80100, 24, 1, 0, 5⟩, ⟨0xC0A80000, 23, 2, 0, 1⟩]
    (by simp [RouteAddition.Clean]; decide) 0xC0A80001
  revert same
  decide

end MiniNetDist.NetworkBase.IpRouting
