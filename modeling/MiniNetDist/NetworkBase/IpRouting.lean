import MiniNetDist.Library.Nearest
import MiniNetDist.Library.PrefixMatch
import MiniNetDist.Library.Table
import Mathlib.Algebra.Ring.Nat
import Mathlib.Data.List.Sort

/-! The routing table of `mini-network-base/src/ip_routing.c` and its lookup of the longest prefix. -/

namespace MiniNetDist.NetworkBase.IpRouting

open Library Library.PrefixMatch

def IP_ROUTE_MAX_ENTRIES : Nat := 256

def IP_ROUTE_METRIC_MAX : UInt16 := 65535

def ipPrefixToMask (prefixLen : UInt8) : UInt32 :=
  if prefixLen = 0 then 0
  else
    let prefixLen := if prefixLen > 32 then 32 else prefixLen
    if prefixLen = 32 then 0xFFFFFFFF else ((0xFFFFFFFF : UInt64) <<< (32 - prefixLen.toUInt64)).toUInt32

structure IPRouteEntry where
  network : UInt32
  prefixLen : UInt8
  nexthop : UInt32
  interfaceAddr : UInt32
  metric : UInt16
  adminDistance : UInt16
  active : Bool
  age : UInt32
  deriving DecidableEq, Repr

/-- The first `count` entries. -/
structure IPRoutingTable where
  entries : List IPRouteEntry
  defaultGateway : UInt32
  hasDefault : Bool
  deriving DecidableEq, Repr

def ipRoutingTableInit : IPRoutingTable := ⟨[], 0, false⟩

/-- What an entry is found by when it is added again. -/
def IPRouteEntry.addKey (e : IPRouteEntry) : UInt32 × UInt8 × Bool := (e.network, e.prefixLen, e.active)

def ipRoutingAdd (rt : IPRoutingTable) (network : UInt32) (prefixLen : UInt8) (nexthop iface : UInt32)
    (metric : UInt16) : IPRoutingTable × Int :=
  if rt.entries.length ≥ IP_ROUTE_MAX_ENTRIES then (rt, -2)
  else if prefixLen > 32 then (rt, -3)
  else if rt.entries.any (·.addKey = (network, prefixLen, true)) then
    ({ rt with entries := Table.update IPRouteEntry.addKey rt.entries (network, prefixLen, true) fun e =>
        { e with nexthop := nexthop, interfaceAddr := iface, metric := metric, age := 0 } }, 0)
  else
    let e : IPRouteEntry :=
      { network := network, prefixLen := prefixLen, nexthop := nexthop, interfaceAddr := iface, metric := metric,
        adminDistance := 1, active := true, age := 0 }
    ({ entries := rt.entries ++ [e],
       defaultGateway := if prefixLen = 0 then nexthop else rt.defaultGateway,
       hasDefault := if prefixLen = 0 then true else rt.hasDefault }, 0)

def ipRoutingRemove (rt : IPRoutingTable) (network : UInt32) (prefixLen : UInt8) : IPRoutingTable × Int :=
  if rt.entries.any fun e => e.network = network ∧ e.prefixLen = prefixLen then
    ({ rt with entries := rt.entries.eraseP fun e => e.network = network ∧ e.prefixLen = prefixLen }, 0)
  else (rt, -2)

def ipRoutingSetDefault (rt : IPRoutingTable) (gateway : UInt32) : IPRoutingTable := (ipRoutingAdd rt 0 0 gateway 0 1).1

/-- `best_idx`, by its entry, with `best_prefix` and `best_metric`. -/
structure BestRoute where
  entry : Option IPRouteEntry
  prefixLen : UInt8
  metric : UInt16

/-- The body of the scan. -/
def lookupStep (dst : UInt32) (best : BestRoute) (e : IPRouteEntry) : BestRoute :=
  if e.active = false then best
  else
    let mask := ipPrefixToMask e.prefixLen
    if dst &&& mask = e.network &&& mask then
      if e.prefixLen > best.prefixLen ∨ (e.prefixLen = best.prefixLen ∧ e.metric < best.metric) then
        ⟨some e, e.prefixLen, e.metric⟩
      else best
    else best

/-- The entry that is copied to the result; none for the return value -2. -/
def ipRoutingLookup (rt : IPRoutingTable) (dst : UInt32) : Option IPRouteEntry :=
  match (rt.entries.foldl (lookupStep dst) ⟨none, 0, IP_ROUTE_METRIC_MAX⟩).entry with
  | some e => some e
  | none => if rt.hasDefault then rt.entries.find? fun e => e.active ∧ e.prefixLen = 0 else none

def comparePrefix (ea eb : IPRouteEntry) : Int :=
  if ea.prefixLen > eb.prefixLen then -1
  else if ea.prefixLen < eb.prefixLen then 1
  else if ea.metric < eb.metric then -1
  else if ea.metric > eb.metric then 1
  else 0

/-- What the library's sort promises for the comparison. -/
structure Sorts (qsort : List IPRouteEntry → List IPRouteEntry) : Prop where
  permutes : ∀ entries, (qsort entries).Perm entries
  sorted : ∀ entries, (qsort entries).Pairwise fun ea eb => comparePrefix ea eb ≤ 0

def ipRoutingSortByPrefix (qsort : List IPRouteEntry → List IPRouteEntry) (rt : IPRoutingTable) : IPRoutingTable :=
  if rt.entries.length < 2 then rt else { rt with entries := qsort rt.entries }

inductive RoutingCall where
  | add (network : UInt32) (prefixLen : UInt8) (nexthop iface : UInt32) (metric : UInt16)
  | remove (network : UInt32) (prefixLen : UInt8)
  | setDefault (gateway : UInt32)
  | sortByPrefix
  deriving DecidableEq, Repr

def routingCall (qsort : List IPRouteEntry → List IPRouteEntry) (rt : IPRoutingTable) : RoutingCall → IPRoutingTable
  | .add network prefixLen nexthop iface metric => (ipRoutingAdd rt network prefixLen nexthop iface metric).1
  | .remove network prefixLen => (ipRoutingRemove rt network prefixLen).1
  | .setDefault gateway => ipRoutingSetDefault rt gateway
  | .sortByPrefix => ipRoutingSortByPrefix qsort rt

def routingTable (qsort : List IPRouteEntry → List IPRouteEntry) (calls : List RoutingCall) : IPRoutingTable :=
  calls.foldl (routingCall qsort) ipRoutingTableInit

/-- An entry as a route between numbers. -/
def IPRouteEntry.route (e : IPRouteEntry) : Route UInt32 := ⟨e.network.toNat, e.prefixLen.toNat, e.nexthop⟩

/-- The address begins as the network does for the length of the prefix. -/
def IPRouteEntry.Covers (e : IPRouteEntry) (dst : UInt32) : Prop :=
  dst.toNat / 2 ^ (32 - e.prefixLen.toNat) = e.network.toNat / 2 ^ (32 - e.prefixLen.toNat)

section Masks

theorem toNat_ipPrefixToMask_fin (length : Fin 33) :
    (ipPrefixToMask (UInt8.ofNat length)).toNat = (2 ^ length.val - 1) * 2 ^ (32 - length.val) := by
  decide +revert

theorem toNat_ipPrefixToMask {prefixLen : UInt8} (short : prefixLen ≤ 32) :
    (ipPrefixToMask prefixLen).toNat = (2 ^ prefixLen.toNat - 1) * 2 ^ (32 - prefixLen.toNat) := by
  have below : prefixLen.toNat < 33 := Nat.lt_succ_of_le (UInt8.le_iff_toNat_le.mp short)
  have mask := toNat_ipPrefixToMask_fin ⟨prefixLen.toNat, below⟩
  simpa using mask

/-- A mask clears the bits behind the prefix. -/
theorem and_mask (x : Nat) {low high : Nat} (below : x < 2 ^ (high + low)) :
    x &&& (2 ^ high - 1) * 2 ^ low = x / 2 ^ low * 2 ^ low := by
  apply Nat.eq_of_testBit_eq
  intro i
  rw [Nat.testBit_and, Nat.testBit_mul_two_pow, Nat.testBit_mul_two_pow, Nat.testBit_two_pow_sub_one,
    Nat.testBit_div_two_pow]
  by_cases kept : low ≤ i
  · have position : i - low + low = i := Nat.sub_add_cancel kept
    by_cases inside : i - low < high
    · simp [kept, inside, position]
    · have zero : x.testBit i = false :=
        Nat.testBit_lt_two_pow (Nat.lt_of_lt_of_le below (Nat.pow_le_pow_right Nat.two_pos (by omega)))
      simp [zero, position]
  · simp [kept]

theorem toNat_and_mask (x : UInt32) {prefixLen : UInt8} (short : prefixLen ≤ 32) :
    (x &&& ipPrefixToMask prefixLen).toNat =
      x.toNat / 2 ^ (32 - prefixLen.toNat) * 2 ^ (32 - prefixLen.toNat) := by
  have most : prefixLen.toNat ≤ 32 := UInt8.le_iff_toNat_le.mp short
  rw [UInt32.toNat_and, toNat_ipPrefixToMask short]
  apply and_mask
  rw [Nat.add_sub_cancel' most]
  exact x.toNat_lt

/-- The comparison of the masked addresses asks whether the network covers the address. -/
theorem masked_eq_iff {e : IPRouteEntry} (short : e.prefixLen ≤ 32) (dst : UInt32) :
    dst &&& ipPrefixToMask e.prefixLen = e.network &&& ipPrefixToMask e.prefixLen ↔ e.Covers dst := by
  rw [← UInt32.toNat_inj, toNat_and_mask dst short, toNat_and_mask e.network short]
  exact Nat.mul_left_inj (Nat.ne_of_gt (Nat.two_pow_pos _))

end Masks

section Invariant

/-- Every entry of a table is in use, has a prefix that fits, and a default route is known as such. -/
structure Standing (rt : IPRoutingTable) : Prop where
  active : ∀ e ∈ rt.entries, e.active = true
  short : ∀ e ∈ rt.entries, e.prefixLen ≤ 32
  default : ∀ e ∈ rt.entries, e.prefixLen = 0 → rt.hasDefault = true

/-- All the lookup needs of a table: a default route of the largest metric is found by the flag only. -/
structure Visible (rt : IPRoutingTable) : Prop where
  active : ∀ e ∈ rt.entries, e.active = true
  short : ∀ e ∈ rt.entries, e.prefixLen ≤ 32
  visible : ∀ e ∈ rt.entries, e.prefixLen = 0 → rt.hasDefault = true ∨ e.metric < IP_ROUTE_METRIC_MAX

variable {rt : IPRoutingTable}

theorem Standing.visible (standing : Standing rt) : Visible rt :=
  ⟨standing.active, standing.short, fun e inside zero => .inl (standing.default e inside zero)⟩

theorem standing_init : Standing ipRoutingTableInit := ⟨by simp [ipRoutingTableInit], by simp [ipRoutingTableInit],
  by simp [ipRoutingTableInit]⟩

/-- Entries of a table, in any order, are a table. -/
theorem Standing.subset (standing : Standing rt) {entries : List IPRouteEntry} (inside : entries ⊆ rt.entries) :
    Standing { rt with entries := entries } where
  active e here := standing.active e (inside here)
  short e here := standing.short e (inside here)
  default e here := standing.default e (inside here)

/-- An entry in use can be added, a default route together with the flag. -/
theorem Standing.push (standing : Standing rt) {e : IPRouteEntry} {gateway : UInt32} {flag : Bool}
    (active : e.active = true) (short : e.prefixLen ≤ 32) (flagged : e.prefixLen = 0 → flag = true)
    (more : rt.hasDefault = true → flag = true) : Standing ⟨rt.entries ++ [e], gateway, flag⟩ := by
  refine ⟨fun other present => ?_, fun other present => ?_, fun other present zero => ?_⟩ <;>
    rcases List.mem_append.mp present with old | new
  · exact standing.active other old
  · rw [List.mem_singleton.mp new, active]
  · exact standing.short other old
  · rw [List.mem_singleton.mp new]
    exact short
  · exact more (standing.default other old zero)
  · exact flagged (List.mem_singleton.mp new ▸ zero)

theorem Standing.add (standing : Standing rt) (network : UInt32) (prefixLen : UInt8) (nexthop iface : UInt32)
    (metric : UInt16) : Standing (ipRoutingAdd rt network prefixLen nexthop iface metric).1 := by
  unfold ipRoutingAdd
  split_ifs with full large known
  · exact standing
  · exact standing
  · -- the entry that is there keeps its key
    have kept : ∀ e ∈ Table.update IPRouteEntry.addKey rt.entries (network, prefixLen, true) (fun e =>
        { e with nexthop := nexthop, interfaceAddr := iface, metric := metric, age := 0 }),
        ∃ old ∈ rt.entries, e.active = old.active ∧ e.prefixLen = old.prefixLen := by
      intro e present
      rcases Table.mem_update_cases present with old | ⟨old, inside, rfl⟩
      · exact ⟨e, old, rfl, rfl⟩
      · exact ⟨old, inside, rfl, rfl⟩
    refine ⟨fun e present => ?_, fun e present => ?_, fun e present zero => ?_⟩ <;>
      obtain ⟨old, inside, active, length⟩ := kept e present
    · exact active.trans (standing.active old inside)
    · exact length ▸ standing.short old inside
    · exact standing.default old inside (length ▸ zero)
  · exact standing.push rfl (UInt8.not_lt.mp large) (fun _ => rfl) fun _ => rfl
  · rename_i positive
    exact standing.push rfl (UInt8.not_lt.mp large) (fun zero => absurd zero positive) id

theorem Standing.call {qsort : List IPRouteEntry → List IPRouteEntry} (sorts : Sorts qsort) (standing : Standing rt)
    (call : RoutingCall) : Standing (routingCall qsort rt call) := by
  cases call with
  | add network prefixLen nexthop iface metric => exact standing.add network prefixLen nexthop iface metric
  | remove network prefixLen =>
    change Standing (ipRoutingRemove rt network prefixLen).1
    unfold ipRoutingRemove
    split_ifs
    · exact standing.subset List.eraseP_subset
    · exact standing
  | setDefault gateway => exact standing.add 0 0 gateway 0 1
  | sortByPrefix =>
    change Standing (ipRoutingSortByPrefix qsort rt)
    unfold ipRoutingSortByPrefix
    split_ifs
    · exact standing
    · exact standing.subset (sorts.permutes rt.entries).subset

theorem standing_routingTable {qsort : List IPRouteEntry → List IPRouteEntry} (sorts : Sorts qsort)
    (calls : List RoutingCall) : Standing (routingTable qsort calls) :=
  List.foldlRecOn calls (routingCall qsort) standing_init fun _ standing call _ => standing.call sorts call

end Invariant

section Lookup

/-- The smaller, the better: a longer prefix, then a smaller metric. -/
def IPRouteEntry.rank (e : IPRouteEntry) : Int := e.metric.toNat - 65536 * e.prefixLen.toNat

instance (e : IPRouteEntry) (dst : UInt32) : Decidable (e.Covers dst) := inferInstanceAs (Decidable (_ = _))

variable {rt : IPRoutingTable} {dst : UInt32} {e other : IPRouteEntry}

theorem rank_lt_iff (e : IPRouteEntry) (prefixLen : UInt8) (metric : UInt16) :
    (e.prefixLen > prefixLen ∨ (e.prefixLen = prefixLen ∧ e.metric < metric)) ↔
      e.rank < metric.toNat - 65536 * prefixLen.toNat := by
  have first : e.metric.toNat < 65536 := e.metric.toNat_lt
  have second : metric.toNat < 65536 := metric.toNat_lt
  rw [gt_iff_lt, UInt8.lt_iff_toNat_lt, UInt16.lt_iff_toNat_lt, ← UInt8.toNat_inj, IPRouteEntry.rank]
  omega

/-- What the scan keeps is the entry of the best rank among those that cover the address. -/
theorem scan_eq_nearest (active : ∀ e ∈ rt.entries, e.active = true) (short : ∀ e ∈ rt.entries, e.prefixLen ≤ 32)
    (dst : UInt32) :
    (rt.entries.foldl (lookupStep dst) ⟨none, 0, IP_ROUTE_METRIC_MAX⟩).entry =
      Nearest.nearest IPRouteEntry.rank 65535 (rt.entries.filter (·.Covers dst)) := by
  have folds : ∀ (entries : List IPRouteEntry) (best : BestRoute), (∀ e ∈ entries, e.active = true) →
      (∀ e ∈ entries, e.prefixLen ≤ 32) → (entries.foldl (lookupStep dst) best).entry =
        ((entries.filter (·.Covers dst)).foldl (Nearest.nearer IPRouteEntry.rank)
          (best.entry, (best.metric.toNat : Int) - 65536 * best.prefixLen.toNat)).1 := by
    intro entries
    induction entries with
    | nil => exact fun _ _ _ => rfl
    | cons e rest ih =>
      intro best active short
      have next := ih (lookupStep dst best e) (fun other later => active other (List.mem_cons_of_mem _ later))
        fun other later => short other (List.mem_cons_of_mem _ later)
      have masked := masked_eq_iff (short e List.mem_cons_self) dst
      have used := active e List.mem_cons_self
      rw [List.foldl_cons, next, List.filter_cons]
      by_cases covers : e.Covers dst
      · by_cases better : e.prefixLen > best.prefixLen ∨ (e.prefixLen = best.prefixLen ∧ e.metric < best.metric)
        · have nearer := (rank_lt_iff e best.prefixLen best.metric).mp better
          have taken : lookupStep dst best e = ⟨some e, e.prefixLen, e.metric⟩ := by
            simp [lookupStep, used, masked, covers, better]
          have near : Nearest.nearer IPRouteEntry.rank
              (best.entry, (best.metric.toNat : Int) - 65536 * best.prefixLen.toNat) e = (some e, e.rank) :=
            if_pos nearer
          rw [if_pos (decide_eq_true covers), List.foldl_cons, near, taken]
          rfl
        · have farther := mt (rank_lt_iff e best.prefixLen best.metric).mpr better
          simp [lookupStep, used, masked, covers, better, Nearest.nearer, farther]
      · simp [lookupStep, used, masked, covers]
  exact folds rt.entries _ active short

/-- The lookup by its two parts: the scan, and the first default route where the scan finds nothing. -/
theorem ipRoutingLookup_eq (visible : Visible rt) (dst : UInt32) :
    ipRoutingLookup rt dst = (Nearest.nearest IPRouteEntry.rank 65535 (rt.entries.filter (·.Covers dst))).or
      (if rt.hasDefault then rt.entries.find? fun e => e.active ∧ e.prefixLen = 0 else none) := by
  unfold ipRoutingLookup
  rw [scan_eq_nearest visible.active visible.short dst]
  cases Nearest.nearest IPRouteEntry.rank 65535 (rt.entries.filter (·.Covers dst)) <;> rfl

theorem covers_of_zero (zero : e.prefixLen = 0) (dst : UInt32) : e.Covers dst := by
  have low : dst.toNat < 2 ^ 32 := dst.toNat_lt
  have low' : e.network.toNat < 2 ^ 32 := e.network.toNat_lt
  unfold IPRouteEntry.Covers
  rw [zero]
  exact (Nat.div_eq_of_lt low).trans (Nat.div_eq_of_lt low').symm

/-- The scan leaves out default routes of the largest metric only. -/
theorem zero_of_rank (far : 65535 ≤ e.rank) : e.prefixLen = 0 ∧ ¬ e.metric < IP_ROUTE_METRIC_MAX := by
  have below : e.metric.toNat < 65536 := e.metric.toNat_lt
  unfold IPRouteEntry.rank at far
  rw [← UInt8.toNat_inj, UInt16.lt_iff_toNat_lt, show (0 : UInt8).toNat = 0 from rfl,
    show IP_ROUTE_METRIC_MAX.toNat = 65535 from rfl]
  omega

theorem le_of_scan_none (none : Nearest.nearest IPRouteEntry.rank 65535 (rt.entries.filter (·.Covers dst)) = none)
    (inside : e ∈ rt.entries) (covers : e.Covers dst) : 65535 ≤ e.rank :=
  Nearest.nearest_eq_none_iff.mp none e (List.mem_filter.mpr ⟨inside, decide_eq_true covers⟩)

theorem lookup_eq_none_iff (visible : Visible rt) :
    ipRoutingLookup rt dst = none ↔ ∀ e ∈ rt.entries, ¬ e.Covers dst := by
  rw [ipRoutingLookup_eq visible, Option.or_eq_none_iff]
  constructor
  · rintro ⟨scanned, fallback⟩ e inside covers
    obtain ⟨zero, largest⟩ := zero_of_rank (le_of_scan_none scanned inside covers)
    rw [if_pos ((visible.visible e inside zero).resolve_right largest), List.find?_eq_none] at fallback
    exact fallback e inside (by simp [visible.active e inside, zero])
  · intro uncovered
    refine ⟨Nearest.nearest_eq_none_iff.mpr fun e inside => ?_, ?_⟩
    · obtain ⟨inside, covers⟩ := List.mem_filter.mp inside
      exact absurd (of_decide_eq_true covers) (uncovered e inside)
    · split_ifs
      · refine List.find?_eq_none.mpr fun e inside found => ?_
        have zero : e.active = true ∧ e.prefixLen = 0 := by simpa using found
        exact uncovered e inside (covers_of_zero zero.2 dst)
      · rfl

/-- The entry that is found covers the address, and no other that does has a better rank. -/
theorem lookup_best (visible : Visible rt) (found : ipRoutingLookup rt dst = some e) :
    e ∈ rt.entries ∧ e.Covers dst ∧ ∀ other ∈ rt.entries, other.Covers dst → e.rank ≤ other.rank := by
  rw [ipRoutingLookup_eq visible, Option.or_eq_some_iff] at found
  rcases found with scanned | ⟨missed, fallback⟩
  · obtain ⟨inside, covers⟩ := List.mem_filter.mp (Nearest.nearest_mem scanned)
    refine ⟨inside, of_decide_eq_true covers, fun other inside' covers' => ?_⟩
    exact Nearest.nearest_le scanned (List.mem_filter.mpr ⟨inside', decide_eq_true covers'⟩)
  · split_ifs at fallback
    have inside := List.mem_of_find?_eq_some fallback
    have zero : e.active = true ∧ e.prefixLen = 0 := by simpa using List.find?_some fallback
    have below : e.metric.toNat < 65536 := e.metric.toNat_lt
    refine ⟨inside, covers_of_zero zero.2 dst, fun other inside' covers => ?_⟩
    have far := le_of_scan_none missed inside' covers
    refine Int.le_trans ?_ far
    unfold IPRouteEntry.rank
    omega

theorem prefixLen_le_of_rank (better : e.rank ≤ other.rank) : other.prefixLen ≤ e.prefixLen := by
  have below : e.metric.toNat < 65536 := e.metric.toNat_lt
  have below' : other.metric.toNat < 65536 := other.metric.toNat_lt
  unfold IPRouteEntry.rank at better
  rw [UInt8.le_iff_toNat_le]
  omega

/-- The sort goes by the rank as well. -/
theorem comparePrefix_le_iff : comparePrefix e other ≤ 0 ↔ e.rank ≤ other.rank := by
  have below : e.metric.toNat < 65536 := e.metric.toNat_lt
  have below' : other.metric.toNat < 65536 := other.metric.toNat_lt
  unfold comparePrefix IPRouteEntry.rank
  simp only [gt_iff_lt, UInt8.lt_iff_toNat_lt, UInt16.lt_iff_toNat_lt]
  split_ifs <;> omega

/-- A sort that keeps the promises. -/
def insertionSort : List IPRouteEntry → List IPRouteEntry := List.insertionSort fun ea eb => comparePrefix ea eb ≤ 0

theorem sorts_insertionSort : Sorts insertionSort where
  permutes entries := List.perm_insertionSort _ entries
  sorted entries := by
    have total : Std.Total fun ea eb => comparePrefix ea eb ≤ 0 := by
      refine ⟨fun ea eb => ?_⟩
      rw [comparePrefix_le_iff, comparePrefix_le_iff]
      exact Int.le_total _ _
    have trans : IsTrans IPRouteEntry fun ea eb => comparePrefix ea eb ≤ 0 := by
      refine ⟨fun ea eb ec first second => ?_⟩
      rw [comparePrefix_le_iff] at first second ⊢
      exact Int.le_trans first second
    exact List.pairwise_insertionSort _ entries

/-- In every table, the lookup succeeds where an entry covers the address, with one of those of the longest prefix that
has the smallest metric. -/
theorem ipRoutingLookup_longest (qsort : List IPRouteEntry → List IPRouteEntry) (sorts : Sorts qsort)
    (calls : List RoutingCall) (dst : UInt32) :
    ((ipRoutingLookup (routingTable qsort calls) dst).isSome ↔
      ∃ e ∈ (routingTable qsort calls).entries, e.Covers dst) ∧
    ∀ result, ipRoutingLookup (routingTable qsort calls) dst = some result →
      result ∈ (routingTable qsort calls).entries ∧ result.Covers dst ∧
      (∀ e ∈ (routingTable qsort calls).entries, e.Covers dst → e.prefixLen ≤ result.prefixLen) ∧
      ∀ e ∈ (routingTable qsort calls).entries, e.Covers dst → e.prefixLen = result.prefixLen →
        result.metric ≤ e.metric := by
  have visible := (standing_routingTable sorts calls).visible
  constructor
  · rw [← not_iff_not, Option.not_isSome_iff_eq_none, lookup_eq_none_iff visible]
    simp only [not_exists, not_and]
  · intro result found
    obtain ⟨inside, covers, best⟩ := lookup_best visible found
    refine ⟨inside, covers, fun e inside' covers' => prefixLen_le_of_rank (best e inside' covers'), ?_⟩
    intro e inside' covers' same
    have better := best e inside' covers'
    unfold IPRouteEntry.rank at better
    rw [same] at better
    rw [UInt16.le_iff_toNat_le]
    omega

/-- The default route, one to 192.168.0.0/16, and two to 192.168.1.0/24 of which the second has the smaller metric. -/
def competing : List RoutingCall :=
  [.add 0 0 7 0 IP_ROUTE_METRIC_MAX, .add 0xC0A80000 16 8 0 1, .add 0xC0A80100 24 9 0 20, .add 0xC0A801FF 24 10 0 5,
    .sortByPrefix]

/-- The cheaper of the two with the longest prefix. -/
def smaller : IPRouteEntry := ⟨0xC0A801FF, 24, 10, 0, 5, 1, true, 0⟩

theorem ipRoutingLookup_longest_competing : ∃ result,
    ipRoutingLookup (routingTable insertionSort competing) 0xC0A80164 = some result ∧ result.nexthop = 10 := by
  obtain ⟨covered, best⟩ := ipRoutingLookup_longest insertionSort sorts_insertionSort competing 0xC0A80164
  have inside : smaller ∈ (routingTable insertionSort competing).entries := by decide
  have covers : smaller.Covers 0xC0A80164 := by
    unfold IPRouteEntry.Covers
    decide
  obtain ⟨result, found⟩ := Option.isSome_iff_exists.mp (covered.mpr ⟨smaller, inside, covers⟩)
  obtain ⟨held, -, longest, cheapest⟩ := best result found
  have enough : smaller.prefixLen ≤ result.prefixLen := longest smaller inside covers
  refine ⟨result, found, ?_⟩
  have only : ∀ e ∈ (routingTable insertionSort competing).entries, smaller.prefixLen ≤ e.prefixLen →
      (smaller.prefixLen = e.prefixLen → e.metric ≤ smaller.metric) → e.nexthop = 10 := by decide
  exact only result held enough (cheapest smaller inside covers)

end Lookup

end MiniNetDist.NetworkBase.IpRouting
