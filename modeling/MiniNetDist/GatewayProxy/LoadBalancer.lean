import MiniNetDist.Library.Bisect
import MiniNetDist.Library.Decimal
import Mathlib.Data.List.Sort
import Mathlib.Algebra.Ring.Nat

/-! The load balancer of `mini-gateway-proxy/src/load_balancer.c`. A step that C leaves undefined, an overflow of an
`int` or a read outside an array, has no result. -/

namespace MiniNetDist.GatewayProxy.Lb

open Library Library.Bisect

def LB_MAX_SERVERS : Nat := 32
def LB_VIRTUAL_NODES : Nat := 150
def LB_ADDR_SIZE : Nat := 256

inductive LBAlgorithm where
  | roundRobin
  | weightedRoundRobin
  | leastConnections
  | consistentHash
  | random
  deriving DecidableEq, Repr

structure LBServer where
  address : CString
  port : Int
  weight : Int
  effectiveWeight : Int
  currentWeight : Int
  activeConnections : Int
  healthy : Bool
  deriving DecidableEq, Repr

structure LBVirtualNode where
  hash : UInt32
  serverIndex : Nat
  deriving DecidableEq, Repr

/-- The servers and the ring are the parts of the arrays that are in use. -/
structure LoadBalancer where
  servers : List LBServer
  algorithm : LBAlgorithm
  rrIndex : Nat
  ring : List LBVirtualNode
  deriving DecidableEq, Repr

def lbInit (algo : LBAlgorithm) : LoadBalancer := ⟨[], algo, 0, []⟩

def INT_MAX : Int := 2147483647

/-- A value of type `int`. -/
def IsInt (value : Int) : Prop := -2147483648 ≤ value ∧ value ≤ INT_MAX

instance (value : Int) : Decidable (IsInt value) := inferInstanceAs (Decidable (_ ∧ _))

/-- The result of an operation on `int`. -/
def int (value : Int) : Option Int := if IsInt value then some value else none

section Servers

/-- FNV-1a. -/
def lbHashKey (key : CString) : UInt32 := key.foldl (fun hash byte => (hash ^^^ byte.toUInt32) * 16777619) 2166136261

def vnodeKey (address : CString) (v : Nat) : CString :=
  strncpy (address ++ ascii "#" ++ Decimal.formatD v) (320 - 1)

/-- The sorted insert: behind the nodes with a smaller hash. -/
def insertVnode (address : CString) (i : Nat) (ring : List LBVirtualNode) (v : Nat) : List LBVirtualNode :=
  ring.orderedInsert (fun new old => new.hash ≤ old.hash) ⟨lbHashKey (vnodeKey address v), i⟩

/-- The loops of `lb_build_ring`, over the addresses of the servers. -/
def ringOf (addresses : List CString) : List LBVirtualNode :=
  addresses.zipIdx.foldl
    (fun ring server => (List.range LB_VIRTUAL_NODES).foldl (insertVnode server.1 server.2) ring) []

def lbBuildRing (lb : LoadBalancer) : LoadBalancer := { lb with ring := ringOf (lb.servers.map (·.address)) }

/-- The ring is built again where it is used. -/
def lbRebuild (lb : LoadBalancer) : LoadBalancer :=
  if lb.algorithm = .consistentHash then lbBuildRing lb else lb

def fullAddress (addr : CString) (port : Int) : CString :=
  strncpy (addr ++ ascii ":" ++ Decimal.formatD port) (LB_ADDR_SIZE - 1)

def newServer (addr : CString) (port weight : Int) : LBServer :=
  let weight := if weight ≤ 0 then 1 else weight
  ⟨fullAddress addr port, port, weight, weight, 0, 0, true⟩

def lbAddServer (lb : LoadBalancer) (addr : CString) (port weight : Int) : LoadBalancer × Int :=
  if lb.servers.length ≥ LB_MAX_SERVERS then (lb, -1)
  else (lbRebuild { lb with servers := lb.servers ++ [newServer addr port weight] }, lb.servers.length)

def lbRemoveServer (lb : LoadBalancer) (addr : CString) (port : Int) : LoadBalancer × Int :=
  match lb.servers.findIdx? (·.address = fullAddress addr port) with
  | some i => (lbRebuild { lb with servers := lb.servers.eraseIdx i }, 0)
  | none => (lb, -1)

def lbHealthPing (lb : LoadBalancer) (index : Int) (alive : Bool) : LoadBalancer :=
  if index < 0 ∨ index ≥ lb.servers.length then lb
  else
    let prev := lb.servers[index.toNat]?.map (·.healthy)
    let lb := { lb with servers := lb.servers.modify index.toNat fun s => { s with healthy := alive } }
    if prev ≠ some alive then lbRebuild lb else lb

/-- What a health check makes of a server. -/
def LBServer.checked (s : LBServer) : LBServer :=
  let healthy := decide (s.activeConnections < 100)
  { s with
    healthy := healthy
    currentWeight := if s.healthy && !healthy then 0 else s.currentWeight
    effectiveWeight := if !s.healthy && healthy then s.weight else s.effectiveWeight }

/-- One round of the loop of `lb_health_check`. -/
def lbHealthCheckAt (lb : LoadBalancer) (i : Nat) : LoadBalancer :=
  match lb.servers[i]? with
  | none => lb
  | some s =>
    let lb := { lb with servers := lb.servers.modify i LBServer.checked }
    if s.healthy && !s.checked.healthy then lbRebuild lb else lb

def lbHealthCheck (lb : LoadBalancer) : LoadBalancer := (List.range lb.servers.length).foldl lbHealthCheckAt lb

end Servers

section Selection

/-- The loop of `lb_select_round_robin`, with the tries that are left. -/
def roundRobinTry : Nat → LoadBalancer → Option (LoadBalancer × Int)
  | 0, lb => some (lb, -1)
  | tries + 1, lb => do
    let idx := lb.rrIndex % lb.servers.length
    let rrIndex ← int (lb.rrIndex + 1)
    let lb := { lb with rrIndex := rrIndex.toNat }
    let s ← lb.servers[idx]?
    if s.healthy then some (lb, idx) else roundRobinTry tries lb

def lbSelectRoundRobin (lb : LoadBalancer) : Option (LoadBalancer × Int) := roundRobinTry lb.servers.length lb

/-- The index and the value of the best so far, -1 at first, after a look at the value at the position `i`. -/
def takeBest (prefers : Int → Int → Bool) (best : Int × Int) (i : Nat) (value : Int) : Int × Int :=
  if best.1 < 0 ∨ prefers value best.2 then (i, value) else best

/-- The servers passed by the loop of `lb_select_weighted_rr`, their total weight, and the best of them. -/
structure SwrrScan where
  servers : List LBServer
  totalWeight : Int
  best : Int × Int

def swrrRound (scan : SwrrScan) (s : LBServer) : Option SwrrScan :=
  if s.healthy then do
    let currentWeight ← int (s.currentWeight + s.effectiveWeight)
    let totalWeight ← int (scan.totalWeight + s.effectiveWeight)
    let best := takeBest (fun value bestWeight => value > bestWeight) scan.best scan.servers.length currentWeight
    some ⟨scan.servers ++ [{ s with currentWeight := currentWeight }], totalWeight, best⟩
  else some { scan with servers := scan.servers ++ [s] }

def lbSelectWeightedRr (lb : LoadBalancer) : Option (LoadBalancer × Int) := do
  let scan ← lb.servers.foldlM swrrRound ⟨[], 0, (-1, -1)⟩
  if scan.best.1 ≥ 0 then
    let s ← scan.servers[scan.best.1.toNat]?
    let currentWeight ← int (s.currentWeight - scan.totalWeight)
    let servers := scan.servers.set scan.best.1.toNat { s with currentWeight := currentWeight }
    some ({ lb with servers := servers }, scan.best.1)
  else some ({ lb with servers := scan.servers }, scan.best.1)

def leastConnRound (best : Int × Int) (server : LBServer × Nat) : Int × Int :=
  if server.1.healthy then
    takeBest (fun value minConn => value < minConn) best server.2 server.1.activeConnections
  else best

def lbSelectLeastConn (lb : LoadBalancer) : Int := (lb.servers.zipIdx.foldl leastConnRound (-1, -1)).1

def lbSelectConsistentHash (lb : LoadBalancer) (key : CString) : Option (LoadBalancer × Int) :=
  if lb.ring.length = 0 then lbSelectRoundRobin lb
  else do
    let h := lbHashKey key
    let (lo, idx) ← bisect (fun node => node.hash ≥ h) lb.ring 0 (lb.ring.length - 1) 0
    let idx := if lo ≥ lb.ring.length then 0 else idx
    let node ← lb.ring[idx.toNat]?
    some (lb, node.serverIndex)

/-- The number is the one that `rand` returns. -/
def lbSelectRandom (lb : LoadBalancer) (rand : Nat) : Option Int :=
  let healthyIndices := (List.range lb.servers.length).filter fun i => lb.servers[i]?.any (·.healthy)
  if healthyIndices.length = 0 then some (-1) else (healthyIndices[rand % healthyIndices.length]?).map Int.ofNat

def lbSelectServer (lb : LoadBalancer) (key : Option CString) (rand : Nat) : Option (LoadBalancer × Int) :=
  if lb.servers.length = 0 then some (lb, -1)
  else
    match lb.algorithm with
    | .roundRobin => lbSelectRoundRobin lb
    | .weightedRoundRobin => lbSelectWeightedRr lb
    | .leastConnections => some (lb, lbSelectLeastConn lb)
    | .consistentHash => lbSelectConsistentHash lb (key.getD (ascii "default"))
    | .random => (lbSelectRandom lb rand).map (lb, ·)

end Selection

section Best

variable {prefers : Int → Int → Bool} {value : LBServer → Int} {servers : List LBServer} {best : Int × Int}
  {s : LBServer}

/-- What the loops that look for the best healthy server know of those they have passed. -/
inductive BestAmong (prefers : Int → Int → Bool) (value : LBServer → Int) (servers : List LBServer) (best : Int × Int) :
    Prop where
  | nobody (unhealthy : ∀ s ∈ servers, s.healthy = false) (start : best.1 = -1)
  | chosen (i : Nat) (s : LBServer) (there : servers[i]? = some s) (healthy : s.healthy = true)
      (found : best = ((i : Int), value s))
      (first : ∀ other ∈ servers, other.healthy = true → prefers (value other) (value s) = false)

theorem BestAmong.skip (among : BestAmong prefers value servers best) (unhealthy : s.healthy = false) :
    BestAmong prefers value (servers ++ [s]) best := by
  cases among with
  | nobody others start =>
    refine .nobody (fun other member => ?_) start
    rcases List.mem_append.mp member with old | new
    · exact others other old
    · rwa [List.mem_singleton.mp new]
  | chosen i picked there healthy found first =>
    have inside := (List.getElem?_eq_some_iff.mp there).1
    refine .chosen i picked (by rwa [List.getElem?_append_left inside]) healthy found fun other member up => ?_
    rcases List.mem_append.mp member with old | new
    · exact first other old up
    · rw [List.mem_singleton.mp new, unhealthy] at up
      cases up

theorem BestAmong.take (among : BestAmong prefers value servers best) (healthy : s.healthy = true)
    (irrefl : ∀ a, prefers a a = false)
    (weak : ∀ a b c, prefers a b = true → prefers c b = false → prefers c a = false) :
    BestAmong prefers value (servers ++ [s]) (takeBest prefers best servers.length (value s)) := by
  have last : (servers ++ [s])[servers.length]? = some s := by simp
  unfold takeBest
  cases among with
  | nobody others start =>
    rw [if_pos (.inl (by omega))]
    refine .chosen servers.length s last healthy rfl fun other member up => ?_
    rcases List.mem_append.mp member with old | new
    · rw [others other old] at up
      cases up
    · rw [List.mem_singleton.mp new]
      exact irrefl _
  | chosen i picked there up found first =>
    obtain rfl := found
    have inside := (List.getElem?_eq_some_iff.mp there).1
    by_cases better : prefers (value s) (value picked) = true
    · rw [if_pos (.inr better)]
      refine .chosen servers.length s last healthy rfl fun other member up => ?_
      rcases List.mem_append.mp member with old | new
      · exact weak _ _ _ better (first other old up)
      · rw [List.mem_singleton.mp new]
        exact irrefl _
    · rw [if_neg (by simpa using better)]
      refine .chosen i picked (by rwa [List.getElem?_append_left inside]) up rfl fun other member up => ?_
      rcases List.mem_append.mp member with old | new
      · exact first other old up
      · rw [List.mem_singleton.mp new]
        simpa using better

end Best

section Run

/-- The calls of a run. Beside those of the interface, the caller writes the numbers of connections itself. -/
inductive LBCall where
  | addServer (addr : CString) (port weight : Int)
  | removeServer (addr : CString) (port : Int)
  | healthPing (index : Int) (alive : Bool)
  | healthCheck
  | setConnections (index : Nat) (activeConnections : Int)
  | selectServer (key : Option CString) (rand : Nat)
  deriving DecidableEq, Repr

def lbCall (lb : LoadBalancer) : LBCall → Option LoadBalancer
  | .addServer addr port weight => some (lbAddServer lb addr port weight).1
  | .removeServer addr port => some (lbRemoveServer lb addr port).1
  | .healthPing index alive => some (lbHealthPing lb index alive)
  | .healthCheck => some (lbHealthCheck lb)
  | .setConnections index activeConnections =>
    some { lb with servers := lb.servers.modify index fun s => { s with activeConnections := activeConnections } }
  | .selectServer key rand => (lbSelectServer lb key rand).map (·.1)

/-- A step of a run, which is over once a call is undefined. -/
def lbStep (state : Option LoadBalancer) (call : LBCall) : Option LoadBalancer := state.bind (lbCall · call)

end Run

section Ring

variable {addresses : List CString} {ring : List LBVirtualNode}

/-- The nodes stand in the order of their hashes and name the first `n` servers. -/
structure RingFor (n : Nat) (ring : List LBVirtualNode) : Prop where
  sorted : ring.Pairwise fun first second => first.hash ≤ second.hash
  inside : ∀ node ∈ ring, node.serverIndex < n

theorem RingFor.insert {n i : Nat} (ringFor : RingFor n ring) (bound : i < n) (address : CString) (v : Nat) :
    RingFor n (insertVnode address i ring v) where
  sorted := by
    have total : Std.Total fun new old : LBVirtualNode => new.hash ≤ old.hash := ⟨fun _ _ => UInt32.le_total _ _⟩
    have trans : IsTrans LBVirtualNode fun new old => new.hash ≤ old.hash := ⟨fun _ _ _ => UInt32.le_trans⟩
    exact ringFor.sorted.orderedInsert _ _
  inside := by
    intro node member
    rcases (List.mem_orderedInsert _).mp member with rfl | old
    · exact bound
    · exact ringFor.inside node old

/-- All virtual nodes of a server. -/
theorem RingFor.insertAll {n i : Nat} (ringFor : RingFor n ring) (bound : i < n) (address : CString)
    (vnodes : List Nat) :
    RingFor n (vnodes.foldl (insertVnode address i) ring) ∧
      (vnodes.foldl (insertVnode address i) ring).length = ring.length + vnodes.length := by
  induction vnodes generalizing ring with
  | nil => exact ⟨ringFor, rfl⟩
  | cons v rest ih =>
    obtain ⟨kept, length⟩ := ih (ringFor.insert bound address v)
    refine ⟨kept, ?_⟩
    rw [List.foldl_cons, length, insertVnode, List.orderedInsert_length, List.length_cons]
    omega

/-- The virtual nodes of all servers. -/
theorem RingFor.insertServers {n : Nat} (vnodes : List Nat) (servers : List (CString × Nat))
    (bound : ∀ server ∈ servers, server.2 < n) (ringFor : RingFor n ring) :
    RingFor n (servers.foldl (fun ring server => vnodes.foldl (insertVnode server.1 server.2) ring) ring) ∧
      (servers.foldl (fun ring server => vnodes.foldl (insertVnode server.1 server.2) ring) ring).length =
        ring.length + servers.length * vnodes.length := by
  induction servers generalizing ring with
  | nil => exact ⟨ringFor, by simp⟩
  | cons server rest ih =>
    obtain ⟨kept, length⟩ := ringFor.insertAll (bound server List.mem_cons_self) server.1 vnodes
    obtain ⟨built, total⟩ := ih (fun other later => bound other (List.mem_cons_of_mem _ later)) kept
    refine ⟨built, ?_⟩
    rw [List.foldl_cons, total, length, List.length_cons, Nat.succ_mul]
    omega

/-- Every server has all its virtual nodes, so that the ring fits into its array. -/
theorem ringOf_spec (addresses : List CString) :
    RingFor addresses.length (ringOf addresses) ∧ (ringOf addresses).length = addresses.length * LB_VIRTUAL_NODES := by
  have bound : ∀ server ∈ addresses.zipIdx, server.2 < addresses.length := by
    intro server member
    have below := List.snd_lt_add_of_mem_zipIdx member
    rwa [Nat.zero_add] at below
  obtain ⟨built, length⟩ := RingFor.insertServers (List.range LB_VIRTUAL_NODES) addresses.zipIdx bound
    ⟨List.Pairwise.nil, by simp⟩
  refine ⟨built, ?_⟩
  rw [ringOf, length, List.length_zipIdx, List.length_range, List.length_nil, Nat.zero_add]

end Ring

section Invariant

variable {lb : LoadBalancer}

/-- The servers fit into the table with weights that are positive, and a ring that is used is the one of the servers. -/
structure Wellformed (lb : LoadBalancer) : Prop where
  room : lb.servers.length ≤ LB_MAX_SERVERS
  weights : ∀ s ∈ lb.servers, 0 < s.weight ∧ 0 < s.effectiveWeight
  ring : lb.algorithm = .consistentHash → lb.ring = ringOf (lb.servers.map (·.address))

theorem wellformed_init (algo : LBAlgorithm) : Wellformed (lbInit algo) where
  room := Nat.zero_le _
  weights := by simp [lbInit]
  ring := fun _ => rfl

@[simp] theorem lbRebuild_servers (lb : LoadBalancer) : (lbRebuild lb).servers = lb.servers := by
  unfold lbRebuild lbBuildRing
  split_ifs <;> rfl

@[simp] theorem lbRebuild_algorithm (lb : LoadBalancer) : (lbRebuild lb).algorithm = lb.algorithm := by
  unfold lbRebuild lbBuildRing
  split_ifs <;> rfl

/-- After a rebuild nothing is asked of the old ring. -/
theorem wellformed_rebuild (room : lb.servers.length ≤ LB_MAX_SERVERS)
    (weights : ∀ s ∈ lb.servers, 0 < s.weight ∧ 0 < s.effectiveWeight) : Wellformed (lbRebuild lb) where
  room := by rwa [lbRebuild_servers]
  weights := by rwa [lbRebuild_servers]
  ring := by
    intro hashing
    rw [lbRebuild_algorithm] at hashing
    rw [lbRebuild_servers, lbRebuild, if_pos hashing, lbBuildRing]

/-- A table with the same addresses needs no other ring. -/
theorem Wellformed.table {servers : List LBServer} (wellformed : Wellformed lb)
    (addresses : servers.map (·.address) = lb.servers.map (·.address))
    (weights : ∀ s ∈ servers, 0 < s.weight ∧ 0 < s.effectiveWeight) : Wellformed { lb with servers := servers } where
  room := by
    have length := congrArg List.length addresses
    rw [List.length_map, List.length_map] at length
    exact length ▸ wellformed.room
  weights := weights
  ring := fun hashing => by rw [addresses, wellformed.ring hashing]

theorem newServer_weights (addr : CString) (port weight : Int) :
    0 < (newServer addr port weight).weight ∧ 0 < (newServer addr port weight).effectiveWeight := by
  unfold newServer
  dsimp only
  split_ifs <;> omega

theorem wellformed_add (wellformed : Wellformed lb) (addr : CString) (port weight : Int) :
    Wellformed (lbAddServer lb addr port weight).1 := by
  unfold lbAddServer
  split_ifs with full
  · exact wellformed
  · refine wellformed_rebuild ?_ fun s member => ?_
    · rw [List.length_append, List.length_singleton]
      omega
    · rcases List.mem_append.mp member with old | new
      · exact wellformed.weights s old
      · rw [List.mem_singleton.mp new]
        exact newServer_weights addr port weight

theorem wellformed_remove (wellformed : Wellformed lb) (addr : CString) (port : Int) :
    Wellformed (lbRemoveServer lb addr port).1 := by
  unfold lbRemoveServer
  split
  · refine wellformed_rebuild ?_ fun s member => wellformed.weights s (List.mem_of_mem_eraseIdx member)
    exact Nat.le_trans (List.length_eraseIdx_le ..) wellformed.room
  · exact wellformed

/-- Servers that change in place keep their addresses. -/
theorem map_modify_address (servers : List LBServer) (i : Nat) (change : LBServer → LBServer)
    (same : ∀ s, (change s).address = s.address) :
    (servers.modify i change).map (·.address) = servers.map (·.address) := by
  induction servers generalizing i with
  | nil => simp
  | cons s rest ih =>
    cases i with
    | zero => simp [same]
    | succ i => simpa using ih i

theorem mem_modify {servers : List LBServer} {i : Nat} {change : LBServer → LBServer} {s : LBServer}
    (member : s ∈ servers.modify i change) : ∃ old ∈ servers, s = old ∨ s = change old := by
  obtain ⟨j, there⟩ := List.mem_iff_getElem?.mp member
  rw [List.getElem?_modify] at there
  obtain ⟨old, before, rfl⟩ := Option.map_eq_some_iff.mp there
  refine ⟨old, List.mem_of_getElem? before, ?_⟩
  split_ifs
  · exact .inr rfl
  · exact .inl rfl

/-- A change in place that keeps the address and positive weights keeps the invariant. -/
theorem Wellformed.modify (wellformed : Wellformed lb) (i : Nat) (change : LBServer → LBServer)
    (same : ∀ s, (change s).address = s.address)
    (weights : ∀ s, 0 < s.weight ∧ 0 < s.effectiveWeight → 0 < (change s).weight ∧ 0 < (change s).effectiveWeight) :
    Wellformed { lb with servers := lb.servers.modify i change } := by
  refine wellformed.table (map_modify_address _ _ _ same) fun s member => ?_
  obtain ⟨old, before, rfl | rfl⟩ := mem_modify member
  · exact wellformed.weights _ before
  · exact weights old (wellformed.weights old before)

theorem Wellformed.rebuild (wellformed : Wellformed lb) : Wellformed (lbRebuild lb) :=
  wellformed_rebuild wellformed.room wellformed.weights

theorem wellformed_ping (wellformed : Wellformed lb) (index : Int) (alive : Bool) :
    Wellformed (lbHealthPing lb index alive) := by
  have next := wellformed.modify index.toNat (fun s => { s with healthy := alive }) (fun _ => rfl) fun _ kept => kept
  unfold lbHealthPing
  dsimp only
  split_ifs
  · exact wellformed
  · exact next.rebuild
  · exact next

theorem checked_weights (s : LBServer) (weights : 0 < s.weight ∧ 0 < s.effectiveWeight) :
    0 < s.checked.weight ∧ 0 < s.checked.effectiveWeight := by
  unfold LBServer.checked
  dsimp only
  split_ifs
  · exact ⟨weights.1, weights.1⟩
  · exact weights

theorem wellformed_checkAt (wellformed : Wellformed lb) (i : Nat) : Wellformed (lbHealthCheckAt lb i) := by
  unfold lbHealthCheckAt
  split
  · exact wellformed
  · have next := wellformed.modify i LBServer.checked (fun _ => rfl) checked_weights
    dsimp only
    split_ifs
    · exact next.rebuild
    · exact next

theorem wellformed_check (wellformed : Wellformed lb) : Wellformed (lbHealthCheck lb) := by
  unfold lbHealthCheck
  generalize List.range lb.servers.length = rounds
  induction rounds generalizing lb with
  | nil => exact wellformed
  | cons i rest ih => exact ih (wellformed_checkAt wellformed i)

end Invariant

end MiniNetDist.GatewayProxy.Lb
