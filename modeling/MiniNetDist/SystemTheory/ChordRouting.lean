import MiniNetDist.SystemTheory.Chord

/-! Routing over the finger tables of a Chord ring. The fingers are filled in through `chord_lookup`,
which hashes the start of a finger once more, and `chord_finger_lookup` chooses a finger without the
key. So fingers that name the right nodes lead every key to the same node, and only a ring with a
single node routes right. -/

namespace MiniNetDist.SystemTheory.Dht

open Library Library.Nearest

inductive MemberCall where
  | join (nodeId : Int)
  | leave (nodeId : Int)
  deriving DecidableEq, Repr

def memberStep (ring : ChordRing) : MemberCall → ChordRing
  | .join nodeId => (chordJoin ring nodeId).1
  | .leave nodeId => (chordLeave ring nodeId).1

/-- Node ids are places on the ring. -/
def Placeable (ring : ChordRing) : MemberCall → Prop
  | .join nodeId => OnRing ring.hashSpace nodeId
  | .leave _ => True

/-- Where the part of the ring that a finger covers begins. -/
def fingerStart (hashSpace id : Int) (k : Nat) : Int := (id + ((1 <<< k : Nat) : Int)).tmod hashSpace

/-- Repeat a lookup from the node it returns, until that is the node itself or one that has been
returned before. -/
inductive RoutesTo (next : Int → Int) : List Int → Int → Int → Prop where
  | stays {returned : List Int} {current : Int} (self : next current = current) : RoutesTo next returned current current
  | again {returned : List Int} {current : Int} (seen : next current ∈ returned) :
      RoutesTo next returned current (next current)
  | onward {returned : List Int} {current stop : Int} (moves : next current ≠ current) (fresh : next current ∉ returned)
      (rest : RoutesTo next (next current :: returned) (next current) stop) : RoutesTo next returned current stop

/-- Finger routing from any active node ends where a direct lookup points. -/
def RoutesRight (ring : ChordRing) : Prop :=
  ∀ start ∈ ids ring.nodes, ∀ key : Int32,
    RoutesTo (fun nodeId => chordFingerLookup ring nodeId key.toInt) [] start (chordLookup ring key.toInt)

/-- Each finger of an active node names the first active node from its start on. -/
def FingersRight (ring : ChordRing) : Prop :=
  ∀ i node, ring.nodes[i]? = some node → node.active = true → ∀ k < DHT_FINGER_TABLE_SIZE,
    successor ring.hashSpace (fingerStart ring.hashSpace node.id k) (ids ring.nodes) =
      some (ring.fingerTable i k).nodeId

/-- The fingers are those of the nodes that are active now. -/
def Fresh (ring : ChordRing) : Prop :=
  ∀ i node, ring.nodes[i]? = some node → node.active = true → ∀ k < DHT_FINGER_TABLE_SIZE,
    ring.fingerTable i k =
      ⟨fingerStart ring.hashSpace node.id k, chordLookup ring (fingerStart ring.hashSpace node.id k)⟩

structure Settled (ring : ChordRing) : Prop extends Regular ring where
  fresh : Fresh ring

section Settled

variable {ring : ChordRing} {nodeId : Int}

theorem fresh_build (ring : ChordRing) : Fresh (chordBuildFingerTables ring) := by
  intro i node here active k small
  change ring.nodes[i]? = some node at here
  simp only [chordBuildFingerTables, here, active, Bool.true_and, decide_eq_true_eq.mpr small, if_true]
  rfl

theorem settled_init {hashSpace : Int} (bounded : hashSpace ≤ 2 ^ 30) : Settled (chordInit hashSpace) := by
  refine ⟨regular_init bounded, ?_⟩
  intro i node here
  cases here

theorem Settled.join (settled : Settled ring) (place : OnRing ring.hashSpace nodeId) :
    Settled (chordJoin ring nodeId).1 := by
  refine ⟨settled.toRegular.join place, ?_⟩
  unfold chordJoin
  split_ifs
  · exact settled.fresh
  · exact settled.fresh
  · exact fresh_build _

theorem Settled.leave (settled : Settled ring) : Settled (chordLeave ring nodeId).1 := by
  refine ⟨settled.toRegular.leave nodeId, ?_⟩
  unfold chordLeave
  split
  · exact fresh_build _
  · exact settled.fresh

theorem settled_reached {hashSpace : Int} (bounded : hashSpace ≤ 2 ^ 30)
    (reached : Reaches memberStep Placeable (chordInit hashSpace) ring) : Settled ring := by
  refine reached.invariant (settled_init bounded) ?_
  intro ring call settled placeable
  cases call with
  | join nodeId => exact settled.join placeable
  | leave nodeId => exact settled.leave

end Settled

section Routing

variable {ring : ChordRing} {id finger start key : Int}

/-- A finger that names the first node from its start on always leads on. -/
theorem leads_of_successor {hashSpace : Int} {members : List Int} (place : OnRing hashSpace start)
    (within : ∀ id ∈ members, OnRing hashSpace id) (inside : id ∈ members)
    (right : successor hashSpace start members = some finger) :
    DHTFingerEntry.leads hashSpace id ⟨start, finger⟩ = true := by
  have named := within finger (successor_mem right)
  have here := within id inside
  have nearer : clockwise hashSpace start finger ≤ clockwise hashSpace start id := nearest_le right inside
  rw [clockwise_eq place named, clockwise_eq place here] at nearer
  obtain ⟨nonnegative, below⟩ := named
  obtain ⟨atLeast, atMost⟩ := here
  unfold DHTFingerEntry.leads dhtInRange
  simp only [Bool.and_eq_true, decide_eq_true_eq, if_true]
  refine ⟨nonnegative, ?_⟩
  split_ifs at nearer ⊢ <;> simp only [Bool.and_eq_true, Bool.or_eq_true, decide_eq_true_eq] <;> omega

theorem fingerStart_onRing {hashSpace : Int} (positive : 0 < hashSpace) (here : OnRing hashSpace id) (k : Nat) :
    OnRing hashSpace (fingerStart hashSpace id k) := by
  have nonnegative : 0 ≤ id + ((1 <<< k : Nat) : Int) := Int.add_nonneg here.1 (Int.natCast_nonneg _)
  unfold fingerStart
  rw [Int.tmod_eq_emod_of_nonneg nonnegative]
  exact ⟨Int.emod_nonneg _ (Int.ne_of_gt positive), Int.emod_lt_of_pos _ positive⟩

/-- Every place on the ring is the hash of a key: the factor of the hash is odd. -/
theorem exists_key {hashSpace position : Int} (bounded : hashSpace < 4294967296) (place : OnRing hashSpace position) :
    ∃ key : Int32, dhtHash key.toInt hashSpace = position := by
  obtain ⟨nonnegative, below⟩ := place
  refine ⟨Int32.ofInt (position * 244002641), ?_⟩
  have same : (Int32.ofInt (position * 244002641)).toInt % 4294967296 = position * 244002641 % 4294967296 := by
    rw [Int32.toInt_ofInt]
    exact Int.bmod_emod
  have inverse : position * 244002641 % 4294967296 * 2654435761 % 4294967296 = position := by omega
  unfold dhtHash
  rw [same, inverse, Int.emod_eq_of_lt (by omega) bounded, Int.emod_eq_of_lt nonnegative below]

/-- The node at a place owns some key. -/
theorem Settled.exists_lookup (settled : Settled ring) (inside : id ∈ ids ring.nodes) :
    ∃ key : Int32, chordLookup ring key.toInt = id := by
  have here := settled.within id inside
  obtain ⟨key, hash⟩ := exists_key (Int.lt_of_le_of_lt settled.bounded (by decide)) here
  refine ⟨key, ?_⟩
  have own : successor ring.hashSpace id (ids ring.nodes) = some id := by
    refine (successor_eq_iff here settled.within inside).mpr ?_
    intro other present
    have there := settled.within other present
    rw [clockwise_eq here here, clockwise_eq here there]
    obtain ⟨nonnegative, below⟩ := here
    obtain ⟨nonnegativeToo, belowToo⟩ := there
    split_ifs <;> omega
  rw [chordLookup_eq, hash, own, Option.getD_some]

theorem mem_ids {nodes : List DHTNode} {node : DHTNode} {i : Nat} (here : nodes[i]? = some node)
    (active : node.active = true) : node.id ∈ ids nodes :=
  List.mem_map_of_mem (List.mem_filter.mpr ⟨List.mem_of_getElem? here, active⟩)

/-- The node whose fingers a lookup reads. -/
theorem getElem?_of_findIdx?_is {i : Nat} (found : ring.nodes.findIdx? (·.is id) = some i) :
    ∃ node, ring.nodes[i]? = some node ∧ node.id = id ∧ node.active = true := by
  obtain ⟨earlier, node, later, split, rfl, here, active, -⟩ := split_actives found
  exact ⟨node, by rw [split]; simp, here, active⟩

/-- With the right fingers the last one is taken, whatever the key is. -/
theorem Settled.keyless (settled : Settled ring) (right : FingersRight ring) (nodeId key other : Int) :
    chordFingerLookup ring nodeId key = chordFingerLookup ring nodeId other := by
  unfold chordFingerLookup
  cases found : ring.nodes.findIdx? (·.is nodeId) with
  | none => rfl
  | some i =>
    obtain ⟨node, here, rfl, active⟩ := getElem?_of_findIdx?_is found
    have inside := mem_ids here active
    have place := fingerStart_onRing settled.positive (settled.within node.id inside) 7
    have last : (ring.fingerTable i 7).leads ring.hashSpace node.id = true := by
      have named := right i node here active 7 (by decide)
      rw [settled.fresh i node here active 7 (by decide)] at named ⊢
      exact leads_of_successor place settled.within inside named
    have chosen : ((List.range DHT_FINGER_TABLE_SIZE).reverse.map (ring.fingerTable i)).find?
        (·.leads ring.hashSpace node.id) = some (ring.fingerTable i 7) := List.find?_cons_of_pos last
    dsimp only
    rw [chosen]

theorem RoutesTo.unique {next : Int → Int} {returned : List Int} {current stop stop₂ : Int}
    (first : RoutesTo next returned current stop) (second : RoutesTo next returned current stop₂) : stop = stop₂ := by
  induction first generalizing stop₂ with
  | stays self =>
    cases second with
    | stays _ => rfl
    | again _ => exact self.symm
    | onward moves _ _ => exact absurd self moves
  | again seen =>
    cases second with
    | stays self => exact self
    | again _ => rfl
    | onward _ fresh _ => exact absurd seen fresh
  | onward moves fresh _ ih =>
    cases second with
    | stays self => exact absurd self moves
    | again seen => exact absurd seen fresh
    | onward _ _ rest => exact ih rest

/-- Two nodes would both be where the routes of all keys end. -/
theorem Settled.length_le_one (settled : Settled ring) (routes : RoutesRight ring) (right : FingersRight ring) :
    (ids ring.nodes).length ≤ 1 := by
  have same : ∀ first ∈ ids ring.nodes, ∀ second ∈ ids ring.nodes, first = second := by
    intro first inside second insideToo
    obtain ⟨key, lookup⟩ := settled.exists_lookup inside
    obtain ⟨other, lookupToo⟩ := settled.exists_lookup insideToo
    have route := routes first inside key
    have routeToo := routes first inside other
    rw [lookup] at route
    rw [lookupToo, funext fun nodeId => settled.keyless right nodeId other.toInt key.toInt] at routeToo
    exact route.unique routeToo
  have distinct := settled.distinct
  cases members : ids ring.nodes with
  | nil => exact Nat.zero_le 1
  | cons first rest =>
    cases rest with
    | nil => exact Nat.le_refl 1
    | cons second rest =>
      rw [members] at same distinct
      have equal := same first List.mem_cons_self second (by simp)
      exact absurd (equal ▸ List.mem_cons_self) (List.nodup_cons.mp distinct).1

theorem successor_alone {hashSpace position : Int} (place : OnRing hashSpace position) (here : OnRing hashSpace id) :
    successor hashSpace position [id] = some id := by
  refine (successor_eq_iff place ?_ List.mem_cons_self).mpr ?_
  · intro other inside
    rw [List.mem_singleton.mp inside]
    exact here
  · intro other inside
    obtain rfl := List.mem_singleton.mp inside
    exact Int.le_refl _

theorem Settled.fingerLookup_alone (settled : Settled ring) (alone : ids ring.nodes = [id])
    (lookup : ∀ key, chordLookup ring key = id) (key : Int) : chordFingerLookup ring id key = id := by
  unfold chordFingerLookup
  cases found : ring.nodes.findIdx? (·.is id) with
  | none =>
    have absent : id ∉ ids ring.nodes := by
      rw [← any_is_iff]
      simpa using found
    exact absurd (alone ▸ List.mem_cons_self) absent
  | some i =>
    obtain ⟨node, here, named, active⟩ := getElem?_of_findIdx?_is found
    dsimp only
    cases chosen : ((List.range DHT_FINGER_TABLE_SIZE).reverse.map (ring.fingerTable i)).find?
        (·.leads ring.hashSpace id) with
    | none => exact lookup key
    | some finger =>
      obtain ⟨k, inside, rfl⟩ := List.mem_map.mp (List.mem_of_find?_eq_some chosen)
      rw [List.mem_reverse, List.mem_range] at inside
      dsimp only
      rw [settled.fresh i node here active k inside]
      exact lookup _

/-- A node alone is the end of every route and of every finger. -/
theorem Settled.right_of_length_le_one (settled : Settled ring) (few : (ids ring.nodes).length ≤ 1) :
    RoutesRight ring ∧ FingersRight ring := by
  cases members : ids ring.nodes with
  | nil =>
    refine ⟨fun start inside => ?_, fun i node here active => ?_⟩
    · rw [members] at inside
      cases inside
    · have inside := mem_ids here active
      rw [members] at inside
      cases inside
  | cons id rest =>
    obtain rfl : rest = [] := by
      rw [members, List.length_cons] at few
      exact List.length_eq_zero_iff.mp (by omega)
    have place := settled.within id (members ▸ List.mem_cons_self)
    have lookup : ∀ key, chordLookup ring key = id := by
      intro key
      rw [chordLookup_eq, members, successor_alone (dhtHash_onRing key settled.positive) place, Option.getD_some]
    constructor
    · intro start inside key
      rw [members] at inside
      obtain rfl := List.mem_singleton.mp inside
      rw [lookup]
      exact .stays (settled.fingerLookup_alone members lookup key.toInt)
    · intro i node here active k small
      have inside := mem_ids here active
      have start := fingerStart_onRing settled.positive (settled.within node.id inside) k
      rw [settled.fresh i node here active k small, members, successor_alone start place, lookup]

/-- On a reachable ring of up to `2 ^ 30` places, where no sum leaves `int`, finger routing agrees with direct lookup over
fingers that name the right nodes exactly if no two nodes are active. -/
theorem chord_routing_iff {hashSpace : Int} (bounded : hashSpace ≤ 2 ^ 30)
    (reached : Reaches memberStep Placeable (chordInit hashSpace) ring) :
    SumsFit ring ∧ (RoutesRight ring ∧ FingersRight ring ↔ (ids ring.nodes).length ≤ 1) := by
  have settled := settled_reached bounded reached
  exact ⟨settled.sumsFit, fun right => settled.length_le_one right.1 right.2, settled.right_of_length_le_one⟩

def ringAfter (calls : List MemberCall) : ChordRing := calls.foldl memberStep (chordInit 256)

theorem ringAfter_reached (calls : List MemberCall) (permitted : Permitted memberStep Placeable (chordInit 256) calls) :
    Reaches memberStep Placeable (chordInit 256) (ringAfter calls) := Reaches.ofCalls calls permitted

def allButOne : List MemberCall := [.join 10, .join 60, .leave 10]

/-- When the other one has left, what remains routes right. -/
theorem allButOne_right : RoutesRight (ringAfter allButOne) ∧ FingersRight (ringAfter allButOne) := by
  refine (chord_routing_iff (by decide) (ringAfter_reached allButOne ⟨?_, ?_, trivial, trivial⟩)).2.mpr (by decide)
  · exact ⟨by decide, by decide⟩
  · exact ⟨by decide, by decide⟩

def twoJoins : List MemberCall := [.join 10, .join 60]

/-- The first finger of node 10 starts at 11, whose hash lies beyond 60, and the last one sends the
lookup of a key of 60 back to 10. -/
theorem twoJoins_wrong :
    Reaches memberStep Placeable (chordInit 256) (ringAfter twoJoins) ∧
      ¬ RoutesRight (ringAfter twoJoins) ∧ ¬ FingersRight (ringAfter twoJoins) := by
  refine ⟨ringAfter_reached twoJoins ⟨⟨by decide, by decide⟩, ⟨by decide, by decide⟩, trivial⟩, ?_, ?_⟩
  · intro routes
    have ends := (routes 10 (by decide) 3).unique (.stays (by decide))
    exact absurd ends (by decide)
  · intro right
    exact absurd (right 0 ⟨10, true, []⟩ (by decide) rfl 0 (by decide)) (by decide)

end Routing

end MiniNetDist.SystemTheory.Dht
