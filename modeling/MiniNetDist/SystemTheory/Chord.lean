import MiniNetDist.SystemTheory.ConsistentHash
import MiniNetDist.Library.Table
import Mathlib.Algebra.Group.Int.Defs

/-! The Chord ring of `mini-dist-system-theory/src/dht.c`. The list of nodes is the part of the array
that is in use, left nodes included; what decides a lookup is the list of the active ones. -/

namespace MiniNetDist.SystemTheory.Dht

open Library Library.Nearest

def DHT_FINGER_TABLE_SIZE : Nat := 8

structure DHTNode where
  id : Int
  active : Bool
  keys : List Int
  deriving DecidableEq, Repr

structure DHTFingerEntry where
  start : Int
  nodeId : Int
  deriving DecidableEq, Repr

structure ChordRing where
  nodes : List DHTNode
  hashSpace : Int
  replicationFactor : Int
  fingerTable : Nat → Nat → DHTFingerEntry

def dhtInRange (key start stop _space : Int) (inclusiveEnd : Bool) : Bool :=
  if start < stop then
    if inclusiveEnd then key > start && key ≤ stop else key > start && key < stop
  else if inclusiveEnd then key > start || key ≤ stop
  else key > start || key < stop

/-- The way from a position clockwise to an id. The sums are of `int` in the source, and the same as long as they fit
(`SumsFit`). -/
def clockwise (hashSpace position id : Int) : Int := (id - position + hashSpace).tmod hashSpace

def DHTNode.distance (hashSpace position : Int) (node : DHTNode) : Int := clockwise hashSpace position node.id

/-- One round of the loop of `dht_find_successor`, on `best` and `best_dist`. -/
def successorRound (hashSpace key : Int) (best : Option Nat × Int) (entry : DHTNode × Nat) : Option Nat × Int :=
  if !entry.1.active then best
  else if entry.1.distance hashSpace key < best.2 then (some entry.2, entry.1.distance hashSpace key) else best

def dhtFindSuccessor (ring : ChordRing) (key : Int) : Option Nat :=
  (ring.nodes.zipIdx.foldl (successorRound ring.hashSpace key) (none, ring.hashSpace + 1)).1

def chordInit (hashSpace : Int) : ChordRing :=
  { nodes := []
    hashSpace := if hashSpace > 0 then hashSpace else DHT_HASH_SPACE
    replicationFactor := 3
    fingerTable := fun _ _ => ⟨-1, -1⟩ }

def chordLookup (ring : ChordRing) (key : Int) : Int :=
  match (dhtFindSuccessor ring (dhtHash key ring.hashSpace)).bind (ring.nodes[·]?) with
  | some node => node.id
  | none => -1

/-- A lookup reads no finger, so all fingers can be written at once. -/
def chordBuildFingerTables (ring : ChordRing) : ChordRing :=
  { ring with
    fingerTable := fun i k =>
      match ring.nodes[i]? with
      | some node =>
        if node.active && k < DHT_FINGER_TABLE_SIZE then
          let start := (node.id + ((1 <<< k : Nat) : Int)).tmod ring.hashSpace
          ⟨start, chordLookup ring start⟩
        else ring.fingerTable i k
      | none => ring.fingerTable i k }

/-- The active node of an id, as all operations search for it. -/
def DHTNode.is (nodeId : Int) (node : DHTNode) : Bool := node.id = nodeId && node.active

def chordJoin (ring : ChordRing) (nodeId : Int) : ChordRing × Int :=
  if ring.nodes.length ≥ DHT_MAX_NODES then (ring, -1)
  else if ring.nodes.any (·.is nodeId) then (ring, -1)
  else
    let joined := { ring with nodes := ring.nodes ++ [⟨nodeId, true, []⟩] }
    (chordBuildFingerTables joined, ring.nodes.length)

/-- The keys of a node with those of a leaving one appended while there is room. -/
def DHTNode.inherit (keys : List Int) (node : DHTNode) : DHTNode :=
  { node with
    keys := keys.foldl (fun held key => if held.length < DHT_MAX_NODES then held ++ [key] else held) node.keys }

/-- The first active node of the array that is not the given one. -/
def firstOther (nodes : List DHTNode) (i : Nat) : Option Nat :=
  (List.range nodes.length).find? fun succ => succ ≠ i && nodes[succ]?.any (·.active)

/-- The nodes when the one at `i` has left. -/
def leaveNodes (nodes : List DHTNode) (i : Nat) : List DHTNode :=
  let keys := (nodes[i]?.map DHTNode.keys).getD []
  let nodes := match firstOther nodes i with
    | some succ => nodes.modify succ (·.inherit keys)
    | none => nodes
  nodes.modify i fun node => { node with active := false, keys := [] }

def chordLeave (ring : ChordRing) (nodeId : Int) : ChordRing × Int :=
  match ring.nodes.findIdx? (·.is nodeId) with
  | some i => (chordBuildFingerTables { ring with nodes := leaveNodes ring.nodes i }, 0)
  | none => (ring, -1)

/-- What `chord_store` does to the node it finds. -/
def DHTNode.store (key : Int) (node : DHTNode) : DHTNode :=
  if node.keys.length ≥ DHT_MAX_NODES then node
  else if key ∈ node.keys then node
  else { node with keys := node.keys ++ [key] }

def chordStore (ring : ChordRing) (nodeId key : Int) : ChordRing :=
  match ring.nodes.findIdx? (·.is nodeId) with
  | some i => { ring with nodes := ring.nodes.modify i (·.store key) }
  | none => ring

def chordHasKey (ring : ChordRing) (nodeId key : Int) : Bool :=
  match ring.nodes.find? (·.is nodeId) with
  | some node => key ∈ node.keys
  | none => false

/-- Whether a finger leads on from the node that asks. -/
def DHTFingerEntry.leads (hashSpace nodeId : Int) (entry : DHTFingerEntry) : Bool :=
  entry.nodeId ≥ 0 && dhtInRange entry.start nodeId entry.nodeId hashSpace true

def chordFingerLookup (ring : ChordRing) (nodeId key : Int) : Int :=
  match ring.nodes.findIdx? (·.is nodeId) with
  | some i =>
    match ((List.range DHT_FINGER_TABLE_SIZE).reverse.map (ring.fingerTable i)).find?
        (·.leads ring.hashSpace nodeId) with
    | some finger => finger.nodeId
    | none => chordLookup ring key
  | none => -1

section Active

variable {ring : ChordRing} {nodes : List DHTNode} {nodeId : Int} {i : Nat}

/-- The nodes that have joined and not left, in the order of the array. -/
def actives (nodes : List DHTNode) : List DHTNode := nodes.filter (·.active)

/-- The first id at or clockwise after a position. -/
def successor (hashSpace position : Int) (ids : List Int) : Option Int :=
  nearest (clockwise hashSpace position) (hashSpace + 1) ids

def ids (nodes : List DHTNode) : List Int := (actives nodes).map DHTNode.id

/-- The loop over all nodes finds what the search among the active ones finds. -/
theorem successorRound_fold (hashSpace position : Int) (earlier rest : List DHTNode) (best : Option Nat × Int) :
    let found := (rest.zipIdx earlier.length).foldl (successorRound hashSpace position) best
    let chosen := (actives rest).foldl (nearer (DHTNode.distance hashSpace position))
      (best.1.bind ((earlier ++ rest)[·]?), best.2)
    found.1.bind ((earlier ++ rest)[·]?) = chosen.1 ∧ found.2 = chosen.2 := by
  induction rest generalizing earlier best with
  | nil => exact ⟨rfl, rfl⟩
  | cons node rest ih =>
    have shift : earlier ++ node :: rest = (earlier ++ [node]) ++ rest := by simp
    have here : (earlier ++ node :: rest)[earlier.length]? = some node := by simp
    have next := ih (earlier ++ [node]) (successorRound hashSpace position best (node, earlier.length))
    rw [List.length_append, List.length_singleton, ← shift] at next
    rw [List.zipIdx_cons, List.foldl_cons]
    unfold actives at next ⊢
    cases member : node.active with
    | false =>
      have skipped : successorRound hashSpace position best (node, earlier.length) = best := by
        simp [successorRound, member]
      rw [skipped] at next ⊢
      rw [List.filter_cons_of_neg (by simp [member])]
      exact next
    | true =>
      rw [List.filter_cons_of_pos (by simp [member]), List.foldl_cons]
      by_cases better : node.distance hashSpace position < best.2
      · have taken : successorRound hashSpace position best (node, earlier.length) =
            (some earlier.length, node.distance hashSpace position) := by
          simp [successorRound, member, better]
        rw [taken] at next ⊢
        rw [nearer, if_pos better]
        simp only [Option.bind_some, here] at next
        exact next
      · have kept : successorRound hashSpace position best (node, earlier.length) = best := by
          simp [successorRound, member, better]
        rw [kept] at next ⊢
        rw [nearer, if_neg better]
        exact next

theorem chordLookup_eq (ring : ChordRing) (key : Int) :
    chordLookup ring key = (successor ring.hashSpace (dhtHash key ring.hashSpace) (ids ring.nodes)).getD (-1) := by
  have found := (successorRound_fold ring.hashSpace (dhtHash key ring.hashSpace) [] ring.nodes
    (none, ring.hashSpace + 1)).1
  have same : (dhtFindSuccessor ring (dhtHash key ring.hashSpace)).bind (ring.nodes[·]?) =
      nearest (DHTNode.distance ring.hashSpace (dhtHash key ring.hashSpace)) (ring.hashSpace + 1)
        (actives ring.nodes) := found
  unfold chordLookup successor ids
  rw [same, nearest_map]
  change _ = ((nearest (DHTNode.distance ring.hashSpace (dhtHash key ring.hashSpace)) (ring.hashSpace + 1)
    (actives ring.nodes)).map DHTNode.id).getD (-1)
  cases nearest (DHTNode.distance ring.hashSpace (dhtHash key ring.hashSpace)) (ring.hashSpace + 1)
    (actives ring.nodes) <;> rfl

theorem find?_is (nodes : List DHTNode) (nodeId : Int) :
    nodes.find? (·.is nodeId) = Table.find DHTNode.id (actives nodes) nodeId := by
  unfold Table.find actives
  rw [List.find?_filter]
  congr 1
  funext node
  unfold DHTNode.is
  cases node.active <;> simp

theorem chordHasKey_iff (ring : ChordRing) (nodeId key : Int) :
    chordHasKey ring nodeId key = true ↔
      ∃ node, Table.find DHTNode.id (actives ring.nodes) nodeId = some node ∧ key ∈ node.keys := by
  unfold chordHasKey
  rw [find?_is]
  cases Table.find DHTNode.id (actives ring.nodes) nodeId <;> simp

theorem any_is_iff : nodes.any (·.is nodeId) = true ↔ nodeId ∈ ids nodes := by
  simp only [List.any_eq_true, ids, List.mem_map, actives, List.mem_filter, DHTNode.is, Bool.and_eq_true,
    decide_eq_true_eq]
  constructor
  · rintro ⟨node, inside, same, active⟩
    exact ⟨node, ⟨inside, active⟩, same⟩
  · rintro ⟨node, ⟨inside, active⟩, same⟩
    exact ⟨node, inside, same, active⟩

theorem actives_join (ring : ChordRing) (nodeId : Int) :
    actives (chordJoin ring nodeId).1.nodes =
      if ring.nodes.length ≥ DHT_MAX_NODES ∨ nodeId ∈ ids ring.nodes then actives ring.nodes
      else actives ring.nodes ++ [⟨nodeId, true, []⟩] := by
  unfold chordJoin
  by_cases full : ring.nodes.length ≥ DHT_MAX_NODES
  · rw [if_pos full, if_pos (.inl full)]
  · rw [if_neg full]
    by_cases known : nodeId ∈ ids ring.nodes
    · rw [if_pos (any_is_iff.mpr known), if_pos (.inr known)]
    · rw [if_neg (fun any => known (any_is_iff.mp any)), if_neg (not_or.mpr ⟨full, known⟩)]
      simp [chordBuildFingerTables, actives]

theorem store_active (key : Int) (node : DHTNode) : (node.store key).active = node.active := by
  unfold DHTNode.store
  split_ifs <;> rfl

/-- A search for an active node splits the active ones too. -/
theorem split_actives (found : nodes.findIdx? (·.is nodeId) = some i) :
    ∃ earlier node later, nodes = earlier ++ node :: later ∧ earlier.length = i ∧ node.id = nodeId ∧
      node.active = true ∧ ∀ other ∈ actives earlier, other.id ≠ nodeId := by
  obtain ⟨earlier, node, later, split, length, here, none⟩ := split_of_findIdx? found
  rw [DHTNode.is, Bool.and_eq_true, decide_eq_true_eq] at here
  refine ⟨earlier, node, later, split, length, here.1, here.2, ?_⟩
  intro other inside same
  obtain ⟨present, active⟩ := List.mem_filter.mp inside
  have other := none other present
  simp [DHTNode.is, same, active] at other

theorem actives_split {earlier later : List DHTNode} {node : DHTNode} (active : node.active = true) :
    actives (earlier ++ node :: later) = actives earlier ++ node :: actives later := by
  unfold actives
  rw [List.filter_append, List.filter_cons_of_pos active]

theorem actives_store (ring : ChordRing) (nodeId key : Int) :
    actives (chordStore ring nodeId key).nodes =
      Table.update DHTNode.id (actives ring.nodes) nodeId (DHTNode.store key) := by
  unfold chordStore
  cases found : ring.nodes.findIdx? (·.is nodeId) with
  | none =>
    rw [Table.update_absent]
    rw [← find?_is]
    exact List.find?_eq_none.mpr (by simpa using found)
  | some i =>
    obtain ⟨earlier, node, later, split, rfl, here, active, none⟩ := split_actives found
    change actives (ring.nodes.modify earlier.length (DHTNode.store key)) = _
    rw [split, modify_middle, actives_split active, actives_split ((store_active key node).trans active),
      Table.update_middle none here]

theorem chordInit_positive (hashSpace : Int) : 0 < (chordInit hashSpace).hashSpace := by
  unfold chordInit
  split_ifs with positive
  · exact positive
  · decide

theorem chordJoin_refused (refused : ring.nodes.length ≥ DHT_MAX_NODES ∨ nodeId ∈ ids ring.nodes) :
    (chordJoin ring nodeId).1 = ring := by
  unfold chordJoin
  rcases refused with full | known
  · rw [if_pos full]
  · rw [if_pos (any_is_iff.mpr known)]
    split_ifs <;> rfl

theorem hashSpace_join (ring : ChordRing) (nodeId : Int) : (chordJoin ring nodeId).1.hashSpace = ring.hashSpace := by
  unfold chordJoin
  split_ifs <;> rfl

theorem hashSpace_leave (ring : ChordRing) (nodeId : Int) : (chordLeave ring nodeId).1.hashSpace = ring.hashSpace := by
  unfold chordLeave
  split <;> rfl

theorem chordLeave_absent (absent : ring.nodes.findIdx? (·.is nodeId) = none) :
    (chordLeave ring nodeId).1 = ring := by
  unfold chordLeave
  rw [absent]

theorem nodes_leave (found : ring.nodes.findIdx? (·.is nodeId) = some i) :
    (chordLeave ring nodeId).1.nodes = leaveNodes ring.nodes i := by
  unfold chordLeave
  rw [found]
  rfl

/-- The first active node of the array other than `i` is the one the loop stops at. -/
theorem firstOther_eq_some {earlier later : List DHTNode} {node : DHTNode} (active : node.active = true)
    (elsewhere : earlier.length ≠ i) (idle : ∀ j other, earlier[j]? = some other → j ≠ i → other.active = false) :
    firstOther (earlier ++ node :: later) i = some earlier.length := by
  unfold firstOther
  rw [List.find?_range_eq_some]
  refine ⟨?_, ?_, ?_⟩
  · simp [elsewhere, active]
  · simp
  · intro j before
    rw [List.getElem?_append_left before]
    by_cases same : j = i
    · simp [same]
    · have inactive := idle j _ (List.getElem?_eq_getElem before) same
      rw [List.getElem?_eq_getElem before]
      simp [inactive]

theorem actives_inactive {earlier later : List DHTNode} {node : DHTNode} (inactive : node.active = false) :
    actives (earlier ++ node :: later) = actives earlier ++ actives later := by
  unfold actives
  rw [List.filter_append, List.filter_cons_of_neg (by simp [inactive])]

theorem inactive_of_actives_nil (none : actives nodes = []) {node : DHTNode} (inside : node ∈ nodes) :
    node.active = false := by
  have skipped := List.filter_eq_nil_iff.mp none node inside
  simpa using skipped

/-- A node that has left. -/
def DHTNode.gone (node : DHTNode) : DHTNode := { node with active := false, keys := [] }

section Leave

variable {earlier later before after rest : List DHTNode} {node first : DHTNode}

theorem actives_idle (idle : ∀ other ∈ before, ¬ other.active = true) (active : node.active = true) :
    actives (before ++ node :: after) = node :: actives after := by
  have none : actives before = [] := List.filter_eq_nil_iff.mpr idle
  rw [actives_split active, none, List.nil_append]

theorem leaveNodes_some {succ : Nat} (found : firstOther (earlier ++ node :: later) earlier.length = some succ) :
    leaveNodes (earlier ++ node :: later) earlier.length =
      ((earlier ++ node :: later).modify succ (·.inherit node.keys)).modify earlier.length DHTNode.gone := by
  unfold leaveNodes
  have here : (earlier ++ node :: later)[earlier.length]? = some node := by simp
  rw [found, here]
  rfl

theorem leaveNodes_none (found : firstOther (earlier ++ node :: later) earlier.length = none) :
    leaveNodes (earlier ++ node :: later) earlier.length = earlier ++ node.gone :: later := by
  unfold leaveNodes
  rw [found]
  exact modify_middle ..

theorem actives_leave_before (others : actives earlier = first :: rest) :
    actives (leaveNodes (earlier ++ node :: later) earlier.length) =
      first.inherit node.keys :: (rest ++ actives later) := by
  obtain ⟨before, after, rfl, idle, active, remaining⟩ := List.filter_eq_cons_iff.mp others
  have found : firstOther ((before ++ first :: after) ++ node :: later) (before ++ first :: after).length =
      some before.length := by
    rw [List.append_assoc, List.cons_append]
    refine firstOther_eq_some active (by simp) fun j other present _ => ?_
    simpa using idle other (List.mem_of_getElem? present)
  have length : (before ++ first :: after).length = (before ++ first.inherit node.keys :: after).length := by simp
  have still : (first.inherit node.keys).active = true := active
  rw [leaveNodes_some found, List.append_assoc, List.cons_append, modify_middle, ← List.cons_append,
    ← List.append_assoc, length, modify_middle, actives_inactive rfl, actives_idle idle still, List.cons_append]
  rw [actives, remaining]

theorem actives_leave_after (alone : actives earlier = []) (others : actives later = first :: rest) :
    actives (leaveNodes (earlier ++ node :: later) earlier.length) = first.inherit node.keys :: rest := by
  obtain ⟨before, after, rfl, idle, active, remaining⟩ := List.filter_eq_cons_iff.mp others
  have shift : earlier ++ node :: (before ++ first :: after) = (earlier ++ node :: before) ++ first :: after := by simp
  have found : firstOther (earlier ++ node :: (before ++ first :: after)) earlier.length =
      some (earlier ++ node :: before).length := by
    rw [shift]
    refine firstOther_eq_some active (by simp) fun j other present elsewhere => ?_
    rcases Nat.lt_or_gt_of_ne elsewhere with left | right
    · rw [List.getElem?_append_left left] at present
      exact inactive_of_actives_nil alone (List.mem_of_getElem? present)
    · rw [List.getElem?_append_right (Nat.le_of_lt right), List.getElem?_cons, if_neg (by omega)] at present
      simpa using idle other (List.mem_of_getElem? present)
  have still : (first.inherit node.keys).active = true := active
  rw [leaveNodes_some found, shift, modify_middle, List.append_assoc, List.cons_append, modify_middle,
    actives_inactive rfl, alone, List.nil_append, actives_idle idle still]
  rw [actives, remaining]

theorem actives_leave_last (alone : actives earlier = []) (last : actives later = []) :
    actives (leaveNodes (earlier ++ node :: later) earlier.length) = [] := by
  have found : firstOther (earlier ++ node :: later) earlier.length = none := by
    unfold firstOther
    rw [List.find?_eq_none]
    intro j _ stops
    rw [Bool.and_eq_true, decide_eq_true_eq] at stops
    obtain ⟨elsewhere, active⟩ := stops
    rcases Nat.lt_or_gt_of_ne elsewhere with left | right
    · rw [List.getElem?_append_left left, List.getElem?_eq_getElem left, Option.any_some,
        inactive_of_actives_nil alone (List.getElem_mem left)] at active
      cases active
    · rw [List.getElem?_append_right (Nat.le_of_lt right), List.getElem?_cons, if_neg (by omega)] at active
      cases present : later[j - earlier.length - 1]? with
      | none =>
        rw [present] at active
        cases active
      | some other =>
        rw [present, Option.any_some, inactive_of_actives_nil last (List.mem_of_getElem? present)] at active
        cases active
  rw [leaveNodes_none found, actives_inactive rfl, alone, last, List.nil_append]

end Leave

/-- After a leave, the first of the remaining active nodes has the keys. -/
theorem actives_leave (found : nodes.findIdx? (·.is nodeId) = some i)
    (distinct : (ids nodes).Nodup) :
    ∃ node, Table.find DHTNode.id (actives nodes) nodeId = some node ∧
      actives (leaveNodes nodes i) =
        ((actives nodes).filter (·.id ≠ nodeId)).modify 0 (·.inherit node.keys) := by
  obtain ⟨earlier, node, later, rfl, rfl, here, active, none⟩ := split_actives found
  unfold ids at distinct
  rw [actives_split active] at distinct ⊢
  have others : ∀ other ∈ actives later, other.id ≠ nodeId := by
    intro other inside same
    rw [List.map_append, List.map_cons] at distinct
    have fresh := (List.nodup_cons.mp (List.nodup_append.mp distinct).2.1).1
    rw [here, ← same] at fresh
    exact fresh (List.mem_map_of_mem inside)
  have remaining : (actives earlier ++ node :: actives later).filter (·.id ≠ nodeId) =
      actives earlier ++ actives later := by
    rw [List.filter_append, List.filter_cons_of_neg (by simp [here]),
      List.filter_eq_self.mpr (fun other inside => by simpa using none other inside),
      List.filter_eq_self.mpr (fun other inside => by simpa using others other inside)]
  refine ⟨node, ?_, ?_⟩
  · unfold Table.find
    rw [List.find?_append, List.find?_eq_none.mpr (fun other inside => by simpa using none other inside),
      List.find?_cons_of_pos (by simpa using here)]
    rfl
  · rw [remaining]
    cases before : actives earlier with
    | cons first rest => exact actives_leave_before before
    | nil =>
      cases after : actives later with
      | cons first rest => exact actives_leave_after before after
      | nil => exact actives_leave_last before after

theorem ids_join (ring : ChordRing) (nodeId : Int) :
    ids (chordJoin ring nodeId).1.nodes =
      if ring.nodes.length ≥ DHT_MAX_NODES ∨ nodeId ∈ ids ring.nodes then ids ring.nodes
      else ids ring.nodes ++ [nodeId] := by
  have joined := congrArg (List.map DHTNode.id) (actives_join ring nodeId)
  rw [apply_ite (List.map DHTNode.id), List.map_append] at joined
  exact joined

theorem ids_leave (nodeId : Int) (distinct : (ids ring.nodes).Nodup) :
    ids (chordLeave ring nodeId).1.nodes = (ids ring.nodes).filter (· ≠ nodeId) := by
  cases found : ring.nodes.findIdx? (·.is nodeId) with
  | none =>
    have absent : nodeId ∉ ids ring.nodes := by
      rw [← any_is_iff]
      simpa using found
    rw [chordLeave_absent found]
    refine (List.filter_eq_self.mpr fun id inside => ?_).symm
    exact decide_eq_true fun same => absent (same ▸ inside)
  | some i =>
    obtain ⟨leaver, -, left⟩ := actives_leave found distinct
    unfold ids
    rw [nodes_leave found, left, List.filter_map]
    change _ = ((actives ring.nodes).filter (·.id ≠ nodeId)).map DHTNode.id
    cases (actives ring.nodes).filter (·.id ≠ nodeId) <;> rfl

end Active

section Layout

variable {hashSpace position : Int} {members : List Int} {id other : Int}

theorem dhtHash_nonneg (key space : Int) : 0 ≤ dhtHash key space := by
  unfold dhtHash
  rcases Int.lt_or_eq_of_le (Int.emod_nonneg space (by decide : (4294967296 : Int) ≠ 0)) with proper | zero
  · exact Int.emod_nonneg _ (by omega)
  · rw [← zero, Int.emod_zero]
    exact Int.emod_nonneg _ (by decide)

theorem dhtHash_lt (key : Int) {space : Int} (positive : 0 < space) : dhtHash key space < space := by
  unfold dhtHash
  have below : space % 4294967296 ≤ space := by omega
  rcases Int.lt_or_eq_of_le (Int.emod_nonneg space (by decide : (4294967296 : Int) ≠ 0)) with proper | zero
  · exact Int.lt_of_lt_of_le (Int.emod_lt_of_pos _ proper) below
  · rw [← zero, Int.emod_zero]
    have small : key % 4294967296 * 2654435761 % 4294967296 < 4294967296 := Int.emod_lt_of_pos _ (by decide)
    omega

/-- A place on the ring. -/
def OnRing (hashSpace position : Int) : Prop := 0 ≤ position ∧ position < hashSpace

theorem dhtHash_onRing (key : Int) (positive : 0 < hashSpace) : OnRing hashSpace (dhtHash key hashSpace) :=
  ⟨dhtHash_nonneg key hashSpace, dhtHash_lt key positive⟩

theorem clockwise_eq (place : OnRing hashSpace position) (node : OnRing hashSpace id) :
    clockwise hashSpace position id = if position ≤ id then id - position else id - position + hashSpace := by
  obtain ⟨nonnegative, below⟩ := place
  obtain ⟨nonnegativeToo, belowToo⟩ := node
  unfold clockwise
  rw [Int.tmod_eq_emod_of_nonneg (by omega)]
  split_ifs with ahead
  · rw [Int.add_emod_right]
    exact Int.emod_eq_of_lt (by omega) (by omega)
  · exact Int.emod_eq_of_lt (by omega) (by omega)

theorem clockwise_injective (place : OnRing hashSpace position) (node : OnRing hashSpace id)
    (nodeToo : OnRing hashSpace other) (same : clockwise hashSpace position id = clockwise hashSpace position other) :
    id = other := by
  rw [clockwise_eq place node, clockwise_eq place nodeToo] at same
  obtain ⟨nonnegative, below⟩ := node
  obtain ⟨nonnegativeToo, belowToo⟩ := nodeToo
  split_ifs at same <;> omega

theorem clockwise_lt (place : OnRing hashSpace position) (node : OnRing hashSpace id) :
    clockwise hashSpace position id < hashSpace + 1 := by
  rw [clockwise_eq place node]
  obtain ⟨nonnegative, below⟩ := place
  obtain ⟨nonnegativeToo, belowToo⟩ := node
  split_ifs <;> omega

theorem successor_mem (found : successor hashSpace position members = some id) : id ∈ members := nearest_mem found

theorem successor_isSome (place : OnRing hashSpace position) (within : ∀ id ∈ members, OnRing hashSpace id)
    (nonempty : members ≠ []) : ∃ id, successor hashSpace position members = some id := by
  cases found : successor hashSpace position members with
  | some id => exact ⟨id, rfl⟩
  | none =>
    obtain ⟨id, inside⟩ := List.exists_mem_of_ne_nil members nonempty
    have far := nearest_eq_none_iff.mp found id inside
    have near := clockwise_lt place (within id inside)
    omega

/-- The successor is the member that no other one is nearer than. -/
theorem successor_eq_iff (place : OnRing hashSpace position) (within : ∀ id ∈ members, OnRing hashSpace id)
    (inside : id ∈ members) :
    successor hashSpace position members = some id ↔
      ∀ other ∈ members, clockwise hashSpace position id ≤ clockwise hashSpace position other := by
  constructor
  · intro found other present
    exact nearest_le found present
  · intro closest
    obtain ⟨best, found⟩ := successor_isSome place within (List.ne_nil_of_mem inside)
    have present := successor_mem found
    have same := Int.le_antisymm (closest best present) (nearest_le found inside)
    rw [found, clockwise_injective place (within id inside) (within best present) same]

end Layout

section Arithmetic

variable {ring : ChordRing} {nodeId key : Int}

/-- The numbers of `int`. -/
def IsInt (value : Int) : Prop := -2 ^ 31 ≤ value ∧ value < 2 ^ 31

/-- The sums that lookups and fingers are made with are of `int`. -/
structure SumsFit (ring : ChordRing) : Prop where
  farthest : IsInt (ring.hashSpace + 1)
  distance : ∀ id ∈ ids ring.nodes, ∀ key, IsInt (id - dhtHash key ring.hashSpace) ∧
    IsInt (id - dhtHash key ring.hashSpace + ring.hashSpace)
  start : ∀ id ∈ ids ring.nodes, ∀ k < DHT_FINGER_TABLE_SIZE, IsInt (id + ((1 <<< k : Nat) : Int))

/-- The active nodes have places of their own on a ring that is small enough for all sums. -/
structure Regular (ring : ChordRing) : Prop where
  positive : 0 < ring.hashSpace
  bounded : ring.hashSpace ≤ 2 ^ 30
  within : ∀ id ∈ ids ring.nodes, OnRing ring.hashSpace id
  distinct : (ids ring.nodes).Nodup

theorem Regular.sumsFit (regular : Regular ring) : SumsFit ring := by
  have positive := regular.positive
  have bounded := regular.bounded
  refine ⟨⟨by omega, by omega⟩, ?_, ?_⟩
  · intro id inside key
    obtain ⟨nonnegative, below⟩ := regular.within id inside
    obtain ⟨nonnegativeToo, belowToo⟩ := dhtHash_onRing key positive
    exact ⟨⟨by omega, by omega⟩, ⟨by omega, by omega⟩⟩
  · intro id inside k small
    obtain ⟨nonnegative, below⟩ := regular.within id inside
    have shift : 1 <<< k ≤ 128 := by
      rw [Nat.one_shiftLeft]
      exact Nat.pow_le_pow_right (by decide) (Nat.le_of_lt_succ small)
    generalize 1 <<< k = step at shift
    exact ⟨by omega, by omega⟩

theorem regular_init {hashSpace : Int} (bounded : hashSpace ≤ 2 ^ 30) : Regular (chordInit hashSpace) := by
  refine ⟨chordInit_positive hashSpace, ?_, ?_, List.nodup_nil⟩
  · unfold chordInit
    split_ifs
    · exact bounded
    · decide
  · simp [chordInit, ids, actives]

theorem Regular.join (regular : Regular ring) (place : OnRing ring.hashSpace nodeId) :
    Regular (chordJoin ring nodeId).1 := by
  have space := hashSpace_join ring nodeId
  have joined := ids_join ring nodeId
  by_cases refused : ring.nodes.length ≥ DHT_MAX_NODES ∨ nodeId ∈ ids ring.nodes
  · rw [chordJoin_refused refused]
    exact regular
  · rw [if_neg refused] at joined
    refine ⟨space ▸ regular.positive, space ▸ regular.bounded, ?_, ?_⟩
    · rw [joined, space]
      exact List.forall_mem_append.mpr ⟨regular.within, List.forall_mem_singleton.mpr place⟩
    · rw [joined, ← List.concat_eq_append]
      exact regular.distinct.concat (not_or.mp refused).2

theorem Regular.leave (regular : Regular ring) (nodeId : Int) : Regular (chordLeave ring nodeId).1 := by
  have space := hashSpace_leave ring nodeId
  have left := ids_leave nodeId regular.distinct
  refine ⟨space ▸ regular.positive, space ▸ regular.bounded, ?_, left ▸ regular.distinct.filter _⟩
  rw [left, space]
  exact fun id inside => regular.within id (List.mem_filter.mp inside).1

theorem hashSpace_store (ring : ChordRing) (nodeId key : Int) :
    (chordStore ring nodeId key).hashSpace = ring.hashSpace := by
  unfold chordStore
  split <;> rfl

theorem store_id (key : Int) (node : DHTNode) : (node.store key).id = node.id := by
  unfold DHTNode.store
  split_ifs <;> rfl

theorem ids_store (ring : ChordRing) (nodeId key : Int) : ids (chordStore ring nodeId key).nodes = ids ring.nodes := by
  rw [ids, actives_store]
  exact Table.map_update (store_id key)

theorem Regular.store (regular : Regular ring) (nodeId key : Int) : Regular (chordStore ring nodeId key) := by
  have space := hashSpace_store ring nodeId key
  have same := ids_store ring nodeId key
  exact ⟨space ▸ regular.positive, space ▸ regular.bounded, space ▸ same ▸ regular.within, same ▸ regular.distinct⟩

end Arithmetic

end MiniNetDist.SystemTheory.Dht
