import MiniNetDist.Library.Nearest
import MiniNetDist.Library.Run

/-! Consistent hashing with virtual nodes, as in `mini-dist-system-theory/src/dht.c`. The list of
virtual nodes is the part of the array that is in use; arithmetic on `int` does not overflow. -/

namespace MiniNetDist.SystemTheory.Dht

open Library Library.Nearest

def DHT_MAX_NODES : Nat := 64
def DHT_HASH_SPACE : Int := 256
def DHT_MAX_VNODES : Nat := 4

/-- The product is one of `unsigned int`. -/
def dhtHash (key space : Int) : Int := key % 4294967296 * 2654435761 % 4294967296 % (space % 4294967296)

structure VirtualNode where
  vnodeId : Nat
  physicalNode : Int
  position : Int
  deriving DecidableEq, Repr

structure ConsistentHashRing where
  vnodes : List VirtualNode
  totalSlots : Int
  deriving DecidableEq, Repr

def chInit (totalSlots : Int) : ConsistentHashRing :=
  ⟨[], if totalSlots > 0 then totalSlots else DHT_HASH_SPACE⟩

/-- One round of the loop of `ch_add_node`; once the array is full, the others do nothing either. -/
def chAddVnode (physicalNode : Int) (chr : ConsistentHashRing) (v : Nat) : ConsistentHashRing :=
  if chr.vnodes.length ≥ DHT_MAX_NODES * DHT_MAX_VNODES then chr
  else
    let vnode := ⟨chr.vnodes.length, physicalNode, dhtHash (physicalNode * 1000 + v) chr.totalSlots⟩
    { chr with vnodes := chr.vnodes ++ [vnode] }

def chAddNode (chr : ConsistentHashRing) (physicalNode numVnodes : Int) : ConsistentHashRing :=
  (List.range numVnodes.toNat).foldl (chAddVnode physicalNode) chr

/-- One round of the loop of `ch_remove_node`, on the array and the `write` index. -/
def chCompact (physicalNode : Int) (state : List VirtualNode × Nat) (read : Nat) : List VirtualNode × Nat :=
  match state.1[read]? with
  | some vnode =>
    if vnode.physicalNode ≠ physicalNode then (state.1.set state.2 vnode, state.2 + 1) else state
  | none => state

def chRemoveNode (chr : ConsistentHashRing) (physicalNode : Int) : ConsistentHashRing :=
  let compacted := (List.range chr.vnodes.length).foldl (chCompact physicalNode) (chr.vnodes, 0)
  { chr with vnodes := compacted.1.take compacted.2 }

/-- The way from the hash clockwise to the virtual node. -/
def VirtualNode.distance (totalSlots hash : Int) (vnode : VirtualNode) : Int :=
  (vnode.position - hash + totalSlots).tmod totalSlots

/-- The loop of `ch_lookup`. -/
def chBest (totalSlots key : Int) (vnodes : List VirtualNode) : Option VirtualNode :=
  nearest (VirtualNode.distance totalSlots (dhtHash key totalSlots)) (totalSlots + 1) vnodes

def chLookup (chr : ConsistentHashRing) (key : Int) : Int :=
  match chBest chr.totalSlots key chr.vnodes with
  | some vnode => vnode.physicalNode
  | none => -1

inductive ChCall where
  | add (physicalNode numVnodes : Int)
  | remove (physicalNode : Int)
  deriving DecidableEq, Repr

def chStep (chr : ConsistentHashRing) : ChCall → ConsistentHashRing
  | .add physicalNode numVnodes => chAddNode chr physicalNode numVnodes
  | .remove physicalNode => chRemoveNode chr physicalNode

variable {chr : ConsistentHashRing} {x : Int}

/-- Compaction keeps the virtual nodes of the others, in their order. -/
theorem chCompact_fold (vnodes : List VirtualNode) (n : Nat) (bound : n ≤ vnodes.length) :
    let state := (List.range n).foldl (chCompact x) (vnodes, 0)
    state.2 ≤ n ∧ state.1.length = vnodes.length ∧ state.1.drop n = vnodes.drop n ∧
      state.1.take state.2 = (vnodes.take n).filter fun vnode => vnode.physicalNode ≠ x := by
  induction n with
  | zero => simp
  | succ n ih =>
    obtain ⟨written, length, unread, kept⟩ := ih (Nat.le_of_succ_le bound)
    rw [List.range_succ, List.foldl_append, List.foldl_cons, List.foldl_nil]
    generalize (List.range n).foldl (chCompact x) (vnodes, 0) = state at written length unread kept
    obtain ⟨array, write⟩ := state
    simp only at written length unread kept
    have current : array[n]? = some (vnodes.get ⟨n, bound⟩) := by
      have head : (array.drop n)[0]? = (vnodes.drop n)[0]? := by rw [unread]
      rw [List.getElem?_drop, List.getElem?_drop, Nat.add_zero] at head
      rw [head]
      exact List.getElem?_eq_getElem bound
    have further : array.drop (n + 1) = vnodes.drop (n + 1) := by
      rw [← List.drop_drop, ← List.drop_drop, unread]
    have next : vnodes.take (n + 1) = vnodes.take n ++ [vnodes.get ⟨n, bound⟩] :=
      (List.take_append_getElem bound).symm
    generalize vnodes.get ⟨n, bound⟩ = vnode at current next
    unfold chCompact
    rw [current, next, List.filter_append, ← kept]
    simp only
    by_cases other : vnode.physicalNode ≠ x
    · rw [if_pos other]
      refine ⟨Nat.succ_le_succ written, by rw [List.length_set]; exact length, ?_, ?_⟩
      · rw [List.drop_set_of_lt (Nat.lt_succ_of_le written)]
        exact further
      · rw [List.take_add_one, List.getElem?_set_self (by omega), List.take_set_of_le (Nat.le_refl _)]
        simp [other]
    · rw [if_neg other]
      refine ⟨Nat.le_succ_of_le written, length, further, ?_⟩
      simp [not_not.mp other]

theorem chRemoveNode_vnodes (chr : ConsistentHashRing) (x : Int) :
    (chRemoveNode chr x).vnodes = chr.vnodes.filter fun vnode => vnode.physicalNode ≠ x := by
  have kept := (chCompact_fold (x := x) chr.vnodes chr.vnodes.length (Nat.le_refl _)).2.2.2
  rw [List.take_length] at kept
  exact kept

/-- Adding a node appends virtual nodes of that node. -/
theorem chAddNode_vnodes (chr : ConsistentHashRing) (x numVnodes : Int) :
    ∃ added, (∀ vnode ∈ added, vnode.physicalNode = x) ∧
      chAddNode chr x numVnodes = { chr with vnodes := chr.vnodes ++ added } := by
  have keeps : ∀ (rounds : List Nat) (chr : ConsistentHashRing), ∃ added, (∀ vnode ∈ added, vnode.physicalNode = x) ∧
      rounds.foldl (chAddVnode x) chr = { chr with vnodes := chr.vnodes ++ added } := by
    intro rounds
    induction rounds with
    | nil => exact fun chr => ⟨[], by simp, by simp⟩
    | cons v rest ih =>
      intro chr
      obtain ⟨added, own, result⟩ := ih (chAddVnode x chr v)
      rw [List.foldl_cons, result]
      unfold chAddVnode
      split_ifs
      · exact ⟨added, own, rfl⟩
      · refine ⟨⟨chr.vnodes.length, x, dhtHash (x * 1000 + v) chr.totalSlots⟩ :: added, ?_, by simp⟩
        intro vnode inside
        rcases List.mem_cons.mp inside with rfl | later
        · rfl
        · exact own vnode later
  exact keeps _ chr

/-- A new node takes keys for itself and moves no others. -/
theorem chLookup_add (chr : ConsistentHashRing) (x numVnodes key : Int) :
    chLookup (chAddNode chr x numVnodes) key = chLookup chr key ∨ chLookup (chAddNode chr x numVnodes) key = x := by
  obtain ⟨added, own, result⟩ := chAddNode_vnodes chr x numVnodes
  have split : chBest chr.totalSlots key (chr.vnodes ++ added) = chBest chr.totalSlots key chr.vnodes ∨
      ∃ vnode ∈ added, chBest chr.totalSlots key (chr.vnodes ++ added) = some vnode := nearest_append ..
  rw [result]
  unfold chLookup
  dsimp only
  rcases split with same | ⟨vnode, inside, found⟩
  · rw [same]
    exact .inl rfl
  · rw [found]
    exact .inr (own vnode inside)

/-- A node that goes takes only its own keys with it. -/
theorem chLookup_remove (chr : ConsistentHashRing) (x key : Int) (other : chLookup chr key ≠ x) :
    chLookup (chRemoveNode chr x) key = chLookup chr key := by
  have slots : (chRemoveNode chr x).totalSlots = chr.totalSlots := rfl
  unfold chLookup at other ⊢
  rw [slots, chRemoveNode_vnodes]
  cases found : chBest chr.totalSlots key chr.vnodes with
  | none => rw [chBest, nearest_filter_none found]
  | some vnode =>
    rw [found] at other
    rw [chBest, nearest_filter found (by simpa using other)]

theorem chStep_totalSlots (chr : ConsistentHashRing) (call : ChCall) : (chStep chr call).totalSlots = chr.totalSlots := by
  cases call with
  | add physicalNode numVnodes =>
    obtain ⟨added, -, result⟩ := chAddNode_vnodes chr physicalNode numVnodes
    rw [chStep, result]
  | remove physicalNode => rfl

/-- Only `ch_add_node` brings virtual nodes of a node to the ring. -/
theorem chStep_absent (absent : ∀ vnode ∈ chr.vnodes, vnode.physicalNode ≠ x) (call : ChCall)
    (notAdded : ∀ numVnodes, call ≠ .add x numVnodes) : ∀ vnode ∈ (chStep chr call).vnodes, vnode.physicalNode ≠ x := by
  cases call with
  | add physicalNode numVnodes =>
    obtain ⟨added, own, result⟩ := chAddNode_vnodes chr physicalNode numVnodes
    rw [chStep, result]
    intro vnode inside
    rcases List.mem_append.mp inside with old | new
    · exact absent vnode old
    · rw [own vnode new]
      rintro rfl
      exact notAdded numVnodes rfl
  | remove physicalNode =>
    rw [chStep, chRemoveNode_vnodes]
    exact fun vnode inside => absent vnode (List.mem_filter.mp inside).1

theorem chLookup_eq_iff_of_absent (slots : 0 < chr.totalSlots) (absent : ∀ vnode ∈ chr.vnodes, vnode.physicalNode ≠ x)
    (key : Int) : chLookup chr key = x ↔ x = -1 ∧ chr.vnodes = [] := by
  unfold chLookup
  constructor
  · intro found
    cases result : chBest chr.totalSlots key chr.vnodes with
    | some vnode =>
      rw [result] at found
      exact absurd found (absent vnode (nearest_mem result))
    | none =>
      rw [result] at found
      refine ⟨found.symm, List.eq_nil_iff_forall_not_mem.mpr fun vnode inside => ?_⟩
      have far := nearest_eq_none_iff.mp result vnode inside
      have near : vnode.distance chr.totalSlots (dhtHash key chr.totalSlots) < chr.totalSlots := Int.tmod_lt_of_pos _ slots
      omega
  · rintro ⟨rfl, empty⟩
    rw [empty]
    rfl

/-- Adding a node moves keys to it only, and removing one moves only the keys it had. A node that was
removed is not returned again, except that -1 also stands for an empty ring. -/
theorem ch_minimal_disruption {totalSlots : Int} (reached : Reaches chStep Always (chInit totalSlots) chr)
    (x key : Int) :
    (∀ numVnodes, chLookup (chAddNode chr x numVnodes) key = chLookup chr key ∨
      chLookup (chAddNode chr x numVnodes) key = x) ∧
    (chLookup chr key ≠ x → chLookup (chRemoveNode chr x) key = chLookup chr key) ∧
    ∀ later, Reaches chStep (fun _ call => ∀ numVnodes, call ≠ .add x numVnodes) (chRemoveNode chr x) later →
      (chLookup later key = x ↔ x = -1 ∧ later.vnodes = []) := by
  have slots : 0 < chr.totalSlots := by
    refine reached.invariant (motive := fun chr => 0 < chr.totalSlots) ?_ ?_
    · change 0 < if totalSlots > 0 then totalSlots else DHT_HASH_SPACE
      split_ifs with positive
      · exact positive
      · decide
    · intro chr call positive _
      rw [chStep_totalSlots]
      exact positive
  refine ⟨fun numVnodes => chLookup_add chr x numVnodes key, chLookup_remove chr x key, ?_⟩
  intro later afterwards
  have gone := afterwards.invariant
    (motive := fun later => 0 < later.totalSlots ∧ ∀ vnode ∈ later.vnodes, vnode.physicalNode ≠ x) ?_ ?_
  · exact chLookup_eq_iff_of_absent gone.1 gone.2 key
  · refine ⟨slots, ?_⟩
    rw [chRemoveNode_vnodes]
    intro vnode inside
    simpa using (List.mem_filter.mp inside).2
  · rintro later call ⟨positive, absent⟩ notAdded
    refine ⟨?_, chStep_absent absent call notAdded⟩
    rw [chStep_totalSlots]
    exact positive

/-- Nodes 1 and 2 are added, and node 1 is removed again. -/
def twoThenOne : ConsistentHashRing := [ChCall.add 1 2, .add 2 2].foldl chStep (chInit 256)

theorem ch_twoThenOne :
    chLookup (chRemoveNode twoThenOne 1) 7 = 2 ∧
    (chLookup (chRemoveNode twoThenOne 1) 7 = 1 ↔ (1 : Int) = -1 ∧ (chRemoveNode twoThenOne 1).vnodes = []) :=
  ⟨by decide, (ch_minimal_disruption (Reaches.ofFold _) 1 7).2.2 _ .refl⟩

/-- Node -1 is added and removed, and a lookup in the empty ring still says -1. -/
theorem removed_sentinel :
    chLookup (chRemoveNode (chAddNode (chInit 256) (-1) 1) (-1)) 0 = -1 := by decide

end MiniNetDist.SystemTheory.Dht
