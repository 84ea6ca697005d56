import MiniNetDist.SystemTheory.PnCounter
import Mathlib.Algebra.BigOperators.Fin
import Mathlib.Algebra.Order.BigOperators.Group.Finset

/-! Counters for different numbers of nodes. A merge takes over what the other counter holds for nodes that this one
does not know, but leaves its number of nodes as it is, and the value adds up the known nodes only. -/

namespace MiniNetDist.SystemTheory.PnCounter

open Library

/-- The counters that calls can make, for at most as many nodes as there is room for. -/
inductive GcReachable : GCounter → Prop where
  | init {nodeCount : Int} (some_node : 1 ≤ nodeCount) (room : nodeCount ≤ CRDT_MAX_NODES) :
      GcReachable (gcInit nodeCount)
  | inc {gc : GCounter} (earlier : GcReachable gc) (nodeId : Int) : GcReachable (gcInc gc nodeId)
  | merge {gc other : GCounter} (earlier : GcReachable gc) (others : GcReachable other) :
      GcReachable (gcMerge gc other)

/-- A merge with another counter loses nothing, and gives the same value either way. -/
structure MergesUp (gc other : GCounter) : Prop where
  own : gcValue gc ≤ gcValue (gcMerge gc other)
  others : gcValue other ≤ gcValue (gcMerge gc other)
  agree : gcValue (gcMerge gc other) = gcValue (gcMerge other gc)

/-- Nothing was counted for a node that only one of the two counters knows. -/
def SameNodes (gc other : GCounter) : Prop :=
  ∀ slot : Fin CRDT_MAX_NODES, min gc.nodeCount other.nodeCount ≤ slot.val →
    (slot.val : Int) < max gc.nodeCount other.nodeCount → gc.counters slot = 0 ∧ other.counters slot = 0

/-- The counts of the nodes below a number, added up. -/
def countBelow (nodeCount : Int) (counts : Fin CRDT_MAX_NODES → Nat) : Nat :=
  (Finset.univ.filter fun slot : Fin CRDT_MAX_NODES => (slot.val : Int) < nodeCount).sum counts

/-- The larger count of each node. -/
def larger (gc other : GCounter) (slot : Fin CRDT_MAX_NODES) : Nat :=
  max (gc.counters slot).toNat (other.counters slot).toNat

/-- The sum of the larger counts has 64 bits. -/
def Fits (gc other : GCounter) : Prop :=
  countBelow (max gc.nodeCount other.nodeCount) (larger gc other) < UInt64.size

instance (gc other : GCounter) : Decidable (Fits gc other) := Nat.decLt _ _

section Sums

variable {gc other : GCounter} {counts above : Fin CRDT_MAX_NODES → Nat} {fewer more : Int}

/-- The loop of `gc_value` adds up the counts in 64 bits. -/
theorem toNat_gcFold (gc : GCounter) (slots : List (Fin CRDT_MAX_NODES)) (total : UInt64) :
    (slots.foldl (gcAdd gc) total).toNat = (total.toNat + (slots.map fun slot =>
      if (slot.val : Int) < gc.nodeCount then (gc.counters slot).toNat else 0).sum) % UInt64.size := by
  induction slots generalizing total with
  | nil => exact (Nat.mod_eq_of_lt total.toNat_lt).symm
  | cons slot rest ih =>
    rw [List.foldl_cons, ih, List.map_cons, List.sum_cons, gcAdd]
    split_ifs
    · rw [UInt64.toNat_add, ← Nat.add_assoc]
      exact Nat.mod_add_mod _ _ _
    · rw [Nat.zero_add]

theorem toNat_gcValue (gc : GCounter) :
    (gcValue gc).toNat = countBelow gc.nodeCount (fun slot => (gc.counters slot).toNat) % UInt64.size := by
  rw [gcValue, toNat_gcFold, countBelow, Finset.sum_filter, Fin.sum_univ_def]
  exact congrArg (· % UInt64.size) (Nat.zero_add _)

theorem countBelow_le (within : ∀ slot, counts slot ≤ above slot) (nodeCount : Int) :
    countBelow nodeCount counts ≤ countBelow nodeCount above :=
  Finset.sum_le_sum fun slot _ => within slot

theorem countBelow_mono (counts : Fin CRDT_MAX_NODES → Nat) (known : fewer ≤ more) :
    countBelow fewer counts ≤ countBelow more counts := by
  apply Finset.sum_le_sum_of_subset
  intro slot inside
  rw [Finset.mem_filter] at inside ⊢
  exact ⟨inside.1, Int.lt_of_lt_of_le inside.2 known⟩

/-- More nodes have the same sum exactly if nothing was counted for those in addition. -/
theorem countBelow_eq_iff (counts : Fin CRDT_MAX_NODES → Nat) (known : fewer ≤ more) :
    countBelow fewer counts = countBelow more counts ↔
      ∀ slot : Fin CRDT_MAX_NODES, fewer ≤ slot.val → (slot.val : Int) < more → counts slot = 0 := by
  have split : countBelow more counts = countBelow fewer counts +
      (Finset.univ.filter fun slot : Fin CRDT_MAX_NODES => fewer ≤ slot.val ∧ (slot.val : Int) < more).sum counts := by
    simp only [countBelow, Finset.sum_filter, ← Finset.sum_add_distrib]
    apply Finset.sum_congr rfl
    intro slot _
    split_ifs <;> omega
  rw [split, left_eq_add, Finset.sum_eq_zero_iff]
  constructor
  · intro zero slot unknown inside
    exact zero slot (Finset.mem_filter.mpr ⟨Finset.mem_univ _, unknown, inside⟩)
  · intro zero slot between
    obtain ⟨-, unknown, inside⟩ := Finset.mem_filter.mp between
    exact zero slot unknown inside

end Sums

section Merging

variable {gc other : GCounter}

theorem larger_comm (gc other : GCounter) : larger gc other = larger other gc :=
  funext fun _ => Nat.max_comm _ _

theorem fits_comm (fits : Fits gc other) : Fits other gc := by
  rw [Fits, larger_comm, Int.max_comm]
  exact fits

/-- Where one of the two counters knows a node, the merge holds the larger count. -/
theorem toNat_gcMerge (slot : Fin CRDT_MAX_NODES) (known : (slot.val : Int) < max gc.nodeCount other.nodeCount) :
    ((gcMerge gc other).counters slot).toNat = larger gc other slot := by
  have bound := slot.isLt
  have within : (slot.val : Int) < (if (if gc.nodeCount > other.nodeCount then gc.nodeCount else other.nodeCount) >
      CRDT_MAX_NODES then (CRDT_MAX_NODES : Int) else
      if gc.nodeCount > other.nodeCount then gc.nodeCount else other.nodeCount) := by
    split_ifs <;> omega
  rw [larger, gcMerge]
  dsimp only
  by_cases more : other.counters slot > gc.counters slot
  · rw [if_pos ⟨within, more⟩]
    exact (Nat.max_eq_right (Nat.le_of_lt (UInt64.lt_iff_toNat_lt.mp more))).symm
  · rw [if_neg fun both => more both.2]
    exact (Nat.max_eq_left (UInt64.le_iff_toNat_le.mp (UInt64.not_lt.mp more))).symm

/-- The value of a merge, as long as the larger counts have a sum of 64 bits. -/
theorem toNat_value_gcMerge (fits : Fits gc other) :
    (gcValue (gcMerge gc other)).toNat = countBelow gc.nodeCount (larger gc other) := by
  have known : gc.nodeCount ≤ max gc.nodeCount other.nodeCount := Int.le_max_left _ _
  have same : countBelow gc.nodeCount (fun slot => ((gcMerge gc other).counters slot).toNat) =
      countBelow gc.nodeCount (larger gc other) := by
    apply Finset.sum_congr rfl
    intro slot inside
    exact toNat_gcMerge slot (Int.lt_of_lt_of_le (Finset.mem_filter.mp inside).2 known)
  rw [toNat_gcValue]
  change countBelow gc.nodeCount _ % _ = _
  rw [same]
  exact Nat.mod_eq_of_lt (Nat.lt_of_le_of_lt (countBelow_mono _ known) fits)

theorem toNat_value_le (gc other : GCounter) :
    (gcValue gc).toNat ≤ countBelow gc.nodeCount (larger gc other) := by
  rw [toNat_gcValue]
  exact Nat.le_trans (Nat.mod_le _ _) (countBelow_le (fun slot => Nat.le_max_left _ _) _)

/-- Both values of a merge agree exactly if nothing was counted for a node that only one of the counters knows. -/
theorem countBelow_agree_iff (gc other : GCounter) :
    countBelow gc.nodeCount (larger gc other) = countBelow other.nodeCount (larger gc other) ↔ SameNodes gc other := by
  have none_iff (slot : Fin CRDT_MAX_NODES) :
      larger gc other slot = 0 ↔ gc.counters slot = 0 ∧ other.counters slot = 0 := by
    rw [larger, Nat.max_eq_zero_iff, ← UInt64.toNat_inj, ← UInt64.toNat_inj]
    rfl
  rcases Int.le_total gc.nodeCount other.nodeCount with fewer | fewer
  · rw [countBelow_eq_iff _ fewer, SameNodes, Int.min_eq_left fewer, Int.max_eq_right fewer]
    simp only [none_iff]
  · rw [eq_comm, countBelow_eq_iff _ fewer, SameNodes, Int.min_eq_right fewer, Int.max_eq_left fewer]
    simp only [none_iff]

/-- For any two counters whose larger counts have a sum of 64 bits, the merge is an upper bound and gives the same
value either way exactly if nothing was counted for a node that only one of them knows. -/
theorem gcMerge_mergesUp_iff (gc other : GCounter) (fits : Fits gc other) :
    MergesUp gc other ↔ SameNodes gc other := by
  have merged := toNat_value_gcMerge fits
  have reversed := toNat_value_gcMerge (fits_comm fits)
  rw [larger_comm] at reversed
  rw [← countBelow_agree_iff]
  constructor
  · intro up
    rw [← merged, ← reversed, up.agree]
  · intro agree
    have otherwise := toNat_value_le other gc
    rw [larger_comm] at otherwise
    refine ⟨?_, ?_, ?_⟩
    · rw [UInt64.le_iff_toNat_le, merged]
      exact toNat_value_le gc other
    · rw [UInt64.le_iff_toNat_le, merged, agree]
      exact otherwise
    · rw [← UInt64.toNat_inj, merged, reversed, agree]

/-- A counter for one node, and one for two whose second node has counted once. -/
def oneNode : GCounter := gcInit 1

def secondCounted : GCounter := gcInc (gcInit 2) 1

/-- Both nodes are known to both counters. -/
theorem gcMerge_mergesUp_sameSize : MergesUp (gcInc (gcInit 2) 0) secondCounted :=
  (gcMerge_mergesUp_iff (gcInc (gcInit 2) 0) secondCounted (by decide)).mpr
    fun _ unknown inside => absurd (Int.lt_of_le_of_lt unknown inside) (by decide)

/-- What the second node has counted is lost in the counter for one node. -/
theorem gcMerge_loses : GcReachable oneNode ∧ GcReachable secondCounted ∧
    gcValue (gcMerge oneNode secondCounted) = 0 ∧ gcValue secondCounted = 1 ∧
    gcValue (gcMerge secondCounted oneNode) = 1 ∧ ¬MergesUp oneNode secondCounted := by
  refine ⟨.init (by decide) (by decide), .inc (.init (by decide) (by decide)) 1, by decide, by decide, by decide, ?_⟩
  intro up
  exact absurd up.others (by decide)

end Merging

end MiniNetDist.SystemTheory.PnCounter
