import MiniNetDist.AppProtocol.H2Priority
import MiniNetDist.Library.Apportion
import Mathlib.Algebra.Order.BigOperators.Group.List

/-! How `mini-app-protocol/src/http2_frames.c` divides bandwidth among the children of a stream in proportion to their
weights. A child whose share would be nothing is given one unit, which is not taken from the others. -/

namespace MiniNetDist.AppProtocol.H2Priority

open Library

/-- The loop that adds up the weights of the children that are found. -/
def totalWeight (tree : H2PriorityTree) (children : List (BitVec 32)) : BitVec 32 :=
  children.foldl (fun total id =>
    match h2PriorityFind tree id with
    | some child => total + widen 32 child.weight
    | none => total) 0#32

/-- The share of a child, with the product in 64 bits. -/
def bandwidthShare (totalBandwidth totalWeight : BitVec 32) (weight : UInt8) : BitVec 32 :=
  let share := (totalBandwidth.setWidth 64 * widen 64 weight / totalWeight.setWidth 64).setWidth 32
  if share < 1#32 ∧ 0#32 < totalBandwidth then 1#32 else share

/-- The loop over the children; a stream and its share are written as long as there is room for both. -/
def writeShares (tree : H2PriorityTree) (totalBandwidth totalWeight : BitVec 32) (maxAllocations : Nat) :
    List (BitVec 32) → List (BitVec 32) → List (BitVec 32)
  | [], allocations => allocations
  | id :: rest, allocations =>
    if allocations.length < maxAllocations then
      match h2PriorityFind tree id with
      | none => writeShares tree totalBandwidth totalWeight maxAllocations rest allocations
      | some child =>
        let share := bandwidthShare totalBandwidth totalWeight child.weight
        writeShares tree totalBandwidth totalWeight maxAllocations rest
          (if allocations.length + 1 < maxAllocations then allocations ++ [child.selfStreamId, share] else allocations)
    else allocations

/-- What is written to the array; half its length is returned. -/
def h2PriorityAllocateBandwidth (tree : H2PriorityTree) (parentId totalBandwidth : BitVec 32) (maxAllocations : Nat) :
    Except Int (List (BitVec 32)) :=
  match h2PriorityFind tree parentId with
  | none => .error (-2)
  | some parent =>
    if parent.children.length = 0 then .error (-2)
    else
      let totalWeight := totalWeight tree parent.children
      if totalWeight = 0#32 then .error (-3)
      else .ok (writeShares tree totalBandwidth totalWeight maxAllocations parent.children [])

/-- The children that are found. -/
def foundChildren (tree : H2PriorityTree) (children : List (BitVec 32)) : List H2PriorityNode :=
  children.filterMap (h2PriorityFind tree)

/-- A child and the share that is written for it. -/
structure Allotment where
  child : H2PriorityNode
  share : BitVec 32
  deriving DecidableEq, Repr

def Allotment.weight (allotment : Allotment) : Nat := allotment.child.weight.toNat

def Allotment.written (allotment : Allotment) : List (BitVec 32) := [allotment.child.selfStreamId, allotment.share]

/-- The allotments of a bandwidth. Up to one unit for each child whose share would be less than that, of a bandwidth that
is not 0, their sum is at most the bandwidth; they grow with the weights and are within one unit of the shares in
proportion. -/
structure Divided (totalBandwidth : Nat) (allotments : List Allotment) : Prop where
  sum_le : (allotments.map (·.share.toNat)).sum ≤ totalBandwidth +
    allotments.countP (Apportion.BelowOne totalBandwidth (allotments.map (·.weight)).sum ·.weight)
  monotone : ∀ first ∈ allotments, ∀ second ∈ allotments, first.weight ≤ second.weight →
    first.share.toNat ≤ second.share.toNat
  close : ∀ allotment ∈ allotments,
    allotment.share.toNat * (allotments.map (·.weight)).sum ≤
      totalBandwidth * allotment.weight + (allotments.map (·.weight)).sum ∧
    totalBandwidth * allotment.weight < (allotment.share.toNat + 1) * (allotments.map (·.weight)).sum

variable {tree : H2PriorityTree} {children : List (BitVec 32)} {totalBandwidth : BitVec 32} {weight : UInt8}

section Loops

/-- The loop adds up the weights modulo 32 bits. -/
theorem totalWeight_foldl (children : List (BitVec 32)) (total : BitVec 32) :
    (children.foldl (fun total id =>
      match h2PriorityFind tree id with
      | some child => total + widen 32 child.weight
      | none => total) total).toNat =
      (total.toNat + ((foundChildren tree children).map (·.weight.toNat)).sum) % 4294967296 := by
  induction children generalizing total with
  | nil => exact (Nat.mod_eq_of_lt total.isLt).symm
  | cons id rest ih =>
    rw [List.foldl_cons, ih, foundChildren, foundChildren]
    cases found : h2PriorityFind tree id with
    | none => rw [List.filterMap_cons_none found]
    | some child =>
      have narrow : (widen 32 child.weight).toNat = child.weight.toNat := by
        rw [widen, BitVec.toNat_setWidth]
        exact Nat.mod_eq_of_lt (Nat.lt_trans child.weight.toNat_lt (by decide))
      rw [List.filterMap_cons_some found, List.map_cons, List.sum_cons, BitVec.toNat_add, narrow, ← Nat.add_assoc]
      exact Nat.mod_add_mod _ _ _

/-- The weights of the children that fit a node have a sum of 32 bits. -/
theorem toNat_totalWeight (fits : children.length ≤ H2_MAX_PRIORITY_NODES) :
    (totalWeight tree children).toNat = ((foundChildren tree children).map (·.weight.toNat)).sum := by
  have each : ((foundChildren tree children).map (·.weight.toNat)).sum ≤ (foundChildren tree children).length * 255 := by
    have most := List.sum_le_card_nsmul ((foundChildren tree children).map (·.weight.toNat)) 255 (by
      intro weight inside
      obtain ⟨child, -, rfl⟩ := List.mem_map.mp inside
      exact Nat.le_of_lt_succ child.weight.toNat_lt)
    rw [List.length_map] at most
    exact most
  have fewer : (foundChildren tree children).length ≤ children.length := List.length_filterMap_le _ _
  rw [totalWeight, totalWeight_foldl]
  have most : H2_MAX_PRIORITY_NODES = 32 := rfl
  have zero : (0#32).toNat = 0 := rfl
  rw [zero, Nat.zero_add]
  exact Nat.mod_eq_of_lt (by omega)

/-- With room for all, every child that is found is written with its share. -/
theorem writeShares_eq {maxAllocations : Nat} (totalWeight : BitVec 32) (allocations : List (BitVec 32))
    (room : allocations.length + 2 * children.length ≤ maxAllocations) :
    writeShares tree totalBandwidth totalWeight maxAllocations children allocations =
      allocations ++ (foundChildren tree children).flatMap fun child =>
        [child.selfStreamId, bandwidthShare totalBandwidth totalWeight child.weight] := by
  induction children generalizing allocations with
  | nil => exact (List.append_nil _).symm
  | cons id rest ih =>
    rw [List.length_cons] at room
    rw [writeShares, if_pos (by omega), foundChildren]
    cases found : h2PriorityFind tree id with
    | none =>
      rw [List.filterMap_cons_none found]
      exact ih allocations (by omega)
    | some child =>
      rw [List.filterMap_cons_some found, List.flatMap_cons, ← List.append_assoc]
      dsimp only
      rw [if_pos (by omega)]
      refine ih _ ?_
      rw [List.length_append, List.length_cons, List.length_singleton]
      omega

end Loops

section Shares

theorem toNat_bandwidthShare {totalWeight : BitVec 32} (among : weight.toNat ≤ totalWeight.toNat) :
    (bandwidthShare totalBandwidth totalWeight weight).toNat =
      Apportion.share totalBandwidth.toNat totalWeight.toNat weight.toNat := by
  have bandwidth := totalBandwidth.isLt
  have small : weight.toNat < 256 := weight.toNat_lt
  have wide (word : BitVec 32) : (word.setWidth 64).toNat = word.toNat := by
    rw [BitVec.toNat_setWidth]
    exact Nat.mod_eq_of_lt (Nat.lt_trans word.isLt (by decide))
  have narrow : (widen 64 weight).toNat = weight.toNat := by
    rw [widen, BitVec.toNat_setWidth]
    exact Nat.mod_eq_of_lt (Nat.lt_trans small (by decide))
  have product : totalBandwidth.toNat * weight.toNat < 2 ^ 64 :=
    Nat.lt_of_lt_of_le (Nat.mul_lt_mul'' bandwidth small) (by decide)
  have within : totalBandwidth.toNat * weight.toNat / totalWeight.toNat ≤ totalBandwidth.toNat :=
    Nat.div_le_of_le_mul (Nat.mul_comm _ weight.toNat ▸ Nat.mul_le_mul_right _ among)
  have quotient : ((totalBandwidth.setWidth 64 * widen 64 weight / totalWeight.setWidth 64).setWidth 32).toNat =
      totalBandwidth.toNat * weight.toNat / totalWeight.toNat := by
    rw [BitVec.toNat_setWidth, BitVec.toNat_udiv, BitVec.toNat_mul, wide, wide, narrow, Nat.mod_eq_of_lt product]
    exact Nat.mod_eq_of_lt (Nat.lt_of_le_of_lt within bandwidth)
  have one : (1#32).toNat = 1 := rfl
  have zero : (0#32).toNat = 0 := rfl
  rw [bandwidthShare, Apportion.share]
  simp only [BitVec.lt_def, quotient, one, zero]
  split_ifs with raised
  · rw [one]
    omega
  · rw [quotient]
    omega

/-- The allotments of the children that are found. -/
def allotted (tree : H2PriorityTree) (children : List (BitVec 32)) (totalBandwidth : BitVec 32) : List Allotment :=
  (foundChildren tree children).map fun child =>
    ⟨child, bandwidthShare totalBandwidth (totalWeight tree children) child.weight⟩

theorem weights_allotted (children : List (BitVec 32)) (totalBandwidth : BitVec 32) :
    (allotted tree children totalBandwidth).map (·.weight) = (foundChildren tree children).map (·.weight.toNat) := by
  rw [allotted, List.map_map]
  rfl

/-- Each allotment is the share of its weight. -/
theorem share_of_mem_allotted (fits : children.length ≤ H2_MAX_PRIORITY_NODES) {allotment : Allotment}
    (inside : allotment ∈ allotted tree children totalBandwidth) :
    allotment.share.toNat = Apportion.share totalBandwidth.toNat
      ((allotted tree children totalBandwidth).map (·.weight)).sum allotment.weight := by
  obtain ⟨child, found, rfl⟩ := List.mem_map.mp inside
  have total : (totalWeight tree children).toNat = _ := toNat_totalWeight fits
  have among : child.weight.toNat ≤ (totalWeight tree children).toNat :=
    total ▸ List.single_le_sum (fun _ _ => Nat.zero_le _) _ (List.mem_map.mpr ⟨child, found, rfl⟩)
  rw [weights_allotted, ← total]
  exact toNat_bandwidthShare among

theorem allotted_divided (fits : children.length ≤ H2_MAX_PRIORITY_NODES)
    (weighted : totalWeight tree children ≠ 0#32) (totalBandwidth : BitVec 32) :
    Divided totalBandwidth.toNat (allotted tree children totalBandwidth) := by
  have total : (totalWeight tree children).toNat = _ := toNat_totalWeight fits
  have positive : 0 < ((allotted tree children totalBandwidth).map (·.weight)).sum := by
    rw [weights_allotted, ← total]
    exact Nat.pos_of_ne_zero fun zero => weighted (BitVec.eq_of_toNat_eq zero)
  refine ⟨?_, ?_, ?_⟩
  · have same : (allotted tree children totalBandwidth).map (·.share.toNat) =
        ((allotted tree children totalBandwidth).map (·.weight)).map (Apportion.share totalBandwidth.toNat
          ((allotted tree children totalBandwidth).map (·.weight)).sum) := by
      rw [List.map_map]
      exact List.map_congr_left fun allotment inside => share_of_mem_allotted fits inside
    have bound := Apportion.sum_share_le totalBandwidth.toNat _ positive
    rw [same]
    rw [List.countP_map] at bound
    exact bound
  · intro first inside second among lighter
    rw [share_of_mem_allotted fits inside, share_of_mem_allotted fits among]
    exact Apportion.share_mono _ _ lighter
  · intro allotment inside
    rw [share_of_mem_allotted fits inside]
    exact ⟨Apportion.share_mul_le _ _ _, Apportion.lt_share_succ_mul _ positive _⟩

end Shares

section Allocation

/-- For every tree and every stream with children, with room for all of them in the array: unless the children that
are found have no weight, each of them is allotted its share of the bandwidth. -/
theorem h2PriorityAllocateBandwidth_divided (parentId totalBandwidth : BitVec 32) (maxAllocations : Nat)
    {parent : H2PriorityNode} (found : h2PriorityFind tree parentId = some parent)
    (fits : parent.children.length ≤ H2_MAX_PRIORITY_NODES) (some_child : parent.children ≠ [])
    (room : 2 * parent.children.length ≤ maxAllocations) :
    h2PriorityAllocateBandwidth tree parentId totalBandwidth maxAllocations = .error (-3) ∧
        (∀ child ∈ foundChildren tree parent.children, child.weight = 0) ∨
      ∃ allotments, h2PriorityAllocateBandwidth tree parentId totalBandwidth maxAllocations =
          .ok (allotments.flatMap Allotment.written) ∧
        allotments.map (·.child) = foundChildren tree parent.children ∧
        Divided totalBandwidth.toNat allotments := by
  have counted : parent.children.length ≠ 0 := fun none => some_child (List.eq_nil_of_length_eq_zero none)
  rw [h2PriorityAllocateBandwidth, found]
  by_cases weighted : totalWeight tree parent.children = 0#32
  · left
    simp only [if_neg counted, if_pos weighted]
    refine ⟨trivial, ?_⟩
    intro child inside
    have total : (totalWeight tree parent.children).toNat = _ := toNat_totalWeight fits
    have none : ((foundChildren tree parent.children).map (·.weight.toNat)).sum = 0 := by
      rw [← total, weighted]
      rfl
    have least : child.weight.toNat ≤ ((foundChildren tree parent.children).map (·.weight.toNat)).sum :=
      List.single_le_sum (fun _ _ => Nat.zero_le _) _ (List.mem_map.mpr ⟨child, inside, rfl⟩)
    exact UInt8.toNat_inj.mp (Nat.le_zero.mp (none ▸ least))
  · right
    simp only [if_neg counted, if_neg weighted]
    refine ⟨allotted tree parent.children totalBandwidth, ?_, ?_, allotted_divided fits weighted totalBandwidth⟩
    · have fill : ([] : List (BitVec 32)).length + 2 * parent.children.length ≤ maxAllocations := by simpa using room
      rw [writeShares_eq _ [] fill, List.nil_append, allotted, List.flatMap_map]
      rfl
    · rw [allotted, List.map_map]
      exact List.map_id _

/-- Two streams with weights, and the root they depend on. -/
def twoStreams (first second : UInt8) : H2PriorityTree where
  nodes := [{ rootNode with children := [1#32, 3#32] }, ⟨0#32, first, 1#32, false, []⟩,
    ⟨0#32, second, 3#32, false, []⟩]
  fits := Nat.le_of_ble_eq_true rfl

/-- The bandwidth of 1000 between streams with the weights 200 and 100, as in `test_h2.c`. -/
theorem twoStreams_divided : ∃ allotments,
    h2PriorityAllocateBandwidth (twoStreams 200 100) 0#32 1000#32 16 = .ok (allotments.flatMap Allotment.written) ∧
      allotments.map (·.child) = foundChildren (twoStreams 200 100) [1#32, 3#32] ∧ Divided 1000 allotments := by
  rcases h2PriorityAllocateBandwidth_divided 0#32 1000#32 16
    (rfl : h2PriorityFind (twoStreams 200 100) 0#32 = some { rootNode with children := [1#32, 3#32] })
    (by decide) (by decide) (by decide) with ⟨-, weightless⟩ | divided
  · exact absurd (weightless _ (List.mem_cons_self ..)) (by decide)
  · exact divided

/-- One unit for two streams that were added to an empty tree: each is allotted one. -/
theorem oneUnit_overallotted :
    ((h2PriorityAdd h2PriorityTreeInit 1#32 0#32 16 false).bind (h2PriorityAdd · 3#32 0#32 16 false)) =
      .ok (twoStreams 16 16) ∧
    h2PriorityAllocateBandwidth (twoStreams 16 16) 0#32 1#32 16 = .ok [1#32, 1#32, 3#32, 1#32] ∧
    ¬(1#32).toNat + (1#32).toNat ≤ (1#32).toNat :=
  ⟨rfl, rfl, by decide⟩

end Allocation

end MiniNetDist.AppProtocol.H2Priority
