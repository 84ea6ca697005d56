import MiniNetDist.Transaction.IsolationLevels

/-! When `ser_detect_cycle` is right. A transaction with edges that leave the set gets a block that is not
filled, and the search may read what the memory held before. -/

namespace MiniNetDist.Transaction.Isolation

open Library Library.DepthFirst

section Layout

variable {txns : List UInt64} {edges : List ConflictEdge} {contents : Nat → Int} {i : Nat}

/-- The targets of the transaction at `i` within the set, in the order of the edges. -/
def successors (txns : List UInt64) (edges : List ConflictEdge) (i : Nat) : List Nat :=
  edges.filterMap fun edge => if findTxn txns edge.fromTxn = some i then findTxn txns edge.toTxn else none

/-- The edges of the transaction at `i` that leave the set. -/
def leaving (txns : List UInt64) (edges : List ConflictEdge) (i : Nat) : List ConflictEdge :=
  edges.filter fun edge => findTxn txns edge.fromTxn = some i ∧ findTxn txns edge.toTxn = none

def outDegree (txns : List UInt64) (edges : List ConflictEdge) (i : Nat) : Nat :=
  edges.countP fun edge => findTxn txns edge.fromTxn = some i

theorem findTxn_lt {id : UInt64} (found : findTxn txns id = some i) : i < txns.length :=
  (List.findIdx?_eq_some_iff_findIdx_eq.mp found).1

theorem length_successors_add (txns : List UInt64) (edges : List ConflictEdge) (i : Nat) :
    (successors txns edges i).length + (leaving txns edges i).length = outDegree txns edges i := by
  induction edges with
  | nil => rfl
  | cons edge rest ih =>
    unfold successors leaving outDegree at ih ⊢
    rw [List.filterMap_cons, List.filter_cons, List.countP_cons, ← ih]
    by_cases here : findTxn txns edge.fromTxn = some i
    · cases target : findTxn txns edge.toTxn with
      | none =>
        simp only [here, if_true, and_self, decide_true, List.length_cons]
        omega
      | some k =>
        simp only [here, if_true, reduceCtorEq, and_false, decide_false, Bool.false_eq_true, if_false, decide_true,
          List.length_cons]
        omega
    · simp only [here, if_false, false_and, decide_false, Bool.false_eq_true, Nat.add_zero]

/-- A counter goes up in an array of counters. -/
theorem modify_counters (n j : Nat) (count : Nat → Nat) :
    ((List.range n).map count).modify j (· + 1) = (List.range n).map fun i => count i + if j = i then 1 else 0 := by
  apply List.ext_getElem?
  intro i
  rw [List.getElem?_modify, List.getElem?_map, List.getElem?_map]
  by_cases inside : i < n
  · rw [List.getElem?_range inside]
    by_cases same : j = i <;> simp [same]
  · rw [List.getElem?_eq_none (by simpa using inside)]
    split_ifs <;> rfl

theorem degrees_eq (txns : List UInt64) (edges : List ConflictEdge) :
    edges.foldl (countEdge txns) (List.replicate txns.length 0) =
      (List.range txns.length).map (outDegree txns edges) := by
  induction edges using List.reverseRecOn with
  | nil =>
    have none : outDegree txns [] = fun _ => 0 := rfl
    rw [none, List.map_const', List.length_range, List.foldl_nil]
  | append_singleton earlier edge ih =>
    rw [List.foldl_append, List.foldl_cons, List.foldl_nil, ih, countEdge]
    cases found : findTxn txns edge.fromTxn with
    | none =>
      apply List.map_congr_left
      intro i _
      simp [outDegree, found]
    | some j =>
      dsimp only
      rw [modify_counters]
      apply List.map_congr_left
      intro i _
      simp [outDegree, found, List.countP_append, List.countP_singleton]

theorem getElem?_prefixSums (total : Nat) (degrees : List Nat) (i : Nat) :
    (prefixSums total degrees)[i]? = if i ≤ degrees.length then some ((degrees.take i).foldl (· + ·) total) else none := by
  induction degrees generalizing total i with
  | nil => cases i <;> simp [prefixSums]
  | cons degree rest ih =>
    cases i with
    | zero => simp [prefixSums]
    | succ i => simp [prefixSums, ih]

/-- The number of slots before the block of the transaction at `i`. -/
def blockStart (txns : List UInt64) (edges : List ConflictEdge) (i : Nat) : Nat :=
  (((List.range txns.length).map (outDegree txns edges)).take i).foldl (· + ·) 0

theorem blockStart_succ (inside : i < txns.length) :
    blockStart txns edges (i + 1) = blockStart txns edges i + outDegree txns edges i := by
  unfold blockStart
  rw [List.take_succ_eq_append_getElem (by simpa using inside), List.foldl_append]
  simp

theorem blockStart_mono (edges : List ConflictEdge) {j : Nat} (earlier : i < j) (inside : j ≤ txns.length) :
    blockStart txns edges i + outDegree txns edges i ≤ blockStart txns edges j := by
  induction j with
  | zero => omega
  | succ j ih =>
    rw [blockStart_succ inside]
    rcases Nat.lt_succ_iff_lt_or_eq.mp earlier with before | rfl
    · have := ih before (by omega)
      omega
    · exact Nat.le_refl _

/-- Two slots of blocks are the same only if they are the same slot of the same block. -/
theorem block_slot_inj {j k l : Nat} (one : i < txns.length) (two : j < txns.length)
    (within : k < outDegree txns edges i) (within' : l < outDegree txns edges j)
    (same : blockStart txns edges i + k = blockStart txns edges j + l) : i = j ∧ k = l := by
  rcases Nat.lt_trichotomy i j with before | rfl | after
  · have := blockStart_mono edges before (Nat.le_of_lt two)
    omega
  · exact ⟨rfl, by omega⟩
  · have := blockStart_mono edges after (Nat.le_of_lt one)
    omega

/-- The array and the counters when the first edges have been filled in. -/
structure Filled (contents : Nat → Int) (txns : List UInt64) (edges earlier : List ConflictEdge)
    (state : List Int × List Nat) : Prop where
  counters : state.2 = (List.range txns.length).map fun i => (successors txns earlier i).length
  size : state.1.length = blockStart txns edges txns.length
  slots : ∀ i < txns.length, ∀ k < outDegree txns edges i, state.1[blockStart txns edges i + k]? =
    ((successors txns earlier i).map Int.ofNat)[k]?.or (some (contents (blockStart txns edges i + k)))

theorem block_lt {k : Nat} (inside : i < txns.length) (within : k < outDegree txns edges i) :
    blockStart txns edges i + k < blockStart txns edges txns.length := by
  have := blockStart_mono edges inside (Nat.le_refl _)
  omega

theorem Filled.init : Filled contents txns edges []
    ((List.range (blockStart txns edges txns.length)).map contents, List.replicate txns.length 0) := by
  refine ⟨?_, ?_, ?_⟩
  · have none : (fun i => (successors txns [] i).length) = fun _ => 0 := rfl
    rw [none, List.map_const', List.length_range]
  · simp
  · intro i inside k within
    have bound := block_lt inside within
    simp [successors, List.getElem?_range bound]

theorem offsets_getD (default : Nat) (inside : i ≤ txns.length) :
    (prefixSums 0 ((List.range txns.length).map (outDegree txns edges))).getD i default = blockStart txns edges i := by
  rw [List.getD_eq_getElem?_getD, getElem?_prefixSums, if_pos (by simpa using inside), Option.getD_some,
    blockStart]

theorem successors_append (txns : List UInt64) (earlier : List ConflictEdge) (edge : ConflictEdge) (i : Nat) :
    successors txns (earlier ++ [edge]) i = successors txns earlier i ++
      if findTxn txns edge.fromTxn = some i then (findTxn txns edge.toTxn).toList else [] := by
  unfold successors
  rw [List.filterMap_append, List.filterMap_cons, List.filterMap_nil]
  split_ifs
  · cases findTxn txns edge.toTxn <;> rfl
  · rfl

theorem successors_le (txns : List UInt64) (i : Nat) {earlier : List ConflictEdge} (first : earlier <+: edges) :
    (successors txns earlier i).length ≤ outDegree txns edges i := by
  have total := length_successors_add txns earlier i
  have grows : outDegree txns earlier i ≤ outDegree txns edges i := first.sublist.countP_le
  omega

theorem Filled.skip {earlier : List ConflictEdge} {edge : ConflictEdge} {state : List Int × List Nat}
    (filled : Filled contents txns edges earlier state)
    (same : ∀ i, successors txns (earlier ++ [edge]) i = successors txns earlier i) :
    Filled contents txns edges (earlier ++ [edge]) state := by
  refine ⟨?_, filled.size, ?_⟩
  · simp only [same]
    exact filled.counters
  · simp only [same]
    exact filled.slots

/-- The target of an edge goes to the first slot of its block that is not filled. -/
theorem Filled.slots_set {earlier : List ConflictEdge} {edge : ConflictEdge} {state : List Int × List Nat} {j k : Nat}
    (filled : Filled contents txns edges earlier state) (inside : j < txns.length)
    (room : (successors txns earlier j).length < outDegree txns edges j)
    (grown : ∀ i, successors txns (earlier ++ [edge]) i = successors txns earlier i ++ if j = i then [k] else []) :
    ∀ i < txns.length, ∀ l < outDegree txns edges i,
      (state.1.set (blockStart txns edges j + (successors txns earlier j).length) k)[blockStart txns edges i + l]? =
        ((successors txns (earlier ++ [edge]) i).map Int.ofNat)[l]?.or
          (some (contents (blockStart txns edges i + l))) := by
  intro i inRange l within
  rw [List.getElem?_set, grown]
  by_cases hit : blockStart txns edges j + (successors txns earlier j).length = blockStart txns edges i + l
  · obtain ⟨rfl, rfl⟩ := block_slot_inj inside inRange room within hit
    have bound := block_lt inside room
    rw [if_pos rfl, if_pos (filled.size ▸ bound), if_pos rfl, List.map_append,
      List.getElem?_append_right (by rw [List.length_map]), List.length_map, Nat.sub_self]
    rfl
  · rw [if_neg hit, filled.slots i inRange l within]
    by_cases same : j = i
    · subst same
      have other : l ≠ (successors txns earlier j).length := fun equal => hit (equal ▸ rfl)
      rw [if_pos rfl, List.map_append]
      rcases Nat.lt_or_gt_of_ne other with before | after
      · rw [List.getElem?_append_left (by simpa using before)]
      · rw [List.getElem?_eq_none (by simpa using Nat.le_of_lt after), List.getElem?_eq_none (by simp; omega)]
    · rw [if_neg same, List.append_nil]

theorem Filled.step {earlier : List ConflictEdge} {edge : ConflictEdge} {state : List Int × List Nat}
    (filled : Filled contents txns edges earlier state) (first : earlier ++ [edge] <+: edges) :
    Filled contents txns edges (earlier ++ [edge])
      (fillEdge txns (prefixSums 0 ((List.range txns.length).map (outDegree txns edges))) state edge) := by
  have appended := successors_append txns earlier edge
  unfold fillEdge
  cases source : findTxn txns edge.fromTxn with
  | none => exact filled.skip fun i => by simp [appended, source]
  | some j =>
    cases target : findTxn txns edge.toTxn with
    | none => exact filled.skip fun i => by simp [appended, target]
    | some k =>
      have inside := findTxn_lt source
      have grown : ∀ i, successors txns (earlier ++ [edge]) i =
          successors txns earlier i ++ if j = i then [k] else [] := by
        intro i
        simp [appended, source, target]
      have counted : state.2.getD j 0 = (successors txns earlier j).length := by
        simp [filled.counters, inside]
      have room : (successors txns earlier j).length < outDegree txns edges j := by
        have bound := successors_le txns j first
        rw [grown j, if_pos rfl, List.length_append] at bound
        exact bound
      dsimp only
      rw [offsets_getD 0 (Nat.le_of_lt inside), counted]
      refine ⟨?_, ?_, filled.slots_set inside room grown⟩
      · rw [filled.counters, modify_counters]
        apply List.map_congr_left
        intro i _
        rw [grown]
        by_cases same : j = i <;> simp [same]
      · rw [List.length_set]
        exact filled.size

theorem filled_all (contents : Nat → Int) (txns : List UInt64) (edges : List ConflictEdge) :
    Filled contents txns edges edges
      (edges.foldl (fillEdge txns (prefixSums 0 ((List.range txns.length).map (outDegree txns edges))))
        ((List.range (blockStart txns edges txns.length)).map contents, List.replicate txns.length 0)) := by
  have along : ∀ earlier, earlier <+: edges → Filled contents txns edges earlier
      (earlier.foldl (fillEdge txns (prefixSums 0 ((List.range txns.length).map (outDegree txns edges))))
        ((List.range (blockStart txns edges txns.length)).map contents, List.replicate txns.length 0)) := by
    intro earlier
    induction earlier using List.reverseRecOn with
    | nil => exact fun _ => .init
    | append_singleton earlier edge ih =>
      intro first
      rw [List.foldl_append]
      exact (ih ((List.prefix_append _ _).trans first)).step first
  exact along edges (List.prefix_refl edges)

/-- The slots of a block that are not filled. -/
def junk (contents : Nat → Int) (txns : List UInt64) (edges : List ConflictEdge) (i : Nat) : List (Option Nat) :=
  ((List.range' (blockStart txns edges i + (successors txns edges i).length) (leaving txns edges i).length).map
    contents).map (markIndex txns.length)

theorem degrees_total (txns : List UInt64) (edges : List ConflictEdge) :
    ((List.range txns.length).map (outDegree txns edges)).foldl (· + ·) 0 = blockStart txns edges txns.length := by
  rw [blockStart, List.take_of_length_le (by simp)]

theorem successors_lt {j : Nat} (next : j ∈ successors txns edges i) : i < txns.length ∧ j < txns.length := by
  obtain ⟨edge, -, target⟩ := List.mem_filterMap.mp next
  split_ifs at target with source
  exact ⟨findTxn_lt source, findTxn_lt target⟩

theorem leaving_lt {edge : ConflictEdge} (left : edge ∈ leaving txns edges i) : i < txns.length := by
  rw [leaving, List.mem_filter, decide_eq_true_iff] at left
  exact findTxn_lt left.2.1

theorem neighbors_outside (outside : txns.length ≤ i) :
    slotsOf (successors txns edges) (junk contents txns edges) i = [] := by
  have none : successors txns edges i = [] := by
    apply List.eq_nil_iff_forall_not_mem.mpr
    intro j next
    exact absurd (successors_lt next).1 (Nat.not_lt.mpr outside)
  have nothing : leaving txns edges i = [] := by
    apply List.eq_nil_iff_forall_not_mem.mpr
    intro edge left
    exact absurd (leaving_lt left) (Nat.not_lt.mpr outside)
  rw [slotsOf, junk, none, nothing]
  rfl

/-- A block holds the successors, and then what the memory held before. -/
theorem Filled.block {state : List Int × List Nat} (filled : Filled contents txns edges edges state)
    (inside : i < txns.length) :
    (state.1.drop (blockStart txns edges i)).take (outDegree txns edges i) =
      (successors txns edges i).map Int.ofNat ++
        (List.range' (blockStart txns edges i + (successors txns edges i).length)
          (leaving txns edges i).length).map contents := by
  have total := length_successors_add txns edges i
  apply List.ext_getElem?
  intro k
  by_cases within : k < outDegree txns edges i
  · rw [List.getElem?_take_of_lt within, List.getElem?_drop, filled.slots i inside k within]
    by_cases real : k < (successors txns edges i).length
    · rw [List.getElem?_append_left (by simpa using real)]
      simp [real]
    · rw [List.getElem?_eq_none (by simpa using real), List.getElem?_append_right (by simpa using real),
        List.getElem?_map, List.getElem?_range' (by rw [List.length_map]; omega), List.length_map]
      simp only [Option.none_or, Option.map_some]
      congr 2
      omega
  · rw [List.getElem?_eq_none (by rw [List.length_take]; omega), List.getElem?_eq_none]
    simp only [List.length_append, List.length_map, List.length_range']
    omega

theorem blockEnd_eq (inside : i < txns.length) :
    (if i + 1 < txns.length then (prefixSums 0 ((List.range txns.length).map (outDegree txns edges))).getD (i + 1)
      (blockStart txns edges txns.length) else blockStart txns edges txns.length) =
      blockStart txns edges i + outDegree txns edges i := by
  rw [← blockStart_succ inside]
  split_ifs with more
  · exact offsets_getD _ (Nat.le_of_lt more)
  · have last : i + 1 = txns.length := by omega
    rw [last]

theorem neighbors_eq (contents : Nat → Int) (txns : List UInt64) (edges : List ConflictEdge) :
    (buildGraph contents edges txns).neighbors = slotsOf (successors txns edges) (junk contents txns edges) := by
  have filled := filled_all contents txns edges
  funext i
  simp only [Graph.neighbors, buildGraph, degrees_eq, degrees_total]
  generalize edges.foldl _ _ = state at filled ⊢
  by_cases inside : i < txns.length
  · rw [blockEnd_eq inside, offsets_getD _ (Nat.le_of_lt inside), Nat.add_sub_cancel_left, filled.block inside,
      List.map_append, slotsOf, junk, List.map_map]
    congr 1
    apply List.map_congr_left
    intro j next
    have bound := (successors_lt next).2
    simp [markIndex, bound]
  · have outside : txns.length ≤ i := Nat.le_of_not_lt inside
    have past : (prefixSums 0 ((List.range txns.length).map (outDegree txns edges))).getD i
        (blockStart txns edges txns.length) = blockStart txns edges txns.length := by
      rcases Nat.eq_or_lt_of_le outside with rfl | beyond
      · exact offsets_getD _ (Nat.le_refl _)
      · rw [List.getD_eq_getElem?_getD, getElem?_prefixSums, if_neg (by simpa using beyond), Option.getD_none]
    rw [neighbors_outside outside, if_neg (by omega), past, Nat.sub_self, List.take_zero, List.map_nil]

end Layout

section Cycles

variable {txns : List UInt64} {edges : List ConflictEdge} {contents : Nat → Int}

/-- The edges with both ends in the set. -/
def Conflicts (edges : List ConflictEdge) (txns : List UInt64) (a b : UInt64) : Prop :=
  a ∈ txns ∧ b ∈ txns ∧ ∃ edge ∈ edges, edge.fromTxn = a ∧ edge.toTxn = b

def HasCycle (edges : List ConflictEdge) (txns : List UInt64) : Prop :=
  ∃ txn, Relation.TransGen (Conflicts edges txns) txn txn

/-- `ser_detect_cycle` answers, and its answer is right. -/
def Detects (contents : Nat → Int) (edges : List ConflictEdge) (txns : List UInt64) : Prop :=
  ∃ found, serDetectCycle contents edges txns = .ok found ∧ (found = true ↔ HasCycle edges txns)

/-- The transaction at `i` has an edge that leaves the set. -/
def Leaves (txns : List UInt64) (edges : List ConflictEdge) (i : Nat) : Prop := leaving txns edges i ≠ []

theorem findTxn_mem {id : UInt64} (present : id ∈ txns) : ∃ i, findTxn txns id = some i := by
  apply Option.isSome_iff_exists.mp
  rw [findTxn, List.findIdx?_isSome, List.any_eq_true]
  exact ⟨id, present, decide_eq_true rfl⟩

theorem findTxn_getElem {id : UInt64} {i : Nat} (found : findTxn txns id = some i) : txns[i]? = some id := by
  obtain ⟨inside, same, -⟩ := List.findIdx?_eq_some_iff_getElem.mp found
  rw [List.getElem?_eq_getElem inside, of_decide_eq_true same]

theorem edge_iff {i j : Nat} : Edge (successors txns edges) i j ↔
    ∃ edge ∈ edges, findTxn txns edge.fromTxn = some i ∧ findTxn txns edge.toTxn = some j := by
  rw [Edge, successors, List.mem_filterMap]
  refine exists_congr fun edge => and_congr_right fun _ => ?_
  split_ifs with source
  · simp [source]
  · simp [source]

/-- The graph on positions has a cycle if the graph on ids has one. -/
theorem hasCycle_iff : HasCycle edges txns ↔ ∃ i, Relation.TransGen (Edge (successors txns edges)) i i := by
  constructor
  · rintro ⟨txn, cycle⟩
    refine ⟨_, cycle.lift (fun id => (findTxn txns id).getD 0) ?_⟩
    rintro a b ⟨here, there, edge, present, rfl, rfl⟩
    obtain ⟨i, source⟩ := findTxn_mem here
    obtain ⟨j, target⟩ := findTxn_mem there
    change Edge (successors txns edges) ((findTxn txns edge.fromTxn).getD 0) ((findTxn txns edge.toTxn).getD 0)
    rw [source, target]
    exact edge_iff.mpr ⟨edge, present, source, target⟩
  · rintro ⟨i, cycle⟩
    refine ⟨_, cycle.lift (fun i => txns.getD i 0) ?_⟩
    intro i j step
    obtain ⟨edge, present, source, target⟩ := edge_iff.mp step
    have here := findTxn_getElem source
    have there := findTxn_getElem target
    change Conflicts edges txns (txns.getD i 0) (txns.getD j 0)
    rw [List.getD_eq_getElem?_getD, List.getD_eq_getElem?_getD, here, there]
    exact ⟨List.mem_of_getElem? here, List.mem_of_getElem? there, edge, present, rfl, rfl⟩

theorem hasCycle_iff_reached : HasCycle edges txns ↔ ∃ root ∈ List.range txns.length, ∃ w,
    Relation.ReflTransGen (Edge (successors txns edges)) root w ∧
      Relation.TransGen (Edge (successors txns edges)) w w := by
  rw [hasCycle_iff]
  constructor
  · rintro ⟨i, cycle⟩
    obtain ⟨j, step, -⟩ := Relation.TransGen.head'_iff.mp cycle
    exact ⟨i, List.mem_range.mpr (successors_lt step).1, i, .refl, cycle⟩
  · rintro ⟨-, -, w, -, cycle⟩
    exact ⟨w, cycle⟩

theorem serDetectCycle_eq (some : edges ≠ []) (any : txns ≠ []) :
    serDetectCycle contents edges txns =
      (sweep (search (slotsOf (successors txns edges) (junk contents txns edges)) txns.length)
        (List.range txns.length) .blank).map Prod.fst := by
  have proper : ¬ (edges.length = 0 ∨ txns.length = 0) := by simp [some, any]
  rw [serDetectCycle, if_neg proper, ← neighbors_eq]
  rfl

/-- Without edges, or without transactions, there is nothing to detect. -/
theorem clear_of_trivial (none : edges = [] ∨ txns = []) (i : Nat) :
    Clear (successors txns edges) (Leaves txns edges) i := by
  have noEdge : ∀ i j, ¬ Edge (successors txns edges) i j := by
    intro i j step
    obtain ⟨edge, present, source, -⟩ := edge_iff.mp step
    rcases none with rfl | rfl
    · cases present
    · cases source
  rw [clear_iff]
  refine ⟨?_, fun j next => absurd next (noEdge i j)⟩
  rcases none with rfl | rfl
  · exact not_not.mpr rfl
  · exact not_not.mpr (List.filter_eq_nil_iff.mpr fun edge _ => by simp [findTxn])

theorem markIndex_lt {n j : Nat} {neighbor : Int} (found : markIndex n neighbor = some j) : j < n := by
  unfold markIndex at found
  split_ifs at found with inside
  cases found
  omega

theorem map_fst_ok {result : Result Nat} {found : Bool} (ended : result.map Prod.fst = .ok found) :
    ∃ later, result = .ok (found, later) := by
  match result, ended with
  | .ok (_, later), ended =>
    cases ended
    exact ⟨later, rfl⟩

theorem map_fst_error {result : Result Nat} {fault : Fault} (failed : result.map Prod.fst = .error fault) :
    result = .error fault := by
  cases result with
  | ok _ => cases failed
  | error _ =>
    cases failed
    rfl

/-- The fuel of the search suffices, whatever the memory holds. -/
theorem serDetectCycle_fueled (contents : Nat → Int) (edges : List ConflictEdge) (txns : List UInt64) :
    serDetectCycle contents edges txns ≠ .error .outOfFuel := by
  unfold serDetectCycle
  split_ifs with none
  · exact nofun
  · have inside : ∀ v ∈ List.range txns.length, ∀ w, some w ∈ (buildGraph contents edges txns).neighbors v →
        w ∈ List.range txns.length := by
      intro v _ w present
      obtain ⟨neighbor, -, found⟩ := List.mem_map.mp present
      exact List.mem_range.mpr (markIndex_lt found)
    have enough : unvisited (List.range txns.length) Marks.blank ≤ txns.length := by
      simpa using unvisited_le (List.range txns.length) Marks.blank
    have fueled : Fueled Marks.blank (sweep (dfsCycle (buildGraph contents edges txns) txns.length)
        (List.range txns.length) .blank) := sweep_fueled inside (fun _ => id) enough
    intro failed
    rw [map_fst_error failed] at fueled
    exact fueled rfl

theorem junk_whole (contents : Nat → Int) (i : Nat) (stays : ¬ Leaves txns edges i) :
    junk contents txns edges i = [] := by
  rw [junk, not_not.mp stays]
  rfl

/-- Memory full of negative numbers leads nowhere. -/
theorem junk_dangling (txns : List UInt64) (edges : List ConflictEdge) :
    Dangling (Leaves txns edges) (junk (fun _ => -1) txns edges) := by
  intro i
  refine ⟨?_, junk_whole _ i⟩
  intro leaves
  obtain ⟨edge, rest, split⟩ := List.exists_cons_of_ne_nil leaves
  rw [junk, split, List.length_cons, List.range'_succ]
  rfl

theorem detects_of_trivial (none : edges = [] ∨ txns = []) (contents : Nat → Int) : Detects contents edges txns := by
  refine ⟨false, ?_, nofun, ?_⟩
  · apply if_pos
    rcases none with rfl | rfl
    · exact .inl rfl
    · exact .inr rfl
  · intro cyclic
    obtain ⟨root, -, w, reached, cycle⟩ := hasCycle_iff_reached.mp cyclic
    exact absurd cycle (clear_of_trivial none root w reached).1

/-- The cycles are detected, whatever the memory holds, exactly if the search ends before it gets to a slot
that was not filled. -/
theorem serDetectCycle_iff (edges : List ConflictEdge) (txns : List UInt64) :
    (∀ contents, Detects contents edges txns) ↔
      Surveyable (successors txns edges) (Leaves txns edges) (List.range txns.length) := by
  by_cases none : edges = [] ∨ txns = []
  · exact ⟨fun _ => .inl fun root _ => clear_of_trivial none root, fun _ => detects_of_trivial none⟩
  · obtain ⟨some, any⟩ := not_or.mp none
    constructor
    · intro detects
      -- negative contents make every slot that was not filled a fault
      obtain ⟨found, ended, -⟩ := detects fun _ => -1
      rw [serDetectCycle_eq some any] at ended
      obtain ⟨later, swept⟩ := map_fst_ok ended
      exact sweep_sound (junk_dangling txns edges) Tidy.blank swept
    · intro survey contents
      obtain ⟨found, ends, right⟩ := sweep_complete (junk_whole contents) txns.length survey
      refine ⟨found, ?_, right.trans hasCycle_iff_reached.symm⟩
      rcases ends with failed | ⟨later, swept, -⟩
      · have starved := serDetectCycle_fueled contents edges txns
        rw [serDetectCycle_eq some any, failed] at starved
        exact absurd rfl starved
      · rw [serDetectCycle_eq some any, swept]
        rfl

/-- One edge that leaves the set, read as an edge to itself. -/
def leavingEdge : ConflictEdge := ⟨1, 9, [], false⟩

theorem leavingEdge_misread :
    ¬ ∀ contents edges txns, txns.Nodup → Detects contents edges txns := by
  intro always
  obtain ⟨found, ended, right⟩ := always (fun _ => 0) [leavingEdge] [1] (by decide)
  have cyclic : found = true := by
    have computed : serDetectCycle (fun _ => 0) [leavingEdge] [1] = .ok true := by rfl
    rw [computed] at ended
    cases ended
    rfl
  obtain ⟨txn, cycle⟩ := right.mp cyclic
  obtain ⟨next, ⟨-, there, edge, present, -, target⟩, -⟩ := Relation.TransGen.head'_iff.mp cycle
  rw [List.mem_singleton.mp present] at target
  rw [← target] at there
  revert there
  decide

end Cycles

end MiniNetDist.Transaction.Isolation
