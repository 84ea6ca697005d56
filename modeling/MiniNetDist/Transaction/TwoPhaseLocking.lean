import MiniNetDist.Library.TwoPhase
import MiniNetDist.Transaction.ConflictCycle

/-! Lock schedules in `mini-dist-transaction/src/isolation_levels.c`. A schedule that `s2pl_is_valid_schedule`
accepts and whose locks were compatible when they were granted has a conflict graph in which neither
`ser_detect_cycle` nor `si_detect_write_skew` finds anything. -/

namespace MiniNetDist.Transaction.Isolation

open Library Library.DepthFirst Library.TwoPhase

inductive LockMode
  | shared
  | exclusive
  | none
  deriving DecidableEq, Repr

/-- The request of a lock on an item; the mode `none` releases it. -/
structure LockRequest where
  txnId : UInt64
  item : CString
  mode : LockMode
  deriving DecidableEq, Repr

/-- The loops over the pairs of requests. -/
def acquiresAfterRelease : List LockRequest → Bool
  | [] => false
  | lock :: rest =>
    (rest.any fun later => lock.txnId = later.txnId ∧ lock.mode = .none ∧ later.mode ≠ .none) ||
      acquiresAfterRelease rest

/-- The loop that looks for the commit of each exclusive lock drops what it finds. -/
def s2plIsValidSchedule (locks : List LockRequest) (_txnCommitOrder : List UInt64) : Bool :=
  !acquiresAfterRelease locks

def siDetectWriteSkew (edges : List ConflictEdge) (txnA txnB : UInt64) : Bool :=
  if edges.length < 2 then false
  else
    let aReadsBWrites := edges.any fun e => e.isReadWrite ∧ e.fromTxn = txnA ∧ e.toTxn = txnB
    let bReadsAWrites := edges.any fun e => e.isReadWrite ∧ e.fromTxn = txnB ∧ e.toTxn = txnA
    aReadsBWrites && bReadsAWrites

/-- Shared locks are compatible with each other only. -/
def Clash (one two : LockMode) : Prop := one = .exclusive ∨ two = .exclusive

instance (one two : LockMode) : Decidable (Clash one two) :=
  inferInstanceAs (Decidable (one = .exclusive ∨ two = .exclusive))

def LockRequest.action (lock : LockRequest) : Action UInt64 CString LockMode :=
  match lock.mode with
  | .none => .release lock.txnId lock.item
  | mode => .acquire lock.txnId lock.item mode

/-- Every lock was compatible with the locks of other transactions when it was granted. -/
def Granted (locks : List LockRequest) : Prop := Legal Clash (locks.map LockRequest.action)

instance (locks : List LockRequest) : Decidable (Granted locks) :=
  inferInstanceAs (Decidable (Legal Clash (locks.map LockRequest.action)))

/-- The edge between the transactions of two locks in this order. -/
def conflictEdge (earlier later : LockRequest) : Option ConflictEdge :=
  if earlier.mode ≠ .none ∧ later.mode ≠ .none ∧ Clash earlier.mode later.mode ∧ earlier.item = later.item ∧
      earlier.txnId ≠ later.txnId then
    some ⟨earlier.txnId, later.txnId, earlier.item, earlier.mode = .shared⟩
  else none

/-- The conflict graph of a schedule. -/
def conflictEdges : List LockRequest → List ConflictEdge
  | [] => []
  | lock :: rest => rest.filterMap (conflictEdge lock) ++ conflictEdges rest

variable {locks : List LockRequest} {edges : List ConflictEdge} {txns : List UInt64} {edge : ConflictEdge}
  {earlier later lock : LockRequest}

theorem action_acquire (mode : lock.mode ≠ .none) : lock.action = .acquire lock.txnId lock.item lock.mode := by
  cases lock with
  | mk txnId item lockMode =>
    cases lockMode with
    | none => exact absurd rfl mode
    | shared => rfl
    | exclusive => rfl

theorem action_release (mode : lock.mode = .none) : lock.action = .release lock.txnId lock.item := by
  rw [LockRequest.action, mode]

theorem reacquires_iff : Reacquires earlier.action later.action ↔
    earlier.txnId = later.txnId ∧ earlier.mode = .none ∧ later.mode ≠ .none := by
  by_cases releases : earlier.mode = .none
  · rw [action_release releases]
    by_cases acquires : later.mode ≠ .none
    · rw [action_acquire acquires]
      exact ⟨fun same => ⟨same, releases, acquires⟩, And.left⟩
    · rw [action_release (not_not.mp acquires)]
      exact ⟨False.elim, fun all => acquires all.2.2⟩
  · rw [action_acquire releases]
    exact ⟨False.elim, fun all => releases all.2.1⟩

/-- The loops check the two phases, and nothing about commits. -/
theorem s2plIsValidSchedule_iff (locks : List LockRequest) (commitOrder : List UInt64) :
    s2plIsValidSchedule locks commitOrder = true ↔ Phased (locks.map LockRequest.action) := by
  rw [s2plIsValidSchedule, Bool.not_eq_true']
  induction locks with
  | nil => exact ⟨fun _ => .nil, fun _ => rfl⟩
  | cons lock rest ih =>
    rw [acquiresAfterRelease, Bool.or_eq_false_iff, ih, List.any_eq_false]
    unfold Phased
    rw [List.map_cons, List.pairwise_cons, List.forall_mem_map]
    apply and_congr_left
    intro _
    refine forall₂_congr fun later _ => not_congr ?_
    rw [reacquires_iff, decide_eq_true_iff]

theorem mem_conflictEdges (present : edge ∈ conflictEdges locks) : ∃ before between after earlier later,
    locks = before ++ earlier :: (between ++ later :: after) ∧ conflictEdge earlier later = some edge := by
  induction locks with
  | nil => exact absurd present List.not_mem_nil
  | cons lock rest ih =>
    rcases List.mem_append.mp present with first | further
    · obtain ⟨later, inside, found⟩ := List.mem_filterMap.mp first
      obtain ⟨between, after, rfl⟩ := List.append_of_mem inside
      exact ⟨[], between, after, lock, later, rfl, found⟩
    · obtain ⟨before, between, after, earlier, later, rfl, found⟩ := ih further
      exact ⟨lock :: before, between, after, earlier, later, rfl, found⟩

/-- An edge of the conflict graph goes along a conflict of the schedule. -/
theorem precedes_of_mem (present : edge ∈ conflictEdges locks) :
    Precedes Clash (locks.map LockRequest.action) edge.fromTxn edge.toTxn := by
  obtain ⟨before, between, after, earlier, later, rfl, found⟩ := mem_conflictEdges present
  unfold conflictEdge at found
  split at found
  · rename_i conflict
    obtain ⟨held, asked, clashing, same, different⟩ := conflict
    cases found
    refine ⟨different, before.map LockRequest.action, between.map LockRequest.action, after.map LockRequest.action,
      earlier.item, earlier.mode, later.mode, clashing, ?_⟩
    rw [List.map_append, List.map_cons, List.map_append, List.map_cons, action_acquire held, action_acquire asked, same]
  · cases found

theorem listed_of_mem (listed : ∀ lock ∈ locks, lock.txnId ∈ txns) (present : edge ∈ conflictEdges locks) :
    edge.toTxn ∈ txns := by
  obtain ⟨before, between, after, earlier, later, rfl, found⟩ := mem_conflictEdges present
  unfold conflictEdge at found
  split at found
  · cases found
    exact listed later (by simp)
  · cases found

/-- Where no edge leaves the set, the search finds no cycle if there is none. -/
theorem serDetectCycle_acyclic (contents : Nat → Int) (inside : ∀ edge ∈ edges, edge.toTxn ∈ txns)
    (acyclic : ¬ HasCycle edges txns) : serDetectCycle contents edges txns = .ok false := by
  by_cases none : edges = [] ∨ txns = []
  · obtain ⟨found, ended, right⟩ := detects_of_trivial none contents
    cases found with
    | false => exact ended
    | true => exact absurd (right.mp rfl) acyclic
  · obtain ⟨some, any⟩ := not_or.mp none
    have stays : ∀ i, ¬ Leaves txns edges i := by
      intro i
      apply not_not.mpr
      apply List.filter_eq_nil_iff.mpr
      intro edge present
      obtain ⟨k, target⟩ := findTxn_mem (inside edge present)
      simp [target]
    have survey : Surveyable (successors txns edges) (Leaves txns edges) (List.range txns.length) := by
      refine .inl fun root listed w reached => ⟨?_, stays w⟩
      intro cycle
      exact acyclic (hasCycle_iff_reached.mpr ⟨root, listed, w, reached, cycle⟩)
    obtain ⟨found, ends, right⟩ := sweep_complete (junk_whole contents) txns.length survey
    have clean : found = false := by
      apply Bool.eq_false_iff.mpr
      intro cyclic
      exact acyclic (hasCycle_iff_reached.mpr (right.mp cyclic))
    rcases ends with failed | ⟨later, swept, -⟩
    · have starved := serDetectCycle_fueled contents edges txns
      rw [serDetectCycle_eq some any, failed] at starved
      exact absurd rfl starved
    · rw [serDetectCycle_eq some any, swept, clean]
      rfl

/-- Write skew is a cycle of two transactions. -/
theorem mem_of_skew {txnA txnB : UInt64} (skew : siDetectWriteSkew edges txnA txnB = true) :
    (∃ edge ∈ edges, edge.fromTxn = txnA ∧ edge.toTxn = txnB) ∧
      ∃ edge ∈ edges, edge.fromTxn = txnB ∧ edge.toTxn = txnA := by
  unfold siDetectWriteSkew at skew
  split at skew
  · cases skew
  · obtain ⟨one, two⟩ := Bool.and_eq_true_iff.mp skew
    obtain ⟨edge, present, there⟩ := List.any_eq_true.mp one
    obtain ⟨other, presentToo, back⟩ := List.any_eq_true.mp two
    exact ⟨⟨edge, present, (of_decide_eq_true there).2⟩, ⟨other, presentToo, (of_decide_eq_true back).2⟩⟩

/-- A schedule that is accepted can be serialized: the detectors find neither a cycle nor write skew in its
conflict graph, whatever memory the search is given. -/
theorem s2plIsValidSchedule_serializable (contents : Nat → Int) (commitOrder : List UInt64) (granted : Granted locks)
    (accepted : s2plIsValidSchedule locks commitOrder = true) (listed : ∀ lock ∈ locks, lock.txnId ∈ txns) :
    serDetectCycle contents (conflictEdges locks) txns = .ok false ∧
      ∀ txnA txnB, siDetectWriteSkew (conflictEdges locks) txnA txnB = false := by
  have phased := (s2plIsValidSchedule_iff locks commitOrder).mp accepted
  constructor
  · apply serDetectCycle_acyclic contents fun edge => listed_of_mem listed
    rintro ⟨txn, cycle⟩
    apply phased.acyclic granted txn
    apply cycle.lift id
    rintro _ _ ⟨-, -, edge, present, rfl, rfl⟩
    exact precedes_of_mem present
  · intro txnA txnB
    apply Bool.eq_false_iff.mpr
    intro skew
    obtain ⟨⟨edge, present, rfl, rfl⟩, ⟨other, presentToo, back, forth⟩⟩ := mem_of_skew skew
    have there := (precedes_of_mem present).lockPoint_lt granted phased
    have again := (precedes_of_mem presentToo).lockPoint_lt granted phased
    rw [back, forth] at again
    exact Nat.lt_asymm there again

/-- Two transactions that lock one item after each other. -/
def serialLocks : List LockRequest :=
  [⟨1, [120], .shared⟩, ⟨1, [120], .exclusive⟩, ⟨1, [120], .none⟩, ⟨2, [120], .exclusive⟩, ⟨2, [120], .none⟩]

theorem serialLocks_serializable :
    (Granted serialLocks ∧ s2plIsValidSchedule serialLocks [1, 2] = true) ∧
      serDetectCycle (fun _ => 0) (conflictEdges serialLocks) [1, 2] = .ok false ∧
        ∀ txnA txnB, siDetectWriteSkew (conflictEdges serialLocks) txnA txnB = false := by
  have granted : Granted serialLocks := by decide
  have accepted : s2plIsValidSchedule serialLocks [1, 2] = true := by decide
  exact ⟨⟨granted, accepted⟩, s2plIsValidSchedule_serializable _ [1, 2] granted accepted (by decide)⟩

end MiniNetDist.Transaction.Isolation
