import MiniNetDist.Transaction.DistLock

/-! Mutual exclusion of the quorum lock: two majorities of the nodes share one, and that node
has one unexpired holder of the resource. -/

namespace MiniNetDist.Transaction.Lock

open Library

inductive RedlockCall where
  | acquire (owner : CString) (lease now : Int)
  | release (owner : CString)
  deriving DecidableEq, Repr

/-- The nodes, the time of the last acquisition, and for each owner whose last call was a
`redlock_acquire` that returned true the time and the lease of that call. -/
structure Redlock where
  nodes : List LockManager
  clock : Option Int
  grants : CString → Option (Int × Int)

def redlockInit (nodeCount : Nat) : Redlock := ⟨List.replicate nodeCount lockManagerInit, none, fun _ => none⟩

def redlockStep (quorum : Int) (resource : CString) (redlock : Redlock) : RedlockCall → Redlock
  | .acquire owner lease now =>
    let (nodes, ok) := redlockAcquire redlock.nodes quorum resource owner lease now
    ⟨nodes, some now, Function.update redlock.grants owner (if ok then some (now, lease) else none)⟩
  | .release owner =>
    let (nodes, _) := redlockRelease redlock.nodes resource owner
    { redlock with nodes, grants := Function.update redlock.grants owner none }

/-- Owners fit their field, leases are positive and end at a time of `int64_t`, and time does not run backwards. -/
def RedlockOrderly (redlock : Redlock) : RedlockCall → Prop
  | .acquire owner lease now => owner.length < DIST_LOCK_MAX_OWNER_LEN ∧ 0 < lease ∧
      (-2 ^ 63 ≤ now ∧ now + lease < 2 ^ 63) ∧ ∀ last ∈ redlock.clock, last ≤ now
  | .release owner => owner.length < DIST_LOCK_MAX_OWNER_LEN

/-- While one owner's lease runs, no other owner is granted the lock. -/
def RedlockExclusive (quorum : Int) (resource : CString) (redlock : Redlock) : RedlockCall → Prop
  | .acquire owner lease now => ∀ other since granted, other ≠ owner → redlock.grants other = some (since, granted) →
      now < since + granted → (redlockAcquire redlock.nodes quorum resource owner lease now).2 = false
  | .release _ => True

/-- The node has given this owner the resource at this time, with this lease. -/
def Holds (resource owner : CString) (since lease : Int) (lm : LockManager) : Bool :=
  match lm.lock resource with
  | some lock => lock.state = .acquired && lock.owner = owner && lock.acquiredAtMs = since && lock.leaseTimeoutMs = lease
  | none => false

variable {lm : LockManager} {resource owner other : CString} {since granted lease now : Int}

theorem holds_iff : Holds resource owner since lease lm = true ↔ ∃ lock, lm.lock resource = some lock ∧
    lock.state = .acquired ∧ lock.owner = owner ∧ lock.acquiredAtMs = since ∧ lock.leaseTimeoutMs = lease := by
  unfold Holds
  cases lm.lock resource with
  | none => simp
  | some lock => simp [and_assoc]

@[simp] theorem lock_enqueue (owner : CString) (now : Int) :
    (lm.enqueue owner now).lock resource = lm.lock resource := by
  unfold LockManager.enqueue
  split_ifs <;> rfl

/-- A node that is held refuses, and stays held. -/
theorem refuses_of_holds (holds : Holds resource other since granted lm = true) (running : now < since + granted) :
    (lockAcquire lm resource owner lease now).2 = false ∧
    Holds resource other since granted (lockAcquire lm resource owner lease now).1 = true := by
  obtain ⟨lock, here, acquired, owned, time, length⟩ := holds_iff.mp holds
  have held : lock.heldAt now = true := by
    simp [DistLock.heldAt, acquired, time, length]
    omega
  rcases lockAcquire_cases lm resource owner lease now with ⟨-, -, -, refused⟩ | ⟨idx, found, -, there, -, free, -⟩ |
    ⟨missing, -, -⟩ | ⟨missing, -, -⟩
  · rw [refused]
    refine ⟨rfl, ?_⟩
    rw [holds_iff, lock_enqueue]
    exact holds_iff.mp holds
  · rw [here] at there
    cases there
    cases held.symm.trans free
  · cases missing.symm.trans here
  · cases missing.symm.trans here

theorem holds_released (holds : Holds resource other since granted lm = true) (different : other ≠ owner) :
    Holds resource other since granted (lockRelease lm resource owner).1 = true := by
  obtain ⟨lock, here, -, owned, -, -⟩ := holds_iff.mp holds
  rcases lockRelease_cases lm resource owner with ⟨idx, found, -, there, -, mine, -⟩ | ⟨-, same | ⟨missing, -⟩⟩
  · rw [here] at there
    cases there
    simp [DistLock.ownedBy, owned, different] at mine
  · rw [same]
    exact holds
  · cases missing.symm.trans here

/-- A node that accepts is held by the new owner. -/
theorem holds_of_acquired (shortName : resource.length < DIST_LOCK_MAX_RESOURCE_LEN)
    (shortOwner : owner.length < DIST_LOCK_MAX_OWNER_LEN)
    (ok : (lockAcquire lm resource owner lease now).2 = true) :
    Holds resource owner now lease (lockAcquire lm resource owner lease now).1 = true := by
  have whole : strncpy owner (DIST_LOCK_MAX_OWNER_LEN - 1) = owner := strncpy_of_lt shortOwner
  rw [holds_iff]
  rcases lockAcquire_cases lm resource owner lease now with ⟨-, -, -, refused⟩ |
    ⟨idx, lock, located, here, -, -, acquired⟩ | ⟨-, -, refused⟩ | ⟨missing, -, acquired⟩
  · rw [refused] at ok
    cases ok
  · rw [acquired]
    have named : (lock.grant owner lease now).resource = resource := (Table.key_of_find here : lock.resource = resource)
    exact ⟨_, Table.find_set_position located named, rfl, whole, rfl, rfl⟩
  · rw [refused] at ok
    cases ok
  · rw [acquired]
    have named : ((distLockInit resource).grant owner lease now).resource = resource := strncpy_of_lt shortName
    unfold LockManager.lock at missing ⊢
    dsimp only
    rw [Table.find_append, missing, if_pos named]
    exact ⟨_, rfl, rfl, whole, rfl, rfl⟩

section Leases

theorem leasesFit_acquired (fit : LeasesFit lm) (resource owner : CString)
    (ends : -2 ^ 63 ≤ now + lease ∧ now + lease < 2 ^ 63) : LeasesFit (lockAcquire lm resource owner lease now).1 := by
  rcases lockAcquire_cases lm resource owner lease now with ⟨-, -, -, refused⟩ | ⟨idx, lock, -, -, -, -, acquired⟩ |
    ⟨-, -, refused⟩ | ⟨-, -, acquired⟩
  · rw [refused, LeasesFit, locks_enqueue]
    exact fit
  · rw [acquired]
    intro other inside
    rcases List.mem_or_eq_of_mem_set inside with before | rfl
    · exact fit other before
    · exact fun _ => ends
  · rw [refused]
    exact fit
  · rw [acquired]
    intro other inside
    rcases List.mem_append.mp inside with before | new
    · exact fit other before
    · rw [List.mem_singleton.mp new]
      exact fun _ => ends

theorem leasesFit_released (fit : LeasesFit lm) (resource owner : CString) :
    LeasesFit (lockRelease lm resource owner).1 := by
  rcases lockRelease_cases lm resource owner with ⟨idx, lock, -, -, -, -, released⟩ | ⟨-, same | ⟨-, created⟩⟩
  · rw [released]
    intro other inside taken
    rcases List.mem_or_eq_of_mem_set inside with before | rfl
    · exact fit other before taken
    · cases taken
  · rw [same]
    exact fit
  · rw [created]
    intro other inside taken
    rcases List.mem_append.mp inside with before | new
    · exact fit other before taken
    · rw [List.mem_singleton.mp new] at taken
      cases taken

end Leases

section Nodes

variable {nodes : List LockManager} {quorum : Int}

/-- The nodes that accept an acquisition are not among those held by another owner. -/
theorem accepting_le (nodes : List LockManager) (resource owner other : CString) (lease : Int)
    (running : now < since + granted) :
    nodes.countP (fun lm => (lockAcquire lm resource owner lease now).2) +
      nodes.countP (Holds resource other since granted) ≤ nodes.length := by
  rw [List.length_eq_countP_add_countP (Holds resource other since granted), Nat.add_comm]
  apply Nat.add_le_add_left
  apply List.countP_mono_left
  intro lm _ accepts
  rw [decide_eq_true_iff]
  intro holds
  cases (refuses_of_holds holds running).1.symm.trans accepts

theorem redlockMajority_iff {votes total : Nat} :
    redlockMajority votes total quorum = true ↔ quorum ≤ votes ∧ total < 2 * votes := by
  unfold redlockMajority
  rw [Bool.and_eq_true, decide_eq_true_iff, decide_eq_true_iff]
  omega

theorem redlockAcquire_eq (nodes : List LockManager) (quorum : Int) (resource owner : CString) (lease now : Int) :
    redlockAcquire nodes quorum resource owner lease now =
      if quorum ≤ nodes.countP (fun lm => (lockAcquire lm resource owner lease now).2) ∧
        nodes.length < 2 * nodes.countP (fun lm => (lockAcquire lm resource owner lease now).2) then
        (nodes.map fun lm => (lockAcquire lm resource owner lease now).1, true)
      else
        (nodes.map fun lm => (lockRelease (lockAcquire lm resource owner lease now).1 resource owner).1, false) := by
  unfold redlockAcquire redlockRelease
  simp only [List.countP_map, List.map_map, List.length_map, Function.comp_def]
  by_cases majority : quorum ≤ nodes.countP (fun lm => (lockAcquire lm resource owner lease now).2) ∧
      nodes.length < 2 * nodes.countP (fun lm => (lockAcquire lm resource owner lease now).2)
  · simp [redlockMajority_iff.mpr majority, majority]
  · simp [Bool.eq_false_iff.mpr (mt redlockMajority_iff.mp majority), majority]

/-- A property that every node keeps is kept by as many nodes. -/
theorem countP_kept {kept : LockManager → Bool} {change : LockManager → LockManager}
    (keeps : ∀ lm ∈ nodes, kept lm = true → kept (change lm) = true) :
    nodes.countP kept ≤ (nodes.map change).countP kept := by
  rw [List.countP_map]
  exact List.countP_mono_left keeps

/-- Accepted or not, every node held by another owner stays held. -/
theorem redlockAcquire_keeps (quorum : Int) (lease : Int) (running : now < since + granted)
    (different : other ≠ owner) :
    nodes.countP (Holds resource other since granted) ≤
      (redlockAcquire nodes quorum resource owner lease now).1.countP (Holds resource other since granted) := by
  rw [redlockAcquire_eq]
  split_ifs
  · exact countP_kept fun lm _ holds => (refuses_of_holds holds running).2
  · exact countP_kept fun lm _ holds => holds_released (refuses_of_holds holds running).2 different

theorem redlockAcquire_length (nodes : List LockManager) (quorum : Int) (resource owner : CString) (lease now : Int) :
    (redlockAcquire nodes quorum resource owner lease now).1.length = nodes.length := by
  rw [redlockAcquire_eq]
  split_ifs <;> exact List.length_map _

theorem redlockAcquire_leasesFit (fit : ∀ lm ∈ nodes, LeasesFit lm) (quorum : Int) (resource owner : CString)
    (ends : -2 ^ 63 ≤ now + lease ∧ now + lease < 2 ^ 63) :
    ∀ lm ∈ (redlockAcquire nodes quorum resource owner lease now).1, LeasesFit lm := by
  rw [redlockAcquire_eq]
  split_ifs
  · exact List.forall_mem_map.mpr fun lm inside => leasesFit_acquired (fit lm inside) resource owner ends
  · refine List.forall_mem_map.mpr fun lm inside => ?_
    exact leasesFit_released (leasesFit_acquired (fit lm inside) resource owner ends) resource owner

/-- An acquisition that returns true has a majority of the nodes. -/
theorem redlockAcquire_majority (shortName : resource.length < DIST_LOCK_MAX_RESOURCE_LEN)
    (shortOwner : owner.length < DIST_LOCK_MAX_OWNER_LEN)
    (ok : (redlockAcquire nodes quorum resource owner lease now).2 = true) :
    nodes.length <
      2 * (redlockAcquire nodes quorum resource owner lease now).1.countP (Holds resource owner now lease) := by
  rw [redlockAcquire_eq] at ok ⊢
  by_cases majority : quorum ≤ nodes.countP (fun lm => (lockAcquire lm resource owner lease now).2) ∧
      nodes.length < 2 * nodes.countP (fun lm => (lockAcquire lm resource owner lease now).2)
  · rw [if_pos majority, List.countP_map]
    have accepted : nodes.countP (fun lm => (lockAcquire lm resource owner lease now).2) ≤
        nodes.countP (Holds resource owner now lease ∘ fun lm => (lockAcquire lm resource owner lease now).1) :=
      List.countP_mono_left fun lm _ ok => holds_of_acquired shortName shortOwner ok
    omega
  · rw [if_neg majority] at ok
    cases ok

end Nodes

/-- As long as a granted lease runs, a majority of the nodes is held under it. -/
structure Secured (resource : CString) (redlock : Redlock) : Prop where
  majority : ∀ owner since lease, redlock.grants owner = some (since, lease) →
    (∀ last ∈ redlock.clock, last < since + lease) →
      redlock.nodes.length < 2 * redlock.nodes.countP (Holds resource owner since lease)

variable {redlock : Redlock} {quorum : Int}

theorem Secured.exclusive (secured : Secured resource redlock) (call : RedlockCall)
    (orderly : RedlockOrderly redlock call) : RedlockExclusive quorum resource redlock call := by
  cases call with
  | release owner => trivial
  | acquire owner lease now =>
    intro other since granted _ grant running
    have held := secured.majority other since granted grant fun last past =>
      Int.lt_of_le_of_lt (orderly.2.2.2 last past) running
    have disjoint := accepting_le redlock.nodes resource owner other lease running
    rw [redlockAcquire_eq, if_neg (by omega)]

theorem Secured.acquired (short : resource.length < DIST_LOCK_MAX_RESOURCE_LEN) (secured : Secured resource redlock)
    (orderly : RedlockOrderly redlock (.acquire owner lease now)) :
    Secured resource (redlockStep quorum resource redlock (.acquire owner lease now)) := by
  obtain ⟨shortOwner, -, -, forward⟩ := orderly
  refine ⟨?_⟩
  intro other since granted grant running
  dsimp only [redlockStep] at grant running ⊢
  rw [redlockAcquire_length]
  by_cases same : other = owner
  · subst same
    rw [Function.update_self] at grant
    by_cases ok : (redlockAcquire redlock.nodes quorum resource other lease now).2 = true
    · rw [if_pos ok] at grant
      cases grant
      exact redlockAcquire_majority short shortOwner ok
    · rw [if_neg ok] at grant
      cases grant
  · rw [Function.update_of_ne same] at grant
    have held := secured.majority other since granted grant fun last past =>
      Int.lt_of_le_of_lt (forward last past) (running now rfl)
    have kept : redlock.nodes.countP (Holds resource other since granted) ≤ _ :=
      redlockAcquire_keeps quorum lease (running now rfl) same
    omega

theorem Secured.released (secured : Secured resource redlock) (owner : CString) :
    Secured resource (redlockStep quorum resource redlock (.release owner)) := by
  refine ⟨?_⟩
  intro other since granted grant running
  simp only [redlockStep, redlockRelease] at grant running ⊢
  by_cases same : other = owner
  · subst same
    rw [Function.update_self] at grant
    cases grant
  · rw [Function.update_of_ne same] at grant
    have held := secured.majority other since granted grant running
    have kept : redlock.nodes.countP (Holds resource other since granted) ≤
        (redlock.nodes.map fun lm => (lockRelease lm resource owner).1).countP (Holds resource other since granted) :=
      countP_kept fun lm _ holds => holds_released holds same
    simp only [List.map_map, Function.comp_def, List.length_map]
    omega

theorem Secured.step (short : resource.length < DIST_LOCK_MAX_RESOURCE_LEN) (secured : Secured resource redlock)
    (call : RedlockCall) (orderly : RedlockOrderly redlock call) :
    Secured resource (redlockStep quorum resource redlock call) := by
  cases call with
  | acquire owner lease now => exact secured.acquired short orderly
  | release owner => exact secured.released owner

/-- In an orderly run no sum of a time and a lease leaves `int64_t`. -/
theorem redlock_leasesFit {nodeCount : Nat}
    (reached : Reaches (redlockStep quorum resource) RedlockOrderly (redlockInit nodeCount) redlock) :
    ∀ lm ∈ redlock.nodes, LeasesFit lm := by
  refine reached.invariant (motive := fun redlock => ∀ lm ∈ redlock.nodes, LeasesFit lm) ?_ ?_
  · intro lm inside
    rw [List.eq_of_mem_replicate inside]
    exact fun lock stored => absurd stored List.not_mem_nil
  · intro redlock call fit orderly
    cases call with
    | acquire owner lease now =>
      obtain ⟨-, positive, ⟨least, most⟩, -⟩ := orderly
      exact redlockAcquire_leasesFit fit quorum resource owner ⟨by omega, most⟩
    | release owner =>
      dsimp only [redlockStep, redlockRelease]
      rw [List.map_map]
      exact List.forall_mem_map.mpr fun lm inside => leasesFit_released (fit lm inside) resource owner

/-- A quorum that the nodes cannot reach is never granted. -/
theorem exclusive_of_unreachable (unreachable : (redlock.nodes.length : Int) < quorum) (call : RedlockCall) :
    RedlockExclusive quorum resource redlock call := by
  cases call with
  | release owner => trivial
  | acquire owner lease now =>
    intro other since granted _ _ _
    have most : redlock.nodes.countP (fun lm => (lockAcquire lm resource owner lease now).2) ≤ redlock.nodes.length :=
      List.countP_le_length
    rw [redlockAcquire_eq, if_neg (by omega)]

theorem redlockStep_length (call : RedlockCall) :
    (redlockStep quorum resource redlock call).nodes.length = redlock.nodes.length := by
  cases call with
  | acquire owner lease now => exact redlockAcquire_length ..
  | release owner => simp [redlockStep, redlockRelease]

/-- Under a name that is cut, a node accepts every acquisition until its table is full. -/
theorem lockAcquire_cut (long : DIST_LOCK_MAX_RESOURCE_LEN ≤ resource.length)
    (cut : ∀ lock ∈ lm.locks, lock.resource.length < DIST_LOCK_MAX_RESOURCE_LEN)
    (room : lm.locks.length < DIST_LOCK_MAX_LOCKS) (owner : CString) (lease now : Int) :
    lockAcquire lm resource owner lease now =
      ({ lm with locks := lm.locks ++ [(distLockInit resource).grant owner lease now] }, true) := by
  have missing : lm.lock resource = none := by
    rw [LockManager.lock, Table.find_eq_none_iff, List.mem_map]
    rintro ⟨lock, inside, rfl⟩
    exact absurd (cut lock inside) (Nat.not_lt.mpr long)
  rcases lockAcquire_cases lm resource owner lease now with ⟨lock, here, -⟩ | ⟨-, lock, -, here, -⟩ | ⟨-, full, -⟩ |
    ⟨-, -, created⟩
  · cases missing.symm.trans here
  · cases missing.symm.trans here
  · omega
  · exact created

/-- Nodes that all behave alike grant the lock together. -/
theorem redlockAcquire_replicate {nodeCount : Nat} {next : LockManager} (positive : 1 ≤ nodeCount)
    (reachable : quorum ≤ nodeCount) (accepts : lockAcquire lm resource owner lease now = (next, true)) :
    redlockAcquire (List.replicate nodeCount lm) quorum resource owner lease now =
      (List.replicate nodeCount next, true) := by
  rw [redlockAcquire_eq]
  have all : (List.replicate nodeCount lm).countP (fun lm => (lockAcquire lm resource owner lease now).2) =
      nodeCount := by simp [List.countP_replicate, accepts]
  rw [all, List.length_replicate, if_pos ⟨reachable, by omega⟩]
  simp [accepts]

/-- Two owners at the same time. -/
def twoAtOnce : List RedlockCall := [.acquire [65] 1000 0, .acquire [66] 1000 0]

theorem twoAtOnce_orderly {start : Redlock} (fresh : start.clock = none) :
    Permitted (redlockStep quorum resource) RedlockOrderly start twoAtOnce := by
  refine ⟨⟨by decide, by decide, by decide, ?_⟩, ⟨by decide, by decide, by decide, ?_⟩, trivial⟩
  · intro last past
    rw [fresh] at past
    cases past
  · rintro last ⟨⟩
    exact Int.le_refl _

theorem twoAtOnce_granted {nodeCount : Nat} (positive : 1 ≤ nodeCount) (reachable : quorum ≤ nodeCount)
    (long : DIST_LOCK_MAX_RESOURCE_LEN ≤ resource.length) :
    ¬ Permitted (redlockStep quorum resource) (RedlockExclusive quorum resource) (redlockInit nodeCount) twoAtOnce := by
  intro exclusive
  obtain ⟨node, cut, room, accepts⟩ : ∃ node : LockManager,
      (∀ lock ∈ node.locks, lock.resource.length < DIST_LOCK_MAX_RESOURCE_LEN) ∧
      node.locks.length < DIST_LOCK_MAX_LOCKS ∧ lockAcquire lockManagerInit resource [65] 1000 0 = (node, true) := by
    refine ⟨_, ?_, ?_, lockAcquire_cut long (fun lock inside => absurd inside List.not_mem_nil) (by decide) ..⟩
    · intro lock inside
      rw [List.mem_singleton.mp inside]
      exact Nat.lt_succ_of_le (length_strncpy_le ..)
    · simp [lockManagerInit, DIST_LOCK_MAX_LOCKS]
  have granted : redlockAcquire (redlockInit nodeCount).nodes quorum resource [65] 1000 0 =
      (List.replicate nodeCount node, true) := redlockAcquire_replicate positive reachable accepts
  have again : (redlockAcquire (List.replicate nodeCount node) quorum resource [66] 1000 0).2 = true := by
    rw [redlockAcquire_replicate positive reachable (lockAcquire_cut long cut room ..)]
  have refused := exclusive.2.1 [65] 0 1000 (by decide) (by simp [redlockStep, granted]) (by decide)
  simp only [redlockStep, granted] at refused
  cases again.symm.trans refused

/-- Over any number of nodes, the quorum lock is exclusive in every orderly run exactly when the
resource's name fits its field, or the quorum cannot be reached at all. -/
theorem redlockExclusive_iff (nodeCount : Nat) (quorum : Int) (resource : CString) (positive : 1 ≤ nodeCount) :
    (∀ calls, Permitted (redlockStep quorum resource) RedlockOrderly (redlockInit nodeCount) calls →
      Permitted (redlockStep quorum resource) (RedlockExclusive quorum resource) (redlockInit nodeCount) calls) ↔
    resource.length < DIST_LOCK_MAX_RESOURCE_LEN ∨ (nodeCount : Int) < quorum := by
  constructor
  · intro exclusive
    by_contra neither
    rw [not_or, Nat.not_lt, Int.not_lt] at neither
    exact twoAtOnce_granted positive neither.2 neither.1 (exclusive twoAtOnce (twoAtOnce_orderly rfl))
  · rintro (short | unreachable) calls orderly
    · refine Permitted.ofInvariant calls orderly (motive := Secured resource) ⟨fun _ _ _ grant => nomatch grant⟩ ?_ ?_
      · intro redlock call secured orderly
        exact secured.step short call orderly
      · intro redlock call secured orderly
        exact secured.exclusive call orderly
    · refine Permitted.ofInvariant calls orderly (motive := fun redlock => redlock.nodes.length = nodeCount)
        List.length_replicate ?_ ?_
      · intro redlock call same _
        rw [redlockStep_length, same]
      · intro redlock call same _
        refine exclusive_of_unreachable ?_ call
        rw [same]
        exact unreachable

/-- Five nodes with the usual quorum of three, and a short name. -/
theorem redlockExclusive_five :
    Permitted (redlockStep 3 [114]) (RedlockExclusive 3 [114]) (redlockInit 5) twoAtOnce :=
  (redlockExclusive_iff 5 3 [114] (by decide)).mpr (.inl (by decide)) twoAtOnce (twoAtOnce_orderly rfl)

/-- The same nodes and a name of 64 bytes: two owners are granted the lock at once. -/
theorem cutName_granted :
    Permitted (redlockStep 3 (List.replicate 64 114)) RedlockOrderly (redlockInit 5) twoAtOnce ∧
    ¬ Permitted (redlockStep 3 (List.replicate 64 114)) (RedlockExclusive 3 (List.replicate 64 114)) (redlockInit 5)
      twoAtOnce :=
  ⟨twoAtOnce_orderly rfl, twoAtOnce_granted (by decide) (by decide) (by decide)⟩

end MiniNetDist.Transaction.Lock
