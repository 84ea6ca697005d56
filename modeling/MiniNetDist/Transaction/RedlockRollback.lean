import MiniNetDist.Transaction.LockQueue
import MiniNetDist.Transaction.Redlock

/-! What a quorum lock leaves behind when it is not granted: the owner's lock is released on every node, also where
the owner had it before. -/

namespace MiniNetDist.Transaction.Lock

open Library

/-- Ownership, state and lease of a lock; the lease of an acquired lock has begun at a time. -/
structure Tenure where
  owner : CString
  state : LockState
  leaseTimeoutMs : Int
  since : Option Int
  deriving DecidableEq, Repr

def DistLock.tenure (lock : DistLock) : Tenure :=
  ⟨lock.owner, lock.state, lock.leaseTimeoutMs, if lock.state = .acquired then some lock.acquiredAtMs else none⟩

/-- The tenure of a lock that nobody has. -/
def Tenure.vacant : Tenure := ⟨[], .free, 0, none⟩

/-- The tenure of the resource's lock on a node; it is vacant as long as there is none. A name that does not fit its field
is never found. -/
def LockManager.tenure (lm : LockManager) (resource : CString) : Tenure :=
  (lm.lock resource).elim .vacant DistLock.tenure

/-- A call of one node, or of the quorum lock on all of them. -/
inductive NodesCall where
  | node (i : Nat) (call : LockCall)
  | acquire (quorum : Int) (resource owner : CString) (lease now : Int)
  | release (resource owner : CString)
  deriving DecidableEq, Repr

def nodesStep (nodes : List LockManager) : NodesCall → List LockManager
  | .node i call => nodes.modify i fun lm => (lm.call call).1
  | .acquire quorum resource owner lease now => (redlockAcquire nodes quorum resource owner lease now).1
  | .release resource owner => (redlockRelease nodes resource owner).1

/-- A call after which the ends of all leases are still of `int64_t`. -/
def Timely (nodes : List LockManager) (call : NodesCall) : Prop := ∀ lm ∈ nodesStep nodes call, LeasesFit lm

instance (nodes : List LockManager) (call : NodesCall) : Decidable (Timely nodes call) :=
  inferInstanceAs (Decidable (∀ lm ∈ nodesStep nodes call, LeasesFit lm))

def nodesInit (nodeCount : Nat) : List LockManager := List.replicate nodeCount lockManagerInit

/-- Nobody has a free lock. -/
def Tidy (lm : LockManager) : Prop := ∀ lock ∈ lm.locks, lock.state = .free → lock.tenure = .vacant

/-- The lock is free, or it runs under another owner's name. -/
def DistLock.stays (owner : CString) (now : Int) (lock : DistLock) : Bool :=
  lock.state = .free || lock.heldAt now && lock.owner ≠ owner

/-- What becomes of a node's lock when the quorum lock is not granted. -/
def LockManager.rolledBack (lm : LockManager) (resource owner : CString) (now : Int) : Tenure :=
  match lm.lock resource with
  | some lock => if lock.stays owner now then lock.tenure else .vacant
  | none => .vacant

variable {lm : LockManager} {lock : DistLock} {resource owner : CString} {lease now : Int}

section Tidiness

theorem tenure_distLockInit (resource : CString) : (distLockInit resource).tenure = .vacant := rfl

theorem tidy_init : Tidy lockManagerInit := fun _ inside => absurd inside List.not_mem_nil

theorem Tidy.put (tidy : Tidy lm) (idx : Nat) (vacant : lock.state = .free → lock.tenure = .vacant) :
    Tidy (lm.put idx lock) := by
  intro other inside
  rcases List.mem_or_eq_of_mem_set inside with before | rfl
  · exact tidy other before
  · exact vacant

theorem Tidy.append (tidy : Tidy lm) (resource : CString) :
    Tidy { lm with locks := lm.locks ++ [distLockInit resource] } := by
  intro other inside
  rcases List.mem_append.mp inside with before | new
  · exact tidy other before
  · rw [List.mem_singleton.mp new]
    exact fun _ => rfl

/-- A call on a lock keeps a node tidy if it does so on the locks of a tidy one. -/
theorem Tidy.onLock (tidy : Tidy lm) (resource : CString) {call : LockManager → Nat → DistLock → LockManager × Bool}
    (keeps : ∀ lm idx lock, Tidy lm → lock ∈ lm.locks → Tidy (call lm idx lock).1) :
    Tidy (onLock lm resource call).1 := by
  rcases onLock_cases lm resource call with ⟨idx, lock, -, -, stored, found⟩ | ⟨-, -, refused⟩ | ⟨-, -, created⟩
  · rw [found]
    exact keeps lm idx lock tidy (List.mem_of_getElem? stored)
  · rw [refused]
    exact tidy
  · rw [created]
    exact keeps _ _ _ (tidy.append resource) (List.mem_append_right _ (List.mem_singleton_self _))

theorem Tidy.acquire (tidy : Tidy lm) (resource owner : CString) (lease now : Int) :
    Tidy (lockAcquire lm resource owner lease now).1 := by
  apply tidy.onLock
  intro lm idx lock tidy _
  split_ifs
  · intro other inside
    rw [locks_enqueue] at inside
    exact tidy other inside
  · exact tidy.put idx fun free => LockState.noConfusion free

theorem Tidy.release (tidy : Tidy lm) (resource owner : CString) : Tidy (lockRelease lm resource owner).1 := by
  apply tidy.onLock
  intro lm idx lock tidy _
  split_ifs
  · exact tidy
  · have put : Tidy (lm.put idx { lock with state := .free, owner := [], leaseTimeoutMs := 0 }) :=
      tidy.put idx fun _ => rfl
    exact put

theorem Tidy.renew (tidy : Tidy lm) (resource owner : CString) (extend now : Int) :
    Tidy (lockRenewLease lm resource owner extend now).1 := by
  apply tidy.onLock
  intro lm idx lock tidy _
  split_ifs with other
  · exact tidy
  · refine tidy.put idx fun free => ?_
    have owned : lock.ownedBy owner = true := by simpa using other
    simp only [DistLock.ownedBy, Bool.and_eq_true, decide_eq_true_iff] at owned
    cases owned.1.symm.trans free

theorem Tidy.expiry (tidy : Tidy lm) (now : Int) : Tidy (lockHandleExpiry lm now).1 := by
  intro lock inside
  obtain ⟨before, stored, rfl⟩ := List.mem_map.mp inside
  rw [DistLock.expire]
  by_cases ended : before.state = .acquired ∧ before.acquiredAtMs + before.leaseTimeoutMs ≤ now
  · rw [if_pos ended]
    exact fun free => LockState.noConfusion free
  · rw [if_neg ended]
    exact tidy before stored

theorem Tidy.process (tidy : Tidy lm) (resource : CString) (now : Int) :
    Tidy (lockProcessWaitQueue lm resource now).1 := by
  rw [lockProcessWaitQueue]
  cases lm.waitQueue with
  | nil => exact tidy
  | cons w waiters =>
    apply tidy.onLock
    intro lm idx lock tidy _
    split_ifs
    · exact tidy
    · have acquired := tidy.acquire resource w.owner DIST_LOCK_DEFAULT_LEASE_MS now
      rw [lockGrantFirst]
      dsimp only
      split_ifs
      · exact acquired
      · exact acquired

theorem Tidy.call (tidy : Tidy lm) (call : LockCall) : Tidy (lm.call call).1 := by
  cases call with
  | acquire resource owner lease now => exact tidy.acquire resource owner lease now
  | release resource owner => exact tidy.release resource owner
  | renew resource owner extend now => exact tidy.renew resource owner extend now
  | expiry now => exact tidy.expiry now
  | process resource now => exact tidy.process resource now

theorem tidy_nodes {nodeCount : Nat} {nodes : List LockManager}
    (reached : Reaches nodesStep Timely (nodesInit nodeCount) nodes) : ∀ lm ∈ nodes, Tidy lm := by
  refine reached.invariant (motive := fun nodes => ∀ lm ∈ nodes, Tidy lm) ?_ ?_
  · intro lm inside
    rw [List.eq_of_mem_replicate inside]
    exact tidy_init
  · intro nodes call tidy _
    cases call with
    | node i call =>
      intro lm inside
      obtain ⟨j, stored⟩ := List.getElem?_of_mem inside
      rw [nodesStep, List.getElem?_modify] at stored
      obtain ⟨before, there, rfl⟩ := Option.map_eq_some_iff.mp stored
      have held := tidy before (List.mem_of_getElem? there)
      split_ifs
      · exact held.call call
      · exact held
    | acquire quorum resource owner lease now =>
      rw [nodesStep, redlockAcquire_eq]
      split_ifs
      · refine List.forall_mem_map.mpr fun lm inside => ?_
        exact (tidy lm inside).acquire resource owner lease now
      · refine List.forall_mem_map.mpr fun lm inside => ?_
        exact ((tidy lm inside).acquire resource owner lease now).release resource owner
    | release resource owner =>
      rw [nodesStep, redlockRelease, List.map_map]
      exact List.forall_mem_map.mpr fun lm inside => (tidy lm inside).release resource owner

end Tidiness

section Nodes

theorem lock_put {idx : Nat} (located : Table.position DistLock.resource lm.locks resource = some idx)
    (named : lock.resource = resource) : (lm.put idx lock).lock resource = some lock :=
  Table.find_set_position located named

theorem tenure_of_lock (here : lm.lock resource = some lock) : lm.tenure resource = lock.tenure := by
  rw [LockManager.tenure, here]
  rfl

theorem tenure_of_missing (missing : lm.lock resource = none) : lm.tenure resource = .vacant := by
  rw [LockManager.tenure, missing]
  rfl

/-- A release leaves the lock vacant if the owner has it. -/
theorem tenure_released (here : lm.lock resource = some lock) (owned : lock.ownedBy owner = true) :
    (lockRelease lm resource owner).1.tenure resource = .vacant := by
  rcases lockRelease_cases lm resource owner with ⟨idx, found, located, there, -, -, released⟩ | ⟨other, -⟩
  · rw [released]
    rw [here] at there
    cases there
    have named : lock.resource = resource := Table.key_of_find here
    have put : (lm.put idx { lock with state := .free, owner := [], leaseTimeoutMs := 0 }).lock resource = _ :=
      lock_put located named
    exact tenure_of_lock put
  · cases (other lock here).symm.trans owned

/-- A lock that was added is found if it has the name that was missing. -/
theorem lock_append (missing : lm.lock resource = none) (lock : DistLock) :
    ({ lm with locks := lm.locks ++ [lock] } : LockManager).lock resource =
      if lock.resource = resource then some lock else none := by
  unfold LockManager.lock at missing ⊢
  dsimp only
  rw [Table.find_append, missing, Option.none_or]

/-- A release that is not the owner's changes no tenure. -/
theorem tenure_kept (other : ∀ lock, lm.lock resource = some lock → lock.ownedBy owner = false) :
    (lockRelease lm resource owner).1.tenure resource = lm.tenure resource := by
  rcases lockRelease_cases lm resource owner with ⟨idx, lock, -, here, -, owned, -⟩ | ⟨-, same | ⟨missing, created⟩⟩
  · cases (other lock here).symm.trans owned
  · rw [same]
  · rw [created, tenure_of_missing missing, LockManager.tenure, lock_append missing]
    split_ifs
    · exact tenure_distLockInit resource
    · rfl

theorem tenure_unlocked (missing : lm.lock resource = none) (owner : CString) :
    (lockRelease lm resource owner).1.tenure resource = .vacant := by
  have nobody : ∀ lock, lm.lock resource = some lock → lock.ownedBy owner = false := by
    intro lock here
    cases missing.symm.trans here
  rw [tenure_kept nobody, tenure_of_missing missing]

theorem ownedBy_grant (fits : owner.length < DIST_LOCK_MAX_OWNER_LEN) (lock : DistLock) (lease now : Int) :
    (lock.grant owner lease now).ownedBy owner = true := by
  have whole : strncpy owner (DIST_LOCK_MAX_OWNER_LEN - 1) = owner := strncpy_of_lt fits
  simp [DistLock.grant, DistLock.ownedBy, whole]

/-- The node refuses, and what is released is what the owner had before. -/
theorem tenure_refused {now : Int} (here : lm.lock resource = some lock) (held : lock.heldAt now = true) :
    (lockRelease (lm.enqueue owner now) resource owner).1.tenure resource = lm.rolledBack resource owner now := by
  have queued : (lm.enqueue owner now).lock resource = some lock := by rw [lock_enqueue, here]
  have taken : lock.state = .acquired := by
    rw [DistLock.heldAt, Bool.and_eq_true] at held
    exact of_decide_eq_true held.1
  rw [LockManager.rolledBack, here]
  by_cases own : lock.owner = owner
  · have owned : lock.ownedBy owner = true := by simp [DistLock.ownedBy, taken, own]
    have leaves : lock.stays owner now = false := by simp [DistLock.stays, taken, own]
    rw [tenure_released queued owned]
    simp only [leaves, Bool.false_eq_true, if_false]
  · have stays : lock.stays owner now = true := by simp [DistLock.stays, held, own]
    have other : ∀ found, (lm.enqueue owner now).lock resource = some found → found.ownedBy owner = false := by
      intro found there
      rw [queued] at there
      cases there
      simp [DistLock.ownedBy, own]
    rw [tenure_kept other, tenure_of_lock queued]
    simp only [stays, if_true]

/-- The node grants the lock, and it is given back. -/
theorem tenure_granted {idx : Nat} {now : Int} (tidy : Tidy lm) (fits : owner.length < DIST_LOCK_MAX_OWNER_LEN)
    (located : Table.position DistLock.resource lm.locks resource = some idx) (here : lm.lock resource = some lock)
    (stored : lm.locks[idx]? = some lock) (lapsed : lock.heldAt now = false) (lease : Int) :
    (lockRelease (lm.put idx (lock.grant owner lease now)) resource owner).1.tenure resource =
      lm.rolledBack resource owner now := by
  have named : (lock.grant owner lease now).resource = resource := (Table.key_of_find here : lock.resource = resource)
  rw [tenure_released (lock_put located named) (ownedBy_grant fits lock lease now), LockManager.rolledBack, here]
  dsimp only
  split_ifs with stays
  · have free : lock.state = .free := by simpa [DistLock.stays, lapsed] using stays
    exact (tidy lock (List.mem_of_getElem? stored) free).symm
  · rfl

/-- The node adds the lock, and it is given back. -/
theorem tenure_added {now : Int} (shortName : resource.length < DIST_LOCK_MAX_RESOURCE_LEN)
    (fits : owner.length < DIST_LOCK_MAX_OWNER_LEN) (missing : lm.lock resource = none) (lease : Int) :
    (lockRelease { lm with locks := lm.locks ++ [(distLockInit resource).grant owner lease now] } resource
      owner).1.tenure resource = .vacant := by
  have named : ((distLockInit resource).grant owner lease now).resource = resource := strncpy_of_lt shortName
  have added := lock_append missing ((distLockInit resource).grant owner lease now)
  rw [if_pos named] at added
  exact tenure_released added (ownedBy_grant fits (distLockInit resource) lease now)

/-- One node, when the names of the resource and the owner fit their fields. -/
theorem tenure_rolledBack (tidy : Tidy lm) (shortName : resource.length < DIST_LOCK_MAX_RESOURCE_LEN)
    (fits : owner.length < DIST_LOCK_MAX_OWNER_LEN) (lease now : Int) :
    (lockRelease (lockAcquire lm resource owner lease now).1 resource owner).1.tenure resource =
      lm.rolledBack resource owner now := by
  rcases lockAcquire_cases lm resource owner lease now with ⟨lock, here, held, refused⟩ |
    ⟨idx, lock, located, here, stored, lapsed, acquired⟩ | ⟨missing, -, refused⟩ | ⟨missing, -, acquired⟩
  · rw [refused]
    exact tenure_refused here held
  · rw [acquired]
    exact tenure_granted tidy fits located here stored lapsed lease
  · rw [refused, tenure_unlocked missing, LockManager.rolledBack, missing]
  · rw [acquired, tenure_added shortName fits missing, LockManager.rolledBack, missing]

end Nodes

section Rollback

variable {nodes : List LockManager} {nodeCount : Nat} {quorum : Int}

/-- A quorum lock that is not granted leaves every node's lock as it was where it is free or runs under another
owner's name, and vacant where the owner had it already or nobody has it any more. -/
theorem redlockAcquire_rolledBack (reached : Reaches nodesStep Timely (nodesInit nodeCount) nodes)
    (shortName : resource.length < DIST_LOCK_MAX_RESOURCE_LEN) (fits : owner.length < DIST_LOCK_MAX_OWNER_LEN)
    (refused : (redlockAcquire nodes quorum resource owner lease now).2 = false) :
    (redlockAcquire nodes quorum resource owner lease now).1.map (·.tenure resource) =
      nodes.map (·.rolledBack resource owner now) := by
  rw [redlockAcquire_eq] at refused ⊢
  split_ifs at refused ⊢
  rw [List.map_map]
  apply List.map_congr_left
  intro lm inside
  exact tenure_rolledBack (tidy_nodes reached lm inside) shortName fits lease now

/-- One owner has the quorum lock of three nodes. -/
def heldByOne : List LockManager := nodesStep (nodesInit 3) (.acquire 2 [114] [65] 1000 0)

/-- The first node's lock ran out, and two other nodes are held. -/
def ranOut : List LockManager :=
  [NodesCall.node 0 (.acquire [114] [66] 1 0), .node 1 (.acquire [114] [67] 1000 0),
    .node 2 (.acquire [114] [67] 1000 0)].foldl nodesStep (nodesInit 3)

theorem reaches_heldByOne : Reaches nodesStep Timely (nodesInit 3) heldByOne :=
  Reaches.ofCalls [NodesCall.acquire 2 [114] [65] 1000 0] (by decide)

/-- The same owner tries once more; each node's lock is now vacant. -/
theorem redlockAcquire_rolledBack_heldByOne :
    (redlockAcquire heldByOne 2 [114] [65] 1000 1).2 = false ∧
    (redlockAcquire heldByOne 2 [114] [65] 1000 1).1.map (·.tenure [114]) =
      heldByOne.map (·.rolledBack [114] [65] 1) :=
  ⟨by decide, redlockAcquire_rolledBack reaches_heldByOne (by decide) (by decide) (by decide)⟩

/-- Refused calls that change the locks: an owner loses the lock that it has, and a lock that ran out is vacated. -/
theorem redlockAcquire_refused_changes :
    (Reaches nodesStep Timely (nodesInit 3) heldByOne ∧ (redlockAcquire heldByOne 2 [114] [65] 1000 1).2 = false ∧
      (redlockAcquire heldByOne 2 [114] [65] 1000 1).1.map (·.tenure [114]) ≠ heldByOne.map (·.tenure [114])) ∧
    (Reaches nodesStep Timely (nodesInit 3) ranOut ∧ (redlockAcquire ranOut 2 [114] [65] 1000 5).2 = false ∧
      (redlockAcquire ranOut 2 [114] [65] 1000 5).1.map (·.tenure [114]) ≠ ranOut.map (·.tenure [114])) :=
  ⟨⟨reaches_heldByOne, by decide, by decide⟩, ⟨Reaches.ofCalls _ (by decide), by decide, by decide⟩⟩

end Rollback

end MiniNetDist.Transaction.Lock
