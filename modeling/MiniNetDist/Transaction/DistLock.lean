import MiniNetDist.Library.Closure
import MiniNetDist.Library.Run
import MiniNetDist.Library.Table
import Mathlib.Algebra.Group.Int.Defs

/-! The lock manager of `mini-dist-transaction/src/dist_lock.c`: leases on named resources, one
queue of refused owners for all of them, and quorum locks over several managers. -/

namespace MiniNetDist.Transaction.Lock

open Library

def DIST_LOCK_MAX_LOCKS : Nat := 64
def DIST_LOCK_DEFAULT_LEASE_MS : Int := 30000
def DIST_LOCK_MAX_OWNER_LEN : Nat := 64
def DIST_LOCK_MAX_RESOURCE_LEN : Nat := 64
def DIST_LOCK_WAIT_QUEUE_SIZE : Nat := 16

inductive LockState where
  | free
  | acquired
  | expired
  | waiting
  deriving DecidableEq, Repr

structure DistLock where
  resource : CString
  owner : CString
  leaseTimeoutMs : Int
  acquiredAtMs : Int
  version : Int
  state : LockState
  deriving DecidableEq, Repr

structure LockWaitEntry where
  owner : CString
  waitSinceMs : Int
  deriving DecidableEq, Repr

structure LockManager where
  locks : List DistLock
  waitQueue : List LockWaitEntry
  deriving DecidableEq, Repr

def distLockInit (resource : CString) : DistLock :=
  ⟨strncpy resource (DIST_LOCK_MAX_RESOURCE_LEN - 1), [], 0, 0, 0, .free⟩

def lockManagerInit : LockManager := ⟨[], []⟩

def lockManagerFindOrCreate (lm : LockManager) (resource : CString) : LockManager × Option Nat :=
  match Table.position DistLock.resource lm.locks resource with
  | some idx => (lm, some idx)
  | none =>
    if lm.locks.length ≥ DIST_LOCK_MAX_LOCKS then (lm, none)
    else ({ lm with locks := lm.locks ++ [distLockInit resource] }, some lm.locks.length)

/-- The lock of the resource, found or created, and what a call makes of it. -/
def onLock (lm : LockManager) (resource : CString)
    (call : LockManager → Nat → DistLock → LockManager × Bool) : LockManager × Bool :=
  let (lm, idx) := lockManagerFindOrCreate lm resource
  match idx with
  | none => (lm, false)
  | some idx =>
    match lm.locks[idx]? with
    | none => (lm, false)
    | some lock => call lm idx lock

def LockManager.put (lm : LockManager) (idx : Nat) (lock : DistLock) : LockManager :=
  { lm with locks := lm.locks.set idx lock }

/-- The lease runs. The sum is of `int64_t` in the source, and the same as long as it fits (`LeasesFit`). -/
def DistLock.heldAt (now : Int) (lock : DistLock) : Bool :=
  lock.state = .acquired && lock.acquiredAtMs + lock.leaseTimeoutMs > now

def DistLock.ownedBy (owner : CString) (lock : DistLock) : Bool := lock.state = .acquired && lock.owner = owner

/-- Append to the queue, which drops what does not fit. -/
def LockManager.enqueue (lm : LockManager) (owner : CString) (now : Int) : LockManager :=
  if lm.waitQueue.length < DIST_LOCK_WAIT_QUEUE_SIZE then
    { lm with waitQueue := lm.waitQueue ++ [⟨strncpy owner (DIST_LOCK_MAX_OWNER_LEN - 1), now⟩] }
  else lm

/-- Shift the queue by one. -/
def LockManager.dequeue (lm : LockManager) : LockManager := { lm with waitQueue := lm.waitQueue.tail }

def DistLock.grant (owner : CString) (lease now : Int) (lock : DistLock) : DistLock :=
  { lock with
    owner := strncpy owner (DIST_LOCK_MAX_OWNER_LEN - 1)
    leaseTimeoutMs := lease
    acquiredAtMs := now
    version := lock.version + 1
    state := .acquired }

def lockAcquire (lm : LockManager) (resource owner : CString) (lease now : Int) : LockManager × Bool :=
  onLock lm resource fun lm idx lock =>
    if lock.heldAt now then (lm.enqueue owner now, false)
    else (lm.put idx (lock.grant owner lease now), true)

def lockRelease (lm : LockManager) (resource owner : CString) : LockManager × Bool :=
  onLock lm resource fun lm idx lock =>
    if !lock.ownedBy owner then (lm, false)
    else ((lm.put idx { lock with state := .free, owner := [], leaseTimeoutMs := 0 }).dequeue, true)

def lockRenewLease (lm : LockManager) (resource owner : CString) (extend now : Int) : LockManager × Bool :=
  onLock lm resource fun lm idx lock =>
    if !lock.ownedBy owner then (lm, false)
    else (lm.put idx { lock with leaseTimeoutMs := lock.leaseTimeoutMs + extend, acquiredAtMs := now }, true)

def DistLock.expire (now : Int) (lock : DistLock) : DistLock :=
  if lock.state = .acquired ∧ lock.acquiredAtMs + lock.leaseTimeoutMs ≤ now then { lock with state := .expired }
  else lock

def lockHandleExpiry (lm : LockManager) (now : Int) : LockManager × Nat :=
  ({ lm with locks := lm.locks.map (·.expire now) },
    lm.locks.countP fun lock => lock.state = .acquired ∧ lock.acquiredAtMs + lock.leaseTimeoutMs ≤ now)

/-- The end of `lock_process_wait_queue`: the lock is looked up, and perhaps created, once more. -/
def lockGrantFirst (lm : LockManager) (resource owner : CString) (now : Int) : LockManager × Bool :=
  let (lm, ok) := lockAcquire lm resource owner DIST_LOCK_DEFAULT_LEASE_MS now
  (if ok then lm.dequeue else lm, ok)

def lockProcessWaitQueue (lm : LockManager) (resource : CString) (now : Int) : LockManager × Bool :=
  match lm.waitQueue with
  | [] => (lm, false)
  | w :: _ =>
    onLock lm resource fun lm _ lock =>
      if lock.state ≠ .waiting ∧ lock.state ≠ .free then (lm, false)
      else lockGrantFirst lm resource w.owner now

def redlockMajority (votesFor total quorum : Int) : Bool := votesFor ≥ quorum && votesFor > total / 2

def redlockRelease (nodes : List LockManager) (resource owner : CString) : List LockManager × Bool :=
  let results := nodes.map (lockRelease · resource owner)
  (results.map (·.1), results.countP (·.2) > 0)

def redlockAcquire (nodes : List LockManager) (quorum : Int) (resource owner : CString) (lease now : Int) :
    List LockManager × Bool :=
  let results := nodes.map (lockAcquire · resource owner lease now)
  let nodes := results.map (·.1)
  if !redlockMajority (results.countP (·.2)) nodes.length quorum then
    ((redlockRelease nodes resource owner).1, false)
  else (nodes, true)

/-- The matrix that `lock_deadlock_detect` fills before it closes it. -/
def lockWaitGraph (lm : LockManager) (i j : Nat) : Bool :=
  match lm.locks[i]?, lm.locks[j]? with
  | some first, some second =>
    i ≠ j && first.state = .acquired && first.owner = second.owner &&
      lm.waitQueue.any (·.owner = second.owner)
  | _, _ => false

def lockDeadlockDetect (lm : LockManager) : Nat :=
  let n := min lm.locks.length 16
  let graph := Closure.floydWarshall (List.range n) (lockWaitGraph lm)
  (List.range n).countP fun i => graph i i

/-- The ends of all leases are of `int64_t`. -/
def LeasesFit (lm : LockManager) : Prop :=
  ∀ lock ∈ lm.locks, lock.state = .acquired →
    -2 ^ 63 ≤ lock.acquiredAtMs + lock.leaseTimeoutMs ∧ lock.acquiredAtMs + lock.leaseTimeoutMs < 2 ^ 63

instance (lm : LockManager) : Decidable (LeasesFit lm) := inferInstanceAs (Decidable (∀ lock ∈ lm.locks, _))

/-- The lock found under a resource. -/
def LockManager.lock (lm : LockManager) (resource : CString) : Option DistLock :=
  Table.find DistLock.resource lm.locks resource

theorem locks_enqueue (lm : LockManager) (owner : CString) (now : Int) : (lm.enqueue owner now).locks = lm.locks := by
  unfold LockManager.enqueue
  split <;> rfl

/-- A call works on the lock it finds, or on a new one if there is room. -/
theorem onLock_cases (lm : LockManager) (resource : CString)
    (call : LockManager → Nat → DistLock → LockManager × Bool) :
    (∃ idx lock, Table.position DistLock.resource lm.locks resource = some idx ∧ lm.lock resource = some lock ∧
      lm.locks[idx]? = some lock ∧ onLock lm resource call = call lm idx lock) ∨
    (lm.lock resource = none ∧ DIST_LOCK_MAX_LOCKS ≤ lm.locks.length ∧ onLock lm resource call = (lm, false)) ∨
    (lm.lock resource = none ∧ lm.locks.length < DIST_LOCK_MAX_LOCKS ∧
      onLock lm resource call =
        call { lm with locks := lm.locks ++ [distLockInit resource] } lm.locks.length (distLockInit resource)) := by
  unfold onLock lockManagerFindOrCreate LockManager.lock
  cases located : Table.position DistLock.resource lm.locks resource with
  | some idx =>
    left
    have found := Table.getElem?_position located
    obtain ⟨lock, here⟩ : ∃ lock, Table.find DistLock.resource lm.locks resource = some lock := by
      rw [← Option.isSome_iff_exists, Table.find_isSome_iff, ← Table.position_isSome_iff, located]
      rfl
    rw [here] at found
    exact ⟨idx, lock, rfl, here, found, by simp [found]⟩
  | none =>
    right
    have missing := Table.position_eq_none_iff.mp located
    by_cases full : lm.locks.length ≥ DIST_LOCK_MAX_LOCKS
    · exact .inl ⟨missing, full, by simp [full]⟩
    · exact .inr ⟨missing, Nat.not_le.mp full, by simp [full]⟩

/-- Everything that an acquisition can do. -/
theorem lockAcquire_cases (lm : LockManager) (resource owner : CString) (lease now : Int) :
    (∃ lock, lm.lock resource = some lock ∧ lock.heldAt now = true ∧
      lockAcquire lm resource owner lease now = (lm.enqueue owner now, false)) ∨
    (∃ idx lock, Table.position DistLock.resource lm.locks resource = some idx ∧ lm.lock resource = some lock ∧
      lm.locks[idx]? = some lock ∧ lock.heldAt now = false ∧
      lockAcquire lm resource owner lease now = (lm.put idx (lock.grant owner lease now), true)) ∨
    (lm.lock resource = none ∧ DIST_LOCK_MAX_LOCKS ≤ lm.locks.length ∧
      lockAcquire lm resource owner lease now = (lm, false)) ∨
    (lm.lock resource = none ∧ lm.locks.length < DIST_LOCK_MAX_LOCKS ∧
      lockAcquire lm resource owner lease now =
        ({ lm with locks := lm.locks ++ [(distLockInit resource).grant owner lease now] }, true)) := by
  unfold lockAcquire
  rcases onLock_cases lm resource _ with ⟨idx, lock, located, here, stored, found⟩ | ⟨missing, full, refused⟩ |
    ⟨missing, room, created⟩
  · rw [found]
    by_cases held : lock.heldAt now = true
    · exact .inl ⟨lock, here, held, if_pos held⟩
    · exact .inr (.inl ⟨idx, lock, located, here, stored, Bool.eq_false_iff.mpr held, if_neg held⟩)
  · exact .inr (.inr (.inl ⟨missing, full, refused⟩))
  · have free : ¬ (distLockInit resource).heldAt now = true := by simp [DistLock.heldAt, distLockInit]
    rw [created, if_neg free]
    exact .inr (.inr (.inr ⟨missing, room, by simp [LockManager.put]⟩))

/-- Everything that a release can do; the one that fails may have created a free lock. -/
theorem lockRelease_cases (lm : LockManager) (resource owner : CString) :
    (∃ idx lock, Table.position DistLock.resource lm.locks resource = some idx ∧ lm.lock resource = some lock ∧
      lm.locks[idx]? = some lock ∧ lock.ownedBy owner = true ∧ lockRelease lm resource owner =
        ((lm.put idx { lock with state := .free, owner := [], leaseTimeoutMs := 0 }).dequeue, true)) ∨
    ((∀ lock, lm.lock resource = some lock → lock.ownedBy owner = false) ∧
      (lockRelease lm resource owner = (lm, false) ∨ lm.lock resource = none ∧
        lockRelease lm resource owner = ({ lm with locks := lm.locks ++ [distLockInit resource] }, false))) := by
  unfold lockRelease
  rcases onLock_cases lm resource _ with ⟨idx, lock, located, here, stored, found⟩ | ⟨missing, -, refused⟩ |
    ⟨missing, -, created⟩
  · rw [found]
    by_cases owned : lock.ownedBy owner = true
    · exact .inl ⟨idx, lock, located, here, stored, owned, by simp [owned]⟩
    · refine .inr ⟨?_, .inl (by simp [owned])⟩
      intro other found
      rw [here] at found
      cases found
      exact Bool.eq_false_iff.mpr owned
  · rw [refused]
    refine .inr ⟨?_, .inl rfl⟩
    intro lock found
    cases missing.symm.trans found
  · have free : (distLockInit resource).ownedBy owner = false := by simp [DistLock.ownedBy, distLockInit]
    rw [created]
    refine .inr ⟨?_, .inr ⟨missing, by simp [free]⟩⟩
    intro lock found
    cases missing.symm.trans found

end MiniNetDist.Transaction.Lock
