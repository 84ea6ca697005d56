import MiniNetDist.Transaction.DistLock

/-! Fairness of the wait queue. The queue is shared by all resources and its entries do not say
what their owners asked for, so the waiters are kept beside it. -/

namespace MiniNetDist.Transaction.Lock

open Library

inductive LockCall where
  | acquire (resource owner : CString) (lease now : Int)
  | release (resource owner : CString)
  | renew (resource owner : CString) (extend now : Int)
  | expiry (now : Int)
  | process (resource : CString) (now : Int)
  deriving DecidableEq, Repr

def LockManager.call (lm : LockManager) : LockCall → LockManager × Bool
  | .acquire resource owner lease now => lockAcquire lm resource owner lease now
  | .release resource owner => lockRelease lm resource owner
  | .renew resource owner extend now => lockRenewLease lm resource owner extend now
  | .expiry now => ((lockHandleExpiry lm now).1, false)
  | .process resource now => lockProcessWaitQueue lm resource now

/-- What an entry of the queue stands for. -/
structure Waiter where
  resource : CString
  owner : CString
  deriving DecidableEq, Repr

structure Waiting where
  lm : LockManager
  queued : List Waiter

def waitingInit : Waiting := ⟨lockManagerInit, []⟩

/-- The waiters that the call shifts out of the queue. -/
def Waiting.departing (waiting : Waiting) (call : LockCall) : List Waiter :=
  waiting.queued.take (waiting.lm.waitQueue.length - (waiting.lm.call call).1.waitQueue.length)

/-- The waiter that the call has queued. -/
def Waiting.joining (waiting : Waiting) (call : LockCall) : List Waiter :=
  match call with
  | .acquire resource owner _ _ =>
    if waiting.lm.waitQueue.length < (waiting.lm.call call).1.waitQueue.length then [⟨resource, owner⟩] else []
  | _ => []

def waitingStep (waiting : Waiting) (call : LockCall) : Waiting :=
  ⟨(waiting.lm.call call).1, waiting.queued.drop (waiting.departing call).length ++ waiting.joining call⟩

/-- A lock of this name was given to this owner at this time. -/
def Granted (lm : LockManager) (waiter : Waiter) (now : Int) : Prop :=
  ∃ lock ∈ lm.locks, strncpy lock.resource (DIST_LOCK_MAX_RESOURCE_LEN - 1) =
      strncpy waiter.resource (DIST_LOCK_MAX_RESOURCE_LEN - 1) ∧
    lock.owner = strncpy waiter.owner (DIST_LOCK_MAX_OWNER_LEN - 1) ∧ lock.state = .acquired ∧
    lock.acquiredAtMs = now

/-- Waiters leave by being granted what they asked for, and a grant goes to the earliest of
those that asked for the resource. -/
structure FairCall (waiting : Waiting) (call : LockCall) : Prop where
  leaves : ∀ waiter ∈ waiting.departing call, ∃ now, call = .process waiter.resource now ∧
    Granted (waiting.lm.call call).1 waiter now
  grants : ∀ resource now, call = .process resource now → (waiting.lm.call call).2 = true →
    ∃ waiter, waiting.queued.find? (·.resource = resource) = some waiter ∧
      Granted (waiting.lm.call call).1 waiter now

/-- The resource has a lock that is not taken, or room for the locks that a grant would create:
two of them if the name does not fit its field. -/
def Grantable (lm : LockManager) (resource : CString) : Prop :=
  match lm.lock resource with
  | some lock => lock.state = .waiting ∨ lock.state = .free
  | none => lm.locks.length + (if resource.length < DIST_LOCK_MAX_RESOURCE_LEN then 1 else 2) ≤ DIST_LOCK_MAX_LOCKS

/-- The calls that respect the queue: an owner releases its lock only while nobody waits, and the
queue is processed for a resource that can be granted only if the first waiter asked for it. -/
def QueueRespected (waiting : Waiting) : LockCall → Prop
  | .release resource owner =>
    (∃ lock, waiting.lm.lock resource = some lock ∧ lock.ownedBy owner = true) → waiting.queued = []
  | .process resource _ =>
    Grantable waiting.lm resource → ∀ waiter ∈ waiting.queued.head?, waiter.resource = resource
  | _ => True

variable {lm : LockManager} {waiting : Waiting}

theorem enqueue_cases (lm : LockManager) (owner : CString) (now : Int) :
    lm.enqueue owner now = lm ∨ (lm.enqueue owner now).waitQueue =
      lm.waitQueue ++ [⟨strncpy owner (DIST_LOCK_MAX_OWNER_LEN - 1), now⟩] := by
  unfold LockManager.enqueue
  split_ifs
  · exact .inr rfl
  · exact .inl rfl

/-- An acquisition leaves the queue alone or appends to it. -/
theorem lockAcquire_queue (lm : LockManager) (resource owner : CString) (lease now : Int) :
    (lockAcquire lm resource owner lease now).1.waitQueue = lm.waitQueue ∨
    (lockAcquire lm resource owner lease now).1.waitQueue =
      lm.waitQueue ++ [⟨strncpy owner (DIST_LOCK_MAX_OWNER_LEN - 1), now⟩] := by
  rcases lockAcquire_cases lm resource owner lease now with ⟨-, -, -, refused⟩ | ⟨idx, lock, -, -, -, -, acquired⟩ |
    ⟨-, -, refused⟩ | ⟨-, -, acquired⟩
  · rw [refused]
    rcases enqueue_cases lm owner now with full | queued
    · exact .inl (by rw [full])
    · exact .inr queued
  · rw [acquired]
    exact .inl rfl
  · rw [refused]
    exact .inl rfl
  · rw [acquired]
    exact .inl rfl

theorem lockRenewLease_queue (lm : LockManager) (resource owner : CString) (extend now : Int) :
    (lockRenewLease lm resource owner extend now).1.waitQueue = lm.waitQueue := by
  unfold lockRenewLease
  rcases onLock_cases lm resource _ with ⟨idx, lock, -, -, -, found⟩ | ⟨-, -, full⟩ | ⟨-, -, created⟩
  · rw [found]
    split_ifs <;> rfl
  · rw [full]
  · rw [created]
    split_ifs <;> rfl

/-- A release that succeeds shifts the queue, whoever is first in it. -/
theorem lockRelease_queue (lm : LockManager) (resource owner : CString) :
    ((∃ lock, lm.lock resource = some lock ∧ lock.ownedBy owner = true) ∧
      (lockRelease lm resource owner).1.waitQueue = lm.waitQueue.tail) ∨
    ((¬ ∃ lock, lm.lock resource = some lock ∧ lock.ownedBy owner = true) ∧
      (lockRelease lm resource owner).1.waitQueue = lm.waitQueue) := by
  rcases lockRelease_cases lm resource owner with ⟨idx, lock, -, here, -, owned, released⟩ | ⟨foreign, failed⟩
  · rw [released]
    exact .inl ⟨⟨lock, here, owned⟩, rfl⟩
  · right
    constructor
    · rintro ⟨lock, here, owned⟩
      cases (foreign lock here).symm.trans owned
    · rcases failed with same | ⟨-, created⟩
      · rw [same]
      · rw [created]

theorem granted_put {idx : Nat} {lock : DistLock} {resource owner : CString} {lease now : Int}
    (inside : idx < lm.locks.length)
    (named : strncpy lock.resource (DIST_LOCK_MAX_RESOURCE_LEN - 1) =
      strncpy resource (DIST_LOCK_MAX_RESOURCE_LEN - 1)) :
    Granted (lm.put idx (lock.grant owner lease now)) ⟨resource, owner⟩ now :=
  ⟨lock.grant owner lease now, List.mem_set inside _, named, rfl, rfl, rfl⟩

theorem strncpy_strncpy (source : CString) (bound : Nat) :
    strncpy (strncpy source bound) bound = strncpy source bound := by
  simp [strncpy, List.take_take]

/-- An acquisition of a lock that is there and not taken. -/
theorem lockAcquire_untaken {resource : CString} {lock : DistLock} (owner : CString) (lease now : Int)
    (here : lm.lock resource = some lock) (untaken : lock.state ≠ .acquired) :
    (lockAcquire lm resource owner lease now).2 = true ∧
    (lockAcquire lm resource owner lease now).1.waitQueue = lm.waitQueue ∧
    Granted (lockAcquire lm resource owner lease now).1 ⟨resource, owner⟩ now := by
  rcases lockAcquire_cases lm resource owner lease now with ⟨other, located, held, -⟩ |
    ⟨idx, other, -, located, stored, -, acquired⟩ | ⟨missing, -, -⟩ | ⟨missing, -, -⟩
  · rw [here] at located
    cases located
    simp [DistLock.heldAt, untaken] at held
  · rw [here] at located
    cases located
    rw [acquired]
    refine ⟨rfl, rfl, granted_put (List.getElem?_eq_some_iff.mp stored).1 ?_⟩
    rw [Table.key_of_find here]
  · cases missing.symm.trans here
  · cases missing.symm.trans here

theorem lockAcquire_missing {resource : CString} (owner : CString) (lease now : Int)
    (missing : lm.lock resource = none) :
    (lm.locks.length < DIST_LOCK_MAX_LOCKS ∧ (lockAcquire lm resource owner lease now).2 = true ∧
      (lockAcquire lm resource owner lease now).1.waitQueue = lm.waitQueue ∧
      Granted (lockAcquire lm resource owner lease now).1 ⟨resource, owner⟩ now) ∨
    (DIST_LOCK_MAX_LOCKS ≤ lm.locks.length ∧ lockAcquire lm resource owner lease now = (lm, false)) := by
  rcases lockAcquire_cases lm resource owner lease now with ⟨lock, here, -⟩ | ⟨idx, lock, -, here, -⟩ |
    ⟨-, full, refused⟩ | ⟨-, room, acquired⟩
  · cases missing.symm.trans here
  · cases missing.symm.trans here
  · exact .inr ⟨full, refused⟩
  · left
    rw [acquired]
    refine ⟨room, rfl, rfl, _, List.mem_append_right _ (List.mem_singleton_self _), ?_, rfl, rfl, rfl⟩
    exact strncpy_strncpy resource _

theorem lock_created {resource : CString} (missing : lm.lock resource = none) :
    LockManager.lock { lm with locks := lm.locks ++ [distLockInit resource] } resource =
      if resource.length < DIST_LOCK_MAX_RESOURCE_LEN then some (distLockInit resource) else none := by
  unfold LockManager.lock at missing ⊢
  rw [Table.find_append, missing]
  by_cases short : resource.length < DIST_LOCK_MAX_RESOURCE_LEN
  · have named : (distLockInit resource).resource = resource := strncpy_of_lt short
    simp [named, short]
  · have cut : (distLockInit resource).resource ≠ resource := by
      intro same
      have bound := length_strncpy_le resource (DIST_LOCK_MAX_RESOURCE_LEN - 1)
      rw [show strncpy resource (DIST_LOCK_MAX_RESOURCE_LEN - 1) = resource from same] at bound
      exact short (Nat.lt_succ_of_le bound)
    simp [cut, short]

theorem lockGrantFirst_granted {resource owner : CString} {now : Int}
    (acquired : (lockAcquire lm resource owner DIST_LOCK_DEFAULT_LEASE_MS now).2 = true ∧
      (lockAcquire lm resource owner DIST_LOCK_DEFAULT_LEASE_MS now).1.waitQueue = lm.waitQueue ∧
      Granted (lockAcquire lm resource owner DIST_LOCK_DEFAULT_LEASE_MS now).1 ⟨resource, owner⟩ now) :
    (lockGrantFirst lm resource owner now).2 = true ∧
    (lockGrantFirst lm resource owner now).1.waitQueue = lm.waitQueue.tail ∧
    Granted (lockGrantFirst lm resource owner now).1 ⟨resource, owner⟩ now := by
  obtain ⟨ok, queue, granted⟩ := acquired
  simp only [lockGrantFirst, ok, if_pos]
  refine ⟨trivial, ?_, granted⟩
  rw [LockManager.dequeue, queue]

theorem grantable_found {resource : CString} {lock : DistLock} (here : lm.lock resource = some lock) :
    Grantable lm resource ↔ lock.state = .waiting ∨ lock.state = .free := by
  simp only [Grantable, here]

theorem grantable_missing {resource : CString} (missing : lm.lock resource = none) :
    Grantable lm resource ↔
      lm.locks.length + (if resource.length < DIST_LOCK_MAX_RESOURCE_LEN then 1 else 2) ≤ DIST_LOCK_MAX_LOCKS := by
  simp only [Grantable, missing]

/-- Processing a queue with somebody in it grants the lock to the first waiter, whatever that
waiter asked for, unless the resource cannot be granted. -/
theorem lockProcessWaitQueue_cases {w : LockWaitEntry} {rest : List LockWaitEntry}
    (queue : lm.waitQueue = w :: rest) (resource : CString) (now : Int) :
    (Grantable lm resource ∧ (lockProcessWaitQueue lm resource now).2 = true ∧
      (lockProcessWaitQueue lm resource now).1.waitQueue = lm.waitQueue.tail ∧
      Granted (lockProcessWaitQueue lm resource now).1 ⟨resource, w.owner⟩ now) ∨
    (¬ Grantable lm resource ∧ (lockProcessWaitQueue lm resource now).2 = false ∧
      (lockProcessWaitQueue lm resource now).1.waitQueue = lm.waitQueue) := by
  have processed : lockProcessWaitQueue lm resource now = onLock lm resource fun lm _ lock =>
      if lock.state ≠ .waiting ∧ lock.state ≠ .free then (lm, false)
      else lockGrantFirst lm resource w.owner now := by simp only [lockProcessWaitQueue, queue]
  rw [processed]
  rcases onLock_cases lm resource _ with ⟨idx, lock, -, here, -, found⟩ | ⟨missing, full, refused⟩ |
    ⟨missing, room, created⟩
  · rw [found, grantable_found here]
    by_cases taken : lock.state ≠ .waiting ∧ lock.state ≠ .free
    · right
      rw [if_pos taken]
      exact ⟨not_or.mpr taken, rfl, rfl⟩
    · left
      rw [if_neg taken]
      have ready : lock.state = .waiting ∨ lock.state = .free := by tauto
      have untaken : lock.state ≠ .acquired := by
        rcases ready with state | state <;> simp [state]
      exact ⟨ready, lockGrantFirst_granted (lockAcquire_untaken _ _ _ here untaken)⟩
  · right
    rw [refused, grantable_missing missing]
    refine ⟨?_, rfl, rfl⟩
    split_ifs <;> omega
  · have fresh : ¬ ((distLockInit resource).state ≠ .waiting ∧ (distLockInit resource).state ≠ .free) := by
      simp [distLockInit]
    rw [created, if_neg fresh, grantable_missing missing]
    have again := lock_created missing
    by_cases short : resource.length < DIST_LOCK_MAX_RESOURCE_LEN
    · left
      rw [if_pos short] at again ⊢
      have granted := lockGrantFirst_granted (lockAcquire_untaken w.owner DIST_LOCK_DEFAULT_LEASE_MS now again
        (by simp [distLockInit]))
      exact ⟨room, granted⟩
    · rw [if_neg short] at again ⊢
      rcases lockAcquire_missing w.owner DIST_LOCK_DEFAULT_LEASE_MS now again with ⟨space, granted⟩ | ⟨full, refused⟩
      · left
        rw [List.length_append, List.length_singleton] at space
        exact ⟨space, lockGrantFirst_granted granted⟩
      · right
        rw [List.length_append, List.length_singleton] at full
        simp only [lockGrantFirst, refused]
        exact ⟨by omega, trivial, rfl⟩

/-- The queue holds the owners that wait, cut to their field. -/
def Aligned (waiting : Waiting) : Prop :=
  waiting.lm.waitQueue.map (·.owner) =
    waiting.queued.map fun waiter => strncpy waiter.owner (DIST_LOCK_MAX_OWNER_LEN - 1)

theorem Aligned.length (aligned : Aligned waiting) : waiting.lm.waitQueue.length = waiting.queued.length := by
  have lengths := congrArg List.length aligned
  simpa using lengths

/-- A call leaves the queue alone, shifts it by one, or is an acquisition that appends to it. -/
theorem call_queue_cases (lm : LockManager) (call : LockCall) :
    (lm.call call).1.waitQueue = lm.waitQueue ∨ (lm.call call).1.waitQueue = lm.waitQueue.tail ∨
    ∃ resource owner lease now, call = .acquire resource owner lease now ∧ (lm.call call).1.waitQueue =
      lm.waitQueue ++ [⟨strncpy owner (DIST_LOCK_MAX_OWNER_LEN - 1), now⟩] := by
  cases call with
  | acquire resource owner lease now =>
    rcases lockAcquire_queue lm resource owner lease now with same | queued
    · exact .inl same
    · exact .inr (.inr ⟨resource, owner, lease, now, rfl, queued⟩)
  | release resource owner =>
    rcases lockRelease_queue lm resource owner with ⟨-, shifted⟩ | ⟨-, same⟩
    · exact .inr (.inl shifted)
    · exact .inl same
  | renew resource owner extend now => exact .inl (lockRenewLease_queue lm resource owner extend now)
  | expiry now => exact .inl rfl
  | process resource now =>
    cases queue : lm.waitQueue with
    | nil => exact .inl (by simp [LockManager.call, lockProcessWaitQueue, queue])
    | cons w rest =>
      rw [← queue]
      rcases lockProcessWaitQueue_cases queue resource now with ⟨-, -, shifted, -⟩ | ⟨-, -, same⟩
      · exact .inr (.inl shifted)
      · exact .inl same

theorem departing_unchanged {call : LockCall} (same : (waiting.lm.call call).1.waitQueue = waiting.lm.waitQueue) :
    waiting.departing call = [] := by
  simp [Waiting.departing, same]

theorem Aligned.departing_shifted (aligned : Aligned waiting) {call : LockCall}
    (shifted : (waiting.lm.call call).1.waitQueue = waiting.lm.waitQueue.tail) :
    waiting.departing call = waiting.queued.head?.toList := by
  unfold Waiting.departing
  rw [shifted, List.length_tail, aligned.length]
  cases waiting.queued with
  | nil => rfl
  | cons first rest => simp

theorem joining_of_length {call : LockCall}
    (shorter : (waiting.lm.call call).1.waitQueue.length ≤ waiting.lm.waitQueue.length) :
    waiting.joining call = [] := by
  unfold Waiting.joining
  split
  · exact if_neg (Nat.not_lt.mpr shorter)
  · rfl

theorem Aligned.step (aligned : Aligned waiting) (call : LockCall) : Aligned (waitingStep waiting call) := by
  unfold waitingStep
  rcases call_queue_cases waiting.lm call with same | shifted | ⟨resource, owner, lease, now, rfl, queued⟩
  · rw [departing_unchanged same, joining_of_length (Nat.le_of_eq (congrArg List.length same))]
    unfold Aligned at aligned ⊢
    simpa [same] using aligned
  · rw [aligned.departing_shifted shifted, joining_of_length (by simp [shifted])]
    unfold Aligned at aligned ⊢
    dsimp only
    rw [shifted, List.map_tail, aligned]
    cases waiting.queued <;> simp
  · have nobody : waiting.departing (.acquire resource owner lease now) = [] := by
      simp [Waiting.departing, queued]
    have joined : waiting.joining (.acquire resource owner lease now) = [⟨resource, owner⟩] := by
      simp [Waiting.joining, queued]
    rw [nobody, joined]
    unfold Aligned at aligned ⊢
    dsimp only
    rw [queued]
    simpa using aligned

/-- A call that shifts nobody out and is no processing of the queue is fair. -/
theorem fairCall_unchanged {call : LockCall} (nobody : waiting.departing call = [])
    (other : ∀ resource now, call ≠ .process resource now) : FairCall waiting call := by
  refine ⟨?_, ?_⟩
  · intro waiter departs
    rw [nobody] at departs
    cases departs
  · intro resource now same
    exact absurd same (other resource now)

theorem Aligned.fairRelease_iff (aligned : Aligned waiting) (resource owner : CString) :
    FairCall waiting (.release resource owner) ↔ QueueRespected waiting (.release resource owner) := by
  unfold QueueRespected
  rcases lockRelease_queue waiting.lm resource owner with ⟨owned, shifted⟩ | ⟨foreign, same⟩
  · have departs : waiting.departing (.release resource owner) = waiting.queued.head?.toList :=
      aligned.departing_shifted shifted
    constructor
    · intro fair _
      cases queue : waiting.queued with
      | nil => rfl
      | cons first rest =>
        have first_departs : first ∈ waiting.departing (.release resource owner) := by simp [departs, queue]
        obtain ⟨now, processed, -⟩ := fair.leaves first first_departs
        cases processed
    · intro respected
      apply fairCall_unchanged
      · rw [departs, respected owned]
        rfl
      · intro other now same
        cases same
  · refine iff_of_true (fairCall_unchanged (departing_unchanged same) ?_) fun owned => absurd owned foreign
    intro other now same
    cases same

theorem Aligned.first (aligned : Aligned waiting) {w : LockWaitEntry} {rest : List LockWaitEntry}
    (queue : waiting.lm.waitQueue = w :: rest) :
    ∃ first others, waiting.queued = first :: others ∧
      w.owner = strncpy first.owner (DIST_LOCK_MAX_OWNER_LEN - 1) := by
  unfold Aligned at aligned
  rw [queue] at aligned
  cases queued : waiting.queued with
  | nil => simp [queued] at aligned
  | cons first others =>
    rw [queued, List.map_cons, List.map_cons, List.cons.injEq] at aligned
    exact ⟨first, others, rfl, aligned.1⟩

theorem Granted.uncut {resource owner : CString} {now : Int}
    (granted : Granted lm ⟨resource, strncpy owner (DIST_LOCK_MAX_OWNER_LEN - 1)⟩ now) :
    Granted lm ⟨resource, owner⟩ now := by
  obtain ⟨lock, inside, named, owned, rest⟩ := granted
  exact ⟨lock, inside, named, owned.trans (strncpy_strncpy owner _), rest⟩

theorem Aligned.fairProcess_iff (aligned : Aligned waiting) (resource : CString) (now : Int) :
    FairCall waiting (.process resource now) ↔ QueueRespected waiting (.process resource now) := by
  unfold QueueRespected
  cases queue : waiting.lm.waitQueue with
  | nil =>
    have empty : waiting.queued = [] := by
      have lengths := aligned.length
      rw [queue] at lengths
      exact List.eq_nil_of_length_eq_zero lengths.symm
    have refused : waiting.lm.call (.process resource now) = (waiting.lm, false) := by
      simp [LockManager.call, lockProcessWaitQueue, queue]
    refine iff_of_true ⟨?_, ?_⟩ ?_
    · intro waiter departs
      rw [departing_unchanged (by rw [refused])] at departs
      cases departs
    · intro _ _ _ granted
      rw [refused] at granted
      cases granted
    · intro _ waiter first
      rw [empty] at first
      cases first
  | cons w rest =>
    obtain ⟨first, others, queued, owner⟩ := aligned.first queue
    rw [queued]
    rcases lockProcessWaitQueue_cases queue resource now with ⟨grantable, ok, shifted, granted⟩ |
      ⟨blocked, failed, same⟩
    · have departs : waiting.departing (.process resource now) = [first] := by
        have shifts : waiting.departing (.process resource now) = waiting.queued.head?.toList :=
          aligned.departing_shifted shifted
        rw [shifts, queued]
        rfl
      rw [owner] at granted
      constructor
      · rintro fair - waiter ⟨⟩
        obtain ⟨_, processed, -⟩ := fair.leaves first (by rw [departs]; exact List.mem_singleton_self _)
        cases processed
        rfl
      · intro respected
        obtain rfl : first.resource = resource := respected grantable first rfl
        refine ⟨?_, ?_⟩
        · intro waiter leaving
          rw [departs, List.mem_singleton] at leaving
          subst leaving
          exact ⟨now, rfl, granted.uncut⟩
        · rintro _ _ ⟨⟩ -
          exact ⟨first, by simp [queued], granted.uncut⟩
    · have nobody : waiting.departing (.process resource now) = [] := departing_unchanged same
      refine iff_of_true ⟨?_, ?_⟩ fun grantable => absurd grantable blocked
      · intro waiter leaving
        rw [nobody] at leaving
        cases leaving
      · intro _ _ _ granted
        cases failed.symm.trans granted

theorem Aligned.fair_iff (aligned : Aligned waiting) (call : LockCall) :
    FairCall waiting call ↔ QueueRespected waiting call := by
  cases call with
  | acquire resource owner lease now =>
    refine iff_of_true (fairCall_unchanged ?_ (fun _ _ same => nomatch same)) trivial
    rcases lockAcquire_queue waiting.lm resource owner lease now with same | queued
    · exact departing_unchanged same
    · simp [Waiting.departing, LockManager.call, queued]
  | release resource owner => exact aligned.fairRelease_iff resource owner
  | renew resource owner extend now =>
    exact iff_of_true (fairCall_unchanged (departing_unchanged (lockRenewLease_queue _ _ _ _ _))
      (fun _ _ same => nomatch same)) trivial
  | expiry now =>
    exact iff_of_true (fairCall_unchanged (departing_unchanged rfl) (fun _ _ same => nomatch same)) trivial
  | process resource now => exact aligned.fairProcess_iff resource now

/-- The queue is fair along a run exactly when every call respects it. -/
theorem queueFair_iff (calls : List LockCall) :
    Permitted waitingStep FairCall waitingInit calls ↔ Permitted waitingStep QueueRespected waitingInit calls := by
  refine Permitted.congr calls (Permitted.always calls) (motive := Aligned) rfl ?_ ?_
  · intro waiting call aligned _ _
    exact aligned.step call
  · intro waiting call aligned _
    exact aligned.fair_iff call

/-- An owner waits for a lock and the lock is released, which drops the waiter. -/
def releasedUnderWaiter : List LockCall :=
  [.acquire [114] [65] 100 0, .acquire [114] [66] 100 1, .release [114] [65]]

theorem releasedUnderWaiter_dropped : ¬ Permitted waitingStep FairCall waitingInit releasedUnderWaiter := by
  intro fair
  obtain ⟨now, processed, -⟩ := fair.2.2.1.leaves ⟨[114], [66]⟩ (by decide)
  cases processed

end MiniNetDist.Transaction.Lock
