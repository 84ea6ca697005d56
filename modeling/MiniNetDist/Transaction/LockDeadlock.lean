import MiniNetDist.Transaction.DistLock

/-! What `lock_deadlock_detect` detects, beside the wait-for graph of the owners. It finds owners in the queue that hold
two locks, and it is right as long as every call that closes or leaves a cycle of waiting does the same for these. -/

namespace MiniNetDist.Transaction.Lock

open Library

inductive OwnerCall where
  | acquire (resource owner : CString) (lease now : Int)
  | release (resource owner : CString)
  deriving DecidableEq, Repr

/-- A lock manager with the requests refused and not granted since, and the holders. -/
structure Acquisitions where
  lm : LockManager
  refused : List (CString × CString)
  holder : CString → Option CString

def acquisitionsStep (history : Acquisitions) : OwnerCall → Acquisitions
  | .acquire resource owner lease now =>
    let (lm, ok) := lockAcquire history.lm resource owner lease now
    if ok then
      ⟨lm, history.refused.filter (· ≠ (owner, resource)), Function.update history.holder resource (some owner)⟩
    else ⟨lm, history.refused ++ [(owner, resource)], history.holder⟩
  | .release resource owner =>
    let (lm, ok) := lockRelease history.lm resource owner
    ⟨lm, history.refused, if ok then Function.update history.holder resource none else history.holder⟩

/-- The first owner was refused a resource that the second one holds. -/
def Acquisitions.WaitsFor (history : Acquisitions) (waiter holder : CString) : Prop :=
  ∃ resource, (waiter, resource) ∈ history.refused ∧ history.holder resource = some holder

def Acquisitions.Deadlocked (history : Acquisitions) : Prop := Closure.Cyclic history.WaitsFor

/-- How many locks an owner holds. -/
def LockManager.held (lm : LockManager) (owner : CString) : Nat := lm.locks.countP (·.ownedBy owner)

/-- An owner in the queue holds two locks. -/
def DoubleHolder (lm : LockManager) : Prop := ∃ entry ∈ lm.waitQueue, 2 ≤ lm.held entry.owner

variable {lm next : LockManager} {history : Acquisitions} {resource owner other : CString} {lease now : Int}

section Detection

theorem ownedBy_iff {lock : DistLock} : lock.ownedBy owner = true ↔ lock.state = .acquired ∧ lock.owner = owner := by
  rw [DistLock.ownedBy, Bool.and_eq_true, decide_eq_true_iff, decide_eq_true_iff]

end Detection

section Guard

/-- The leases that run do not end before the call. -/
def Running (history : Acquisitions) : OwnerCall → Prop
  | .acquire _ _ _ now => ∀ lock ∈ history.lm.locks, lock.state = .acquired → lock.heldAt now = true
  | .release _ _ => True

instance (history : Acquisitions) : (call : OwnerCall) → Decidable (Running history call)
  | .acquire _ _ _ now =>
    inferInstanceAs (Decidable (∀ lock ∈ history.lm.locks, lock.state = .acquired → lock.heldAt now = true))
  | .release _ _ => .isTrue trivial

/-- No lease ends, and the detector looks at all locks. -/
def Lasting (history : Acquisitions) (call : OwnerCall) : Prop :=
  Running history call ∧ LeasesFit (acquisitionsStep history call).lm ∧
    (acquisitionsStep history call).lm.locks.length ≤ 16

instance (history : Acquisitions) (call : OwnerCall) : Decidable (Lasting history call) :=
  inferInstanceAs (Decidable (_ ∧ _))

/-- The resource is held, so that a request for it is refused. -/
def LockManager.taken (lm : LockManager) (resource : CString) (now : Int) : Bool :=
  (lm.lock resource).any (·.heldAt now)

def LockManager.owns (lm : LockManager) (resource owner : CString) : Bool := (lm.lock resource).any (·.ownedBy owner)

/-- An owner that is refused holds two locks, and the queue has room for it. -/
def LockManager.DoublesByWaiting (lm : LockManager) (owner : CString) : Prop :=
  lm.waitQueue.length < DIST_LOCK_WAIT_QUEUE_SIZE ∧ 2 ≤ lm.held owner

/-- An owner that is granted a lock is in the queue, and holds another one. -/
def LockManager.DoublesByHolding (lm : LockManager) (owner : CString) : Prop :=
  (∃ entry ∈ lm.waitQueue, entry.owner = owner) ∧ 1 ≤ lm.held owner

/-- Behind the head of the queue is an owner of two locks, without the one that is released. -/
def LockManager.StaysDoubled (lm : LockManager) (owner : CString) : Prop :=
  ∃ entry ∈ lm.waitQueue.tail, 2 + (if entry.owner = owner then 1 else 0) ≤ lm.held entry.owner

/-- Waiting for the resource closes a cycle: its holder leads to the owner. -/
def Acquisitions.ClosesByWaiting (history : Acquisitions) (resource owner : CString) : Prop :=
  ∃ holder, history.holder resource = some holder ∧ Relation.ReflTransGen history.WaitsFor holder owner

/-- Holding the resource closes a cycle: the owner leads to another one that was refused it. -/
def Acquisitions.ClosesByHolding (history : Acquisitions) (resource owner : CString) : Prop :=
  ∃ waiter, (waiter ≠ owner ∧ (waiter, resource) ∈ history.refused) ∧
    Relation.ReflTransGen history.WaitsFor owner waiter

/-- The first owner was refused another resource that the second one holds. -/
def Acquisitions.WaitsElsewhere (history : Acquisitions) (resource waiter holder : CString) : Prop :=
  ∃ other ≠ resource, (waiter, other) ∈ history.refused ∧ history.holder other = some holder

/-- A call that closes a cycle of waiting makes an owner in the queue hold two locks, and the other way round; and so
for a call that leaves one. -/
def Matches (history : Acquisitions) : OwnerCall → Prop
  | .acquire resource owner _ now =>
    history.Deadlocked ∨
      if history.lm.taken resource now then
        history.lm.DoublesByWaiting (strncpy owner (DIST_LOCK_MAX_OWNER_LEN - 1)) ↔
          history.ClosesByWaiting resource owner
      else
        history.lm.DoublesByHolding (strncpy owner (DIST_LOCK_MAX_OWNER_LEN - 1)) ↔
          history.ClosesByHolding resource owner
  | .release resource owner =>
    history.lm.owns resource owner = true → history.Deadlocked →
      (history.lm.StaysDoubled owner ↔ Closure.Cyclic (history.WaitsElsewhere resource))

end Guard

section Holders

theorem doubleHolder_enqueue (lm : LockManager) (owner : CString) (now : Int) :
    DoubleHolder (lm.enqueue owner now) ↔
      DoubleHolder lm ∨ lm.DoublesByWaiting (strncpy owner (DIST_LOCK_MAX_OWNER_LEN - 1)) := by
  have held (other : CString) : (lm.enqueue owner now).held other = lm.held other :=
    congrArg (List.countP _) (locks_enqueue lm owner now)
  simp only [DoubleHolder, held]
  by_cases room : lm.waitQueue.length < DIST_LOCK_WAIT_QUEUE_SIZE
  · rw [LockManager.enqueue, if_pos room]
    simp only [LockManager.DoublesByWaiting, List.mem_append, List.mem_singleton, or_and_right, exists_or, exists_eq_left,
      room, true_and]
  · rw [LockManager.enqueue, if_neg room]
    simp only [LockManager.DoublesByWaiting, room, false_and, or_false]

/-- The owner holds one lock more. -/
theorem doubleHolder_grown {name : CString}
    (held : ∀ other, next.held other = lm.held other + if name = other then 1 else 0)
    (queue : next.waitQueue = lm.waitQueue) :
    DoubleHolder next ↔ DoubleHolder lm ∨ lm.DoublesByHolding name := by
  unfold DoubleHolder LockManager.DoublesByHolding
  rw [queue]
  constructor
  · rintro ⟨entry, queued, two⟩
    rw [held] at two
    by_cases same : name = entry.owner
    · rw [if_pos same] at two
      exact .inr ⟨⟨entry, queued, same.symm⟩, same ▸ Nat.le_of_succ_le_succ two⟩
    · rw [if_neg same] at two
      exact .inl ⟨entry, queued, two⟩
  · rintro (⟨entry, queued, two⟩ | ⟨⟨entry, queued, rfl⟩, one⟩)
    · exact ⟨entry, queued, held entry.owner ▸ Nat.le_trans two (Nat.le_add_right _ _)⟩
    · refine ⟨entry, queued, ?_⟩
      rw [held, if_pos rfl]
      exact Nat.succ_le_succ one

theorem held_put {idx : Nat} {lock : DistLock} (stored : lm.locks[idx]? = some lock) (new : DistLock) :
    (lm.put idx new).held other =
      lm.held other - (if lock.ownedBy other then 1 else 0) + if new.ownedBy other then 1 else 0 := by
  obtain ⟨inside, rfl⟩ := List.getElem?_eq_some_iff.mp stored
  exact List.countP_set inside

theorem held_append (lock : DistLock) :
    ({ lm with locks := lm.locks ++ [lock] } : LockManager).held other =
      lm.held other + if lock.ownedBy other then 1 else 0 := by
  rw [LockManager.held, List.countP_append, List.countP_singleton]
  rfl

theorem ownedBy_granted (lock : DistLock) :
    (lock.grant owner lease now).ownedBy other = true ↔ strncpy owner (DIST_LOCK_MAX_OWNER_LEN - 1) = other := by
  rw [ownedBy_iff]
  exact and_iff_right rfl

/-- A release that leaves an owner of two locks has not taken one of these two. -/
theorem doubleHolder_released {idx : Nat} {lock freed : DistLock} (stored : lm.locks[idx]? = some lock)
    (owned : lock.ownedBy owner = true) (free : freed.state = .free) :
    DoubleHolder (lm.put idx freed).dequeue ↔ lm.StaysDoubled owner := by
  have held (other : CString) :
      (lm.put idx freed).dequeue.held other = lm.held other - if other = owner then 1 else 0 := by
    have put : (lm.put idx freed).held other = _ := held_put stored freed
    have unowned : ¬ freed.ownedBy other = true := by
      rw [ownedBy_iff, free]
      exact fun both => LockState.noConfusion both.1
    have taken : lock.ownedBy other = true ↔ other = owner := by
      obtain ⟨acquired, rfl⟩ := ownedBy_iff.mp owned
      rw [ownedBy_iff]
      exact ⟨fun both => both.2.symm, fun same => ⟨acquired, same.symm⟩⟩
    rw [if_neg unowned] at put
    simp only [taken] at put
    exact put
  unfold DoubleHolder LockManager.StaysDoubled
  refine exists_congr fun entry => and_congr Iff.rfl ?_
  rw [held]
  split_ifs <;> omega

theorem DoubleHolder.of_staysDoubled (stays : lm.StaysDoubled owner) : DoubleHolder lm := by
  obtain ⟨entry, queued, two⟩ := stays
  exact ⟨entry, List.mem_of_mem_tail queued, Nat.le_trans (Nat.le_add_right _ _) two⟩

end Holders

section Waiting

theorem deadlocked_refused :
    (⟨next, history.refused ++ [(owner, resource)], history.holder⟩ : Acquisitions).Deadlocked ↔
      history.Deadlocked ∨ history.ClosesByWaiting resource owner := by
  have waits (waiter holder : CString) :
      (⟨next, history.refused ++ [(owner, resource)], history.holder⟩ : Acquisitions).WaitsFor waiter holder ↔
        history.WaitsFor waiter holder ∨ waiter = owner ∧ history.holder resource = some holder := by
    simp only [Acquisitions.WaitsFor, List.mem_append, List.mem_singleton, Prod.mk.injEq, or_and_right, exists_or]
    refine or_congr Iff.rfl ⟨?_, ?_⟩
    · rintro ⟨asked, ⟨rfl, rfl⟩, held⟩
      exact ⟨rfl, held⟩
    · rintro ⟨rfl, held⟩
      exact ⟨resource, ⟨rfl, rfl⟩, held⟩
  cases held : history.holder resource with
  | none =>
    have same : (⟨next, history.refused ++ [(owner, resource)], history.holder⟩ : Acquisitions).WaitsFor =
        history.WaitsFor := by
      funext waiter holder
      rw [waits, held]
      simp
    rw [Acquisitions.Deadlocked, same, Acquisitions.ClosesByWaiting, held]
    simp [Acquisitions.Deadlocked]
  | some holder =>
    have closes : history.ClosesByWaiting resource owner ↔
        ∃ waiter, waiter = owner ∧ Relation.ReflTransGen history.WaitsFor holder waiter := by
      simp [Acquisitions.ClosesByWaiting, held]
    rw [closes]
    refine Closure.cyclic_extended_iff fun waiter other => ?_
    rw [waits, held, Option.some.injEq]
    exact or_congr Iff.rfl (and_congr Iff.rfl eq_comm)

/-- A resource that nobody waits for in vain is granted: all who were refused it now wait for the new holder. -/
theorem deadlocked_granted (idle : ∀ waiter, (waiter, resource) ∈ history.refused → history.holder resource = none) :
    (⟨next, history.refused.filter (· ≠ (owner, resource)), Function.update history.holder resource (some owner)⟩ :
      Acquisitions).Deadlocked ↔ history.Deadlocked ∨ history.ClosesByHolding resource owner := by
  refine Closure.cyclic_extended_iff fun waiter holder => ?_
  constructor
  · rintro ⟨asked, request, held⟩
    obtain ⟨listed, other⟩ := List.mem_filter.mp request
    have other : (waiter, asked) ≠ (owner, resource) := of_decide_eq_true other
    by_cases here : asked = resource
    · subst here
      dsimp only at held
      rw [Function.update_self] at held
      exact .inr ⟨⟨fun same => other (congrArg (·, asked) same), listed⟩, (Option.some.inj held).symm⟩
    · dsimp only at held
      rw [Function.update_of_ne here] at held
      exact .inl ⟨asked, listed, held⟩
  · rintro (⟨asked, listed, held⟩ | ⟨⟨different, listed⟩, rfl⟩)
    · have elsewhere : asked ≠ resource := by
        rintro rfl
        cases (idle waiter listed).symm.trans held
      refine ⟨asked, List.mem_filter.mpr ⟨listed, ?_⟩, ?_⟩
      · exact decide_eq_true fun same => elsewhere (congrArg Prod.snd same)
      · exact (Function.update_of_ne elsewhere _ _).trans held
    · refine ⟨resource, List.mem_filter.mpr ⟨listed, ?_⟩, Function.update_self ..⟩
      exact decide_eq_true fun same => different (congrArg Prod.fst same)

theorem deadlocked_released :
    (⟨next, history.refused, Function.update history.holder resource none⟩ : Acquisitions).Deadlocked ↔
      Closure.Cyclic (history.WaitsElsewhere resource) := by
  have same : (⟨next, history.refused, Function.update history.holder resource none⟩ : Acquisitions).WaitsFor =
      history.WaitsElsewhere resource := by
    funext waiter holder
    refine propext (exists_congr fun asked => ?_)
    by_cases here : asked = resource
    · subst here
      simp
    · simp [here]
  rw [Acquisitions.Deadlocked, same]

theorem deadlocked_of_elsewhere (cyclic : Closure.Cyclic (history.WaitsElsewhere resource)) : history.Deadlocked :=
  cyclic.mono fun _ _ ⟨asked, _, waits⟩ => ⟨asked, waits⟩

end Waiting

section Runs

/-- What a run records: only short names are refused, and what is held is an acquired lock. -/
structure Recorded (history : Acquisitions) : Prop where
  named : ∀ lock ∈ history.lm.locks, lock.resource.length < DIST_LOCK_MAX_RESOURCE_LEN
  short : ∀ request ∈ history.refused, request.2.length < DIST_LOCK_MAX_RESOURCE_LEN
  held : ∀ resource holder, resource.length < DIST_LOCK_MAX_RESOURCE_LEN → history.holder resource = some holder →
    ∃ lock, history.lm.lock resource = some lock ∧ lock.state = .acquired
  few : history.lm.locks.length ≤ 16

/-- The detector is right. -/
def Exact (history : Acquisitions) : Prop := 0 < lockDeadlockDetect history.lm ↔ history.Deadlocked

theorem length_put {idx : Nat} (new : DistLock) : (lm.put idx new).locks.length = lm.locks.length := List.length_set

theorem named_put {idx : Nat} {lock new : DistLock} (recorded : Recorded history)
    (stored : history.lm.locks[idx]? = some lock) (same : new.resource = lock.resource) :
    ∀ found ∈ (history.lm.put idx new).locks, found.resource.length < DIST_LOCK_MAX_RESOURCE_LEN := by
  intro found inside
  rcases List.mem_or_eq_of_mem_set inside with before | rfl
  · exact recorded.named found before
  · rw [same]
    exact recorded.named lock (List.mem_of_getElem? stored)

theorem named_append {lock : DistLock} (recorded : Recorded history)
    (cut : lock.resource = strncpy resource (DIST_LOCK_MAX_RESOURCE_LEN - 1)) :
    ∀ found ∈ history.lm.locks ++ [lock], found.resource.length < DIST_LOCK_MAX_RESOURCE_LEN := by
  refine List.forall_mem_append.mpr ⟨recorded.named, List.forall_mem_singleton.mpr ?_⟩
  rw [cut]
  exact Nat.lt_succ_of_le (length_strncpy_le resource (DIST_LOCK_MAX_RESOURCE_LEN - 1))

theorem held_appended {lock : DistLock} {holder : CString} (recorded : Recorded history)
    (short : other.length < DIST_LOCK_MAX_RESOURCE_LEN) (held : history.holder other = some holder) :
    ∃ found, ({ history.lm with locks := history.lm.locks ++ [lock] } : LockManager).lock other = some found ∧
      found.state = .acquired := by
  obtain ⟨found, here, acquired⟩ := recorded.held other holder short held
  refine ⟨found, ?_, acquired⟩
  unfold LockManager.lock at here ⊢
  rw [Table.find_append, here]
  rfl

theorem Recorded.refuse (recorded : Recorded history) {lock : DistLock} (here : history.lm.lock resource = some lock) :
    Recorded ⟨history.lm.enqueue owner now, history.refused ++ [(owner, resource)], history.holder⟩ where
  named := by
    dsimp only
    rw [locks_enqueue]
    exact recorded.named
  short := by
    refine List.forall_mem_append.mpr ⟨recorded.short, List.forall_mem_singleton.mpr ?_⟩
    have named : lock.resource = resource := Table.key_of_find here
    rw [← named]
    exact recorded.named lock (Table.mem_of_find here)
  held := by
    intro other holder short held
    have same : (history.lm.enqueue owner now).lock other = history.lm.lock other := by
      unfold LockManager.lock
      rw [locks_enqueue]
    dsimp only
    rw [same]
    exact recorded.held other holder short held
  few := by
    dsimp only
    rw [locks_enqueue]
    exact recorded.few

theorem Recorded.grant {idx : Nat} {lock : DistLock} (recorded : Recorded history)
    (located : Table.position DistLock.resource history.lm.locks resource = some idx)
    (here : history.lm.lock resource = some lock) (stored : history.lm.locks[idx]? = some lock) :
    Recorded ⟨history.lm.put idx (lock.grant owner lease now), history.refused.filter (· ≠ (owner, resource)),
      Function.update history.holder resource (some owner)⟩ where
  named := named_put recorded stored rfl
  short := fun request inside => recorded.short request (List.mem_filter.mp inside).1
  held := by
    intro other holder short held
    have named : (lock.grant owner lease now).resource = resource := (Table.key_of_find here : lock.resource = resource)
    by_cases same : other = resource
    · subst same
      exact ⟨_, Table.find_set_position located named, rfl⟩
    · dsimp only at held
      rw [Function.update_of_ne same] at held
      have kept : (history.lm.put idx (lock.grant owner lease now)).lock other = history.lm.lock other :=
        Table.find_set_other located named same
      dsimp only
      rw [kept]
      exact recorded.held other holder short held
  few := Nat.le_trans (Nat.le_of_eq (length_put _)) recorded.few

theorem Recorded.create (recorded : Recorded history) (missing : history.lm.lock resource = none)
    (few : history.lm.locks.length + 1 ≤ 16) :
    Recorded ⟨{ history.lm with locks := history.lm.locks ++ [(distLockInit resource).grant owner lease now] },
      history.refused.filter (· ≠ (owner, resource)), Function.update history.holder resource (some owner)⟩ where
  named := named_append recorded rfl
  short := fun request inside => recorded.short request (List.mem_filter.mp inside).1
  held := by
    intro other holder short held
    by_cases same : other = resource
    · subst same
      have named : ((distLockInit other).grant owner lease now).resource = other := strncpy_of_lt short
      refine ⟨(distLockInit other).grant owner lease now, ?_, rfl⟩
      unfold LockManager.lock at missing ⊢
      rw [Table.find_append, missing, if_pos named]
      rfl
    · dsimp only at held
      rw [Function.update_of_ne same] at held
      exact held_appended recorded short held
  few := by
    rw [List.length_append]
    exact few

theorem Recorded.free {idx : Nat} {lock freed : DistLock} (recorded : Recorded history)
    (located : Table.position DistLock.resource history.lm.locks resource = some idx)
    (here : history.lm.lock resource = some lock) (stored : history.lm.locks[idx]? = some lock)
    (same : freed.resource = lock.resource) :
    Recorded ⟨(history.lm.put idx freed).dequeue, history.refused, Function.update history.holder resource none⟩ where
  named := named_put recorded stored same
  short := recorded.short
  held := by
    intro other holder short held
    dsimp only at held
    have different : other ≠ resource := by
      rintro rfl
      rw [Function.update_self] at held
      cases held
    rw [Function.update_of_ne different] at held
    have named : freed.resource = resource := same.trans (Table.key_of_find here)
    have kept : (history.lm.put idx freed).dequeue.lock other = history.lm.lock other :=
      Table.find_set_other located named different
    dsimp only
    rw [kept]
    exact recorded.held other holder short held
  few := Nat.le_trans (Nat.le_of_eq (length_put _)) recorded.few

theorem Recorded.append (recorded : Recorded history) (resource : CString) (few : history.lm.locks.length + 1 ≤ 16) :
    Recorded ⟨{ history.lm with locks := history.lm.locks ++ [distLockInit resource] }, history.refused,
      history.holder⟩ where
  named := named_append recorded rfl
  short := recorded.short
  held := fun _ _ short held => held_appended recorded short held
  few := by
    rw [List.length_append]
    exact few

/-- What is held cannot be granted while no lease ends. -/
theorem Recorded.idle (recorded : Recorded history) (running : Running history (.acquire resource owner lease now))
    (lapsed : ∀ lock, history.lm.lock resource = some lock → lock.heldAt now = false) (waiter : CString)
    (request : (waiter, resource) ∈ history.refused) : history.holder resource = none := by
  cases held : history.holder resource with
  | none => rfl
  | some holder =>
    obtain ⟨lock, here, acquired⟩ := recorded.held resource holder (recorded.short _ request) held
    have runs : lock.heldAt now = true := running lock (Table.mem_of_find here) acquired
    cases runs.symm.trans (lapsed lock here)

/-- Before a call that adds to both sides they agree, and afterwards they do if it adds to both or to none. -/
theorem added_iff {double deadlocked doubles closes : Prop} (before : double ↔ deadlocked) :
    (double ∨ doubles ↔ deadlocked ∨ closes) ↔ deadlocked ∨ (doubles ↔ closes) := by
  by_cases closed : deadlocked
  · simp [before.mpr closed, closed]
  · simp [mt before.mp closed, closed]

theorem refused_iff (before : DoubleHolder history.lm ↔ history.Deadlocked) {lock : DistLock}
    (here : history.lm.lock resource = some lock) (held : lock.heldAt now = true) (lease : Int) :
    (DoubleHolder (history.lm.enqueue owner now) ↔ (⟨history.lm.enqueue owner now,
      history.refused ++ [(owner, resource)], history.holder⟩ : Acquisitions).Deadlocked) ↔
        Matches history (.acquire resource owner lease now) := by
  have taken : history.lm.taken resource now = true := by
    rw [LockManager.taken, here]
    exact held
  rw [doubleHolder_enqueue, deadlocked_refused, Matches, if_pos taken]
  exact added_iff before

theorem granted_iff (recorded : Recorded history) (before : DoubleHolder history.lm ↔ history.Deadlocked)
    (running : Running history (.acquire resource owner lease now))
    (lapsed : ∀ lock, history.lm.lock resource = some lock → lock.heldAt now = false)
    (held : ∀ other, next.held other =
      history.lm.held other + if strncpy owner (DIST_LOCK_MAX_OWNER_LEN - 1) = other then 1 else 0)
    (queue : next.waitQueue = history.lm.waitQueue) :
    (DoubleHolder next ↔ (⟨next, history.refused.filter (· ≠ (owner, resource)),
      Function.update history.holder resource (some owner)⟩ : Acquisitions).Deadlocked) ↔
        Matches history (.acquire resource owner lease now) := by
  have untaken : ¬ history.lm.taken resource now = true := by
    rw [LockManager.taken]
    cases found : history.lm.lock resource with
    | none => exact Bool.false_ne_true
    | some lock =>
      rw [Option.any_some, lapsed lock found]
      exact Bool.false_ne_true
  rw [doubleHolder_grown held queue, deadlocked_granted (recorded.idle running lapsed), Matches, if_neg untaken]
  exact added_iff before

theorem released_iff (before : DoubleHolder history.lm ↔ history.Deadlocked) {idx : Nat} {lock freed : DistLock}
    (here : history.lm.lock resource = some lock) (stored : history.lm.locks[idx]? = some lock)
    (owned : lock.ownedBy owner = true) (free : freed.state = .free) :
    (DoubleHolder (history.lm.put idx freed).dequeue ↔ (⟨(history.lm.put idx freed).dequeue, history.refused,
      Function.update history.holder resource none⟩ : Acquisitions).Deadlocked) ↔
        Matches history (.release resource owner) := by
  have owns : history.lm.owns resource owner = true := by
    rw [LockManager.owns, here]
    exact owned
  rw [doubleHolder_released stored owned free, deadlocked_released, Matches]
  constructor
  · exact fun both _ _ => both
  · intro matching
    by_cases closed : history.Deadlocked
    · exact matching owns closed
    · refine iff_of_false (fun stays => closed (before.mp (.of_staysDoubled stays))) ?_
      exact fun cyclic => closed (deadlocked_of_elsewhere cyclic)

theorem matches_unowned (other : ∀ lock, history.lm.lock resource = some lock → lock.ownedBy owner = false) :
    Matches history (.release resource owner) := by
  intro owns
  rw [LockManager.owns] at owns
  cases found : history.lm.lock resource with
  | none =>
    rw [found] at owns
    cases owns
  | some lock =>
    rw [found, Option.any_some, other lock found] at owns
    cases owns

/-- What one call keeps of the record, and when it keeps the detector right. -/
def Decided (history : Acquisitions) (call : OwnerCall) : Prop :=
  Recorded (acquisitionsStep history call) ∧ ((DoubleHolder history.lm ↔ history.Deadlocked) →
    ((DoubleHolder (acquisitionsStep history call).lm ↔ (acquisitionsStep history call).Deadlocked) ↔
      Matches history call))

theorem Recorded.acquire (recorded : Recorded history) (lasting : Lasting history (.acquire resource owner lease now)) :
    Decided history (.acquire resource owner lease now) := by
  obtain ⟨running, -, few⟩ := lasting
  rcases lockAcquire_cases history.lm resource owner lease now with ⟨lock, here, held, refused⟩ |
    ⟨idx, lock, located, here, stored, lapsed, acquired⟩ | ⟨-, full, -⟩ | ⟨missing, -, acquired⟩
  · have step : acquisitionsStep history (.acquire resource owner lease now) =
        ⟨history.lm.enqueue owner now, history.refused ++ [(owner, resource)], history.holder⟩ := by
      simp [acquisitionsStep, refused]
    rw [Decided, step]
    exact ⟨recorded.refuse here, fun before => refused_iff before here held lease⟩
  · have step : acquisitionsStep history (.acquire resource owner lease now) =
        ⟨history.lm.put idx (lock.grant owner lease now), history.refused.filter (· ≠ (owner, resource)),
          Function.update history.holder resource (some owner)⟩ := by simp [acquisitionsStep, acquired]
    have ended : ∀ found, history.lm.lock resource = some found → found.heldAt now = false := by
      intro found there
      cases here.symm.trans there
      exact lapsed
    have grown (other : CString) : (history.lm.put idx (lock.grant owner lease now)).held other =
        history.lm.held other + if strncpy owner (DIST_LOCK_MAX_OWNER_LEN - 1) = other then 1 else 0 := by
      have unowned : ¬ lock.ownedBy other = true := by
        intro owned
        have runs := running lock (List.mem_of_getElem? stored) (ownedBy_iff.mp owned).1
        cases runs.symm.trans lapsed
      rw [held_put stored, if_neg unowned]
      simp only [ownedBy_granted, Nat.sub_zero]
    rw [Decided, step]
    exact ⟨recorded.grant located here stored, fun before => granted_iff recorded before running ended grown rfl⟩
  · exact absurd (Nat.le_trans full recorded.few) (by decide)
  · have step : acquisitionsStep history (.acquire resource owner lease now) =
        ⟨{ history.lm with locks := history.lm.locks ++ [(distLockInit resource).grant owner lease now] },
          history.refused.filter (· ≠ (owner, resource)), Function.update history.holder resource (some owner)⟩ := by
      simp [acquisitionsStep, acquired]
    have ended : ∀ found, history.lm.lock resource = some found → found.heldAt now = false := by
      intro found there
      cases missing.symm.trans there
    have grown (other : CString) :
        ({ history.lm with locks := history.lm.locks ++ [(distLockInit resource).grant owner lease now] } :
          LockManager).held other =
        history.lm.held other + if strncpy owner (DIST_LOCK_MAX_OWNER_LEN - 1) = other then 1 else 0 := by
      rw [held_append]
      simp only [ownedBy_granted]
    rw [step, List.length_append] at few
    rw [Decided, step]
    exact ⟨recorded.create missing few, fun before => granted_iff recorded before running ended grown rfl⟩

theorem Recorded.release (recorded : Recorded history) (lasting : Lasting history (.release resource owner)) :
    Decided history (.release resource owner) := by
  obtain ⟨-, -, few⟩ := lasting
  rcases lockRelease_cases history.lm resource owner with ⟨idx, lock, located, here, stored, owned, released⟩ |
    ⟨other, same | ⟨missing, created⟩⟩
  · have step : acquisitionsStep history (.release resource owner) =
        ⟨(history.lm.put idx { lock with state := .free, owner := [], leaseTimeoutMs := 0 }).dequeue,
          history.refused, Function.update history.holder resource none⟩ := by simp [acquisitionsStep, released]
    rw [Decided, step]
    exact ⟨recorded.free located here stored rfl, fun before => released_iff before here stored owned rfl⟩
  · have step : acquisitionsStep history (.release resource owner) = history := by simp [acquisitionsStep, same]
    rw [Decided, step]
    exact ⟨recorded, fun before => iff_of_true before (matches_unowned other)⟩
  · have step : acquisitionsStep history (.release resource owner) =
        ⟨{ history.lm with locks := history.lm.locks ++ [distLockInit resource] }, history.refused, history.holder⟩ := by
      simp [acquisitionsStep, created]
    have held (name : CString) :
        ({ history.lm with locks := history.lm.locks ++ [distLockInit resource] } : LockManager).held name =
          history.lm.held name := held_append (distLockInit resource)
    have double : DoubleHolder { history.lm with locks := history.lm.locks ++ [distLockInit resource] } ↔
        DoubleHolder history.lm := by simp only [DoubleHolder, held]
    rw [step, List.length_append] at few
    rw [Decided, step]
    exact ⟨recorded.append resource few, fun before => iff_of_true (double.trans before) (matches_unowned other)⟩

theorem Recorded.decided (recorded : Recorded history) (call : OwnerCall) (lasting : Lasting history call) :
    Decided history call := by
  cases call with
  | acquire resource owner lease now => exact recorded.acquire lasting
  | release resource owner => exact recorded.release lasting

end Runs

section Crossed

end Crossed

end MiniNetDist.Transaction.Lock
