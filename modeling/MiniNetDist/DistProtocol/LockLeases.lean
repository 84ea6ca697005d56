import MiniNetDist.Library.Holdings
import MiniNetDist.Library.Run
import MiniNetDist.Library.Slot
import Mathlib.Data.List.FinRange

/-! The lease-based lock manager of `mini-dist-protocol/src/distributed_apps.c`. -/

namespace MiniNetDist.DistProtocol.LockLeases

open Library

def DLM_MAX_CLIENTS : Nat := 8
def DLM_MAX_LOCKS : Nat := 16
def DLM_DEFAULT_TTL_MS : UInt64 := 5000

/-- A lock whose `lock_id` is its place in the array; an `owner_id` of -1 is no owner. -/
structure DLMLock (n : Nat) where
  owner : Option (Fin n)
  leaseExpiryMs : UInt64
  logicalClock : UInt64
  granted : Bool

/-- A client whose `client_id` is its place, with the first `held_count` of its `held_locks`. -/
structure DLMClient where
  logicalClock : UInt64
  heldLocks : List (Fin DLM_MAX_LOCKS)

/-- `client_count` is `n`. -/
structure DLMManager (n : Nat) where
  locks : Fin DLM_MAX_LOCKS → DLMLock n
  clients : Fin n → DLMClient
  globalClock : UInt64
  currentTimeMs : UInt64

variable {n : Nat}

/-- `lock_count`, which `dlm_init` sets for good. -/
def lockCount (n : Nat) : Nat := if n > 0 then n else DLM_MAX_LOCKS

/-- The state that `dlm_init` sets up. -/
def dlmFresh (n : Nat) : DLMManager n := ⟨fun _ => ⟨none, 0, 0, false⟩, fun _ => ⟨0, []⟩, 0, 0⟩

/-- No result when a client is set up outside the array of clients. -/
def dlmInit (n : Nat) : Option (DLMManager n) := if n ≤ DLM_MAX_CLIENTS then some (dlmFresh n) else none

/-- The lock of an id, after the range check of `dlm_acquire` and `dlm_release`. -/
def lockSlot (n : Nat) (lockId : Int) : Option (Fin DLM_MAX_LOCKS) :=
  (slot DLM_MAX_LOCKS lockId).filter fun lock => lock.val < lockCount n

section Operations

def dlmUpdateClock (dlm : DLMManager n) (receivedClock : UInt64) : DLMManager n :=
  { dlm with globalClock := (if receivedClock > dlm.globalClock then receivedClock else dlm.globalClock) + 1 }

def DLMManager.setLock (dlm : DLMManager n) (lock : Fin DLM_MAX_LOCKS) (value : DLMLock n) : DLMManager n :=
  { dlm with locks := Function.update dlm.locks lock value }

def DLMManager.setClient (dlm : DLMManager n) (client : Fin n) (value : DLMClient) : DLMManager n :=
  { dlm with clients := Function.update dlm.clients client value }

/-- The loop that takes a lock out of the list of a client. -/
def DLMManager.forget (dlm : DLMManager n) (client : Fin n) (lock : Fin DLM_MAX_LOCKS) : DLMManager n :=
  dlm.setClient client { dlm.clients client with heldLocks := removeHeld (dlm.clients client).heldLocks lock }

/-- The part of `dlm_acquire` from "Grant the lock" on. -/
def DLMManager.grant (dlm : DLMManager n) (client : Fin n) (lock : Fin DLM_MAX_LOCKS) (ttlMs : UInt64) :
    DLMManager n :=
  let cli := dlm.clients client
  let held := if cli.heldLocks.length < DLM_MAX_LOCKS then cli.heldLocks ++ [lock] else cli.heldLocks
  (dlm.setLock lock ⟨some client, dlm.currentTimeMs + ttlMs, dlm.globalClock, true⟩).setClient client
    ⟨dlm.globalClock, held⟩

def defaultTtl (ttlMs : UInt64) : UInt64 := if ttlMs = 0 then DLM_DEFAULT_TTL_MS else ttlMs

/-- `dlm_acquire` of a lock by a client that are both in range. -/
def dlmAcquireAt (dlm : DLMManager n) (client : Fin n) (lock : Fin DLM_MAX_LOCKS) (ttlMs : UInt64) :
    DLMManager n × Bool :=
  let dlm := dlmUpdateClock dlm (dlm.clients client).logicalClock
  let held := dlm.locks lock
  if held.granted ∧ held.owner ≠ some client then
    if dlm.currentTimeMs < held.leaseExpiryMs then (dlm, false)
    else
      -- a granted lock has an owner
      let dlm := held.owner.elim dlm fun oldOwner => dlm.forget oldOwner lock
      (dlm.grant client lock (defaultTtl ttlMs), true)
  else (dlm.grant client lock (defaultTtl ttlMs), true)

def dlmAcquire (dlm : DLMManager n) (clientId lockId : Int) (ttlMs : UInt64) : DLMManager n × Bool :=
  match slot n clientId, lockSlot n lockId with
  | some client, some lock => dlmAcquireAt dlm client lock ttlMs
  | _, _ => (dlm, false)

/-- `dlm_release` of a lock by a client that are both in range. -/
def dlmReleaseAt (dlm : DLMManager n) (client : Fin n) (lock : Fin DLM_MAX_LOCKS) : DLMManager n × Bool :=
  let held := dlm.locks lock
  if !held.granted ∨ held.owner ≠ some client then (dlm, false)
  else ((dlm.setLock lock { held with granted := false, owner := none }).forget client lock, true)

def dlmRelease (dlm : DLMManager n) (clientId lockId : Int) : DLMManager n × Bool :=
  match slot n clientId, lockSlot n lockId with
  | some client, some lock => dlmReleaseAt dlm client lock
  | _, _ => (dlm, false)

def DLMLock.ownerId (lock : DLMLock n) : Int := lock.owner.elim (-1) fun client => client.val

/-- `dlm_renew` checks no range. -/
def dlmRenew (dlm : DLMManager n) (clientId : Int) (lock : Fin DLM_MAX_LOCKS) (ttlMs : UInt64) : DLMManager n × Bool :=
  let held := dlm.locks lock
  if !held.granted ∨ held.ownerId ≠ clientId then (dlm, false)
  else (dlm.setLock lock { held with leaseExpiryMs := dlm.currentTimeMs + defaultTtl ttlMs }, true)

/-- One round of the loop of `dlm_tick`. -/
def dlmExpire (dlm : DLMManager n) (lock : Fin DLM_MAX_LOCKS) : DLMManager n :=
  if lock.val < lockCount n ∧ (dlm.locks lock).granted ∧ dlm.currentTimeMs ≥ (dlm.locks lock).leaseExpiryMs then
    (dlmRelease dlm (dlm.locks lock).ownerId lock.val).1
  else dlm

def dlmTick (dlm : DLMManager n) (deltaMs : UInt64) : DLMManager n :=
  (List.finRange DLM_MAX_LOCKS).foldl dlmExpire { dlm with currentTimeMs := dlm.currentTimeMs + deltaMs }

end Operations

inductive DLMCall where
  | acquire (clientId lockId : Int) (ttlMs : UInt64)
  | release (clientId lockId : Int)
  | renew (clientId : Int) (lock : Fin DLM_MAX_LOCKS) (ttlMs : UInt64)
  | tick (deltaMs : UInt64)

def dlmCall (dlm : DLMManager n) : DLMCall → DLMManager n
  | .acquire clientId lockId ttlMs => (dlmAcquire dlm clientId lockId ttlMs).1
  | .release clientId lockId => (dlmRelease dlm clientId lockId).1
  | .renew clientId lock ttlMs => (dlmRenew dlm clientId lock ttlMs).1
  | .tick deltaMs => dlmTick dlm deltaMs

/-- The client that a lock is granted to. -/
def DLMManager.holder (dlm : DLMManager n) (lock : Fin DLM_MAX_LOCKS) : Option (Fin n) :=
  if (dlm.locks lock).granted then (dlm.locks lock).owner else none

def DLMManager.held (dlm : DLMManager n) (client : Fin n) : List (Fin DLM_MAX_LOCKS) := (dlm.clients client).heldLocks

/-- The lists of the clients say the same as the locks. -/
def Bookkept (dlm : DLMManager n) : Prop := Holdings dlm.holder dlm.held

/-- A call passes a lock from one client to another only when its lease has run out. -/
def Exclusive (dlm : DLMManager n) (call : DLMCall) : Prop :=
  ∀ lock before after, dlm.holder lock = some before → (dlmCall dlm call).holder lock = some after → before ≠ after →
    (dlm.locks lock).leaseExpiryMs ≤ dlm.currentTimeMs

/-- A lock is not acquired by the client that it is granted to. -/
def NotReacquired (dlm : DLMManager n) : DLMCall → Prop
  | .acquire clientId lockId _ => ∀ client lock, slot n clientId = some client → lockSlot n lockId = some lock →
      dlm.holder lock ≠ some client
  | _ => True

section Fields

variable (dlm : DLMManager n) (client : Fin n) (lock : Fin DLM_MAX_LOCKS)

@[simp] theorem holder_setClient (value : DLMClient) : (dlm.setClient client value).holder = dlm.holder := rfl

@[simp] theorem holder_forget : (dlm.forget client lock).holder = dlm.holder := rfl

@[simp] theorem holder_dlmUpdateClock (clock : UInt64) : (dlmUpdateClock dlm clock).holder = dlm.holder := rfl

@[simp] theorem held_setLock (value : DLMLock n) : (dlm.setLock lock value).held = dlm.held := rfl

@[simp] theorem held_dlmUpdateClock (clock : UInt64) : (dlmUpdateClock dlm clock).held = dlm.held := rfl

theorem holder_setLock (value : DLMLock n) : (dlm.setLock lock value).holder =
    Function.update dlm.holder lock (if value.granted then value.owner else none) := by
  funext other
  unfold DLMManager.holder DLMManager.setLock
  by_cases same : other = lock
  · subst same
    simp
  · simp [same]

theorem held_setClient (value : DLMClient) :
    (dlm.setClient client value).held = Function.update dlm.held client value.heldLocks := by
  funext other
  unfold DLMManager.held DLMManager.setClient
  by_cases same : other = client
  · subst same
    simp
  · simp [same]

theorem held_forget : (dlm.forget client lock).held =
    Function.update dlm.held client (removeHeld (dlm.held client) lock) := held_setClient ..

end Fields

section Books

variable {dlm : DLMManager n} {client : Fin n} {lock : Fin DLM_MAX_LOCKS} {ttlMs : UInt64}

theorem granted_of_holder (holds : dlm.holder lock = some client) :
    (dlm.locks lock).granted = true ∧ (dlm.locks lock).owner = some client := by
  unfold DLMManager.holder at holds
  split at holds
  · rename_i granted
    exact ⟨granted, holds⟩
  · cases holds

/-- Taken out of its owner's list, a lock is as good as free. -/
theorem Bookkept.forget (bookkept : Bookkept dlm) (holds : dlm.holder lock = some client) :
    Holdings (Function.update dlm.holder lock none) (dlm.forget client lock).held := by
  rw [held_forget]
  exact Holdings.free bookkept holds (removeHeld_perm _ _)

/-- The lock may still name its last owner, if that owner no longer lists it. -/
theorem bookkept_grant (free : Holdings (Function.update dlm.holder lock none) dlm.held) :
    Bookkept (dlm.grant client lock ttlMs) := by
  have unheld : Function.update dlm.holder lock none lock = none := Function.update_self ..
  have other : Function.update dlm.holder lock none lock ≠ some client := by rw [unheld]; exact nofun
  have room : (dlm.held client).length < DLM_MAX_LOCKS := (free.length_lt other).trans_eq (Fintype.card_fin _)
  have taken : Holdings (Function.update (Function.update dlm.holder lock none) lock (some client)) _ :=
    free.take unheld
  rw [Function.update_idem] at taken
  unfold Bookkept DLMManager.grant
  rw [held_setClient, holder_setClient, holder_setLock]
  simp only [if_pos (show (dlm.clients client).heldLocks.length < DLM_MAX_LOCKS from room)]
  exact taken

theorem dlmReleaseAt_eq : dlmReleaseAt dlm client lock =
    if dlm.holder lock = some client then
      ((dlm.setLock lock { dlm.locks lock with granted := false, owner := none }).forget client lock, true)
    else (dlm, false) := by
  unfold dlmReleaseAt DLMManager.holder
  cases granted : (dlm.locks lock).granted <;> by_cases owned : (dlm.locks lock).owner = some client <;>
    simp [granted, owned]

theorem bookkept_dlmReleaseAt (bookkept : Bookkept dlm) : Bookkept (dlmReleaseAt dlm client lock).1 := by
  rw [dlmReleaseAt_eq]
  by_cases holds : dlm.holder lock = some client
  · rw [if_pos holds, Bookkept, holder_forget, holder_setLock]
    exact bookkept.forget holds
  · rwa [if_neg holds]

theorem bookkept_dlmRelease (bookkept : Bookkept dlm) (clientId lockId : Int) :
    Bookkept (dlmRelease dlm clientId lockId).1 := by
  unfold dlmRelease
  split
  · exact bookkept_dlmReleaseAt bookkept
  · exact bookkept

/-- The manager after the clock was advanced for an acquisition. -/
abbrev clocked (dlm : DLMManager n) (client : Fin n) : DLMManager n :=
  dlmUpdateClock dlm (dlm.clients client).logicalClock

theorem dlmAcquireAt_own (holds : dlm.holder lock = some client) :
    dlmAcquireAt dlm client lock ttlMs = ((clocked dlm client).grant client lock (defaultTtl ttlMs), true) := by
  have own : ¬ ((dlm.locks lock).granted ∧ (dlm.locks lock).owner ≠ some client) :=
    fun taken => taken.2 (granted_of_holder holds).2
  exact if_neg own

/-- A lock that is granted with another owner, or with none, can be acquired once its lease is over. -/
theorem dlmAcquireAt_taken (taken : (dlm.locks lock).granted ∧ (dlm.locks lock).owner ≠ some client) :
    dlmAcquireAt dlm client lock ttlMs =
      if dlm.currentTimeMs < (dlm.locks lock).leaseExpiryMs then (clocked dlm client, false)
      else (((dlm.locks lock).owner.elim (clocked dlm client) fun oldOwner =>
        (clocked dlm client).forget oldOwner lock).grant client lock (defaultTtl ttlMs), true) := if_pos taken

theorem dlmAcquireAt_free (unheld : dlm.holder lock = none) :
    dlmAcquireAt dlm client lock ttlMs = (clocked dlm client, false) ∨
      dlmAcquireAt dlm client lock ttlMs = ((clocked dlm client).grant client lock (defaultTtl ttlMs), true) := by
  by_cases taken : (dlm.locks lock).granted ∧ (dlm.locks lock).owner ≠ some client
  · have nobody : (dlm.locks lock).owner = none := by simpa [DLMManager.holder, taken.1] using unheld
    rw [dlmAcquireAt_taken taken, nobody]
    split
    · exact .inl rfl
    · exact .inr rfl
  · exact .inr (if_neg taken)

theorem dlmAcquireAt_other {oldOwner : Fin n} (holds : dlm.holder lock = some oldOwner) (other : oldOwner ≠ client) :
    dlmAcquireAt dlm client lock ttlMs =
      if dlm.currentTimeMs < (dlm.locks lock).leaseExpiryMs then (clocked dlm client, false)
      else (((clocked dlm client).forget oldOwner lock).grant client lock (defaultTtl ttlMs), true) := by
  obtain ⟨granted, owner⟩ := granted_of_holder holds
  have taken : (dlm.locks lock).granted ∧ (dlm.locks lock).owner ≠ some client :=
    ⟨granted, by rw [owner]; exact fun same => other (Option.some.inj same)⟩
  rw [dlmAcquireAt_taken taken, owner]
  rfl

/-- A lock can be acquired by a client that it is not granted to. -/
theorem bookkept_dlmAcquireAt (bookkept : Bookkept dlm) (other : dlm.holder lock ≠ some client) :
    Bookkept (dlmAcquireAt dlm client lock ttlMs).1 := by
  have ticked : Bookkept (clocked dlm client) := bookkept
  cases holds : dlm.holder lock with
  | none =>
    have outcome : dlmAcquireAt dlm client lock ttlMs = _ ∨ dlmAcquireAt dlm client lock ttlMs = _ :=
      dlmAcquireAt_free holds
    rcases outcome with refused | granted
    · rwa [refused]
    · rw [granted]
      refine bookkept_grant ?_
      have unheld : Function.update (clocked dlm client).holder lock none = (clocked dlm client).holder := by
        rw [← holds]
        exact Function.update_eq_self lock dlm.holder
      rw [unheld]
      exact ticked
  | some oldOwner =>
    have different : oldOwner ≠ client := fun same => other (same ▸ holds)
    rw [dlmAcquireAt_other holds different]
    split
    · exact ticked
    · exact bookkept_grant (ticked.forget holds)

/-- A lock acquired again by its owner is listed twice. -/
theorem not_bookkept_reacquired (bookkept : Bookkept dlm) (holds : dlm.holder lock = some client)
    (room : (dlm.held client).length < DLM_MAX_LOCKS) : ¬ Bookkept (dlmAcquireAt dlm client lock ttlMs).1 := by
  intro kept
  have listed : lock ∈ dlm.held client := ((bookkept client).2 lock).mpr holds
  have twice : (dlmAcquireAt dlm client lock ttlMs).1.held client = dlm.held client ++ [lock] := by
    rw [dlmAcquireAt_own holds, DLMManager.grant, held_setClient, Function.update_self]
    exact if_pos room
  have distinct := (kept client).1
  rw [twice] at distinct
  exact List.disjoint_of_nodup_append distinct listed (List.mem_singleton_self lock)

theorem bookkept_dlmTick (bookkept : Bookkept dlm) (deltaMs : UInt64) : Bookkept (dlmTick dlm deltaMs) := by
  have started : Bookkept { dlm with currentTimeMs := dlm.currentTimeMs + deltaMs } := bookkept
  unfold dlmTick
  generalize List.finRange DLM_MAX_LOCKS = locks
  generalize { dlm with currentTimeMs := dlm.currentTimeMs + deltaMs } = dlm at started
  induction locks generalizing dlm with
  | nil => exact started
  | cons lock rest ih =>
    refine ih _ ?_
    unfold dlmExpire
    split
    · exact bookkept_dlmRelease started _ _
    · exact started

theorem holder_dlmRenew (clientId : Int) : (dlmRenew dlm clientId lock ttlMs).1.holder = dlm.holder := by
  unfold dlmRenew
  simp only
  split
  · rfl
  · rw [holder_setLock]
    exact Function.update_eq_self lock dlm.holder

theorem bookkept_dlmRenew (bookkept : Bookkept dlm) (clientId : Int) :
    Bookkept (dlmRenew dlm clientId lock ttlMs).1 := by
  have lists : (dlmRenew dlm clientId lock ttlMs).1.held = dlm.held := by
    unfold dlmRenew
    simp only
    split <;> rfl
  rwa [Bookkept, holder_dlmRenew, lists]

end Books

section Holder

variable {dlm : DLMManager n} {client holder : Fin n} {lock other : Fin DLM_MAX_LOCKS} {ttlMs : UInt64}

theorem holder_of_dlmRelease {clientId lockId : Int}
    (holds : (dlmRelease dlm clientId lockId).1.holder other = some holder) : dlm.holder other = some holder := by
  unfold dlmRelease at holds
  split at holds
  · rename_i client lock _ _
    rw [dlmReleaseAt_eq] at holds
    split at holds
    · rw [holder_forget, holder_setLock, Function.update_apply] at holds
      split at holds
      · cases holds
      · exact holds
    · exact holds
  · exact holds

/-- Time only takes locks away. -/
theorem holder_of_dlmTick {deltaMs : UInt64} (holds : (dlmTick dlm deltaMs).holder other = some holder) :
    dlm.holder other = some holder := by
  change { dlm with currentTimeMs := dlm.currentTimeMs + deltaMs }.holder other = some holder
  unfold dlmTick at holds
  revert holds
  generalize List.finRange DLM_MAX_LOCKS = locks
  generalize { dlm with currentTimeMs := dlm.currentTimeMs + deltaMs } = dlm
  intro holds
  induction locks generalizing dlm with
  | nil => exact holds
  | cons lock rest ih =>
    have expired : (dlmExpire dlm lock).holder other = some holder := ih _ holds
    unfold dlmExpire at expired
    split at expired
    · exact holder_of_dlmRelease expired
    · exact expired

theorem holder_grant : (dlm.grant client lock ttlMs).holder = Function.update dlm.holder lock (some client) := by
  unfold DLMManager.grant
  rw [holder_setClient, holder_setLock]
  rfl

/-- An acquisition changes one holder, and that only if the lock was free or its lease had run out. -/
theorem holder_dlmAcquireAt : (dlmAcquireAt dlm client lock ttlMs).1.holder = dlm.holder ∨
    (dlmAcquireAt dlm client lock ttlMs).1.holder = Function.update dlm.holder lock (some client) ∧
      ∀ oldOwner, dlm.holder lock = some oldOwner → oldOwner ≠ client →
        (dlm.locks lock).leaseExpiryMs ≤ dlm.currentTimeMs := by
  cases holds : dlm.holder lock with
  | none =>
    have outcome : dlmAcquireAt dlm client lock ttlMs = _ ∨ dlmAcquireAt dlm client lock ttlMs = _ :=
      dlmAcquireAt_free holds
    rcases outcome with refused | granted
    · exact .inl (by rw [refused]; rfl)
    · exact .inr ⟨by rw [granted, holder_grant]; rfl, nofun⟩
  | some oldOwner =>
    by_cases same : oldOwner = client
    · subst same
      refine .inr ⟨by rw [dlmAcquireAt_own holds, holder_grant]; rfl, ?_⟩
      rintro _ ⟨⟩ different
      exact absurd rfl different
    · rw [dlmAcquireAt_other holds same]
      split
      · exact .inl rfl
      · rename_i expired
        exact .inr ⟨by rw [holder_grant]; rfl, fun _ _ _ => UInt64.not_lt.mp expired⟩

theorem lockSlot_eq_some_iff {lockId : Int} :
    lockSlot n lockId = some lock ↔ (lock.val : Int) = lockId ∧ lock.val < lockCount n := by
  rw [lockSlot, Option.filter_eq_some_iff, slot_eq_some_iff]
  simp

end Holder

/-- Every call passes locks on only when their leases have run out. -/
theorem exclusive (dlm : DLMManager n) (call : DLMCall) : Exclusive dlm call := by
  intro lock before after holds later different
  have moved : ¬ (dlmCall dlm call).holder lock = dlm.holder lock := by
    rw [later, holds]
    exact fun same => different (Option.some.inj same).symm
  cases call with
  | acquire clientId lockId ttlMs =>
    simp only [dlmCall, dlmAcquire] at later moved
    split at later
    · rename_i client acquired named aimed
      simp only [named, aimed] at moved
      have outcome : (dlmAcquireAt dlm client acquired ttlMs).1.holder = dlm.holder ∨ _ := holder_dlmAcquireAt
      rcases outcome with same | ⟨granted, expired⟩
      · exact absurd (congrFun same lock) moved
      · by_cases aim : lock = acquired
        · subst aim
          rw [granted, Function.update_self] at later
          exact expired before holds fun same => different (same.trans (Option.some.inj later))
        · rw [granted, Function.update_of_ne aim] at moved
          exact absurd rfl moved
    · exact absurd (Option.some.inj (holds.symm.trans later)) different
  | release clientId lockId => exact absurd ((holder_of_dlmRelease later).trans later.symm).symm moved
  | renew clientId lock ttlMs => exact absurd (congrFun (holder_dlmRenew clientId) _) moved
  | tick deltaMs => exact absurd ((holder_of_dlmTick later).trans later.symm).symm moved

/-- Only locks in use are granted. -/
def InUse (dlm : DLMManager n) : Prop := ∀ lock client, dlm.holder lock = some client → lock.val < lockCount n

theorem inUse_dlmCall {dlm : DLMManager n} (inUse : InUse dlm) (call : DLMCall) : InUse (dlmCall dlm call) := by
  intro lock client holds
  cases call with
  | acquire clientId lockId ttlMs =>
    simp only [dlmCall, dlmAcquire] at holds
    split at holds
    · rename_i acquirer acquired named aimed
      have outcome : (dlmAcquireAt dlm acquirer acquired ttlMs).1.holder = dlm.holder ∨ _ := holder_dlmAcquireAt
      rcases outcome with same | ⟨granted, _⟩
      · exact inUse lock client (same ▸ holds)
      · by_cases aim : lock = acquired
        · exact aim ▸ (lockSlot_eq_some_iff.mp aimed).2
        · rw [granted, Function.update_of_ne aim] at holds
          exact inUse lock client holds
    · exact inUse lock client holds
  | release clientId lockId => exact inUse lock client (holder_of_dlmRelease holds)
  | renew clientId other ttlMs => exact inUse lock client (holder_dlmRenew clientId ▸ holds)
  | tick deltaMs => exact inUse lock client (holder_of_dlmTick holds)

/-- With at most `DLM_MAX_CLIENTS` clients no list ever fills up. -/
theorem length_held_lt {dlm : DLMManager n} (fits : n ≤ DLM_MAX_CLIENTS) (inUse : InUse dlm) (bookkept : Bookkept dlm)
    (client : Fin n) : (dlm.held client).length < DLM_MAX_LOCKS := by
  have inhabited : 0 < n := Nat.lt_of_le_of_lt (Nat.zero_le _) client.isLt
  have small : n < DLM_MAX_LOCKS := Nat.lt_of_le_of_lt fits (by decide)
  have other : dlm.holder ⟨n, small⟩ ≠ some client := by
    intro holds
    have below := inUse _ client holds
    rw [lockCount, if_pos inhabited] at below
    exact Nat.lt_irrefl n below
  exact (Holdings.length_lt bookkept other).trans_eq (Fintype.card_fin _)

theorem bookkept_dlmCall_iff {dlm : DLMManager n} (fits : n ≤ DLM_MAX_CLIENTS) (inUse : InUse dlm)
    (bookkept : Bookkept dlm) (call : DLMCall) : Bookkept (dlmCall dlm call) ↔ NotReacquired dlm call := by
  cases call with
  | acquire clientId lockId ttlMs =>
    cases named : slot n clientId with
    | none => exact iff_of_true (by simpa [dlmCall, dlmAcquire, named] using bookkept) (by simp [NotReacquired, named])
    | some client =>
    cases aimed : lockSlot n lockId with
    | none => exact iff_of_true (by simpa [dlmCall, dlmAcquire, aimed] using bookkept) (by simp [NotReacquired, aimed])
    | some lock =>
    have acquired : dlmCall dlm (.acquire clientId lockId ttlMs) = (dlmAcquireAt dlm client lock ttlMs).1 := by
      simp [dlmCall, dlmAcquire, named, aimed]
    have condition : NotReacquired dlm (.acquire clientId lockId ttlMs) ↔ dlm.holder lock ≠ some client := by
      simp [NotReacquired, named, aimed]
    rw [acquired, condition]
    constructor
    · exact fun kept holds => not_bookkept_reacquired bookkept holds (length_held_lt fits inUse bookkept client) kept
    · exact bookkept_dlmAcquireAt bookkept
  | release clientId lockId => exact iff_of_true (bookkept_dlmRelease bookkept clientId lockId) trivial
  | renew clientId lock ttlMs => exact iff_of_true (bookkept_dlmRenew bookkept clientId) trivial
  | tick deltaMs => exact iff_of_true (bookkept_dlmTick bookkept deltaMs) trivial

/-- Locks and lists agree throughout a run exactly if the clients fit their array and no client acquires
a lock that is granted to it. Leases are respected in any case. -/
theorem dlmRun_bookkept_iff (n : Nat) (calls : List DLMCall) :
    (∃ dlm, dlmInit n = some dlm ∧ (∀ earlier, earlier <+: calls → Bookkept (earlier.foldl dlmCall dlm)) ∧
      Permitted dlmCall Exclusive dlm calls) ↔
    n ≤ DLM_MAX_CLIENTS ∧ Permitted dlmCall NotReacquired (dlmFresh n) calls := by
  have within : Permitted dlmCall Always (dlmFresh n) calls := .always calls
  have unused : InUse (dlmFresh n) := fun _ _ holds => nomatch holds
  have unlisted : Bookkept (dlmFresh n) := fun _ => ⟨List.nodup_nil, fun _ => ⟨nofun, nofun⟩⟩
  have exactly : n ≤ DLM_MAX_CLIENTS →
      ((∀ earlier, earlier <+: calls → Bookkept (earlier.foldl dlmCall (dlmFresh n))) ↔
      Permitted dlmCall NotReacquired (dlmFresh n) calls) := by
    intro fits
    refine Permitted.throughout_iff calls within unused unlisted ?_ ?_
    · exact fun _ call inUse _ _ => inUse_dlmCall inUse call
    · exact fun _ call inUse _ bookkept => bookkept_dlmCall_iff fits inUse bookkept call
  unfold dlmInit
  by_cases fits : n ≤ DLM_MAX_CLIENTS
  · rw [if_pos fits]
    constructor
    · rintro ⟨_, ⟨⟩, throughout, _⟩
      exact ⟨fits, (exactly fits).mp throughout⟩
    · rintro ⟨_, permitted⟩
      refine ⟨_, rfl, (exactly fits).mpr permitted, ?_⟩
      refine Permitted.ofInvariant (motive := fun _ => True) calls within trivial ?_ ?_
      · intros
        trivial
      · exact fun dlm call _ _ => exclusive dlm call
  · rw [if_neg fits]
    exact iff_of_false (fun ⟨_, init, _⟩ => nomatch init) fun ⟨fits', _⟩ => fits fits'

/-- A client that acquires its lock again has it in its list twice. -/
theorem dlmAcquire_again_listed_twice :
    ¬ ∃ dlm, dlmInit 1 = some dlm ∧ Bookkept ([.acquire 0 0 100, .acquire 0 0 100].foldl dlmCall dlm) := by
  rintro ⟨_, ⟨⟩, bookkept⟩
  have distinct := (bookkept 0).1
  revert distinct
  decide

end MiniNetDist.DistProtocol.LockLeases
