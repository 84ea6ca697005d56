import Mathlib.Data.Finset.Erase
import Mathlib.Data.Finset.Insert
import Mathlib.Data.List.Induction
import MiniNetDist.Library.CharArray
import MiniNetDist.Library.Run
import MiniNetDist.Library.Slots

/-! The connection pool of `mini-gateway-proxy/src/connection_pool.c`. The slots of the pool are used one after the
other, and a slot that was closed is never used again. -/

namespace MiniNetDist.GatewayProxy.ConnPool

open Library

def CP_MAX_CONN : Nat := 64
def CP_MAX_HOST_LEN : Nat := 256

inductive CPConnState where
  | idle
  | active
  | closing
  | error
  deriving DecidableEq, Repr

inductive CPEvictionPolicy where
  | fifo
  | lru
  | lifo
  deriving DecidableEq, Repr

structure Timespec where
  tvSec : Int
  tvNsec : Int
  deriving DecidableEq, Repr

structure CPConnection where
  fd : Int
  host : CString
  port : Int
  state : CPConnState
  createdAt : Timespec
  lastUsed : Timespec
  idleStart : Timespec
  requestCount : Int
  keepAlive : Bool
  deriving DecidableEq, Repr

/-- The connections are those below `num_conn`. -/
structure ConnectionPool where
  connections : List CPConnection
  maxConn : Nat
  maxIdleMs : Int
  maxLifetimeMs : Int
  maxRequestsPerConn : Int
  evictPolicy : CPEvictionPolicy
  host : CString
  port : Int
  activeCount : Int
  idleCount : Int
  totalCreated : UInt64
  totalDestroyed : UInt64
  totalReused : UInt64
  deriving DecidableEq, Repr

def cpInit (host : CString) (port maxConn : Int) : ConnectionPool where
  connections := []
  maxConn := if maxConn > 0 then maxConn.toNat else CP_MAX_CONN
  maxIdleMs := 60000
  maxLifetimeMs := 3600000
  maxRequestsPerConn := 1000
  evictPolicy := .lru
  host := host.take (CP_MAX_HOST_LEN - 1)
  port := port
  activeCount := 0
  idleCount := 0
  totalCreated := 0
  totalDestroyed := 0
  totalReused := 0

def CPConnection.isActive (c : CPConnection) : Bool := c.state = .active

def CPConnection.isIdle (c : CPConnection) : Bool := c.state = .idle

/-- A connection is put into a slot, and the counts of active and idle connections change. -/
def ConnectionPool.put (cp : ConnectionPool) (i : Nat) (c : CPConnection) (active idle : Int) : ConnectionPool :=
  { cp with
    connections := cp.connections.set i c
    activeCount := cp.activeCount + active
    idleCount := cp.idleCount + idle }

/-- A connection is closed, and no longer counted. -/
def ConnectionPool.close (cp : ConnectionPool) (i : Nat) (c : CPConnection) : ConnectionPool :=
  { cp.put i { c with fd := -1, state := .closing } (if c.state = .active then -1 else 0)
      (if c.state = .idle then -1 else 0) with
    totalDestroyed := cp.totalDestroyed + 1 }

/-- Which of two idle connections `cp_acquire` takes; without the least recently used policy it takes the first. -/
def reuseBefore (policy : CPEvictionPolicy) (c best : CPConnection) : Bool :=
  match policy with
  | .lru => c.lastUsed.tvSec < best.lastUsed.tvSec ||
      (c.lastUsed.tvSec = best.lastUsed.tvSec && c.lastUsed.tvNsec < best.lastUsed.tvNsec)
  | _ => false

/-- Which of two idle connections `cp_evict` closes. -/
def evictBefore (policy : CPEvictionPolicy) (c target : CPConnection) : Bool :=
  match policy with
  | .fifo => c.idleStart.tvSec < target.idleStart.tvSec
  | .lru => c.lastUsed.tvSec < target.lastUsed.tvSec
  | .lifo => false

/-- The loop of `cp_evict`, with the number of connections that may still be evicted. -/
def evictLoop : Nat → Int → ConnectionPool → Int × ConnectionPool
  | 0, evicted, cp => (evicted, cp)
  | left + 1, evicted, cp =>
    if cp.idleCount > 0 then
      match Slots.choose CPConnection.isIdle (evictBefore cp.evictPolicy) 0 none cp.connections with
      | none => (evicted, cp)
      | some (target, c) => evictLoop left (evicted + 1) (cp.close target c)
    else (evicted, cp)

def cpEvict (count : Int) (cp : ConnectionPool) : Int × ConnectionPool :=
  if count ≤ 0 then (-1, cp) else evictLoop count.toNat 0 cp

/-- The slot of the connection that is returned, if any, with the pool. The clock gives the readings that are made, one
after the other; there is no result if the calls are nested deeper than `depth`. -/
def cpAcquire : Nat → (Nat → Timespec) → ConnectionPool → Option (Option Nat × ConnectionPool)
  | 0, _, _ => none
  | depth + 1, clock, cp =>
    match Slots.choose CPConnection.isIdle (reuseBefore cp.evictPolicy) 0 none cp.connections with
    | some (i, c) =>
      let cp := cp.put i { c with state := .active, lastUsed := clock 0 } 1 (-1)
      some (some i, { cp with totalReused := cp.totalReused + 1 })
    | none =>
      if cp.connections.length ≥ cp.maxConn then
        if cp.idleCount > 0 then cpAcquire depth (fun reading => clock (reading + 2)) (cpEvict 1 cp).2
        else some (none, cp)
      else
        let c : CPConnection := {
          fd := -1
          host := cp.host.take (CP_MAX_HOST_LEN - 1)
          port := cp.port
          state := .active
          createdAt := clock 1
          lastUsed := clock 1
          idleStart := ⟨0, 0⟩
          requestCount := 0
          keepAlive := true }
        some (some cp.connections.length, { cp with
          connections := cp.connections ++ [c]
          activeCount := cp.activeCount + 1
          totalCreated := cp.totalCreated + 1 })

/-- The connection of a slot is released. -/
def cpRelease (i : Nat) (keepAlive : Bool) (now : Timespec) (cp : ConnectionPool) : Int × ConnectionPool :=
  match cp.connections[i]? with
  | none => (-1, cp)
  | some conn =>
    if conn.state ≠ .active then (-1, cp)
    else
      let conn := { conn with keepAlive }
      if keepAlive ∧ conn.fd ≥ 0 ∧ conn.requestCount < cp.maxRequestsPerConn then
        (0, cp.put i { conn with state := .idle, idleStart := now } (-1) 1)
      else (0, cp.close i conn)

/-- Milliseconds between two readings; each difference is converted to `uint64_t` by itself. -/
def spanMs (start now : Timespec) : UInt64 :=
  .ofInt (now.tvSec - start.tvSec) * 1000 + .ofInt (now.tvNsec - start.tvNsec) / 1000000

/-- One round of the loops that close connections, with the number closed so far. -/
def closeIf (due : CPConnection → Bool) (swept : Int × ConnectionPool) (i : Nat) : Int × ConnectionPool :=
  match swept.2.connections[i]? with
  | none => swept
  | some c => if due c then (swept.1 + 1, swept.2.close i c) else swept

def closeAll (due : CPConnection → Bool) (cp : ConnectionPool) : Int × ConnectionPool :=
  (List.range cp.connections.length).foldl (closeIf due) (0, cp)

def cpCloseIdle (now : Timespec) (cp : ConnectionPool) : Int × ConnectionPool :=
  closeAll (fun c => c.state = .idle && spanMs c.idleStart now ≥ .ofInt cp.maxIdleMs) cp

def cpCloseExpired (now : Timespec) (cp : ConnectionPool) : Int × ConnectionPool :=
  closeAll (fun c => c.state ≠ .closing && c.state ≠ .error && spanMs c.createdAt now ≥ .ofInt cp.maxLifetimeMs) cp

def cpHealthCheck (cp : ConnectionPool) : ConnectionPool := (closeAll (fun c => c.state = .error) cp).2

inductive PoolCall where
  | acquire (clock : Nat → Timespec)
  | use (i : Nat) (fd requestCount : Int)
  | release (i : Nat) (keepAlive : Bool) (now : Timespec)
  | evict (count : Int)
  | closeIdle (now : Timespec)
  | closeExpired (now : Timespec)
  | healthCheck

/-- A pool, with the slots whose connections have been acquired and not been released. -/
structure Pooled where
  pool : ConnectionPool
  held : Finset Nat

/-- The holder of a connection sets its descriptor and counts its requests. -/
def useConnection (i : Nat) (fd requestCount : Int) (cp : ConnectionPool) : ConnectionPool :=
  match cp.connections[i]? with
  | none => cp
  | some c => cp.put i { c with fd, requestCount } 0 0

def Pooled.call (depth : Nat) (state : Pooled) : PoolCall → Pooled
  | .acquire clock =>
    match cpAcquire depth clock state.pool with
    | some (some i, cp) => ⟨cp, insert i state.held⟩
    | some (none, cp) => ⟨cp, state.held⟩
    | none => state
  | .use i fd requestCount => ⟨useConnection i fd requestCount state.pool, state.held⟩
  | .release i keepAlive now => ⟨(cpRelease i keepAlive now state.pool).2, state.held.erase i⟩
  | .evict count => ⟨(cpEvict count state.pool).2, state.held⟩
  | .closeIdle now => ⟨(cpCloseIdle now state.pool).2, state.held⟩
  | .closeExpired now => ⟨(cpCloseExpired now state.pool).2, state.held⟩
  | .healthCheck => ⟨cpHealthCheck state.pool, state.held⟩

/-- Connections are used and released by those who hold them. -/
def Holding (state : Pooled) : PoolCall → Prop
  | .use i _ _ => i ∈ state.held
  | .release i _ _ => i ∈ state.held
  | _ => True

/-- A pool as it is set up, with any limits and any policy. -/
structure ConnectionPool.Fresh (cp : ConnectionPool) : Prop where
  empty : cp.connections = []
  active : cp.activeCount = 0
  idle : cp.idleCount = 0
  positive : 1 ≤ cp.maxConn
  most : cp.maxConn ≤ CP_MAX_CONN

/-- The counts are the numbers of active and of idle connections. -/
structure ConnectionPool.Accounted (cp : ConnectionPool) : Prop where
  active : cp.activeCount = Slots.tally CPConnection.isActive cp.connections
  idle : cp.idleCount = Slots.tally CPConnection.isIdle cp.connections

/-- The call leaves the counts right; `cp_acquire` returns a connection that is not held, and none only when all are in
use. -/
def Correct (depth : Nat) (state : Pooled) (call : PoolCall) : Prop :=
  (state.call depth call).pool.Accounted ∧
  match call with
  | .acquire clock => ∃ result cp, cpAcquire depth clock state.pool = some (result, cp) ∧
      (∀ i ∈ result, i ∉ state.held) ∧
      (result = none → Slots.tally CPConnection.isActive state.pool.connections = state.pool.maxConn)
  | _ => True

/-- With all slots taken, a connection is idle, or none of them is closed. -/
def Unstuck (state : Pooled) : PoolCall → Prop
  | .acquire _ => state.pool.connections.length = state.pool.maxConn →
      (∃ c ∈ state.pool.connections, c.state = .idle) ∨ ∀ c ∈ state.pool.connections, c.state = .active
  | _ => True

section Sound

variable {cp : ConnectionPool} {held later : Finset Nat} {i : Nat} {old new : CPConnection}

/-- The invariant of the pool: the counts are right, no more connections than allowed are there, and none that is held
is idle. -/
structure Sound (held : Finset Nat) (cp : ConnectionPool) : Prop where
  accounted : cp.Accounted
  within : cp.connections.length ≤ cp.maxConn
  owned : ∀ i ∈ held, ∃ c, cp.connections[i]? = some c ∧ c.state ≠ .idle

/-- What a change of one slot must add to the counts. -/
theorem Sound.put (sound : Sound held cp) (found : cp.connections[i]? = some old) {active idle : Int}
    (actives : active = Slots.weight CPConnection.isActive new - Slots.weight CPConnection.isActive old)
    (idles : idle = Slots.weight CPConnection.isIdle new - Slots.weight CPConnection.isIdle old)
    (others : ∀ j ∈ later, i ≠ j → j ∈ held) (taken : i ∈ later → new.state ≠ .idle) :
    Sound later (cp.put i new active idle) where
  accounted := by
    have activeBefore := sound.accounted.active
    have idleBefore := sound.accounted.idle
    have activeAfter := Slots.tally_set CPConnection.isActive found new
    have idleAfter := Slots.tally_set CPConnection.isIdle found new
    constructor
    · simp only [ConnectionPool.put]
      omega
    · simp only [ConnectionPool.put]
      omega
  within := by
    simp only [ConnectionPool.put, List.length_set]
    exact sound.within
  owned := by
    intro j holds
    by_cases same : i = j
    · subst same
      have inside : i < cp.connections.length := (List.getElem?_eq_some_iff.mp found).1
      exact ⟨new, List.getElem?_set_self inside, taken holds⟩
    · obtain ⟨c, there, busy⟩ := sound.owned j (others j holds same)
      exact ⟨c, (List.getElem?_set_ne same).trans there, busy⟩

theorem Sound.close (sound : Sound held cp) (found : cp.connections[i]? = some old) (same : new.state = old.state) :
    Sound held (cp.close i new) := by
  have next : Sound held (cp.put i { new with fd := -1, state := .closing } (if new.state = .active then -1 else 0)
      (if new.state = .idle then -1 else 0)) := by
    apply sound.put found
    · simp only [Slots.weight, CPConnection.isActive, decide_eq_true_eq, same]
      split <;> simp
    · simp only [Slots.weight, CPConnection.isIdle, decide_eq_true_eq, same]
      split <;> simp
    · exact fun _ holds _ => holds
    · exact fun _ => by simp
  exact ⟨⟨next.accounted.active, next.accounted.idle⟩, next.within, next.owned⟩

theorem Sound.closeAll (sound : Sound held cp) (due : CPConnection → Bool) : Sound held (closeAll due cp).2 := by
  unfold ConnPool.closeAll
  induction List.range cp.connections.length using List.reverseRecOn with
  | nil => exact sound
  | append_singleton earlier i ih =>
    rw [List.foldl_concat, closeIf]
    split
    · exact ih
    · rename_i c found
      split
      · exact ih.close found rfl
      · exact ih

theorem Sound.evictLoop (sound : Sound held cp) (left : Nat) (evicted : Int) :
    Sound held (evictLoop left evicted cp).2 := by
  induction left generalizing cp evicted with
  | zero => exact sound
  | succ left ih =>
    rw [ConnPool.evictLoop]
    split
    · split
      · exact sound
      · rename_i target c chosen
        exact ih (sound.close (Slots.choose_eq_some chosen).1 rfl) _
    · exact sound

theorem Sound.evict (sound : Sound held cp) (count : Int) : Sound held (cpEvict count cp).2 := by
  rw [cpEvict]
  split
  · exact sound
  · exact sound.evictLoop _ _

theorem Sound.use (sound : Sound held cp) (fd requestCount : Int) :
    Sound held (useConnection i fd requestCount cp) := by
  rw [useConnection]
  split
  · exact sound
  · rename_i c found
    refine sound.put found (Int.sub_self _).symm (Int.sub_self _).symm (fun _ holds _ => holds) ?_
    intro holds
    obtain ⟨same, there, busy⟩ := sound.owned i holds
    rw [found] at there
    exact Option.some.inj there ▸ busy

theorem Sound.release (sound : Sound held cp) (keepAlive : Bool) (now : Timespec) :
    Sound (held.erase i) (cpRelease i keepAlive now cp).2 := by
  have given : Sound (held.erase i) cp :=
    ⟨sound.accounted, sound.within, fun j holds => sound.owned j (Finset.mem_of_mem_erase holds)⟩
  rw [cpRelease]
  split
  · exact given
  · rename_i conn found
    split
    · exact given
    · rename_i state
      rw [not_not] at state
      dsimp only
      split
      · apply given.put found
        · simp [Slots.weight, CPConnection.isActive, state]
        · simp [Slots.weight, CPConnection.isIdle, state]
        · exact fun _ holds _ => holds
        · exact fun holds => absurd rfl (Finset.ne_of_mem_erase holds)
      · exact given.close found rfl

/-- A new connection takes the next slot. -/
theorem Sound.create (sound : Sound held cp) (room : cp.connections.length < cp.maxConn) (c : CPConnection)
    (state : c.state = .active) :
    Sound (insert cp.connections.length held) { cp with
      connections := cp.connections ++ [c]
      activeCount := cp.activeCount + 1
      totalCreated := cp.totalCreated + 1 } where
  accounted := by
    constructor
    · rw [Slots.tally_append, ← sound.accounted.active]
      simp [Slots.weight, CPConnection.isActive, state]
    · rw [Slots.tally_append, ← sound.accounted.idle]
      simp [Slots.weight, CPConnection.isIdle, state]
  within := by
    rw [List.length_append]
    exact room
  owned := by
    intro j holds
    rcases Finset.mem_insert.mp holds with rfl | earlier
    · exact ⟨c, List.getElem?_concat_length, by simp [state]⟩
    · obtain ⟨c', there, busy⟩ := sound.owned j earlier
      exact ⟨c', (List.getElem?_append_left (List.getElem?_eq_some_iff.mp there).1).trans there, busy⟩

/-- A call of `cp_acquire` that finds the pool as it should be is not repeated. -/
theorem Sound.acquire (sound : Sound held cp) (depth : Nat) (clock : Nat → Timespec) :
    ∃ result next, cpAcquire (depth + 1) clock cp = some (result, next) ∧
      Sound (result.elim held (insert · held)) next ∧ (∀ i ∈ result, i ∉ held) ∧
      (result = none ↔ cp.connections.length = cp.maxConn ∧ ∀ c ∈ cp.connections, c.state ≠ .idle) := by
  have idle (c : CPConnection) : c.isIdle = false ↔ c.state ≠ .idle := decide_eq_false_iff_not
  rw [cpAcquire]
  cases chosen : Slots.choose CPConnection.isIdle (reuseBefore cp.evictPolicy) 0 none cp.connections with
  | some found =>
    obtain ⟨i, c⟩ := found
    obtain ⟨there, rests⟩ := Slots.choose_eq_some chosen
    have state : c.state = .idle := of_decide_eq_true rests
    have free : i ∉ held := by
      intro holds
      obtain ⟨same, here, busy⟩ := sound.owned i holds
      rw [there] at here
      exact busy (Option.some.inj here ▸ state)
    refine ⟨some i, _, rfl, ?_, fun j taken => Option.some.inj taken ▸ free, ?_⟩
    · have next : Sound (insert i held) (cp.put i { c with state := .active, lastUsed := clock 0 } 1 (-1)) := by
        apply sound.put there
        · simp [Slots.weight, CPConnection.isActive, state]
        · simp [Slots.weight, CPConnection.isIdle, state]
        · exact fun j holds other => Finset.mem_of_mem_insert_of_ne holds (Ne.symm other)
        · exact fun _ => by simp
      exact ⟨⟨next.accounted.active, next.accounted.idle⟩, next.within, next.owned⟩
    · simp only [reduceCtorEq, false_iff, not_and]
      exact fun _ none => none c (List.mem_of_getElem? there) state
  | none =>
    have none := Slots.choose_eq_none_iff.mp chosen
    have nobody : cp.idleCount = 0 := sound.accounted.idle.trans (Slots.tally_eq_zero_iff.mpr none)
    by_cases full : cp.connections.length ≥ cp.maxConn
    · have empty : ¬cp.idleCount > 0 := by
        rw [nobody]
        exact Int.lt_irrefl 0
      simp only [if_pos full, if_neg empty]
      refine ⟨_, _, rfl, sound, fun j taken => absurd taken (Option.not_mem_none j), ?_⟩
      exact ⟨fun _ => ⟨Nat.le_antisymm sound.within full, fun c there => (idle c).mp (none c there)⟩, fun _ => rfl⟩
    · simp only [if_neg full]
      refine ⟨_, _, rfl, sound.create (Nat.lt_of_not_le full) _ rfl, ?_, ?_⟩
      · intro j taken holds
        obtain rfl := Option.some.inj taken
        obtain ⟨c, there, -⟩ := sound.owned _ holds
        exact absurd (List.getElem?_eq_some_iff.mp there).1 (Nat.lt_irrefl _)
      · simp only [reduceCtorEq, false_iff, not_and]
        exact fun most => absurd (Nat.le_of_eq most.symm) full

end Sound

section Runs

variable {depth : Nat} {state : Pooled} {cp : ConnectionPool}

theorem call_acquire {clock : Nat → Timespec} {result : Option Nat}
    (acquired : cpAcquire depth clock state.pool = some (result, cp)) :
    state.call depth (.acquire clock) = ⟨cp, result.elim state.held (insert · state.held)⟩ := by
  rw [Pooled.call, acquired]
  cases result <;> rfl

/-- Every call keeps the invariant. -/
theorem Sound.call (sound : Sound state.held state.pool) (depth : Nat) (call : PoolCall) :
    Sound (state.call (depth + 1) call).held (state.call (depth + 1) call).pool := by
  cases call with
  | acquire clock =>
    obtain ⟨result, next, acquired, kept, -, -⟩ := sound.acquire depth clock
    rw [call_acquire acquired]
    exact kept
  | use i fd requestCount => exact sound.use fd requestCount
  | release i keepAlive now => exact sound.release keepAlive now
  | evict count => exact sound.evict count
  | closeIdle now => exact sound.closeAll _
  | closeExpired now => exact sound.closeAll _
  | healthCheck => exact sound.closeAll _

/-- A call is correct exactly if it does not ask a pool that is stuck for a connection. -/
theorem Sound.correct_iff (sound : Sound state.held state.pool) (depth : Nat) (call : PoolCall) :
    Correct (depth + 1) state call ↔ Unstuck state call := by
  have accounted := (sound.call depth call).accounted
  cases call with
  | acquire clock =>
    obtain ⟨result, next, acquired, -, free, refused⟩ := sound.acquire depth clock
    constructor
    · intro ⟨_, other, pool, same, _, most⟩ full
      obtain ⟨rfl, rfl⟩ := Prod.mk.inj (Option.some.inj (acquired.symm.trans same))
      by_cases rests : ∃ c ∈ state.pool.connections, c.state = .idle
      · exact .inl rests
      · right
        have none := refused.mpr ⟨full, fun c there idle => rests ⟨c, there, idle⟩⟩
        have all := Slots.tally_eq_length_iff.mp ((most none).trans (congrArg Nat.cast full.symm))
        exact fun c there => of_decide_eq_true (all c there)
    · intro unstuck
      refine ⟨accounted, result, next, acquired, free, ?_⟩
      intro none
      obtain ⟨full, busy⟩ := refused.mp none
      rcases unstuck full with ⟨c, there, idle⟩ | all
      · exact absurd idle (busy c there)
      · rw [← full]
        exact Slots.tally_eq_length_iff.mpr fun c there => decide_eq_true (all c there)
  | _ => exact ⟨fun _ => trivial, fun _ => ⟨accounted, trivial⟩⟩

theorem ConnectionPool.Fresh.sound (fresh : cp.Fresh) : Sound ∅ cp where
  accounted := ⟨by rw [fresh.active, fresh.empty]; rfl, by rw [fresh.idle, fresh.empty]; rfl⟩
  within := by
    rw [fresh.empty]
    exact Nat.zero_le _
  owned := fun _ holds => absurd holds (Finset.notMem_empty _)

theorem cpInit_fresh (host : CString) (port : Int) {maxConn : Int} (positive : 1 ≤ maxConn)
    (most : maxConn ≤ CP_MAX_CONN) :
    (cpInit host port maxConn).Fresh := by
  have size : (cpInit host port maxConn).maxConn = maxConn.toNat := if_pos positive
  exact ⟨rfl, rfl, rfl, size ▸ by omega, size ▸ by omega⟩

/-- All calls of a run are correct exactly if no connection is asked for while all slots are taken, none of them idle,
and one of them closed. -/
theorem cpAcquire_correct_iff (fresh : cp.Fresh) (depth : Nat) (calls : List PoolCall)
    (owned : Permitted (Pooled.call (depth + 1)) Holding ⟨cp, ∅⟩ calls) :
    Permitted (Pooled.call (depth + 1)) (Correct (depth + 1)) ⟨cp, ∅⟩ calls ↔
      Permitted (Pooled.call (depth + 1)) Unstuck ⟨cp, ∅⟩ calls :=
  Permitted.congr (motive := fun state => Sound state.held state.pool) calls owned fresh.sound
    (fun _ call sound _ _ => sound.call depth call) (fun _ call sound _ => sound.correct_iff depth call)

/-- A connection is acquired and released without a descriptor, and another one asked for. -/
def acquireTwice : List PoolCall := [.acquire fun _ => ⟨1, 0⟩, .release 0 true ⟨2, 0⟩, .acquire fun _ => ⟨3, 0⟩]

theorem cpAcquire_correct_two :
    Permitted (Pooled.call 1) (Correct 1) ⟨cpInit (ascii "db") 5432 2, ∅⟩ acquireTwice ↔
      Permitted (Pooled.call 1) Unstuck ⟨cpInit (ascii "db") 5432 2, ∅⟩ acquireTwice :=
  cpAcquire_correct_iff (cpInit_fresh _ _ (by decide) (by decide)) 0 acquireTwice
    ⟨trivial, Finset.mem_insert_self 0 ∅, trivial, trivial⟩

/-- The only slot is closed, and nothing is in use; still no connection is returned. -/
theorem cpAcquire_exhausted : (cpInit (ascii "db") 5432 1).Fresh ∧
    Permitted (Pooled.call 1) Holding ⟨cpInit (ascii "db") 5432 1, ∅⟩ acquireTwice ∧
    ¬Permitted (Pooled.call 1) (Correct 1) ⟨cpInit (ascii "db") 5432 1, ∅⟩ acquireTwice := by
  refine ⟨cpInit_fresh _ _ (by decide) (by decide), ⟨trivial, Finset.mem_insert_self 0 ∅, trivial, trivial⟩, ?_⟩
  intro ⟨_, _, ⟨_, result, next, acquired, _, most⟩, _⟩
  have refused := (congrArg Prod.fst (Option.some.inj acquired)).symm
  exact absurd (most refused) (by decide)

end Runs

end MiniNetDist.GatewayProxy.ConnPool
