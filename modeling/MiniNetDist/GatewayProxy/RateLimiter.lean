import MiniNetDist.Library.Fifo
import MiniNetDist.Library.Run

/-! The sliding-window limiter of `mini-gateway-proxy/src/rate_limiter.c`: a log of grants in a ring, and the window
start in unsigned arithmetic. -/

namespace MiniNetDist.GatewayProxy.RateLimiter

open Library

def RL_MAX_TIMESTAMPS : Nat := 1024

def INT_MAX : Nat := 2147483647

structure SlidingWindowLog where
  windowSizeMs : UInt64
  maxRequests : Nat
  timestamps : Nat → UInt64
  timestampCount : Nat
  head : Nat
  tail : Nat

/-- The limiter for an integral rate; the conversion of a rate that is no `int` has no defined result. -/
def rlInit (rate : Nat) (windowMs : UInt64) : Option SlidingWindowLog :=
  if rate ≤ INT_MAX then some {
    windowSizeMs := if windowMs > 0 then windowMs else 1000
    maxRequests := rate
    timestamps := fun _ => 0
    timestampCount := 0
    head := 0
    tail := 0 }
  else none

/-- The loop that gives up the timestamps before the window, by head and count. -/
def evictFrom (windowStart : UInt64) (timestamps : Nat → UInt64) : Nat → Nat → Nat × Nat
  | head, 0 => (head, 0)
  | head, count + 1 =>
    if timestamps head < windowStart then evictFrom windowStart timestamps ((head + 1) % RL_MAX_TIMESTAMPS) count
    else (head, count + 1)

def SlidingWindowLog.evict (sw : SlidingWindowLog) (windowStart : UInt64) : SlidingWindowLog :=
  let (head, count) := evictFrom windowStart sw.timestamps sw.head sw.timestampCount
  { sw with head, timestampCount := count }

def rlRefill (now : UInt64) (sw : SlidingWindowLog) : SlidingWindowLog := sw.evict (now - sw.windowSizeMs)

/-- The clock is read by `rl_refill` first, and then once more. -/
structure Readings where
  refill : UInt64
  now : UInt64
  deriving DecidableEq, Repr

def rlAllow (clock : Readings) (sw : SlidingWindowLog) : Bool × SlidingWindowLog :=
  let sw := rlRefill clock.refill sw
  let sw := sw.evict (clock.now - sw.windowSizeMs)
  if sw.timestampCount < sw.maxRequests then
    (true, { sw with
      timestamps := Function.update sw.timestamps sw.tail clock.now
      tail := (sw.tail + 1) % RL_MAX_TIMESTAMPS
      timestampCount := sw.timestampCount + 1 })
  else (false, sw)

/-- A limiter with the times of the calls that returned true and the last reading of the clock. -/
structure Limited where
  sw : SlidingWindowLog
  granted : List UInt64
  last : UInt64

def Limited.start (sw : SlidingWindowLog) : Limited := ⟨sw, [], 0⟩

def Limited.call (state : Limited) (clock : Readings) : Limited :=
  let (allowed, sw) := rlAllow clock state.sw
  { sw, granted := if allowed then state.granted ++ [clock.now] else state.granted, last := clock.now }

/-- The readings of the clock do not decrease. -/
def InOrder (state : Limited) (clock : Readings) : Prop := state.last ≤ clock.refill ∧ clock.refill ≤ clock.now
  deriving Decidable

/-- The grants in the window that ends at a time. -/
def recent (windowMs now : UInt64) (granted : List UInt64) : List UInt64 :=
  granted.filter fun time => time ≤ now ∧ now.toNat ≤ time.toNat + windowMs.toNat

/-- A call returns true if and only if fewer calls than the rate in the window did. -/
def Exact (rate : Nat) (windowMs : UInt64) (state : Limited) (clock : Readings) : Prop :=
  (rlAllow clock state.sw).1 = true ↔ (recent windowMs clock.now state.granted).length < rate
  deriving Decidable

/-- No grant of the window is lost: the window of the first reading does not begin before the clock does, and there is a
slot for one more grant. -/
def Keeps (rate : Nat) (windowMs : UInt64) (state : Limited) (clock : Readings) : Prop :=
  (windowMs ≤ clock.refill ∨ recent windowMs clock.now state.granted = []) ∧
  (rate ≤ RL_MAX_TIMESTAMPS ∨ (recent windowMs clock.now state.granted).length < RL_MAX_TIMESTAMPS)
  deriving Decidable

section Log

variable {sw : SlidingWindowLog} {items : List UInt64} {clock : Readings}

/-- The limiter holds the items in its ring. -/
structure Log (sw : SlidingWindowLog) (items : List UInt64) : Prop where
  holds : Fifo.Holds sw.timestamps RL_MAX_TIMESTAMPS sw.head items
  count : sw.timestampCount = items.length
  inside : sw.head < RL_MAX_TIMESTAMPS
  tail : sw.tail = (sw.head + items.length) % RL_MAX_TIMESTAMPS

theorem evictFrom_holds {timestamps : Nat → UInt64} {head : Nat} (windowStart : UInt64)
    (holds : Fifo.Holds timestamps RL_MAX_TIMESTAMPS head items) (inside : head < RL_MAX_TIMESTAMPS) :
    ∃ next,
      evictFrom windowStart timestamps head items.length = (next, (items.dropWhile (· < windowStart)).length) ∧
      Fifo.Holds timestamps RL_MAX_TIMESTAMPS next (items.dropWhile (· < windowStart)) ∧ next < RL_MAX_TIMESTAMPS ∧
      (next + (items.dropWhile (· < windowStart)).length) % RL_MAX_TIMESTAMPS =
        (head + items.length) % RL_MAX_TIMESTAMPS := by
  induction items generalizing head with
  | nil => exact ⟨head, rfl, holds, inside, rfl⟩
  | cons time items ih =>
    rw [List.length_cons, evictFrom, holds.front inside]
    by_cases old : time < windowStart
    · obtain ⟨next, evicted, rest, within, around⟩ := ih holds.pop (Nat.mod_lt _ (by decide))
      rw [if_pos old, List.dropWhile_cons_of_pos (by simpa using old)]
      refine ⟨next, evicted, rest, within, around.trans ?_⟩
      rw [Nat.mod_add_mod, Nat.add_assoc, Nat.add_comm 1]
    · rw [if_neg old, List.dropWhile_cons_of_neg (by simpa using old)]
      exact ⟨head, rfl, holds, inside, rfl⟩

theorem Log.evict (log : Log sw items) (windowStart : UInt64) :
    Log (sw.evict windowStart) (items.dropWhile (· < windowStart)) := by
  obtain ⟨next, evicted, rest, within, around⟩ := evictFrom_holds windowStart log.holds log.inside
  rw [SlidingWindowLog.evict, log.count, evicted]
  exact ⟨rest, rfl, within, log.tail.trans around.symm⟩

theorem Log.push (log : Log sw items) (free : items.length < RL_MAX_TIMESTAMPS) (now : UInt64) :
    Log { sw with
      timestamps := Function.update sw.timestamps sw.tail now
      tail := (sw.tail + 1) % RL_MAX_TIMESTAMPS
      timestampCount := sw.timestampCount + 1 } (items ++ [now]) where
  holds := by
    rw [log.tail]
    exact log.holds.push free now
  count := by rw [log.count, List.length_append, List.length_singleton]
  inside := log.inside
  tail := by rw [log.tail, Nat.mod_add_mod, List.length_append, List.length_singleton, Nat.add_assoc]

end Log

section Calls

variable {rate : Nat} {windowMs : UInt64} {sw : SlidingWindowLog} {state : Limited} {clock : Readings}
  {items : List UInt64}

/-- With the clock before the window size the window start wraps around, and is later than every reading so far. -/
theorem windowStart_toNat (now windowMs : UInt64) :
    (now - windowMs).toNat =
      if windowMs.toNat ≤ now.toNat then now.toNat - windowMs.toNat else 2 ^ 64 - windowMs.toNat + now.toNat := by
  have small := now.toNat_lt
  have size := windowMs.toNat_lt
  rw [UInt64.toNat_sub]
  split <;> omega

/-- What both evictions leave of the log is what lies in the window, if no grant of the window is lost. -/
theorem evicted_eq_recent (sorted : items.Pairwise (· ≤ ·)) (past : ∀ time ∈ items, time ≤ clock.refill)
    (ordered : clock.refill ≤ clock.now) (kept : windowMs ≤ clock.refill ∨ recent windowMs clock.now items = []) :
    (items.dropWhile (· < clock.refill - windowMs)).dropWhile (· < clock.now - windowMs) =
      recent windowMs clock.now items := by
  have goes (start : UInt64) {some : List UInt64} (ascending : some.Pairwise (· ≤ ·)) :
      some.dropWhile (· < start) = some.filter fun time => !decide (time < start) := by
    apply Fifo.dropWhile_eq_filter
    refine ascending.imp ?_
    intro older newer before
    simp only [decide_eq_true_eq]
    exact fun stale => UInt64.lt_of_le_of_lt before stale
  rw [goes _ sorted, goes _ (sorted.sublist List.filter_sublist), List.filter_filter, recent]
  apply List.filter_congr
  intro time held
  have before := UInt64.le_iff_toNat_le.mp (past time held)
  have later := UInt64.le_iff_toNat_le.mp ordered
  have size := windowMs.toNat_lt
  rw [Bool.eq_iff_iff]
  simp only [Bool.and_eq_true, Bool.not_eq_true', decide_eq_false_iff_not, decide_eq_true_eq, UInt64.lt_iff_toNat_lt,
    UInt64.le_iff_toNat_le, windowStart_toNat, Nat.not_lt]
  rcases kept with inside | none
  · have first := UInt64.le_iff_toNat_le.mp inside
    rw [if_pos first, if_pos (Nat.le_trans first later)]
    omega
  · have outside := List.filter_eq_nil_iff.mp none time held
    simp only [decide_eq_true_eq, UInt64.le_iff_toNat_le] at outside
    split <;> split <;> omega

/-- What lies in a later window lay in the earlier one. -/
theorem recent_recent {now later : UInt64} (past : ∀ time ∈ items, time ≤ now) (ordered : now ≤ later) :
    recent windowMs later (recent windowMs now items) = recent windowMs later items := by
  rw [recent, recent, List.filter_filter, recent]
  apply List.filter_congr
  intro time held
  have before := UInt64.le_iff_toNat_le.mp (past time held)
  have onward := UInt64.le_iff_toNat_le.mp ordered
  rw [Bool.eq_iff_iff]
  simp only [Bool.and_eq_true, decide_eq_true_eq, UInt64.le_iff_toNat_le]
  omega

theorem recent_append (now : UInt64) (items more : List UInt64) :
    recent windowMs now (items ++ more) = recent windowMs now items ++ recent windowMs now more :=
  List.filter_append ..

/-- The limiter has logged the grants of every window to come. -/
structure Limited.Accurate (rate : Nat) (windowMs : UInt64) (state : Limited) : Prop where
  window : state.sw.windowSizeMs = windowMs
  limit : state.sw.maxRequests = rate
  sorted : state.granted.Pairwise (· ≤ ·)
  past : ∀ time ∈ state.granted, time ≤ state.last
  logged : ∃ items, Log state.sw items ∧ items.Sublist state.granted ∧
    ∀ now, state.last ≤ now → recent windowMs now state.granted = recent windowMs now items

/-- The log when the limiter decides. -/
theorem Limited.Accurate.evicted (accurate : state.Accurate rate windowMs) (ordered : InOrder state clock)
    (keeps : Keeps rate windowMs state clock) :
    Log ((rlRefill clock.refill state.sw).evict (clock.now - windowMs)) (recent windowMs clock.now state.granted) := by
  obtain ⟨items, log, part, same⟩ := accurate.logged
  have onward : state.last ≤ clock.now := UInt64.le_trans ordered.1 ordered.2
  have past : ∀ time ∈ items, time ≤ clock.refill :=
    fun time held => UInt64.le_trans (accurate.past time (part.subset held)) ordered.1
  have kept := keeps.1
  rw [same clock.now onward] at kept ⊢
  rw [← evicted_eq_recent (accurate.sorted.sublist part) past ordered.2 kept, rlRefill, accurate.window]
  exact (log.evict _).evict _

theorem rlAllow_of_evicted (sized : sw.windowSizeMs = windowMs) (limit : sw.maxRequests = rate)
    (log : Log ((rlRefill clock.refill sw).evict (clock.now - windowMs)) items) :
    (rlAllow clock sw).1 = decide (items.length < rate) ∧ (rlAllow clock sw).2.windowSizeMs = windowMs ∧
      (rlAllow clock sw).2.maxRequests = rate ∧
      ((items.length < rate → items.length < RL_MAX_TIMESTAMPS) →
        Log (rlAllow clock sw).2 (if items.length < rate then items ++ [clock.now] else items)) := by
  have size : (rlRefill clock.refill sw).windowSizeMs = windowMs := sized
  have most : ((rlRefill clock.refill sw).evict (clock.now - windowMs)).maxRequests = rate := limit
  have agree : ((rlRefill clock.refill sw).evict (clock.now - windowMs)).timestampCount <
      ((rlRefill clock.refill sw).evict (clock.now - windowMs)).maxRequests ↔ items.length < rate := by
    rw [log.count, most]
  rw [rlAllow, size]
  by_cases room : items.length < rate
  · simp only [if_pos room, if_pos (agree.mpr room)]
    exact ⟨(decide_eq_true room).symm, size, most, fun free => log.push (free room) clock.now⟩
  · simp only [if_neg room, if_neg (mt agree.mp room)]
    exact ⟨(decide_eq_false room).symm, size, most, fun _ => log⟩

/-- One call. -/
theorem Limited.Accurate.call (accurate : state.Accurate rate windowMs) (ordered : InOrder state clock)
    (keeps : Keeps rate windowMs state clock) :
    Exact rate windowMs state clock ∧ (state.call clock).Accurate rate windowMs := by
  have log := accurate.evicted ordered keeps
  obtain ⟨allowed, window, limit, next⟩ := rlAllow_of_evicted accurate.window accurate.limit log
  have onward : state.last ≤ clock.now := UInt64.le_trans ordered.1 ordered.2
  have past : ∀ time ∈ state.granted, time ≤ clock.now :=
    fun time held => UInt64.le_trans (accurate.past time held) onward
  refine ⟨by rw [Exact, allowed, decide_eq_true_eq], ?_⟩
  have after := next fun room => keeps.2.elim (Nat.lt_of_lt_of_le room) id
  have granted : (state.call clock).granted =
      if (recent windowMs clock.now state.granted).length < rate then state.granted ++ [clock.now]
      else state.granted := by
    rw [Limited.call]
    dsimp only
    rw [allowed]
    simp only [decide_eq_true_eq]
  refine ⟨window, limit, ?_, ?_, _, after, ?_, ?_⟩
  · rw [granted]
    split
    · refine List.pairwise_append.mpr ⟨accurate.sorted, List.pairwise_singleton _ _, ?_⟩
      intro time held last single
      rw [List.mem_singleton.mp single]
      exact past time held
    · exact accurate.sorted
  · intro time held
    rw [granted] at held
    split at held
    · rcases List.mem_append.mp held with earlier | single
      · exact past time earlier
      · rw [List.mem_singleton.mp single]
        exact UInt64.le_refl _
    · exact past time held
  · rw [granted]
    split
    · exact List.filter_sublist.append (List.Sublist.refl _)
    · exact List.filter_sublist
  · intro later ahead
    have same : recent windowMs later (recent windowMs clock.now state.granted) = recent windowMs later state.granted :=
      recent_recent past ahead
    rw [granted]
    split
    · rw [recent_append, recent_append, same]
    · exact same.symm

theorem accurate_start (init : rlInit rate windowMs = some sw) (positive : 0 < windowMs) :
    (Limited.start sw).Accurate rate windowMs := by
  simp only [rlInit, gt_iff_lt, if_pos positive, Option.ite_none_right_eq_some, Option.some.injEq] at init
  obtain ⟨-, rfl⟩ := init
  have log : Log ⟨windowMs, rate, fun _ => 0, 0, 0, 0⟩ [] :=
    ⟨.empty _ _ _, rfl, (by decide : 0 < RL_MAX_TIMESTAMPS), rfl⟩
  exact ⟨rfl, rfl, .nil, (fun _ held => nomatch held), [], log, .refl _, fun _ _ => rfl⟩

theorem Limited.Accurate.exact (accurate : state.Accurate rate windowMs) (calls : List Readings)
    (ordered : Permitted Limited.call InOrder state calls)
    (keeps : Permitted Limited.call (Keeps rate windowMs) state calls) :
    Permitted Limited.call (Exact rate windowMs) state calls := by
  induction calls generalizing state with
  | nil => trivial
  | cons clock calls ih =>
    obtain ⟨exactly, next⟩ := accurate.call ordered.1 keeps.1
    exact ⟨exactly, ih next ordered.2 keeps.2⟩

/-- The limit is exact in every run in which no grant of a window is lost. -/
theorem rlAllow_exact (init : rlInit rate windowMs = some sw) (positive : 0 < windowMs) (calls : List Readings)
    (ordered : Permitted Limited.call InOrder (.start sw) calls)
    (keeps : Permitted Limited.call (Keeps rate windowMs) (.start sw) calls) :
    Permitted Limited.call (Exact rate windowMs) (.start sw) calls :=
  (accurate_start init positive).exact calls ordered keeps

/-- One request a second. -/
def oneASecond : SlidingWindowLog := ⟨1000, 1, fun _ => 0, 0, 0, 0⟩

theorem rlAllow_exact_oneASecond :
    Permitted Limited.call (Exact 1 1000) (.start oneASecond) [⟨1200, 1200⟩, ⟨1700, 1701⟩, ⟨2201, 2201⟩] :=
  rlAllow_exact rfl (by decide) _ (by decide) (by decide)

/-- Within the first second of the clock, the second request of a window is let through. -/
theorem rlAllow_twice : rlInit 1 1000 = some oneASecond ∧
    Permitted Limited.call InOrder (.start oneASecond) [⟨500, 500⟩, ⟨600, 600⟩] ∧
    ¬Permitted Limited.call (Exact 1 1000) (.start oneASecond) [⟨500, 500⟩, ⟨600, 600⟩] :=
  ⟨rfl, by decide, by decide⟩

end Calls

end MiniNetDist.GatewayProxy.RateLimiter
