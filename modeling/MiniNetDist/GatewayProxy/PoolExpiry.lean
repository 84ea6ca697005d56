import Mathlib.Algebra.Group.Int.Defs
import MiniNetDist.GatewayProxy.ConnectionPool

/-! Idle and old connections in `mini-gateway-proxy/src/connection_pool.c`. The seconds and the nanoseconds of two clock
readings are subtracted apart and converted to `uint64_t`, so a negative difference of nanoseconds counts for about
584 years. -/

namespace MiniNetDist.GatewayProxy.ConnPool

open Library

variable {start now : Timespec} {limit : Int} {c : CPConnection} {cp : ConnectionPool}

section Clock

/-- Nanoseconds between two readings. -/
def elapsedNs (start now : Timespec) : Int :=
  (now.tvSec - start.tvSec) * 1000000000 + (now.tvNsec - start.tvNsec)

/-- Two readings of a clock, the second one not earlier than the first. -/
structure Dated (start now : Timespec) : Prop where
  startNonneg : 0 ≤ start.tvNsec
  startLt : start.tvNsec < 1000000000
  nowNonneg : 0 ≤ now.tvNsec
  nowLt : now.tvNsec < 1000000000
  notEarlier : 0 ≤ elapsedNs start now

/-- The values of an `int`. -/
def IsInt (limit : Int) : Prop := -2 ^ 31 ≤ limit ∧ limit < 2 ^ 31

/-- The milliseconds that the code adds up, before the sum is cut to 64 bits. -/
def summedMs (start now : Timespec) : Int :=
  (now.tvSec - start.tvSec) * 1000 + (now.tvNsec - start.tvNsec) % 2 ^ 64 / 1000000

/-- A decision that what began at `start` is `limit` milliseconds old, right up to one millisecond. -/
def Judged (old : Prop) (limit : Int) (start now : Timespec) : Prop :=
  (old → (limit - 1) * 1000000 ≤ elapsedNs start now) ∧ (¬old → elapsedNs start now < (limit + 1) * 1000000)

/-- No borrow from the seconds, unless it is due anyway. A limit below zero is a large number for the code, and sums
from 2^64 on are cut, so there the comparison in 64 bits has to come out true. -/
def Measured (limit : Int) (start now : Timespec) : Prop :=
  if 0 ≤ limit ∧ summedMs start now < 2 ^ 64 then
    start.tvNsec ≤ now.tvNsec ∨ (limit - 1) * 1000000 ≤ elapsedNs start now
  else limit % 2 ^ 64 ≤ summedMs start now % 2 ^ 64

theorem toNat_ofInt (number : Int) : ((UInt64.ofInt number).toNat : Int) = number % 2 ^ 64 := by
  rw [UInt64.ofInt, UInt64.toNat_ofNat']
  omega

theorem toNat_spanMs (start now : Timespec) : ((spanMs start now).toNat : Int) = summedMs start now % 2 ^ 64 := by
  have sec := toNat_ofInt (now.tvSec - start.tvSec)
  have nsec := toNat_ofInt (now.tvNsec - start.tvNsec)
  rw [spanMs, UInt64.toNat_add, UInt64.toNat_mul, UInt64.toNat_div, summedMs]
  have thousand : (1000 : UInt64).toNat = 1000 := rfl
  have million : (1000000 : UInt64).toNat = 1000000 := rfl
  rw [thousand, million]
  omega

theorem ofInt_le_spanMs_iff :
    UInt64.ofInt limit ≤ spanMs start now ↔ limit % 2 ^ 64 ≤ summedMs start now % 2 ^ 64 := by
  rw [UInt64.le_iff_toNat_le, ← toNat_spanMs, ← toNat_ofInt, Int.ofNat_le]

theorem summedMs_nonneg (dated : Dated start now) : 0 ≤ summedMs start now := by
  obtain ⟨_, _, _, _, notEarlier⟩ := dated
  unfold elapsedNs at notEarlier
  unfold summedMs
  omega

/-- Without a borrow the sum is the elapsed time. -/
theorem summedMs_eq (dated : Dated start now) (plain : start.tvNsec ≤ now.tvNsec) :
    summedMs start now = elapsedNs start now / 1000000 := by
  obtain ⟨_, _, _, _, _⟩ := dated
  unfold summedMs elapsedNs
  omega

/-- With a borrow it is larger than every limit. -/
theorem summedMs_borrow (dated : Dated start now) (ranged : IsInt limit) (borrow : now.tvNsec < start.tvNsec) :
    limit ≤ summedMs start now := by
  obtain ⟨_, _, _, _, notEarlier⟩ := dated
  obtain ⟨_, _⟩ := ranged
  unfold elapsedNs at notEarlier
  unfold summedMs
  omega

/-- Sums that are cut belong to times that are longer than every limit. -/
theorem elapsedNs_cut (dated : Dated start now) (ranged : IsInt limit) (large : 2 ^ 64 ≤ summedMs start now) :
    (limit + 1) * 1000000 ≤ elapsedNs start now := by
  obtain ⟨_, _, _, _, notEarlier⟩ := dated
  obtain ⟨_, _⟩ := ranged
  unfold summedMs at large
  unfold elapsedNs at notEarlier ⊢
  omega

theorem judged_iff (dated : Dated start now) (ranged : IsInt limit) :
    Judged (UInt64.ofInt limit ≤ spanMs start now) limit start now ↔ Measured limit start now := by
  by_cases small : 0 ≤ limit ∧ summedMs start now < 2 ^ 64
  · rw [Measured, if_pos small]
    have positive : 0 ≤ summedMs start now := summedMs_nonneg dated
    have old : UInt64.ofInt limit ≤ spanMs start now ↔ limit ≤ summedMs start now := by
      have below := ranged.2
      rw [ofInt_le_spanMs_iff]
      omega
    rw [Judged, old]
    by_cases plain : start.tvNsec ≤ now.tvNsec
    · have exact := summedMs_eq dated plain
      simp only [plain, true_or, iff_true]
      omega
    · have always := summedMs_borrow dated ranged (Int.not_le.mp plain)
      simp [plain, always]
  · rw [Measured, if_neg small, ← ofInt_le_spanMs_iff]
    -- long overdue, so the connection has to be closed
    have late : (limit + 1) * 1000000 ≤ elapsedNs start now := by
      have notEarlier := dated.notEarlier
      by_cases below : limit < 0
      · omega
      · exact elapsedNs_cut dated ranged (by omega)
    constructor
    · intro ⟨_, left⟩
      by_contra young
      exact absurd late (Int.not_le.mpr (left young))
    · intro old
      exact ⟨fun _ => by omega, fun young => absurd old young⟩

end Clock

section Closing

/-- A connection after it was closed. -/
def CPConnection.closed (c : CPConnection) : CPConnection := { c with fd := -1, state := .closing }

/-- A round deals with one slot. -/
theorem closeIf_connections (due : CPConnection → Bool) (swept : Int × ConnectionPool) (i j : Nat) :
    (closeIf due swept i).2.connections[j]? =
      if j = i then swept.2.connections[j]?.map fun c => if due c then c.closed else c
      else swept.2.connections[j]? := by
  rw [closeIf]
  cases slot : swept.2.connections[i]? with
  | none =>
    by_cases here : j = i
    · simp [here, slot]
    · simp [here]
  | some c =>
    have inside : i < swept.2.connections.length := (List.getElem?_eq_some_iff.mp slot).1
    cases decision : due c with
    | false =>
      simp only [decision, Bool.false_eq_true, if_false]
      by_cases here : j = i
      · simp [here, slot, decision]
      · simp [here]
    | true =>
      simp only [decision, if_true]
      change (swept.2.connections.set i c.closed)[j]? = _
      by_cases here : j = i
      · rw [here, List.getElem?_set_self inside, if_pos rfl, slot, Option.map_some, decision, if_pos rfl]
      · rw [List.getElem?_set_ne (Ne.symm here), if_neg here]

/-- After any number of rounds, the slots passed have been dealt with and the others are as they were. -/
theorem closeIf_rounds (due : CPConnection → Bool) (cp : ConnectionPool) (rounds i : Nat) :
    ((List.range rounds).foldl (closeIf due) (0, cp)).2.connections[i]? =
      if i < rounds then cp.connections[i]?.map fun c => if due c then c.closed else c else cp.connections[i]? := by
  induction rounds with
  | zero => rfl
  | succ rounds ih =>
    rw [List.range_succ, List.foldl_concat, closeIf_connections, ih]
    by_cases current : i = rounds
    · simp [current]
    · have passed : i < rounds + 1 ↔ i < rounds := by omega
      simp [current, passed]

/-- The loop closes the connections that are due, and no others. -/
theorem closeAll_connections (due : CPConnection → Bool) (cp : ConnectionPool) :
    (closeAll due cp).2.connections = cp.connections.map fun c => if due c then c.closed else c := by
  apply List.ext_getElem?
  intro i
  rw [closeAll, closeIf_rounds, List.getElem?_map]
  split
  · rfl
  · rename_i past
    rw [List.getElem?_eq_none (Nat.le_of_not_lt past)]
    rfl

/-- What is eligible and about as old as the limit or older is closed, and everything else stays as it is. -/
def ClosesExactly (eligible : CPConnection → Bool) (start : CPConnection → Timespec) (limit : Int) (now : Timespec)
    (before after : List CPConnection) : Prop :=
  after.length = before.length ∧ ∀ (i : Nat) (c : CPConnection), before[i]? = some c →
    (eligible c = true →
      (after[i]? = some c.closed ∧ (limit - 1) * 1000000 ≤ elapsedNs (start c) now) ∨
        (after[i]? = some c ∧ elapsedNs (start c) now < (limit + 1) * 1000000)) ∧
    (eligible c = false → after[i]? = some c)

theorem closesExactly_iff {eligible : CPConnection → Bool} {startOf : CPConnection → Timespec}
    (unclosed : ∀ c, eligible c = true → c.state ≠ .closing) (limit : Int) (now : Timespec) (cp : ConnectionPool) :
    ClosesExactly eligible startOf limit now cp.connections
        (closeAll (fun c => eligible c && decide (spanMs (startOf c) now ≥ .ofInt limit)) cp).2.connections ↔
      ∀ c ∈ cp.connections, eligible c = true →
        Judged (UInt64.ofInt limit ≤ spanMs (startOf c) now) limit (startOf c) now := by
  rw [closeAll_connections, ClosesExactly, List.length_map]
  constructor
  · intro ⟨_, exact⟩ c member held
    obtain ⟨i, slot⟩ := List.mem_iff_getElem?.mp member
    have fate := (exact i c slot).1 held
    rw [List.getElem?_map, slot, Option.map_some] at fate
    have changed : c.closed ≠ c := fun same => unclosed c held (congrArg CPConnection.state same).symm
    by_cases old : UInt64.ofInt limit ≤ spanMs (startOf c) now
    · simp [held, old, changed] at fate
      exact ⟨fun _ => fate, fun young => absurd old young⟩
    · simp [held, old, changed.symm] at fate
      exact ⟨fun due => absurd due old, fun _ => fate⟩
  · intro judged
    refine ⟨rfl, ?_⟩
    intro i c slot
    rw [List.getElem?_map, slot, Option.map_some]
    constructor
    · intro held
      obtain ⟨enough, short⟩ := judged c (List.mem_of_getElem? slot) held
      by_cases old : UInt64.ofInt limit ≤ spanMs (startOf c) now
      · exact .inl ⟨by simp [held, old], enough old⟩
      · exact .inr ⟨by simp [held, old], short old⟩
    · intro other
      simp [other]

end Closing

def CPConnection.isLive (c : CPConnection) : Bool := c.state ≠ .closing && c.state ≠ .error

/-- Idle and old connections are closed as they should be exactly if the time of each of them is measured. -/
theorem cpExpiry_exact_iff (now : Timespec) (cp : ConnectionPool) (idleLimit : IsInt cp.maxIdleMs)
    (lifetimeLimit : IsInt cp.maxLifetimeMs)
    (idle : ∀ c ∈ cp.connections, c.isIdle = true → Dated c.idleStart now)
    (live : ∀ c ∈ cp.connections, c.isLive = true → Dated c.createdAt now) :
    (ClosesExactly CPConnection.isIdle CPConnection.idleStart cp.maxIdleMs now cp.connections
        (cpCloseIdle now cp).2.connections ↔
      ∀ c ∈ cp.connections, c.isIdle = true → Measured cp.maxIdleMs c.idleStart now) ∧
    (ClosesExactly CPConnection.isLive CPConnection.createdAt cp.maxLifetimeMs now cp.connections
        (cpCloseExpired now cp).2.connections ↔
      ∀ c ∈ cp.connections, c.isLive = true → Measured cp.maxLifetimeMs c.createdAt now) := by
  have idleOpen : ∀ c : CPConnection, c.isIdle = true → c.state ≠ .closing := by
    intro c held
    simp only [CPConnection.isIdle, decide_eq_true_eq] at held
    rw [held]
    decide
  have liveOpen : ∀ c : CPConnection, c.isLive = true → c.state ≠ .closing := by
    intro c held
    simp only [CPConnection.isLive, Bool.and_eq_true, decide_eq_true_eq] at held
    exact held.1
  constructor
  · refine (closesExactly_iff idleOpen cp.maxIdleMs now cp).trans ?_
    exact forall₃_congr fun c member held => judged_iff (idle c member held) idleLimit
  · refine (closesExactly_iff liveOpen cp.maxLifetimeMs now cp).trans ?_
    exact forall₃_congr fun c member held => judged_iff (live c member held) lifetimeLimit

/-- A pool with one idle connection, which was opened and released within the sixth second. -/
def releasedPool : ConnectionPool :=
  let cp := cpInit (ascii "backend") 8080 4
  let cp := (cpAcquire 1 (fun _ => ⟨5, 500000000⟩) cp).elim cp Prod.snd
  (cpRelease 0 true ⟨5, 999999999⟩ (useConnection 0 7 1 cp)).2

def releasedConnection : CPConnection where
  fd := 7
  host := ascii "backend"
  port := 8080
  state := .idle
  createdAt := ⟨5, 500000000⟩
  lastUsed := ⟨5, 500000000⟩
  idleStart := ⟨5, 999999999⟩
  requestCount := 1
  keepAlive := true

theorem releasedPool_connections : releasedPool.connections = [releasedConnection] := rfl

/-- A minute and five seconds later the connection has been idle for too long. -/
theorem releasedPool_minute :
    ClosesExactly CPConnection.isIdle CPConnection.idleStart 60000 ⟨70, 999999999⟩ releasedPool.connections
        (cpCloseIdle ⟨70, 999999999⟩ releasedPool).2.connections ∧
      ClosesExactly CPConnection.isLive CPConnection.createdAt 3600000 ⟨70, 999999999⟩ releasedPool.connections
        (cpCloseExpired ⟨70, 999999999⟩ releasedPool).2.connections := by
  have only {claim : CPConnection → Prop} (holds : claim releasedConnection) :
      ∀ c ∈ releasedPool.connections, claim c := by
    rw [releasedPool_connections]
    exact List.forall_mem_singleton.mpr holds
  have exact := cpExpiry_exact_iff ⟨70, 999999999⟩ releasedPool ⟨by decide, by decide⟩ ⟨by decide, by decide⟩
    (only fun _ => ⟨by decide, by decide, by decide, by decide, by decide⟩)
    (only fun _ => ⟨by decide, by decide, by decide, by decide, by decide⟩)
  refine ⟨exact.1.mpr (only ?_), exact.2.mpr (only ?_)⟩ <;>
  · intro _
    rw [Measured, if_pos ⟨by decide, by decide⟩]
    exact .inl (by decide)

/-- One nanosecond after its release, and half a second after it was opened, the connection is closed by both. -/
theorem releasedPool_nanosecond :
    Dated ⟨5, 999999999⟩ ⟨6, 0⟩ ∧ Dated ⟨5, 500000000⟩ ⟨6, 0⟩ ∧ elapsedNs ⟨5, 999999999⟩ ⟨6, 0⟩ = 1 ∧
      ¬ClosesExactly CPConnection.isIdle CPConnection.idleStart 60000 ⟨6, 0⟩ releasedPool.connections
        (cpCloseIdle ⟨6, 0⟩ releasedPool).2.connections ∧
      ¬ClosesExactly CPConnection.isLive CPConnection.createdAt 3600000 ⟨6, 0⟩ releasedPool.connections
        (cpCloseExpired ⟨6, 0⟩ releasedPool).2.connections := by
  refine ⟨⟨by decide, by decide, by decide, by decide, by decide⟩,
    ⟨by decide, by decide, by decide, by decide, by decide⟩, rfl, ?_, ?_⟩ <;>
  · intro ⟨_, exact⟩
    rcases (exact 0 releasedConnection rfl).1 rfl with ⟨_, early⟩ | ⟨left, _⟩
    · exact absurd early (by decide)
    · exact absurd left (by decide)

end MiniNetDist.GatewayProxy.ConnPool
