import MiniNetDist.GatewayProxy.CircuitBreaker

/-! When a circuit breaker can close again: its probes are limited by one number and asked for by another. -/

namespace MiniNetDist.GatewayProxy.CircuitBreaker

/-- A breaker from `cb_init`, adjusted by `cb_set_half_open_max` or as it was created. -/
def cbAdjusted (failureThreshold successThreshold : Int) (timeoutMs : UInt64) (adjusted : Option Int) : CBCircuit :=
  match adjusted with
  | some maxRequests => cbSetHalfOpenMax (cbInit failureThreshold successThreshold timeoutMs) maxRequests
  | none => cbInit failureThreshold successThreshold timeoutMs

/-- A call with what its function returns and the readings of the clock around it. -/
structure CBCallInput where
  ret : Int
  now : Timespec
  clock : Timespec
  deriving DecidableEq, Repr

def cbCalls (cb : CBCircuit) (calls : List CBCallInput) : CBCircuit :=
  calls.foldl (fun cb call => (cbCall cb call.ret call.now call.clock).1) cb

/-- Calls that the breaker sees after its timeout, and whose functions succeed. -/
def SucceedLater (cb : CBCircuit) (calls : List CBCallInput) : Prop :=
  ∀ call ∈ calls, call.ret = 0 ∧ cb.timeoutMs ≤ elapsedMs cb.openedAt call.now

/-- So many successful calls after the timeout close the breaker. -/
def Recoverable (cb : CBCircuit) : Prop :=
  ∃ k, ∀ calls : List CBCallInput, calls.length = k → SucceedLater cb calls → (cbCalls cb calls).state = .closed

section Waiting

variable {start now : Timespec} {timeoutMs : UInt64}

/-- Waiting for the timeout is enough for the breaker to see it, as long as the milliseconds fit their type. -/
theorem le_elapsedMs (fits : now.millis < 2 ^ 64) (waited : start.nanos + timeoutMs.toNat * 1000000 ≤ now.nanos) :
    timeoutMs ≤ elapsedMs start now := by
  have first := toNat_timespecToMs start
  have second := toNat_timespecToMs now
  have later : start.millis + timeoutMs.toNat ≤ now.millis := by
    unfold Timespec.millis
    omega
  rw [Nat.mod_eq_of_lt fits] at second
  rw [Nat.mod_eq_of_lt (Nat.lt_of_le_of_lt (Nat.le_trans (Nat.le_add_right _ _) later) fits)] at first
  unfold elapsedMs
  simp only [gt_iff_lt, UInt64.lt_iff_toNat_lt, UInt64.le_iff_toNat_le, first, second]
  split_ifs with after
  · rw [UInt64.toNat_sub_of_le _ _ (UInt64.le_iff_toNat_le.mpr (by omega)), first, second]
    omega
  · have zero : timeoutMs.toNat = 0 := by omega
    exact Nat.le_of_eq zero

/-- The clock of a breaker that was opened at its start reaches the timeout. -/
theorem exists_waited (timeoutMs : UInt64) : ∃ now, timeoutMs ≤ elapsedMs ⟨0, 0⟩ now := by
  have below : timeoutMs.toNat < 2 ^ 64 := timeoutMs.toNat_lt
  have nanos : (⟨timeoutMs / 1000, timeoutMs % 1000 * 1000000⟩ : Timespec).nanos = timeoutMs.toNat * 1000000 := by
    unfold Timespec.nanos
    rw [UInt64.toNat_div, UInt64.toNat_mul, UInt64.toNat_mod]
    simp only [UInt64.reduceToNat]
    omega
  refine ⟨⟨timeoutMs / 1000, timeoutMs % 1000 * 1000000⟩, le_elapsedMs ?_ ?_⟩
  · unfold Timespec.millis
    rw [nanos]
    omega
  · rw [nanos]
    show 0 + timeoutMs.toNat * 1000000 ≤ _
    omega

end Waiting

section Probes

variable {cb : CBCircuit} {ret : Int} {now clock : Timespec} {calls : List CBCallInput}

theorem cbCalls_cons (cb : CBCircuit) (call : CBCallInput) (calls : List CBCallInput) :
    cbCalls cb (call :: calls) = cbCalls (cbCall cb call.ret call.now call.clock).1 calls := rfl

/-- The half-open breaker has let as many calls pass as have succeeded. -/
structure Balanced (cb : CBCircuit) : Prop where
  equal : cb.state = .halfOpen → cb.halfOpenCurrentRequests = cb.successCountInHalfOpen
  below : cb.state = .halfOpen → cb.successCountInHalfOpen < cb.successThreshold

theorem balanced_of_ne (other : cb.state ≠ .halfOpen) : Balanced cb :=
  ⟨fun half => absurd half other, fun half => absurd half other⟩

theorem balanced_returned_closed (shut : cb.state = .closed) : Balanced (cbReturned cb ret clock) := by
  apply balanced_of_ne
  unfold cbReturned cbOnSuccess cbOnFailure
  rw [shut]
  simp only
  split_ifs <;> simp

/-- A probe keeps the balance: the breaker counts its success, or is not half open any more. -/
theorem balanced_returned_halfOpen (half : cb.state = .halfOpen)
    (equal : cb.halfOpenCurrentRequests = cb.successCountInHalfOpen + 1) : Balanced (cbReturned cb ret clock) := by
  by_cases success : ret = 0
  · by_cases enough : cb.successCountInHalfOpen + 1 ≥ cb.successThreshold
    · exact balanced_of_ne (by simp [cbReturned, cbOnSuccess, half, success, enough])
    · have stays : cbReturned cb ret clock = { cb with successCountInHalfOpen := cb.successCountInHalfOpen + 1 } := by
        simp [cbReturned, cbOnSuccess, half, success, enough]
      rw [stays]
      exact ⟨fun _ => equal, fun _ => Int.not_le.mp enough⟩
  · exact balanced_of_ne (by simp [cbReturned, cbOnFailure, half, success])

theorem Balanced.call (balanced : Balanced cb) (ret : Int) (now clock : Timespec) :
    Balanced (cbCall cb ret now clock).1 := by
  unfold cbCall
  cases state : cb.state with
  | closed => exact balanced_returned_closed state
  | opened =>
    simp only
    split_ifs
    · exact balanced_returned_halfOpen rfl rfl
    · exact balanced
  | halfOpen =>
    simp only
    split_ifs
    · exact balanced
    · exact balanced_returned_halfOpen rfl (congrArg (· + 1) (balanced.equal state))

/-- After any calls. -/
theorem Balanced.run (balanced : Balanced cb) (calls : List CBCallInput) :
    Balanced (cbCalls cb calls) ∧ (cbCalls cb calls).config = cb.config := by
  induction calls generalizing cb with
  | nil => exact ⟨balanced, rfl⟩
  | cons call rest ih =>
    obtain ⟨kept, same⟩ := ih (balanced.call call.ret call.now call.clock)
    exact ⟨kept, same.trans (config_cbCall cb call.ret call.now call.clock)⟩

/-- Successes do not open a closed breaker. -/
theorem closed_of_closed (shut : cb.state = .closed) (success : ∀ call ∈ calls, call.ret = 0) :
    (cbCalls cb calls).state = .closed := by
  induction calls generalizing cb with
  | nil => exact shut
  | cons call rest ih =>
    have zero := success call List.mem_cons_self
    refine ih ?_ fun call inside => success call (List.mem_cons_of_mem _ inside)
    simp [cbCall, cbReturned, cbOnSuccess, shut, zero]

/-- Where the budget is at least the number of successes asked for, these close a half-open breaker. -/
theorem closed_of_halfOpen (balanced : Balanced cb) (half : cb.state = .halfOpen)
    (budget : cb.successThreshold ≤ cb.halfOpenMaxRequests) (success : ∀ call ∈ calls, call.ret = 0)
    (enough : cb.successThreshold ≤ cb.successCountInHalfOpen + calls.length) :
    (cbCalls cb calls).state = .closed := by
  have below := balanced.below half
  have equal := balanced.equal half
  induction calls generalizing cb with
  | nil =>
    simp only [List.length_nil] at enough
    omega
  | cons call rest ih =>
    rw [List.length_cons] at enough
    have zero := success call List.mem_cons_self
    have later : ∀ call ∈ rest, call.ret = 0 := fun call inside => success call (List.mem_cons_of_mem _ inside)
    have kept := balanced.call call.ret call.now call.clock
    have within : ¬ cb.halfOpenCurrentRequests ≥ cb.halfOpenMaxRequests := by omega
    rw [cbCalls_cons]
    by_cases last : cb.successCountInHalfOpen + 1 ≥ cb.successThreshold
    · refine closed_of_closed ?_ later
      simp [cbCall, cbReturned, cbOnSuccess, half, within, zero, last]
    · have called : (cbCall cb call.ret call.now call.clock).1 = { cb with
          halfOpenCurrentRequests := cb.halfOpenCurrentRequests + 1
          successCountInHalfOpen := cb.successCountInHalfOpen + 1 } := by
        simp [cbCall, cbReturned, cbOnSuccess, half, within, zero, last]
      rw [called] at kept ⊢
      refine ih kept half budget later ?_ (Int.not_le.mp last) ?_
      · simp only
        omega
      · simp only
        omega

/-- From any balanced state, the successes asked for are calls enough. -/
theorem Balanced.recoverable (balanced : Balanced cb) (positive : 0 < cb.successThreshold)
    (budget : cb.successThreshold ≤ cb.halfOpenMaxRequests) : Recoverable cb := by
  refine ⟨cb.successThreshold.toNat + (cb.successThreshold - cb.successCountInHalfOpen).toNat,
    fun calls length later => ?_⟩
  have success : ∀ call ∈ calls, call.ret = 0 := fun call inside => (later call inside).1
  cases state : cb.state with
  | closed => exact closed_of_closed state success
  | halfOpen => exact closed_of_halfOpen balanced state budget success (by omega)
  | opened =>
    cases calls with
    | nil =>
      simp only [List.length_nil] at length
      omega
    | cons call rest =>
      obtain ⟨zero, waited⟩ := later call List.mem_cons_self
      have others : ∀ call ∈ rest, call.ret = 0 := fun call inside => success call (List.mem_cons_of_mem _ inside)
      have kept := balanced.call call.ret call.now call.clock
      rw [List.length_cons] at length
      rw [cbCalls_cons]
      by_cases last : cb.successThreshold ≤ 1
      · refine closed_of_closed ?_ others
        simp [cbCall, cbReturned, cbOnSuccess, state, waited, zero, last]
      · have called : (cbCall cb call.ret call.now call.clock).1 = { cb with
            state := .halfOpen
            halfOpenCurrentRequests := 1
            successCountInHalfOpen := 1 } := by
          simp [cbCall, cbReturned, cbOnSuccess, state, waited, zero, last]
        rw [called] at kept ⊢
        exact closed_of_halfOpen kept rfl budget others (by simp only; omega)

/-- Where the budget is smaller, the half-open breaker stays so, whatever succeeds. -/
structure Stuck (cb : CBCircuit) : Prop where
  half : cb.state = .halfOpen
  equal : cb.halfOpenCurrentRequests = cb.successCountInHalfOpen
  spent : cb.successCountInHalfOpen < cb.successThreshold
  short : cb.halfOpenMaxRequests < cb.successThreshold

theorem Stuck.call (stuck : Stuck cb) (now clock : Timespec) : Stuck (cbCall cb 0 now clock).1 := by
  obtain ⟨half, equal, spent, short⟩ := stuck
  by_cases full : cb.halfOpenCurrentRequests ≥ cb.halfOpenMaxRequests
  · have called : (cbCall cb 0 now clock).1 = cb := by simp [cbCall, half, full]
    rw [called]
    exact ⟨half, equal, spent, short⟩
  · have further : ¬ cb.successThreshold ≤ cb.successCountInHalfOpen + 1 := by omega
    have called : (cbCall cb 0 now clock).1 = { cb with
        halfOpenCurrentRequests := cb.halfOpenCurrentRequests + 1
        successCountInHalfOpen := cb.successCountInHalfOpen + 1 } := by
      simp [cbCall, cbReturned, cbOnSuccess, half, full, further]
    rw [called]
    exact ⟨half, congrArg (· + 1) equal, Int.not_le.mp further, short⟩

theorem Stuck.run (stuck : Stuck cb) (success : ∀ call ∈ calls, call.ret = 0) :
    (cbCalls cb calls).state = .halfOpen := by
  induction calls generalizing cb with
  | nil => exact stuck.half
  | cons call rest ih =>
    have next := stuck.call call.now call.clock
    rw [← success call List.mem_cons_self] at next
    exact ih next fun call inside => success call (List.mem_cons_of_mem _ inside)

/-- An open breaker with too small a budget never closes by successes. -/
theorem not_recoverable (opened : cb.state = .opened) (since : cb.openedAt = ⟨0, 0⟩) (several : 1 < cb.successThreshold)
    (short : cb.halfOpenMaxRequests < cb.successThreshold) : ¬ Recoverable cb := by
  rintro ⟨k, recovers⟩
  obtain ⟨now, waited⟩ := exists_waited cb.timeoutMs
  have closed := recovers (List.replicate k ⟨0, now, now⟩) (List.length_replicate ..) (by
    intro call inside
    rw [List.eq_of_mem_replicate inside, since]
    exact ⟨rfl, waited⟩)
  cases k with
  | zero => exact absurd (opened.symm.trans closed) (by decide)
  | succ k =>
    have called : (cbCall cb 0 now now).1 = { cb with
        state := .halfOpen
        halfOpenCurrentRequests := 1
        successCountInHalfOpen := 1 } := by
      have more : ¬ cb.successThreshold ≤ 1 := Int.not_le.mpr several
      simp [cbCall, cbReturned, cbOnSuccess, opened, since, waited, more]
    have stuck : Stuck (cbCall cb 0 now now).1 := by
      rw [called]
      exact ⟨rfl, rfl, several, short⟩
    have successes : ∀ call ∈ List.replicate k (⟨0, now, now⟩ : CBCallInput), call.ret = 0 := by
      intro call inside
      rw [List.eq_of_mem_replicate inside]
    have half := stuck.run successes
    rw [List.replicate_succ, cbCalls_cons] at closed
    exact absurd (half.symm.trans closed) (by decide)

/-- Failures that reach the threshold open a closed breaker. -/
theorem opened_of_failures {n : Nat} (shut : cb.state = .closed) (below : cb.failureCount < cb.failureThreshold)
    (reached : cb.failureCount + n = cb.failureThreshold) :
    (cbCalls cb (List.replicate n ⟨-1, ⟨0, 0⟩, ⟨0, 0⟩⟩)).state = .opened ∧
      (cbCalls cb (List.replicate n ⟨-1, ⟨0, 0⟩, ⟨0, 0⟩⟩)).openedAt = ⟨0, 0⟩ := by
  induction n generalizing cb with
  | zero => omega
  | succ n ih =>
    rw [List.replicate_succ, cbCalls_cons]
    by_cases last : cb.failureThreshold ≤ cb.failureCount + 1
    · obtain rfl : n = 0 := by omega
      have called : (cbCall cb (-1) ⟨0, 0⟩ ⟨0, 0⟩).1 = { cb with
          failureCount := cb.failureCount + 1
          state := .opened
          openedAt := ⟨0, 0⟩
          halfOpenCurrentRequests := 0 } := by
        simp [cbCall, cbReturned, cbOnFailure, shut, last]
      rw [called]
      exact ⟨rfl, rfl⟩
    · have called : (cbCall cb (-1) ⟨0, 0⟩ ⟨0, 0⟩).1 = { cb with failureCount := cb.failureCount + 1 } := by
        simp [cbCall, cbReturned, cbOnFailure, shut, last]
      rw [called]
      exact ih shut (Int.not_le.mp last) (by simp only; omega)

/-- For a new breaker, of which one success is not asked for with no budget at all. -/
theorem recoverable_iff (shut : cb.state = .closed) (none : cb.failureCount = 0) (failures : 0 < cb.failureThreshold)
    (successes : 0 < cb.successThreshold)
    (several : cb.successThreshold ≤ cb.halfOpenMaxRequests ∨ 1 < cb.successThreshold) :
    (∀ calls, Recoverable (cbCalls cb calls)) ↔ cb.successThreshold ≤ cb.halfOpenMaxRequests := by
  have start : Balanced cb := balanced_of_ne (by rw [shut]; decide)
  constructor
  · intro recovers
    by_contra short
    -- as many failures as open the breaker
    have reached := opened_of_failures (n := cb.failureThreshold.toNat) shut (by omega) (by omega)
    obtain ⟨_, sameSuccesses, sameBudget, _⟩ := config_eq_iff.mp
      (start.run (List.replicate cb.failureThreshold.toNat ⟨-1, ⟨0, 0⟩, ⟨0, 0⟩⟩)).2
    refine not_recoverable reached.1 reached.2 ?_ ?_ (recovers _)
    · rw [sameSuccesses]
      exact several.resolve_left short
    · rw [sameSuccesses, sameBudget]
      exact Int.not_le.mp short
  · intro enough calls
    obtain ⟨balanced, same⟩ := start.run calls
    obtain ⟨_, sameSuccesses, sameBudget, _⟩ := config_eq_iff.mp same
    exact balanced.recoverable (sameSuccesses ▸ successes) (by rw [sameSuccesses, sameBudget]; exact enough)

end Probes

section Created

variable (failureThreshold successThreshold : Int) (timeoutMs : UInt64) (adjusted : Option Int)

theorem cbAdjusted_fields :
    (cbAdjusted failureThreshold successThreshold timeoutMs adjusted).state = .closed ∧
      (cbAdjusted failureThreshold successThreshold timeoutMs adjusted).failureCount = 0 ∧
      (cbAdjusted failureThreshold successThreshold timeoutMs adjusted).failureThreshold =
        (if failureThreshold > 0 then failureThreshold else 5) ∧
      (cbAdjusted failureThreshold successThreshold timeoutMs adjusted).successThreshold =
        (if successThreshold > 0 then successThreshold else 3) ∧
      (cbAdjusted failureThreshold successThreshold timeoutMs adjusted).halfOpenMaxRequests =
        adjusted.getD successThreshold := by
  cases adjusted <;> exact ⟨rfl, rfl, rfl, rfl, rfl⟩

/-- Every state that calls reach can recover exactly if the budget of the half-open breaker is at least the number of
successes that close it. -/
theorem cbAdjusted_recoverable_iff (positive : ∀ maxRequests ∈ adjusted, 0 < maxRequests) :
    (∀ calls, Recoverable (cbCalls (cbAdjusted failureThreshold successThreshold timeoutMs adjusted) calls)) ↔
      (if successThreshold > 0 then successThreshold else 3) ≤ adjusted.getD successThreshold := by
  obtain ⟨shut, none, failures, successes, budget⟩ :=
    cbAdjusted_fields failureThreshold successThreshold timeoutMs adjusted
  rw [recoverable_iff shut none (by rw [failures]; split_ifs <;> omega) (by rw [successes]; split_ifs <;> omega) ?_,
    successes, budget]
  rw [successes, budget]
  cases adjusted with
  | none =>
    simp only [Option.getD_none]
    split_ifs <;> omega
  | some maxRequests =>
    have some' := positive maxRequests rfl
    simp only [Option.getD_some]
    split_ifs <;> omega

end Created

theorem cbAdjusted_recoverable_two :
    (∀ calls, Recoverable (cbCalls (cbAdjusted 1 2 1000 (some 2)) calls)) ↔
      ((if (2 : Int) > 0 then 2 else 3) : Int) ≤ 2 :=
  cbAdjusted_recoverable_iff 1 2 1000 (some 2) (by simp)

/-- With one probe allowed and two successes asked for, a breaker that has opened stays half open for ever. -/
theorem cbAdjusted_stuck :
    ¬ ∀ (failureThreshold successThreshold : Int) (timeoutMs : UInt64) (maxRequests : Int), 0 < maxRequests →
      ∀ calls,
        Recoverable (cbCalls (cbAdjusted failureThreshold successThreshold timeoutMs (some maxRequests)) calls) := by
  intro recovers
  have opened := recovers 1 2 1000 1 (by decide) [⟨-1, ⟨0, 0⟩, ⟨0, 0⟩⟩]
  revert opened
  exact not_recoverable rfl rfl (by decide) (by decide)

end MiniNetDist.GatewayProxy.CircuitBreaker
