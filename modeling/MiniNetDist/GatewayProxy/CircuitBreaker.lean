import Mathlib.Data.List.Basic
import Mathlib.Algebra.Ring.Nat

/-! The circuit breaker of `mini-gateway-proxy/src/circuit_breaker.c`, and what its history says about its counters. -/

namespace MiniNetDist.GatewayProxy.CircuitBreaker

/-- A reading of the monotonic clock. -/
structure Timespec where
  tvSec : UInt64
  tvNsec : UInt64
  deriving DecidableEq, Repr

def timespecToMs (ts : Timespec) : UInt64 := ts.tvSec * 1000 + ts.tvNsec / 1000000

def elapsedMs (start now : Timespec) : UInt64 :=
  let startMs := timespecToMs start
  let nowMs := timespecToMs now
  if nowMs > startMs then nowMs - startMs else 0

inductive CBCircuitState where
  | closed
  | opened
  | halfOpen
  deriving DecidableEq, Repr

structure CBCircuit where
  state : CBCircuitState
  failureCount : Int
  failureThreshold : Int
  successCountInHalfOpen : Int
  successThreshold : Int
  halfOpenMaxRequests : Int
  halfOpenCurrentRequests : Int
  timeoutMs : UInt64
  openedAt : Timespec
  deriving DecidableEq, Repr

def cbInit (failureThreshold successThreshold : Int) (timeoutMs : UInt64) : CBCircuit where
  state := .closed
  failureCount := 0
  failureThreshold := if failureThreshold > 0 then failureThreshold else 5
  successCountInHalfOpen := 0
  successThreshold := if successThreshold > 0 then successThreshold else 3
  halfOpenMaxRequests := successThreshold
  halfOpenCurrentRequests := 0
  timeoutMs := if timeoutMs > 0 then timeoutMs else 30000
  openedAt := ⟨0, 0⟩

def cbSetHalfOpenMax (cb : CBCircuit) (maxRequests : Int) : CBCircuit := { cb with halfOpenMaxRequests := maxRequests }

def cbOnSuccess (cb : CBCircuit) : CBCircuit :=
  match cb.state with
  | .closed => { cb with failureCount := 0 }
  | .halfOpen =>
    let cb := { cb with successCountInHalfOpen := cb.successCountInHalfOpen + 1 }
    if cb.successCountInHalfOpen ≥ cb.successThreshold then
      { cb with state := .closed, failureCount := 0, halfOpenCurrentRequests := 0 }
    else cb
  | .opened => cb

/-- The clock is read when the breaker opens. -/
def cbOnFailure (cb : CBCircuit) (clock : Timespec) : CBCircuit :=
  match cb.state with
  | .closed =>
    let cb := { cb with failureCount := cb.failureCount + 1 }
    if cb.failureCount ≥ cb.failureThreshold then
      { cb with state := .opened, openedAt := clock, halfOpenCurrentRequests := 0 }
    else cb
  | .halfOpen => { cb with state := .opened, openedAt := clock, halfOpenCurrentRequests := 0 }
  | .opened => cb

/-- The end of each case of `cb_call`: the function was called and returned `ret`. -/
def cbReturned (cb : CBCircuit) (ret : Int) (clock : Timespec) : CBCircuit :=
  if ret = 0 then cbOnSuccess cb else cbOnFailure cb clock

/-- A call of a function that would return `ret`, with the readings of the clock before and after the function. The
result is what the function returns; none if it is not invoked and the call returns -1. -/
def cbCall (cb : CBCircuit) (ret : Int) (now clock : Timespec) : CBCircuit × Option Int :=
  match cb.state with
  | .closed => (cbReturned cb ret clock, some ret)
  | .opened =>
    if elapsedMs cb.openedAt now ≥ cb.timeoutMs then
      let cb := { cb with state := .halfOpen, successCountInHalfOpen := 0, halfOpenCurrentRequests := 1 }
      (cbReturned cb ret clock, some ret)
    else (cb, none)
  | .halfOpen =>
    if cb.halfOpenCurrentRequests ≥ cb.halfOpenMaxRequests then (cb, none)
    else
      let cb := { cb with halfOpenCurrentRequests := cb.halfOpenCurrentRequests + 1 }
      (cbReturned cb ret clock, some ret)

def cbReset (cb : CBCircuit) : CBCircuit :=
  { cb with state := .closed, failureCount := 0, successCountInHalfOpen := 0, halfOpenCurrentRequests := 0 }

inductive CBInput where
  | call (ret : Int) (now clock : Timespec)
  | reset
  deriving DecidableEq, Repr

/-- What can be seen of a step: the states around it, the result of the function if it was invoked, the readings of the
clock, and whether it was a reset. -/
structure CBEvent where
  before : CBCircuitState
  after : CBCircuitState
  result : Option Int
  now : Timespec
  clock : Timespec
  isReset : Bool
  deriving DecidableEq, Repr

/-- One step; the events are kept with the latest first. -/
def cbStep (run : CBCircuit × List CBEvent) : CBInput → CBCircuit × List CBEvent
  | .call ret now clock =>
    let (cb, result) := cbCall run.1 ret now clock
    (cb, ⟨run.1.state, cb.state, result, now, clock, false⟩ :: run.2)
  | .reset => (cbReset run.1, ⟨run.1.state, .closed, none, ⟨0, 0⟩, ⟨0, 0⟩, true⟩ :: run.2)

def cbRun (cb : CBCircuit) (inputs : List CBInput) : CBCircuit × List CBEvent := inputs.foldl cbStep (cb, [])

section Protocol

def Timespec.nanos (ts : Timespec) : Nat := ts.tvSec.toNat * 1000000000 + ts.tvNsec.toNat

/-- The whole milliseconds of a reading. -/
def Timespec.millis (ts : Timespec) : Nat := ts.nanos / 1000000

def CBInput.readings : CBInput → List Timespec
  | .call _ now clock => [now, clock]
  | .reset => []

/-- The clock does not run backwards. -/
def NonDecreasing (inputs : List CBInput) : Prop :=
  (inputs.flatMap CBInput.readings).Pairwise fun first second => first.nanos ≤ second.nanos

namespace CBEvent

/-- The function was invoked and failed. -/
def failed (e : CBEvent) : Bool := e.result.any (· ≠ 0)

def succeeded (e : CBEvent) : Bool := e.result = some 0

end CBEvent

/-- The failing calls of the closed breaker since the last success, reset or closing. -/
def failuresInRow (events : List CBEvent) : Nat :=
  (events.takeWhile fun e => e.before = .closed && e.failed).length

/-- The steps since the breaker became half open, if it is so now. -/
def halfOpenPeriod (events : List CBEvent) : List CBEvent := events.takeWhile (·.after = .halfOpen)

/-- When the breaker was last opened. -/
def openedSince (events : List CBEvent) : Option Timespec :=
  (events.find? fun e => e.after = .opened && e.result.isSome).map (·.clock)

/-- What the protocol asks of a step, given the earlier ones. The time for which the breaker was open is in whole
milliseconds of the clock, and only calls close it by successes. -/
structure Obeys (cb : CBCircuit) (e : CBEvent) (earlier : List CBEvent) : Prop where
  waited : e.before = .opened → e.result.isSome → ∃ since, openedSince earlier = some since ∧
    cb.timeoutMs.toNat ≤ e.now.millis - since.millis
  opens : e.before = .closed → (e.after = .opened ↔ (failuresInRow (e :: earlier) : Int) = cb.failureThreshold)
  closes : e.isReset = false → e.before ≠ .closed → e.after = .closed →
    cb.successThreshold ≤ (e :: halfOpenPeriod earlier).countP (·.succeeded) ∧
      ∀ probe ∈ e :: halfOpenPeriod earlier, probe.failed = false
  probes : e.before ≠ .closed →
    ((e :: halfOpenPeriod earlier).countP (·.result.isSome) : Int) ≤ cb.halfOpenMaxRequests

/-- The counters of the breaker, as its history has them. -/
structure Tracks (cb : CBCircuit) (events : List CBEvent) : Prop where
  last : ∀ e ∈ events.head?, e.after = cb.state
  closed : cb.state = .closed → cb.failureCount = failuresInRow events ∧ cb.failureCount < cb.failureThreshold
  opened : cb.state = .opened → openedSince events = some cb.openedAt
  halfOpen : cb.state = .halfOpen →
    cb.successCountInHalfOpen = (halfOpenPeriod events).countP (·.succeeded) ∧
    cb.halfOpenCurrentRequests = (halfOpenPeriod events).countP (·.result.isSome) ∧
    (∀ probe ∈ halfOpenPeriod events, probe.failed = false) ∧
    cb.successCountInHalfOpen < cb.successThreshold ∧ cb.halfOpenCurrentRequests ≤ cb.halfOpenMaxRequests

end Protocol

section Clock

variable {start now : Timespec}

theorem toNat_timespecToMs (ts : Timespec) : (timespecToMs ts).toNat = ts.millis % 2 ^ 64 := by
  unfold timespecToMs Timespec.millis Timespec.nanos
  rw [UInt64.toNat_add, UInt64.toNat_mul, UInt64.toNat_div]
  simp only [UInt64.reduceToNat]
  omega

/-- What the breaker measures is not more than the time in whole milliseconds. -/
theorem elapsedMs_le (ordered : start.nanos ≤ now.nanos) : (elapsedMs start now).toNat ≤ now.millis - start.millis := by
  have less : start.millis ≤ now.millis := Nat.div_le_div_right ordered
  have first := toNat_timespecToMs start
  have second := toNat_timespecToMs now
  unfold elapsedMs
  simp only
  split_ifs with later
  · have order : (timespecToMs start).toNat < (timespecToMs now).toNat := UInt64.lt_iff_toNat_lt.mp later
    rw [UInt64.toNat_sub_of_le _ _ (UInt64.le_iff_toNat_le.mpr (Nat.le_of_lt order)), first, second]
    rw [first, second] at order
    omega
  · exact Nat.zero_le _

end Clock

section Tracking

variable {cb cb' : CBCircuit} {e : CBEvent} {events earlier : List CBEvent} {ret : Int} {now clock : Timespec}

theorem halfOpenPeriod_cons (e : CBEvent) (events : List CBEvent) :
    halfOpenPeriod (e :: events) = if e.after = .halfOpen then e :: halfOpenPeriod events else [] := by
  unfold halfOpenPeriod
  rw [List.takeWhile_cons]
  by_cases half : e.after = .halfOpen <;> simp [half]

theorem failuresInRow_cons (e : CBEvent) (events : List CBEvent) :
    failuresInRow (e :: events) = if e.before = .closed ∧ e.failed = true then failuresInRow events + 1 else 0 := by
  unfold failuresInRow
  rw [List.takeWhile_cons]
  by_cases failed : e.before = .closed ∧ e.failed = true
  · simp [failed]
  · rw [if_neg failed, if_neg (by simpa using failed)]
    rfl

theorem openedSince_cons (e : CBEvent) (events : List CBEvent) :
    openedSince (e :: events) =
      if e.after = .opened ∧ e.result.isSome = true then some e.clock else openedSince events := by
  unfold openedSince
  rw [List.find?_cons]
  by_cases here : e.after = .opened ∧ e.result.isSome = true
  · rw [if_pos here]
    simp [here.1, here.2]
  · rw [if_neg here]
    have missed : (decide (e.after = .opened) && e.result.isSome) = false := by simpa using here
    rw [missed]

/-- A breaker that is not half open is in no half-open period. -/
theorem Tracks.period_nil (tracks : Tracks cb events) (other : cb.state ≠ .halfOpen) : halfOpenPeriod events = [] := by
  cases events with
  | nil => rfl
  | cons e earlier =>
    have after : e.after = cb.state := tracks.last e rfl
    rw [halfOpenPeriod_cons, if_neg (after ▸ other)]

/-- The configuration of a breaker, which no call changes. -/
def CBCircuit.config (cb : CBCircuit) : Int × Int × Int × UInt64 :=
  (cb.failureThreshold, cb.successThreshold, cb.halfOpenMaxRequests, cb.timeoutMs)

theorem config_cbReturned (cb : CBCircuit) (ret : Int) (clock : Timespec) :
    (cbReturned cb ret clock).config = cb.config := by
  unfold cbReturned cbOnSuccess cbOnFailure
  cases cb.state <;> simp only <;> split_ifs <;> rfl

theorem config_cbCall (cb : CBCircuit) (ret : Int) (now clock : Timespec) :
    (cbCall cb ret now clock).1.config = cb.config := by
  unfold cbCall
  cases cb.state with
  | closed => exact config_cbReturned cb ret clock
  | opened =>
    simp only
    split_ifs
    · exact config_cbReturned _ ret clock
    · rfl
  | halfOpen =>
    simp only
    split_ifs
    · rfl
    · exact config_cbReturned _ ret clock

theorem config_eq_iff : cb.config = cb'.config ↔ cb.failureThreshold = cb'.failureThreshold ∧
    cb.successThreshold = cb'.successThreshold ∧ cb.halfOpenMaxRequests = cb'.halfOpenMaxRequests ∧
    cb.timeoutMs = cb'.timeoutMs := by
  simp [CBCircuit.config]

/-- Only the configuration matters for what is asked of a step. -/
theorem Obeys.congr (obeys : Obeys cb e earlier) (same : cb.config = cb'.config) : Obeys cb' e earlier := by
  obtain ⟨failures, successes, probes, timeout⟩ := config_eq_iff.mp same
  exact ⟨timeout ▸ obeys.waited, failures ▸ obeys.opens, successes ▸ obeys.closes, probes ▸ obeys.probes⟩

/-- A breaker with positive thresholds and a positive budget. -/
structure Positive (cb : CBCircuit) : Prop where
  failures : 0 < cb.failureThreshold
  successes : 0 < cb.successThreshold
  probes : 0 < cb.halfOpenMaxRequests

theorem Positive.congr (positive : Positive cb) (same : cb.config = cb'.config) : Positive cb' := by
  obtain ⟨failures, successes, probes, _⟩ := config_eq_iff.mp same
  exact ⟨failures ▸ positive.failures, successes ▸ positive.successes, probes ▸ positive.probes⟩

theorem tracks_closed (state : cb.state = .closed) (after : e.after = cb.state)
    (counted : cb.failureCount = failuresInRow (e :: events)) (below : cb.failureCount < cb.failureThreshold) :
    Tracks cb (e :: events) where
  last := by simpa using after
  closed _ := ⟨counted, below⟩
  opened opened := absurd (state.symm.trans opened) (by decide)
  halfOpen half := absurd (state.symm.trans half) (by decide)

theorem tracks_opened (state : cb.state = .opened) (after : e.after = cb.state) (invoked : e.result = some ret)
    (when : e.clock = cb.openedAt) : Tracks cb (e :: events) where
  last := by simpa using after
  closed shut := absurd (state.symm.trans shut) (by decide)
  opened _ := by rw [openedSince_cons, if_pos ⟨after.trans state, by rw [invoked]; rfl⟩, when]
  halfOpen half := absurd (state.symm.trans half) (by decide)

/-- A step of a closed breaker only has to open it at the right failure. -/
theorem obeys_closed (before : e.before = .closed)
    (opens : e.after = .opened ↔ (failuresInRow (e :: events) : Int) = cb.failureThreshold) : Obeys cb e events where
  waited opened := absurd (before.symm.trans opened) (by decide)
  opens _ := opens
  closes _ other := absurd before other
  probes other := absurd before other

/-- What a function's result does to a closed breaker. -/
theorem Tracks.returned_closed (tracks : Tracks cb events) (positive : Positive cb) (shut : cb.state = .closed)
    (e : CBEvent) (before : e.before = .closed) (after : e.after = (cbReturned cb ret clock).state)
    (result : e.result = some ret) (when : e.clock = clock) :
    Tracks (cbReturned cb ret clock) (e :: events) ∧ Obeys cb e events := by
  obtain ⟨count, below⟩ := tracks.closed shut
  by_cases success : ret = 0
  · subst success
    have closes : cbReturned cb 0 clock = { cb with failureCount := 0 } := by
      simp [cbReturned, cbOnSuccess, shut]
    have none : failuresInRow (e :: events) = 0 := by
      rw [failuresInRow_cons, if_neg]
      simp [CBEvent.failed, result]
    have some := positive.failures
    rw [closes] at after ⊢
    refine ⟨tracks_closed shut after (by rw [none]; rfl) some, obeys_closed before ?_⟩
    rw [none, after.trans shut]
    exact iff_of_false nofun (by omega)
  · have row : (failuresInRow (e :: events) : Int) = cb.failureCount + 1 := by
      rw [failuresInRow_cons, if_pos ⟨before, by simp [CBEvent.failed, result, success]⟩, count]
      rfl
    by_cases reached : cb.failureCount + 1 ≥ cb.failureThreshold
    · have opens : cbReturned cb ret clock =
        { cb with failureCount := cb.failureCount + 1, state := .opened, openedAt := clock,
                  halfOpenCurrentRequests := 0 } := by
        simp [cbReturned, cbOnFailure, shut, success, reached]
      rw [opens] at after ⊢
      refine ⟨tracks_opened rfl after result when, obeys_closed before ?_⟩
      rw [row]
      exact iff_of_true after (by omega)
    · have stays : cbReturned cb ret clock = { cb with failureCount := cb.failureCount + 1 } := by
        simp [cbReturned, cbOnFailure, shut, success, reached]
      rw [stays] at after ⊢
      refine ⟨tracks_closed shut after row.symm (Int.not_le.mp reached), obeys_closed before ?_⟩
      rw [row, after.trans shut]
      exact iff_of_false nofun (by omega)

/-- The breaker while a probe runs: what has been counted before it, and the probe itself. -/
structure Probing (cb : CBCircuit) (events : List CBEvent) : Prop where
  half : cb.state = .halfOpen
  successes : cb.successCountInHalfOpen = (halfOpenPeriod events).countP (·.succeeded)
  probes : cb.halfOpenCurrentRequests = (halfOpenPeriod events).countP (·.result.isSome) + 1
  clean : ∀ probe ∈ halfOpenPeriod events, probe.failed = false
  below : cb.successCountInHalfOpen < cb.successThreshold
  within : cb.halfOpenCurrentRequests ≤ cb.halfOpenMaxRequests

section Probe

variable (probing : Probing cb events) (result : e.result = some ret)

include probing result

theorem Probing.counts_probe :
    ((e :: halfOpenPeriod events).countP (·.result.isSome) : Int) = cb.halfOpenCurrentRequests := by
  rw [List.countP_cons_of_pos (by rw [result]; rfl), probing.probes]
  rfl

theorem Probing.counts_success (success : ret = 0) :
    ((e :: halfOpenPeriod events).countP (·.succeeded) : Int) = cb.successCountInHalfOpen + 1 := by
  rw [List.countP_cons_of_pos (by simp [CBEvent.succeeded, result, success]), probing.successes]
  rfl

theorem Probing.clean_success (success : ret = 0) : ∀ probe ∈ e :: halfOpenPeriod events, probe.failed = false := by
  intro probe inside
  rcases List.mem_cons.mp inside with rfl | old
  · simp [CBEvent.failed, result, success]
  · exact probing.clean probe old

end Probe

/-- What a function's result does to a half-open breaker. -/
theorem Probing.returned (probing : Probing cb events) (positive : Positive cb) (e : CBEvent)
    (before : e.before ≠ .closed) (after : e.after = (cbReturned cb ret clock).state) (result : e.result = some ret)
    (when : e.clock = clock) (waited : e.before = .opened → ∃ since, openedSince events = some since ∧
      cb.timeoutMs.toNat ≤ e.now.millis - since.millis) :
    Tracks (cbReturned cb ret clock) (e :: events) ∧ Obeys cb e events := by
  have half := probing.half
  have probed := probing.counts_probe result
  have obeys : (e.isReset = false → e.before ≠ .closed → e.after = .closed →
      cb.successThreshold ≤ (e :: halfOpenPeriod events).countP (·.succeeded) ∧
        ∀ probe ∈ e :: halfOpenPeriod events, probe.failed = false) → Obeys cb e events := fun closes =>
    ⟨fun opened _ => waited opened, fun shut => absurd shut before, closes, fun _ => probed ▸ probing.within⟩
  by_cases success : ret = 0
  · have counted := probing.counts_success result success
    have clean := probing.clean_success result success
    by_cases enough : cb.successCountInHalfOpen + 1 ≥ cb.successThreshold
    · have closes : cbReturned cb ret clock = { cb with
          successCountInHalfOpen := cb.successCountInHalfOpen + 1, state := .closed, failureCount := 0,
          halfOpenCurrentRequests := 0 } := by
        simp [cbReturned, cbOnSuccess, half, enough, success]
      have none : failuresInRow (e :: events) = 0 := by
        rw [failuresInRow_cons, if_neg (by simp [before])]
      rw [closes] at after ⊢
      exact ⟨tracks_closed rfl after (by rw [none]; rfl) positive.failures,
        obeys fun _ _ _ => ⟨counted ▸ enough, clean⟩⟩
    · have stays : cbReturned cb ret clock =
          { cb with successCountInHalfOpen := cb.successCountInHalfOpen + 1 } := by
        simp [cbReturned, cbOnSuccess, half, enough, success]
      rw [stays] at after ⊢
      have after' : e.after = .halfOpen := after.trans half
      have period : halfOpenPeriod (e :: events) = e :: halfOpenPeriod events := by
        rw [halfOpenPeriod_cons, if_pos after']
      refine ⟨⟨by simpa using after, fun shut => ?_, fun opened => ?_, fun _ => ?_⟩, obeys fun _ _ shut => ?_⟩
      · exact absurd (half.symm.trans shut) (by decide)
      · exact absurd (half.symm.trans opened) (by decide)
      · rw [period]
        exact ⟨counted.symm, probed.symm, clean, Int.not_le.mp enough, probing.within⟩
      · exact absurd (after'.symm.trans shut) (by decide)
  · have opens : cbReturned cb ret clock =
        { cb with state := .opened, openedAt := clock, halfOpenCurrentRequests := 0 } := by
      simp [cbReturned, cbOnFailure, half, success]
    rw [opens] at after ⊢
    exact ⟨tracks_opened rfl after result when, obeys fun _ _ shut => nomatch after.symm.trans shut⟩

/-- There are no more probes in a half-open period than are allowed. -/
theorem Tracks.probes_le (tracks : Tracks cb events) (positive : Positive cb) :
    ((halfOpenPeriod events).countP (·.result.isSome) : Int) ≤ cb.halfOpenMaxRequests := by
  by_cases half : cb.state = .halfOpen
  · obtain ⟨_, probed, _, _, within⟩ := tracks.halfOpen half
    exact probed ▸ within
  · rw [tracks.period_nil half]
    exact Int.le_of_lt positive.probes

/-- A call that is turned away changes nothing. -/
theorem Tracks.rejected (tracks : Tracks cb events) (e : CBEvent) (before : e.before = cb.state)
    (after : e.after = cb.state) (other : cb.state ≠ .closed) (result : e.result = none) (positive : Positive cb) :
    Tracks cb (e :: events) ∧ Obeys cb e events := by
  have notFailed : e.failed = false := by simp [CBEvent.failed, result]
  have probes : ((e :: halfOpenPeriod events).countP (·.result.isSome)) =
      (halfOpenPeriod events).countP (·.result.isSome) := List.countP_cons_of_neg (by simp [result])
  have successes : ((e :: halfOpenPeriod events).countP (·.succeeded)) = (halfOpenPeriod events).countP (·.succeeded) :=
    List.countP_cons_of_neg (by simp [CBEvent.succeeded, result])
  refine ⟨⟨by simpa using after, fun shut => absurd shut other, fun opened => ?_, fun half => ?_⟩,
    ⟨fun _ invoked => ?_, fun shut => ?_, fun _ _ shut => ?_, fun _ => ?_⟩⟩
  · rw [openedSince_cons, if_neg (by simp [result])]
    exact tracks.opened opened
  · obtain ⟨counted, probed, clean, below, within⟩ := tracks.halfOpen half
    rw [halfOpenPeriod_cons, if_pos (after.trans half), probes, successes]
    refine ⟨counted, probed, fun probe inside => ?_, below, within⟩
    rcases List.mem_cons.mp inside with rfl | old
    · exact notFailed
    · exact clean probe old
  · rw [result] at invoked
    cases invoked
  · exact absurd (before.symm.trans shut) other
  · exact absurd (after.symm.trans shut) other
  · rw [probes]
    exact tracks.probes_le positive

theorem tracks_init (shut : cb.state = .closed) (none : cb.failureCount = 0) (positive : Positive cb) :
    Tracks cb [] where
  last := by simp
  closed _ := ⟨none, none ▸ positive.failures⟩
  opened opened := absurd (shut.symm.trans opened) (by decide)
  halfOpen half := absurd (shut.symm.trans half) (by decide)

/-- A reset is a new start. -/
theorem Tracks.reset (tracks : Tracks cb events) (positive : Positive cb) :
    Tracks (cbReset cb) (⟨cb.state, .closed, none, ⟨0, 0⟩, ⟨0, 0⟩, true⟩ :: events) ∧
      Obeys cb ⟨cb.state, .closed, none, ⟨0, 0⟩, ⟨0, 0⟩, true⟩ events := by
  have row : failuresInRow (⟨cb.state, .closed, none, ⟨0, 0⟩, ⟨0, 0⟩, true⟩ :: events) = 0 := by
    rw [failuresInRow_cons, if_neg (by simp [CBEvent.failed])]
  have probes : ((⟨cb.state, .closed, none, ⟨0, 0⟩, ⟨0, 0⟩, true⟩ :: halfOpenPeriod events).countP (·.result.isSome)) =
      (halfOpenPeriod events).countP (·.result.isSome) := List.countP_cons_of_neg (by simp)
  have some := positive.failures
  refine ⟨tracks_closed rfl rfl (by rw [row]; rfl) some,
    ⟨fun _ invoked => ?_, fun _ => ?_, fun called => ?_, fun _ => ?_⟩⟩
  · cases invoked
  · rw [row]
    exact iff_of_false nofun (by omega)
  · cases called
  · rw [probes]
    exact tracks.probes_le positive

theorem Tracks.call (tracks : Tracks cb events) (positive : Positive cb) (ret : Int) (now clock : Timespec)
    (ordered : cb.state = .opened → cb.openedAt.nanos ≤ now.nanos) :
    Tracks (cbCall cb ret now clock).1
        (⟨cb.state, (cbCall cb ret now clock).1.state, (cbCall cb ret now clock).2, now, clock, false⟩ :: events) ∧
      Obeys cb ⟨cb.state, (cbCall cb ret now clock).1.state, (cbCall cb ret now clock).2, now, clock, false⟩
        events := by
  cases state : cb.state with
  | closed =>
    have called : cbCall cb ret now clock = (cbReturned cb ret clock, some ret) := by simp [cbCall, state]
    rw [called]
    exact tracks.returned_closed positive state _ rfl rfl rfl rfl
  | opened =>
    have since := tracks.opened state
    have period := tracks.period_nil (by rw [state]; decide)
    by_cases waited : elapsedMs cb.openedAt now ≥ cb.timeoutMs
    · have called : cbCall cb ret now clock = (cbReturned { cb with
          state := .halfOpen, successCountInHalfOpen := 0, halfOpenCurrentRequests := 1 } ret clock, some ret) := by
        simp [cbCall, state, waited]
      have probing : Probing { cb with
          state := .halfOpen, successCountInHalfOpen := 0, halfOpenCurrentRequests := 1 } events :=
        ⟨rfl, by rw [period]; rfl, by rw [period]; rfl, by simp [period], positive.successes, positive.probes⟩
      have long := Nat.le_trans (UInt64.le_iff_toNat_le.mp waited) (elapsedMs_le (ordered state))
      rw [called]
      obtain ⟨tracks', obeys⟩ := probing.returned (positive.congr rfl)
        ⟨.opened, _, some ret, now, clock, false⟩ (show CBCircuitState.opened ≠ .closed by decide) rfl rfl rfl
        fun _ => ⟨cb.openedAt, since, long⟩
      exact ⟨tracks', obeys.congr rfl⟩
    · have called : cbCall cb ret now clock = (cb, none) := by simp [cbCall, state, waited]
      rw [called, ← state]
      exact tracks.rejected _ rfl rfl (by rw [state]; decide) rfl positive
  | halfOpen =>
    obtain ⟨successes, probes, clean, below, within⟩ := tracks.halfOpen state
    by_cases spent : cb.halfOpenCurrentRequests ≥ cb.halfOpenMaxRequests
    · have called : cbCall cb ret now clock = (cb, none) := by simp [cbCall, state, spent]
      rw [called, ← state]
      exact tracks.rejected _ rfl rfl (by rw [state]; decide) rfl positive
    · have called : cbCall cb ret now clock =
          (cbReturned { cb with halfOpenCurrentRequests := cb.halfOpenCurrentRequests + 1 } ret clock, some ret) := by
        simp [cbCall, state, spent]
      have probing : Probing { cb with halfOpenCurrentRequests := cb.halfOpenCurrentRequests + 1 } events :=
        ⟨state, successes, by rw [probes], clean, below, Int.not_le.mp spent⟩
      rw [called]
      obtain ⟨tracks', obeys⟩ := probing.returned (positive.congr rfl)
        ⟨.halfOpen, _, some ret, now, clock, false⟩ (show CBCircuitState.halfOpen ≠ .closed by decide) rfl rfl rfl
        fun opened => by cases opened
      exact ⟨tracks', obeys.congr rfl⟩

/-- A breaker that is open after a call was opened by it, or long before. -/
theorem openedAt_cbCall (opened : (cbCall cb ret now clock).1.state = .opened) :
    (cbCall cb ret now clock).1.openedAt = clock ∨
      cb.state = .opened ∧ (cbCall cb ret now clock).1.openedAt = cb.openedAt := by
  have returned : ∀ cb : CBCircuit, cb.state ≠ .opened → (cbReturned cb ret clock).state = .opened →
      (cbReturned cb ret clock).openedAt = clock := by
    intro cb other
    unfold cbReturned cbOnSuccess cbOnFailure
    cases state : cb.state with
    | opened => exact absurd state other
    | closed => simp only; split_ifs <;> simp
    | halfOpen => simp only; split_ifs <;> simp
  unfold cbCall at opened ⊢
  cases state : cb.state with
  | closed =>
    rw [state] at opened
    exact .inl (returned cb (by rw [state]; decide) opened)
  | opened =>
    simp only [state] at opened ⊢
    split_ifs at opened ⊢
    · exact .inl (returned _ (show CBCircuitState.halfOpen ≠ .opened by decide) opened)
    · exact .inr ⟨trivial, rfl⟩
  | halfOpen =>
    simp only [state] at opened ⊢
    split_ifs at opened ⊢ with spent
    · exact absurd (state.symm.trans opened) (by decide)
    · exact .inl (returned _ (show CBCircuitState.halfOpen ≠ .opened by decide) opened)

theorem cbStep_call : cbStep (cb, events) (.call ret now clock) = ((cbCall cb ret now clock).1,
    ⟨cb.state, (cbCall cb ret now clock).1.state, (cbCall cb ret now clock).2, now, clock, false⟩ :: events) := rfl

theorem cbStep_reset :
    cbStep (cb, events) .reset = (cbReset cb, ⟨cb.state, .closed, none, ⟨0, 0⟩, ⟨0, 0⟩, true⟩ :: events) := rfl

/-- Every step of a run does what the protocol asks. -/
theorem Tracks.run {start : CBCircuit} (inputs : List CBInput) (tracks : Tracks cb events) (positive : Positive cb)
    (same : cb.config = start.config) (ordered : NonDecreasing inputs)
    (later : cb.state = .opened → ∀ reading ∈ inputs.flatMap CBInput.readings, cb.openedAt.nanos ≤ reading.nanos)
    (past : ∀ e earlier, e :: earlier <:+ events → Obeys start e earlier) :
    ∀ e earlier, e :: earlier <:+ (inputs.foldl cbStep (cb, events)).2 → Obeys start e earlier := by
  induction inputs generalizing cb events with
  | nil => exact past
  | cons input rest ih =>
    unfold NonDecreasing at ordered
    rw [List.flatMap_cons, List.pairwise_append] at ordered
    obtain ⟨_, ordered, before⟩ := ordered
    have extended : ∀ new, Obeys cb new events → ∀ e earlier, e :: earlier <:+ new :: events →
        Obeys start e earlier := by
      intro new obeys e earlier suffix
      rcases List.suffix_cons_iff.mp suffix with here | old
      · obtain ⟨rfl, rfl⟩ := List.cons.inj here
        exact obeys.congr same
      · exact past e earlier old
    rw [List.foldl_cons]
    cases input with
    | reset =>
      obtain ⟨tracks', obeys⟩ := tracks.reset positive
      rw [cbStep_reset]
      refine ih tracks' (positive.congr rfl) same ordered (fun opened => ?_) (extended _ obeys)
      cases opened
    | call ret now clock =>
      have readings : now ∈ ((CBInput.call ret now clock) :: rest).flatMap CBInput.readings := by
        simp [CBInput.readings]
      obtain ⟨tracks', obeys⟩ := tracks.call positive ret now clock fun opened => later opened now readings
      have config := config_cbCall cb ret now clock
      rw [cbStep_call]
      refine ih tracks' (positive.congr config.symm) (config.trans same) ordered (fun opened reading inside => ?_)
        (extended _ obeys)
      rcases openedAt_cbCall opened with fresh | ⟨opened', old⟩
      · have first : clock ∈ (CBInput.call ret now clock).readings := by simp [CBInput.readings]
        rw [fresh]
        exact before clock first reading inside
      · rw [old]
        refine later opened' reading ?_
        rw [List.flatMap_cons]
        exact List.mem_append_right _ inside

end Tracking

/-- A breaker as it is created and adjusted. -/
def cbCreated (failureThreshold successThreshold : Int) (timeoutMs : UInt64) (maxRequests : Int) : CBCircuit :=
  cbSetHalfOpenMax (cbInit failureThreshold successThreshold timeoutMs) maxRequests

/-- With positive thresholds, every step of a run of calls and resets follows the protocol, in whole milliseconds of the
clock and as far as calls close the breaker. -/
theorem cbRun_obeys (failureThreshold successThreshold maxRequests : Int) (timeoutMs : UInt64) (inputs : List CBInput)
    (failures : 0 < failureThreshold) (successes : 0 < successThreshold) (probes : 0 < maxRequests)
    (ordered : NonDecreasing inputs) :
    ∀ e earlier, e :: earlier <:+ (cbRun (cbCreated failureThreshold successThreshold timeoutMs maxRequests) inputs).2 →
      Obeys (cbCreated failureThreshold successThreshold timeoutMs maxRequests) e earlier := by
  have positive : Positive (cbCreated failureThreshold successThreshold timeoutMs maxRequests) := by
    refine ⟨?_, ?_, probes⟩
    · exact lt_of_lt_of_eq failures (if_pos failures).symm
    · exact lt_of_lt_of_eq successes (if_pos successes).symm
  refine (tracks_init rfl rfl positive).run inputs positive rfl ordered (fun opened => ?_) fun e earlier suffix => ?_
  · cases opened
  · exact absurd (List.suffix_nil.mp suffix) (List.cons_ne_nil e earlier)

theorem cbRun_obeys_probe :
    Obeys (cbCreated 1 1 5 1) ⟨.opened, .closed, some 0, ⟨0, 5000000⟩, ⟨0, 5000000⟩, false⟩
      [⟨.closed, .opened, some (-1), ⟨0, 0⟩, ⟨0, 0⟩, false⟩] :=
  cbRun_obeys 1 1 1 5 [.call (-1) ⟨0, 0⟩ ⟨0, 0⟩, .call 0 ⟨0, 5000000⟩ ⟨0, 5000000⟩] (by decide) (by decide) (by decide)
    (by simp [NonDecreasing, CBInput.readings, Timespec.nanos]) _ _ (List.suffix_refl _)

/-- The clock is read in whole milliseconds, so that a breaker with a timeout of one lets a call pass when it has been
open for a few nanoseconds; and a reset closes a half-open breaker without any successful probe. -/
theorem cbRun_early_and_reset :
    (¬ ∀ inputs, NonDecreasing inputs → ∀ e earlier since, e :: earlier <:+ (cbRun (cbCreated 1 2 1 2) inputs).2 →
      e.before = .opened → e.result.isSome → openedSince earlier = some since →
        (cbCreated 1 2 1 2).timeoutMs.toNat * 1000000 ≤ e.now.nanos - since.nanos) ∧
    ¬ ∀ inputs, NonDecreasing inputs → ∀ e earlier, e :: earlier <:+ (cbRun (cbCreated 1 2 1 2) inputs).2 →
      e.before = .halfOpen → e.after = .closed →
        (cbCreated 1 2 1 2).successThreshold ≤ (e :: halfOpenPeriod earlier).countP (·.succeeded) := by
  constructor
  · intro waits
    have early := waits [.call (-1) ⟨0, 999999⟩ ⟨0, 999999⟩, .call 0 ⟨0, 1000000⟩ ⟨0, 1000000⟩]
      (by simp [NonDecreasing, CBInput.readings, Timespec.nanos])
      ⟨.opened, .halfOpen, some 0, ⟨0, 1000000⟩, ⟨0, 1000000⟩, false⟩
      [⟨.closed, .opened, some (-1), ⟨0, 999999⟩, ⟨0, 999999⟩, false⟩] ⟨0, 999999⟩ (List.suffix_refl _) rfl rfl rfl
    exact absurd early (by decide)
  · intro closes
    have reset := closes [.call (-1) ⟨0, 0⟩ ⟨0, 0⟩, .call 0 ⟨0, 1000000⟩ ⟨0, 1000000⟩, .reset]
      (by simp [NonDecreasing, CBInput.readings, Timespec.nanos])
      ⟨.halfOpen, .closed, none, ⟨0, 0⟩, ⟨0, 0⟩, true⟩
      [⟨.opened, .halfOpen, some 0, ⟨0, 1000000⟩, ⟨0, 1000000⟩, false⟩,
        ⟨.closed, .opened, some (-1), ⟨0, 0⟩, ⟨0, 0⟩, false⟩] (List.suffix_refl _) rfl rfl
    exact absurd reset (by decide)

end MiniNetDist.GatewayProxy.CircuitBreaker
