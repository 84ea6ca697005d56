import MiniNetDist.Library.Run
import Mathlib.Tactic.SplitIfs

/-! Congestion control of `mini-network-base/src/tcp_congestion.c`: slow start, congestion avoidance, fast retransmit
and fast recovery. The window is bounded after each sum, but not when recovery ends. -/

namespace MiniNetDist.NetworkBase.TcpCongestion

open Library

def TCP_CWND_INIT : UInt32 := 10
def TCP_CWND_MAX : UInt32 := 65535
def TCP_SSTHRESH_INIT : UInt32 := 65535
def TCP_DUPACK_THRESHOLD : UInt32 := 3

inductive TCPCCState where
  | slowStart
  | congestionAvoid
  | fastRecovery
  | fastRetransmit
  deriving DecidableEq, Repr

structure TCPCongestionControl where
  cwnd : UInt32
  ssthresh : UInt32
  inflight : UInt32
  recoverSeq : UInt32
  dupAckCount : UInt32
  lastAck : UInt32
  ccState : TCPCCState
  inRecovery : Bool
  deriving DecidableEq, Repr

def tcpCcInit : TCPCongestionControl := ⟨TCP_CWND_INIT, TCP_SSTHRESH_INIT, 0, 0, 0, 0, .slowStart, false⟩

/-- The bound that follows a change of the window. -/
def clampCwnd (cwnd : UInt32) : UInt32 := if cwnd > TCP_CWND_MAX then TCP_CWND_MAX else cwnd

def tcpCcSlowStart (cc : TCPCongestionControl) (bytesAcked : UInt32) : TCPCongestionControl :=
  if bytesAcked = 0 then cc
  else if cc.ccState ≠ .slowStart then cc
  else
    let cwnd := clampCwnd (cc.cwnd + bytesAcked)
    { cc with cwnd, ccState := if cwnd ≥ cc.ssthresh then .congestionAvoid else cc.ccState }

/-- None when the window is divided by that is zero. -/
def tcpCcCongestionAvoidance (cc : TCPCongestionControl) (bytesAcked : UInt32) : Option TCPCongestionControl :=
  if bytesAcked = 0 then some cc
  else if cc.ccState ≠ .congestionAvoid then some cc
  else if cc.cwnd = 0 then none
  else
    let inc := if bytesAcked > cc.cwnd then cc.cwnd else bytesAcked
    let cwnd := (cc.cwnd.toUInt64 + inc.toUInt64 * inc.toUInt64 / cc.cwnd.toUInt64).toUInt32
    let cwnd := if cwnd < 1 then 1 else cwnd
    some { cc with cwnd := clampCwnd cwnd }

/-- Half of what is in flight, or of the window if nothing is, and at least two. -/
def halfFlight (cc : TCPCongestionControl) : UInt32 :=
  let fs := if cc.inflight > 0 then cc.inflight else cc.cwnd
  if fs / 2 < 2 then 2 else fs / 2

def tcpCcOnLoss (cc : TCPCongestionControl) (seqNum : UInt32) : TCPCongestionControl :=
  let ssthresh := halfFlight cc
  { cc with
    ssthresh
    cwnd := clampCwnd (ssthresh + TCP_DUPACK_THRESHOLD)
    recoverSeq := seqNum
    ccState := .fastRecovery
    inRecovery := true }

def tcpCcOnTimeout (cc : TCPCongestionControl) : TCPCongestionControl :=
  { cc with
    ssthresh := halfFlight cc
    cwnd := TCP_CWND_INIT
    ccState := .slowStart
    inRecovery := false
    dupAckCount := 0 }

def tcpCcOnDupAck (cc : TCPCongestionControl) (ackNum : UInt32) : TCPCongestionControl :=
  if cc.inRecovery then { cc with cwnd := clampCwnd (cc.cwnd + 1) }
  else
    let dupAckCount := if ackNum = cc.lastAck then cc.dupAckCount + 1 else 0
    { cc with
      dupAckCount
      lastAck := ackNum
      ccState := if dupAckCount ≥ TCP_DUPACK_THRESHOLD then .fastRetransmit else cc.ccState }

def tcpCcFastRetransmit (cc : TCPCongestionControl) : TCPCongestionControl :=
  if cc.ccState ≠ .fastRetransmit then cc
  else { tcpCcOnLoss cc cc.lastAck with dupAckCount := 0 }

def tcpCcExitRecovery (cc : TCPCongestionControl) : TCPCongestionControl :=
  if !cc.inRecovery then cc
  else
    { cc with
      cwnd := if cc.ssthresh < TCP_CWND_INIT then TCP_CWND_INIT else cc.ssthresh
      ccState := .congestionAvoid
      inRecovery := false
      dupAckCount := 0 }

/-- The calls, and what the sender makes of `inflight` between them. -/
inductive CcCall where
  | slowStart (bytesAcked : UInt32)
  | congestionAvoidance (bytesAcked : UInt32)
  | onLoss (seqNum : UInt32)
  | onTimeout
  | onDupAck (ackNum : UInt32)
  | fastRetransmit
  | exitRecovery
  | setInflight (inflight : UInt32)
  deriving DecidableEq, Repr

def tcpCcCall (cc : TCPCongestionControl) : CcCall → Option TCPCongestionControl
  | .slowStart bytesAcked => some (tcpCcSlowStart cc bytesAcked)
  | .congestionAvoidance bytesAcked => tcpCcCongestionAvoidance cc bytesAcked
  | .onLoss seqNum => some (tcpCcOnLoss cc seqNum)
  | .onTimeout => some (tcpCcOnTimeout cc)
  | .onDupAck ackNum => some (tcpCcOnDupAck cc ackNum)
  | .fastRetransmit => some (tcpCcFastRetransmit cc)
  | .exitRecovery => some (tcpCcExitRecovery cc)
  | .setInflight inflight => some { cc with inflight }

/-- One call of a run; nothing follows a division by zero. -/
def ccStep (state : Option TCPCongestionControl) (call : CcCall) : Option TCPCongestionControl :=
  state.bind (tcpCcCall · call)

/-- What holds of a connection's congestion state. -/
structure Legal (cc : TCPCongestionControl) : Prop where
  opened : 1 ≤ cc.cwnd
  bounded : cc.cwnd ≤ TCP_CWND_MAX
  threshold : 2 ≤ cc.ssthresh
  recovering : cc.inRecovery = true ↔ cc.ccState = .fastRecovery

/-- Nothing was divided by zero, and the state is legal. -/
def LegalState (state : Option TCPCongestionControl) : Prop := ∃ cc, state = some cc ∧ Legal cc

/-- The window does not wrap around to zero in slow start, and when recovery ends, the threshold that becomes the
window is within its bound. -/
def Bounded (cc : TCPCongestionControl) : CcCall → Prop
  | .slowStart bytesAcked => cc.ccState = .slowStart → cc.cwnd + bytesAcked ≠ 0
  | .exitRecovery => cc.inRecovery = true → cc.ssthresh ≤ TCP_CWND_MAX
  | _ => True

def BoundedCall (state : Option TCPCongestionControl) (call : CcCall) : Prop := ∀ cc ∈ state, Bounded cc call

section Windows

variable {cc : TCPCongestionControl} {cwnd bytesAcked : UInt32}

theorem one_le_iff : 1 ≤ cwnd ↔ cwnd ≠ 0 := by
  rw [UInt32.le_iff_toNat_le, ne_eq, ← UInt32.toNat_inj]
  exact Nat.one_le_iff_ne_zero

theorem clampCwnd_le (cwnd : UInt32) : clampCwnd cwnd ≤ TCP_CWND_MAX := by
  rw [clampCwnd]
  split_ifs with above
  · exact UInt32.le_refl _
  · exact UInt32.not_lt.mp above

theorem one_le_clampCwnd_iff : 1 ≤ clampCwnd cwnd ↔ cwnd ≠ 0 := by
  rw [clampCwnd]
  split_ifs with above
  · refine ⟨fun _ zero => ?_, fun _ => by decide⟩
    rw [zero] at above
    exact absurd above (by decide)
  · exact one_le_iff

theorem atLeastOne_ne_zero (cwnd : UInt32) : (if cwnd < 1 then 1 else cwnd) ≠ 0 := by
  split_ifs with below
  · decide
  · exact one_le_iff.mp (UInt32.not_lt.mp below)

theorem two_le_halfFlight (cc : TCPCongestionControl) : 2 ≤ halfFlight cc := by
  have half (fs : UInt32) : 2 ≤ if fs / 2 < 2 then 2 else fs / 2 := by
    split_ifs with below
    · exact UInt32.le_refl 2
    · exact UInt32.not_lt.mp below
  exact half _

/-- Half of a number of 32 bits has room for the three segments that duplicate acknowledgements stand for. -/
theorem halfFlight_add_ne_zero (cc : TCPCongestionControl) : halfFlight cc + TCP_DUPACK_THRESHOLD ≠ 0 := by
  have half (fs : UInt32) : (if fs / 2 < 2 then 2 else fs / 2) + TCP_DUPACK_THRESHOLD ≠ 0 := by
    intro zero
    have wrapped := congrArg UInt32.toNat zero
    have most := fs.toNat_lt
    split_ifs at wrapped
    · exact absurd wrapped (by decide)
    · have three : TCP_DUPACK_THRESHOLD.toNat = 3 := rfl
      have two : (2 : UInt32).toNat = 2 := rfl
      have nothing : (0 : UInt32).toNat = 0 := rfl
      rw [UInt32.toNat_add, UInt32.toNat_div, three, two, nothing] at wrapped
      omega
  exact half _

end Windows

section Calls

variable {cc : TCPCongestionControl}

/-- In slow start the state stays legal unless the window wraps around to zero. -/
theorem legal_slowStart_iff (legal : Legal cc) (bytesAcked : UInt32) :
    Legal (tcpCcSlowStart cc bytesAcked) ↔ (cc.ccState = .slowStart → cc.cwnd + bytesAcked ≠ 0) := by
  rw [tcpCcSlowStart]
  split_ifs with nothing other
  · refine ⟨fun _ _ => ?_, fun _ => legal⟩
    rw [nothing, UInt32.add_zero]
    exact one_le_iff.mp legal.opened
  · exact ⟨fun _ same => absurd same other, fun _ => legal⟩
  · rw [not_not] at other
    constructor
    · intro next _
      exact one_le_clampCwnd_iff.mp next.opened
    · intro grows
      refine ⟨one_le_clampCwnd_iff.mpr (grows other), clampCwnd_le _, legal.threshold, ?_⟩
      have calm : cc.inRecovery ≠ true := fun recovers =>
        TCPCCState.noConfusion (other.symm.trans (legal.recovering.mp recovers))
      have plain (full : Prop) [Decidable full] :
          (if full then TCPCCState.congestionAvoid else cc.ccState) ≠ .fastRecovery := by
        rw [other]
        split_ifs <;> decide
      exact ⟨fun recovers => absurd recovers calm, fun recovers => absurd recovers (plain _)⟩

/-- In congestion avoidance nothing is divided by zero, and the state stays legal. -/
theorem legal_congestionAvoidance (legal : Legal cc) (bytesAcked : UInt32) :
    LegalState (tcpCcCongestionAvoidance cc bytesAcked) := by
  have opened : cc.cwnd ≠ 0 := one_le_iff.mp legal.opened
  rw [tcpCcCongestionAvoidance]
  by_cases nothing : bytesAcked = 0
  · exact ⟨cc, if_pos nothing, legal⟩
  · by_cases other : cc.ccState ≠ .congestionAvoid
    · exact ⟨cc, by rw [if_neg nothing, if_pos other], legal⟩
    · rw [if_neg nothing, if_neg other, if_neg opened]
      exact ⟨_, rfl, one_le_clampCwnd_iff.mpr (atLeastOne_ne_zero _), clampCwnd_le _, legal.threshold,
        legal.recovering⟩

/-- A loss makes any state legal. -/
theorem legal_onLoss (cc : TCPCongestionControl) (seqNum : UInt32) : Legal (tcpCcOnLoss cc seqNum) :=
  ⟨one_le_clampCwnd_iff.mpr (halfFlight_add_ne_zero cc), clampCwnd_le _, two_le_halfFlight cc,
    fun _ => rfl, fun _ => rfl⟩

/-- A timeout makes any state legal. -/
theorem legal_onTimeout (cc : TCPCongestionControl) : Legal (tcpCcOnTimeout cc) :=
  have window : 1 ≤ TCP_CWND_INIT ∧ TCP_CWND_INIT ≤ TCP_CWND_MAX := by decide
  ⟨window.1, window.2, two_le_halfFlight cc, fun recovers => (Bool.false_ne_true recovers).elim,
    fun recovers => TCPCCState.noConfusion recovers⟩

theorem legal_onDupAck (legal : Legal cc) (ackNum : UInt32) : Legal (tcpCcOnDupAck cc ackNum) := by
  rw [tcpCcOnDupAck]
  by_cases recovers : cc.inRecovery = true
  · rw [if_pos recovers]
    refine ⟨?_, clampCwnd_le _, legal.threshold, legal.recovering⟩
    apply one_le_clampCwnd_iff.mpr
    intro zero
    have wrapped := congrArg UInt32.toNat zero
    have most := UInt32.le_iff_toNat_le.mp legal.bounded
    have bound : TCP_CWND_MAX.toNat = 65535 := rfl
    have one : (1 : UInt32).toNat = 1 := rfl
    have nothing : (0 : UInt32).toNat = 0 := rfl
    rw [UInt32.toNat_add, one, nothing] at wrapped
    omega
  · rw [if_neg recovers]
    have calm : cc.ccState ≠ .fastRecovery := mt legal.recovering.mpr recovers
    have plain (third : Prop) [Decidable third] :
        (if third then TCPCCState.fastRetransmit else cc.ccState) ≠ .fastRecovery := by
      split_ifs
      · decide
      · exact calm
    exact ⟨legal.opened, legal.bounded, legal.threshold, fun other => absurd other recovers,
      fun other => absurd other (plain _)⟩

theorem legal_fastRetransmit (legal : Legal cc) : Legal (tcpCcFastRetransmit cc) := by
  rw [tcpCcFastRetransmit]
  split_ifs
  · exact legal
  · have lost := legal_onLoss cc cc.lastAck
    exact ⟨lost.opened, lost.bounded, lost.threshold, lost.recovering⟩

/-- When recovery ends, the state stays legal exactly if the threshold is a legal window. -/
theorem legal_exitRecovery_iff (legal : Legal cc) :
    Legal (tcpCcExitRecovery cc) ↔ (cc.inRecovery = true → cc.ssthresh ≤ TCP_CWND_MAX) := by
  rw [tcpCcExitRecovery]
  cases recovers : cc.inRecovery with
  | false =>
    simp only [Bool.not_false, if_true]
    exact ⟨fun _ other => absurd other Bool.false_ne_true, fun _ => legal⟩
  | true =>
    simp only [Bool.not_true, Bool.false_eq_true, if_false, forall_const]
    constructor
    · intro next
      have bounded := next.bounded
      dsimp only at bounded
      split_ifs at bounded with below
      · exact UInt32.le_trans (UInt32.le_of_lt below) (by decide)
      · exact bounded
    · intro bounded
      have window : 1 ≤ (if cc.ssthresh < TCP_CWND_INIT then TCP_CWND_INIT else cc.ssthresh) ∧
          (if cc.ssthresh < TCP_CWND_INIT then TCP_CWND_INIT else cc.ssthresh) ≤ TCP_CWND_MAX := by
        split_ifs with below
        · exact ⟨by decide, by decide⟩
        · exact ⟨UInt32.le_trans (by decide) (UInt32.not_lt.mp below), bounded⟩
      exact ⟨window.1, window.2, legal.threshold, fun other => (Bool.false_ne_true other).elim,
        fun other => TCPCCState.noConfusion other⟩

/-- What one call needs to keep the state legal. -/
theorem legal_call_iff (legal : Legal cc) (call : CcCall) : LegalState (tcpCcCall cc call) ↔ Bounded cc call := by
  have kept {next : TCPCongestionControl} : LegalState (some next) ↔ Legal next :=
    ⟨fun ⟨_, same, legal⟩ => Option.some.inj same ▸ legal, fun legal => ⟨next, rfl, legal⟩⟩
  cases call with
  | slowStart bytesAcked => exact kept.trans (legal_slowStart_iff legal bytesAcked)
  | congestionAvoidance bytesAcked => exact ⟨fun _ => trivial, fun _ => legal_congestionAvoidance legal bytesAcked⟩
  | onLoss seqNum => exact ⟨fun _ => trivial, fun _ => kept.mpr (legal_onLoss cc seqNum)⟩
  | onTimeout => exact ⟨fun _ => trivial, fun _ => kept.mpr (legal_onTimeout cc)⟩
  | onDupAck ackNum => exact ⟨fun _ => trivial, fun _ => kept.mpr (legal_onDupAck legal ackNum)⟩
  | fastRetransmit => exact ⟨fun _ => trivial, fun _ => kept.mpr (legal_fastRetransmit legal)⟩
  | exitRecovery => exact kept.trans (legal_exitRecovery_iff legal)
  | setInflight inflight =>
    exact ⟨fun _ => trivial,
      fun _ => kept.mpr ⟨legal.opened, legal.bounded, legal.threshold, legal.recovering⟩⟩

end Calls

section Runs

/-- Every state of a run is legal exactly if no call wraps the window around to zero and recovery never ends with a
threshold beyond the bound of the window. -/
theorem tcpCc_legal_iff (calls : List CcCall) :
    (∀ earlier, earlier <+: calls → LegalState (earlier.foldl ccStep (some tcpCcInit))) ↔
      Permitted ccStep BoundedCall (some tcpCcInit) calls := by
  refine Permitted.throughout_iff calls (Permitted.always calls) (motive := fun _ => True) trivial ?_ ?_ ?_
  · exact ⟨tcpCcInit, rfl, by decide, by decide, by decide, by decide⟩
  · exact fun _ _ _ _ _ => trivial
  · rintro state call - - ⟨cc, rfl, legal⟩
    refine (legal_call_iff legal call).trans ⟨fun bounded other same => ?_, fun bounded => bounded cc rfl⟩
    exact Option.some.inj same ▸ bounded

/-- The window wraps around to zero, and the threshold that was taken from what is in flight becomes the window. -/
theorem tcpCc_illegal :
    ¬LegalState ([CcCall.slowStart 4294967286].foldl ccStep (some tcpCcInit)) ∧
    ¬LegalState ([CcCall.setInflight 131072, .onLoss 0, .exitRecovery].foldl ccStep (some tcpCcInit)) := by
  constructor
  · rintro ⟨cc, ended, legal⟩
    cases ended
    exact absurd legal.opened (by decide)
  · rintro ⟨cc, ended, legal⟩
    cases ended
    exact absurd legal.bounded (by decide)

/-- Where a division by the window may follow, the window is open, and it is opened before one can follow. -/
structure Divisible (cc : TCPCongestionControl) : Prop where
  threshold : 2 ≤ cc.ssthresh
  recovering : cc.inRecovery = true → cc.ccState = .fastRecovery
  avoiding : cc.ccState = .congestionAvoid → cc.cwnd ≠ 0

theorem Divisible.slowStart {cc : TCPCongestionControl} (divisible : Divisible cc) (bytesAcked : UInt32) :
    Divisible (tcpCcSlowStart cc bytesAcked) := by
  rw [tcpCcSlowStart]
  split_ifs with nothing other
  · exact divisible
  · exact divisible
  · rw [not_not] at other
    refine ⟨divisible.threshold, ?_, ?_⟩
    · exact fun recovers => TCPCCState.noConfusion (other.symm.trans (divisible.recovering recovers))
    · intro avoids zero
      dsimp only at avoids zero
      have closed : ¬0 ≥ cc.ssthresh := fun none =>
        absurd (UInt32.le_trans divisible.threshold none) (by decide)
      rw [zero, if_neg closed, other] at avoids
      cases avoids

theorem Divisible.onDupAck {cc : TCPCongestionControl} (divisible : Divisible cc) (ackNum : UInt32) :
    Divisible (tcpCcOnDupAck cc ackNum) := by
  rw [tcpCcOnDupAck]
  by_cases recovers : cc.inRecovery = true
  · rw [if_pos recovers]
    refine ⟨divisible.threshold, divisible.recovering, ?_⟩
    exact fun avoids => TCPCCState.noConfusion (avoids.symm.trans (divisible.recovering recovers))
  · rw [if_neg recovers]
    refine ⟨divisible.threshold, fun other => absurd other recovers, ?_⟩
    intro avoids
    dsimp only at avoids
    split_ifs at avoids
    · exact divisible.avoiding avoids
    · exact divisible.avoiding avoids

theorem Divisible.call {cc : TCPCongestionControl} (divisible : Divisible cc) (call : CcCall) :
    ∃ next, tcpCcCall cc call = some next ∧ Divisible next := by
  cases call with
  | slowStart bytesAcked => exact ⟨_, rfl, divisible.slowStart bytesAcked⟩
  | congestionAvoidance bytesAcked =>
    rw [tcpCcCall, tcpCcCongestionAvoidance]
    by_cases nothing : bytesAcked = 0
    · exact ⟨cc, if_pos nothing, divisible⟩
    · by_cases other : cc.ccState ≠ .congestionAvoid
      · exact ⟨cc, by rw [if_neg nothing, if_pos other], divisible⟩
      · rw [if_neg nothing, if_neg other, if_neg (divisible.avoiding (not_not.mp other))]
        exact ⟨_, rfl, divisible.threshold, divisible.recovering,
          fun _ => one_le_iff.mp (one_le_clampCwnd_iff.mpr (atLeastOne_ne_zero _))⟩
  | onLoss seqNum => exact ⟨_, rfl, two_le_halfFlight cc, fun _ => rfl, fun avoids => TCPCCState.noConfusion avoids⟩
  | onTimeout =>
    exact ⟨_, rfl, two_le_halfFlight cc, fun recovers => absurd recovers Bool.false_ne_true, fun avoids => TCPCCState.noConfusion avoids⟩
  | onDupAck ackNum => exact ⟨_, rfl, divisible.onDupAck ackNum⟩
  | fastRetransmit =>
    refine ⟨_, rfl, ?_⟩
    rw [tcpCcFastRetransmit]
    split_ifs
    · exact divisible
    · exact ⟨two_le_halfFlight cc, fun _ => rfl, fun avoids => TCPCCState.noConfusion avoids⟩
  | exitRecovery =>
    refine ⟨_, rfl, ?_⟩
    rw [tcpCcExitRecovery]
    have window : (if cc.ssthresh < TCP_CWND_INIT then TCP_CWND_INIT else cc.ssthresh) ≠ 0 := by
      split_ifs
      · decide
      · exact one_le_iff.mp (UInt32.le_trans (by decide) divisible.threshold)
    by_cases calm : (!cc.inRecovery) = true
    · rw [if_pos calm]
      exact divisible
    · rw [if_neg calm]
      exact ⟨divisible.threshold, fun recovers => absurd recovers Bool.false_ne_true, fun _ => window⟩
  | setInflight inflight => exact ⟨_, rfl, divisible.threshold, divisible.recovering, divisible.avoiding⟩

/-- No run at all divides by zero. -/
theorem tcpCc_divisible (calls : List CcCall) : ∃ cc, calls.foldl ccStep (some tcpCcInit) = some cc := by
  have reached : Reaches ccStep Always (some tcpCcInit) (calls.foldl ccStep (some tcpCcInit)) := .ofFold calls
  have kept := reached.invariant (motive := fun state => ∃ cc, state = some cc ∧ Divisible cc)
    ⟨tcpCcInit, rfl, by decide, by decide, by decide⟩ (by
      rintro state call ⟨cc, rfl, divisible⟩ -
      exact divisible.call call)
  obtain ⟨cc, ended, -⟩ := kept
  exact ⟨cc, ended⟩

end Runs

end MiniNetDist.NetworkBase.TcpCongestion
