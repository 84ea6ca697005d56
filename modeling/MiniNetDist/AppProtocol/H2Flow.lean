import MiniNetDist.AppProtocol.H2Settings
import MiniNetDist.Library.Run
import MiniNetDist.Library.Table
import Mathlib.Algebra.Ring.Nat
import Mathlib.Order.Basic

/-! The flow control of `mini-app-protocol/src/http2_frames.c`. Sending takes from the stream's own window only,
and an increment for a stream goes to the window of the other direction. -/

namespace MiniNetDist.AppProtocol.H2Flow

open Library

def H2_MAX_STREAMS : Nat := 16

inductive H2StreamState where
  | idle
  | reservedLocal
  | reservedRemote
  | open
  | halfClosedLocal
  | halfClosedRemote
  | terminated
  deriving DecidableEq, Repr

structure H2Stream where
  streamId : BitVec 32
  state : H2StreamState
  localWindow : BitVec 32
  remoteWindow : BitVec 32
  deriving DecidableEq, Repr

structure H2Connection where
  streams : List H2Stream
  localSettings : H2.H2Settings
  remoteSettings : H2.H2Settings
  lastStreamId : BitVec 32
  connectionWindow : BitVec 32
  fits : streams.length ≤ H2_MAX_STREAMS
  deriving DecidableEq, Repr

section Operations

/-- A connection on which no stream was opened yet. -/
def newConnection (localSettings remoteSettings : H2.H2Settings)
    (lastStreamId connectionWindow : BitVec 32) : H2Connection :=
  ⟨[], localSettings, remoteSettings, lastStreamId, connectionWindow, Nat.zero_le _⟩

def h2StreamGet (conn : H2Connection) (streamId : BitVec 32) : Option H2Stream :=
  Table.find (·.streamId) conn.streams streamId

/-- Change the first stream with the id. -/
def H2Connection.update (conn : H2Connection) (streamId : BitVec 32) (change : H2Stream → H2Stream) : H2Connection :=
  { conn with
    streams := Table.update (·.streamId) conn.streams streamId change
    fits := Table.length_update.trans_le conn.fits }

def h2StreamOpen (conn : H2Connection) : Except Int (BitVec 32 × H2Connection) :=
  if room : conn.streams.length < H2_MAX_STREAMS then
    let streamId := conn.lastStreamId + 2#32
    let stream : H2Stream :=
      { streamId := streamId
        state := .open
        localWindow := conn.remoteSettings.initialWindowSize
        remoteWindow := conn.localSettings.initialWindowSize }
    .ok (streamId,
      { conn with
        streams := conn.streams ++ [stream]
        lastStreamId := streamId
        fits := List.length_append.trans_le room })
  else .error (-2)

def h2StreamClose (conn : H2Connection) (streamId : BitVec 32) : Except Int H2Connection :=
  match h2StreamGet conn streamId with
  | some _ => .ok (conn.update streamId fun stream => { stream with state := .terminated })
  | none => .error (-2)

def h2FlowControlUpdate (conn : H2Connection) (streamId increment : BitVec 32) : Except Int H2Connection :=
  if streamId = 0#32 then .ok { conn with connectionWindow := conn.connectionWindow + increment }
  else
    match h2StreamGet conn streamId with
    | some _ =>
      .ok (conn.update streamId fun stream => { stream with remoteWindow := stream.remoteWindow + increment })
    | none => .error (-2)

def h2FlowControlCanSend (conn : H2Connection) (streamId : BitVec 32) (amount : Nat) : Bool :=
  match h2StreamGet conn streamId with
  | some stream => amount ≤ stream.localWindow.toNat ∧ amount ≤ conn.remoteSettings.initialWindowSize.toNat
  | none => false

/-- The frame is built in a local buffer that nothing reads. -/
def h2SendData (conn : H2Connection) (streamId : BitVec 32) (data : Bytes)
    (endStream : Bool) : Except Int H2Connection :=
  match h2StreamGet conn streamId with
  | none => .error (-2)
  | some _ =>
    if h2FlowControlCanSend conn streamId data.length then
      .ok (conn.update streamId fun stream =>
        { stream with
          localWindow := stream.localWindow - BitVec.ofNat 32 data.length
          state := if endStream then .halfClosedLocal else stream.state })
    else .error (-3)

end Operations

section Runs

inductive FlowCall where
  | open
  | close (streamId : BitVec 32)
  | update (streamId increment : BitVec 32)
  | send (streamId : BitVec 32) (data : Bytes) (endStream : Bool)

/-- A run, with the connection window it began with, the DATA accepted and the increments granted in it. -/
structure FlowRun where
  conn : H2Connection
  window : Nat
  sent : List (BitVec 32 × Nat)
  grants : List (BitVec 32 × Nat)

def FlowRun.start (conn : H2Connection) : FlowRun := ⟨conn, conn.connectionWindow.toNat, [], []⟩

/-- A call that fails changes nothing. -/
def FlowRun.call (run : FlowRun) : FlowCall → FlowRun
  | .open =>
    match h2StreamOpen run.conn with
    | .ok (_, conn) => { run with conn := conn }
    | .error _ => run
  | .close streamId =>
    match h2StreamClose run.conn streamId with
    | .ok conn => { run with conn := conn }
    | .error _ => run
  | .update streamId increment =>
    match h2FlowControlUpdate run.conn streamId increment with
    | .ok conn =>
      { run with
        conn := conn
        grants := run.grants ++ [(streamId, increment.toNat)] }
    | .error _ => run
  | .send streamId data endStream =>
    match h2SendData run.conn streamId data endStream with
    | .ok conn =>
      { run with
        conn := conn
        sent := run.sent ++ [(streamId, data.length)] }
    | .error _ => run

def total (entries : List (BitVec 32 × Nat)) : Nat := (entries.map (·.2)).sum

/-- What the entries of one stream add up to. -/
def totalOf (entries : List (BitVec 32 × Nat)) (streamId : BitVec 32) : Nat := total (entries.filter (·.1 = streamId))

def FlowRun.initialWindow (run : FlowRun) : Nat := run.conn.remoteSettings.initialWindowSize.toNat

/-- Every stream, and the connection, keeps to the window it was given. -/
def FlowRun.WithinWindows (run : FlowRun) : Prop :=
  (∀ streamId, totalOf run.sent streamId ≤ run.initialWindow + totalOf run.grants streamId) ∧
    total run.sent ≤ run.window + totalOf run.grants 0#32

/-- An increment that was granted for a stream is added to what may be sent on it. -/
def Raises (before after : H2Connection) : FlowCall → Prop
  | .update streamId increment =>
    streamId ≠ 0#32 → (h2FlowControlUpdate before streamId increment).isOk →
      ∀ amount, h2FlowControlCanSend after streamId (amount + increment.toNat) =
        h2FlowControlCanSend before streamId amount
  | _ => True

/-- The call is in keeping with flow control. -/
def KeepsFlow (run : FlowRun) (call : FlowCall) : Prop :=
  (run.call call).WithinWindows ∧ Raises run.conn (run.call call).conn call

/-- Increments are positive numbers of 32 bits. -/
def PositiveIncrement (_ : FlowRun) : FlowCall → Prop
  | .update _ increment => 0 < increment.toInt
  | _ => True

/-- What was taken from the windows of the streams. -/
def H2Connection.used (conn : H2Connection) : Nat :=
  (conn.streams.map fun stream => conn.remoteSettings.initialWindowSize.toNat - stream.localWindow.toNat).sum

/-- No stream is given an increment, and the connection has a window for what its streams let through. -/
def Covered (run : FlowRun) : FlowCall → Prop
  | .update streamId _ => streamId = 0#32 ∨ h2StreamGet run.conn streamId = none
  | .send streamId data _ =>
    h2FlowControlCanSend run.conn streamId data.length = true →
      run.conn.used + data.length ≤ run.window + totalOf run.grants 0#32
  | _ => True

instance (run : FlowRun) : (call : FlowCall) → Decidable (PositiveIncrement run call)
  | .open => .isTrue trivial
  | .close _ => .isTrue trivial
  | .update .. => inferInstanceAs (Decidable (_ < _))
  | .send .. => .isTrue trivial

instance (run : FlowRun) : (call : FlowCall) → Decidable (Covered run call)
  | .open => .isTrue trivial
  | .close _ => .isTrue trivial
  | .update .. => inferInstanceAs (Decidable (_ ∨ _))
  | .send .. => inferInstanceAs (Decidable (_ → _))

end Runs

section Windows

variable {run : FlowRun} {conn : H2Connection} {streamId : BitVec 32} {stream : H2Stream}

@[simp] theorem totalOf_nil : totalOf [] streamId = 0 := rfl

@[simp] theorem total_append (entries : List (BitVec 32 × Nat)) (amount : Nat) :
    total (entries ++ [(streamId, amount)]) = total entries + amount := by
  simp [total]

@[simp] theorem totalOf_append (entries : List (BitVec 32 × Nat)) (other : BitVec 32) (amount : Nat) :
    totalOf (entries ++ [(other, amount)]) streamId =
      totalOf entries streamId + if other = streamId then amount else 0 := by
  by_cases same : other = streamId <;> simp [totalOf, total, same]

theorem canSend_iff (found : h2StreamGet conn streamId = some stream) (amount : Nat) :
    h2FlowControlCanSend conn streamId amount = true ↔
      amount ≤ stream.localWindow.toNat ∧ amount ≤ conn.remoteSettings.initialWindowSize.toNat := by
  rw [h2FlowControlCanSend, found]
  exact decide_eq_true_iff

theorem get_update {change : H2Stream → H2Stream} (keeps : ∀ stream, (change stream).streamId = stream.streamId)
    (other : BitVec 32) : h2StreamGet (conn.update streamId change) other =
      if other = streamId then (h2StreamGet conn streamId).map change else h2StreamGet conn other :=
  Table.find_update keeps

theorem get_update_self (found : h2StreamGet conn streamId = some stream) {change : H2Stream → H2Stream}
    (keeps : ∀ stream, (change stream).streamId = stream.streamId) :
    h2StreamGet (conn.update streamId change) streamId = some (change stream) := by
  rw [get_update keeps, if_pos rfl, found, Option.map_some]

/-- The windows of the streams account for what was sent. -/
structure Accounted (run : FlowRun) : Prop where
  bounded : ∀ stream ∈ run.conn.streams, stream.localWindow.toNat ≤ run.initialWindow
  used : run.conn.used = total run.sent
  absent (streamId : BitVec 32) : h2StreamGet run.conn streamId = none → totalOf run.sent streamId = 0
  own (streamId : BitVec 32) (stream : H2Stream) : h2StreamGet run.conn streamId = some stream →
    totalOf run.sent streamId + stream.localWindow.toNat = run.initialWindow
  covered : total run.sent ≤ run.window + totalOf run.grants 0#32

theorem accounted_start (localSettings remoteSettings : H2.H2Settings) (lastStreamId connectionWindow : BitVec 32) :
    Accounted (.start (newConnection localSettings remoteSettings lastStreamId connectionWindow)) where
  bounded _ inside := absurd inside List.not_mem_nil
  used := rfl
  absent _ _ := rfl
  own _ _ found := absurd found (Option.some_ne_none _).symm
  covered := Nat.zero_le _

theorem withinWindows_of_accounted (accounted : Accounted run) : run.WithinWindows := by
  refine ⟨?_, accounted.covered⟩
  intro streamId
  cases found : h2StreamGet run.conn streamId with
  | none => rw [accounted.absent streamId found]; exact Nat.zero_le _
  | some stream =>
    have own := accounted.own streamId stream found
    omega

/-- What is taken from the window of one stream is taken from the windows of all. -/
theorem used_update {change : H2Stream → H2Stream} (found : h2StreamGet conn streamId = some stream) {amount : Nat}
    (taken : (change stream).localWindow.toNat + amount = stream.localWindow.toNat)
    (bounded : stream.localWindow.toNat ≤ conn.remoteSettings.initialWindowSize.toNat) :
    (conn.update streamId change).used = conn.used + amount := by
  obtain ⟨earlier, later, split, -, -, changed⟩ := Table.split_of_find found
  have streams : (conn.update streamId change).streams = earlier ++ change stream :: later := changed change
  rw [H2Connection.used, H2Connection.used, streams, split]
  simp only [H2Connection.update, List.map_append, List.map_cons, List.sum_append, List.sum_cons]
  omega

/-- The stream that is found is changed, and what is taken from its window is entered as sent. -/
theorem accounted_update (accounted : Accounted run) {change : H2Stream → H2Stream} (amount : Nat)
    {sent grants : List (BitVec 32 × Nat)} (found : h2StreamGet run.conn streamId = some stream)
    (keeps : ∀ stream, (change stream).streamId = stream.streamId)
    (taken : (change stream).localWindow.toNat + amount = stream.localWindow.toNat)
    (all : total sent = total run.sent + amount)
    (each : ∀ other, totalOf sent other = totalOf run.sent other + if streamId = other then amount else 0)
    (covered : total sent ≤ run.window + totalOf grants 0#32) :
    Accounted ⟨run.conn.update streamId change, run.window, sent, grants⟩ := by
  have old := accounted.bounded stream (Table.mem_of_find found)
  refine ⟨?_, ?_, ?_, ?_, covered⟩
  · intro other inside
    obtain ⟨earlier, later, split, -, -, changed⟩ := Table.split_of_find found
    have streams : (run.conn.update streamId change).streams = earlier ++ change stream :: later := changed change
    rw [streams] at inside
    have bounded := accounted.bounded
    rw [split] at bounded
    rcases List.mem_append.mp inside with before | here
    · exact bounded other (List.mem_append_left _ before)
    rcases List.mem_cons.mp here with rfl | behind
    · exact Nat.le_trans (by omega) old
    · exact bounded other (List.mem_append_right _ (List.mem_cons_of_mem _ behind))
  · rw [used_update found taken old, accounted.used, all]
  · intro other missing
    rw [get_update keeps] at missing
    split_ifs at missing with same
    · rw [found] at missing
      exact absurd missing (Option.some_ne_none _)
    · rw [each, if_neg (Ne.symm same), accounted.absent other missing]
  · intro other changed here
    rw [get_update keeps] at here
    split_ifs at here with same
    · rw [found] at here
      obtain rfl := Option.some.inj here
      have own := accounted.own streamId stream found
      rw [each, if_pos same.symm, same]
      change _ = run.initialWindow
      omega
    · rw [each, if_neg (Ne.symm same)]
      exact accounted.own other changed here

/-- A new stream has its whole window left. -/
theorem accounted_open (accounted : Accounted run) : Accounted (run.call .open) := by
  rw [FlowRun.call, h2StreamOpen]
  by_cases room : run.conn.streams.length < H2_MAX_STREAMS
  · simp only [dif_pos room]
    refine ⟨?_, ?_, ?_, ?_, accounted.covered⟩
    · intro stream inside
      rcases List.mem_append.mp inside with old | last
      · exact accounted.bounded stream old
      · rw [List.mem_singleton.mp last]
        exact Nat.le_refl _
    · rw [← accounted.used, H2Connection.used, H2Connection.used]
      simp
    · intro streamId missing
      rw [h2StreamGet, Table.find_append, Option.or_eq_none_iff] at missing
      exact accounted.absent streamId missing.1
    · intro streamId stream found
      rw [h2StreamGet, Table.find_append] at found
      cases old : h2StreamGet run.conn streamId with
      | some record =>
        have earlier : Table.find (·.streamId) run.conn.streams streamId = some record := old
        rw [earlier, Option.some_or] at found
        obtain rfl := Option.some.inj found
        exact accounted.own streamId record old
      | none =>
        have earlier : Table.find (·.streamId) run.conn.streams streamId = none := old
        rw [earlier, Option.none_or] at found
        split_ifs at found
        obtain rfl := Option.some.inj found
        rw [accounted.absent streamId old, Nat.zero_add]
        rfl
  · simp only [dif_neg room]
    exact accounted

theorem accounted_close (accounted : Accounted run) (streamId : BitVec 32) :
    Accounted (run.call (.close streamId)) := by
  rw [FlowRun.call, h2StreamClose]
  cases found : h2StreamGet run.conn streamId with
  | none => exact accounted
  | some stream =>
    refine accounted_update accounted 0 found (fun _ => rfl) rfl rfl ?_ accounted.covered
    intro other
    rw [ite_self, Nat.add_zero]

/-- Sending what the stream lets through. -/
theorem call_send_allowed {data : Bytes} (endStream : Bool)
    (allowed : h2FlowControlCanSend run.conn streamId data.length = true) :
    ∃ stream, h2StreamGet run.conn streamId = some stream ∧ data.length ≤ stream.localWindow.toNat ∧
      run.call (.send streamId data endStream) =
        ⟨run.conn.update streamId fun stream =>
            { stream with
              localWindow := stream.localWindow - BitVec.ofNat 32 data.length
              state := if endStream then .halfClosedLocal else stream.state },
          run.window, run.sent ++ [(streamId, data.length)], run.grants⟩ := by
  cases found : h2StreamGet run.conn streamId with
  | none =>
    rw [h2FlowControlCanSend, found] at allowed
    exact absurd allowed Bool.false_ne_true
  | some stream =>
    refine ⟨stream, rfl, ((canSend_iff found _).mp allowed).1, ?_⟩
    rw [FlowRun.call, h2SendData, found]
    simp only [if_pos allowed]

theorem call_send_refused {data : Bytes} {endStream : Bool}
    (refused : ¬ h2FlowControlCanSend run.conn streamId data.length = true) :
    run.call (.send streamId data endStream) = run := by
  rw [FlowRun.call, h2SendData]
  cases h2StreamGet run.conn streamId with
  | none => rfl
  | some stream => simp only [if_neg refused]

theorem accounted_send (accounted : Accounted run) {data : Bytes} {endStream : Bool}
    (covered : Covered run (.send streamId data endStream)) :
    Accounted (run.call (.send streamId data endStream)) := by
  by_cases allowed : h2FlowControlCanSend run.conn streamId data.length = true
  · obtain ⟨stream, found, fits, called⟩ := call_send_allowed endStream allowed
    rw [called]
    refine accounted_update accounted data.length found (fun _ => rfl) ?_ (total_append ..)
      (fun other => totalOf_append ..) ?_
    · have size : data.length < 2 ^ 32 := Nat.lt_of_le_of_lt fits stream.localWindow.isLt
      have small : (BitVec.ofNat 32 data.length).toNat = data.length := Nat.mod_eq_of_lt size
      have order : BitVec.ofNat 32 data.length ≤ stream.localWindow := by
        rw [BitVec.le_def, small]
        exact fits
      change (stream.localWindow - BitVec.ofNat 32 data.length).toNat + data.length = _
      rw [BitVec.toNat_sub_of_le order, small]
      omega
    · rw [total_append, ← accounted.used]
      exact covered allowed
  · rw [call_send_refused allowed]
    exact accounted

theorem accounted_grant (accounted : Accounted run) {increment : BitVec 32}
    (covered : Covered run (.update streamId increment)) : Accounted (run.call (.update streamId increment)) := by
  rw [FlowRun.call, h2FlowControlUpdate]
  by_cases whole : streamId = 0#32
  · simp only [if_pos whole]
    refine ⟨accounted.bounded, accounted.used, accounted.absent, accounted.own, ?_⟩
    have before := accounted.covered
    rw [totalOf_append]
    exact Nat.le_trans before (Nat.add_le_add_left (Nat.le_add_right _ _) _)
  · rw [if_neg whole, covered.resolve_left whole]
    exact accounted

theorem accounted_call (accounted : Accounted run) (call : FlowCall) (covered : Covered run call) :
    Accounted (run.call call) := by
  cases call with
  | «open» => exact accounted_open accounted
  | close streamId => exact accounted_close accounted streamId
  | update streamId increment => exact accounted_grant accounted covered
  | send streamId data endStream => exact accounted_send accounted covered

/-- An increment that is granted for a stream does not change what may be sent on it. -/
theorem not_raises {increment : BitVec 32} (positive : 0 < increment.toInt) (whole : streamId ≠ 0#32)
    (found : h2StreamGet run.conn streamId = some stream) :
    ¬ Raises run.conn (run.call (.update streamId increment)).conn (.update streamId increment) := by
  intro raises
  have granted : h2FlowControlUpdate run.conn streamId increment = .ok (run.conn.update streamId fun stream =>
      { stream with remoteWindow := stream.remoteWindow + increment }) := by
    rw [h2FlowControlUpdate, if_neg whole, found]
  have changed : h2StreamGet (run.call (.update streamId increment)).conn streamId =
      some { stream with remoteWindow := stream.remoteWindow + increment } := by
    rw [FlowRun.call, granted]
    exact get_update_self found fun _ => rfl
  have larger : 0 < increment.toNat := by
    rcases Nat.eq_zero_or_pos increment.toNat with zero | more
    · rw [BitVec.toInt_eq_toNat_cond, zero] at positive
      exact absurd positive (by decide)
    · exact more
  -- The most that may be sent before is compared with what should be allowed afterwards.
  let most := min stream.localWindow.toNat run.conn.remoteSettings.initialWindowSize.toNat
  have before : h2FlowControlCanSend run.conn streamId most = true :=
    (canSend_iff found most).mpr ⟨Nat.min_le_left _ _, Nat.min_le_right _ _⟩
  have after := raises whole (by rw [granted]; rfl) most
  rw [before, canSend_iff changed] at after
  have settings : (run.call (.update streamId increment)).conn.remoteSettings = run.conn.remoteSettings := by
    rw [FlowRun.call, granted]
    rfl
  rw [settings] at after
  have kept : most + increment.toNat ≤ stream.localWindow.toNat := after.1
  omega

theorem keepsFlow_iff (accounted : Accounted run) (call : FlowCall) (positive : PositiveIncrement run call) :
    KeepsFlow run call ↔ Covered run call := by
  constructor
  · rintro ⟨within, raises⟩
    cases call with
    | «open» => trivial
    | close streamId => trivial
    | update streamId increment =>
      by_contra uncovered
      obtain ⟨whole, present⟩ := not_or.mp uncovered
      obtain ⟨stream, found⟩ := Option.ne_none_iff_exists'.mp present
      exact not_raises positive whole found raises
    | send streamId data endStream =>
      intro allowed
      obtain ⟨stream, -, -, called⟩ := call_send_allowed endStream allowed
      have all := within.2
      rw [called, total_append, ← accounted.used] at all
      exact all
  · intro covered
    refine ⟨withinWindows_of_accounted (accounted_call accounted call covered), ?_⟩
    cases call with
    | «open» => trivial
    | close streamId => trivial
    | send streamId data endStream => trivial
    | update streamId increment =>
      intro whole granted
      rw [h2FlowControlUpdate, if_neg whole, covered.resolve_left whole] at granted
      exact absurd granted Bool.false_ne_true

/-- Every call of a run is in keeping with flow control exactly if no stream is given an increment and the connection
has a window for what its streams let through. -/
theorem h2_flow_control_iff (localSettings remoteSettings : H2.H2Settings) (lastStreamId connectionWindow : BitVec 32)
    (calls : List FlowCall) (positive : Permitted FlowRun.call PositiveIncrement
      (.start (newConnection localSettings remoteSettings lastStreamId connectionWindow)) calls) :
    Permitted FlowRun.call KeepsFlow
        (.start (newConnection localSettings remoteSettings lastStreamId connectionWindow)) calls ↔
      Permitted FlowRun.call Covered
        (.start (newConnection localSettings remoteSettings lastStreamId connectionWindow)) calls := by
  have initial := accounted_start localSettings remoteSettings lastStreamId connectionWindow
  refine Permitted.congr calls positive initial ?_ ?_
  · intro run call accounted positive keeps
    exact accounted_call accounted call ((keepsFlow_iff accounted call positive).mp keeps)
  · intro run call accounted positive
    exact keepsFlow_iff accounted call positive

/-- The connection of the repository's own demo, which sends on one stream. -/
def demoConnection : H2Connection := newConnection H2.h2SettingsInit H2.h2SettingsInit 0#32 65535#32

def demoCalls : List FlowCall := [.open, .send 2#32 [72, 105] false, .update 0#32 65535#32, .close 2#32]

theorem h2_flow_control_demo : Permitted FlowRun.call KeepsFlow (.start demoConnection) demoCalls :=
  (h2_flow_control_iff H2.h2SettingsInit H2.h2SettingsInit 0#32 65535#32 demoCalls (by decide)).mpr (by decide)

/-- With a connection window of one byte, a stream still sends two. -/
theorem connection_window_overrun :
    Permitted FlowRun.call PositiveIncrement (.start (newConnection H2.h2SettingsInit H2.h2SettingsInit 0#32 1#32))
        [.open, .send 2#32 [72, 105] false] ∧
      ¬ Permitted FlowRun.call KeepsFlow (.start (newConnection H2.h2SettingsInit H2.h2SettingsInit 0#32 1#32))
        [.open, .send 2#32 [72, 105] false] := by
  refine ⟨⟨trivial, trivial, trivial⟩, ?_⟩
  rintro ⟨-, ⟨⟨-, whole⟩, -⟩, -⟩
  exact absurd whole (by decide)

end Windows

end MiniNetDist.AppProtocol.H2Flow
