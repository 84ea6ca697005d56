import MiniNetDist.Library.Run
import Mathlib.Data.List.Nodup
import Mathlib.Data.List.Basic

/-! The snapshot algorithm of `mini-dist-system-theory/src/snapshot.c`. Arrays that are indexed by
process are functions of the index. Messages in flight are never taken out of their array, so a
delivery goes by the position of the message. -/

namespace MiniNetDist.SystemTheory.Snapshot

def SNAP_MAX_NODES : Nat := 8
def SNAP_MAX_INFLIGHT : Nat := 256

inductive SnapMsgType where
  | app
  | marker
  deriving DecidableEq, Repr

structure SnapMessage where
  type : SnapMsgType
  source : Nat
  target : Nat
  data : Int
  deriving DecidableEq, Repr

structure SnapProcessState where
  stateValue : Int
  balance : Int
  recorded : Bool
  deriving DecidableEq, Repr

structure SnapChannelState where
  msgCount : Int
  recording : Bool
  deriving DecidableEq, Repr

/-- `channels` holds the state of the channels into the process, `neighbors` the ends of those
that leave it. -/
structure SnapProcess where
  id : Nat
  localState : SnapProcessState
  channels : Nat → SnapChannelState
  markerReceived : Nat → Bool
  markerSent : Nat → Bool
  neighbors : List Nat

structure SnapSystem where
  processes : Nat → SnapProcess
  processCount : Nat
  inflightMsgs : List SnapMessage

def SnapSystem.put (sys : SnapSystem) (i : Nat) (proc : SnapProcess) : SnapSystem :=
  { sys with processes := Function.update sys.processes i proc }

theorem SnapSystem.put_self (sys : SnapSystem) (i : Nat) (proc : SnapProcess) : (sys.put i proc).processes i = proc :=
  Function.update_self ..

def snapEnqueueMsg (sys : SnapSystem) (msg : SnapMessage) : SnapSystem :=
  if sys.inflightMsgs.length ≥ SNAP_MAX_INFLIGHT then sys
  else { sys with inflightMsgs := sys.inflightMsgs ++ [msg] }

def snapInitSystem (n : Nat) (stateValues : Nat → Int) : SnapSystem :=
  { processes := fun i => ⟨i, ⟨stateValues i, 0, false⟩, fun _ => ⟨0, false⟩, fun _ => false, fun _ => false, []⟩
    processCount := if n > SNAP_MAX_NODES then SNAP_MAX_NODES else n
    inflightMsgs := [] }

def snapAddChannel (sys : SnapSystem) (source target : Int) : SnapSystem :=
  if source < 0 ∨ source ≥ sys.processCount ∨ target < 0 ∨ target ≥ sys.processCount ∨ source = target then sys
  else
    let proc := sys.processes source.toNat
    if proc.neighbors.length ≥ SNAP_MAX_NODES then sys
    else if target.toNat ∈ proc.neighbors then sys
    else sys.put source.toNat { proc with neighbors := proc.neighbors ++ [target.toNat] }

/-- The process takes down its state and begins to record all channels. -/
def SnapProcess.record (proc : SnapProcess) : SnapProcess :=
  { proc with
    localState := { proc.localState with recorded := true }
    channels := fun i => if i < SNAP_MAX_NODES then ⟨0, true⟩ else proc.channels i }

def SnapProcess.stopRecording (proc : SnapProcess) (source : Nat) : SnapProcess :=
  { proc with channels := Function.update proc.channels source { proc.channels source with recording := false } }

def snapSendMarker (sys : SnapSystem) (i peer : Nat) : SnapSystem :=
  let sys := snapEnqueueMsg sys ⟨.marker, i, peer, 0⟩
  let proc := sys.processes i
  sys.put i { proc with markerSent := Function.update proc.markerSent peer true }

def snapInitiateSnapshot (sys : SnapSystem) (initiator : Nat) : SnapSystem :=
  let proc := (sys.processes initiator).record
  proc.neighbors.foldl (fun sys peer => snapSendMarker sys initiator peer) (sys.put initiator proc)

def snapProcessMarker (sys : SnapSystem) (procId source : Nat) : SnapSystem :=
  let proc := sys.processes procId
  if proc.markerReceived source then sys.put procId (proc.stopRecording source)
  else
    let proc := { proc with markerReceived := Function.update proc.markerReceived source true }
    if !proc.localState.recorded then
      let proc := proc.record.stopRecording source
      proc.neighbors.foldl
        (fun sys peer => if (sys.processes procId).markerSent peer then sys else snapSendMarker sys procId peer)
        (sys.put procId proc)
    else sys.put procId (proc.stopRecording source)

def snapIsComplete (sys : SnapSystem) : Bool :=
  (List.range sys.processCount).all fun i =>
    (sys.processes i).localState.recorded &&
      (sys.processes i).neighbors.all fun peer => !((sys.processes i).channels peer).recording

section Sending

variable {sys : SnapSystem} {i : Nat}

/-- The process as it is when it has sent a marker to each of the peers. -/
def SnapProcess.sentTo (proc : SnapProcess) (peers : List Nat) : SnapProcess :=
  { proc with markerSent := fun peer => decide (peer ∈ peers) || proc.markerSent peer }

def markersTo (i : Nat) (peers : List Nat) : List SnapMessage := peers.map fun peer => ⟨.marker, i, peer, 0⟩

def SnapSystem.sending (sys : SnapSystem) (i : Nat) (peers : List Nat) : SnapSystem :=
  { sys.put i ((sys.processes i).sentTo peers) with inflightMsgs := sys.inflightMsgs ++ markersTo i peers }

theorem sending_nil : sys.sending i [] = sys := by
  have same : (sys.processes i).sentTo [] = sys.processes i := by
    unfold SnapProcess.sentTo
    simp
  unfold SnapSystem.sending SnapSystem.put
  rw [same, Function.update_eq_self, markersTo, List.map_nil, List.append_nil]

theorem snapSendMarker_eq (room : sys.inflightMsgs.length < SNAP_MAX_INFLIGHT) (peer : Nat) :
    snapSendMarker sys i peer = sys.sending i [peer] := by
  have sent : Function.update (sys.processes i).markerSent peer true =
      fun other => decide (other ∈ [peer]) || (sys.processes i).markerSent other := by
    funext other
    by_cases here : other = peer
    · subst here
      simp
    · simp [here]
  unfold snapSendMarker snapEnqueueMsg
  rw [if_neg (Nat.not_le.mpr room)]
  simp only [SnapSystem.sending, SnapSystem.put, SnapProcess.sentTo, sent, markersTo, List.map_cons, List.map_nil]

theorem sentTo_sentTo (proc : SnapProcess) (peer : Nat) (rest : List Nat) :
    (proc.sentTo [peer]).sentTo rest = proc.sentTo (peer :: rest) := by
  unfold SnapProcess.sentTo
  congr 1
  funext other
  simp only [List.mem_cons, List.not_mem_nil, or_false, ← Bool.or_assoc]
  rw [Bool.decide_or, Bool.or_comm (decide (other ∈ rest))]

theorem sending_cons (peer : Nat) (rest : List Nat) :
    (sys.sending i [peer]).sending i rest = sys.sending i (peer :: rest) := by
  unfold SnapSystem.sending SnapSystem.put
  simp only [Function.update_self, Function.update_idem, sentTo_sentTo]
  rw [List.append_assoc]
  rfl

/-- With room in flight, the first loop sends a marker to each neighbour. -/
theorem snapSendMarker_fold (peers : List Nat) (room : sys.inflightMsgs.length + peers.length ≤ SNAP_MAX_INFLIGHT) :
    peers.foldl (fun sys peer => snapSendMarker sys i peer) sys = sys.sending i peers := by
  induction peers generalizing sys with
  | nil => exact sending_nil.symm
  | cons peer rest ih =>
    rw [List.length_cons] at room
    rw [List.foldl_cons, snapSendMarker_eq (by omega), ih, sending_cons]
    change (sys.inflightMsgs ++ markersTo i [peer]).length + rest.length ≤ SNAP_MAX_INFLIGHT
    rw [List.length_append, markersTo, List.length_map, List.length_singleton]
    omega

/-- So does the loop that looks first whether one was sent, when none was. -/
theorem snapSendMarker_fold_unsent (peers : List Nat) (distinct : peers.Nodup)
    (unsent : ∀ peer ∈ peers, (sys.processes i).markerSent peer = false)
    (room : sys.inflightMsgs.length + peers.length ≤ SNAP_MAX_INFLIGHT) :
    peers.foldl (fun sys peer => if (sys.processes i).markerSent peer then sys else snapSendMarker sys i peer) sys =
      sys.sending i peers := by
  induction peers generalizing sys with
  | nil => exact sending_nil.symm
  | cons peer rest ih =>
    obtain ⟨fresh, others⟩ := List.nodup_cons.mp distinct
    rw [List.length_cons] at room
    rw [List.foldl_cons, unsent peer List.mem_cons_self, if_neg Bool.false_ne_true, snapSendMarker_eq (by omega),
      ih others, sending_cons]
    · intro other inside
      change (Function.update sys.processes i ((sys.processes i).sentTo [peer]) i).markerSent other = false
      have different : other ≠ peer := fun same => fresh (same ▸ inside)
      rw [Function.update_self]
      simp [SnapProcess.sentTo, different, unsent other (List.mem_cons_of_mem _ inside)]
    · change (sys.inflightMsgs ++ markersTo i [peer]).length + rest.length ≤ SNAP_MAX_INFLIGHT
      rw [List.length_append, markersTo, List.length_map, List.length_singleton]
      omega

/-- The process with a marker noted as received. -/
def SnapProcess.hear (proc : SnapProcess) (source : Nat) : SnapProcess :=
  { proc with markerReceived := Function.update proc.markerReceived source true }

/-- The first marker that reaches a process makes it record and pass on markers. -/
theorem snapProcessMarker_record {source : Nat} (first : (sys.processes i).markerReceived source = false)
    (before : (sys.processes i).localState.recorded = false) (distinct : (sys.processes i).neighbors.Nodup)
    (unsent : ∀ peer, (sys.processes i).markerSent peer = false)
    (room : sys.inflightMsgs.length + (sys.processes i).neighbors.length ≤ SNAP_MAX_INFLIGHT) :
    snapProcessMarker sys i source =
      (sys.put i (((sys.processes i).hear source).record.stopRecording source)).sending i
        (sys.processes i).neighbors := by
  unfold snapProcessMarker
  simp only [first, before, Bool.false_eq_true, if_false, Bool.not_false, if_true]
  refine snapSendMarker_fold_unsent (sys.processes i).neighbors distinct ?_ room
  intro peer _
  rw [SnapSystem.put_self]
  exact unsent peer

/-- A later one only ends the recording of its channel. -/
theorem snapProcessMarker_stop {source : Nat} (first : (sys.processes i).markerReceived source = false)
    (before : (sys.processes i).localState.recorded = true) :
    snapProcessMarker sys i source =
      (sys.put i (((sys.processes i).hear source).stopRecording source)).sending i [] := by
  unfold snapProcessMarker
  simp only [first, before, Bool.false_eq_true, if_false, Bool.not_true]
  exact sending_nil.symm

end Sending

end MiniNetDist.SystemTheory.Snapshot
