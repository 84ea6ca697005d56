import MiniNetDist.AppProtocol.Mqtt
import MiniNetDist.Library.Run
import Mathlib.Data.List.Perm.Basic
import Mathlib.Data.Multiset.AddSub

/-! The acknowledgements of `mini-app-protocol/src/mqtt.c`. Outgoing and incoming messages share a table in which a
record is found by its packet id alone, so a message can stand before another of the same id. -/

namespace MiniNetDist.AppProtocol.Mqtt

open Library

inductive MQTTQoS where
  | qos0
  | qos1
  | qos2
  deriving DecidableEq, Repr

inductive MQTTQoSState where
  | idle
  | awaitingPuback
  | awaitingPubrec
  | awaitingPubrel
  | awaitingPubcomp
  | complete
  deriving DecidableEq, Repr

/-- The payload is gone once it was freed. -/
structure MQTTQoSTracker where
  packetId : BitVec 16
  qos : MQTTQoS
  state : MQTTQoSState
  payload : Option Bytes
  payloadLen : Nat
  topic : CharArray MQTT_MAX_TOPIC
  retain : Bool
  retryCount : BitVec 32
  maxRetries : BitVec 32
  deriving DecidableEq, Repr

def MAX_TRACKERS : Nat := 64

structure MQTTQoSManager where
  trackers : List MQTTQoSTracker
  fits : trackers.length ≤ MAX_TRACKERS
  deriving DecidableEq, Repr

section Operations

def mqttQosManagerInit : MQTTQoSManager := ⟨[], Nat.zero_le _⟩

def mqttQosFind (mgr : MQTTQoSManager) (packetId : BitVec 16) : Option MQTTQoSTracker :=
  Table.find (·.packetId) mgr.trackers packetId

def newTracker (packetId : BitVec 16) (qos : MQTTQoS) (state : MQTTQoSState) (topic : CString) (payload : Bytes)
    (retain : Bool) : MQTTQoSTracker :=
  { packetId := packetId
    qos := qos
    state := state
    payload := some payload
    payloadLen := payload.length
    topic := .store MQTT_MAX_TOPIC topic
    retain := retain
    retryCount := 0#32
    maxRetries := 5#32 }

def track (mgr : MQTTQoSManager) (tracker : MQTTQoSTracker) : Except Int MQTTQoSManager :=
  if tracker.qos = .qos0 then .ok mgr
  else if room : mgr.trackers.length < MAX_TRACKERS then
    .ok ⟨mgr.trackers ++ [tracker], List.length_append.trans_le room⟩
  else .error (-2)

def outgoingTracker (packetId : BitVec 16) (qos : MQTTQoS) : CString → Bytes → Bool → MQTTQoSTracker :=
  newTracker packetId qos (if qos = .qos1 then .awaitingPuback else .awaitingPubrec)

def incomingTracker (packetId : BitVec 16) (qos : MQTTQoS) : CString → Bytes → Bool → MQTTQoSTracker :=
  newTracker packetId qos (if qos = .qos1 then .complete else .awaitingPubrel)

def mqttQosTrackOutgoing (mgr : MQTTQoSManager) (packetId : BitVec 16) (qos : MQTTQoS) (topic : CString)
    (payload : Bytes) (retain : Bool) : Except Int MQTTQoSManager :=
  track mgr (outgoingTracker packetId qos topic payload retain)

def mqttQosTrackIncoming (mgr : MQTTQoSManager) (packetId : BitVec 16) (qos : MQTTQoS) (topic : CString)
    (payload : Bytes) (retain : Bool) : Except Int MQTTQoSManager :=
  track mgr (incomingTracker packetId qos topic payload retain)

/-- The record that is found is changed if it is in the awaited state. -/
def handle (mgr : MQTTQoSManager) (packetId : BitVec 16) (awaited : MQTTQoSState)
    (change : MQTTQoSTracker → MQTTQoSTracker) : Except Int MQTTQoSManager :=
  match mqttQosFind mgr packetId with
  | none => .error (-2)
  | some tracker =>
    if tracker.state = awaited then
      .ok ⟨Table.update (·.packetId) mgr.trackers packetId change, Table.length_update.trans_le mgr.fits⟩
    else .error (-3)

def MQTTQoSTracker.complete (tracker : MQTTQoSTracker) : MQTTQoSTracker :=
  { tracker with
    state := .complete
    payload := none }

def MQTTQoSTracker.received (tracker : MQTTQoSTracker) : MQTTQoSTracker := { tracker with state := .awaitingPubcomp }

def mqttQosHandlePuback (mgr : MQTTQoSManager) (packetId : BitVec 16) : Except Int MQTTQoSManager :=
  handle mgr packetId .awaitingPuback (·.complete)

def mqttQosHandlePubrec (mgr : MQTTQoSManager) (packetId : BitVec 16) : Except Int MQTTQoSManager :=
  handle mgr packetId .awaitingPubrec (·.received)

def mqttQosHandlePubrel (mgr : MQTTQoSManager) (packetId : BitVec 16) : Except Int MQTTQoSManager :=
  handle mgr packetId .awaitingPubrel (·.complete)

def mqttQosHandlePubcomp (mgr : MQTTQoSManager) (packetId : BitVec 16) : Except Int MQTTQoSManager :=
  handle mgr packetId .awaitingPubcomp (·.complete)

def mqttQosRemove (mgr : MQTTQoSManager) (packetId : BitVec 16) : MQTTQoSManager :=
  match Table.position (·.packetId) mgr.trackers packetId with
  | some i => ⟨swapRemove mgr.trackers i, (length_swapRemove_le mgr.trackers i).trans mgr.fits⟩
  | none => mgr

def mqttQosIsComplete (mgr : MQTTQoSManager) (packetId : BitVec 16) : Bool :=
  match mqttQosFind mgr packetId with
  | some tracker => tracker.state = .complete
  | none => false

end Operations

section Runs

inductive Direction where
  | outgoing
  | incoming
  deriving DecidableEq, Repr

inductive Acknowledgement where
  | puback
  | pubrec
  | pubrel
  | pubcomp
  deriving DecidableEq, Repr

/-- Whoever removes a message knows its direction, which the code is not told. -/
inductive QosCall where
  | track (direction : Direction) (packetId : BitVec 16) (qos : MQTTQoS) (topic : CString) (payload : Bytes)
      (retain : Bool)
  | acknowledge (packet : Acknowledgement) (packetId : BitVec 16)
  | remove (direction : Direction) (packetId : BitVec 16)

/-- A call that fails leaves the manager as it is. -/
def MQTTQoSManager.call (mgr : MQTTQoSManager) : QosCall → MQTTQoSManager
  | .track .outgoing packetId qos topic payload retain =>
    (mqttQosTrackOutgoing mgr packetId qos topic payload retain).toOption.getD mgr
  | .track .incoming packetId qos topic payload retain =>
    (mqttQosTrackIncoming mgr packetId qos topic payload retain).toOption.getD mgr
  | .acknowledge .puback packetId => (mqttQosHandlePuback mgr packetId).toOption.getD mgr
  | .acknowledge .pubrec packetId => (mqttQosHandlePubrec mgr packetId).toOption.getD mgr
  | .acknowledge .pubrel packetId => (mqttQosHandlePubrel mgr packetId).toOption.getD mgr
  | .acknowledge .pubcomp packetId => (mqttQosHandlePubcomp mgr packetId).toOption.getD mgr
  | .remove _ packetId => mqttQosRemove mgr packetId

end Runs

section Ledger

/-- A message with the record it should have. -/
structure Message where
  direction : Direction
  tracker : MQTTQoSTracker
  deriving DecidableEq, Repr

/-- A message is named by its direction and its packet id. -/
def Message.name (message : Message) : Direction × BitVec 16 := (message.direction, message.tracker.packetId)

def Acknowledgement.direction : Acknowledgement → Direction
  | .pubrel => .incoming
  | _ => .outgoing

def Acknowledgement.awaited : Acknowledgement → MQTTQoSState
  | .puback => .awaitingPuback
  | .pubrec => .awaitingPubrec
  | .pubrel => .awaitingPubrel
  | .pubcomp => .awaitingPubcomp

def Acknowledgement.answer : Acknowledgement → MQTTQoSTracker → MQTTQoSTracker
  | .pubrec => (·.received)
  | _ => (·.complete)

def Direction.tracker : Direction → BitVec 16 → MQTTQoS → CString → Bytes → Bool → MQTTQoSTracker
  | .outgoing => outgoingTracker
  | .incoming => incomingTracker

/-- A message is advanced by the acknowledgement it waits for, with its own name. -/
def Message.acknowledge (packet : Acknowledgement) (packetId : BitVec 16) (message : Message) : Message :=
  if message.name = (packet.direction, packetId) ∧ message.tracker.state = packet.awaited then
    { message with tracker := packet.answer message.tracker }
  else message

/-- What should become of the messages: each follows its own acknowledgements. -/
def ledgerCall (ledger : List Message) : QosCall → List Message
  | .track direction packetId qos topic payload retain =>
    if qos = .qos0 ∨ MAX_TRACKERS ≤ ledger.length then ledger
    else ledger ++ [⟨direction, direction.tracker packetId qos topic payload retain⟩]
  | .acknowledge packet packetId => ledger.map (·.acknowledge packet packetId)
  | .remove direction packetId => ledger.filter (·.name ≠ (direction, packetId))

structure QosRun where
  mgr : MQTTQoSManager
  ledger : List Message
  deriving DecidableEq, Repr

def QosRun.start : QosRun := ⟨mqttQosManagerInit, []⟩

def QosRun.call (run : QosRun) (call : QosCall) : QosRun := ⟨run.mgr.call call, ledgerCall run.ledger call⟩

/-- The table holds the messages as they should be. -/
def QosRun.Independent (run : QosRun) : Prop := (run.ledger.map (·.tracker)).Perm run.mgr.trackers

instance (run : QosRun) : Decidable run.Independent := inferInstanceAs (Decidable (List.Perm _ _))

/-- A new message has a packet id that is not in use in its direction. -/
def UnusedId (run : QosRun) : QosCall → Prop
  | .track direction packetId .. => (direction, packetId) ∉ run.ledger.map (·.name)
  | _ => True

/-- The first record with the packet id is the one that waits for the acknowledgement, if one does, or that is to be
removed. -/
def FindsOwn (run : QosRun) : QosCall → Prop
  | .track .. => True
  | .acknowledge packet packetId =>
    (∃ tracker ∈ run.mgr.trackers, tracker.packetId = packetId ∧ tracker.state = packet.awaited) →
      ∃ tracker ∈ mqttQosFind run.mgr packetId, tracker.state = packet.awaited
  | .remove direction packetId =>
    mqttQosFind run.mgr packetId = (Table.find (·.name) run.ledger (direction, packetId)).map (·.tracker)

instance (run : QosRun) : (call : QosCall) → Decidable (UnusedId run call)
  | .track direction packetId .. => inferInstanceAs (Decidable ((direction, packetId) ∉ _))
  | .acknowledge .. => .isTrue trivial
  | .remove .. => .isTrue trivial

instance (run : QosRun) : (call : QosCall) → Decidable (FindsOwn run call)
  | .track .. => .isTrue trivial
  | .acknowledge .. => inferInstanceAs (Decidable (_ → _))
  | .remove .. => inferInstanceAs (Decidable (_ = _))

end Ledger

section Independence

variable {run : QosRun} {mgr : MQTTQoSManager} {ledger : List Message} {packet : Acknowledgement}
  {packetId : BitVec 16}

/-- No two messages share a name, and what a message waits for fits its direction. -/
structure Sound (ledger : List Message) : Prop where
  distinct : (ledger.map (·.name)).Nodup
  fitting : ∀ message ∈ ledger, ∀ packet : Acknowledgement, message.tracker.state = packet.awaited →
    message.direction = packet.direction

theorem acknowledge_name (packet : Acknowledgement) (packetId : BitVec 16) (message : Message) :
    (message.acknowledge packet packetId).name = message.name := by
  rw [Message.acknowledge]
  split_ifs
  · cases packet <;> rfl
  · rfl

theorem packetId_new (direction : Direction) (packetId : BitVec 16) (qos : MQTTQoS) (topic : CString)
    (payload : Bytes)
    (retain : Bool) : (direction.tracker packetId qos topic payload retain).packetId = packetId := by
  cases direction <;> rfl

/-- The state a new message starts in. -/
theorem direction_of_new {direction : Direction} {qos : MQTTQoS} {topic : CString} {payload : Bytes} {retain : Bool}
    (waits : (direction.tracker packetId qos topic payload retain).state = packet.awaited) :
    direction = packet.direction := by
  cases direction <;> cases qos <;> cases packet <;> first | rfl | cases waits

/-- An acknowledged message waits for nothing more, or for the PUBCOMP after its PUBREC. -/
theorem answer_state (packet : Acknowledgement) (tracker : MQTTQoSTracker) :
    (packet.answer tracker).state = .complete ∨
      packet = .pubrec ∧ (packet.answer tracker).state = .awaitingPubcomp := by
  cases packet with
  | pubrec => exact .inr ⟨rfl, rfl⟩
  | puback => exact .inl rfl
  | pubrel => exact .inl rfl
  | pubcomp => exact .inl rfl

theorem sound_call (sound : Sound run.ledger) (call : QosCall) (unused : UnusedId run call) :
    Sound (run.call call).ledger := by
  obtain ⟨distinct, fitting⟩ := sound
  cases call with
  | track direction packetId qos topic payload retain =>
    simp only [QosRun.call, ledgerCall]
    split_ifs
    · exact ⟨distinct, fitting⟩
    constructor
    · rw [List.map_append, List.map_singleton, Message.name, packetId_new, ← List.concat_eq_append]
      exact distinct.concat unused
    · intro message inside packet waits
      rcases List.mem_append.mp inside with old | last
      · exact fitting message old packet waits
      · obtain rfl := List.mem_singleton.mp last
        exact direction_of_new waits
  | acknowledge packet packetId =>
    constructor
    · have same : (run.call (.acknowledge packet packetId)).ledger.map (·.name) = run.ledger.map (·.name) := by
        rw [QosRun.call, ledgerCall, List.map_map]
        exact List.map_congr_left fun message _ => acknowledge_name packet packetId message
      rw [same]
      exact distinct
    · intro message inside other waits
      obtain ⟨old, present, rfl⟩ := List.mem_map.mp inside
      rw [Message.acknowledge] at waits ⊢
      split_ifs at waits ⊢ with own
      · rcases answer_state packet old.tracker with complete | ⟨rfl, further⟩
        · rw [complete] at waits
          cases other <;> cases waits
        · rw [further] at waits
          have outgoing : old.direction = .outgoing := congrArg Prod.fst own.1
          cases other <;> first | exact outgoing | cases waits
      · exact fitting old present other waits
  | remove direction packetId =>
    constructor
    · exact distinct.sublist (List.filter_sublist.map _)
    · intro message inside packet waits
      exact fitting message (List.mem_of_mem_filter inside) packet waits

/-- The record waits for the packet. -/
def MQTTQoSTracker.Waits (tracker : MQTTQoSTracker) (packet : Acknowledgement) (packetId : BitVec 16) : Prop :=
  tracker.packetId = packetId ∧ tracker.state = packet.awaited

instance (tracker : MQTTQoSTracker) (packet : Acknowledgement) (packetId : BitVec 16) :
    Decidable (tracker.Waits packet packetId) := inferInstanceAs (Decidable (_ ∧ _))

/-- The records, each answered if it waits for the packet. -/
def answered (packet : Acknowledgement) (packetId : BitVec 16)
    (trackers : List MQTTQoSTracker) : List MQTTQoSTracker :=
  trackers.map fun tracker => if tracker.Waits packet packetId then packet.answer tracker else tracker

theorem answered_of_none {trackers : List MQTTQoSTracker}
    (none : ∀ tracker ∈ trackers, ¬ tracker.Waits packet packetId) :
    answered packet packetId trackers = trackers := by
  refine (List.map_congr_left ?_).trans (List.map_id trackers)
  intro tracker inside
  exact if_neg (none tracker inside)

theorem not_waits_of_answer (tracker : MQTTQoSTracker) : ¬ (packet.answer tracker).Waits packet packetId := by
  rintro ⟨-, waits⟩
  cases packet <;> cases waits

/-- What a message waits for fits its direction, so the name and the state single it out. -/
theorem map_acknowledge (sound : Sound ledger) :
    (ledgerCall ledger (.acknowledge packet packetId)).map (·.tracker) =
      answered packet packetId (ledger.map (·.tracker)) := by
  rw [ledgerCall, answered, List.map_map, List.map_map]
  refine List.map_congr_left ?_
  intro message inside
  have same : (message.name = (packet.direction, packetId) ∧ message.tracker.state = packet.awaited) ↔
      message.tracker.Waits packet packetId := by
    constructor
    · rintro ⟨named, waits⟩
      exact ⟨congrArg Prod.snd named, waits⟩
    · rintro ⟨named, waits⟩
      exact ⟨Prod.ext (sound.fitting message inside packet waits) named, waits⟩
  simp only [Function.comp_apply, Message.acknowledge, same]
  split_ifs <;> rfl

/-- At most one record waits for a packet. -/
theorem pairwise_waits (sound : Sound run.ledger) (held : run.Independent) (packet : Acknowledgement)
    (packetId : BitVec 16) :
    run.mgr.trackers.Pairwise fun tracker other => ¬ (tracker.Waits packet packetId ∧ other.Waits packet packetId) := by
  refine (List.Perm.pairwise_iff ?_ held).mp ?_
  · intro tracker other apart both
    exact apart ⟨both.2, both.1⟩
  · rw [List.pairwise_map]
    refine (List.pairwise_map.mp sound.distinct).imp_of_mem ?_
    rintro message other inside present different ⟨first, second⟩
    refine different (Prod.ext ?_ (first.1.trans second.1.symm))
    exact (sound.fitting message inside packet first.2).trans (sound.fitting other present packet second.2).symm

theorem acknowledge_found {tracker : MQTTQoSTracker} (found : mqttQosFind mgr packetId = some tracker)
    (waits : tracker.state = packet.awaited) :
    (mgr.call (.acknowledge packet packetId)).trackers =
      Table.update (·.packetId) mgr.trackers packetId packet.answer := by
  have handled (change : MQTTQoSTracker → MQTTQoSTracker) :
      ((handle mgr packetId packet.awaited change).toOption.getD mgr).trackers =
        Table.update (·.packetId) mgr.trackers packetId change := by
    rw [handle, found]
    simp only [if_pos waits]
    rfl
  cases packet <;> exact handled _

theorem acknowledge_missed (missed : ¬ ∃ tracker ∈ mqttQosFind mgr packetId, tracker.state = packet.awaited) :
    (mgr.call (.acknowledge packet packetId)).trackers = mgr.trackers := by
  have handled (change : MQTTQoSTracker → MQTTQoSTracker) :
      ((handle mgr packetId packet.awaited change).toOption.getD mgr).trackers = mgr.trackers := by
    rw [handle]
    cases found : mqttQosFind mgr packetId with
    | none => rfl
    | some tracker =>
      have other : tracker.state ≠ packet.awaited := fun waits => missed ⟨tracker, found, waits⟩
      simp only [if_neg other]
      rfl
  cases packet <;> exact handled _

theorem independent_acknowledge_iff (sound : Sound run.ledger) (held : run.Independent) :
    (run.call (.acknowledge packet packetId)).Independent ↔ FindsOwn run (.acknowledge packet packetId) := by
  have expected : (run.call (.acknowledge packet packetId)).Independent ↔
      (answered packet packetId run.mgr.trackers).Perm (run.mgr.call (.acknowledge packet packetId)).trackers := by
    rw [QosRun.Independent, QosRun.call, map_acknowledge sound]
    exact List.Perm.congr_left (held.map _) _
  rw [expected]
  by_cases first : ∃ tracker ∈ mqttQosFind run.mgr packetId, tracker.state = packet.awaited
  · obtain ⟨tracker, found, waits⟩ := first
    obtain ⟨earlier, later, split, named, others, changed⟩ := Table.split_of_find found
    have apart := pairwise_waits sound held packet packetId
    rw [split, List.pairwise_append, List.pairwise_cons] at apart
    have front : answered packet packetId earlier = earlier :=
      answered_of_none fun other inside own => others other inside own.1
    have behind : answered packet packetId later = later :=
      answered_of_none fun other inside own => apart.2.1.1 other inside ⟨⟨named, waits⟩, own⟩
    refine iff_of_true ?_ fun _ => ⟨tracker, found, waits⟩
    rw [acknowledge_found found waits, changed, split, answered, List.map_append, List.map_cons,
      if_pos ⟨named, waits⟩]
    exact .of_eq (congrArg₂ (fun before after => before ++ packet.answer tracker :: after) front behind)
  · rw [acknowledge_missed first]
    constructor
    · intro same waiting
      obtain ⟨tracker, inside, waits⟩ := waiting
      obtain ⟨old, -, rfl⟩ := List.mem_map.mp (same.mem_iff.mpr inside)
      split_ifs at waits with own
      · exact absurd waits (not_waits_of_answer old)
      · exact absurd waits own
    · intro finds
      rw [answered_of_none fun tracker inside waits => first (finds ⟨tracker, inside, waits⟩)]

theorem independent_track (held : run.Independent) {direction : Direction} {qos : MQTTQoS} {topic : CString}
    {payload : Bytes} {retain : Bool} :
    (run.call (.track direction packetId qos topic payload retain)).Independent := by
  have tracked : run.mgr.call (.track direction packetId qos topic payload retain) =
      (track run.mgr (direction.tracker packetId qos topic payload retain)).toOption.getD run.mgr := by
    cases direction <;> rfl
  have level : (direction.tracker packetId qos topic payload retain).qos = qos := by
    cases direction <;> rfl
  have size : run.ledger.length = run.mgr.trackers.length := by
    rw [← held.length_eq, List.length_map]
  simp only [QosRun.Independent, QosRun.call, ledgerCall, tracked, track, level, size]
  by_cases untracked : qos = .qos0
  · rw [if_pos (.inl untracked), if_pos untracked]
    exact held
  · rw [if_neg untracked]
    by_cases room : run.mgr.trackers.length < MAX_TRACKERS
    · have apart : ¬ (qos = .qos0 ∨ MAX_TRACKERS ≤ run.mgr.trackers.length) := by
        rintro (none | full)
        · exact untracked none
        · exact absurd room (Nat.not_lt.mpr full)
      rw [if_neg apart, dif_pos room, List.map_append, List.map_singleton]
      exact held.append_right _
    · rw [if_pos (.inr (Nat.not_lt.mp room)), dif_neg room]
      exact held

/-- The code removes the first record with the packet id. -/
theorem remove_perm {tracker : MQTTQoSTracker} (found : mqttQosFind mgr packetId = some tracker) :
    mgr.trackers.Perm (tracker :: (mqttQosRemove mgr packetId).trackers) := by
  cases place : Table.position (·.packetId) mgr.trackers packetId with
  | none => exact absurd ((Table.position_eq_none_iff.mp place).symm.trans found) (Option.some_ne_none _).symm
  | some i =>
    have here := Table.getElem?_position place
    obtain ⟨earlier, record, later, split, rfl, -, -⟩ := split_of_findIdx? place
    rw [split, List.getElem?_append_right (Nat.le_refl _), Nat.sub_self, List.getElem?_cons_zero, ← split] at here
    obtain rfl := Option.some.inj (here.trans found)
    have removed : (mqttQosRemove mgr packetId).trackers.Perm (earlier ++ later) := by
      rw [mqttQosRemove, place]
      simp only
      rw [split]
      exact swapRemove_middle earlier record later
    rw [split]
    exact List.perm_middle.trans (removed.symm.cons record)

theorem remove_missed (missed : mqttQosFind mgr packetId = none) : mqttQosRemove mgr packetId = mgr := by
  rw [mqttQosRemove, Table.position_eq_none_iff.mpr missed]

/-- Where no two messages share a name, removing one takes out its record alone. -/
theorem ledger_remove_perm (sound : Sound ledger) {direction : Direction} {message : Message}
    (found : Table.find (·.name) ledger (direction, packetId) = some message) :
    (ledger.map (·.tracker)).Perm
      (message.tracker :: (ledgerCall ledger (.remove direction packetId)).map (·.tracker)) := by
  obtain ⟨earlier, later, rfl, named, others, -⟩ := Table.split_of_find found
  have distinct := sound.distinct
  rw [List.map_append, List.map_cons, List.nodup_append, List.nodup_cons] at distinct
  have front : earlier.filter (·.name ≠ (direction, packetId)) = earlier := by
    rw [List.filter_eq_self]
    intro other inside
    exact decide_eq_true (others other inside)
  have behind : later.filter (·.name ≠ (direction, packetId)) = later := by
    rw [List.filter_eq_self]
    intro other inside
    refine decide_eq_true fun same => distinct.2.1.1 ?_
    rw [named, ← same]
    exact List.mem_map_of_mem inside
  have removed : ledgerCall (earlier ++ message :: later) (.remove direction packetId) = earlier ++ later := by
    rw [ledgerCall, List.filter_append, front, List.filter_cons, if_neg (by simp [named]), behind]
  rw [removed, List.map_append, List.map_append, List.map_cons]
  exact List.perm_middle

theorem independent_remove_iff (sound : Sound run.ledger) (held : run.Independent) {direction : Direction} :
    (run.call (.remove direction packetId)).Independent ↔ FindsOwn run (.remove direction packetId) := by
  rw [FindsOwn]
  cases own : Table.find (·.name) run.ledger (direction, packetId) with
  | none =>
    have kept : ledgerCall run.ledger (.remove direction packetId) = run.ledger := by
      rw [ledgerCall, List.filter_eq_self]
      intro message inside
      refine decide_eq_true fun same => Table.find_eq_none_iff.mp own ?_
      rw [← same]
      exact List.mem_map_of_mem inside
    rw [QosRun.Independent, QosRun.call, kept, Option.map_none]
    cases found : mqttQosFind run.mgr packetId with
    | none =>
      have unchanged : run.mgr.call (.remove direction packetId) = run.mgr := remove_missed found
      rw [unchanged]
      exact iff_of_true held rfl
    | some tracker =>
      refine iff_of_false (fun same => ?_) (Option.some_ne_none tracker)
      have fewer := (remove_perm found).length_eq
      have equal := (held.symm.trans same).length_eq
      rw [List.length_cons] at fewer
      change run.mgr.trackers.length = (mqttQosRemove run.mgr packetId).trackers.length at equal
      omega
  | some message =>
    have rest := ledger_remove_perm sound own
    rw [Option.map_some]
    cases found : mqttQosFind run.mgr packetId with
    | none =>
      have inside : message.tracker ∈ run.mgr.trackers :=
        held.mem_iff.mp (List.mem_map_of_mem (Table.mem_of_find own))
      have named : message.tracker.packetId = packetId := congrArg Prod.snd (Table.key_of_find own)
      exact absurd (named ▸ List.mem_map_of_mem inside) (Table.find_eq_none_iff.mp found)
    | some tracker =>
      have both : (message.tracker :: (ledgerCall run.ledger (.remove direction packetId)).map (·.tracker)).Perm
          (tracker :: (mqttQosRemove run.mgr packetId).trackers) := rest.symm.trans (held.trans (remove_perm found))
      rw [Option.some.injEq]
      constructor
      · intro same
        have first := both.trans (same.symm.cons tracker)
        have equal := Multiset.coe_eq_coe.mpr first.symm
        exact (Multiset.cons_inj_left (Multiset.ofList _)).mp equal
      · rintro rfl
        exact (List.perm_cons _).mp both

/-- In every run whose messages are named apart in each direction, each message is advanced and removed by its own
calls throughout, exactly if each call that is for a message finds its record first. -/
theorem mqtt_qos_independent_iff (calls : List QosCall) (unused : Permitted QosRun.call UnusedId QosRun.start calls) :
    (∀ earlier, earlier <+: calls → (earlier.foldl QosRun.call QosRun.start).Independent) ↔
      Permitted QosRun.call FindsOwn QosRun.start calls := by
  have initial : Sound QosRun.start.ledger := ⟨List.nodup_nil, fun message inside => absurd inside List.not_mem_nil⟩
  refine Permitted.throughout_iff (motive := fun run => Sound run.ledger) calls unused initial (List.Perm.refl []) ?_ ?_
  · intro run call sound unused _
    exact sound_call sound call unused
  · intro run call sound _ held
    cases call with
    | track direction packetId qos topic payload retain => exact iff_of_true (independent_track held) trivial
    | acknowledge packet packetId => exact independent_acknowledge_iff sound held
    | remove direction packetId => exact independent_remove_iff sound held

/-- The handshakes of the repository's own test, with an incoming message between them. -/
def handshakeCalls : List QosCall :=
  [.track .outgoing 1#16 .qos1 [116] [100] false, .acknowledge .puback 1#16, .track .outgoing 2#16 .qos2 [116] [100] false,
    .acknowledge .pubrec 2#16, .track .incoming 3#16 .qos2 [116] [100] false, .remove .outgoing 1#16,
    .acknowledge .pubcomp 2#16, .acknowledge .pubrel 3#16]

theorem mqtt_qos_independent_test :
    Permitted QosRun.call FindsOwn QosRun.start handshakeCalls ∧
      ∀ earlier, earlier <+: handshakeCalls → (earlier.foldl QosRun.call QosRun.start).Independent :=
  ⟨by decide, (mqtt_qos_independent_iff handshakeCalls (by decide)).mpr (by decide)⟩

example : mqttQosIsComplete (handshakeCalls.foldl QosRun.call QosRun.start).mgr 2#16 = true := by decide

/-- An incoming message stands before an outgoing one with its packet id, and keeps it from its PUBACK. -/
theorem outgoing_message_blocked :
    Permitted QosRun.call UnusedId QosRun.start [.track .incoming 1#16 .qos2 [116] [100] false,
        .track .outgoing 1#16 .qos1 [116] [100] false, .acknowledge .puback 1#16] ∧
      ¬ QosRun.Independent ([.track .incoming 1#16 .qos2 [116] [100] false,
        .track .outgoing 1#16 .qos1 [116] [100] false, .acknowledge .puback 1#16].foldl QosRun.call QosRun.start) :=
  ⟨by decide, by decide⟩

end Independence

end MiniNetDist.AppProtocol.Mqtt
