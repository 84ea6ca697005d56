import MiniNetDist.SystemTheory.Snapshot
import Mathlib.Data.List.Perm.Subperm
import Mathlib.Data.List.ProdSigma
import Mathlib.Logic.Relation

/-! Completion of a snapshot. Each channel carries one marker, which ends the recording of that
channel at its target. The test for completion asks every process about the channels it has to
others, not about those that come in, so it succeeds exactly where channels go both ways. -/

namespace MiniNetDist.SystemTheory.Snapshot

open Library

/-- The system and the positions of the messages that were delivered. -/
structure Delivery where
  sys : SnapSystem
  delivered : List Nat

def deliver (delivery : Delivery) (k : Nat) : Delivery :=
  match delivery.sys.inflightMsgs[k]? with
  | some msg => ⟨snapProcessMarker delivery.sys msg.target msg.source, k :: delivery.delivered⟩
  | none => delivery

/-- A marker that is in flight and was not delivered yet. -/
def Undelivered (delivery : Delivery) (k : Nat) : Prop :=
  k ∉ delivery.delivered ∧ ∃ msg, delivery.sys.inflightMsgs[k]? = some msg ∧ msg.type = .marker

def Drained (delivery : Delivery) : Prop := ∀ k, ¬ Undelivered delivery k

def buildSystem (n : Nat) (stateValues : Nat → Int) (channels : List (Int × Int)) : SnapSystem :=
  channels.foldl (fun sys channel => snapAddChannel sys channel.1 channel.2) (snapInitSystem n stateValues)

def Channel (sys : SnapSystem) (p q : Nat) : Prop := q ∈ (sys.processes p).neighbors

instance (sys : SnapSystem) (p q : Nat) : Decidable (Channel sys p q) := inferInstanceAs (Decidable (_ ∈ _))

def StronglyConnected (sys : SnapSystem) : Prop :=
  ∀ p q, p < sys.processCount → q < sys.processCount → Relation.ReflTransGen (Channel sys) p q

def recorded (sys : SnapSystem) (p : Nat) : Bool := (sys.processes p).localState.recorded

/-- The channels on which a marker was sent, in the order of sending. -/
def pairs (sys : SnapSystem) : List (Nat × Nat) := sys.inflightMsgs.map fun msg => (msg.source, msg.target)

/-- A marker from `q` was delivered to `p`. -/
def Heard (sent : List (Nat × Nat)) (delivered : List Nat) (p q : Nat) : Prop :=
  ∃ k ∈ delivered, sent[k]? = some (q, p)

/-- The graph of a system of `n` processes. -/
structure Graph (n : Nat) (neighbors : Nat → List Nat) : Prop where
  fits : n ≤ SNAP_MAX_NODES
  distinct : ∀ p, (neighbors p).Nodup
  within : ∀ p q, q ∈ neighbors p → p < n ∧ q < n

/-- Who has recorded has sent on all its channels, and records a channel until its marker arrives. -/
structure Progress (n : Nat) (neighbors : Nat → List Nat) (delivery : Delivery) : Prop where
  count : delivery.sys.processCount = n
  graph : ∀ p, (delivery.sys.processes p).neighbors = neighbors p
  valid : ∀ k ∈ delivery.delivered, k < (pairs delivery.sys).length
  markers : ∀ msg ∈ delivery.sys.inflightMsgs, msg.type = .marker
  once : (pairs delivery.sys).Nodup
  sent : ∀ p q, (p, q) ∈ pairs delivery.sys ↔ recorded delivery.sys p = true ∧ q ∈ neighbors p
  unsent : ∀ p, recorded delivery.sys p = false → ∀ q, (delivery.sys.processes p).markerSent q = false
  received : ∀ p q, (delivery.sys.processes p).markerReceived q = true ↔
    Heard (pairs delivery.sys) delivery.delivered p q
  reacted : ∀ p q, Heard (pairs delivery.sys) delivery.delivered p q → recorded delivery.sys p = true
  recording : ∀ p q, recorded delivery.sys p = true → q < SNAP_MAX_NODES →
    ((delivery.sys.processes p).channels q).recording = !(delivery.sys.processes p).markerReceived q

section Step

variable {n : Nat} {neighbors : Nat → List Nat} {delivery : Delivery} {sent : List (Nat × Nat)}
  {delivered : List Nat} {p q k : Nat}

/-- Every channel is good for one marker, so that there is room for all. -/
theorem room_of_once (once : sent.Nodup) (inside : ∀ pair ∈ sent, pair.1 < SNAP_MAX_NODES ∧ pair.2 < SNAP_MAX_NODES) :
    sent.length ≤ SNAP_MAX_INFLIGHT := by
  have among : sent ⊆ List.range SNAP_MAX_NODES ×ˢ List.range SNAP_MAX_NODES := by
    intro pair present
    rw [List.mem_product, List.mem_range, List.mem_range]
    exact inside pair present
  have bound := (once.subperm among).length_le
  rw [List.length_product, List.length_range] at bound
  exact Nat.le_trans bound (by decide)

theorem heard_append (valid : ∀ k ∈ delivered, k < sent.length) (more : List (Nat × Nat)) :
    Heard (sent ++ more) delivered p q ↔ Heard sent delivered p q := by
  refine exists_congr fun k => and_congr_right fun inside => ?_
  rw [List.getElem?_append_left (valid k inside)]

/-- One process has changed and sent markers to some peers. -/
structure Stepped (sys after : SnapSystem) (p : Nat) (peers : List Nat) : Prop where
  count : after.processCount = sys.processCount
  elsewhere : ∀ other, other ≠ p → after.processes other = sys.processes other
  inflight : after.inflightMsgs = sys.inflightMsgs ++ markersTo p peers

theorem stepped_sending (sys : SnapSystem) (p : Nat) (proc : SnapProcess) (peers : List Nat) :
    Stepped sys ((sys.put p proc).sending p peers) p peers := by
  refine ⟨rfl, ?_, rfl⟩
  intro other different
  simp [SnapSystem.sending, SnapSystem.put, different]

theorem sending_self (sys : SnapSystem) (p : Nat) (proc : SnapProcess) (peers : List Nat) :
    ((sys.put p proc).sending p peers).processes p = proc.sentTo peers := by
  simp [SnapSystem.sending, SnapSystem.put]

theorem Stepped.pairs {sys after : SnapSystem} {peers : List Nat} (stepped : Stepped sys after p peers) :
    pairs after = pairs sys ++ peers.map fun peer => (p, peer) := by
  unfold Snapshot.pairs
  rw [stepped.inflight, List.map_append, markersTo, List.map_map]
  rfl

/-- The state of the process that has recorded, or goes on recording. -/
structure Records (neighbors : List Nat) (heard : Nat → Prop) (proc : SnapProcess) : Prop where
  graph : proc.neighbors = neighbors
  recorded : proc.localState.recorded = true
  received : ∀ r, proc.markerReceived r = true ↔ heard r
  recording : ∀ r, r < SNAP_MAX_NODES → (proc.channels r).recording = !proc.markerReceived r

theorem Progress.once_after (graph : Graph n neighbors) (progress : Progress n neighbors delivery) {peers : List Nat}
    (due : peers = if recorded delivery.sys p then [] else neighbors p) :
    (pairs delivery.sys ++ peers.map fun peer => (p, peer)).Nodup := by
  cases before : recorded delivery.sys p with
  | true =>
    rw [due, before, if_pos rfl, List.map_nil, List.append_nil]
    exact progress.once
  | false =>
    rw [due, before, if_neg Bool.false_ne_true]
    refine progress.once.append ((graph.distinct p).map fun _ _ same => (Prod.mk.inj same).2) ?_
    intro pair old new
    obtain ⟨peer, -, rfl⟩ := List.mem_map.mp new
    rw [progress.sent, before] at old
    exact absurd old.1 Bool.false_ne_true

/-- A process records, or goes on recording, and sends the markers that are due. -/
theorem Progress.advance (graph : Graph n neighbors) (progress : Progress n neighbors delivery) {after : SnapSystem}
    {peers : List Nat} (stepped : Stepped delivery.sys after p peers)
    (due : peers = if recorded delivery.sys p then [] else neighbors p)
    (records : Records (neighbors p) (Heard (pairs delivery.sys) delivered p) (after.processes p))
    (valid : ∀ k ∈ delivered, k < (pairs delivery.sys).length)
    (others : ∀ other r, other ≠ p → (Heard (pairs delivery.sys) delivered other r ↔
      Heard (pairs delivery.sys) delivery.delivered other r)) :
    Progress n neighbors ⟨after, delivered⟩ := by
  have still : ∀ other, other ≠ p → recorded after other = recorded delivery.sys other := by
    intro other different
    rw [recorded, stepped.elsewhere other different, recorded]
  have heard : ∀ other r, Heard (pairs after) delivered other r ↔ Heard (pairs delivery.sys) delivered other r := by
    intro other r
    rw [stepped.pairs, heard_append valid]
  refine ⟨stepped.count.trans progress.count, ?graph, ?valid, ?markers, ?once, ?sent, ?unsent, ?received, ?reacted,
    ?recording⟩
  case graph =>
    intro other
    by_cases here : other = p
    · rw [here]
      exact records.graph
    · rw [stepped.elsewhere other here]
      exact progress.graph other
  case valid =>
    intro k inside
    rw [stepped.pairs, List.length_append]
    exact Nat.lt_add_right _ (valid k inside)
  case markers =>
    intro msg inside
    rw [stepped.inflight] at inside
    rcases List.mem_append.mp inside with old | new
    · exact progress.markers msg old
    · obtain ⟨peer, -, rfl⟩ := List.mem_map.mp new
      rfl
  case once =>
    rw [stepped.pairs]
    exact progress.once_after graph due
  case sent =>
    intro other r
    rw [stepped.pairs, List.mem_append, progress.sent]
    by_cases here : other = p
    · subst here
      have now : recorded after other = true := records.recorded
      rw [due, now]
      cases recorded delivery.sys other with
      | true => simp
      | false => simp
    · rw [still other here]
      simp [Ne.symm here]
  case unsent =>
    intro other before
    by_cases here : other = p
    · subst here
      rw [recorded, records.recorded] at before
      cases before
    · rw [stepped.elsewhere other here]
      exact progress.unsent other (still other here ▸ before)
  case received =>
    intro other r
    rw [heard]
    by_cases here : other = p
    · subst here
      exact records.received r
    · rw [stepped.elsewhere other here, others other r here]
      exact progress.received other r
  case reacted =>
    intro other r delivered
    rw [heard] at delivered
    by_cases here : other = p
    · subst here
      exact records.recorded
    · rw [still other here]
      exact progress.reacted other r ((others other r here).mp delivered)
  case recording =>
    intro other r before
    by_cases here : other = p
    · subst here
      exact records.recording r
    · rw [stepped.elsewhere other here]
      exact progress.recording other r (still other here ▸ before)

theorem Progress.room (graph : Graph n neighbors) (progress : Progress n neighbors delivery)
    (before : recorded delivery.sys p = false) :
    delivery.sys.inflightMsgs.length + (neighbors p).length ≤ SNAP_MAX_INFLIGHT := by
  have once : (pairs delivery.sys ++ (neighbors p).map fun peer => (p, peer)).Nodup :=
    progress.once_after graph (by rw [before, if_neg Bool.false_ne_true])
  have fits := graph.fits
  have bound := room_of_once once ?_
  · rw [List.length_append, List.length_map, pairs, List.length_map] at bound
    exact bound
  · intro pair inside
    have channel : pair.2 ∈ neighbors pair.1 := by
      rcases List.mem_append.mp inside with old | new
      · exact ((progress.sent pair.1 pair.2).mp old).2
      · obtain ⟨peer, present, rfl⟩ := List.mem_map.mp new
        exact present
    have within := graph.within pair.1 pair.2 channel
    omega

/-- A process that has not recorded has received nothing. -/
theorem Progress.silent (progress : Progress n neighbors delivery) (before : recorded delivery.sys p = false) (r : Nat) :
    (delivery.sys.processes p).markerReceived r = false := by
  cases received : (delivery.sys.processes p).markerReceived r with
  | false => rfl
  | true =>
    have recorded := progress.reacted p r ((progress.received p r).mp received)
    rw [before] at recorded
    cases recorded

/-- The initiator has recorded, and the markers are on their way. -/
structure Underway (n : Nat) (neighbors : Nat → List Nat) (initiator : Nat) (delivery : Delivery) : Prop where
  progress : Progress n neighbors delivery
  started : recorded delivery.sys initiator = true

theorem Progress.initiate (graph : Graph n neighbors) (progress : Progress n neighbors delivery)
    (before : recorded delivery.sys p = false) :
    Underway n neighbors p ⟨snapInitiateSnapshot delivery.sys p, delivery.delivered⟩ := by
  have same : (delivery.sys.processes p).record.neighbors = neighbors p := progress.graph p
  have room : (delivery.sys.put p (delivery.sys.processes p).record).inflightMsgs.length + (neighbors p).length ≤
      SNAP_MAX_INFLIGHT := progress.room graph before
  have records : Records (neighbors p) (Heard (pairs delivery.sys) delivery.delivered p)
      (((delivery.sys.put p (delivery.sys.processes p).record).sending p (neighbors p)).processes p) := by
    rw [sending_self]
    refine ⟨same, rfl, progress.received p, ?_⟩
    intro r valid
    have silent := progress.silent before r
    simp [SnapProcess.sentTo, SnapProcess.record, valid, silent]
  unfold snapInitiateSnapshot
  simp only [same]
  rw [snapSendMarker_fold (neighbors p) room]
  refine ⟨progress.advance graph (stepped_sending _ p _ _) ?_ records progress.valid (fun _ _ _ => Iff.rfl), ?_⟩
  · rw [before, if_neg Bool.false_ne_true]
  · exact records.recorded

/-- The marker that arrives is the first one on its channel. -/
theorem Progress.first (progress : Progress n neighbors delivery) (fresh : k ∉ delivery.delivered)
    (inFlight : (pairs delivery.sys)[k]? = some (q, p)) : (delivery.sys.processes p).markerReceived q = false := by
  cases received : (delivery.sys.processes p).markerReceived q with
  | false => rfl
  | true =>
    obtain ⟨j, earlier, same⟩ := (progress.received p q).mp received
    have bound := progress.valid j earlier
    have equal : j = k := (List.getElem?_inj bound progress.once).mp (same.trans inFlight.symm)
    exact absurd (equal ▸ earlier) fresh

/-- The markers that `p` has heard when one more arrives. -/
theorem heard_cons (inFlight : sent[k]? = some (q, p)) {other r : Nat} :
    Heard sent (k :: delivered) other r ↔ (other = p ∧ r = q) ∨ Heard sent delivered other r := by
  constructor
  · rintro ⟨j, inside, same⟩
    rcases List.mem_cons.mp inside with rfl | earlier
    · rw [inFlight] at same
      obtain ⟨rfl, rfl⟩ := Prod.mk.inj (Option.some.inj same)
      exact .inl ⟨rfl, rfl⟩
    · exact .inr ⟨j, earlier, same⟩
  · rintro (⟨rfl, rfl⟩ | ⟨j, earlier, same⟩)
    · exact ⟨k, List.mem_cons_self, inFlight⟩
    · exact ⟨j, List.mem_cons_of_mem _ earlier, same⟩

/-- What a marker does to the process it reaches. -/
theorem Progress.marked (graph : Graph n neighbors) (progress : Progress n neighbors delivery)
    (fresh : k ∉ delivery.delivered) (inFlight : (pairs delivery.sys)[k]? = some (q, p)) :
    Stepped delivery.sys (snapProcessMarker delivery.sys p q) p (if recorded delivery.sys p then [] else neighbors p) ∧
    Records (neighbors p) (Heard (pairs delivery.sys) (k :: delivery.delivered) p)
      ((snapProcessMarker delivery.sys p q).processes p) := by
  have first := progress.first fresh inFlight
  have received : ∀ r, Function.update (delivery.sys.processes p).markerReceived q true r = true ↔
      Heard (pairs delivery.sys) (k :: delivery.delivered) p r := by
    intro r
    rw [heard_cons inFlight, ← progress.received]
    by_cases here : r = q
    · simp [here]
    · simp [here]
  cases before : recorded delivery.sys p with
  | false =>
    have distinct := progress.graph p ▸ graph.distinct p
    have room := progress.graph p ▸ progress.room graph before
    rw [snapProcessMarker_record first before distinct (progress.unsent p before) room, progress.graph p,
      if_neg Bool.false_ne_true]
    refine ⟨stepped_sending _ p _ _, ?_⟩
    rw [sending_self]
    refine ⟨progress.graph p, rfl, received, ?_⟩
    intro r small
    have silent := progress.silent before r
    by_cases here : r = q
    · subst here
      simp [SnapProcess.sentTo, SnapProcess.stopRecording, SnapProcess.record, SnapProcess.hear]
    · simp [SnapProcess.sentTo, SnapProcess.stopRecording, SnapProcess.record, SnapProcess.hear, here, small, silent]
  | true =>
    rw [snapProcessMarker_stop first before, if_pos rfl]
    refine ⟨stepped_sending _ p _ _, ?_⟩
    rw [sending_self]
    refine ⟨progress.graph p, before, received, ?_⟩
    intro r small
    have recording := progress.recording p r before small
    by_cases here : r = q
    · subst here
      simp [SnapProcess.sentTo, SnapProcess.stopRecording, SnapProcess.hear]
    · simp [SnapProcess.sentTo, SnapProcess.stopRecording, SnapProcess.hear, here, recording]

theorem Progress.process (graph : Graph n neighbors) (progress : Progress n neighbors delivery)
    (fresh : k ∉ delivery.delivered) (inFlight : (pairs delivery.sys)[k]? = some (q, p)) :
    Progress n neighbors ⟨snapProcessMarker delivery.sys p q, k :: delivery.delivered⟩ := by
  obtain ⟨stepped, records⟩ := progress.marked graph fresh inFlight
  refine progress.advance graph stepped rfl records ?_ ?_
  · intro j inside
    rcases List.mem_cons.mp inside with rfl | earlier
    · exact (List.getElem?_eq_some_iff.mp inFlight).1
    · exact progress.valid j earlier
  · intro other r different
    rw [heard_cons inFlight]
    exact or_iff_right fun here => different here.1

theorem Progress.still_recorded (graph : Graph n neighbors) (progress : Progress n neighbors delivery)
    (fresh : k ∉ delivery.delivered) (inFlight : (pairs delivery.sys)[k]? = some (q, p)) {r : Nat}
    (before : recorded delivery.sys r = true) : recorded (snapProcessMarker delivery.sys p q) r = true := by
  obtain ⟨stepped, records⟩ := progress.marked graph fresh inFlight
  by_cases here : r = p
  · rw [here]
    exact records.recorded
  · rw [recorded, stepped.elsewhere r here]
    exact before

end Step

section Build

variable {n : Nat} {sys : SnapSystem}

/-- A system whose channels are being laid. -/
structure Idle (n : Nat) (sys : SnapSystem) : Prop where
  count : sys.processCount = n
  inflight : sys.inflightMsgs = []
  unrecorded : ∀ p, recorded sys p = false
  unreceived : ∀ p q, (sys.processes p).markerReceived q = false
  unsent : ∀ p q, (sys.processes p).markerSent q = false
  distinct : ∀ p, (sys.processes p).neighbors.Nodup
  within : ∀ p q, Channel sys p q → p < n ∧ q < n

theorem idle_init (fits : n ≤ SNAP_MAX_NODES) (stateValues : Nat → Int) : Idle n (snapInitSystem n stateValues) :=
  ⟨if_neg (Nat.not_lt.mpr fits), rfl, fun _ => rfl, fun _ _ => rfl, fun _ _ => rfl, fun _ => List.nodup_nil,
    fun _ _ absurdly => nomatch absurdly⟩

/-- A new channel changes nothing but the neighbours of its source. -/
theorem Idle.extend (idle : Idle n sys) {p q : Nat} (source : p < n) (target : q < n)
    (fresh : q ∉ (sys.processes p).neighbors) :
    Idle n (sys.put p { sys.processes p with neighbors := (sys.processes p).neighbors ++ [q] }) := by
  have same : ∀ r, (sys.put p { sys.processes p with neighbors := (sys.processes p).neighbors ++ [q] }).processes r =
      { sys.processes r with
        neighbors := if r = p then (sys.processes r).neighbors ++ [q] else (sys.processes r).neighbors } := by
    intro r
    by_cases here : r = p
    · subst here
      rw [SnapSystem.put_self, if_pos rfl]
    · rw [if_neg here]
      exact Function.update_of_ne here ..
  refine ⟨idle.count, idle.inflight, fun r => ?_, fun r s => ?_, fun r s => ?_, fun r => ?_, fun r s channel => ?_⟩
  · rw [recorded, same]
    exact idle.unrecorded r
  · rw [same]
    exact idle.unreceived r s
  · rw [same]
    exact idle.unsent r s
  · rw [same]
    by_cases here : r = p
    · subst here
      rw [if_pos rfl, ← List.concat_eq_append]
      exact (idle.distinct r).concat fresh
    · rw [if_neg here]
      exact idle.distinct r
  · rw [Channel, same] at channel
    by_cases here : r = p
    · subst here
      rw [if_pos rfl] at channel
      rcases List.mem_append.mp channel with old | new
      · exact idle.within r s old
      · rw [List.mem_singleton.mp new]
        exact ⟨source, target⟩
    · rw [if_neg here] at channel
      exact idle.within r s channel

theorem Idle.addChannel (idle : Idle n sys) (source target : Int) : Idle n (snapAddChannel sys source target) := by
  unfold snapAddChannel
  dsimp only
  split_ifs with invalid full known
  · exact idle
  · exact idle
  · exact idle
  · rw [idle.count] at invalid
    exact idle.extend (by omega) (by omega) known

theorem idle_build (fits : n ≤ SNAP_MAX_NODES) (stateValues : Nat → Int) (channels : List (Int × Int)) :
    Idle n (buildSystem n stateValues channels) := by
  have keeps : ∀ (channels : List (Int × Int)) (sys : SnapSystem), Idle n sys →
      Idle n (channels.foldl (fun sys channel => snapAddChannel sys channel.1 channel.2) sys) := by
    intro channels
    induction channels with
    | nil => exact fun _ idle => idle
    | cons channel rest ih => exact fun sys idle => ih _ (idle.addChannel channel.1 channel.2)
  exact keeps channels _ (idle_init fits stateValues)

theorem Idle.graph (idle : Idle n sys) (fits : n ≤ SNAP_MAX_NODES) :
    Graph n fun p => (sys.processes p).neighbors := ⟨fits, idle.distinct, idle.within⟩

theorem Idle.progress (idle : Idle n sys) : Progress n (fun p => (sys.processes p).neighbors) ⟨sys, []⟩ := by
  have nothing : pairs sys = [] := by rw [pairs, idle.inflight, List.map_nil]
  refine ⟨idle.count, fun _ => rfl, by simp, ?_, ?_, ?_, fun p _ => idle.unsent p, ?_, ?_, ?_⟩
  · intro msg inside
    rw [idle.inflight] at inside
    cases inside
  · rw [nothing]
    exact List.nodup_nil
  · intro p q
    simp [nothing, idle.unrecorded]
  · intro p q
    simp [idle.unreceived, Heard]
  · rintro p q ⟨k, absurdly, -⟩
    cases absurdly
  · intro p q before
    rw [idle.unrecorded] at before
    cases before

end Build

section Completion

variable {n : Nat} {neighbors : Nat → List Nat} {delivery : Delivery} {initiator : Nat}

theorem Underway.deliver (graph : Graph n neighbors) (underway : Underway n neighbors initiator delivery) {k : Nat}
    (undelivered : Undelivered delivery k) : Underway n neighbors initiator (deliver delivery k) := by
  obtain ⟨fresh, msg, found, -⟩ := undelivered
  have inFlight : (pairs delivery.sys)[k]? = some (msg.source, msg.target) := by
    rw [pairs, List.getElem?_map, found, Option.map_some]
  unfold Snapshot.deliver
  rw [found]
  exact ⟨underway.progress.process graph fresh inFlight,
    underway.progress.still_recorded graph fresh inFlight underway.started⟩

/-- When every marker has arrived, what one channel leads to has recorded too. -/
theorem Progress.delivered (progress : Progress n neighbors delivery) (drained : Drained delivery) {p q : Nat}
    (sent : (p, q) ∈ pairs delivery.sys) : Heard (pairs delivery.sys) delivery.delivered q p := by
  obtain ⟨k, found⟩ := List.mem_iff_getElem?.mp sent
  refine ⟨k, ?_, found⟩
  by_contra fresh
  rw [pairs, List.getElem?_map] at found
  obtain ⟨msg, present, -⟩ := Option.map_eq_some_iff.mp found
  exact drained k ⟨fresh, msg, present, progress.markers msg (List.mem_of_getElem? present)⟩

theorem Underway.all_recorded (underway : Underway n neighbors initiator delivery) (drained : Drained delivery)
    {p : Nat} (reachable : Relation.ReflTransGen (fun p q => q ∈ neighbors p) initiator p) :
    recorded delivery.sys p = true := by
  induction reachable with
  | refl => exact underway.started
  | tail _ channel ih =>
    have sent := (underway.progress.sent _ _).mpr ⟨ih, channel⟩
    exact underway.progress.reacted _ _ (underway.progress.delivered drained sent)

/-- A drained channel is still recorded exactly if it does not exist. -/
theorem Progress.recording_iff (graph : Graph n neighbors) (progress : Progress n neighbors delivery)
    (drained : Drained delivery) (all : ∀ p, p < n → recorded delivery.sys p = true) {p q : Nat} (here : p < n)
    (there : q < n) :
    ((delivery.sys.processes p).channels q).recording = false ↔ p ∈ neighbors q := by
  have fits := graph.fits
  rw [progress.recording p q (all p here) (by omega), Bool.not_eq_false', progress.received]
  constructor
  · rintro ⟨k, -, found⟩
    exact ((progress.sent q p).mp (List.mem_of_getElem? found)).2
  · intro channel
    exact progress.delivered drained ((progress.sent q p).mpr ⟨all q there, channel⟩)

/-- In a strongly connected system, a snapshot whose markers have all arrived is found complete
exactly if every channel has one back. -/
theorem snapIsComplete_iff (fits : n ≤ SNAP_MAX_NODES) (stateValues : Nat → Int) (channels : List (Int × Int))
    (connected : StronglyConnected (buildSystem n stateValues channels)) (valid : initiator < n)
    (run : Reaches deliver Undelivered
      ⟨snapInitiateSnapshot (buildSystem n stateValues channels) initiator, []⟩ delivery)
    (drained : Drained delivery) :
    snapIsComplete delivery.sys = true ↔
      ∀ p q, Channel (buildSystem n stateValues channels) p q → Channel (buildSystem n stateValues channels) q p := by
  have idle := idle_build fits stateValues channels
  have graph := idle.graph fits
  have underway := run.invariant (idle.progress.initiate graph (idle.unrecorded initiator))
    fun delivery k underway undelivered => underway.deliver graph undelivered
  have all : ∀ p, p < n → recorded delivery.sys p = true := by
    intro p here
    refine underway.all_recorded drained (connected initiator p ?_ ?_)
    · rw [idle.count]
      exact valid
    · rw [idle.count]
      exact here
  simp only [snapIsComplete, List.all_eq_true, List.mem_range, Bool.and_eq_true, underway.progress.count,
    underway.progress.graph, Bool.not_eq_true']
  constructor
  · intro complete p q channel
    obtain ⟨here, there⟩ := idle.within p q channel
    exact (underway.progress.recording_iff graph drained all here there).mp ((complete p here).2 q channel)
  · intro back p here
    refine ⟨all p here, fun q channel => ?_⟩
    have there := (idle.within p q channel).2
    exact (underway.progress.recording_iff graph drained all here there).mpr (back p q channel)

end Completion

theorem drained_of_all {delivery : Delivery}
    (all : ∀ k < delivery.sys.inflightMsgs.length, k ∈ delivery.delivered) : Drained delivery := by
  rintro k ⟨fresh, msg, found, -⟩
  exact fresh (all k (List.getElem?_eq_some_iff.mp found).1)

/-- The channels from each process to the next one make a system strongly connected. -/
theorem connected_of_cycle {sys : SnapSystem}
    (next : ∀ p < sys.processCount, Channel sys p ((p + 1) % sys.processCount)) : StronglyConnected sys := by
  have around : ∀ p, p < sys.processCount → ∀ k, Relation.ReflTransGen (Channel sys) p ((p + k) % sys.processCount) := by
    intro p here k
    induction k with
    | zero =>
      rw [Nat.add_zero, Nat.mod_eq_of_lt here]
    | succ k ih =>
      have step := next ((p + k) % sys.processCount) (Nat.mod_lt _ (Nat.zero_lt_of_lt here))
      rw [Nat.mod_add_mod] at step
      exact ih.tail step
  intro p q here there
  have path := around p here (q + sys.processCount - p)
  rw [show p + (q + sys.processCount - p) = q + sys.processCount by omega, Nat.add_mod_right,
    Nat.mod_eq_of_lt there] at path
  exact path

/-- Two processes with channels both ways, and three processes in a ring. -/
def bothWays : List (Int × Int) := [(0, 1), (1, 0)]
def ring : List (Int × Int) := [(0, 1), (1, 2), (2, 0)]

def snapshotOf (n : Nat) (channels : List (Int × Int)) : Delivery :=
  ⟨snapInitiateSnapshot (buildSystem n (fun _ => 0) channels) 0, []⟩

theorem bothWays_complete : snapIsComplete ([0, 1].foldl deliver (snapshotOf 2 bothWays)).sys = true := by
  refine (snapIsComplete_iff (by decide) (fun _ => 0) bothWays ?_ (by decide)
    (Reaches.ofCalls [0, 1] ⟨?_, ?_, trivial⟩) (drained_of_all ?_)).mpr ?_
  · exact connected_of_cycle (by decide)
  · exact ⟨by decide, _, rfl, rfl⟩
  · exact ⟨by decide, _, rfl, rfl⟩
  · decide
  · intro p q channel
    obtain ⟨here, there⟩ := (idle_build (by decide) (fun _ => 0) bothWays).within p q channel
    have back : ∀ p < 2, ∀ q < 2, Channel (buildSystem 2 (fun _ => 0) bothWays) p q →
        Channel (buildSystem 2 (fun _ => 0) bothWays) q p := by decide
    exact back p here q there channel

/-- All three markers of the ring have arrived, and the snapshot is never found complete. -/
theorem ring_incomplete :
    StronglyConnected (buildSystem 3 (fun _ => 0) ring) ∧
    Reaches deliver Undelivered (snapshotOf 3 ring) ([0, 1, 2].foldl deliver (snapshotOf 3 ring)) ∧
    Drained ([0, 1, 2].foldl deliver (snapshotOf 3 ring)) ∧
    snapIsComplete ([0, 1, 2].foldl deliver (snapshotOf 3 ring)).sys = false := by
  refine ⟨connected_of_cycle ?_, Reaches.ofCalls _ ⟨?_, ?_, ?_, trivial⟩, drained_of_all ?_, by decide⟩
  · decide
  · exact ⟨by decide, _, rfl, rfl⟩
  · exact ⟨by decide, _, rfl, rfl⟩
  · exact ⟨by decide, _, rfl, rfl⟩
  · decide

end MiniNetDist.SystemTheory.Snapshot
