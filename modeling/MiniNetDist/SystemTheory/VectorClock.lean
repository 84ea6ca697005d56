import MiniNetDist.Library.Causality
import MiniNetDist.Library.Run
import Mathlib.Data.List.FinRange

/-! The vector clocks of `mini-dist-system-theory/src/time_ordering.c`. An execution is a sequence of
events of the processes: messages may be lost, reordered and delivered again. Counters are
natural numbers. -/

namespace MiniNetDist.SystemTheory.TimeOrdering

open Library Library.History Library.Causality

def VECTOR_CLOCK_MAX_NODES : Nat := 8

structure VectorClock where
  counters : Fin VECTOR_CLOCK_MAX_NODES → Nat
  nodeCount : Int

inductive VCCompareResult where
  | before
  | after
  | concurrent
  | equal
  deriving DecidableEq, Repr

def vectorClockInit (nodeCount : Int) : VectorClock := ⟨fun _ => 0, nodeCount⟩

def vectorClockGet (vc : VectorClock) (nodeId : Int) : Nat :=
  if nodeId < 0 ∨ nodeId ≥ vc.nodeCount then 0
  else if valid : nodeId.toNat < VECTOR_CLOCK_MAX_NODES then vc.counters ⟨nodeId.toNat, valid⟩ else 0

/-- The clock after the increment and the value that is returned. -/
def vectorClockIncrement (vc : VectorClock) (nodeId : Int) : VectorClock × Nat :=
  if nodeId < 0 ∨ nodeId ≥ vc.nodeCount then (vc, 0)
  else
    let ticked : VectorClock :=
      { vc with counters := fun i => if (i.val : Int) = nodeId then vc.counters i + 1 else vc.counters i }
    (ticked, vectorClockGet ticked nodeId)

def vectorClockMerge (vc other : VectorClock) : VectorClock :=
  let n := if vc.nodeCount > other.nodeCount then vc.nodeCount else other.nodeCount
  let n := if n > VECTOR_CLOCK_MAX_NODES then (VECTOR_CLOCK_MAX_NODES : Int) else n
  { nodeCount := n
    counters := fun i =>
      if (i.val : Int) < n ∧ other.counters i > vc.counters i then other.counters i else vc.counters i }

/-- The counter that a comparison reads. -/
def VectorClock.read (vc : VectorClock) (i : Fin VECTOR_CLOCK_MAX_NODES) : Nat :=
  if (i.val : Int) < vc.nodeCount then vc.counters i else 0

/-- One round of the loop of `vector_clock_compare`, on `a_leq_b` and `b_leq_a`. -/
def compareSlot (a b : VectorClock) (n : Int) (leq : Bool × Bool) (i : Fin VECTOR_CLOCK_MAX_NODES) : Bool × Bool :=
  if (i.val : Int) < n then
    (if a.read i > b.read i then false else leq.1, if b.read i > a.read i then false else leq.2)
  else leq

def vectorClockCompare (a b : VectorClock) : VCCompareResult :=
  let n := if a.nodeCount > b.nodeCount then a.nodeCount else b.nodeCount
  let leq := (List.finRange VECTOR_CLOCK_MAX_NODES).foldl (compareSlot a b n) (true, true)
  if leq.1 && leq.2 then .equal
  else if leq.1 then .before
  else if leq.2 then .after
  else .concurrent

section Compare

variable {a b : VectorClock} {n : Nat}

theorem compareSlot_fold (slots : List (Fin VECTOR_CLOCK_MAX_NODES)) (leq : Bool × Bool) :
    (((slots.foldl (compareSlot a b n) leq).1 = true ↔
      leq.1 = true ∧ ∀ i ∈ slots, i.val < n → a.read i ≤ b.read i)) ∧
    (((slots.foldl (compareSlot a b n) leq).2 = true ↔
      leq.2 = true ∧ ∀ i ∈ slots, i.val < n → b.read i ≤ a.read i)) := by
  induction slots generalizing leq with
  | nil => simp
  | cons slot rest ih =>
    have next := ih (compareSlot a b n leq slot)
    rw [List.foldl_cons, next.1, next.2]
    unfold compareSlot
    by_cases within : slot.val < n
    · simp only [if_pos (Int.ofNat_lt.mpr within), List.forall_mem_cons, within, true_implies]
      constructor
      · split_ifs with above
        · simp [Nat.not_le.mpr above]
        · simp [Nat.not_lt.mp above]
      · split_ifs with above
        · simp [Nat.not_le.mpr above]
        · simp [Nat.not_lt.mp above]
    · simp only [if_neg (fun below => within (Int.ofNat_lt.mp below)), List.forall_mem_cons, within, false_implies,
        true_and, and_self]

/-- Every counter of the first clock is at most that of the second. -/
def Below (n : Nat) (a b : VectorClock) : Prop :=
  ∀ i : Fin VECTOR_CLOCK_MAX_NODES, i.val < n → a.counters i ≤ b.counters i

theorem below_iff_read (first : a.nodeCount = n) (second : b.nodeCount = n) :
    (∀ i ∈ List.finRange VECTOR_CLOCK_MAX_NODES, i.val < n → a.read i ≤ b.read i) ↔ Below n a b := by
  have reads : ∀ i : Fin VECTOR_CLOCK_MAX_NODES, i.val < n → a.read i = a.counters i ∧ b.read i = b.counters i := by
    intro i within
    unfold VectorClock.read
    rw [first, second, if_pos (Int.ofNat_lt.mpr within), if_pos (Int.ofNat_lt.mpr within)]
    exact ⟨rfl, rfl⟩
  constructor
  · intro below i within
    rw [← (reads i within).1, ← (reads i within).2]
    exact below i (List.mem_finRange i) within
  · intro below i _ within
    rw [(reads i within).1, (reads i within).2]
    exact below i within

/-- What a comparison of two clocks of one size says. -/
theorem vectorClockCompare_iff (first : a.nodeCount = n) (second : b.nodeCount = n) :
    (vectorClockCompare a b = .before ↔ Below n a b ∧ ¬ Below n b a) ∧
    (vectorClockCompare a b = .after ↔ Below n b a ∧ ¬ Below n a b) ∧
    (vectorClockCompare a b = .concurrent ↔ ¬ Below n a b ∧ ¬ Below n b a) := by
  have flags := compareSlot_fold (a := a) (b := b) (n := n) (List.finRange VECTOR_CLOCK_MAX_NODES) (true, true)
  rw [below_iff_read first second, below_iff_read second first] at flags
  simp only [true_and] at flags
  unfold vectorClockCompare
  rw [first, second, ← flags.1, ← flags.2]
  simp only [ite_self]
  generalize (List.finRange VECTOR_CLOCK_MAX_NODES).foldl (compareSlot a b n) (true, true) = result
  obtain ⟨below, above⟩ := result
  cases below <;> cases above <;> simp

end Compare

inductive EventKind where
  | internal
  | send
  | receive (message : Nat)
  deriving DecidableEq, Repr

def EventKind.message : EventKind → Option Nat
  | .receive message => some message
  | _ => none

/-- What happened where, with the clock that was recorded. A message is known by the number of the
event that sent it. -/
structure Event (n : Nat) where
  process : Fin n
  kind : EventKind
  clock : VectorClock

def Event.cause {n : Nat} (event : Event n) : Option Nat := event.kind.message

structure Processes (n : Nat) where
  clocks : Fin n → VectorClock
  events : List (Event n)

inductive ProcessCall (n : Nat) where
  | internal (p : Fin n)
  | send (p : Fin n)
  | receive (p : Fin n) (message : Nat)
  deriving DecidableEq, Repr

def processesInit (n : Nat) : Processes n := ⟨fun _ => vectorClockInit n, []⟩

/-- A process counts the event and records its clock. -/
def Processes.happen {n : Nat} (processes : Processes n) (p : Fin n) (kind : EventKind) (clock : VectorClock) :
    Processes n :=
  let ticked := (vectorClockIncrement clock (p.val : Int)).1
  { clocks := Function.update processes.clocks p ticked
    events := processes.events ++ [⟨p, kind, ticked⟩] }

/-- Only what was sent can be received. -/
def processesStep {n : Nat} (processes : Processes n) : ProcessCall n → Processes n
  | .internal p => processes.happen p .internal (processes.clocks p)
  | .send p => processes.happen p .send (processes.clocks p)
  | .receive p message =>
    match processes.events[message]? with
    | some ⟨_, .send, attached⟩ =>
      processes.happen p (.receive message) (vectorClockMerge (processes.clocks p) attached)
    | _ => processes

section Causality

variable {n : Nat} {events : List (Event n)} {history other : Finset Nat} {clock attached : VectorClock}
  {processes : Processes n}

/-- The clock counts the events of each process in a history. -/
structure Stamps (events : List (Event n)) (history : Finset Nat) (clock : VectorClock) : Prop where
  nodes : clock.nodeCount = n
  slots : ∀ (slot : Fin VECTOR_CLOCK_MAX_NODES) (p : Fin n), slot.val = p.val →
    clock.counters slot = tally (events.map Event.process) history p

theorem stamps_init : Stamps ([] : List (Event n)) ∅ (vectorClockInit n) :=
  ⟨rfl, fun _ _ _ => tally_empty.symm⟩

theorem Stamps.append (stamps : Stamps events history clock) (made : ∀ i ∈ history, i < events.length)
    (event : Event n) : Stamps (events ++ [event]) history clock := by
  refine ⟨stamps.nodes, ?_⟩
  intro slot p here
  rw [List.map_append, List.map_singleton, tally_append (by simpa using made)]
  exact stamps.slots slot p here

theorem Stamps.increment (stamps : Stamps events history clock) (made : ∀ i ∈ history, i < events.length)
    (p : Fin n) (kind : EventKind) (recorded : VectorClock) :
    Stamps (events ++ [⟨p, kind, recorded⟩]) (insert events.length history)
      (vectorClockIncrement clock (p.val : Int)).1 := by
  have invalid : ¬ ((p.val : Int) < 0 ∨ (p.val : Int) ≥ clock.nodeCount) := by
    rw [stamps.nodes]
    omega
  have counted : (events.map Event.process).length = events.length := List.length_map _
  unfold vectorClockIncrement
  rw [if_neg invalid]
  refine ⟨stamps.nodes, ?_⟩
  intro slot q here
  rw [List.map_append, List.map_singleton, ← counted, tally_insert (by simpa using made), ← stamps.slots slot q here]
  by_cases same : p = q
  · subst same
    rw [if_pos rfl]
    exact if_pos (congrArg Int.ofNat here)
  · rw [if_neg same]
    refine if_neg fun equal => same (Fin.ext ?_)
    rw [← here]
    exact (Int.ofNat_inj.mp equal).symm

theorem Stamps.merge (stamps : Stamps events history clock) (stampsToo : Stamps events other attached)
    (fits : n ≤ VECTOR_CLOCK_MAX_NODES) (closed : Closed id (events.map Event.process) history)
    (closedToo : Closed id (events.map Event.process) other) :
    Stamps events (history ∪ other) (vectorClockMerge clock attached) := by
  constructor
  · unfold vectorClockMerge
    simp only [stamps.nodes, stampsToo.nodes, ite_self]
    exact if_neg (by omega)
  · intro slot p here
    have within : (slot.val : Int) < n := by omega
    have bound := slot.isLt
    rw [tally_union closed closedToo, ← stamps.slots slot p here, ← stampsToo.slots slot p here]
    simp only [vectorClockMerge, stamps.nodes, stampsToo.nodes, gt_iff_lt]
    split_ifs <;> omega

/-- Each clock counts the past of what it belongs to. -/
structure Faithful (processes : Processes n) : Prop where
  sound : Sound Event.cause processes.events
  clocks : ∀ p, Stamps processes.events (known Event.process Event.cause processes.events p) (processes.clocks p)
  recorded : ∀ (j : Nat) (event : Event n), processes.events[j]? = some event →
    Stamps processes.events (past Event.process Event.cause processes.events j) event.clock

theorem faithful_init : Faithful (processesInit n) := by
  have sound : Sound Event.cause ([] : List (Event n)) := by
    intro i j received
    cases received
  refine ⟨sound, ?_, ?_⟩
  · intro p
    have nothing : known Event.process Event.cause ([] : List (Event n)) p = ∅ := by
      apply Finset.eq_empty_of_forall_notMem
      intro i inside
      obtain ⟨j, found, -⟩ := (mem_known sound).mp inside
      cases found
    change Stamps [] (known Event.process Event.cause [] p) (vectorClockInit n)
    rw [nothing]
    exact stamps_init
  · intro j event found
    cases found

theorem made_of_closed (closed : Closed id (events.map Event.process) history) : ∀ i ∈ history, i < events.length := by
  intro i inside
  simpa using closed.made i inside

/-- What a process knows and what a message brings are events that have happened. -/
theorem made_before (sound : Sound Event.cause events) (p : Fin n) (kind : EventKind)
    (sent : ∀ i, kind.message = some i → i < events.length) :
    ∀ i ∈ known Event.process Event.cause events p ∪ kind.message.elim ∅ (past Event.process Event.cause events),
      i < events.length := by
  intro i inside
  rcases Finset.mem_union.mp inside with own | brought
  · exact made_of_closed (closed_known sound p) i own
  · cases received : kind.message with
    | none =>
      rw [received] at brought
      exact absurd brought (Finset.notMem_empty i)
    | some k =>
      rw [received] at brought
      exact made_of_closed (closed_past sound (sent k received)) i brought

/-- An event is recorded with the clock of its process after what its message brought. -/
theorem Faithful.happen (faithful : Faithful processes) (p : Fin n) (kind : EventKind)
    (sent : ∀ i, kind.message = some i → i < processes.events.length)
    (stamps : Stamps processes.events (known Event.process Event.cause processes.events p ∪
      kind.message.elim ∅ (past Event.process Event.cause processes.events)) clock) :
    Faithful (processes.happen p kind clock) := by
  let event : Event n := ⟨p, kind, (vectorClockIncrement clock (p.val : Int)).1⟩
  have sentBefore : ∀ i, event.cause = some i → i < processes.events.length := sent
  have soundToo : Sound Event.cause (processes.events ++ [event]) := sound_append faithful.sound sentBefore
  have last : Stamps (processes.events ++ [event])
      (past Event.process Event.cause (processes.events ++ [event]) processes.events.length) event.clock := by
    rw [past_last faithful.sound sentBefore]
    exact stamps.increment (made_before faithful.sound p kind sent) p kind _
  refine ⟨soundToo, ?_, ?_⟩
  · intro q
    change Stamps (processes.events ++ [event]) (known Event.process Event.cause (processes.events ++ [event]) q)
      (Function.update processes.clocks p event.clock q)
    by_cases here : q = p
    · subst here
      rw [Function.update_self, known_append_self faithful.sound sentBefore]
      exact last
    · have elsewhere : event.process ≠ q := Ne.symm here
      rw [Function.update_of_ne here, known_append_of_ne faithful.sound sentBefore elsewhere]
      exact (faithful.clocks q).append (made_of_closed (closed_known faithful.sound q)) event
  · intro j found recorded
    change (processes.events ++ [event])[j]? = some found at recorded
    change Stamps (processes.events ++ [event]) (past Event.process Event.cause (processes.events ++ [event]) j) found.clock
    rcases Nat.lt_trichotomy j processes.events.length with old | rfl | beyond
    · rw [List.getElem?_append_left old] at recorded
      rw [past_append soundToo old]
      exact (faithful.recorded j found recorded).append (made_of_closed (closed_past faithful.sound old)) event
    · rw [List.getElem?_concat_length] at recorded
      cases recorded
      exact last
    · rw [List.getElem?_eq_none (by rw [List.length_append, List.length_singleton]; exact beyond)] at recorded
      cases recorded

theorem Faithful.step (faithful : Faithful processes) (fits : n ≤ VECTOR_CLOCK_MAX_NODES) (call : ProcessCall n) :
    Faithful (processesStep processes call) := by
  have alone : ∀ p, Stamps processes.events (known Event.process Event.cause processes.events p ∪ ∅)
      (processes.clocks p) := by
    intro p
    rw [Finset.union_empty]
    exact faithful.clocks p
  cases call with
  | internal p => exact faithful.happen p .internal (fun i absurdly => nomatch absurdly) (alone p)
  | send p => exact faithful.happen p .send (fun i absurdly => nomatch absurdly) (alone p)
  | receive p message =>
    rw [processesStep]
    split
    · rename_i sender attached found
      have sent : message < processes.events.length := (List.getElem?_eq_some_iff.mp found).1
      refine faithful.happen p (.receive message) (fun i same => Option.some.inj same ▸ sent) ?_
      exact (faithful.clocks p).merge (faithful.recorded message _ found) fits (closed_known faithful.sound p)
        (closed_past faithful.sound sent)
    · exact faithful

/-- An event is in the past of another exactly if its clock is nowhere ahead. -/
theorem Faithful.below_iff (faithful : Faithful processes) (fits : n ≤ VECTOR_CLOCK_MAX_NODES) {i j : Nat}
    {e f : Event n} (first : processes.events[i]? = some e) (second : processes.events[j]? = some f) :
    Below n e.clock f.clock ↔ Within Event.process Event.cause processes.events i j := by
  have bound := (List.getElem?_eq_some_iff.mp first).1
  have boundToo := (List.getElem?_eq_some_iff.mp second).1
  have closed : Closed id (processes.events.map Event.process)
      (past Event.process Event.cause processes.events i) := closed_past faithful.sound bound
  have closedToo : Closed id (processes.events.map Event.process)
      (past Event.process Event.cause processes.events j) := closed_past faithful.sound boundToo
  constructor
  · intro below
    have owner : (processes.events.map Event.process)[i]? = some e.process := by
      rw [List.getElem?_map, first, Option.map_some]
    have counted := below ⟨e.process.val, Nat.lt_of_lt_of_le e.process.isLt fits⟩ e.process.isLt
    rw [(faithful.recorded i e first).slots _ e.process rfl,
      (faithful.recorded j f second).slots _ e.process rfl] at counted
    rw [← mem_past faithful.sound]
    refine (mem_iff_tally_le closed closedToo ((mem_past faithful.sound).mpr .refl) owner ?_).mpr counted
    intro k inside _
    exact ((mem_past faithful.sound).mp inside).le faithful.sound
  · intro within slot valid
    rw [(faithful.recorded i e first).slots slot ⟨slot.val, valid⟩ rfl,
      (faithful.recorded j f second).slots slot ⟨slot.val, valid⟩ rfl]
    refine tally_le id fun k inside _ => ?_
    exact (mem_past faithful.sound).mpr (((mem_past faithful.sound).mp inside).trans within)

/-- The comparison of the recorded clocks of two events says how they are related causally. -/
theorem vectorClockCompare_causal (fits : n ≤ VECTOR_CLOCK_MAX_NODES)
    (reached : Reaches processesStep Always (processesInit n) processes) {i j : Nat} {e f : Event n}
    (first : processes.events[i]? = some e) (second : processes.events[j]? = some f) (distinct : i ≠ j) :
    (vectorClockCompare e.clock f.clock = .before ↔ HappensBefore Event.process Event.cause processes.events i j) ∧
    (vectorClockCompare e.clock f.clock = .after ↔ HappensBefore Event.process Event.cause processes.events j i) ∧
    (vectorClockCompare e.clock f.clock = .concurrent ↔
      ¬ HappensBefore Event.process Event.cause processes.events i j ∧
      ¬ HappensBefore Event.process Event.cause processes.events j i) := by
  have faithful : Faithful processes :=
    reached.invariant faithful_init fun processes call faithful _ => faithful.step fits call
  obtain ⟨before, after, concurrent⟩ :=
    vectorClockCompare_iff (faithful.recorded i e first).nodes (faithful.recorded j f second).nodes
  rw [before, after, concurrent, faithful.below_iff fits first second, faithful.below_iff fits second first,
    ← happensBefore_iff distinct, ← happensBefore_iff distinct.symm]
  -- No two events happen before each other.
  have asymmetric : ∀ {k l : Nat}, HappensBefore Event.process Event.cause processes.events k l →
      ¬ HappensBefore Event.process Event.cause processes.events l k :=
    fun earlier later => Nat.lt_asymm (earlier.lt faithful.sound) (later.lt faithful.sound)
  exact ⟨and_iff_left_of_imp asymmetric, and_iff_left_of_imp asymmetric, Iff.rfl⟩

end Causality

/-- A process sends, and another one receives after an event of its own. -/
def exchange (sender receiver : Fin 2) : Processes 2 :=
  [ProcessCall.send sender, .internal receiver, .receive receiver 0].foldl processesStep (processesInit 2)

theorem exchange_before :
    ∃ e f, (exchange 0 1).events[0]? = some e ∧ (exchange 0 1).events[2]? = some f ∧
      vectorClockCompare e.clock f.clock = .before ∧
      HappensBefore Event.process Event.cause (exchange 0 1).events 0 2 := by
  refine ⟨_, _, rfl, rfl, by decide, ?_⟩
  exact (vectorClockCompare_causal (by decide) (Reaches.ofFold _) rfl rfl (by decide)).1.mp (by decide)

end MiniNetDist.SystemTheory.TimeOrdering
