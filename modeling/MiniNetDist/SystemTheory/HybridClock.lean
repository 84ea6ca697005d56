import MiniNetDist.Library.Run
import Mathlib.Data.List.Basic

/-! The hybrid logical clock of `mini-dist-system-theory/src/time_ordering.c`. The wall clock is what
the caller reads, in any order. On a receive the physical time is overwritten before the rules of
the logical counter ask which of the times it was, so that the counter is never reset there and an
old counter is carried into the time of the message. -/

namespace MiniNetDist.SystemTheory.TimeOrdering

open Library

structure HybridLogicalClock where
  physicalTimeUs : Nat
  logicalCounter : Nat
  deriving DecidableEq, Repr

def hlcUpdate (hlc : HybridLogicalClock) (wallTimeUs : Nat) : HybridLogicalClock :=
  if wallTimeUs > hlc.physicalTimeUs then ⟨wallTimeUs, 0⟩
  else { hlc with logicalCounter := hlc.logicalCounter + 1 }

/-- `hlc_tick` is `hlc_update` with the wall clock it reads. -/
def hlcTick (hlc : HybridLogicalClock) (wall : Nat) : HybridLogicalClock := hlcUpdate hlc wall

def hlcOnReceive (hlc : HybridLogicalClock) (wall msgPhysical msgLogical : Nat) : HybridLogicalClock :=
  let maxPt := hlc.physicalTimeUs
  let maxPt := if msgPhysical > maxPt then msgPhysical else maxPt
  let maxPt := if wall > maxPt then wall else maxPt
  let hlc := { hlc with physicalTimeUs := maxPt }
  if maxPt = hlc.physicalTimeUs ∧ maxPt = msgPhysical then
    let maxLc := hlc.logicalCounter
    let maxLc := if msgLogical > maxLc then msgLogical else maxLc
    { hlc with logicalCounter := maxLc + 1 }
  else if maxPt = hlc.physicalTimeUs then
    { hlc with logicalCounter := hlc.logicalCounter + 1 }
  else { hlc with logicalCounter := 0 }

def hlcCompare (a b : HybridLogicalClock) : Int :=
  if a.physicalTimeUs < b.physicalTimeUs then -1
  else if a.physicalTimeUs > b.physicalTimeUs then 1
  else if a.logicalCounter < b.logicalCounter then -1
  else if a.logicalCounter > b.logicalCounter then 1
  else 0

theorem hlcCompare_eq_one_iff {a b : HybridLogicalClock} :
    hlcCompare a b = 1 ↔ b.physicalTimeUs < a.physicalTimeUs ∨
      b.physicalTimeUs = a.physicalTimeUs ∧ b.logicalCounter < a.logicalCounter := by
  unfold hlcCompare
  split_ifs <;> simp <;> omega

/-- The counter goes up in any case. -/
theorem hlcOnReceive_eq (hlc : HybridLogicalClock) (wall msgPhysical msgLogical : Nat) :
    hlcOnReceive hlc wall msgPhysical msgLogical =
      ⟨max (max hlc.physicalTimeUs msgPhysical) wall,
        if hlc.physicalTimeUs ≤ msgPhysical ∧ wall ≤ msgPhysical then max hlc.logicalCounter msgLogical + 1
        else hlc.logicalCounter + 1⟩ := by
  have newest : (if wall > (if msgPhysical > hlc.physicalTimeUs then msgPhysical else hlc.physicalTimeUs) then wall
      else if msgPhysical > hlc.physicalTimeUs then msgPhysical else hlc.physicalTimeUs) =
      max (max hlc.physicalTimeUs msgPhysical) wall := by
    split_ifs <;> omega
  have larger : (if msgLogical > hlc.logicalCounter then msgLogical else hlc.logicalCounter) =
      max hlc.logicalCounter msgLogical := by
    split_ifs <;> omega
  unfold hlcOnReceive
  simp only [newest, larger, true_and, if_true]
  by_cases latest : hlc.physicalTimeUs ≤ msgPhysical ∧ wall ≤ msgPhysical
  · rw [if_pos (by omega), if_pos latest]
  · rw [if_neg (by omega), if_neg latest]

section Nodes

variable {Node : Type} [DecidableEq Node]

/-- The clocks of the nodes and the timestamps of all events so far. -/
structure Nodes (Node : Type) where
  clocks : Node → HybridLogicalClock
  events : List HybridLogicalClock

/-- A message carries a clock as some node had it: number 0 is the one they all start with. -/
inductive HlcCall (Node : Type) where
  | tick (node : Node) (wall : Nat)
  | receive (node : Node) (wall message : Nat)
  deriving DecidableEq, Repr

def hlcZero : HybridLogicalClock := ⟨0, 0⟩

def nodesInit : Nodes Node := ⟨fun _ => hlcZero, []⟩

def Nodes.messages (nodes : Nodes Node) : List HybridLogicalClock := hlcZero :: nodes.events

def Nodes.happen (nodes : Nodes Node) (node : Node) (after : HybridLogicalClock) : Nodes Node :=
  ⟨Function.update nodes.clocks node after, nodes.events ++ [after]⟩

def nodesStep (nodes : Nodes Node) : HlcCall Node → Nodes Node
  | .tick node wall => nodes.happen node (hlcTick (nodes.clocks node) wall)
  | .receive node wall message =>
    match nodes.messages[message]? with
    | some received =>
      nodes.happen node
        (hlcOnReceive (nodes.clocks node) wall received.physicalTimeUs received.logicalCounter)
    | none => nodes

/-- The events so far that had a physical time. -/
def eventsAt (events : List HybridLogicalClock) (physical : Nat) : Nat :=
  events.countP fun stamp => stamp.physicalTimeUs = physical

/-- What an event of the algorithm does: the timestamp is above the clock it had and the one it
received, it starts from 0 where the wall clock is ahead of both, and its counter is at most the
number of events with its physical time. -/
structure Orderly (events : List HybridLogicalClock) (before : HybridLogicalClock)
    (received : Option HybridLogicalClock) (wall : Nat) (after : HybridLogicalClock) : Prop where
  above : hlcCompare after before = 1
  aboveReceived : ∀ message, received = some message → hlcCompare after message = 1
  resets : before.physicalTimeUs < wall → (∀ message, received = some message → message.physicalTimeUs < wall) →
    after.logicalCounter = 0
  bounded : after.logicalCounter ≤ eventsAt (events ++ [after]) after.physicalTimeUs

def OrderlyCall (nodes : Nodes Node) : HlcCall Node → Prop
  | .tick node wall => Orderly nodes.events (nodes.clocks node) none wall (hlcTick (nodes.clocks node) wall)
  | .receive node wall message => ∀ received, nodes.messages[message]? = some received →
      Orderly nodes.events (nodes.clocks node) (some received) wall
        (hlcOnReceive (nodes.clocks node) wall received.physicalTimeUs received.logicalCounter)

/-- A receive that does not read a wall clock ahead of both times, and that does not take a counter to
a later time of the message than that has had events. -/
def Unmixed (events : List HybridLogicalClock) (before received : HybridLogicalClock) (wall : Nat) : Prop :=
  ¬ (before.physicalTimeUs < wall ∧ received.physicalTimeUs < wall) ∧
    (before.physicalTimeUs < received.physicalTimeUs →
      before.logicalCounter ≤ eventsAt events received.physicalTimeUs)

def UnmixedCall (nodes : Nodes Node) : HlcCall Node → Prop
  | .tick _ _ => True
  | .receive node wall message => ∀ received, nodes.messages[message]? = some received →
      Unmixed nodes.events (nodes.clocks node) received wall

variable {events : List HybridLogicalClock} {before received after : HybridLogicalClock} {wall : Nat}

theorem eventsAt_append (physical : Nat) :
    eventsAt (events ++ [after]) physical =
      eventsAt events physical + if after.physicalTimeUs = physical then 1 else 0 := by
  unfold eventsAt
  rw [List.countP_append, List.countP_singleton]
  simp

/-- A timestamp whose counter the events with its time account for. -/
def Accounted (events : List HybridLogicalClock) (stamp : HybridLogicalClock) : Prop :=
  stamp.logicalCounter ≤ eventsAt events stamp.physicalTimeUs

theorem hlcTick_orderly (accounted : Accounted events before) (wall : Nat) :
    Orderly events before none wall (hlcTick before wall) := by
  unfold Accounted at accounted
  unfold hlcTick hlcUpdate
  split_ifs with ahead
  · exact ⟨hlcCompare_eq_one_iff.mpr (.inl ahead), by simp, fun _ _ => rfl, Nat.zero_le _⟩
  · refine ⟨hlcCompare_eq_one_iff.mpr (.inr ⟨rfl, Nat.lt_succ_self _⟩), by simp, fun beyond _ => absurd beyond ahead, ?_⟩
    rw [eventsAt_append, if_pos rfl]
    exact Nat.succ_le_succ accounted

/-- The timestamp of a receive is above both it came from, whatever the wall clock says. -/
theorem hlcOnReceive_above (before received : HybridLogicalClock) (wall : Nat) :
    hlcCompare (hlcOnReceive before wall received.physicalTimeUs received.logicalCounter) before = 1 ∧
    hlcCompare (hlcOnReceive before wall received.physicalTimeUs received.logicalCounter) received = 1 := by
  rw [hlcCompare_eq_one_iff, hlcCompare_eq_one_iff, hlcOnReceive_eq]
  constructor
  · split_ifs <;> simp only <;> omega
  · split_ifs <;> simp only <;> omega

theorem hlcOnReceive_bounded_iff (behind : ¬ (before.physicalTimeUs < wall ∧ received.physicalTimeUs < wall))
    (accounted : Accounted events before) (accountedToo : Accounted events received)
    (result : after = hlcOnReceive before wall received.physicalTimeUs received.logicalCounter) :
    after.logicalCounter ≤ eventsAt (events ++ [after]) after.physicalTimeUs ↔
      (before.physicalTimeUs < received.physicalTimeUs →
        before.logicalCounter ≤ eventsAt events received.physicalTimeUs) := by
  unfold Accounted at accounted accountedToo
  rw [hlcOnReceive_eq] at result
  rw [eventsAt_append, if_pos rfl, result]
  rcases Nat.lt_trichotomy before.physicalTimeUs received.physicalTimeUs with later | same | earlier
  · have newest : max (max before.physicalTimeUs received.physicalTimeUs) wall = received.physicalTimeUs := by omega
    rw [newest, if_pos (by omega)]
    simp only
    omega
  · rw [← same] at accountedToo
    have newest : max (max before.physicalTimeUs received.physicalTimeUs) wall = before.physicalTimeUs := by omega
    rw [newest, if_pos (by omega)]
    simp only
    omega
  · have newest : max (max before.physicalTimeUs received.physicalTimeUs) wall = before.physicalTimeUs := by omega
    rw [newest, if_neg (by omega)]
    simp only
    omega

theorem hlcOnReceive_orderly_iff (accounted : Accounted events before) (accountedToo : Accounted events received) :
    Orderly events before (some received) wall
        (hlcOnReceive before wall received.physicalTimeUs received.logicalCounter) ↔
      Unmixed events before received wall := by
  obtain ⟨above, aboveReceived⟩ := hlcOnReceive_above before received wall
  constructor
  · rintro ⟨-, -, resets, bounded⟩
    have behind : ¬ (before.physicalTimeUs < wall ∧ received.physicalTimeUs < wall) := by
      rintro ⟨ahead, aheadToo⟩
      have zero := resets ahead (fun message same => Option.some.inj same ▸ aheadToo)
      rw [hlcOnReceive_eq] at zero
      split_ifs at zero
    exact ⟨behind, (hlcOnReceive_bounded_iff behind accounted accountedToo rfl).mp bounded⟩
  · rintro ⟨behind, carried⟩
    refine ⟨above, fun message same => Option.some.inj same ▸ aboveReceived, ?_,
      (hlcOnReceive_bounded_iff behind accounted accountedToo rfl).mpr carried⟩
    intro ahead aheadToo
    exact absurd ⟨ahead, aheadToo received rfl⟩ behind

/-- All clocks and messages are accounted for. -/
structure Regular (nodes : Nodes Node) : Prop where
  clocks : ∀ node, Accounted nodes.events (nodes.clocks node)
  messages : ∀ message ∈ nodes.messages, Accounted nodes.events message

omit [DecidableEq Node] in
theorem regular_init : Regular (nodesInit : Nodes Node) := by
  refine ⟨fun _ => Nat.le_refl _, ?_⟩
  intro message inside
  rw [List.mem_singleton.mp inside]
  exact Nat.le_refl _

theorem Accounted.append {stamp : HybridLogicalClock} (accounted : Accounted events stamp)
    (after : HybridLogicalClock) : Accounted (events ++ [after]) stamp := by
  unfold Accounted
  rw [eventsAt_append]
  exact Nat.le_add_right_of_le accounted

theorem Regular.happen {nodes : Nodes Node} (regular : Regular nodes) (node : Node)
    (accounted : Accounted (nodes.events ++ [after]) after) : Regular (nodes.happen node after) := by
  constructor
  · intro other
    change Accounted (nodes.events ++ [after]) (Function.update nodes.clocks node after other)
    by_cases here : other = node
    · subst here
      rw [Function.update_self]
      exact accounted
    · rw [Function.update_of_ne here]
      exact (regular.clocks other).append after
  · intro message inside
    change message ∈ nodes.messages ++ [after] at inside
    rcases List.mem_append.mp inside with old | new
    · exact (regular.messages message old).append after
    · rw [List.mem_singleton.mp new]
      exact accounted

theorem Regular.step {nodes : Nodes Node} (regular : Regular nodes) (call : HlcCall Node)
    (orderly : OrderlyCall nodes call) : Regular (nodesStep nodes call) := by
  cases call with
  | tick node wall => exact regular.happen node orderly.bounded
  | receive node wall message =>
    rw [nodesStep]
    cases found : nodes.messages[message]? with
    | some received => exact regular.happen node (orderly received found).bounded
    | none => exact regular

omit [DecidableEq Node] in
theorem Regular.orderly_iff {nodes : Nodes Node} (regular : Regular nodes) (call : HlcCall Node) :
    OrderlyCall nodes call ↔ UnmixedCall nodes call := by
  cases call with
  | tick node wall => exact ⟨fun _ => trivial, fun _ => hlcTick_orderly (regular.clocks node) wall⟩
  | receive node wall message =>
    refine forall₂_congr fun received found => ?_
    exact hlcOnReceive_orderly_iff (regular.clocks node) (regular.messages received (List.mem_of_getElem? found))

/-- A run of clocks follows the algorithm exactly if no receive mixes up the times. -/
theorem hlc_orderly_iff (calls : List (HlcCall Node)) :
    Permitted nodesStep OrderlyCall nodesInit calls ↔ Permitted nodesStep UnmixedCall nodesInit calls :=
  Permitted.congr calls (Permitted.always calls) regular_init
    (fun _ call regular _ orderly => regular.step call orderly)
    (fun _ call regular _ => regular.orderly_iff call)

end Nodes

/-- The second node receives a message of the first when its wall clock is ahead of both. -/
def receiveAhead : List (HlcCall Bool) := [.tick false 10, .receive true 20 1]

/-- The first node has counted to 2 at time 5 when a message of time 10 arrives. -/
def receiveBehind : List (HlcCall Bool) :=
  [.tick false 5, .tick false 5, .tick false 5, .tick true 10, .receive false 5 4]

/-- The counter is 1 instead of 0 in the one run, and 3 at the second event of its time in the other. -/
theorem receives_count_on :
    (receiveAhead.foldl nodesStep nodesInit).clocks true = ⟨20, 1⟩ ∧
    ¬ Permitted nodesStep OrderlyCall nodesInit receiveAhead ∧
    (receiveBehind.foldl nodesStep nodesInit).clocks false = ⟨10, 3⟩ ∧
    eventsAt (receiveBehind.foldl nodesStep nodesInit).events 10 = 2 := by
  refine ⟨by decide, ?_, by decide, by decide⟩
  rintro ⟨-, orderly, -⟩
  have zero := (orderly ⟨10, 0⟩ rfl).resets (by decide) (fun message same => Option.some.inj same ▸ by decide)
  exact absurd zero (by decide)

end MiniNetDist.SystemTheory.TimeOrdering
