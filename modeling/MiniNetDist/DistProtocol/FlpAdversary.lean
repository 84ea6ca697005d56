import Mathlib.Data.List.FinRange

/-! The asynchronous consensus of `mini-dist-protocol/src/consensus_theorems.c` under an adversary who crashes processes
and delays messages. A process takes over the value of a message it receives, and a majority of equal values among
those that live decides for all of them. -/

namespace MiniNetDist.DistProtocol.FlpAdversary

def FLP_MAX_PROCESSES : Nat := 8
def FLP_MAX_MSG_BUFFER : Nat := 64

inductive FLPDecision where
  | decided0
  | decided1
  | undecided
  deriving DecidableEq, Repr

inductive FLPAdversaryAction where
  | flipCoin
  | crashAfterSend
  | delayMessage
  | deliverMessage
  deriving DecidableEq, Repr

structure FLPProcess where
  initialValue : Int
  currentValue : Int
  decision : FLPDecision
  crashed : Bool
  round : Nat
  deriving DecidableEq, Repr

structure FLPMessage (n : Nat) where
  sender : Fin n
  receiver : Fin n
  value : Int
  round : Nat
  delivered : Bool
  deriving DecidableEq, Repr

structure FLPSystem (n : Nat) where
  processes : Fin n → FLPProcess
  messages : List (FLPMessage n)
  totalSteps : Nat
  allCrashed : Bool

variable {n : Nat}

/-- What `flp_init` writes. -/
def flpFresh (n : Nat) : FLPSystem n :=
  ⟨fun i => ⟨(i.val % 2 : Nat), (i.val % 2 : Nat), .undecided, false, 0⟩, [], 0, false⟩

/-- None beyond the array of processes, where the loop writes over the messages. -/
def flpInit (n : Nat) : Option (FLPSystem n) :=
  if n ≤ FLP_MAX_PROCESSES then some (flpFresh n) else none

/-- The processes that have not crashed, in order. -/
def FLPSystem.live (sys : FLPSystem n) : List (Fin n) :=
  (List.finRange n).filter fun i => !(sys.processes i).crashed

/-- A message beyond the buffer is lost. -/
def flpAddMessage (sys : FLPSystem n) (sender receiver : Fin n) (value : Int) (round : Nat) : FLPSystem n :=
  if sys.messages.length ≥ FLP_MAX_MSG_BUFFER then sys
  else { sys with messages := sys.messages ++ [⟨sender, receiver, value, round, false⟩] }

/-- All that live decide the same. -/
def FLPSystem.decide (sys : FLPSystem n) (decision : FLPDecision) : FLPSystem n :=
  { sys with
    processes := fun i => if (sys.processes i).crashed then sys.processes i
      else { sys.processes i with decision := decision } }

/-- The count at the end of a delivery. -/
def FLPSystem.count (sys : FLPSystem n) : FLPSystem n :=
  let value0 := sys.live.countP fun i => (sys.processes i).currentValue == 0
  let value1 := sys.live.countP fun i => (sys.processes i).currentValue != 0
  let q := sys.live.length / 2 + 1
  if value0 ≥ q then sys.decide .decided0 else if value1 ≥ q then sys.decide .decided1 else sys

/-- The message's receiver takes its value over. -/
def FLPSystem.receive (sys : FLPSystem n) (index : Nat) (msg : FLPMessage n) : FLPSystem n :=
  { sys with
    messages := sys.messages.set index { msg with delivered := true }
    processes := fun i => if i = msg.receiver then
        { sys.processes i with currentValue := msg.value, round := (sys.processes i).round + 1 }
      else sys.processes i }

def flpDeliverMessage (sys : FLPSystem n) (index : Nat) : FLPSystem n × Bool :=
  match sys.messages[index]? with
  | none => (sys, false)
  | some msg =>
    if msg.delivered then (sys, true)
    else if (sys.processes msg.receiver).crashed then (sys, false)
    else ((sys.receive index msg).count, true)

def FLPSystem.crash (sys : FLPSystem n) (pid : Nat) : FLPSystem n :=
  { sys with processes := fun i => if i.val = pid then { sys.processes i with crashed := true } else sys.processes i }

def flpCrashProcess (sys : FLPSystem n) (pid : Nat) : FLPSystem n :=
  if pid ≥ n then sys
  else if (sys.crash pid).live = [] then { sys.crash pid with allCrashed := true }
  else sys.crash pid

/-- The first message that is not delivered is tried. -/
def deliverFirst (sys : FLPSystem n) : FLPSystem n :=
  match sys.messages.findIdx? fun msg => !msg.delivered with
  | some index => (flpDeliverMessage sys index).1
  | none => sys

/-- The sends of one process, to all others that live. -/
def sendAll (round : Nat) (sys : FLPSystem n) (sender : Fin n) : FLPSystem n :=
  (sys.live.filter fun i => i ≠ sender).foldl
    (fun sys i => flpAddMessage sys sender i (sys.processes sender).currentValue round) sys

/-- The body of the adversary's loop. -/
def flpAct (nonempty : 0 < n) (step : Nat) (sys : FLPSystem n) : FLPAdversaryAction → FLPSystem n
  | .crashAfterSend => flpCrashProcess (sendAll step sys ⟨0, nonempty⟩) 0
  | .delayMessage => sys.live.foldl (sendAll step) sys
  | .deliverMessage => deliverFirst sys
  | .flipCoin => if step % 3 = 0 then flpCrashProcess sys (step % n) else deliverFirst sys

/-- The first decision of a process that lives. -/
def FLPSystem.firstDecision (sys : FLPSystem n) : Option FLPDecision :=
  (sys.live.find? fun i => (sys.processes i).decision ≠ .undecided).map fun i => (sys.processes i).decision

/-- The loop at a step, with the number of steps and the actions that are left. -/
def flpLoop (nonempty : 0 < n) : Nat → Nat → List FLPAdversaryAction → FLPSystem n → FLPDecision × FLPSystem n
  | 0, _, _, sys => (.undecided, sys)
  | steps + 1, step, actions, sys =>
    if sys.allCrashed then (.undecided, sys)
    else match sys.firstDecision, actions with
      | some decision, _ => (decision, sys)
      | none, [] => (.undecided, sys)
      | none, act :: rest =>
        flpLoop nonempty steps (step + 1) rest (flpAct nonempty step { sys with totalSteps := sys.totalSteps + 1 } act)

def flpRunAdversary (nonempty : 0 < n) (sys : FLPSystem n) (maxSteps : Int) (actions : List FLPAdversaryAction) :
    FLPDecision × FLPSystem n :=
  flpLoop nonempty maxSteps.toNat 0 actions sys

/-- The values that count for a decision. -/
def FLPDecision.supports : FLPDecision → Int → Bool
  | .decided0, value => value == 0
  | .decided1, value => value != 0
  | .undecided, _ => false

/-- No process has decided. -/
def Open (sys : FLPSystem n) : Prop := ∀ i, (sys.processes i).decision = .undecided

/-- Exactly the processes that live have decided, for a value that more than half of them have. -/
structure Decided (decision : FLPDecision) (sys : FLPSystem n) : Prop where
  some : decision ≠ .undecided
  all : ∀ i, (sys.processes i).decision = if (sys.processes i).crashed then .undecided else decision
  majority : sys.live.length < 2 * sys.live.countP fun i => decision.supports (sys.processes i).currentValue

/-- Every value around is one that a process started with. -/
structure Valid (sys : FLPSystem n) : Prop where
  initial : ∀ i, (sys.processes i).initialValue = (i.val % 2 : Nat)
  current : ∀ i, ∃ j, (sys.processes i).currentValue = (sys.processes j).initialValue
  sent : ∀ msg ∈ sys.messages, ∃ j, msg.value = (sys.processes j).initialValue

variable {sys : FLPSystem n} {decision : FLPDecision}

theorem flpFresh_valid (n : Nat) : Valid (flpFresh n) :=
  ⟨fun _ => rfl, fun i => ⟨i, rfl⟩, fun _ member => absurd member (List.not_mem_nil)⟩

/-- What is kept by a step that leaves all values alone. -/
theorem Valid.of_values (valid : Valid sys) {sys' : FLPSystem n}
    (kept : ∀ i, (sys'.processes i).initialValue = (sys.processes i).initialValue ∧
      (sys'.processes i).currentValue = (sys.processes i).currentValue)
    (sent : ∀ msg ∈ sys'.messages, ∃ j, msg.value = (sys.processes j).initialValue) : Valid sys' where
  initial i := (kept i).1.trans (valid.initial i)
  current i := by
    obtain ⟨j, same⟩ := valid.current i
    exact ⟨j, (kept i).2.trans (same.trans (kept j).1.symm)⟩
  sent msg member := by
    obtain ⟨j, same⟩ := sent msg member
    exact ⟨j, same.trans (kept j).1.symm⟩

theorem decide_kept (sys : FLPSystem n) (decision : FLPDecision) (i : Fin n) :
    ((sys.decide decision).processes i).initialValue = (sys.processes i).initialValue ∧
      ((sys.decide decision).processes i).currentValue = (sys.processes i).currentValue ∧
      ((sys.decide decision).processes i).crashed = (sys.processes i).crashed := by
  rw [FLPSystem.decide]
  dsimp only
  split <;> exact ⟨rfl, rfl, rfl⟩

theorem live_decide (sys : FLPSystem n) (decision : FLPDecision) : (sys.decide decision).live = sys.live := by
  rw [FLPSystem.live, FLPSystem.live]
  refine List.filter_congr fun i _ => ?_
  rw [(decide_kept sys decision i).2.2]

/-- A majority among those that live decides for all of them. -/
theorem decide_decided (undecided : Open sys) (some : decision ≠ .undecided)
    (majority : sys.live.length / 2 + 1 ≤ sys.live.countP fun i => decision.supports (sys.processes i).currentValue) :
    Decided decision (sys.decide decision) where
  some := some
  all i := by
    rw [(decide_kept sys decision i).2.2, FLPSystem.decide]
    dsimp only
    split
    · exact undecided i
    · rfl
  majority := by
    have same : (fun i => decision.supports ((sys.decide decision).processes i).currentValue) =
        fun i => decision.supports (sys.processes i).currentValue :=
      funext fun i => by rw [(decide_kept sys decision i).2.1]
    rw [live_decide, same]
    omega

/-- The state between two actions. -/
def Sound (sys : FLPSystem n) : Prop := Open sys ∨ ∃ decision, Decided decision sys

theorem count_sound (undecided : Open sys) : Sound sys.count := by
  rw [FLPSystem.count]
  split
  next majority => exact .inr ⟨.decided0, decide_decided undecided (by decide) majority⟩
  next =>
    split
    next majority => exact .inr ⟨.decided1, decide_decided undecided (by decide) majority⟩
    next => exact .inl undecided

theorem count_valid (valid : Valid sys) : Valid sys.count := by
  have decided : ∀ decision, Valid (sys.decide decision) := fun decision =>
    valid.of_values (fun i => ⟨(decide_kept sys decision i).1, (decide_kept sys decision i).2.1⟩) valid.sent
  rw [FLPSystem.count]
  split
  · exact decided .decided0
  · split
    · exact decided .decided1
    · exact valid

theorem receive_open (undecided : Open sys) (index : Nat) (msg : FLPMessage n) : Open (sys.receive index msg) := by
  intro i
  rw [FLPSystem.receive]
  dsimp only
  split <;> exact undecided i

theorem receive_valid (valid : Valid sys) {index : Nat} {msg : FLPMessage n} (listed : msg ∈ sys.messages) :
    Valid (sys.receive index msg) := by
  have kept : ∀ i, ((sys.receive index msg).processes i).initialValue = (sys.processes i).initialValue := by
    intro i
    rw [FLPSystem.receive]
    dsimp only
    split <;> rfl
  refine ⟨fun i => (kept i).trans (valid.initial i), fun i => ?_, fun other member => ?_⟩
  · rw [FLPSystem.receive]
    dsimp only
    split
    · obtain ⟨j, same⟩ := valid.sent msg listed
      exact ⟨j, same.trans (kept j).symm⟩
    · obtain ⟨j, same⟩ := valid.current i
      exact ⟨j, same.trans (kept j).symm⟩
  · rcases List.mem_or_eq_of_mem_set member with old | rfl
    · obtain ⟨j, same⟩ := valid.sent other old
      exact ⟨j, same.trans (kept j).symm⟩
    · obtain ⟨j, same⟩ := valid.sent msg listed
      exact ⟨j, same.trans (kept j).symm⟩

theorem flpDeliverMessage_open (undecided : Open sys) (index : Nat) : Sound (flpDeliverMessage sys index).1 := by
  rw [flpDeliverMessage]
  split
  · exact .inl undecided
  next msg _ =>
    split
    · exact .inl undecided
    · split
      · exact .inl undecided
      · exact count_sound (receive_open undecided index msg)

theorem flpDeliverMessage_valid (valid : Valid sys) (index : Nat) : Valid (flpDeliverMessage sys index).1 := by
  rw [flpDeliverMessage]
  split
  · exact valid
  next msg found =>
    split
    · exact valid
    · split
      · exact valid
      · exact count_valid (receive_valid valid (List.mem_of_getElem? found))

theorem deliverFirst_sound (valid : Valid sys) (undecided : Open sys) :
    Valid (deliverFirst sys) ∧ Sound (deliverFirst sys) := by
  rw [deliverFirst]
  split
  next index _ => exact ⟨flpDeliverMessage_valid valid index, flpDeliverMessage_open undecided index⟩
  next => exact ⟨valid, .inl undecided⟩

theorem crash_kept (sys : FLPSystem n) (pid : Nat) (i : Fin n) :
    ((sys.crash pid).processes i).initialValue = (sys.processes i).initialValue ∧
      ((sys.crash pid).processes i).currentValue = (sys.processes i).currentValue ∧
      ((sys.crash pid).processes i).decision = (sys.processes i).decision := by
  rw [FLPSystem.crash]
  dsimp only
  split <;> exact ⟨rfl, rfl, rfl⟩

theorem flpCrashProcess_sound (valid : Valid sys) (undecided : Open sys) (pid : Nat) :
    Valid (flpCrashProcess sys pid) ∧ Sound (flpCrashProcess sys pid) := by
  have crashed : Valid (sys.crash pid) :=
    valid.of_values (fun i => ⟨(crash_kept sys pid i).1, (crash_kept sys pid i).2.1⟩) valid.sent
  have stays : Open (sys.crash pid) := fun i => (crash_kept sys pid i).2.2.trans (undecided i)
  rw [flpCrashProcess]
  split
  · exact ⟨valid, .inl undecided⟩
  · split
    · exact ⟨⟨crashed.initial, crashed.current, crashed.sent⟩, .inl stays⟩
    · exact ⟨crashed, .inl stays⟩

theorem flpAddMessage_processes (sys : FLPSystem n) (sender receiver : Fin n) (value : Int) (round : Nat) :
    (flpAddMessage sys sender receiver value round).processes = sys.processes := by
  rw [flpAddMessage]
  split <;> rfl

theorem flpAddMessage_valid (valid : Valid sys) (sender receiver : Fin n) (round : Nat) :
    Valid (flpAddMessage sys sender receiver (sys.processes sender).currentValue round) := by
  rw [flpAddMessage]
  split
  · exact valid
  · refine valid.of_values (fun i => ⟨rfl, rfl⟩) fun msg member => ?_
    rcases List.mem_append.mp member with old | new
    · exact valid.sent msg old
    · rw [List.mem_singleton.mp new]
      exact valid.current sender

/-- What every single send keeps, sending to all keeps. -/
theorem sendAll_induct {P : FLPSystem n → Prop} (round : Nat)
    (send : ∀ sys sender receiver, P sys →
      P (flpAddMessage sys sender receiver (sys.processes sender).currentValue round))
    (start : P sys) (sender : Fin n) : P (sendAll round sys sender) := by
  rw [sendAll]
  induction sys.live.filter _ generalizing sys with
  | nil => exact start
  | cons receiver rest ih => exact ih (send sys sender receiver start)

/-- What every single send keeps, a delayed round of all sends keeps. -/
theorem delay_induct {P : FLPSystem n → Prop} (round : Nat)
    (send : ∀ sys sender receiver, P sys →
      P (flpAddMessage sys sender receiver (sys.processes sender).currentValue round))
    (start : P sys) : P (sys.live.foldl (sendAll round) sys) := by
  induction sys.live generalizing sys with
  | nil => exact start
  | cons sender rest ih => exact ih (sendAll_induct round send start sender)

theorem flpAddMessage_sound (sys : FLPSystem n) (sender receiver : Fin n) (round : Nat)
    (kept : Valid sys ∧ Open sys) :
    Valid (flpAddMessage sys sender receiver (sys.processes sender).currentValue round) ∧
      Open (flpAddMessage sys sender receiver (sys.processes sender).currentValue round) := by
  refine ⟨flpAddMessage_valid kept.1 sender receiver round, fun i => ?_⟩
  rw [flpAddMessage_processes]
  exact kept.2 i

/-- One action of the adversary before the decision. -/
theorem flpAct_sound (nonempty : 0 < n) (step : Nat) (act : FLPAdversaryAction) (valid : Valid sys)
    (undecided : Open sys) : Valid (flpAct nonempty step sys act) ∧ Sound (flpAct nonempty step sys act) := by
  cases act with
  | crashAfterSend =>
    have sent := sendAll_induct (P := fun sys => Valid sys ∧ Open sys) step
      (fun sys sender receiver kept => flpAddMessage_sound sys sender receiver step kept)
      ⟨valid, undecided⟩ ⟨0, nonempty⟩
    exact flpCrashProcess_sound sent.1 sent.2 0
  | delayMessage =>
    have sent := delay_induct (P := fun sys => Valid sys ∧ Open sys) step
      (fun sys sender receiver kept => flpAddMessage_sound sys sender receiver step kept) ⟨valid, undecided⟩
    exact ⟨sent.1, .inl sent.2⟩
  | deliverMessage => exact deliverFirst_sound valid undecided
  | flipCoin =>
    rw [flpAct]
    split
    · exact flpCrashProcess_sound valid undecided (step % n)
    · exact deliverFirst_sound valid undecided

theorem firstDecision_open (undecided : Open sys) : sys.firstDecision = none := by
  rw [FLPSystem.firstDecision, List.find?_eq_none.mpr fun i _ => by simp [undecided i]]
  rfl

/-- A majority has a member, whose decision is found. -/
theorem firstDecision_decided (decided : Decided decision sys) : sys.firstDecision = some decision := by
  have count : 0 < sys.live.countP fun i => decision.supports (sys.processes i).currentValue := by
    have := decided.majority
    omega
  obtain ⟨i, listed, _⟩ := List.countP_pos_iff.mp count
  have lives : ∀ j ∈ sys.live, (sys.processes j).decision = decision := by
    intro j member
    rw [decided.all j, if_neg (by simpa using (List.mem_filter.mp member).2)]
  rw [FLPSystem.firstDecision]
  cases found : sys.live.find? fun i => (sys.processes i).decision ≠ .undecided with
  | none => exact absurd decided.some (by simpa [lives i listed] using List.find?_eq_none.mp found i listed)
  | some j => rw [Option.map_some, lives j (List.mem_of_find?_eq_some found)]

/-- What holds at the end of a run. -/
structure Outcome (result : FLPDecision × FLPSystem n) : Prop where
  valid : Valid result.2
  sound : Sound result.2
  decides : result.1 ≠ .undecided → Decided result.1 result.2

theorem outcome_undecided (valid : Valid sys) (sound : Sound sys) : Outcome (.undecided, sys) :=
  ⟨valid, sound, fun decides => absurd rfl decides⟩

/-- From a sound state on, whatever the adversary does. -/
theorem flpLoop_outcome (nonempty : 0 < n) (steps step : Nat) (actions : List FLPAdversaryAction) (valid : Valid sys)
    (sound : Sound sys) : Outcome (flpLoop nonempty steps step actions sys) := by
  induction steps generalizing step actions sys with
  | zero => exact outcome_undecided valid sound
  | succ steps ih =>
    rcases sound with undecided | ⟨decision, decided⟩
    · have none := firstDecision_open undecided
      cases actions with
      | nil =>
        simp only [flpLoop, none]
        split <;> exact outcome_undecided valid (.inl undecided)
      | cons act rest =>
        simp only [flpLoop, none]
        split
        · exact outcome_undecided valid (.inl undecided)
        · have counted : Valid { sys with totalSteps := sys.totalSteps + 1 } :=
            ⟨valid.initial, valid.current, valid.sent⟩
          have next := flpAct_sound nonempty step act counted undecided
          exact ih (step + 1) rest next.1 next.2
    · simp only [flpLoop, firstDecision_decided decided]
      split
      · exact outcome_undecided valid (.inr ⟨decision, decided⟩)
      · exact ⟨valid, .inr ⟨decision, decided⟩, fun _ => decided⟩

/-- Whatever the adversary does, processes that have decided agree, and the result of the run is the decision of all
that live, for a value that more than half of them have and that some process started with. -/
theorem flpRunAdversary_agrees (nonempty : 0 < n) (few : n ≤ FLP_MAX_PROCESSES) (maxSteps : Int)
    (actions : List FLPAdversaryAction) :
    ∃ result later,
      (flpInit n).map (fun sys => flpRunAdversary nonempty sys maxSteps actions) = some (result, later) ∧
      (∀ i j, (later.processes i).decision ≠ .undecided → (later.processes j).decision ≠ .undecided →
        (later.processes i).decision = (later.processes j).decision) ∧
      (result ≠ .undecided →
        Decided result later ∧ ∃ i : Fin n, result.supports (i.val % 2 : Nat) = true) := by
  have fits : flpInit n = some (flpFresh n) := if_pos few
  obtain ⟨valid, sound, decides⟩ :=
    flpLoop_outcome nonempty maxSteps.toNat 0 actions (flpFresh_valid n) (.inl fun _ => rfl)
  refine ⟨_, _, by rw [fits]; rfl, fun i j first second => ?_, fun some => ⟨decides some, ?_⟩⟩
  · rcases sound with undecided | ⟨decision, decided⟩
    · exact absurd (undecided i) first
    · have one := decided.all i
      have other := decided.all j
      split at one
      · exact absurd one first
      · split at other
        · exact absurd other second
        · exact one.trans other.symm
  · have count := (decides some).majority
    obtain ⟨i, _, holds⟩ := List.countP_pos_iff.mp (Nat.pos_of_ne_zero fun zero => by rw [zero] at count; omega)
    obtain ⟨j, same⟩ := valid.current i
    exact ⟨j, by rw [← valid.initial j, ← same]; exact holds⟩

theorem flpRunAdversary_agrees_three : ∃ later,
    (flpInit 3).map (fun sys => flpRunAdversary (by decide) sys 9 [.flipCoin, .delayMessage, .deliverMessage]) =
      some (.decided1, later) ∧ Decided .decided1 later := by
  obtain ⟨result, later, ran, -, decides⟩ :=
    flpRunAdversary_agrees (n := 3) (by decide) (by decide) 9 [.flipCoin, .delayMessage, .deliverMessage]
  have decided : (flpRunAdversary (n := 3) (by decide) (flpFresh 3) 9 [.flipCoin, .delayMessage, .deliverMessage]).1 =
      .decided1 := by decide
  have returned := congrArg (Option.map Prod.fst) ran
  cases decided.symm.trans (Option.some.inj returned)
  exact ⟨later, ran, (decides (by decide)).1⟩

section Blocked

variable {base : FLPSystem n}

/-- Nothing is decided, and the first message to deliver is for a crashed process. All values are those of a base. -/
structure Blocked (base sys : FLPSystem n) : Prop where
  undecided : Open sys
  first : ∃ done msg rest, sys.messages = done ++ msg :: rest ∧ (∀ other ∈ done, other.delivered = true) ∧
    msg.delivered = false ∧ (sys.processes msg.receiver).crashed = true
  values : ∀ i, (sys.processes i).currentValue = (base.processes i).currentValue

/-- The message stays where it is: it is tried again and again. -/
theorem deliverFirst_blocked (blocked : Blocked base sys) : deliverFirst sys = sys := by
  obtain ⟨done, msg, rest, shape, delivered, waits, crashed⟩ := blocked.first
  have passed : done.findIdx? (fun msg => !msg.delivered) = none :=
    List.findIdx?_eq_none_iff.mpr fun other member => by rw [delivered other member]; rfl
  have found : sys.messages.findIdx? (fun msg => !msg.delivered) = some done.length := by
    rw [shape, List.findIdx?_append, passed, List.findIdx?_cons, waits]
    simp
  have listed : sys.messages[done.length]? = some msg := by
    rw [shape, List.getElem?_append_right (Nat.le_refl _), Nat.sub_self]
    rfl
  simp only [deliverFirst, found, flpDeliverMessage, listed, waits, crashed, if_true, Bool.false_eq_true, if_false]

theorem flpCrashProcess_blocked (blocked : Blocked base sys) (pid : Nat) : Blocked base (flpCrashProcess sys pid) := by
  have stays : Blocked base (sys.crash pid) := by
    refine ⟨fun i => (crash_kept sys pid i).2.2.trans (blocked.undecided i), ?_,
      fun i => (crash_kept sys pid i).2.1.trans (blocked.values i)⟩
    obtain ⟨done, msg, rest, shape, delivered, waits, crashed⟩ := blocked.first
    refine ⟨done, msg, rest, shape, delivered, waits, ?_⟩
    rw [FLPSystem.crash]
    dsimp only
    split
    · rfl
    · exact crashed
  rw [flpCrashProcess]
  split
  · exact blocked
  · split
    · exact ⟨stays.undecided, stays.first, stays.values⟩
    · exact stays

theorem flpAddMessage_blocked (blocked : Blocked base sys) (sender receiver : Fin n) (value : Int) (round : Nat) :
    Blocked base (flpAddMessage sys sender receiver value round) := by
  obtain ⟨done, msg, rest, shape, delivered, waits, crashed⟩ := blocked.first
  rw [flpAddMessage]
  split
  · exact blocked
  · have longer : sys.messages ++ [⟨sender, receiver, value, round, false⟩] =
        done ++ msg :: (rest ++ [⟨sender, receiver, value, round, false⟩]) := by
      rw [shape, List.append_assoc]
      rfl
    exact ⟨blocked.undecided, ⟨done, msg, rest ++ [_], longer, delivered, waits, crashed⟩,
      blocked.values⟩

theorem flpAct_blocked (nonempty : 0 < n) (step : Nat) (act : FLPAdversaryAction) (blocked : Blocked base sys) :
    Blocked base (flpAct nonempty step sys act) := by
  cases act with
  | crashAfterSend =>
    exact flpCrashProcess_blocked (sendAll_induct (P := Blocked base) step
      (fun _ sender receiver kept => flpAddMessage_blocked kept sender receiver _ step) blocked ⟨0, nonempty⟩) 0
  | delayMessage =>
    exact delay_induct (P := Blocked base) step
      (fun _ sender receiver kept => flpAddMessage_blocked kept sender receiver _ step) blocked
  | deliverMessage =>
    rw [flpAct, deliverFirst_blocked blocked]
    exact blocked
  | flipCoin =>
    rw [flpAct]
    split
    · exact flpCrashProcess_blocked blocked (step % n)
    · rw [deliverFirst_blocked blocked]
      exact blocked

/-- The rest of a run that is blocked. -/
theorem flpLoop_stays (nonempty : 0 < n) (steps step : Nat) (actions : List FLPAdversaryAction)
    (blocked : Blocked base sys) : (flpLoop nonempty steps step actions sys).1 = .undecided ∧
      Blocked base (flpLoop nonempty steps step actions sys).2 := by
  induction steps generalizing step actions sys with
  | zero => exact ⟨rfl, blocked⟩
  | succ steps ih =>
    have none := firstDecision_open blocked.undecided
    cases actions with
    | nil =>
      simp only [flpLoop, none]
      split <;> exact ⟨rfl, blocked⟩
    | cons act rest =>
      simp only [flpLoop, none]
      split
      · exact ⟨rfl, blocked⟩
      · have counted : Blocked base { sys with totalSteps := sys.totalSteps + 1 } :=
          ⟨blocked.undecided, blocked.first, blocked.values⟩
        exact ih (step + 1) rest (flpAct_blocked nonempty step act counted)

end Blocked

/-- Once the first message to deliver is for a crashed process and nothing is decided, nothing is ever decided, whatever
the adversary does from then on, and no process changes its value. -/
theorem flpLoop_blocked (nonempty : 0 < n) (blocked : Blocked sys sys) (steps step : Nat)
    (actions : List FLPAdversaryAction) :
    (flpLoop nonempty steps step actions sys).1 = .undecided ∧
      ∀ i, ((flpLoop nonempty steps step actions sys).2.processes i).decision = .undecided ∧
        ((flpLoop nonempty steps step actions sys).2.processes i).currentValue = (sys.processes i).currentValue := by
  obtain ⟨result, stays⟩ := flpLoop_stays nonempty steps step actions blocked
  exact ⟨result, fun i => ⟨stays.undecided i, stays.values i⟩⟩

/-- Two processes that send for three steps, of which the second then crashes. -/
def delayed : FLPSystem 2 :=
  (flpRunAdversary (by decide) (flpFresh 2) 4 [.delayMessage, .delayMessage, .delayMessage, .flipCoin]).2

theorem flpLoop_blocked_delayed :
    (flpLoop (by decide) 9 4 [.deliverMessage, .delayMessage, .deliverMessage] delayed).1 = .undecided := by
  have blocked : Blocked delayed delayed :=
    ⟨by unfold Open; decide, ⟨[], delayed.messages.head (by decide), delayed.messages.tail, by decide, by decide,
      by decide, by decide⟩, fun _ => rfl⟩
  exact (flpLoop_blocked (by decide) blocked 9 4 [.deliverMessage, .delayMessage, .deliverMessage]).1

end MiniNetDist.DistProtocol.FlpAdversary
