import MiniNetDist.Library.Depth
import MiniNetDist.SystemTheory.VectorClock
import Mathlib.Algebra.Group.Nat.Defs

/-! The Lamport clocks of `mini-dist-system-theory/src/time_ordering.c`. The processes count their events and attach the
clock to what they send; messages may be lost, reordered and delivered again. -/

namespace MiniNetDist.SystemTheory.TimeOrdering

open Library Library.Causality Library.Depth

structure LamportClock where
  counter : UInt64
  deriving DecidableEq, Repr

/-- The clock and the value that is returned. -/
def lamportIncrement (lc : LamportClock) : LamportClock × UInt64 := (⟨lc.counter + 1⟩, lc.counter + 1)

def lamportTick (lc : LamportClock) (receivedClock : UInt64) : LamportClock × UInt64 :=
  let counter := if receivedClock > lc.counter then receivedClock else lc.counter
  (⟨counter + 1⟩, counter + 1)

def lamportCompare (a b : UInt64) : Int := if a < b then -1 else if a > b then 1 else 0

variable {Process : Type}

/-- What happened where, and the value that the clock returned. -/
structure LamportEvent (Process : Type) where
  process : Process
  kind : EventKind
  time : UInt64

def LamportEvent.cause (event : LamportEvent Process) : Option Nat := event.kind.message

structure LamportProcesses (Process : Type) where
  clocks : Process → LamportClock
  events : List (LamportEvent Process)

inductive LamportCall (Process : Type) where
  | internal (p : Process)
  | send (p : Process)
  | receive (p : Process) (message : Nat)

def lamportInit : LamportProcesses Process := ⟨fun _ => ⟨0⟩, []⟩

def LamportProcesses.happen [DecidableEq Process] (processes : LamportProcesses Process) (p : Process) (kind : EventKind)
    (ticked : LamportClock × UInt64) : LamportProcesses Process where
  clocks := Function.update processes.clocks p ticked.1
  events := processes.events ++ [⟨p, kind, ticked.2⟩]

def lamportStep [DecidableEq Process] (processes : LamportProcesses Process) : LamportCall Process → LamportProcesses Process
  | .internal p => processes.happen p .internal (lamportIncrement (processes.clocks p))
  | .send p => processes.happen p .send (lamportIncrement (processes.clocks p))
  | .receive p message =>
    match processes.events[message]? with
    | some ⟨_, .send, attached⟩ => processes.happen p (.receive message) (lamportTick (processes.clocks p) attached)
    | _ => processes

section Clocks

variable {events : List (LamportEvent Process)} {processes : LamportProcesses Process} {p : Process} {kind : EventKind}
  {i j : Nat} {counter : UInt64} {event : LamportEvent Process}

/-- The time of an event, and 0 before there is one. -/
def timeAt (events : List (LamportEvent Process)) (i : Nat) : Nat := (events[i]?.map fun event => event.time.toNat).getD 0

/-- There is an event of the process, or the one that was received, at this time, or no time has passed. -/
def Heard (events : List (LamportEvent Process)) (p : Process) (message : Option Nat) (time : Nat) : Prop :=
  time = 0 ∨ ∃ i < events.length, timeAt events i = time ∧
    (events[i]?.map LamportEvent.process = some p ∨ message = some i)

/-- A process's clock shows the time of its last event. The times rise along the causes, by one over the latest. -/
structure Timed (processes : LamportProcesses Process) : Prop where
  sound : Sound LamportEvent.cause processes.events
  heard : ∀ p, Heard processes.events p none (processes.clocks p).counter.toNat
  behind : ∀ p i, processes.events[i]?.map LamportEvent.process = some p →
    timeAt processes.events i ≤ (processes.clocks p).counter.toNat
  bounded : ∀ i, timeAt processes.events i ≤ processes.events.length
  rises : ∀ i j, Direct LamportEvent.process LamportEvent.cause processes.events i j →
    timeAt processes.events i < timeAt processes.events j
  tight : ∀ j < processes.events.length, timeAt processes.events j = 1 ∨
    ∃ i, Direct LamportEvent.process LamportEvent.cause processes.events i j ∧
      timeAt processes.events j = timeAt processes.events i + 1

theorem timed_init : Timed (lamportInit : LamportProcesses Process) where
  sound _ _ received := absurd received nofun
  heard _ := .inl rfl
  behind _ _ found := absurd found nofun
  bounded _ := Nat.le_refl 0
  rises _ _ direct := by
    cases direct with
    | program _ there _ => exact absurd there nofun
    | message received => exact absurd received nofun
  tight _ absurdly := absurd absurdly (Nat.not_lt_zero _)

theorem timeAt_old (old : i < events.length) : timeAt (events ++ [event]) i = timeAt events i := by
  rw [timeAt, List.getElem?_append_left old, timeAt]

theorem timeAt_new : timeAt (events ++ [event]) events.length = event.time.toNat := by
  rw [timeAt, List.getElem?_concat_length]
  rfl

theorem timeAt_beyond (beyond : events.length ≤ i) : timeAt events i = 0 := by
  rw [timeAt, List.getElem?_eq_none beyond]
  rfl

theorem Heard.append {message : Option Nat} {time : Nat} (heard : Heard events p message time)
    (event : LamportEvent Process) : Heard (events ++ [event]) p message time := by
  refine heard.imp_right ?_
  rintro ⟨i, inside, same, who⟩
  refine ⟨i, by simpa using Nat.lt_succ_of_lt inside, (timeAt_old inside).trans same, ?_⟩
  rw [List.getElem?_append_left inside]
  exact who

theorem Heard.le {time : Nat} {message : Option Nat} (timed : Timed processes)
    (heard : Heard processes.events p message time) : time ≤ processes.events.length := by
  rcases heard with rfl | ⟨i, -, same, -⟩
  · exact Nat.zero_le _
  · rw [← same]
    exact timed.bounded i

theorem Timed.bounded_append (timed : Timed processes) (small : event.time.toNat ≤ processes.events.length + 1) (i : Nat) :
    timeAt (processes.events ++ [event]) i ≤ (processes.events ++ [event]).length := by
  rw [List.length_append, List.length_singleton]
  rcases Nat.lt_trichotomy i processes.events.length with old | rfl | beyond
  · rw [timeAt_old old]
    exact Nat.le_succ_of_le (timed.bounded i)
  · rw [timeAt_new]
    exact small
  · rw [timeAt_beyond (by rw [List.length_append, List.length_singleton]; exact beyond)]
    exact Nat.zero_le _

theorem Timed.rises_append (timed : Timed processes) (sound : Sound LamportEvent.cause (processes.events ++ [event]))
    (later : ∀ i, Direct LamportEvent.process LamportEvent.cause (processes.events ++ [event]) i processes.events.length →
      timeAt processes.events i < event.time.toNat)
    (direct : Direct LamportEvent.process LamportEvent.cause (processes.events ++ [event]) i j) :
    timeAt (processes.events ++ [event]) i < timeAt (processes.events ++ [event]) j := by
  have there := direct.lt_length
  have earlier := direct.lt sound
  rw [List.length_append, List.length_singleton] at there
  rcases Nat.lt_succ_iff_lt_or_eq.mp there with old | rfl
  · rw [timeAt_old old, timeAt_old (Nat.lt_trans earlier old)]
    exact timed.rises i j ((direct_append_iff old).mp direct)
  · rw [timeAt_old earlier, timeAt_new]
    exact later i direct

theorem Timed.tight_append (timed : Timed processes)
    (last : event.time.toNat = 1 ∨ ∃ i < processes.events.length,
      Direct LamportEvent.process LamportEvent.cause (processes.events ++ [event]) i processes.events.length ∧
        event.time.toNat = timeAt processes.events i + 1)
    (inside : j < (processes.events ++ [event]).length) :
    timeAt (processes.events ++ [event]) j = 1 ∨ ∃ i,
      Direct LamportEvent.process LamportEvent.cause (processes.events ++ [event]) i j ∧
        timeAt (processes.events ++ [event]) j = timeAt (processes.events ++ [event]) i + 1 := by
  rw [List.length_append, List.length_singleton] at inside
  rcases Nat.lt_succ_iff_lt_or_eq.mp inside with old | rfl
  · rw [timeAt_old old]
    refine (timed.tight j old).imp_right ?_
    rintro ⟨i, direct, same⟩
    refine ⟨i, (direct_append_iff old).mpr direct, ?_⟩
    rw [timeAt_old (Nat.lt_trans (direct.lt timed.sound) old)]
    exact same
  · rw [timeAt_new]
    refine last.imp_right ?_
    rintro ⟨i, old, direct, same⟩
    exact ⟨i, direct, by rw [timeAt_old old, same]⟩

variable [DecidableEq Process]

theorem Timed.heard_happen (timed : Timed processes) (p : Process) (kind : EventKind) (time : UInt64) (q : Process) :
    Heard (processes.events ++ [⟨p, kind, time⟩]) q none
      (Function.update processes.clocks p ⟨time⟩ q).counter.toNat := by
  by_cases here : q = p
  · subst here
    rw [Function.update_self]
    refine .inr ⟨processes.events.length, by simp, timeAt_new, .inl ?_⟩
    rw [List.getElem?_concat_length]
    rfl
  · rw [Function.update_of_ne here]
    exact (timed.heard q).append _

theorem Timed.behind_happen (timed : Timed processes) {time : UInt64}
    (later : (processes.clocks p).counter.toNat ≤ time.toNat) (q : Process) (i : Nat)
    (found : (processes.events ++ [⟨p, kind, time⟩])[i]?.map LamportEvent.process = some q) :
    timeAt (processes.events ++ [⟨p, kind, time⟩]) i ≤ (Function.update processes.clocks p ⟨time⟩ q).counter.toNat := by
  rcases lt_or_eq_of_found found with old | rfl
  · rw [List.getElem?_append_left old] at found
    rw [timeAt_old old]
    have before := timed.behind q i found
    by_cases here : q = p
    · subst here
      rw [Function.update_self]
      exact Nat.le_trans before later
    · rw [Function.update_of_ne here]
      exact before
  · rw [List.getElem?_concat_length] at found
    cases found
    rw [timeAt_new, Function.update_self]

/-- An event comes one after the latest that its process has heard of. -/
theorem Timed.happen {base : Nat} (timed : Timed processes) (p : Process) (kind : EventKind) {time : UInt64}
    (next : time.toNat = base + 1) (ahead : (processes.clocks p).counter.toNat ≤ base)
    (sent : ∀ i, kind.message = some i → i < processes.events.length ∧ timeAt processes.events i ≤ base)
    (heard : Heard processes.events p kind.message base) : Timed (processes.happen p kind (⟨time⟩, time)) := by
  let event : LamportEvent Process := ⟨p, kind, time⟩
  have before : ∀ i, event.cause = some i → i < processes.events.length := fun i same => (sent i same).1
  have sound : Sound LamportEvent.cause (processes.events ++ [event]) := sound_append timed.sound before
  refine ⟨sound, timed.heard_happen p kind time, timed.behind_happen (next ▸ Nat.le_succ_of_le ahead), ?_, ?_, ?_⟩
  · exact timed.bounded_append (next ▸ Nat.succ_le_succ (heard.le timed))
  · intro i j
    apply timed.rises_append sound
    intro i direct
    refine Nat.lt_of_le_of_lt ?_ (Nat.lt_of_lt_of_eq (Nat.lt_succ_self base) next.symm)
    rcases (direct_last_iff before).mp direct with ⟨-, own | received⟩
    · exact Nat.le_trans (timed.behind p i own) ahead
    · exact (sent i received).2
  · intro j
    apply timed.tight_append
    rcases heard with rfl | ⟨i, old, same, follows⟩
    · exact .inl next
    · exact .inr ⟨i, old, (direct_last_iff before).mpr ⟨old, follows⟩, next.trans (by rw [same])⟩

theorem toNat_succ (counter : UInt64) (small : counter.toNat < 2 ^ 64 - 1) : (counter + 1).toNat = counter.toNat + 1 := by
  rw [UInt64.toNat_add]
  exact Nat.mod_eq_of_lt (by simpa using Nat.add_lt_of_lt_sub small)

theorem Timed.step (timed : Timed processes) (few : processes.events.length < 2 ^ 64 - 1) (call : LamportCall Process) :
    Timed (lamportStep processes call) := by
  have alone : ∀ p kind, kind.message = none →
      Timed (processes.happen p kind (lamportIncrement (processes.clocks p))) := by
    intro p kind nothing
    have bound := Nat.lt_of_le_of_lt ((timed.heard p).le timed) few
    apply timed.happen p kind (toNat_succ _ bound) (Nat.le_refl _)
    · intro i received
      rw [nothing] at received
      cases received
    · rw [nothing]
      exact timed.heard p
  cases call with
  | internal p => exact alone p .internal rfl
  | send p => exact alone p .send rfl
  | receive p message =>
    rw [lamportStep]
    split
    · rename_i sender attached found
      have old : message < processes.events.length := (List.getElem?_eq_some_iff.mp found).1
      have carried : timeAt processes.events message = attached.toNat := by
        rw [timeAt, found]
        rfl
      have arrived : ∀ base, attached.toNat ≤ base → ∀ i, (EventKind.receive message).message = some i →
          i < processes.events.length ∧ timeAt processes.events i ≤ base := by
        rintro base less _ ⟨rfl⟩
        exact ⟨old, carried ▸ less⟩
      unfold lamportTick
      split
      · rename_i later
        have heard : Heard processes.events p (some message) attached.toNat := .inr ⟨message, old, carried, .inr rfl⟩
        have bound := Nat.lt_of_le_of_lt (heard.le timed) few
        exact timed.happen p _ (toNat_succ _ bound) (Nat.le_of_lt later) (arrived _ (Nat.le_refl _)) heard
      · rename_i notLater
        have bound := Nat.lt_of_le_of_lt ((timed.heard p).le timed) few
        refine timed.happen p _ (toNat_succ _ bound) (Nat.le_refl _) (arrived _ (Nat.le_of_not_lt notLater)) ?_
        refine (timed.heard p).imp_right ?_
        rintro ⟨i, inside, same, own | none⟩
        · exact ⟨i, inside, same, .inl own⟩
        · cases none
    · exact timed

/-- A step adds one event or changes nothing. -/
theorem lamportStep_cases (processes : LamportProcesses Process) (call : LamportCall Process) :
    lamportStep processes call = processes ∨
      (lamportStep processes call).events.length = processes.events.length + 1 := by
  have grows : ∀ p kind ticked, (processes.happen p kind ticked).events.length = processes.events.length + 1 :=
    fun _ _ _ => List.length_append
  cases call with
  | internal p => exact .inr (grows _ _ _)
  | send p => exact .inr (grows _ _ _)
  | receive p message =>
    rw [lamportStep]
    split
    · exact .inr (grows _ _ _)
    · exact .inl rfl

/-- As long as the counters can hold the number of events, they are right. -/
theorem timed_of_reaches (reached : Reaches lamportStep Always lamportInit processes)
    (few : processes.events.length < 2 ^ 64) : Timed processes := by
  refine reached.invariant (motive := fun processes => processes.events.length < 2 ^ 64 → Timed processes)
    (fun _ => timed_init) ?_ few
  intro processes call ih _ fewAfter
  rcases lamportStep_cases processes call with same | grown
  · rw [same] at fewAfter ⊢
    exact ih fewAfter
  · rw [grown] at fewAfter
    exact (ih (Nat.lt_of_succ_lt fewAfter)).step (Nat.lt_sub_of_add_lt fewAfter) call

theorem lamportCompare_lt {a b : UInt64} (earlier : a < b) : lamportCompare a b = -1 := if_pos earlier

/-- The time of an event is the length of the longest chain of events that ends with it and in which each happened before
the next. So an event that happened before another one compares as smaller. -/
theorem lamport_depth (reached : Reaches lamportStep Always lamportInit processes)
    (few : processes.events.length < 2 ^ 64) {f : LamportEvent Process} (found : processes.events[j]? = some f) :
    IsGreatest {n | Chain (HappensBefore LamportEvent.process LamportEvent.cause processes.events) n j} f.time.toNat ∧
      ∀ i e, processes.events[i]? = some e →
        HappensBefore LamportEvent.process LamportEvent.cause processes.events i j → lamportCompare e.time f.time = -1 := by
  have timed := timed_of_reaches reached few
  have time : ∀ {i e}, processes.events[i]? = some e → timeAt processes.events i = e.time.toNat := by
    intro i e present
    rw [timeAt, present]
    rfl
  have rises : ∀ {i j}, HappensBefore LamportEvent.process LamportEvent.cause processes.events i j →
      timeAt processes.events i < timeAt processes.events j := by
    intro i j before
    induction before with
    | single direct => exact timed.rises _ _ direct
    | tail _ direct ih => exact Nat.lt_trans ih (timed.rises _ _ direct)
  constructor
  · rw [← time found]
    refine isGreatest_level (fun i => i < processes.events.length) ?_ ?_ (List.getElem?_eq_some_iff.mp found).1
    · intro i j before
      have there : j < processes.events.length := by
        apply Nat.lt_of_not_le
        intro beyond
        have less := rises before
        rw [timeAt_beyond beyond] at less
        exact absurd less (Nat.not_lt_zero _)
      exact ⟨Nat.lt_trans (before.lt timed.sound) there, rises before⟩
    · intro j inside
      refine (timed.tight j inside).imp_right ?_
      rintro ⟨i, direct, same⟩
      exact ⟨i, .single direct, Nat.lt_trans (direct.lt timed.sound) inside, same⟩
  · intro i e present before
    apply lamportCompare_lt
    have less := rises before
    rw [time present, time found] at less
    exact less

end Clocks

/-- A process sends, and another one receives after an event of its own. -/
def lamportExchange : LamportProcesses Bool :=
  [LamportCall.send false, .internal true, .receive true 0].foldl lamportStep lamportInit

theorem lamportExchange_depth :
    IsGreatest {n | Chain (HappensBefore LamportEvent.process LamportEvent.cause lamportExchange.events) n 2} 2 ∧
      ∀ i e, lamportExchange.events[i]? = some e →
        HappensBefore LamportEvent.process LamportEvent.cause lamportExchange.events i 2 → lamportCompare e.time 2 = -1 := by
  have reached : Reaches lamportStep Always lamportInit lamportExchange := .ofFold _
  have last : lamportExchange.events[2]? = some ⟨true, .receive 0, 2⟩ := rfl
  exact lamport_depth reached (by decide) last

end MiniNetDist.SystemTheory.TimeOrdering
