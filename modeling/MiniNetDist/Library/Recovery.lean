import Mathlib.Data.List.Basic
import Mathlib.Data.List.Induction
import MiniNetDist.Library.Run

/-! Crash recovery from a log of changes: all changes are redone in order, and those of the losing
transactions are undone backwards. A history is well formed when transactions that overlap touch
different keys and every change carries the value it replaces. -/

namespace MiniNetDist.Library.Recovery

variable {Txn Key Value : Type*} [DecidableEq Txn] [DecidableEq Key]

/-- A change of one key by one transaction; `none` is an absent key. -/
structure Change (Txn Key Value : Type*) where
  txn : Txn
  key : Key
  before : Option Value
  after : Option Value
  deriving DecidableEq, Repr

inductive Event (Txn Key Value : Type*) where
  | begin (txn : Txn)
  | change (change : Change Txn Key Value)
  | commit (txn : Txn)
  | abort (txn : Txn)
  deriving DecidableEq, Repr

section Passes

variable {changes : List (Change Txn Key Value)} {losers : Txn → Bool} {key : Key}

def assign (value : Change Txn Key Value → Option Value) (store : Key → Option Value)
    (change : Change Txn Key Value) : Key → Option Value :=
  Function.update store change.key (value change)

def redo (changes : List (Change Txn Key Value)) (store : Key → Option Value) : Key → Option Value :=
  changes.foldl (assign Change.after) store

def undo (losers : Txn → Bool) (changes : List (Change Txn Key Value)) (store : Key → Option Value) :
    Key → Option Value :=
  (changes.filter fun change => losers change.txn).reverse.foldl (assign Change.before) store

/-- The last change of the key. -/
def lastChange (changes : List (Change Txn Key Value)) (key : Key) : Option (Change Txn Key Value) :=
  (changes.filter fun change => change.key = key).getLast?

/-- The first change of the key by a losing transaction. -/
def firstLost (losers : Txn → Bool) (changes : List (Change Txn Key Value)) (key : Key) :
    Option (Change Txn Key Value) :=
  ((changes.filter fun change => losers change.txn).filter fun change => change.key = key).head?

/-- The value that the two passes leave: what the first losing change replaced, or else what the
last change wrote. -/
def decided (losers : Txn → Bool) (changes : List (Change Txn Key Value)) (key : Key) : Option Value :=
  (firstLost losers changes key).elim ((lastChange changes key).bind Change.after) Change.before

omit [DecidableEq Txn] in
theorem assign_all (value : Change Txn Key Value → Option Value) (changes : List (Change Txn Key Value))
    (store : Key → Option Value) (key : Key) :
    changes.foldl (assign value) store key =
      (changes.filter fun change => change.key = key).getLast?.elim (store key) value := by
  induction changes using List.reverseRecOn with
  | nil => rfl
  | append_singleton earlier change ih =>
    rw [List.foldl_append, List.foldl_cons, List.foldl_nil, List.filter_append, assign]
    by_cases same : change.key = key
    · subst same
      simp
    · rw [Function.update_of_ne (Ne.symm same), ih]
      simp [same]

omit [DecidableEq Txn] in
theorem redo_apply (changes : List (Change Txn Key Value)) (key : Key) :
    redo changes (fun _ => none) key = (lastChange changes key).bind Change.after := by
  rw [redo, assign_all, lastChange]
  cases (changes.filter fun change => change.key = key).getLast? <;> rfl

omit [DecidableEq Txn] in
theorem recovered_eq (losers : Txn → Bool) (changes : List (Change Txn Key Value)) (key : Key) :
    undo losers changes (redo changes fun _ => none) key = decided losers changes key := by
  rw [undo, assign_all, List.filter_reverse, List.getLast?_reverse, redo_apply]
  rfl

/-- The decisive changes carry the values of the target. -/
structure Carries (losers : Txn → Bool) (changes : List (Change Txn Key Value)) (target : Key → Option Value) :
    Prop where
  lost : ∀ key first, firstLost losers changes key = some first → first.before = target key
  kept : ∀ key last, firstLost losers changes key = none → lastChange changes key = some last → last.after = target key
  untouched : ∀ key, lastChange changes key = none → target key = none

omit [DecidableEq Txn] in
theorem decided_iff {target : Key → Option Value} :
    (∀ key, decided losers changes key = target key) ↔ Carries losers changes target := by
  constructor
  · intro same
    refine ⟨?_, ?_, ?_⟩
    · intro key first found
      rw [← same key, decided, found]
      rfl
    · intro key last none found
      rw [← same key, decided, none, found]
      rfl
    · intro key none
      have empty : (changes.filter fun change => change.key = key) = [] := List.getLast?_eq_none_iff.mp none
      rw [← same key, decided, none, firstLost, List.filter_comm, empty]
      rfl
  · intro carries key
    rw [decided]
    cases lost : firstLost losers changes key with
    | some first => exact carries.lost key first lost
    | none =>
      cases found : lastChange changes key with
      | some last => exact carries.kept key last lost found
      | none => exact (carries.untouched key found).symm

end Passes

section History

variable {history : List (Event Txn Key Value)} {event : Event Txn Key Value} {key : Key} {txn : Txn}

def changes (history : List (Event Txn Key Value)) : List (Change Txn Key Value) :=
  history.filterMap fun | .change change => some change | _ => none

def begun (history : List (Event Txn Key Value)) : List Txn :=
  history.filterMap fun | .begin txn => some txn | _ => none

def committers (history : List (Event Txn Key Value)) : List Txn :=
  history.filterMap fun | .commit txn => some txn | _ => none

def aborters (history : List (Event Txn Key Value)) : List Txn :=
  history.filterMap fun | .abort txn => some txn | _ => none

def ended (history : List (Event Txn Key Value)) : List Txn := committers history ++ aborters history

/-- The store while the history runs: aborted transactions have been rolled back. -/
def current (history : List (Event Txn Key Value)) : Key → Option Value :=
  redo ((changes history).filter fun change => change.txn ∉ aborters history) fun _ => none

/-- The store that a recovery should restore. -/
def committed (history : List (Event Txn Key Value)) : Key → Option Value :=
  redo ((changes history).filter fun change => change.txn ∈ committers history) fun _ => none

/-- The events that may follow a history. -/
def Admissible (history : List (Event Txn Key Value)) : Event Txn Key Value → Prop
  | .begin txn => txn ∉ begun history
  | .change change =>
    change.txn ∈ begun history ∧ change.txn ∉ ended history ∧
    (∀ other ∈ changes history, other.key = change.key → other.txn ≠ change.txn → other.txn ∈ ended history) ∧
    change.before = current history change.key
  | .commit txn => txn ∈ begun history ∧ txn ∉ ended history
  | .abort txn => txn ∈ begun history ∧ txn ∉ ended history

instance [DecidableEq Value] (history : List (Event Txn Key Value)) (event : Event Txn Key Value) :
    Decidable (Admissible history event) :=
  match event with
  | .begin _ => inferInstanceAs (Decidable (_ ∉ _))
  | .change _ => inferInstanceAs (Decidable (_ ∧ _ ∧ _ ∧ _))
  | .commit _ => inferInstanceAs (Decidable (_ ∧ _))
  | .abort _ => inferInstanceAs (Decidable (_ ∧ _))

def extend (history : List (Event Txn Key Value)) (event : Event Txn Key Value) : List (Event Txn Key Value) :=
  history ++ [event]

def WellFormed (history : List (Event Txn Key Value)) : Prop := Permitted extend Admissible [] history

instance [DecidableEq Value] (history : List (Event Txn Key Value)) : Decidable (WellFormed history) :=
  Permitted.decidable [] history

omit [DecidableEq Txn] [DecidableEq Key] in
theorem extend_all (start rest : List (Event Txn Key Value)) : rest.foldl extend start = start ++ rest := by
  induction rest generalizing start with
  | nil => simp
  | cons event rest ih => rw [List.foldl_cons, ih, extend, List.append_assoc, List.singleton_append]

theorem WellFormed.reaches (formed : WellFormed history) : Reaches extend Admissible [] history := by
  have reached := Reaches.ofCalls history formed
  rwa [extend_all, List.nil_append] at reached

omit [DecidableEq Txn] in
theorem redo_filter_congr {all : List (Change Txn Key Value)} {first second : Change Txn Key Value → Bool}
    (same : ∀ change ∈ all, change.key = key → first change = second change) :
    redo (all.filter first) (fun _ => none) key = redo (all.filter second) (fun _ => none) key := by
  rw [redo_apply, redo_apply, lastChange, lastChange, List.filter_filter, List.filter_filter]
  congr 2
  apply List.filter_congr
  intro change owned
  by_cases here : change.key = key
  · simp [here, same change owned here]
  · simp [here]

/-- What well-formed histories satisfy. -/
structure Orderly (history : List (Event Txn Key Value)) : Prop where
  exclusive : ∀ txn ∈ committers history, txn ∉ aborters history
  latest : ∀ key last, lastChange (changes history) key = some last → ∀ change ∈ changes history,
    change.key = key → change.txn ≠ last.txn → change.txn ∈ ended history
  replaced : ∀ txn ∉ ended history, ∀ key change,
    firstLost (fun other => other = txn) (changes history) key = some change → change.before = committed history key

omit [DecidableEq Txn] in
theorem lastChange_mem {all : List (Change Txn Key Value)} {last : Change Txn Key Value}
    (found : lastChange all key = some last) : last ∈ all ∧ last.key = key := by
  have inside := List.mem_of_getLast? found
  rw [List.mem_filter, decide_eq_true_iff] at inside
  exact inside

omit [DecidableEq Txn] in
theorem firstLost_mem {losers : Txn → Bool} {all : List (Change Txn Key Value)} {first : Change Txn Key Value}
    (found : firstLost losers all key = some first) : first ∈ all ∧ losers first.txn = true ∧ first.key = key := by
  have inside := List.mem_of_head? found
  rw [List.mem_filter, List.mem_filter, decide_eq_true_iff, and_assoc] at inside
  exact inside

omit [DecidableEq Txn] in
theorem firstLost_none {losers : Txn → Bool} {all : List (Change Txn Key Value)} {change : Change Txn Key Value}
    (none : firstLost losers all key = none) (owned : change ∈ all) (lost : losers change.txn = true) :
    change.key ≠ key := by
  intro here
  rw [firstLost, List.head?_eq_none_iff] at none
  have member : change ∈ ((all.filter fun change => losers change.txn).filter fun change => change.key = key) := by
    simp [owned, lost, here]
  rw [none] at member
  cases member

omit [DecidableEq Txn] in
theorem firstLost_cons (losers : Txn → Bool) (change : Change Txn Key Value) (rest : List (Change Txn Key Value))
    (key : Key) : firstLost losers (change :: rest) key =
      if losers change.txn ∧ change.key = key then some change else firstLost losers rest key := by
  unfold firstLost
  by_cases lost : losers change.txn = true
  · by_cases here : change.key = key <;> simp [lost, here]
  · simp [lost]

/-- The first change by any loser is the first one by its own transaction. -/
theorem firstLost_own {losers : Txn → Bool} {all : List (Change Txn Key Value)} {first : Change Txn Key Value}
    (found : firstLost losers all key = some first) :
    firstLost (fun other => other = first.txn) all key = some first := by
  have lost := (firstLost_mem found).2.1
  induction all with
  | nil => cases found
  | cons change rest ih =>
    rw [firstLost_cons] at found ⊢
    by_cases matching : losers change.txn = true ∧ change.key = key
    · rw [if_pos matching] at found
      cases found
      rw [if_pos ⟨decide_eq_true rfl, matching.2⟩]
    · rw [if_neg matching] at found
      have other : ¬ (decide (change.txn = first.txn) = true ∧ change.key = key) := by
        rintro ⟨same, here⟩
        rw [decide_eq_true_iff] at same
        exact matching ⟨same ▸ lost, here⟩
      rw [if_neg other, ih found]

theorem Orderly.init : Orderly ([] : List (Event Txn Key Value)) := by
  refine ⟨?_, ?_, ?_⟩
  · intro txn none
    cases none
  · intro key last none
    cases none
  · intro txn _ key change none
    cases none

/-- Two transactions that have not ended do not share a key. -/
theorem Orderly.disjoint (orderly : Orderly history) {first second : Change Txn Key Value}
    (one : first ∈ changes history) (two : second ∈ changes history) (same : first.key = second.key)
    (running : first.txn ∉ ended history) (running' : second.txn ∉ ended history) : first.txn = second.txn := by
  cases found : lastChange (changes history) second.key with
  | none =>
    have member : second ∈ (changes history).filter fun change => change.key = second.key :=
      List.mem_filter.mpr ⟨two, decide_eq_true rfl⟩
    rw [lastChange, List.getLast?_eq_none_iff] at found
    rw [found] at member
    cases member
  | some last =>
    have only : ∀ change ∈ changes history, change.key = second.key → change.txn ∉ ended history →
        change.txn = last.txn := by
      intro change owned here unended
      by_contra different
      exact unended (orderly.latest second.key last found change owned here different)
    rw [only first one same running, only second two rfl running']

/-- An event that changes no key keeps a history orderly if it commits nothing that a running
transaction has touched. -/
theorem Orderly.keeps {next : List (Event Txn Key Value)} (orderly : Orderly history)
    (sameChanges : changes next = changes history) (grows : ∀ txn ∈ ended history, txn ∈ ended next)
    (exclusive : ∀ txn ∈ committers next, txn ∉ aborters next)
    (untouched : ∀ change ∈ changes history, change.txn ∉ ended next →
      committed next change.key = committed history change.key) : Orderly next := by
  refine ⟨exclusive, ?_, ?_⟩
  · intro key last found change owned here different
    rw [sameChanges] at found owned
    exact grows _ (orderly.latest key last found change owned here different)
  · intro txn running key change found
    rw [sameChanges] at found
    obtain ⟨owned, mine, here⟩ := firstLost_mem found
    rw [decide_eq_true_iff] at mine
    have still : change.txn ∉ ended next := mine ▸ running
    rw [← here, untouched change owned still, here]
    exact orderly.replaced txn (fun past => running (grows txn past)) key change found

theorem Orderly.begins (orderly : Orderly history) (txn : Txn) : Orderly (history ++ [Event.begin txn]) := by
  have sameChanges : changes (history ++ [Event.begin txn]) = changes history := by simp [changes]
  have sameCommitters : committers (history ++ [Event.begin txn]) = committers history := by simp [committers]
  have sameAborters : aborters (history ++ [Event.begin txn]) = aborters history := by simp [aborters]
  apply orderly.keeps sameChanges
  · intro other past
    rwa [ended, sameCommitters, sameAborters]
  · rw [sameCommitters, sameAborters]
    exact orderly.exclusive
  · intro change _ _
    rw [committed, sameChanges, sameCommitters, committed]

theorem Orderly.aborts (orderly : Orderly history) (running : txn ∉ ended history) :
    Orderly (history ++ [Event.abort txn]) := by
  have sameChanges : changes (history ++ [Event.abort txn]) = changes history := by simp [changes]
  have sameCommitters : committers (history ++ [Event.abort txn]) = committers history := by simp [committers]
  have moreAborters : aborters (history ++ [Event.abort txn]) = aborters history ++ [txn] := by simp [aborters]
  apply orderly.keeps sameChanges
  · intro other past
    rw [ended, sameCommitters, moreAborters, ← List.append_assoc]
    exact List.mem_append_left _ past
  · intro other committed aborted
    rw [sameCommitters] at committed
    rw [moreAborters, List.mem_append, List.mem_singleton] at aborted
    rcases aborted with before | rfl
    · exact orderly.exclusive other committed before
    · exact running (List.mem_append_left _ committed)
  · intro change _ _
    rw [committed, sameChanges, sameCommitters, committed]

theorem Orderly.commits (orderly : Orderly history) (running : txn ∉ ended history) :
    Orderly (history ++ [Event.commit txn]) := by
  have sameChanges : changes (history ++ [Event.commit txn]) = changes history := by simp [changes]
  have moreCommitters : committers (history ++ [Event.commit txn]) = committers history ++ [txn] := by
    simp [committers]
  have sameAborters : aborters (history ++ [Event.commit txn]) = aborters history := by simp [aborters]
  have moreEnded : ∀ other, other ∈ ended (history ++ [Event.commit txn]) ↔ other ∈ ended history ∨ other = txn := by
    intro other
    rw [ended, moreCommitters, sameAborters, ended]
    simp only [List.mem_append, List.mem_singleton]
    tauto
  apply orderly.keeps sameChanges
  · intro other past
    exact (moreEnded other).mpr (.inl past)
  · intro other committed aborted
    rw [moreCommitters, List.mem_append, List.mem_singleton] at committed
    rw [sameAborters] at aborted
    rcases committed with before | rfl
    · exact orderly.exclusive other before aborted
    · exact running (List.mem_append_right _ aborted)
  · intro change owned unended
    rw [moreEnded, not_or] at unended
    rw [committed, sameChanges, moreCommitters, committed]
    apply redo_filter_congr
    intro own mine here
    -- the committing transaction shares no key with one that goes on
    have elsewhere : own.txn ≠ txn := by
      rintro rfl
      exact unended.2 (orderly.disjoint owned mine here.symm unended.1 running)
    simp [elsewhere]

omit [DecidableEq Txn] in
theorem lastChange_append (all : List (Change Txn Key Value)) (change : Change Txn Key Value) (key : Key) :
    lastChange (all ++ [change]) key = if change.key = key then some change else lastChange all key := by
  unfold lastChange
  rw [List.filter_append]
  by_cases here : change.key = key <;> simp [here]

omit [DecidableEq Txn] in
theorem firstLost_append (losers : Txn → Bool) (all : List (Change Txn Key Value)) (change : Change Txn Key Value)
    (key : Key) : firstLost losers (all ++ [change]) key =
      (firstLost losers all key).or (if losers change.txn ∧ change.key = key then some change else none) := by
  unfold firstLost
  rw [List.filter_append, List.filter_append, List.head?_append]
  by_cases lost : losers change.txn = true
  · by_cases here : change.key = key <;> simp [lost, here]
  · simp [lost]

/-- Where everybody who touched the key has ended, the running value is the committed one. -/
theorem Orderly.current_eq (orderly : Orderly history)
    (settled : ∀ change ∈ changes history, change.key = key → change.txn ∈ ended history) :
    current history key = committed history key := by
  apply redo_filter_congr
  intro change owned here
  rcases List.mem_append.mp (settled change owned here) with committed | aborted
  · simp [committed, orderly.exclusive change.txn committed]
  · have lost : change.txn ∉ committers history := fun committed => orderly.exclusive _ committed aborted
    simp [aborted, lost]

/-- A transaction that touches a key first finds the committed value there. -/
theorem Orderly.finds (orderly : Orderly history) {change : Change Txn Key Value}
    (admissible : Admissible history (.change change))
    (untouched : firstLost (fun other => other = change.txn) (changes history) change.key = none) :
    change.before = committed history change.key := by
  obtain ⟨-, -, alone, before⟩ := admissible
  rw [before]
  apply orderly.current_eq
  intro other owned here
  apply alone other owned here
  intro same
  exact firstLost_none untouched owned (decide_eq_true same) here

theorem Orderly.changed (orderly : Orderly history) {change : Change Txn Key Value}
    (admissible : Admissible history (.change change)) : Orderly (history ++ [Event.change change]) := by
  have moreChanges : changes (history ++ [Event.change change]) = changes history ++ [change] := by simp [changes]
  have sameCommitters : committers (history ++ [Event.change change]) = committers history := by simp [committers]
  have sameAborters : aborters (history ++ [Event.change change]) = aborters history := by simp [aborters]
  have sameEnded : ended (history ++ [Event.change change]) = ended history := by
    rw [ended, sameCommitters, sameAborters, ended]
  have uncommitted : change.txn ∉ committers history :=
    fun committed => admissible.2.1 (List.mem_append_left _ committed)
  have sameCommitted : committed (history ++ [Event.change change]) = committed history := by
    rw [committed, moreChanges, sameCommitters, List.filter_append, committed]
    simp [uncommitted]
  refine ⟨?_, ?_, ?_⟩
  · rw [sameCommitters, sameAborters]
    exact orderly.exclusive
  · intro key last found other owned here different
    rw [moreChanges] at found owned
    rw [sameEnded]
    rw [lastChange_append] at found
    by_cases mine : change.key = key
    · rw [if_pos mine] at found
      cases found
      rcases List.mem_append.mp owned with old | new
      · exact admissible.2.2.1 other old (here.trans mine.symm) different
      · exact absurd (congrArg Change.txn (List.mem_singleton.mp new)) different
    · rw [if_neg mine] at found
      rcases List.mem_append.mp owned with old | new
      · exact orderly.latest key last found other old here different
      · rw [List.mem_singleton.mp new] at here
        exact absurd here mine
  · intro txn unended key first found
    rw [sameEnded] at unended
    rw [sameCommitted]
    rw [moreChanges, firstLost_append] at found
    cases earlier : firstLost (fun other => other = txn) (changes history) key with
    | some old =>
      rw [earlier, Option.some_or] at found
      cases found
      exact orderly.replaced txn unended key first earlier
    | none =>
      rw [earlier, Option.none_or] at found
      split_ifs at found with matching
      cases found
      obtain ⟨rfl, rfl⟩ : change.txn = txn ∧ change.key = key := by simpa using matching
      exact orderly.finds admissible earlier

theorem WellFormed.orderly (formed : WellFormed history) : Orderly history := by
  refine formed.reaches.invariant Orderly.init ?_
  intro history event orderly admissible
  cases event with
  | begin txn => exact orderly.begins txn
  | change change => exact orderly.changed admissible
  | commit txn => exact orderly.commits admissible.2
  | abort txn => exact orderly.aborts admissible.2

/-- A key that a running loser has touched is recovered. -/
theorem Orderly.decided_lost (orderly : Orderly history) {losers : Txn → Bool}
    (running : ∀ txn, losers txn = true → txn ∉ ended history) {first : Change Txn Key Value}
    (found : firstLost losers (changes history) key = some first) :
    decided losers (changes history) key = committed history key := by
  obtain ⟨owned, lost, here⟩ := firstLost_mem found
  rw [decided, found]
  exact orderly.replaced first.txn (running _ lost) key first (firstLost_own found)

omit [DecidableEq Txn] in
theorem lastChange_filter {all : List (Change Txn Key Value)} {keep : Change Txn Key Value → Bool}
    {last : Change Txn Key Value} (found : lastChange all key = some last) (kept : keep last = true) :
    lastChange (all.filter keep) key = some last := by
  obtain ⟨earlier, split⟩ := List.getLast?_eq_some_iff.mp found
  rw [lastChange, List.filter_comm, split, List.filter_append]
  simp [kept]

/-- A key whose last change was committed is recovered. -/
theorem committed_last {last : Change Txn Key Value} (found : lastChange (changes history) key = some last)
    (winner : last.txn ∈ committers history) : committed history key = last.after := by
  rw [committed, redo_apply, lastChange_filter found (decide_eq_true winner), Option.bind_some]

theorem committed_untouched (untouched : lastChange (changes history) key = none) : committed history key = none := by
  rw [lastChange, List.getLast?_eq_none_iff] at untouched
  rw [committed, redo_apply, lastChange, List.filter_comm, untouched]
  rfl

/-- A recovery restores the committed store exactly when every last change that was not committed
and is not undone leaves the committed value. -/
theorem Orderly.recovers_iff (orderly : Orderly history) {losers : Txn → Bool}
    (running : ∀ txn, losers txn = true → txn ∉ ended history) :
    (∀ key, decided losers (changes history) key = committed history key) ↔
      ∀ key last, lastChange (changes history) key = some last → last.txn ∉ committers history →
        losers last.txn = false → last.after = committed history key := by
  constructor
  · intro recovers key last found _ kept
    have nothing : firstLost losers (changes history) key = none := by
      cases lost : firstLost losers (changes history) key with
      | none => rfl
      | some first =>
        obtain ⟨owned, loses, here⟩ := firstLost_mem lost
        by_cases same : first.txn = last.txn
        · rw [same, kept] at loses
          cases loses
        · exact absurd (orderly.latest key last found first owned here same) (running _ loses)
    rw [← recovers key, decided, nothing, found]
    rfl
  · intro settled key
    cases lost : firstLost losers (changes history) key with
    | some first => exact orderly.decided_lost running lost
    | none =>
      rw [decided, lost]
      cases found : lastChange (changes history) key with
      | none => exact (committed_untouched found).symm
      | some last =>
        obtain ⟨owned, here⟩ := lastChange_mem found
        by_cases winner : last.txn ∈ committers history
        · exact (committed_last found winner).symm
        · refine settled key last found winner (Bool.eq_false_iff.mpr ?_)
          intro loses
          exact firstLost_none lost owned loses here

end History

end MiniNetDist.Library.Recovery
