import MiniNetDist.Library.Run
import Mathlib.Logic.Relation

/-! Two-phase locking. Transactions acquire and release locks on items in one schedule. Where the lock manager
grants no lock that clashes with one that is held, and no transaction acquires after it has released, all
conflicts follow the order in which the transactions acquired their last locks. -/

namespace MiniNetDist.Library.TwoPhase

inductive Action (Txn Item Mode : Type*)
  | acquire (txn : Txn) (item : Item) (mode : Mode)
  | release (txn : Txn) (item : Item)

structure Lock (Txn Item Mode : Type*) where
  txn : Txn
  item : Item
  mode : Mode

variable {Txn Item Mode : Type*}

/-- The locks that are held after an action. -/
def perform [DecidableEq Txn] [DecidableEq Item] (held : List (Lock Txn Item Mode)) : Action Txn Item Mode → List (Lock Txn Item Mode)
  | .acquire txn item mode => ⟨txn, item, mode⟩ :: held
  | .release txn item => held.filter fun lock => ¬ (lock.txn = txn ∧ lock.item = item)

variable (clash : Mode → Mode → Prop)

/-- No other transaction holds a lock that clashes with the one asked for. -/
def Grantable (held : List (Lock Txn Item Mode)) : Action Txn Item Mode → Prop
  | .acquire txn item mode => ∀ lock ∈ held, lock.item = item → lock.txn ≠ txn → ¬ clash lock.mode mode
  | .release _ _ => True

instance [DecidableEq Txn] [DecidableEq Item] [∀ one two, Decidable (clash one two)] (held : List (Lock Txn Item Mode)) :
    (action : Action Txn Item Mode) → Decidable (Grantable clash held action)
  | .acquire txn item mode =>
    inferInstanceAs (Decidable (∀ lock ∈ held, lock.item = item → lock.txn ≠ txn → ¬ clash lock.mode mode))
  | .release _ _ => .isTrue trivial

def Legal [DecidableEq Txn] [DecidableEq Item] (schedule : List (Action Txn Item Mode)) : Prop :=
  Permitted perform (Grantable clash) [] schedule

instance [DecidableEq Txn] [DecidableEq Item] [∀ one two, Decidable (clash one two)] (schedule : List (Action Txn Item Mode)) :
    Decidable (Legal clash schedule) :=
  inferInstanceAs (Decidable (Permitted perform (Grantable clash) [] schedule))

/-- The transaction of the first action releases and acquires with the second one. -/
def Reacquires : Action Txn Item Mode → Action Txn Item Mode → Prop
  | .release txn _, .acquire again _ _ => txn = again
  | _, _ => False

def Phased (schedule : List (Action Txn Item Mode)) : Prop :=
  schedule.Pairwise fun earlier later => ¬ Reacquires earlier later

/-- A lock of the first transaction comes before a clashing lock of the second one. -/
def Precedes (schedule : List (Action Txn Item Mode)) (first second : Txn) : Prop :=
  first ≠ second ∧ ∃ before between after item one two, clash one two ∧
    schedule = before ++ .acquire first item one :: (between ++ .acquire second item two :: after)

def Action.Acquires [DecidableEq Txn] (txn : Txn) : Action Txn Item Mode → Bool
  | .acquire who _ _ => who = txn
  | .release _ _ => false

/-- The number of actions up to the last lock that the transaction acquires. -/
def lockPoint [DecidableEq Txn] (txn : Txn) : List (Action Txn Item Mode) → Nat
  | [] => 0
  | action :: rest =>
    if lockPoint txn rest = 0 then (if action.Acquires txn then 1 else 0) else lockPoint txn rest + 1

variable {clash} {schedule before after between : List (Action Txn Item Mode)} {txn first second : Txn} {item : Item}
  {mode one two : Mode} {held : List (Lock Txn Item Mode)} {action : Action Txn Item Mode} [DecidableEq Txn]

/-- A transaction has not reached its lock point before it acquires a lock. -/
theorem lt_lockPoint_acquire : before.length < lockPoint txn (before ++ .acquire txn item mode :: after) := by
  induction before with
  | nil =>
    rw [List.nil_append, lockPoint]
    split
    · rw [Action.Acquires, if_pos (decide_eq_true rfl)]
      exact Nat.one_pos
    · exact Nat.succ_pos _
  | cons head rest ih =>
    rw [List.cons_append, lockPoint, if_neg (Nat.pos_iff_ne_zero.mp (Nat.zero_lt_of_lt ih)), List.length_cons]
    exact Nat.succ_lt_succ ih

theorem lockPoint_eq_zero (none : ∀ action ∈ schedule, ¬ action.Acquires txn) : lockPoint txn schedule = 0 := by
  induction schedule with
  | nil => rfl
  | cons action rest ih =>
    obtain ⟨here, later⟩ := List.forall_mem_cons.mp none
    rw [lockPoint, if_pos (ih later), if_neg here]

/-- A transaction that locks in two phases has passed its lock point when it releases a lock. -/
theorem lockPoint_le_release (phased : Phased (before ++ .release txn item :: after)) :
    lockPoint txn (before ++ .release txn item :: after) ≤ before.length := by
  induction before with
  | nil =>
    have none : lockPoint txn after = 0 := by
      apply lockPoint_eq_zero
      intro action present
      have allowed := List.rel_of_pairwise_cons phased present
      cases action with
      | acquire who _ _ =>
        intro same
        exact allowed (of_decide_eq_true same).symm
      | release _ _ => exact nofun
    rw [List.nil_append, lockPoint, if_pos none]
    exact Nat.le_refl 0
  | cons head rest ih =>
    have shorter := ih (List.Pairwise.of_cons phased)
    rw [List.cons_append, lockPoint, List.length_cons]
    split
    · split
      · exact Nat.succ_pos _
      · exact Nat.zero_le _
    · exact Nat.succ_le_succ shorter

variable [DecidableEq Item]

theorem Legal.grantable (legal : Legal clash (before ++ action :: after)) :
    Grantable clash (before.foldl perform []) action := by
  unfold Legal at legal
  generalize ([] : List (Lock Txn Item Mode)) = held at legal ⊢
  induction before generalizing held with
  | nil => exact legal.1
  | cons head rest ih => exact ih _ legal.2

/-- A lock is held until it is released. -/
theorem mem_foldl_perform {lock : Lock Txn Item Mode} (present : lock ∈ held)
    (kept : .release lock.txn lock.item ∉ between) : lock ∈ between.foldl perform held := by
  induction between generalizing held with
  | nil => exact present
  | cons action rest ih =>
    obtain ⟨other, later⟩ := not_or.mp (List.mem_cons.not.mp kept)
    apply ih _ later
    cases action with
    | acquire _ _ _ => exact List.mem_cons_of_mem _ present
    | release who what =>
      apply List.mem_filter.mpr
      refine ⟨present, decide_eq_true ?_⟩
      rintro ⟨rfl, rfl⟩
      exact other rfl

/-- Between two clashing locks the first transaction has released its lock. -/
theorem Legal.released (legal : Legal clash (before ++ .acquire first item one :: (between ++ .acquire second item two ::
    after))) (clashing : clash one two) (different : first ≠ second) : .release first item ∈ between := by
  apply Classical.byContradiction
  intro kept
  rw [← List.cons_append, ← List.append_assoc] at legal
  have granted := legal.grantable
  rw [List.foldl_append, List.foldl_cons] at granted
  have present : (⟨first, item, one⟩ : Lock Txn Item Mode) ∈
      between.foldl perform (⟨first, item, one⟩ :: before.foldl perform []) :=
    mem_foldl_perform List.mem_cons_self kept
  exact granted _ present rfl different clashing

/-- Conflicts follow the order of the lock points. -/
theorem Precedes.lockPoint_lt (legal : Legal clash schedule) (phased : Phased schedule)
    (precedes : Precedes clash schedule first second) : lockPoint first schedule < lockPoint second schedule := by
  obtain ⟨different, before, between, after, item, one, two, clashing, rfl⟩ := precedes
  obtain ⟨soon, late, rfl⟩ := List.append_of_mem (legal.released clashing different)
  have passed : lockPoint first ((before ++ .acquire first item one :: soon) ++ .release first item ::
      (late ++ .acquire second item two :: after)) ≤ (before ++ .acquire first item one :: soon).length := by
    apply lockPoint_le_release
    simpa using phased
  have ahead : ((before ++ .acquire first item one :: soon) ++ .release first item :: late).length <
      lockPoint second (((before ++ .acquire first item one :: soon) ++ .release first item :: late) ++
        .acquire second item two :: after) := lt_lockPoint_acquire
  simp only [List.append_assoc, List.cons_append, List.length_append, List.length_cons] at passed ahead ⊢
  omega

/-- Transactions that lock in two phases can be serialized: no chain of conflicts comes back. -/
theorem Phased.acyclic (phased : Phased schedule) (legal : Legal clash schedule) (txn : Txn) :
    ¬ Relation.TransGen (Precedes clash schedule) txn txn := by
  have follows : ∀ {first second}, Relation.TransGen (Precedes clash schedule) first second →
      lockPoint first schedule < lockPoint second schedule := by
    intro first second chain
    induction chain with
    | single precedes => exact precedes.lockPoint_lt legal phased
    | tail _ precedes ih => exact Nat.lt_trans ih (precedes.lockPoint_lt legal phased)
  intro cycle
  exact Nat.lt_irrefl _ (follows cycle)

end MiniNetDist.Library.TwoPhase
