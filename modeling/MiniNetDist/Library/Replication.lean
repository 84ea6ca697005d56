import Mathlib.Logic.Function.Basic
import MiniNetDist.Library.Quorum
import MiniNetDist.Library.RootedLog

/-! Leader-based log replication in its own terms: members vote once a term,
a majority elects the leader of a term, leaders append, members adopt prefixes of
leaders' logs, and a prefix that a majority acknowledged in one term is final.
The leader of each term, its log and the acknowledged prefixes are history. -/

namespace MiniNetDist.Library

universe u v
variable {Member : Type u} {Command : Type v}

structure Replicas (Member : Type u) (Command : Type v) where
  term : Member → Nat
  log : Member → Log Command
  commit : Member → Nat
  ledger : Ledger Member
  leader : Nat → Option Member
  leaderLog : LeaderLogs Command
  acked : Member → Nat → Nat

namespace Replicas

def initial : Replicas Member Command where
  term := fun _ => 0
  log := fun _ => []
  commit := fun _ => 0
  ledger := fun _ _ => none
  leader := fun _ => none
  leaderLog := fun _ => []
  acked := fun _ _ => 0

/-- Adopting a leader's prefix keeps a log that already holds it and replaces
any other by the prefix itself. -/
def Adopts (old adopted result : Log Command) : Prop :=
  (adopted <+: old ∧ result = old) ∨ (¬ adopted <+: old ∧ result = adopted)

variable [Fintype Member]

/-- Position `index` of the leader's log in `term` holds the leader's own entry. -/
def Own (replicas : Replicas Member Command) (term index : Nat) : Prop :=
  ∃ entry, (replicas.leaderLog term)[index]? = some entry ∧ entry.term = term

/-- A majority acknowledged the prefix through `index` in `term`. -/
def Chosen (replicas : Replicas Member Command) (term index : Nat) : Prop :=
  replicas.Own term index ∧
    ∃ quorum : Finset Member, Majority quorum ∧ ∀ member ∈ quorum, index < replicas.acked member term

/-- The prefix may still become chosen: some majority has no member that left
the term without acknowledging it. -/
def Choosable (replicas : Replicas Member Command) (term index : Nat) : Prop :=
  replicas.Own term index ∧
    ∃ quorum : Finset Member, Majority quorum ∧
      ∀ member ∈ quorum, term < replicas.term member → index < replicas.acked member term

/-- What the leader of `term` has written up to and including `index`. -/
def upTo (replicas : Replicas Member Command) (term index : Nat) : Log Command :=
  (replicas.leaderLog term).take (index + 1)

variable [DecidableEq Member]

def advance (replicas : Replicas Member Command) (member : Member) (term : Nat) :
    Replicas Member Command :=
  { replicas with term := Function.update replicas.term member term }

def vote (replicas : Replicas Member Command) (voter candidate : Member) : Replicas Member Command :=
  { replicas with ledger := replicas.ledger.cast voter (replicas.term voter) candidate }

def elect (replicas : Replicas Member Command) (winner : Member) : Replicas Member Command :=
  let term := replicas.term winner
  { replicas with
    leader := Function.update replicas.leader term (some winner)
    leaderLog := Function.update replicas.leaderLog term (replicas.log winner)
    acked := Function.update replicas.acked winner
      (Function.update (replicas.acked winner) term (replicas.log winner).length) }

def append (replicas : Replicas Member Command) (leader : Member) (command : Command) :
    Replicas Member Command :=
  let term := replicas.term leader
  let log := replicas.log leader ++ [⟨term, command⟩]
  { replicas with
    log := Function.update replicas.log leader log
    leaderLog := Function.update replicas.leaderLog term log
    acked := Function.update replicas.acked leader
      (Function.update (replicas.acked leader) term log.length) }

def adopt (replicas : Replicas Member Command) (member : Member) (count : Nat)
    (log : Log Command) : Replicas Member Command :=
  let term := replicas.term member
  { replicas with
    log := Function.update replicas.log member log
    acked := Function.update replicas.acked member
      (Function.update (replicas.acked member) term (max (replicas.acked member term) count)) }

def settle (replicas : Replicas Member Command) (member : Member) (count : Nat) :
    Replicas Member Command :=
  { replicas with commit := Function.update replicas.commit member count }

section Fields

omit [Fintype Member]

variable {replicas : Replicas Member Command} {member winner leading : Member} {command : Command}
  {count at_ : Nat} {log : Log Command}

theorem le_term_advance (higher : replicas.term member < at_) (other : Member) :
    replicas.term other ≤ (replicas.advance member at_).term other := by
  by_cases same : other = member
  · subst same; simpa [Replicas.advance] using higher.le
  · simp [Replicas.advance, same]

theorem vote_cases {voter candidate chosen : Member}
    (cast : (replicas.vote voter candidate).ledger member at_ = some chosen) :
    (member = voter ∧ at_ = replicas.term voter ∧ chosen = candidate) ∨
      replicas.ledger member at_ = some chosen := by
  by_cases own : member = voter ∧ at_ = replicas.term voter
  · obtain ⟨rfl, rfl⟩ := own
    simp only [Replicas.vote, Ledger.cast_self, Option.some.injEq] at cast
    exact .inl ⟨rfl, rfl, cast.symm⟩
  · simp only [Replicas.vote, Ledger.cast_other own] at cast
    exact .inr cast

theorem elect_leaderLog_self :
    (replicas.elect winner).leaderLog (replicas.term winner) = replicas.log winner := by
  simp [Replicas.elect]

theorem elect_leaderLog_of_ne (different : at_ ≠ replicas.term winner) :
    (replicas.elect winner).leaderLog at_ = replicas.leaderLog at_ := by
  simp [Replicas.elect, different]

theorem elect_upTo_of_ne (different : at_ ≠ replicas.term winner) (index : Nat) :
    (replicas.elect winner).upTo at_ index = replicas.upTo at_ index := by
  rw [Replicas.upTo, elect_leaderLog_of_ne different, Replicas.upTo]

theorem elect_acked_of_ne (different : at_ ≠ replicas.term winner) :
    (replicas.elect winner).acked member at_ = replicas.acked member at_ := by
  by_cases same : member = winner
  · subst same; simp [Replicas.elect, different]
  · simp [Replicas.elect, same]

theorem elect_leader_cases (leads : (replicas.elect winner).leader at_ = some leading) :
    (at_ = replicas.term winner ∧ leading = winner) ∨ replicas.leader at_ = some leading := by
  by_cases same : at_ = replicas.term winner
  · subst same
    simp only [Replicas.elect, Function.update_self, Option.some.injEq] at leads
    exact .inl ⟨rfl, leads.symm⟩
  · simp only [Replicas.elect, Function.update_of_ne same] at leads
    exact .inr leads

theorem append_leaderLog_of_ne (different : at_ ≠ replicas.term leading) :
    (replicas.append leading command).leaderLog at_ = replicas.leaderLog at_ := by
  simp [Replicas.append, different]

theorem append_log_self : (replicas.append leading command).log leading =
    (replicas.append leading command).leaderLog (replicas.term leading) := by
  simp [Replicas.append]

theorem append_acked_of_ne (different : ¬ (member = leading ∧ at_ = replicas.term leading)) :
    (replicas.append leading command).acked member at_ = replicas.acked member at_ := by
  by_cases same : member = leading
  · subst same
    have other : at_ ≠ replicas.term member := fun equal => different ⟨rfl, equal⟩
    simp [Replicas.append, other]
  · simp [Replicas.append, same]

theorem adopt_log_self : (replicas.adopt member count log).log member = log := by simp [Replicas.adopt]

theorem adopt_log_of_ne {someone : Member} (different : someone ≠ member) :
    (replicas.adopt member count log).log someone = replicas.log someone := by
  simp [Replicas.adopt, different]

theorem adopt_acked_self : (replicas.adopt member count log).acked member (replicas.term member) =
    max (replicas.acked member (replicas.term member)) count := by
  simp [Replicas.adopt]

theorem adopt_acked_of_ne {someone : Member} (different : ¬ (someone = member ∧ at_ = replicas.term member)) :
    (replicas.adopt member count log).acked someone at_ = replicas.acked someone at_ := by
  by_cases same : someone = member
  · subst same
    have elsewhere : at_ ≠ replicas.term someone := fun equal => different ⟨rfl, equal⟩
    simp [Replicas.adopt, elsewhere]
  · simp [Replicas.adopt, same]

end Fields

/-- The moves of the protocol. -/
inductive Step : Replicas Member Command → Replicas Member Command → Prop where
  | advance (member : Member) (term : Nat) (higher : replicas.term member < term) :
      Step replicas (replicas.advance member term)
  | vote (voter candidate : Member) (same : replicas.term candidate = replicas.term voter)
      (fresh : replicas.ledger voter (replicas.term voter) = none)
      (newer : UpToDate (replicas.log candidate) (replicas.log voter)) :
      Step replicas (replicas.vote voter candidate)
  | elect (winner : Member) (vacant : replicas.leader (replicas.term winner) = none)
      (won : Majority (replicas.ledger.supporters (replicas.term winner) winner)) :
      Step replicas (replicas.elect winner)
  | append (leader : Member) (command : Command)
      (leads : replicas.leader (replicas.term leader) = some leader) :
      Step replicas (replicas.append leader command)
  | adopt (member leader : Member) (count : Nat) (log : Log Command)
      (leads : replicas.leader (replicas.term member) = some leader) (other : leader ≠ member)
      (inside : count ≤ (replicas.leaderLog (replicas.term member)).length)
      (adopted : Adopts (replicas.log member)
        ((replicas.leaderLog (replicas.term member)).take count) log) :
      Step replicas (replicas.adopt member count log)
  | commit (leader : Member) (index : Nat)
      (leads : replicas.leader (replicas.term leader) = some leader)
      (chosen : replicas.Chosen (replicas.term leader) index) :
      Step replicas (replicas.settle leader (index + 1))
  | follow (member leader : Member) (count : Nat) (same : replicas.term leader = replicas.term member)
      (inside : count ≤ (replicas.log member).length) (covered : count ≤ replicas.commit leader)
      (agree : (replicas.log member).take count <+: replicas.log leader) :
      Step replicas (replicas.settle member count)

end Replicas

end MiniNetDist.Library
