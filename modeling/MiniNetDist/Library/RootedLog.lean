import Mathlib.Data.List.Basic

/-! Logs of entries stamped with the term of the leader that wrote them. A log
is rooted when each of its prefixes that ends in an entry of term `t` is a prefix
of the log kept by the leader of `t`; rooted logs match below any index at which
their terms agree. -/

namespace MiniNetDist.Library

universe u
variable {Item : Type u} {Command : Type u}

theorem getElem?_shorter {short long : List Item} {index : Nat} (start : short <+: long)
    (inside : index < short.length) : long[index]? = short[index]? := by
  obtain ⟨rest, rfl⟩ := start
  exact List.getElem?_append_left inside

theorem getElem?_longer {short long : List Item} {item : Item} {index : Nat}
    (start : short <+: long) (found : short[index]? = some item) : long[index]? = some item :=
  (getElem?_shorter start (List.getElem?_eq_some_iff.mp found).1).trans found

theorem take_longer {short long : List Item} {count : Nat} (start : short <+: long)
    (inside : count ≤ short.length) : long.take count = short.take count := by
  obtain ⟨rest, rfl⟩ := start
  exact List.take_append_of_le_length inside

/-- Two prefixes of one list are equal as soon as they have one length. -/
theorem take_eq_of_common {first second whole : List Item} {count : Nat}
    (one : first.take count <+: whole) (two : second.take count <+: whole)
    (enough : count ≤ first.length) (reach : count ≤ second.length) :
    first.take count = second.take count := by
  have lengths : (first.take count).length = (second.take count).length := by
    simp [Nat.min_eq_left enough, Nat.min_eq_left reach]
  exact (List.prefix_of_prefix_length_le one two (Nat.le_of_eq lengths)).eq_of_length lengths

structure Stamped (Command : Type u) where
  term : Nat
  command : Command
  deriving DecidableEq, Repr

abbrev Log (Command : Type u) := List (Stamped Command)

/-- The log of each term's leader; empty for a term without one. -/
abbrev LeaderLogs (Command : Type u) := Nat → Log Command

def Rooted (leaders : LeaderLogs Command) (log : Log Command) : Prop :=
  ∀ index entry, log[index]? = some entry → log.take (index + 1) <+: leaders entry.term

/-- No leader's log holds an entry from a later term. -/
def Bounded (leaders : LeaderLogs Command) : Prop :=
  ∀ term, ∀ entry ∈ leaders term, entry.term ≤ term

variable {leaders later : LeaderLogs Command} {log other : Log Command}
  {entry found : Stamped Command} {index : Nat}

theorem Rooted.nil : Rooted leaders [] := by
  intro index entry present
  simp at present

theorem Rooted.mono (rooted : Rooted leaders log) (grown : ∀ term, leaders term <+: later term) :
    Rooted later log := by
  intro index entry present
  exact (rooted index entry present).trans (grown entry.term)

theorem Rooted.ofPrefix (rooted : Rooted leaders log) (start : other <+: log) :
    Rooted leaders other := by
  intro index entry present
  have inside : index < other.length := (List.getElem?_eq_some_iff.mp present).1
  rw [← take_longer start inside]
  exact rooted index entry (getElem?_longer start present)

/-- Equal terms at one index make everything up to it equal. -/
def Matching (left right : Log Command) : Prop :=
  ∀ index first second, left[index]? = some first → right[index]? = some second → first.term = second.term →
    left.take (index + 1) = right.take (index + 1)

theorem Matching.ofPrefix (start : log <+: other) : Matching log other := by
  intro index first _ present _ _
  exact (take_longer start (List.getElem?_eq_some_iff.mp present).1).symm

/-- Log matching: rooted logs match. -/
theorem Rooted.agree (one : Rooted leaders log) (two : Rooted leaders other)
    (first : log[index]? = some entry) (second : other[index]? = some found)
    (terms : entry.term = found.term) : log.take (index + 1) = other.take (index + 1) := by
  have left := one index entry first
  have right := two index found second
  rw [← terms] at right
  exact take_eq_of_common left right (List.getElem?_eq_some_iff.mp first).1
    (List.getElem?_eq_some_iff.mp second).1

theorem Rooted.matching (one : Rooted leaders log) (two : Rooted leaders other) : Matching log other :=
  fun _ _ _ first second terms => one.agree two first second terms

/-- Terms never decrease along a rooted log. -/
theorem Rooted.term_le {last : Nat} (rooted : Rooted leaders log) (bounded : Bounded leaders)
    (present : log[index]? = some entry) (ending : log[last]? = some found) (order : index ≤ last) :
    entry.term ≤ found.term := by
  have start := rooted last found ending
  have kept : (log.take (last + 1))[index]? = some entry := by
    rw [List.getElem?_take_of_lt (by omega), present]
  exact bounded found.term entry (List.mem_of_getElem? (getElem?_longer start kept))

/-- The term of the last entry, and zero for an empty log. -/
def lastTerm (log : Log Command) : Nat := (log.getLast?.map Stamped.term).getD 0

/-- The comparison a voter makes before it grants its vote. -/
def UpToDate (candidate voter : Log Command) : Prop :=
  lastTerm voter < lastTerm candidate ∨
    lastTerm candidate = lastTerm voter ∧ voter.length ≤ candidate.length

theorem UpToDate.refl (log : Log Command) : UpToDate log log := .inr ⟨rfl, Nat.le_refl _⟩

theorem lastTerm_of_nonempty (log : Log Command) (nonempty : 0 < log.length) :
    ∃ entry, log[log.length - 1]? = some entry ∧ entry.term = lastTerm log := by
  refine ⟨log[log.length - 1], List.getElem?_eq_getElem _, ?_⟩
  rw [lastTerm, List.getLast?_eq_getElem?, List.getElem?_eq_getElem (by omega)]
  rfl

/-- A candidate that is at least as up to date as a voter holds every prefix of
the voter that ends in its leader's own entry, provided all later leaders do. -/
theorem UpToDate.carries {candidate voter : Log Command} {term : Nat}
    (newer : UpToDate candidate voter) (bounded : Bounded leaders)
    (rooted : Rooted leaders candidate) (rootedVoter : Rooted leaders voter)
    (own : (leaders term)[index]? = some entry) (stamp : entry.term = term)
    (held : (leaders term).take (index + 1) <+: voter)
    (complete : ∀ next, term < next → leaders next ≠ [] →
      (leaders term).take (index + 1) <+: leaders next) :
    (leaders term).take (index + 1) <+: candidate := by
  have inside : index < (leaders term).length := (List.getElem?_eq_some_iff.mp own).1
  have length : ((leaders term).take (index + 1)).length = index + 1 := by
    simp [Nat.min_eq_left inside]
  have reach : index + 1 ≤ voter.length := length ▸ held.length_le
  have atIndex : ((leaders term).take (index + 1))[index]? = some entry := by
    rw [List.getElem?_take_of_lt (by omega), own]
  obtain ⟨lastVoter, voterEnd, voterTerm⟩ := lastTerm_of_nonempty voter (by omega)
  have above : term ≤ lastTerm voter := by
    rw [← voterTerm, ← stamp]
    exact rootedVoter.term_le bounded (getElem?_longer held atIndex) voterEnd (by omega)
  have nonempty : 0 < candidate.length := by
    rcases newer with higher | ⟨_, longer⟩
    · by_contra empty
      have : candidate = [] := List.eq_nil_of_length_eq_zero (by omega)
      simp [this, lastTerm] at higher
    · omega
  obtain ⟨last, ending, lastTermEq⟩ := lastTerm_of_nonempty candidate nonempty
  have covered : candidate <+: leaders last.term := by
    have start := rooted _ last ending
    rwa [List.take_of_length_le (by omega)] at start
  rcases Nat.lt_or_ge term last.term with higher | lower
  · -- A later leader wrote the candidate's last entry, past the shared prefix.
    have kept := complete last.term higher (by
      intro empty
      rw [empty, List.prefix_nil] at covered
      simp [covered] at nonempty)
    refine List.prefix_of_prefix_length_le kept covered ?_
    rw [length]
    by_contra short
    have early : ((leaders term).take (index + 1))[candidate.length - 1]? = some last := by
      rw [← getElem?_shorter kept (by omega)]
      exact getElem?_longer covered ending
    have low := bounded term last (List.mem_of_mem_take (List.mem_of_getElem? early))
    omega
  · have terms : lastTerm candidate = lastTerm voter := by
      rcases newer with above' | ⟨same, _⟩ <;> omega
    have same : last.term = term := by omega
    rw [same] at covered
    refine List.prefix_of_prefix_length_le (List.take_prefix _ _) covered ?_
    rcases newer with above' | ⟨_, longer⟩ <;> omega

end MiniNetDist.Library
