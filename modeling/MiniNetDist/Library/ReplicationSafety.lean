import Mathlib.Logic.Relation
import MiniNetDist.Library.ReplicationInvariant

/-! Growth of the logs keeps the replication invariant: leaders append, members
adopt a leader's prefix, and commit indices move to what is chosen. -/

namespace MiniNetDist.Library.Replicas

universe u v
variable {Member : Type u} {Command : Type v} [Fintype Member] [DecidableEq Member]
  {replicas next : Replicas Member Command} {term : Nat}

section Append

variable {leading : Member} {at_ index : Nat} (safe : Safe replicas) (command : Command)
  (leads : replicas.leader (replicas.term leading) = some leading)

include safe leads

theorem append_leaderLog_self : (replicas.append leading command).leaderLog (replicas.term leading) =
    replicas.leaderLog (replicas.term leading) ++ [⟨replicas.term leading, command⟩] := by
  simp [Replicas.append, safe.leader_log _ leading leads rfl]

theorem leaderLog_prefix_append (at_ : Nat) :
    replicas.leaderLog at_ <+: (replicas.append leading command).leaderLog at_ := by
  by_cases same : at_ = replicas.term leading
  · rw [same, append_leaderLog_self safe command leads]; exact List.prefix_append _ _
  · rw [append_leaderLog_of_ne same]

theorem log_prefix_append (member : Member) :
    replicas.log member <+: (replicas.append leading command).log member := by
  by_cases same : member = leading
  · rw [same, append_log_self, safe.leader_log _ leading leads rfl]
    exact leaderLog_prefix_append safe command leads _
  · simp [Replicas.append, same]

theorem append_upTo (inside : index < (replicas.leaderLog at_).length) :
    (replicas.append leading command).upTo at_ index = replicas.upTo at_ index :=
  take_longer (leaderLog_prefix_append safe command leads _) inside

theorem rooted_append : Rooted (replicas.append leading command).leaderLog
    ((replicas.append leading command).leaderLog (replicas.term leading)) := by
  have grown := leaderLog_prefix_append safe command leads
  have here := append_leaderLog_self safe command leads
  intro index entry found
  by_cases inside : index < (replicas.leaderLog (replicas.term leading)).length
  · rw [getElem?_shorter (grown _) inside] at found
    rw [take_longer (grown _) inside]
    exact (safe.leader_rooted _ index entry found).trans (grown entry.term)
  · have reach := (List.getElem?_eq_some_iff.mp found).1
    rw [here, List.length_append, List.length_singleton] at reach
    have last : index = (replicas.leaderLog (replicas.term leading)).length := by omega
    rw [here, last, List.getElem?_concat_length] at found
    rw [← Option.some.inj found]
    exact List.take_prefix _ _

/-- Either the position was there before, or it is the entry just appended. -/
theorem choosable_of_append (choosable : (replicas.append leading command).Choosable at_ index) :
    (index < (replicas.leaderLog at_).length ∧ replicas.Choosable at_ index) ∨
      (at_ = replicas.term leading ∧ index = (replicas.leaderLog at_).length) := by
  obtain ⟨entry, found, stamp⟩ := choosable.1
  by_cases inside : index < (replicas.leaderLog at_).length
  · rw [getElem?_shorter (leaderLog_prefix_append safe command leads at_) inside] at found
    refine .inl ⟨inside, choosable.earlier ⟨entry, found, stamp⟩ (fun _ => Nat.le_refl _) ?_⟩
    intro member left
    rw [append_acked_of_ne]
    rintro ⟨rfl, rfl⟩
    omega
  · have reach := (List.getElem?_eq_some_iff.mp found).1
    by_cases same : at_ = replicas.term leading
    · subst same
      rw [append_leaderLog_self safe command leads, List.length_append, List.length_singleton] at reach
      exact .inr ⟨rfl, by omega⟩
    · rw [append_leaderLog_of_ne same] at reach
      exact absurd reach inside

omit leads in
/-- Nobody else has acknowledged the entry just appended. -/
theorem acked_behind_append {member : Member} (different : member ≠ leading) :
    (replicas.append leading command).acked member (replicas.term leading) ≤
      (replicas.leaderLog (replicas.term leading)).length := by
  rw [append_acked_of_ne (fun both => different both.1)]
  exact safe.acked_inside member _

theorem acked_le_append (member : Member) (at_ : Nat) :
    replicas.acked member at_ ≤ (replicas.append leading command).acked member at_ := by
  by_cases own : member = leading ∧ at_ = replicas.term leading
  · have bound := safe.acked_inside member at_
    rw [own.1, own.2, ← safe.leader_log _ leading leads rfl] at bound
    rw [own.1, own.2]
    simp only [Replicas.append, Function.update_self, List.length_append]
    omega
  · rw [append_acked_of_ne own]

theorem leader_log_append {other : Member} (leadsOther : replicas.leader at_ = some other)
    (reached : replicas.term other = at_) :
    (replicas.append leading command).log other = (replicas.append leading command).leaderLog at_ := by
  by_cases same : at_ = replicas.term leading
  · subst same
    have equal := Option.some.inj (leadsOther.symm.trans leads)
    rw [equal, append_log_self]
  · have different : other ≠ leading := by
      rintro rfl
      exact same reached.symm
    rw [append_leaderLog_of_ne same]
    simpa [Replicas.append, different] using safe.leader_log at_ other leadsOther reached

theorem bounded_append : Bounded (replicas.append leading command).leaderLog := by
  intro at_ entry present
  by_cases same : at_ = replicas.term leading
  · subst same
    rw [append_leaderLog_self safe command leads, List.mem_append, List.mem_singleton] at present
    rcases present with old | rfl
    · exact safe.bounded _ entry old
    · exact Nat.le_refl _
  · rw [append_leaderLog_of_ne same] at present
    exact safe.bounded at_ entry present

/-- The voters of a later leader left the term before the new entry existed. -/
theorem complete_append {later : Nat} {other : Member} (order : at_ < later)
    (leadsLater : replicas.leader later = some other)
    (choosable : (replicas.append leading command).Choosable at_ index) :
    (replicas.append leading command).upTo at_ index <+: (replicas.append leading command).leaderLog later := by
  obtain ⟨inside, old⟩ | ⟨rfl, rfl⟩ := choosable_of_append safe command leads choosable
  · rw [append_upTo safe command leads inside]
    exact (safe.complete at_ later other index order leadsLater old).trans
      (leaderLog_prefix_append safe command leads later)
  · obtain ⟨_, quorum, majority, held⟩ := choosable
    obtain ⟨voter, inside, supports⟩ := majority.meet (safe.leader_elected later other leadsLater)
    rw [Ledger.mem_supporters] at supports
    have passed := Nat.lt_of_lt_of_le order (safe.vote_past voter later other supports)
    have different : voter ≠ leading := by
      rintro rfl
      omega
    exact absurd (held voter inside passed) (Nat.not_lt.mpr (acked_behind_append safe command different))

theorem acked_kept_append {member : Member} (inside : index < (replicas.append leading command).acked member at_)
    (choosable : (replicas.append leading command).Choosable at_ index) :
    (replicas.append leading command).upTo at_ index <+: (replicas.append leading command).log member := by
  by_cases own : member = leading ∧ at_ = replicas.term leading
  · rw [own.1, own.2, append_log_self]
    exact List.take_prefix _ _
  · obtain ⟨within, old⟩ | ⟨rfl, rfl⟩ := choosable_of_append safe command leads choosable
    · rw [append_acked_of_ne own] at inside
      rw [append_upTo safe command leads within]
      exact (safe.acked_kept member at_ index inside old).trans (log_prefix_append safe command leads member)
    · have different : member ≠ leading := fun same => own ⟨same, rfl⟩
      exact absurd inside (Nat.not_lt.mpr (acked_behind_append safe command different))

theorem vote_kept_append {voter candidate : Member} {later : Nat} (cast : replicas.ledger voter later = some candidate)
    (reached : replicas.term candidate = later) (order : at_ < later)
    (inside : index < (replicas.append leading command).acked voter at_)
    (choosable : (replicas.append leading command).Choosable at_ index) :
    (replicas.append leading command).upTo at_ index <+: (replicas.append leading command).log candidate := by
  have passed := safe.vote_past voter later candidate cast
  have different : ¬ (voter = leading ∧ at_ = replicas.term leading) := by
    rintro ⟨rfl, rfl⟩
    omega
  obtain ⟨within, old⟩ | ⟨rfl, rfl⟩ := choosable_of_append safe command leads choosable
  · rw [append_acked_of_ne different] at inside
    rw [append_upTo safe command leads within]
    exact (safe.vote_kept voter candidate at_ later index cast reached order inside old).trans
      (log_prefix_append safe command leads candidate)
  · exact absurd inside
      (Nat.not_lt.mpr (acked_behind_append safe command fun same => different ⟨same, rfl⟩))

theorem settled_append (member : Member) : (replicas.append leading command).Settled member := by
  have extended := log_prefix_append safe command leads member
  obtain ⟨inside, none | ⟨at_, index, past, chosen, covered⟩⟩ := safe.settled member
  · exact ⟨inside.trans extended.length_le, .inl none⟩
  · obtain ⟨entry, found, stamp⟩ := chosen.1
    have within := (List.getElem?_eq_some_iff.mp found).1
    refine ⟨inside.trans extended.length_le, .inr ⟨at_, index, past, chosen.later ?_ ?_, ?_⟩⟩
    · exact ⟨entry, getElem?_longer (leaderLog_prefix_append safe command leads at_) found, stamp⟩
    · exact fun other => acked_le_append safe command leads other at_
    · rw [append_upTo safe command leads within,
        show (replicas.append leading command).commit = replicas.commit from rfl, take_longer extended inside]
      exact covered

theorem Safe.append : Safe (replicas.append leading command) where
  vote_past := safe.vote_past
  candidate_past := safe.candidate_past
  leader_elected := safe.leader_elected
  leader_term := safe.leader_term
  leader_log := fun _ _ => leader_log_append safe command leads
  vacant := by
    intro at_ none
    have different : at_ ≠ replicas.term leading := by
      rintro rfl
      exact absurd (none.symm.trans leads) (by simp)
    rw [append_leaderLog_of_ne different]
    exact safe.vacant at_ none
  bounded := bounded_append safe command leads
  stamped := by
    intro member entry present
    by_cases same : member = leading
    · subst same
      rw [append_log_self] at present
      exact bounded_append safe command leads _ entry present
    · exact safe.stamped member entry (by simpa [Replicas.append, same] using present)
  rooted := by
    intro member
    by_cases same : member = leading
    · rw [same, append_log_self]
      exact rooted_append safe command leads
    · have old := (safe.rooted member).mono (leaderLog_prefix_append safe command leads)
      simpa [Replicas.append, same] using old
  leader_rooted := by
    intro at_
    by_cases same : at_ = replicas.term leading
    · rw [same]
      exact rooted_append safe command leads
    · rw [append_leaderLog_of_ne same]
      exact (safe.leader_rooted at_).mono (leaderLog_prefix_append safe command leads)
  acked_past := by
    intro member at_ some
    by_cases own : member = leading ∧ at_ = replicas.term leading
    · rw [own.1, own.2]
      exact Nat.le_refl _
    · rw [append_acked_of_ne own] at some
      exact safe.acked_past member at_ some
  acked_inside := by
    intro member at_
    by_cases own : member = leading ∧ at_ = replicas.term leading
    · rw [own.1, own.2]
      simp [Replicas.append]
    · rw [append_acked_of_ne own]
      exact (safe.acked_inside member at_).trans (leaderLog_prefix_append safe command leads at_).length_le
  complete := fun _ _ _ _ order later choosable => complete_append safe command leads order later choosable
  acked_kept := fun _ _ _ inside choosable => acked_kept_append safe command leads inside choosable
  vote_kept := fun _ _ _ _ _ cast reached order inside choosable =>
    vote_kept_append safe command leads cast reached order inside choosable
  settled := settled_append safe command leads

end Append

omit [Fintype Member] [DecidableEq Member] in
/-- Adopting part of a leader's log loses nothing that the log shared with it. -/
theorem Adopts.keeps {old source result shared : Log Command} {count : Nat}
    (adopts : Adopts old (source.take count) result) (held : shared <+: old)
    (common : shared <+: source) : shared <+: result := by
  rcases adopts with ⟨_, rfl⟩ | ⟨missing, rfl⟩
  · exact held
  · rcases List.prefix_or_prefix_of_prefix common (List.take_prefix count source) with inside | outside
    · exact inside
    · exact absurd (outside.trans held) missing

omit [Fintype Member] [DecidableEq Member] in
theorem Adopts.covers {old adopted result : Log Command} (adopts : Adopts old adopted result) :
    adopted <+: result := by
  rcases adopts with ⟨held, rfl⟩ | ⟨_, rfl⟩
  · exact held
  · exact List.prefix_refl _

section Adopt

variable {member leading : Member} {count at_ index : Nat} {log : Log Command} (safe : Safe replicas)
  (leads : replicas.leader (replicas.term member) = some leading)
  (adopts : Adopts (replicas.log member) ((replicas.leaderLog (replicas.term member)).take count) log)

theorem choosable_of_adopt (choosable : (replicas.adopt member count log).Choosable at_ index) :
    replicas.Choosable at_ index := by
  refine choosable.earlier choosable.1 (fun _ => Nat.le_refl _) ?_
  intro someone left
  rw [adopt_acked_of_ne]
  rintro ⟨rfl, rfl⟩
  omega

include safe leads

/-- A prefix that could be chosen by now is part of this leader's log. -/
theorem upTo_prefix_leaderLog (past : at_ ≤ replicas.term member) (choosable : replicas.Choosable at_ index) :
    replicas.upTo at_ index <+: replicas.leaderLog (replicas.term member) := by
  rcases Nat.lt_or_eq_of_le past with before | rfl
  · exact safe.complete at_ _ leading index before leads choosable
  · exact List.take_prefix _ _

include adopts

theorem acked_kept_adopt {someone : Member} (reach : index < (replicas.adopt member count log).acked someone at_)
    (choosable : (replicas.adopt member count log).Choosable at_ index) :
    replicas.upTo at_ index <+: (replicas.adopt member count log).log someone := by
  have old := choosable_of_adopt choosable
  by_cases same : someone = member
  · subst same
    rw [adopt_log_self]
    by_cases current : at_ = replicas.term someone
    · subst current
      rw [adopt_acked_self, lt_max_iff] at reach
      rcases reach with reach | reach
      · exact adopts.keeps (safe.acked_kept someone _ index reach old) (List.take_prefix _ _)
      · exact (List.take_prefix_take_left reach).trans adopts.covers
    · rw [adopt_acked_of_ne fun both => current both.2] at reach
      have past := safe.acked_past someone at_ (by omega)
      exact adopts.keeps (safe.acked_kept someone at_ index reach old)
        (upTo_prefix_leaderLog safe leads past old)
  · rw [adopt_acked_of_ne fun both => same both.1] at reach
    rw [adopt_log_of_ne same]
    exact safe.acked_kept someone at_ index reach old

theorem vote_kept_adopt {voter candidate : Member} {later : Nat} (cast : replicas.ledger voter later = some candidate)
    (reached : replicas.term candidate = later) (order : at_ < later)
    (reach : index < (replicas.adopt member count log).acked voter at_)
    (choosable : (replicas.adopt member count log).Choosable at_ index) :
    replicas.upTo at_ index <+: (replicas.adopt member count log).log candidate := by
  have passed := safe.vote_past voter later candidate cast
  have old := choosable_of_adopt choosable
  rw [adopt_acked_of_ne (by rintro ⟨rfl, rfl⟩; omega)] at reach
  have held := safe.vote_kept voter candidate at_ later index cast reached order reach old
  by_cases same : candidate = member
  · subst same
    rw [adopt_log_self]
    exact adopts.keeps held (upTo_prefix_leaderLog safe leads (by omega) old)
  · rw [adopt_log_of_ne same]
    exact held

theorem settled_adopt (someone : Member) : (replicas.adopt member count log).Settled someone := by
  obtain ⟨bound, none | ⟨at_, index, past, chosen, covered⟩⟩ := safe.settled someone
  · refine ⟨?_, .inl none⟩
    rw [show (replicas.adopt member count log).commit someone = 0 from none]
    exact Nat.zero_le _
  · have later : (replicas.adopt member count log).Chosen at_ index := by
      refine chosen.later chosen.1 ?_
      intro voter
      by_cases own : voter = member ∧ at_ = replicas.term member
      · rw [own.1, own.2, adopt_acked_self]
        exact Nat.le_max_left _ _
      · rw [adopt_acked_of_ne own]
    by_cases same : someone = member
    · subst same
      have kept : (replicas.log someone).take (replicas.commit someone) <+: log :=
        adopts.keeps (List.take_prefix _ _)
          (covered.trans (upTo_prefix_leaderLog safe leads past chosen.choosable))
      have length : ((replicas.log someone).take (replicas.commit someone)).length =
          replicas.commit someone := by simp [bound]
      refine ⟨?_, .inr ⟨at_, index, past, later, ?_⟩⟩
      · rw [adopt_log_self]
        exact length ▸ kept.length_le
      · rw [adopt_log_self, show (replicas.adopt someone count log).commit = replicas.commit from rfl,
          take_longer kept length.ge, List.take_take, Nat.min_self]
        exact covered
    · refine ⟨?_, .inr ⟨at_, index, past, later, ?_⟩⟩
      · rw [adopt_log_of_ne same]
        exact bound
      · rw [adopt_log_of_ne same]
        exact covered

theorem Safe.adopt (other : leading ≠ member)
    (inside : count ≤ (replicas.leaderLog (replicas.term member)).length) :
    Safe (replicas.adopt member count log) where
  vote_past := safe.vote_past
  candidate_past := safe.candidate_past
  leader_elected := safe.leader_elected
  leader_term := safe.leader_term
  leader_log := by
    intro at_ someone leadsSomeone reached
    have different : someone ≠ member := by
      rintro rfl
      rw [← reached] at leadsSomeone
      exact other (Option.some.inj (leads.symm.trans leadsSomeone))
    rw [adopt_log_of_ne different]
    exact safe.leader_log at_ someone leadsSomeone reached
  vacant := safe.vacant
  bounded := safe.bounded
  stamped := by
    intro someone entry present
    by_cases same : someone = member
    · subst same
      rw [adopt_log_self] at present
      rcases adopts with ⟨_, rfl⟩ | ⟨_, rfl⟩
      · exact safe.stamped someone entry present
      · exact safe.bounded _ entry (List.mem_of_mem_take present)
    · rw [adopt_log_of_ne same] at present
      exact safe.stamped someone entry present
  rooted := by
    intro someone
    by_cases same : someone = member
    · rw [same, adopt_log_self]
      rcases adopts with ⟨_, rfl⟩ | ⟨_, rfl⟩
      · exact safe.rooted member
      · exact (safe.leader_rooted _).ofPrefix (List.take_prefix _ _)
    · rw [adopt_log_of_ne same]
      exact safe.rooted someone
  leader_rooted := safe.leader_rooted
  acked_past := by
    intro someone at_ some
    by_cases own : someone = member ∧ at_ = replicas.term member
    · rw [own.1, own.2]
      exact Nat.le_refl _
    · rw [adopt_acked_of_ne own] at some
      exact safe.acked_past someone at_ some
  acked_inside := by
    intro someone at_
    by_cases own : someone = member ∧ at_ = replicas.term member
    · rw [own.1, own.2, adopt_acked_self]
      exact Nat.max_le.mpr ⟨safe.acked_inside member _, inside⟩
    · rw [adopt_acked_of_ne own]
      exact safe.acked_inside someone at_
  complete := fun at_ later someone index order leadsLater choosable =>
    safe.complete at_ later someone index order leadsLater (choosable_of_adopt choosable)
  acked_kept := fun _ _ _ reach choosable => acked_kept_adopt safe leads adopts reach choosable
  vote_kept := fun _ _ _ _ _ cast reached order reach choosable =>
    vote_kept_adopt safe leads adopts cast reached order reach choosable
  settled := settled_adopt safe leads adopts

end Adopt

private theorem Safe.settle {member : Member} {count : Nat} (safe : Safe replicas)
    (moved : (replicas.settle member count).Settled member) : Safe (replicas.settle member count) :=
  { safe with
    settled := by
      intro someone
      by_cases same : someone = member
      · rw [same]; exact moved
      · simpa [Settled, Replicas.settle, same, Chosen, Own, Replicas.upTo] using safe.settled someone }

theorem Safe.commit {leading : Member} {index : Nat} (safe : Safe replicas)
    (leads : replicas.leader (replicas.term leading) = some leading)
    (chosen : replicas.Chosen (replicas.term leading) index) :
    Safe (replicas.settle leading (index + 1)) := by
  refine safe.settle ?_
  have log := safe.leader_log _ leading leads rfl
  obtain ⟨entry, found, _⟩ := chosen.1
  have inside := (List.getElem?_eq_some_iff.mp found).1
  have count : (replicas.settle leading (index + 1)).commit leading = index + 1 := by
    simp [Replicas.settle]
  have same : (replicas.settle leading (index + 1)).log leading =
      replicas.leaderLog (replicas.term leading) := log
  refine ⟨by rw [count, same]; exact inside, .inr ⟨_, index, Nat.le_refl _, chosen, ?_⟩⟩
  rw [count, same]
  exact List.prefix_refl _

theorem Safe.follow {member leading : Member} {count : Nat} (safe : Safe replicas)
    (same : replicas.term leading = replicas.term member)
    (inside : count ≤ (replicas.log member).length) (covered : count ≤ replicas.commit leading)
    (agree : (replicas.log member).take count <+: replicas.log leading) :
    Safe (replicas.settle member count) := by
  refine safe.settle ?_
  have moved : (replicas.settle member count).commit member = count := by simp [Replicas.settle]
  obtain ⟨bound, none | ⟨at_, index, past, chosen, settled⟩⟩ := safe.settled leading
  · have zero : count = 0 := by omega
    exact ⟨by rw [moved]; exact inside, .inl (moved.trans zero)⟩
  · refine ⟨by rw [moved]; exact inside, .inr ⟨at_, index, same ▸ past, chosen, ?_⟩⟩
    rw [moved]
    have shorter : (replicas.log member).take count <+:
        (replicas.log leading).take (replicas.commit leading) := by
      rw [List.prefix_take_iff]
      exact ⟨agree, by simp only [List.length_take]; omega⟩
    exact shorter.trans settled

/-- Every move of the protocol keeps the invariant. -/
theorem Safe.step (safe : Safe replicas) (move : Step replicas next) : Safe next := by
  cases move with
  | advance member term higher => exact safe.advance higher
  | vote voter candidate same fresh newer => exact safe.vote same fresh newer
  | elect winner vacant won => exact safe.elect vacant won
  | append leader command leads => exact safe.append command leads
  | adopt member leader count log leads other inside adopted => exact safe.adopt leads adopted other inside
  | commit leader index leads chosen => exact safe.commit leads chosen
  | follow member leader count same inside covered agree => exact safe.follow same inside covered agree

/-- Any number of moves. -/
def Steps : Replicas Member Command → Replicas Member Command → Prop := Relation.ReflTransGen Step

theorem Safe.steps (safe : Safe replicas) (moves : Steps replicas next) : Safe next := by
  induction moves with
  | refl => exact safe
  | tail _ move ih => exact ih.step move

/-- Chosen prefixes of two terms are prefixes of one another. -/
theorem Safe.chosen_compatible {first second one two : Nat} (safe : Safe replicas)
    (left : replicas.Chosen first one) (right : replicas.Chosen second two) :
    ∃ whole, replicas.upTo first one <+: whole ∧ replicas.upTo second two <+: whole := by
  rcases Nat.lt_trichotomy first second with before | rfl | after
  · obtain ⟨leading, leads⟩ := safe.has_leader right.1.nonempty
    exact ⟨_, safe.complete first second leading one before leads left.choosable, List.take_prefix _ _⟩
  · exact ⟨_, List.take_prefix _ _, List.take_prefix _ _⟩
  · obtain ⟨leading, leads⟩ := safe.has_leader left.1.nonempty
    exact ⟨_, List.take_prefix _ _, safe.complete second first leading two after leads right.choosable⟩

/-- Two members agree on every position both have committed. -/
theorem Safe.commit_agree (safe : Safe replicas) {one two : Member} {index : Nat}
    (first : index < replicas.commit one) (second : index < replicas.commit two) :
    (replicas.log one)[index]? = (replicas.log two)[index]? := by
  obtain ⟨insideOne, none | ⟨termOne, indexOne, _, chosenOne, coveredOne⟩⟩ := safe.settled one
  · omega
  obtain ⟨insideTwo, none | ⟨termTwo, indexTwo, _, chosenTwo, coveredTwo⟩⟩ := safe.settled two
  · omega
  obtain ⟨whole, left, right⟩ := safe.chosen_compatible chosenOne chosenTwo
  have position : ∀ {member}, (replicas.log member).take (replicas.commit member) <+: whole →
      replicas.commit member ≤ (replicas.log member).length → index < replicas.commit member →
      whole[index]? = (replicas.log member)[index]? := by
    intro member covered inside before
    rw [getElem?_shorter covered (by simp only [List.length_take]; omega),
      List.getElem?_take_of_lt before]
  rw [← position (coveredOne.trans left) insideOne first,
    position (coveredTwo.trans right) insideTwo second]

end MiniNetDist.Library.Replicas
