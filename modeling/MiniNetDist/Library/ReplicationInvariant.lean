import MiniNetDist.Library.Replication

/-! One invariant carries the safety of leader-based replication: every log is
rooted in the leaders' logs, and what may still be chosen in a term is held by
every later leader, by every member that acknowledged it, and by every candidate
a member that acknowledged it voted for. -/

namespace MiniNetDist.Library.Replicas

universe u v
variable {Member : Type u} {Command : Type v} [Fintype Member] [DecidableEq Member]

/-- A member's committed prefix lies inside a chosen one. -/
def Settled (replicas : Replicas Member Command) (member : Member) : Prop :=
  replicas.commit member ≤ (replicas.log member).length ∧
    (replicas.commit member = 0 ∨
      ∃ term index, term ≤ replicas.term member ∧ replicas.Chosen term index ∧
        (replicas.log member).take (replicas.commit member) <+: replicas.upTo term index)

structure Safe (replicas : Replicas Member Command) : Prop where
  vote_past : ∀ voter term candidate, replicas.ledger voter term = some candidate →
    term ≤ replicas.term voter
  candidate_past : ∀ voter term candidate, replicas.ledger voter term = some candidate →
    term ≤ replicas.term candidate
  leader_elected : ∀ term leader, replicas.leader term = some leader →
    Majority (replicas.ledger.supporters term leader)
  leader_term : ∀ term leader, replicas.leader term = some leader → term ≤ replicas.term leader
  leader_log : ∀ term leader, replicas.leader term = some leader → replicas.term leader = term →
    replicas.log leader = replicas.leaderLog term
  vacant : ∀ term, replicas.leader term = none → replicas.leaderLog term = []
  bounded : Bounded replicas.leaderLog
  stamped : ∀ member, ∀ entry ∈ replicas.log member, entry.term ≤ replicas.term member
  rooted : ∀ member, Rooted replicas.leaderLog (replicas.log member)
  leader_rooted : ∀ term, Rooted replicas.leaderLog (replicas.leaderLog term)
  acked_past : ∀ member term, 0 < replicas.acked member term → term ≤ replicas.term member
  acked_inside : ∀ member term, replicas.acked member term ≤ (replicas.leaderLog term).length
  complete : ∀ term next leader index, term < next → replicas.leader next = some leader →
    replicas.Choosable term index → replicas.upTo term index <+: replicas.leaderLog next
  acked_kept : ∀ member term index, index < replicas.acked member term →
    replicas.Choosable term index → replicas.upTo term index <+: replicas.log member
  vote_kept : ∀ voter candidate term next index, replicas.ledger voter next = some candidate →
    replicas.term candidate = next → term < next → index < replicas.acked voter term →
    replicas.Choosable term index → replicas.upTo term index <+: replicas.log candidate
  settled : ∀ member, replicas.Settled member

theorem Safe.initial : Safe (Replicas.initial : Replicas Member Command) where
  vote_past := by simp [Replicas.initial]
  candidate_past := by simp [Replicas.initial]
  leader_elected := by simp [Replicas.initial]
  leader_term := by simp [Replicas.initial]
  leader_log := by simp [Replicas.initial]
  vacant := by simp [Replicas.initial]
  bounded := by simp [Replicas.initial, Bounded]
  stamped := by simp [Replicas.initial]
  rooted := fun _ => Rooted.nil
  leader_rooted := fun _ => Rooted.nil
  acked_past := by simp [Replicas.initial]
  acked_inside := by simp [Replicas.initial]
  complete := by simp [Replicas.initial]
  acked_kept := by simp [Replicas.initial]
  vote_kept := by simp [Replicas.initial]
  settled := by simp [Settled, Replicas.initial]

variable {replicas next : Replicas Member Command} {term index : Nat}

omit [DecidableEq Member] in
theorem Chosen.choosable (chosen : replicas.Chosen term index) : replicas.Choosable term index := by
  obtain ⟨own, quorum, majority, acked⟩ := chosen
  exact ⟨own, quorum, majority, fun member inside _ => acked member inside⟩

omit [DecidableEq Member] in
/-- A prefix that is choosable after a move was choosable before it: terms only
grow, and a member acknowledges nothing in a term it has left. -/
theorem Choosable.earlier (choosable : next.Choosable term index) (own : replicas.Own term index)
    (grown : ∀ member, replicas.term member ≤ next.term member)
    (frozen : ∀ member, term < replicas.term member →
      next.acked member term ≤ replicas.acked member term) :
    replicas.Choosable term index := by
  obtain ⟨_, quorum, majority, acked⟩ := choosable
  refine ⟨own, quorum, majority, ?_⟩
  intro member inside left
  have later := acked member inside (Nat.lt_of_lt_of_le left (grown member))
  exact Nat.lt_of_lt_of_le later (frozen member left)

omit [DecidableEq Member] in
theorem Chosen.later (chosen : replicas.Chosen term index) (own : next.Own term index)
    (grown : ∀ member, replicas.acked member term ≤ next.acked member term) :
    next.Chosen term index := by
  obtain ⟨_, quorum, majority, acked⟩ := chosen
  exact ⟨own, quorum, majority, fun member inside =>
    Nat.lt_of_lt_of_le (acked member inside) (grown member)⟩

omit [Fintype Member] [DecidableEq Member] in
theorem Own.nonempty (own : replicas.Own term index) : replicas.leaderLog term ≠ [] := by
  obtain ⟨entry, present, _⟩ := own
  intro empty
  simp [empty] at present

theorem Safe.has_leader (safe : Safe replicas) (nonempty : replicas.leaderLog term ≠ []) :
    ∃ leader, replicas.leader term = some leader := by
  cases elected : replicas.leader term with
  | none => exact absurd (safe.vacant term elected) nonempty
  | some leader => exact ⟨leader, rfl⟩

/-- The leader of a term is the only member a majority voted for in it. -/
theorem Safe.leader_unique {winner leading : Member} (safe : Safe replicas)
    (leads : replicas.leader term = some leading)
    (won : Majority (replicas.ledger.supporters term winner)) : winner = leading :=
  Ledger.winner_unique won (safe.leader_elected term leading leads)

/-- Nobody has voted in a term ahead of its own. -/
theorem Safe.unvoted {voter : Member} (safe : Safe replicas) (ahead : replicas.term voter < term) :
    replicas.ledger voter term = none := by
  cases cast : replicas.ledger voter term with
  | none => rfl
  | some candidate =>
    have past := safe.vote_past voter term candidate cast
    omega

theorem Safe.advance {member : Member} (safe : Safe replicas) (higher : replicas.term member < term) :
    Safe (replicas.advance member term) := by
  have grown := le_term_advance higher
  have earlier : ∀ {at_ index}, (replicas.advance member term).Choosable at_ index →
      replicas.Choosable at_ index :=
    fun choosable => choosable.earlier choosable.1 grown fun _ _ => Nat.le_refl _
  -- Only the member that moved could newly reach a term it already led or ran in.
  have stays : ∀ {other at_}, at_ ≤ replicas.term other →
      (replicas.advance member term).term other = at_ → replicas.term other = at_ := by
    intro other at_ past reached
    by_cases same : other = member
    · subst same
      simp [Replicas.advance] at reached
      omega
    · simpa [Replicas.advance, same] using reached
  exact {
    vote_past := fun voter at_ candidate cast => (safe.vote_past voter at_ candidate cast).trans (grown _)
    candidate_past := fun voter at_ candidate cast =>
      (safe.candidate_past voter at_ candidate cast).trans (grown _)
    leader_elected := safe.leader_elected
    leader_term := fun at_ leader leads => (safe.leader_term at_ leader leads).trans (grown _)
    leader_log := fun at_ leader leads reached =>
      safe.leader_log at_ leader leads (stays (safe.leader_term at_ leader leads) reached)
    vacant := safe.vacant
    bounded := safe.bounded
    stamped := fun other entry present => (safe.stamped other entry present).trans (grown _)
    rooted := safe.rooted
    leader_rooted := safe.leader_rooted
    acked_past := fun other at_ some => (safe.acked_past other at_ some).trans (grown _)
    acked_inside := safe.acked_inside
    complete := fun at_ later leader index order leads choosable =>
      safe.complete at_ later leader index order leads (earlier choosable)
    acked_kept := fun other at_ index inside choosable =>
      safe.acked_kept other at_ index inside (earlier choosable)
    vote_kept := fun voter candidate at_ later index cast reached order inside choosable =>
      safe.vote_kept voter candidate at_ later index cast
        (stays (safe.candidate_past voter later candidate cast) reached) order inside
        (earlier choosable)
    settled := by
      intro other
      obtain ⟨inside, none | ⟨at_, index, past, chosen, covered⟩⟩ := safe.settled other
      · exact ⟨inside, .inl none⟩
      · exact ⟨inside, .inr ⟨at_, index, past.trans (grown _), chosen, covered⟩⟩ }

theorem Safe.vote {voter candidate : Member} (safe : Safe replicas)
    (same : replicas.term candidate = replicas.term voter)
    (fresh : replicas.ledger voter (replicas.term voter) = none)
    (newer : UpToDate (replicas.log candidate) (replicas.log voter)) :
    Safe (replicas.vote voter candidate) := by
  exact {
    vote_past := by
      intro member at_ chosen cast
      obtain ⟨rfl, rfl, rfl⟩ | old := vote_cases cast
      · exact Nat.le_refl _
      · exact safe.vote_past member at_ chosen old
    candidate_past := by
      intro member at_ chosen cast
      obtain ⟨rfl, rfl, rfl⟩ | old := vote_cases cast
      · exact same.ge
      · exact safe.candidate_past member at_ chosen old
    leader_elected := fun at_ leader leads =>
      (safe.leader_elected at_ leader leads).mono (Ledger.supporters_cast_subset fresh)
    leader_term := safe.leader_term
    leader_log := safe.leader_log
    vacant := safe.vacant
    bounded := safe.bounded
    stamped := safe.stamped
    rooted := safe.rooted
    leader_rooted := safe.leader_rooted
    acked_past := safe.acked_past
    acked_inside := safe.acked_inside
    complete := safe.complete
    acked_kept := safe.acked_kept
    vote_kept := by
      intro member chosen at_ later index cast reached order inside choosable
      obtain ⟨rfl, rfl, rfl⟩ | old := vote_cases cast
      · obtain ⟨entry, own, stamp⟩ := choosable.1
        refine newer.carries safe.bounded (safe.rooted chosen) (safe.rooted member) own stamp
          (safe.acked_kept member at_ index inside choosable) ?_
        intro following above nonempty
        obtain ⟨leader, leads⟩ := safe.has_leader nonempty
        exact safe.complete at_ following leader index above leads choosable
      · exact safe.vote_kept member chosen at_ later index old reached order inside choosable
    settled := safe.settled }

/-- A candidate's log holds no entry of the vacant term it runs in. -/
private theorem Safe.stamped_below {winner : Member} {entry : Stamped Command} (safe : Safe replicas)
    (vacant : replicas.leader (replicas.term winner) = none)
    (present : entry ∈ replicas.log winner) : entry.term ≠ replicas.term winner := by
  intro same
  obtain ⟨index, found⟩ := List.mem_iff_getElem?.mp present
  have start := safe.rooted winner index entry found
  rw [same, safe.vacant _ vacant, List.prefix_nil, List.take_eq_nil_iff] at start
  rcases start with absurd | empty
  · omega
  · simp [empty] at present

section Elect

variable {winner : Member} {at_ : Nat} (safe : Safe replicas)
  (vacant : replicas.leader (replicas.term winner) = none)

include safe vacant

theorem leaderLog_prefix_elect (at_ : Nat) :
    replicas.leaderLog at_ <+: (replicas.elect winner).leaderLog at_ := by
  by_cases same : at_ = replicas.term winner
  · rw [same, safe.vacant _ vacant]; exact List.nil_prefix
  · rw [elect_leaderLog_of_ne same]

/-- The new leader owns no entry yet, so nothing of its term can be choosable. -/
theorem choosable_of_elect (choosable : (replicas.elect winner).Choosable at_ index) :
    at_ ≠ replicas.term winner ∧ replicas.Choosable at_ index := by
  obtain ⟨entry, found, stamp⟩ := choosable.1
  have different : at_ ≠ replicas.term winner := by
    rintro rfl
    rw [elect_leaderLog_self] at found
    exact safe.stamped_below vacant (List.mem_of_getElem? found) stamp
  refine ⟨different, choosable.earlier ⟨entry, ?_, stamp⟩ (fun _ => Nat.le_refl _) ?_⟩
  · rwa [elect_leaderLog_of_ne different] at found
  · intro member _
    rw [elect_acked_of_ne different]

theorem leader_log_elect {leading : Member} (leads : (replicas.elect winner).leader at_ = some leading)
    (reached : replicas.term leading = at_) : replicas.log leading = (replicas.elect winner).leaderLog at_ := by
  obtain ⟨rfl, rfl⟩ | old := elect_leader_cases leads
  · exact elect_leaderLog_self.symm
  · have different : at_ ≠ replicas.term winner := by
      rintro rfl
      rw [vacant] at old
      cases old
    rw [elect_leaderLog_of_ne different]
    exact safe.leader_log at_ leading old reached

theorem acked_inside_elect (member : Member) (at_ : Nat) :
    (replicas.elect winner).acked member at_ ≤ ((replicas.elect winner).leaderLog at_).length := by
  by_cases same : at_ = replicas.term winner
  · by_cases own : member = winner
    · subst own same; simp [Replicas.elect]
    · have old := safe.acked_inside member at_
      have length := (leaderLog_prefix_elect safe vacant at_).length_le
      simp only [Replicas.elect, Function.update_of_ne own] at length ⊢
      omega
  · rw [elect_acked_of_ne same, elect_leaderLog_of_ne same]
    exact safe.acked_inside member at_

/-- A voter of the new leader is in the majority that a choosable prefix still needs. -/
theorem complete_elect {later : Nat} {leading : Member}
    (won : Majority (replicas.ledger.supporters (replicas.term winner) winner)) (order : at_ < later)
    (leads : (replicas.elect winner).leader later = some leading)
    (choosable : (replicas.elect winner).Choosable at_ index) :
    (replicas.elect winner).upTo at_ index <+: (replicas.elect winner).leaderLog later := by
  obtain ⟨different, old⟩ := choosable_of_elect safe vacant choosable
  rw [elect_upTo_of_ne different]
  obtain ⟨rfl, rfl⟩ | previous := elect_leader_cases leads
  · have ⟨_, quorum, majority, held⟩ := old
    obtain ⟨voter, inside, supports⟩ := majority.meet won
    rw [Ledger.mem_supporters] at supports
    have passed := safe.vote_past voter _ leading supports
    rw [elect_leaderLog_self]
    exact safe.vote_kept voter leading at_ _ index supports rfl order
      (held voter inside (Nat.lt_of_lt_of_le order passed)) old
  · exact (safe.complete at_ later leading index order previous old).trans
      (leaderLog_prefix_elect safe vacant later)

theorem settled_elect (member : Member) : (replicas.elect winner).Settled member := by
  obtain ⟨inside, none | ⟨at_, index, past, chosen, covered⟩⟩ := safe.settled member
  · exact ⟨inside, .inl none⟩
  · have different : at_ ≠ replicas.term winner := fun same =>
      chosen.1.nonempty (same ▸ safe.vacant _ vacant)
    refine ⟨inside, .inr ⟨at_, index, past, chosen.later ?_ ?_, ?_⟩⟩
    · obtain ⟨entry, found, stamp⟩ := chosen.1
      exact ⟨entry, by rw [elect_leaderLog_of_ne different]; exact found, stamp⟩
    · intro other
      rw [elect_acked_of_ne different]
    · rw [elect_upTo_of_ne different]
      exact covered

theorem Safe.elect (won : Majority (replicas.ledger.supporters (replicas.term winner) winner)) :
    Safe (replicas.elect winner) where
  vote_past := safe.vote_past
  candidate_past := safe.candidate_past
  leader_elected := by
    intro at_ leading leads
    obtain ⟨rfl, rfl⟩ | old := elect_leader_cases leads
    · exact won
    · exact safe.leader_elected at_ leading old
  leader_term := by
    intro at_ leading leads
    obtain ⟨rfl, rfl⟩ | old := elect_leader_cases leads
    · exact Nat.le_refl _
    · exact safe.leader_term at_ leading old
  leader_log := fun _ _ => leader_log_elect safe vacant
  vacant := by
    intro at_ none
    have different : at_ ≠ replicas.term winner := by
      rintro rfl
      simp [Replicas.elect] at none
    rw [elect_leaderLog_of_ne different]
    exact safe.vacant at_ (by simpa [Replicas.elect, different] using none)
  bounded := by
    intro at_ entry present
    by_cases same : at_ = replicas.term winner
    · subst same
      rw [elect_leaderLog_self] at present
      exact safe.stamped winner entry present
    · rw [elect_leaderLog_of_ne same] at present
      exact safe.bounded at_ entry present
  stamped := safe.stamped
  rooted := fun member => (safe.rooted member).mono (leaderLog_prefix_elect safe vacant)
  leader_rooted := by
    intro at_
    by_cases same : at_ = replicas.term winner
    · rw [same, elect_leaderLog_self]
      exact (safe.rooted winner).mono (leaderLog_prefix_elect safe vacant)
    · rw [elect_leaderLog_of_ne same]
      exact (safe.leader_rooted at_).mono (leaderLog_prefix_elect safe vacant)
  acked_past := by
    intro member at_ some
    by_cases same : at_ = replicas.term winner
    · by_cases own : member = winner
      · subst own; exact same.le
      · refine safe.acked_past member at_ ?_
        simpa [Replicas.elect, own] using some
    · rw [elect_acked_of_ne same] at some
      exact safe.acked_past member at_ some
  acked_inside := acked_inside_elect safe vacant
  complete := fun _ _ _ _ order leads choosable => complete_elect safe vacant won order leads choosable
  acked_kept := by
    intro member at_ index inside choosable
    obtain ⟨different, old⟩ := choosable_of_elect safe vacant choosable
    rw [elect_upTo_of_ne different]
    rw [elect_acked_of_ne different] at inside
    exact safe.acked_kept member at_ index inside old
  vote_kept := by
    intro voter candidate at_ later index cast reached order inside choosable
    obtain ⟨different, old⟩ := choosable_of_elect safe vacant choosable
    rw [elect_upTo_of_ne different]
    rw [elect_acked_of_ne different] at inside
    exact safe.vote_kept voter candidate at_ later index cast reached order inside old
  settled := settled_elect safe vacant

end Elect

end MiniNetDist.Library.Replicas
