import Mathlib.Data.Multiset.Count
import Mathlib.Data.Multiset.MapFold
import MiniNetDist.Library.Quorum

/-! Elections over a network that loses and reorders messages but never copies
them. A ballot travels from a candidate to a voter and back; while it exists, or
once it is counted, no second ballot of the same candidate, voter and term does.
So a candidate that only counts how many granted ballots came back counts
different voters. -/

namespace MiniNetDist.Library

/-- A vote that is asked for, or granted and on its way back. -/
structure Ballot (Member : Type*) where
  candidate : Member
  voter : Member
  term : Nat
  granted : Bool

/-- The terms of the members, the votes they cast, whose votes each candidate has
counted in which term, and the ballots on the network. -/
structure Poll (Member : Type*) where
  term : Member → Nat
  ledger : Ledger Member
  counted : Member → Nat → Finset Member
  ballots : Multiset (Ballot Member)

variable {Member : Type*} [DecidableEq Member]

def Ballot.belongs (candidate voter : Member) (term : Nat) (ballot : Ballot Member) : Prop :=
  ballot.candidate = candidate ∧ ballot.voter = voter ∧ ballot.term = term

instance (candidate voter : Member) (term : Nat) :
    DecidablePred (Ballot.belongs candidate voter term) :=
  fun _ => inferInstanceAs (Decidable (_ ∧ _ ∧ _))

namespace Poll

structure Sound (poll : Poll Member) : Prop where
  past : ∀ voter term candidate, poll.ledger voter term = some candidate → term ≤ poll.term voter
  sent : ∀ ballot ∈ poll.ballots, ballot.term ≤ poll.term ballot.candidate
  foreign : ∀ ballot ∈ poll.ballots, ballot.voter ≠ ballot.candidate
  voted : ∀ ballot ∈ poll.ballots, ballot.granted = true →
    poll.ledger ballot.voter ballot.term = some ballot.candidate
  supports : ∀ candidate term, ∀ voter ∈ poll.counted candidate term,
    poll.ledger voter term = some candidate
  others : ∀ candidate term, candidate ∉ poll.counted candidate term
  counting : ∀ candidate term, ∀ voter ∈ poll.counted candidate term, term ≤ poll.term candidate
  once : ∀ candidate voter term, poll.ballots.countP (Ballot.belongs candidate voter term) ≤ 1
  spent : ∀ candidate term, ∀ voter ∈ poll.counted candidate term,
    poll.ballots.countP (Ballot.belongs candidate voter term) = 0

variable {poll : Poll Member} {member voter candidate : Member} {term : Nat}
  {ballot : Ballot Member} {rest : Multiset (Ballot Member)}

/-- Losing ballots is harmless. -/
theorem Sound.lose (sound : poll.Sound) {fewer : Multiset (Ballot Member)}
    (subset : fewer ≤ poll.ballots) : { poll with ballots := fewer }.Sound where
  past := sound.past
  sent := fun ballot present => sound.sent ballot (Multiset.mem_of_le subset present)
  foreign := fun ballot present => sound.foreign ballot (Multiset.mem_of_le subset present)
  voted := fun ballot present => sound.voted ballot (Multiset.mem_of_le subset present)
  supports := sound.supports
  others := sound.others
  counting := sound.counting
  once := fun candidate voter term =>
    (Multiset.countP_le_of_le _ subset).trans (sound.once candidate voter term)
  spent := fun candidate term voter present =>
    Nat.le_zero.mp ((Multiset.countP_le_of_le _ subset).trans
      (sound.spent candidate term voter present).le)

/-- A vote in a term the member has not reached is not cast yet. -/
theorem Sound.unvoted (sound : poll.Sound) (later : poll.term voter < term) :
    poll.ledger voter term = none := by
  cases found : poll.ledger voter term with
  | none => rfl
  | some candidate =>
    have reached := sound.past voter term candidate found
    omega

/-- No ballot of a term its candidate has not reached exists. -/
theorem Sound.uncounted (sound : poll.Sound) (later : poll.term candidate < term) (voter : Member) :
    poll.ballots.countP (Ballot.belongs candidate voter term) = 0 ∧
      voter ∉ poll.counted candidate term := by
  constructor
  · apply Multiset.countP_eq_zero.mpr
    rintro ballot present ⟨rfl, -, rfl⟩
    have reached := sound.sent ballot present
    omega
  · intro present
    have reached := sound.counting candidate term voter present
    omega

/-- Move to a later term. -/
def advance (poll : Poll Member) (member : Member) (term : Nat) : Poll Member :=
  { poll with term := fun other => if other = member then term else poll.term other }

theorem term_le_advance (later : poll.term member ≤ term) (other : Member) :
    poll.term other ≤ (poll.advance member term).term other := by
  dsimp only [advance]
  split_ifs with same
  · subst same; exact later
  · exact le_rfl

theorem Sound.advance (sound : poll.Sound) (later : poll.term member ≤ term) :
    (poll.advance member term).Sound where
  past := fun voter at_ candidate cast =>
    (sound.past voter at_ candidate cast).trans (term_le_advance later voter)
  sent := fun ballot present => (sound.sent ballot present).trans (term_le_advance later _)
  foreign := sound.foreign
  voted := sound.voted
  supports := sound.supports
  others := sound.others
  counting := fun candidate at_ voter present =>
    (sound.counting candidate at_ voter present).trans (term_le_advance later candidate)
  once := sound.once
  spent := sound.spent

/-- Enter a new term and vote for oneself. -/
def stand (poll : Poll Member) (candidate : Member) : Poll Member :=
  let term := poll.term candidate + 1
  { poll.advance candidate term with ledger := poll.ledger.cast candidate term candidate }

theorem Sound.stand (sound : poll.Sound) : (poll.stand candidate).Sound := by
  have unvoted : poll.ledger candidate (poll.term candidate + 1) = none := sound.unvoted (Nat.lt_succ_self _)
  have advanced := sound.advance (Nat.le_succ (poll.term candidate))
  exact {
    past := by
      intro voter at_ chosen cast
      by_cases same : voter = candidate ∧ at_ = poll.term candidate + 1
      · obtain ⟨rfl, rfl⟩ := same
        simp [Poll.stand, Poll.advance]
      · apply advanced.past voter at_ chosen
        simpa only [Poll.stand, Poll.advance, Ledger.cast_other same] using cast
    sent := advanced.sent
    foreign := advanced.foreign
    voted := fun ballot present granted =>
      Ledger.cast_keeps unvoted (sound.voted ballot present granted)
    supports := fun chosen at_ voter present =>
      Ledger.cast_keeps unvoted (sound.supports chosen at_ voter present)
    others := advanced.others
    counting := advanced.counting
    once := advanced.once
    spent := advanced.spent }

/-- Ask every voter of the list for a vote in the candidate's term. -/
def ask (poll : Poll Member) (candidate : Member) (voters : Multiset Member) : Poll Member :=
  { poll with ballots :=
      voters.map (fun voter => ⟨candidate, voter, poll.term candidate, false⟩) + poll.ballots }

theorem countP_asked_le (voters : Multiset Member) (candidate voter : Member) (term : Nat) :
    (voters.map fun other => (⟨candidate, other, term, false⟩ : Ballot Member)).countP
      (Ballot.belongs candidate voter term) ≤ voters.count voter := by
  rw [Multiset.countP_map, Multiset.count_eq_card_filter_eq]
  apply Multiset.card_le_card
  apply Multiset.monotone_filter_right
  rintro other ⟨-, rfl, -⟩
  rfl

theorem countP_ask_other {voters : Multiset Member} {chosen : Member}
    (other : ¬ (chosen = candidate ∧ term = poll.term candidate)) :
    (poll.ask candidate voters).ballots.countP (Ballot.belongs chosen voter term) =
      poll.ballots.countP (Ballot.belongs chosen voter term) := by
  have unrelated : (voters.map fun member =>
      (⟨candidate, member, poll.term candidate, false⟩ : Ballot Member)).countP
        (Ballot.belongs chosen voter term) = 0 := by
    apply Multiset.countP_eq_zero.mpr
    intro ballot present belongs
    obtain ⟨member, -, rfl⟩ := Multiset.mem_map.mp present
    exact other ⟨belongs.1.symm, belongs.2.2.symm⟩
  rw [ask, Multiset.countP_add, unrelated, Nat.zero_add]

/-- A candidate that asks nobody twice and only where no ballot is left keeps the
poll sound. -/
theorem Sound.ask (sound : poll.Sound) {voters : Multiset Member} (nodup : voters.Nodup)
    (outside : candidate ∉ voters)
    (fresh : ∀ voter, poll.ballots.countP (Ballot.belongs candidate voter (poll.term candidate)) = 0 ∧
      voter ∉ poll.counted candidate (poll.term candidate)) :
    (poll.ask candidate voters).Sound := by
  have cases_ : ∀ ballot ∈ (poll.ask candidate voters).ballots,
      (∃ voter ∈ voters, ⟨candidate, voter, poll.term candidate, false⟩ = ballot) ∨
        ballot ∈ poll.ballots := by
    intro ballot present
    rwa [Poll.ask, Multiset.mem_add, Multiset.mem_map] at present
  exact {
    past := sound.past
    sent := by
      intro ballot present
      rcases cases_ ballot present with ⟨voter, -, rfl⟩ | old
      · exact le_rfl
      · exact sound.sent ballot old
    foreign := by
      intro ballot present
      rcases cases_ ballot present with ⟨voter, asked, rfl⟩ | old
      · intro same
        dsimp only at same
        rw [same] at asked
        exact outside asked
      · exact sound.foreign ballot old
    voted := by
      intro ballot present granted
      rcases cases_ ballot present with ⟨voter, -, rfl⟩ | old
      · cases granted
      · exact sound.voted ballot old granted
    supports := sound.supports
    others := sound.others
    counting := sound.counting
    once := by
      intro chosen voter at_
      by_cases mine : chosen = candidate ∧ at_ = poll.term candidate
      · obtain ⟨rfl, rfl⟩ := mine
        have single := countP_asked_le voters chosen voter (poll.term chosen)
        have distinct := Multiset.nodup_iff_count_le_one.mp nodup voter
        rw [Poll.ask, Multiset.countP_add, (fresh voter).1]
        omega
      · rw [countP_ask_other mine]
        exact sound.once chosen voter at_
    spent := by
      intro chosen at_ voter present
      by_cases mine : chosen = candidate ∧ at_ = poll.term candidate
      · obtain ⟨rfl, rfl⟩ := mine
        exact absurd present (fresh voter).2
      · rw [countP_ask_other mine]
        exact sound.spent chosen at_ voter present }

/-- The voter of a ballot in its own term enters its vote and sends it back. -/
def grant (poll : Poll Member) (ballot : Ballot Member) (rest : Multiset (Ballot Member)) : Poll Member :=
  { poll with
    ledger := poll.ledger.cast ballot.voter ballot.term ballot.candidate
    ballots := { ballot with granted := true } ::ₘ rest }

/-- A vote granted once, or again to the same candidate, changes no other vote. -/
theorem grant_keeps (free : poll.ledger ballot.voter ballot.term = none ∨
      poll.ledger ballot.voter ballot.term = some ballot.candidate)
    (cast : poll.ledger voter term = some candidate) :
    (poll.grant ballot rest).ledger voter term = some candidate := by
  rcases free with none | same
  · exact Ledger.cast_keeps none cast
  · by_cases this : voter = ballot.voter ∧ term = ballot.term
    · obtain ⟨rfl, rfl⟩ := this
      rw [same] at cast
      simpa [grant] using cast
    · simpa only [grant, Ledger.cast_other this] using cast

theorem supporters_grant_subset [Fintype Member] (free : poll.ledger ballot.voter ballot.term = none ∨
      poll.ledger ballot.voter ballot.term = some ballot.candidate) :
    poll.ledger.supporters term candidate ⊆ (poll.grant ballot rest).ledger.supporters term candidate := by
  intro voter present
  rw [Ledger.mem_supporters] at present ⊢
  exact grant_keeps free present

theorem Sound.grant (sound : poll.Sound) (held : poll.ballots = ballot ::ₘ rest)
    (reached : ballot.term ≤ poll.term ballot.voter)
    (free : poll.ledger ballot.voter ballot.term = none ∨
      poll.ledger ballot.voter ballot.term = some ballot.candidate) :
    (poll.grant ballot rest).Sound := by
  have this : ballot ∈ poll.ballots := by rw [held]; exact Multiset.mem_cons_self _ _
  have old : ∀ other ∈ rest, other ∈ poll.ballots := by
    intro other present
    rw [held]
    exact Multiset.mem_cons_of_mem present
  have sameCount : ∀ chosen voter at_, (poll.grant ballot rest).ballots.countP
      (Ballot.belongs chosen voter at_) = poll.ballots.countP (Ballot.belongs chosen voter at_) := by
    intro chosen voter at_
    rw [held, Poll.grant, Multiset.countP_cons, Multiset.countP_cons]
    rfl
  exact {
    past := by
      intro voter at_ chosen cast
      by_cases same : voter = ballot.voter ∧ at_ = ballot.term
      · obtain ⟨rfl, rfl⟩ := same
        exact reached
      · apply sound.past voter at_ chosen
        simpa only [Poll.grant, Ledger.cast_other same] using cast
    sent := by
      intro other present
      rcases Multiset.mem_cons.mp present with rfl | present
      · exact sound.sent ballot this
      · exact sound.sent other (old other present)
    foreign := by
      intro other present
      rcases Multiset.mem_cons.mp present with rfl | present
      · exact sound.foreign ballot this
      · exact sound.foreign other (old other present)
    voted := by
      intro other present granted
      rcases Multiset.mem_cons.mp present with rfl | present
      · simp [Poll.grant]
      · exact grant_keeps free (sound.voted other (old other present) granted)
    supports := fun chosen at_ voter present =>
      grant_keeps free (sound.supports chosen at_ voter present)
    others := sound.others
    counting := sound.counting
    once := by
      intro chosen voter at_
      rw [sameCount]
      exact sound.once chosen voter at_
    spent := by
      intro chosen at_ voter present
      rw [sameCount]
      exact sound.spent chosen at_ voter present }

/-- The candidate of a granted ballot counts it. -/
def count (poll : Poll Member) (ballot : Ballot Member) (rest : Multiset (Ballot Member)) : Poll Member :=
  { poll with
    counted := fun candidate term =>
      if candidate = ballot.candidate ∧ term = ballot.term
      then insert ballot.voter (poll.counted candidate term) else poll.counted candidate term
    ballots := rest }

theorem Sound.count (sound : poll.Sound) (held : poll.ballots = ballot ::ₘ rest)
    (granted : ballot.granted = true) : (poll.count ballot rest).Sound := by
  have this : ballot ∈ poll.ballots := by rw [held]; exact Multiset.mem_cons_self _ _
  have fewer : rest ≤ poll.ballots := by rw [held]; exact Multiset.le_cons_self _ _
  have lost := sound.lose fewer
  have cases_ : ∀ candidate term, ∀ voter ∈ (poll.count ballot rest).counted candidate term,
      (candidate = ballot.candidate ∧ term = ballot.term ∧ voter = ballot.voter) ∨
        voter ∈ poll.counted candidate term := by
    intro candidate term voter present
    simp only [Poll.count] at present
    split_ifs at present with same
    · rcases Finset.mem_insert.mp present with rfl | old
      · exact .inl ⟨same.1, same.2, rfl⟩
      · exact .inr old
    · exact .inr present
  exact {
    past := sound.past
    sent := lost.sent
    foreign := lost.foreign
    voted := lost.voted
    supports := by
      intro candidate term voter present
      rcases cases_ candidate term voter present with ⟨rfl, rfl, rfl⟩ | old
      · exact sound.voted ballot this granted
      · exact sound.supports candidate term voter old
    others := by
      intro candidate term present
      rcases cases_ candidate term candidate present with ⟨same, -, self⟩ | old
      · exact sound.foreign ballot this (self.symm.trans same)
      · exact sound.others candidate term old
    counting := by
      intro candidate term voter present
      rcases cases_ candidate term voter present with ⟨rfl, rfl, rfl⟩ | old
      · exact sound.sent ballot this
      · exact sound.counting candidate term voter old
    once := lost.once
    spent := by
      intro candidate term voter present
      rcases cases_ candidate term voter present with ⟨rfl, rfl, rfl⟩ | old
      · have before := sound.once ballot.candidate ballot.voter ballot.term
        rw [held, Multiset.countP_cons_of_pos rest ⟨rfl, rfl, rfl⟩] at before
        exact Nat.le_zero.mp (Nat.le_of_succ_le_succ before)
      · exact lost.spent candidate term voter old }

/-- The first ballot of a voter is new to the candidate's count. -/
theorem Sound.card_count (sound : poll.Sound) (held : poll.ballots = ballot ::ₘ rest) :
    ((poll.count ballot rest).counted ballot.candidate ballot.term).card =
      (poll.counted ballot.candidate ballot.term).card + 1 := by
  have new : ballot.voter ∉ poll.counted ballot.candidate ballot.term := by
    intro present
    have none := sound.spent ballot.candidate ballot.term ballot.voter present
    rw [held, Multiset.countP_cons_of_pos rest ⟨rfl, rfl, rfl⟩] at none
    exact Nat.succ_ne_zero _ none
  simp only [Poll.count, and_self, if_true]
  exact Finset.card_insert_of_notMem new

/-- A candidate whose own vote and counted votes make a quorum is supported by a
majority. -/
theorem Sound.majority [Fintype Member] (sound : poll.Sound) (own : poll.ledger candidate term = some candidate)
    (quorum : Fintype.card Member / 2 + 1 ≤ (poll.counted candidate term).card + 1) :
    Majority (poll.ledger.supporters term candidate) := by
  have counted : insert candidate (poll.counted candidate term) ⊆ poll.ledger.supporters term candidate := by
    intro voter present
    rw [Ledger.mem_supporters]
    rcases Finset.mem_insert.mp present with rfl | present
    · exact own
    · exact sound.supports candidate term voter present
  apply Majority.mono _ counted
  apply Majority.of_quorum
  rwa [Finset.card_insert_of_notMem (sound.others candidate term)]

end Poll

end MiniNetDist.Library
