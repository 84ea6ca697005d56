import Mathlib.Algebra.GroupWithZero.Nat
import Mathlib.Data.Finset.Card
import MiniNetDist.DistProtocol.Paxos
import MiniNetDist.Library.Run
import MiniNetDist.Library.Voting

/-! Agreement of single-decree Paxos. `paxos_accepted` does not raise
`promised_num`, so an acceptor may take a later proposal without a promise and
then overwrite it with an earlier one; its next promise no longer reports the
later one. Runs without such an acceptance agree. -/

namespace MiniNetDist.DistProtocol.Paxos

open Library

variable {n : Nat} {P : Type} {proposers : P → PaxosProposer} {sys : System n P} {p : P} {a : Fin n}

/-- The votes, promises and proposals of a system. -/
def System.voting (proposers : P → PaxosProposer) (sys : System n P) : Voting (Fin n) Int where
  promised := fun a => (sys.acceptors a).promisedNum
  votes := fun a number value => (a, number, value) ∈ sys.accepted
  proposal := fun number value => ∃ p, (proposers p).proposalNum = number ∧ sys.picked p = some value

/-- What a proposer's counters stand for: the members that answered it, none of
which has accepted anything below its number and above the highest report. -/
structure Gathered (proposers : P → PaxosProposer) (sys : System n P) (p : P) (members : Finset (Fin n)) :
    Prop where
  count : (sys.prepared p).promiseCount = members.card
  promised : ∀ a ∈ members, (proposers p).proposalNum ≤ (sys.acceptors a).promisedNum
  reported : ∀ a ∈ members, ∀ number < (proposers p).proposalNum, ∀ value,
    (a, number, value) ∈ sys.accepted → number ≤ (sys.prepared p).highestAcceptedNum
  highest : 0 < (sys.prepared p).highestAcceptedNum →
    (sys.voting proposers).proposal (sys.prepared p).highestAcceptedNum (sys.prepared p).highestAcceptedValue

structure Sound (proposers : P → PaxosProposer) (sys : System n P) : Prop where
  voting : (sys.voting proposers).Sound
  latest : ∀ a number value, (a, number, value) ∈ sys.accepted →
    (sys.acceptors a).hasAccepted = true ∧ number ≤ (sys.acceptors a).acceptedNum
  proposed : ∀ a, (sys.acceptors a).hasAccepted = true →
    (sys.voting proposers).proposal (sys.acceptors a).acceptedNum (sys.acceptors a).acceptedValue
  gathered : ∀ p, sys.picked p = none → ∃ members, Gathered proposers sys p members

/-- An acceptance does not replace a proposal of a higher number. -/
def KeepsAccepted (proposers : P → PaxosProposer) (sys : System n P) : PaxosCall n P → Prop
  | .accept p a => (sys.picked p).isSome → (sys.acceptors a).promisedNum ≤ (proposers p).proposalNum →
      (sys.acceptors a).acceptedNum ≤ (proposers p).proposalNum
  | _ => True

instance (sys : System n P) : (call : PaxosCall n P) → Decidable (KeepsAccepted proposers sys call)
  | .accept _ _ => inferInstanceAs (Decidable (_ → _ → _))
  | .promise _ _ _ => .isTrue trivial
  | .pick _ => .isTrue trivial

theorem collect_highest_le (prepared : Prepared) (promise : PaxosPromise) :
    prepared.highestAcceptedNum ≤ (prepared.collect (some promise)).highestAcceptedNum := by
  simp only [Prepared.collect]
  split_ifs with higher
  · exact higher.2.le
  · exact le_rfl

theorem collect_reports (prepared : Prepared) (promise : PaxosPromise) (has : promise.hasPrev = true) :
    promise.prevAcceptedNum ≤ (prepared.collect (some promise)).highestAcceptedNum := by
  simp only [Prepared.collect]
  split_ifs with higher
  · exact le_rfl
  · exact not_lt.mp (fun less => higher ⟨has, less⟩)

theorem collect_count (prepared : Prepared) (promise : PaxosPromise) :
    (prepared.collect (some promise)).promiseCount = prepared.promiseCount + 1 := by
  simp only [Prepared.collect]
  split_ifs <;> rfl

/-- The highest report is the one before or the new one. -/
theorem collect_highest_cases (prepared : Prepared) (promise : PaxosPromise) :
    ((prepared.collect (some promise)).highestAcceptedNum = prepared.highestAcceptedNum ∧
      (prepared.collect (some promise)).highestAcceptedValue = prepared.highestAcceptedValue) ∨
    (promise.hasPrev = true ∧
      (prepared.collect (some promise)).highestAcceptedNum = promise.prevAcceptedNum ∧
      (prepared.collect (some promise)).highestAcceptedValue = promise.prevAcceptedValue) := by
  simp only [Prepared.collect]
  split_ifs with higher
  · exact .inr ⟨higher.1, rfl, rfl⟩
  · exact .inl ⟨rfl, rfl⟩

/-- The system after a granted promise. -/
def System.promise (sys : System n P) (a : Fin n) (number : Nat) : System n P :=
  { sys with acceptors := Function.update sys.acceptors a { sys.acceptors a with promisedNum := number } }

theorem promisedNum_le_promise {number : Nat} (later : (sys.acceptors a).promisedNum < number) (b : Fin n) :
    (sys.acceptors b).promisedNum ≤ ((sys.promise a number).acceptors b).promisedNum := by
  by_cases same : b = a
  · subst same
    simpa [System.promise] using later.le
  · simp [System.promise, Function.update_of_ne same]

theorem Sound.promise (sound : Sound proposers sys) {number : Nat}
    (later : (sys.acceptors a).promisedNum < number) : Sound proposers (sys.promise a number) := by
  have kept : ∀ b, ((sys.promise a number).acceptors b).hasAccepted = (sys.acceptors b).hasAccepted ∧
      ((sys.promise a number).acceptors b).acceptedNum = (sys.acceptors b).acceptedNum ∧
      ((sys.promise a number).acceptors b).acceptedValue = (sys.acceptors b).acceptedValue := by
    intro b
    by_cases same : b = a
    · subst same
      simp [System.promise]
    · simp [System.promise, Function.update_of_ne same]
  constructor
  · have step := Voting.Step.promise (sys.voting proposers) a number later.le
    have abstracted : (sys.promise a number).voting proposers = { sys.voting proposers with
        promised := Function.update (sys.voting proposers).promised a number } := by
      simp only [System.voting, System.promise]
      congr 1
      funext b
      by_cases same : b = a
      · subst same; simp
      · simp [Function.update_of_ne same]
    rw [abstracted]
    exact sound.voting.step step
  · intro b k value present
    obtain ⟨has, num, -⟩ := kept b
    rw [has, num]
    exact sound.latest b k value present
  · intro b
    obtain ⟨has, num, value⟩ := kept b
    rw [has, num, value]
    exact sound.proposed b
  · intro p asking
    obtain ⟨members, gathered⟩ := sound.gathered p asking
    refine ⟨members, gathered.count, ?_, gathered.reported, gathered.highest⟩
    exact fun b present => (gathered.promised b present).trans (promisedNum_le_promise later b)

/-- The gathered members show that the picked value is safe. -/
theorem Gathered.shows {members : Finset (Fin n)} (gathered : Gathered proposers sys p members)
    (positive : ∀ p, 0 < (proposers p).proposalNum) (sound : Sound proposers sys)
    (enough : (sys.prepared p).promiseCount > n / 2) :
    (sys.voting proposers).Shows (proposers p).proposalNum ((sys.prepared p).value (proposers p)) := by
  refine ⟨members, ?_, gathered.promised, ?_⟩
  · apply Majority.of_quorum
    rw [Fintype.card_fin, ← gathered.count]
    exact enough
  · unfold Prepared.value
    split_ifs with found
    · exact .inr ⟨_, gathered.highest found, gathered.reported⟩
    · left
      intro a present number below value accepted
      have none := gathered.reported a present number below value accepted
      obtain ⟨q, num, -⟩ := sound.voting.voted a number value accepted
      have some := positive q
      omega

/-- The system after an acceptor has taken a proposal. -/
def System.accept (sys : System n P) (a : Fin n) (number : Nat) (value : Int) : System n P :=
  { sys with
    acceptors := Function.update sys.acceptors a
      { sys.acceptors a with acceptedNum := number, acceptedValue := value, hasAccepted := true }
    accepted := (a, number, value) :: sys.accepted }

theorem accept_promisedNum (sys : System n P) (number : Nat) (value : Int) (b : Fin n) :
    ((sys.accept a number value).acceptors b).promisedNum = (sys.acceptors b).promisedNum := by
  by_cases same : b = a
  · subst same; simp [System.accept]
  · simp [System.accept, Function.update_of_ne same]

theorem accept_voting (sys : System n P) (number : Nat) (value : Int) :
    (sys.accept a number value).voting proposers =
      { sys.voting proposers with votes := fun b k other =>
          b = a ∧ k = number ∧ other = value ∨ (sys.voting proposers).votes b k other } := by
  simp only [System.voting, accept_promisedNum]
  simp only [System.accept, List.mem_cons, Prod.mk.injEq]

/-- An acceptance that does not replace a higher proposal. -/
theorem Sound.accept (sound : Sound proposers sys) {value : Int} (picked : sys.picked p = some value)
    (free : (sys.acceptors a).promisedNum ≤ (proposers p).proposalNum)
    (keeps : (sys.acceptors a).acceptedNum ≤ (proposers p).proposalNum) :
    Sound proposers (sys.accept a (proposers p).proposalNum value) := by
  have proposed : (sys.voting proposers).proposal (proposers p).proposalNum value := ⟨p, rfl, picked⟩
  have self : (sys.accept a (proposers p).proposalNum value).acceptors a = { sys.acceptors a with
      acceptedNum := (proposers p).proposalNum, acceptedValue := value, hasAccepted := true } :=
    Function.update_self ..
  have others (b : Fin n) (different : b ≠ a) :
      (sys.accept a (proposers p).proposalNum value).acceptors b = sys.acceptors b :=
    Function.update_of_ne different ..
  constructor
  · rw [accept_voting]
    exact sound.voting.step (.vote _ a _ value proposed free)
  · intro b number chosen accepted
    by_cases same : b = a
    · subst same
      rw [self]
      refine ⟨rfl, ?_⟩
      rcases List.mem_cons.mp accepted with new | old
      · rw [Prod.mk.injEq, Prod.mk.injEq] at new
        exact new.2.1.le
      · exact (sound.latest b number chosen old).2.trans keeps
    · rw [others b same]
      rcases List.mem_cons.mp accepted with new | old
      · rw [Prod.mk.injEq] at new
        exact absurd new.1 same
      · exact sound.latest b number chosen old
  · intro b has
    by_cases same : b = a
    · subst same
      rw [self]
      exact proposed
    · rw [others b same] at has ⊢
      exact sound.proposed b has
  · intro q asking
    obtain ⟨members, gathered⟩ := sound.gathered q asking
    refine ⟨members, gathered.count, ?_, ?_, gathered.highest⟩
    · intro b present
      rw [accept_promisedNum]
      exact gathered.promised b present
    · intro b present number below chosen accepted
      rcases List.mem_cons.mp accepted with new | old
      · -- A member that promised a higher number would have refused.
        rw [Prod.mk.injEq, Prod.mk.injEq] at new
        obtain ⟨rfl, rfl, -⟩ := new
        have bound := gathered.promised b present
        omega
      · exact gathered.reported b present number below chosen old

theorem paxosInit_sound (proposers : P → PaxosProposer) : Sound proposers (paxosInit n P) := by
  constructor
  · constructor
    · intro a number value voted; cases voted
    · rintro number value other ⟨p, -, picked⟩; cases picked
    · rintro number value ⟨p, -, picked⟩; cases picked
  · intro a number value accepted; cases accepted
  · intro a has; cases has
  · intro p _
    refine ⟨∅, rfl, ?_, ?_, ?_⟩
    · intro a present; cases present
    · intro a present; cases present
    · intro found; cases found

/-- More than half of the acceptors have accepted the value under the number, each
at some time. -/
def Accepted (sys : System n P) (number : Nat) (value : Int) : Prop :=
  n / 2 < (Finset.univ.filter fun a => (a, number, value) ∈ sys.accepted).card

theorem Accepted.chosen {number : Nat} {value : Int} (accepted : Accepted sys number value) :
    (sys.voting proposers).Chosen number value := by
  refine ⟨Finset.univ.filter fun a => (a, number, value) ∈ sys.accepted, ?_,
    fun a present => (Finset.mem_filter.mp present).2⟩
  apply Majority.of_quorum
  rw [Fintype.card_fin]
  exact accepted

variable [DecidableEq P]

/-- The system after a proposer has heard an answer. -/
def System.hear (sys : System n P) (p : P) (promise : PaxosPromise) : System n P :=
  { sys with prepared := Function.update sys.prepared p ((sys.prepared p).collect (some promise)) }

/-- A granted promise whose answer arrives adds its acceptor to those gathered. -/
theorem Sound.hear (sound : Sound proposers sys) (asking : sys.picked p = none)
    (later : (sys.acceptors a).promisedNum < (proposers p).proposalNum) :
    Sound proposers ((sys.promise a (proposers p).proposalNum).hear p
      ⟨(sys.acceptors a).acceptedNum, (sys.acceptors a).acceptedValue, (sys.acceptors a).hasAccepted⟩) := by
  have granted := sound.promise later
  refine ⟨granted.voting, granted.latest, granted.proposed, ?_⟩
  generalize answered : (⟨(sys.acceptors a).acceptedNum, (sys.acceptors a).acceptedValue,
    (sys.acceptors a).hasAccepted⟩ : PaxosPromise) = answer
  intro q unpicked
  by_cases same : q = p
  · subst same
    obtain ⟨members, gathered⟩ := sound.gathered q asking
    have new : a ∉ members := fun present => absurd (gathered.promised a present) (not_le.mpr later)
    have collected : ((sys.promise a (proposers q).proposalNum).hear q answer).prepared q =
        (sys.prepared q).collect (some answer) := Function.update_self ..
    refine ⟨insert a members, ?_, ?_, ?_, ?_⟩
    · rw [Finset.card_insert_of_notMem new, collected, collect_count, gathered.count]
    · intro b present
      rcases Finset.mem_insert.mp present with rfl | old
      · simp [System.hear, System.promise]
      · exact (gathered.promised b old).trans (promisedNum_le_promise later b)
    · intro b present number below value accepted
      rw [collected]
      rcases Finset.mem_insert.mp present with rfl | old
      · obtain ⟨has, bound⟩ := sound.latest b number value accepted
        subst answered
        exact bound.trans (collect_reports (sys.prepared q) ⟨(sys.acceptors b).acceptedNum,
          (sys.acceptors b).acceptedValue, (sys.acceptors b).hasAccepted⟩ has)
      · exact (gathered.reported b old number below value accepted).trans (collect_highest_le _ _)
    · rw [collected]
      rcases collect_highest_cases (sys.prepared q) answer with ⟨num, value⟩ | ⟨has, num, value⟩
      · rw [num, value]
        exact gathered.highest
      · rw [num, value]
        subst answered
        exact fun _ => sound.proposed a has
  · obtain ⟨members, gathered⟩ := granted.gathered q unpicked
    have untouched : ((sys.promise a (proposers p).proposalNum).hear p answer).prepared q =
        (sys.promise a (proposers p).proposalNum).prepared q := Function.update_of_ne same ..
    refine ⟨members, ?_, gathered.promised, ?_, ?_⟩
    · rw [untouched]; exact gathered.count
    · rw [untouched]; exact gathered.reported
    · rw [untouched]; exact gathered.highest

/-- The system after a proposer has picked its value. -/
def System.pick (sys : System n P) (p : P) (value : Int) : System n P :=
  { sys with picked := Function.update sys.picked p (some value) }

theorem pick_voting (asking : sys.picked p = none) (value : Int) :
    (sys.pick p value).voting proposers =
      { sys.voting proposers with proposal := fun number other =>
          number = (proposers p).proposalNum ∧ other = value ∨ (sys.voting proposers).proposal number other } := by
  simp only [System.voting, System.pick]
  congr 1
  funext number other
  apply propext
  constructor
  · rintro ⟨q, num, picked⟩
    by_cases same : q = p
    · subst same
      rw [Function.update_self] at picked
      exact .inl ⟨num.symm, (Option.some.inj picked).symm⟩
    · rw [Function.update_of_ne same] at picked
      exact .inr ⟨q, num, picked⟩
  · rintro (⟨rfl, rfl⟩ | ⟨q, num, picked⟩)
    · exact ⟨p, rfl, Function.update_self ..⟩
    · refine ⟨q, num, ?_⟩
      have different : q ≠ p := by
        rintro rfl
        rw [asking] at picked
        cases picked
      rw [Function.update_of_ne different]
      exact picked

theorem Sound.pick (sound : Sound proposers sys) (positive : ∀ p, 0 < (proposers p).proposalNum)
    (distinct : Function.Injective fun p => (proposers p).proposalNum) (asking : sys.picked p = none)
    (enough : (sys.prepared p).promiseCount > n / 2) :
    Sound proposers (sys.pick p ((sys.prepared p).value (proposers p))) := by
  obtain ⟨members, gathered⟩ := sound.gathered p asking
  have shown := gathered.shows positive sound enough
  generalize (sys.prepared p).value (proposers p) = value at shown
  have unused : ∀ other, ¬ (sys.voting proposers).proposal (proposers p).proposalNum other := by
    rintro other ⟨q, same, picked⟩
    rw [distinct same, asking] at picked
    cases picked
  have stillProposed : ∀ number other, (sys.voting proposers).proposal number other →
      ((sys.pick p value).voting proposers).proposal number other := by
    intro number other proposed
    rw [pick_voting asking]
    exact .inr proposed
  refine ⟨?_, sound.latest, ?_, ?_⟩
  · rw [pick_voting asking]
    exact sound.voting.step (.propose _ _ _ unused shown)
  · exact fun a has => stillProposed _ _ (sound.proposed a has)
  · intro q unpicked
    have different : q ≠ p := by
      rintro rfl
      simp [System.pick] at unpicked
    have before : sys.picked q = none := by
      simpa [System.pick, Function.update_of_ne different] using unpicked
    obtain ⟨members, gathered⟩ := sound.gathered q before
    exact ⟨members, gathered.count, gathered.promised, gathered.reported,
      fun found => stillProposed _ _ (gathered.highest found)⟩

theorem paxosStep_sound (positive : ∀ p, 0 < (proposers p).proposalNum)
    (distinct : Function.Injective fun p => (proposers p).proposalNum) (sound : Sound proposers sys)
    (call : PaxosCall n P) (keeps : KeepsAccepted proposers sys call) :
    Sound proposers (paxosStep proposers sys call) := by
  cases call with
  | promise p a heard =>
    simp only [paxosStep, paxosPromise]
    split_ifs with picked refused answered answered
    · exact sound
    · simpa [Prepared.collect] using sound
    · simpa using sound
    · rw [Option.not_isSome_iff_eq_none] at picked
      exact sound.hear picked (not_le.mp refused)
    · exact sound.promise (not_le.mp refused)
  | pick p =>
    simp only [paxosStep]
    split_ifs with ready
    · exact sound.pick positive distinct (Option.isNone_iff_eq_none.mp ready.1) ready.2
    · exact sound
  | accept p a =>
    simp only [paxosStep, paxosAccepted]
    split
    · exact sound
    · rename_i value picked
      by_cases refused : (proposers p).proposalNum < (sys.acceptors a).promisedNum
      · simpa [refused] using sound
      · have free := not_lt.mp refused
        have kept : (sys.acceptors a).acceptedNum ≤ (proposers p).proposalNum :=
          keeps (by rw [picked]; rfl) free
        simpa [refused, System.accept] using sound.accept picked free kept

/-- Agreement of every run that never replaces an accepted proposal by a lower one. -/
theorem agreement_of_keepsAccepted (n : Nat) (proposers : P → PaxosProposer)
    (positive : ∀ p, 0 < (proposers p).proposalNum)
    (distinct : Function.Injective fun p => (proposers p).proposalNum) (sys : System n P)
    (reached : Reaches (paxosStep proposers) (KeepsAccepted proposers) (paxosInit n P) sys)
    (number other : Nat) (v w : Int) (one : Accepted sys number v) (two : Accepted sys other w) : v = w := by
  have sound := reached.invariant (motive := Sound proposers) (paxosInit_sound proposers)
    (fun _ call sound keeps => paxosStep_sound positive distinct sound call keeps)
  exact sound.voting.agree one.chosen two.chosen

local instance three_neZero : NeZero 3 := ⟨Nat.succ_ne_zero 2⟩

/-- Three proposers with numbers 1, 2, 3 and values 10, 20, 30. -/
def threeProposers (p : Fin 3) : PaxosProposer := ⟨p + 1, 10 * (p + 1)⟩

/-- The second proposer finds the first one's value. -/
def adopting : System 3 (Fin 3) :=
  [.promise 0 0 true, .promise 0 1 true, .pick 0, .accept 0 0, .accept 0 1,
    .promise 1 1 true, .promise 1 2 true, .pick 1, .accept 1 1, .accept 1 2].foldl
      (paxosStep threeProposers) (paxosInit 3 (Fin 3))

theorem agreement_adopting :
    Accepted adopting 1 10 ∧ Accepted adopting 2 ((adopting.prepared 1).value (threeProposers 1)) ∧
      10 = (adopting.prepared 1).value (threeProposers 1) := by
  have one : Accepted adopting 1 10 := by unfold Accepted; decide +kernel
  have two : Accepted adopting 2 ((adopting.prepared 1).value (threeProposers 1)) := by
    unfold Accepted; decide +kernel
  exact ⟨one, two, agreement_of_keepsAccepted 3 threeProposers (by decide) (by decide) adopting
    (.ofCalls _ (by decide +kernel)) 1 2 _ _ one two⟩

/-- Acceptors 0 and 2 accept 20 under number 2, which acceptor 0 never promised. It then takes the
older proposal 1, so the third proposer hears of 10 only and gets it accepted. -/
def overwritten : System 3 (Fin 3) :=
  [.promise 0 0 true, .promise 0 1 true, .pick 0, .promise 1 1 true, .promise 1 2 true, .pick 1,
    .accept 1 0, .accept 1 2, .accept 0 0, .promise 2 0 true, .promise 2 1 true, .pick 2,
    .accept 2 0, .accept 2 1].foldl (paxosStep threeProposers) (paxosInit 3 (Fin 3))

theorem overwritten_disagrees : ¬ ∀ sys : System 3 (Fin 3),
    Reaches (paxosStep threeProposers) Always (paxosInit 3 (Fin 3)) sys →
      ∀ number other v w, Accepted sys number v → Accepted sys other w → v = w := by
  intro agree
  have first : Accepted overwritten 2 20 := by unfold Accepted; decide +kernel
  have second : Accepted overwritten 3 10 := by unfold Accepted; decide +kernel
  have same := agree overwritten (.ofFold _) 2 3 20 10 first second
  cases same

end MiniNetDist.DistProtocol.Paxos
