import MiniNetDist.Transaction.TwoPC

/-! When the decisions of the two protocols are atomic and final. A call either leaves the
participants alone, changes one of them, or sets the state of all of them at once. -/

namespace MiniNetDist.Transaction.TwoPC

open Library

variable {Phase : Type} {decided : Bool} {before after participants : List TPCParticipant} {p : TPCParticipant}

/-- What one call must not break: committed and aborted participants do not meet, a vote
against is not committed, and after a first commit nobody is newly aborted. -/
structure DecisionKept (decided : Bool) (before after : List TPCParticipant) : Prop where
  agree : ∀ p ∈ after, p.state = .committed → ∀ q ∈ after, q.state ≠ .aborted
  refused : ∀ p ∈ after, p.vote = .no → p.state ≠ .committed
  final : decided = true → ∀ (i : Nat) (p q : TPCParticipant), before[i]? = some p → after[i]? = some q →
    q.state = .aborted → p.state = .aborted

def TPCAtomic (protocol : Protocol TPCPhase) (call : TPCCall) : Prop :=
  DecisionKept protocol.decided protocol.coordinator.participants (tpcStep protocol call).coordinator.participants

def ThreePCAtomic (protocol : Protocol ThreePCPhase) (call : ThreePCCall) : Prop :=
  DecisionKept protocol.decided protocol.coordinator.participants (threepcStep protocol call).coordinator.participants

/-- After a first commit, everyone is aborted by now. -/
def NothingToUndo (protocol : Protocol Phase) : Prop :=
  protocol.decided = true → ∀ p ∈ protocol.coordinator.participants, p.state = .aborted

/-- A participant that voted against joins only while nobody is committed. -/
def JoinsUndecided (protocol : Protocol Phase) (candidate : Candidate) : Prop :=
  candidate.vote = some false → protocol.coordinator.participants.length < TPC_MAX_PARTICIPANTS →
    ∀ p ∈ protocol.coordinator.participants, p.state ≠ .committed

/-- After a first commit, only a participant that is aborted anyway votes against. -/
def VotesUndecided (protocol : Protocol Phase) (i : Nat) (canCommit : Bool) : Prop :=
  canCommit = false → protocol.decided = true →
    ∀ p ∈ protocol.coordinator.participants[i]?, p.state = .aborted

def TPCOrderly (protocol : Protocol TPCPhase) : TPCCall → Prop
  | .add candidate => JoinsUndecided protocol candidate
  | .vote i canCommit => VotesUndecided protocol i canCommit
  | .prepare => True
  | .commit =>
    protocol.coordinator.phase = .prepare →
      (protocol.coordinator.timedOut = true ∨ ∃ p ∈ protocol.coordinator.participants, p.vote ≠ .yes) →
        NothingToUndo protocol
  | .abort => NothingToUndo protocol
  | .timeout => NothingToUndo protocol

def ThreePCOrderly (protocol : Protocol ThreePCPhase) : ThreePCCall → Prop
  | .add candidate => JoinsUndecided protocol candidate
  | .vote i canCommit => VotesUndecided protocol i canCommit
  | .prepare => (∃ p ∈ protocol.coordinator.participants, p.vote = .no) → NothingToUndo protocol
  | .precommit =>
    protocol.coordinator.phase = .prepare → (∃ p ∈ protocol.coordinator.participants, p.vote ≠ .yes) →
      NothingToUndo protocol
  | .commit => protocol.coordinator.phase = .precommit → ∀ p ∈ protocol.coordinator.participants, p.vote ≠ .no
  | .abort => NothingToUndo protocol

/-- What every state of an atomic run satisfies. -/
structure Consistent (decided : Bool) (participants : List TPCParticipant) : Prop where
  agree : ∀ p ∈ participants, p.state = .committed → ∀ q ∈ participants, q.state ≠ .aborted
  refused : ∀ p ∈ participants, p.vote = .no → p.state ≠ .committed
  witnessed : ∀ p ∈ participants, p.state = .committed → decided = true

theorem Consistent.nil : Consistent decided [] :=
  ⟨fun _ owned => absurd owned List.not_mem_nil, fun _ owned => absurd owned List.not_mem_nil,
    fun _ owned => absurd owned List.not_mem_nil⟩

/-- A kept decision leads to a consistent state, whatever the call was. -/
theorem DecisionKept.consistent {protocol : Protocol Phase} {next : Coordinator Phase}
    (kept : DecisionKept protocol.decided protocol.coordinator.participants next.participants) :
    Consistent (protocol.enter next).decided (protocol.enter next).coordinator.participants := by
  refine ⟨kept.agree, kept.refused, ?_⟩
  intro p owned committed
  unfold Protocol.enter
  rw [Bool.or_eq_true, List.any_eq_true]
  exact .inr ⟨p, owned, decide_eq_true committed⟩

theorem Consistent.unchanged (consistent : Consistent decided participants) :
    DecisionKept decided participants participants := by
  refine ⟨consistent.agree, consistent.refused, ?_⟩
  intro _ i p q here there aborted
  rw [here] at there
  cases there
  exact aborted

/-- A call that aborts everyone is harmless only where everyone is aborted already. -/
theorem decisionKept_aborting (same : after.length = before.length) (aborting : ∀ q ∈ after, q.state = .aborted) :
    DecisionKept decided before after ↔ (decided = true → ∀ p ∈ before, p.state = .aborted) := by
  constructor
  · intro kept past p owned
    obtain ⟨i, inside, rfl⟩ := List.getElem_of_mem owned
    have there : after[i]? = some (after[i]) := List.getElem?_eq_getElem (same ▸ inside)
    exact kept.final past i _ _ (List.getElem?_eq_getElem inside) there (aborting _ (List.getElem_mem _))
  · intro undone
    refine ⟨?_, ?_, ?_⟩
    · intro q owned committed
      cases (aborting q owned).symm.trans committed
    · intro q owned _ committed
      cases (aborting q owned).symm.trans committed
    · intro past i p q here _ _
      exact undone past p (List.mem_of_getElem? here)

/-- A call that leaves nobody aborted can only go wrong by committing a vote against. -/
theorem decisionKept_alive (alive : ∀ q ∈ after, q.state ≠ .aborted) :
    DecisionKept decided before after ↔ ∀ q ∈ after, q.vote = .no → q.state ≠ .committed := by
  constructor
  · intro kept
    exact kept.refused
  · intro refused
    refine ⟨fun _ _ _ => alive, refused, ?_⟩
    intro _ i p q _ there aborted
    exact absurd aborted (alive q (List.mem_of_getElem? there))

theorem Candidate.aborted_iff (candidate : Candidate) :
    candidate.participant.state = .aborted ↔ candidate.vote = some false := by
  obtain ⟨id, name, vote⟩ := candidate
  rcases vote with _ | _ | _ <;> simp [Candidate.participant, tpcParticipantVote, tpcParticipantInit]

theorem Candidate.not_committed (candidate : Candidate) : candidate.participant.state ≠ .committed := by
  obtain ⟨id, name, vote⟩ := candidate
  rcases vote with _ | _ | _ <;> simp [Candidate.participant, tpcParticipantVote, tpcParticipantInit]

theorem Candidate.refuses {candidate : Candidate} (against : candidate.participant.vote = .no) :
    candidate.participant.state = .aborted := by
  obtain ⟨id, name, vote⟩ := candidate
  rcases vote with _ | _ | _
  · cases against
  · rfl
  · cases against

theorem decisionKept_add {protocol : Protocol Phase} (candidate : Candidate)
    (consistent : Consistent protocol.decided protocol.coordinator.participants) :
    DecisionKept protocol.decided protocol.coordinator.participants
      (addParticipant protocol.coordinator candidate.participant).participants ↔
        JoinsUndecided protocol candidate := by
  unfold JoinsUndecided addParticipant
  by_cases full : protocol.coordinator.participants.length ≥ TPC_MAX_PARTICIPANTS
  · rw [if_pos full]
    refine iff_of_true consistent.unchanged ?_
    intro _ space
    omega
  · rw [if_neg full]
    constructor
    · intro kept against _ p owned committed
      refine kept.agree p (List.mem_append_left _ owned) committed _
        (List.mem_append_right _ (List.mem_singleton_self _)) ?_
      exact candidate.aborted_iff.mpr against
    · intro joins
      have alone : ∀ p ∈ protocol.coordinator.participants, p.state = .committed →
          candidate.participant.state ≠ .aborted := by
        intro p owned committed aborted
        exact joins (candidate.aborted_iff.mp aborted) (Nat.not_le.mp full) p owned committed
      refine ⟨?_, ?_, ?_⟩
      · intro p owned committed q other
        rcases List.mem_append.mp owned with old | new
        · rcases List.mem_append.mp other with old' | new'
          · exact consistent.agree p old committed q old'
          · rw [List.mem_singleton.mp new']
            exact alone p old committed
        · rw [List.mem_singleton.mp new] at committed
          exact absurd committed candidate.not_committed
      · intro p owned against
        rcases List.mem_append.mp owned with old | new
        · exact consistent.refused p old against
        · rw [List.mem_singleton.mp new]
          exact candidate.not_committed
      · intro _ i p q here there aborted
        rw [List.getElem?_append_left (List.getElem?_eq_some_iff.mp here).1, here] at there
        cases there
        exact aborted

theorem voteStored_here {c : Coordinator Phase} {i : Nat} {canCommit : Bool} (here : c.participants[i]? = some p) :
    (voteStored c i canCommit).participants[i]? = some (tpcParticipantVote p canCommit).1 := by
  simp [voteStored, here]

theorem voteStored_elsewhere {c : Coordinator Phase} {i j : Nat} {canCommit : Bool} (other : i ≠ j) :
    (voteStored c i canCommit).participants[j]? = c.participants[j]? := by
  simp [voteStored, other]

theorem mem_voteStored {c : Coordinator Phase} {i : Nat} {canCommit : Bool} {q : TPCParticipant}
    (owned : q ∈ (voteStored c i canCommit).participants) :
    q ∈ c.participants ∨ ∃ p ∈ c.participants[i]?, q = (tpcParticipantVote p canCommit).1 := by
  obtain ⟨j, located⟩ := List.getElem?_of_mem owned
  by_cases same : i = j
  · subst same
    cases here : c.participants[i]? with
    | none => simp [voteStored, here] at located
    | some p =>
      rw [voteStored_here here] at located
      cases located
      exact .inr ⟨p, rfl, rfl⟩
  · rw [voteStored_elsewhere same] at located
    exact .inl (List.mem_of_getElem? located)

theorem decisionKept_vote {protocol : Protocol Phase} (i : Nat) (canCommit : Bool)
    (consistent : Consistent protocol.decided protocol.coordinator.participants) :
    DecisionKept protocol.decided protocol.coordinator.participants
      (voteStored protocol.coordinator i canCommit).participants ↔ VotesUndecided protocol i canCommit := by
  constructor
  · rintro kept rfl past p here
    exact kept.final past i p _ here (voteStored_here here) rfl
  · intro orderly
    -- the new vote is only against where the participant was aborted, if anyone was ever committed
    have voted : ∀ p ∈ protocol.coordinator.participants[i]?, protocol.decided = true →
        (tpcParticipantVote p canCommit).1.state = .aborted → p.state = .aborted := by
      intro p here past aborted
      cases canCommit with
      | true => cases aborted
      | false => exact orderly rfl past p here
    have uncommitted : ∀ p, (tpcParticipantVote p canCommit).1.state ≠ .committed := by
      intro p
      cases canCommit <;> simp [tpcParticipantVote]
    refine ⟨?_, ?_, ?_⟩
    · intro q owned committed r other aborted
      rcases mem_voteStored owned with old | ⟨p, -, rfl⟩
      · have past := consistent.witnessed q old committed
        rcases mem_voteStored other with old' | ⟨p, here, rfl⟩
        · exact consistent.agree q old committed r old' aborted
        · exact consistent.agree q old committed p (List.mem_of_getElem? here) (voted p here past aborted)
      · exact uncommitted p committed
    · intro q owned against
      rcases mem_voteStored owned with old | ⟨p, -, rfl⟩
      · exact consistent.refused q old against
      · exact uncommitted p
    · intro past j p q here there aborted
      by_cases same : i = j
      · subst same
        rw [voteStored_here here] at there
        cases there
        exact voted p here past aborted
      · rw [voteStored_elsewhere same, here] at there
        cases there
        exact aborted

theorem decisionKept_enterAborted {protocol : Protocol Phase} {phase : Phase}
    {c : Coordinator Phase} (same : c.participants.length = protocol.coordinator.participants.length) :
    DecisionKept protocol.decided protocol.coordinator.participants (enterAll .aborted phase c).participants ↔
      NothingToUndo protocol := by
  apply decisionKept_aborting
  · rw [enterAll, List.length_map, same]
  · intro q owned
    obtain ⟨p, -, rfl⟩ := List.mem_map.mp owned
    rfl

theorem decisionKept_enterCommitted {phase : Phase} {c : Coordinator Phase} :
    DecisionKept decided before (enterAll .committed phase c).participants ↔
      ∀ p ∈ c.participants, p.vote ≠ .no := by
  rw [decisionKept_alive]
  · constructor
    · intro refused p owned against
      exact refused { p with state := .committed } (List.mem_map.mpr ⟨p, owned, rfl⟩) against rfl
    · intro supported q owned against
      obtain ⟨p, old, rfl⟩ := List.mem_map.mp owned
      exact absurd against (supported p old)
  · intro q owned aborted
    obtain ⟨p, -, rfl⟩ := List.mem_map.mp owned
    cases aborted

/-- In two-phase commit a vote against always shows in the state. -/
def RefusalsAborted (participants : List TPCParticipant) : Prop := ∀ p ∈ participants, p.vote = .no → p.state = .aborted

theorem allYes_iff : participants.countP (·.vote = .yes) = participants.length ↔ ∀ p ∈ participants, p.vote = .yes := by
  rw [List.countP_eq_length]
  simp

/-- A commit in the prepare phase commits everyone or aborts everyone. -/
theorem tpcCoordinatorCommit_cases (c : TPCCoordinator) :
    (c.phase ≠ .prepare ∧ tpcCoordinatorCommit c = (c, false)) ∨
    (c.phase = .prepare ∧ (c.timedOut = true ∨ (∃ p ∈ c.participants, p.vote ≠ .yes) ∨ c.participants = []) ∧
      tpcCoordinatorCommit c = (tpcCoordinatorAbort c, false)) ∨
    (c.phase = .prepare ∧ c.timedOut = false ∧ (∀ p ∈ c.participants, p.vote = .yes) ∧
      tpcCoordinatorCommit c = (enterAll .committed .commit c, true)) := by
  unfold tpcCoordinatorCommit
  by_cases phase : c.phase = .prepare
  · right
    by_cases late : c.timedOut = true
    · exact .inl ⟨phase, .inl late, by simp [phase, late]⟩
    · by_cases yes : ∀ p ∈ c.participants, p.vote = .yes
      · by_cases empty : c.participants = []
        · exact .inl ⟨phase, .inr (.inr empty), by simp [phase, late, empty]⟩
        · right
          refine ⟨phase, Bool.eq_false_iff.mpr late, yes, ?_⟩
          simp [phase, late, allYes_iff.mpr yes, empty]
      · left
        have short := mt allYes_iff.mp yes
        obtain ⟨p, owned, other⟩ : ∃ p ∈ c.participants, p.vote ≠ .yes := by simpa using yes
        exact ⟨phase, .inr (.inl ⟨p, owned, other⟩), by simp [phase, late, short]⟩
  · exact .inl ⟨phase, by simp [phase]⟩

theorem tpcCoordinatorPrepare_participants (c : TPCCoordinator) :
    (tpcCoordinatorPrepare c).1.participants = c.participants ∨
      (tpcCoordinatorPrepare c).1.participants = c.participants.map tpcPrepareParticipant := by
  unfold tpcCoordinatorPrepare
  by_cases late : c.timedOut = true
  · exact .inl (by simp [late])
  · right
    rw [if_neg late]
    dsimp only
    split_ifs <;> rfl

theorem tpcPrepareParticipant_cases (p : TPCParticipant) :
    (p.vote = .no ∧ (tpcPrepareParticipant p).vote = .no ∧ (tpcPrepareParticipant p).state = .aborted) ∨
    (p.vote ≠ .no ∧ (tpcPrepareParticipant p).vote = .yes ∧ (tpcPrepareParticipant p).state = .ready) := by
  unfold tpcPrepareParticipant
  cases vote : p.vote <;> simp

theorem RefusalsAborted.call {c : TPCCoordinator} (refusals : RefusalsAborted c.participants) (call : TPCCall) :
    RefusalsAborted (TPCCoordinator.call c call).participants := by
  have aborting : ∀ c : TPCCoordinator, RefusalsAborted (tpcCoordinatorAbort c).participants := by
    intro c q owned _
    obtain ⟨p, -, rfl⟩ := List.mem_map.mp owned
    rfl
  cases call with
  | add candidate =>
    intro p owned against
    dsimp only [TPCCoordinator.call, tpcCoordinatorAddParticipant, addParticipant] at owned
    split_ifs at owned
    · exact refusals p owned against
    · rcases List.mem_append.mp owned with old | new
      · exact refusals p old against
      · rw [List.mem_singleton.mp new] at against ⊢
        exact candidate.refuses against
  | vote i canCommit =>
    intro q owned against
    rcases mem_voteStored owned with old | ⟨p, -, rfl⟩
    · exact refusals q old against
    · cases canCommit with
      | true => cases against
      | false => rfl
  | prepare =>
    intro q owned against
    dsimp only [TPCCoordinator.call] at owned
    rcases tpcCoordinatorPrepare_participants c with same | mapped
    · rw [same] at owned
      exact refusals q owned against
    · rw [mapped] at owned
      obtain ⟨p, -, rfl⟩ := List.mem_map.mp owned
      rcases tpcPrepareParticipant_cases p with ⟨-, -, aborted⟩ | ⟨-, yes, -⟩
      · exact aborted
      · rw [yes] at against
        cases against
  | commit =>
    dsimp only [TPCCoordinator.call]
    rcases tpcCoordinatorCommit_cases c with ⟨-, unchanged⟩ | ⟨-, -, aborts⟩ | ⟨-, -, yes, commits⟩
    · rw [unchanged]
      exact refusals
    · rw [aborts]
      exact aborting c
    · rw [commits]
      intro q owned against
      obtain ⟨p, old, rfl⟩ := List.mem_map.mp owned
      cases (yes p old).symm.trans against
  | abort => exact aborting c
  | timeout => exact aborting _

/-- Preparing again aborts nobody anew and leaves nobody committed. -/
theorem decisionKept_prepared (refusals : RefusalsAborted participants) :
    DecisionKept decided participants (participants.map tpcPrepareParticipant) := by
  have uncommitted : ∀ q ∈ participants.map tpcPrepareParticipant, q.state ≠ .committed := by
    intro q owned committed
    obtain ⟨p, -, rfl⟩ := List.mem_map.mp owned
    rcases tpcPrepareParticipant_cases p with ⟨-, -, aborted⟩ | ⟨-, -, ready⟩
    · cases aborted.symm.trans committed
    · cases ready.symm.trans committed
  refine ⟨fun q owned committed => absurd committed (uncommitted q owned), fun q owned _ => uncommitted q owned, ?_⟩
  intro _ i p q here there aborted
  rw [List.getElem?_map, here] at there
  cases there
  rcases tpcPrepareParticipant_cases p with ⟨against, -, -⟩ | ⟨-, -, ready⟩
  · exact refusals p (List.mem_of_getElem? here) against
  · cases ready.symm.trans aborted

theorem tpcAtomic_commit_iff {protocol : Protocol TPCPhase}
    (consistent : Consistent protocol.decided protocol.coordinator.participants) :
    TPCAtomic protocol .commit ↔ TPCOrderly protocol .commit := by
  dsimp only [TPCAtomic, tpcStep, Protocol.enter, TPCCoordinator.call, TPCOrderly]
  rcases tpcCoordinatorCommit_cases protocol.coordinator with ⟨other, unchanged⟩ | ⟨here, reason, aborts⟩ |
    ⟨-, intime, yes, commits⟩
  · rw [unchanged]
    exact iff_of_true consistent.unchanged fun here => absurd here other
  · rw [aborts]
    refine (decisionKept_enterAborted rfl).trans ⟨fun undone _ _ => undone, fun orderly => ?_⟩
    rcases reason with late | refused | empty
    · exact orderly here (.inl late)
    · exact orderly here (.inr refused)
    · intro _ p owned
      rw [empty] at owned
      cases owned
  · rw [commits, decisionKept_enterCommitted]
    refine iff_of_true ?_ ?_
    · intro p owned against
      cases (yes p owned).symm.trans against
    · rintro - (late | ⟨p, owned, refused⟩)
      · cases intime.symm.trans late
      · exact absurd (yes p owned) refused

theorem tpcAtomic_iff {protocol : Protocol TPCPhase} (call : TPCCall)
    (consistent : Consistent protocol.decided protocol.coordinator.participants)
    (refusals : RefusalsAborted protocol.coordinator.participants) :
    TPCAtomic protocol call ↔ TPCOrderly protocol call := by
  cases call with
  | add candidate => exact decisionKept_add candidate consistent
  | vote i canCommit => exact decisionKept_vote i canCommit consistent
  | prepare =>
    refine iff_of_true ?_ trivial
    dsimp only [TPCAtomic, tpcStep, Protocol.enter, TPCCoordinator.call]
    rcases tpcCoordinatorPrepare_participants protocol.coordinator with same | mapped
    · rw [same]
      exact consistent.unchanged
    · rw [mapped]
      exact decisionKept_prepared refusals
  | commit => exact tpcAtomic_commit_iff consistent
  | abort => exact decisionKept_enterAborted rfl
  | timeout => exact decisionKept_enterAborted rfl

theorem tpcRun_iff (txnId : Int) (calls : List TPCCall) :
    Permitted tpcStep TPCAtomic (tpcInit txnId) calls ↔ Permitted tpcStep TPCOrderly (tpcInit txnId) calls := by
  refine Permitted.congr calls (Permitted.always calls)
    (motive := fun protocol => Consistent protocol.decided protocol.coordinator.participants ∧
      RefusalsAborted protocol.coordinator.participants) ?_ ?_ ?_
  · exact ⟨Consistent.nil, fun _ owned => absurd owned List.not_mem_nil⟩
  · rintro protocol call ⟨-, refusals⟩ - kept
    exact ⟨kept.consistent, refusals.call call⟩
  · rintro protocol call ⟨consistent, refusals⟩ -
    exact tpcAtomic_iff call consistent refusals

/-- The prepare loop makes everyone ready or meets a vote against. -/
theorem threepcPrepareLoop_cases (participants : List TPCParticipant) :
    ((∀ p ∈ participants, p.vote ≠ .no) ∧ threepcPrepareLoop participants =
      (participants.map fun p => { p with vote := .yes, state := .ready }, true)) ∨
    ((∃ p ∈ participants, p.vote = .no) ∧ (threepcPrepareLoop participants).2 = false ∧
      (threepcPrepareLoop participants).1.length = participants.length) := by
  induction participants with
  | nil => exact .inl ⟨fun _ owned => absurd owned List.not_mem_nil, rfl⟩
  | cons p rest ih =>
    rw [threepcPrepareLoop]
    by_cases willing : p.vote = .yes ∨ p.vote = .pending
    · rw [if_pos willing]
      have supports : p.vote ≠ .no := by
        intro against
        rw [against] at willing
        rcases willing with yes | pending
        · cases yes
        · cases pending
      rcases ih with ⟨none, mapped⟩ | ⟨⟨q, owned, against⟩, failed, length⟩
      · left
        rw [mapped]
        exact ⟨List.forall_mem_cons.mpr ⟨supports, none⟩, rfl⟩
      · right
        exact ⟨⟨q, List.mem_cons_of_mem _ owned, against⟩, failed, congrArg (· + 1) length⟩
    · right
      rw [if_neg willing]
      have against : p.vote = .no := by
        cases vote : p.vote with
        | yes => exact absurd (.inl vote) willing
        | no => rfl
        | pending => exact absurd (.inr vote) willing
      exact ⟨⟨p, List.mem_cons_self, against⟩, rfl, rfl⟩

theorem threepcPrecommitLoop_cases (participants : List TPCParticipant) :
    ((∀ p ∈ participants, p.vote = .yes) ∧ threepcPrecommitLoop participants =
      (participants.map fun p => { p with prepared := true }, true)) ∨
    ((∃ p ∈ participants, p.vote ≠ .yes) ∧ (threepcPrecommitLoop participants).2 = false ∧
      (threepcPrecommitLoop participants).1.length = participants.length) := by
  induction participants with
  | nil => exact .inl ⟨fun _ owned => absurd owned List.not_mem_nil, rfl⟩
  | cons p rest ih =>
    rw [threepcPrecommitLoop]
    by_cases yes : p.vote = .yes
    · rw [if_neg (not_not.mpr yes)]
      rcases ih with ⟨all, mapped⟩ | ⟨⟨q, owned, refused⟩, failed, length⟩
      · left
        rw [mapped]
        exact ⟨List.forall_mem_cons.mpr ⟨yes, all⟩, rfl⟩
      · right
        exact ⟨⟨q, List.mem_cons_of_mem _ owned, refused⟩, failed, congrArg (· + 1) length⟩
    · right
      rw [if_pos yes]
      exact ⟨⟨p, List.mem_cons_self, yes⟩, rfl, rfl⟩

theorem Consistent.noted (consistent : Consistent decided participants) :
    DecisionKept decided participants (participants.map fun p => { p with prepared := true }) := by
  refine ⟨?_, ?_, ?_⟩
  · intro q owned committed r other aborted
    obtain ⟨p, old, rfl⟩ := List.mem_map.mp owned
    obtain ⟨o, old', rfl⟩ := List.mem_map.mp other
    exact consistent.agree p old committed o old' aborted
  · intro q owned against
    obtain ⟨p, old, rfl⟩ := List.mem_map.mp owned
    exact consistent.refused p old against
  · intro _ i p q here there aborted
    rw [List.getElem?_map, here] at there
    cases there
    exact aborted

theorem threepcAtomic_prepare_iff {protocol : Protocol ThreePCPhase} :
    ThreePCAtomic protocol .prepare ↔ ThreePCOrderly protocol .prepare := by
  dsimp only [ThreePCAtomic, threepcStep, Protocol.enter, ThreePCCoordinator.call, ThreePCOrderly, threepcPrepare]
  rcases threepcPrepareLoop_cases protocol.coordinator.participants with ⟨supported, mapped⟩ |
    ⟨against, failed, length⟩
  · rw [mapped, if_pos rfl]
    refine iff_of_true ((decisionKept_alive ?_).mpr ?_) ?_
    · intro q owned aborted
      obtain ⟨p, -, rfl⟩ := List.mem_map.mp owned
      cases aborted
    · intro q owned refused
      obtain ⟨p, -, rfl⟩ := List.mem_map.mp owned
      cases refused
    · rintro ⟨p, owned, refused⟩
      exact absurd refused (supported p owned)
  · rw [failed, if_neg Bool.false_ne_true]
    exact (decisionKept_enterAborted length).trans ⟨fun undone _ => undone, fun orderly => orderly against⟩

theorem threepcAtomic_precommit_iff {protocol : Protocol ThreePCPhase}
    (consistent : Consistent protocol.decided protocol.coordinator.participants) :
    ThreePCAtomic protocol .precommit ↔ ThreePCOrderly protocol .precommit := by
  dsimp only [ThreePCAtomic, threepcStep, Protocol.enter, ThreePCCoordinator.call, ThreePCOrderly, threepcPrecommit]
  by_cases phase : protocol.coordinator.phase = .prepare
  · rw [if_neg (not_not.mpr phase)]
    rcases threepcPrecommitLoop_cases protocol.coordinator.participants with ⟨yes, mapped⟩ |
      ⟨refused, failed, length⟩
    · rw [mapped, if_pos rfl]
      refine iff_of_true consistent.noted ?_
      rintro - ⟨p, owned, other⟩
      exact absurd (yes p owned) other
    · rw [failed, if_neg Bool.false_ne_true]
      exact (decisionKept_enterAborted length).trans ⟨fun undone _ _ => undone, fun orderly => orderly phase refused⟩
  · rw [if_pos phase]
    exact iff_of_true consistent.unchanged fun here => absurd here phase

theorem threepcAtomic_commit_iff {protocol : Protocol ThreePCPhase}
    (consistent : Consistent protocol.decided protocol.coordinator.participants) :
    ThreePCAtomic protocol .commit ↔ ThreePCOrderly protocol .commit := by
  dsimp only [ThreePCAtomic, threepcStep, Protocol.enter, ThreePCCoordinator.call, ThreePCOrderly, threepcCommit]
  by_cases phase : protocol.coordinator.phase = .precommit
  · rw [if_neg (not_not.mpr phase), decisionKept_enterCommitted]
    exact ⟨fun supported _ => supported, fun orderly => orderly phase⟩
  · rw [if_pos phase]
    exact iff_of_true consistent.unchanged fun here => absurd here phase

theorem threepcAtomic_iff {protocol : Protocol ThreePCPhase} (call : ThreePCCall)
    (consistent : Consistent protocol.decided protocol.coordinator.participants) :
    ThreePCAtomic protocol call ↔ ThreePCOrderly protocol call := by
  cases call with
  | add candidate => exact decisionKept_add candidate consistent
  | vote i canCommit => exact decisionKept_vote i canCommit consistent
  | prepare => exact threepcAtomic_prepare_iff
  | precommit => exact threepcAtomic_precommit_iff consistent
  | commit => exact threepcAtomic_commit_iff consistent
  | abort => exact decisionKept_enterAborted rfl

theorem threepcRun_iff (txnId : Int) (calls : List ThreePCCall) :
    Permitted threepcStep ThreePCAtomic (threepcInit txnId) calls ↔
      Permitted threepcStep ThreePCOrderly (threepcInit txnId) calls := by
  refine Permitted.congr calls (Permitted.always calls)
    (motive := fun protocol => Consistent protocol.decided protocol.coordinator.participants) ?_ ?_ ?_
  · exact Consistent.nil
  · intro protocol call _ _ kept
    exact kept.consistent
  · intro protocol call consistent _
    exact threepcAtomic_iff call consistent

/-- Both protocols decide atomically and for good exactly in the orderly runs. -/
theorem decisionsAtomic_iff (txnId : Int) (twoPhase : List TPCCall) (threePhase : List ThreePCCall) :
    (Permitted tpcStep TPCAtomic (tpcInit txnId) twoPhase ↔
      Permitted tpcStep TPCOrderly (tpcInit txnId) twoPhase) ∧
    (Permitted threepcStep ThreePCAtomic (threepcInit txnId) threePhase ↔
      Permitted threepcStep ThreePCOrderly (threepcInit txnId) threePhase) :=
  ⟨tpcRun_iff txnId twoPhase, threepcRun_iff txnId threePhase⟩

/-- Two participants vote yes and are committed; the timeout then aborts them. -/
def committedThenTimeout : List TPCCall :=
  [.add ⟨1, [65], some true⟩, .add ⟨2, [66], some true⟩, .prepare, .commit, .timeout]

/-- A participant that votes against after the precommit is committed. -/
def lateRefusal : List ThreePCCall :=
  [.add ⟨1, [65], some true⟩, .prepare, .precommit, .vote 0 false, .commit]

theorem decisions_undone :
    ¬ Permitted tpcStep TPCAtomic (tpcInit 1) committedThenTimeout ∧
    ¬ Permitted threepcStep ThreePCAtomic (threepcInit 4) lateRefusal := by
  constructor
  · intro atomic
    have kept := atomic.2.2.2.2.1
    cases kept.final (by decide) 0 _ _ rfl rfl rfl
  · intro atomic
    have kept := atomic.2.2.2.2.1
    exact kept.refused _ List.mem_cons_self rfl rfl

end MiniNetDist.Transaction.TwoPC
