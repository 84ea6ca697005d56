import MiniNetDist.Library.Draws
import Mathlib.Algebra.BigOperators.Fin
import Mathlib.Algebra.Order.BigOperators.Group.Finset
import Mathlib.Algebra.Order.Group.Abs
import Mathlib.Algebra.Order.Group.Int
import Mathlib.Data.List.FinRange
import Mathlib.Logic.Function.Basic

/-! The Byzantine generals of `mini-dist-system-theory/src/byzantine.c`. The random numbers are the draws
of the library; what is printed is left out. -/

namespace MiniNetDist.SystemTheory.Byzantine

open Library

def byzMaxGenerals : Nat := 8
def byzMaxRounds : Nat := 8

inductive ByzantineBehavior where
  | honest
  | silent
  | random
  | traitor
  deriving DecidableEq, Repr

/-- A general whose `id` is its place. -/
structure ByzantineNode where
  value : Int
  isFaulty : Bool
  behavior : ByzantineBehavior
  deriving DecidableEq, Repr

structure ByzantineMessage where
  round : Nat
  values : List Int
  sender : Nat
  deriving DecidableEq, Repr

/-- `general_count` is `n`. -/
structure ByzantineAgreement (n : Nat) where
  generals : Fin n → ByzantineNode
  messageLog : List ByzantineMessage
  currentRound : Nat
  decisionReached : Bool
  finalDecision : Int

variable {n : Nat}

def byzInitNetwork (values : Fin n → Int) (faultyMask : Fin n → Bool) (behaviors : Fin n → ByzantineBehavior) :
    ByzantineAgreement n where
  generals i := ⟨values i, faultyMask i, behaviors i⟩
  messageLog := []
  currentRound := 0
  decisionReached := false
  finalDecision := -1

/-- `rand() % 2`. -/
def drawBit : Draws Int := do
  let number ← draw
  return (number % 2 : Nat)

def byzSendValue (node : ByzantineNode) : Draws Int :=
  if !node.isFaulty then return node.value
  else
    match node.behavior with
    | .honest => return node.value
    | .silent => return -1
    | .random => drawBit
    | .traitor => return 1 - node.value

def logValue (ba : ByzantineAgreement n) (round sender : Nat) (value : Int) : ByzantineAgreement n :=
  if ba.messageLog.length < byzMaxGenerals * byzMaxRounds * 8 then
    { ba with messageLog := ba.messageLog ++ [⟨round, [value], sender⟩] }
  else ba

/-- The body of the loop of `byz_collect_values`. -/
def collectFrom (receiver round : Nat) (collected : ByzantineAgreement n × List Int) (i : Fin n) :
    Draws (ByzantineAgreement n × List Int) :=
  if i.val = receiver then return collected
  else do
    let v ← byzSendValue (collected.1.generals i)
    return if v ≥ 0 then (logValue collected.1 round i v, collected.2 ++ [v]) else collected

def byzCollectValues (ba : ByzantineAgreement n) (receiver round : Nat) : Draws (ByzantineAgreement n × List Int) :=
  (List.finRange n).foldlM (collectFrom receiver round) (ba, [])

def byzMajority (values : List Int) : Draws Int :=
  if values.length = 0 then drawBit
  else
    let zeros := values.count 0
    let ones := values.count 1
    if zeros > ones then return 0
    else if ones > zeros then return 1
    else drawBit

def ByzantineAgreement.setValue (ba : ByzantineAgreement n) (i : Fin n) (value : Int) : ByzantineAgreement n :=
  { ba with generals := Function.update ba.generals i { ba.generals i with value } }

/-- A lieutenant's turn in round 0. -/
def hearCommander (ba : ByzantineAgreement n) (commander i : Fin n) : Draws (ByzantineAgreement n) := do
  let v ← byzSendValue (ba.generals commander)
  return if v ≥ 0 then ba.setValue i v else ba

/-- The messages of round 1 that are only printed. -/
def hearOthers (ba : ByzantineAgreement n) (commander i : Fin n) (round : Nat) : Draws Unit :=
  (List.finRange n).foldlM (fun _ j =>
    if j = i ∨ j = commander ∨ round ≠ 1 then return ()
    else do
      let _ ← byzSendValue (ba.generals j)
      return ()) ()

/-- A lieutenant that heard nothing keeps its value. -/
def adoptMajority (ba : ByzantineAgreement n) (i : Fin n) (relay : List Int) : Draws (ByzantineAgreement n) :=
  if relay.length > 0 then do
    let mv ← byzMajority relay
    return ba.setValue i mv
  else return ba

/-- A lieutenant's turn in a later round. -/
def relayValues (ba : ByzantineAgreement n) (commander i : Fin n) (round : Nat) : Draws (ByzantineAgreement n) := do
  hearOthers ba commander i round
  let collected ← byzCollectValues ba i round
  adoptMajority collected.1 i collected.2

def takeTurn (commander : Fin n) (round : Nat) (ba : ByzantineAgreement n) (i : Fin n) : Draws (ByzantineAgreement n) :=
  if i = commander then return ba
  else if round = 0 then hearCommander ba commander i
  else relayValues ba commander i round

def playRound (commander : Fin n) (ba : ByzantineAgreement n) (round : Nat) : Draws (ByzantineAgreement n) :=
  (List.finRange n).foldlM (takeTurn commander round) { ba with currentRound := round }

/-- What is decided from the values that the general 0 has received. -/
def majorityVal (commander : Fin n) (collected : ByzantineAgreement n × List Int) : Draws Int :=
  if collected.2.length = 0 then return (collected.1.generals commander).value else byzMajority collected.2

def byzOmAlgorithm (ba : ByzantineAgreement n) (commander : Fin n) (m : Nat) : Draws (ByzantineAgreement n) := do
  let ba ← (List.range (m + 1)).foldlM (playRound commander) ba
  let collected ← byzCollectValues ba 0 (m + 1)
  let finalDecision ← majorityVal commander collected
  return { collected.1 with decisionReached := true, finalDecision }

section Votes

/-- A vote for 0 counts 1, a vote for 1 counts -1, and any other number counts nothing. -/
def weight (value : Int) : Int := if value = 0 then 1 else if value = 1 then -1 else 0

/-- By how many votes 0 is ahead. -/
def lead (votes : List Int) : Int := (votes.map weight).sum

@[simp] theorem weight_zero : weight 0 = 1 := rfl

@[simp] theorem weight_one : weight 1 = -1 := rfl

theorem abs_weight_le (value : Int) : |weight value| ≤ 1 := by
  unfold weight
  split_ifs <;> decide

theorem weight_mul_self {value : Int} (binary : value = 0 ∨ value = 1) : weight value * weight value = 1 := by
  rcases binary with rfl | rfl <;> rfl

theorem lead_append (votes : List Int) (value : Int) : lead (votes ++ [value]) = lead votes + weight value := by
  simp [lead]

theorem lead_eq (votes : List Int) : lead votes = votes.count 0 - votes.count 1 := by
  induction votes with
  | nil => rfl
  | cons value rest ih =>
    have split : lead (value :: rest) = weight value + lead rest := rfl
    rw [split, ih, weight]
    by_cases zero : value = 0
    · subst zero
      simp
      omega
    · by_cases one : value = 1
      · subst one
        simp
        omega
      · simp [zero, one]

theorem must_majority (votes : List Int) :
    Must (byzMajority votes) fun v => ∀ w, w = 0 ∨ w = 1 → 0 < weight w * lead votes → v = w := by
  unfold byzMajority
  have ahead := lead_eq votes
  split
  · rename_i empty
    intro numbers w _ positive
    rw [List.length_eq_zero_iff.mp empty] at positive
    simp [lead] at positive
  · simp only
    split_ifs with zeros ones
    · refine must_pure ?_
      rintro w (rfl | rfl) positive
      · rfl
      · simp only [weight_one] at positive
        omega
    · refine must_pure ?_
      rintro w (rfl | rfl) positive
      · simp only [weight_zero] at positive
        omega
      · rfl
    · intro numbers w binary positive
      have level : lead votes = 0 := by omega
      rw [level, mul_zero] at positive
      exact absurd positive (lt_irrefl 0)

end Votes

section Cast

variable (faulty : Fin n → Bool) (behaviors : Fin n → ByzantineBehavior)

/-- The generals with their parts, and these values. -/
def Shows (values : Fin n → Int) (ba : ByzantineAgreement n) : Prop :=
  ba.generals = fun i => ⟨values i, faulty i, behaviors i⟩

/-- The loyal generals but for the receiver. -/
def loyalOthers (receiver : Nat) : Finset (Fin n) := Finset.univ.filter fun i => i.val ≠ receiver ∧ faulty i = false

/-- The faulty generals that may send a value to the receiver. -/
def vocal (receiver : Nat) : Finset (Fin n) :=
  Finset.univ.filter fun i => i.val ≠ receiver ∧ faulty i = true ∧ behaviors i ≠ .silent

/-- By how many of their values 0 is ahead among the loyal generals but for the receiver. -/
def loyalLead (values : Fin n → Int) (receiver : Nat) : Int := ∑ i ∈ loyalOthers faulty receiver, weight (values i)

variable {faulty behaviors} {values : Fin n → Int} {ba : ByzantineAgreement n} {commander i : Fin n}
  {round receiver : Nat}

theorem Shows.general (shows' : Shows faulty behaviors values ba) (i : Fin n) :
    ba.generals i = ⟨values i, faulty i, behaviors i⟩ := congrFun shows' i

theorem Shows.setValue (shows' : Shows faulty behaviors values ba) (i : Fin n) (value : Int) :
    Shows faulty behaviors (Function.update values i value) (ba.setValue i value) := by
  funext j
  by_cases same : j = i
  · subst same
    simp [ByzantineAgreement.setValue, shows'.general]
  · simp [ByzantineAgreement.setValue, shows'.general, same]

theorem generals_logValue (round sender : Nat) (value : Int) :
    (logValue ba round sender value).generals = ba.generals := by
  unfold logValue
  split <;> rfl

/-- What a general sends counts as its value if it is loyal, and is any vote if it is faulty, unless it
keeps silent. -/
theorem must_send (value : Int) (isFaulty : Bool) (behavior : ByzantineBehavior) :
    Must (byzSendValue ⟨value, isFaulty, behavior⟩) fun v =>
      |weight v - if isFaulty = false then weight value else 0| ≤
        if isFaulty = true ∧ behavior ≠ .silent then 1 else 0 := by
  cases isFaulty with
  | false => exact must_pure (by simp)
  | true =>
    by_cases silent : behavior = .silent
    · subst silent
      exact must_pure (by simp [weight])
    · intro numbers
      simpa [silent] using abs_weight_le _

/-- What a general adds to the lead at a receiver, if it is loyal. -/
def share (faulty : Fin n → Bool) (values : Fin n → Int) (receiver : Nat) (i : Fin n) : Int :=
  if i.val ≠ receiver ∧ faulty i = false then weight (values i) else 0

/-- By how much a general may change the lead at a receiver, if it is faulty. -/
def slack (faulty : Fin n → Bool) (behaviors : Fin n → ByzantineBehavior) (receiver : Nat) (i : Fin n) : Int :=
  if i.val ≠ receiver ∧ faulty i = true ∧ behaviors i ≠ .silent then 1 else 0

theorem must_collectFrom {collected : ByzantineAgreement n × List Int}
    (shows' : Shows faulty behaviors values collected.1) :
    Must (collectFrom receiver round collected i) fun later => Shows faulty behaviors values later.1 ∧
      |lead later.2 - lead collected.2 - share faulty values receiver i| ≤ slack faulty behaviors receiver i := by
  unfold collectFrom
  by_cases own : i.val = receiver
  · rw [if_pos own]
    exact must_pure ⟨shows', by simp [share, slack, own]⟩
  · rw [if_neg own, shows'.general]
    refine (must_send (values i) (faulty i) (behaviors i)).bind fun v sent => ?_
    simp only [share, slack, own, ne_eq, not_false_eq_true, true_and]
    split
    · refine must_pure ⟨(generals_logValue ..).trans shows', ?_⟩
      rw [lead_append, add_sub_cancel_left]
      exact sent
    · rename_i negative
      refine must_pure ⟨shows', ?_⟩
      have nothing : weight v = 0 := by
        unfold weight
        split_ifs <;> omega
      rw [nothing] at sent
      rw [sub_self]
      exact sent

theorem sum_share : ∑ i, share faulty values receiver i = loyalLead faulty values receiver := by
  rw [loyalLead, loyalOthers, Finset.sum_filter]
  rfl

theorem sum_slack : ∑ i, slack faulty behaviors receiver i = (vocal faulty behaviors receiver).card := by
  rw [vocal, Finset.card_filter]
  push_cast
  rfl

/-- The collected values show the lead among the loyal generals, but for as many votes as faulty generals
may send. -/
theorem must_collect (shows' : Shows faulty behaviors values ba) :
    Must (byzCollectValues ba receiver round) fun later => Shows faulty behaviors values later.1 ∧
      |lead later.2 - loyalLead faulty values receiver| ≤ (vocal faulty behaviors receiver).card := by
  have loop := must_foldlM (collectFrom receiver round) (b := (ba, [])) (List.finRange n)
    (fun rest collected => Shows faulty behaviors values collected.1 ∧
      |lead collected.2 + (rest.map (share faulty values receiver)).sum - loyalLead faulty values receiver| +
        (rest.map (slack faulty behaviors receiver)).sum ≤ (vocal faulty behaviors receiver).card)
  refine (loop ?_ ⟨shows', ?_⟩).mono fun later held => ⟨held.1, ?_⟩
  · rintro _ i rest collected _ ⟨shows'', near⟩
    refine (must_collectFrom shows'').mono fun later sent => ⟨sent.1, ?_⟩
    simp only [List.map_cons, List.sum_cons] at near
    set left := (rest.map (share faulty values receiver)).sum
    have split : lead later.2 + left - loyalLead faulty values receiver =
        (lead later.2 - lead collected.2 - share faulty values receiver i) +
          (lead collected.2 + (share faulty values receiver i + left) - loyalLead faulty values receiver) := by omega
    have apart := abs_add_le (lead later.2 - lead collected.2 - share faulty values receiver i)
      (lead collected.2 + (share faulty values receiver i + left) - loyalLead faulty values receiver)
    rw [← split] at apart
    have near' := sent.2
    omega
  · rw [← Fin.sum_univ_def, ← Fin.sum_univ_def, sum_share, sum_slack]
    simp [lead]
  · simpa using held.2

theorem must_adoptMajority (shows' : Shows faulty behaviors values ba) (relay : List Int) :
    Must (adoptMajority ba i relay) fun later => ∃ v, Shows faulty behaviors (Function.update values i v) later ∧
      ∀ w, w = 0 ∨ w = 1 → 0 < weight w * lead relay → v = w := by
  unfold adoptMajority
  split
  · refine (must_majority relay).bind fun v majority => ?_
    exact must_pure ⟨v, shows'.setValue i v, majority⟩
  · rename_i empty
    refine must_pure ⟨values i, by rwa [Function.update_eq_self], fun w _ positive => ?_⟩
    rw [List.eq_nil_of_length_eq_zero (Nat.eq_zero_of_not_pos empty)] at positive
    simp [lead] at positive

/-- A lead that the faulty generals cannot make up for. -/
def Outvotes (faulty : Fin n → Bool) (behaviors : Fin n → ByzantineBehavior) (values : Fin n → Int) (receiver : Nat)
    (w : Int) : Prop :=
  (w = 0 ∨ w = 1) ∧ (vocal faulty behaviors receiver).card < weight w * loyalLead faulty values receiver

theorem Outvotes.positive {votes : List Int} {w : Int} (outvotes : Outvotes faulty behaviors values receiver w)
    (near : |lead votes - loyalLead faulty values receiver| ≤ (vocal faulty behaviors receiver).card) :
    0 < weight w * lead votes := by
  obtain ⟨binary, ahead⟩ := outvotes
  have bounds := abs_le.mp near
  rcases binary with rfl | rfl
  · simp only [weight_zero, one_mul] at ahead ⊢
    omega
  · simp only [weight_one, neg_mul, one_mul] at ahead ⊢
    omega

/-- A lieutenant takes over the value that outvotes the faulty generals. -/
theorem must_relay (shows' : Shows faulty behaviors values ba) (commander i : Fin n) (round : Nat) :
    Must (relayValues ba commander i round) fun later =>
      ∃ v, Shows faulty behaviors (Function.update values i v) later ∧
        ∀ w, Outvotes faulty behaviors values i w → v = w := by
  have heard : Must (hearOthers ba commander i round) fun _ => True := fun _ => trivial
  refine heard.bind fun _ _ => (must_collect shows').bind fun collected near => ?_
  refine (must_adoptMajority near.1 collected.2).mono fun later ⟨v, shown, majority⟩ => ⟨v, shown, fun w outvotes => ?_⟩
  exact majority w outvotes.1 (outvotes.positive near.2)

end Cast

section Turns

variable {kind : Fin n → Prop} {y target : Fin n → Int} {rest : List (Fin n)} {i : Fin n} {v : Int}

/-- The turn of one of another kind leaves the values of those of a kind whose turn is over. -/
theorem told_skip (told : ∀ j, kind j → j ∉ i :: rest → y j = target j) (skipped : ¬ kind i) (j : Fin n) (mine : kind j)
    (missing : j ∉ rest) : y j = target j := by
  refine told j mine (List.not_mem_cons_of_ne_of_not_mem ?_ missing)
  rintro rfl
  exact skipped mine

theorem told_update (told : ∀ j, kind j → j ∉ i :: rest → y j = target j) (given : v = target i) (j : Fin n)
    (mine : kind j) (missing : j ∉ rest) : Function.update y i v j = target j := by
  by_cases same : j = i
  · rw [same, Function.update_self, given]
  · rw [Function.update_of_ne same]
    exact told j mine (List.not_mem_cons_of_ne_of_not_mem same missing)

end Turns

section Round

variable {faulty : Fin n → Bool} {behaviors : Fin n → ByzantineBehavior} {values : Fin n → Int}
  {ba : ByzantineAgreement n} {commander : Fin n}

/-- The value that a general sends without a draw. -/
def sends (node : ByzantineNode) : Option Int :=
  if node.isFaulty = false then some node.value
  else
    match node.behavior with
    | .honest => some node.value
    | .silent => some (-1)
    | .random => none
    | .traitor => some (1 - node.value)

theorem byzSendValue_of_sends {node : ByzantineNode} {v : Int} (sent : sends node = some v) :
    byzSendValue node = pure v := by
  obtain ⟨value, isFaulty, behavior⟩ := node
  cases isFaulty <;> cases behavior <;> cases sent <;> rfl

/-- The values after a round 0 in which the commander sends the same value to all. -/
def obeyed (commander : Fin n) (values : Fin n → Int) (w : Int) (i : Fin n) : Int :=
  if i = commander then values i else w

theorem hearCommander_of_sends {w : Int} (i : Fin n) (nonneg : 0 ≤ w)
    (sent : sends (ba.generals commander) = some w) : hearCommander ba commander i = pure (ba.setValue i w) := by
  have told : hearCommander ba commander i = pure (if w ≥ 0 then ba.setValue i w else ba) := by
    rw [hearCommander, byzSendValue_of_sends sent]
    rfl
  rw [told, if_pos nonneg]

theorem must_hearAlike {w : Int} (shows' : Shows faulty behaviors values ba) (nonneg : 0 ≤ w)
    (sent : sends ⟨values commander, faulty commander, behaviors commander⟩ = some w) :
    Must (playRound commander ba 0) (Shows faulty behaviors (obeyed commander values w)) := by
  have loop := must_foldlM (takeTurn commander 0) (b := { ba with currentRound := 0 }) (List.finRange n)
    (fun rest later => ∃ y, Shows faulty behaviors y later ∧ y commander = values commander ∧
      ∀ i, i ≠ commander → i ∉ rest → y i = w)
  refine (loop ?_ ⟨values, shows', rfl, fun i _ missing => absurd (List.mem_finRange i) missing⟩).mono ?_
  · rintro _ i rest later _ ⟨y, shown, kept, told⟩
    unfold takeTurn
    by_cases own : i = commander
    · rw [if_pos own]
      exact must_pure ⟨y, shown, kept, told_skip told (not_not.mpr own)⟩
    · have same : sends (later.generals commander) = some w := by rwa [shown.general, kept]
      rw [if_neg own, if_pos rfl, hearCommander_of_sends i nonneg same]
      refine must_pure ⟨Function.update y i w, shown.setValue i w, ?_, told_update told rfl⟩
      rwa [Function.update_of_ne (Ne.symm own)]
  · rintro later ⟨y, shown, kept, told⟩
    have same : y = obeyed commander values w := by
      funext i
      by_cases own : i = commander
      · rw [obeyed, if_pos own, own, kept]
      · rw [obeyed, if_neg own, told i own (by simp)]
    exact same ▸ shown

/-- All loyal generals have this value; that of the commander is never changed. -/
def Holds (faulty : Fin n → Bool) (behaviors : Fin n → ByzantineBehavior) (commander : Fin n) (order w : Int)
    (ba : ByzantineAgreement n) : Prop :=
  ∃ values, Shows faulty behaviors values ba ∧ values commander = order ∧ ∀ i, faulty i = false → values i = w

/-- There are more loyal generals than vocal faulty ones, as any receiver sees it. -/
def Outnumbered (faulty : Fin n → Bool) (behaviors : Fin n → ByzantineBehavior) : Prop :=
  ∀ receiver, (vocal faulty behaviors receiver).card < (loyalOthers faulty receiver).card

theorem Outnumbered.outvotes {w : Int} (outnumbered : Outnumbered faulty behaviors) (binary : w = 0 ∨ w = 1)
    (hold : ∀ i, faulty i = false → values i = w) (receiver : Nat) : Outvotes faulty behaviors values receiver w := by
  refine ⟨binary, ?_⟩
  have same : loyalLead faulty values receiver = (loyalOthers faulty receiver).card * weight w := by
    have each : ∀ i ∈ loyalOthers faulty receiver, weight (values i) = weight w := by
      intro i member
      rw [hold i (Finset.mem_filter.mp member).2.2]
    rw [loyalLead, Finset.sum_congr rfl each, Finset.sum_const, nsmul_eq_mul]
  have square := weight_mul_self binary
  have more := outnumbered receiver
  rw [same, mul_left_comm, square, mul_one]
  exact_mod_cast more

/-- A later round leaves an agreement as it is, whatever the faulty generals send. -/
theorem must_playRound_holds {w order : Int} {round : Nat} (outnumbered : Outnumbered faulty behaviors)
    (binary : w = 0 ∨ w = 1) (later : round ≠ 0) (holds : Holds faulty behaviors commander order w ba) :
    Must (playRound commander ba round) (Holds faulty behaviors commander order w) := by
  refine must_foldlM _ (List.finRange n) (fun _ => Holds faulty behaviors commander order w) ?_ holds
  rintro _ i _ ba _ ⟨y, shown, kept, hold⟩
  unfold takeTurn
  by_cases own : i = commander
  · rw [if_pos own]
    exact must_pure ⟨y, shown, kept, hold⟩
  · rw [if_neg own, if_neg later]
    refine (must_relay shown commander i round).mono fun next ⟨v, shown', majority⟩ => ?_
    obtain rfl := majority w (outnumbered.outvotes binary hold i)
    refine ⟨_, shown', by rwa [Function.update_of_ne (Ne.symm own)], fun j loyal => ?_⟩
    by_cases same : j = i
    · rw [same, Function.update_self]
    · rw [Function.update_of_ne same, hold j loyal]

/-- The rounds after the first. -/
def laterRounds (m : Nat) : List Nat := (List.range m).map (· + 1)

theorem range_succ_eq (m : Nat) : List.range (m + 1) = 0 :: laterRounds m := List.range_succ_eq_map

theorem ne_zero_of_mem {m round : Nat} (member : round ∈ laterRounds m) : round ≠ 0 := by
  obtain ⟨before, _, rfl⟩ := List.mem_map.mp member
  exact Nat.succ_ne_zero before

theorem must_rounds_hold {w order : Int} {rounds : List Nat} (outnumbered : Outnumbered faulty behaviors)
    (binary : w = 0 ∨ w = 1) (later : ∀ round ∈ rounds, round ≠ 0)
    (holds : Holds faulty behaviors commander order w ba) :
    Must (rounds.foldlM (playRound commander) ba) (Holds faulty behaviors commander order w) := by
  refine must_foldlM _ rounds (fun _ => Holds faulty behaviors commander order w) ?_ holds
  intro _ round _ _ split holds
  refine must_playRound_holds outnumbered binary (later round ?_) holds
  exact split ▸ List.mem_append_right _ List.mem_cons_self

end Round

section Validity

variable {faulty : Fin n → Bool} {behaviors : Fin n → ByzantineBehavior} {values : Fin n → Int}
  {ba : ByzantineAgreement n} {commander : Fin n} {m : Nat}

def faultyGenerals (faulty : Fin n → Bool) : Finset (Fin n) := Finset.univ.filter fun i => faulty i = true

variable (faulty behaviors) in
theorem card_vocal_le (receiver : Nat) : (vocal faulty behaviors receiver).card ≤ (faultyGenerals faulty).card := by
  refine Finset.card_le_card fun i member => ?_
  exact Finset.mem_filter.mpr ⟨Finset.mem_univ i, (Finset.mem_filter.mp member).2.2.1⟩

variable (faulty) in
/-- All generals are loyal others, faulty, or the receiver. -/
theorem le_card_loyalOthers (receiver : Nat) :
    n ≤ (loyalOthers faulty receiver).card + (faultyGenerals faulty).card + 1 := by
  have own : (Finset.univ.filter fun i : Fin n => i.val = receiver).card ≤ 1 := by
    refine Finset.card_le_one.mpr fun i here j there => Fin.ext ?_
    exact (Finset.mem_filter.mp here).2.trans (Finset.mem_filter.mp there).2.symm
  have cover : (Finset.univ : Finset (Fin n)) ⊆
      loyalOthers faulty receiver ∪ faultyGenerals faulty ∪ Finset.univ.filter fun i => i.val = receiver := by
    intro i _
    simp only [loyalOthers, faultyGenerals, Finset.mem_union, Finset.mem_filter, Finset.mem_univ, true_and]
    cases faulty i <;> simp
    omega
  have total := Finset.card_le_card cover
  have whole := Finset.card_union_le (loyalOthers faulty receiver ∪ faultyGenerals faulty)
    (Finset.univ.filter fun i : Fin n => i.val = receiver)
  have part := Finset.card_union_le (loyalOthers faulty receiver) (faultyGenerals faulty)
  rw [Finset.card_univ, Fintype.card_fin] at total
  omega

theorem outnumbered (few : (faultyGenerals faulty).card ≤ m) (enough : 3 * m < n) (several : 1 < n) :
    Outnumbered faulty behaviors := by
  intro receiver
  have loud := card_vocal_le faulty behaviors receiver
  have quiet := le_card_loyalOthers faulty receiver
  omega

/-- A general without others receives nothing. -/
theorem must_collect_alone {receiver round : Nat} (only : ∀ i : Fin n, i.val = receiver) :
    Must (byzCollectValues ba receiver round) (· = (ba, [])) := by
  refine must_foldlM _ (List.finRange n) (fun _ => (· = (ba, []))) ?_ rfl
  rintro _ i _ collected _ rfl
  rw [collectFrom, if_pos (only i)]
  exact must_pure rfl

theorem must_majorityVal {w : Int} {collected : ByzantineAgreement n × List Int}
    (outvotes : Outvotes faulty behaviors values 0 w)
    (near : |lead collected.2 - loyalLead faulty values 0| ≤ (vocal faulty behaviors 0).card) :
    Must (majorityVal commander collected) (· = w) := by
  have positive := outvotes.positive near
  unfold majorityVal
  split
  · rename_i empty
    rw [List.length_eq_zero_iff.mp empty] at positive
    simp [lead] at positive
  · exact (must_majority collected.2).mono fun v majority => majority w outvotes.1 positive

/-- A commander that sends the same value to all has it taken over and kept by the loyal generals. -/
theorem must_rounds_obeyed {w : Int} (shows' : Shows faulty behaviors values ba) (enough : 3 * m < n)
    (few : (faultyGenerals faulty).card ≤ m) (binary : w = 0 ∨ w = 1)
    (sent : sends ⟨values commander, faulty commander, behaviors commander⟩ = some w) :
    Must ((List.range (m + 1)).foldlM (playRound commander) ba)
      (Holds faulty behaviors commander (values commander) w) := by
  have nonneg : 0 ≤ w := by omega
  rw [range_succ_eq, List.foldlM_cons]
  refine (must_hearAlike shows' nonneg sent).bind fun later shown => ?_
  have holds : Holds faulty behaviors commander (values commander) w later := by
    refine ⟨_, shown, if_pos rfl, fun i loyal => ?_⟩
    by_cases own : i = commander
    · subst own
      rw [sends, if_pos loyal] at sent
      exact (if_pos rfl).trans (Option.some.inj sent)
    · exact if_neg own
  by_cases several : 1 < n
  · exact must_rounds_hold (outnumbered few enough several) binary (fun _ => ne_zero_of_mem) holds
  · obtain rfl : m = 0 := by omega
    exact must_pure holds

/-- Every loyal general ends with the value of a loyal commander, and so does the decision. -/
theorem byzOm_valid (ba : ByzantineAgreement n) (commander : Fin n) (m : Nat) (enough : 3 * m < n)
    (binary : ∀ i, (ba.generals i).value = 0 ∨ (ba.generals i).value = 1)
    (few : (Finset.univ.filter fun i => (ba.generals i).isFaulty = true).card ≤ m)
    (loyal : (ba.generals commander).isFaulty = false) (numbers : List Nat) :
    let final := (byzOmAlgorithm ba commander m numbers).1
    (∀ i, (ba.generals i).isFaulty = false → (final.generals i).value = (ba.generals commander).value) ∧
      final.finalDecision = (ba.generals commander).value := by
  set faulty := fun i => (ba.generals i).isFaulty with faulty_eq
  set behaviors := fun i => (ba.generals i).behavior with behaviors_eq
  set w := (ba.generals commander).value with w_eq
  have shown : Shows faulty behaviors (fun i => (ba.generals i).value) ba := rfl
  suffices must : Must (byzOmAlgorithm ba commander m) fun final =>
      Holds faulty behaviors commander w w final ∧ final.finalDecision = w by
    obtain ⟨⟨y, shown', _, hold⟩, decided⟩ := must numbers
    refine ⟨fun i honest => ?_, decided⟩
    rw [shown'.general]
    exact hold i honest
  have sent : sends ⟨w, faulty commander, behaviors commander⟩ = some w := if_pos loyal
  refine (must_rounds_obeyed shown enough few (binary commander) sent).bind fun later ⟨y, shown', kept, hold⟩ => ?_
  have holds : Holds faulty behaviors commander w w later := ⟨y, shown', kept, hold⟩
  by_cases several : 1 < n
  · have fewer : Outnumbered faulty behaviors := outnumbered few enough several
    have outvotes := fewer.outvotes (binary commander) hold 0
    refine (must_collect shown').bind fun collected near => ?_
    refine (must_majorityVal outvotes near.2).bind fun decision decided => ?_
    exact must_pure ⟨⟨y, near.1, kept, hold⟩, decided⟩
  · have only : ∀ i : Fin n, i.val = 0 := fun i => by omega
    refine (must_collect_alone only).bind fun collected alone => ?_
    subst alone
    have value : (later.generals commander).value = w := (congrArg (·.value) (shown'.general commander)).trans kept
    have own : Must (majorityVal commander (later, [])) (· = w) := must_pure value
    refine own.bind fun decision decided => ?_
    exact must_pure ⟨holds, decided⟩

/-- The generals of the README, a traitor among the lieutenants. -/
theorem byzOm_valid_four :
    let ba := byzInitNetwork (fun i : Fin 4 => if i = 0 then 1 else 0) (fun i => i = 1) fun _ => .traitor
    let final := (byzOmAlgorithm ba 0 1 []).1
    (∀ i, (ba.generals i).isFaulty = false → (final.generals i).value = (ba.generals 0).value) ∧
      final.finalDecision = (ba.generals 0).value :=
  byzOm_valid _ 0 1 (by decide) (by decide) (by decide) rfl []

end Validity

end MiniNetDist.SystemTheory.Byzantine
