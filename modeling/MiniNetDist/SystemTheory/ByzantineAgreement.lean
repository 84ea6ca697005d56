import MiniNetDist.SystemTheory.Byzantine

/-! When the loyal lieutenants of `byz_om_algorithm` agree under a faulty commander. Its values overwrite
those of the lieutenants, who then vote one after the other on what the others hold at that moment. -/

namespace MiniNetDist.SystemTheory.Byzantine

open Library

variable {n : Nat}

/-- The loyal general with the smallest id. -/
def firstLoyal (faulty : Fin n → Bool) : Option (Fin n) := (List.finRange n).find? fun i => !faulty i

/-- All loyal lieutenants hold the same value. -/
def Unanimous (faulty : Fin n → Bool) (commander : Fin n) (ba : ByzantineAgreement n) : Prop :=
  ∀ i j, i ≠ commander → j ≠ commander → faulty i = false → faulty j = false →
    (ba.generals i).value = (ba.generals j).value

/-- The commander says the same to all, or says nothing and all but the first loyal general lean clearly
to one value from the start. -/
def Reconciles (values : Fin n → Int) (faulty : Fin n → Bool) (commander : Fin n) (behavior : ByzantineBehavior) :
    Prop :=
  faulty commander = true →
    match behavior with
    | .honest => True
    | .traitor => True
    | .random => False
    | .silent => ∀ first ∈ firstLoyal faulty, (faultyGenerals faulty).card ≤ |loyalLead faulty values first|

section Lead

variable {faulty : Fin n → Bool} {behaviors : Fin n → ByzantineBehavior} {values : Fin n → Int} {i j : Fin n} {v : Int}

theorem ne_of_loyal (loyal : faulty j = false) (traitor : faulty i = true) : j ≠ i := by
  rintro rfl
  rw [loyal] at traitor
  cases traitor

theorem mem_faultyGenerals (traitor : faulty i = true) : i ∈ faultyGenerals faulty :=
  Finset.mem_filter.mpr ⟨Finset.mem_univ i, traitor⟩

/-- The lead among all loyal generals. -/
def wholeLead (faulty : Fin n → Bool) (values : Fin n → Int) : Int :=
  ∑ i ∈ Finset.univ.filter fun i => faulty i = false, weight (values i)

variable (values) in
theorem loyalLead_eq (loyal : faulty i = false) :
    loyalLead faulty values i = wholeLead faulty values - weight (values i) := by
  have others : loyalOthers faulty i = (Finset.univ.filter fun i => faulty i = false).erase i := by
    ext j
    simp [loyalOthers, Fin.ext_iff]
  have member : i ∈ Finset.univ.filter fun i => faulty i = false := by simp [loyal]
  rw [loyalLead, others, wholeLead, ← Finset.add_sum_erase _ _ member, add_sub_cancel_left]

variable (values v) in
theorem wholeLead_update (loyal : faulty i = false) :
    wholeLead faulty (Function.update values i v) = wholeLead faulty values - weight (values i) + weight v := by
  have member : i ∈ Finset.univ.filter fun i => faulty i = false := by simp [loyal]
  have same : ∑ j ∈ (Finset.univ.filter fun i => faulty i = false).erase i, weight (Function.update values i v j) =
      ∑ j ∈ (Finset.univ.filter fun i => faulty i = false).erase i, weight (values j) := by
    refine Finset.sum_congr rfl fun j other => ?_
    rw [Function.update_of_ne (Finset.ne_of_mem_erase other)]
  rw [wholeLead, wholeLead, ← Finset.add_sum_erase _ _ member, ← Finset.add_sum_erase _ _ member, same,
    Function.update_self]
  omega

/-- The lead does not count the values of the faulty generals. -/
theorem wholeLead_congr {other : Fin n → Int} (same : ∀ i, faulty i = false → other i = values i) :
    wholeLead faulty other = wholeLead faulty values :=
  Finset.sum_congr rfl fun i member => congrArg weight (same i (Finset.mem_filter.mp member).2)

theorem loyalLead_congr {other : Fin n → Int} (same : ∀ i, faulty i = false → other i = values i) (receiver : Nat) :
    loyalLead faulty other receiver = loyalLead faulty values receiver :=
  Finset.sum_congr rfl fun i member => congrArg weight (same i (Finset.mem_filter.mp member).2.2)

end Lead

theorem weight_mul_le {w : Int} (binary : w = 0 ∨ w = 1) (v : Int) : weight w * weight v ≤ 1 := by
  have bounds := abs_le.mp (abs_weight_le v)
  rcases binary with rfl | rfl <;> simp <;> omega

/-- The generals of a list that come before a loyal one, if all loyal generals do not. -/
theorem firstLoyal_of_split {faulty : Fin n → Bool} {passed rest : List (Fin n)} {i : Fin n}
    (split : List.finRange n = passed ++ i :: rest) (loyal : faulty i = false)
    (left : ∀ j, faulty j = false → j ∈ i :: rest) : firstLoyal faulty = some i := by
  have apart := List.disjoint_of_nodup_append (split ▸ List.nodup_finRange n)
  have before : (passed.find? fun j => !faulty j) = none := by
    refine List.find?_eq_none.mpr fun j among loyal' => ?_
    exact apart among (left j (by simpa using loyal'))
  rw [firstLoyal, split, List.find?_append, before, Option.none_or, List.find?_cons_of_pos (by simp [loyal])]

section Silent

variable {faulty : Fin n → Bool} {behaviors : Fin n → ByzantineBehavior} {values : Fin n → Int}
  {ba : ByzantineAgreement n} {commander : Fin n} {w order : Int}

theorem takeTurn_silent (shows' : Shows faulty behaviors values ba) (traitor : faulty commander = true)
    (silent : behaviors commander = .silent) (i : Fin n) : takeTurn commander 0 ba i = pure ba := by
  unfold takeTurn
  split
  · rfl
  · have nothing : sends (ba.generals commander) = some (-1) := by simp [shows'.general, sends, traitor, silent]
    rw [if_pos rfl, hearCommander, byzSendValue_of_sends nothing]
    rfl

theorem card_vocal_lt (traitor : faulty commander = true) (silent : behaviors commander = .silent) (receiver : Nat) :
    (vocal faulty behaviors receiver).card < (faultyGenerals faulty).card := by
  refine Finset.card_lt_card (Finset.ssubset_iff_of_subset ?_ |>.mpr ⟨commander, ?_, ?_⟩)
  · exact fun i member => Finset.mem_filter.mpr ⟨Finset.mem_univ i, (Finset.mem_filter.mp member).2.2.1⟩
  · simpa [faultyGenerals] using traitor
  · simp [vocal, silent]

/-- In round 1, before the turn of the first loyal general, and after it: those whose turn is over hold the
value that leads by more than the faulty generals can send. -/
def Leaning (faulty : Fin n → Bool) (values : Fin n → Int) (w : Int) (rest : List (Fin n)) (y : Fin n → Int) : Prop :=
  (∀ i, faulty i = false → y i = values i ∧ i ∈ rest) ∨
    ((faultyGenerals faulty).card < weight w * wholeLead faulty y ∧ ∀ i, faulty i = false → i ∉ rest → y i = w)

variable {passed rest : List (Fin n)} {i : Fin n} {y : Fin n → Int}

theorem Leaning.skip {later : Fin n → Int} (leaning : Leaning faulty values w (i :: rest) y) (traitor : faulty i = true)
    (same : ∀ j, faulty j = false → later j = y j) : Leaning faulty values w rest later := by
  rcases leaning with fresh | ⟨ahead, settled⟩
  · refine .inl fun j loyal => ⟨(same j loyal).trans (fresh j loyal).1, ?_⟩
    exact (List.mem_cons.mp (fresh j loyal).2).resolve_left (ne_of_loyal loyal traitor)
  · refine .inr ⟨(wholeLead_congr same).symm ▸ ahead, fun j loyal missing => ?_⟩
    rw [same j loyal]
    exact told_skip settled (by simp [traitor]) j loyal missing

theorem Leaning.vote (binary : w = 0 ∨ w = 1)
    (leans : ∀ first ∈ firstLoyal faulty, (faultyGenerals faulty).card ≤ weight w * loyalLead faulty values first)
    (split : List.finRange n = passed ++ i :: rest) (loyal : faulty i = false)
    (leaning : Leaning faulty values w (i :: rest) y) :
    (faultyGenerals faulty).card ≤ weight w * loyalLead faulty y i ∧
      Leaning faulty values w rest (Function.update y i w) := by
  have square := weight_mul_self binary
  have own := weight_mul_le binary (y i)
  have turn := loyalLead_eq y loyal
  have after := wholeLead_update y w loyal
  have others : weight w * loyalLead faulty y i = weight w * wholeLead faulty y - weight w * weight (y i) := by
    rw [turn, mul_sub]
  have voted : weight w * wholeLead faulty (Function.update y i w) = weight w * loyalLead faulty y i + 1 := by
    rw [after, ← turn, mul_add, square]
  rcases leaning with fresh | ⟨ahead, settled⟩
  · have first := firstLoyal_of_split split loyal fun j loyal => (fresh j loyal).2
    have start := leans i first
    rw [← loyalLead_congr fun j loyal => (fresh j loyal).1] at start
    have nobody : ∀ j, faulty j = false → j ∉ i :: rest → y j = w :=
      fun j loyal missing => absurd (fresh j loyal).2 missing
    exact ⟨start, .inr ⟨by omega, told_update nobody rfl⟩⟩
  · exact ⟨by omega, .inr ⟨by omega, told_update settled rfl⟩⟩

theorem must_takeTurn_leaning (binary : w = 0 ∨ w = 1) (traitor : faulty commander = true)
    (silent : behaviors commander = .silent)
    (leans : ∀ first ∈ firstLoyal faulty, (faultyGenerals faulty).card ≤ weight w * loyalLead faulty values first)
    (split : List.finRange n = passed ++ i :: rest) (shown : Shows faulty behaviors y ba)
    (leaning : Leaning faulty values w (i :: rest) y) :
    Must (takeTurn commander 1 ba i) fun later => ∃ y', Shows faulty behaviors y' later ∧
      y' commander = y commander ∧ Leaning faulty values w rest y' := by
  unfold takeTurn
  by_cases own : i = commander
  · rw [if_pos own]
    exact must_pure ⟨y, shown, rfl, leaning.skip (own ▸ traitor) fun _ _ => rfl⟩
  · rw [if_neg own, if_neg one_ne_zero]
    refine (must_relay shown commander i 1).mono fun later ⟨v, shown', majority⟩ => ?_
    refine ⟨_, shown', Function.update_of_ne (Ne.symm own) .., ?_⟩
    cases loyal : faulty i with
    | true =>
      exact leaning.skip loyal fun j loyal' => Function.update_of_ne (ne_of_loyal loyal' loyal) ..
    | false =>
      obtain ⟨ahead, voted⟩ := leaning.vote binary leans split loyal
      have quiet : (vocal faulty behaviors i.val).card < (faultyGenerals faulty).card :=
        card_vocal_lt traitor silent i.val
      obtain rfl := majority w ⟨binary, by omega⟩
      exact voted

/-- All loyal generals come to hold the value to which all but the first lean. -/
theorem must_playRound_leaning {first : Fin n} (binary : w = 0 ∨ w = 1) (traitor : faulty commander = true)
    (silent : behaviors commander = .silent)
    (leans : ∀ first ∈ firstLoyal faulty, (faultyGenerals faulty).card ≤ weight w * loyalLead faulty values first)
    (loyal : faulty first = false) (shows' : Shows faulty behaviors values ba) :
    Must (playRound commander ba 1) (Holds faulty behaviors commander (values commander) w) := by
  have loop := must_foldlM (takeTurn commander 1) (b := { ba with currentRound := 1 }) (List.finRange n)
    (fun rest later => ∃ y, Shows faulty behaviors y later ∧ y commander = values commander ∧
      Leaning faulty values w rest y)
  have start : Leaning faulty values w (List.finRange n) values := .inl fun i _ => ⟨rfl, List.mem_finRange i⟩
  refine (loop ?_ ⟨values, shows', rfl, start⟩).mono ?_
  · rintro _ i rest later split ⟨y, shown, kept, leaning⟩
    exact (must_takeTurn_leaning binary traitor silent leans split shown leaning).mono
      fun _ ⟨y', shown', same, leaning'⟩ => ⟨y', shown', same.trans kept, leaning'⟩
  · rintro later ⟨y, shown, kept, fresh | ⟨_, settled⟩⟩
    · exact absurd (fresh first loyal).2 List.not_mem_nil
    · exact ⟨y, shown, kept, fun i loyal => settled i loyal List.not_mem_nil⟩

/-- Round 0 of a silent commander changes nothing. -/
theorem playRound_silent (shows' : Shows faulty behaviors values ba) (traitor : faulty commander = true)
    (silent : behaviors commander = .silent) :
    playRound commander ba 0 = pure { ba with currentRound := 0 } := by
  have shown : Shows faulty behaviors values { ba with currentRound := 0 } := shows'
  have unchanged (turns : List (Fin n)) : turns.foldlM (takeTurn commander 0) { ba with currentRound := 0 } =
      (pure { ba with currentRound := 0 } : Draws (ByzantineAgreement n)) := by
    induction turns with
    | nil => rfl
    | cons i rest ih =>
      rw [List.foldlM_cons, takeTurn_silent shown traitor silent i]
      exact ih
  exact unchanged (List.finRange n)

theorem laterRounds_succ (m : Nat) : ∃ rounds, laterRounds (m + 1) = 1 :: rounds ∧ ∀ round ∈ rounds, round ≠ 0 := by
  have split : laterRounds (m + 1) = 1 :: (laterRounds m).map (· + 1) := by
    rw [laterRounds, List.range_succ_eq_map]
    rfl
  exact ⟨_, split, fun round member => ne_zero_of_mem (split ▸ List.mem_cons_of_mem 1 member)⟩

theorem exists_loyal {m : Nat} (few : (faultyGenerals faulty).card ≤ m) (enough : 3 * m < n) :
    ∃ i, faulty i = false := by
  by_contra none
  have all : faultyGenerals faulty = Finset.univ := by
    refine Finset.eq_univ_of_forall fun i => Finset.mem_filter.mpr ⟨Finset.mem_univ i, ?_⟩
    exact Bool.not_eq_false _ ▸ fun loyal => none ⟨i, loyal⟩
  rw [all, Finset.card_univ, Fintype.card_fin] at few
  omega

theorem must_rounds_silent {m : Nat} (shows' : Shows faulty behaviors values ba) (enough : 3 * m < n)
    (few : (faultyGenerals faulty).card ≤ m) (binary : w = 0 ∨ w = 1) (traitor : faulty commander = true)
    (silent : behaviors commander = .silent)
    (leans : ∀ first ∈ firstLoyal faulty, (faultyGenerals faulty).card ≤ weight w * loyalLead faulty values first) :
    Must ((List.range (m + 1)).foldlM (playRound commander) ba)
      (Holds faulty behaviors commander (values commander) w) := by
  have some_faulty : 0 < (faultyGenerals faulty).card := Finset.card_pos.mpr ⟨commander, mem_faultyGenerals traitor⟩
  obtain ⟨m, rfl⟩ : ∃ rounds, m = rounds + 1 := ⟨m - 1, by omega⟩
  obtain ⟨rounds, split, later⟩ := laterRounds_succ m
  obtain ⟨first, loyal⟩ := exists_loyal few enough
  have first_round : Must (playRound commander ba 0) (Shows faulty behaviors values) :=
    playRound_silent shows' traitor silent ▸ must_pure shows'
  rw [range_succ_eq, split, List.foldlM_cons]
  refine first_round.bind fun ba shown => ?_
  rw [List.foldlM_cons]
  refine (must_playRound_leaning binary traitor silent leans loyal shown).bind fun next holds => ?_
  exact must_rounds_hold (outnumbered few enough (by omega)) binary later holds

end Silent

section Adversary

variable {faulty : Fin n → Bool} {behaviors : Fin n → ByzantineBehavior} {values : Fin n → Int}
  {ba : ByzantineAgreement n} {commander i : Fin n} {receiver round : Nat} {bit : Int}

theorem may_drawBit (binary : bit = 0 ∨ bit = 1) : May drawBit (· = bit) := by
  rcases binary with rfl | rfl
  · exact (may_draw 0).bind fun _ drawn => may_pure (by rw [drawn]; rfl)
  · exact (may_draw 1).bind fun _ drawn => may_pure (by rw [drawn]; rfl)

theorem may_send (node : ByzantineNode) : May (byzSendValue node) fun _ => True := by
  cases sent : sends node with
  | some v =>
    rw [byzSendValue_of_sends sent]
    exact may_pure trivial
  | none =>
    have random : byzSendValue node = drawBit := by
      obtain ⟨value, isFaulty, behavior⟩ := node
      cases isFaulty <;> cases behavior <;> first | rfl | cases sent
    rw [random]
    exact (may_drawBit (.inl rfl)).mono fun _ _ => trivial

/-- Votes that do not lead away from a bit may be decided for it. -/
theorem may_majority (votes : List Int) (binary : bit = 0 ∨ bit = 1) :
    May (byzMajority votes) fun v => 0 ≤ weight bit * lead votes → v = bit := by
  have ahead := lead_eq votes
  have drawn : May drawBit fun v => 0 ≤ weight bit * lead votes → v = bit :=
    (may_drawBit binary).mono fun _ same _ => same
  unfold byzMajority
  split
  · exact drawn
  · simp only
    split_ifs with zeros ones
    · refine may_pure fun level => ?_
      rcases binary with rfl | rfl
      · rfl
      · simp only [weight_one] at level
        omega
    · refine may_pure fun level => ?_
      rcases binary with rfl | rfl
      · simp only [weight_zero] at level
        omega
      · rfl
    · exact drawn

/-- Every faulty general draws what it sends, or is silent. -/
def Hostile (faulty : Fin n → Bool) (behaviors : Fin n → ByzantineBehavior) : Prop :=
  ∀ i, faulty i = true → behaviors i = .random ∨ behaviors i = .silent

/-- All that draw may send the same bit. -/
theorem may_sendBit (value : Int) {isFaulty : Bool} {behavior : ByzantineBehavior} (binary : bit = 0 ∨ bit = 1)
    (hostile : isFaulty = true → behavior = .random ∨ behavior = .silent) :
    May (byzSendValue ⟨value, isFaulty, behavior⟩) fun v =>
      (weight v = (if isFaulty = false then weight value else 0) +
        (if isFaulty = true ∧ behavior ≠ .silent then 1 else 0) * weight bit) ∧ (isFaulty = false → v = value) := by
  cases isFaulty with
  | false => exact may_pure (by simp)
  | true =>
    rcases hostile rfl with rfl | rfl
    · exact (may_drawBit binary).mono fun v drawn => by simp [drawn]
    · exact may_pure (by simp [weight])

theorem may_collectFrom {collected : ByzantineAgreement n × List Int} (hostile : Hostile faulty behaviors)
    (binary : bit = 0 ∨ bit = 1) (shows' : Shows faulty behaviors values collected.1) :
    May (collectFrom receiver round collected i) fun later => Shows faulty behaviors values later.1 ∧
      lead later.2 =
        lead collected.2 + share faulty values receiver i + slack faulty behaviors receiver i * weight bit ∧
      (collected.2 ≠ [] ∨ i.val ≠ receiver ∧ faulty i = false ∧ 0 ≤ values i → later.2 ≠ []) := by
  unfold collectFrom
  by_cases own : i.val = receiver
  · rw [if_pos own]
    exact may_pure ⟨shows', by simp [share, slack, own], by simp [own]⟩
  · rw [if_neg own, shows'.general]
    refine (may_sendBit (values i) binary (hostile i)).bind fun v sent => ?_
    simp only [share, slack, own, ne_eq, not_false_eq_true, true_and]
    split
    · refine may_pure ⟨(generals_logValue ..).trans shows', ?_, fun _ => by simp⟩
      rw [lead_append, add_assoc]
      exact congrArg (lead collected.2 + ·) sent.1
    · rename_i negative
      have nothing : weight v = 0 := by
        unfold weight
        split_ifs <;> omega
      have unheard : ¬ (faulty i = false ∧ 0 ≤ values i) := by
        rintro ⟨loyal, nonneg⟩
        rw [sent.2 loyal] at negative
        exact negative nonneg
      have added := sent.1
      rw [nothing] at added
      refine may_pure ⟨shows', ?_, fun some_sent => some_sent.resolve_right unheard⟩
      rw [add_assoc]
      exact (congrArg (lead collected.2 + ·) added).symm ▸ (add_zero _).symm

variable (round) in
theorem may_collect {other : Fin n} (hostile : Hostile faulty behaviors) (binary : bit = 0 ∨ bit = 1)
    (apart : other.val ≠ receiver) (loyal : faulty other = false) (nonneg : 0 ≤ values other)
    (shows' : Shows faulty behaviors values ba) :
    May (byzCollectValues ba receiver round) fun later => Shows faulty behaviors values later.1 ∧
      lead later.2 = loyalLead faulty values receiver + (vocal faulty behaviors receiver).card * weight bit ∧
      later.2 ≠ [] := by
  have loop := may_foldlM (collectFrom receiver round) (b := (ba, [])) (List.finRange n)
    (fun rest collected => Shows faulty behaviors values collected.1 ∧
      lead collected.2 + (rest.map (share faulty values receiver)).sum +
        (rest.map (slack faulty behaviors receiver)).sum * weight bit =
          loyalLead faulty values receiver + (vocal faulty behaviors receiver).card * weight bit ∧
      (other ∉ rest → collected.2 ≠ []))
  refine (loop ?_ ⟨shows', ?_, fun missing => absurd (List.mem_finRange other) missing⟩).mono fun later held => ?_
  · rintro _ i rest collected _ ⟨shown, total, heard⟩
    refine (may_collectFrom hostile binary shown).mono fun later ⟨shown', added, kept⟩ => ?_
    refine ⟨shown', ?_, fun missing => ?_⟩
    · simp only [List.map_cons, List.sum_cons, add_mul] at total
      omega
    · by_cases same : other = i
      · exact kept (.inr (same ▸ ⟨apart, loyal, nonneg⟩))
      · exact kept (.inl (heard (List.mem_cons.not.mpr (not_or.mpr ⟨same, missing⟩))))
  · rw [← Fin.sum_univ_def, ← Fin.sum_univ_def, sum_share, sum_slack]
    simp [lead]
  · exact ⟨held.1, by simpa using held.2.1, held.2.2 List.not_mem_nil⟩

theorem may_hearOthers (ba : ByzantineAgreement n) (commander i : Fin n) (round : Nat) :
    May (hearOthers ba commander i round) fun _ => True := by
  refine may_foldlM _ (List.finRange n) (fun _ _ => True) ?_ trivial
  intro _ j _ _ _ _
  split
  · exact may_pure trivial
  · exact (may_send (ba.generals j)).bind fun _ _ => may_pure trivial

/-- A lieutenant may take over either bit, unless the loyal others are too far apart for the draws. -/
theorem may_relay {other : Fin n} (hostile : Hostile faulty behaviors) (binary : bit = 0 ∨ bit = 1)
    (apart : other ≠ i) (loyal : faulty other = false) (nonneg : 0 ≤ values other)
    (shows' : Shows faulty behaviors values ba) (commander : Fin n) (round : Nat) :
    May (relayValues ba commander i round) fun later =>
      ∃ v, Shows faulty behaviors (Function.update values i v) later ∧
        (|loyalLead faulty values i| ≤ (vocal faulty behaviors i).card → v = bit) := by
  refine (may_hearOthers ba commander i round).bind fun _ _ => ?_
  have collects := may_collect round hostile binary (Fin.val_ne_of_ne apart) loyal nonneg shows'
  refine collects.bind fun collected ⟨shown, total, heard⟩ => ?_
  rw [adoptMajority, if_pos (List.length_pos_of_ne_nil heard)]
  refine (may_majority collected.2 binary).bind fun v chosen => ?_
  refine may_pure ⟨v, shown.setValue i v, fun close => chosen ?_⟩
  have bounds := abs_le.mp close
  rw [total]
  rcases binary with rfl | rfl
  · simp only [weight_zero]
    omega
  · simp only [weight_one]
    omega

end Adversary

section Rotation

variable {faulty : Fin n → Bool} {behaviors : Fin n → ByzantineBehavior} {ba : ByzantineAgreement n}
  {commander i j : Fin n} {passed rest : List (Fin n)} {round : Nat}

/-- The loyal general whose turn is next, in this round or the following. -/
def nextLoyal (faulty : Fin n → Bool) (rest : List (Fin n)) : Option (Fin n) :=
  (rest ++ List.finRange n).find? fun i => !faulty i

theorem loyal_of_next (next : nextLoyal faulty rest = some i) : faulty i = false := by
  simpa using List.find?_some next

theorem exists_nextLoyal (loyal : faulty i = false) (rest : List (Fin n)) : ∃ j, nextLoyal faulty rest = some j := by
  cases found : nextLoyal faulty rest with
  | some j => exact ⟨j, rfl⟩
  | none =>
    have missing := List.find?_eq_none.mp found i (List.mem_append_right _ (List.mem_finRange i))
    simp [loyal] at missing

/-- If there is another loyal general, no one has two turns in a row. -/
theorem nextLoyal_ne (split : List.finRange n = passed ++ i :: rest) (other : ∃ j, j ≠ i ∧ faulty j = false)
    (next : nextLoyal faulty rest = some j) : j ≠ i := by
  rintro rfl
  obtain ⟨k, apart, loyal⟩ := other
  have unique := split ▸ List.nodup_finRange n
  have once := (List.nodup_cons.mp (List.nodup_append.mp unique).2.1).1
  have before : j ∉ passed := fun among => List.disjoint_of_nodup_append unique among List.mem_cons_self
  have missing : j ∉ rest ++ passed := fun among => (List.mem_append.mp among).elim once before
  have whole : rest ++ List.finRange n = (rest ++ passed) ++ j :: rest := by rw [split, List.append_assoc]
  rw [nextLoyal, whole, List.find?_append] at next
  cases found : (rest ++ passed).find? fun m => !faulty m with
  | some m =>
    rw [found, Option.some_or] at next
    exact missing (Option.some.inj next ▸ List.mem_of_find?_eq_some found)
  | none =>
    have somewhere : k ∈ passed ++ j :: rest := split ▸ List.mem_finRange k
    have turn : k ∈ rest ++ passed := by
      rcases List.mem_append.mp somewhere with early | late
      · exact List.mem_append_right _ early
      · exact List.mem_append_left _ ((List.mem_cons.mp late).resolve_left apart)
    have asleep := List.find?_eq_none.mp found k turn
    simp [loyal] at asleep

theorem vocal_of_loyal (loyal : faulty i = false) (loyal' : faulty j = false) :
    vocal faulty behaviors i = vocal faulty behaviors j := by
  refine Finset.filter_congr fun k _ => ?_
  have apart (m : Fin n) (loyal : faulty m = false) (traitor : faulty k = true) : k.val ≠ m.val := by
    intro same
    rw [Fin.ext same, loyal] at traitor
    cases traitor
  exact ⟨fun held => ⟨apart j loyal' held.2.1, held.2⟩, fun held => ⟨apart i loyal held.2.1, held.2⟩⟩

/-- The others of the loyal general whose turn is next are close enough for the draws to decide. -/
def Balanced (faulty : Fin n → Bool) (behaviors : Fin n → ByzantineBehavior) (rest : List (Fin n))
    (ba : ByzantineAgreement n) : Prop :=
  ∃ y, Shows faulty behaviors y ba ∧ (∀ i, faulty i = false → y i = 0 ∨ y i = 1) ∧
    ∀ next ∈ nextLoyal faulty rest, |loyalLead faulty y next| ≤ (vocal faulty behaviors next).card

/-- If a general takes over the value of the next, the next sees the same values among its others. -/
theorem loyalLead_rotate {y : Fin n → Int} (loyal : faulty i = false) (loyal' : faulty j = false) (apart : j ≠ i) :
    loyalLead faulty (Function.update y i (y j)) j = loyalLead faulty y i := by
  rw [loyalLead_eq _ loyal', loyalLead_eq _ loyal, wholeLead_update _ _ loyal, Function.update_of_ne apart]
  omega

theorem may_takeTurn_balanced (hostile : Hostile faulty behaviors) (later : round ≠ 0)
    (traitor : faulty commander = true) (several : ∀ i, ∃ j, j ≠ i ∧ faulty j = false)
    (split : List.finRange n = passed ++ i :: rest) (balanced : Balanced faulty behaviors (i :: rest) ba) :
    May (takeTurn commander round ba i) (Balanced faulty behaviors rest) := by
  obtain ⟨y, shown, bits, close⟩ := balanced
  have skip (asleep : faulty i = true) : nextLoyal faulty (i :: rest) = nextLoyal faulty rest :=
    List.find?_cons_of_neg (by simp [asleep])
  obtain ⟨other, apart, loyal_other⟩ := several i
  have nonneg : 0 ≤ y other := by have := bits other loyal_other; omega
  unfold takeTurn
  by_cases own : i = commander
  · rw [if_pos own]
    exact may_pure ⟨y, shown, bits, skip (own ▸ traitor) ▸ close⟩
  · rw [if_neg own, if_neg later]
    cases loyal : faulty i with
    | true =>
      refine (may_relay hostile (.inl rfl) apart loyal_other nonneg shown commander round).mono ?_
      rintro next ⟨v, shown', _⟩
      have same : ∀ j, faulty j = false → Function.update y i v j = y j :=
        fun j loyal' => Function.update_of_ne (ne_of_loyal loyal' loyal) ..
      refine ⟨_, shown', fun j loyal' => (same j loyal').symm ▸ bits j loyal', fun j next' => ?_⟩
      rw [loyalLead_congr same]
      exact close j (skip loyal ▸ next')
    | false =>
      have turn : nextLoyal faulty (i :: rest) = some i := List.find?_cons_of_pos (by simp [loyal])
      obtain ⟨j, next⟩ := exists_nextLoyal loyal rest
      have loyal' := loyal_of_next next
      have apart' := nextLoyal_ne split (several i) next
      refine (may_relay hostile (bits j loyal') apart loyal_other nonneg shown commander round).mono ?_
      rintro following ⟨v, shown', chosen⟩
      obtain rfl := chosen (close i turn)
      refine ⟨_, shown', fun k loyal_k => ?_, fun k next' => ?_⟩
      · by_cases same : k = i
        · rw [same, Function.update_self]
          exact bits j loyal'
        · rw [Function.update_of_ne same]
          exact bits k loyal_k
      · obtain rfl : k = j := Option.some.inj (next'.symm.trans next)
        rw [loyalLead_rotate loyal loyal' apart', ← vocal_of_loyal loyal loyal']
        exact close i turn

/-- The first turn of a round is that which comes next after the round before. -/
theorem nextLoyal_finRange : nextLoyal faulty (List.finRange n) = nextLoyal faulty [] := by
  rw [nextLoyal, List.find?_append, Option.or_self]
  rfl

theorem may_rounds_balanced {rounds : List Nat} (hostile : Hostile faulty behaviors) (traitor : faulty commander = true)
    (several : ∀ i, ∃ j, j ≠ i ∧ faulty j = false) (later : ∀ round ∈ rounds, round ≠ 0)
    (balanced : Balanced faulty behaviors [] ba) :
    May (rounds.foldlM (playRound commander) ba) (Balanced faulty behaviors []) := by
  refine may_foldlM _ rounds (fun _ => Balanced faulty behaviors []) ?_ balanced
  rintro _ round _ ba split ⟨y, shown, bits, close⟩
  have nonzero := later round (split ▸ List.mem_append_right _ List.mem_cons_self)
  refine may_foldlM _ (List.finRange n) (Balanced faulty behaviors) (fun passed i rest ba split balanced => ?_)
    ⟨y, shown, bits, nextLoyal_finRange ▸ close⟩
  exact may_takeTurn_balanced hostile nonzero traitor several split balanced

end Rotation

section Agreement

variable {faulty : Fin n → Bool} {behaviors : Fin n → ByzantineBehavior} {values : Fin n → Int}
  {ba : ByzantineAgreement n} {commander : Fin n} {m : Nat}

/-- The decision at the end leaves the values as they are. -/
theorem generals_byzOm (ba : ByzantineAgreement n) (commander : Fin n) (m : Nat) (numbers : List Nat) :
    (byzOmAlgorithm ba commander m numbers).1.generals =
      ((List.range (m + 1)).foldlM (playRound commander) ba numbers).1.generals := by
  set played := (List.range (m + 1)).foldlM (playRound commander) ba numbers
  have shown : Shows (fun i => (played.1.generals i).isFaulty) (fun i => (played.1.generals i).behavior)
      (fun i => (played.1.generals i).value) played.1 := rfl
  have collects : Must (byzCollectValues played.1 0 (m + 1)) _ := must_collect shown
  exact (collects played.2).1

theorem unanimous_of_must {w order : Int}
    (must : Must ((List.range (m + 1)).foldlM (playRound commander) ba) (Holds faulty behaviors commander order w))
    (numbers : List Nat) : Unanimous faulty commander (byzOmAlgorithm ba commander m numbers).1 := by
  obtain ⟨y, shown, _, hold⟩ := must numbers
  intro i j _ _ loyal loyal'
  rw [generals_byzOm, shown.general, shown.general]
  exact (hold i loyal).trans (hold j loyal').symm

/-- The values that are balanced are not all the same. -/
theorem Balanced.not_unanimous (balanced : Balanced faulty behaviors [] ba) (outnumbered : Outnumbered faulty behaviors)
    (traitor : faulty commander = true) (some_loyal : ∃ i, faulty i = false) : ¬ Unanimous faulty commander ba := by
  intro unanimous
  obtain ⟨y, shown, bits, close⟩ := balanced
  obtain ⟨i, loyal⟩ := some_loyal
  obtain ⟨first, next⟩ := exists_nextLoyal loyal []
  have loyal' := loyal_of_next next
  have hold : ∀ j, faulty j = false → y j = y first := by
    intro j loyal
    have same := unanimous j first (ne_of_loyal loyal traitor) (ne_of_loyal loyal' traitor) loyal loyal'
    rwa [shown.general, shown.general] at same
  have ahead := (outnumbered.outvotes (bits first loyal') hold first).2
  have bounds := abs_le.mp (close first next)
  rcases bits first loyal' with zero | one
  · rw [zero, weight_zero] at ahead
    omega
  · rw [one, weight_one] at ahead
    omega

theorem exists_loyal_ne (few : (faultyGenerals faulty).card ≤ m) (enough : 3 * m < n) (some_faulty : 1 ≤ m)
    (i : Fin n) : ∃ j, j ≠ i ∧ faulty j = false := by
  have quiet := le_card_loyalOthers faulty i
  have several : 0 < (loyalOthers faulty i).card := by omega
  obtain ⟨j, member⟩ := Finset.card_pos.mp several
  obtain ⟨apart, loyal⟩ := (Finset.mem_filter.mp member).2
  exact ⟨j, fun same => apart (congrArg Fin.val same), loyal⟩

/-- Any generals can be given values that are as many 0 as 1, up to one. -/
theorem exists_balanced (S : Finset (Fin n)) :
    ∃ target : Fin n → Int, (∀ i, target i = 0 ∨ target i = 1) ∧ |∑ i ∈ S, weight (target i)| ≤ 1 := by
  obtain ⟨half, subset, size⟩ := Finset.exists_subset_card_eq (Nat.div_le_self S.card 2)
  refine ⟨fun i => if i ∈ half then 0 else 1, fun i => by by_cases member : i ∈ half <;> simp [member], ?_⟩
  have zeros : ∑ i ∈ half, weight (if i ∈ half then 0 else 1) = half.card := by
    rw [Finset.sum_congr rfl fun i member => by rw [if_pos member, weight_zero]]
    simp
  have ones : ∑ i ∈ S \ half, weight (if i ∈ half then 0 else 1) = -(S \ half).card := by
    rw [Finset.sum_congr rfl fun i member => by rw [if_neg (Finset.mem_sdiff.mp member).2, weight_one]]
    simp
  have rest := Finset.card_sdiff_add_card_eq_card subset
  rw [← Finset.sum_sdiff subset, zeros, ones]
  exact abs_le.mpr ⟨by omega, by omega⟩

/-- A commander that draws may give the lieutenants any values. -/
theorem may_playRound_random {target : Fin n → Int} (shows' : Shows faulty behaviors values ba)
    (traitor : faulty commander = true) (random : behaviors commander = .random)
    (bits : ∀ i, target i = 0 ∨ target i = 1) :
    May (playRound commander ba 0) fun later =>
      ∃ y, Shows faulty behaviors y later ∧ ∀ i, i ≠ commander → y i = target i := by
  have loop := may_foldlM (takeTurn commander 0) (b := { ba with currentRound := 0 }) (List.finRange n)
    (fun rest later => ∃ y, Shows faulty behaviors y later ∧ ∀ i, i ≠ commander → i ∉ rest → y i = target i)
  refine (loop ?_ ⟨values, shows', fun i _ missing => absurd (List.mem_finRange i) missing⟩).mono ?_
  · rintro _ i rest later _ ⟨y, shown, told⟩
    unfold takeTurn
    by_cases own : i = commander
    · rw [if_pos own]
      exact may_pure ⟨y, shown, told_skip told (not_not.mpr own)⟩
    · have drawn : byzSendValue (later.generals commander) = drawBit := by
        rw [shown.general, traitor, random]
        rfl
      rw [if_neg own, if_pos rfl, hearCommander, drawn]
      refine (may_drawBit (bits i)).bind fun v chosen => ?_
      have nonneg : v ≥ 0 := by have := bits i; omega
      rw [if_pos nonneg]
      exact may_pure ⟨_, shown.setValue i v, told_update told chosen⟩
  · rintro later ⟨y, shown, told⟩
    exact ⟨y, shown, fun i other => told i other List.not_mem_nil⟩

theorem may_disagree (hostile : Hostile faulty behaviors) (enough : 3 * m < n)
    (few : (faultyGenerals faulty).card ≤ m) (traitor : faulty commander = true)
    (balanced : May (playRound commander ba 0) (Balanced faulty behaviors [])) :
    ∃ numbers, ¬ Unanimous faulty commander (byzOmAlgorithm ba commander m numbers).1 := by
  have some_faulty : 0 < (faultyGenerals faulty).card := Finset.card_pos.mpr ⟨commander, mem_faultyGenerals traitor⟩
  have several := exists_loyal_ne few enough (by omega)
  have played : May ((List.range (m + 1)).foldlM (playRound commander) ba) (Balanced faulty behaviors []) := by
    rw [range_succ_eq, List.foldlM_cons]
    exact balanced.bind fun _ => may_rounds_balanced hostile traitor several fun _ => ne_zero_of_mem
  obtain ⟨numbers, y, shown, bits, close⟩ := played.exists
  have kept : Shows faulty behaviors y (byzOmAlgorithm ba commander m numbers).1 :=
    (generals_byzOm ba commander m numbers).trans shown
  have final : Balanced faulty behaviors [] (byzOmAlgorithm ba commander m numbers).1 := ⟨y, kept, bits, close⟩
  exact ⟨numbers, final.not_unanimous (outnumbered few enough (by omega)) traitor (exists_loyal few enough)⟩

variable (values) in
theorem may_disagree_random (enough : 3 * m < n) (few : (faultyGenerals faulty).card ≤ m)
    (traitor : faulty commander = true) :
    ∃ numbers, ¬ Unanimous faulty commander
      (byzOmAlgorithm (byzInitNetwork values faulty fun _ => .random) commander m numbers).1 := by
  have shown : Shows faulty (fun _ => .random) values (byzInitNetwork values faulty fun _ => .random) := rfl
  obtain ⟨i, loyal⟩ := exists_loyal few enough
  obtain ⟨first, next⟩ := exists_nextLoyal loyal []
  obtain ⟨target, bits, level⟩ := exists_balanced (loyalOthers faulty first)
  refine may_disagree (fun _ _ => .inl rfl) enough few traitor ?_
  refine (may_playRound_random shown traitor rfl bits).mono fun later ⟨y, shown', told⟩ => ?_
  have same : ∀ j, faulty j = false → y j = target j := fun j loyal => told j (ne_of_loyal loyal traitor)
  refine ⟨y, shown', fun j loyal => (same j loyal).symm ▸ bits j, fun other next' => ?_⟩
  obtain rfl : other = first := Option.some.inj (next'.symm.trans next)
  have speaks : commander ∈ vocal faulty (fun _ => .random) other := by
    have apart := Fin.val_ne_of_ne (ne_of_loyal (loyal_of_next next) traitor).symm
    simp [vocal, traitor, apart]
  have loud := Finset.card_pos.mpr ⟨commander, speaks⟩
  rw [loyalLead_congr same]
  exact le_trans level (by omega)

theorem may_disagree_silent (enough : 3 * m < n) (few : (faultyGenerals faulty).card ≤ m)
    (binary : ∀ i, values i = 0 ∨ values i = 1) (traitor : faulty commander = true) {first : Fin n}
    (next : firstLoyal faulty = some first) (close : |loyalLead faulty values first| < (faultyGenerals faulty).card) :
    ∃ numbers, ¬ Unanimous faulty commander (byzOmAlgorithm (byzInitNetwork values faulty fun i =>
      if i = commander then .silent else .random) commander m numbers).1 := by
  set behaviors : Fin n → ByzantineBehavior := fun i => if i = commander then .silent else .random with behaviors_eq
  have silent : behaviors commander = .silent := if_pos rfl
  have hostile : Hostile faulty behaviors := by
    intro i _
    by_cases own : i = commander
    · exact .inr (if_pos own)
    · exact .inl (if_neg own)
  have shown : Shows faulty behaviors values (byzInitNetwork values faulty behaviors) := rfl
  refine may_disagree hostile enough few traitor ?_
  rw [playRound_silent shown traitor silent]
  refine may_pure ⟨values, shown, fun i _ => binary i, fun other next' => ?_⟩
  obtain rfl : other = first := Option.some.inj (next'.symm.trans next)
  have others : vocal faulty behaviors other = (faultyGenerals faulty).erase commander := by
    ext i
    simp only [vocal, faultyGenerals, Finset.mem_filter, Finset.mem_univ, true_and, Finset.mem_erase, behaviors_eq]
    by_cases own : i = commander
    · simp [own]
    · simp only [own, if_false, ne_eq, reduceCtorEq, not_false_eq_true, and_true, true_and]
      refine and_iff_right_of_imp fun traitor' same => ?_
      exact ne_of_loyal (loyal_of_next next') traitor' (Fin.ext same).symm
  rw [others, Finset.card_erase_of_mem (mem_faultyGenerals traitor)]
  omega

/-- Whatever the other faulty generals do and whatever is drawn, the loyal lieutenants agree exactly if the
commander is loyal or reconciles them. -/
theorem byzOm_agreement_iff (values : Fin n → Int) (faulty : Fin n → Bool) (commander : Fin n)
    (behavior : ByzantineBehavior) (m : Nat) (enough : 3 * m < n) (binary : ∀ i, values i = 0 ∨ values i = 1)
    (few : (faultyGenerals faulty).card ≤ m) :
    (∀ behaviors : Fin n → ByzantineBehavior, behaviors commander = behavior → ∀ numbers,
      Unanimous faulty commander (byzOmAlgorithm (byzInitNetwork values faulty behaviors) commander m numbers).1) ↔
      Reconciles values faulty commander behavior := by
  obtain ⟨i, loyal⟩ := exists_loyal few enough
  obtain ⟨first, next⟩ := exists_nextLoyal loyal []
  constructor
  · intro unanimous traitor
    cases behavior with
    | honest => trivial
    | traitor => trivial
    | random =>
      obtain ⟨numbers, divided⟩ := may_disagree_random values enough few traitor
      exact divided (unanimous _ rfl numbers)
    | silent =>
      intro first next
      by_contra close
      obtain ⟨numbers, divided⟩ := may_disagree_silent enough few binary traitor next (not_le.mp close)
      exact divided (unanimous _ (if_pos rfl) numbers)
  · rintro reconciles behaviors rfl numbers
    have shown : Shows faulty behaviors values (byzInitNetwork values faulty behaviors) := rfl
    have obeyed {w : Int} (bit : w = 0 ∨ w = 1)
        (sent : sends ⟨values commander, faulty commander, behaviors commander⟩ = some w) :=
      unanimous_of_must (must_rounds_obeyed shown enough few bit sent) numbers
    cases traitor : faulty commander with
    | false => exact obeyed (binary commander) (if_pos traitor)
    | true =>
      have holds := reconciles traitor
      cases behavior : behaviors commander with
      | honest => exact obeyed (binary commander) (by simp [sends, traitor, behavior])
      | traitor =>
        have bit : 1 - values commander = 0 ∨ 1 - values commander = 1 := by have := binary commander; omega
        exact obeyed bit (by simp [sends, traitor, behavior])
      | random =>
        rw [behavior] at holds
        exact holds.elim
      | silent =>
        rw [behavior] at holds
        have clear := holds first next
        obtain ⟨w, bit, leans⟩ : ∃ w : Int, (w = 0 ∨ w = 1) ∧
            (faultyGenerals faulty).card ≤ weight w * loyalLead faulty values first := by
          rcases le_abs.mp clear with zeros | ones
          · exact ⟨0, .inl rfl, by simpa using zeros⟩
          · exact ⟨1, .inr rfl, by simpa using ones⟩
        refine unanimous_of_must (must_rounds_silent shown enough few bit traitor behavior ?_) numbers
        intro other next'
        exact Option.some.inj (next'.symm.trans next) ▸ leans

/-- A commander that keeps silent among four generals, the last two of which start with the same value. -/
theorem byzOm_agreement_four :
    (∀ behaviors : Fin 4 → ByzantineBehavior, behaviors 0 = .silent → ∀ numbers,
      Unanimous (· = 0) 0 (byzOmAlgorithm (byzInitNetwork (fun i => if i = 1 then 1 else 0) (· = 0) behaviors) 0 1
        numbers).1) ↔ Reconciles (fun i : Fin 4 => if i = 1 then 1 else 0) (· = 0) 0 .silent :=
  byzOm_agreement_iff _ _ 0 .silent 1 (by decide) (by decide) (by decide)

/-- A commander that draws what it sends divides three loyal lieutenants. -/
theorem byzOm_divided :
    (faultyGenerals fun i : Fin 4 => i = 0).card ≤ 1 ∧ ¬ Unanimous (fun i : Fin 4 => i = 0) 0
      (byzOmAlgorithm (byzInitNetwork (fun _ => 0) (fun i => i = 0) fun _ => .random) 0 1 [0, 0, 1, 0, 1, 0]).1 := by
  refine ⟨by decide, fun unanimous => ?_⟩
  have same := unanimous 1 2 (by decide) (by decide) (by decide) (by decide)
  revert same
  decide +kernel

end Agreement

end MiniNetDist.SystemTheory.Byzantine
