import MiniNetDist.DistProtocol.MultiPaxos

/-! The numbers under which the proposers of `mini-dist-protocol/src/paxos.c` prepare. An instance takes a number from
its proposer's own thousand, an attempt to lead adds a thousand to whatever the proposer had. -/

namespace MiniNetDist.DistProtocol.Paxos

open Library

variable {n : Nat}

section Issued

variable {Member : Type*} {issued : List (Member × Nat)} {p : Member} {number : Nat}

/-- Each member's numbers increase in the order of issue, and no two members share one. -/
structure UniqueIncreasing (issued : List (Member × Nat)) : Prop where
  increasing : issued.Pairwise fun earlier later => earlier.1 = later.1 → earlier.2 < later.2
  unique : ∀ one ∈ issued, ∀ other ∈ issued, one.2 = other.2 → one.1 = other.1

theorem UniqueIncreasing.nil : UniqueIncreasing ([] : List (Member × Nat)) :=
  ⟨.nil, fun _ inside => by cases inside⟩

theorem UniqueIncreasing.ofPrefix {longer : List (Member × Nat)} (valid : UniqueIncreasing longer)
    (start : issued <+: longer) : UniqueIncreasing issued :=
  ⟨valid.increasing.sublist start.sublist,
    fun one inside other inside' => valid.unique one (start.mem inside) other (start.mem inside')⟩

theorem uniqueIncreasing_append (valid : UniqueIncreasing issued) :
    UniqueIncreasing (issued ++ [(p, number)]) ↔
      (∀ earlier, (p, earlier) ∈ issued → earlier < number) ∧ ∀ q ≠ p, (q, number) ∉ issued := by
  constructor
  · intro longer
    constructor
    · intro earlier inside
      exact (List.pairwise_append.mp longer.increasing).2.2 _ inside _ (List.mem_singleton_self _) rfl
    · intro q other inside
      exact other (longer.unique _ (List.mem_append_left _ inside) _
        (List.mem_append_right _ (List.mem_singleton_self _)) rfl)
  · rintro ⟨above, fresh⟩
    constructor
    · refine List.pairwise_append.mpr ⟨valid.increasing, List.pairwise_singleton _ _, ?_⟩
      rintro ⟨q, earlier⟩ inside _ last same
      cases List.mem_singleton.mp last
      obtain rfl : q = p := same
      exact above earlier inside
    · have apart : ∀ q earlier, (q, earlier) ∈ issued → earlier = number → q = p := by
        intro q earlier inside same
        by_contra other
        exact fresh q other (same ▸ inside)
      rintro ⟨q, one⟩ inside ⟨r, other⟩ inside' same
      rcases List.mem_append.mp inside with old | new <;> rcases List.mem_append.mp inside' with old' | new'
      · exact valid.unique _ old _ old' same
      · cases List.mem_singleton.mp new'
        exact apart q one old same
      · cases List.mem_singleton.mp new
        exact (apart r other old' same.symm).symm
      · cases List.mem_singleton.mp new
        cases List.mem_singleton.mp new'
        rfl

end Issued

section Taken

/-- The numbers that a proposer has used, from the number it has now and the one it had when it first ran an
instance: whole thousands before that; afterwards the numbers of its instances, and from the last of these on every
thousandth. -/
def Taken (q : Fin n) (proposalNum : Nat) (firstNum : Option Nat) (number : Nat) : Prop :=
  match firstNum with
  | none => 0 < number ∧ number ≤ proposalNum ∧ number % 1000 = 0
  | some first =>
    0 < number ∧ number ≤ first ∧ number % 1000 = 0 ∨
      (q.val + 1) * 1000 < number ∧ number ≤ proposalNum ∧
        (number ≤ (q.val + 1) * 1000 + ((proposalNum - 1) % 1000 + 1) ∨ number % 1000 = proposalNum % 1000)

/-- What a proposer's numbers look like. -/
def Shaped (q : Fin n) (proposalNum : Nat) : Option Nat → Prop
  | none => proposalNum % 1000 = 0
  | some first => first % 1000 = 0 ∧ first ≤ (q.val + 1) * 1000 ∧ (q.val + 1) * 1000 < proposalNum

variable {q : Fin n} {proposalNum number : Nat} {firstNum : Option Nat}

theorem Taken.le (taken : Taken q proposalNum firstNum number) (shaped : Shaped q proposalNum firstNum) :
    number ≤ proposalNum := by
  cases firstNum with
  | none => exact taken.2.1
  | some first =>
    obtain ⟨-, small, large⟩ := shaped
    rcases taken with early | late
    · exact Nat.le_trans early.2.1 (Nat.le_trans small (Nat.le_of_lt large))
    · exact late.2.1

theorem Taken.last (positive : 0 < proposalNum) (shaped : Shaped q proposalNum firstNum) :
    Taken q proposalNum firstNum proposalNum := by
  cases firstNum with
  | none => exact ⟨positive, Nat.le_refl _, shaped⟩
  | some first => exact .inr ⟨shaped.2.2, Nat.le_refl _, .inr rfl⟩

/-- An attempt to lead takes the number a thousand above. -/
theorem taken_lead (shaped : Shaped q proposalNum firstNum) :
    Shaped q (proposalNum + 1000) firstNum ∧
      ∀ number, Taken q (proposalNum + 1000) firstNum number ↔
        Taken q proposalNum firstNum number ∨ number = proposalNum + 1000 := by
  cases firstNum with
  | none =>
    simp only [Shaped, Taken] at shaped ⊢
    exact ⟨by omega, fun number => by omega⟩
  | some first =>
    simp only [Shaped, Taken] at shaped ⊢
    exact ⟨by omega, fun number => by omega⟩

/-- An instance takes the next number of the proposer's thousand. -/
theorem taken_run (shaped : Shaped q proposalNum firstNum) (early : proposalNum < 1000 * (q.val + 2)) :
    Shaped q (instanceNum q proposalNum) (some (firstNum.getD proposalNum)) ∧
      ∀ number, Taken q (instanceNum q proposalNum) (some (firstNum.getD proposalNum)) number ↔
        Taken q proposalNum firstNum number ∨ number = instanceNum q proposalNum := by
  cases firstNum with
  | none =>
    simp only [Shaped, Taken, instanceNum, Option.getD_none] at shaped ⊢
    exact ⟨by omega, fun number => by omega⟩
  | some first =>
    simp only [Shaped, Taken, instanceNum, Option.getD_some] at shaped ⊢
    exact ⟨by omega, fun number => by omega⟩

end Taken

section Tracking

variable {cluster later : PaxosCluster n} {firstNum laterFirst : Fin n → Option Nat} {p : Fin n} {number : Nat}

/-- Another proposer has used the number. -/
def TakenByOther (cluster : PaxosCluster n) (firstNum : Fin n → Option Nat) (p : Fin n) (number : Nat) : Prop :=
  ∃ q ≠ p, Taken q (cluster.proposers q).proposalNum (firstNum q) number

/-- The numbers that were used so far are those that the proposers' present numbers tell. -/
structure Tracked (cluster : PaxosCluster n) (firstNum : Fin n → Option Nat) : Prop where
  shaped : ∀ q, Shaped q (cluster.proposers q).proposalNum (firstNum q)
  used : ∀ q number, (q, number) ∈ cluster.prepares ↔
    Taken q (cluster.proposers q).proposalNum (firstNum q) number
  valid : UniqueIncreasing cluster.prepares

theorem Tracked.issue_iff (tracked : Tracked cluster firstNum)
    (first : (cluster.proposers p).proposalNum = 0 → 0 < number) :
    UniqueIncreasing (cluster.prepares ++ [(p, number)]) ↔
      (cluster.proposers p).proposalNum < number ∧ ¬ TakenByOther cluster firstNum p number := by
  have above : (∀ earlier, (p, earlier) ∈ cluster.prepares → earlier < number) ↔
      (cluster.proposers p).proposalNum < number := by
    constructor
    · intro larger
      rcases Nat.eq_zero_or_pos (cluster.proposers p).proposalNum with zero | positive
      · rw [zero]
        exact first zero
      · exact larger _ ((tracked.used p _).mpr (.last positive (tracked.shaped p)))
    · intro larger earlier inside
      exact Nat.lt_of_le_of_lt (((tracked.used p earlier).mp inside).le (tracked.shaped p)) larger
  have fresh : (∀ q ≠ p, (q, number) ∉ cluster.prepares) ↔ ¬ TakenByOther cluster firstNum p number := by
    constructor
    · rintro unused ⟨q, other, taken⟩
      exact unused q other ((tracked.used q number).mpr taken)
    · intro free q other inside
      exact free ⟨q, other, (tracked.used q number).mp inside⟩
  rw [uniqueIncreasing_append tracked.valid, above, fresh]

/-- A number that may be issued keeps the numbers tracked. -/
theorem Tracked.issue (tracked : Tracked cluster firstNum)
    (valid : UniqueIncreasing (cluster.prepares ++ [(p, number)]))
    (issued : later.prepares = cluster.prepares ++ [(p, number)])
    (others : ∀ q ≠ p, (later.proposers q).proposalNum = (cluster.proposers q).proposalNum ∧
      laterFirst q = firstNum q)
    (shaped : Shaped p (later.proposers p).proposalNum (laterFirst p))
    (taken : ∀ other, Taken p (later.proposers p).proposalNum (laterFirst p) other ↔
      Taken p (cluster.proposers p).proposalNum (firstNum p) other ∨ other = number) :
    Tracked later laterFirst where
  shaped := by
    intro q
    by_cases same : q = p
    · rw [same]
      exact shaped
    · rw [(others q same).1, (others q same).2]
      exact tracked.shaped q
  used := by
    intro q other
    rw [issued, List.mem_append, List.mem_singleton, Prod.mk.injEq, tracked.used q other]
    by_cases same : q = p
    · subst same
      rw [taken other]
      simp
    · rw [(others q same).1, (others q same).2]
      simp [same]
  valid := issued ▸ valid

theorem prepare_proposalNum (cluster : PaxosCluster n) (p q : Fin n) (proposer : PaxosProposer) :
    ((cluster.prepare p proposer).1.proposers q).proposalNum =
      if q = p then proposer.proposalNum else (cluster.proposers q).proposalNum := by
  by_cases same : q = p
  · subst same
    rw [if_pos rfl]
    simp [PaxosCluster.prepare]
  · rw [if_neg same]
    simp [PaxosCluster.prepare, same]

theorem prepare_promiseCount (cluster : PaxosCluster n) (p : Fin n) (proposer : PaxosProposer) :
    (cluster.prepare p proposer).2.promiseCount = promiseCount cluster.acceptors proposer.proposalNum :=
  paxosPrepare_count proposer cluster.acceptors

end Tracking

section Attempts

variable {cluster : PaxosCluster n} {firstNum : Fin n → Option Nat} {p : Fin n}

/-- No attempt to lead that is made goes past 2^64 or takes another proposer's number. A further attempt is made while
the acceptors that had promised less than the number before are no majority. -/
def AttemptsFresh (cluster : PaxosCluster n) (firstNum : Fin n → Option Nat) (p : Fin n) (tries : Nat) : Prop :=
  ∀ i < tries,
    (∀ j < i, promiseCount cluster.acceptors ((cluster.proposers p).proposalNum + 1000 * (j + 1)) < n / 2 + 1) →
      (cluster.proposers p).proposalNum + 1000 * (i + 1) < 2 ^ 64 ∧
        ¬ TakenByOther cluster firstNum p ((cluster.proposers p).proposalNum + 1000 * (i + 1))

/-- The cluster after one attempt. -/
def attempt (cluster : PaxosCluster n) (p : Fin n) : PaxosCluster n :=
  (cluster.prepare p
    { cluster.proposers p with proposalNum := leaderNum (cluster.proposers p).proposalNum }).1

theorem leaderLoop_succ (cluster : PaxosCluster n) (p : Fin n) (tries : Nat) :
    leaderLoop p (tries + 1) cluster =
      if promiseCount cluster.acceptors (leaderNum (cluster.proposers p).proposalNum) ≥ n / 2 + 1 then
        (attempt cluster p, true)
      else leaderLoop p tries (attempt cluster p) := by
  rw [leaderLoop]
  simp only [prepare_promiseCount]
  rfl

theorem leaderLoop_prepares (cluster : PaxosCluster n) (p : Fin n) (tries : Nat) :
    cluster.prepares <+: (leaderLoop p tries cluster).1.prepares := by
  induction tries generalizing cluster with
  | zero => exact List.prefix_refl _
  | succ tries ih =>
    have first : cluster.prepares <+: (attempt cluster p).prepares := List.prefix_append _ _
    rw [leaderLoop_succ]
    split
    · exact first
    · exact first.trans (ih (attempt cluster p))

/-- Those that have promised less than a later number are the same after an attempt. -/
theorem promiseCount_attempt {number : Nat}
    (above : leaderNum (cluster.proposers p).proposalNum < number) :
    promiseCount (attempt cluster p).acceptors number = promiseCount cluster.acceptors number := by
  apply List.countP_congr
  intro a _
  have promised : ((attempt cluster p).acceptors a).promisedNum = _ := paxosPrepare_promisedNum
    { cluster.proposers p with proposalNum := leaderNum (cluster.proposers p).proposalNum } cluster.acceptors a
  rw [promised, decide_eq_true_iff, decide_eq_true_iff]
  change (if _ < leaderNum (cluster.proposers p).proposalNum then leaderNum (cluster.proposers p).proposalNum
    else _) < number ↔ _
  split <;> omega

theorem attempt_proposalNum (q : Fin n) (small : (cluster.proposers p).proposalNum + 1000 < 2 ^ 64) :
    ((attempt cluster p).proposers q).proposalNum =
      if q = p then (cluster.proposers p).proposalNum + 1000 else (cluster.proposers q).proposalNum := by
  rw [attempt, prepare_proposalNum]
  simp only [leaderNum_eq small]

theorem takenByOther_attempt (number : Nat) (small : (cluster.proposers p).proposalNum + 1000 < 2 ^ 64) :
    TakenByOther (attempt cluster p) firstNum p number ↔ TakenByOther cluster firstNum p number := by
  refine exists_congr fun q => and_congr_right fun other => ?_
  rw [attempt_proposalNum q small, if_neg other]

/-- The attempts are fresh if the first is and, when it fails, the others are. -/
theorem attemptsFresh_succ (tries : Nat) (small : (cluster.proposers p).proposalNum + 1000 < 2 ^ 64) :
    AttemptsFresh cluster firstNum p (tries + 1) ↔
      ¬ TakenByOther cluster firstNum p ((cluster.proposers p).proposalNum + 1000) ∧
        (promiseCount cluster.acceptors ((cluster.proposers p).proposalNum + 1000) < n / 2 + 1 →
          AttemptsFresh (attempt cluster p) firstNum p tries) := by
  have shift : ∀ i, (cluster.proposers p).proposalNum + 1000 + 1000 * (i + 1) =
      (cluster.proposers p).proposalNum + 1000 * (i + 1 + 1) := by
    intro i
    omega
  have counts : ∀ j, promiseCount (attempt cluster p).acceptors
      ((cluster.proposers p).proposalNum + 1000 + 1000 * (j + 1)) =
        promiseCount cluster.acceptors ((cluster.proposers p).proposalNum + 1000 * (j + 1 + 1)) := by
    intro j
    rw [← shift j]
    apply promiseCount_attempt
    have same := leaderNum_eq small
    omega
  have number := attempt_proposalNum p small
  rw [if_pos rfl] at number
  constructor
  · intro fresh
    refine ⟨(fresh 0 (Nat.succ_pos _) fun j none => absurd none (Nat.not_lt_zero j)).2, ?_⟩
    intro failed i inside earlier
    rw [number] at earlier ⊢
    rw [takenByOther_attempt _ small, shift]
    apply fresh (i + 1) (Nat.succ_lt_succ inside)
    intro j before
    cases j with
    | zero => exact failed
    | succ j =>
      rw [← counts j]
      exact earlier j (Nat.lt_of_succ_lt_succ before)
  · rintro ⟨first, rest⟩ i inside earlier
    cases i with
    | zero => exact ⟨small, first⟩
    | succ i =>
      have fresh := rest (earlier 0 (Nat.succ_pos i)) i (Nat.lt_of_succ_lt_succ inside)
      rw [number, takenByOther_attempt _ small, shift] at fresh
      apply fresh
      intro j before
      rw [counts j]
      exact earlier (j + 1) (Nat.succ_lt_succ before)

/-- One attempt keeps the numbers tracked exactly if its number is fresh. -/
theorem attempt_tracked (tracked : Tracked cluster firstNum) :
    ((cluster.proposers p).proposalNum + 1000 < 2 ^ 64 →
      ¬ TakenByOther cluster firstNum p ((cluster.proposers p).proposalNum + 1000) →
        Tracked (attempt cluster p) firstNum) ∧
      (UniqueIncreasing (attempt cluster p).prepares → (cluster.proposers p).proposalNum + 1000 < 2 ^ 64 ∧
        ¬ TakenByOther cluster firstNum p ((cluster.proposers p).proposalNum + 1000)) := by
  have issued : (attempt cluster p).prepares =
      cluster.prepares ++ [(p, leaderNum (cluster.proposers p).proposalNum)] := rfl
  constructor
  · intro small free
    have same := leaderNum_eq small
    have number := attempt_proposalNum p small
    rw [if_pos rfl] at number
    obtain ⟨shaped, taken⟩ := taken_lead (tracked.shaped p)
    rw [same] at issued
    have larger : (cluster.proposers p).proposalNum < (cluster.proposers p).proposalNum + 1000 :=
      Nat.lt_add_of_pos_right (Nat.succ_pos 999)
    refine tracked.issue ((tracked.issue_iff fun _ => Nat.succ_pos _).mpr ⟨larger, free⟩) issued ?_ ?_ ?_
    · intro q other
      refine ⟨?_, rfl⟩
      rw [attempt_proposalNum q small, if_neg other]
    · rw [number]
      exact shaped
    · rw [number]
      exact taken
  · intro valid
    have first : (cluster.proposers p).proposalNum = 0 → 0 < leaderNum (cluster.proposers p).proposalNum := by
      intro zero
      rw [zero, leaderNum_eq (by decide)]
      decide
    rw [issued] at valid
    obtain ⟨larger, free⟩ := (tracked.issue_iff first).mp valid
    have small : (cluster.proposers p).proposalNum + 1000 < 2 ^ 64 := by
      by_contra large
      exact absurd larger (Nat.not_lt_of_le (leaderNum_le (Nat.le_of_not_lt large)))
    rw [leaderNum_eq small] at free
    exact ⟨small, free⟩

/-- A leader's attempts keep the numbers tracked if they are fresh, and spoil them otherwise. -/
theorem leaderLoop_tracked (tries : Nat) (tracked : Tracked cluster firstNum) :
    (AttemptsFresh cluster firstNum p tries → Tracked (leaderLoop p tries cluster).1 firstNum) ∧
      (UniqueIncreasing (leaderLoop p tries cluster).1.prepares → AttemptsFresh cluster firstNum p tries) := by
  induction tries generalizing cluster with
  | zero => exact ⟨fun _ => tracked, fun _ i none => absurd none (Nat.not_lt_zero i)⟩
  | succ tries ih =>
    have one := attempt_tracked (p := p) tracked
    constructor
    · intro fresh
      have small := (fresh 0 (Nat.succ_pos _) fun j none => absurd none (Nat.not_lt_zero j)).1
      obtain ⟨free, rest⟩ := (attemptsFresh_succ tries small).mp fresh
      rw [leaderLoop_succ, leaderNum_eq small]
      split
      · exact one.1 small free
      · exact (ih (one.1 small free)).1 (rest (Nat.lt_of_not_le ‹_›))
    · intro valid
      have first : (attempt cluster p).prepares <+: (leaderLoop p (tries + 1) cluster).1.prepares := by
        rw [leaderLoop_succ]
        split
        · exact List.prefix_refl _
        · exact leaderLoop_prepares _ _ _
      obtain ⟨small, free⟩ := one.2 (valid.ofPrefix first)
      refine (attemptsFresh_succ tries small).mpr ⟨free, ?_⟩
      intro failed
      rw [leaderLoop_succ, leaderNum_eq small, if_neg (Nat.not_le_of_lt failed)] at valid
      exact (ih (one.1 small free)).2 valid

end Attempts

section Runs

/-- A run so far, with the number that each proposer had when it first ran an instance. -/
structure Numbering (n : Nat) where
  history : History n
  firstNum : Fin n → Option Nat

def Numbering.cluster (numbering : Numbering n) : PaxosCluster n := numbering.history.sys.cluster

def Numbering.call (numbering : Numbering n) (call : MultiPaxosCall n) : Numbering n where
  history := numbering.history.call call
  firstNum :=
    match call with
    | .runInstance p _ => Function.update numbering.firstNum p
        (some ((numbering.firstNum p).getD (numbering.cluster.proposers p).proposalNum))
    | _ => numbering.firstNum

def startNumbering (n : Nat) : Numbering n := ⟨startHistory n, fun _ => none⟩

/-- An instance is run below the thousand after its proposer's own and takes no other proposer's number, and the
attempts to lead are fresh. -/
def KeepsNumbers (numbering : Numbering n) : MultiPaxosCall n → Prop
  | .runInstance p _ =>
    (numbering.cluster.proposers p).proposalNum < 1000 * (p.val + 2) ∧
      ¬ TakenByOther numbering.cluster numbering.firstNum p
        (instanceNum p (numbering.cluster.proposers p).proposalNum)
  | .becomeLeader p => AttemptsFresh numbering.cluster numbering.firstNum p 3
  | .replicate _ _ => True

theorem paxosRunInstance_numbers (cluster : PaxosCluster n) (p : Fin n) (value : Int) :
    let prepared := (cluster.prepare p ⟨instanceNum p (cluster.proposers p).proposalNum, value⟩).1
    (paxosRunInstance cluster p value).1.proposers = prepared.proposers ∧
      (paxosRunInstance cluster p value).1.prepares = prepared.prepares := by
  rw [paxosRunInstance]
  dsimp only
  split
  · -- the second `if` picks the value, the third asks for a majority
    split <;> split <;> exact ⟨rfl, rfl⟩
  · exact ⟨rfl, rfl⟩

theorem multiPaxosReplicate_numbers (sys : MultiPaxos n) (p : Fin n) (value : Int) :
    (multiPaxosReplicate sys p value).1.cluster.proposers = sys.cluster.proposers ∧
      (multiPaxosReplicate sys p value).1.cluster.prepares = sys.cluster.prepares := by
  rw [multiPaxosReplicate]
  dsimp only
  split
  · exact ⟨rfl, rfl⟩
  · split
    · exact ⟨rfl, rfl⟩
    · split <;> exact ⟨rfl, rfl⟩

/-- An instance keeps the numbers tracked exactly if its number is larger and fresh. -/
theorem paxosRunInstance_tracked {cluster : PaxosCluster n} {firstNum : Fin n → Option Nat} (p : Fin n) (value : Int)
    (tracked : Tracked cluster firstNum) :
    ((cluster.proposers p).proposalNum < 1000 * (p.val + 2) ∧
        ¬ TakenByOther cluster firstNum p (instanceNum p (cluster.proposers p).proposalNum) →
      Tracked (paxosRunInstance cluster p value).1
        (Function.update firstNum p (some ((firstNum p).getD (cluster.proposers p).proposalNum)))) ∧
      (UniqueIncreasing (paxosRunInstance cluster p value).1.prepares →
        (cluster.proposers p).proposalNum < 1000 * (p.val + 2) ∧
          ¬ TakenByOther cluster firstNum p (instanceNum p (cluster.proposers p).proposalNum)) := by
  obtain ⟨proposers, prepares⟩ := paxosRunInstance_numbers cluster p value
  have issued : (paxosRunInstance cluster p value).1.prepares =
      cluster.prepares ++ [(p, instanceNum p (cluster.proposers p).proposalNum)] := prepares
  have larger : (cluster.proposers p).proposalNum < instanceNum p (cluster.proposers p).proposalNum ↔
      (cluster.proposers p).proposalNum < 1000 * (p.val + 2) := by
    rw [instanceNum]
    omega
  have positive : 0 < instanceNum p (cluster.proposers p).proposalNum := Nat.succ_pos _
  have issues := tracked.issue_iff (p := p) fun _ => positive
  rw [larger] at issues
  constructor
  · intro fresh
    obtain ⟨shaped, taken⟩ := taken_run (tracked.shaped p) fresh.1
    have number : ((paxosRunInstance cluster p value).1.proposers p).proposalNum =
        instanceNum p (cluster.proposers p).proposalNum := by
      rw [proposers, prepare_proposalNum, if_pos rfl]
    refine tracked.issue (issues.mpr fresh) issued ?_ ?_ ?_
    · intro q other
      rw [proposers, prepare_proposalNum, if_neg other, Function.update_of_ne other]
      exact ⟨rfl, rfl⟩
    · rw [number, Function.update_self]
      exact shaped
    · rw [number, Function.update_self]
      exact taken
  · intro valid
    rw [issued] at valid
    exact issues.mp valid

/-- One call keeps the numbers tracked exactly if it meets the condition. -/
theorem call_tracked (numbering : Numbering n) (call : MultiPaxosCall n)
    (tracked : Tracked numbering.cluster numbering.firstNum) :
    (KeepsNumbers numbering call → Tracked (numbering.call call).cluster (numbering.call call).firstNum) ∧
      (UniqueIncreasing (numbering.call call).cluster.prepares → KeepsNumbers numbering call) := by
  cases call with
  | becomeLeader p => exact leaderLoop_tracked 3 tracked
  | runInstance p value => exact paxosRunInstance_tracked p value tracked
  | replicate p value =>
    obtain ⟨proposers, prepares⟩ := multiPaxosReplicate_numbers numbering.history.sys p value
    refine ⟨fun _ => ?_, fun _ => trivial⟩
    have same : (numbering.call (.replicate p value)).cluster.proposers = numbering.cluster.proposers := proposers
    have kept : (numbering.call (.replicate p value)).cluster.prepares = numbering.cluster.prepares := prepares
    refine ⟨?_, ?_, ?_⟩
    · rw [same]
      exact tracked.shaped
    · rw [same, kept]
      exact tracked.used
    · rw [kept]
      exact tracked.valid

theorem call_prepares (numbering : Numbering n) (call : MultiPaxosCall n) :
    numbering.cluster.prepares <+: (numbering.call call).cluster.prepares := by
  cases call with
  | becomeLeader p => exact leaderLoop_prepares numbering.cluster p 3
  | runInstance p value =>
    have issued := (paxosRunInstance_numbers numbering.cluster p value).2
    change _ <+: (paxosRunInstance numbering.cluster p value).1.prepares
    rw [issued]
    exact List.prefix_append _ _
  | replicate p value =>
    have kept := (multiPaxosReplicate_numbers numbering.history.sys p value).2
    change _ <+: (multiPaxosReplicate numbering.history.sys p value).1.cluster.prepares
    rw [kept]
    exact List.prefix_refl _

theorem calls_prepares (calls : List (MultiPaxosCall n)) (numbering : Numbering n) :
    numbering.cluster.prepares <+: (calls.foldl Numbering.call numbering).cluster.prepares := by
  induction calls generalizing numbering with
  | nil => exact List.prefix_refl _
  | cons call rest ih => exact (call_prepares numbering call).trans (ih (numbering.call call))

theorem proposal_numbers_from (calls : List (MultiPaxosCall n)) (numbering : Numbering n)
    (tracked : Tracked numbering.cluster numbering.firstNum) :
    UniqueIncreasing (calls.foldl Numbering.call numbering).cluster.prepares ↔
      Permitted Numbering.call KeepsNumbers numbering calls := by
  induction calls generalizing numbering with
  | nil => exact iff_of_true tracked.valid trivial
  | cons call rest ih =>
    obtain ⟨keeps, spoils⟩ := call_tracked numbering call tracked
    constructor
    · intro valid
      have here := spoils (valid.ofPrefix (calls_prepares rest (numbering.call call)))
      exact ⟨here, (ih _ (keeps here)).mp valid⟩
    · rintro ⟨here, permitted⟩
      exact (ih _ (keeps here)).mpr permitted

/-- Along a run the numbers are unique and increasing exactly if every call meets the condition. -/
theorem proposal_numbers_iff (n : Nat) (calls : List (MultiPaxosCall n)) :
    UniqueIncreasing (calls.foldl Numbering.call (startNumbering n)).cluster.prepares ↔
      Permitted Numbering.call KeepsNumbers (startNumbering n) calls := by
  apply proposal_numbers_from
  refine ⟨fun _ => rfl, ?_, .nil⟩
  intro q number
  constructor
  · intro inside
    cases inside
  · rintro ⟨positive, none, -⟩
    exact absurd positive (Nat.not_lt_of_le none)

/-- Two proposers that become leader prepare with the same number. -/
theorem leaders_share_number :
    ([.becomeLeader 0, .becomeLeader 1].foldl Numbering.call (startNumbering 3)).cluster.prepares =
        [(0, 1000), (1, 1000), (1, 2000)] ∧
      ¬ UniqueIncreasing
        ([.becomeLeader 0, .becomeLeader 1].foldl Numbering.call (startNumbering 3)).cluster.prepares := by
  have prepares : ([.becomeLeader 0, .becomeLeader 1].foldl Numbering.call (startNumbering 3)).cluster.prepares =
      [(0, 1000), (1, 1000), (1, 2000)] := by decide +kernel
  refine ⟨prepares, ?_⟩
  rw [prepares]
  intro valid
  exact absurd (valid.unique (0, 1000) (by decide) (1, 1000) (by decide) rfl) (by decide)

end Runs

end MiniNetDist.DistProtocol.Paxos
