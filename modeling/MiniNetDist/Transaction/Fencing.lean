import MiniNetDist.Library.Run
import MiniNetDist.Library.Table

/-! Fencing tokens, `mini-dist-transaction/src/fencing.c`. The store keeps one slot for a
resource and reissues it in place, so a client's reference shows whatever was issued last. -/

namespace MiniNetDist.Transaction.Fencing

open Library

def FENCING_MAX_TOKENS : Nat := 128
def FENCING_MAX_OWNER_LEN : Nat := 48
def FENCING_MAX_RESOURCE_LEN : Nat := 64

structure FencingToken where
  value : Int
  generation : Int
  issuedAtMs : Int
  owner : CString
  resource : CString
  valid : Bool

structure FencingTokenStore where
  tokens : List FencingToken
  globalCounter : Int

structure FencingGuard where
  highestSeen : Int
  rejectedCount : Int
  acceptedCount : Int

def fencingTokenInit (resource owner : CString) : FencingToken :=
  ⟨0, 0, 0, strncpy owner (FENCING_MAX_OWNER_LEN - 1), strncpy resource (FENCING_MAX_RESOURCE_LEN - 1), false⟩

def fencingStoreInit : FencingTokenStore := ⟨[], 1⟩
def fencingGuardInit : FencingGuard := ⟨0, 0, 0⟩

def fencingFindToken (store : FencingTokenStore) (resource : CString) : Option Nat :=
  Table.position FencingToken.resource store.tokens resource

def FencingToken.reissue (value : Int) (owner : CString) (now : Int) (t : FencingToken) : FencingToken :=
  { t with
    value
    generation := t.generation + 1
    issuedAtMs := now
    valid := true
    owner := strncpy owner (FENCING_MAX_OWNER_LEN - 1) }

/-- The slot given to the caller, or `none` for a null reference; `now` is the wall clock. -/
def fencingIssueToken (store : FencingTokenStore) (resource owner : CString) (now : Int) :
    FencingTokenStore × Option Nat :=
  match fencingFindToken store resource with
  | some idx =>
    ({ tokens := store.tokens.modify idx (·.reissue store.globalCounter owner now)
       globalCounter := store.globalCounter + 1 }, some idx)
  | none =>
    if store.tokens.length ≥ FENCING_MAX_TOKENS then (store, none)
    else
      ({ tokens := store.tokens ++ [(fencingTokenInit resource owner).reissue store.globalCounter owner now]
         globalCounter := store.globalCounter + 1 }, some store.tokens.length)

def fencingCheckAndAdvance (guard : FencingGuard) (tokenValue : Int) : FencingGuard × Bool :=
  if tokenValue < guard.highestSeen then ({ guard with rejectedCount := guard.rejectedCount + 1 }, false)
  else
    ({ guard with
      highestSeen := if tokenValue > guard.highestSeen then tokenValue else guard.highestSeen
      acceptedCount := guard.acceptedCount + 1 }, true)

def fencingValidateToken (guard : FencingGuard) (token : Option FencingToken) : FencingGuard × Bool :=
  match token with
  | none => (guard, false)
  | some token => if !token.valid then (guard, false) else fencingCheckAndAdvance guard token.value

/-- The clients of one resource, numbered in the order of issue, with the references they
keep; and the numbers of those the guard has accepted. -/
structure Fenced where
  store : FencingTokenStore
  guard : FencingGuard
  holders : List (Option Nat)
  accepted : List Nat

def fencedInit : Fenced := ⟨fencingStoreInit, fencingGuardInit, [], []⟩

inductive FencingCall where
  | issue (owner : CString) (now : Int)
  | validate (holder : Nat)
  deriving DecidableEq, Repr

/-- The token that a holder's reference shows. -/
def Fenced.presents (fenced : Fenced) (reference : Option Nat) : Option FencingToken :=
  reference.bind fun idx => fenced.store.tokens[idx]?

def fencedStep (resource : CString) (fenced : Fenced) : FencingCall → Fenced
  | .issue owner now =>
    let (store, reference) := fencingIssueToken fenced.store resource owner now
    { fenced with store, holders := fenced.holders ++ [reference] }
  | .validate holder =>
    match fenced.holders[holder]? with
    | none => fenced
    | some reference =>
      let (guard, ok) := fencingValidateToken fenced.guard (fenced.presents reference)
      { fenced with guard, accepted := if ok then fenced.accepted ++ [holder] else fenced.accepted }

/-- A later holder than this one has been accepted. -/
def Fenced.Stale (fenced : Fenced) (holder : Nat) : Prop := ∃ later ∈ fenced.accepted, holder < later

/-- A stale holder is turned away. -/
def StaleRejected (fenced : Fenced) : FencingCall → Prop
  | .issue _ _ => True
  | .validate holder => ∀ reference ∈ fenced.holders[holder]?, fenced.Stale holder →
      (fencingValidateToken fenced.guard (fenced.presents reference)).2 = false

/-- No stale holder comes back. -/
def StaleAbsent (fenced : Fenced) : FencingCall → Prop
  | .issue _ _ => True
  | .validate holder => holder < fenced.holders.length → ¬ fenced.Stale holder

variable {resource : CString} {fenced : Fenced}

theorem fencingCheckAndAdvance_highest (guard : FencingGuard) (tokenValue : Int) :
    (fencingCheckAndAdvance guard tokenValue).1.highestSeen = max guard.highestSeen tokenValue := by
  unfold fencingCheckAndAdvance
  split_ifs <;> dsimp only <;> omega

theorem fencingCheckAndAdvance_accepts_iff (guard : FencingGuard) (tokenValue : Int) :
    (fencingCheckAndAdvance guard tokenValue).2 = true ↔ guard.highestSeen ≤ tokenValue := by
  unfold fencingCheckAndAdvance
  by_cases low : tokenValue < guard.highestSeen
  · simp [low]
  · simp [low, Int.not_lt.mp low]

/-- Everything that an issue can do. -/
theorem fencingIssueToken_cases (store : FencingTokenStore) (resource owner : CString) (now : Int) :
    (∃ idx, fencingFindToken store resource = some idx ∧ fencingIssueToken store resource owner now =
      (⟨store.tokens.modify idx (·.reissue store.globalCounter owner now), store.globalCounter + 1⟩, some idx)) ∨
    (fencingFindToken store resource = none ∧ FENCING_MAX_TOKENS ≤ store.tokens.length ∧
      fencingIssueToken store resource owner now = (store, none)) ∨
    (fencingFindToken store resource = none ∧ store.tokens.length < FENCING_MAX_TOKENS ∧
      fencingIssueToken store resource owner now =
        (⟨store.tokens ++ [(fencingTokenInit resource owner).reissue store.globalCounter owner now],
          store.globalCounter + 1⟩, some store.tokens.length)) := by
  unfold fencingIssueToken
  cases found : fencingFindToken store resource with
  | some idx => exact .inl ⟨idx, rfl, rfl⟩
  | none =>
    by_cases full : store.tokens.length ≥ FENCING_MAX_TOKENS
    · exact .inr (.inl ⟨rfl, full, if_pos full⟩)
    · exact .inr (.inr ⟨rfl, Nat.not_le.mp full, if_neg full⟩)

/-- Everything that a validation can do. -/
theorem fencedStep_validate_cases (resource : CString) (fenced : Fenced) (holder : Nat) :
    (fencedStep resource fenced (.validate holder) = fenced) ∨
    (∃ reference token, fenced.holders[holder]? = some reference ∧ fenced.presents reference = some token ∧
      token.valid = true ∧ fencedStep resource fenced (.validate holder) =
        { fenced with
          guard := (fencingCheckAndAdvance fenced.guard token.value).1
          accepted := if (fencingCheckAndAdvance fenced.guard token.value).2 then fenced.accepted ++ [holder]
            else fenced.accepted }) := by
  cases located : fenced.holders[holder]? with
  | none => exact .inl (by simp [fencedStep, located])
  | some reference =>
    cases shown : fenced.presents reference with
    | none => exact .inl (by simp [fencedStep, located, shown, fencingValidateToken])
    | some token =>
      by_cases valid : token.valid = true
      · refine .inr ⟨reference, token, rfl, shown, valid, ?_⟩
        simp [fencedStep, located, shown, fencingValidateToken, valid]
      · exact .inl (by simp [fencedStep, located, shown, fencingValidateToken, valid])

/-- With a short name all holders share one slot, which carries the latest value. -/
structure OneSlot (resource : CString) (fenced : Fenced) : Prop where
  slot : (fenced.holders = [] ∧ fenced.store.tokens = []) ∨
    ∃ t, fenced.store.tokens = [t] ∧ t.resource = resource ∧ t.valid = true ∧
      t.value = fenced.store.globalCounter - 1
  shared : ∀ reference ∈ fenced.holders, reference = some 0
  seen : fenced.guard.highestSeen < fenced.store.globalCounter

theorem OneSlot.issue (short : resource.length < FENCING_MAX_RESOURCE_LEN) (one : OneSlot resource fenced)
    (owner : CString) (now : Int) : OneSlot resource (fencedStep resource fenced (.issue owner now)) := by
  have seen : fenced.guard.highestSeen < fenced.store.globalCounter + 1 := Int.lt_trans one.seen (Int.lt_succ _)
  have shared : ∀ reference ∈ fenced.holders ++ [some 0], reference = some 0 := by
    intro reference owned
    rcases List.mem_append.mp owned with old | new
    · exact one.shared reference old
    · exact List.mem_singleton.mp new
  have value : fenced.store.globalCounter = fenced.store.globalCounter + 1 - 1 := by omega
  rcases one.slot with ⟨-, empty⟩ | ⟨t, single, named, -, -⟩
  · have issued : fencingIssueToken fenced.store resource owner now =
        (⟨[(fencingTokenInit resource owner).reissue fenced.store.globalCounter owner now],
          fenced.store.globalCounter + 1⟩, some 0) := by
      simp [fencingIssueToken, fencingFindToken, Table.position, empty, FENCING_MAX_TOKENS]
    simp only [fencedStep, issued]
    exact ⟨.inr ⟨_, rfl, strncpy_of_lt short, rfl, value⟩, shared, seen⟩
  · have issued : fencingIssueToken fenced.store resource owner now =
        (⟨[t.reissue fenced.store.globalCounter owner now], fenced.store.globalCounter + 1⟩, some 0) := by
      simp [fencingIssueToken, fencingFindToken, Table.position, single, named]
    simp only [fencedStep, issued]
    exact ⟨.inr ⟨_, rfl, named, rfl, value⟩, shared, seen⟩

/-- Every holder presents the latest value, so nobody is ever turned away. -/
theorem OneSlot.accepts (one : OneSlot resource fenced) {reference : Option Nat} (held : reference ∈ fenced.holders) :
    ∃ t, fenced.presents reference = some t ∧ t.valid = true ∧ t.value = fenced.store.globalCounter - 1 := by
  rcases one.slot with ⟨nobody, -⟩ | ⟨t, single, -, valid, latest⟩
  · rw [nobody] at held
    cases held
  · exact ⟨t, by simp [Fenced.presents, one.shared reference held, single], valid, latest⟩

theorem OneSlot.step (short : resource.length < FENCING_MAX_RESOURCE_LEN) (one : OneSlot resource fenced)
    (call : FencingCall) : OneSlot resource (fencedStep resource fenced call) := by
  cases call with
  | issue owner now => exact one.issue short owner now
  | validate holder =>
    rcases fencedStep_validate_cases resource fenced holder with same | ⟨reference, token, located, shown, -, next⟩
    · rw [same]
      exact one
    · obtain ⟨t, found, -, latest⟩ := one.accepts (List.mem_of_getElem? located)
      rw [shown] at found
      cases found
      rw [next]
      refine ⟨one.slot, one.shared, ?_⟩
      have seen := one.seen
      dsimp only
      rw [fencingCheckAndAdvance_highest]
      omega

theorem OneSlot.rejected_iff (one : OneSlot resource fenced) (call : FencingCall) :
    StaleRejected fenced call ↔ StaleAbsent fenced call := by
  cases call with
  | issue owner now => exact Iff.rfl
  | validate holder =>
    unfold StaleRejected StaleAbsent
    constructor
    · intro rejected inside stale
      have located : fenced.holders[holder]? = some fenced.holders[holder] := List.getElem?_eq_getElem inside
      obtain ⟨t, shown, valid, latest⟩ := one.accepts (List.getElem_mem inside)
      have accepted : (fencingCheckAndAdvance fenced.guard t.value).2 = true := by
        rw [fencingCheckAndAdvance_accepts_iff, latest]
        exact Int.le_sub_one_of_lt one.seen
      have refused := rejected _ located stale
      simp [fencingValidateToken, shown, valid, accepted] at refused
    · intro absent reference located stale
      exact absurd stale (absent (List.getElem?_eq_some_iff.mp located).1)

/-- The holder's reference shows this token. -/
def Fenced.Shows (fenced : Fenced) (holder : Nat) (t : FencingToken) : Prop :=
  ∃ reference, fenced.holders[holder]? = some reference ∧ fenced.presents reference = some t

/-- With a name that is cut every issue takes a slot of its own, with a higher value. -/
structure OwnSlots (fenced : Fenced) : Prop where
  cut : ∀ t ∈ fenced.store.tokens, t.resource.length < FENCING_MAX_RESOURCE_LEN
  past : ∀ t ∈ fenced.store.tokens, t.value < fenced.store.globalCounter
  inside : ∀ i, some i ∈ fenced.holders → i < fenced.store.tokens.length
  ordered : ∀ earlier later s t, earlier < later → fenced.Shows earlier s → fenced.Shows later t → s.value < t.value
  seen : ∀ later ∈ fenced.accepted, ∃ t, fenced.Shows later t ∧ t.value ≤ fenced.guard.highestSeen

theorem Fenced.Shows.mem {holder : Nat} {t : FencingToken} (shows : fenced.Shows holder t) :
    t ∈ fenced.store.tokens := by
  obtain ⟨reference, -, shown⟩ := shows
  obtain ⟨i, -, located⟩ := Option.bind_eq_some_iff.mp shown
  exact List.mem_of_getElem? located

theorem fencingFindToken_cut (long : FENCING_MAX_RESOURCE_LEN ≤ resource.length)
    (cut : ∀ t ∈ fenced.store.tokens, t.resource.length < FENCING_MAX_RESOURCE_LEN) :
    fencingFindToken fenced.store resource = none := by
  rw [fencingFindToken, Table.position_eq_none_iff, Table.find_eq_none_iff, List.mem_map]
  rintro ⟨t, owned, rfl⟩
  exact absurd (cut t owned) (Nat.not_lt.mpr long)

/-- A new holder, with a slot of its own unless the table is full. -/
def Fenced.join (fenced : Fenced) (extra : Option FencingToken) (counter : Int) : Fenced :=
  { fenced with
    store := ⟨fenced.store.tokens ++ extra.toList, counter⟩
    holders := fenced.holders ++ [extra.map fun _ => fenced.store.tokens.length] }

/-- The holders a new one joins go on showing what they showed; the new one shows its own. -/
theorem shows_join (inside : ∀ i, some i ∈ fenced.holders → i < fenced.store.tokens.length)
    (extra : Option FencingToken) (counter : Int) (holder : Nat) (t : FencingToken) :
    (fenced.join extra counter).Shows holder t ↔
      fenced.Shows holder t ∨ holder = fenced.holders.length ∧ extra = some t := by
  unfold Fenced.Shows Fenced.join
  dsimp only
  rcases Nat.lt_trichotomy holder fenced.holders.length with old | new | beyond
  · rw [List.getElem?_append_left old]
    have kept : ∀ reference ∈ fenced.holders[holder]?,
        (reference.bind fun i => (fenced.store.tokens ++ extra.toList)[i]?) = fenced.presents reference := by
      intro reference located
      cases reference with
      | none => rfl
      | some i => exact List.getElem?_append_left (inside i (List.mem_of_getElem? located))
    constructor
    · rintro ⟨reference, located, shown⟩
      exact .inl ⟨reference, located, (kept reference located).symm.trans shown⟩
    · rintro (⟨reference, located, shown⟩ | ⟨last, -⟩)
      · exact ⟨reference, located, (kept reference located).trans shown⟩
      · omega
  · subst new
    cases extra with
    | none => simp [Fenced.presents]
    | some token => simp [Fenced.presents]
  · have missing : (fenced.holders ++ [extra.map fun _ => fenced.store.tokens.length])[holder]? = none := by
      apply List.getElem?_eq_none
      simp only [List.length_append, List.length_singleton]
      omega
    rw [missing, List.getElem?_eq_none (Nat.le_of_lt beyond)]
    simp
    omega

/-- An issue under a name that is cut never finds a slot. -/
theorem fencedStep_issue_cut (long : FENCING_MAX_RESOURCE_LEN ≤ resource.length) (own : OwnSlots fenced)
    (owner : CString) (now : Int) :
    ∃ extra counter, fencedStep resource fenced (.issue owner now) = fenced.join extra counter ∧
      fenced.store.globalCounter ≤ counter ∧ ∀ t ∈ extra,
        t.value = fenced.store.globalCounter ∧ t.value < counter ∧ t.resource.length < FENCING_MAX_RESOURCE_LEN := by
  have missing := fencingFindToken_cut long own.cut
  rcases fencingIssueToken_cases fenced.store resource owner now with ⟨idx, found, -⟩ | ⟨-, -, issued⟩ |
    ⟨-, -, issued⟩
  · rw [missing] at found
    cases found
  · refine ⟨none, fenced.store.globalCounter, ?_, Int.le_refl _, ?_⟩
    · simp [fencedStep, issued, Fenced.join]
    · intro t new
      cases new
  · refine ⟨some ((fencingTokenInit resource owner).reissue fenced.store.globalCounter owner now),
      fenced.store.globalCounter + 1, ?_, Int.le_of_lt (Int.lt_succ _), ?_⟩
    · simp only [fencedStep, issued, Fenced.join]
      rfl
    · rintro t ⟨⟩
      exact ⟨rfl, Int.lt_succ _, Nat.lt_succ_of_le (length_strncpy_le _ _)⟩

theorem OwnSlots.join (own : OwnSlots fenced) {extra : Option FencingToken} {counter : Int}
    (later : fenced.store.globalCounter ≤ counter)
    (fresh : ∀ t ∈ extra, t.value = fenced.store.globalCounter ∧ t.value < counter ∧
      t.resource.length < FENCING_MAX_RESOURCE_LEN) : OwnSlots (fenced.join extra counter) := by
  have tokens : ∀ t ∈ (fenced.join extra counter).store.tokens, t ∈ fenced.store.tokens ∨ extra = some t := by
    intro t owned
    rcases List.mem_append.mp owned with old | new
    · exact .inl old
    · exact .inr (Option.mem_toList.mp new)
  have shows := shows_join own.inside extra counter
  refine ⟨?_, ?_, ?_, ?_, ?_⟩
  · intro t owned
    rcases tokens t owned with old | new
    · exact own.cut t old
    · exact (fresh t new).2.2
  · intro t owned
    rcases tokens t owned with old | new
    · exact Int.lt_of_lt_of_le (own.past t old) later
    · exact (fresh t new).2.1
  · intro i held
    rcases List.mem_append.mp held with old | new
    · have bound := own.inside i old
      simp only [Fenced.join, List.length_append]
      omega
    · cases extra with
      | none => simp at new
      | some token =>
        simp only [Option.map_some, List.mem_singleton, Option.some.injEq] at new
        simp [Fenced.join, new]
  · intro earlier later s t before first second
    rw [shows] at first second
    rcases second with second | ⟨last, new⟩
    · rcases first with first | ⟨last, -⟩
      · exact own.ordered earlier later s t before first second
      · obtain ⟨reference, located, -⟩ := second
        have bound := (List.getElem?_eq_some_iff.mp located).1
        omega
    · rcases first with first | ⟨last', -⟩
      · rw [(fresh t new).1]
        exact own.past s first.mem
      · omega
  · intro later accepted
    obtain ⟨t, shown, low⟩ := own.seen later accepted
    exact ⟨t, (shows later t).mpr (.inl shown), low⟩

theorem OwnSlots.init : OwnSlots fencedInit := by
  refine ⟨?_, ?_, ?_, ?_, ?_⟩
  · intro t owned
    cases owned
  · intro t owned
    cases owned
  · intro i held
    cases held
  · rintro earlier later s t - ⟨reference, located, -⟩
    cases located
  · intro later accepted
    cases accepted

theorem OwnSlots.step (long : FENCING_MAX_RESOURCE_LEN ≤ resource.length) (own : OwnSlots fenced)
    (call : FencingCall) : OwnSlots (fencedStep resource fenced call) := by
  cases call with
  | issue owner now =>
    obtain ⟨extra, counter, next, later, fresh⟩ := fencedStep_issue_cut long own owner now
    rw [next]
    exact own.join later fresh
  | validate holder =>
    rcases fencedStep_validate_cases resource fenced holder with same | ⟨reference, token, located, shown, -, next⟩
    · rw [same]
      exact own
    · rw [next]
      refine ⟨own.cut, own.past, own.inside, own.ordered, ?_⟩
      intro later accepted
      dsimp only at accepted ⊢
      rw [fencingCheckAndAdvance_highest]
      have old : later ∈ fenced.accepted ∨ later = holder := by
        split_ifs at accepted
        · simpa using accepted
        · exact .inl accepted
      rcases old with old | rfl
      · obtain ⟨t, shows, low⟩ := own.seen later old
        exact ⟨t, shows, Int.le_trans low (Int.le_max_left _ _)⟩
      · exact ⟨token, ⟨reference, located, shown⟩, Int.le_max_right _ _⟩

theorem OwnSlots.rejects (own : OwnSlots fenced) (call : FencingCall) : StaleRejected fenced call := by
  cases call with
  | issue owner now => trivial
  | validate holder =>
    rintro reference located ⟨later, accepted, before⟩
    cases shown : fenced.presents reference with
    | none => rfl
    | some s =>
      obtain ⟨t, shows, low⟩ := own.seen later accepted
      have older := own.ordered holder later s t before ⟨reference, located, shown⟩ shows
      by_cases valid : s.valid = true
      · have rejected : ¬ (fencingCheckAndAdvance fenced.guard s.value).2 = true := by
          rw [fencingCheckAndAdvance_accepts_iff]
          omega
        simpa [fencingValidateToken, valid] using rejected
      · simp [fencingValidateToken, valid]

/-- The guard turns stale holders away exactly when the resource's name does not fit its
field, or none of them ever comes back. -/
theorem staleRejected_iff (resource : CString) (calls : List FencingCall) :
    Permitted (fencedStep resource) StaleRejected fencedInit calls ↔
      FENCING_MAX_RESOURCE_LEN ≤ resource.length ∨
        Permitted (fencedStep resource) StaleAbsent fencedInit calls := by
  by_cases long : FENCING_MAX_RESOURCE_LEN ≤ resource.length
  · refine iff_of_true ?_ (.inl long)
    refine Permitted.ofInvariant calls (Permitted.always calls) (motive := OwnSlots) OwnSlots.init ?_ ?_
    · intro fenced call own _
      exact own.step long call
    · intro fenced call own _
      exact own.rejects call
  · rw [or_iff_right long]
    have short : resource.length < FENCING_MAX_RESOURCE_LEN := Nat.not_le.mp long
    refine Permitted.congr calls (Permitted.always calls) (motive := OneSlot resource) ?_ ?_ ?_
    · exact ⟨.inl ⟨rfl, rfl⟩, fun _ held => absurd held List.not_mem_nil, by decide⟩
    · intro fenced call one _ _
      exact one.step short call
    · intro fenced call one _
      exact one.rejected_iff call

/-- The second holder is accepted, and the first one still is after it. -/
def returningHolder : List FencingCall :=
  [.issue [65] 0, .issue [66] 1, .validate 1, .validate 0]

theorem returningHolder_accepted : ¬ Permitted (fencedStep [114]) StaleRejected fencedInit returningHolder := by
  intro rejected
  have refused := rejected.2.2.2.1 (some 0) rfl ⟨1, by decide, by decide⟩
  exact absurd refused (by decide)

end MiniNetDist.Transaction.Fencing
