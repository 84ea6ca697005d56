import MiniNetDist.Library.CharArray
import MiniNetDist.Library.Run

/-! Try-confirm-cancel, `mini-dist-transaction/src/tcc.c`. A phase invokes each callback at most once,
so what a callback answers in it is a function of its context and of the world it finds then. Every
call also gives the trace of the callbacks it invoked. -/

namespace MiniNetDist.Transaction.Tcc

open Library

def TCC_MAX_RESOURCES : Nat := 4
def TCC_RES_NAME_LEN : Nat := 32
def TCC_TXN_NAME_LEN : Nat := 64

inductive TCCPhase where
  | reserve
  | confirm
  | cancel
  deriving DecidableEq, Repr

inductive TCCResState where
  | idle
  | reserved
  | confirmed
  | cancelled
  | failed
  deriving DecidableEq, Repr

inductive TCCTxnStatus where
  | created
  | trying
  | confirming
  | cancelling
  | confirmed
  | cancelled
  deriving DecidableEq, Repr

abbrev TCCFn (Ctx World : Type) := Option Ctx → World → Bool

structure TCCResource (Ctx World : Type) where
  id : Int
  tryFn : Option (TCCFn Ctx World)
  confirmFn : Option (TCCFn Ctx World)
  cancelFn : Option (TCCFn Ctx World)
  state : TCCResState
  name : CString

structure TCCTransaction (Ctx World : Type) where
  resources : List (TCCResource Ctx World)
  phase : TCCPhase
  status : TCCTxnStatus
  triedCount : Nat
  txnName : CString

/-- The callback of a phase invoked for the resource at this place, and what it returned. -/
structure TCCEvent where
  phase : TCCPhase
  resource : Nat
  ok : Bool
  deriving DecidableEq, Repr

variable {Ctx World : Type}

def tccResourceInit (id : Int) (name : CString) (tryFn confirmFn cancelFn : Option (TCCFn Ctx World)) :
    TCCResource Ctx World :=
  ⟨id, tryFn, confirmFn, cancelFn, .idle, strncpy name (TCC_RES_NAME_LEN - 1)⟩

def tccTransactionInit (name : CString) : TCCTransaction Ctx World :=
  ⟨[], .reserve, .created, 0, strncpy name (TCC_TXN_NAME_LEN - 1)⟩

def tccTransactionAddResource (t : TCCTransaction Ctx World) (r : TCCResource Ctx World) : TCCTransaction Ctx World :=
  if t.resources.length ≥ TCC_MAX_RESOURCES then t else { t with resources := t.resources ++ [r] }

section Phases

variable (contexts : Option (Nat → Ctx)) (world : World)

/-- The call of a callback of the `i`-th resource, if it is there. -/
def called (phase : TCCPhase) (i : Nat) (callback : Option (TCCFn Ctx World)) : Option TCCEvent :=
  callback.map fun callback => ⟨phase, i, callback (contexts.map (· i)) world⟩

/-- The loop of `tcc_try_all` from the `i`-th resource on, with how many tries have succeeded. -/
def tccTryFrom (i : Nat) : List (TCCResource Ctx World) → List (TCCResource Ctx World) × Nat × List TCCEvent × Bool
  | [] => ([], i, [], true)
  | r :: rest =>
    let event := called contexts world .reserve i r.tryFn
    if !event.any (·.ok) then ({ r with state := .failed } :: rest, i, event.toList, false)
    else
      let (rest, tried, events, ok) := tccTryFrom (i + 1) rest
      ({ r with state := .reserved } :: rest, tried, event.toList ++ events, ok)

def tccTryAll (t : TCCTransaction Ctx World) : TCCTransaction Ctx World × List TCCEvent × Bool :=
  let (resources, tried, events, ok) := tccTryFrom contexts world 0 t.resources
  ({ t with phase := .reserve, status := .trying, triedCount := tried, resources }, events,
    ok && tried = resources.length && resources.length > 0)

/-- The loop of `tcc_cancel_all` from the `i`-th resource on, for as many resources as were tried. -/
def tccCancelFrom (i : Nat) : Nat → List (TCCResource Ctx World) → List (TCCResource Ctx World) × List TCCEvent
  | 0, resources => (resources, [])
  | _ + 1, [] => ([], [])
  | left + 1, r :: rest =>
    let (rest, events) := tccCancelFrom (i + 1) left rest
    if r.state = .confirmed ∨ r.state = .idle then (r :: rest, events)
    else
      ({ r with state := .cancelled } :: rest, (called contexts world .cancel i r.cancelFn).toList ++ events)

def tccCancelAll (t : TCCTransaction Ctx World) : TCCTransaction Ctx World × List TCCEvent × Bool :=
  let (resources, events) := tccCancelFrom contexts world 0 t.triedCount t.resources
  ({ t with phase := .cancel, status := .cancelled, resources }, events, true)

/-- The loop of `tcc_confirm_all` from the `i`-th resource on, left at the first that is not
reserved. What a callback returns is not looked at. -/
def tccConfirmFrom (i : Nat) : List (TCCResource Ctx World) → List (TCCResource Ctx World) × List TCCEvent × Bool
  | [] => ([], [], true)
  | r :: rest =>
    if r.state ≠ .reserved then (r :: rest, [], false)
    else
      let (rest, events, ok) := tccConfirmFrom (i + 1) rest
      ({ r with state := .confirmed } :: rest, (called contexts world .confirm i r.confirmFn).toList ++ events, ok)

def tccConfirmAll (t : TCCTransaction Ctx World) : TCCTransaction Ctx World × List TCCEvent × Bool :=
  if t.phase ≠ .reserve then (t, [], false)
  else if t.triedCount ≠ t.resources.length then (t, [], false)
  else
    let (resources, events, ok) := tccConfirmFrom contexts world 0 t.resources
    if ok then ({ t with phase := .confirm, status := .confirmed, resources }, events, true)
    else
      let t := { t with phase := .confirm, status := .confirming, resources }
      let (t, cancelled, _) := tccCancelAll contexts world t
      (t, events ++ cancelled, false)

def tccExecute (t : TCCTransaction Ctx World) : TCCTransaction Ctx World × List TCCEvent × Bool :=
  let (t, tried, ok) := tccTryAll contexts world t
  if !ok then
    let (t, cancelled, _) := tccCancelAll contexts world t
    (t, tried ++ cancelled, false)
  else
    let (t, confirmed, ok) := tccConfirmAll contexts world t
    (t, tried ++ confirmed, ok)

end Phases

/-- A call on a transaction, with the contexts it is given and the world its callbacks find. -/
inductive TCCCall (Ctx World : Type) where
  | tryAll (contexts : Option (Nat → Ctx)) (world : World)
  | confirmAll (contexts : Option (Nat → Ctx)) (world : World)
  | cancelAll (contexts : Option (Nat → Ctx)) (world : World)
  | execute (contexts : Option (Nat → Ctx)) (world : World)

/-- A transaction with the callbacks invoked since its last try phase began. -/
structure TCCRun (Ctx World : Type) where
  txn : TCCTransaction Ctx World
  invoked : List TCCEvent

def tccCall (run : TCCRun Ctx World) : TCCCall Ctx World → TCCRun Ctx World
  | .tryAll contexts world =>
    let (txn, events, _) := tccTryAll contexts world run.txn
    ⟨txn, events⟩
  | .confirmAll contexts world =>
    let (txn, events, _) := tccConfirmAll contexts world run.txn
    ⟨txn, run.invoked ++ events⟩
  | .cancelAll contexts world =>
    let (txn, events, _) := tccCancelAll contexts world run.txn
    ⟨txn, run.invoked ++ events⟩
  | .execute contexts world =>
    let (txn, events, _) := tccExecute contexts world run.txn
    ⟨txn, events⟩

/-- A fresh transaction with these resources added. -/
def tccBuilt (name : CString) (resources : List (TCCResource Ctx World)) : TCCRun Ctx World :=
  ⟨resources.foldl tccTransactionAddResource (tccTransactionInit name), []⟩

/-- A transaction is decided the same way at all its resources. -/
structure Uniform (run : TCCRun Ctx World) : Prop where
  unconfirmed : run.txn.status = .cancelled → ∀ r ∈ run.txn.resources, r.state ≠ .confirmed
  cancelled : run.txn.status = .cancelled → ∀ (i : Nat) r, run.txn.resources[i]? = some r →
    ⟨.reserve, i, true⟩ ∈ run.invoked →
      r.state = .cancelled ∧ (r.cancelFn.isSome → ∃ ok, ⟨.cancel, i, ok⟩ ∈ run.invoked)
  confirmed : run.txn.status = .confirmed → ∀ (i : Nat) r, run.txn.resources[i]? = some r →
    r.state = .confirmed ∧ (r.confirmFn.isSome → ⟨.confirm, i, true⟩ ∈ run.invoked)

section Condition

variable (contexts : Option (Nat → Ctx)) (world : World)

/-- How many of the leading resources, the first of them at place `i`, can be reserved. -/
def reservableFrom (i : Nat) (resources : List (TCCResource Ctx World)) : Nat :=
  ((resources.zipIdx i).takeWhile fun (r, j) => (called contexts world .reserve j r.tryFn).any (·.ok)).length

/-- Every confirm callback there is returns true. -/
def Confirmable (resources : List (TCCResource Ctx World)) : Prop :=
  ∀ (i : Nat) r, resources[i]? = some r → (called contexts world .confirm i r.confirmFn).all (·.ok)

/-- No resource is confirmed. -/
def Cancellable (resources : List (TCCResource Ctx World)) : Prop := ∀ r ∈ resources, r.state ≠ .confirmed

end Condition

/-- A call that confirms has all its confirmations succeed, and one that cancels finds no resource
confirmed. In `tcc_execute` only the resources after the failed one can still be so. -/
def Decides (run : TCCRun Ctx World) : TCCCall Ctx World → Prop
  | .tryAll _ _ => True
  | .confirmAll contexts world =>
    run.txn.phase = .reserve → run.txn.triedCount = run.txn.resources.length →
      Confirmable contexts world run.txn.resources
  | .cancelAll _ _ => Cancellable run.txn.resources
  | .execute contexts world =>
    let tried := reservableFrom contexts world 0 run.txn.resources
    if tried = run.txn.resources.length ∧ run.txn.resources ≠ [] then Confirmable contexts world run.txn.resources
    else Cancellable (run.txn.resources.drop (tried + 1))

def TCCResource.enter (state : TCCResState) (r : TCCResource Ctx World) : TCCResource Ctx World := { r with state }

/-- The callbacks of a phase, invoked for all resources from the `i`-th on. -/
def calledAll (contexts : Option (Nat → Ctx)) (world : World) (phase : TCCPhase)
    (callback : TCCResource Ctx World → Option (TCCFn Ctx World)) (i : Nat)
    (resources : List (TCCResource Ctx World)) : List TCCEvent :=
  (resources.zipIdx i).filterMap fun (r, j) => called contexts world phase j (callback r)

section Loops

variable {contexts : Option (Nat → Ctx)} {world : World} {phase : TCCPhase} {event : TCCEvent}
  {callback : Option (TCCFn Ctx World)} {select : TCCResource Ctx World → Option (TCCFn Ctx World)}
  {resources : List (TCCResource Ctx World)} {r : TCCResource Ctx World} {i : Nat}

theorem called_some (invoked : called contexts world phase i callback = some event) :
    event.phase = phase ∧ event.resource = i := by
  obtain ⟨callback, _, rfl⟩ := Option.map_eq_some_iff.mp invoked
  exact ⟨rfl, rfl⟩

theorem phase_of_mem_calledAll (among : event ∈ calledAll contexts world phase select i resources) :
    event.phase = phase := by
  obtain ⟨⟨r, j⟩, _, invoked⟩ := List.mem_filterMap.mp among
  exact (called_some invoked).1

theorem mem_calledAll_iff :
    event ∈ calledAll contexts world phase select 0 resources ↔
      ∃ (j : Nat) (r : TCCResource Ctx World), resources[j]? = some r ∧
        called contexts world phase j (select r) = some event := by
  simp only [calledAll, List.mem_filterMap, Prod.exists, List.mk_mem_zipIdx_iff_getElem?]
  exact exists_comm

variable (contexts world phase i) in
/-- A callback that is there is invoked. -/
theorem exists_called (given : callback.isSome) :
    ∃ ok, called contexts world phase i callback = some ⟨phase, i, ok⟩ := by
  obtain ⟨fn, rfl⟩ := Option.isSome_iff_exists.mp given
  exact ⟨_, rfl⟩

/-- A callback that is there has returned what it answers at its place. -/
theorem mem_calledAll_at (here : resources[i]? = some r) {ok : Bool} :
    ⟨phase, i, ok⟩ ∈ calledAll contexts world phase select 0 resources ↔
      called contexts world phase i (select r) = some ⟨phase, i, ok⟩ := by
  rw [mem_calledAll_iff]
  constructor
  · rintro ⟨j, other, there, invoked⟩
    obtain rfl : i = j := (called_some invoked).2
    obtain rfl : r = other := Option.some.inj (here.symm.trans there)
    exact invoked
  · exact fun invoked => ⟨i, r, here, invoked⟩

theorem calledAll_cons :
    calledAll contexts world phase select i (r :: resources) =
      (called contexts world phase i (select r)).toList ++ calledAll contexts world phase select (i + 1) resources := by
  unfold calledAll
  cases invoked : called contexts world phase i (select r) <;> simp [invoked]

theorem tccConfirmFrom_reserved (reserved : ∀ r ∈ resources, r.state = .reserved) :
    tccConfirmFrom contexts world i resources =
      (resources.map (·.enter .confirmed), calledAll contexts world .confirm (·.confirmFn) i resources, true) := by
  induction resources generalizing i with
  | nil => rfl
  | cons r rest ih =>
    have here : ¬ r.state ≠ .reserved := fun other => other (reserved r List.mem_cons_self)
    have others := ih (i := i + 1) fun r among => reserved r (List.mem_cons_of_mem _ among)
    simp only [tccConfirmFrom, if_neg here, others, calledAll_cons, List.map_cons]
    rfl

/-- The cancellation loop over resources of which none is confirmed or idle. -/
theorem tccCancelFrom_undecided {n : Nat} (unconfirmed : Cancellable resources)
    (taken : ∀ r ∈ resources.take n, r.state ≠ .idle) :
    tccCancelFrom contexts world i n resources =
      ((resources.take n).map (·.enter .cancelled) ++ resources.drop n,
        calledAll contexts world .cancel (·.cancelFn) i (resources.take n)) := by
  induction resources generalizing i n with
  | nil => cases n <;> rfl
  | cons r rest ih =>
    cases n with
    | zero => rfl
    | succ n =>
      have here : ¬ (r.state = .confirmed ∨ r.state = .idle) := by
        rintro (confirmed | idle)
        · exact unconfirmed r List.mem_cons_self confirmed
        · exact taken r List.mem_cons_self idle
      have others := ih (i := i + 1) (n := n) (fun r among => unconfirmed r (List.mem_cons_of_mem _ among))
        fun r among => taken r (List.mem_cons_of_mem _ among)
      simp only [tccCancelFrom, if_neg here, others, List.take_succ_cons, List.drop_succ_cons, calledAll_cons,
        List.map_cons, List.cons_append]
      rfl

/-- A confirmed resource is not cancelled. -/
theorem confirmed_mem_tccCancelFrom {n : Nat} (among : r ∈ resources) (confirmed : r.state = .confirmed) :
    r ∈ (tccCancelFrom contexts world i n resources).1 := by
  induction resources generalizing i n with
  | nil => cases among
  | cons head rest ih =>
    cases n with
    | zero => exact among
    | succ n =>
      rcases List.mem_cons.mp among with rfl | later
      · simp [tccCancelFrom, confirmed]
      · have kept := ih (i := i + 1) (n := n) later
        by_cases skipped : head.state = .confirmed ∨ head.state = .idle
        · simpa only [tccCancelFrom, if_pos skipped] using List.mem_cons_of_mem _ kept
        · simpa only [tccCancelFrom, if_neg skipped] using List.mem_cons_of_mem _ kept

/-- The resources after a try phase in which the first `n` could be reserved. -/
def afterTries (n : Nat) (resources : List (TCCResource Ctx World)) : List (TCCResource Ctx World) :=
  (resources.take n).map (·.enter .reserved) ++
    ((resources.drop n).take 1).map (·.enter .failed) ++ resources.drop (n + 1)

variable (contexts world i resources) in
theorem tccTryFrom_eq :
    let n := reservableFrom contexts world i resources
    ∃ events : List TCCEvent, tccTryFrom contexts world i resources =
        (afterTries n resources, i + n, events, decide (n = resources.length)) ∧
      n ≤ resources.length ∧ ∀ event ∈ events, event.phase = .reserve ∧ (event.ok → event.resource < i + n) := by
  induction resources generalizing i with
  | nil => exact ⟨[], rfl, Nat.le_refl 0, by simp⟩
  | cons r rest ih =>
    cases ok : (called contexts world .reserve i r.tryFn).any (·.ok) with
    | false =>
      refine ⟨(called contexts world .reserve i r.tryFn).toList, ?_, by simp [reservableFrom, ok], ?_⟩
      · simp [tccTryFrom, reservableFrom, afterTries, TCCResource.enter, ok]
      intro event among
      have invoked := Option.mem_toList.mp among
      refine ⟨(called_some invoked).1, fun succeeded => ?_⟩
      rw [invoked] at ok
      simp [succeeded] at ok
    | true =>
      obtain ⟨events, others, within, reserves⟩ := ih (i := i + 1)
      have more : reservableFrom contexts world i (r :: rest) = reservableFrom contexts world (i + 1) rest + 1 := by
        simp [reservableFrom, ok]
      have count : i + 1 + reservableFrom contexts world (i + 1) rest =
          i + (reservableFrom contexts world (i + 1) rest + 1) := by omega
      refine ⟨(called contexts world .reserve i r.tryFn).toList ++ events, ?_, by rw [more]; simpa using within, ?_⟩
      · simp [tccTryFrom, ok, others, more, count, afterTries, TCCResource.enter]
      · rw [more, ← count]
        intro event among
        rcases List.mem_append.mp among with first | later
        · have invoked := called_some (Option.mem_toList.mp first)
          exact ⟨invoked.1, fun _ => by omega⟩
        · exact reserves event later

end Loops

section AfterTries

variable {n : Nat} {resources : List (TCCResource Ctx World)}

theorem length_afterTries (within : n ≤ resources.length) : (afterTries n resources).length = resources.length := by
  simp only [afterTries, List.length_append, List.length_map, List.length_take, List.length_drop]
  omega

theorem take_afterTries (within : n ≤ resources.length) :
    (afterTries n resources).take n = (resources.take n).map (·.enter .reserved) := by
  have length : ((resources.take n).map (TCCResource.enter .reserved)).length = n := by
    rw [List.length_map, List.length_take_of_le within]
  rw [afterTries, List.append_assoc, List.take_append_of_le_length (by rw [length]),
    List.take_of_length_le (by rw [length])]

theorem cancellable_afterTries : Cancellable (afterTries n resources) ↔ Cancellable (resources.drop (n + 1)) := by
  constructor
  · intro cancellable r among
    exact cancellable r (List.mem_append_right _ among)
  · intro cancellable r among
    rcases List.mem_append.mp among with tried | untouched
    · rcases List.mem_append.mp tried with reserved | failed
      · obtain ⟨_, _, rfl⟩ := List.mem_map.mp reserved
        exact fun confirmed => nomatch confirmed
      · obtain ⟨_, _, rfl⟩ := List.mem_map.mp failed
        exact fun confirmed => nomatch confirmed
    · exact cancellable r untouched

variable (n resources) in
theorem confirmFns_afterTries : (afterTries n resources).map (·.confirmFn) = resources.map (·.confirmFn) := by
  have kept : ∀ state,
      (TCCResource.confirmFn : TCCResource Ctx World → _) ∘ TCCResource.enter state = TCCResource.confirmFn :=
    fun _ => rfl
  simp only [afterTries, List.map_append, List.map_map, kept]
  rw [← List.map_append, ← List.map_append, List.append_assoc, ← List.drop_drop, List.take_append_drop,
    List.take_append_drop]

/-- Whether all confirmations succeed is a matter of the callbacks. -/
theorem Confirmable.congr {contexts : Option (Nat → Ctx)} {world : World} {left right : List (TCCResource Ctx World)}
    (same : left.map (·.confirmFn) = right.map (·.confirmFn)) (confirmable : Confirmable contexts world left) :
    Confirmable contexts world right := by
  intro i r here
  have aligned : (left.map (·.confirmFn))[i]? = some r.confirmFn := by rw [same, List.getElem?_map, here]; rfl
  rw [List.getElem?_map] at aligned
  obtain ⟨other, there, equal⟩ := Option.map_eq_some_iff.mp aligned
  exact equal ▸ confirmable i other there

end AfterTries

/-- How the states of the resources follow the phases of the transaction. -/
structure Phased (run : TCCRun Ctx World) : Prop where
  within : run.txn.triedCount ≤ run.txn.resources.length
  counted : ∀ i, ⟨.reserve, i, true⟩ ∈ run.invoked → i < run.txn.triedCount
  taken : ∀ r ∈ run.txn.resources.take run.txn.triedCount, r.state ≠ .idle
  reserved : run.txn.phase = .reserve → ∀ r ∈ run.txn.resources.take run.txn.triedCount, r.state = .reserved
  trying : run.txn.phase = .reserve → ∀ event ∈ run.invoked, event.phase = .reserve

section Calls

variable {contexts : Option (Nat → Ctx)} {world : World} {run : TCCRun Ctx World}

variable (contexts world) in
theorem tccTryAll_eq (t : TCCTransaction Ctx World) :
    let n := reservableFrom contexts world 0 t.resources
    ∃ events : List TCCEvent, tccTryAll contexts world t =
        ({ t with phase := .reserve, status := .trying, triedCount := n, resources := afterTries n t.resources },
          events, decide (n = t.resources.length ∧ t.resources ≠ [])) ∧
      n ≤ t.resources.length ∧ ∀ event ∈ events, event.phase = .reserve ∧ (event.ok → event.resource < n) := by
  obtain ⟨events, tries, within, reserves⟩ := tccTryFrom_eq contexts world t.resources 0
  refine ⟨events, ?_, within, by simpa using reserves⟩
  simp only [tccTryAll, tries, length_afterTries within, Nat.zero_add, List.length_pos_iff, Bool.and_self,
    Bool.decide_and]

theorem phased_tryAll : Phased (tccCall run (.tryAll contexts world)) := by
  obtain ⟨events, tries, within, reserves⟩ := tccTryAll_eq contexts world run.txn
  have taken : ∀ r ∈ (afterTries (reservableFrom contexts world 0 run.txn.resources) run.txn.resources).take
      (reservableFrom contexts world 0 run.txn.resources), r.state = .reserved := by
    intro r among
    rw [take_afterTries within] at among
    obtain ⟨_, _, rfl⟩ := List.mem_map.mp among
    rfl
  simp only [tccCall, tries]
  refine ⟨by rwa [length_afterTries within], fun i invoked => (reserves _ invoked).2 rfl, ?_, fun _ => taken, ?_⟩
  · intro r among idle
    rw [taken r among] at idle
    cases idle
  · exact fun _ event among => (reserves event among).1

theorem uniform_tryAll : Uniform (tccCall run (.tryAll contexts world)) := by
  obtain ⟨events, tries, _⟩ := tccTryAll_eq contexts world run.txn
  simp only [tccCall, tries]
  exact ⟨nofun, nofun, nofun⟩

theorem tccCall_confirmAll_refused
    (refused : ¬ (run.txn.phase = .reserve ∧ run.txn.triedCount = run.txn.resources.length)) :
    tccCall run (.confirmAll contexts world) = run := by
  have same : tccConfirmAll contexts world run.txn = (run.txn, [], false) := by
    by_cases phase : run.txn.phase = .reserve
    · have other : run.txn.triedCount ≠ run.txn.resources.length := fun all => refused ⟨phase, all⟩
      simp [tccConfirmAll, other]
    · simp [tccConfirmAll, phase]
  simp [tccCall, same]

/-- When all tries have succeeded, every resource is reserved and the confirmation is never aborted. -/
theorem tccCall_confirmAll (phased : Phased run) (phase : run.txn.phase = .reserve)
    (all : run.txn.triedCount = run.txn.resources.length) :
    tccCall run (.confirmAll contexts world) =
      ⟨{ run.txn with phase := .confirm, status := .confirmed,
                      resources := run.txn.resources.map (·.enter .confirmed) },
        run.invoked ++ calledAll contexts world .confirm (·.confirmFn) 0 run.txn.resources⟩ := by
  have reserved : ∀ r ∈ run.txn.resources, r.state = .reserved := by
    have taken := phased.reserved phase
    rwa [all, List.take_length] at taken
  simp [tccCall, tccConfirmAll, phase, all, tccConfirmFrom_reserved reserved]

/-- What the later phases invoke does not count as reserved. -/
theorem Phased.tried (phased : Phased run) {phase : TCCPhase} (other : .reserve ≠ phase) {i k : Nat}
    {select : TCCResource Ctx World → Option (TCCFn Ctx World)} {resources : List (TCCResource Ctx World)}
    (invoked : ⟨.reserve, i, true⟩ ∈ run.invoked ++ calledAll contexts world phase select k resources) :
    i < run.txn.triedCount := by
  rcases List.mem_append.mp invoked with before | now
  · exact phased.counted i before
  · exact absurd (phase_of_mem_calledAll now) other

theorem phased_confirmAll (phased : Phased run) : Phased (tccCall run (.confirmAll contexts world)) := by
  by_cases ready : run.txn.phase = .reserve ∧ run.txn.triedCount = run.txn.resources.length
  · rw [tccCall_confirmAll phased ready.1 ready.2]
    refine ⟨by simpa using phased.within, fun i invoked => phased.tried (by decide) invoked, ?_,
      fun phase => (nomatch phase), fun phase => (nomatch phase)⟩
    intro r among idle
    obtain ⟨_, _, rfl⟩ := List.mem_map.mp (List.mem_of_mem_take among)
    cases idle
  · rwa [tccCall_confirmAll_refused ready]

theorem uniform_confirmAll_iff (phased : Phased run) (uniform : Uniform run) :
    Uniform (tccCall run (.confirmAll contexts world)) ↔ Decides run (.confirmAll contexts world) := by
  by_cases ready : run.txn.phase = .reserve ∧ run.txn.triedCount = run.txn.resources.length
  · have before : ∀ i ok, ⟨.confirm, i, ok⟩ ∉ run.invoked := by
      intro i ok invoked
      cases phased.trying ready.1 _ invoked
    rw [tccCall_confirmAll phased ready.1 ready.2]
    constructor
    · intro decided _ _ i r here
      have there : (run.txn.resources.map (·.enter .confirmed))[i]? = some (r.enter .confirmed) := by simp [here]
      rw [Option.all_eq_true]
      intro event invoked
      have given : r.confirmFn.isSome := by
        obtain ⟨callback, given, _⟩ := Option.map_eq_some_iff.mp invoked
        rw [given]
        rfl
      rcases List.mem_append.mp ((decided.confirmed rfl i _ there).2 given) with earlier | now
      · exact absurd earlier (before i true)
      · rw [mem_calledAll_at here, invoked] at now
        rw [Option.some.inj now]
    · intro confirmable
      refine ⟨fun cancelled => (nomatch cancelled), fun cancelled => (nomatch cancelled), ?_⟩
      intro _ i _ there
      obtain ⟨r, here, rfl⟩ := Option.map_eq_some_iff.mp (List.getElem?_map.symm.trans there)
      refine ⟨rfl, fun given => List.mem_append_right _ ((mem_calledAll_at here).mpr ?_)⟩
      obtain ⟨ok, invoked⟩ := exists_called contexts world .confirm i given
      have answered := confirmable ready.1 ready.2 i r here
      change called contexts world .confirm i r.confirmFn = _ at invoked
      rw [invoked] at answered ⊢
      obtain rfl : ok = true := by simpa using answered
      rfl
  · rw [tccCall_confirmAll_refused ready]
    exact ⟨fun _ phase all => absurd ⟨phase, all⟩ ready, fun _ => uniform⟩

theorem tccCall_cancelAll (phased : Phased run) (cancellable : Cancellable run.txn.resources) :
    tccCall run (.cancelAll contexts world) =
      ⟨{ run.txn with phase := .cancel, status := .cancelled,
                      resources := (run.txn.resources.take run.txn.triedCount).map (·.enter .cancelled) ++
                        run.txn.resources.drop run.txn.triedCount },
        run.invoked ++
          calledAll contexts world .cancel (·.cancelFn) 0 (run.txn.resources.take run.txn.triedCount)⟩ := by
  simp [tccCall, tccCancelAll, tccCancelFrom_undecided cancellable phased.taken]

theorem phased_cancelAll (phased : Phased run) (cancellable : Cancellable run.txn.resources) :
    Phased (tccCall run (.cancelAll contexts world)) := by
  rw [tccCall_cancelAll phased cancellable]
  have within := phased.within
  have length : ((run.txn.resources.take run.txn.triedCount).map (TCCResource.enter .cancelled)).length =
      run.txn.triedCount := by
    rw [List.length_map, List.length_take_of_le within]
  refine ⟨by simp; omega, fun i invoked => phased.tried (by decide) invoked, ?_,
    fun phase => (nomatch phase), fun phase => (nomatch phase)⟩
  intro r among idle
  rw [List.take_append_of_le_length (by rw [length])] at among
  obtain ⟨_, _, rfl⟩ := List.mem_map.mp (List.mem_of_mem_take among)
  cases idle

theorem uniform_cancelAll_iff (phased : Phased run) :
    Uniform (tccCall run (.cancelAll contexts world)) ↔ Cancellable run.txn.resources := by
  constructor
  · intro uniform r among confirmed
    exact uniform.unconfirmed rfl r (confirmed_mem_tccCancelFrom among confirmed) confirmed
  · intro cancellable
    rw [tccCall_cancelAll phased cancellable]
    refine ⟨fun _ r among confirmed => ?_, ?_, fun confirmed => (nomatch confirmed)⟩
    · rcases List.mem_append.mp among with cancelled | untouched
      · obtain ⟨_, _, rfl⟩ := List.mem_map.mp cancelled
        cases confirmed
      · exact cancellable r (List.mem_of_mem_drop untouched) confirmed
    · intro _ i r here invoked
      have tried : i < run.txn.triedCount := phased.tried (by decide) invoked
      have short : i < ((run.txn.resources.take run.txn.triedCount).map (TCCResource.enter .cancelled)).length := by
        rwa [List.length_map, List.length_take_of_le phased.within]
      rw [List.getElem?_append_left short, List.getElem?_map] at here
      obtain ⟨r, there, rfl⟩ := Option.map_eq_some_iff.mp here
      refine ⟨rfl, fun given => ?_⟩
      obtain ⟨ok, called⟩ := exists_called contexts world .cancel i given
      exact ⟨ok, List.mem_append_right _ ((mem_calledAll_at there).mpr called)⟩

/-- `tcc_execute` is a try phase followed by one of the other two. -/
theorem tccCall_execute : tccCall run (.execute contexts world) =
    if (tccTryAll contexts world run.txn).2.2 then
      tccCall (tccCall run (.tryAll contexts world)) (.confirmAll contexts world)
    else tccCall (tccCall run (.tryAll contexts world)) (.cancelAll contexts world) := by
  cases ok : (tccTryAll contexts world run.txn).2.2 <;> simp [tccCall, tccExecute, ok]

/-- The decision of `tcc_execute` is that of the phase it goes on to. -/
theorem uniform_execute_iff :
    Uniform (tccCall run (.execute contexts world)) ↔ Decides run (.execute contexts world) := by
  obtain ⟨events, tries, _⟩ := tccTryAll_eq contexts world run.txn
  rw [tccCall_execute]
  by_cases all : reservableFrom contexts world 0 run.txn.resources = run.txn.resources.length ∧ run.txn.resources ≠ []
  · have same := confirmFns_afterTries (reservableFrom contexts world 0 run.txn.resources) run.txn.resources
    have ok : (tccTryAll contexts world run.txn).2.2 = true := by simpa only [tries, decide_eq_true_eq] using all
    rw [if_pos ok, uniform_confirmAll_iff phased_tryAll uniform_tryAll]
    simp only [Decides, if_pos all, tccCall, tries]
    constructor
    · intro confirmable
      exact (confirmable trivial (by rw [length_afterTries (Nat.le_of_eq all.1), all.1])).congr same
    · exact fun confirmable _ _ => confirmable.congr same.symm
  · have failed : ¬ (tccTryAll contexts world run.txn).2.2 = true := by simpa only [tries, decide_eq_true_eq] using all
    rw [if_neg failed, uniform_cancelAll_iff phased_tryAll]
    simp only [Decides, if_neg all, tccCall, tries, cancellable_afterTries]

theorem phased_execute (uniform : Uniform (tccCall run (.execute contexts world))) :
    Phased (tccCall run (.execute contexts world)) := by
  rw [tccCall_execute] at uniform ⊢
  split at uniform
  · rename_i ok
    rw [if_pos ok]
    exact phased_confirmAll phased_tryAll
  · rename_i failed
    rw [if_neg failed]
    exact phased_cancelAll phased_tryAll ((uniform_cancelAll_iff phased_tryAll).mp uniform)

end Calls

theorem phased_tccCall {run : TCCRun Ctx World} {call : TCCCall Ctx World} (phased : Phased run)
    (uniform : Uniform (tccCall run call)) : Phased (tccCall run call) := by
  cases call with
  | tryAll contexts world => exact phased_tryAll
  | confirmAll contexts world => exact phased_confirmAll phased
  | cancelAll contexts world => exact phased_cancelAll phased ((uniform_cancelAll_iff phased).mp uniform)
  | execute contexts world => exact phased_execute uniform

theorem uniform_tccCall_iff {run : TCCRun Ctx World} (call : TCCCall Ctx World) (phased : Phased run)
    (uniform : Uniform run) : Uniform (tccCall run call) ↔ Decides run call := by
  cases call with
  | tryAll contexts world => exact iff_of_true uniform_tryAll trivial
  | confirmAll contexts world => exact uniform_confirmAll_iff phased uniform
  | cancelAll contexts world => exact uniform_cancelAll_iff phased
  | execute contexts world => exact uniform_execute_iff

section Built

variable (name : CString) (resources : List (TCCResource Ctx World))

theorem tccBuilt_fields :
    (tccBuilt name resources).txn.status = .created ∧ (tccBuilt name resources).txn.triedCount = 0 := by
  have added : ∀ t : TCCTransaction Ctx World, (resources.foldl tccTransactionAddResource t).status = t.status ∧
      (resources.foldl tccTransactionAddResource t).triedCount = t.triedCount := by
    induction resources with
    | nil => exact fun _ => ⟨rfl, rfl⟩
    | cons r rest ih =>
      intro t
      have one : (tccTransactionAddResource t r).status = t.status ∧
          (tccTransactionAddResource t r).triedCount = t.triedCount := by
        unfold tccTransactionAddResource
        split <;> exact ⟨rfl, rfl⟩
      exact ⟨(ih _).1.trans one.1, (ih _).2.trans one.2⟩
  exact added _

theorem phased_tccBuilt : Phased (tccBuilt name resources) := by
  obtain ⟨_, untried⟩ := tccBuilt_fields name resources
  refine ⟨by simp [untried], fun i invoked => (nomatch invoked), ?_, ?_, fun _ event invoked => (nomatch invoked)⟩
  all_goals simp [untried]

theorem uniform_tccBuilt : Uniform (tccBuilt name resources) := by
  obtain ⟨created, _⟩ := tccBuilt_fields name resources
  refine ⟨?_, ?_, ?_⟩
  all_goals
    intro decided
    rw [created] at decided
    cases decided

/-- The outcome is uniform throughout a run exactly if every call that confirms has its confirmations
succeed and no call cancels what is already confirmed. -/
theorem tccRun_uniform_iff (calls : List (TCCCall Ctx World)) :
    (∀ earlier, earlier <+: calls → Uniform (earlier.foldl tccCall (tccBuilt name resources))) ↔
      Permitted tccCall Decides (tccBuilt name resources) calls := by
  have within : Permitted tccCall Always (tccBuilt name resources) calls := .always calls
  refine Permitted.throughout_iff calls within (phased_tccBuilt name resources) (uniform_tccBuilt name resources) ?_ ?_
  · exact fun _ _ phased _ uniform => phased_tccCall phased uniform
  · exact fun _ call phased _ uniform => uniform_tccCall_iff call phased uniform

end Built

/-- A resource whose callbacks return true, except that its confirmation gives `ok`. -/
def demoResource (ok : Bool) : TCCResource Unit Unit :=
  tccResourceInit 1 (ascii "inventory") (some fun _ _ => true) (some fun _ _ => ok) (some fun _ _ => true)

/-- A confirmed transaction can still be cancelled, and a confirmation that failed counts as one. -/
theorem tccRun_not_uniform :
    ¬ Uniform ([.execute none (), .cancelAll none ()].foldl tccCall (tccBuilt (ascii "order") [demoResource true])) ∧
    ¬ Uniform ([.execute none ()].foldl tccCall (tccBuilt (ascii "order") [demoResource false])) := by
  constructor
  · intro uniform
    have unconfirmed := uniform.unconfirmed (by decide)
    revert unconfirmed
    decide
  · intro uniform
    have confirmed := (uniform.confirmed (by decide) 0 _ rfl).2 rfl
    revert confirmed
    decide

end MiniNetDist.Transaction.Tcc
