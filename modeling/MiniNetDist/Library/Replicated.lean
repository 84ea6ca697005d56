import MiniNetDist.Library.History
import MiniNetDist.Library.Run
import Mathlib.Logic.Function.Basic

/-! State-based replication. Replicas make updates, pass their states on and merge the states that reach them, in
any order, late, repeatedly or not at all. Each state goes with the numbers of the updates it has absorbed. What a
state says about the updates it has absorbed holds in every run if it survives one update and one merge. -/

namespace MiniNetDist.Library.Replicated

open History

variable {Replica Update State : Type*}

/-- The operations of a replicated data type. -/
structure Design (Replica Update State : Type*) where
  initial : Replica → State
  update : State → Update → State
  merge : State → State → State

/-- A state of a replica, with the numbers of the updates it has absorbed. -/
structure Copy (Replica State : Type*) where
  owner : Replica
  state : State
  absorbed : Finset Nat

/-- The replicas, the states they have passed on, and all updates so far with the replicas that made them. -/
structure System (Replica Update State : Type*) where
  held : Replica → Copy Replica State
  sent : List (Copy Replica State)
  log : List (Replica × Update)

inductive Call (Replica Update : Type*)
  | update (who : Replica) (update : Update)
  | send (who : Replica)
  | receive (who : Replica) (message : Nat)
  deriving DecidableEq

def Design.init (design : Design Replica Update State) : System Replica Update State :=
  ⟨fun who => ⟨who, design.initial who, ∅⟩, [], []⟩

/-- The copy after an update that gets this number. -/
def Copy.updated (design : Design Replica Update State) (copy : Copy Replica State) (number : Nat) (update : Update) :
    Copy Replica State :=
  { copy with state := design.update copy.state update, absorbed := insert number copy.absorbed }

def Copy.merged (design : Design Replica Update State) (copy other : Copy Replica State) : Copy Replica State :=
  { copy with state := design.merge copy.state other.state, absorbed := copy.absorbed ∪ other.absorbed }

def Design.step [DecidableEq Replica] (design : Design Replica Update State) (system : System Replica Update State) :
    Call Replica Update → System Replica Update State
  | .update who update =>
    { system with
      held := Function.update system.held who ((system.held who).updated design system.log.length update)
      log := system.log ++ [(who, update)] }
  | .send who => { system with sent := system.sent ++ [system.held who] }
  | .receive who message =>
    match system.sent[message]? with
    | some copy => { system with held := Function.update system.held who ((system.held who).merged design copy) }
    | none => system

/-- What is to hold of the state of a replica that has absorbed some of the updates. -/
abbrev Description (Replica Update State : Type*) :=
  Replica → List (Replica × Update) → Finset Nat → State → Prop

/-- The description survives the operations. A replica has absorbed its own updates, and of another replica's updates
those up to some point. -/
structure Described (design : Design Replica Update State) (describes : Description Replica Update State) : Prop where
  initial : ∀ who, describes who [] ∅ (design.initial who)
  later : ∀ {who log absorbed state}, describes who log absorbed state → Closed Prod.fst log absorbed →
    ∀ entry, describes who (log ++ [entry]) absorbed state
  update : ∀ {who log absorbed state}, describes who log absorbed state → Closed Prod.fst log absorbed →
    Complete Prod.fst log who absorbed →
      ∀ update, describes who (log ++ [(who, update)]) (insert log.length absorbed) (design.update state update)
  merge : ∀ {who other log absorbed known state received}, describes who log absorbed state →
    describes other log known received → Closed Prod.fst log absorbed → Closed Prod.fst log known →
      describes who log (absorbed ∪ known) (design.merge state received)

variable {design : Design Replica Update State} {describes : Description Replica Update State}
  {system : System Replica Update State} {copy other : Copy Replica State} {log : List (Replica × Update)}

structure Sound (describes : Description Replica Update State) (log : List (Replica × Update))
    (copy : Copy Replica State) : Prop where
  closed : Closed Prod.fst log copy.absorbed
  described : describes copy.owner log copy.absorbed copy.state

/-- The copy that a replica holds knows all that the replica has done. -/
structure Own (describes : Description Replica Update State) (log : List (Replica × Update)) (who : Replica)
    (copy : Copy Replica State) : Prop where
  owner : copy.owner = who
  sound : Sound describes log copy
  complete : Complete Prod.fst log who copy.absorbed

structure Consistent (describes : Description Replica Update State) (system : System Replica Update State) : Prop where
  held : ∀ who, Own describes system.log who (system.held who)
  sent : ∀ copy ∈ system.sent, Sound describes system.log copy

theorem Sound.later (lawful : Described design describes) (sound : Sound describes log copy)
    (entry : Replica × Update) : Sound describes (log ++ [entry]) copy where
  closed := sound.closed.append entry
  described := lawful.later sound.described sound.closed entry

theorem Own.updated {who : Replica} (lawful : Described design describes) (own : Own describes log who copy)
    (update : Update) : Own describes (log ++ [(who, update)]) who (copy.updated design log.length update) := by
  obtain ⟨rfl, sound, complete⟩ := own
  refine ⟨rfl, ⟨sound.closed.insert complete, ?_⟩, complete.insert⟩
  exact lawful.update sound.described sound.closed complete update

theorem Own.later {who replica : Replica} (lawful : Described design describes) (own : Own describes log who copy)
    (different : who ≠ replica) (update : Update) : Own describes (log ++ [(replica, update)]) who copy where
  owner := own.owner
  sound := own.sound.later lawful _
  complete := own.complete.append (Ne.symm different)

theorem Sound.merged (lawful : Described design describes) (sound : Sound describes log copy)
    (soundToo : Sound describes log other) : Sound describes log (copy.merged design other) where
  closed := sound.closed.union soundToo.closed
  described := lawful.merge sound.described soundToo.described sound.closed soundToo.closed

theorem Own.merged {who : Replica} (lawful : Described design describes) (own : Own describes log who copy)
    (sound : Sound describes log other) : Own describes log who (copy.merged design other) where
  owner := own.owner
  sound := own.sound.merged lawful sound
  complete := own.complete.union

theorem Consistent.init (lawful : Described design describes) : Consistent describes design.init where
  held who := ⟨rfl, ⟨.empty, lawful.initial who⟩, fun _ made => absurd made nofun⟩
  sent _ absurdly := absurd absurdly List.not_mem_nil

theorem Consistent.step [DecidableEq Replica] (lawful : Described design describes)
    (consistent : Consistent describes system) (call : Call Replica Update) :
    Consistent describes (design.step system call) := by
  cases call with
  | update who update =>
    refine ⟨(Function.forall_update_iff system.held _).mpr ⟨?_, ?_⟩, ?_⟩
    · exact (consistent.held who).updated lawful update
    · intro replica different
      exact (consistent.held replica).later lawful different update
    · intro copy passed
      exact (consistent.sent copy passed).later lawful _
  | send who =>
    refine ⟨consistent.held, ?_⟩
    intro copy passed
    rcases List.mem_append.mp passed with old | new
    · exact consistent.sent copy old
    · rw [List.mem_singleton.mp new]
      exact (consistent.held who).sound
  | receive who message =>
    rw [Design.step]
    cases found : system.sent[message]? with
    | none => exact consistent
    | some copy =>
      refine ⟨(Function.forall_update_iff system.held _).mpr ⟨?_, ?_⟩, consistent.sent⟩
      · exact (consistent.held who).merged lawful (consistent.sent copy (List.mem_of_getElem? found))
      · intro replica _
        exact consistent.held replica

theorem Described.consistent [DecidableEq Replica] (lawful : Described design describes)
    (reached : Reaches design.step Always design.init system) : Consistent describes system :=
  reached.invariant (.init lawful) fun _ call consistent _ => consistent.step lawful call

/-- Whatever the run, each replica's state is described by the updates it has absorbed. -/
theorem Described.holds [DecidableEq Replica] (lawful : Described design describes)
    (reached : Reaches design.step Always design.init system) (who : Replica) :
    describes who system.log (system.held who).absorbed (system.held who).state := by
  obtain ⟨owner, sound, -⟩ := (lawful.consistent reached).held who
  have described := sound.described
  rw [owner] at described
  exact described

/-- A replica can pass its state on to another one at once. -/
theorem exists_passed [DecidableEq Replica] (reached : Reaches design.step Always design.init system)
    (teacher learner : Replica) :
    ∃ later, Reaches design.step Always design.init later ∧ later.log = system.log ∧
      later.held = Function.update system.held learner
        ((system.held learner).merged design (system.held teacher)) := by
  let sent := design.step system (.send teacher)
  have found : sent.sent[system.sent.length]? = some (system.held teacher) := List.getElem?_concat_length
  have received : design.step sent (.receive learner system.sent.length) =
      { sent with
        held := Function.update sent.held learner ((sent.held learner).merged design (system.held teacher)) } := by
    rw [Design.step]
    split
    next copy passed => rw [Option.some.inj (passed.symm.trans found)]
    next missing => cases missing.symm.trans found
  refine ⟨_, (reached.call (.send teacher) trivial).call (.receive learner system.sent.length) trivial, ?_⟩
  rw [received]
  exact ⟨rfl, rfl⟩

section Picked

variable {Item : Type*} {lookup other : Nat → Option Item} {numbers more : Finset Nat}

/-- What the numbers lead to. -/
def picked (lookup : Nat → Option Item) (numbers : Finset Nat) : Set Item :=
  {item | ∃ i ∈ numbers, lookup i = some item}

theorem picked_empty : picked lookup ∅ = ∅ := by
  apply Set.eq_empty_of_forall_notMem
  rintro item ⟨i, absurdly, -⟩
  exact Finset.notMem_empty i absurdly

theorem picked_congr (same : ∀ i ∈ numbers, lookup i = other i) : picked lookup numbers = picked other numbers := by
  apply Set.ext
  intro item
  apply exists_congr
  intro i
  apply and_congr_right
  intro inside
  rw [same i inside]

theorem picked_insert {i : Nat} {item : Item} (found : lookup i = some item) :
    picked lookup (insert i numbers) = insert item (picked lookup numbers) := by
  apply Set.ext
  intro other
  constructor
  · rintro ⟨j, inside, foundToo⟩
    rcases Finset.mem_insert.mp inside with rfl | old
    · exact .inl (Option.some.inj (foundToo.symm.trans found))
    · exact .inr ⟨j, old, foundToo⟩
  · rintro (rfl | ⟨j, inside, foundToo⟩)
    · exact ⟨i, Finset.mem_insert_self _ _, found⟩
    · exact ⟨j, Finset.mem_insert_of_mem inside, foundToo⟩

theorem picked_union : picked lookup (numbers ∪ more) = picked lookup numbers ∪ picked lookup more := by
  apply Set.ext
  intro item
  constructor
  · rintro ⟨i, inside, found⟩
    rcases Finset.mem_union.mp inside with here | there
    · exact .inl ⟨i, here, found⟩
    · exact .inr ⟨i, there, found⟩
  · rintro (⟨i, inside, found⟩ | ⟨i, inside, found⟩)
    · exact ⟨i, Finset.mem_union_left _ inside, found⟩
    · exact ⟨i, Finset.mem_union_right _ inside, found⟩

end Picked

section Learned

variable {absorbed known : Finset Nat} {state received : State}

/-- The updates themselves, whoever made them. -/
def learned (log : List (Replica × Update)) (absorbed : Finset Nat) : Set Update :=
  {update | ∃ i ∈ absorbed, log[i]?.map Prod.snd = some update}

theorem learned_empty : learned log ∅ = ∅ := picked_empty

theorem learned_append (made : ∀ i ∈ absorbed, i < log.length) (entry : Replica × Update) :
    learned (log ++ [entry]) absorbed = learned log absorbed := by
  apply picked_congr
  intro i inside
  rw [List.getElem?_append_left (made i inside)]

theorem learned_insert (made : ∀ i ∈ absorbed, i < log.length) (who : Replica) (update : Update) :
    learned (log ++ [(who, update)]) (insert log.length absorbed) = insert update (learned log absorbed) := by
  rw [← learned_append made (who, update)]
  apply picked_insert
  rw [List.getElem?_concat_length]
  rfl

theorem learned_union : learned log (absorbed ∪ known) = learned log absorbed ∪ learned log known := picked_union

theorem mem_log_of_learned {update : Update} (known : update ∈ learned log absorbed) : update ∈ log.map Prod.snd := by
  obtain ⟨i, -, found⟩ := known
  obtain ⟨entry, present, rfl⟩ := Option.map_eq_some_iff.mp found
  exact List.mem_map_of_mem (List.mem_of_getElem? present)

/-- A state means a set of updates: an update joins the set, and a merge unites two sets. -/
structure Means (design : Design Replica Update State) (meaning : Set Update → State → Prop) : Prop where
  initial : ∀ who, meaning ∅ (design.initial who)
  update : ∀ {updates state}, meaning updates state → ∀ update,
    meaning (insert update updates) (design.update state update)
  merge : ∀ {updates others state received}, meaning updates state → meaning others received →
    meaning (updates ∪ others) (design.merge state received)

variable {meaning : Set Update → State → Prop}

theorem Means.described (lawful : Means design meaning) :
    Described design fun _ log absorbed state => meaning (learned log absorbed) state where
  initial who := by
    rw [learned_empty]
    exact lawful.initial who
  later holds closed entry := by
    rw [learned_append closed.made]
    exact holds
  update {who} _ _ _ holds closed _ update := by
    rw [learned_insert closed.made who update]
    exact lawful.update holds update
  merge holds holdsToo _ _ := by
    rw [learned_union]
    exact lawful.merge holds holdsToo

/-- Whatever the run, each replica's state means the updates that have reached it. -/
theorem Means.holds [DecidableEq Replica] (lawful : Means design meaning)
    (reached : Reaches design.step Always design.init system) (who : Replica) :
    meaning (learned system.log (system.held who).absorbed) (system.held who).state :=
  lawful.described.holds reached who

end Learned

end MiniNetDist.Library.Replicated
