import MiniNetDist.DistProtocol.EventualConsistency

/-! Quorum reads of the replicated store. `ec_hinted_handoff` delivers a hint under its index instead of the key that
was written, so that a replica can come to hold what nobody wrote. -/

namespace MiniNetDist.DistProtocol.EventualConsistency

open Library

variable {n : Nat} {data : List ECDataEntry} {entries : List ECDataEntry} {key value : Int} {version : Nat}

section Registers

/-- Value and version as `ec_read` finds them at one replica. -/
def register (data : List ECDataEntry) : Register Int Int := fun key =>
  (ecFindEntry data key).map fun entry => (entry.value, entry.version)

/-- Value and version were written under the key. -/
def WrittenIn (entries : List ECDataEntry) (key : Int) (held : Int × Nat) : Prop := ⟨key, held.1, held.2⟩ ∈ entries

theorem register_of_find {entry : ECDataEntry} (found : ecFindEntry data key = some entry) :
    register data key = some (entry.value, entry.version) := by
  rw [register, found]
  rfl

/-- A new entry is seen unless an earlier one has its key. -/
theorem register_append (entry : ECDataEntry) :
    register (data ++ [entry]) =
      if (ecFindEntry data entry.key).isSome then register data
      else Function.update (register data) entry.key (some (entry.value, entry.version)) := by
  funext other
  have appended : register (data ++ [entry]) other =
      ((ecFindEntry data other).or (if entry.key = other then some entry else none)).map
        fun entry => (entry.value, entry.version) := by
    rw [register, ecFindEntry, Table.find_append]
    rfl
  rw [appended]
  by_cases same : other = entry.key
  · subst same
    cases found : ecFindEntry data entry.key with
    | some old => simp [register, found]
    | none => simp
  · rw [if_neg (Ne.symm same), Option.or_none]
    split
    · rfl
    · rw [Function.update_of_ne same]
      rfl

/-- An entry is put under its key, or the data stays as it is because of the entry found or for lack of room. -/
theorem register_putEntry (replaces : ECDataEntry → Bool) (key value : Int) (version : Nat) (data : List ECDataEntry) :
    register (putEntry replaces key value version data) = Function.update (register data) key (some (value, version)) ∧
        (∀ entry ∈ ecFindEntry data key, replaces entry = true) ∨
      putEntry replaces key value version data = data ∧
        ((∃ entry ∈ ecFindEntry data key, replaces entry = false) ∨
          ecFindEntry data key = none ∧ EC_MAX_DATA ≤ data.length) := by
  rw [putEntry]
  cases found : ecFindEntry data key with
  | none =>
    dsimp only
    split
    case isTrue room =>
      left
      rw [register_append, if_neg (by simp [found])]
      exact ⟨rfl, fun entry inside => by cases inside⟩
    case isFalse full => exact .inr ⟨rfl, .inr ⟨rfl, Nat.le_of_not_lt full⟩⟩
  | some entry =>
    dsimp only
    split
    case isTrue replaced =>
      left
      refine ⟨?_, by rintro _ ⟨⟩; exact replaced⟩
      funext other
      rw [register, ecFindEntry, Table.find_update (by intro _; rfl)]
      by_cases same : other = key
      · subst same
        rw [if_pos rfl, ← ecFindEntry, found, Function.update_self]
        rfl
      · rw [if_neg same, Function.update_of_ne same]
        rfl
    case isFalse kept => exact .inr ⟨rfl, .inl ⟨entry, rfl, by simpa using kept⟩⟩

theorem advances_putEntry {replaces : ECDataEntry → Bool} (new : ⟨key, value, version⟩ ∈ entries)
    (older : ∀ entry, replaces entry = true → entry.version ≤ version) :
    Advances (WrittenIn entries) (register data) (register (putEntry replaces key value version data)) := by
  rcases register_putEntry replaces key value version data with ⟨put, replaced⟩ | ⟨kept, -⟩
  · rw [put]
    refine Advances.update new ?_
    intro old inside
    obtain ⟨entry, found, rfl⟩ := Option.map_eq_some_iff.mp inside
    exact older entry (replaced entry found)
  · rw [kept]
    exact .refl _

/-- With room for the key the version is held afterwards, or a later one was. -/
theorem covers_putEntry {replaces : ECDataEntry → Bool}
    (later : ∀ entry, replaces entry = false → version ≤ entry.version)
    (room : Table.HasRoom EC_MAX_DATA (data.map ECDataEntry.key) key) :
    (register (putEntry replaces key value version data)).Covers key version := by
  rcases register_putEntry replaces key value version data with
    ⟨put, -⟩ | ⟨kept, ⟨entry, found, stays⟩ | ⟨absent, full⟩⟩
  · rw [put]
    exact ⟨(value, version), Function.update_self .., Nat.le_refl _⟩
  · rw [kept]
    exact ⟨(entry.value, entry.version), register_of_find found, later entry stays⟩
  · rcases room with present | room
    · exact absurd present (Table.find_eq_none_iff.mp absent)
    · rw [List.length_map] at room
      exact absurd full (Nat.not_le_of_lt room)

end Registers

section Delivery

/-- A hint delivered under its index is not seen, finds no room, or is what was written there. -/
def Harmless (entries data : List ECDataEntry) (i : Nat) (value : Int) : Prop :=
  (ecFindEntry data i).isSome ∨ EC_MAX_DATA ≤ data.length ∨ ⟨i, value, i⟩ ∈ entries

instance (data : List ECDataEntry) (i : Nat) (value : Int) : Decidable (Harmless entries data i value) :=
  inferInstanceAs (Decidable (_ ∨ _))

/-- Every delivery of a handoff is harmless when it is made. -/
def LoopHarmless (entries : List ECDataEntry) (toReplica : Fin n) :
    Nat → Nat → List ECDataEntry → List (ECHint n) → Prop
  | 0, _, _, _ => True
  | passes + 1, i, data, hints =>
    match hints[i]? with
    | none => True
    | some hint =>
      if hint.target = toReplica then
        Harmless entries data i hint.value ∧
          LoopHarmless entries toReplica passes i (deliverHint data i hint.value) (swapRemove hints i)
      else LoopHarmless entries toReplica passes (i + 1) data hints

instance LoopHarmless.decidable (entries : List ECDataEntry) (toReplica : Fin n) :
    (passes i : Nat) → (data : List ECDataEntry) → (hints : List (ECHint n)) →
      Decidable (LoopHarmless entries toReplica passes i data hints)
  | 0, _, _, _ => .isTrue trivial
  | passes + 1, i, data, hints =>
    match here : hints[i]? with
    | none => .isTrue (by rw [LoopHarmless, here]; trivial)
    | some hint =>
      have := LoopHarmless.decidable entries toReplica passes i (deliverHint data i hint.value) (swapRemove hints i)
      have := LoopHarmless.decidable entries toReplica passes (i + 1) data hints
      decidable_of_iff (if hint.target = toReplica then
          Harmless entries data i hint.value ∧
            LoopHarmless entries toReplica passes i (deliverHint data i hint.value) (swapRemove hints i)
        else LoopHarmless entries toReplica passes (i + 1) data hints) (by rw [LoopHarmless, here])

theorem advances_deliverHint {i : Nat} (harmless : Harmless entries data i value) :
    Advances (WrittenIn entries) (register data) (register (deliverHint data i value)) := by
  rw [deliverHint]
  split
  case isFalse => exact .refl _
  case isTrue room =>
    rw [register_append]
    split
    case isTrue => exact .refl _
    case isFalse absent =>
      rcases harmless with present | full | new
      · exact absurd present absent
      · exact absurd full (Nat.not_le_of_lt room)
      · refine Advances.update new ?_
        intro old inside
        obtain ⟨entry, found, -⟩ := Option.map_eq_some_iff.mp inside
        exact absurd (Option.isSome_of_mem found) absent

theorem advances_handoffLoop {toReplica : Fin n} (passes : Nat) {i : Nat} {hints : List (ECHint n)} {delivered : Bool}
    (harmless : LoopHarmless entries toReplica passes i data hints) :
    Advances (WrittenIn entries) (register data)
      (register (handoffLoop toReplica passes i data hints delivered).1) := by
  induction passes generalizing i data hints delivered with
  | zero => exact .refl _
  | succ passes ih =>
    rw [LoopHarmless] at harmless
    rw [handoffLoop]
    cases here : hints[i]? with
    | none => exact .refl _
    | some hint =>
      rw [here] at harmless
      dsimp only at harmless ⊢
      split at harmless
      case isTrue same =>
        rw [if_pos same]
        exact (advances_deliverHint harmless.1).trans (ih harmless.2)
      case isFalse other =>
        rw [if_neg other]
        exact ih harmless

end Delivery

section Systems

def ECSystem.registers (ec : ECSystem n) (i : Fin n) : Register Int Int := register (ec.replicas i).data

/-- What the replicas show was written. -/
def ECSystem.Genuine (entries : List ECDataEntry) (ec : ECSystem n) : Prop :=
  ∀ i, (ec.registers i).Genuine (WrittenIn entries)

/-- All registers advance, and the quorums stay. -/
structure ECSystem.Advances (entries : List ECDataEntry) (before after : ECSystem n) : Prop where
  registers : ∀ i, Library.Advances (WrittenIn entries) (before.registers i) (after.registers i)
  writeQuorum : after.writeQuorum = before.writeQuorum
  readQuorum : after.readQuorum = before.readQuorum

variable {ec before between after : ECSystem n}

theorem ECSystem.Advances.refl (ec : ECSystem n) : ec.Advances entries ec := ⟨fun _ => .refl _, rfl, rfl⟩

theorem ECSystem.Advances.trans (first : before.Advances entries between) (second : between.Advances entries after) :
    before.Advances entries after where
  registers i := (first.registers i).trans (second.registers i)
  writeQuorum := second.writeQuorum.trans first.writeQuorum
  readQuorum := second.readQuorum.trans first.readQuorum

theorem ECSystem.Advances.genuine (advances : before.Advances entries after) (genuine : before.Genuine entries) :
    after.Genuine entries := fun i => (advances.registers i).genuine (genuine i)

theorem advances_setReplica {i : Fin n} {replica : ECReplica n}
    (advances : Advances (WrittenIn entries) (register (ec.replicas i).data) (register replica.data)) :
    ec.Advances entries (ec.setReplica i replica) where
  registers j := by
    by_cases here : j = i
    · subst here
      simp only [ECSystem.registers, ECSystem.setReplica, Function.update_self]
      exact advances
    · simp only [ECSystem.registers, ECSystem.setReplica, Function.update_of_ne here]
      exact .refl _
  writeQuorum := rfl
  readQuorum := rfl

/-- Other fields of a replica than its data are not seen by reads. -/
theorem advances_sameData {i : Fin n} {replica : ECReplica n} (same : replica.data = (ec.replicas i).data) :
    ec.Advances entries (ec.setReplica i replica) := by
  apply advances_setReplica
  rw [same]
  exact .refl _

theorem advances_changeOnline {change : List ECDataEntry → List ECDataEntry}
    (advances : ∀ data, Advances (WrittenIn entries) (register data) (register (change data))) :
    ec.Advances entries (ec.changeOnline change) where
  registers i := by
    simp only [ECSystem.registers, ECSystem.changeOnline]
    split
    · exact advances _
    · exact .refl _
  writeQuorum := rfl
  readQuorum := rfl

/-- A loop advances the registers if each of its passes does. -/
theorem advances_foldl {Pass : Type} {step : ECSystem n → Pass → ECSystem n} {guard : ECSystem n → Pass → Prop}
    (each : ∀ ec pass, ec.Genuine entries → guard ec pass → ec.Advances entries (step ec pass)) (passes : List Pass)
    (permitted : Permitted step guard ec passes) (genuine : ec.Genuine entries) :
    ec.Advances entries (passes.foldl step ec) := by
  apply (Reaches.ofCalls passes permitted).invariant (ECSystem.Advances.refl ec)
  intro between pass advances allowed
  exact advances.trans (each between pass (advances.genuine genuine) allowed)

theorem mem_responses {entry : ECDataEntry} :
    entry ∈ ec.responses key ↔ ∃ i, (ec.replicas i).online ∧ ecFindEntry (ec.replicas i).data key = some entry := by
  simp [ECSystem.responses, List.mem_filterMap]

/-- The best version was written, if it is above 0. -/
theorem best_genuine (genuine : ec.Genuine entries) (found : (ec.best key).2 ≠ 0) :
    WrittenIn entries key (ec.best key) := by
  rcases newest_mem with same | inside
  · exact absurd (congrArg Prod.snd same) found
  · obtain ⟨entry, response, same⟩ := List.mem_map.mp inside
    obtain ⟨i, -, here⟩ := mem_responses.mp response
    rw [ECSystem.best, ← same]
    exact genuine i key _ (register_of_find here)

theorem advances_ecReadRepair (genuine : ec.Genuine entries) : ec.Advances entries (ecReadRepair ec key) := by
  rw [ecReadRepair]
  dsimp only
  split
  case isTrue => exact .refl _
  case isFalse found =>
    apply advances_changeOnline
    intro data
    exact advances_putEntry (best_genuine genuine found) fun entry stale => Nat.le_of_lt (of_decide_eq_true stale)

theorem advances_repairAt {dst : Fin n} {j : Nat} (genuine : ec.Genuine entries) :
    ec.Advances entries (repairAt dst ec j) := by
  rw [repairAt]
  split
  · exact advances_ecReadRepair genuine
  · exact .refl _

/-- The deliveries of a handoff are harmless. -/
def ECSystem.HandoffHarmless (entries : List ECDataEntry) (ec : ECSystem n) (src dst : Fin n) : Prop :=
  (ec.replicas dst).online = true →
    LoopHarmless entries dst (ec.replicas src).hints.length 0 (ec.replicas dst).data (ec.replicas src).hints

instance (src dst : Fin n) : Decidable (ec.HandoffHarmless entries src dst) := inferInstanceAs (Decidable (_ → _))

theorem advances_handoff {src dst : Fin n} (harmless : ec.HandoffHarmless entries src dst) :
    ec.Advances entries (ec.handoff src dst).1 := by
  rw [ECSystem.handoff]
  split
  case isTrue online =>
    exact (advances_setReplica (advances_handoffLoop _ (harmless online))).trans (advances_sameData rfl)
  case isFalse => exact .refl _

theorem advances_handoffFrom {dst i : Fin n}
    (harmless : i ≠ dst ∧ (ec.replicas i).online = true → ec.HandoffHarmless entries i dst) :
    ec.Advances entries (handoffFrom dst ec i) := by
  rw [handoffFrom]
  split
  case isTrue delivers => exact advances_handoff (harmless delivers)
  case isFalse => exact .refl _

end Systems

section Runs

/-- A call of `ec_write` and whether it returned true. -/
structure ECWrite where
  entry : ECDataEntry
  ok : Bool

/-- A run so far, with its writes. -/
structure ECRun (n : Nat) where
  ec : ECSystem n
  writes : List ECWrite

inductive ECCall where
  | write (key value : Int) (version : Nat)
  | read (key : Int)
  | readRepair (key : Int)
  | disconnect (replicaId : Int)
  | reconnect (replicaId : Int)
  | hintedHandoff (fromReplica toReplica : Int)

def ECRun.call (run : ECRun n) : ECCall → ECRun n
  | .write key value version =>
    let (ec, ok) := ecWrite run.ec key value version
    ⟨ec, run.writes ++ [⟨⟨key, value, version⟩, ok⟩]⟩
  | .read _ => run
  | .readRepair key => { run with ec := ecReadRepair run.ec key }
  | .disconnect replicaId => { run with ec := ecDisconnect run.ec replicaId }
  | .reconnect replicaId => { run with ec := ecReconnect run.ec replicaId }
  | .hintedHandoff fromReplica toReplica => { run with ec := (ecHintedHandoff run.ec fromReplica toReplica).1 }

def ECRun.written (run : ECRun n) : List ECDataEntry := run.writes.map ECWrite.entry

/-- Every read that succeeds returns a value and a version that were written together to the key, the version no lower
than that of any write to the key that returned true. -/
def ReadsCurrent (run : ECRun n) : Prop :=
  ∀ key value version, ecRead run.ec key = some (value, version) →
    ⟨key, value, version⟩ ∈ run.written ∧
      ∀ write ∈ run.writes, write.entry.key = key → write.ok = true → write.entry.version ≤ version

/-- Versions are positive and increase, and every online replica has the key or room for it. -/
def WritesInOrder (run : ECRun n) : ECCall → Prop
  | .write key _ version => 0 < version ∧ (∀ write ∈ run.writes, write.entry.version < version) ∧
      ∀ i, (run.ec.replicas i).online = true →
        Table.HasRoom EC_MAX_DATA ((run.ec.replicas i).data.map ECDataEntry.key) key
  | _ => True

/-- Every hint that is delivered goes to a replica that has the key of its index or no room, or it was written so. -/
def HintsHarmless (run : ECRun n) : ECCall → Prop
  | .hintedHandoff fromReplica toReplica => ∀ src ∈ replicaOf n fromReplica, ∀ dst ∈ replicaOf n toReplica,
      run.ec.HandoffHarmless run.written src dst
  | .reconnect replicaId => ∀ dst ∈ replicaOf n replicaId,
      Permitted (handoffFrom dst)
        (fun ec i => i ≠ dst ∧ (ec.replicas i).online = true → ec.HandoffHarmless run.written i dst)
        (run.ec.switchOn dst) (List.finRange n)
  | _ => True

instance (run : ECRun n) : (call : ECCall) → Decidable (WritesInOrder run call)
  | .write _ _ _ => inferInstanceAs (Decidable (_ ∧ _ ∧ _))
  | .read _ => .isTrue trivial
  | .readRepair _ => .isTrue trivial
  | .disconnect _ => .isTrue trivial
  | .reconnect _ => .isTrue trivial
  | .hintedHandoff _ _ => .isTrue trivial

instance (run : ECRun n) : (call : ECCall) → Decidable (HintsHarmless run call)
  | .write _ _ _ => .isTrue trivial
  | .read _ => .isTrue trivial
  | .readRepair _ => .isTrue trivial
  | .disconnect _ => .isTrue trivial
  | .reconnect replicaId =>
    inferInstanceAs (Decidable (∀ dst ∈ replicaOf n replicaId, Permitted (handoffFrom dst) _ _ _))
  | .hintedHandoff fromReplica toReplica => inferInstanceAs (Decidable (∀ src ∈ replicaOf n fromReplica,
      ∀ dst ∈ replicaOf n toReplica, run.ec.HandoffHarmless run.written src dst))

/-- A write quorum holds what a successful write wrote, or something later, and meets every read quorum. -/
structure Settled (run : ECRun n) : Prop where
  overlap : n < run.ec.readQuorum + run.ec.writeQuorum
  reads : 0 < run.ec.readQuorum
  genuine : run.ec.Genuine run.written
  positive : ∀ write ∈ run.writes, 0 < write.entry.version
  held : ∀ write ∈ run.writes, write.ok = true →
    run.ec.writeQuorum ≤ (holders run.ec.registers write.entry.key write.entry.version).card

variable {run : ECRun n}

/-- Registers that advance leave everything settled. -/
theorem Settled.advance (settled : Settled run) {ec : ECSystem n} (advances : run.ec.Advances run.written ec) :
    Settled { run with ec := ec } where
  overlap := by
    rw [advances.readQuorum, advances.writeQuorum]
    exact settled.overlap
  reads := by
    rw [advances.readQuorum]
    exact settled.reads
  genuine := advances.genuine settled.genuine
  positive := settled.positive
  held write inside ok := by
    rw [advances.writeQuorum]
    exact (settled.held write inside ok).trans (Finset.card_le_card (holders_subset advances.registers))

theorem ECSystem.Genuine.more {ec : ECSystem n} {more : List ECDataEntry} (genuine : ec.Genuine entries)
    (grows : ∀ entry ∈ entries, entry ∈ more) : ec.Genuine more := fun i =>
  (genuine i).mono fun _ _ inside => grows _ inside

theorem data_storeHints (replica : ECReplica n) (value : Int) (pendingHints : List (Fin n)) :
    (storeHints replica value pendingHints).data = replica.data := by
  unfold storeHints
  induction pendingHints generalizing replica with
  | nil => rfl
  | cons target rest ih =>
    rw [List.foldl_cons, ih]
    split <;> rfl

/-- After `ec_write` the replicas show what they show before the hints are stored. -/
theorem registers_ecWrite (ec : ECSystem n) (key value : Int) (version : Nat) :
    (ecWrite ec key value version).1.registers = (ec.changeOnline (writeEntry key value version)).registers := by
  rw [ecWrite]
  dsimp only
  split
  case h_2 => rfl
  case h_1 holder _ =>
    funext i
    by_cases here : i = holder
    · subst here
      simp only [ECSystem.registers, ECSystem.setReplica, Function.update_self, data_storeHints]
    · simp only [ECSystem.registers, ECSystem.setReplica, Function.update_of_ne here]

theorem quorums_ecWrite (ec : ECSystem n) (key value : Int) (version : Nat) :
    (ecWrite ec key value version).1.writeQuorum = ec.writeQuorum ∧
      (ecWrite ec key value version).1.readQuorum = ec.readQuorum := by
  rw [ecWrite]
  dsimp only
  split <;> exact ⟨rfl, rfl⟩

theorem advances_ecWrite {ec : ECSystem n} (new : ⟨key, value, version⟩ ∈ entries) :
    ec.Advances entries (ecWrite ec key value version).1 where
  registers := by
    rw [registers_ecWrite]
    apply (advances_changeOnline ?_).registers
    intro data
    exact advances_putEntry new fun entry older => of_decide_eq_true older
  writeQuorum := (quorums_ecWrite ec key value version).1
  readQuorum := (quorums_ecWrite ec key value version).2

/-- A write that finds room is held by the replicas that are online, which are as many as it counts. -/
theorem holders_ecWrite {ec : ECSystem n}
    (room : ∀ i, (ec.replicas i).online = true →
      Table.HasRoom EC_MAX_DATA ((ec.replicas i).data.map ECDataEntry.key) key)
    (ok : (ecWrite ec key value version).2 = true) :
    ec.writeQuorum ≤ (holders (ecWrite ec key value version).1.registers key version).card := by
  have counted : ec.writeQuorum ≤ (List.finRange n).countP fun i => (ec.replicas i).online := of_decide_eq_true ok
  rw [countP_finRange] at counted
  refine counted.trans (Finset.card_le_card ?_)
  intro i online
  obtain ⟨-, online⟩ := Finset.mem_filter.mp online
  rw [mem_holders, registers_ecWrite, ECSystem.registers, ECSystem.changeOnline]
  dsimp only
  rw [if_pos online]
  refine covers_putEntry ?_ (room i online)
  intro entry kept
  exact Nat.le_of_not_le (of_decide_eq_false kept)

theorem settled_write (settled : Settled run) (inOrder : WritesInOrder run (.write key value version)) :
    Settled (run.call (.write key value version)) := by
  obtain ⟨positive, -, room⟩ := inOrder
  have written : (run.call (.write key value version)).written = run.written ++ [⟨key, value, version⟩] := by
    simp [ECRun.written, ECRun.call]
  have advances : run.ec.Advances (run.call (.write key value version)).written (ecWrite run.ec key value version).1 :=
    advances_ecWrite (by rw [written]; exact List.mem_append_right _ (List.mem_singleton_self _))
  have quorums := quorums_ecWrite run.ec key value version
  refine ⟨?_, ?_, advances.genuine (settled.genuine.more ?_), ?_, ?_⟩
  · simp only [ECRun.call, quorums]
    exact settled.overlap
  · simp only [ECRun.call, quorums]
    exact settled.reads
  · intro entry inside
    rw [written]
    exact List.mem_append_left _ inside
  · intro write inside
    rcases List.mem_append.mp inside with earlier | last
    · exact settled.positive write earlier
    · cases List.mem_singleton.mp last
      exact positive
  · intro write inside ok
    simp only [ECRun.call, quorums]
    rcases List.mem_append.mp inside with earlier | last
    · exact (settled.held write earlier ok).trans (Finset.card_le_card (holders_subset advances.registers))
    · cases List.mem_singleton.mp last
      exact holders_ecWrite room ok

theorem advances_ecReconnect {replicaId : Int} (genuine : run.ec.Genuine run.written)
    (harmless : HintsHarmless run (.reconnect replicaId)) :
    run.ec.Advances run.written (ecReconnect run.ec replicaId) := by
  rw [ecReconnect]
  cases valid : replicaOf n replicaId with
  | none => exact .refl _
  | some dst =>
    have switched : run.ec.Advances run.written (run.ec.switchOn dst) := advances_sameData rfl
    have handed := advances_foldl (fun ec i _ allowed => advances_handoffFrom allowed) (List.finRange n)
      (harmless dst valid) (switched.genuine genuine)
    have reached := switched.trans handed
    exact reached.trans (advances_foldl (fun ec j genuine _ => advances_repairAt genuine) (List.range EC_MAX_DATA)
      (Permitted.always _) (reached.genuine genuine))

theorem advances_ecHintedHandoff {fromReplica toReplica : Int}
    (harmless : HintsHarmless run (.hintedHandoff fromReplica toReplica)) :
    run.ec.Advances run.written (ecHintedHandoff run.ec fromReplica toReplica).1 := by
  rw [ecHintedHandoff]
  split
  case h_1 src dst source target => exact advances_handoff (harmless src source dst target)
  case h_2 => exact .refl _

theorem advances_ecDisconnect {ec : ECSystem n} {replicaId : Int} :
    ec.Advances entries (ecDisconnect ec replicaId) := by
  rw [ecDisconnect]
  split
  · exact advances_sameData rfl
  · exact .refl _

/-- One call within the domain, with harmless hints, leaves everything settled. -/
theorem settled_call (settled : Settled run) {call : ECCall} (inOrder : WritesInOrder run call)
    (harmless : HintsHarmless run call) : Settled (run.call call) := by
  cases call with
  | write key value version => exact settled_write settled inOrder
  | read key => exact settled
  | readRepair key => exact settled.advance (advances_ecReadRepair settled.genuine)
  | disconnect replicaId => exact settled.advance advances_ecDisconnect
  | reconnect replicaId => exact settled.advance (advances_ecReconnect settled.genuine harmless)
  | hintedHandoff fromReplica toReplica => exact settled.advance (advances_ecHintedHandoff harmless)

/-- The replicas that respond to a read. -/
def ECSystem.responders (ec : ECSystem n) (key : Int) : Finset (Fin n) :=
  Finset.univ.filter fun i =>
    (if (ec.replicas i).online then ecFindEntry (ec.replicas i).data key else none).isSome = true

theorem length_responses (ec : ECSystem n) (key : Int) : (ec.responses key).length = (ec.responders key).card := by
  rw [ECSystem.responses, List.length_filterMap_eq_countP, countP_finRange]
  rfl

/-- What a responder holds is among the responses. -/
theorem response_of_responder {ec : ECSystem n} {i : Fin n} {held : Int × Nat} (responds : i ∈ ec.responders key)
    (here : held ∈ ec.registers i key) :
    held ∈ (ec.responses key).map fun entry => (entry.value, entry.version) := by
  obtain ⟨-, some⟩ := Finset.mem_filter.mp responds
  obtain ⟨entry, found, rfl⟩ := Option.map_eq_some_iff.mp here
  refine List.mem_map.mpr ⟨entry, mem_responses.mpr ⟨i, ?_, found⟩, rfl⟩
  by_contra offline
  rw [if_neg offline] at some
  exact Bool.false_ne_true some

theorem readsCurrent (settled : Settled run) : ReadsCurrent run := by
  intro key value version read
  rw [ecRead] at read
  split at read
  case isFalse => cases read
  case isTrue enough =>
    have best : run.ec.best key = (value, version) := Option.some.inj read
    have highest : ∀ held ∈ (run.ec.responses key).map fun entry => (entry.value, entry.version),
        held.2 ≤ version := by
      intro held inside
      have below : held.2 ≤ (run.ec.best key).2 := le_newest inside
      rw [best] at below
      exact below
    constructor
    · obtain ⟨entry, responds⟩ := List.exists_mem_of_length_pos (Nat.lt_of_lt_of_le settled.reads enough)
      obtain ⟨i, -, found⟩ := mem_responses.mp responds
      obtain ⟨write, inside, same⟩ := List.mem_map.mp (settled.genuine i key _ (register_of_find found))
      have positive : 0 < entry.version := by
        have above := settled.positive write inside
        rw [same] at above
        exact above
      have below : entry.version ≤ version := highest _ (List.mem_map_of_mem responds)
      have written : WrittenIn run.written key (run.ec.best key) := by
        apply best_genuine settled.genuine
        rw [best]
        exact Nat.ne_of_gt (Nat.lt_of_lt_of_le positive below)
      rw [best] at written
      exact written
    · intro write inside same ok
      have held := settled.held write inside ok
      rw [same] at held
      rw [length_responses] at enough
      have many : Fintype.card (Fin n) <
          (run.ec.responders key).card + (holders run.ec.registers key write.entry.version).card := by
        rw [Fintype.card_fin]
        exact Nat.lt_of_lt_of_le settled.overlap (Nat.add_le_add enough held)
      obtain ⟨i, responds, found, here, later⟩ := holder_among many
      exact Nat.le_trans later (highest found (response_of_responder responds here))

/-- From the start, every read is current as long as the hints that are delivered are harmless. -/
theorem ec_reads_current {wQuorum rQuorum : Int}
    (overlap : n < (ecInit n wQuorum rQuorum).readQuorum + (ecInit n wQuorum rQuorum).writeQuorum)
    (reached : Reaches ECRun.call (fun run call => WritesInOrder run call ∧ HintsHarmless run call)
      ⟨ecInit n wQuorum rQuorum, []⟩ run) : ReadsCurrent run := by
  have initial : Settled (⟨ecInit n wQuorum rQuorum, []⟩ : ECRun n) := by
    refine ⟨overlap, ?_, ?_, by simp, by simp⟩
    · simp only [ecInit]
      split <;> omega
    · intro i key held inside
      cases inside
  have settled : Settled run := reached.invariant initial fun run call settled allowed =>
    settled_call settled allowed.1 allowed.2
  exact readsCurrent settled

/-- The hint that replica 2 missed is delivered under key 0, which is the key that was written. -/
def caughtUp : List ECCall :=
  [.write 0 10 1, .disconnect 2, .write 0 11 2, .reconnect 2, .disconnect 0, .read 0, .write 7 12 3, .readRepair 7]

theorem caughtUp_current : ReadsCurrent (caughtUp.foldl ECRun.call ⟨ecInit 3 2 2, []⟩) :=
  ec_reads_current (by decide) (Reaches.ofCalls caughtUp (by decide +kernel))

/-- Replica 2 is away while key 5 is written. -/
def hintDelivered : List ECCall := [.disconnect 2, .write 5 42 1, .reconnect 2]

/-- The value written to key 5 comes back under key 0 with version 0, and a read of key 0 returns what nobody wrote. -/
theorem hintDelivered_invented :
    Permitted ECRun.call WritesInOrder ⟨ecInit 3 3 1, []⟩ hintDelivered ∧
      3 < (ecInit 3 3 1).readQuorum + (ecInit 3 3 1).writeQuorum ∧
      ecRead (hintDelivered.foldl ECRun.call ⟨ecInit 3 3 1, []⟩).ec 0 = some (0, 0) ∧
      ¬ ReadsCurrent (hintDelivered.foldl ECRun.call ⟨ecInit 3 3 1, []⟩) := by
  have read : ecRead (hintDelivered.foldl ECRun.call ⟨ecInit 3 3 1, []⟩).ec 0 = some (0, 0) := by decide +kernel
  refine ⟨by decide +kernel, by decide, read, ?_⟩
  intro current
  exact absurd (current 0 0 0 read).1 (by decide +kernel)

end Runs

end MiniNetDist.DistProtocol.EventualConsistency
