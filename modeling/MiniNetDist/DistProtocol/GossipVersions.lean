import MiniNetDist.DistProtocol.Gossip

/-! Versions of gossip entries over time. `gossip_on_receive` takes all entries of a message and lets the clock follow
the first one only, so that a node may hold a version above its own clock. -/

namespace MiniNetDist.DistProtocol.Gossip

open Library

variable {n : Nat} {data : List GossipDataEntry} {incoming held old : GossipDataEntry} {limit : Nat}

section Taking

/-- A received entry is stored: its key is held with a lower version, or it is new and there is room. -/
def Takes (data : List GossipDataEntry) (incoming : GossipDataEntry) : Prop :=
  match entry data incoming.key with
  | some old => old.version < incoming.version
  | none => data.length < GOSSIP_MAX_DATA_KEYS

instance (data : List GossipDataEntry) (incoming : GossipDataEntry) : Decidable (Takes data incoming) := by
  unfold Takes
  cases entry data incoming.key with
  | none => exact inferInstanceAs (Decidable (_ < _))
  | some old => exact inferInstanceAs (Decidable (_ < _))

/-- Every entry that a message leaves at a node on the way has at most this version. -/
def Covers (limit : Nat) : List GossipDataEntry → List GossipDataEntry → Prop
  | _, [] => True
  | data, first :: rest => (Takes data first → first.version ≤ limit) ∧ Covers limit (receiveEntry data first) rest

instance Covers.decidable (limit : Nat) : (data entries : List GossipDataEntry) → Decidable (Covers limit data entries)
  | _, [] => .isTrue trivial
  | data, first :: rest =>
    have := Covers.decidable limit (receiveEntry data first) rest
    inferInstanceAs (Decidable (_ ∧ _))

theorem receiveEntry_of_not_takes (leaves : ¬ Takes data incoming) : receiveEntry data incoming = data := by
  rw [Takes] at leaves
  rw [receiveEntry]
  cases found : entry data incoming.key with
  | none =>
    rw [found] at leaves
    exact if_neg leaves
  | some old =>
    rw [found] at leaves
    exact if_neg leaves

theorem mem_receiveEntry_of_takes (takes : Takes data incoming) : incoming ∈ receiveEntry data incoming := by
  rw [Takes] at takes
  rw [receiveEntry]
  cases found : entry data incoming.key with
  | none =>
    rw [found] at takes
    dsimp only
    rw [if_pos takes]
    exact List.mem_append_right _ (List.mem_singleton_self _)
  | some old =>
    rw [found] at takes
    dsimp only at takes ⊢
    obtain ⟨earlier, rest, -, key, -, update⟩ := Table.split_of_find found
    rw [if_pos takes, update, key]
    exact List.mem_append_right _ (List.mem_cons_self ..)

/-- What is held under a key is kept or replaced by a later version. -/
theorem entry_receiveEntry {key : Int} (present : entry data key = some old) :
    ∃ new, entry (receiveEntry data incoming) key = some new ∧ old.version ≤ new.version := by
  by_cases takes : Takes data incoming
  · rw [Takes] at takes
    rw [receiveEntry]
    cases found : entry data incoming.key with
    | none =>
      rw [found] at takes
      refine ⟨old, ?_, Nat.le_refl _⟩
      dsimp only
      rw [if_pos takes]
      exact entry_append_of_some present
    | some replaced =>
      rw [found] at takes
      dsimp only at takes ⊢
      rw [if_pos takes, entry_update (by intro _; rfl)]
      by_cases same : key = incoming.key
      · subst same
        rw [found] at present
        cases present
        rw [if_pos rfl, found]
        exact ⟨_, rfl, Nat.le_of_lt takes⟩
      · rw [if_neg same]
        exact ⟨old, present, Nat.le_refl _⟩
  · rw [receiveEntry_of_not_takes takes]
    exact ⟨old, present, Nat.le_refl _⟩

theorem entry_foldl_receiveEntry {key : Int} (entries : List GossipDataEntry) (present : entry data key = some old) :
    ∃ new, entry (entries.foldl receiveEntry data) key = some new ∧ old.version ≤ new.version := by
  induction entries generalizing data old with
  | nil => exact ⟨old, present, Nat.le_refl _⟩
  | cons first rest ih =>
    obtain ⟨between, kept, rises⟩ := @entry_receiveEntry _ first _ _ present
    obtain ⟨new, last, rises'⟩ := ih kept
    exact ⟨new, last, Nat.le_trans rises rises'⟩

/-- No version at a node is above the limit after a message exactly if none that was stored on the way is. -/
theorem covers_iff {entries : List GossipDataEntry} (distinct : Distinct data)
    (below : ∀ held ∈ data, held.version ≤ limit) :
    (∀ held ∈ entries.foldl receiveEntry data, held.version ≤ limit) ↔ Covers limit data entries := by
  induction entries generalizing data with
  | nil => exact iff_of_true below trivial
  | cons first rest ih =>
    have next : Distinct (receiveEntry data first) := distinct_receiveEntry distinct
    have stored : (∀ held ∈ receiveEntry data first, held.version ≤ limit) ↔
        (Takes data first → first.version ≤ limit) := by
      constructor
      · intro all takes
        exact all first (mem_receiveEntry_of_takes takes)
      · intro fits held inside
        by_cases takes : Takes data first
        · rcases mem_receiveEntry inside with earlier | rfl
          · exact below held earlier
          · exact fits takes
        · rw [receiveEntry_of_not_takes takes] at inside
          exact below held inside
    constructor
    · intro all
      have kept : ∀ held ∈ receiveEntry data first, held.version ≤ limit := by
        intro held inside
        obtain ⟨new, present, rises⟩ := entry_foldl_receiveEntry rest (Table.find_of_mem next inside)
        exact Nat.le_trans rises (all new (Table.mem_of_find present))
      exact ⟨stored.mp kept, (ih next kept).mp all⟩
    · rintro ⟨fits, later⟩
      exact (ih next (stored.mpr fits)).mpr later

end Taking

section Runs

/-- Nodes and the messages that were created; a message may arrive anywhere, at any time and more than once. -/
structure Gossiping (n : Nat) where
  nodes : GossipNodes n
  messages : List (GossipMessage n)

inductive MessageCall (n : Nat) where
  | setData (i : Fin n) (key value : Int)
  | createPush (i : Fin n)
  | receive (i : Fin n) (message : Nat)

def Gossiping.call (sys : Gossiping n) : MessageCall n → Gossiping n
  | .setData i key value =>
    { sys with nodes := Function.update sys.nodes i (gossipSetData (sys.nodes i) key value) }
  | .createPush i => { sys with messages := sys.messages ++ [gossipCreatePush (sys.nodes i) i] }
  | .receive i message =>
    match sys.messages[message]? with
    | some msg => { sys with nodes := sys.nodes.receive i msg }
    | none => sys

/-- An update of a key that is held gives it a higher version. -/
def Raises (sys : Gossiping n) : Prop :=
  ∀ i key value, ∀ old ∈ entry (sys.nodes i).data key,
    ∃ new ∈ entry (gossipSetData (sys.nodes i) key value).data key, old.version < new.version

/-- No call lowers a version that is held. -/
def NeverLowers (sys : Gossiping n) : Prop :=
  ∀ call i key, ∀ old ∈ entry (sys.nodes i).data key,
    ∃ new ∈ entry ((sys.call call).nodes i).data key, old.version ≤ new.version

/-- A message is received by a node whose clock will then be no lower than any version that it stores, and no clock
reaches the last number of 64 bits. -/
def KeepsClock (sys : Gossiping n) : MessageCall n → Prop
  | .setData i key _ => Assigns (sys.nodes i) key → (sys.nodes i).versionClock + 2 < 2 ^ 64
  | .createPush _ => True
  | .receive i message => ∀ msg ∈ sys.messages[message]?,
      Covers (followClock (sys.nodes i).versionClock msg.dataEntries) (sys.nodes i).data msg.dataEntries

instance (sys : Gossiping n) : (call : MessageCall n) → Decidable (KeepsClock sys call)
  | .setData _ _ _ => inferInstanceAs (Decidable (_ → _))
  | .createPush _ => .isTrue trivial
  | .receive _ message => inferInstanceAs (Decidable (∀ msg ∈ sys.messages[message]?, Covers _ _ _))

/-- What holds of the nodes of a run apart from the property itself. -/
structure Bounded (sys : Gossiping n) : Prop where
  distinct : ∀ i, Distinct (sys.nodes i).data
  clock : ∀ i, (sys.nodes i).versionClock + 1 < 2 ^ 64
  messages : ∀ msg ∈ sys.messages, ∀ held ∈ msg.dataEntries, held.version + 1 < 2 ^ 64

variable {sys : Gossiping n}

theorem nextVersion_eq {clock : Nat} (small : clock + 1 < 2 ^ 64) : nextVersion clock = clock + 1 := by
  unfold nextVersion
  exact Nat.mod_eq_of_lt small

theorem entry_gossipSetData_of_held {node : GossipNode n} {key value : Int}
    (present : entry node.data key = some old) :
    entry (gossipSetData node key value).data key =
      some { old with value := value, version := nextVersion node.versionClock } := by
  rw [gossipSetData, present]
  simp only [Option.isSome_some, if_true]
  rw [entry_update (by intro _; rfl), if_pos rfl, present]
  rfl

theorem entry_gossipSetData_of_ne {node : GossipNode n} {key other value : Int} (different : other ≠ key)
    (present : entry node.data other = some old) :
    entry (gossipSetData node key value).data other = some old := by
  rw [gossipSetData]
  split
  · dsimp only
    rw [entry_update (by intro _; rfl), if_neg different, present]
  · split
    · exact entry_append_of_some present
    · exact present

theorem raises_iff : Raises sys ↔
    ∀ i key, ∀ old ∈ entry (sys.nodes i).data key, old.version < nextVersion (sys.nodes i).versionClock := by
  constructor
  · intro raises i key old present
    obtain ⟨new, found, larger⟩ := raises i key 0 old present
    rw [entry_gossipSetData_of_held present] at found
    cases found
    exact larger
  · intro larger i key value old present
    exact ⟨_, entry_gossipSetData_of_held present, larger i key old present⟩

/-- Updates raise versions exactly where no version is above its node's clock. -/
theorem raises_iff_covered (bounded : Bounded sys) :
    Raises sys ↔ ∀ i, ∀ held ∈ (sys.nodes i).data, held.version ≤ (sys.nodes i).versionClock := by
  rw [raises_iff]
  constructor
  · intro larger i held inside
    have below := larger i held.key held (Table.find_of_mem (bounded.distinct i) inside)
    rw [nextVersion_eq (bounded.clock i)] at below
    exact Nat.le_of_lt_succ below
  · intro covered i key old present
    rw [nextVersion_eq (bounded.clock i)]
    exact Nat.lt_succ_of_le (covered i old (Table.mem_of_find present))

theorem neverLowers_of_raises (raises : Raises sys) : NeverLowers sys := by
  intro call i key old present
  cases call with
  | createPush j => exact ⟨old, present, Nat.le_refl _⟩
  | setData j changed value =>
    by_cases here : i = j
    · subst here
      simp only [Gossiping.call, Function.update_self]
      by_cases same : key = changed
      · subst same
        obtain ⟨new, found, larger⟩ := raises i key value old present
        exact ⟨new, found, Nat.le_of_lt larger⟩
      · exact ⟨old, entry_gossipSetData_of_ne same present, Nat.le_refl _⟩
    · simp only [Gossiping.call, Function.update_of_ne here]
      exact ⟨old, present, Nat.le_refl _⟩
  | receive j message =>
    simp only [Gossiping.call]
    cases sys.messages[message]? with
    | none => exact ⟨old, present, Nat.le_refl _⟩
    | some msg =>
      by_cases here : i = j
      · subst here
        simp only [GossipNodes.receive, Function.update_self]
        exact entry_foldl_receiveEntry msg.dataEntries present
      · simp only [GossipNodes.receive, Function.update_of_ne here]
        exact ⟨old, present, Nat.le_refl _⟩

theorem lt_nextVersion_iff (clock : Nat) : clock < nextVersion clock ↔ clock + 1 < 2 ^ 64 := by
  unfold nextVersion
  omega

theorem gossipSetData_of_assigns {node : GossipNode n} {key : Int} (value : Int) (assigns : Assigns node key) :
    (gossipSetData node key value).versionClock = nextVersion node.versionClock ∧
      ⟨key, value, nextVersion node.versionClock⟩ ∈ (gossipSetData node key value).data := by
  cases found : entry node.data key with
  | some old =>
    have entered : entry (gossipSetData node key value).data key =
        some { old with value := value, version := nextVersion node.versionClock } := entry_gossipSetData_of_held found
    refine ⟨by rw [gossipSetData, found]; rfl, ?_⟩
    have same : old.key = key := Table.key_of_find found
    rw [← same] at entered ⊢
    exact Table.mem_of_find entered
  | none =>
    have absent := Table.find_eq_none_iff.mp found
    have room : node.data.length < GOSSIP_MAX_DATA_KEYS := by
      rcases assigns with present | room
      · exact absurd present absent
      · rwa [List.length_map] at room
    rw [gossipSetData, found]
    simp only [Option.isSome_none, Bool.false_eq_true, if_false, if_pos room]
    exact ⟨trivial, List.mem_append_right _ (List.mem_singleton_self _)⟩

theorem gossipSetData_of_not_assigns {node : GossipNode n} {key : Int} (value : Int) (full : ¬ Assigns node key) :
    gossipSetData node key value = node := by
  have absent : key ∉ node.data.map GossipDataEntry.key := fun present => full (.inl present)
  have noRoom : ¬ node.data.length < GOSSIP_MAX_DATA_KEYS := by
    intro room
    exact full (.inr (by rwa [List.length_map]))
  rw [gossipSetData, entry, Table.find_eq_none_iff.mpr absent, if_neg (by simp), if_neg noRoom]

theorem followClock_eq (clock : Nat) (entries : List GossipDataEntry) :
    clock ≤ followClock clock entries ∧
      (followClock clock entries = clock ∨ ∃ held ∈ entries, followClock clock entries = held.version) := by
  cases entries with
  | nil => exact ⟨Nat.le_refl _, .inl rfl⟩
  | cons first rest =>
    rw [followClock]
    split
    · exact ⟨Nat.le_of_lt ‹_›, .inr ⟨first, List.mem_cons_self .., rfl⟩⟩
    · exact ⟨Nat.le_refl _, .inl rfl⟩

/-- One node is replaced by one that keeps its keys apart and its clock small. -/
theorem Bounded.update (bounded : Bounded sys) {i : Fin n} {node : GossipNode n} (distinct : Distinct node.data)
    (clock : node.versionClock + 1 < 2 ^ 64) : Bounded { sys with nodes := Function.update sys.nodes i node } where
  distinct := (Function.forall_update_iff sys.nodes fun _ node => Distinct node.data).mpr
    ⟨distinct, fun j _ => bounded.distinct j⟩
  clock := (Function.forall_update_iff sys.nodes fun _ node => node.versionClock + 1 < 2 ^ 64).mpr
    ⟨clock, fun j _ => bounded.clock j⟩
  messages := bounded.messages

theorem call_setData_of_not_assigns {i : Fin n} {key : Int} (value : Int) (full : ¬ Assigns (sys.nodes i) key) :
    sys.call (.setData i key value) = sys := by
  simp only [Gossiping.call, gossipSetData_of_not_assigns value full, Function.update_eq_self]

theorem followClock_small (bounded : Bounded sys) (i : Fin n) {message : Nat} {msg : GossipMessage n}
    (found : sys.messages[message]? = some msg) :
    followClock (sys.nodes i).versionClock msg.dataEntries + 1 < 2 ^ 64 := by
  rcases (followClock_eq (sys.nodes i).versionClock msg.dataEntries).2 with same | ⟨held, inside, same⟩
  · rw [same]
    exact bounded.clock i
  · rw [same]
    exact bounded.messages msg (List.mem_of_getElem? found) held inside

/-- A clock that writes an entry is one that the next update raises. -/
theorem clock_of_raises (bounded : Bounded sys) {i : Fin n} {key value : Int} (assigns : Assigns (sys.nodes i) key)
    (raises : Raises (sys.call (.setData i key value))) : (sys.nodes i).versionClock + 2 < 2 ^ 64 := by
  obtain ⟨clock, inside⟩ := gossipSetData_of_assigns value assigns
  have distinct : Distinct (gossipSetData (sys.nodes i) key value).data := distinct_gossipSetData (bounded.distinct i)
  have below := raises_iff.mp raises i key
  simp only [Gossiping.call, Function.update_self] at below
  have larger := below _ (Table.find_of_mem distinct inside)
  rw [clock, lt_nextVersion_iff, nextVersion_eq (bounded.clock i)] at larger
  exact larger

theorem bounded_setData (bounded : Bounded sys) {i : Fin n} {key : Int} (value : Int)
    (assigns : Assigns (sys.nodes i) key) (small : (sys.nodes i).versionClock + 2 < 2 ^ 64) : Bounded (sys.call (.setData i key value)) := by
  apply bounded.update (distinct_gossipSetData (bounded.distinct i))
  rw [(gossipSetData_of_assigns value assigns).1, nextVersion_eq (bounded.clock i)]
  exact small

theorem bounded_receive (bounded : Bounded sys) (i : Fin n) {message : Nat} {msg : GossipMessage n}
    (found : sys.messages[message]? = some msg) : Bounded { sys with nodes := sys.nodes.receive i msg } :=
  bounded.update (distinct_foldl_receiveEntry (bounded.distinct i)) (followClock_small bounded i found)

/-- The nodes after a call keep what is assumed of them, provided updates still raise versions. -/
theorem bounded_call (bounded : Bounded sys) (call : MessageCall n) (raises : Raises (sys.call call)) :
    Bounded (sys.call call) := by
  cases call with
  | createPush i =>
    have covered := (raises_iff_covered bounded).mp raises
    refine ⟨bounded.distinct, bounded.clock, ?_⟩
    intro msg inside held sent
    rcases List.mem_append.mp inside with earlier | new
    · exact bounded.messages msg earlier held sent
    · cases List.mem_singleton.mp new
      have small := bounded.clock i
      have below := covered i held sent
      omega
  | setData i key value =>
    by_cases assigns : Assigns (sys.nodes i) key
    · exact bounded_setData bounded value assigns (clock_of_raises bounded assigns raises)
    · rw [call_setData_of_not_assigns value assigns]
      exact bounded
  | receive i message =>
    simp only [Gossiping.call]
    cases found : sys.messages[message]? with
    | none => exact bounded
    | some msg => exact bounded_receive bounded i found

/-- A node is replaced and updates raise versions, if they do at the other nodes and its own clock is high enough. -/
theorem raises_update_iff (bounded : Bounded sys) (raises : Raises sys) {i : Fin n} {node : GossipNode n}
    (later : Bounded { sys with nodes := Function.update sys.nodes i node }) :
    Raises { sys with nodes := Function.update sys.nodes i node } ↔
      ∀ held ∈ node.data, held.version ≤ node.versionClock := by
  have covered := (raises_iff_covered bounded).mp raises
  rw [raises_iff_covered later]
  refine (Function.forall_update_iff sys.nodes
    fun _ node => ∀ held ∈ node.data, held.version ≤ node.versionClock).trans ?_
  exact and_iff_left fun j _ => covered j

theorem raises_setData_iff (bounded : Bounded sys) (raises : Raises sys) {i : Fin n} {key : Int} (value : Int)
    (assigns : Assigns (sys.nodes i) key) :
    Raises (sys.call (.setData i key value)) ↔ (sys.nodes i).versionClock + 2 < 2 ^ 64 := by
  refine ⟨clock_of_raises bounded assigns, ?_⟩
  intro small
  have covered := (raises_iff_covered bounded).mp raises
  apply (raises_update_iff bounded raises (bounded_setData bounded value assigns small)).mpr
  intro held inside
  rw [(gossipSetData_of_assigns value assigns).1]
  rcases mem_gossipSetData (bounded.distinct i) inside with ⟨earlier, -⟩ | ⟨-, rfl⟩
  · rw [nextVersion_eq (bounded.clock i)]
    exact Nat.le_succ_of_le (covered i held earlier)
  · exact Nat.le_refl _

theorem raises_receive_iff (bounded : Bounded sys) (raises : Raises sys) (i : Fin n) {message : Nat}
    {msg : GossipMessage n} (found : sys.messages[message]? = some msg) :
    Raises { sys with nodes := sys.nodes.receive i msg } ↔
      Covers (followClock (sys.nodes i).versionClock msg.dataEntries) (sys.nodes i).data msg.dataEntries := by
  have below : ∀ held ∈ (sys.nodes i).data,
      held.version ≤ followClock (sys.nodes i).versionClock msg.dataEntries := fun held inside =>
    Nat.le_trans ((raises_iff_covered bounded).mp raises i held inside) (followClock_eq _ _).1
  rw [← covers_iff (bounded.distinct i) below]
  exact raises_update_iff bounded raises (bounded_receive bounded i found)

/-- One call leaves updates raising versions exactly if it meets the condition. -/
theorem raises_call_iff (bounded : Bounded sys) (raises : Raises sys) (call : MessageCall n) :
    Raises (sys.call call) ↔ KeepsClock sys call := by
  cases call with
  | createPush i => exact iff_of_true raises trivial
  | setData i key value =>
    by_cases assigns : Assigns (sys.nodes i) key
    · rw [raises_setData_iff bounded raises value assigns]
      exact ⟨fun small _ => small, fun keeps => keeps assigns⟩
    · rw [call_setData_of_not_assigns value assigns]
      exact iff_of_true raises fun present => absurd present assigns
  | receive i message =>
    simp only [KeepsClock, Gossiping.call]
    cases found : sys.messages[message]? with
    | none => exact iff_of_true raises fun msg none => by cases none
    | some msg =>
      rw [raises_receive_iff bounded raises i found]
      simp only [Option.mem_some_iff, forall_eq']

/-- Along a run updates raise versions and no version is lowered, exactly if every call meets the condition. -/
theorem gossip_versions_iff {start : GossipNodes n} (empty : ∀ i, (start i).data = [] ∧ (start i).versionClock = 0)
    (calls : List (MessageCall n)) :
    (∀ earlier, earlier <+: calls → Raises (earlier.foldl Gossiping.call ⟨start, []⟩) ∧
        NeverLowers (earlier.foldl Gossiping.call ⟨start, []⟩)) ↔
      Permitted Gossiping.call KeepsClock ⟨start, []⟩ calls := by
  have initial : Bounded (⟨start, []⟩ : Gossiping n) := by
    refine ⟨fun i => ?_, fun i => ?_, fun msg inside => by cases inside⟩
    · simp only [(empty i).1]
      exact List.nodup_nil
    · simp only [(empty i).2]
      decide
  have raises : Raises (⟨start, []⟩ : Gossiping n) := by
    intro i key value old present
    simp only [(empty i).1] at present
    cases present
  have both : ∀ sys : Gossiping n, Raises sys ∧ NeverLowers sys ↔ Raises sys := fun sys =>
    and_iff_left_of_imp neverLowers_of_raises
  simp only [both]
  exact Permitted.throughout_iff calls (Permitted.always calls) initial raises
    (fun sys call bounded _ next => bounded_call bounded call next)
    (fun sys call bounded _ now => raises_call_iff bounded now call)

/-- Two nodes whose neighbours play no part. -/
def quietPair : GossipNodes 2 := fun _ => ⟨[], [], 0, true⟩

theorem quietPair_raises :
    Raises ([.setData 0 1 10, .createPush 0, .receive 1 0].foldl Gossiping.call ⟨quietPair, []⟩) :=
  ((gossip_versions_iff (fun _ => ⟨rfl, rfl⟩) [.setData 0 1 10, .createPush 0, .receive 1 0]).mpr
    (by decide +kernel) _ (List.prefix_refl _)).1

/-- A message with version 1 of one key and version 2 of another. -/
def secondEntry (sender receiver : Fin n) : List (MessageCall n) :=
  [.setData sender 1 10, .setData sender 2 20, .createPush sender, .receive receiver 0]

/-- The receiver's update of the second key keeps the version 2. -/
theorem secondEntry_shadowed :
    gossipGetData (((secondEntry 0 1).foldl Gossiping.call ⟨quietPair, []⟩).nodes 1) 2 = some (20, 2) ∧
      gossipGetData (((secondEntry 0 1 ++ [MessageCall.setData 1 2 30]).foldl Gossiping.call ⟨quietPair, []⟩).nodes 1) 2 =
        some (30, 2) ∧
      ¬ Raises ((secondEntry 0 1).foldl Gossiping.call ⟨quietPair, []⟩) := by
  refine ⟨by decide +kernel, by decide +kernel, ?_⟩
  intro raises
  have larger := raises_iff.mp raises 1 2 ⟨2, 20, 2⟩ (by decide +kernel)
  exact absurd larger (by decide +kernel)

end Runs

end MiniNetDist.DistProtocol.Gossip
