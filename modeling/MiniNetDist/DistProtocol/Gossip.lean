import MiniNetDist.Library.Run
import MiniNetDist.Library.Table
import Mathlib.Algebra.Ring.Nat
import Mathlib.Data.List.FinRange
import Mathlib.Logic.Function.Basic

/-! The gossip of `mini-dist-protocol/src/gossip.c`. A node gives its updates versions from a clock of its own; an
entry is replaced by one of the same key with a higher version. -/

namespace MiniNetDist.DistProtocol.Gossip

open Library

def GOSSIP_MAX_NODES : Nat := 16
def GOSSIP_MAX_NEIGHBORS : Nat := 8
def GOSSIP_MAX_DATA_KEYS : Nat := 32
def GOSSIP_MAX_ROUNDS : Nat := 100
def GOSSIP_FANOUT : Nat := 3

structure GossipDataEntry where
  key : Int
  value : Int
  version : Nat
  deriving DecidableEq, Repr

inductive GossipMessageType where
  | push
  | pull
  | pushPull
  deriving DecidableEq, Repr

structure GossipMessage (n : Nat) where
  type : GossipMessageType
  dataEntries : List GossipDataEntry
  senderId : Fin n

/-- A node whose `id` is its place in the array. -/
structure GossipNode (n : Nat) where
  data : List GossipDataEntry
  neighbors : List (Fin n)
  versionClock : Nat
  active : Bool

variable {n : Nat}

section Data

/-- The entry of a key, the first if there are several. -/
def entry (data : List GossipDataEntry) (key : Int) : Option GossipDataEntry := Table.find GossipDataEntry.key data key

/-- The incremented clock, an `uint64_t`. -/
@[irreducible] def nextVersion (versionClock : Nat) : Nat := (versionClock + 1) % 2 ^ 64

def gossipSetData (node : GossipNode n) (key value : Int) : GossipNode n :=
  if (entry node.data key).isSome then
    { node with
      data := Table.update GossipDataEntry.key node.data key fun old =>
        { old with value := value, version := nextVersion node.versionClock }
      versionClock := nextVersion node.versionClock }
  else if node.data.length < GOSSIP_MAX_DATA_KEYS then
    { node with
      data := node.data ++ [⟨key, value, nextVersion node.versionClock⟩]
      versionClock := nextVersion node.versionClock }
  else node

/-- The value and the version of a key. -/
def gossipGetData (node : GossipNode n) (key : Int) : Option (Int × Nat) :=
  (entry node.data key).map fun found => (found.value, found.version)

def gossipCreatePush (node : GossipNode n) (id : Fin n) : GossipMessage n := ⟨.push, node.data, id⟩

/-- The body of the loop in `gossip_on_receive`. -/
def receiveEntry (data : List GossipDataEntry) (incoming : GossipDataEntry) : List GossipDataEntry :=
  match entry data incoming.key with
  | some old =>
    if incoming.version > old.version then
      Table.update GossipDataEntry.key data incoming.key fun old =>
        { old with value := incoming.value, version := incoming.version }
    else data
  | none => if data.length < GOSSIP_MAX_DATA_KEYS then data ++ [incoming] else data

/-- The clock follows the first entry of the message. -/
def followClock (versionClock : Nat) (entries : List GossipDataEntry) : Nat :=
  match entries with
  | [] => versionClock
  | first :: _ => if first.version > versionClock then first.version else versionClock

def gossipOnReceive (node : GossipNode n) (msg : GossipMessage n) : GossipNode n :=
  { node with
    data := msg.dataEntries.foldl receiveEntry node.data
    versionClock := followClock node.versionClock msg.dataEntries }

end Data

section Entries

variable {data : List GossipDataEntry} {incoming held : GossipDataEntry}

/-- The keys of a node are the keys of different entries. -/
def Distinct (data : List GossipDataEntry) : Prop := (data.map GossipDataEntry.key).Nodup

theorem mem_receiveEntry (inside : held ∈ receiveEntry data incoming) : held ∈ data ∨ held = incoming := by
  rw [receiveEntry] at inside
  cases found : entry data incoming.key with
  | none =>
    rw [found] at inside
    simp only at inside
    split at inside
    · rcases List.mem_append.mp inside with old | new
      · exact .inl old
      · exact .inr (List.mem_singleton.mp new)
    · exact .inl inside
  | some old =>
    rw [found] at inside
    simp only at inside
    split at inside
    · obtain ⟨earlier, rest, whole, key, -, update⟩ := Table.split_of_find found
      rw [update] at inside
      rw [whole]
      rcases List.mem_append.mp inside with before | after
      · exact .inl (List.mem_append_left _ before)
      · rcases List.mem_cons.mp after with here | behind
        · right
          rw [here, key]
        · exact .inl (List.mem_append_right _ (List.mem_cons_of_mem _ behind))
    · exact .inl inside

theorem entry_update {key other : Int} {change : GossipDataEntry → GossipDataEntry}
    (keeps : ∀ old, (change old).key = old.key) :
    entry (Table.update GossipDataEntry.key data key change) other =
      if other = key then (entry data key).map change else entry data other :=
  Table.find_update keeps

theorem entry_append_of_some {key : Int} (present : entry data key = some held) :
    entry (data ++ [incoming]) key = some held := by
  rw [entry] at present ⊢
  rw [Table.find_append, present]
  rfl

theorem distinct_update {key : Int} {change : GossipDataEntry → GossipDataEntry}
    (keeps : ∀ old, (change old).key = old.key) (distinct : Distinct data) :
    Distinct (Table.update GossipDataEntry.key data key change) := by
  rw [Distinct, Table.map_update keeps]
  exact distinct

theorem distinct_append (absent : held.key ∉ data.map GossipDataEntry.key) (distinct : Distinct data) :
    Distinct (data ++ [held]) := by
  rw [Distinct, List.map_append]
  exact List.Nodup.append distinct (List.nodup_singleton _) (by simpa using absent)

theorem distinct_receiveEntry (distinct : Distinct data) : Distinct (receiveEntry data incoming) := by
  rw [receiveEntry]
  cases found : entry data incoming.key with
  | none =>
    dsimp only
    split
    · exact distinct_append (Table.find_eq_none_iff.mp found) distinct
    · exact distinct
  | some old =>
    dsimp only
    split
    · exact distinct_update (fun _ => rfl) distinct
    · exact distinct

theorem mem_foldl_receiveEntry {entries : List GossipDataEntry} (inside : held ∈ entries.foldl receiveEntry data) :
    held ∈ data ∨ held ∈ entries := by
  induction entries generalizing data with
  | nil => exact .inl inside
  | cons first rest ih =>
    rcases ih inside with received | further
    · rcases mem_receiveEntry received with old | new
      · exact .inl old
      · exact .inr (new ▸ List.mem_cons_self ..)
    · exact .inr (List.mem_cons_of_mem _ further)

theorem distinct_foldl_receiveEntry {entries : List GossipDataEntry} (distinct : Distinct data) :
    Distinct (entries.foldl receiveEntry data) := by
  induction entries generalizing data with
  | nil => exact distinct
  | cons first rest ih => exact ih (distinct_receiveEntry distinct)

/-- An update writes an entry: the key is held, or there is room for it. -/
def Assigns (node : GossipNode n) (key : Int) : Prop :=
  Table.HasRoom GOSSIP_MAX_DATA_KEYS (node.data.map GossipDataEntry.key) key

instance (node : GossipNode n) (key : Int) : Decidable (Assigns node key) :=
  inferInstanceAs (Decidable (Table.HasRoom ..))

/-- After an update a key has the new entry, and the other keys have their old ones. -/
theorem mem_gossipSetData {node : GossipNode n} {key value : Int} (distinct : Distinct node.data)
    (inside : held ∈ (gossipSetData node key value).data) :
    held ∈ node.data ∧ held.key ≠ key ∨ Assigns node key ∧ held = ⟨key, value, nextVersion node.versionClock⟩ := by
  rw [gossipSetData] at inside
  split at inside
  case isTrue found =>
    have present : key ∈ node.data.map GossipDataEntry.key := Table.find_isSome_iff.mp found
    simp only [Table.update_eq_map distinct] at inside
    obtain ⟨old, member, rfl⟩ := List.mem_map.mp inside
    by_cases same : old.key = key
    · right
      rw [if_pos same, same]
      exact ⟨.inl present, rfl⟩
    · left
      rw [if_neg same]
      exact ⟨member, same⟩
  case isFalse missing =>
    have absent : key ∉ node.data.map GossipDataEntry.key := fun present => missing (Table.find_isSome_iff.mpr present)
    have other : ∀ old ∈ node.data, old.key ≠ key := fun old member same =>
      absent (same ▸ List.mem_map_of_mem member)
    split at inside
    case isTrue room =>
      rcases List.mem_append.mp inside with old | new
      · exact .inl ⟨old, other held old⟩
      · refine .inr ⟨.inr ?_, List.mem_singleton.mp new⟩
        rw [List.length_map]
        exact room
    case isFalse => exact .inl ⟨inside, other held inside⟩

theorem distinct_gossipSetData {node : GossipNode n} {key value : Int} (distinct : Distinct node.data) :
    Distinct (gossipSetData node key value).data := by
  rw [gossipSetData]
  split
  case isTrue => exact distinct_update (fun _ => rfl) distinct
  case isFalse missing =>
    split
    · exact distinct_append (fun present => missing (Table.find_isSome_iff.mpr present)) distinct
    · exact distinct

end Entries

section Spreading

abbrev GossipNodes (n : Nat) := Fin n → GossipNode n

def GossipNodes.receive (nodes : GossipNodes n) (i : Fin n) (msg : GossipMessage n) : GossipNodes n :=
  Function.update nodes i (gossipOnReceive (nodes i) msg)

/-- The peer for a number that was drawn; none is -1 in the source. -/
def gossipSelectPeer (node : GossipNode n) (drawn : Nat) : Option (Fin n) :=
  if node.neighbors = [] then none else node.neighbors[drawn % node.neighbors.length]?

/-- One exchange of a node with a peer. -/
def gossipExchange (strategy : GossipMessageType) (i target : Fin n) (nodes : GossipNodes n) : GossipNodes n :=
  match strategy with
  | .push => nodes.receive target (gossipCreatePush (nodes i) i)
  | .pull =>
    let nodes := nodes.receive target ⟨.pull, [], i⟩
    nodes.receive i (gossipCreatePush (nodes target) target)
  | .pushPull =>
    let nodes := nodes.receive target (gossipCreatePush (nodes i) i)
    nodes.receive i (gossipCreatePush (nodes target) target)

/-- What one node does in a round; `draws` are the random numbers. -/
def gossipSpreadFrom (strategy : GossipMessageType) (draws : Fin n → Nat → Nat) (nodes : GossipNodes n) (i : Fin n) :
    GossipNodes n :=
  if (nodes i).active = false ∨ (nodes i).data = [] then nodes
  else (List.range GOSSIP_FANOUT).foldl (fun nodes f =>
    match gossipSelectPeer (nodes i) (draws i f) with
    | none => nodes
    | some target => gossipExchange strategy i target nodes) nodes

def gossipSpread (nodes : GossipNodes n) (strategy : GossipMessageType) (draws : Fin n → Nat → Nat) : GossipNodes n :=
  (List.finRange n).foldl (gossipSpreadFrom strategy draws) nodes

/-- The second node has the first one's keys, with the same versions and no others. -/
def synced (ref node : GossipNode n) : Bool :=
  node.data.length = ref.data.length && ref.data.all fun held =>
    (gossipGetData node held.key).any fun found => found.2 = held.version

def activeNodes (nodes : GossipNodes n) : List (Fin n) := (List.finRange n).filter fun i => (nodes i).active

/-- None: the active nodes are written unchecked into an array of `GOSSIP_MAX_NODES`. -/
def gossipAllSynced (nodes : GossipNodes n) : Option Bool :=
  if GOSSIP_MAX_NODES < (activeNodes nodes).length then none
  else match activeNodes nodes with
    | [] => some true
    | ref :: others => some (others.all fun i => synced (nodes ref) (nodes i))

/-- The rounds of `gossip_converge`; `draws` are the random numbers of each round. -/
def convergeFrom (draws : Nat → Fin n → Nat → Nat) (round : Nat) :
    Nat → GossipNodes n → Option (GossipNodes n × Option Nat)
  | 0, nodes => some (nodes, none)
  | rounds + 1, nodes =>
    let nodes := gossipSpread nodes .pushPull (draws round)
    match gossipAllSynced nodes with
    | none => none
    | some true => some (nodes, some (round + 1))
    | some false => convergeFrom draws (round + 1) rounds nodes

/-- The nodes, whether they have converged, and the rounds needed. -/
def gossipConverge (nodes : GossipNodes n) (maxRounds : Int) (draws : Nat → Fin n → Nat → Nat) :
    Option (GossipNodes n × Bool × Nat) :=
  let maxRounds := if maxRounds ≤ 0 then GOSSIP_MAX_ROUNDS else maxRounds.toNat
  match convergeFrom draws 0 maxRounds nodes with
  | none => none
  | some (nodes, some needed) => some (nodes, true, needed)
  | some (nodes, none) => some (nodes, false, maxRounds)

end Spreading

end MiniNetDist.DistProtocol.Gossip
