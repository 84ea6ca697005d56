import MiniNetDist.Library.Draws
import MiniNetDist.Library.Fifo
import MiniNetDist.Library.Latest
import MiniNetDist.Library.Replicated
import MiniNetDist.Library.Table
import Mathlib.Data.List.FinRange
import Mathlib.Order.Nat

/-! The gossip of `mini-dist-system-theory/src/gossip.c`. A message that is taken from the queue passes on what its
sender holds by then, not what the sender held when it was made. -/

namespace MiniNetDist.SystemTheory.Gossip

open Library Library.Replicated

def GOSSIP_MAX_STATE_ITEMS : Nat := 64

inductive GossipMode where
  | push
  | pull
  | pushPull
  deriving DecidableEq, Repr

structure GossipStateItem where
  key : Int
  value : Int
  version : UInt64
  deriving DecidableEq, Repr

structure GossipNode where
  nodeId : Nat
  items : List GossipStateItem
  round : UInt64
  infectionCount : Int
  susceptibleCount : Int
  infected : Bool

/-- The `type` of a message, 0 or 1. -/
inductive GossipMessageType where
  | push
  | pull
  deriving DecidableEq, Repr

structure GossipMessage (n : Nat) where
  type : GossipMessageType
  fromNode : Fin n
  toNode : Fin n
  items : List GossipStateItem
  round : UInt64

/-- `node_count` is `n`. The queue holds up to 255 messages. -/
structure GossipNetwork (n : Nat) where
  nodes : Fin n → GossipNode
  mode : GossipMode
  fanout : Nat
  currentRound : UInt64
  messageQueue : List (GossipMessage n)

variable {n : Nat}

def gossipInitNode (nodeId : Nat) : GossipNode := ⟨nodeId, [], 0, 0, 0, false⟩

/-- `n` is the number of nodes when `gossip_init_network` has cut it down to `GOSSIP_MAX_NODES`. -/
def gossipInitNetwork (n : Nat) (mode : GossipMode) (fanout : Int) : GossipNetwork n where
  nodes i := gossipInitNode i.val
  mode := mode
  fanout := if fanout > 0 then fanout.toNat else 3
  currentRound := 0
  messageQueue := []

/-- A full queue drops the message. -/
def gossipEnqueue (net : GossipNetwork n) (msg : GossipMessage n) : GossipNetwork n :=
  { net with messageQueue := Fifo.accept 255 net.messageQueue msg }

/-- The item that `find_item_index` finds. -/
def findItem (items : List GossipStateItem) (key : Int) : Option GossipStateItem :=
  Table.find GossipStateItem.key items key

/-- A node that was not infected is from now on. -/
def GossipNode.infect (node : GossipNode) : GossipNode :=
  if node.infected then node else { node with infected := true, infectionCount := 1 }

/-- The items after `gossip_update_state`. -/
def updateItems (items : List GossipStateItem) (key value : Int) : List GossipStateItem :=
  match findItem items key with
  | some _ =>
    Table.update GossipStateItem.key items key fun item => { item with value := value, version := item.version + 1 }
  | none => if items.length < GOSSIP_MAX_STATE_ITEMS then items ++ [⟨key, value, 1⟩] else items

def gossipUpdateState (node : GossipNode) (key value : Int) : GossipNode :=
  GossipNode.infect { node with items := updateItems node.items key value }

def gossipGetState (node : GossipNode) (key : Int) : Option Int := (findItem node.items key).map GossipStateItem.value

/-- The body of the loop in `gossip_merge_state`. -/
def mergeItem (items : List GossipStateItem) (oi : GossipStateItem) : List GossipStateItem :=
  match findItem items oi.key with
  | none => if items.length < GOSSIP_MAX_STATE_ITEMS then items ++ [oi] else items
  | some _ => Table.update GossipStateItem.key items oi.key fun item => if oi.version > item.version then oi else item

def gossipMergeState (node other : GossipNode) : GossipNode :=
  let node := { node with items := other.items.foldl mergeItem node.items }
  if other.infected then node.infect else node

/-- The peer with `GOSSIP_STRATEGY_RANDOM`, which all callers use. -/
def gossipSelectPeer (nodeId : Fin n) : Draws (Option (Fin n)) :=
  let others := (List.finRange n).filter fun i => i ≠ nodeId
  if others.length = 0 then pure none
  else do
    let candidate ← draw
    pure others[candidate % others.length]?

/-- The messages to a peer. -/
def gossipContact (net : GossipNetwork n) (nodeId peer : Fin n) : GossipNetwork n :=
  let net :=
    if net.mode = .push ∨ net.mode = .pushPull then
      gossipEnqueue net ⟨.push, nodeId, peer, (net.nodes nodeId).items, net.currentRound⟩
    else net
  if net.mode = .pull ∨ net.mode = .pushPull then gossipEnqueue net ⟨.pull, nodeId, peer, [], net.currentRound⟩
  else net

def gossipSendRound (net : GossipNetwork n) (nodeId : Fin n) : Draws (GossipNetwork n) :=
  (List.range net.fanout).foldlM (fun net _ => do
    match ← gossipSelectPeer nodeId with
    | some peer => pure (gossipContact net nodeId peer)
    | none => pure net) net

def GossipNetwork.put (net : GossipNetwork n) (i : Fin n) (node : GossipNode) : GossipNetwork n :=
  { net with nodes := Function.update net.nodes i node }

/-- The body of the loop in `gossip_process_round`. -/
def processMessage (net : GossipNetwork n) (msg : GossipMessage n) : GossipNetwork n :=
  let sender := net.nodes msg.fromNode
  let receiver := net.nodes msg.toNode
  match msg.type with
  | .push => net.put msg.toNode { gossipMergeState receiver sender with round := net.currentRound }
  | .pull =>
    let temp := gossipMergeState (gossipInitNode msg.fromNode.val) receiver
    net.put msg.fromNode { gossipMergeState sender temp with round := net.currentRound }

def gossipProcessRound (net : GossipNetwork n) : GossipNetwork n :=
  let processed := net.messageQueue.foldl processMessage { net with messageQueue := [] }
  { processed with
    nodes := fun i =>
      { processed.nodes i with susceptibleCount := (n : Int) - (processed.nodes i).infectionCount }
    currentRound := processed.currentRound + 1 }

/-- All nodes have as many items as the first, and for its keys its values. -/
def gossipConverged (net : GossipNetwork n) : Bool :=
  match List.finRange n with
  | [] => true
  | first :: others =>
    let ref := net.nodes first
    others.all fun i =>
      let cur := net.nodes i
      cur.items.length = ref.items.length && ref.items.all fun item => gossipGetState cur item.key = some item.value

/-- The loop of `gossip_rounds_to_converge` from round `r` on, with so many rounds left; no result is -1. -/
def gossipRoundsToConverge (net : GossipNetwork n) (r : Nat) : Nat → Draws (Option Nat × GossipNetwork n)
  | 0 => pure (none, net)
  | left + 1 =>
    if gossipConverged net then pure (some r, net)
    else do
      let sent ← (List.finRange n).foldlM gossipSendRound net
      gossipRoundsToConverge (gossipProcessRound sent) (r + 1) left

/-- A round of messages draws these random numbers. -/
inductive GossipCall (n : Nat) where
  | update (who : Fin n) (key value : Int)
  | sendRound (who : Fin n) (numbers : List Nat)
  | processRound
  deriving DecidableEq

def gossipStep (net : GossipNetwork n) : GossipCall n → GossipNetwork n
  | .update who key value => net.put who (gossipUpdateState (net.nodes who) key value)
  | .sendRound who numbers => (gossipSendRound net who numbers).1
  | .processRound => gossipProcessRound net

section Items

variable {items others : List GossipStateItem} {key value : Int} {item : GossipStateItem}

/-- The version as a number. -/
def GossipStateItem.rank (item : GossipStateItem) : Nat := item.version.toNat

theorem renew_eq (item : GossipStateItem) (items : List GossipStateItem) :
    Latest.renew GossipStateItem.key GossipStateItem.rank item items =
      Table.update GossipStateItem.key items item.key fun old => if item.version > old.version then item else old := by
  induction items with
  | nil => rfl
  | cons old rest ih =>
    rw [Latest.renew, Table.update_cons, ih]
    rfl

theorem mergeItem_eq (items : List GossipStateItem) (item : GossipStateItem) :
    mergeItem items item =
      Latest.put GossipStateItem.key GossipStateItem.rank GOSSIP_MAX_STATE_ITEMS items item := by
  unfold mergeItem Latest.put
  rw [renew_eq]
  cases found : findItem items item.key with
  | none =>
    have absent : ¬ ∃ old ∈ items, old.key = item.key := by
      rintro ⟨old, inside, same⟩
      exact Table.find_eq_none_iff.mp found (List.mem_map.mpr ⟨old, inside, same⟩)
    rw [if_neg absent]
    by_cases free : items.length < GOSSIP_MAX_STATE_ITEMS
    · rw [if_neg (Nat.not_le.mpr free)]
      exact if_pos free
    · rw [if_pos (Nat.not_lt.mp free)]
      exact if_neg free
  | some old =>
    have present : ∃ old ∈ items, old.key = item.key := ⟨old, Table.mem_of_find found, Table.key_of_find found⟩
    rw [if_pos present]

/-- No two items have the same key, and they fit into the array. -/
structure Tidy (items : List GossipStateItem) : Prop where
  keyed : (items.map GossipStateItem.key).Nodup
  room : items.length ≤ GOSSIP_MAX_STATE_ITEMS

theorem Tidy.nil : Tidy [] := ⟨.nil, Nat.zero_le _⟩

theorem Tidy.merge (tidy : Tidy items) (others : List GossipStateItem) : Tidy (others.foldl mergeItem items) := by
  induction others generalizing items with
  | nil => exact tidy
  | cons item rest ih =>
    rw [List.foldl_cons, mergeItem_eq]
    exact ih ⟨Latest.nodup_put tidy.keyed, Latest.length_put_le tidy.room⟩

theorem Tidy.update (tidy : Tidy items) (key value : Int) : Tidy (updateItems items key value) := by
  unfold updateItems
  cases found : findItem items key with
  | some old =>
    constructor
    · dsimp only
      rw [Table.map_update]
      · exact tidy.keyed
      · exact fun _ => rfl
    · dsimp only
      rw [Table.length_update]
      exact tidy.room
  | none =>
    dsimp only
    split
    next free =>
      constructor
      · rw [List.map_append, List.map_singleton]
        have fresh := Table.find_eq_none_iff.mp found
        exact tidy.keyed.append (List.nodup_singleton _) (List.disjoint_singleton.mpr fresh)
      · rw [List.length_append]
        exact free
    next => exact tidy

/-- Merged into nothing, items stay as they are. -/
theorem Tidy.foldl_nil (tidy : Tidy items) : items.foldl mergeItem [] = items := by
  suffices whole : ∀ before, Tidy (before ++ items) → items.foldl mergeItem before = before ++ items from
    whole [] tidy
  clear tidy
  induction items with
  | nil => exact fun before _ => (List.append_nil before).symm
  | cons item rest ih =>
    intro before tidy
    have parted := tidy.keyed
    rw [List.map_append, List.map_cons, List.nodup_middle] at parted
    have fresh : findItem before item.key = none :=
      Table.find_eq_none_iff.mpr fun inside => (List.nodup_cons.mp parted).1 (List.mem_append_left _ inside)
    have free : before.length < GOSSIP_MAX_STATE_ITEMS := by
      have room := tidy.room
      rw [List.length_append, List.length_cons] at room
      omega
    have taken : mergeItem before item = before ++ [item] := by
      rw [mergeItem, fresh]
      exact if_pos free
    rw [List.foldl_cons, taken, ih (before ++ [item]) (by rwa [List.append_assoc]), List.append_assoc]
    rfl

end Items

section Writes

/-- A call of `gossip_update_state`. -/
structure GossipWrite where
  key : Int
  value : Int
  deriving DecidableEq, Repr

abbrev Log (n : Nat) := List (Fin n × GossipWrite)

/-- How many writes concern the key. -/
def writesOf (log : Log n) (key : Int) : Nat := log.countP fun entry => entry.2.key = key

/-- The item that a write leaves with the node that made it. -/
def stamp (log : Log n) (i : Nat) : Option GossipStateItem :=
  log[i]?.map fun entry => ⟨entry.2.key, entry.2.value, .ofNat (writesOf (log.take (i + 1)) entry.2.key)⟩

/-- Each key is written by one node only, the keys fit into the array of items, and the versions do not wrap. -/
structure Regular (owner : Int → Fin n) (log : Log n) : Prop where
  owned : ∀ entry ∈ log, owner entry.2.key = entry.1
  fits : ∃ keys : Finset Int, keys.card ≤ GOSSIP_MAX_STATE_ITEMS ∧ ∀ entry ∈ log, entry.2.key ∈ keys
  counted : log.length < 2 ^ 64

/-- The last of the known writes of a key wrote the value. -/
def Last (log : Log n) (known : Finset Nat) (key value : Int) : Prop :=
  ∃ i ∈ known, log[i]?.map Prod.snd = some ⟨key, value⟩ ∧
    ∀ j ∈ known, log[j]?.map (fun entry => entry.2.key) = some key → j ≤ i

variable {owner : Int → Fin n} {log : Log n} {known : Finset Nat} {entry : Fin n × GossipWrite} {i j : Nat}
  {item : GossipStateItem} {items : List GossipStateItem} {key value : Int}

theorem Regular.init (regular : Regular owner (log ++ [entry])) : Regular owner log where
  owned entry inside := regular.owned entry (List.mem_append_left _ inside)
  fits := by
    obtain ⟨keys, few, listed⟩ := regular.fits
    exact ⟨keys, few, fun entry inside => listed entry (List.mem_append_left _ inside)⟩
  counted := by
    have longer := regular.counted
    rw [List.length_append] at longer
    exact Nat.lt_of_succ_lt longer

theorem stamp_append (made : i < log.length) (entry : Fin n × GossipWrite) :
    stamp (log ++ [entry]) i = stamp log i := by
  rw [stamp, stamp, List.getElem?_append_left made, List.take_append_of_le_length made]

theorem writesOf_append (log : Log n) (entry : Fin n × GossipWrite) (key : Int) :
    writesOf (log ++ [entry]) key = writesOf log key + if entry.2.key = key then 1 else 0 := by
  rw [writesOf, writesOf, List.countP_append, List.countP_singleton]
  congr 1
  by_cases same : entry.2.key = key
  · rw [if_pos same, if_pos (decide_eq_true same)]
  · rw [if_neg same, if_neg (by simpa using same)]

theorem stamp_last (log : Log n) (entry : Fin n × GossipWrite) :
    stamp (log ++ [entry]) log.length =
      some ⟨entry.2.key, entry.2.value, .ofNat (writesOf log entry.2.key + 1)⟩ := by
  have whole : (log ++ [entry]).take (log.length + 1) = log ++ [entry] :=
    List.take_of_length_le (by rw [List.length_append, List.length_singleton])
  rw [stamp, List.getElem?_concat_length, whole, Option.map_some, writesOf_append, if_pos rfl]

theorem writesOf_le (log : Log n) (i : Nat) (key : Int) : writesOf (log.take i) key ≤ writesOf log key :=
  (List.take_sublist i log).countP_le

/-- The versions of a key are numbered in the order of its writes. -/
theorem writesOf_lt (before : i < j) (found : log[j]? = some entry) :
    writesOf (log.take (i + 1)) entry.2.key < writesOf (log.take (j + 1)) entry.2.key := by
  have split : log.take (j + 1) = log.take j ++ [entry] := by
    rw [List.take_add_one, found]
    rfl
  have shorter : (log.take j).take (i + 1) = log.take (i + 1) := by
    rw [List.take_take, Nat.min_eq_left before]
  rw [split, writesOf_append, if_pos rfl, ← shorter]
  exact Nat.lt_succ_of_le (writesOf_le _ _ _)

/-- The last write of a key gets its highest version. -/
theorem exists_last_write (written : 0 < writesOf log key) :
    ∃ i entry, log[i]? = some entry ∧ entry.2.key = key ∧ writesOf (log.take (i + 1)) key = writesOf log key := by
  induction log using List.reverseRecOn with
  | nil => exact absurd written (Nat.lt_irrefl 0)
  | append_singleton log entry ih =>
    by_cases same : entry.2.key = key
    · refine ⟨log.length, entry, List.getElem?_concat_length, same, ?_⟩
      rw [List.take_of_length_le (by rw [List.length_append, List.length_singleton])]
    · rw [writesOf_append, if_neg same, Nat.add_zero] at written ⊢
      obtain ⟨i, earlier, found, here, last⟩ := ih written
      have inside : i < log.length := (List.getElem?_eq_some_iff.mp found).1
      refine ⟨i, earlier, ?_, here, ?_⟩
      · rw [List.getElem?_append_left inside]
        exact found
      · rw [List.take_append_of_le_length inside]
        exact last

theorem stamp_some (found : stamp log i = some item) :
    ∃ entry, log[i]? = some entry ∧ item.key = entry.2.key ∧ item.value = entry.2.value ∧
      item.version = .ofNat (writesOf (log.take (i + 1)) item.key) := by
  obtain ⟨entry, here, rfl⟩ := Option.map_eq_some_iff.mp found
  exact ⟨entry, here, rfl, rfl, rfl⟩

theorem Regular.rank_eq (regular : Regular owner log) (found : stamp log i = some item) :
    item.rank = writesOf (log.take (i + 1)) item.key := by
  obtain ⟨entry, -, -, -, version⟩ := stamp_some found
  have small : writesOf (log.take (i + 1)) item.key < 2 ^ 64 :=
    Nat.lt_of_le_of_lt (Nat.le_trans (writesOf_le _ _ _) List.countP_le_length) regular.counted
  rw [GossipStateItem.rank, version]
  exact UInt64.toNat_ofNat_of_lt' small

/-- Of two writes of a key, the later one has the higher version. -/
theorem Regular.rank_lt (regular : Regular owner log) {later : GossipStateItem} (found : stamp log i = some item)
    (foundToo : stamp log j = some later) (same : item.key = later.key) (before : i < j) : item.rank < later.rank := by
  obtain ⟨entry, here, key, -, -⟩ := stamp_some foundToo
  rw [regular.rank_eq found, regular.rank_eq foundToo, same, key]
  exact writesOf_lt before here

theorem Regular.ranked (regular : Regular owner log) (known : Finset Nat) :
    Latest.Ranked GossipStateItem.key GossipStateItem.rank (picked (stamp log) known) := by
  rintro one ⟨i, -, found⟩ two ⟨j, -, foundToo⟩ sameKey sameRank
  rcases Nat.lt_trichotomy i j with before | rfl | after
  · exact absurd sameRank (Nat.ne_of_lt (regular.rank_lt found foundToo sameKey before))
  · exact Option.some.inj (found.symm.trans foundToo)
  · exact absurd sameRank.symm (Nat.ne_of_lt (regular.rank_lt foundToo found sameKey.symm after))

theorem Regular.fits_picked (regular : Regular owner log) (known : Finset Nat) :
    Latest.Fits GossipStateItem.key GOSSIP_MAX_STATE_ITEMS (picked (stamp log) known) := by
  obtain ⟨keys, few, listed⟩ := regular.fits
  refine ⟨keys, few, ?_⟩
  rintro item ⟨i, -, found⟩
  obtain ⟨entry, here, key, -, -⟩ := stamp_some found
  rw [key]
  exact listed entry (List.mem_of_getElem? here)

/-- What a node holds that knows some of the writes. -/
abbrev Held (log : Log n) (known : Finset Nat) (items : List GossipStateItem) : Prop :=
  Latest.Holds GossipStateItem.key GossipStateItem.rank GOSSIP_MAX_STATE_ITEMS (picked (stamp log) known) items

/-- The value that is found is that of the last known write. -/
theorem Regular.find_iff (regular : Regular owner log) (held : Held log known items) :
    (findItem items key).map GossipStateItem.value = some value ↔ Last log known key value := by
  have exactly : ∀ item, item ∈ items ↔ _ := fun item =>
    held.mem_iff (regular.fits_picked known) (regular.ranked known)
  constructor
  · intro answered
    obtain ⟨item, found, rfl⟩ := Option.map_eq_some_iff.mp answered
    obtain ⟨⟨i, inside, made⟩, highest⟩ := (exactly item).mp (Table.mem_of_find found)
    have named : item.key = key := Table.key_of_find found
    obtain ⟨entry, here, sameKey, sameValue, -⟩ := stamp_some made
    refine ⟨i, inside, ?_, ?_⟩
    · rw [here, ← named, sameKey, sameValue]
      rfl
    · intro j insideToo written
      obtain ⟨other, there, keyed⟩ := Option.map_eq_some_iff.mp written
      apply Nat.le_of_not_lt
      intro after
      obtain ⟨later, stamped⟩ : ∃ later, stamp log j = some later := ⟨_, congrArg (Option.map _) there⟩
      obtain ⟨_, thereToo, sameLater, -, -⟩ := stamp_some stamped
      rw [Option.some.inj (thereToo.symm.trans there), keyed] at sameLater
      have higher := regular.rank_lt made stamped (named.trans sameLater.symm) after
      exact Nat.not_lt.mpr (highest _ ⟨j, insideToo, stamped⟩ (sameLater.trans named.symm)) higher
  · rintro ⟨i, inside, written, last⟩
    obtain ⟨entry, here, wrote⟩ := Option.map_eq_some_iff.mp written
    have made : stamp log i = some ⟨key, value, .ofNat (writesOf (log.take (i + 1)) key)⟩ := by
      rw [stamp, here, Option.map_some, wrote]
    have kept := (exactly _).mpr ⟨⟨i, inside, made⟩, ?_⟩
    · rw [findItem, Table.find_of_mem held.keyed kept]
      rfl
    · rintro other ⟨j, insideToo, stamped⟩ same
      obtain ⟨entryToo, there, keyed, -, -⟩ := stamp_some stamped
      have notAfter : j ≤ i := last j insideToo (by rw [there, Option.map_some, ← keyed, same])
      rcases Nat.lt_or_eq_of_le notAfter with before | rfl
      · exact Nat.le_of_lt (regular.rank_lt stamped made same before)
      · rw [Option.some.inj (stamped.symm.trans made)]

end Writes

section Replicas

variable {owner : Int → Fin n} {log : Log n} {known other : Finset Nat} {items others : List GossipStateItem}
  {who : Fin n} {write : GossipWrite}

/-- The items of the nodes as a replicated data type. -/
def gossipDesign (n : Nat) : Design (Fin n) GossipWrite (List GossipStateItem) where
  initial _ := []
  update items write := updateItems items write.key write.value
  merge items others := others.foldl mergeItem items

/-- The node that has made all writes of a key holds an item that is as young as the last of them. -/
theorem Regular.exists_own (regular : Regular owner log) (held : Held log known items)
    (complete : History.Complete Prod.fst log who known) {key : Int} (own : owner key = who)
    (written : 0 < writesOf log key) : ∃ item ∈ items, item.key = key ∧ writesOf log key ≤ item.rank := by
  obtain ⟨i, entry, found, named, last⟩ := exists_last_write written
  have mine : log[i]?.map Prod.fst = some who := by
    rw [found, Option.map_some, ← regular.owned entry (List.mem_of_getElem? found), named, own]
  obtain ⟨item, stamped⟩ : ∃ item, stamp log i = some item := ⟨_, congrArg (Option.map _) found⟩
  obtain ⟨_, foundToo, keyed, -, -⟩ := stamp_some stamped
  rw [Option.some.inj (foundToo.symm.trans found), named] at keyed
  obtain ⟨high, inside, same, ahead⟩ := held.highest (regular.fits_picked known) item ⟨i, complete i mine, stamped⟩
  rw [regular.rank_eq stamped, keyed, last] at ahead
  exact ⟨high, inside, same.trans keyed, ahead⟩

/-- The node that writes a key has the latest version of its item, if there is one. -/
theorem Regular.find_own (regular : Regular owner log) (held : Held log known items)
    (complete : History.Complete Prod.fst log who known) {key : Int} (own : owner key = who) :
    (findItem items key).map GossipStateItem.rank = if writesOf log key = 0 then none else some (writesOf log key) := by
  cases found : findItem items key with
  | none =>
    have absent := Table.find_eq_none_iff.mp found
    have unwritten : writesOf log key = 0 := by
      apply Nat.eq_zero_of_not_pos
      intro written
      obtain ⟨item, inside, named, -⟩ := regular.exists_own held complete own written
      exact absent (List.mem_map.mpr ⟨item, inside, named⟩)
    rw [if_pos unwritten]
    rfl
  | some old =>
    have named : old.key = key := Table.key_of_find found
    obtain ⟨i, -, stamped⟩ := held.told old (Table.mem_of_find found)
    obtain ⟨entry, here, keyed, -, -⟩ := stamp_some stamped
    have numbered := regular.rank_eq stamped
    rw [named] at numbered keyed
    have written : 0 < writesOf log key := List.countP_pos_iff.mpr
      ⟨entry, List.mem_of_getElem? here, decide_eq_true keyed.symm⟩
    obtain ⟨high, inside, namedToo, ahead⟩ := regular.exists_own held complete own written
    have same : high = old := List.inj_on_of_nodup_map held.keyed inside (Table.mem_of_find found)
      (namedToo.trans named.symm)
    rw [same] at ahead
    rw [if_neg (Nat.ne_of_gt written), Option.map_some, Nat.le_antisymm (numbered ▸ writesOf_le log _ key) ahead]

/-- A write of the own key puts its stamped item into the table. -/
theorem updateItems_eq {count : Nat} (numbered : (findItem items write.key).map GossipStateItem.rank =
    if count = 0 then none else some count) (small : count + 1 < 2 ^ 64) :
    updateItems items write.key write.value = mergeItem items ⟨write.key, write.value, .ofNat (count + 1)⟩ := by
  unfold updateItems mergeItem
  dsimp only
  cases found : findItem items write.key with
  | none =>
    have first : count = 0 := by
      apply Classical.byContradiction
      intro later
      rw [found, if_neg later] at numbered
      cases numbered
    rw [first]
    rfl
  | some old =>
    have version : old.version.toNat = count := by
      rw [found] at numbered
      split at numbered
      · cases numbered
      · exact Option.some.inj numbered
    have next : UInt64.ofNat (count + 1) = old.version + 1 := by
      rw [UInt64.ofNat_add, ← version, UInt64.ofNat_toNat]
      rfl
    have newer : UInt64.ofNat (count + 1) > old.version := by
      rw [gt_iff_lt, UInt64.lt_iff_toNat_lt, UInt64.toNat_ofNat_of_lt' small, version]
      exact Nat.lt_succ_self count
    obtain ⟨earlier, later, -, keyed, -, changed⟩ := Table.split_of_find found
    dsimp only
    rw [changed, changed, if_pos newer, next, keyed]

theorem gossip_described (owner : Int → Fin n) :
    Described (gossipDesign n) fun _ log known items => Regular owner log → Held log known items where
  initial _ _ := by
    rw [Held, picked_empty]
    exact .nil
  later held closed entry regular := by
    rw [Held, picked_congr fun i inside => stamp_append (closed.made i inside) entry]
    exact held regular.init
  update {who log known items} held closed complete write regular := by
    have earlier := regular.init
    have own : owner write.key = who := regular.owned _ (List.mem_append_right _ List.mem_cons_self)
    have small : writesOf log write.key + 1 < 2 ^ 64 := by
      have counted := regular.counted
      rw [List.length_append, List.length_singleton] at counted
      exact Nat.lt_of_le_of_lt (Nat.succ_le_succ List.countP_le_length) counted
    have numbered := earlier.find_own (held earlier) complete own
    rw [Held, picked_insert (stamp_last log (who, write)),
      picked_congr fun i inside => stamp_append (closed.made i inside) (who, write)]
    rw [show (gossipDesign n).update items write = _ from updateItems_eq numbered small, mergeItem_eq]
    exact (held earlier).put _
  merge held heldToo _ _ regular := by
    have merges : mergeItem = Latest.put GossipStateItem.key GossipStateItem.rank GOSSIP_MAX_STATE_ITEMS :=
      funext₂ mergeItem_eq
    rw [Held, picked_union, gossipDesign, merges]
    exact (held regular).merge (heldToo regular)

end Replicas

section Runs

variable {net : GossipNetwork n} {msg : GossipMessage n} {log : Log n} {known : Fin n → Finset Nat}

def GossipNetwork.items (net : GossipNetwork n) (i : Fin n) : List GossipStateItem := (net.nodes i).items

theorem infect_items (node : GossipNode) : node.infect.items = node.items := by
  unfold GossipNode.infect
  split
  · rfl
  · rfl

theorem gossipMergeState_items (node other : GossipNode) :
    (gossipMergeState node other).items = other.items.foldl mergeItem node.items := by
  unfold gossipMergeState
  split
  · exact infect_items _
  · rfl

theorem items_put (net : GossipNetwork n) (i : Fin n) (node : GossipNode) :
    (net.put i node).items = Function.update net.items i node.items := by
  funext j
  by_cases same : j = i
  · subst same
    simp only [GossipNetwork.items, GossipNetwork.put, Function.update_self]
  · simp only [GossipNetwork.items, GossipNetwork.put, Function.update_of_ne same]

/-- The messages that go to a peer. -/
def contactMessages (net : GossipNetwork n) (nodeId peer : Fin n) : List (GossipMessage n) :=
  (if net.mode = .push ∨ net.mode = .pushPull then
    [⟨.push, nodeId, peer, (net.nodes nodeId).items, net.currentRound⟩] else []) ++
  if net.mode = .pull ∨ net.mode = .pushPull then [⟨.pull, nodeId, peer, [], net.currentRound⟩] else []

theorem gossipContact_eq (net : GossipNetwork n) (nodeId peer : Fin n) :
    gossipContact net nodeId peer =
      { net with messageQueue := (contactMessages net nodeId peer).foldl (Fifo.accept 255) net.messageQueue } := by
  obtain ⟨nodes, mode, fanout, round, queue⟩ := net
  cases mode with
  | push => rfl
  | pull => rfl
  | pushPull => rfl

/-- A round of messages changes nothing but the queue. -/
theorem sendRound_frame (net : GossipNetwork n) (nodeId : Fin n) :
    Must (gossipSendRound net nodeId) fun sent => ∃ queue, sent = { net with messageQueue := queue } := by
  apply must_foldlM _ _ fun _ (sent : GossipNetwork n) => ∃ queue, sent = { net with messageQueue := queue }
  · rintro _ _ _ sent - ⟨queue, rfl⟩
    have chosen : Must (gossipSelectPeer nodeId) fun _ => True := fun _ => trivial
    refine chosen.bind fun peer _ => ?_
    cases peer with
    | none => exact must_pure ⟨queue, rfl⟩
    | some peer => exact must_pure ⟨_, gossipContact_eq _ nodeId peer⟩
  · exact ⟨net.messageQueue, rfl⟩

/-- The node of which a message tells. -/
def GossipMessage.teacher (msg : GossipMessage n) : Fin n :=
  match msg.type with
  | .push => msg.fromNode
  | .pull => msg.toNode

/-- The node which a message tells something. -/
def GossipMessage.learner (msg : GossipMessage n) : Fin n :=
  match msg.type with
  | .push => msg.toNode
  | .pull => msg.fromNode

/-- Either way, one node merges the items of the other. -/
theorem processMessage_items (tidy : ∀ i, Tidy (net.items i)) (msg : GossipMessage n) :
    (processMessage net msg).items = Function.update net.items msg.learner
      ((net.items msg.teacher).foldl mergeItem (net.items msg.learner)) := by
  unfold processMessage GossipMessage.learner GossipMessage.teacher
  dsimp only
  split
  · rw [items_put, gossipMergeState_items]
    rfl
  · rw [items_put, gossipMergeState_items, gossipMergeState_items]
    rw [show (gossipInitNode msg.fromNode.val).items = [] from rfl]
    rw [show (net.nodes msg.toNode).items = net.items msg.toNode from rfl, (tidy msg.toNode).foldl_nil]
    rfl

theorem tidy_processMessage (tidy : ∀ i, Tidy (net.items i)) (msg : GossipMessage n) :
    ∀ i, Tidy ((processMessage net msg).items i) := by
  rw [processMessage_items tidy]
  apply (Function.forall_update_iff net.items fun _ => Tidy).mpr
  exact ⟨(tidy _).merge _, fun i _ => tidy i⟩

theorem tidy_processMessages (tidy : ∀ i, Tidy (net.items i)) (messages : List (GossipMessage n)) :
    ∀ i, Tidy ((messages.foldl processMessage net).items i) := by
  induction messages generalizing net with
  | nil => exact tidy
  | cons msg rest ih => exact ih (tidy_processMessage tidy msg)

theorem tidy_step (tidy : ∀ i, Tidy (net.items i)) (call : GossipCall n) :
    ∀ i, Tidy ((gossipStep net call).items i) := by
  cases call with
  | update who key value =>
    rw [gossipStep, items_put, gossipUpdateState, infect_items]
    apply (Function.forall_update_iff net.items fun _ => Tidy).mpr
    exact ⟨(tidy who).update key value, fun i _ => tidy i⟩
  | sendRound who numbers =>
    obtain ⟨queue, sent⟩ := sendRound_frame net who numbers
    rw [gossipStep, sent]
    exact tidy
  | processRound =>
    have start : ∀ i, Tidy (({ net with messageQueue := [] } : GossipNetwork n).items i) := tidy
    exact tidy_processMessages start net.messageQueue

theorem tidy_init (mode : GossipMode) (fanout : Int) (i : Fin n) : Tidy ((gossipInitNetwork n mode fanout).items i) :=
  Tidy.nil

/-- The network, all writes so far with the nodes that made them, and which of the writes each node knows. -/
structure Traced (n : Nat) where
  network : GossipNetwork n
  log : Log n
  known : Fin n → Finset Nat

def Traced.start (net : GossipNetwork n) : Traced n := ⟨net, [], fun _ => ∅⟩

def spread (known : Fin n → Finset Nat) (msg : GossipMessage n) : Fin n → Finset Nat :=
  Function.update known msg.learner (known msg.learner ∪ known msg.teacher)

def Traced.step (traced : Traced n) (call : GossipCall n) : Traced n :=
  let network := gossipStep traced.network call
  match call with
  | .update who key value =>
    ⟨network, traced.log ++ [(who, ⟨key, value⟩)],
      Function.update traced.known who (insert traced.log.length (traced.known who))⟩
  | .sendRound _ _ => { traced with network }
  | .processRound => { traced with network, known := traced.network.messageQueue.foldl spread traced.known }

/-- The items are those of a run of the replicated data type. -/
def Replays (items : Fin n → List GossipStateItem) (log : Log n) (known : Fin n → Finset Nat) : Prop :=
  ∃ system, Reaches (gossipDesign n).step Always (gossipDesign n).init system ∧ system.log = log ∧
    system.held = fun i => ⟨i, items i, known i⟩

theorem Replays.message (replays : Replays net.items log known) (tidy : ∀ i, Tidy (net.items i))
    (msg : GossipMessage n) : Replays (processMessage net msg).items log (spread known msg) := by
  obtain ⟨system, reached, sameLog, held⟩ := replays
  obtain ⟨later, further, laterLog, laterHeld⟩ := exists_passed reached msg.teacher msg.learner
  refine ⟨later, further, laterLog.trans sameLog, ?_⟩
  rw [laterHeld, held, processMessage_items tidy, spread]
  funext i
  by_cases same : i = msg.learner
  · subst same
    simp only [Function.update_self]
    rfl
  · simp only [Function.update_of_ne same]

theorem Replays.messages (replays : Replays net.items log known) (tidy : ∀ i, Tidy (net.items i))
    (messages : List (GossipMessage n)) :
    Replays (messages.foldl processMessage net).items log (messages.foldl spread known) := by
  induction messages generalizing net known with
  | nil => exact replays
  | cons msg rest ih => exact ih (replays.message tidy msg) (tidy_processMessage tidy msg)

theorem Replays.step {traced : Traced n} (replays : Replays traced.network.items traced.log traced.known)
    (tidy : ∀ i, Tidy (traced.network.items i)) (call : GossipCall n) :
    Replays (traced.step call).network.items (traced.step call).log (traced.step call).known := by
  cases call with
  | update who key value =>
    obtain ⟨system, reached, sameLog, held⟩ := replays
    refine ⟨_, reached.call (.update who ⟨key, value⟩) trivial, ?_, ?_⟩
    · rw [Design.step, sameLog]
      rfl
    · rw [Design.step, sameLog, held]
      dsimp only [Traced.step]
      rw [gossipStep, items_put, gossipUpdateState, infect_items]
      funext i
      by_cases same : i = who
      · subst same
        simp only [Function.update_self]
        rfl
      · simp only [Function.update_of_ne same]
  | sendRound who numbers =>
    obtain ⟨queue, sent⟩ := sendRound_frame traced.network who numbers
    rw [Traced.step]
    dsimp only
    rw [gossipStep, sent]
    exact replays
  | processRound =>
    have start : Replays ({ traced.network with messageQueue := [] } : GossipNetwork n).items traced.log traced.known :=
      replays
    exact start.messages tidy traced.network.messageQueue

variable {mode : GossipMode} {fanout : Int} {traced : Traced n}

theorem replays_of_reaches (reached : Reaches Traced.step Always (.start (gossipInitNetwork n mode fanout)) traced) :
    Replays traced.network.items traced.log traced.known ∧ ∀ i, Tidy (traced.network.items i) := by
  apply reached.invariant (motive := fun traced =>
    Replays traced.network.items traced.log traced.known ∧ ∀ i, Tidy (traced.network.items i))
  · exact ⟨⟨(gossipDesign n).init, .refl, rfl, rfl⟩, tidy_init mode fanout⟩
  · rintro traced call ⟨replays, tidy⟩ -
    refine ⟨replays.step tidy call, ?_⟩
    have later := tidy_step tidy call
    cases call with
    | update who key value => exact later
    | sendRound who numbers => exact later
    | processRound => exact later

theorem Last.congr {log : Log n} {known other : Finset Nat} {key value : Int}
    (same : ∀ i, log[i]?.map (fun entry => entry.2.key) = some key → (i ∈ known ↔ i ∈ other)) :
    Last log known key value ↔ Last log other key value := by
  have keyed : ∀ {i : Nat}, log[i]?.map Prod.snd = some (⟨key, value⟩ : GossipWrite) →
      log[i]?.map (fun entry => entry.2.key) = some key := by
    intro i written
    obtain ⟨entry, found, wrote⟩ := Option.map_eq_some_iff.mp written
    rw [found, Option.map_some, wrote]
  unfold Last
  constructor
  · rintro ⟨i, inside, written, last⟩
    have latest := fun j there writes => last j ((same j writes).mpr there) writes
    exact ⟨i, (same i (keyed written)).mp inside, written, latest⟩
  · rintro ⟨i, inside, written, last⟩
    have latest := fun j there writes => last j ((same j writes).mp there) writes
    exact ⟨i, (same i (keyed written)).mpr inside, written, latest⟩

/-- In every run in which each key is written by one node, a node answers for a key with the last of the writes that
have reached it through messages, and the node that writes the key with the last of all. -/
theorem gossip_exact (reached : Reaches Traced.step Always (.start (gossipInitNetwork n mode fanout)) traced)
    {owner : Int → Fin n} (regular : Regular owner traced.log) (key value : Int) :
    (∀ who, gossipGetState (traced.network.nodes who) key = some value ↔
      Last traced.log (traced.known who) key value) ∧
    (gossipGetState (traced.network.nodes (owner key)) key = some value ↔
      Last traced.log (Finset.range traced.log.length) key value) := by
  obtain ⟨⟨system, replayed, sameLog, held⟩, -⟩ := replays_of_reaches reached
  have consistent := ((gossip_described owner).consistent replayed).held
  have answers : ∀ who, gossipGetState (traced.network.nodes who) key = some value ↔
      Last traced.log (traced.known who) key value := by
    intro who
    have described := (consistent who).sound.described
    rw [held, sameLog] at described
    exact regular.find_iff (described regular)
  refine ⟨answers, (answers _).trans (Last.congr fun i written => ?_)⟩
  have complete := (consistent (owner key)).complete
  rw [held, sameLog] at complete
  obtain ⟨entry, found, named⟩ := Option.map_eq_some_iff.mp written
  have made : i < traced.log.length := (List.getElem?_eq_some_iff.mp found).1
  have mine : traced.log[i]?.map Prod.fst = some (owner key) := by
    rw [found, Option.map_some, ← regular.owned entry (List.mem_of_getElem? found), named]
  exact iff_of_true (complete i mine) (Finset.mem_range.mpr made)

/-- The node writes key 7 twice, and pushes its items after the second write. -/
def pushedRun (who : Fin n) : List (GossipCall n) :=
  [.update who 7 5, .sendRound who [0], .update who 7 6, .processRound]

theorem pushedRun_exact :
    gossipGetState (((pushedRun 0).foldl Traced.step (.start (gossipInitNetwork 2 .push 1))).network.nodes 1) 7 =
      some 6 := by
  have regular : Regular (fun _ => (0 : Fin 2)) [(0, ⟨7, 5⟩), (0, ⟨7, 6⟩)] :=
    ⟨by decide, ⟨{7}, by decide, by decide⟩, by decide⟩
  refine ((gossip_exact (.ofFold (pushedRun 0)) regular 7 6).1 1).mpr ⟨1, by decide, rfl, ?_⟩
  intro j inside _
  have known : ∀ i ∈ ((pushedRun 0).foldl Traced.step (.start (gossipInitNetwork 2 .push 1))).known 1, i ≤ 1 := by
    decide
  exact known j inside

end Runs

section Convergence

variable {net : GossipNetwork n} {items others : List GossipStateItem}

/-- All nodes answer alike for every key. -/
def Agree (net : GossipNetwork n) : Prop :=
  ∀ i j key, gossipGetState (net.nodes i) key = gossipGetState (net.nodes j) key

theorem get_isSome_iff (node : GossipNode) (key : Int) :
    (gossipGetState node key).isSome ↔ key ∈ node.items.map GossipStateItem.key := by
  rw [gossipGetState, Option.isSome_map]
  exact Table.find_isSome_iff

/-- As many items with the same values are the same answers, since no key stands twice. -/
theorem answers_iff {cur ref : GossipNode} (tidy : Tidy cur.items) (tidyToo : Tidy ref.items) :
    (cur.items.length = ref.items.length ∧ ∀ item ∈ ref.items, gossipGetState cur item.key = some item.value) ↔
      ∀ key, gossipGetState cur key = gossipGetState ref key := by
  have told : ∀ item ∈ ref.items, gossipGetState ref item.key = some item.value := by
    intro item inside
    rw [gossipGetState, findItem, Table.find_of_mem tidyToo.keyed inside]
    rfl
  constructor
  · rintro ⟨sameLength, values⟩ key
    have within : ref.items.map GossipStateItem.key ⊆ cur.items.map GossipStateItem.key := by
      intro other inside
      obtain ⟨item, present, rfl⟩ := List.mem_map.mp inside
      exact (get_isSome_iff cur item.key).mp (by rw [values item present]; rfl)
    have shuffled : (ref.items.map GossipStateItem.key).Perm (cur.items.map GossipStateItem.key) := by
      apply (tidyToo.keyed.subperm within).perm_of_length_le
      rw [List.length_map, List.length_map, sameLength]
    by_cases present : key ∈ ref.items.map GossipStateItem.key
    · obtain ⟨item, inside, rfl⟩ := List.mem_map.mp present
      rw [values item inside, told item inside]
    · have absent : key ∉ cur.items.map GossipStateItem.key := fun inside => present (shuffled.mem_iff.mpr inside)
      rw [← get_isSome_iff, Option.not_isSome_iff_eq_none] at present absent
      rw [present, absent]
  · intro same
    constructor
    · have shuffled : (cur.items.map GossipStateItem.key).Perm (ref.items.map GossipStateItem.key) := by
        apply (List.perm_ext_iff_of_nodup tidy.keyed tidyToo.keyed).mpr
        intro key
        rw [← get_isSome_iff, ← get_isSome_iff, same]
      simpa only [List.length_map] using shuffled.length_eq
    · intro item inside
      rw [same, told item inside]

theorem gossipConverged_iff (tidy : ∀ i, Tidy (net.items i)) : gossipConverged net = true ↔ Agree net := by
  unfold gossipConverged
  split
  next empty =>
    refine iff_of_true rfl fun i => ?_
    have absurdly : i ∈ List.finRange n := List.mem_finRange i
    rw [empty] at absurdly
    exact absurd absurdly List.not_mem_nil
  next first others all =>
    have compared : (∀ i ∈ others, ∀ key, gossipGetState (net.nodes i) key = gossipGetState (net.nodes first) key) ↔
        Agree net := by
      constructor
      · intro same i j key
        have alike : ∀ i, gossipGetState (net.nodes i) key = gossipGetState (net.nodes first) key := by
          intro i
          have listed : i ∈ first :: others := all ▸ List.mem_finRange i
          rcases List.mem_cons.mp listed with rfl | other
          · rfl
          · exact same i other key
        rw [alike i, alike j]
      · exact fun agree i _ key => agree i first key
    rw [← compared, List.all_eq_true]
    refine forall₂_congr fun i _ => ?_
    rw [← answers_iff (tidy i) (tidy first), Bool.and_eq_true, List.all_eq_true]
    simp only [decide_eq_true_eq]

theorem allSend_frame (net : GossipNetwork n) :
    Must ((List.finRange n).foldlM gossipSendRound net) fun sent =>
      ∃ queue, sent = { net with messageQueue := queue } := by
  apply must_foldlM _ _ fun _ (sent : GossipNetwork n) => ∃ queue, sent = { net with messageQueue := queue }
  · rintro _ i _ sent - ⟨queue, rfl⟩
    exact sendRound_frame _ i
  · exact ⟨net.messageQueue, rfl⟩

theorem gossipRounds_agree (tidy : ∀ i, Tidy (net.items i)) (r left : Nat) :
    Must (gossipRoundsToConverge net r left) fun result =>
      ∀ rounds, result.1 = some rounds → rounds < r + left ∧ Agree result.2 := by
  induction left generalizing net r with
  | zero => exact must_pure fun rounds ended => by cases ended
  | succ left ih =>
    unfold gossipRoundsToConverge
    split
    next converged =>
      apply must_pure
      intro rounds ended
      rw [← Option.some.inj ended]
      exact ⟨Nat.lt_add_of_pos_right (Nat.succ_pos left), (gossipConverged_iff tidy).mp converged⟩
    next =>
      refine (allSend_frame net).bind fun sent kept => ?_
      obtain ⟨queue, rfl⟩ := kept
      have held : ∀ i, Tidy (({ net with messageQueue := queue } : GossipNetwork n).items i) := tidy
      have later := tidy_step held .processRound
      refine (ih later (r + 1)).mono fun result agrees rounds ended => ?_
      rw [Nat.add_right_comm, Nat.add_assoc] at agrees
      exact agrees rounds ended

/-- In every run, `gossip_converged` says exactly whether all nodes answer alike for every key, and so they do when
`gossip_rounds_to_converge` returns a round, which is one of those it may take. -/
theorem gossipConverged_agree {mode : GossipMode} {fanout : Int}
    (reached : Reaches gossipStep Always (gossipInitNetwork n mode fanout) net) :
    (gossipConverged net = true ↔ Agree net) ∧
      ∀ maxRounds numbers rounds, (gossipRoundsToConverge net 0 maxRounds numbers).1.1 = some rounds →
        rounds < maxRounds ∧ Agree (gossipRoundsToConverge net 0 maxRounds numbers).1.2 := by
  have tidy : ∀ i, Tidy (net.items i) :=
    reached.invariant (motive := fun net => ∀ i, Tidy (net.items i)) (tidy_init mode fanout)
      fun _ call held _ => tidy_step held call
  refine ⟨gossipConverged_iff tidy, fun maxRounds numbers rounds ended => ?_⟩
  have agrees := gossipRounds_agree tidy 0 maxRounds numbers rounds ended
  rwa [Nat.zero_add] at agrees

theorem pushedRun_agree : Agree ((pushedRun 0).foldl gossipStep (gossipInitNetwork 2 .push 1)) :=
  (gossipConverged_agree (.ofFold (pushedRun 0))).1.mp (by decide)

end Convergence

end MiniNetDist.SystemTheory.Gossip
