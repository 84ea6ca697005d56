import MiniNetDist.Library.Register
import MiniNetDist.Library.Run
import MiniNetDist.Library.Table
import Mathlib.Data.List.FinRange
import Mathlib.Logic.Function.Basic

/-! The replicated store of `mini-dist-protocol/src/advanced_topics.c`: writes and reads with tunable quorums, read
repair, and hints that an online replica keeps for offline ones. -/

namespace MiniNetDist.DistProtocol.EventualConsistency

open Library

def EC_MAX_REPLICAS : Nat := 8
def EC_MAX_DATA : Nat := 32

structure ECDataEntry where
  key : Int
  value : Int
  version : Nat
  deriving DecidableEq, Repr

/-- An entry of `hints` with that of `hint_targets`. The `uint64_t` it is kept in is cast back to the same int. -/
structure ECHint (n : Nat) where
  value : Int
  target : Fin n
  deriving DecidableEq, Repr

/-- A replica whose `replica_id` is its place in the array. -/
structure ECReplica (n : Nat) where
  data : List ECDataEntry
  online : Bool
  hints : List (ECHint n)

/-- `replica_count` is `n`. -/
structure ECSystem (n : Nat) where
  replicas : Fin n → ECReplica n
  writeQuorum : Nat
  readQuorum : Nat

variable {n : Nat}

/-- `n` is at most `EC_MAX_REPLICAS`, which `ec_init` does not check. -/
def ecInit (n : Nat) (wQuorum rQuorum : Int) : ECSystem n where
  replicas := fun _ => ⟨[], true, []⟩
  writeQuorum := if wQuorum > 0 then wQuorum.toNat else n / 2 + 1
  readQuorum := if rQuorum > 0 then rQuorum.toNat else n / 2 + 1

/-- The replica of an id, which the functions check first. -/
def replicaOf (n : Nat) (replicaId : Int) : Option (Fin n) :=
  if valid : replicaId ≥ 0 ∧ replicaId < n then some ⟨replicaId.toNat, by omega⟩ else none

section Data

def ecFindEntry (data : List ECDataEntry) (key : Int) : Option ECDataEntry := Table.find ECDataEntry.key data key

/-- The value and version of a key, in an entry that `replaces` allows to be changed or else in a new one. -/
def putEntry (replaces : ECDataEntry → Bool) (key value : Int) (version : Nat) (data : List ECDataEntry) :
    List ECDataEntry :=
  match ecFindEntry data key with
  | some entry =>
    if replaces entry then
      Table.update ECDataEntry.key data key fun entry => { entry with value := value, version := version }
    else data
  | none => if data.length < EC_MAX_DATA then data ++ [⟨key, value, version⟩] else data

/-- What `ec_write` does to the data of an online replica. -/
def writeEntry (key value : Int) (version : Nat) : List ECDataEntry → List ECDataEntry :=
  putEntry (fun entry => version ≥ entry.version) key value version

/-- What `ec_read_repair` does to the data of an online replica. -/
def repairEntry (key value : Int) (version : Nat) : List ECDataEntry → List ECDataEntry :=
  putEntry (fun entry => entry.version < version) key value version

/-- What `ec_hinted_handoff` does for the hint at index `i`: the index is the key and the version. -/
def deliverHint (data : List ECDataEntry) (i : Nat) (value : Int) : List ECDataEntry :=
  if data.length < EC_MAX_DATA then data ++ [⟨i, value, i⟩] else data

end Data

section Operations

def ECSystem.setReplica (ec : ECSystem n) (i : Fin n) (replica : ECReplica n) : ECSystem n :=
  { ec with replicas := Function.update ec.replicas i replica }

/-- Every online replica changes its data. -/
def ECSystem.changeOnline (ec : ECSystem n) (change : List ECDataEntry → List ECDataEntry) : ECSystem n :=
  { ec with replicas := fun i =>
      if (ec.replicas i).online then { ec.replicas i with data := change (ec.replicas i).data } else ec.replicas i }

/-- The entries that the online replicas have for a key. -/
def ECSystem.responses (ec : ECSystem n) (key : Int) : List ECDataEntry :=
  (List.finRange n).filterMap fun i =>
    if (ec.replicas i).online then ecFindEntry (ec.replicas i).data key else none

/-- `best_val` and `best_ver` after the loop over the replicas. -/
def ECSystem.best (ec : ECSystem n) (key : Int) : Int × Nat :=
  newest (0, 0) ((ec.responses key).map fun entry => (entry.value, entry.version))

/-- The hints that still fit are stored. -/
def storeHints (replica : ECReplica n) (value : Int) (pendingHints : List (Fin n)) : ECReplica n :=
  pendingHints.foldl (fun replica target =>
    if replica.hints.length < EC_MAX_DATA then { replica with hints := replica.hints ++ [⟨value, target⟩] }
    else replica) replica

def ecWrite (ec : ECSystem n) (key value : Int) (version : Nat) : ECSystem n × Bool :=
  let written := (List.finRange n).countP fun i => (ec.replicas i).online
  let pendingHints := ((List.finRange n).filter fun i => !(ec.replicas i).online).take EC_MAX_REPLICAS
  let ec := ec.changeOnline (writeEntry key value version)
  let hinted :=
    match (List.finRange n).find? fun i => (ec.replicas i).online with
    | some holder => ec.setReplica holder (storeHints (ec.replicas holder) value pendingHints)
    | none => ec
  (hinted, written ≥ ec.writeQuorum)

/-- The value and the version, if enough replicas respond. -/
def ecRead (ec : ECSystem n) (key : Int) : Option (Int × Nat) :=
  if (ec.responses key).length ≥ ec.readQuorum then some (ec.best key) else none

/-- A version above 0 is one that was found. -/
def ecReadRepair (ec : ECSystem n) (key : Int) : ECSystem n :=
  let (bestVal, bestVer) := ec.best key
  if bestVer = 0 then ec else ec.changeOnline (repairEntry key bestVal bestVer)

/-- The loop of `ec_hinted_handoff` at index `i`. A pass ends with the next index or one hint less. -/
def handoffLoop (toReplica : Fin n) : Nat → Nat → List ECDataEntry → List (ECHint n) → Bool →
    List ECDataEntry × List (ECHint n) × Bool
  | 0, _, data, hints, delivered => (data, hints, delivered)
  | passes + 1, i, data, hints, delivered =>
    match hints[i]? with
    | none => (data, hints, delivered)
    | some hint =>
      if hint.target = toReplica then
        handoffLoop toReplica passes i (deliverHint data i hint.value) (swapRemove hints i) true
      else handoffLoop toReplica passes (i + 1) data hints delivered

/-- The handoff between two replicas, which may be the same. -/
def ECSystem.handoff (ec : ECSystem n) (src dst : Fin n) : ECSystem n × Bool :=
  if (ec.replicas dst).online then
    let hints := (ec.replicas src).hints
    let (data, hints, delivered) := handoffLoop dst hints.length 0 (ec.replicas dst).data hints false
    let ec := ec.setReplica dst { ec.replicas dst with data := data }
    (ec.setReplica src { ec.replicas src with hints := hints }, delivered)
  else (ec, false)

def ecHintedHandoff (ec : ECSystem n) (fromReplica toReplica : Int) : ECSystem n × Bool :=
  match replicaOf n fromReplica, replicaOf n toReplica with
  | some src, some dst => ec.handoff src dst
  | _, _ => (ec, false)

def ecDisconnect (ec : ECSystem n) (replicaId : Int) : ECSystem n :=
  match replicaOf n replicaId with
  | some i => ec.setReplica i { ec.replicas i with online := false }
  | none => ec

/-- One pass of the first loop of `ec_reconnect`. -/
def handoffFrom (dst : Fin n) (ec : ECSystem n) (i : Fin n) : ECSystem n :=
  if i ≠ dst ∧ (ec.replicas i).online then (ec.handoff i dst).1 else ec

/-- One pass of the second loop of `ec_reconnect`. -/
def repairAt (dst : Fin n) (ec : ECSystem n) (j : Nat) : ECSystem n :=
  match (ec.replicas dst).data[j]? with
  | some entry => ecReadRepair ec entry.key
  | none => ec

/-- The replica as `ec_reconnect` first leaves it. -/
def ECSystem.switchOn (ec : ECSystem n) (i : Fin n) : ECSystem n :=
  ec.setReplica i { ec.replicas i with online := true }

/-- No replica has more than `EC_MAX_DATA` entries for the second loop to go through. -/
def ecReconnect (ec : ECSystem n) (replicaId : Int) : ECSystem n :=
  match replicaOf n replicaId with
  | some dst =>
    let ec := (List.finRange n).foldl (handoffFrom dst) (ec.switchOn dst)
    (List.range EC_MAX_DATA).foldl (repairAt dst) ec
  | none => ec

end Operations

end MiniNetDist.DistProtocol.EventualConsistency
