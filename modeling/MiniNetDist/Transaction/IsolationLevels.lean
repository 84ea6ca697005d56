import MiniNetDist.Library.DepthFirst
import MiniNetDist.Library.Table

/-! Cycle detection in the conflict graph of `mini-dist-transaction/src/isolation_levels.c`. `ser_detect_cycle`
lays the edges out in one array, with the targets of each transaction in a block of their own, and searches it
for a cycle. -/

namespace MiniNetDist.Transaction.Isolation

open Library Library.DepthFirst

structure ConflictEdge where
  fromTxn : UInt64
  toTxn : UInt64
  item : CString
  isReadWrite : Bool
  deriving DecidableEq, Repr

structure Graph where
  adj : List Int
  offsets : List Nat
  numNodes : Nat
  cap : Nat
  deriving DecidableEq, Repr

/-- An index into the arrays of marks; `none` is outside of them. -/
def markIndex (numNodes : Nat) (neighbor : Int) : Option Nat :=
  if 0 ≤ neighbor ∧ neighbor < numNodes then some neighbor.toNat else none

/-- The marks that `dfs_cycle` looks at from a node, one for each slot from `start` to `end`. -/
def Graph.neighbors (g : Graph) (node : Nat) : List (Option Nat) :=
  let start := g.offsets.getD node g.cap
  let stop := if node + 1 < g.numNodes then g.offsets.getD (node + 1) g.cap else g.cap
  ((g.adj.drop start).take (stop - start)).map (markIndex g.numNodes)

def dfsCycle (g : Graph) (fuel node : Nat) (marks : Marks Nat) : Result Nat :=
  search g.neighbors fuel node marks

/-- The search for an id in `txns`. -/
def findTxn (txns : List UInt64) (id : UInt64) : Option Nat := txns.findIdx? fun txn => txn = id

/-- One pass of the loop that counts out-degrees. -/
def countEdge (txns : List UInt64) (degrees : List Nat) (edge : ConflictEdge) : List Nat :=
  match findTxn txns edge.fromTxn with
  | some j => degrees.modify j (· + 1)
  | none => degrees

/-- The loop that computes the offsets. -/
def prefixSums (total : Nat) : List Nat → List Nat
  | [] => [total]
  | degree :: rest => total :: prefixSums (total + degree) rest

/-- One pass of the loop that fills the adjacency array. -/
def fillEdge (txns : List UInt64) (offsets : List Nat) (state : List Int × List Nat) (edge : ConflictEdge) :
    List Int × List Nat :=
  match findTxn txns edge.fromTxn with
  | none => state
  | some j =>
    match findTxn txns edge.toTxn with
    | none => state
    | some k => (state.1.set (offsets.getD j 0 + state.2.getD j 0) k, state.2.modify j (· + 1))

/-- `contents` is what the memory from `malloc` holds. -/
def buildGraph (contents : Nat → Int) (edges : List ConflictEdge) (txns : List UInt64) : Graph :=
  let degrees := edges.foldl (countEdge txns) (List.replicate txns.length 0)
  let totalEdges := degrees.foldl (· + ·) 0
  let offsets := prefixSums 0 degrees
  let filled := edges.foldl (fillEdge txns offsets)
    ((List.range totalEdges).map contents, List.replicate txns.length 0)
  ⟨filled.1, offsets, txns.length, totalEdges⟩

def serDetectCycle (contents : Nat → Int) (edges : List ConflictEdge) (txns : List UInt64) : Except Fault Bool :=
  if edges.length = 0 ∨ txns.length = 0 then .ok false
  else
    let g := buildGraph contents edges txns
    (sweep (dfsCycle g txns.length) (List.range txns.length) .blank).map Prod.fst

end MiniNetDist.Transaction.Isolation
