import MiniNetDist.Library.History
import MiniNetDist.Library.Run
import Mathlib.Data.List.FinRange

/-! The counters of `mini-dist-system-theory/src/crdt.c`. Beside each state a replica holds or has
passed on stands the history it has absorbed: the numbers of the updates in it, in the order in
which the whole system made them. -/

namespace MiniNetDist.SystemTheory.PnCounter

open Library Library.History

def CRDT_MAX_NODES : Nat := 8

structure GCounter where
  counters : Fin CRDT_MAX_NODES → UInt64
  nodeCount : Int

structure PNCounter where
  inc : GCounter
  dec : GCounter

def gcInit (nodeCount : Int) : GCounter := ⟨fun _ => 0, nodeCount⟩

def gcInc (gc : GCounter) (nodeId : Int) : GCounter :=
  if nodeId ≥ 0 ∧ nodeId < gc.nodeCount then
    { gc with counters := fun i => if (i.val : Int) = nodeId then gc.counters i + 1 else gc.counters i }
  else gc

/-- One round of the loop of `gc_value`. -/
def gcAdd (gc : GCounter) (total : UInt64) (i : Fin CRDT_MAX_NODES) : UInt64 :=
  if (i.val : Int) < gc.nodeCount then total + gc.counters i else total

def gcValue (gc : GCounter) : UInt64 := (List.finRange CRDT_MAX_NODES).foldl (gcAdd gc) 0

def gcMerge (gc other : GCounter) : GCounter :=
  let n := if gc.nodeCount > other.nodeCount then gc.nodeCount else other.nodeCount
  let n := if n > CRDT_MAX_NODES then (CRDT_MAX_NODES : Int) else n
  { gc with
    counters := fun i =>
      if (i.val : Int) < n ∧ other.counters i > gc.counters i then other.counters i else gc.counters i }

def pnInit (nodeCount : Int) : PNCounter := ⟨gcInit nodeCount, gcInit nodeCount⟩

def pnInc (pn : PNCounter) (nodeId : Int) : PNCounter := { pn with inc := gcInc pn.inc nodeId }

def pnDec (pn : PNCounter) (nodeId : Int) : PNCounter := { pn with dec := gcInc pn.dec nodeId }

def pnValue (pn : PNCounter) : Int64 := (gcValue pn.inc).toInt64 - (gcValue pn.dec).toInt64

def pnMerge (pn other : PNCounter) : PNCounter := ⟨gcMerge pn.inc other.inc, gcMerge pn.dec other.dec⟩

inductive Kind where
  | inc
  | dec
  deriving DecidableEq, Repr

/-- Who made an update, and which. -/
abbrev Update (n : Nat) := Fin n × Kind

section Counting

variable {n : Nat} {log : List (Update n)} {absorbed other : Finset Nat} {kind : Kind} {gc : GCounter}

/-- The updates of one kind in a history. -/
def count (log : List (Update n)) (absorbed : Finset Nat) (kind : Kind) : Nat :=
  (absorbed.filter fun number => log[number]?.map Prod.snd = some kind).card

/-- Each slot counts the updates that its replica made, as long as it can hold the number. -/
structure Counts (log : List (Update n)) (absorbed : Finset Nat) (kind : Kind) (gc : GCounter) : Prop where
  nodes : gc.nodeCount = n
  slots : ∀ (slot : Fin CRDT_MAX_NODES) (i : Fin n), slot.val = i.val →
    tally log absorbed (i, kind) < UInt64.size → (gc.counters slot).toNat = tally log absorbed (i, kind)

theorem counts_init : Counts ([] : List (Update n)) ∅ kind (gcInit n) := by
  refine ⟨rfl, ?_⟩
  intro slot i _ _
  rw [tally_empty]
  rfl

theorem Counts.congr (counts : Counts log absorbed kind gc) {later : List (Update n)} {grown : Finset Nat}
    (same : ∀ i, tally later grown (i, kind) = tally log absorbed (i, kind)) : Counts later grown kind gc := by
  refine ⟨counts.nodes, ?_⟩
  intro slot i here
  rw [same]
  exact counts.slots slot i here

theorem gcInc_counters {nodeId : Nat} (valid : (nodeId : Int) < gc.nodeCount) (slot : Fin CRDT_MAX_NODES) :
    (gcInc gc nodeId).counters slot = if slot.val = nodeId then gc.counters slot + 1 else gc.counters slot := by
  unfold gcInc
  rw [if_pos ⟨Int.natCast_nonneg nodeId, valid⟩]
  simp only [Int.ofNat_inj]

theorem gcInc_nodeCount (nodeId : Int) : (gcInc gc nodeId).nodeCount = gc.nodeCount := by
  unfold gcInc
  split_ifs <;> rfl

theorem Counts.inc (counts : Counts log absorbed kind gc) (made : ∀ number ∈ absorbed, number < log.length)
    (i : Fin n) : Counts (log ++ [(i, kind)]) (insert log.length absorbed) kind (gcInc gc (i.val : Int)) := by
  have valid : (i.val : Int) < gc.nodeCount := by
    rw [counts.nodes]
    omega
  refine ⟨(gcInc_nodeCount _).trans counts.nodes, ?_⟩
  intro slot j here
  rw [tally_insert made, gcInc_counters valid]
  by_cases same : i = j
  · subst same
    rw [if_pos rfl, if_pos here]
    intro small
    rw [UInt64.toNat_add, counts.slots slot i here (Nat.lt_of_succ_lt small)]
    exact Nat.mod_eq_of_lt small
  · rw [if_neg (fun equal => same (Prod.mk.inj equal).1), if_neg (fun equal => same (Fin.ext (equal.symm.trans here)))]
    exact counts.slots slot j here

theorem Counts.merge {gc₂ : GCounter} (counts : Counts log absorbed kind gc) (countsToo : Counts log other kind gc₂)
    (closed : Closed Prod.fst log absorbed) (closedToo : Closed Prod.fst log other) :
    Counts log (absorbed ∪ other) kind (gcMerge gc gc₂) := by
  refine ⟨counts.nodes, ?_⟩
  intro slot i here
  rw [tally_union closed closedToo]
  intro small
  have mine := counts.slots slot i here (Nat.lt_of_le_of_lt (Nat.le_max_left _ _) small)
  have hers := countsToo.slots slot i here (Nat.lt_of_le_of_lt (Nat.le_max_right _ _) small)
  have within : (slot.val : Int) < n := by omega
  have bound := slot.isLt
  simp only [gcMerge, counts.nodes, countsToo.nodes, gt_iff_lt, UInt64.lt_iff_toNat_lt, mine, hers]
  split_ifs <;> omega

/-- The updates of one kind that the replicas of some slots made. -/
def madeBy (log : List (Update n)) (absorbed : Finset Nat) (kind : Kind) (slots : List (Fin CRDT_MAX_NODES)) :
    Finset Nat :=
  absorbed.filter fun number => ∃ slot ∈ slots, ∃ i : Fin n, i.val = slot.val ∧ log[number]? = some (i, kind)

theorem card_madeBy_cons (slot : Fin CRDT_MAX_NODES) (rest : List (Fin CRDT_MAX_NODES)) (fresh : slot ∉ rest)
    (i : Fin n) (here : i.val = slot.val) :
    (madeBy log absorbed kind (slot :: rest)).card =
      tally log absorbed (i, kind) + (madeBy log absorbed kind rest).card := by
  unfold tally
  rw [← Finset.card_union_of_disjoint]
  · congr 1
    ext number
    simp only [madeBy, Finset.mem_filter, Finset.mem_union, List.mem_cons]
    constructor
    · rintro ⟨inside, found, (rfl | later), j, same, update⟩
      · rw [Fin.ext (same.trans here.symm)] at update
        exact .inl ⟨inside, update⟩
      · exact .inr ⟨inside, found, later, j, same, update⟩
    · rintro (⟨inside, update⟩ | ⟨inside, found, later, j, same, update⟩)
      · exact ⟨inside, slot, .inl rfl, i, here, update⟩
      · exact ⟨inside, found, .inr later, j, same, update⟩
  · rw [Finset.disjoint_left]
    intro number mine others
    obtain ⟨-, found, later, j, same, update⟩ := Finset.mem_filter.mp others
    rw [(Finset.mem_filter.mp mine).2] at update
    have equal : slot = found := by
      apply Fin.ext
      rw [← here, (Prod.mk.inj (Option.some.inj update)).1, same]
    exact fresh (equal ▸ later)

theorem madeBy_cons_of_le (slot : Fin CRDT_MAX_NODES) (rest : List (Fin CRDT_MAX_NODES)) (beyond : n ≤ slot.val) :
    madeBy log absorbed kind (slot :: rest) = madeBy log absorbed kind rest := by
  apply Finset.filter_congr
  intro number _
  constructor
  · rintro ⟨found, among, i, same, update⟩
    rcases List.mem_cons.mp among with rfl | later
    · omega
    · exact ⟨found, later, i, same, update⟩
  · rintro ⟨found, later, rest⟩
    exact ⟨found, List.mem_cons_of_mem _ later, rest⟩

/-- The loop of `gc_value` adds up the updates of the slots it has passed. -/
theorem Counts.fold (counts : Counts log absorbed kind gc)
    (small : ∀ i, tally log absorbed (i, kind) < UInt64.size) (slots : List (Fin CRDT_MAX_NODES))
    (distinct : slots.Nodup) (total : UInt64) :
    (slots.foldl (gcAdd gc) total).toNat =
      (total.toNat + (madeBy log absorbed kind slots).card) % UInt64.size := by
  induction slots generalizing total with
  | nil =>
    have none : madeBy log absorbed kind [] = ∅ := by
      apply Finset.filter_eq_empty_iff.mpr
      rintro number _ ⟨slot, among, -⟩
      cases among
    rw [none, Finset.card_empty]
    exact (Nat.mod_eq_of_lt total.toNat_lt).symm
  | cons slot rest ih =>
    obtain ⟨fresh, others⟩ := List.nodup_cons.mp distinct
    rw [List.foldl_cons, ih others]
    unfold gcAdd
    rw [counts.nodes]
    by_cases within : slot.val < n
    · rw [if_pos (Int.ofNat_lt.mpr within), card_madeBy_cons slot rest fresh ⟨slot.val, within⟩ rfl,
        UInt64.toNat_add, counts.slots slot ⟨slot.val, within⟩ rfl (small _)]
      exact (Nat.mod_add_mod _ _ _).trans (by rw [Nat.add_assoc])
    · rw [if_neg (fun below => within (Int.ofNat_lt.mp below)), madeBy_cons_of_le slot rest (Nat.le_of_not_lt within)]

theorem madeBy_all (fits : n ≤ CRDT_MAX_NODES) :
    (madeBy log absorbed kind (List.finRange CRDT_MAX_NODES)).card = count log absorbed kind := by
  unfold count madeBy
  congr 1
  apply Finset.filter_congr
  intro number _
  constructor
  · rintro ⟨slot, -, i, -, update⟩
    rw [update, Option.map_some]
  · intro same
    obtain ⟨⟨i, made⟩, update, rfl⟩ := Option.map_eq_some_iff.mp same
    exact ⟨⟨i.val, Nat.lt_of_lt_of_le i.isLt fits⟩, List.mem_finRange _, i, rfl, update⟩

theorem tally_le_count (i : Fin n) : tally log absorbed (i, kind) ≤ count log absorbed kind := by
  apply Finset.card_le_card
  intro number inside
  obtain ⟨present, update⟩ := Finset.mem_filter.mp inside
  exact Finset.mem_filter.mpr ⟨present, by rw [update, Option.map_some]⟩

theorem Counts.value (counts : Counts log absorbed kind gc) (fits : n ≤ CRDT_MAX_NODES)
    (small : count log absorbed kind < UInt64.size) : (gcValue gc).toNat = count log absorbed kind := by
  unfold gcValue
  rw [counts.fold (fun i => Nat.lt_of_le_of_lt (tally_le_count i) small) _ (List.nodup_finRange _), madeBy_all fits]
  exact (Nat.mod_eq_of_lt (by simpa using small)).trans (Nat.zero_add _)

end Counting

/-- A state of a replica, with the numbers of the updates it has absorbed. -/
structure Copy where
  counter : PNCounter
  absorbed : Finset Nat

def Copy.absorb (copy other : Copy) : Copy := ⟨pnMerge copy.counter other.counter, copy.absorbed ∪ other.absorbed⟩

/-- The replicas, the states they have passed on, and all updates so far. -/
structure Replicas (n : Nat) where
  held : Fin n → Copy
  sent : List Copy
  log : List (Update n)

/-- A replica may merge the present state of another one or a state that was sent earlier, and that
again and again. -/
inductive PnCall (n : Nat) where
  | inc (i : Fin n)
  | dec (i : Fin n)
  | merge (i j : Fin n)
  | send (i : Fin n)
  | receive (i : Fin n) (message : Nat)
  deriving DecidableEq, Repr

def replicasInit (n : Nat) : Replicas n := ⟨fun _ => ⟨pnInit n, ∅⟩, [], []⟩

def Replicas.put {n : Nat} (replicas : Replicas n) (i : Fin n) (copy : Copy) : Replicas n :=
  { replicas with held := Function.update replicas.held i copy }

def Replicas.record {n : Nat} (replicas : Replicas n) (update : Update n) : Replicas n :=
  { replicas with log := replicas.log ++ [update] }

def replicasStep {n : Nat} (replicas : Replicas n) : PnCall n → Replicas n
  | .inc i => (replicas.put i ⟨pnInc (replicas.held i).counter (i.val : Int),
      insert replicas.log.length (replicas.held i).absorbed⟩).record (i, .inc)
  | .dec i => (replicas.put i ⟨pnDec (replicas.held i).counter (i.val : Int),
      insert replicas.log.length (replicas.held i).absorbed⟩).record (i, .dec)
  | .merge i j => replicas.put i ((replicas.held i).absorb (replicas.held j))
  | .send i => { replicas with sent := replicas.sent ++ [replicas.held i] }
  | .receive i message =>
    match replicas.sent[message]? with
    | some copy => replicas.put i ((replicas.held i).absorb copy)
    | none => replicas

section Replicas

variable {n : Nat} {log : List (Update n)} {copy other : Copy} {replicas : Replicas n}

/-- Both counters of a state count what its history holds. -/
structure Exact (log : List (Update n)) (copy : Copy) : Prop where
  closed : Closed Prod.fst log copy.absorbed
  inc : Counts log copy.absorbed .inc copy.counter.inc
  dec : Counts log copy.absorbed .dec copy.counter.dec

structure Consistent (replicas : Replicas n) : Prop where
  held : ∀ i, Exact replicas.log (replicas.held i)
  sent : ∀ copy ∈ replicas.sent, Exact replicas.log copy
  complete : ∀ i, Complete Prod.fst replicas.log i (replicas.held i).absorbed

theorem consistent_init : Consistent (replicasInit n) := by
  refine ⟨fun i => ⟨Closed.empty, counts_init, counts_init⟩, ?_, ?_⟩
  · intro copy absurdly
    cases absurdly
  · intro i number made
    cases made

theorem Exact.absorb (exact : Exact log copy) (exactToo : Exact log other) : Exact log (copy.absorb other) where
  closed := exact.closed.union exactToo.closed
  inc := exact.inc.merge exactToo.inc exact.closed exactToo.closed
  dec := exact.dec.merge exactToo.dec exact.closed exactToo.closed

/-- An update that a state has not absorbed leaves it exact. -/
theorem Exact.append (exact : Exact log copy) (update : Update n) : Exact (log ++ [update]) copy where
  closed := exact.closed.append update
  inc := exact.inc.congr fun _ => tally_append exact.closed.made update
  dec := exact.dec.congr fun _ => tally_append exact.closed.made update

theorem Exact.incremented (exact : Exact log copy) (i : Fin n) (complete : Complete Prod.fst log i copy.absorbed) :
    Exact (log ++ [(i, .inc)]) ⟨pnInc copy.counter (i.val : Int), insert log.length copy.absorbed⟩ where
  closed := exact.closed.insert complete
  inc := exact.inc.inc exact.closed.made i
  dec := by
    refine exact.dec.congr fun j => ?_
    rw [tally_insert exact.closed.made, if_neg (by simp), Nat.add_zero]

theorem Exact.decremented (exact : Exact log copy) (i : Fin n) (complete : Complete Prod.fst log i copy.absorbed) :
    Exact (log ++ [(i, .dec)]) ⟨pnDec copy.counter (i.val : Int), insert log.length copy.absorbed⟩ where
  closed := exact.closed.insert complete
  inc := by
    refine exact.inc.congr fun j => ?_
    rw [tally_insert exact.closed.made, if_neg (by simp), Nat.add_zero]
  dec := exact.dec.inc exact.closed.made i

/-- One replica gets a new state, and the others stay as they are. -/
theorem consistent_put {held : Fin n → Copy} {sent : List Copy} {i : Fin n} (exact : Exact log copy)
    (complete : Complete Prod.fst log i copy.absorbed) (sentExact : ∀ copy ∈ sent, Exact log copy)
    (others : ∀ j, j ≠ i → Exact log (held j) ∧ Complete Prod.fst log j (held j).absorbed) :
    Consistent ⟨Function.update held i copy, sent, log⟩ := by
  refine ⟨fun j => ?_, sentExact, fun j => ?_⟩
  · by_cases here : j = i
    · subst here
      change Exact log (Function.update held j copy j)
      rw [Function.update_self]
      exact exact
    · change Exact log (Function.update held i copy j)
      rw [Function.update_of_ne here]
      exact (others j here).1
  · by_cases here : j = i
    · subst here
      change Complete Prod.fst log j (Function.update held j copy j).absorbed
      rw [Function.update_self]
      exact complete
    · change Complete Prod.fst log j (Function.update held i copy j).absorbed
      rw [Function.update_of_ne here]
      exact (others j here).2

theorem Consistent.absorb (consistent : Consistent replicas) (i : Fin n) (exact : Exact replicas.log copy) :
    Consistent (replicas.put i ((replicas.held i).absorb copy)) :=
  consistent_put ((consistent.held i).absorb exact) (consistent.complete i).union consistent.sent
    fun j _ => ⟨consistent.held j, consistent.complete j⟩

/-- A replica makes an update of its own. -/
theorem Consistent.update (consistent : Consistent replicas) (i : Fin n) (kind : Kind) (counter : PNCounter)
    (exact : Exact (replicas.log ++ [(i, kind)]) ⟨counter, insert replicas.log.length (replicas.held i).absorbed⟩) :
    Consistent ((replicas.put i ⟨counter, insert replicas.log.length (replicas.held i).absorbed⟩).record (i, kind)) :=
  consistent_put exact (consistent.complete i).insert (fun copy inside => (consistent.sent copy inside).append _)
    fun j elsewhere => ⟨(consistent.held j).append _, (consistent.complete j).append (Ne.symm elsewhere)⟩

theorem Consistent.step (consistent : Consistent replicas) (call : PnCall n) :
    Consistent (replicasStep replicas call) := by
  cases call with
  | inc i => exact consistent.update i _ _ ((consistent.held i).incremented i (consistent.complete i))
  | dec i => exact consistent.update i _ _ ((consistent.held i).decremented i (consistent.complete i))
  | merge i j => exact consistent.absorb i (consistent.held j)
  | send i =>
    refine ⟨consistent.held, ?_, consistent.complete⟩
    intro copy inside
    rcases List.mem_append.mp inside with old | new
    · exact consistent.sent copy old
    · rw [List.mem_singleton.mp new]
      exact consistent.held i
  | receive i message =>
    rw [replicasStep]
    cases found : replicas.sent[message]? with
    | some copy => exact consistent.absorb i (consistent.sent copy (List.mem_of_getElem? found))
    | none => exact consistent

theorem toInt_toInt64 {value : UInt64} (small : value.toNat < 9223372036854775808) :
    value.toInt64.toInt = value.toNat := by
  apply BitVec.toInt_eq_toNat_of_lt
  change 2 * value.toNat < 2 ^ 64
  omega

/-- A replica's value is the number of increments less that of decrements it has absorbed, each
counted once. -/
theorem pnValue_exact (fits : n ≤ CRDT_MAX_NODES) (reached : Reaches replicasStep Always (replicasInit n) replicas)
    (i : Fin n) (increments : count replicas.log (replicas.held i).absorbed .inc < 9223372036854775808)
    (decrements : count replicas.log (replicas.held i).absorbed .dec < 9223372036854775808) :
    (pnValue (replicas.held i).counter).toInt =
      (count replicas.log (replicas.held i).absorbed .inc : Int) -
        count replicas.log (replicas.held i).absorbed .dec := by
  have consistent : Consistent replicas :=
    reached.invariant consistent_init fun replicas call consistent _ => consistent.step call
  have exact := consistent.held i
  have inc := exact.inc.value fits (Nat.lt_trans increments (by decide))
  have dec := exact.dec.value fits (Nat.lt_trans decrements (by decide))
  unfold pnValue
  rw [Int64.toInt_sub, toInt_toInt64 (inc ▸ increments), toInt_toInt64 (dec ▸ decrements), inc, dec]
  exact Int.bmod_eq_of_le_mul_two (by omega) (by omega)

end Replicas

/-- The first replica counts up twice and the second down once; states are merged repeatedly, one of
them late. -/
def sharedTwice : Replicas 2 :=
  [PnCall.inc 0, .send 0, .inc 0, .dec 1, .merge 1 0, .receive 1 0, .receive 1 0, .merge 0 1, .merge 1 0].foldl
    replicasStep (replicasInit 2)

theorem pnValue_sharedTwice :
    count sharedTwice.log (sharedTwice.held 1).absorbed .inc = 2 ∧
    count sharedTwice.log (sharedTwice.held 1).absorbed .dec = 1 ∧
    (pnValue (sharedTwice.held 1).counter).toInt =
      (count sharedTwice.log (sharedTwice.held 1).absorbed .inc : Int) -
        count sharedTwice.log (sharedTwice.held 1).absorbed .dec :=
  ⟨by decide, by decide, pnValue_exact (by decide) (Reaches.ofFold _) 1 (by decide) (by decide)⟩

end MiniNetDist.SystemTheory.PnCounter
