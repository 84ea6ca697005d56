import MiniNetDist.DistProtocol.Gossip

/-! What synchronised nodes agree on. `gossip_all_synced` compares versions, and two nodes may have given the same
version of a key to different values. -/

namespace MiniNetDist.DistProtocol.Gossip

open Library

variable {n : Nat} {nodes later last : GossipNodes n} {held : GossipDataEntry}

section Exchanges

/-- Nodes after an exchange of messages: every entry was held by some node before. -/
structure Exchanged (nodes later : GossipNodes n) : Prop where
  entries : ∀ i, ∀ held ∈ (later i).data, ∃ j, held ∈ (nodes j).data
  distinct : (∀ i, Distinct (nodes i).data) → ∀ i, Distinct (later i).data
  active : ∀ i, (later i).active = (nodes i).active

theorem Exchanged.refl (nodes : GossipNodes n) : Exchanged nodes nodes :=
  ⟨fun i _ inside => ⟨i, inside⟩, fun distinct => distinct, fun _ => rfl⟩

theorem Exchanged.trans (first : Exchanged nodes later) (second : Exchanged later last) : Exchanged nodes last where
  entries := by
    intro i held inside
    obtain ⟨j, between⟩ := second.entries i held inside
    exact first.entries j held between
  distinct := fun distinct => second.distinct (first.distinct distinct)
  active := fun i => (second.active i).trans (first.active i)

theorem active_update {i : Fin n} {node : GossipNode n} (same : node.active = (nodes i).active) (j : Fin n) :
    (Function.update nodes i node j).active = (nodes j).active := by
  by_cases here : j = i
  · subst here
    rw [Function.update_self, same]
  · rw [Function.update_of_ne here]

/-- A message with entries of some nodes is received. -/
theorem exchanged_receive {i : Fin n} {msg : GossipMessage n}
    (sent : ∀ held ∈ msg.dataEntries, ∃ j, held ∈ (nodes j).data) : Exchanged nodes (nodes.receive i msg) where
  entries := by
    intro j held inside
    by_cases here : j = i
    · subst here
      rw [GossipNodes.receive, Function.update_self] at inside
      rcases mem_foldl_receiveEntry inside with old | new
      · exact ⟨j, old⟩
      · exact sent held new
    · rw [GossipNodes.receive, Function.update_of_ne here] at inside
      exact ⟨j, inside⟩
  distinct := by
    intro distinct j
    by_cases here : j = i
    · subst here
      rw [GossipNodes.receive, Function.update_self]
      exact distinct_foldl_receiveEntry (distinct j)
    · rw [GossipNodes.receive, Function.update_of_ne here]
      exact distinct j
  active := active_update rfl

theorem exchanged_push (i j : Fin n) : Exchanged nodes (nodes.receive i (gossipCreatePush (nodes j) j)) :=
  exchanged_receive fun _ inside => ⟨j, inside⟩

theorem exchanged_gossipExchange (strategy : GossipMessageType) (i target : Fin n) :
    Exchanged nodes (gossipExchange strategy i target nodes) := by
  cases strategy with
  | push => exact exchanged_push target i
  | pull =>
    have asked : Exchanged nodes (nodes.receive target ⟨.pull, [], i⟩) :=
      exchanged_receive fun _ none => absurd none List.not_mem_nil
    exact asked.trans (exchanged_push i target)
  | pushPull => exact (exchanged_push target i).trans (exchanged_push i target)

/-- A loop of exchanges. -/
theorem exchanged_foldl {Item : Type*} {exchange : GossipNodes n → Item → GossipNodes n}
    (each : ∀ nodes item, Exchanged nodes (exchange nodes item)) (items : List Item) :
    Exchanged nodes (items.foldl exchange nodes) := by
  induction items generalizing nodes with
  | nil => exact .refl nodes
  | cons first rest ih => exact (each nodes first).trans ih

theorem exchanged_gossipSpread (strategy : GossipMessageType) (draws : Fin n → Nat → Nat) :
    Exchanged nodes (gossipSpread nodes strategy draws) := by
  apply exchanged_foldl
  intro nodes i
  rw [gossipSpreadFrom]
  split
  · exact .refl nodes
  · apply exchanged_foldl
    intro nodes f
    cases gossipSelectPeer (nodes i) (draws i f) with
    | none => exact .refl nodes
    | some target => exact exchanged_gossipExchange strategy i target

theorem exchanged_convergeFrom {draws : Nat → Fin n → Nat → Nat} {round rounds : Nat} {needed : Option Nat}
    (returned : convergeFrom draws round rounds nodes = some (later, needed)) : Exchanged nodes later := by
  induction rounds generalizing nodes round with
  | zero =>
    cases returned
    exact .refl _
  | succ rounds ih =>
    rw [convergeFrom] at returned
    have spread := @exchanged_gossipSpread n nodes .pushPull (draws round)
    split at returned
    · cases returned
    · cases returned
      exact spread
    · exact spread.trans (ih returned)

end Exchanges

section Agreement

/-- A version of a key stands for one value. -/
structure Coherent (nodes : GossipNodes n) : Prop where
  distinct : ∀ i, Distinct (nodes i).data
  agree : ∀ i j, ∀ one ∈ (nodes i).data, ∀ other ∈ (nodes j).data, one.key = other.key →
    one.version = other.version → one.value = other.value

theorem Coherent.exchanged (coherent : Coherent nodes) (exchanged : Exchanged nodes later) : Coherent later where
  distinct := exchanged.distinct coherent.distinct
  agree := by
    intro i j one inside other inside'
    obtain ⟨from_, held⟩ := exchanged.entries i one inside
    obtain ⟨from', held'⟩ := exchanged.entries j other inside'
    exact coherent.agree from_ from' one held other held'

/-- All active nodes return the same for every key. -/
def Agree (nodes : GossipNodes n) : Prop :=
  ∀ i j, (nodes i).active = true → (nodes j).active = true → ∀ key,
    gossipGetData (nodes i) key = gossipGetData (nodes j) key

theorem gossipGetData_of_mem {node : GossipNode n} (distinct : Distinct node.data) (inside : held ∈ node.data) :
    gossipGetData node held.key = some (held.value, held.version) := by
  rw [gossipGetData, entry, Table.find_of_mem distinct inside]
  rfl

theorem gossipGetData_eq_none_iff {node : GossipNode n} {key : Int} :
    gossipGetData node key = none ↔ key ∉ node.data.map GossipDataEntry.key := by
  rw [gossipGetData, Option.map_eq_none_iff]
  exact Table.find_eq_none_iff

theorem mem_of_gossipGetData {node : GossipNode n} {key value : Int} {version : Nat}
    (found : gossipGetData node key = some (value, version)) : ⟨key, value, version⟩ ∈ node.data := by
  obtain ⟨held, present, same⟩ := Option.map_eq_some_iff.mp found
  cases same
  have key := Table.key_of_find present
  rw [← key]
  exact Table.mem_of_find present

/-- A node that is synced with another holds the same keys with the same values. -/
theorem synced_agree {i j : Fin n} (coherent : Coherent nodes) (same : synced (nodes i) (nodes j) = true) (key : Int) :
    gossipGetData (nodes j) key = gossipGetData (nodes i) key := by
  rw [synced, Bool.and_eq_true, decide_eq_true_eq, List.all_eq_true] at same
  obtain ⟨size, all⟩ := same
  have matching : ∀ held ∈ (nodes i).data, gossipGetData (nodes j) held.key = some (held.value, held.version) := by
    intro held inside
    have equal := all held inside
    cases found : gossipGetData (nodes j) held.key with
    | none =>
      rw [found] at equal
      cases equal
    | some pair =>
      rw [found] at equal
      have version : pair.2 = held.version := of_decide_eq_true equal
      have value : pair.1 = held.value :=
        coherent.agree j i _ (mem_of_gossipGetData found) held inside rfl version
      rw [← value, ← version]
  by_cases present : key ∈ (nodes i).data.map GossipDataEntry.key
  · obtain ⟨held, inside, rfl⟩ := List.mem_map.mp present
    rw [matching held inside, gossipGetData_of_mem (coherent.distinct i) inside]
  · -- as many keys on both sides, so the second has no key beyond the first one's
    have subset : (nodes i).data.map GossipDataEntry.key ⊆ (nodes j).data.map GossipDataEntry.key := by
      intro other inside
      obtain ⟨held, member, rfl⟩ := List.mem_map.mp inside
      by_contra missing
      have none := gossipGetData_eq_none_iff.mpr missing
      rw [matching held member] at none
      cases none
    have all := (List.subperm_of_subset (coherent.distinct i) subset).perm_of_length_le (by
      rw [List.length_map, List.length_map, size])
    have absent : key ∉ (nodes j).data.map GossipDataEntry.key := fun inside => present (all.mem_iff.mpr inside)
    rw [gossipGetData_eq_none_iff.mpr absent, gossipGetData_eq_none_iff.mpr present]

theorem agree_of_allSynced (coherent : Coherent nodes) (same : gossipAllSynced nodes = some true) : Agree nodes := by
  have listed : ∀ i, (nodes i).active = true → i ∈ activeNodes nodes :=
    fun i active => List.mem_filter.mpr ⟨List.mem_finRange i, active⟩
  rw [gossipAllSynced] at same
  split at same
  · cases same
  · split at same
    · rename_i members
      intro i _ active
      have inside := listed i active
      rw [members] at inside
      cases inside
    · rename_i ref others members
      have all := List.all_eq_true.mp (Option.some.inj same)
      have reference : ∀ i, (nodes i).active = true → ∀ key,
          gossipGetData (nodes i) key = gossipGetData (nodes ref) key := by
        intro i active key
        have inside := listed i active
        rw [members] at inside
        rcases List.mem_cons.mp inside with rfl | other
        · rfl
        · exact synced_agree coherent (all i other) key
      intro i j active active' key
      rw [reference i active key, reference j active' key]

theorem convergeFrom_synced {draws : Nat → Fin n → Nat → Nat} {round rounds needed : Nat}
    (converged : convergeFrom draws round rounds nodes = some (later, some needed)) :
    gossipAllSynced later = some true := by
  induction rounds generalizing nodes round with
  | zero => cases converged
  | succ rounds ih =>
    rw [convergeFrom] at converged
    split at converged
    · cases converged
    · rename_i same
      cases converged
      exact same
    · exact ih converged

end Agreement

section Room

/-- The nodes fit the arrays of the source: `neighbors` of a node, and `active_nodes` of `gossip_all_synced`. -/
structure Fits (nodes : GossipNodes n) : Prop where
  neighbors : ∀ i, (nodes i).neighbors.length ≤ GOSSIP_MAX_NEIGHBORS
  active : (activeNodes nodes).length ≤ GOSSIP_MAX_NODES

theorem activeNodes_congr (active : ∀ i, (later i).active = (nodes i).active) : activeNodes later = activeNodes nodes :=
  List.filter_congr fun i _ => active i

theorem gossipAllSynced_returns (few : (activeNodes nodes).length ≤ GOSSIP_MAX_NODES) :
    ∃ answer, gossipAllSynced nodes = some answer := by
  rw [gossipAllSynced, if_neg (Nat.not_lt.mpr few)]
  split
  · exact ⟨true, rfl⟩
  · exact ⟨_, rfl⟩

theorem convergeFrom_returns (few : (activeNodes nodes).length ≤ GOSSIP_MAX_NODES)
    (draws : Nat → Fin n → Nat → Nat) (round rounds : Nat) :
    ∃ result, convergeFrom draws round rounds nodes = some result := by
  induction rounds generalizing nodes round with
  | zero => exact ⟨_, rfl⟩
  | succ rounds ih =>
    have spread := @exchanged_gossipSpread n nodes .pushPull (draws round)
    have few' := few
    rw [← activeNodes_congr spread.active] at few'
    obtain ⟨answer, same⟩ := gossipAllSynced_returns few'
    rw [convergeFrom]
    simp only [same]
    cases answer with
    | true => exact ⟨_, rfl⟩
    | false => exact ih few' (round + 1)

theorem gossipConverge_returns (few : (activeNodes nodes).length ≤ GOSSIP_MAX_NODES) (maxRounds : Int)
    (draws : Nat → Fin n → Nat → Nat) : ∃ result, gossipConverge nodes maxRounds draws = some result := by
  obtain ⟨⟨later, needed⟩, returned⟩ := convergeFrom_returns few draws 0
    (if maxRounds ≤ 0 then GOSSIP_MAX_ROUNDS else maxRounds.toNat)
  rw [gossipConverge]
  simp only [returned]
  cases needed with
  | none => exact ⟨_, rfl⟩
  | some needed => exact ⟨_, rfl⟩

end Room

section Runs

inductive GossipCall (n : Nat) where
  | setData (i : Fin n) (key value : Int)
  | spread (strategy : GossipMessageType) (draws : Fin n → Nat → Nat)
  | converge (maxRounds : Int) (draws : Nat → Fin n → Nat → Nat)

/-- A `gossip_converge` that overruns its array has no outcome, and the nodes are left as they are. -/
def gossipStep (nodes : GossipNodes n) : GossipCall n → GossipNodes n
  | .setData i key value => Function.update nodes i (gossipSetData (nodes i) key value)
  | .spread strategy draws => gossipSpread nodes strategy draws
  | .converge maxRounds draws => ((gossipConverge nodes maxRounds draws).map Prod.fst).getD nodes

/-- An update that writes an entry does so under a version that no other node holds for another value. -/
def Distinguishes (nodes : GossipNodes n) : GossipCall n → Prop
  | .setData i key value => Assigns (nodes i) key → ∀ j ≠ i, ∀ held ∈ (nodes j).data, held.key = key →
      held.version = nextVersion (nodes i).versionClock → held.value = value
  | _ => True

instance (nodes : GossipNodes n) : (call : GossipCall n) → Decidable (Distinguishes nodes call)
  | .setData _ _ _ => inferInstanceAs (Decidable (_ → _))
  | .spread _ _ => .isTrue trivial
  | .converge _ _ => .isTrue trivial

theorem exchanged_gossipConverge {maxRounds : Int} {draws : Nat → Fin n → Nat → Nat} {converged : Bool} {needed : Nat}
    (returned : gossipConverge nodes maxRounds draws = some (later, converged, needed)) : Exchanged nodes later := by
  rw [gossipConverge] at returned
  split at returned
  · cases returned
  all_goals
    rename_i result
    cases returned
    exact exchanged_convergeFrom result

theorem gossipConverge_synced {maxRounds : Int} {draws : Nat → Fin n → Nat → Nat} {needed : Nat}
    (returned : gossipConverge nodes maxRounds draws = some (later, true, needed)) :
    gossipAllSynced later = some true := by
  rw [gossipConverge] at returned
  split at returned
  · cases returned
  · rename_i result
    cases returned
    exact convergeFrom_synced result
  · cases returned

theorem exchanged_converge (maxRounds : Int) (draws : Nat → Fin n → Nat → Nat) :
    Exchanged nodes (gossipStep nodes (.converge maxRounds draws)) := by
  rw [gossipStep]
  cases returned : gossipConverge nodes maxRounds draws with
  | none => exact .refl nodes
  | some result => exact exchanged_gossipConverge returned

theorem coherent_setData {i : Fin n} {key value : Int} (coherent : Coherent nodes)
    (distinguishes : Distinguishes nodes (.setData i key value)) :
    Coherent (gossipStep nodes (.setData i key value)) := by
  have cases_ : ∀ j, ∀ held ∈ (gossipStep nodes (.setData i key value) j).data,
      held ∈ (nodes j).data ∧ (j = i → held.key ≠ key) ∨
        j = i ∧ Assigns (nodes i) key ∧ held = ⟨key, value, nextVersion (nodes i).versionClock⟩ := by
    intro j held inside
    by_cases here : j = i
    · subst here
      rw [gossipStep, Function.update_self] at inside
      rcases mem_gossipSetData (coherent.distinct j) inside with ⟨old, other⟩ | ⟨assigns, new⟩
      · exact .inl ⟨old, fun _ => other⟩
      · exact .inr ⟨rfl, assigns, new⟩
    · rw [gossipStep, Function.update_of_ne here] at inside
      exact .inl ⟨inside, fun same => absurd same here⟩
  -- an old entry with the new version is on another node, and the condition speaks of it
  have fresh : ∀ j, ∀ held ∈ (nodes j).data, (j = i → held.key ≠ key) → Assigns (nodes i) key → held.key = key →
      held.version = nextVersion (nodes i).versionClock → held.value = value := by
    intro j held inside elsewhere assigns same version
    exact distinguishes assigns j (fun here => elsewhere here same) held inside same version
  constructor
  · intro j
    by_cases here : j = i
    · subst here
      rw [gossipStep, Function.update_self]
      exact distinct_gossipSetData (coherent.distinct j)
    · rw [gossipStep, Function.update_of_ne here]
      exact coherent.distinct j
  · intro j k one inside other inside' key version
    rcases cases_ j one inside with ⟨old, elsewhere⟩ | ⟨-, assigns, rfl⟩ <;>
      rcases cases_ k other inside' with ⟨old', elsewhere'⟩ | ⟨-, assigns', rfl⟩
    · exact coherent.agree j k one old other old' key version
    · exact fresh j one old elsewhere assigns' key version
    · exact (fresh k other old' elsewhere' assigns key.symm version.symm).symm
    · rfl

theorem coherent_step (coherent : Coherent nodes) (call : GossipCall n) (distinguishes : Distinguishes nodes call) :
    Coherent (gossipStep nodes call) := by
  cases call with
  | setData i key value => exact coherent_setData coherent distinguishes
  | spread strategy draws => exact coherent.exchanged (exchanged_gossipSpread strategy draws)
  | converge maxRounds draws => exact coherent.exchanged (exchanged_converge maxRounds draws)

theorem active_gossipSetData (node : GossipNode n) (key value : Int) :
    (gossipSetData node key value).active = node.active := by
  rw [gossipSetData]
  split_ifs <;> rfl

theorem active_step (call : GossipCall n) (i : Fin n) : (gossipStep nodes call i).active = (nodes i).active := by
  cases call with
  | setData j key value => exact active_update (active_gossipSetData _ _ _) i
  | spread strategy draws => exact (exchanged_gossipSpread strategy draws).active i
  | converge maxRounds draws => exact (exchanged_converge maxRounds draws).active i

/-- In a run in which no version of a key is given to two values, nodes that are found to be synchronised agree. -/
theorem gossip_synced_agree {start : GossipNodes n} (empty : ∀ i, (start i).data = []) (fits : Fits start)
    (reached : Reaches gossipStep Distinguishes start nodes) :
    (∃ answer, gossipAllSynced nodes = some answer ∧ (answer = true → Agree nodes)) ∧
      ∀ maxRounds draws, ∃ later converged needed,
        gossipConverge nodes maxRounds draws = some (later, converged, needed) ∧ (converged = true → Agree later) := by
  have initial : Coherent start := by
    constructor
    · intro i
      rw [empty i]
      exact List.nodup_nil
    · intro i _ one inside
      rw [empty i] at inside
      cases inside
  have coherent : Coherent nodes := reached.invariant initial fun _ call held allowed => coherent_step held call allowed
  have active : ∀ i, (nodes i).active = (start i).active := by
    have kept : ∀ nodes call, (∀ i, (nodes i).active = (start i).active) → Distinguishes nodes call →
        ∀ i, (gossipStep nodes call i).active = (start i).active :=
      fun _ call same _ i => (active_step call i).trans (same i)
    exact reached.invariant (fun _ => rfl) kept
  have few : (activeNodes nodes).length ≤ GOSSIP_MAX_NODES := by
    rw [activeNodes_congr active]
    exact fits.active
  constructor
  · obtain ⟨answer, returned⟩ := gossipAllSynced_returns few
    refine ⟨answer, returned, ?_⟩
    rintro rfl
    exact agree_of_allSynced coherent returned
  · intro maxRounds draws
    obtain ⟨⟨later, converged, needed⟩, returned⟩ := gossipConverge_returns few maxRounds draws
    refine ⟨later, converged, needed, returned, ?_⟩
    rintro rfl
    exact agree_of_allSynced (coherent.exchanged (exchanged_gossipConverge returned)) (gossipConverge_synced returned)

/-- Two nodes with each other as neighbours, as `gossip_init_full` sets them up. -/
def pair : GossipNodes 2 := fun i => ⟨[], [i.rev], 0, true⟩

theorem pair_agree : ∃ later needed,
    gossipConverge (gossipStep pair (.setData 0 1 10)) 5 (fun _ _ _ => 0) = some (later, true, needed) ∧ Agree later := by
  have reached : Reaches gossipStep Distinguishes pair (gossipStep pair (.setData 0 1 10)) :=
    .call .refl _ (by decide +kernel)
  have empty : ∀ i, (pair i).data = [] := fun _ => rfl
  have fits : Fits pair := ⟨by decide +kernel, by decide +kernel⟩
  obtain ⟨later, converged, needed, returned, agree⟩ :=
    (gossip_synced_agree empty fits reached).2 5 fun _ _ _ => 0
  have found : (gossipConverge (gossipStep pair (.setData 0 1 10)) 5 fun _ _ _ => 0).map (fun result => result.2.1) =
      some true := by decide +kernel
  rw [returned] at found
  cases found
  exact ⟨later, needed, returned, agree rfl⟩

/-- Two nodes give version 1 of the key 1 to values of their own. -/
def bothSet (first second : Fin n) : List (GossipCall n) := [.setData first 1 10, .setData second 1 20]

theorem bothSet_synced : gossipAllSynced ((bothSet 0 1).foldl gossipStep pair) = some true ∧
    gossipGetData ((bothSet 0 1).foldl gossipStep pair 0) 1 = some (10, 1) ∧
      gossipGetData ((bothSet 0 1).foldl gossipStep pair 1) 1 = some (20, 1) ∧
        ¬ Agree ((bothSet 0 1).foldl gossipStep pair) := by
  have first : gossipGetData ((bothSet 0 1).foldl gossipStep pair 0) 1 = some (10, 1) := by decide +kernel
  have second : gossipGetData ((bothSet 0 1).foldl gossipStep pair 1) 1 = some (20, 1) := by decide +kernel
  refine ⟨by decide +kernel, first, second, ?_⟩
  intro agree
  have same := agree 0 1 (by decide +kernel) (by decide +kernel) 1
  rw [first, second] at same
  exact absurd same (by decide)

end Runs

end MiniNetDist.DistProtocol.Gossip
