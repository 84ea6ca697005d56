import Mathlib.Data.Fintype.Card
import Mathlib.Data.Fintype.List
import Mathlib.Order.Bounds.Basic

/-! Walks in graphs with costs on the edges, and what labels of the vertices say about the cheapest of them: for
a search that settles one vertex after the other, and for one that goes over all edges in rounds. -/

namespace MiniNetDist.Library.ShortestPath

variable {V : Type*}

/-- A walk from the source, by the vertices it has left behind, the last of them first, and its cost. -/
inductive Walk (edge : V → V → Nat → Prop) (source : V) : List V → V → Nat → Prop where
  | here : Walk edge source [] source 0
  | step {behind : List V} {u v : V} {cost weight : Nat} (walk : Walk edge source behind u cost)
      (along : edge u v weight) : Walk edge source (u :: behind) v (cost + weight)

/-- The costs of all walks to a vertex. -/
def costs (edge : V → V → Nat → Prop) (source v : V) : Set Nat := { cost | ∃ behind, Walk edge source behind v cost }

/-- Going back by the previous vertex of each leads to the source, along edges of this total cost. -/
inductive Traces (edge : V → V → Nat → Prop) (previous : V → Option V) (source : V) : V → Nat → Prop where
  | source : Traces edge previous source source 0
  | back {u v : V} {cost weight : Nat} (earlier : Traces edge previous source u cost)
      (before : previous v = some u) (along : edge u v weight) : Traces edge previous source v (cost + weight)

variable {edge : V → V → Nat → Prop} {source u v : V} {behind : List V} {cost weight : Nat}

theorem source_mem_costs : 0 ∈ costs edge source source := ⟨[], .here⟩

theorem step_mem_costs (walk : cost ∈ costs edge source u) (along : edge u v weight) :
    cost + weight ∈ costs edge source v := by
  obtain ⟨behind, walk⟩ := walk
  exact ⟨u :: behind, walk.step along⟩

section Simple

/-- A walk can be left at any of the vertices behind it. -/
theorem Walk.cut (walk : Walk edge source behind v cost) (inside : u ∈ behind) :
    ∃ earlier cheaper, Walk edge source earlier u cheaper ∧ cheaper ≤ cost ∧ u :: earlier <:+ behind := by
  induction walk with
  | here => exact absurd inside List.not_mem_nil
  | @step behind last v cost weight walk along ih =>
    by_cases here : u = last
    · subst here
      exact ⟨behind, cost, walk, Nat.le_add_right _ _, List.suffix_refl _⟩
    · obtain ⟨earlier, cheaper, walk', less, shorter⟩ := ih ((List.mem_cons.mp inside).resolve_left here)
      exact ⟨earlier, cheaper, walk', Nat.le_add_right_of_le less, shorter.trans (List.suffix_cons last behind)⟩

/-- Without its loops a walk is not more expensive. -/
theorem Walk.simple (walk : Walk edge source behind v cost) :
    ∃ shorter cheaper, Walk edge source shorter v cheaper ∧ cheaper ≤ cost ∧ (v :: shorter).Nodup := by
  induction walk with
  | here => exact ⟨[], 0, .here, Nat.le_refl 0, List.nodup_singleton source⟩
  | @step behind u v cost weight walk along ih =>
    obtain ⟨shorter, cheaper, walk', less, nodup⟩ := ih
    have longer : Walk edge source (u :: shorter) v (cheaper + weight) := walk'.step along
    have most : cheaper + weight ≤ cost + weight := Nat.add_le_add_right less weight
    by_cases again : v ∈ u :: shorter
    · obtain ⟨earlier, cheapest, loopless, least, suffix⟩ := longer.cut again
      exact ⟨earlier, cheapest, loopless, Nat.le_trans least most, nodup.sublist suffix.sublist⟩
    · exact ⟨u :: shorter, cheaper + weight, longer, most, List.nodup_cons.mpr ⟨again, nodup⟩⟩

theorem exists_short_walk [Fintype V] (walk : cost ∈ costs edge source v) :
    ∃ shorter cheaper, Walk edge source shorter v cheaper ∧ cheaper ≤ cost ∧ shorter.length < Fintype.card V := by
  obtain ⟨behind, walk⟩ := walk
  obtain ⟨shorter, cheaper, walk', less, nodup⟩ := walk.simple
  exact ⟨shorter, cheaper, walk', less, nodup.length_le_card⟩

end Simple

section Settling

/-- The state of a search with labels up to a limit: the settled vertices are labelled with less, nothing that is
open has a smaller label, and what the edges from the settled ones offer is taken. -/
structure Settled (edge : V → V → Nat → Prop) (source : V) (limit : Nat) (settled : Set V) (label : V → Nat)
    (previous : V → Option V) : Prop where
  start : label source = 0
  root : previous source = none
  bounded : ∀ v, label v ≤ limit
  attained : ∀ v, label v < limit → label v ∈ costs edge source v
  reached : ∀ v ∈ settled, label v < limit
  ordered : ∀ u ∈ settled, ∀ v ∉ settled, label u ≤ label v
  relaxed : ∀ u ∈ settled, ∀ v weight, edge u v weight → label v ≤ label u + weight
  linked : ∀ v, label v < limit → v ≠ source →
    ∃ u ∈ settled, ∃ weight, previous v = some u ∧ edge u v weight ∧ label v = label u + weight
  traced : ∀ v ∈ settled, Traces edge previous source v (label v)

/-- What a vertex offers its neighbours: each takes it if it is less than it has. -/
structure Relaxes (edge : V → V → Nat → Prop) (u : V) (label : V → Nat) (previous : V → Option V) (label' : V → Nat)
    (previous' : V → Option V) : Prop where
  covers : ∀ v weight, edge u v weight → label' v ≤ label u + weight
  outcome : ∀ v, (label' v = label v ∧ previous' v = previous v) ∨
    ∃ weight, edge u v weight ∧ label u + weight < label v ∧ label' v = label u + weight ∧ previous' v = some u

variable {limit : Nat} {settled : Set V} {label label' : V → Nat} {previous previous' : V → Option V}

theorem settled_start [DecidableEq V] (edge : V → V → Nat → Prop) (source : V) (limit : Nat) :
    Settled edge source limit ∅ (fun v => if v = source then 0 else limit) (fun _ => none) where
  start := if_pos rfl
  root := rfl
  bounded v := by split <;> omega
  attained v less := by
    by_cases here : v = source
    · rw [if_pos here, here]
      exact source_mem_costs
    · rw [if_neg here] at less
      exact absurd less (Nat.lt_irrefl limit)
  reached _ none := none.elim
  ordered _ none := none.elim
  relaxed _ none := none.elim
  linked v less other := by
    rw [if_neg other] at less
    exact absurd less (Nat.lt_irrefl limit)
  traced _ none := none.elim

/-- A way back that stays among settled vertices does not depend on the links of the others. -/
theorem Traces.congr (traces : Traces edge previous source v cost) (inside : v ∈ settled)
    (closed : ∀ x ∈ settled, ∀ u, previous x = some u → u ∈ settled)
    (same : ∀ x ∈ settled, previous' x = previous x) : Traces edge previous' source v cost := by
  induction traces with
  | source => exact .source
  | @back u v cost weight earlier before along ih =>
    exact .back (ih (closed v inside u before)) ((same v inside).trans before) along

section Relaxes

variable {first second : V → V → Nat → Prop} {label'' : V → Nat} {previous'' : V → Option V}

theorem Relaxes.less (relaxes : Relaxes edge u label previous label' previous') (v : V) : label' v ≤ label v := by
  rcases relaxes.outcome v with ⟨same, _⟩ | ⟨weight, _, less, equal, _⟩ <;> omega

theorem Relaxes.own (relaxes : Relaxes edge u label previous label' previous') : label' u = label u := by
  rcases relaxes.outcome u with ⟨same, _⟩ | ⟨weight, _, less, _⟩ <;> omega

/-- The offers of a vertex can be made one after the other. -/
theorem Relaxes.trans (one : Relaxes first u label previous label' previous')
    (other : Relaxes second u label' previous' label'' previous'')
    (both : ∀ v weight, edge u v weight ↔ first u v weight ∨ second u v weight) :
    Relaxes edge u label previous label'' previous'' where
  covers v weight along := by
    rcases (both v weight).mp along with offered | offered
    · exact Nat.le_trans (other.less v) (one.covers v weight offered)
    · exact one.own ▸ other.covers v weight offered
  outcome v := by
    rcases other.outcome v with ⟨same, before⟩ | ⟨weight, offered, better, equal, before⟩
    · rcases one.outcome v with ⟨same', before'⟩ | ⟨weight, offered, better, equal, before'⟩
      · exact .inl ⟨same.trans same', before.trans before'⟩
      · exact .inr ⟨weight, (both v weight).mpr (.inl offered), better, same.trans equal, before.trans before'⟩
    · have own := one.own
      have less := one.less v
      exact .inr ⟨weight, (both v weight).mpr (.inr offered), by omega, by omega, before⟩

end Relaxes

variable (invariant : Settled edge source limit settled label previous)

include invariant

theorem Settled.closed (inside : v ∈ settled) (before : previous v = some u) : u ∈ settled := by
  have other : v ≠ source := by
    rintro rfl
    rw [invariant.root] at before
    cases before
  obtain ⟨x, settled', _, before', _⟩ := invariant.linked v (invariant.reached v inside) other
  exact Option.some.inj (before'.symm.trans before) ▸ settled'

/-- A settled label is not above the cost of any walk, and some open label is not above that of a walk to an open
vertex. -/
theorem Settled.le_cost (walk : Walk edge source behind v cost) :
    (v ∈ settled → label v ≤ cost) ∧ (v ∉ settled → ∃ x ∉ settled, label x ≤ cost) := by
  induction walk with
  | here =>
    have zero := invariant.start
    exact ⟨fun _ => Nat.le_of_eq zero, fun fresh => ⟨source, fresh, Nat.le_of_eq zero⟩⟩
  | @step behind u v cost weight walk along ih =>
    by_cases before : u ∈ settled
    · have offered := invariant.relaxed u before v weight along
      have least : label v ≤ cost + weight := Nat.le_trans offered (Nat.add_le_add_right (ih.1 before) weight)
      exact ⟨fun _ => least, fun fresh => ⟨v, fresh, least⟩⟩
    · obtain ⟨x, fresh, least⟩ := ih.2 before
      have most : label x ≤ cost + weight := Nat.le_add_right_of_le least
      exact ⟨fun inside => Nat.le_trans (invariant.ordered v inside x fresh) most, fun _ => ⟨x, fresh, most⟩⟩

/-- Once nothing open is labelled below the limit, no walk costs less than the label. -/
theorem Settled.le_of_done (done : ∀ v ∉ settled, label v = limit) (walk : cost ∈ costs edge source v) :
    label v ≤ cost := by
  obtain ⟨behind, walk⟩ := walk
  by_cases inside : v ∈ settled
  · exact (invariant.le_cost walk).1 inside
  · obtain ⟨x, fresh, least⟩ := (invariant.le_cost walk).2 inside
    rw [done v inside, ← done x fresh]
    exact least

theorem Settled.isLeast_label (done : ∀ v ∉ settled, label v = limit) (short : label v < limit) :
    IsLeast (costs edge source v) (label v) :=
  ⟨invariant.attained v short, fun _ walk => invariant.le_of_done done walk⟩

/-- What is settled already, or is settled now, takes no offer. -/
theorem Settled.kept (least : ∀ v ∉ settled, label u ≤ label v) (fresh : u ∉ settled)
    (relaxes : Relaxes edge u label previous label' previous') (inside : v ∈ insert u settled) :
    label' v = label v ∧ previous' v = previous v := by
  have below : label v ≤ label u := by
    rcases Set.mem_insert_iff.mp inside with rfl | before
    · exact Nat.le_refl _
    · exact invariant.ordered v before u fresh
  rcases relaxes.outcome v with same | ⟨weight, _, less, _⟩
  · exact same
  · omega

/-- The open vertex with the smallest label can be settled. -/
theorem Settled.settle (fresh : u ∉ settled) (reach : label u < limit) (least : ∀ v ∉ settled, label u ≤ label v)
    (relaxes : Relaxes edge u label previous label' previous') :
    Settled edge source limit (insert u settled) label' previous' := by
  have kept : ∀ v ∈ insert u settled, label' v = label v ∧ previous' v = previous v :=
    fun v inside => invariant.kept least fresh relaxes inside
  have less : ∀ v, label' v ≤ label v := relaxes.less
  have own := (kept u (Set.mem_insert u settled)).1
  have sourceKept : label' source = label source ∧ previous' source = previous source := by
    rcases relaxes.outcome source with same | ⟨weight, _, less, _⟩
    · exact same
    · have zero := invariant.start
      omega
  have links : ∀ v, label' v < limit → v ≠ source → ∃ x ∈ insert u settled, ∃ weight,
      previous' v = some x ∧ edge x v weight ∧ label' v = label' x + weight := by
    intro v short other
    rcases relaxes.outcome v with ⟨same, before⟩ | ⟨weight, along, _, equal, before⟩
    · obtain ⟨x, inside, weight, link, along, sum⟩ := invariant.linked v (same ▸ short) other
      have further := Set.mem_insert_of_mem u inside
      exact ⟨x, further, weight, before.trans link, along, by rw [same, sum, (kept x further).1]⟩
    · exact ⟨u, Set.mem_insert u settled, weight, before, along, by rw [equal, own]⟩
  have traces : ∀ v ∈ settled, Traces edge previous' source v (label v) := fun v inside =>
    (invariant.traced v inside).congr inside (fun x inside y before => invariant.closed inside before)
      fun x inside => (kept x (Set.mem_insert_of_mem u inside)).2
  refine ⟨sourceKept.1.trans invariant.start, sourceKept.2.trans invariant.root, ?_, ?_, ?_, ?_, ?_, links, ?_⟩
  · exact fun v => Nat.le_trans (less v) (invariant.bounded v)
  · intro v short
    rcases relaxes.outcome v with ⟨same, _⟩ | ⟨weight, along, _, equal, _⟩
    · exact same ▸ invariant.attained v (same ▸ short)
    · exact equal ▸ step_mem_costs (invariant.attained u reach) along
  · intro v inside
    rw [(kept v inside).1]
    rcases Set.mem_insert_iff.mp inside with rfl | before
    · exact reach
    · exact invariant.reached v before
  · intro x inside v outside
    have notBefore : v ∉ settled := fun before => outside (Set.mem_insert_of_mem u before)
    have first : label' x ≤ label u := by
      rw [(kept x inside).1]
      rcases Set.mem_insert_iff.mp inside with rfl | before
      · exact Nat.le_refl _
      · exact invariant.ordered x before u fresh
    have second := least v notBefore
    rcases relaxes.outcome v with same | ⟨weight, _, _, equal, _⟩ <;> omega
  · intro x inside v weight along
    rw [(kept x inside).1]
    rcases Set.mem_insert_iff.mp inside with rfl | before
    · exact relaxes.covers v weight along
    · exact Nat.le_trans (less v) (invariant.relaxed x before v weight along)
  · intro v inside
    rw [(kept v inside).1]
    rcases Set.mem_insert_iff.mp inside with rfl | before
    · by_cases root : v = source
      · rw [root, invariant.start]
        exact .source
      · obtain ⟨x, before, weight, link, along, sum⟩ := invariant.linked v reach root
        rw [sum]
        exact .back (traces x before) ((kept v inside).2.trans link) along
    · exact traces v before

end Settling

section Rounds

/-- Labels that count up to a saturation value, below the limit only where a walk leads, and there not below its
saturated cost. -/
structure Estimates (edge : V → V → Nat → Prop) (source : V) (limit saturation : Nat) (label : V → Nat) : Prop where
  start : label source = 0
  saturated : ∀ v, label v < limit → label v ≤ saturation
  sound : ∀ v, label v < limit → ∃ cost ∈ costs edge source v, min cost saturation ≤ label v

/-- The labels count the walks of so many edges. -/
def Covers (edge : V → V → Nat → Prop) (source : V) (limit saturation k : Nat) (label : V → Nat) : Prop :=
  ∀ behind v cost, Walk edge source behind v cost → behind.length ≤ k → cost < limit → label v ≤ min cost saturation

/-- What a round over all edges does to the labels: each edge offers at least what it could at the start. -/
structure Round (edge : V → V → Nat → Prop) (limit saturation : Nat) (label label' : V → Nat) : Prop where
  less : ∀ v, label' v ≤ label v
  offers : ∀ u v weight, edge u v weight → label u + weight < limit → label' v ≤ min (label u + weight) saturation

variable {limit saturation k : Nat} {label label' : V → Nat}

theorem estimates_start [DecidableEq V] (edge : V → V → Nat → Prop) (source : V) (limit saturation : Nat) :
    Estimates edge source limit saturation fun v => if v = source then 0 else limit where
  start := if_pos rfl
  saturated v known := by
    by_cases here : v = source
    · rw [if_pos here]
      exact Nat.zero_le _
    · rw [if_neg here] at known
      exact absurd known (Nat.lt_irrefl limit)
  sound v known := by
    by_cases here : v = source
    · exact ⟨0, here ▸ source_mem_costs, by rw [Nat.zero_min]; exact Nat.zero_le _⟩
    · rw [if_neg here] at known
      exact absurd known (Nat.lt_irrefl limit)

theorem Estimates.relax [DecidableEq V] (estimates : Estimates edge source limit saturation label)
    (along : edge u v weight) (known : label u < limit) (better : label u + weight < label v) :
    Estimates edge source limit saturation (Function.update label v (min (label u + weight) saturation)) where
  start := by
    have other : source ≠ v := by
      rintro rfl
      rw [estimates.start] at better
      omega
    rw [Function.update_of_ne other, estimates.start]
  saturated x short := by
    by_cases here : x = v
    · rw [here, Function.update_self]
      exact Nat.min_le_right _ _
    · rw [Function.update_of_ne here] at short ⊢
      exact estimates.saturated x short
  sound x short := by
    by_cases here : x = v
    · obtain ⟨cost, walk, least⟩ := estimates.sound u known
      rw [here, Function.update_self]
      exact ⟨cost + weight, step_mem_costs walk along, by omega⟩
    · rw [Function.update_of_ne here] at short ⊢
      exact estimates.sound x short

theorem covers_zero (start : label source = 0) : Covers edge source limit saturation 0 label := by
  intro behind v cost walk short _
  cases walk with
  | here =>
    rw [start]
    exact Nat.zero_le _
  | step walk along => cases short

/-- The edges can be gone over one part after the other. -/
theorem Round.trans {first second : V → V → Nat → Prop} {label'' : V → Nat}
    (one : Round first limit saturation label label') (other : Round second limit saturation label' label'')
    (parts : ∀ u v weight, edge u v weight → first u v weight ∨ second u v weight) :
    Round edge limit saturation label label'' where
  less v := Nat.le_trans (other.less v) (one.less v)
  offers u v weight along below := by
    rcases parts u v weight along with early | late
    · exact Nat.le_trans (other.less v) (one.offers u v weight early below)
    · have fallen := one.less u
      have offer := other.offers u v weight late (by omega)
      omega

/-- A round makes the walks with one more edge count. -/
theorem Covers.round (covers : Covers edge source limit saturation k label)
    (round : Round edge limit saturation label label') : Covers edge source limit saturation (k + 1) label' := by
  intro behind v cost walk short below
  cases walk with
  | here => exact Nat.le_trans (round.less source) (covers [] source 0 .here (Nat.zero_le k) below)
  | @step behind u _ cost weight walk along =>
    have before := covers behind u cost walk (Nat.le_of_succ_le_succ short)
      (Nat.lt_of_le_of_lt (Nat.le_add_right _ _) below)
    have offer := round.offers u v weight along (by omega)
    omega

/-- Labels that a round leaves as they are count all walks. -/
theorem covers_of_fixed (start : label source = 0) (fixed : Round edge limit saturation label label) (k : Nat) :
    Covers edge source limit saturation k label := by
  induction k with
  | zero => exact covers_zero start
  | succ k ih => exact ih.round fixed

/-- Labels that count the walks without loops are exact up to the saturation. -/
theorem Estimates.exact [Fintype V] (estimates : Estimates edge source limit saturation label)
    (covers : Covers edge source limit saturation (Fintype.card V - 1) label) {distance : Nat}
    (least : IsLeast (costs edge source v) distance) (below : distance < limit) :
    label v = min distance saturation := by
  obtain ⟨shorter, cheaper, walk, less, short⟩ := exists_short_walk least.1
  have same : cheaper = distance := Nat.le_antisymm less (least.2 ⟨shorter, walk⟩)
  have above := covers shorter v cheaper walk (Nat.le_sub_one_of_lt short) (same ▸ below)
  obtain ⟨cost, walk', sound⟩ := estimates.sound v (by omega)
  have further := least.2 walk'
  omega

theorem Estimates.unreached (estimates : Estimates edge source limit saturation label)
    (nowhere : costs edge source v = ∅) : limit ≤ label v := by
  by_contra known
  obtain ⟨cost, walk, _⟩ := estimates.sound v (Nat.not_le.mp known)
  rw [nowhere] at walk
  exact walk

end Rounds

end MiniNetDist.Library.ShortestPath
