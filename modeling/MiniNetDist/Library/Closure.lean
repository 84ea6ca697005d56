import Mathlib.Data.List.ProdSigma
import Mathlib.Logic.Relation

/-! Paths and cycles of a directed graph: what edges into one vertex add to them, and the Floyd-Warshall transitive
closure as a triple loop that updates one matrix in place. -/

namespace MiniNetDist.Library.Closure

variable {Vertex : Type*}

section Cycles

variable {edge extended : Vertex → Vertex → Prop} {sources : Vertex → Prop} {target : Vertex}

def Cyclic (edge : Vertex → Vertex → Prop) : Prop := ∃ vertex, Relation.TransGen edge vertex vertex

theorem Cyclic.mono (cyclic : Cyclic edge) (more : ∀ a b, edge a b → extended a b) : Cyclic extended := by
  obtain ⟨vertex, cycle⟩ := cyclic
  exact ⟨vertex, Relation.TransGen.mono more _ _ cycle⟩

/-- A path that uses new edges follows old ones up to the first of these, and again from the target on. -/
theorem path_extended (new : ∀ a b, extended a b → edge a b ∨ (sources a ∧ b = target)) {a b : Vertex}
    (path : Relation.TransGen extended a b) :
    Relation.TransGen edge a b ∨
      (∃ source, sources source ∧ Relation.ReflTransGen edge a source) ∧ Relation.ReflTransGen edge target b := by
  induction path with
  | single last =>
    rcases new _ _ last with old | ⟨source, rfl⟩
    · exact .inl (.single old)
    · exact .inr ⟨⟨a, source, .refl⟩, .refl⟩
  | tail _ last ih =>
    rcases new _ _ last with old | ⟨source, rfl⟩
    · rcases ih with before | ⟨toSource, fromTarget⟩
      · exact .inl (before.tail old)
      · exact .inr ⟨toSource, fromTarget.tail old⟩
    · rcases ih with before | ⟨toSource, -⟩
      · exact .inr ⟨⟨_, source, before.to_reflTransGen⟩, .refl⟩
      · exact .inr ⟨toSource, .refl⟩

/-- New edges into one vertex close a cycle just when it leads to one of their sources. -/
theorem cyclic_extended_iff (new : ∀ a b, extended a b ↔ edge a b ∨ (sources a ∧ b = target)) :
    Cyclic extended ↔ Cyclic edge ∨ ∃ source, sources source ∧ Relation.ReflTransGen edge target source := by
  have more : ∀ a b, edge a b → extended a b := fun a b old => (new a b).mpr (.inl old)
  constructor
  · rintro ⟨vertex, cycle⟩
    rcases path_extended (fun a b => (new a b).mp) cycle with old | ⟨⟨source, listed, onward⟩, back⟩
    · exact .inl ⟨vertex, old⟩
    · exact .inr ⟨source, listed, back.trans onward⟩
  · rintro (old | ⟨source, listed, leads⟩)
    · exact old.mono more
    · have closing : extended source target := (new source target).mpr (.inr ⟨listed, rfl⟩)
      exact ⟨target, Relation.TransGen.tail' (Relation.ReflTransGen.mono more _ _ leads) closing⟩

end Cycles

variable [DecidableEq Vertex]

/-- One update of the matrix. -/
def relax (k : Vertex) (graph : Vertex → Vertex → Bool) (entry : Vertex × Vertex) : Vertex → Vertex → Bool :=
  if graph entry.1 k && graph k entry.2 then
    fun a b => if a = entry.1 ∧ b = entry.2 then true else graph a b
  else graph

/-- The two inner loops, for one intermediate vertex. -/
def phase (vertices : List Vertex) (graph : Vertex → Vertex → Bool) (k : Vertex) : Vertex → Vertex → Bool :=
  (vertices ×ˢ vertices).foldl (relax k) graph

def floydWarshall (vertices : List Vertex) (graph : Vertex → Vertex → Bool) : Vertex → Vertex → Bool :=
  vertices.foldl (phase vertices) graph

/-- The edges between listed vertices. -/
def Edge (vertices : List Vertex) (graph : Vertex → Vertex → Bool) (a b : Vertex) : Prop :=
  a ∈ vertices ∧ b ∈ vertices ∧ graph a b = true

variable {vertices : List Vertex} {graph current : Vertex → Vertex → Bool} {a b k : Vertex}

theorem relax_iff (entry : Vertex × Vertex) : relax k current entry a b = true ↔
    current a b = true ∨ ((a, b) = entry ∧ current a k = true ∧ current k b = true) := by
  unfold relax
  split_ifs with through
  · rw [Bool.and_eq_true] at through
    by_cases here : a = entry.1 ∧ b = entry.2
    · obtain ⟨rfl, rfl⟩ := here
      simp [through]
    · have elsewhere : (a, b) ≠ entry := fun same => here ⟨congrArg Prod.fst same, congrArg Prod.snd same⟩
      simp [here, elsewhere]
  · constructor
    · exact .inl
    · rintro (old | ⟨rfl, first, second⟩)
      · exact old
      · exact absurd (Bool.and_eq_true_iff.mpr ⟨first, second⟩) through

/-- The row and the column of `k` stay as they are while entries are updated through `k`, so
the order of the updates does not matter. -/
theorem relaxAll_iff (entries : List (Vertex × Vertex)) :
    entries.foldl (relax k) current a b = true ↔
      current a b = true ∨ ((a, b) ∈ entries ∧ current a k = true ∧ current k b = true) := by
  induction entries generalizing current with
  | nil => simp
  | cons entry rest ih =>
    have column : relax k current entry a k = true ↔ current a k = true := by
      rw [relax_iff]
      tauto
    have row : relax k current entry k b = true ↔ current k b = true := by
      rw [relax_iff]
      tauto
    rw [List.foldl_cons, ih, column, row, relax_iff, List.mem_cons]
    tauto

theorem phase_iff : phase vertices current k a b = true ↔
    current a b = true ∨ (a ∈ vertices ∧ b ∈ vertices ∧ current a k = true ∧ current k b = true) := by
  rw [phase, relaxAll_iff, List.mem_product, and_assoc]

/-- What holds after the vertices in `done` have served as intermediate ones. -/
structure Closed (vertices : List Vertex) (graph : Vertex → Vertex → Bool) (done : List Vertex)
    (current : Vertex → Vertex → Bool) : Prop where
  edges : ∀ a b, Edge vertices graph a b → current a b = true
  paths : ∀ a ∈ vertices, ∀ b ∈ vertices, current a b = true → Relation.TransGen (Edge vertices graph) a b
  through : ∀ k ∈ done, ∀ a ∈ vertices, ∀ b ∈ vertices, current a k = true → current k b = true →
    current a b = true

omit [DecidableEq Vertex] in
theorem Closed.init : Closed vertices graph [] graph :=
  ⟨fun _ _ edge => edge.2.2, fun _ first _ second edge => .single ⟨first, second, edge⟩,
    fun _ none => absurd none List.not_mem_nil⟩

theorem Closed.phase {done : List Vertex} (closed : Closed vertices graph done current) (inside : k ∈ vertices)
    (earlier : ∀ other ∈ done, other ∈ vertices) :
    Closed vertices graph (k :: done) (phase vertices current k) := by
  refine ⟨?_, ?_, ?_⟩
  · intro a b edge
    exact phase_iff.mpr (.inl (closed.edges a b edge))
  · intro a first b second connected
    rcases phase_iff.mp connected with old | ⟨-, -, into, out⟩
    · exact closed.paths a first b second old
    · exact (closed.paths a first k inside into).trans (closed.paths k inside b second out)
  · intro via listed a first b second into out
    rw [phase_iff] at into out ⊢
    rcases List.mem_cons.mp listed with rfl | before
    · right
      exact ⟨first, second, into.elim id (·.2.2.1), out.elim id (·.2.2.2)⟩
    · have middle := earlier via before
      -- a way through `via` that also uses `k` shortens to one through `k` alone
      rcases into with into | ⟨-, -, toward, away⟩
      · rcases out with out | ⟨-, -, toward, away⟩
        · exact .inl (closed.through via before a first b second into out)
        · exact .inr ⟨first, second, closed.through via before a first k inside into toward, away⟩
      · rcases out with out | ⟨-, -, -, away'⟩
        · exact .inr ⟨first, second, toward, closed.through via before k inside b second away out⟩
        · exact .inr ⟨first, second, toward, away'⟩

end MiniNetDist.Library.Closure
