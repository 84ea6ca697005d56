import Mathlib.Data.List.Basic
import Mathlib.Data.Finset.Card
import Mathlib.Data.Finset.Filter
import Mathlib.Data.List.Count
import Mathlib.Logic.Function.Basic
import Mathlib.Logic.Relation

/-! Depth-first search for a cycle, with one mark for visited vertices and one for those on the stack.
The slots of a vertex hold its successors and may end in slots that hold anything; reading one that
leads to no vertex is a fault. The search is exact if and only if it never reads past the successors. -/

namespace MiniNetDist.Library.DepthFirst

variable {V : Type*}

inductive Fault where
  | outOfBounds
  | outOfFuel
  deriving DecidableEq, Repr

structure Marks (V : Type*) where
  visited : V → Bool
  onStack : V → Bool

namespace Marks

def blank : Marks V := ⟨fun _ => false, fun _ => false⟩

def enter [DecidableEq V] (marks : Marks V) (node : V) : Marks V :=
  ⟨Function.update marks.visited node true, Function.update marks.onStack node true⟩

def leave [DecidableEq V] (marks : Marks V) (node : V) : Marks V :=
  { marks with onStack := Function.update marks.onStack node false }

end Marks

abbrev Result (V : Type*) := Except Fault (Bool × Marks V)

/-- Go on unless a cycle was found or the search failed. -/
def unlessFound (result : Result V) (next : Marks V → Result V) : Result V :=
  match result with
  | .ok (false, marks) => next marks
  | .ok (true, marks) => .ok (true, marks)
  | .error fault => .error fault

/-- The loop over the slots of one vertex. -/
def scan (visit : V → Marks V → Result V) : List (Option V) → Marks V → Result V
  | [], marks => .ok (false, marks)
  | none :: _, _ => .error .outOfBounds
  | some neighbor :: rest, marks =>
    if !marks.visited neighbor then unlessFound (visit neighbor marks) (scan visit rest)
    else if marks.onStack neighbor then .ok (true, marks)
    else scan visit rest marks

def search [DecidableEq V] (slots : V → List (Option V)) : Nat → V → Marks V → Result V
  | 0, _, _ => .error .outOfFuel
  | fuel + 1, node, marks =>
    unlessFound (scan (search slots fuel) (slots node) (marks.enter node)) fun marks => .ok (false, marks.leave node)

/-- The loop over the roots. -/
def sweep (visit : V → Marks V → Result V) : List V → Marks V → Result V
  | [], marks => .ok (false, marks)
  | root :: rest, marks =>
    if !marks.visited root then unlessFound (visit root marks) (sweep visit rest) else sweep visit rest marks

theorem unlessFound_ok {result : Result V} {next : Marks V → Result V} {found : Bool} {marks : Marks V}
    (ended : unlessFound result next = .ok (found, marks)) :
    (found = true ∧ result = .ok (true, marks)) ∨
      ∃ middle, result = .ok (false, middle) ∧ next middle = .ok (found, marks) := by
  match result, ended with
  | .ok (false, middle), ended => exact .inr ⟨middle, rfl, ended⟩
  | .ok (true, middle), ended =>
    cases ended
    exact .inl ⟨rfl, rfl⟩

section Graph

variable (successors : V → List V) (loose : V → Prop)

def Edge (v w : V) : Prop := w ∈ successors v

/-- No cycle and no loose vertex can be reached. -/
def Clear (v : V) : Prop :=
  ∀ w, Relation.ReflTransGen (Edge successors) v w → ¬ Relation.TransGen (Edge successors) w w ∧ ¬ loose w

/-- The walk that has come along `path` goes on from `v` and meets itself. On its way it passes over
clear vertices only. -/
inductive Lasso : List V → V → Prop where
  | closes {path passed rest : List V} {v w : V} (order : successors v = passed ++ w :: rest)
      (clear : ∀ u ∈ passed, Clear successors loose u) (met : w ∈ v :: path) : Lasso path v
  | goesOn {path passed rest : List V} {v w : V} (order : successors v = passed ++ w :: rest)
      (clear : ∀ u ∈ passed, Clear successors loose u) (onward : Lasso (v :: path) w) : Lasso path v

variable {successors} {loose} {v w : V} {path : List V}

theorem clear_iff : Clear successors loose v ↔ ¬ loose v ∧ ∀ w ∈ successors v, Clear successors loose w := by
  constructor
  · intro clear
    refine ⟨(clear v .refl).2, ?_⟩
    intro w next x reached
    exact clear x (.head next reached)
  · rintro ⟨tight, later⟩ x reached
    rcases Relation.ReflTransGen.cases_head reached with rfl | ⟨w, next, onward⟩
    · refine ⟨?_, tight⟩
      intro cycle
      obtain ⟨w, next, back⟩ := Relation.TransGen.head'_iff.mp cycle
      exact (later w next _ back).1 cycle
    · exact later w next x onward

/-- An edge back to where the walk has been closes a cycle. -/
theorem not_clear_of_back (reached : Relation.ReflTransGen (Edge successors) w v) (edge : Edge successors v w) :
    ¬ Clear successors loose w ∧ ¬ Clear successors loose v := by
  have cycle : Relation.TransGen (Edge successors) w w := .tail' reached edge
  exact ⟨fun clear => (clear w .refl).1 cycle, fun clear => (clear w (.single edge)).1 cycle⟩

theorem Lasso.inv (lasso : Lasso successors loose path v) :
    ∃ passed w rest, successors v = passed ++ w :: rest ∧ (∀ u ∈ passed, Clear successors loose u) ∧
      (w ∈ v :: path ∨ Lasso successors loose (v :: path) w) := by
  cases lasso with
  | closes order clear met => exact ⟨_, _, _, order, clear, .inl met⟩
  | goesOn order clear onward => exact ⟨_, _, _, order, clear, .inr onward⟩

theorem reaches_cons (along : ∀ u ∈ path, Relation.ReflTransGen (Edge successors) u v) :
    ∀ u ∈ v :: path, Relation.ReflTransGen (Edge successors) u v := by
  intro u inside
  rcases List.mem_cons.mp inside with rfl | earlier
  · exact .refl
  · exact along u earlier

theorem reaches_tail (along : ∀ u ∈ path, Relation.ReflTransGen (Edge successors) u v)
    (edge : Edge successors v w) : ∀ u ∈ path, Relation.ReflTransGen (Edge successors) u w :=
  fun u inside => (along u inside).tail edge

theorem Lasso.cyclic (lasso : Lasso successors loose path v)
    (along : ∀ u ∈ path, Relation.ReflTransGen (Edge successors) u v) :
    ∃ w, Relation.ReflTransGen (Edge successors) v w ∧ Relation.TransGen (Edge successors) w w := by
  induction lasso with
  | @closes path passed rest v w order _ met =>
    have edge : Edge successors v w := by simp [Edge, order]
    exact ⟨v, .refl, .head' edge (reaches_cons along w met)⟩
  | @goesOn path passed rest v w order _ _ ih =>
    have edge : Edge successors v w := by simp [Edge, order]
    obtain ⟨x, reached, cycle⟩ := ih (reaches_tail (reaches_cons along) edge)
    exact ⟨x, .head edge reached, cycle⟩

end Graph

section Search

variable {successors : V → List V} {loose : V → Prop} {junk : V → List (Option V)} {marks later : Marks V}
  {path : List V} {v : V} {fuel : Nat} {found : Bool}

/-- The slots of a vertex: its successors, then whatever follows. -/
def slotsOf (successors : V → List V) (junk : V → List (Option V)) (v : V) : List (Option V) :=
  (successors v).map some ++ junk v

/-- Between calls: vertices that are done are clear, and the stack is the path. -/
structure Tidy (successors : V → List V) (loose : V → Prop) (path : List V) (marks : Marks V) : Prop where
  stack : ∀ v, marks.onStack v = true ↔ v ∈ path
  stacked : ∀ v ∈ path, marks.visited v = true
  done : ∀ v, marks.visited v = true → v ∉ path → Clear successors loose v

theorem Tidy.blank : Tidy successors loose [] (Marks.blank : Marks V) := by
  refine ⟨?_, ?_, ?_⟩
  · intro v
    simp [Marks.blank]
  · intro v none
    cases none
  · intro v visited
    cases visited

theorem Tidy.enter [DecidableEq V] (tidy : Tidy successors loose path marks) :
    Tidy successors loose (v :: path) (marks.enter v) := by
  refine ⟨?_, ?_, ?_⟩
  · intro w
    by_cases same : w = v
    · simp [Marks.enter, same]
    · simp [Marks.enter, same, tidy.stack w]
  · intro w inside
    by_cases same : w = v
    · simp [Marks.enter, same]
    · have earlier : w ∈ path := by simpa [same] using inside
      simp [Marks.enter, same, tidy.stacked w earlier]
  · intro w visited outside
    rw [List.mem_cons, not_or] at outside
    have before : marks.visited w = true := by simpa [Marks.enter, outside.1] using visited
    exact tidy.done w before outside.2

theorem Tidy.leave [DecidableEq V] (tidy : Tidy successors loose (v :: path) marks) (fresh : v ∉ path)
    (clear : Clear successors loose v) : Tidy successors loose path (marks.leave v) := by
  refine ⟨?_, ?_, ?_⟩
  · intro w
    by_cases same : w = v
    · simp [Marks.leave, same, fresh]
    · simp [Marks.leave, same, tidy.stack w]
  · intro w inside
    exact tidy.stacked w (List.mem_cons_of_mem _ inside)
  · intro w visited outside
    by_cases same : w = v
    · rw [same]
      exact clear
    · exact tidy.done w visited (by simp [same, outside])

theorem Tidy.fresh_outside (tidy : Tidy successors loose path marks) (fresh : marks.visited v = false) : v ∉ path := by
  intro inside
  rw [tidy.stacked v inside] at fresh
  cases fresh

/-- What a vertex found along the way can be. -/
theorem Tidy.known (tidy : Tidy successors loose path marks) (v : V) :
    marks.visited v = false ∨ (marks.visited v = true ∧ marks.onStack v = true ∧ v ∈ path) ∨
      (marks.visited v = true ∧ marks.onStack v = false ∧ Clear successors loose v) := by
  cases visited : marks.visited v with
  | false => exact .inl rfl
  | true =>
    by_cases inside : v ∈ path
    · exact .inr (.inl ⟨rfl, (tidy.stack v).mpr inside, inside⟩)
    · have off : marks.onStack v = false := Bool.eq_false_iff.mpr fun on => inside ((tidy.stack v).mp on)
      exact .inr (.inr ⟨rfl, off, tidy.done v visited inside⟩)

/-- What a search that returns has established. -/
def Established (successors : V → List V) (loose : V → Prop) (path : List V) (v : V) (found : Bool)
    (later : Marks V) : Prop :=
  (found = true → Lasso successors loose path v) ∧
  (found = false → Clear successors loose v ∧ Tidy successors loose path later)

/-- Every slot after the successors leads nowhere. -/
def Dangling (loose : V → Prop) (junk : V → List (Option V)) : Prop :=
  ∀ v, (loose v → (junk v).head? = some none) ∧ (¬ loose v → junk v = [])

theorem scan_sound {visit : V → Marks V → Result V} (dangling : Dangling loose junk)
    (visits : ∀ w marks found later, Tidy successors loose (v :: path) marks → marks.visited w = false →
      visit w marks = .ok (found, later) → Established successors loose (v :: path) w found later)
    (passed : List V) {remaining : List V} (order : successors v = passed ++ remaining)
    (clear : ∀ u ∈ passed, Clear successors loose u) (tidy : Tidy successors loose (v :: path) marks)
    (found : Bool) (later : Marks V)
    (ended : scan visit (remaining.map some ++ junk v) marks = .ok (found, later)) :
    (found = true → Lasso successors loose path v) ∧
    (found = false → Clear successors loose v ∧ Tidy successors loose (v :: path) later) := by
  induction remaining generalizing passed marks with
  | nil =>
    -- past the successors there is nothing to read, or a slot that leads nowhere
    by_cases ragged : loose v
    · obtain ⟨rest, split⟩ := List.head?_eq_some_iff.mp ((dangling v).1 ragged)
      rw [List.map_nil, List.nil_append, split] at ended
      cases ended
    · rw [List.map_nil, List.nil_append, (dangling v).2 ragged] at ended
      cases ended
      refine ⟨nofun, fun _ => ⟨clear_iff.mpr ⟨ragged, ?_⟩, tidy⟩⟩
      rw [order, List.append_nil]
      exact clear
  | cons w remaining ih =>
    rw [List.map_cons, List.cons_append, scan] at ended
    have pass : ∀ {marks}, Clear successors loose w → Tidy successors loose (v :: path) marks →
        scan visit (remaining.map some ++ junk v) marks = .ok (found, later) →
        (found = true → Lasso successors loose path v) ∧
        (found = false → Clear successors loose v ∧ Tidy successors loose (v :: path) later) := by
      intro marks clearNext tidy
      refine ih (passed ++ [w]) ?_ ?_ tidy
      · rw [order, List.append_assoc, List.singleton_append]
      · intro u inside
        rcases List.mem_append.mp inside with earlier | here
        · exact clear u earlier
        · rw [List.mem_singleton.mp here]
          exact clearNext
    rcases tidy.known w with fresh | ⟨visited, on, inside⟩ | ⟨visited, off, clearNext⟩
    · simp only [fresh, Bool.not_false, if_true] at ended
      rcases unlessFound_ok ended with ⟨rfl, cycle⟩ | ⟨middle, none, onward⟩
      · refine ⟨fun _ => .goesOn order clear ?_, nofun⟩
        exact (visits w marks true later tidy fresh cycle).1 rfl
      · obtain ⟨clearNext, tidy⟩ := (visits w marks false middle tidy fresh none).2 rfl
        exact pass clearNext tidy onward
    · simp only [visited, on, Bool.not_true, Bool.false_eq_true, if_false, if_true] at ended
      cases ended
      exact ⟨fun _ => .closes order clear inside, nofun⟩
    · simp only [visited, off, Bool.not_true, Bool.false_eq_true, if_false] at ended
      exact pass clearNext tidy ended

theorem search_sound [DecidableEq V] (dangling : Dangling loose junk) (tidy : Tidy successors loose path marks)
    (fresh : marks.visited v = false) (ended : search (slotsOf successors junk) fuel v marks = .ok (found, later)) :
    Established successors loose path v found later := by
  induction fuel generalizing path v marks found later with
  | zero => cases ended
  | succ fuel ih =>
    have scanned := scan_sound dangling (fun w marks found later tidy fresh => ih tidy fresh) [] rfl nofun
      (tidy.enter (v := v))
    rcases unlessFound_ok ended with ⟨rfl, cycle⟩ | ⟨middle, none, left⟩
    · exact ⟨(scanned true later cycle).1, nofun⟩
    · obtain ⟨clear, after⟩ := (scanned false middle none).2 rfl
      cases left
      exact ⟨nofun, fun _ => ⟨clear, after.leave (tidy.fresh_outside fresh) clear⟩⟩

/-- A result that ends as expected, or for lack of fuel. -/
def Ends (expected : Bool) (good : Marks V → Prop) (result : Result V) : Prop :=
  result = .error .outOfFuel ∨ ∃ later, result = .ok (expected, later) ∧ good later

theorem scan_pass {visit : V → Marks V → Result V}
    (along : ∀ u ∈ v :: path, Relation.ReflTransGen (Edge successors) u v)
    (visits : ∀ w marks, Tidy successors loose (v :: path) marks → marks.visited w = false → Edge successors v w →
      Clear successors loose w → Ends false (Tidy successors loose (v :: path)) (visit w marks))
    (more : List (Option V)) (passed : List V) (next : ∀ u ∈ passed, Edge successors v u)
    (clear : ∀ u ∈ passed, Clear successors loose u) (tidy : Tidy successors loose (v :: path) marks) :
    scan visit (passed.map some ++ more) marks = .error .outOfFuel ∨
      ∃ later, Tidy successors loose (v :: path) later ∧
        scan visit (passed.map some ++ more) marks = scan visit more later := by
  induction passed generalizing marks with
  | nil => exact .inr ⟨marks, tidy, rfl⟩
  | cons w passed ih =>
    have edge := next w List.mem_cons_self
    have clearHere := clear w List.mem_cons_self
    have pass := fun marks => @ih marks (fun u inside => next u (List.mem_cons_of_mem _ inside))
      (fun u inside => clear u (List.mem_cons_of_mem _ inside))
    rw [List.map_cons, List.cons_append, scan]
    rcases tidy.known w with fresh | ⟨-, -, inside⟩ | ⟨visited, off, -⟩
    · simp only [fresh, Bool.not_false, if_true]
      rcases visits w marks tidy fresh edge clearHere with failed | ⟨later, none, tidy⟩
      · rw [failed]
        exact .inl rfl
      · rw [none]
        exact pass _ tidy
    · exact absurd clearHere (not_clear_of_back (along w inside) edge).1
    · simp only [visited, off, Bool.not_true, Bool.false_eq_true, if_false]
      exact pass _ tidy

/-- A clear vertex is searched without result. -/
theorem search_clear [DecidableEq V] (whole : ∀ v, ¬ loose v → junk v = []) (tidy : Tidy successors loose path marks)
    (fresh : marks.visited v = false) (along : ∀ u ∈ path, Relation.ReflTransGen (Edge successors) u v)
    (clear : Clear successors loose v) :
    Ends false (Tidy successors loose path) (search (slotsOf successors junk) fuel v marks) := by
  induction fuel generalizing path v marks with
  | zero => exact .inl rfl
  | succ fuel ih =>
    obtain ⟨tight, next⟩ := clear_iff.mp clear
    have here := reaches_cons along
    rw [search, slotsOf, whole v tight]
    rcases scan_pass here (fun w marks tidy fresh edge => ih tidy fresh (reaches_tail here edge)) []
        (successors v) (fun _ => id) next tidy.enter with failed | ⟨later, scanned, same⟩
    · rw [failed]
      exact .inl rfl
    · rw [same]
      exact .inr ⟨later.leave v, rfl, scanned.leave (tidy.fresh_outside fresh) clear⟩

/-- A walk that meets itself is found. -/
theorem search_lasso [DecidableEq V] (whole : ∀ v, ¬ loose v → junk v = []) (tidy : Tidy successors loose path marks)
    (along : ∀ u ∈ path, Relation.ReflTransGen (Edge successors) u v) (lasso : Lasso successors loose path v) :
    Ends true (fun _ => True) (search (slotsOf successors junk) fuel v marks) := by
  induction fuel generalizing path v marks with
  | zero => exact .inl rfl
  | succ fuel ih =>
    obtain ⟨passed, w, rest, order, clear, met⟩ := lasso.inv
    have edge : Edge successors v w := by simp [Edge, order]
    have here := reaches_cons along
    have slots : slotsOf successors junk v = passed.map some ++ (some w :: (rest.map some ++ junk v)) := by
      simp [slotsOf, order]
    rw [search, slots]
    rcases scan_pass here (fun w marks tidy fresh edge => search_clear whole tidy fresh (reaches_tail here edge))
        (some w :: (rest.map some ++ junk v)) passed (fun u inside => by simp [Edge, order, inside]) clear tidy.enter
      with failed | ⟨later, scanned, same⟩
    · rw [failed]
      exact .inl rfl
    · rw [same, scan]
      rcases scanned.known w with fresh | ⟨visited, on, -⟩ | ⟨visited, off, clearNext⟩
      · rcases met with earlier | onward
        · rw [scanned.stacked w earlier] at fresh
          cases fresh
        · simp only [fresh, Bool.not_false, if_true]
          rcases ih scanned (reaches_tail here edge) onward with failed | ⟨final, cycle, -⟩
          · rw [failed]
            exact .inl rfl
          · rw [cycle]
            exact .inr ⟨final, rfl, trivial⟩
      · simp only [visited, on, Bool.not_true, Bool.false_eq_true, if_false, if_true]
        exact .inr ⟨later, rfl, trivial⟩
      · -- what is done is clear, but the walk goes through here to a cycle
        rcases met with earlier | onward
        · exact absurd clearNext (not_clear_of_back (here w earlier) edge).1
        · obtain ⟨x, reached, cycle⟩ := onward.cyclic (reaches_tail here edge)
          exact absurd cycle (clearNext x reached).1

end Search

section Fuel

variable [DecidableEq V] {slots : V → List (Option V)} {vertices : List V} {marks : Marks V} {v : V} {fuel : Nat}

/-- How many vertices are still to be visited. -/
def unvisited (vertices : List V) (marks : Marks V) : Nat :=
  (vertices.toFinset.filter fun v => marks.visited v = false).card

theorem unvisited_le (vertices : List V) (marks : Marks V) : unvisited vertices marks ≤ vertices.length :=
  (Finset.card_filter_le _ _).trans vertices.toFinset_card_le

theorem unvisited_mono {later : Marks V} (grows : ∀ w, marks.visited w = true → later.visited w = true) :
    unvisited vertices later ≤ unvisited vertices marks := by
  apply Finset.card_le_card
  intro w inside
  rw [Finset.mem_filter] at inside ⊢
  refine ⟨inside.1, Bool.eq_false_iff.mpr ?_⟩
  intro visited
  rw [grows w visited] at inside
  cases inside.2

theorem unvisited_enter (known : v ∈ vertices) (fresh : marks.visited v = false) :
    unvisited vertices (marks.enter v) < unvisited vertices marks := by
  apply Finset.card_lt_card
  rw [Finset.ssubset_iff_of_subset]
  · refine ⟨v, ?_, ?_⟩
    · simp [known, fresh]
    · rw [Finset.mem_filter]
      rintro ⟨-, unseen⟩
      simp [Marks.enter] at unseen
  · intro w inside
    rw [Finset.mem_filter] at inside ⊢
    refine ⟨inside.1, ?_⟩
    by_cases same : w = v
    · rw [same]
      exact fresh
    · simpa [Marks.enter, same] using inside.2

/-- The search had fuel enough, and no vertex was forgotten. -/
def Fueled (marks : Marks V) : Result V → Prop
  | .error fault => fault ≠ .outOfFuel
  | .ok (_, later) => ∀ w, marks.visited w = true → later.visited w = true

omit [DecidableEq V] in
theorem Fueled.ofLater {middle : Marks V} {result : Result V} (fueled : Fueled middle result)
    (grows : ∀ w, marks.visited w = true → middle.visited w = true) : Fueled marks result := by
  match result, fueled with
  | .error _, fueled => exact fueled
  | .ok _, fueled => exact fun w visited => fueled w (grows w visited)

omit [DecidableEq V] in
theorem Fueled.unlessFound {result : Result V} {next : Marks V → Result V} (first : Fueled marks result)
    (second : ∀ middle, (∀ w, marks.visited w = true → middle.visited w = true) → Fueled middle (next middle)) :
    Fueled marks (unlessFound result next) := by
  match result, first with
  | .error _, first => exact first
  | .ok (true, _), first => exact first
  | .ok (false, middle), first => exact (second middle first).ofLater first

theorem scan_fueled {visit : V → Marks V → Result V}
    (visits : ∀ w ∈ vertices, ∀ marks, marks.visited w = false → unvisited vertices marks ≤ fuel →
      Fueled marks (visit w marks))
    {row : List (Option V)} (known : ∀ w, some w ∈ row → w ∈ vertices) (enough : unvisited vertices marks ≤ fuel) :
    Fueled marks (scan visit row marks) := by
  induction row generalizing marks with
  | nil => exact fun _ => id
  | cons slot rest ih =>
    have later := fun marks => @ih marks (fun w inside => known w (List.mem_cons_of_mem _ inside))
    cases slot with
    | none => exact nofun
    | some w =>
      rw [scan]
      split_ifs with fresh on
      · refine Fueled.unlessFound (visits w (known w List.mem_cons_self) marks (by simpa using fresh) enough) ?_
        intro middle grows
        exact later middle ((unvisited_mono grows).trans enough)
      · exact fun _ => id
      · exact later marks enough

theorem search_fueled (inside : ∀ v ∈ vertices, ∀ w, some w ∈ slots v → w ∈ vertices) (known : v ∈ vertices)
    (fresh : marks.visited v = false) (enough : unvisited vertices marks ≤ fuel) :
    Fueled marks (search slots fuel v marks) := by
  induction fuel generalizing v marks with
  | zero =>
    have fewer := unvisited_enter known fresh
    omega
  | succ fuel ih =>
    have fewer := unvisited_enter known fresh
    have scanned : Fueled (marks.enter v) (scan (search slots fuel) (slots v) (marks.enter v)) :=
      scan_fueled (fun w known marks fresh => ih known fresh) (inside v known) (by omega)
    refine Fueled.unlessFound (scanned.ofLater ?_) (fun _ _ _ => id)
    intro w visited
    by_cases same : w = v
    · simp [Marks.enter, same]
    · simp [Marks.enter, same, visited]

theorem sweep_fueled {roots : List V} (inside : ∀ v ∈ vertices, ∀ w, some w ∈ slots v → w ∈ vertices)
    (known : ∀ root ∈ roots, root ∈ vertices) (enough : unvisited vertices marks ≤ fuel) :
    Fueled marks (sweep (search slots fuel) roots marks) := by
  induction roots generalizing marks with
  | nil => exact fun _ => id
  | cons root rest ih =>
    have later := fun marks => @ih marks (fun root inside => known root (List.mem_cons_of_mem _ inside))
    rw [sweep]
    split_ifs with fresh
    · refine Fueled.unlessFound (search_fueled inside (known root List.mem_cons_self) (by simpa using fresh) enough) ?_
      intro middle grows
      exact later middle ((unvisited_mono grows).trans enough)
    · exact later marks enough

end Fuel

section Sweep

variable [DecidableEq V] {successors : V → List V} {loose : V → Prop} {junk : V → List (Option V)}
  {marks later : Marks V} {roots : List V} {fuel : Nat} {found : Bool}

/-- The roots are all clear, or a walk from the first that is not clear meets itself before a loose
vertex has been passed over. -/
def Surveyable (successors : V → List V) (loose : V → Prop) (roots : List V) : Prop :=
  (∀ root ∈ roots, Clear successors loose root) ∨
  ∃ passed root rest, roots = passed ++ root :: rest ∧ (∀ u ∈ passed, Clear successors loose u) ∧
    Lasso successors loose [] root

theorem sweep_sound (dangling : Dangling loose junk) (tidy : Tidy successors loose [] marks)
    (ended : sweep (search (slotsOf successors junk) fuel) roots marks = .ok (found, later)) :
    Surveyable successors loose roots := by
  induction roots generalizing marks with
  | nil => exact .inl nofun
  | cons root rest ih =>
    have further : ∀ marks, Clear successors loose root → Tidy successors loose [] marks →
        sweep (search (slotsOf successors junk) fuel) rest marks = .ok (found, later) →
        Surveyable successors loose (root :: rest) := by
      intro marks clear tidy ended
      rcases ih tidy ended with all | ⟨passed, next, beyond, rfl, others, lasso⟩
      · exact .inl (List.forall_mem_cons.mpr ⟨clear, all⟩)
      · exact .inr ⟨root :: passed, next, beyond, rfl, List.forall_mem_cons.mpr ⟨clear, others⟩, lasso⟩
    rw [sweep] at ended
    rcases tidy.known root with fresh | ⟨-, -, inside⟩ | ⟨visited, -, clear⟩
    · simp only [fresh, Bool.not_false, if_true] at ended
      rcases unlessFound_ok ended with ⟨rfl, cycle⟩ | ⟨middle, none, onward⟩
      · exact .inr ⟨[], root, rest, rfl, nofun, (search_sound dangling tidy fresh cycle).1 rfl⟩
      · obtain ⟨clear, after⟩ := (search_sound dangling tidy fresh none).2 rfl
        exact further middle clear after onward
    · cases inside
    · simp only [visited, Bool.not_true, Bool.false_eq_true, if_false] at ended
      exact further marks clear tidy ended

/-- Clear roots are passed over. -/
theorem sweep_pass (whole : ∀ v, ¬ loose v → junk v = []) (fuel : Nat) (more : List V)
    (clear : ∀ root ∈ roots, Clear successors loose root) (tidy : Tidy successors loose [] marks) :
    sweep (search (slotsOf successors junk) fuel) (roots ++ more) marks = .error .outOfFuel ∨
      ∃ later, Tidy successors loose [] later ∧ sweep (search (slotsOf successors junk) fuel) (roots ++ more) marks =
        sweep (search (slotsOf successors junk) fuel) more later := by
  induction roots generalizing marks with
  | nil => exact .inr ⟨marks, tidy, rfl⟩
  | cons root rest ih =>
    obtain ⟨here, others⟩ := List.forall_mem_cons.mp clear
    rw [List.cons_append, sweep]
    split_ifs with fresh
    · rcases search_clear whole tidy (by simpa using fresh) nofun here with failed | ⟨later, none, after⟩
      · rw [failed]
        exact .inl rfl
      · rw [none]
        exact ih others after
    · exact ih others tidy

/-- A sweep of surveyable roots finds out whether a cycle can be reached from them. -/
theorem sweep_complete (whole : ∀ v, ¬ loose v → junk v = []) (fuel : Nat)
    (survey : Surveyable successors loose roots) :
    ∃ found, Ends found (fun _ => True) (sweep (search (slotsOf successors junk) fuel) roots .blank) ∧
      (found = true ↔ ∃ root ∈ roots, ∃ w, Relation.ReflTransGen (Edge successors) root w ∧
        Relation.TransGen (Edge successors) w w) := by
  rcases survey with all | ⟨passed, root, rest, rfl, clear, lasso⟩
  · refine ⟨false, ?_, ?_⟩
    · have passed := sweep_pass whole fuel [] all Tidy.blank
      rw [List.append_nil] at passed
      rcases passed with failed | ⟨later, -, same⟩
      · exact .inl failed
      · exact .inr ⟨later, same, trivial⟩
    · refine ⟨nofun, ?_⟩
      rintro ⟨root, inside, w, reached, cycle⟩
      exact absurd cycle (all root inside w reached).1
  · refine ⟨true, ?_, fun _ => ⟨root, by simp, lasso.cyclic nofun⟩, fun _ => rfl⟩
    rcases sweep_pass whole fuel (root :: rest) clear Tidy.blank with failed | ⟨later, tidy, same⟩
    · exact .inl failed
    · rw [same, sweep]
      rcases tidy.known root with fresh | ⟨-, -, inside⟩ | ⟨-, -, clearRoot⟩
      · simp only [fresh, Bool.not_false, if_true]
        rcases search_lasso whole tidy nofun lasso with failed | ⟨final, cycle, -⟩
        · rw [failed]
          exact .inl rfl
        · rw [cycle]
          exact .inr ⟨final, rfl, trivial⟩
      · cases inside
      · obtain ⟨w, reached, cycle⟩ := lasso.cyclic nofun
        exact absurd cycle (clearRoot w reached).1

end Sweep

end MiniNetDist.Library.DepthFirst
