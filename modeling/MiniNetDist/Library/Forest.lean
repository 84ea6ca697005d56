import Mathlib.Data.List.Nodup
import Mathlib.Data.List.Perm.Basic

/-! Trees kept twice: every node has a link to its parent, and a list of its children. The operations are given by
what a lookup finds afterwards. -/

namespace MiniNetDist.Library.Forest

variable {Id : Type*}

/-- What is stored with a node. -/
@[ext]
structure Entry (Id : Type*) where
  parent : Id
  children : List Id
  deriving DecidableEq, Repr

/-- The links lead to the root. -/
inductive Rooted (forest : Id → Option (Entry Id)) (root : Id) : Id → Prop where
  | root : Rooted forest root root
  | link {id : Id} {entry : Entry Id} (found : forest id = some entry) (rest : Rooted forest root entry.parent) :
      Rooted forest root id

/-- Every node leads to the root, and the lists hold, once each, the nodes that are linked to theirs. -/
structure Represents (forest : Id → Option (Entry Id)) (root : Id) : Prop where
  top : ∃ entry, forest root = some entry ∧ entry.parent = root
  rooted (id : Id) (entry : Entry Id) : forest id = some entry → Rooted forest root id
  distinct (id : Id) (entry : Entry Id) : forest id = some entry → entry.children.Nodup
  children (id : Id) (entry : Entry Id) : forest id = some entry → ∀ child, child ∈ entry.children ↔
    child ≠ root ∧ ∃ own, forest child = some own ∧ own.parent = id

section Represented

variable {forest : Id → Option (Entry Id)} {root id child : Id} {entry own : Entry Id}

/-- Nodes whose parents are among themselves do not lead to the root. -/
theorem Rooted.not_closed (rooted : Rooted forest root id) (nodes : List Id) (inside : id ∈ nodes)
    (proper : root ∉ nodes)
    (closed : ∀ node ∈ nodes, ∀ entry, forest node = some entry → entry.parent ∈ nodes) : False := by
  induction rooted with
  | root => exact proper inside
  | link found _ ih => exact ih (closed _ inside _ found)

theorem Represents.parent_of_child (rep : Represents forest root) (found : forest id = some entry)
    (inside : child ∈ entry.children) : child ≠ root ∧ ∃ own, forest child = some own ∧ own.parent = id :=
  (rep.children id entry found child).mp inside

theorem Represents.link_of_child (rep : Represents forest root) (found : forest id = some entry)
    (inside : child ∈ entry.children) (here : forest child = some own) : own.parent = id := by
  obtain ⟨-, same, again, linked⟩ := rep.parent_of_child found inside
  rw [Option.some.inj (here.symm.trans again)]
  exact linked

/-- The parent of a node is a node. -/
theorem Represents.parent_found (rep : Represents forest root) (found : forest id = some entry) :
    ∃ parent, forest entry.parent = some parent := by
  have leads : Rooted forest root entry.parent := by
    cases rep.rooted id entry found with
    | root =>
      obtain ⟨top, here, same⟩ := rep.top
      obtain rfl := Option.some.inj (here.symm.trans found)
      rw [same]
      exact .root
    | link here rest =>
      obtain rfl := Option.some.inj (here.symm.trans found)
      exact rest
  cases leads with
  | root =>
    obtain ⟨top, here, -⟩ := rep.top
    exact ⟨top, here⟩
  | link here _ => exact ⟨_, here⟩

/-- No node below the root is its own parent. -/
theorem Represents.parent_ne (rep : Represents forest root) (found : forest id = some entry) (below : id ≠ root) :
    entry.parent ≠ id := by
  intro same
  refine (rep.rooted id entry found).not_closed [id] (List.mem_singleton_self id) ?_ ?_
  · intro top
    exact below (List.mem_singleton.mp top).symm
  · intro node inside other here
    obtain rfl := List.mem_singleton.mp inside
    obtain rfl := Option.some.inj (here.symm.trans found)
    rw [same]
    exact List.mem_singleton_self _

/-- No two nodes below the root are each other's parents. -/
theorem Represents.grandparent_ne (rep : Represents forest root) (found : forest id = some entry) (below : id ≠ root)
    (foundParent : forest entry.parent = some own) (belowParent : entry.parent ≠ root) : own.parent ≠ id := by
  intro same
  refine (rep.rooted id entry found).not_closed [id, entry.parent] List.mem_cons_self ?_ ?_
  · intro top
    rcases List.mem_cons.mp top with top | top
    · exact below top.symm
    · exact belowParent (List.mem_singleton.mp top).symm
  · intro node inside other here
    rcases List.mem_cons.mp inside with rfl | inside
    · obtain rfl := Option.some.inj (here.symm.trans found)
      simp
    · rw [List.mem_singleton.mp inside] at here
      obtain rfl := Option.some.inj (here.symm.trans foundParent)
      rw [same]
      exact List.mem_cons_self

theorem Represents.not_mem_own (rep : Represents forest root) (found : forest id = some entry) :
    id ∉ entry.children := by
  intro inside
  obtain ⟨below, own, here, same⟩ := rep.parent_of_child found inside
  exact rep.parent_ne here below same

end Represented

section Operations

variable [DecidableEq Id] {forest : Id → Option (Entry Id)} {root id child parentId : Id} {entry parent : Entry Id}
  {moved kept list : List Id}

/-- Some nodes are linked to another parent. -/
def relink (forest : Id → Option (Entry Id)) (moved : List Id) (parentId : Id) : Id → Option (Entry Id) := fun id =>
  if id ∈ moved then (forest id).map fun entry => { entry with parent := parentId } else forest id

/-- A new node takes over some children of its parent. -/
def insert (forest : Id → Option (Entry Id)) (id parentId : Id) (moved kept : List Id) : Id → Option (Entry Id) :=
  fun other =>
  if other = id then some ⟨parentId, moved⟩
  else if other = parentId then (relink forest moved id other).map fun entry => { entry with children := kept ++ [id] }
  else relink forest moved id other

/-- A node, and some others under it, are linked to new parents, and no list is changed. -/
def attach (forest : Id → Option (Entry Id)) (id parentId : Id) (moved : List Id) : Id → Option (Entry Id) :=
  fun other =>
  if other = id then (forest other).map fun entry => { entry with parent := parentId } else relink forest moved id other

/-- A node is taken out, its children linked to `target`, and the list of its parent changed. -/
def remove (forest : Id → Option (Entry Id)) (id : Id) (entry : Entry Id) (target : Id) (list : List Id) :
    Id → Option (Entry Id) := fun other =>
  if other = id then none
  else if other = entry.parent then
    (relink forest entry.children target other).map fun parent => { parent with children := list }
  else relink forest entry.children target other

theorem relink_of_mem (found : forest id = some entry) (inside : id ∈ moved) :
    relink forest moved parentId id = some { entry with parent := parentId } := by
  rw [relink, if_pos inside, found, Option.map_some]

theorem relink_of_not_mem (outside : id ∉ moved) : relink forest moved parentId id = forest id := if_neg outside

/-- The lists are not changed by linking. -/
theorem relink_children (moved : List Id) (parentId : Id) (found : forest id = some entry) :
    ∃ other, relink forest moved parentId id = some other ∧ other.children = entry.children := by
  by_cases inside : id ∈ moved
  · exact ⟨_, relink_of_mem found inside, rfl⟩
  · exact ⟨entry, (relink_of_not_mem inside).trans found, rfl⟩

theorem found_of_relink (found : relink forest moved parentId id = some entry) :
    ∃ old, forest id = some old ∧ entry.children = old.children := by
  cases here : forest id with
  | none =>
    rw [relink, here, Option.map_none, ite_self] at found
    exact absurd found (Option.some_ne_none _).symm
  | some old =>
    obtain ⟨other, linked, same⟩ := relink_children moved parentId here
    obtain rfl := Option.some.inj (linked.symm.trans found)
    exact ⟨old, rfl, same⟩

/-- Which parent a node has after some were linked to another. -/
theorem relink_parent_iff (present : ∀ node ∈ moved, ∃ own, forest node = some own) {target : Id} :
    (∃ own, relink forest moved parentId child = some own ∧ own.parent = target) ↔
      child ∈ moved ∧ parentId = target ∨ child ∉ moved ∧ ∃ own, forest child = some own ∧ own.parent = target := by
  by_cases inside : child ∈ moved
  · obtain ⟨own, found⟩ := present child inside
    rw [relink_of_mem found inside]
    simp [inside]
  · rw [relink_of_not_mem inside]
    simp [inside]

theorem insert_new : insert forest id parentId moved kept id = some ⟨parentId, moved⟩ := if_pos rfl

theorem insert_elsewhere {other : Id} (old : other ≠ id) (apart : other ≠ parentId) :
    insert forest id parentId moved kept other = relink forest moved id other := by
  rw [insert, if_neg old, if_neg apart]

theorem remove_elsewhere {other target : Id} (kept : other ≠ id) (apart : other ≠ entry.parent) :
    remove forest id entry target list other = relink forest entry.children target other := by
  rw [remove, if_neg kept, if_neg apart]

end Operations

section Insertion

variable {forest : Id → Option (Entry Id)} {root id parentId : Id} {parent : Entry Id} {moved kept : List Id}

/-- What a new node and its parent hold, when the children of the parent are shared between them. -/
structure Insertion (forest : Id → Option (Entry Id)) (root id parentId : Id) (parent : Entry Id)
    (moved kept : List Id) :
    Prop where
  rep : Represents forest root
  fresh : forest id = none
  found : forest parentId = some parent
  split : parent.children.Perm (kept ++ moved)

variable (made : Insertion forest root id parentId parent moved kept)

include made

theorem Insertion.child_of_moved {child : Id} (inside : child ∈ moved) :
    child ≠ root ∧ ∃ own, forest child = some own ∧ own.parent = parentId :=
  made.rep.parent_of_child made.found (made.split.mem_iff.mpr (List.mem_append_right _ inside))

theorem Insertion.ne_new {other : Id} {entry : Entry Id} (found : forest other = some entry) : other ≠ id := by
  rintro rfl
  exact absurd (made.fresh.symm.trans found) (Option.some_ne_none _).symm

theorem Insertion.ne_root : root ≠ id := by
  obtain ⟨top, here, -⟩ := made.rep.top
  exact made.ne_new here

theorem Insertion.parent_not_moved : parentId ∉ moved := fun inside =>
  made.rep.not_mem_own made.found (made.split.mem_iff.mpr (List.mem_append_right _ inside))

theorem Insertion.not_linked {child : Id} {own : Entry Id} (found : forest child = some own) : own.parent ≠ id := by
  intro same
  obtain ⟨_, here⟩ := made.rep.parent_found found
  rw [same, made.fresh] at here
  exact absurd here (Option.some_ne_none _).symm

theorem Insertion.shared : kept.Nodup ∧ moved.Nodup ∧ ∀ child ∈ kept, child ∉ moved := by
  have nodup := made.split.nodup_iff.mp (made.rep.distinct _ _ made.found)
  obtain ⟨keptDistinct, movedDistinct, apart⟩ := List.nodup_append.mp nodup
  exact ⟨keptDistinct, movedDistinct, fun child inside taken => apart child inside child taken rfl⟩

theorem Insertion.new_not_kept : id ∉ kept := by
  intro inside
  obtain ⟨-, own, found, -⟩ := made.rep.parent_of_child made.found (made.split.mem_iff.mpr (List.mem_append_left _ inside))
  exact made.ne_new found rfl

variable [DecidableEq Id]

theorem Insertion.at_parent :
    insert forest id parentId moved kept parentId = some { parent with children := kept ++ [id] } := by
  rw [insert, if_neg (made.ne_new made.found), if_pos rfl, relink_of_not_mem made.parent_not_moved, made.found,
    Option.map_some]

/-- The link of an old node is kept, or leads to the new node when it was taken over. -/
theorem Insertion.link {other : Id} {entry : Entry Id} (found : forest other = some entry) :
    ∃ own, insert forest id parentId moved kept other = some own ∧
      (own.parent = entry.parent ∨ own.parent = id ∧ entry.parent = parentId) := by
  by_cases here : other = parentId
  · subst here
    obtain rfl := Option.some.inj (found.symm.trans made.found)
    exact ⟨_, made.at_parent, .inl rfl⟩
  · rw [insert_elsewhere (made.ne_new found) here]
    by_cases inside : other ∈ moved
    · obtain ⟨-, own, same, linked⟩ := made.child_of_moved inside
      obtain rfl := Option.some.inj (found.symm.trans same)
      exact ⟨_, relink_of_mem found inside, .inr ⟨rfl, linked⟩⟩
    · exact ⟨entry, (relink_of_not_mem inside).trans found, .inl rfl⟩

theorem Insertion.rooted {other : Id} (rooted : Rooted forest root other) :
    Rooted (insert forest id parentId moved kept) root other := by
  induction rooted with
  | root => exact .root
  | link found _ ih =>
    obtain ⟨own, here, same | ⟨taken, under⟩⟩ := made.link found
    · exact .link here (same ▸ ih)
    · have above : Rooted (insert forest id parentId moved kept) root id := .link insert_new (under ▸ ih)
      exact .link here (taken ▸ above)

/-- Which parent a node has after the insertion. -/
theorem Insertion.parent_iff {child target : Id} :
    (∃ own, insert forest id parentId moved kept child = some own ∧ own.parent = target) ↔
      child = id ∧ parentId = target ∨ child ≠ id ∧
        (child ∈ moved ∧ id = target ∨ child ∉ moved ∧ ∃ own, forest child = some own ∧ own.parent = target) := by
  have present : ∀ node ∈ moved, ∃ own, forest node = some own := by
    intro node inside
    obtain ⟨-, own, found, -⟩ := made.child_of_moved inside
    exact ⟨own, found⟩
  by_cases new : child = id
  · subst new
    rw [insert_new]
    simp
  · by_cases here : child = parentId
    · subst here
      rw [made.at_parent]
      simp [new, made.parent_not_moved, made.found]
    · rw [insert_elsewhere new here, relink_parent_iff present]
      simp [new]

theorem Insertion.old_of_insert {other : Id} {entry : Entry Id} (old : other ≠ id)
    (found : insert forest id parentId moved kept other = some entry) : ∃ own, forest other = some own := by
  by_cases here : other = parentId
  · exact ⟨parent, here ▸ made.found⟩
  · rw [insert_elsewhere old here] at found
    obtain ⟨own, before, -⟩ := found_of_relink found
    exact ⟨own, before⟩

theorem Insertion.all_rooted {other : Id} {entry : Entry Id}
    (found : insert forest id parentId moved kept other = some entry) :
    Rooted (insert forest id parentId moved kept) root other := by
  by_cases new : other = id
  · subst new
    exact .link insert_new (made.rooted (made.rep.rooted _ _ made.found))
  · obtain ⟨own, before⟩ := made.old_of_insert new found
    exact made.rooted (made.rep.rooted other own before)

theorem Insertion.distinct {other : Id} {entry : Entry Id}
    (found : insert forest id parentId moved kept other = some entry) : entry.children.Nodup := by
  obtain ⟨keptDistinct, movedDistinct, -⟩ := made.shared
  by_cases new : other = id
  · subst new
    rw [insert_new] at found
    obtain rfl := Option.some.inj found
    exact movedDistinct
  by_cases here : other = parentId
  · subst here
    rw [made.at_parent] at found
    obtain rfl := Option.some.inj found
    rw [← List.concat_eq_append]
    exact keptDistinct.concat made.new_not_kept
  · rw [insert_elsewhere new here] at found
    obtain ⟨old, before, same⟩ := found_of_relink found
    rw [same]
    exact made.rep.distinct other old before

/-- The new node has the children it took over. -/
theorem Insertion.children_new (child : Id) : child ∈ moved ↔
    child ≠ root ∧ ∃ own, insert forest id parentId moved kept child = some own ∧ own.parent = id := by
  rw [made.parent_iff]
  constructor
  · intro inside
    obtain ⟨below, own, here, -⟩ := made.child_of_moved inside
    exact ⟨below, .inr ⟨made.ne_new here, .inl ⟨inside, rfl⟩⟩⟩
  · rintro ⟨-, ⟨-, same⟩ | ⟨-, ⟨inside, -⟩ | ⟨-, own, here, linked⟩⟩⟩
    · exact absurd same (made.ne_new made.found)
    · exact inside
    · exact absurd linked (made.not_linked here)

/-- The parent has the children it keeps, and the new node. -/
theorem Insertion.children_parent (child : Id) : child ∈ kept ++ [id] ↔
    child ≠ root ∧ ∃ own, insert forest id parentId moved kept child = some own ∧ own.parent = parentId := by
  have children := made.rep.children parentId parent made.found child
  rw [made.split.mem_iff, List.mem_append] at children
  rw [made.parent_iff, List.mem_append, List.mem_singleton]
  constructor
  · rintro (inside | rfl)
    · obtain ⟨below, linked⟩ := children.mp (.inl inside)
      have old : child ≠ id := fun same => made.new_not_kept (same ▸ inside)
      exact ⟨below, .inr ⟨old, .inr ⟨made.shared.2.2 child inside, linked⟩⟩⟩
    · exact ⟨made.ne_root.symm, .inl ⟨rfl, rfl⟩⟩
  · rintro ⟨below, ⟨rfl, -⟩ | ⟨-, ⟨-, same⟩ | ⟨outside, linked⟩⟩⟩
    · exact .inr rfl
    · exact absurd same.symm (made.ne_new made.found)
    · exact .inl ((children.mpr ⟨below, linked⟩).resolve_right outside)

/-- Other nodes have the children they had. -/
theorem Insertion.children_elsewhere {other : Id} {old : Entry Id} (new : other ≠ id) (apart : other ≠ parentId)
    (before : forest other = some old) (child : Id) : child ∈ old.children ↔
      child ≠ root ∧ ∃ own, insert forest id parentId moved kept child = some own ∧ own.parent = other := by
  rw [made.parent_iff, made.rep.children other old before child]
  constructor
  · rintro ⟨below, own, present, linked⟩
    have outside : child ∉ moved := by
      intro inside
      obtain ⟨-, again, found, under⟩ := made.child_of_moved inside
      obtain rfl := Option.some.inj (present.symm.trans found)
      exact apart (linked.symm.trans under)
    exact ⟨below, .inr ⟨made.ne_new present, .inr ⟨outside, own, present, linked⟩⟩⟩
  · rintro ⟨below, ⟨-, same⟩ | ⟨-, ⟨-, same⟩ | ⟨-, linked⟩⟩⟩
    · exact absurd same.symm apart
    · exact absurd same.symm new
    · exact ⟨below, linked⟩

/-- A tree stays one when a new node is put into it. -/
theorem Insertion.represents : Represents (insert forest id parentId moved kept) root where
  top := by
    obtain ⟨top, here, same⟩ := made.rep.top
    obtain ⟨own, found, kept | ⟨-, under⟩⟩ := made.link here
    · exact ⟨own, found, kept.trans same⟩
    · have parentRoot : parentId = root := under.symm.trans same
      subst parentRoot
      obtain rfl := Option.some.inj (here.symm.trans made.found)
      exact ⟨_, made.at_parent, same⟩
  rooted _ _ found := made.all_rooted found
  distinct _ _ found := made.distinct found
  children other entry found child := by
    by_cases new : other = id
    · subst new
      rw [insert_new] at found
      obtain rfl := Option.some.inj found
      exact made.children_new child
    by_cases here : other = parentId
    · subst here
      rw [made.at_parent] at found
      obtain rfl := Option.some.inj found
      exact made.children_parent child
    · rw [insert_elsewhere new here] at found
      obtain ⟨old, before, same⟩ := found_of_relink found
      rw [same]
      exact made.children_elsewhere new here before child

end Insertion

section Attachment

variable [DecidableEq Id] {forest : Id → Option (Entry Id)} {root id parentId : Id} {entry parent : Entry Id}
  {moved : List Id}

/-- A node that is linked to another parent, which keeps its list, stands where it should only if nothing changes. -/
theorem attach_represents_iff (rep : Represents forest root) (below : id ≠ root) (found : forest id = some entry)
    (foundParent : forest parentId = some parent) (taken : ∀ child ∈ moved, child ∈ parent.children) :
    Represents (attach forest id parentId moved) root ↔ parentId = entry.parent ∧ ∀ child ∈ moved, child = id := by
  have here : attach forest id parentId moved id = some { entry with parent := parentId } := by
    rw [attach, if_pos rfl, found, Option.map_some]
  constructor
  · intro after
    have listed : ∃ own, attach forest id parentId moved parentId = some own ∧ own.children = parent.children := by
      by_cases self : parentId = id
      · subst self
        obtain rfl := Option.some.inj (found.symm.trans foundParent)
        exact ⟨_, here, rfl⟩
      · rw [attach, if_neg self]
        exact relink_children moved id foundParent
    obtain ⟨own, foundOwn, same⟩ := listed
    have inside : id ∈ parent.children := by
      rw [← same]
      exact (after.children parentId own foundOwn id).mpr ⟨below, _, here, rfl⟩
    have linked := rep.link_of_child foundParent inside found
    refine ⟨linked.symm, ?_⟩
    intro child isMoved
    by_contra other
    obtain ⟨proper, own, foundChild, under⟩ := rep.parent_of_child foundParent (taken child isMoved)
    have linkedHere : attach forest id parentId moved child = some { own with parent := id } := by
      rw [attach, if_neg other, relink_of_mem foundChild isMoved]
    have wrong : child ∈ entry.children := (after.children id _ here child).mpr ⟨proper, _, linkedHere, rfl⟩
    have loop := rep.link_of_child found wrong foundChild
    exact rep.parent_ne found below (linked.trans (under.symm.trans loop))
  · rintro ⟨same, only⟩
    have unchanged : attach forest id parentId moved = forest := by
      funext other
      by_cases self : other = id
      · rw [self, here, found, same]
      · rw [attach, if_neg self, relink_of_not_mem fun inside => self (only other inside)]
    rw [unchanged]
    exact rep

/-- The root can only be linked to itself. -/
theorem attach_root_represents_iff (rep : Represents forest root) (foundParent : forest parentId = some parent)
    (taken : ∀ child ∈ moved, child ∈ parent.children) :
    Represents (attach forest root parentId moved) root ↔ parentId = root := by
  obtain ⟨top, found, own⟩ := rep.top
  have here : attach forest root parentId moved root = some { top with parent := parentId } := by
    rw [attach, if_pos rfl, found, Option.map_some]
  constructor
  · intro after
    obtain ⟨entry, foundAfter, same⟩ := after.top
    obtain rfl := Option.some.inj (here.symm.trans foundAfter)
    exact same
  · rintro rfl
    have unchanged : attach forest parentId parentId moved = forest := by
      funext other
      by_cases self : other = parentId
      · rw [self, here, found, ← own]
      · rw [attach, if_neg self]
        by_cases inside : other ∈ moved
        · obtain ⟨-, entry, foundOther, linked⟩ := rep.parent_of_child foundParent (taken other inside)
          rw [relink_of_mem foundOther inside, foundOther, ← linked]
        · exact relink_of_not_mem inside
    rw [unchanged]
    exact rep

end Attachment

section Removal

variable [DecidableEq Id] {forest : Id → Option (Entry Id)} {root id : Id} {entry parent : Entry Id} {list : List Id}

/-- A node below the root is taken out, and its parent's list gets its children. -/
structure Removal (forest : Id → Option (Entry Id)) (root id : Id) (entry parent : Entry Id)
    (list : List Id) : Prop where
  rep : Represents forest root
  below : id ≠ root
  found : forest id = some entry
  foundParent : forest entry.parent = some parent
  split : list.Perm (parent.children.erase id ++ entry.children)

variable (made : Removal forest root id entry parent list)

include made

theorem Removal.parent_ne : entry.parent ≠ id := made.rep.parent_ne made.found made.below

theorem Removal.parent_not_child : entry.parent ∉ entry.children := by
  intro inside
  obtain ⟨below, own, here, same⟩ := made.rep.parent_of_child made.found inside
  exact made.rep.grandparent_ne made.found made.below here below same

theorem Removal.at_parent (target : Id) :
    remove forest id entry target list entry.parent = some { parent with children := list } := by
  rw [remove, if_neg made.parent_ne, if_pos rfl, relink_of_not_mem made.parent_not_child, made.foundParent,
    Option.map_some]

theorem Removal.mem_list_iff {child : Id} :
    child ∈ list ↔ child ∈ parent.children ∧ child ≠ id ∨ child ∈ entry.children := by
  rw [made.split.mem_iff, List.mem_append, (made.rep.distinct _ _ made.foundParent).mem_erase_iff, and_comm]

theorem Removal.nodup_list : list.Nodup := by
  refine made.split.nodup_iff.mpr (List.nodup_append.mpr ⟨?_, made.rep.distinct _ _ made.found, ?_⟩)
  · exact (made.rep.distinct _ _ made.foundParent).erase id
  · rintro child inside other further rfl
    obtain ⟨-, own, here, under⟩ := made.rep.parent_of_child made.foundParent (List.mem_of_mem_erase inside)
    exact made.parent_ne (under.symm.trans (made.rep.link_of_child made.found further here))

/-- The children of the node are linked past a parent that is not the root, whose list does not hold them. -/
theorem Removal.misses (inner : entry.parent ≠ root) {child : Id} (inside : child ∈ entry.children) :
    ¬ Represents (remove forest id entry parent.parent list) root := by
  intro after
  obtain ⟨proper, own, foundChild, under⟩ := made.rep.parent_of_child made.found inside
  obtain ⟨above, foundAbove⟩ := made.rep.parent_found made.foundParent
  have notChild : child ≠ id := fun same => made.rep.not_mem_own made.found (same ▸ inside)
  have notParent : child ≠ entry.parent := fun same => made.parent_not_child (same ▸ inside)
  have linked : remove forest id entry parent.parent list child = some { own with parent := parent.parent } := by
    rw [remove_elsewhere notChild notParent, relink_of_mem foundChild inside]
  have apart : parent.parent ≠ id := made.rep.grandparent_ne made.found made.below made.foundParent inner
  have higher : parent.parent ≠ entry.parent := made.rep.parent_ne made.foundParent inner
  obtain ⟨listed, foundListed, same⟩ := relink_children entry.children parent.parent foundAbove
  have there : remove forest id entry parent.parent list parent.parent = some listed := by
    rw [remove_elsewhere apart higher, foundListed]
  have wrong : child ∈ above.children := by
    rw [← same]
    exact (after.children _ _ there child).mpr ⟨proper, _, linked, rfl⟩
  exact apart ((made.rep.link_of_child foundAbove wrong foundChild).symm.trans under)

/-- The link of a node that stays is kept, unless its parent is taken out. -/
theorem Removal.link (target : Id) {other : Id} {own : Entry Id} (found : forest other = some own)
    (kept : other ≠ id) :
    ∃ after, remove forest id entry target list other = some after ∧
      (other ∈ entry.children ∧ after.parent = target ∨ other ∉ entry.children ∧ after.parent = own.parent) := by
  by_cases here : other = entry.parent
  · subst here
    obtain rfl := Option.some.inj (found.symm.trans made.foundParent)
    exact ⟨_, made.at_parent target, .inr ⟨made.parent_not_child, rfl⟩⟩
  · rw [remove_elsewhere kept here]
    by_cases inside : other ∈ entry.children
    · exact ⟨_, relink_of_mem found inside, .inl ⟨inside, rfl⟩⟩
    · exact ⟨own, (relink_of_not_mem inside).trans found, .inr ⟨inside, rfl⟩⟩

theorem Removal.found_of_remove {other target : Id} {after : Entry Id}
    (found : remove forest id entry target list other = some after) :
    other ≠ id ∧ ∃ own, forest other = some own := by
  rw [remove] at found
  split_ifs at found with gone here
  · exact ⟨gone, parent, here ▸ made.foundParent⟩
  · obtain ⟨own, old, -⟩ := found_of_relink found
    exact ⟨gone, own, old⟩

/-- Which parent a node has after the removal. -/
theorem Removal.parent_iff {child target above : Id} :
    (∃ own, remove forest id entry target list child = some own ∧ own.parent = above) ↔
      child ≠ id ∧ (child ∈ entry.children ∧ target = above ∨
        child ∉ entry.children ∧ ∃ own, forest child = some own ∧ own.parent = above) := by
  constructor
  · rintro ⟨after, found, linked⟩
    obtain ⟨kept, own, old⟩ := made.found_of_remove found
    obtain ⟨again, foundAgain, ⟨inside, same⟩ | ⟨outside, same⟩⟩ := made.link target old kept
    · obtain rfl := Option.some.inj (found.symm.trans foundAgain)
      exact ⟨kept, .inl ⟨inside, same.symm.trans linked⟩⟩
    · obtain rfl := Option.some.inj (found.symm.trans foundAgain)
      exact ⟨kept, .inr ⟨outside, own, old, same.symm.trans linked⟩⟩
  · rintro ⟨kept, ⟨inside, same⟩ | ⟨outside, own, old, linked⟩⟩
    · obtain ⟨-, own, old, -⟩ := made.rep.parent_of_child made.found inside
      obtain ⟨after, found, ⟨-, linked⟩ | ⟨outside, -⟩⟩ := made.link target old kept
      · exact ⟨after, found, linked.trans same⟩
      · exact absurd inside outside
    · obtain ⟨after, found, ⟨inside, -⟩ | ⟨-, same⟩⟩ := made.link target old kept
      · exact absurd inside outside
      · exact ⟨after, found, same.trans linked⟩

/-- A node linked to the one that is taken out is one of its children. -/
theorem Removal.child_of_link {other : Id} {own : Entry Id} (found : forest other = some own)
    (linked : own.parent = id) :
    other ∈ entry.children := by
  refine (made.rep.children id entry made.found other).mpr ⟨?_, own, found, linked⟩
  rintro rfl
  obtain ⟨top, here, same⟩ := made.rep.top
  obtain rfl := Option.some.inj (here.symm.trans found)
  exact made.below (linked.symm.trans same)

theorem Removal.rooted {target : Id} (lifted : ∀ child ∈ entry.children, target = root) {other : Id}
    (rooted : Rooted forest root other) (kept : other ≠ id) :
    Rooted (remove forest id entry target list) root other := by
  induction rooted with
  | root => exact .root
  | link found _ ih =>
    obtain ⟨after, here, ⟨inside, same⟩ | ⟨outside, same⟩⟩ := made.link target found kept
    · refine .link here ?_
      rw [same, lifted _ inside]
      exact .root
    · have stays := ih fun linked => outside (made.child_of_link found linked)
      exact .link here (same ▸ stays)

/-- The children go to the root, if there are any. -/
theorem Removal.lifted (whole : entry.children = [] ∨ entry.parent = root) {child : Id}
    (inside : child ∈ entry.children) :
    entry.parent = root ∧ parent.parent = root := by
  have top : entry.parent = root := whole.resolve_left (List.ne_nil_of_mem inside)
  obtain ⟨highest, here, same⟩ := made.rep.top
  rw [← top] at here
  obtain rfl := Option.some.inj (here.symm.trans made.foundParent)
  exact ⟨top, same⟩

theorem Removal.distinct {other target : Id} {after : Entry Id}
    (found : remove forest id entry target list other = some after) : after.children.Nodup := by
  obtain ⟨kept, -⟩ := made.found_of_remove found
  by_cases here : other = entry.parent
  · subst here
    rw [made.at_parent] at found
    obtain rfl := Option.some.inj found
    exact made.nodup_list
  · rw [remove_elsewhere kept here] at found
    obtain ⟨own, old, same⟩ := found_of_relink found
    rw [same]
    exact made.rep.distinct other own old

/-- The parent has the children it keeps, and those of the node. -/
theorem Removal.children_parent {target : Id} (lifted : ∀ child ∈ entry.children, target = entry.parent)
    (child : Id) :
    child ∈ list ↔
      child ≠ root ∧ ∃ own, remove forest id entry target list child = some own ∧ own.parent = entry.parent := by
  rw [made.parent_iff, made.mem_list_iff, made.rep.children entry.parent parent made.foundParent child]
  constructor
  · rintro (⟨⟨below, own, old, linked⟩, stays⟩ | inside)
    · refine ⟨below, stays, .inr ⟨?_, own, old, linked⟩⟩
      intro inside
      exact made.parent_ne (linked.symm.trans (made.rep.link_of_child made.found inside old))
    · obtain ⟨below, -⟩ := made.rep.parent_of_child made.found inside
      have stays : child ≠ id := fun same => made.rep.not_mem_own made.found (same ▸ inside)
      exact ⟨below, stays, .inl ⟨inside, lifted child inside⟩⟩
  · rintro ⟨below, stays, ⟨inside, -⟩ | ⟨-, linked⟩⟩
    · exact .inr inside
    · exact .inl ⟨⟨below, linked⟩, stays⟩

/-- Other nodes have the children they had. -/
theorem Removal.children_elsewhere {target : Id} (lifted : ∀ child ∈ entry.children, target = entry.parent)
    {other : Id}
    {own : Entry Id} (kept : other ≠ id) (apart : other ≠ entry.parent) (old : forest other = some own) (child : Id) :
    child ∈ own.children ↔
      child ≠ root ∧ ∃ after, remove forest id entry target list child = some after ∧ after.parent = other := by
  rw [made.parent_iff, made.rep.children other own old child]
  constructor
  · rintro ⟨below, before, present, linked⟩
    refine ⟨below, ?_, .inr ⟨?_, before, present, linked⟩⟩
    · rintro rfl
      obtain rfl := Option.some.inj (present.symm.trans made.found)
      exact apart linked.symm
    · intro inside
      exact kept (linked.symm.trans (made.rep.link_of_child made.found inside present))
  · rintro ⟨below, -, ⟨inside, same⟩ | ⟨-, linked⟩⟩
    · exact absurd (same.symm.trans (lifted child inside)) apart
    · exact ⟨below, linked⟩

/-- A tree stays one when the children go to the root together with their place in its list, or there are none. -/
theorem Removal.represents (whole : entry.children = [] ∨ entry.parent = root) :
    Represents (remove forest id entry parent.parent list) root where
  top := by
    obtain ⟨top, here, same⟩ := made.rep.top
    obtain ⟨after, found, ⟨inside, -⟩ | ⟨-, kept⟩⟩ := made.link parent.parent here made.below.symm
    · exact absurd rfl (made.rep.parent_of_child made.found inside).1
    · exact ⟨after, found, kept.trans same⟩
  rooted other after found := by
    obtain ⟨kept, own, old⟩ := made.found_of_remove found
    exact made.rooted (fun child inside => (made.lifted whole inside).2) (made.rep.rooted other own old) kept
  distinct _ _ found := made.distinct found
  children other after found child := by
    have lifted : ∀ child ∈ entry.children, parent.parent = entry.parent := by
      intro child inside
      obtain ⟨top, above⟩ := made.lifted whole inside
      exact above.trans top.symm
    obtain ⟨kept, -⟩ := made.found_of_remove found
    by_cases here : other = entry.parent
    · subst here
      rw [made.at_parent] at found
      obtain rfl := Option.some.inj found
      exact made.children_parent lifted child
    · rw [remove_elsewhere kept here] at found
      obtain ⟨own, old, same⟩ := found_of_relink found
      rw [same]
      exact made.children_elsewhere lifted kept here old child

theorem Removal.represents_iff : Represents (remove forest id entry parent.parent list) root ↔
    entry.children = [] ∨ entry.parent = root := by
  constructor
  · intro after
    by_contra both
    obtain ⟨some, inner⟩ := not_or.mp both
    obtain ⟨child, inside⟩ := List.exists_mem_of_ne_nil _ some
    exact made.misses inner inside after
  · exact made.represents

end Removal

end MiniNetDist.Library.Forest
