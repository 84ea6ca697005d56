import MiniNetDist.Library.Buffer
import MiniNetDist.Library.Forest
import MiniNetDist.Library.Run
import MiniNetDist.Library.Table
import Mathlib.Data.List.Perm.Subperm
import Mathlib.Order.Basic

/-! The priority tree of `mini-app-protocol/src/http2_frames.c`, kept in a table of nodes with links to their parents
and lists of their children. A stream that is moved is not entered in its new parent's list, and the children of a
stream that is removed are linked to its grandparent while its parent lists them. -/

namespace MiniNetDist.AppProtocol.H2Priority

open Library

def H2_MAX_PRIORITY_NODES : Nat := 32

structure H2PriorityNode where
  parentStreamId : BitVec 32
  weight : UInt8
  selfStreamId : BitVec 32
  exclusive : Bool
  children : List (BitVec 32)
  deriving DecidableEq, Repr

structure H2PriorityTree where
  nodes : List H2PriorityNode
  fits : nodes.length ≤ H2_MAX_PRIORITY_NODES
  deriving DecidableEq, Repr

section Operations

/-- A node whose memory was cleared. -/
def zeroNode : H2PriorityNode := ⟨0#32, 0, 0#32, false, []⟩

def rootNode : H2PriorityNode := { zeroNode with weight := 16 }

def h2PriorityTreeInit : H2PriorityTree := ⟨[rootNode], Nat.le_of_ble_eq_true rfl⟩

def findNode (nodes : List H2PriorityNode) (streamId : BitVec 32) : Option H2PriorityNode :=
  Table.find (·.selfStreamId) nodes streamId

def h2PriorityFind (tree : H2PriorityTree) (streamId : BitVec 32) : Option H2PriorityNode :=
  findNode tree.nodes streamId

def updateNode (nodes : List H2PriorityNode) (streamId : BitVec 32) (change : H2PriorityNode → H2PriorityNode) :
    List H2PriorityNode := Table.update (·.selfStreamId) nodes streamId change

def H2PriorityNode.link (parentId : BitVec 32) (node : H2PriorityNode) : H2PriorityNode :=
  { node with parentStreamId := parentId }

def H2PriorityNode.list (children : List (BitVec 32)) (node : H2PriorityNode) : H2PriorityNode :=
  { node with children := children }

/-- The loop over children that are given another parent. -/
def relinkNodes (nodes : List H2PriorityNode) (children : List (BitVec 32))
    (parentId : BitVec 32) : List H2PriorityNode :=
  children.foldl (fun nodes child => updateNode nodes child (·.link parentId)) nodes

/-- The first entry of a stream is replaced by the last one. -/
def dropChild (children : List (BitVec 32)) (streamId : BitVec 32) : List (BitVec 32) :=
  match children.findIdx? (· = streamId) with
  | some i => swapRemove children i
  | none => children

theorem length_relinkNodes (nodes : List H2PriorityNode) (children : List (BitVec 32)) (parentId : BitVec 32) :
    (relinkNodes nodes children parentId).length = nodes.length := by
  induction children generalizing nodes with
  | nil => rfl
  | cons child rest ih => exact (ih _).trans Table.length_update

theorem length_update_relink (nodes : List H2PriorityNode) (children : List (BitVec 32))
    (parentId streamId : BitVec 32) (change : H2PriorityNode → H2PriorityNode) :
    (updateNode (relinkNodes nodes children parentId) streamId change).length = nodes.length :=
  Table.length_update.trans (length_relinkNodes nodes children parentId)

theorem length_grown (nodes : List H2PriorityNode) (children : List (BitVec 32)) (parentId streamId : BitVec 32)
    (change : H2PriorityNode → H2PriorityNode) (node : H2PriorityNode) :
    (updateNode (relinkNodes nodes children parentId) streamId change ++ [node]).length = nodes.length + 1 := by
  rw [List.length_append, length_update_relink, List.length_singleton]

/-- The children that an exclusive stream takes over. -/
def movedChildren (exclusive : Bool) (parent : H2PriorityNode) : List (BitVec 32) :=
  if exclusive then parent.children else []

def keptChildren (exclusive : Bool) (parent : H2PriorityNode) : List (BitVec 32) :=
  if exclusive then [] else parent.children

/-- What a stream that is there already is given. -/
def H2PriorityNode.place (parentId : BitVec 32) (weight : UInt8) (exclusive : Bool)
    (node : H2PriorityNode) : H2PriorityNode :=
  { node with
    parentStreamId := parentId
    weight := weight
    exclusive := exclusive }

/-- An entry past the end of a list of children is written outside it. -/
def h2PriorityAdd (tree : H2PriorityTree) (streamId parentId : BitVec 32) (weight : UInt8) (exclusive : Bool) :
    Except Failure H2PriorityTree :=
  if room : tree.nodes.length < H2_MAX_PRIORITY_NODES then
    match h2PriorityFind tree parentId with
    | none => .error (.code (-2))
    | some parent =>
      let weight := if weight < 1 then 1 else weight
      let moved := movedChildren exclusive parent
      match h2PriorityFind tree streamId with
      | some _ =>
        .ok
          { nodes := updateNode (relinkNodes tree.nodes moved streamId) streamId (·.place parentId weight exclusive)
            fits := (length_update_relink ..).trans_le tree.fits }
      | none =>
        let kept := keptChildren exclusive parent
        if kept.length < H2_MAX_PRIORITY_NODES then
          .ok
            { nodes := updateNode (relinkNodes tree.nodes moved streamId) parentId (·.list (kept ++ [streamId])) ++
                [⟨parentId, weight, streamId, exclusive, moved⟩]
              fits := (length_grown ..).trans_le room }
        else .error .outOfBounds
  else .error (.code (-1))

/-- A node that is its own parent adds to the list it runs over, without end. -/
def h2PriorityRemove (tree : H2PriorityTree) (streamId : BitVec 32) : Except Failure H2PriorityTree :=
  if streamId = 0#32 then .error (.code (-2))
  else
    match h2PriorityFind tree streamId with
    | none => .error (.code (-3))
    | some node =>
      match h2PriorityFind tree node.parentStreamId with
      | none =>
        .ok
          { nodes := updateNode (relinkNodes tree.nodes node.children 0#32) streamId fun _ => zeroNode
            fits := (length_update_relink ..).trans_le tree.fits }
      | some parent =>
        let promoted := node.children.filter fun child => (h2PriorityFind tree child).isSome
        if node.parentStreamId = streamId ∧ promoted ≠ [] then .error .outOfBounds
        else if H2_MAX_PRIORITY_NODES < (parent.children ++ promoted).length then .error .outOfBounds
        else
          .ok
            { nodes := updateNode (updateNode (relinkNodes tree.nodes node.children parent.parentStreamId)
                node.parentStreamId (·.list (dropChild (parent.children ++ promoted) streamId)))
                streamId fun _ => zeroNode
              fits := (Table.length_update.trans (length_update_relink ..)).trans_le tree.fits }

end Operations

section Runs

inductive PriorityCall where
  | add (streamId parentId : BitVec 32) (weight : UInt8) (exclusive : Bool)
  | remove (streamId : BitVec 32)

def H2PriorityTree.result (tree : H2PriorityTree) : PriorityCall → Except Failure H2PriorityTree
  | .add streamId parentId weight exclusive => h2PriorityAdd tree streamId parentId weight exclusive
  | .remove streamId => h2PriorityRemove tree streamId

def H2PriorityTree.call (tree : H2PriorityTree) (call : PriorityCall) : H2PriorityTree :=
  (tree.result call).toOption.getD tree

/-- The call does not report an error. -/
def Successful (tree : H2PriorityTree) (call : PriorityCall) : Prop := ∀ code, tree.result call ≠ .error (.code code)

def H2PriorityNode.entry (node : H2PriorityNode) : Forest.Entry (BitVec 32) := ⟨node.parentStreamId, node.children⟩

/-- The parent and the children of a live node. -/
def forest (nodes : List H2PriorityNode) (streamId : BitVec 32) : Option (Forest.Entry (BitVec 32)) :=
  (findNode nodes streamId).map (·.entry)

/-- The links lead to stream 0, and the lists hold the streams that are linked to theirs. -/
def H2PriorityTree.Represents (tree : H2PriorityTree) : Prop := Forest.Represents (forest tree.nodes) 0#32

/-- The stream is new, or stays under the parent it has, alone there if it is to be exclusive. A stream that is
removed has no children, or stands right below stream 0. -/
def Settled (tree : H2PriorityTree) : PriorityCall → Prop
  | .add streamId parentId _ exclusive => ∀ node ∈ h2PriorityFind tree streamId,
    parentId = node.parentStreamId ∧ (exclusive = true → streamId = 0#32 ∨
      ∀ parent ∈ h2PriorityFind tree parentId, ∀ child ∈ parent.children, child = streamId)
  | .remove streamId => ∀ node ∈ h2PriorityFind tree streamId, node.children = [] ∨ node.parentStreamId = 0#32

instance (tree : H2PriorityTree) : (call : PriorityCall) → Decidable (Settled tree call)
  | .add streamId .. => inferInstanceAs (Decidable (∀ node ∈ h2PriorityFind tree streamId, _ ∧ _))
  | .remove streamId => inferInstanceAs (Decidable (∀ node ∈ h2PriorityFind tree streamId, _ ∨ _))

end Runs

section Lookup

variable {nodes : List H2PriorityNode} {children : List (BitVec 32)} {streamId parentId : BitVec 32}

theorem find_relinkNodes (nodes : List H2PriorityNode) (children : List (BitVec 32)) (parentId streamId : BitVec 32) :
    findNode (relinkNodes nodes children parentId) streamId =
      if streamId ∈ children then (findNode nodes streamId).map (·.link parentId) else findNode nodes streamId := by
  induction children generalizing nodes with
  | nil => simp [relinkNodes]
  | cons child rest ih =>
    have first : findNode (updateNode nodes child (·.link parentId)) streamId =
        if streamId = child then (findNode nodes child).map (·.link parentId) else findNode nodes streamId :=
      Table.find_update fun _ => rfl
    have next : findNode (relinkNodes nodes (child :: rest) parentId) streamId = _ :=
      ih (updateNode nodes child (·.link parentId))
    rw [next, first]
    by_cases here : streamId = child
    · subst here
      cases findNode nodes streamId <;> simp [H2PriorityNode.link]
    · simp [here]

theorem forest_relinkNodes (nodes : List H2PriorityNode) (children : List (BitVec 32)) (parentId : BitVec 32) :
    forest (relinkNodes nodes children parentId) = Forest.relink (forest nodes) children parentId := by
  funext streamId
  rw [forest, Forest.relink, find_relinkNodes, forest]
  split_ifs
  · rw [Option.map_map, Option.map_map]
    rfl
  · rfl

/-- A change of one node is seen under its stream id only. -/
theorem forest_updateNode (change : H2PriorityNode → H2PriorityNode)
    (after : Forest.Entry (BitVec 32) → Forest.Entry (BitVec 32))
    (keeps : ∀ node, (change node).selfStreamId = node.selfStreamId)
    (changed : ∀ node, (change node).entry = after node.entry) (other : BitVec 32) :
    forest (updateNode nodes streamId change) other =
      if other = streamId then (forest nodes other).map after else forest nodes other := by
  have found : findNode (updateNode nodes streamId change) other =
      if other = streamId then (findNode nodes streamId).map change else findNode nodes other :=
        Table.find_update keeps
  rw [forest, found]
  split_ifs with here
  · rw [here, forest, Option.map_map, Option.map_map]
    exact congrArg (fun view => Option.map view _) (funext changed)
  · rfl

/-- A list is seen under its stream id only. -/
theorem forest_list (list : List (BitVec 32)) (other : BitVec 32) :
    forest (updateNode nodes streamId (·.list list)) other =
      if other = streamId then (forest nodes other).map fun entry => { entry with children := list }
      else forest nodes other :=
  forest_updateNode (·.list list) (fun entry => { entry with children := list }) (fun _ => rfl) (fun _ => rfl) other

theorem forest_append (node : H2PriorityNode) (other : BitVec 32) : forest (nodes ++ [node]) other =
    (forest nodes other).or (if node.selfStreamId = other then some node.entry else none) := by
  have found : findNode (nodes ++ [node]) other =
      (findNode nodes other).or (if node.selfStreamId = other then some node else none) := Table.find_append
  rw [forest, found, Option.map_or, forest]
  split_ifs <;> rfl

/-- Stream 0 stands first, and no two nodes share another stream id. -/
structure Slots (ids : List (BitVec 32)) : Prop where
  first : ids.head? = some 0#32
  distinct : ids.Pairwise fun id other => id = other → id = 0#32

/-- A node that is cleared is not found any more, and does not stand before stream 0. -/
theorem forest_zero (slots : Slots (nodes.map (·.selfStreamId))) (below : streamId ≠ 0#32) (other : BitVec 32) :
    forest (updateNode nodes streamId fun _ => zeroNode) other =
      if other = streamId then none else forest nodes other := by
  cases found : findNode nodes streamId with
  | none =>
    have same : updateNode nodes streamId (fun _ => zeroNode) = nodes := Table.update_absent found
    rw [same]
    split_ifs with here
    · rw [here, forest, found, Option.map_none]
    · rfl
  | some node =>
    obtain ⟨earlier, later, rfl, named, others, changed⟩ := Table.split_of_find found
    have cleared : updateNode (earlier ++ node :: later) streamId (fun _ => zeroNode) =
      earlier ++ zeroNode :: later :=
      changed _
    obtain ⟨first, distinct⟩ := slots
    rw [List.map_append, List.map_cons, List.pairwise_append, List.pairwise_cons] at distinct
    have behind : findNode later streamId = none := by
      refine Table.find_eq_none_iff.mpr fun inside => below ?_
      rw [← named]
      exact distinct.2.1.1 streamId inside named
    have front : findNode earlier streamId = none := by
      refine Table.find_eq_none_iff.mpr fun inside => ?_
      obtain ⟨record, present, same⟩ := List.mem_map.mp inside
      exact others record present same
    have view (node : H2PriorityNode) : findNode (earlier ++ node :: later) other =
        (findNode earlier other).or (if node.selfStreamId = other then some node else findNode later other) := by
      rw [findNode, Table.find, List.find?_append, ← Table.find, ← Table.find, Table.find_cons]
      rfl
    rw [cleared, forest, forest, view, view]
    by_cases here : other = streamId
    · have apart : zeroNode.selfStreamId ≠ streamId := Ne.symm below
      rw [if_pos here, here, front, behind, if_neg apart]
      rfl
    · rw [if_neg here, named, if_neg (Ne.symm here)]
      by_cases top : other = 0#32
      · cases earlier with
        | nil =>
          rw [List.nil_append, List.map_cons, List.head?_cons] at first
          exact absurd (named.symm.trans (Option.some.inj first)) below
        | cons root earlier =>
          rw [List.cons_append, List.map_cons, List.head?_cons] at first
          have shown : findNode (root :: earlier) other = some root := by
            rw [findNode, Table.find_cons, if_pos ((Option.some.inj first).trans top.symm)]
          rw [shown, Option.some_or, Option.some_or]
      · have apart : zeroNode.selfStreamId ≠ other := Ne.symm top
        rw [if_neg apart]

theorem forest_eq_none_iff : forest nodes streamId = none ↔ findNode nodes streamId = none := Option.map_eq_none_iff

theorem forest_of_find {node : H2PriorityNode} (found : findNode nodes streamId = some node) :
    forest nodes streamId = some node.entry := by
  rw [forest, found, Option.map_some]

/-- A stream that is there already is attached to its new parent. -/
theorem forest_attach (moved : List (BitVec 32)) (weight : UInt8) (exclusive : Bool) :
    forest (updateNode (relinkNodes nodes moved streamId) streamId (·.place parentId weight exclusive)) =
      Forest.attach (forest nodes) streamId parentId moved := by
  funext other
  rw [forest_updateNode (·.place parentId weight exclusive) (fun entry => { entry with parent := parentId })
    (fun _ => rfl) (fun _ => rfl), forest_relinkNodes, Forest.attach]
  split_ifs
  · rw [Forest.relink]
    split_ifs
    · rw [Option.map_map]
      rfl
    · rfl
  · rfl

/-- A stream that is new is inserted under its parent. -/
theorem forest_insert (fresh : findNode nodes streamId = none) (apart : parentId ≠ streamId)
    (moved kept : List (BitVec 32)) (weight : UInt8) (exclusive : Bool) :
    forest (updateNode (relinkNodes nodes moved streamId) parentId (·.list (kept ++ [streamId])) ++
        [⟨parentId, weight, streamId, exclusive, moved⟩]) =
      Forest.insert (forest nodes) streamId parentId moved kept := by
  funext other
  rw [forest_append, forest_list, forest_relinkNodes, Forest.insert]
  by_cases new : other = streamId
  · subst new
    have missing : Forest.relink (forest nodes) moved other other = none := by
      rw [Forest.relink, forest_eq_none_iff.mpr fresh, Option.map_none, ite_self]
    rw [if_neg (Ne.symm apart), missing, if_pos rfl, if_pos rfl]
    rfl
  · rw [if_neg new, if_neg (Ne.symm new), Option.or_none]

theorem map_relinkNodes (nodes : List H2PriorityNode) (children : List (BitVec 32)) (parentId : BitVec 32) :
    (relinkNodes nodes children parentId).map (·.selfStreamId) = nodes.map (·.selfStreamId) := by
  induction children generalizing nodes with
  | nil => rfl
  | cons child rest ih => exact (ih _).trans (Table.map_update fun _ => rfl)

/-- Links and lists do not change which streams the nodes are for. -/
theorem map_update_relink (change : H2PriorityNode → H2PriorityNode)
    (keeps : ∀ node, (change node).selfStreamId = node.selfStreamId) (children : List (BitVec 32))
    (target other : BitVec 32) :
    (updateNode (relinkNodes nodes children target) other change).map (·.selfStreamId) = nodes.map (·.selfStreamId) :=
  (Table.map_update keeps).trans (map_relinkNodes nodes children target)

/-- A stream that is there is taken out. -/
theorem forest_remove (slots : Slots (nodes.map (·.selfStreamId))) (below : streamId ≠ 0#32) (node : H2PriorityNode)
    (target : BitVec 32) (list : List (BitVec 32)) :
    forest (updateNode (updateNode (relinkNodes nodes node.children target) node.parentStreamId (·.list list))
      streamId fun _ => zeroNode) = Forest.remove (forest nodes) streamId node.entry target list := by
  have same : (updateNode (relinkNodes nodes node.children target) node.parentStreamId (·.list list)).map
      (·.selfStreamId) = nodes.map (·.selfStreamId) :=
    map_update_relink (·.list list) (fun _ => rfl) node.children target node.parentStreamId
  funext other
  rw [forest_zero (same ▸ slots) below, forest_list, forest_relinkNodes]
  rfl

end Lookup

section Steps

variable {tree : H2PriorityTree} {streamId parentId : BitVec 32} {weight : UInt8} {exclusive : Bool}

theorem mem_ids_of_forest {nodes : List H2PriorityNode} {id : BitVec 32} {entry : Forest.Entry (BitVec 32)}
    (found : forest nodes id = some entry) : id ∈ nodes.map (·.selfStreamId) := by
  refine Table.find_isSome_iff.mp (Option.isSome_iff_ne_none.mpr fun missing => ?_)
  rw [forest_eq_none_iff.mpr missing] at found
  exact absurd found (Option.some_ne_none _).symm

/-- Streams that are there, each once, are no more than there are nodes. -/
theorem length_le_nodes {ids : List (BitVec 32)} (distinct : ids.Nodup)
    (present : ∀ id ∈ ids, ∃ entry, forest tree.nodes id = some entry) : ids.length ≤ tree.nodes.length := by
  have inside : ids ⊆ tree.nodes.map (·.selfStreamId) := by
    intro id member
    obtain ⟨entry, found⟩ := present id member
    exact mem_ids_of_forest found
  have fewer := (List.subperm_of_subset distinct inside).length_le
  rwa [List.length_map] at fewer

theorem child_present (rep : tree.Represents) {parent : H2PriorityNode}
    (found : h2PriorityFind tree parentId = some parent)
    {child : BitVec 32} (inside : child ∈ parent.children) : ∃ entry, forest tree.nodes child = some entry := by
  obtain ⟨-, own, here, -⟩ := Forest.Represents.parent_of_child rep (forest_of_find found) inside
  exact ⟨own, here⟩

theorem mem_of_moved {parent : H2PriorityNode} {child : BitVec 32} (inside : child ∈ movedChildren exclusive parent) :
    exclusive = true ∧ child ∈ parent.children := by
  cases exclusive with
  | false => exact absurd inside List.not_mem_nil
  | true => exact ⟨rfl, inside⟩

/-- A parent has room for another child as long as the tree has room for another node. -/
theorem kept_fits (rep : tree.Represents) {parent : H2PriorityNode}
    (found : h2PriorityFind tree parentId = some parent)
    (exclusive : Bool) (room : tree.nodes.length < H2_MAX_PRIORITY_NODES) :
    (keptChildren exclusive parent).length < H2_MAX_PRIORITY_NODES := by
  cases exclusive with
  | true => exact Nat.lt_of_le_of_lt (Nat.zero_le _) room
  | false =>
    have distinct := rep.distinct parentId parent.entry (forest_of_find found)
    exact Nat.lt_of_le_of_lt (length_le_nodes distinct fun child => child_present rep found) room

/-- All children of a node are live. -/
theorem promoted_eq (rep : tree.Represents) {node : H2PriorityNode}
    (found : h2PriorityFind tree streamId = some node) :
    (node.children.filter fun child => (h2PriorityFind tree child).isSome) = node.children := by
  rw [List.filter_eq_self]
  intro child inside
  obtain ⟨own, present⟩ := child_present rep found inside
  exact Table.find_isSome_iff.mpr (mem_ids_of_forest present)

/-- A parent has room for the children of its child. -/
theorem family_fits (rep : tree.Represents) {node parent : H2PriorityNode}
    (found : h2PriorityFind tree streamId = some node)
    (foundParent : h2PriorityFind tree parentId = some parent) (proper : parentId ≠ streamId) :
    ¬ H2_MAX_PRIORITY_NODES < (parent.children ++ node.children).length := by
  have distinct : (parent.children ++ node.children).Nodup := by
    refine List.nodup_append.mpr
      ⟨rep.distinct _ _ (forest_of_find foundParent), rep.distinct _ _ (forest_of_find found), ?_⟩
    rintro child inside other further rfl
    obtain ⟨-, own, here, under⟩ := Forest.Represents.parent_of_child rep (forest_of_find foundParent) inside
    exact proper (under.symm.trans (Forest.Represents.link_of_child rep (forest_of_find found) further here))
  refine Nat.not_lt.mpr (Nat.le_trans (length_le_nodes distinct ?_) tree.fits)
  intro child inside
  rcases List.mem_append.mp inside with inside | inside
  · exact child_present rep foundParent inside
  · exact child_present rep found inside

theorem call_of_ok {call : PriorityCall} {after : H2PriorityTree} (done : tree.result call = .ok after) :
    tree.call call = after := by
  rw [H2PriorityTree.call, done]
  rfl

/-- What a successful call does to a tree that is one. -/
theorem add_spec (rep : tree.Represents) (successful : Successful tree (.add streamId parentId weight exclusive)) :
    ∃ parent after, h2PriorityFind tree parentId = some parent ∧
      tree.call (.add streamId parentId weight exclusive) = after ∧
      ((∃ node, h2PriorityFind tree streamId = some node ∧
          after.nodes.map (·.selfStreamId) = tree.nodes.map (·.selfStreamId) ∧
          forest after.nodes = Forest.attach (forest tree.nodes) streamId parentId (movedChildren exclusive parent)) ∨
        h2PriorityFind tree streamId = none ∧
          after.nodes.map (·.selfStreamId) = tree.nodes.map (·.selfStreamId) ++ [streamId] ∧
          forest after.nodes = Forest.insert (forest tree.nodes) streamId parentId (movedChildren exclusive parent)
            (keptChildren exclusive parent)) := by
  simp only [Successful, H2PriorityTree.result] at successful
  by_cases room : tree.nodes.length < H2_MAX_PRIORITY_NODES
  · cases foundParent : h2PriorityFind tree parentId with
    | none => exact absurd (by rw [h2PriorityAdd, dif_pos room, foundParent]) (successful (-2))
    | some parent =>
      cases found : h2PriorityFind tree streamId with
      | some node =>
        obtain ⟨after, done, nodes⟩ : ∃ after, tree.result (.add streamId parentId weight exclusive) = .ok after ∧
            after.nodes = updateNode (relinkNodes tree.nodes (movedChildren exclusive parent) streamId) streamId
              (·.place parentId (if weight < 1 then 1 else weight) exclusive) := by
          simp only [H2PriorityTree.result, h2PriorityAdd, dif_pos room, foundParent, found]
          exact ⟨_, rfl, rfl⟩
        refine ⟨parent, after, rfl, call_of_ok done, .inl ⟨node, rfl, ?_, ?_⟩⟩
        · rw [nodes]
          exact map_update_relink (·.place parentId _ exclusive) (fun _ => rfl) ..
        · rw [nodes]
          exact forest_attach ..
      | none =>
        have small := kept_fits rep foundParent exclusive room
        have apart : parentId ≠ streamId := by
          rintro rfl
          exact absurd (found.symm.trans foundParent) (Option.some_ne_none _).symm
        obtain ⟨after, done, nodes⟩ : ∃ after, tree.result (.add streamId parentId weight exclusive) = .ok after ∧
            after.nodes = updateNode (relinkNodes tree.nodes (movedChildren exclusive parent) streamId) parentId
                (·.list (keptChildren exclusive parent ++ [streamId])) ++
              [⟨parentId, if weight < 1 then 1 else weight, streamId, exclusive, movedChildren exclusive parent⟩] := by
          simp only [H2PriorityTree.result, h2PriorityAdd, dif_pos room, foundParent, found, if_pos small]
          exact ⟨_, rfl, rfl⟩
        refine ⟨parent, after, rfl, call_of_ok done, .inr ⟨rfl, ?_, ?_⟩⟩
        · rw [nodes, List.map_append, List.map_singleton,
            map_update_relink (·.list (keptChildren exclusive parent ++ [streamId])) fun _ => rfl]
        · rw [nodes]
          exact forest_insert found apart _ _ _ _
  · exact absurd (by rw [h2PriorityAdd, dif_neg room]) (successful (-1))

/-- The entry that is dropped is that of the stream. -/
theorem dropChild_perm (children : List (BitVec 32)) (streamId : BitVec 32) :
    (dropChild children streamId).Perm (children.erase streamId) := by
  rw [dropChild]
  cases found : children.findIdx? (· = streamId) with
  | none =>
    have absent : streamId ∉ children := by
      intro inside
      have missed := List.findIdx?_eq_none_iff.mp found streamId inside
      simp at missed
    rw [List.erase_of_not_mem absent]
  | some i =>
    obtain ⟨earlier, child, later, rfl, rfl, here, others⟩ := split_of_findIdx? found
    have same : child = streamId := of_decide_eq_true here
    subst same
    have absent : child ∉ earlier := fun inside => of_decide_eq_false (others child inside) rfl
    rw [List.erase_append_right _ absent, List.erase_cons_head]
    exact swapRemove_middle earlier child later

theorem slots_zero {nodes : List H2PriorityNode} (slots : Slots (nodes.map (·.selfStreamId))) :
    Slots ((updateNode nodes streamId fun _ => zeroNode).map (·.selfStreamId)) := by
  cases found : findNode nodes streamId with
  | none =>
    have same : updateNode nodes streamId (fun _ => zeroNode) = nodes := Table.update_absent found
    rw [same]
    exact slots
  | some node =>
    obtain ⟨earlier, later, rfl, named, -, changed⟩ := Table.split_of_find found
    have cleared : updateNode (earlier ++ node :: later) streamId (fun _ => zeroNode) =
      earlier ++ zeroNode :: later :=
      changed _
    obtain ⟨first, distinct⟩ := slots
    rw [List.map_append, List.map_cons, List.pairwise_append, List.pairwise_cons] at distinct
    obtain ⟨before, ⟨-, behind⟩, across⟩ := distinct
    rw [cleared]
    constructor
    · cases earlier with
      | nil => rfl
      | cons root earlier => exact first
    · rw [List.map_append, List.map_cons, List.pairwise_append, List.pairwise_cons]
      refine ⟨before, ⟨fun _ _ _ => rfl, behind⟩, ?_⟩
      intro id front other inside same
      rcases List.mem_cons.mp inside with cleared | further
      · exact same.trans cleared
      · exact across id front other (List.mem_cons_of_mem _ further) same

/-- What a successful removal does to a tree that is one. -/
theorem remove_spec (rep : tree.Represents) (slots : Slots (tree.nodes.map (·.selfStreamId)))
    (successful : Successful tree (.remove streamId)) :
    streamId ≠ 0#32 ∧ ∃ node parent after, h2PriorityFind tree streamId = some node ∧
      h2PriorityFind tree node.parentStreamId = some parent ∧ tree.call (.remove streamId) = after ∧
      Slots (after.nodes.map (·.selfStreamId)) ∧
      forest after.nodes = Forest.remove (forest tree.nodes) streamId node.entry parent.parentStreamId
        (dropChild (parent.children ++ node.children) streamId) := by
  simp only [Successful, H2PriorityTree.result] at successful
  by_cases top : streamId = 0#32
  · exact absurd (by rw [h2PriorityRemove, if_pos top]) (successful (-2))
  cases found : h2PriorityFind tree streamId with
  | none => exact absurd (by rw [h2PriorityRemove, if_neg top, found]) (successful (-3))
  | some node =>
    have entry : forest tree.nodes streamId = some node.entry := forest_of_find found
    obtain ⟨above, foundAbove⟩ := Forest.Represents.parent_found rep entry
    obtain ⟨parent, foundParent, -⟩ := Option.map_eq_some_iff.mp foundAbove
    have proper : node.parentStreamId ≠ streamId := Forest.Represents.parent_ne rep entry top
    obtain ⟨after, done, nodes⟩ : ∃ after, tree.result (.remove streamId) = .ok after ∧
        after.nodes = updateNode (updateNode (relinkNodes tree.nodes node.children parent.parentStreamId)
          node.parentStreamId (·.list (dropChild (parent.children ++ node.children) streamId))) streamId
          fun _ => zeroNode := by
      have ended : ¬ (node.parentStreamId = streamId ∧ node.children ≠ []) := fun both => proper both.1
      have foundUp : h2PriorityFind tree node.parentStreamId = some parent := foundParent
      simp only [H2PriorityTree.result, h2PriorityRemove, if_neg top, found, foundUp, promoted_eq rep found,
        if_neg ended, if_neg (family_fits rep found foundUp proper)]
      exact ⟨_, rfl, rfl⟩
    refine ⟨top, node, parent, after, rfl, foundParent, call_of_ok done, ?_, ?_⟩
    · rw [nodes]
      refine slots_zero ?_
      rw [map_update_relink (·.list (dropChild (parent.children ++ node.children) streamId)) fun _ => rfl]
      exact slots
    · rw [nodes]
      exact forest_remove slots top node _ _

theorem slots_call (rep : tree.Represents) (slots : Slots (tree.nodes.map (·.selfStreamId))) (call : PriorityCall)
    (successful : Successful tree call) : Slots ((tree.call call).nodes.map (·.selfStreamId)) := by
  cases call with
  | add streamId parentId weight exclusive =>
    obtain ⟨parent, after, -, done, ⟨node, -, same, -⟩ | ⟨fresh, grown, -⟩⟩ := add_spec rep successful
    · rw [done, same]
      exact slots
    · rw [done, grown]
      obtain ⟨first, distinct⟩ := slots
      refine ⟨?_, List.pairwise_append.mpr ⟨distinct, List.pairwise_singleton _ _, ?_⟩⟩
      · rw [List.head?_append, first, Option.some_or]
      · intro id inside other last same
        rw [List.mem_singleton.mp last] at same
        exact absurd (same ▸ inside) (Table.find_eq_none_iff.mp fresh)
  | remove streamId =>
    obtain ⟨-, node, parent, after, -, -, done, slots, -⟩ := remove_spec rep slots successful
    rw [done]
    exact slots

theorem represents_add_iff (rep : tree.Represents)
    (successful : Successful tree (.add streamId parentId weight exclusive)) :
    (tree.call (.add streamId parentId weight exclusive)).Represents ↔
      Settled tree (.add streamId parentId weight exclusive) := by
  obtain ⟨parent, after, foundParent, done, ⟨node, found, -, view⟩ | ⟨fresh, -, view⟩⟩ := add_spec rep successful
  · have taken : ∀ child ∈ movedChildren exclusive parent, child ∈ parent.entry.children :=
      fun child inside => (mem_of_moved inside).2
    rw [done, H2PriorityTree.Represents, view, Settled, found, foundParent]
    simp only [Option.mem_def, Option.some.injEq, forall_eq']
    by_cases top : streamId = 0#32
    · subst top
      obtain ⟨highest, here, same⟩ := rep.top
      obtain rfl := Option.some.inj (here.symm.trans (forest_of_find found))
      have own : node.parentStreamId = 0#32 := same
      rw [Forest.attach_root_represents_iff rep (forest_of_find foundParent) taken, own]
      simp
    · rw [Forest.attach_represents_iff rep top (forest_of_find found) (forest_of_find foundParent) taken]
      refine and_congr_right fun _ => ?_
      cases exclusive with
      | true => simp [movedChildren, top]
      | false => simp [movedChildren]
  · have split : parent.entry.children.Perm (keptChildren exclusive parent ++ movedChildren exclusive parent) := by
      cases exclusive with
      | true => exact .refl _
      | false => exact .of_eq (List.append_nil _).symm
    have made : Forest.Insertion (forest tree.nodes) 0#32 streamId parentId parent.entry
        (movedChildren exclusive parent) (keptChildren exclusive parent) :=
      ⟨rep, forest_eq_none_iff.mpr fresh, forest_of_find foundParent, split⟩
    rw [done, H2PriorityTree.Represents, view, Settled, fresh]
    exact iff_of_true made.represents fun node absent => absurd absent (Option.some_ne_none node).symm

theorem represents_remove_iff (rep : tree.Represents) (slots : Slots (tree.nodes.map (·.selfStreamId)))
    (successful : Successful tree (.remove streamId)) :
    (tree.call (.remove streamId)).Represents ↔ Settled tree (.remove streamId) := by
  obtain ⟨below, node, parent, after, found, foundParent, done, -, view⟩ := remove_spec rep slots successful
  have entry : forest tree.nodes streamId = some node.entry := forest_of_find found
  have listed : streamId ∈ parent.children :=
    (rep.children _ _ (forest_of_find foundParent) streamId).mpr ⟨below, node.entry, entry, rfl⟩
  have split : (dropChild (parent.children ++ node.children) streamId).Perm
      (parent.entry.children.erase streamId ++ node.entry.children) := by
    refine (dropChild_perm _ _).trans (.of_eq ?_)
    exact List.erase_append_left _ listed
  have made : Forest.Removal (forest tree.nodes) 0#32 streamId node.entry parent.entry
      (dropChild (parent.children ++ node.children) streamId) :=
    ⟨rep, below, entry, forest_of_find foundParent, split⟩
  rw [done, H2PriorityTree.Represents, view, Settled, found]
  refine made.represents_iff.trans ?_
  simp only [Option.mem_def, Option.some.injEq, forall_eq']
  exact Iff.rfl

theorem represents_init : h2PriorityTreeInit.Represents := by
  have found : forest h2PriorityTreeInit.nodes 0#32 = some ⟨0#32, []⟩ := by decide
  have only (id : BitVec 32) (entry : Forest.Entry (BitVec 32))
      (here : forest h2PriorityTreeInit.nodes id = some entry) : id = 0#32 ∧ entry = ⟨0#32, []⟩ := by
    have inside := mem_ids_of_forest here
    obtain rfl : id = 0#32 := List.mem_singleton.mp inside
    exact ⟨rfl, Option.some.inj (here.symm.trans found)⟩
  refine ⟨⟨_, found, rfl⟩, ?_, ?_, ?_⟩
  · intro id entry here
    obtain ⟨rfl, -⟩ := only id entry here
    exact .root
  · intro id entry here
    obtain ⟨-, rfl⟩ := only id entry here
    exact List.nodup_nil
  · intro id entry here child
    obtain ⟨-, rfl⟩ := only id entry here
    refine iff_of_false List.not_mem_nil ?_
    rintro ⟨below, own, present, -⟩
    exact below (only child own present).1

/-- After every successful call the links and lists agree on one tree, exactly if every call leaves the streams that
are there where they are, and only takes out streams without children or right below stream 0. -/
theorem h2_priority_tree_iff (calls : List PriorityCall)
    (successful : Permitted H2PriorityTree.call Successful h2PriorityTreeInit calls) :
    (∀ earlier, earlier <+: calls → (earlier.foldl H2PriorityTree.call h2PriorityTreeInit).Represents) ↔
      Permitted H2PriorityTree.call Settled h2PriorityTreeInit calls := by
  have slots : Slots (h2PriorityTreeInit.nodes.map (·.selfStreamId)) := ⟨rfl, List.pairwise_singleton _ _⟩
  refine Permitted.throughout_iff (motive := fun tree => tree.Represents ∧ Slots (tree.nodes.map (·.selfStreamId)))
    calls successful ⟨represents_init, slots⟩ represents_init ?_ ?_
  · rintro tree call ⟨rep, slots⟩ successful after
    exact ⟨after, slots_call rep slots call successful⟩
  · rintro tree call ⟨rep, slots⟩ successful -
    cases call with
    | add streamId parentId weight exclusive => exact represents_add_iff rep successful
    | remove streamId => exact represents_remove_iff rep slots successful

theorem successful_of_ok {call : PriorityCall} (done : (tree.result call).isOk = true) : Successful tree call := by
  intro code failed
  rw [failed] at done
  exact absurd done Bool.false_ne_true

/-- The streams of the repository's own test, a stream that is put between them and stream 0, and its removal. -/
def testCalls : List PriorityCall :=
  [.add 1#32 0#32 200 false, .add 3#32 0#32 100 false, .add 5#32 0#32 0 true, .add 1#32 5#32 8 false, .remove 5#32]

theorem h2_priority_tree_test :
    Permitted H2PriorityTree.call Settled h2PriorityTreeInit testCalls ∧
      ∀ earlier, earlier <+: testCalls → (earlier.foldl H2PriorityTree.call h2PriorityTreeInit).Represents := by
  refine ⟨by decide, (h2_priority_tree_iff testCalls ?_).mpr (by decide)⟩
  exact ⟨successful_of_ok rfl, successful_of_ok rfl, successful_of_ok rfl, successful_of_ok rfl,
    successful_of_ok rfl, trivial⟩

/-- Stream 3 is moved under stream 1, which does not list it. -/
def movingCalls : List PriorityCall := [.add 1#32 0#32 16 false, .add 3#32 0#32 16 false, .add 3#32 1#32 16 false]

theorem moved_stream_not_listed :
    Permitted H2PriorityTree.call Successful h2PriorityTreeInit movingCalls ∧
      ¬ (movingCalls.foldl H2PriorityTree.call h2PriorityTreeInit).Represents := by
  refine ⟨⟨successful_of_ok rfl, successful_of_ok rfl, successful_of_ok rfl, trivial⟩, ?_⟩
  intro rep
  have listed := (rep.children 1#32 ⟨0#32, []⟩ (by decide) 3#32).mpr ⟨by decide, ⟨1#32, []⟩, by decide, rfl⟩
  exact absurd listed List.not_mem_nil

end Steps

end MiniNetDist.AppProtocol.H2Priority
