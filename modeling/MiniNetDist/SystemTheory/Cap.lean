import MiniNetDist.Library.Run
import MiniNetDist.Library.Table

/-! The replicated store of `mini-dist-system-theory/src/cap_theorem.c`. In CP mode reads and writes
need a majority, so a write misses one of the three nodes at most; but a read takes the first value it
finds on the nodes it reaches, whatever its age. -/

namespace MiniNetDist.SystemTheory.Cap

open Library

def CAP_MAX_NODES : Nat := 3
def CAP_MAX_VALUE_LEN : Nat := 64

inductive CAPMode where
  | cpMode
  | apMode
  | caMode
  deriving DecidableEq, Repr

structure CAPNode where
  id : Nat
  value : CString
  online : Bool
  deriving DecidableEq, Repr

structure DistributedStore where
  nodes : Nat → CAPNode
  partitionBetween : Nat → Nat → Bool
  mode : CAPMode
  nodeCount : Nat

def capConfigure (mode : CAPMode) : DistributedStore :=
  { nodes := fun i => ⟨i, [], true⟩
    partitionBetween := fun _ _ => false
    mode
    nodeCount := CAP_MAX_NODES }

def canReach (store : DistributedStore) (source target : Nat) : Bool :=
  source = target || !store.partitionBetween source target

def quorumSize (store : DistributedStore) : Nat :=
  (List.range store.nodeCount).countP (fun i => (store.nodes i).online) / 2 + 1

/-- Whether a node is online and the one that asks can reach it. -/
def DistributedStore.answers (store : DistributedStore) (nodeId i : Nat) : Bool :=
  (store.nodes i).online && canReach store nodeId i

def reachableNodes (store : DistributedStore) (nodeId : Nat) : Nat :=
  (List.range store.nodeCount).countP (store.answers nodeId)

def CAPNode.put (value : CString) (node : CAPNode) : CAPNode :=
  { node with value := strncpy value (CAP_MAX_VALUE_LEN - 1) }

/-- Write a value on the nodes of a set. -/
def DistributedStore.putOn (store : DistributedStore) (chosen : Nat → Bool) (value : CString) : DistributedStore :=
  { store with
    nodes := fun i => if i < store.nodeCount && chosen i then (store.nodes i).put value else store.nodes i }

/-- A node that is valid and online. -/
def DistributedStore.serves (store : DistributedStore) (nodeId : Int) : Bool :=
  0 ≤ nodeId && nodeId < store.nodeCount && (store.nodes nodeId.toNat).online

def capWrite (store : DistributedStore) (nodeId : Int) (value : CString) : DistributedStore × Bool :=
  if !store.serves nodeId then (store, false)
  else
    let onReached := store.putOn (fun i => i = nodeId.toNat || store.answers nodeId.toNat i) value
    match store.mode with
    | .caMode => (store.putOn (fun i => (store.nodes i).online) value, true)
    | .cpMode =>
      if reachableNodes store nodeId.toNat < quorumSize store then (store, false) else (onReached, true)
    | .apMode => (onReached, true)

/-- The first value there is on the nodes a read reaches, or the empty string. -/
def DistributedStore.best (store : DistributedStore) (nodeId : Nat) : CString :=
  match (List.range store.nodeCount).find? (fun i => store.answers nodeId i && (store.nodes i).value ≠ []) with
  | some i => strncpy (store.nodes i).value (CAP_MAX_VALUE_LEN - 1)
  | none => []

/-- The result, and the text in the buffer of `maxLen` bytes that held `outValue`. -/
def capRead (store : DistributedStore) (nodeId : Int) (outValue : CString) (maxLen : Nat) : Bool × CString :=
  if !store.serves nodeId then (false, outValue)
  else
    match store.mode with
    | .cpMode =>
      if reachableNodes store nodeId.toNat < quorumSize store then (false, [])
      else (true, strncpy (store.best nodeId.toNat) (maxLen - 1))
    | .apMode | .caMode => (true, strncpy (store.nodes nodeId.toNat).value (maxLen - 1))

/-- Cut the connection between two nodes, or restore it. -/
def setPartition (cut : Bool) (store : DistributedStore) (nodeA nodeB : Int) : DistributedStore :=
  if nodeA < 0 ∨ nodeA ≥ store.nodeCount then store
  else if nodeB < 0 ∨ nodeB ≥ store.nodeCount then store
  else if nodeA = nodeB then store
  else
    { store with
      partitionBetween := fun i j =>
        if (i = nodeA.toNat ∧ j = nodeB.toNat) ∨ (i = nodeB.toNat ∧ j = nodeA.toNat) then cut
        else store.partitionBetween i j }

def capCreatePartition : DistributedStore → Int → Int → DistributedStore := setPartition true
def capHealPartition : DistributedStore → Int → Int → DistributedStore := setPartition false

section Session

/-- A write that returned true, with the nodes it reached. -/
structure Accepted where
  value : CString
  reached : Nat → Bool

/-- The store and the accepted writes, the most recent one first. -/
structure Session where
  store : DistributedStore
  accepted : List Accepted

inductive CapCall where
  | createPartition (nodeA nodeB : Int)
  | healPartition (nodeA nodeB : Int)
  | write (nodeId : Int) (value : CString)
  | read (nodeId : Int) (maxLen : Nat)
  deriving DecidableEq, Repr

def sessionInit : Session := ⟨capConfigure .cpMode, []⟩

def sessionStep (session : Session) : CapCall → Session
  | .createPartition nodeA nodeB => { session with store := capCreatePartition session.store nodeA nodeB }
  | .healPartition nodeA nodeB => { session with store := capHealPartition session.store nodeA nodeB }
  | .write nodeId value =>
    let result := capWrite session.store nodeId value
    ⟨result.1,
      if result.2 then ⟨value, session.store.answers nodeId.toNat⟩ :: session.accepted else session.accepted⟩
  | .read _ _ => session

/-- The value of the most recent accepted write. -/
def Session.latest (session : Session) : CString := (session.accepted.head?.map Accepted.value).getD []

/-- The value of the most recent accepted write that has reached a node. -/
def Session.received (session : Session) (i : Nat) : CString :=
  ((session.accepted.find? (·.reached i)).map Accepted.value).getD []

/-- Node ids are valid, values are not empty and fit their buffer, and so does the end of a string. -/
def Proper (_ : Session) : CapCall → Prop
  | .createPartition _ _ => True
  | .healPartition _ _ => True
  | .write nodeId value =>
    0 ≤ nodeId ∧ nodeId < CAP_MAX_NODES ∧ value ≠ [] ∧ value.length < CAP_MAX_VALUE_LEN
  | .read nodeId maxLen => 0 ≤ nodeId ∧ nodeId < CAP_MAX_NODES ∧ 0 < maxLen

instance (session : Session) (call : CapCall) : Decidable (Proper session call) :=
  match call with
  | .createPartition _ _ => inferInstanceAs (Decidable True)
  | .healPartition _ _ => inferInstanceAs (Decidable True)
  | .write _ _ => inferInstanceAs (Decidable (_ ∧ _))
  | .read _ _ => inferInstanceAs (Decidable (_ ∧ _))

/-- A read that returns true yields the most recent accepted value, as far as the buffer goes. -/
def UpToDate (session : Session) : CapCall → Prop
  | .read nodeId maxLen => ∀ outValue, (capRead session.store nodeId outValue maxLen).1 = true →
      (capRead session.store nodeId outValue maxLen).2 = strncpy session.latest (maxLen - 1)
  | _ => True

/-- No accepted write has reached the first of the nodes that a read reaches, or the last one that
has was of the most recent value. -/
def FirstCurrent (session : Session) : CapCall → Prop
  | .read nodeId maxLen =>
    quorumSize session.store ≤ reachableNodes session.store nodeId.toNat →
      ∀ first, (List.range session.store.nodeCount).find? (session.store.answers nodeId.toNat) = some first →
        (∀ write ∈ session.accepted, write.reached first = false) ∨
          strncpy (session.received first) (maxLen - 1) = strncpy session.latest (maxLen - 1)
  | _ => True

end Session

/-- Two of three nodes cannot both be missing from a majority. -/
theorem majority_misses_one {present : Nat → Bool} (enough : 2 ≤ (List.range CAP_MAX_NODES).countP present)
    {i j : Nat} (here : i < CAP_MAX_NODES) (there : j < CAP_MAX_NODES) (different : i ≠ j) :
    present i = true ∨ present j = true := by
  by_contra missing
  rw [not_or] at missing
  have fewer : (List.range CAP_MAX_NODES).countP present ≤
      (List.range CAP_MAX_NODES).countP fun k => k ≠ i && k ≠ j := by
    refine List.countP_mono_left fun k _ holds => ?_
    have notFirst : k ≠ i := fun same => missing.1 (same ▸ holds)
    have notSecond : k ≠ j := fun same => missing.2 (same ▸ holds)
    simp [notFirst, notSecond]
  have one : ∀ i < CAP_MAX_NODES, ∀ j < CAP_MAX_NODES, i ≠ j →
      ((List.range CAP_MAX_NODES).countP fun k => k ≠ i && k ≠ j) < 2 := by decide
  exact absurd (Nat.le_trans enough fewer) (Nat.not_le.mpr (one i here j there different))

/-- What the accepted writes have left on the nodes. -/
structure Replicated (session : Session) : Prop where
  mode : session.store.mode = .cpMode
  count : session.store.nodeCount = CAP_MAX_NODES
  online : ∀ i, (session.store.nodes i).online = true
  values : ∀ i < CAP_MAX_NODES, (session.store.nodes i).value = session.received i
  proper : ∀ write ∈ session.accepted, write.value ≠ [] ∧ write.value.length < CAP_MAX_VALUE_LEN
  quorum : ∀ write ∈ session.accepted, 2 ≤ (List.range CAP_MAX_NODES).countP write.reached

section Replicated

variable {session : Session} {nodeId : Int}

theorem replicated_init : Replicated sessionInit :=
  ⟨rfl, rfl, fun _ => rfl, fun _ _ => rfl, by simp [sessionInit], by simp [sessionInit]⟩

theorem Replicated.quorumSize_eq (replicated : Replicated session) : quorumSize session.store = 2 := by
  unfold quorumSize
  rw [replicated.count, List.countP_eq_length.mpr (fun i _ => replicated.online i)]
  rfl

theorem Replicated.serves (replicated : Replicated session) (atLeast : 0 ≤ nodeId) (below : nodeId < CAP_MAX_NODES) :
    session.store.serves nodeId = true := by
  simp [DistributedStore.serves, replicated.count, replicated.online, atLeast, below]

theorem Replicated.partition (replicated : Replicated session) (cut : Bool) (nodeA nodeB : Int) :
    Replicated { session with store := setPartition cut session.store nodeA nodeB } := by
  obtain ⟨mode, count, online, values, proper, quorum⟩ := replicated
  unfold setPartition
  split_ifs <;> exact ⟨mode, count, online, values, proper, quorum⟩

/-- A write is accepted exactly if its node reaches two, and reaches what it can reach then. -/
theorem Replicated.write_cases (replicated : Replicated session) (atLeast : 0 ≤ nodeId) (below : nodeId < CAP_MAX_NODES)
    (value : CString) :
    sessionStep session (.write nodeId value) = session ∨
    2 ≤ (List.range CAP_MAX_NODES).countP (session.store.answers nodeId.toNat) ∧
      sessionStep session (.write nodeId value) =
        ⟨session.store.putOn (session.store.answers nodeId.toNat) value,
          ⟨value, session.store.answers nodeId.toNat⟩ :: session.accepted⟩ := by
  have self : session.store.answers nodeId.toNat nodeId.toNat = true := by
    simp [DistributedStore.answers, replicated.online, canReach]
  have same : (fun i => i = nodeId.toNat || session.store.answers nodeId.toNat i) =
      session.store.answers nodeId.toNat := by
    funext i
    by_cases here : i = nodeId.toNat
    · rw [here, self]
      simp
    · simp [here]
  have written : capWrite session.store nodeId value =
      if reachableNodes session.store nodeId.toNat < 2 then (session.store, false)
      else (session.store.putOn (session.store.answers nodeId.toNat) value, true) := by
    unfold capWrite
    rw [replicated.serves atLeast below, replicated.mode, replicated.quorumSize_eq, same]
    rfl
  have stepped : sessionStep session (.write nodeId value) = ⟨(capWrite session.store nodeId value).1,
      if (capWrite session.store nodeId value).2 then ⟨value, session.store.answers nodeId.toNat⟩ :: session.accepted
      else session.accepted⟩ := rfl
  rw [stepped, written]
  by_cases few : reachableNodes session.store nodeId.toNat < 2
  · rw [if_pos few]
    exact .inl rfl
  · rw [if_neg few]
    unfold reachableNodes at few
    rw [replicated.count] at few
    exact .inr ⟨Nat.not_lt.mp few, rfl⟩

theorem received_cons (store : DistributedStore) (write : Accepted) (earlier : List Accepted) (i : Nat) :
    Session.received ⟨store, write :: earlier⟩ i =
      if write.reached i then write.value else Session.received ⟨store, earlier⟩ i := by
  unfold Session.received
  dsimp only
  rw [List.find?_cons]
  cases write.reached i <;> rfl

theorem Replicated.write (replicated : Replicated session) (atLeast : 0 ≤ nodeId) (below : nodeId < CAP_MAX_NODES)
    {value : CString} (some : value ≠ []) (short : value.length < CAP_MAX_VALUE_LEN) :
    Replicated (sessionStep session (.write nodeId value)) := by
  rcases replicated.write_cases atLeast below value with refused | ⟨enough, accepted⟩
  · rw [refused]
    exact replicated
  · rw [accepted]
    refine ⟨replicated.mode, replicated.count, ?_, ?_, ?_, ?_⟩
    · intro i
      dsimp only [DistributedStore.putOn]
      split_ifs <;> exact replicated.online i
    · intro i small
      rw [received_cons]
      dsimp only [DistributedStore.putOn]
      rw [replicated.count, decide_eq_true small, Bool.true_and]
      split_ifs with reached
      · exact strncpy_of_lt short
      · exact replicated.values i small
    · intro write inside
      rcases List.mem_cons.mp inside with rfl | earlier
      · exact ⟨some, short⟩
      · exact replicated.proper write earlier
    · intro write inside
      rcases List.mem_cons.mp inside with rfl | earlier
      · exact enough
      · exact replicated.quorum write earlier

/-- A node is empty exactly if no accepted write has reached it. -/
theorem Replicated.received_eq_nil_iff (replicated : Replicated session) (i : Nat) :
    session.received i = [] ↔ ∀ write ∈ session.accepted, write.reached i = false := by
  unfold Session.received
  cases found : session.accepted.find? (·.reached i) with
  | none => simpa using found
  | some write =>
    have inside := List.mem_of_find?_eq_some found
    have reached : write.reached i = true := by simpa using List.find?_some found
    constructor
    · intro empty
      exact absurd empty (replicated.proper write inside).1
    · intro none
      rw [none write inside] at reached
      cases reached

theorem Replicated.received_length (replicated : Replicated session) (i : Nat) :
    (session.received i).length < CAP_MAX_VALUE_LEN := by
  unfold Session.received
  cases found : session.accepted.find? (·.reached i) with
  | none => exact Nat.zero_lt_succ _
  | some write => exact (replicated.proper write (List.mem_of_find?_eq_some found)).2

/-- A write that has missed a node is the last to have reached every other one. -/
theorem Replicated.received_eq_latest (replicated : Replicated session) {missed i : Nat}
    (unreached : ∀ write ∈ session.accepted, write.reached missed = false) (there : missed < CAP_MAX_NODES)
    (here : i < CAP_MAX_NODES) (different : i ≠ missed) : session.received i = session.latest := by
  obtain ⟨store, accepted⟩ := session
  cases accepted with
  | nil => rfl
  | cons write earlier =>
    rw [received_cons]
    have reached := majority_misses_one (replicated.quorum write List.mem_cons_self) here there different
    rw [unreached write List.mem_cons_self, or_iff_left Bool.false_ne_true] at reached
    rw [if_pos reached]
    rfl

/-- A majority of three has a node besides any given one. -/
theorem exists_other {present : Nat → Bool} (enough : 2 ≤ (List.range CAP_MAX_NODES).countP present) {first : Nat}
    (here : first < CAP_MAX_NODES) : ∃ i < CAP_MAX_NODES, i ≠ first ∧ present i = true := by
  have others : ∀ first < CAP_MAX_NODES, ∃ i < CAP_MAX_NODES, ∃ j < CAP_MAX_NODES,
      i ≠ first ∧ j ≠ first ∧ i ≠ j := by decide
  obtain ⟨i, iBelow, j, jBelow, iOther, jOther, different⟩ := others first here
  rcases majority_misses_one enough iBelow jBelow different with present | present
  · exact ⟨i, iBelow, iOther, present⟩
  · exact ⟨j, jBelow, jOther, present⟩

/-- The text that a read finds on a node. -/
theorem Replicated.best_of_find (replicated : Replicated session) {source i : Nat}
    (found : (List.range CAP_MAX_NODES).find?
      (fun i => session.store.answers source i && (session.store.nodes i).value ≠ []) = some i) :
    session.store.best source = session.received i := by
  have small := List.mem_range.mp (List.mem_of_find?_eq_some found)
  unfold DistributedStore.best
  rw [replicated.count, found]
  dsimp only
  rw [replicated.values i small, strncpy_of_lt (replicated.received_length i)]

/-- A read finds the value of the first node it reaches, and the most recent one if that is empty. -/
theorem Replicated.best_eq (replicated : Replicated session) {source first : Nat}
    (enough : 2 ≤ (List.range CAP_MAX_NODES).countP (session.store.answers source))
    (reaches : (List.range CAP_MAX_NODES).find? (session.store.answers source) = some first) :
    session.store.best source =
      if session.received first = [] then session.latest else session.received first := by
  have small := List.mem_range.mp (List.mem_of_find?_eq_some reaches)
  split_ifs with empty
  · have unreached := (replicated.received_eq_nil_iff first).mp empty
    cases found : (List.range CAP_MAX_NODES).find?
        (fun i => session.store.answers source i && (session.store.nodes i).value ≠ []) with
    | none =>
      obtain ⟨other, below, different, answers⟩ := exists_other enough small
      have bare := List.find?_eq_none.mp found other (List.mem_range.mpr below)
      rw [replicated.values other below, replicated.received_eq_latest unreached small below different, answers] at bare
      have none : session.latest = [] := by simpa using bare
      unfold DistributedStore.best
      rw [replicated.count, found, none]
    | some i =>
      have below := List.mem_range.mp (List.mem_of_find?_eq_some found)
      have held := List.find?_some found
      rw [replicated.values i below, Bool.and_eq_true, decide_eq_true_eq] at held
      have different : i ≠ first := fun same => held.2 (same ▸ empty)
      rw [replicated.best_of_find found, replicated.received_eq_latest unreached small below different]
  · obtain ⟨answers, before, after, split, none⟩ := List.find?_eq_some_iff_append.mp reaches
    refine replicated.best_of_find (List.find?_eq_some_iff_append.mpr ⟨?_, before, after, split, ?_⟩)
    · rw [replicated.values first small, answers, Bool.true_and]
      exact decide_eq_true empty
    · intro other earlier
      have silent := none other earlier
      simp only [Bool.not_eq_true'] at silent
      simp [silent]

theorem Replicated.read_iff (replicated : Replicated session) (atLeast : 0 ≤ nodeId) (below : nodeId < CAP_MAX_NODES)
    (maxLen : Nat) : UpToDate session (.read nodeId maxLen) ↔ FirstCurrent session (.read nodeId maxLen) := by
  have result : ∀ outValue, capRead session.store nodeId outValue maxLen =
      if reachableNodes session.store nodeId.toNat < quorumSize session.store then (false, [])
      else (true, strncpy (session.store.best nodeId.toNat) (maxLen - 1)) := by
    intro outValue
    unfold capRead
    rw [replicated.serves atLeast below, replicated.mode]
    rfl
  by_cases few : reachableNodes session.store nodeId.toNat < quorumSize session.store
  · constructor
    · intro _ enough
      exact absurd few (Nat.not_lt.mpr enough)
    · intro _ outValue accepted
      rw [result, if_pos few] at accepted
      cases accepted
  · have enough : 2 ≤ (List.range CAP_MAX_NODES).countP (session.store.answers nodeId.toNat) := by
      rw [← replicated.count, ← replicated.quorumSize_eq]
      exact Nat.not_lt.mp few
    obtain ⟨first, reaches⟩ : ∃ first, (List.range CAP_MAX_NODES).find?
        (session.store.answers nodeId.toNat) = some first := by
      obtain ⟨i, inside, answers⟩ := List.countP_pos_iff.mp (Nat.lt_of_lt_of_le Nat.two_pos enough)
      exact Option.isSome_iff_exists.mp (List.find?_isSome.mpr ⟨i, inside, answers⟩)
    have yields : UpToDate session (.read nodeId maxLen) ↔
        strncpy (session.store.best nodeId.toNat) (maxLen - 1) = strncpy session.latest (maxLen - 1) := by
      simp [UpToDate, result, few]
    have current : FirstCurrent session (.read nodeId maxLen) ↔
        session.received first = [] ∨
          strncpy (session.received first) (maxLen - 1) = strncpy session.latest (maxLen - 1) := by
      simp [FirstCurrent, Nat.not_lt.mp few, replicated.count, reaches, replicated.received_eq_nil_iff]
    rw [yields, current, replicated.best_eq enough reaches]
    split_ifs with empty
    · exact ⟨fun _ => .inl empty, fun _ => rfl⟩
    · exact (or_iff_right empty).symm

theorem Replicated.step (replicated : Replicated session) (call : CapCall) (proper : Proper session call) :
    Replicated (sessionStep session call) := by
  cases call with
  | createPartition nodeA nodeB => exact replicated.partition true nodeA nodeB
  | healPartition nodeA nodeB => exact replicated.partition false nodeA nodeB
  | write nodeId value =>
    obtain ⟨atLeast, below, some, short⟩ := proper
    exact replicated.write atLeast below some short
  | read nodeId maxLen => exact replicated

end Replicated

/-- In CP mode all reads of a run that are not refused yield the most recent accepted value exactly
if, at each of them, the first node reached has that value or none. -/
theorem cap_upToDate_iff (calls : List CapCall) (proper : Permitted sessionStep Proper sessionInit calls) :
    Permitted sessionStep UpToDate sessionInit calls ↔ Permitted sessionStep FirstCurrent sessionInit calls := by
  refine Permitted.congr calls proper replicated_init ?_ ?_
  · intro session call replicated proper _
    exact replicated.step call proper
  · intro session call replicated proper
    cases call with
    | createPartition _ _ => exact Iff.rfl
    | healPartition _ _ => exact Iff.rfl
    | write _ _ => exact Iff.rfl
    | read nodeId maxLen => exact replicated.read_iff proper.1 proper.2.1 maxLen

/-- A write while one node is cut off, and a read when it is back. -/
def cutOff (missed writer : Int) : List CapCall :=
  [.write writer [97], .createPartition missed 0, .createPartition missed 1, .createPartition missed 2,
    .write writer [98], .healPartition missed 0, .healPartition missed 1, .healPartition missed 2]

/-- The last node was missed, and the read finds the value on the first one. -/
theorem lastMissed_upToDate : Permitted sessionStep UpToDate sessionInit (cutOff 2 0 ++ [.read 2 64]) := by
  refine (cap_upToDate_iff _ (by decide)).mpr
    ⟨trivial, trivial, trivial, trivial, trivial, trivial, trivial, trivial, ?_, trivial⟩
  intro _ first found
  obtain rfl : 0 = first := Option.some.inj found
  exact .inr (by decide)

/-- The first node was missed, and every read finds the old value there. -/
theorem firstMissed_stale :
    Permitted sessionStep Proper sessionInit (cutOff 0 1 ++ [.read 1 64]) ∧
      ((cutOff 0 1).foldl sessionStep sessionInit).latest = [98] ∧
      capRead ((cutOff 0 1).foldl sessionStep sessionInit).store 1 [] 64 = (true, [97]) ∧
      ¬ Permitted sessionStep UpToDate sessionInit (cutOff 0 1 ++ [.read 1 64]) := by
  refine ⟨by decide, by decide, by decide, ?_⟩
  intro upToDate
  have last := upToDate.2.2.2.2.2.2.2.2.1
  exact absurd (last [] (by decide)) (by decide)

end MiniNetDist.SystemTheory.Cap
