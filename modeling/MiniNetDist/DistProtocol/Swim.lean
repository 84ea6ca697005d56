import MiniNetDist.Library.Table

/-! Membership by pinging, `mini-dist-protocol/src/swim.c`. The numbers that `swim_rand` returns during a
call are given as a stream. -/

namespace MiniNetDist.DistProtocol.Swim

open Library

def SWIM_MAX_MEMBERS : Nat := 16
def SWIM_INDIRECT_PING_COUNT : Nat := 3
def SWIM_PROTOCOL_PERIOD_MS : UInt64 := 1000
def SWIM_DEAD_TIMEOUT_MS : UInt64 := 3000

inductive SWIMMemberState where
  | alive
  | suspected
  | dead
  deriving DecidableEq, Repr

inductive SWIMMessageType where
  | ping
  | ack
  | indirectPing
  | indirectAck
  | join
  | leave
  deriving DecidableEq, Repr

structure SWIMMember where
  id : Int
  address : UInt32
  state : SWIMMemberState
  incarnation : UInt64
  pingTarget : Int
  suspectSinceMs : UInt64
  lastHeardMs : UInt64
  active : Bool
  deriving DecidableEq, Repr

structure SWIMMessage where
  type : SWIMMessageType
  senderId : Int
  targetId : Int
  originId : Int
  membershipChanges : List SWIMMember
  deriving DecidableEq, Repr

/-- The first `member_count` members. -/
structure SWIMCluster where
  members : List SWIMMember
  protocolTimeMs : UInt64
  pingSequenceIndex : Nat
  deriving DecidableEq, Repr

/-- How a call can fail: an access to `members` at or beyond `member_count`, or a remainder by zero. -/
inductive SWIMFault where
  | outside
  | division
  deriving DecidableEq, Repr

abbrev Draws := Nat → Nat

def Draws.next (draws : Draws) : Nat × Draws := (draws 0, fun k => draws (k + 1))

def newMember (id : Int) (address : UInt32) (lastHeardMs : UInt64) : SWIMMember :=
  ⟨id, address, .alive, 0, -1, 0, lastHeardMs, true⟩

/-- `n` is at most `SWIM_MAX_MEMBERS`, which `swim_init` does not check. -/
def swimInit (n : Nat) : SWIMCluster :=
  ⟨(List.range n).map fun i : Nat => newMember i (.ofNat (0xC0A80000 + i)) 0, 0, 0⟩

section Receive

/-- One round of the last loop of `swim_on_receive`. -/
def applyChange (now : UInt64) (members : List SWIMMember) (change : SWIMMember) : List SWIMMember :=
  Table.update SWIMMember.id members change.id fun member =>
    if change.incarnation > member.incarnation then
      { member with
        incarnation := change.incarnation, state := change.state
        suspectSinceMs := if change.state = .suspected then now else member.suspectSinceMs }
    else member

/-- The members a message was heard from, in the first part of `swim_on_receive`. -/
def heardFrom (now : UInt64) (hears : SWIMMember → Bool) (members : List SWIMMember) : List SWIMMember :=
  members.map fun member => if hears member then { member with lastHeardMs := now } else member

/-- A message of type JOIN carries the new member as its first change. -/
def swimOnReceive (cluster : SWIMCluster) (msg : SWIMMessage) : SWIMCluster :=
  let now := cluster.protocolTimeMs
  let members :=
    match msg.type with
    | .ping => heardFrom now (fun member => member.id = msg.targetId && member.active) cluster.members
    | .ack => heardFrom now (fun member => member.id = msg.senderId) cluster.members
    | .indirectPing => heardFrom now (fun member => member.id = msg.originId && member.active) cluster.members
    | .join =>
      if cluster.members.any (·.id = msg.originId) then cluster.members
      else if cluster.members.length < SWIM_MAX_MEMBERS then
        cluster.members ++ (msg.membershipChanges.head?.map fun member => { member with lastHeardMs := now }).toList
      else cluster.members
    | _ => cluster.members
  { cluster with members := msg.membershipChanges.foldl (applyChange now) members }

end Receive

def swimJoin (cluster : SWIMCluster) (newId : Int) (address : UInt32) (contactId : Int) : SWIMCluster :=
  if cluster.members.length ≥ SWIM_MAX_MEMBERS then cluster
  else
    let joined := newMember newId address cluster.protocolTimeMs
    let cluster := { cluster with members := cluster.members ++ [joined] }
    if contactId ≥ 0 then swimOnReceive cluster ⟨.join, newId, contactId, newId, [joined]⟩ else cluster

/-- `from_id` is used as a position. -/
def swimPing (cluster : SWIMCluster) (fromId : Nat) (targetId : Int) : Except SWIMFault (SWIMCluster × Bool) :=
  if cluster.members.any fun member => member.id = targetId && member.active && member.state ≠ .dead then
    if fromId < cluster.members.length then
      let members := cluster.members.modify fromId fun member => { member with pingTarget := targetId }
      .ok ({ cluster with members }, true)
    else .error .outside
  else .ok (cluster, false)

def swimPingSuccess (cluster : SWIMCluster) (targetId : Int) (incarnation : UInt64) : SWIMCluster × Bool :=
  let members := Table.update SWIMMember.id cluster.members targetId fun member =>
    let heard := max incarnation member.incarnation
    { member with
      lastHeardMs := cluster.protocolTimeMs, pingTarget := -1
      incarnation := if member.state = .suspected then heard + 1 else heard
      state := if member.state = .suspected then .alive else member.state }
  ({ cluster with members }, cluster.members.any (·.id = targetId))

/-- The member at a position. -/
def SWIMCluster.memberAt (cluster : SWIMCluster) (position : Int) : Except SWIMFault SWIMMember :=
  if position < 0 then .error .outside
  else
    match cluster.members[position.toNat]? with
    | some member => .ok member
    | none => .error .outside

/-- The loop of `swim_indirect_ping` with the responses so far; the suspect's id is used as a position. -/
def swimIndirectFrom (cluster : SWIMCluster) (suspectId : Int) (responses : Nat) : List Int → Except SWIMFault Nat
  | [] => .ok responses
  | via :: rest =>
    if cluster.members.any fun member => member.id = via && member.active then
      match cluster.memberAt suspectId with
      | .ok suspect => swimIndirectFrom cluster suspectId (if suspect.active then responses + 1 else responses) rest
      | .error fault => .error fault
    else swimIndirectFrom cluster suspectId responses rest

def swimIndirectPing (cluster : SWIMCluster) (suspectId : Int) (throughIds : List Int) : Except SWIMFault Bool :=
  (swimIndirectFrom cluster suspectId 0 throughIds).map (· > 0)

def swimSuspect (cluster : SWIMCluster) (suspectId : Int) : SWIMCluster :=
  { cluster with
    members := Table.update SWIMMember.id cluster.members suspectId fun member =>
      if member.state = .alive then
        { member with
          state := .suspected, suspectSinceMs := cluster.protocolTimeMs, incarnation := member.incarnation + 1 }
      else member }

/-- The members that `swim_random_member` chooses from. -/
def SWIMCluster.choices (cluster : SWIMCluster) (excludeId : Int) : List SWIMMember :=
  cluster.members.filter fun member => member.id ≠ excludeId && member.active && member.state ≠ .dead

/-- The id that was drawn, or -1 without a draw. -/
def swimRandomMember (cluster : SWIMCluster) (excludeId : Int) (draws : Draws) : Int × Draws :=
  let choices := cluster.choices excludeId
  if choices.length = 0 then (-1, draws)
  else
    let (drawn, draws) := draws.next
    ((choices[drawn % choices.length]?.map (·.id)).getD (-1), draws)

/-- One round of the loop of `swim_disseminate`: the member at position `i` sends what it knows of. -/
def disseminateFrom (cluster : SWIMCluster × Draws) (i : Nat) : SWIMCluster × Draws :=
  match cluster.1.members[i]? with
  | none => cluster
  | some sender =>
    if !sender.active then cluster
    else
      let (target, draws) := swimRandomMember cluster.1 i cluster.2
      if target < 0 then (cluster.1, draws)
      else
        let changes := cluster.1.members.filter fun member => member.state = .suspected || member.state = .dead
        (swimOnReceive cluster.1 ⟨.ping, i, target, i, changes.take SWIM_MAX_MEMBERS⟩, draws)

def swimDisseminate (cluster : SWIMCluster) (draws : Draws) : SWIMCluster :=
  ((List.range cluster.members.length).foldl disseminateFrom (cluster, draws)).1

/-- The first loop of `swim_tick`. -/
def expireSuspects (cluster : SWIMCluster) : SWIMCluster :=
  { cluster with
    members := cluster.members.map fun member =>
      if member.active ∧ member.state = .suspected ∧
          cluster.protocolTimeMs - member.suspectSinceMs > SWIM_DEAD_TIMEOUT_MS then
        { member with state := .dead, incarnation := member.incarnation + 1 }
      else member }

/-- The members that `swim_tick` asks to ping a target for it. -/
def SWIMCluster.helpers (cluster : SWIMCluster) (target : Int) : List Int :=
  ((cluster.members.filter fun member =>
    member.id ≠ (cluster.pingSequenceIndex : Int) && member.id ≠ target && member.active).map (·.id)).take
      SWIM_INDIRECT_PING_COUNT

/-- The part of `swim_tick` for a target; an acknowledgement comes for a draw below 20 of 100. -/
def pingTarget (cluster : SWIMCluster) (target : Int) (drawn : Nat) : Except SWIMFault SWIMCluster :=
  match swimPing cluster cluster.pingSequenceIndex target with
  | .error fault => .error fault
  | .ok (cluster, _) =>
    if drawn % 100 < 20 then .ok (swimPingSuccess cluster target 0).1
    else
      let indirect := cluster.helpers target
      if indirect.length > 0 then
        match swimIndirectPing cluster target indirect with
        | .error fault => .error fault
        | .ok ok => .ok (if ok then cluster else swimSuspect cluster target)
      else .ok cluster

/-- The end of `swim_tick` in a period: the next index, and what everybody knows is sent. -/
def finishPeriod (cluster : SWIMCluster) (draws : Draws) : Except SWIMFault SWIMCluster :=
  if cluster.members.length = 0 then .error .division
  else
    .ok (swimDisseminate { cluster with
      pingSequenceIndex := (cluster.pingSequenceIndex + 1) % cluster.members.length } draws)

/-- The time has passed a multiple of the protocol period, or wrapped around. -/
def periodDue (cluster : SWIMCluster) (deltaMs : UInt64) : Bool :=
  cluster.protocolTimeMs % SWIM_PROTOCOL_PERIOD_MS < deltaMs || cluster.protocolTimeMs < deltaMs

/-- What `swim_tick` does in a period that is due. -/
def runPeriod (cluster : SWIMCluster) (draws : Draws) : Except SWIMFault SWIMCluster :=
  let (target, draws) := swimRandomMember cluster cluster.pingSequenceIndex draws
  if target ≥ 0 then
    let (drawn, draws) := draws.next
    match pingTarget cluster target drawn with
    | .error fault => .error fault
    | .ok cluster => finishPeriod cluster draws
  else finishPeriod cluster draws

def swimTick (cluster : SWIMCluster) (deltaMs : UInt64) (draws : Draws) : Except SWIMFault SWIMCluster :=
  let cluster := expireSuspects { cluster with protocolTimeMs := cluster.protocolTimeMs + deltaMs }
  if periodDue cluster deltaMs then runPeriod cluster draws else .ok cluster

/-- A cluster to which members with these ids, addresses and contacts were joined. -/
def swimBuilt (n : Nat) (joins : List (Int × UInt32 × Int)) : SWIMCluster :=
  joins.foldl (fun cluster (newId, address, contactId) => swimJoin cluster newId address contactId) (swimInit n)

/-- A run of ticks, each with its delta and the numbers drawn in it. -/
def swimRun (cluster : SWIMCluster) : List (UInt64 × Draws) → Except SWIMFault SWIMCluster
  | [] => .ok cluster
  | (deltaMs, draws) :: rest =>
    match swimTick cluster deltaMs draws with
    | .error fault => .error fault
    | .ok cluster => swimRun cluster rest

/-- A member that is active comes to be suspected while at least three are active. -/
def SuspectsActive (before after : SWIMCluster) : Prop :=
  3 ≤ before.members.countP (·.active) ∧
    ∃ (i : Nat) (member later : SWIMMember), before.members[i]? = some member ∧ after.members[i]? = some later ∧
      member.active ∧ member.state ≠ .suspected ∧ later.state = .suspected

/-- No run makes an access at or beyond `member_count`, or suspects an active member. -/
def Accurate (cluster : SWIMCluster) : Prop :=
  (∀ ticks, swimRun cluster ticks ≠ .error .outside) ∧
    ∀ ticks before deltaMs draws after, swimRun cluster ticks = .ok before →
      swimTick before deltaMs draws = .ok after → ¬ SuspectsActive before after

/-- What the members of a cluster look like to each other. -/
def SWIMMember.look (member : SWIMMember) : Int × SWIMMemberState × Bool := (member.id, member.state, member.active)

/-- The members have these ids, and all are alive and active. -/
def Standing (ids : List Int) (cluster : SWIMCluster) : Prop :=
  cluster.members.map SWIMMember.look = ids.map fun id => (id, .alive, true)

section Standing

variable {ids : List Int} {cluster later : SWIMCluster} {member : SWIMMember}

theorem Standing.ids_eq (standing : Standing ids cluster) : cluster.members.map (·.id) = ids := by
  have first := congrArg (List.map Prod.fst) standing
  simpa [Function.comp_def, SWIMMember.look] using first

theorem Standing.length_eq (standing : Standing ids cluster) : cluster.members.length = ids.length := by
  simpa using congrArg List.length standing

theorem Standing.of_mem (standing : Standing ids cluster) (among : member ∈ cluster.members) :
    member.id ∈ ids ∧ member.state = .alive ∧ member.active = true := by
  have looks : member.look ∈ cluster.members.map SWIMMember.look := List.mem_map_of_mem among
  rw [standing] at looks
  obtain ⟨id, here, same⟩ := List.mem_map.mp looks
  simp only [SWIMMember.look, Prod.mk.injEq] at same
  exact ⟨same.1 ▸ here, same.2.1.symm, same.2.2.symm⟩

theorem Standing.congr (standing : Standing ids cluster)
    (same : later.members.map SWIMMember.look = cluster.members.map SWIMMember.look) : Standing ids later :=
  same.trans standing

/-- A change that shows on no living member. -/
def Discreet (change : SWIMMember → SWIMMember) : Prop :=
  ∀ member, member.state = .alive → (change member).look = member.look

variable {change : SWIMMember → SWIMMember}

theorem Standing.map_look (standing : Standing ids cluster) (discreet : Discreet change) :
    (cluster.members.map change).map SWIMMember.look = cluster.members.map SWIMMember.look := by
  rw [List.map_map]
  exact List.map_congr_left fun member among => discreet member (standing.of_mem among).2.1

theorem Standing.modify_look (standing : Standing ids cluster) (discreet : Discreet change) (i : Nat) :
    (cluster.members.modify i change).map SWIMMember.look = cluster.members.map SWIMMember.look := by
  have alive : ∀ member ∈ cluster.members, member.state = .alive := fun _ among => (standing.of_mem among).2.1
  revert alive
  generalize cluster.members = members
  intro alive
  induction members generalizing i with
  | nil => cases i <;> rfl
  | cons head rest ih =>
    cases i with
    | zero => simp [discreet head (alive head List.mem_cons_self)]
    | succ i =>
      rw [List.modify_succ_cons, List.map_cons, List.map_cons,
        ih i fun member among => alive member (List.mem_cons_of_mem _ among)]

theorem Standing.update_look (standing : Standing ids cluster) (discreet : Discreet change) (id : Int) :
    (Table.update SWIMMember.id cluster.members id change).map SWIMMember.look =
      cluster.members.map SWIMMember.look := by
  unfold Table.update
  split
  · exact standing.modify_look discreet _
  · rfl

theorem standing_expireSuspects (standing : Standing ids cluster) : Standing ids (expireSuspects cluster) := by
  refine standing.congr (standing.map_look ?_)
  intro member alive
  simp [alive]

theorem standing_swimPingSuccess (standing : Standing ids cluster) (target : Int) (incarnation : UInt64) :
    Standing ids (swimPingSuccess cluster target incarnation).1 := by
  refine standing.congr (standing.update_look ?_ target)
  intro member alive
  simp [SWIMMember.look, alive]

/-- Among members that are all alive there is nothing to tell. -/
theorem standing_disseminateFrom (standing : Standing ids cluster) (draws : Draws) (i : Nat) :
    Standing ids (disseminateFrom (cluster, draws) i).1 ∧
      (disseminateFrom (cluster, draws) i).1.pingSequenceIndex = cluster.pingSequenceIndex := by
  have silent : cluster.members.filter (fun member => member.state = .suspected || member.state = .dead) = [] := by
    rw [List.filter_eq_nil_iff]
    intro member among
    simp [(standing.of_mem among).2.1]
  unfold disseminateFrom
  cases cluster.members[i]? with
  | none => exact ⟨standing, rfl⟩
  | some sender =>
    simp only [silent]
    split
    · exact ⟨standing, rfl⟩
    · split
      · exact ⟨standing, rfl⟩
      · refine ⟨standing.congr ?_, rfl⟩
        refine standing.map_look fun member _ => ?_
        split <;> rfl

theorem standing_swimDisseminate (standing : Standing ids cluster) (draws : Draws) :
    Standing ids (swimDisseminate cluster draws) ∧
      (swimDisseminate cluster draws).pingSequenceIndex = cluster.pingSequenceIndex := by
  unfold swimDisseminate
  generalize List.range cluster.members.length = places
  induction places generalizing cluster draws with
  | nil => exact ⟨standing, rfl⟩
  | cons i rest ih =>
    have one := standing_disseminateFrom standing draws i
    have others := ih one.1 (disseminateFrom (cluster, draws) i).2
    exact ⟨others.1, others.2.trans one.2⟩

theorem swimPing_standing (standing : Standing ids cluster) {fromId : Nat} (inside : fromId < ids.length)
    (target : Int) :
    ∃ later found, swimPing cluster fromId target = .ok (later, found) ∧ Standing ids later ∧
      later.pingSequenceIndex = cluster.pingSequenceIndex := by
  unfold swimPing
  rw [standing.length_eq, if_pos inside]
  split
  · refine ⟨_, _, rfl, standing.congr ?_, rfl⟩
    refine standing.modify_look ?_ fromId
    exact fun _ _ => rfl
  · exact ⟨_, _, rfl, standing, rfl⟩

theorem any_via (standing : Standing ids cluster) {via : Int} (among : via ∈ ids) :
    cluster.members.any (fun member => member.id = via && member.active) = true := by
  rw [← standing.ids_eq] at among
  obtain ⟨member, here, rfl⟩ := List.mem_map.mp among
  rw [List.any_eq_true]
  exact ⟨member, here, by simp [(standing.of_mem here).2.2]⟩

theorem memberAt_standing (standing : Standing ids cluster) {position : Int} (nonneg : 0 ≤ position)
    (inside : position < ids.length) : ∃ member, cluster.memberAt position = .ok member ∧ member.active = true := by
  have short : position.toNat < cluster.members.length := by rw [standing.length_eq]; omega
  refine ⟨cluster.members[position.toNat], ?_, (standing.of_mem (List.getElem_mem short)).2.2⟩
  rw [SWIMCluster.memberAt, if_neg (Int.not_lt.mpr nonneg), List.getElem?_eq_getElem short]

theorem memberAt_outside (standing : Standing ids cluster) {position : Int} (outside : (ids.length : Int) ≤ position) :
    cluster.memberAt position = .error .outside := by
  have long : cluster.members.length ≤ position.toNat := by rw [standing.length_eq]; omega
  rw [SWIMCluster.memberAt, List.getElem?_eq_none long]
  split <;> rfl

/-- With the suspect's position in range, every helper gets a response. -/
theorem swimIndirectPing_inside (standing : Standing ids cluster) {suspect : Int} (nonneg : 0 ≤ suspect)
    (inside : suspect < ids.length) {through : List Int} (helpers : ∀ via ∈ through, via ∈ ids)
    (filled : through ≠ []) : swimIndirectPing cluster suspect through = .ok true := by
  obtain ⟨member, here, active⟩ := memberAt_standing standing nonneg inside
  have counted : ∀ responses,
      swimIndirectFrom cluster suspect responses through = .ok (responses + through.length) := by
    clear filled
    induction through with
    | nil => exact fun _ => rfl
    | cons via rest ih =>
      intro responses
      rw [swimIndirectFrom, any_via standing (helpers via List.mem_cons_self), if_pos rfl, here]
      simp only [active, if_true]
      rw [ih fun via among => helpers via (List.mem_cons_of_mem _ among), List.length_cons]
      congr 1
      omega
  have positive := List.length_pos_of_ne_nil filled
  simp [swimIndirectPing, counted, Except.map, positive]

theorem swimIndirectPing_outside (standing : Standing ids cluster) {suspect : Int}
    (outside : (ids.length : Int) ≤ suspect) {through : List Int} (helpers : ∀ via ∈ through, via ∈ ids)
    (filled : through ≠ []) : swimIndirectPing cluster suspect through = .error .outside := by
  cases through with
  | nil => exact absurd rfl filled
  | cons via rest =>
    rw [swimIndirectPing, swimIndirectFrom, any_via standing (helpers via List.mem_cons_self), if_pos rfl,
      memberAt_outside standing outside]
    rfl

theorem mem_helpers (standing : Standing ids cluster) {target via : Int} (among : via ∈ cluster.helpers target) :
    via ∈ ids := by
  obtain ⟨member, here, rfl⟩ := List.mem_map.mp (List.mem_of_mem_take among)
  exact (standing.of_mem (List.mem_of_mem_filter here)).1

theorem helpers_eq_nil_iff (standing : Standing ids cluster) (target : Int) :
    cluster.helpers target = [] ↔ ∀ id ∈ ids, id = cluster.pingSequenceIndex ∨ id = target := by
  unfold SWIMCluster.helpers
  rw [List.take_eq_nil_iff]
  simp only [SWIM_INDIRECT_PING_COUNT, Nat.reduceEqDiff, false_or, List.map_eq_nil_iff, List.filter_eq_nil_iff]
  constructor
  · intro none id among
    rw [← standing.ids_eq] at among
    obtain ⟨member, here, rfl⟩ := List.mem_map.mp among
    have excluded := none member here
    simp only [(standing.of_mem here).2.2, Bool.and_true, Bool.and_eq_true, decide_eq_true_eq, not_and_or,
      ne_eq, Decidable.not_not] at excluded
    exact excluded
  · intro all member here
    rcases all member.id (standing.of_mem here).1 with same | same <;> simp [same]

/-- When the position that an id is taken for is outside the array, and somebody is asked to look at it. -/
def Exposes (ids : List Int) (index : Nat) (target : Int) (drawn : Nat) : Prop :=
  ¬ drawn % 100 < 20 ∧ (∃ id ∈ ids, id ≠ index ∧ id ≠ target) ∧ (ids.length : Int) ≤ target

theorem pingTarget_standing (standing : Standing ids cluster) (inside : cluster.pingSequenceIndex < ids.length)
    {target : Int} (nonneg : 0 ≤ target) (drawn : Nat) :
    Exposes ids cluster.pingSequenceIndex target drawn ∧ pingTarget cluster target drawn = .error .outside ∨
    ¬ Exposes ids cluster.pingSequenceIndex target drawn ∧ ∃ later, pingTarget cluster target drawn = .ok later ∧
      Standing ids later ∧ later.pingSequenceIndex = cluster.pingSequenceIndex := by
  obtain ⟨pinged, found, ping, upright, index⟩ := swimPing_standing standing inside target
  have asked := helpers_eq_nil_iff upright target
  rw [index] at asked
  unfold pingTarget
  rw [ping]
  simp only
  by_cases acknowledged : drawn % 100 < 20
  · rw [if_pos acknowledged]
    exact .inr ⟨fun exposes => exposes.1 acknowledged, _, rfl, standing_swimPingSuccess upright target 0, index⟩
  · rw [if_neg acknowledged]
    by_cases none : pinged.helpers target = []
    · have nobody : ¬ Exposes ids cluster.pingSequenceIndex target drawn := by
        rintro ⟨_, ⟨id, among, other, apart⟩, _⟩
        rcases asked.mp none id among with same | same
        · exact other same
        · exact apart same
      exact .inr ⟨nobody, pinged, by simp [none], upright, index⟩
    · have positive := List.length_pos_of_ne_nil none
      rw [if_pos positive]
      by_cases range : target < ids.length
      · refine .inr ⟨fun exposes => absurd range (Int.not_lt.mpr exposes.2.2), pinged, ?_, upright, index⟩
        rw [swimIndirectPing_inside upright nonneg range (fun _ => mem_helpers upright) none]
        rfl
      · have outside := Int.not_lt.mp range
        have helper : ∃ id ∈ ids, id ≠ cluster.pingSequenceIndex ∧ id ≠ target := by
          by_contra missing
          refine none (asked.mpr fun id among => ?_)
          by_contra other
          exact missing ⟨id, among, fun same => other (.inl same), fun same => other (.inr same)⟩
        refine .inl ⟨⟨acknowledged, helper, outside⟩, ?_⟩
        rw [swimIndirectPing_outside upright outside (fun _ => mem_helpers upright) none]

/-- The ids that `swim_random_member` chooses from when all members are alive. -/
def others (ids : List Int) (index : Nat) : List Int := ids.filter (· ≠ (index : Int))

theorem choices_standing (standing : Standing ids cluster) (index : Nat) :
    (cluster.choices index).map (·.id) = others ids index := by
  have all : cluster.choices index = cluster.members.filter fun member => member.id ≠ (index : Int) := by
    refine List.filter_congr fun member among => ?_
    simp [(standing.of_mem among).2.1, (standing.of_mem among).2.2]
  rw [all, others, ← standing.ids_eq, List.filter_map]
  rfl

theorem swimRandomMember_standing (standing : Standing ids cluster) (index : Nat) (draws : Draws) :
    others ids index = [] ∧ swimRandomMember cluster index draws = (-1, draws) ∨
    ∃ target, (others ids index)[draws 0 % (others ids index).length]? = some target ∧
      swimRandomMember cluster index draws = (target, fun k => draws (k + 1)) := by
  have choices := choices_standing standing index
  have length : (cluster.choices index).length = (others ids index).length := by
    rw [← choices, List.length_map]
  unfold swimRandomMember
  simp only [Draws.next]
  by_cases none : others ids index = []
  · left
    rw [none, List.length_nil] at length
    exact ⟨none, if_pos length⟩
  · right
    have positive := List.length_pos_of_ne_nil none
    have below := Nat.mod_lt (draws 0) positive
    refine ⟨_, List.getElem?_eq_getElem below, ?_⟩
    rw [if_neg (by omega), length, ← List.getElem?_map, choices, List.getElem?_eq_getElem below]
    rfl

/-- The target drawn in a tick is one that exposes the use of its id as a position. -/
def Exposed (ids : List Int) (index : Nat) (draws : Draws) : Prop :=
  ∃ target, (others ids index)[draws 0 % (others ids index).length]? = some target ∧ Exposes ids index target (draws 1)

theorem finishPeriod_standing (standing : Standing ids cluster) (filled : ids ≠ []) (draws : Draws) :
    ∃ later, finishPeriod cluster draws = .ok later ∧ Standing ids later ∧
      later.pingSequenceIndex = (cluster.pingSequenceIndex + 1) % ids.length := by
  have peopled : ¬ cluster.members.length = 0 := by
    rw [standing.length_eq, List.length_eq_zero_iff]
    exact filled
  have moved : Standing ids { cluster with
      pingSequenceIndex := (cluster.pingSequenceIndex + 1) % cluster.members.length } := standing
  have sent := standing_swimDisseminate moved draws
  refine ⟨_, if_neg peopled, sent.1, ?_⟩
  rw [sent.2, standing.length_eq]

/-- A period among living members fails exactly when it exposes the use of an id as a position, and
leaves them alive otherwise. -/
theorem runPeriod_standing (standing : Standing ids cluster) (inside : cluster.pingSequenceIndex < ids.length)
    (nonneg : ∀ id ∈ ids, 0 ≤ id) (draws : Draws) :
    Exposed ids cluster.pingSequenceIndex draws ∧ runPeriod cluster draws = .error .outside ∨
    ¬ Exposed ids cluster.pingSequenceIndex draws ∧ ∃ later, runPeriod cluster draws = .ok later ∧
      Standing ids later ∧ later.pingSequenceIndex = (cluster.pingSequenceIndex + 1) % ids.length := by
  have filled : ids ≠ [] := List.ne_nil_of_length_pos (Nat.lt_of_le_of_lt (Nat.zero_le _) inside)
  unfold runPeriod
  rcases swimRandomMember_standing standing cluster.pingSequenceIndex draws with
    ⟨none, random⟩ | ⟨target, chosen, random⟩
  · have unexposed : ¬ Exposed ids cluster.pingSequenceIndex draws := by
      rintro ⟨target, chosen, _⟩
      rw [none] at chosen
      cases chosen
    simp only [random]
    exact .inr ⟨unexposed, finishPeriod_standing standing filled draws⟩
  · have among : target ∈ ids := List.mem_of_mem_filter (List.mem_of_getElem? chosen)
    have same : Exposed ids cluster.pingSequenceIndex draws ↔
        Exposes ids cluster.pingSequenceIndex target (draws 1) := by
      constructor
      · rintro ⟨other, drawn, exposes⟩
        rw [chosen] at drawn
        exact Option.some.inj drawn ▸ exposes
      · exact fun exposes => ⟨target, chosen, exposes⟩
    simp only [random, same, ge_iff_le, nonneg target among, if_true, Draws.next]
    rcases pingTarget_standing standing inside (nonneg target among) (draws 1) with
      ⟨exposes, failed⟩ | ⟨hidden, pinged, ping, upright, index⟩
    · exact .inl ⟨exposes, by rw [failed]⟩
    · have finished := finishPeriod_standing upright filled fun k => draws (k + 1 + 1)
      rw [index] at finished
      rw [ping]
      exact .inr ⟨hidden, finished⟩

theorem swimTick_standing (standing : Standing ids cluster) (inside : cluster.pingSequenceIndex < ids.length)
    (nonneg : ∀ id ∈ ids, 0 ≤ id) (deltaMs : UInt64) (draws : Draws) :
    Exposed ids cluster.pingSequenceIndex draws ∧ swimTick cluster deltaMs draws = .error .outside ∨
    ∃ later, swimTick cluster deltaMs draws = .ok later ∧ Standing ids later ∧
      later.pingSequenceIndex < ids.length := by
  have before : Standing ids (expireSuspects { cluster with protocolTimeMs := cluster.protocolTimeMs + deltaMs }) :=
    standing_expireSuspects standing
  unfold swimTick
  simp only
  split
  · rcases runPeriod_standing before inside nonneg draws with ⟨exposed, failed⟩ | ⟨_, later, ran, upright, index⟩
    · exact .inl ⟨exposed, failed⟩
    · refine .inr ⟨later, ran, upright, ?_⟩
      rw [index]
      exact Nat.mod_lt _ (Nat.lt_of_le_of_lt (Nat.zero_le _) inside)
  · exact .inr ⟨_, rfl, before, inside⟩

/-- A tick of a whole period. -/
theorem swimTick_period (cluster : SWIMCluster) (draws : Draws) : swimTick cluster SWIM_PROTOCOL_PERIOD_MS draws =
    runPeriod (expireSuspects { cluster with protocolTimeMs := cluster.protocolTimeMs + SWIM_PROTOCOL_PERIOD_MS })
      draws := by
  have due : ∀ before : SWIMCluster, periodDue before SWIM_PROTOCOL_PERIOD_MS = true := by
    intro before
    have short : before.protocolTimeMs % SWIM_PROTOCOL_PERIOD_MS < SWIM_PROTOCOL_PERIOD_MS :=
      UInt64.mod_lt _ (by decide)
    rw [periodDue, decide_eq_true short, Bool.true_or]
  simp only [swimTick, due, if_true]

/-- With every id in range as a position, or nobody to ask, nothing is exposed. -/
theorem not_exposed (safe : ids.length ≤ 1 ∨ ∀ id ∈ ids, id < ids.length) (index : Nat) (draws : Draws) :
    ¬ Exposed ids index draws := by
  rintro ⟨target, chosen, _, ⟨helper, asked, _, apart⟩, outside⟩
  have among : target ∈ ids := List.mem_of_mem_filter (List.mem_of_getElem? chosen)
  rcases safe with few | inside
  · obtain ⟨only, rfl⟩ : ∃ only, ids = [only] :=
      List.length_eq_one_iff.mp (Nat.le_antisymm few (List.length_pos_of_mem among))
    exact apart ((List.mem_singleton.mp asked).trans (List.mem_singleton.mp among).symm)
  · exact absurd (inside target among) (Int.not_lt.mpr outside)

/-- An id that is no position can be drawn and asked about. -/
theorem exists_exposed {id : Int} (among : id ∈ ids) (outside : (ids.length : Int) ≤ id) {index : Nat}
    (other : id ≠ index) (helper : ∃ via ∈ ids, via ≠ index ∧ via ≠ id) : ∃ draws, Exposed ids index draws := by
  have chosen : id ∈ others ids index := List.mem_filter.mpr ⟨among, by simpa using other⟩
  obtain ⟨k, below, here⟩ := List.getElem_of_mem chosen
  refine ⟨fun i => if i = 0 then k else 20, id, ?_, by simp, helper, outside⟩
  simp only [if_true]
  rw [Nat.mod_eq_of_lt below, List.getElem?_eq_getElem below, here]

theorem swimRun_standing (safe : ids.length ≤ 1 ∨ ∀ id ∈ ids, id < ids.length) (nonneg : ∀ id ∈ ids, 0 ≤ id)
    (standing : Standing ids cluster) (inside : cluster.pingSequenceIndex < ids.length)
    (ticks : List (UInt64 × Draws)) :
    ∃ later, swimRun cluster ticks = .ok later ∧ Standing ids later ∧ later.pingSequenceIndex < ids.length := by
  induction ticks generalizing cluster with
  | nil => exact ⟨cluster, rfl, standing, inside⟩
  | cons tick rest ih =>
    obtain ⟨deltaMs, draws⟩ := tick
    rcases swimTick_standing standing inside nonneg deltaMs draws with ⟨exposed, _⟩ | ⟨later, ticked, upright, within⟩
    · exact absurd exposed (not_exposed safe _ _)
    · rw [swimRun, ticked]
      exact ih upright within

/-- What a tick of a whole period does, in terms of the ids alone. -/
theorem swimTick_period_standing (standing : Standing ids cluster) (inside : cluster.pingSequenceIndex < ids.length)
    (nonneg : ∀ id ∈ ids, 0 ≤ id) (draws : Draws) :
    Exposed ids cluster.pingSequenceIndex draws ∧
        swimTick cluster SWIM_PROTOCOL_PERIOD_MS draws = .error .outside ∨
    ¬ Exposed ids cluster.pingSequenceIndex draws ∧
      ∃ later, swimTick cluster SWIM_PROTOCOL_PERIOD_MS draws = .ok later ∧ Standing ids later ∧
        later.pingSequenceIndex = (cluster.pingSequenceIndex + 1) % ids.length := by
  rw [swimTick_period]
  generalize SWIM_PROTOCOL_PERIOD_MS = period
  have before : Standing ids (expireSuspects { cluster with protocolTimeMs := cluster.protocolTimeMs + period }) :=
    standing_expireSuspects standing
  exact runPeriod_standing before inside nonneg draws

/-- With somebody to ask and an id that is no position, one or two periods reach an access outside. -/
theorem exists_outside (standing : Standing ids cluster) (start : cluster.pingSequenceIndex = 0) (distinct : ids.Nodup)
    (nonneg : ∀ id ∈ ids, 0 ≤ id) (several : 2 ≤ ids.length) {id : Int} (among : id ∈ ids)
    (outside : (ids.length : Int) ≤ id) : ∃ ticks, swimRun cluster ticks = .error .outside := by
  have inside : cluster.pingSequenceIndex < ids.length := by omega
  by_cases helper : ∃ via ∈ ids, via ≠ (cluster.pingSequenceIndex : Int) ∧ via ≠ id
  · obtain ⟨draws, exposed⟩ := exists_exposed among outside (by omega) helper
    rcases swimTick_period_standing standing inside nonneg draws with ⟨_, failed⟩ | ⟨hidden, _⟩
    · exact ⟨[(SWIM_PROTOCOL_PERIOD_MS, draws)], by rw [swimRun, failed]⟩
    · exact absurd exposed hidden
  · -- the first member has the id 0, and is there to be asked in the second period
    have first : (0 : Int) ∈ ids := by
      by_contra missing
      have only : ∀ via ∈ ids, via = id := by
        intro via asked
        by_contra apart
        refine helper ⟨via, asked, ?_, apart⟩
        rintro rfl
        exact missing (by simpa [start] using asked)
      have few : ids.length ≤ 1 := by
        have replicated : ids = List.replicate ids.length id := List.eq_replicate_iff.mpr ⟨rfl, only⟩
        rw [replicated] at distinct
        exact List.nodup_replicate.mp distinct
      omega
    rcases swimTick_period_standing standing inside nonneg (fun _ => 0) with
      ⟨_, failed⟩ | ⟨_, later, ticked, upright, index⟩
    · exact ⟨[(SWIM_PROTOCOL_PERIOD_MS, fun _ => 0)], by rw [swimRun, failed]⟩
    · rw [start, Nat.mod_eq_of_lt (by omega)] at index
      obtain ⟨draws, exposed⟩ := exists_exposed among outside (by omega : id ≠ (1 : Nat)) ⟨0, first, by omega, by omega⟩
      rcases swimTick_period_standing upright (by omega) nonneg draws with ⟨_, failed⟩ | ⟨hidden, _⟩
      · exact ⟨[(SWIM_PROTOCOL_PERIOD_MS, fun _ => 0), (SWIM_PROTOCOL_PERIOD_MS, draws)], by
          simp only [swimRun, ticked, failed]⟩
      · rw [index] at hidden
        exact absurd exposed hidden

/-- Nobody is suspected where all members are alive afterwards. -/
theorem not_suspectsActive (standing : Standing ids later) : ¬ SuspectsActive cluster later := by
  rintro ⟨_, i, _, member, _, here, _, _, suspected⟩
  rw [(standing.of_mem (List.mem_of_getElem? here)).2.1] at suspected
  cases suspected

/-- A cluster without members divides by their number, but has none to access or suspect. -/
theorem accurate_of_empty (empty : cluster.members = []) : Accurate cluster := by
  have tick : ∀ before : SWIMCluster, before.members = [] → ∀ deltaMs draws,
      swimTick before deltaMs draws = .error .division ∨
        ∃ later, swimTick before deltaMs draws = .ok later ∧ later.members = [] := by
    intro before none deltaMs draws
    unfold swimTick
    simp only
    split
    · exact .inl (by simp [runPeriod, swimRandomMember, SWIMCluster.choices, expireSuspects, finishPeriod, none])
    · exact .inr ⟨_, rfl, by simp [expireSuspects, none]⟩
  have run : ∀ ticks (before : SWIMCluster), before.members = [] →
      swimRun before ticks = .error .division ∨ ∃ later, swimRun before ticks = .ok later ∧ later.members = [] := by
    intro ticks
    induction ticks with
    | nil => exact fun before none => .inr ⟨before, rfl, none⟩
    | cons step rest ih =>
      intro before none
      rcases tick before none step.1 step.2 with failed | ⟨later, ticked, none'⟩
      · exact .inl (by rw [swimRun, failed])
      · rw [swimRun, ticked]
        exact ih later none'
  constructor
  · intro ticks
    rcases run ticks cluster empty with failed | ⟨later, ran, _⟩
    · rw [failed]; exact nofun
    · rw [ran]; exact nofun
  · intro ticks before deltaMs draws after ran _ suspects
    have none : before.members = [] := by
      rcases run ticks cluster empty with failed | ⟨later, ran', none⟩
      · rw [failed] at ran; cases ran
      · rw [ran'] at ran; cases ran; exact none
    have few := suspects.1
    rw [none] at few
    exact absurd few (by decide)

theorem accurate_iff (standing : Standing ids cluster) (start : cluster.pingSequenceIndex = 0) (distinct : ids.Nodup)
    (nonneg : ∀ id ∈ ids, 0 ≤ id) : Accurate cluster ↔ ids.length ≤ 1 ∨ ∀ id ∈ ids, id < ids.length := by
  by_cases filled : ids = []
  · subst filled
    exact iff_of_true (accurate_of_empty (List.map_eq_nil_iff.mp standing)) (.inl (Nat.zero_le 1))
  have inside : cluster.pingSequenceIndex < ids.length := start ▸ List.length_pos_of_ne_nil filled
  constructor
  · intro accurate
    by_contra neither
    obtain ⟨several, misplaced⟩ := not_or.mp neither
    obtain ⟨id, outside⟩ := not_forall.mp misplaced
    obtain ⟨among, outside⟩ := Classical.not_imp.mp outside
    obtain ⟨ticks, failed⟩ := exists_outside standing start distinct nonneg (Nat.not_le.mp several) among
      (Int.not_lt.mp outside)
    exact accurate.1 ticks failed
  · intro safe
    constructor
    · intro ticks
      obtain ⟨later, ran, _⟩ := swimRun_standing safe nonneg standing inside ticks
      rw [ran]
      exact nofun
    · intro ticks before deltaMs draws after ran ticked
      obtain ⟨later, ran', upright, within⟩ := swimRun_standing safe nonneg standing inside ticks
      rw [ran] at ran'
      cases ran'
      rcases swimTick_standing upright within nonneg deltaMs draws with ⟨exposed, _⟩ | ⟨later, ticked', after', _⟩
      · exact absurd exposed (not_exposed safe _ _)
      · rw [ticked] at ticked'
        cases ticked'
        exact not_suspectsActive after'

end Standing

section Built

/-- A record that is no newer changes nothing. -/
theorem applyChange_fresh (now : UInt64) (members : List SWIMMember) {change : SWIMMember}
    (fresh : change.incarnation = 0) : applyChange now members change = members := by
  have same : (fun member : SWIMMember =>
      if change.incarnation > member.incarnation then
        { member with
          incarnation := change.incarnation, state := change.state
          suspectSinceMs := if change.state = .suspected then now else member.suspectSinceMs }
      else member) = id := by
    funext member
    rw [fresh, if_neg UInt64.not_lt_zero]
    rfl
  rw [applyChange, same, Table.update]
  split
  · exact List.modify_id _ _
  · rfl

/-- The message that a joining member sends its contact changes nothing, as it is a member already. -/
theorem swimJoin_eq (cluster : SWIMCluster) (newId : Int) (address : UInt32) (contactId : Int) :
    swimJoin cluster newId address contactId =
      if cluster.members.length ≥ SWIM_MAX_MEMBERS then cluster
      else { cluster with members := cluster.members ++ [newMember newId address cluster.protocolTimeMs] } := by
  have known : (cluster.members ++ [newMember newId address cluster.protocolTimeMs]).any (·.id = newId) = true := by
    simp [newMember]
  have fresh : (newMember newId address cluster.protocolTimeMs).incarnation = 0 := rfl
  unfold swimJoin
  simp only [swimOnReceive, known, if_true, List.foldl_cons, List.foldl_nil, applyChange_fresh _ _ fresh, ite_self]

theorem standing_swimInit (n : Nat) : Standing ((swimInit n).members.map (·.id)) (swimInit n) := by
  simp only [Standing, swimInit, List.map_map]
  rfl

/-- A cluster that was built has all its members alive and active. -/
theorem standing_swimBuilt (n : Nat) (joins : List (Int × UInt32 × Int)) :
    Standing ((swimBuilt n joins).members.map (·.id)) (swimBuilt n joins) ∧
      (swimBuilt n joins).pingSequenceIndex = 0 := by
  have joined : ∀ cluster : SWIMCluster, Standing (cluster.members.map (·.id)) cluster → cluster.pingSequenceIndex = 0 →
      let built := joins.foldl
        (fun cluster (newId, address, contactId) => swimJoin cluster newId address contactId) cluster
      Standing (built.members.map (·.id)) built ∧ built.pingSequenceIndex = 0 := by
    induction joins with
    | nil => exact fun _ standing start => ⟨standing, start⟩
    | cons join rest ih =>
      intro cluster standing start
      obtain ⟨newId, address, contactId⟩ := join
      refine ih (swimJoin cluster newId address contactId) ?_ ?_
      · rw [swimJoin_eq]
        split
        · exact standing
        · simp only [Standing, List.map_append, List.map_cons, List.map_nil] at standing ⊢
          rw [standing]
          rfl
      · rw [swimJoin_eq]
        split <;> exact start
  exact joined _ (standing_swimInit n) rfl

/-- Membership is accurate exactly if every id is in range as a position, or there is at most one member. -/
theorem swim_accurate_iff (n : Nat) (joins : List (Int × UInt32 × Int))
    (distinct : ((swimBuilt n joins).members.map (·.id)).Nodup)
    (nonneg : ∀ member ∈ (swimBuilt n joins).members, 0 ≤ member.id) :
    Accurate (swimBuilt n joins) ↔ (swimBuilt n joins).members.length ≤ 1 ∨
      ∀ member ∈ (swimBuilt n joins).members, member.id < (swimBuilt n joins).members.length := by
  obtain ⟨standing, start⟩ := standing_swimBuilt n joins
  have exactly := accurate_iff standing start distinct (by
    intro id among
    obtain ⟨member, here, rfl⟩ := List.mem_map.mp among
    exact nonneg member here)
  simpa using exactly

/-- Members that joined in another order than that of their ids. -/
theorem swim_accurate_swapped : Accurate (swimBuilt 2 [(3, 0, 0), (2, 0, 1)]) :=
  (swim_accurate_iff 2 [(3, 0, 0), (2, 0, 1)] (by decide) (by decide)).mpr (.inr (by decide))

/-- A member with the id 7 of three is pinged, and `members[7]` asked whether it is active. -/
theorem swim_reads_outside : ¬ Accurate (swimBuilt 2 [(7, 0, 0)]) := by
  intro accurate
  have outside := accurate.1 [(1000, fun i => if i = 0 then 1 else 20)]
  revert outside
  decide

end Built

end MiniNetDist.DistProtocol.Swim
