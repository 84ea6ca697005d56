import MiniNetDist.Library.Run
import MiniNetDist.Library.Table

/-! The last-writer-wins register of `mini-dist-system-theory/src/crdt.c`. A write is known by
its timestamp and the node id of its register. A merge takes over the node id with the value, so
that later writes of two replicas can go by the same stamp. -/

namespace MiniNetDist.SystemTheory.Lww

open Library

def CRDT_LWW_VALUE_LEN : Nat := 64

structure LWWRegister where
  value : CString
  timestamp : UInt64
  nodeId : Int
  deriving DecidableEq, Repr

def lwwInit (nodeId : Int) : LWWRegister := ⟨[], 0, nodeId⟩

def lwwSet (lww : LWWRegister) (value : CString) : LWWRegister :=
  { lww with
    timestamp := lww.timestamp + 1
    value := strncpy value (CRDT_LWW_VALUE_LEN - 1) }

def lwwGet (lww : LWWRegister) : CString := lww.value

def lwwMerge (lww other : LWWRegister) : LWWRegister :=
  if other.timestamp > lww.timestamp ∨ (other.timestamp = lww.timestamp ∧ other.nodeId > lww.nodeId) then
    { timestamp := other.timestamp
      nodeId := other.nodeId
      value := strncpy other.value (CRDT_LWW_VALUE_LEN - 1) }
  else lww

/-- What the registers know a write by. -/
def LWWRegister.stamp (lww : LWWRegister) : UInt64 × Int := (lww.timestamp, lww.nodeId)

/-- The value fits the buffer. -/
def LWWRegister.Fits (lww : LWWRegister) : Prop := lww.value.length < CRDT_LWW_VALUE_LEN

theorem lwwSet_fits (lww : LWWRegister) (value : CString) : (lwwSet lww value).Fits :=
  Nat.lt_succ_of_le (length_strncpy_le value _)

theorem lwwMerge_cases {lww other : LWWRegister} (fits : other.Fits) :
    lwwMerge lww other = lww ∨ lwwMerge lww other = other := by
  unfold lwwMerge
  split_ifs
  · rw [strncpy_of_lt fits]
    exact .inr rfl
  · exact .inl rfl

theorem stamp_eq_iff {lww other : LWWRegister} :
    lww.stamp = other.stamp ↔ lww.timestamp.toNat = other.timestamp.toNat ∧ lww.nodeId = other.nodeId := by
  rw [LWWRegister.stamp, LWWRegister.stamp, Prod.mk.injEq, UInt64.toNat_inj]

/-- Of two different stamps both sides choose the same. -/
theorem lwwMerge_comm {lww other : LWWRegister} (fits : lww.Fits) (fitsToo : other.Fits)
    (different : lww.stamp ≠ other.stamp) : lwwMerge lww other = lwwMerge other lww := by
  rw [Ne, stamp_eq_iff] at different
  unfold lwwMerge
  rw [strncpy_of_lt fits, strncpy_of_lt fitsToo]
  simp only [gt_iff_lt, UInt64.lt_iff_toNat_lt, ← UInt64.toNat_inj]
  by_cases later : lww.timestamp.toNat < other.timestamp.toNat ∨
      other.timestamp.toNat = lww.timestamp.toNat ∧ lww.nodeId < other.nodeId
  · rw [if_pos later, if_neg (by omega)]
  · rw [if_neg later, if_pos (by omega)]

/-- Of two equal stamps each side keeps its own. -/
theorem lwwMerge_eq_self {lww other : LWWRegister} (same : lww.stamp = other.stamp) : lwwMerge lww other = lww := by
  rw [stamp_eq_iff] at same
  unfold lwwMerge
  simp only [gt_iff_lt, UInt64.lt_iff_toNat_lt, ← UInt64.toNat_inj]
  exact if_neg (by omega)

/-- Merging both ways agrees unless one stamp stands for two values. -/
theorem lwwMerge_agree_iff {lww other : LWWRegister} (fits : lww.Fits) (fitsToo : other.Fits) :
    lwwGet (lwwMerge lww other) = lwwGet (lwwMerge other lww) ↔ (lww.stamp = other.stamp → lww.value = other.value) := by
  by_cases same : lww.stamp = other.stamp
  · rw [lwwMerge_eq_self same, lwwMerge_eq_self same.symm]
    exact ⟨fun agree _ => agree, fun agree => agree same⟩
  · rw [lwwMerge_comm fits fitsToo same]
    exact ⟨fun _ equal => absurd equal same, fun _ => rfl⟩

section Replicas

variable {Replica : Type} [DecidableEq Replica]

inductive LwwCall (Replica : Type) where
  | set (replica : Replica) (value : CString)
  | merge (replica other : Replica)
  deriving DecidableEq, Repr

def registersInit (nodeId : Replica → Int) (replica : Replica) : LWWRegister := lwwInit (nodeId replica)

def registersStep (registers : Replica → LWWRegister) : LwwCall Replica → Replica → LWWRegister
  | .set replica value => Function.update registers replica (lwwSet (registers replica) value)
  | .merge replica other => Function.update registers replica (lwwMerge (registers replica) (registers other))

/-- Any two replicas that merge the state the other holds come to hold the same value. -/
def Converges (registers : Replica → LWWRegister) : Prop :=
  ∀ first second, lwwGet (lwwMerge (registers first) (registers second)) =
    lwwGet (lwwMerge (registers second) (registers first))

/-- A value is set under a stamp that no other replica holds for a different value. -/
def Unclaimed (registers : Replica → LWWRegister) : LwwCall Replica → Prop
  | .set replica value => ∀ other, other ≠ replica →
      (registers other).stamp = ((registers replica).timestamp + 1, (registers replica).nodeId) →
      (registers other).value = strncpy value (CRDT_LWW_VALUE_LEN - 1)
  | .merge _ _ => True

variable {registers : Replica → LWWRegister}

theorem fits_step (fits : ∀ replica, (registers replica).Fits) (call : LwwCall Replica) (replica : Replica) :
    (registersStep registers call replica).Fits := by
  cases call with
  | set target value =>
    by_cases here : replica = target
    · subst here
      rw [registersStep, Function.update_self]
      exact lwwSet_fits _ value
    · rw [registersStep, Function.update_of_ne here]
      exact fits replica
  | merge target other =>
    by_cases here : replica = target
    · subst here
      rw [registersStep, Function.update_self]
      rcases lwwMerge_cases (fits other) with kept | taken
      · rw [kept]
        exact fits replica
      · rw [taken]
        exact fits other
    · rw [registersStep, Function.update_of_ne here]
      exact fits replica

omit [DecidableEq Replica] in
theorem converges_iff (fits : ∀ replica, (registers replica).Fits) :
    Converges registers ↔
      ∀ first second, (registers first).stamp = (registers second).stamp →
        (registers first).value = (registers second).value :=
  forall₂_congr fun first second => lwwMerge_agree_iff (fits first) (fits second)

/-- A merge only copies registers, so no stamp gets a second value by it. -/
theorem converges_merge (fits : ∀ replica, (registers replica).Fits) (converges : Converges registers)
    (replica other : Replica) : Converges (registersStep registers (.merge replica other)) := by
  rw [converges_iff fits] at converges
  rw [converges_iff (fits_step fits _)]
  -- Every register after the merge is one that some replica had before.
  have copied : ∀ holder, ∃ source, registersStep registers (.merge replica other) holder = registers source := by
    intro holder
    by_cases here : holder = replica
    · subst here
      rw [registersStep, Function.update_self]
      rcases lwwMerge_cases (fits other) with kept | taken
      · exact ⟨holder, kept⟩
      · exact ⟨other, taken⟩
    · exact ⟨holder, Function.update_of_ne here ..⟩
  intro first second
  obtain ⟨source, same⟩ := copied first
  obtain ⟨origin, equal⟩ := copied second
  rw [same, equal]
  exact converges source origin

theorem converges_set_iff (fits : ∀ replica, (registers replica).Fits) (converges : Converges registers)
    (replica : Replica) (value : CString) :
    Converges (registersStep registers (.set replica value)) ↔ Unclaimed registers (.set replica value) := by
  rw [converges_iff fits] at converges
  rw [converges_iff (fits_step fits _)]
  constructor
  · intro unique other elsewhere claimed
    have here : registersStep registers (.set replica value) replica = lwwSet (registers replica) value :=
      Function.update_self ..
    have there : registersStep registers (.set replica value) other = registers other :=
      Function.update_of_ne elsewhere ..
    have same := unique other replica
    rw [here, there] at same
    exact same claimed
  · intro unclaimed first second same
    by_cases here : first = replica <;> by_cases there : second = replica
    · rw [here, there]
    · subst here
      rw [registersStep, Function.update_self, Function.update_of_ne there] at same ⊢
      exact (unclaimed second there same.symm).symm
    · subst there
      rw [registersStep, Function.update_self, Function.update_of_ne here] at same ⊢
      exact unclaimed first here same
    · rw [registersStep, Function.update_of_ne here, Function.update_of_ne there] at same ⊢
      exact converges first second same

/-- The registers converge after every call of a run exactly if no value is set under a stamp
that another replica holds for a different one. -/
theorem lww_converges_iff (nodeId : Replica → Int) (calls : List (LwwCall Replica)) :
    (∀ earlier, earlier <+: calls → Converges (earlier.foldl registersStep (registersInit nodeId))) ↔
      Permitted registersStep Unclaimed (registersInit nodeId) calls := by
  refine Permitted.throughout_iff calls (Permitted.always calls)
    (motive := fun registers => ∀ replica, (registers replica).Fits) ?_ ?_ ?_ ?_
  · intro replica
    exact Nat.zero_lt_succ _
  · intro first second
    unfold lwwMerge
    split_ifs <;> rfl
  · intro registers call fits _ _
    exact fits_step fits call
  · intro registers call fits _ converges
    cases call with
    | set replica value => exact converges_set_iff fits converges replica value
    | merge replica other => exact ⟨fun _ => trivial, fun _ => converges_merge fits converges replica other⟩

end Replicas

/-- Two replicas, numbered 0 and 1. -/
def pair (second : Bool) : Int := if second then 1 else 0

/-- The first replica takes over a write of the second, then both write. -/
def writesAfterMerge : List (LwwCall Bool) :=
  [.set true [120], .merge false true, .set false [97], .set true [98]]

theorem writesAfterMerge_diverge :
    pair false ≠ pair true ∧
    lwwGet (lwwMerge (writesAfterMerge.foldl registersStep (registersInit pair) false)
      (writesAfterMerge.foldl registersStep (registersInit pair) true)) = [97] ∧
    lwwGet (lwwMerge (writesAfterMerge.foldl registersStep (registersInit pair) true)
      (writesAfterMerge.foldl registersStep (registersInit pair) false)) = [98] := by
  decide

end MiniNetDist.SystemTheory.Lww
