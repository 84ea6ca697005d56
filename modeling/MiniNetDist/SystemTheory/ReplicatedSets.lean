import MiniNetDist.Library.Replicated
import Mathlib.Data.Nat.Bitwise

/-! The sets of `mini-dist-system-theory/src/crdt.c` that keep one bit for each element. In a `GSet` elements are only
added, a `TwoPSet` has a second array of bits for what was removed. -/

namespace MiniNetDist.SystemTheory.ReplicatedSets

open Library Library.Replicated

def CRDT_SET_SIZE : Nat := 256

structure GSet where
  bits : Fin 4 → UInt64

structure TwoPSet where
  bits : Fin 4 → UInt64
  tombstoneBits : Fin 4 → UInt64

/-- `none` is the index -1 of the source. -/
def bitIndex (element : Int) : Option Nat :=
  if element < 0 ∨ element ≥ CRDT_SET_SIZE then none else some element.toNat

def mask (idx : Nat) : UInt64 := 1 <<< UInt64.ofNat (idx % 64)

def setBit (bits : Fin 4 → UInt64) (element : Int) : Fin 4 → UInt64 :=
  match bitIndex element with
  | none => bits
  | some idx => fun i => if i.val = idx / 64 then bits i ||| mask idx else bits i

def clearBit (bits : Fin 4 → UInt64) (element : Int) : Fin 4 → UInt64 :=
  match bitIndex element with
  | none => bits
  | some idx => fun i => if i.val = idx / 64 then bits i &&& ~~~mask idx else bits i

def testBit (bits : Fin 4 → UInt64) (element : Int) : Bool :=
  match bitIndex element with
  | none => false
  | some idx => bits (Fin.ofNat 4 (idx / 64)) &&& mask idx ≠ 0

def uniteBits (bits other : Fin 4 → UInt64) (i : Fin 4) : UInt64 := bits i ||| other i

def gsetInit : GSet := ⟨fun _ => 0⟩

def gsetAdd (gs : GSet) (element : Int) : GSet := ⟨setBit gs.bits element⟩

def gsetRemove (gs : GSet) (element : Int) : GSet := ⟨clearBit gs.bits element⟩

def gsetContains (gs : GSet) (element : Int) : Bool := testBit gs.bits element

def gsetMerge (gs other : GSet) : GSet := ⟨uniteBits gs.bits other.bits⟩

def twopsetInit : TwoPSet := ⟨fun _ => 0, fun _ => 0⟩

def twopsetAdd (tps : TwoPSet) (element : Int) : TwoPSet := { tps with bits := setBit tps.bits element }

def twopsetRemove (tps : TwoPSet) (element : Int) : TwoPSet :=
  { tps with tombstoneBits := setBit tps.tombstoneBits element }

def twopsetContains (tps : TwoPSet) (element : Int) : Bool :=
  let inAdded := testBit tps.bits element
  let inRemoved := testBit tps.tombstoneBits element
  inAdded && !inRemoved

def twopsetMerge (tps other : TwoPSet) : TwoPSet :=
  ⟨uniteBits tps.bits other.bits, uniteBits tps.tombstoneBits other.tombstoneBits⟩

def InRange (element : Int) : Prop := 0 ≤ element ∧ element < CRDT_SET_SIZE

section Bits

variable {bits other : Fin 4 → UInt64} {element asked : Int} {idx : Nat}

theorem bitIndex_inRange (inside : InRange element) : bitIndex element = some element.toNat := by
  unfold bitIndex
  rw [if_neg]
  exact not_or.mpr ⟨Int.not_lt.mpr inside.1, Int.not_le.mpr inside.2⟩

theorem bitIndex_outside (outside : ¬ InRange element) : bitIndex element = none := by
  unfold bitIndex
  rw [if_pos]
  unfold InRange at outside
  omega

theorem toNat_lt (inside : InRange element) : element.toNat < 256 := by
  obtain ⟨low, high⟩ := inside
  rw [CRDT_SET_SIZE] at high
  omega

theorem toNat_mask (idx : Nat) : (mask idx).toNat = 2 ^ (idx % 64) := by
  have small : idx % 64 < 64 := Nat.mod_lt _ (by decide)
  have shift : (UInt64.ofNat (idx % 64)).toNat = idx % 64 :=
    Nat.mod_eq_of_lt (Nat.lt_trans small (by decide))
  rw [mask, UInt64.toNat_shiftLeft, shift, Nat.mod_eq_of_lt small, Nat.shiftLeft_eq]
  have power : 2 ^ (idx % 64) < 2 ^ 64 := Nat.pow_lt_pow_right (by decide) small
  rw [UInt64.toNat_one, Nat.one_mul]
  exact Nat.mod_eq_of_lt power

/-- The test for a bit of a word, on numbers. -/
theorem and_mask_ne_zero (word : UInt64) (idx : Nat) :
    word &&& mask idx ≠ 0 ↔ word.toNat.testBit (idx % 64) = true := by
  rw [ne_eq, ← UInt64.toNat_inj, UInt64.toNat_and, toNat_mask, Nat.and_two_pow]
  cases word.toNat.testBit (idx % 64) with
  | false => simp
  | true => simp

theorem testBit_iff : testBit bits element = true ↔
    InRange element ∧ (bits (Fin.ofNat 4 (element.toNat / 64))).toNat.testBit (element.toNat % 64) = true := by
  unfold testBit
  by_cases inside : InRange element
  · rw [bitIndex_inRange inside, decide_eq_true_iff, and_mask_ne_zero]
    exact (and_iff_right inside).symm
  · rw [bitIndex_outside inside]
    exact ⟨fun absurdly => absurd absurdly nofun, fun both => absurd both.1 inside⟩

theorem slot_val (inside : InRange element) : (Fin.ofNat 4 (element.toNat / 64)).val = element.toNat / 64 := by
  have bound := toNat_lt inside
  exact Nat.mod_eq_of_lt (by omega)

theorem testBit_setBit :
    testBit (setBit bits element) asked = true ↔ (InRange asked ∧ asked = element) ∨ testBit bits asked = true := by
  unfold setBit
  by_cases inside : InRange element
  · rw [bitIndex_inRange inside, testBit_iff, testBit_iff, ← and_or_left]
    apply and_congr_right
    intro asking
    have one := toNat_lt asking
    have two := toNat_lt inside
    dsimp only
    rw [slot_val asking]
    by_cases here : asked.toNat / 64 = element.toNat / 64
    · rw [if_pos here, UInt64.toNat_or, Nat.testBit_or, toNat_mask, Nat.testBit_two_pow, Bool.or_eq_true_iff,
        decide_eq_true_iff]
      refine or_comm.trans (or_congr ?_ Iff.rfl)
      obtain ⟨low, -⟩ := inside
      obtain ⟨lowToo, -⟩ := asking
      omega
    · rw [if_neg here]
      refine (or_iff_right ?_).symm
      rintro rfl
      exact here rfl
  · rw [bitIndex_outside inside]
    refine (or_iff_right ?_).symm
    rintro ⟨asking, rfl⟩
    exact inside asking

theorem testBit_unite :
    testBit (uniteBits bits other) element = true ↔ testBit bits element = true ∨ testBit other element = true := by
  rw [testBit_iff, testBit_iff, testBit_iff, uniteBits, UInt64.toNat_or, Nat.testBit_or, Bool.or_eq_true_iff]
  exact and_or_left

theorem testBit_clearBit (inside : InRange element) : testBit (clearBit bits element) element = false := by
  apply Bool.eq_false_iff.mpr
  intro set
  have bit := (testBit_iff.mp set).2
  unfold clearBit at bit
  rw [bitIndex_inRange inside] at bit
  dsimp only at bit
  rw [if_pos (slot_val inside), UInt64.toNat_and, Nat.testBit_and, UInt64.toNat_not, toNat_mask] at bit
  have small : element.toNat % 64 < 64 := Nat.mod_lt _ (by decide)
  have complement : UInt64.size - 1 - 2 ^ (element.toNat % 64) = 2 ^ 64 - (2 ^ (element.toNat % 64) + 1) := by
    rw [Nat.sub_sub, Nat.add_comm]
    rfl
  have bounded : 2 ^ (element.toNat % 64) < 2 ^ 64 := Nat.pow_lt_pow_right (by decide) small
  rw [complement, Nat.testBit_two_pow_sub_succ bounded, Nat.testBit_two_pow_self] at bit
  simp at bit

/-- The elements say all about the bits. -/
theorem bits_ext (same : ∀ element, testBit bits element = testBit other element) : bits = other := by
  funext i
  apply UInt64.toNat_inj.mp
  apply Nat.eq_of_testBit_eq
  intro k
  by_cases small : k < 64
  · have bound := i.isLt
    have inside : InRange ((64 * i.val + k : Nat) : Int) := ⟨Int.natCast_nonneg _, by rw [CRDT_SET_SIZE]; omega⟩
    have word : Fin.ofNat 4 ((64 * i.val + k) / 64) = i := by
      apply Fin.ext
      have quotient : (64 * i.val + k) / 64 = i.val := by omega
      exact (congrArg (· % 4) quotient).trans (Nat.mod_eq_of_lt bound)
    have bit : (64 * i.val + k) % 64 = k := by omega
    have equal := Bool.eq_iff_iff.mp (same ((64 * i.val + k : Nat) : Int))
    rw [testBit_iff, testBit_iff, and_congr_right_iff, Int.toNat_natCast, word, bit] at equal
    exact Bool.eq_iff_iff.mpr (equal inside)
  · have high : ∀ word : UInt64, word.toNat.testBit k = false := by
      intro word
      apply Nat.testBit_lt_two_pow
      exact Nat.lt_of_lt_of_le word.toNat_lt (Nat.pow_le_pow_right (by decide) (Nat.le_of_not_lt small))
    rw [high, high]

/-- The bits stand for a set, as far as its elements have one. -/
def Holds (bits : Fin 4 → UInt64) (elements : Set Int) : Prop :=
  ∀ element, testBit bits element = true ↔ InRange element ∧ element ∈ elements

variable {elements others : Set Int}

theorem holds_zero : Holds (fun _ => 0) ∅ := by
  intro element
  rw [testBit_iff, UInt64.toNat_zero, Nat.zero_testBit]
  exact and_congr_right fun _ => ⟨nofun, fun absurdly => absurd absurdly (Set.notMem_empty element)⟩

theorem Holds.setBit (holds : Holds bits elements) (added : Int) :
    Holds (setBit bits added) (insert added elements) := by
  intro element
  rw [testBit_setBit, holds, ← and_or_left, Set.mem_insert_iff]

theorem Holds.unite (holds : Holds bits elements) (holdsToo : Holds other others) :
    Holds (uniteBits bits other) (elements ∪ others) := by
  intro element
  rw [testBit_unite, holds, holdsToo, ← and_or_left, Set.mem_union]

theorem Holds.unique (holds : Holds bits elements) (holdsToo : Holds other elements) : bits = other := by
  apply bits_ext
  intro element
  exact Bool.eq_iff_iff.mpr ((holds element).trans (holdsToo element).symm)

end Bits

section Replicas

variable {Replica : Type} {element : Int}

/-- Replicas of a `GSet` to which elements are only added. -/
def gsetDesign : Design Replica Int GSet := ⟨fun _ => gsetInit, gsetAdd, gsetMerge⟩

theorem gset_means : Means (gsetDesign : Design Replica Int GSet) fun updates gs => Holds gs.bits updates where
  initial _ := holds_zero
  update holds added := holds.setBit added
  merge holds holdsToo := holds.unite holdsToo

/-- A `gset_remove` lasts until the next merge with a state that has the element. -/
theorem gsetContains_remove_merge (gs other : GSet) (inside : InRange element) :
    gsetContains (gsetMerge (gsetRemove gs element) other) element = gsetContains other element := by
  apply Bool.eq_iff_iff.mpr
  refine testBit_unite.trans (or_iff_right ?_)
  rw [show (gsetRemove gs element).bits = clearBit gs.bits element from rfl, testBit_clearBit inside]
  exact nofun

inductive TwoPUpdate
  | add (element : Int)
  | remove (element : Int)
  deriving DecidableEq, Repr

def twopsetUpdate (tps : TwoPSet) : TwoPUpdate → TwoPSet
  | .add element => twopsetAdd tps element
  | .remove element => twopsetRemove tps element

def twopsetDesign : Design Replica TwoPUpdate TwoPSet := ⟨fun _ => twopsetInit, twopsetUpdate, twopsetMerge⟩

def added (updates : Set TwoPUpdate) : Set Int := {element | .add element ∈ updates}

def removed (updates : Set TwoPUpdate) : Set Int := {element | .remove element ∈ updates}

/-- Both arrays hold what they were told. -/
structure TwoPMeaning (updates : Set TwoPUpdate) (tps : TwoPSet) : Prop where
  bits : Holds tps.bits (added updates)
  tombstoneBits : Holds tps.tombstoneBits (removed updates)

theorem twopset_means : Means (twopsetDesign : Design Replica TwoPUpdate TwoPSet) TwoPMeaning where
  initial _ := ⟨holds_zero, holds_zero⟩
  update {updates _} meant update := by
    cases update with
    | add element =>
      have grown : added (insert (.add element) updates) = insert element (added updates) :=
        Set.ext fun other => or_congr_left ⟨TwoPUpdate.add.inj, congrArg _⟩
      have same : removed (insert (.add element) updates) = removed updates :=
        Set.ext fun other => or_iff_right nofun
      exact ⟨grown ▸ meant.bits.setBit element, same ▸ meant.tombstoneBits⟩
    | remove element =>
      have same : added (insert (.remove element) updates) = added updates :=
        Set.ext fun other => or_iff_right nofun
      have grown : removed (insert (.remove element) updates) = insert element (removed updates) :=
        Set.ext fun other => or_congr_left ⟨TwoPUpdate.remove.inj, congrArg _⟩
      exact ⟨same ▸ meant.bits, grown ▸ meant.tombstoneBits.setBit element⟩
  merge meant meantToo := ⟨meant.bits.unite meantToo.bits, meant.tombstoneBits.unite meantToo.tombstoneBits⟩

/-- Two states with the same meaning are the same memory. -/
theorem TwoPMeaning.unique {updates : Set TwoPUpdate} {tps other : TwoPSet} (meant : TwoPMeaning updates tps)
    (meantToo : TwoPMeaning updates other) : tps = other := by
  cases tps
  cases other
  congr
  · exact meant.bits.unique meantToo.bits
  · exact meant.tombstoneBits.unique meantToo.tombstoneBits

/-- In every run, a replica's set holds the elements whose addition has reached the replica and whose removal has not;
replicas that the same updates have reached hold the same memory. -/
theorem twopset_exact [DecidableEq Replica] {system : System Replica TwoPUpdate TwoPSet}
    (reached : Reaches twopsetDesign.step Always twopsetDesign.init system) (who : Replica) :
    (∀ element, twopsetContains (system.held who).state element = true ↔
      InRange element ∧ .add element ∈ learned system.log (system.held who).absorbed ∧
        .remove element ∉ learned system.log (system.held who).absorbed) ∧
      ∀ other, learned system.log (system.held who).absorbed = learned system.log (system.held other).absorbed →
        (system.held who).state = (system.held other).state := by
  have meant := twopset_means.holds reached
  constructor
  · intro element
    rw [twopsetContains, Bool.and_eq_true_iff, Bool.not_eq_true', Bool.eq_false_iff, ne_eq, (meant who).bits element,
      (meant who).tombstoneBits element]
    constructor
    · rintro ⟨⟨inside, present⟩, kept⟩
      exact ⟨inside, present, fun gone => kept ⟨inside, gone⟩⟩
    · rintro ⟨inside, present, kept⟩
      exact ⟨⟨inside, present⟩, fun gone => kept gone.2⟩
  · intro other same
    apply (meant who).unique
    rw [same]
    exact meant other

/-- One replica removes an element that another one has added and passed on. -/
def removedRun : List (Call Bool TwoPUpdate) :=
  [.update false (.add 70), .send false, .receive true 0, .update true (.remove 70), .send true, .receive false 1]

theorem removedRun_exact :
    twopsetContains ((removedRun.foldl twopsetDesign.step twopsetDesign.init).held false).state 70 = false := by
  apply Bool.eq_false_iff.mpr
  intro contained
  obtain ⟨-, -, kept⟩ := ((twopset_exact (.ofFold removedRun) false).1 70).mp contained
  exact kept ⟨1, by decide, rfl⟩

end Replicas

end MiniNetDist.SystemTheory.ReplicatedSets
