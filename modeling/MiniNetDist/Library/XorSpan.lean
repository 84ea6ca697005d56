import Mathlib.Data.List.Basic

/-! Words under exclusive or: the sums of a list of words, and the sums whose low bits are clear, by elimination of
one bit after the other. -/

namespace MiniNetDist.Library.XorSpan

variable {n m : Nat}

/-- All sums of words of a list. -/
def span : List (BitVec n) → List (BitVec n)
  | [] => [0#n]
  | word :: rest => span rest ++ (span rest).map (word ^^^ ·)

/-- Add a word with a bit to another that has the bit too. -/
def clearBit (i : Nat) (word other : BitVec n) : BitVec n := if other.getLsbD i then other ^^^ word else other

/-- Take out the first word that has a bit, and add it to the others that have the bit. -/
def eliminateBit (i : Nat) : List (BitVec n) → List (BitVec n)
  | [] => []
  | word :: rest =>
    if word.getLsbD i then rest.map (clearBit i word)
    else word :: eliminateBit i rest

/-- Eliminate one bit after the other. -/
def eliminate (places : List Nat) (words : List (BitVec n)) : List (BitVec n) :=
  places.foldl (fun words i => eliminateBit i words) words

/-- Hand a word on as a numeral: an evaluation that puts off its arguments computes it once. -/
def settle {Result : Type} (word : BitVec n) (next : BitVec n → Result) : Result :=
  match word.toNat with
  | 0 => next 0#n
  | value + 1 => next (BitVec.ofNat n (value + 1))

def settleAll {Result : Type} : List (BitVec n) → (List (BitVec n) → Result) → Result
  | [], next => next []
  | word :: rest, next => settle word fun word => settleAll rest fun rest => next (word :: rest)

theorem settle_eq {Result : Type} (word : BitVec n) (next : BitVec n → Result) : settle word next = next word := by
  have same : BitVec.ofNat n word.toNat = word := by
    rw [BitVec.ofNat_toNat, BitVec.setWidth_eq]
  rw [settle]
  cases shown : word.toNat with
  | zero =>
    rw [shown] at same
    exact congrArg next same
  | succ value =>
    rw [shown] at same
    exact congrArg next same

theorem settleAll_eq {Result : Type} (words : List (BitVec n)) (next : List (BitVec n) → Result) :
    settleAll words next = next words := by
  induction words generalizing next with
  | nil => rfl
  | cons word rest ih => rw [settleAll, settle_eq, ih]

theorem xor_cancel (left right : BitVec n) : left ^^^ (left ^^^ right) = right := by
  rw [← BitVec.xor_assoc, BitVec.xor_self, BitVec.zero_xor]

theorem mem_span_cons {word sum : BitVec n} {rest : List (BitVec n)} :
    sum ∈ span (word :: rest) ↔ sum ∈ span rest ∨ word ^^^ sum ∈ span rest := by
  rw [span, List.mem_append, List.mem_map]
  constructor
  · rintro (without | ⟨other, member, rfl⟩)
    · exact .inl without
    · exact .inr (by rwa [xor_cancel])
  · rintro (without | added)
    · exact .inl without
    · exact .inr ⟨_, added, xor_cancel word sum⟩

/-- A linear map takes sums to sums. -/
theorem map_mem_span {g : BitVec m → BitVec n} (linear : ∀ left right, g (left ^^^ right) = g left ^^^ g right)
    {words : List (BitVec m)} {sum : BitVec m} (member : sum ∈ span words) : g sum ∈ span (words.map g) := by
  have zero : g 0#m = 0#n := by
    have twice := linear 0#m 0#m
    rwa [BitVec.xor_self, BitVec.xor_self] at twice
  induction words generalizing sum with
  | nil =>
    rw [List.mem_singleton.mp member, zero]
    exact List.mem_singleton_self _
  | cons word rest ih =>
    rw [List.map_cons, mem_span_cons, ← linear]
    rcases mem_span_cons.mp member with without | added
    · exact .inl (ih without)
    · exact .inr (ih added)

theorem clearBit_xor (i : Nat) (word left right : BitVec n) :
    clearBit i word (left ^^^ right) = clearBit i word left ^^^ clearBit i word right := by
  rw [clearBit, clearBit, clearBit, BitVec.getLsbD_xor]
  cases left.getLsbD i <;> cases right.getLsbD i <;>
    simp only [Bool.false_xor, Bool.true_xor, Bool.not_false, Bool.not_true, Bool.false_eq_true, ↓reduceIte]
  · rw [BitVec.xor_assoc]
  · rw [BitVec.xor_assoc, BitVec.xor_assoc, BitVec.xor_comm right]
  · rw [BitVec.xor_assoc, BitVec.xor_comm right, xor_cancel]

/-- A sum without the bit is still a sum after the elimination. -/
theorem mem_span_eliminateBit {i : Nat} {words : List (BitVec n)} {sum : BitVec n} (member : sum ∈ span words)
    (clear : sum.getLsbD i = false) : sum ∈ span (eliminateBit i words) := by
  induction words generalizing sum with
  | nil => exact member
  | cons word rest ih =>
    rw [eliminateBit]
    cases bit : word.getLsbD i with
    | false =>
      rw [if_neg Bool.false_ne_true, mem_span_cons]
      rcases mem_span_cons.mp member with without | added
      · exact .inl (ih without clear)
      · exact .inr (ih added (by rw [BitVec.getLsbD_xor, bit, clear, Bool.xor_self]))
    | true =>
      rw [if_pos rfl]
      rcases mem_span_cons.mp member with without | added
      · have kept := map_mem_span (clearBit_xor i word) without
        rwa [clearBit, clear, if_neg Bool.false_ne_true] at kept
      · have kept := map_mem_span (clearBit_xor i word) added
        have odd : (word ^^^ sum).getLsbD i = true := by rw [BitVec.getLsbD_xor, bit, clear, Bool.xor_false]
        rwa [clearBit, odd, if_pos rfl, BitVec.xor_comm, xor_cancel] at kept

theorem mem_span_eliminate {places : List Nat} {words : List (BitVec n)} {sum : BitVec n} (member : sum ∈ span words)
    (clear : ∀ i ∈ places, sum.getLsbD i = false) : sum ∈ span (eliminate places words) := by
  induction places generalizing words with
  | nil => exact member
  | cons place rest ih =>
    exact ih (mem_span_eliminateBit member (clear place (List.mem_cons_self ..)))
      fun i later => clear i (List.mem_cons_of_mem place later)

/-- Every word is a sum of words with a single bit. -/
theorem mem_span_bits (word : BitVec n) : word ∈ span ((List.range n).map (BitVec.twoPow n)) := by
  have sums : ∀ places : List Nat, ∀ word : BitVec n, (∀ i < n, word.getLsbD i = true → i ∈ places) →
      word ∈ span (places.map (BitVec.twoPow n)) := by
    intro places
    induction places with
    | nil =>
      intro word covered
      have zero : word = 0#n := by
        apply BitVec.eq_of_getLsbD_eq
        intro i bound
        rw [BitVec.getLsbD_zero]
        by_contra on
        exact absurd (covered i bound (Bool.not_eq_false _ ▸ on)) List.not_mem_nil
      rw [zero]
      exact List.mem_singleton_self _
    | cons place rest ih =>
      intro word covered
      rw [List.map_cons, mem_span_cons]
      cases bit : word.getLsbD place with
      | false =>
        refine .inl (ih word fun i bound on => ?_)
        rcases List.mem_cons.mp (covered i bound on) with rfl | member
        · rw [bit] at on
          cases on
        · exact member
      | true =>
        refine .inr (ih _ fun i bound on => ?_)
        rw [BitVec.getLsbD_xor, BitVec.getLsbD_twoPow] at on
        by_cases here : place = i
        · subst here
          rw [bit] at on
          simp [bound] at on
        · have still : word.getLsbD i = true := by simpa [here] using on
          rcases List.mem_cons.mp (covered i bound still) with same | member
          · exact absurd same.symm here
          · exact member
  exact sums _ word fun i bound _ => List.mem_range.mpr bound

end MiniNetDist.Library.XorSpan
