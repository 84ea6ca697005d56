import Mathlib.Data.List.GetD
import MiniNetDist.AppProtocol.WebSocket
import MiniNetDist.Library.Base64
import MiniNetDist.Library.Tokens

/-! The base64 of `mini-app-protocol/src/websocket.c`. It writes padding where `i + (2 - j)` is not below the length,
and for the first character of the first group that sum is below zero and wraps around. -/

namespace MiniNetDist.AppProtocol.WebSocket

open Library

def wsBase64Table : Bytes := ascii "ABCDEFGHIJKLMNOPQRSTUVWXYZabcdefghijklmnopqrstuvwxyz0123456789+/"

/-- The 24 bits of the bytes from `i` on, zero where there are none. -/
def wsBase64Val (input : Bytes) (i : Nat) : BitVec 32 :=
  let val := widen 32 (input.getD i 0) <<< 16
  let val := if i + 1 < input.length then val ||| widen 32 (input.getD (i + 1) 0) <<< 8 else val
  if i + 2 < input.length then val ||| widen 32 (input.getD (i + 2) 0) else val

def wsBase64Char (input : Bytes) (i j : Nat) : UInt8 :=
  let idx := (wsBase64Val input i >>> (j * 6) &&& 0x3F).toNat
  -- the difference of two `int` is added to a `size_t`
  if input.length ≤ (BitVec.ofNat 64 i + BitVec.ofInt 64 (2 - j)).toNat then 61 else wsBase64Table.getD idx 0

/-- The inner loop, which leaves a group when only the last byte of the buffer is left. -/
def wsBase64Group (outSize : BitVec 64) (char : Nat → UInt8) : List Nat → Bytes → Bytes
  | [], out => out
  | j :: rest, out =>
    if (outSize - 1).toNat ≤ out.length then out else wsBase64Group outSize char rest (out ++ [char j])

/-- What is written from the start of the buffer on. -/
def wsBase64Encode (input : Bytes) (outSize : BitVec 64) : Bytes :=
  let out := (List.range ((input.length + 2) / 3)).foldl
    (fun out round => wsBase64Group outSize (wsBase64Char input (3 * round)) [3, 2, 1, 0] out) []
  if out.length < outSize.toNat then out ++ [0] else out

variable {input : Bytes} {outSize : BitVec 64} {i j : Nat}

section Characters

/-- The three bytes from `i` on as one number. -/
def chunkNumber (input : Bytes) (i : Nat) : Nat :=
  Base64.joined (input.getD i 0) (input.getD (i + 1) 0) (input.getD (i + 2) 0)

theorem toNat_wsBase64Val (input : Bytes) (i : Nat) : (wsBase64Val input i).toNat = chunkNumber input i := by
  have absent : widen 32 (0 : UInt8) = 0 := rfl
  rw [chunkNumber, ← Base64.toNat_joinBytes_three, joinBytes_three, wsBase64Val]
  by_cases second : i + 1 < input.length
  · by_cases third : i + 2 < input.length
    · simp only [second, third, if_true]
    · simp [second, third, absent]
  · have third : ¬i + 2 < input.length := fun more => second (Nat.lt_of_succ_lt more)
    simp [second, third, absent]

/-- Where the sum of the index test wraps around, it is above every length. -/
theorem pads_iff (inside : i < input.length) (small : input.length + 1 < 2 ^ 64) (last : j < 4) :
    input.length ≤ (BitVec.ofNat 64 i + BitVec.ofInt 64 (2 - j)).toNat ↔
      (input.drop i).length + j ≤ 2 ∨ i = 0 ∧ j = 3 := by
  rw [List.length_drop, BitVec.toNat_add, BitVec.toNat_ofNat, BitVec.toNat_ofInt]
  omega

theorem wsBase64Char_eq (inside : i < input.length) (small : input.length + 1 < 2 ^ 64) (last : j < 4) :
    wsBase64Char input i j =
      if (input.drop i).length + j ≤ 2 ∨ i = 0 ∧ j = 3 then Base64.pad
      else Base64.character (chunkNumber input i) j := by
  have bits : (wsBase64Val input i >>> (j * 6) &&& 0x3F).toNat = chunkNumber input i / 64 ^ j % 64 := by
    rw [BitVec.toNat_and, BitVec.toNat_ushiftRight, toNat_wsBase64Val]
    change chunkNumber input i >>> (j * 6) &&& 2 ^ 6 - 1 = _
    rw [Nat.and_two_pow_sub_one_eq_mod, Nat.shiftRight_eq_div_pow, Nat.mul_comm, Nat.pow_mul]
  have found : chunkNumber input i / 64 ^ j % 64 < wsBase64Table.length := by
    by_contra past
    have missing := List.getD_eq_default Base64.alphabet Base64.pad (Nat.le_of_not_lt past)
    exact Base64.character_ne_pad (chunkNumber input i) j missing
  rw [wsBase64Char]
  simp only [pads_iff inside small last, bits]
  refine if_congr Iff.rfl rfl ?_
  rw [Base64.character, List.getD_eq_getElem _ _ found]
  exact (List.getD_eq_getElem Base64.alphabet Base64.pad found).symm

/-- The characters of a group are those of its bytes, but for the first character of the first group. -/
theorem wsBase64Chars_eq (inside : i < input.length) (small : input.length + 1 < 2 ^ 64) :
    [3, 2, 1, 0].map (wsBase64Char input i) =
      if i = 0 then Base64.pad :: (Base64.encode ((input.drop i).take 3)).tail
      else Base64.encode ((input.drop i).take 3) := by
  have get (k : Nat) : input.getD (i + k) 0 = (input.drop i).getD k 0 := by
    simp [List.getD_eq_getElem?_getD, List.getElem?_drop]
  have length : (input.drop i).length = input.length - i := List.length_drop
  have number : chunkNumber input i =
      Base64.joined ((input.drop i).getD 0 0) ((input.drop i).getD 1 0) ((input.drop i).getD 2 0) := by
    rw [← get, ← get, ← get]
    rfl
  simp only [List.map_cons, List.map_nil, wsBase64Char_eq inside small (j := 3) (by decide),
    wsBase64Char_eq inside small (j := 2) (by decide), wsBase64Char_eq inside small (j := 1) (by decide),
    wsBase64Char_eq inside small (j := 0) (by decide), number]
  generalize input.drop i = chunk at length ⊢
  rcases chunk with _ | ⟨first, _ | ⟨second, _ | ⟨third, rest⟩⟩⟩
  · exact absurd (Nat.sub_pos_of_lt inside) (by simp [← length])
  · by_cases start : i = 0 <;> simp [start, Base64.encode, Base64.pad]
  · by_cases start : i = 0 <;> simp [start, Base64.encode, Base64.pad]
  · by_cases start : i = 0 <;> simp [start, Base64.encode, Base64.pad]

end Characters

section Loops

/-- A group for which there is room is written as a whole. -/
theorem wsBase64Group_room (char : Nat → UInt8) (group : List Nat) (out : Bytes)
    (room : out.length + group.length < outSize.toNat) :
    wsBase64Group outSize char group out = out ++ group.map char := by
  induction group generalizing out with
  | nil => simp [wsBase64Group]
  | cons j rest ih =>
    rw [List.length_cons] at room
    have one : (outSize - 1).toNat = outSize.toNat - 1 :=
      BitVec.toNat_sub_of_le (BitVec.le_def.mpr (Nat.zero_lt_of_lt room))
    rw [wsBase64Group, if_neg (by omega), ih _ (by rw [List.length_append, List.length_singleton]; omega)]
    simp

theorem wsBase64Rounds_room (input : Bytes) (rounds : Nat) (room : 4 * rounds < outSize.toNat) :
    (List.range rounds).foldl
      (fun out round => wsBase64Group outSize (wsBase64Char input (3 * round)) [3, 2, 1, 0] out) [] =
      (List.range rounds).flatMap fun round => [3, 2, 1, 0].map (wsBase64Char input (3 * round)) := by
  induction rounds with
  | zero => rfl
  | succ rounds ih =>
    have length : ((List.range rounds).flatMap fun round =>
        [3, 2, 1, 0].map (wsBase64Char input (3 * round))).length = 4 * rounds := by
      simp [List.length_flatMap, Nat.mul_comm]
    rw [List.range_succ, List.foldl_append, ih (Nat.lt_trans (by omega) room), List.flatMap_append, List.foldl_cons,
      List.foldl_nil, wsBase64Group_room _ _ _ (by rw [length]; exact room)]
    simp

/-- The text of all groups, when the first character of the first one is padding. -/
theorem flatMap_paddedGroups (filled : input ≠ []) :
    ((List.range ((input.length + 2) / 3)).flatMap fun round =>
      if 3 * round = 0 then Base64.pad :: (Base64.encode ((input.drop (3 * round)).take 3)).tail
      else Base64.encode ((input.drop (3 * round)).take 3)) = Base64.pad :: (Base64.encode input).tail := by
  have positive := List.length_pos_iff.mpr filled
  obtain ⟨rounds, counted⟩ : ∃ rounds, (input.length + 2) / 3 = rounds + 1 :=
    Nat.exists_eq_succ_of_ne_zero (by omega)
  have first : Base64.encode (input.take 3) ≠ [] := by
    apply List.ne_nil_of_length_pos
    rw [Base64.length_encode, List.length_take]
    omega
  rw [Base64.encode_eq_flatMap input, counted, List.range_succ_eq_map, List.flatMap_cons, List.flatMap_cons,
    List.flatMap_map, List.flatMap_map, Nat.mul_zero, List.drop_zero, List.tail_append_of_ne_nil first]
  simp

/-- What a long enough buffer holds: the standard text, with padding in place of its first character. -/
theorem wsBase64Encode_eq (room : 4 * ((input.length + 2) / 3) < outSize.toNat) :
    wsBase64Encode input outSize = (if input = [] then [] else Base64.pad :: (Base64.encode input).tail) ++ [0] := by
  have fits := outSize.isLt
  have group : ∀ round ∈ List.range ((input.length + 2) / 3), [3, 2, 1, 0].map (wsBase64Char input (3 * round)) =
      if 3 * round = 0 then Base64.pad :: (Base64.encode ((input.drop (3 * round)).take 3)).tail
      else Base64.encode ((input.drop (3 * round)).take 3) := by
    intro round inside
    have below := List.mem_range.mp inside
    exact wsBase64Chars_eq (by omega) (by omega)
  rw [wsBase64Encode, wsBase64Rounds_room _ _ room, List.flatMap_congr group]
  by_cases empty : input = []
  · subst empty
    exact if_pos (Nat.zero_lt_of_lt room)
  · have positive := List.length_pos_iff.mpr empty
    rw [flatMap_paddedGroups empty, if_neg empty, if_pos]
    rw [List.length_cons, List.length_tail, Base64.length_encode]
    omega

/-- The text of every input but the empty one begins with padding. -/
theorem cString_wsBase64Encode (room : 4 * ((input.length + 2) / 3) < outSize.toNat) :
    cString (wsBase64Encode input outSize) = if input = [] then [] else Base64.pad :: (Base64.encode input).tail := by
  have plain := Base64.zero_notMem_encode input
  rw [wsBase64Encode_eq room, Tokens.cString_append_zero]
  apply cString_eq
  split
  · exact List.not_mem_nil
  · intro zero
    rcases List.mem_cons.mp zero with first | later
    · exact absurd first (by decide)
    · exact plain (List.mem_of_mem_tail later)

end Loops

/-- The buffer holds the standard text, which decodes to the input. -/
def IsBase64 (input : Bytes) (outSize : BitVec 64) : Prop :=
  cString (wsBase64Encode input outSize) = Base64.encode input ∧
    Base64.decode (cString (wsBase64Encode input outSize)) = some input

/-- However long the input and its buffer, the text is the standard one only if the input is empty. -/
theorem wsBase64Encode_standard_iff (input : Bytes) (outSize : BitVec 64)
    (room : 4 * ((input.length + 2) / 3) + 1 ≤ outSize.toNat) : IsBase64 input outSize ↔ input = [] := by
  rw [IsBase64, cString_wsBase64Encode room]
  constructor
  · intro ⟨_, decoded⟩
    by_contra filled
    rw [if_neg filled, Base64.decode_pad] at decoded
    cases decoded
  · intro empty
    subst empty
    exact ⟨rfl, rfl⟩

/-- The empty input, with room for the terminator. -/
theorem wsBase64Encode_empty : IsBase64 [] 1 := (wsBase64Encode_standard_iff [] 1 (by decide)).mpr rfl

/-- The three bytes of `Man`, with room for all of `TWFu`, become `=WFu`. -/
theorem wsBase64Encode_man :
    4 * (((ascii "Man").length + 2) / 3) + 1 ≤ (5 : BitVec 64).toNat ∧
      cString (wsBase64Encode (ascii "Man") 5) = ascii "=WFu" ∧ Base64.encode (ascii "Man") = ascii "TWFu" ∧
      ¬IsBase64 (ascii "Man") 5 := by
  have written : cString (wsBase64Encode (ascii "Man") 5) = ascii "=WFu" := by decide +kernel
  refine ⟨by decide, written, by decide +kernel, ?_⟩
  intro ⟨standard, _⟩
  rw [written] at standard
  exact absurd standard (by decide +kernel)

end MiniNetDist.AppProtocol.WebSocket
