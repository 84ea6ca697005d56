import Mathlib.Data.List.GetD
import MiniNetDist.Library.CharArray
import MiniNetDist.Library.Sha1

/-! The SHA-1 of `mini-app-protocol/src/websocket.c`. The message is padded in an array of two blocks, which a message of
120 bytes or more does not fit into. -/

namespace MiniNetDist.AppProtocol.WebSocket

open Library

/-- The loop that pads with zeros up to the place of the length, or to the end of the array. -/
def wsSha1Fill : (rounds : Nat) → Bytes → Bytes
  | 0, padded => padded
  | rounds + 1, padded =>
    if padded.length % 64 = 56 then padded
    else if padded.length ≥ 120 then padded ++ List.replicate (128 - padded.length) 0
    else wsSha1Fill rounds (padded ++ [0])

/-- The padded message, or `none` where a byte is written behind the array. -/
def wsSha1Pad (input : Bytes) : Option Bytes :=
  if input.length ≥ 128 then none
  else
    let padded := wsSha1Fill 64 (input ++ [0x80])
    -- the second loop goes on at the end of the array
    if padded.length % 64 ≠ 56 then none
    else some (padded ++ bytesOf (BitVec.ofNat 64 input.length * 8) 8)

/-- One round of the loop that expands the words. -/
def wsSha1Expand (w : List Sha1.Word) (i : Nat) : List Sha1.Word :=
  let val := w.getD (i - 3) 0 ^^^ w.getD (i - 8) 0 ^^^ w.getD (i - 14) 0 ^^^ w.getD (i - 16) 0
  w ++ [val <<< 1 ||| val >>> 31]

def wsSha1Words (chunk : Bytes) : List Sha1.Word :=
  (List.range' 16 64).foldl wsSha1Expand ((List.range 16).map fun i =>
    widen 32 (chunk.getD (i * 4) 0) <<< 24 ||| widen 32 (chunk.getD (i * 4 + 1) 0) <<< 16 |||
      widen 32 (chunk.getD (i * 4 + 2) 0) <<< 8 ||| widen 32 (chunk.getD (i * 4 + 3) 0))

def wsSha1Round (w : List Sha1.Word) (s : Sha1.State) (i : Nat) : Sha1.State :=
  let (f, k) : Sha1.Word × Sha1.Word :=
    if i < 20 then ((s.b &&& s.c) ||| (~~~s.b &&& s.d), 0x5A827999)
    else if i < 40 then (s.b ^^^ s.c ^^^ s.d, 0x6ED9EBA1)
    else if i < 60 then ((s.b &&& s.c) ||| (s.b &&& s.d) ||| (s.c &&& s.d), 0x8F1BBCDC)
    else (s.b ^^^ s.c ^^^ s.d, 0xCA62C1D6)
  let temp := (s.a <<< 5 ||| s.a >>> 27) + f + s.e + k + w.getD i 0
  ⟨temp, s.a, s.b <<< 30 ||| s.b >>> 2, s.c, s.d⟩

def wsSha1Chunk (h : Sha1.State) (chunk : Bytes) : Sha1.State :=
  let w := wsSha1Words chunk
  let s := (List.range 80).foldl (wsSha1Round w) h
  ⟨h.a + s.a, h.b + s.b, h.c + s.c, h.d + s.d, h.e + s.e⟩

/-- The loop over the chunks, each 64 bytes further on. -/
def wsSha1Chunks (h : Sha1.State) (padded : Bytes) : (rounds : Nat) → (chunk : Nat) → Sha1.State
  | 0, _ => h
  | rounds + 1, chunk =>
    if chunk < padded.length then wsSha1Chunks (wsSha1Chunk h (padded.drop chunk)) padded rounds (chunk + 64) else h

def wsSha1Hash (input : Bytes) : Option Bytes :=
  (wsSha1Pad input).map fun padded =>
    let h := wsSha1Chunks ⟨0x67452301, 0xEFCDAB89, 0x98BADCFE, 0x10325476, 0xC3D2E1F0⟩ padded 2 0
    [h.a, h.b, h.c, h.d, h.e].flatMap fun word => [byteOf word 24, byteOf word 16, byteOf word 8, byteOf word 0]

example : wsSha1Hash (ascii "abc") = some [0xA9, 0x99, 0x3E, 0x36, 0x47, 0x06, 0x81, 0x6A, 0xBA, 0x3E, 0x25, 0x71, 0x78,
    0x50, 0xC2, 0x6C, 0x9C, 0xD0, 0xD8, 0x9D] := by decide +kernel

section Padding

variable {input padded : Bytes} {rounds : Nat}

theorem wsSha1Fill_eq (short : padded.length ≤ 120) (enough : (120 - padded.length % 64) % 64 ≤ rounds) :
    wsSha1Fill rounds padded = padded ++ List.replicate ((120 - padded.length % 64) % 64) 0 := by
  induction rounds generalizing padded with
  | zero =>
    rw [Nat.le_zero.mp enough, List.replicate_zero, List.append_nil, wsSha1Fill]
  | succ rounds ih =>
    rw [wsSha1Fill]
    by_cases done : padded.length % 64 = 56
    · rw [if_pos done, done, List.replicate_zero, List.append_nil]
    · have grown : (padded ++ [0]).length = padded.length + 1 := List.length_append
      have fewer : (120 - padded.length % 64) % 64 = (120 - (padded ++ [0]).length % 64) % 64 + 1 := by
        rw [grown]
        omega
      rw [if_neg done, if_neg (by omega), ih (by omega) (by omega), fewer, List.append_assoc, List.replicate_succ,
        List.singleton_append]

/-- The padding fits into the array for messages of less than 120 bytes. -/
theorem wsSha1Pad_eq (input : Bytes) : wsSha1Pad input = if input.length < 120 then some (Sha1.pad input) else none := by
  have marked : (input ++ [0x80]).length = input.length + 1 := List.length_append
  unfold wsSha1Pad
  by_cases beyond : input.length ≥ 128
  · rw [if_pos beyond, if_neg (by omega)]
  · rw [if_neg beyond]
    by_cases short : input.length < 120
    · have filled : wsSha1Fill 64 (input ++ [0x80]) =
          input ++ [0x80] ++ List.replicate ((120 - (input ++ [0x80]).length % 64) % 64) 0 :=
        wsSha1Fill_eq (by omega) (by omega)
      have zeros : (120 - (input ++ [0x80]).length % 64) % 64 = (119 - input.length % 64) % 64 := by
        rw [marked]
        omega
      have place : (input ++ [0x80] ++ List.replicate ((119 - input.length % 64) % 64) 0).length % 64 = 56 := by
        rw [List.length_append, marked, List.length_replicate]
        omega
      have bits : BitVec.ofNat 64 input.length * 8 = BitVec.ofNat 64 (8 * input.length) := by
        rw [Nat.mul_comm, BitVec.ofNat_mul]
        rfl
      rw [zeros] at filled
      dsimp only
      rw [filled, if_neg (not_not.mpr place), if_pos short, bits, Sha1.pad, List.append_assoc, List.append_assoc,
        List.singleton_append]
    · have full : wsSha1Fill 64 (input ++ [0x80]) =
          input ++ [0x80] ++ List.replicate (128 - (input ++ [0x80]).length) 0 := by
        rw [wsSha1Fill, if_neg (by omega), if_pos (by omega)]
      have whole : (input ++ [0x80] ++ List.replicate (128 - (input ++ [0x80]).length) 0 : Bytes).length = 128 := by
        rw [List.length_append, List.length_replicate]
        omega
      dsimp only
      rw [full, whole, if_pos (by decide), if_neg short]

end Padding

section Rounds

variable {chunk padded : Bytes}

theorem wsSha1Expand_eq (block : Nat → Sha1.Word) {n : Nat} (later : 16 ≤ n) :
    wsSha1Expand ((List.range n).map (Sha1.expand block)) n = (List.range (n + 1)).map (Sha1.expand block) := by
  have known : ∀ back, 0 < back → back ≤ 16 →
      ((List.range n).map (Sha1.expand block)).getD (n - back) 0 = Sha1.expand block (n - back) := by
    intro back _ _
    have inside : n - back < n := by omega
    simp [List.getD_eq_getElem?_getD, List.getElem?_range inside]
  unfold wsSha1Expand
  rw [known 3 (by decide) (by decide), known 8 (by decide) (by decide), known 14 (by decide) (by decide),
    known 16 (by decide) (by decide), List.range_succ, List.map_append, List.map_singleton, Sha1.expand_later block later]
  rfl

theorem take_four (bytes : Bytes) {i : Nat} (inside : i + 4 ≤ bytes.length) :
    (bytes.drop i).take 4 = [bytes.getD i 0, bytes.getD (i + 1) 0, bytes.getD (i + 2) 0, bytes.getD (i + 3) 0] := by
  rw [List.getD_eq_getElem _ _ (by omega), List.getD_eq_getElem _ _ (by omega), List.getD_eq_getElem _ _ (by omega),
    List.getD_eq_getElem _ _ (by omega), List.drop_eq_getElem_cons (by omega), List.drop_eq_getElem_cons (by omega),
    List.drop_eq_getElem_cons (by omega), List.drop_eq_getElem_cons (by omega)]
  rfl

/-- The array of words holds the words of the rounds. -/
theorem wsSha1Words_eq (whole : 64 ≤ chunk.length) :
    wsSha1Words chunk = (List.range 80).map (Sha1.expand (Sha1.words chunk)) := by
  have first : ((List.range 16).map fun i =>
      widen 32 (chunk.getD (i * 4) 0) <<< 24 ||| widen 32 (chunk.getD (i * 4 + 1) 0) <<< 16 |||
        widen 32 (chunk.getD (i * 4 + 2) 0) <<< 8 ||| widen 32 (chunk.getD (i * 4 + 3) 0)) =
      (List.range 16).map (Sha1.expand (Sha1.words chunk)) := by
    apply List.map_congr_left
    intro i inside
    have bound := List.mem_range.mp inside
    rw [Sha1.expand_block _ bound, Sha1.words, Nat.mul_comm, take_four chunk (by omega), joinBytes_four]
  have grown : ∀ k, (List.range' 16 k).foldl wsSha1Expand ((List.range 16).map (Sha1.expand (Sha1.words chunk))) =
      (List.range (16 + k)).map (Sha1.expand (Sha1.words chunk)) := by
    intro k
    induction k with
    | zero => rfl
    | succ k ih =>
      rw [List.range'_concat, List.foldl_concat, ih, Nat.one_mul, wsSha1Expand_eq _ (Nat.le_add_right 16 k)]
      rfl
  rw [wsSha1Words, first, grown 64]

theorem wsSha1Round_eq (w : List Sha1.Word) (s : Sha1.State) (i : Nat) :
    wsSha1Round w s i = s.round i (w.getD i 0) := by
  unfold wsSha1Round Sha1.State.round Sha1.mix Sha1.constant
  by_cases first : i < 20
  · simp only [first, if_true, Sha1.choose_eq_or]
    rfl
  · by_cases second : i < 40
    · simp only [first, second, if_true, if_false]
      rfl
    · by_cases third : i < 60
      · simp only [first, second, third, if_true, if_false, Sha1.majority_eq_or]
        rfl
      · simp only [first, second, third, if_false]
        rfl

theorem wsSha1Chunk_eq (h : Sha1.State) (whole : 64 ≤ chunk.length) :
    wsSha1Chunk h chunk = h.compress (Sha1.words chunk) := by
  have rounds : (List.range 80).foldl (wsSha1Round (wsSha1Words chunk)) h =
      (List.range 80).foldl (fun s t => s.round t (Sha1.expand (Sha1.words chunk) t)) h := by
    apply List.foldl_ext
    intro s i inside
    have bound := List.mem_range.mp inside
    rw [wsSha1Round_eq, wsSha1Words_eq whole]
    simp [List.getD_eq_getElem?_getD, List.getElem?_range bound]
  rw [wsSha1Chunk, rounds]
  rfl

/-- The loop over the chunks absorbs one block, or two. -/
theorem wsSha1Chunks_eq (h : Sha1.State) (blocks : padded.length = 64 ∨ padded.length = 128) :
    wsSha1Chunks h padded 2 0 = h.absorb padded := by
  have whole : 64 ≤ (padded.drop 0).length := by
    rw [List.drop_zero]
    omega
  unfold Sha1.State.absorb
  rcases blocks with one | two
  · rw [wsSha1Chunks, if_pos (by omega), wsSha1Chunk_eq h whole, wsSha1Chunks, if_neg (by omega), one]
    rfl
  · have second : 64 ≤ (padded.drop 64).length := by
      rw [List.length_drop]
      omega
    rw [wsSha1Chunks, if_pos (by omega), wsSha1Chunk_eq h whole, wsSha1Chunks, if_pos (by omega), Nat.zero_add,
      wsSha1Chunk_eq _ second, wsSha1Chunks, two]
    rfl

theorem wsSha1Hash_short {input : Bytes} (short : input.length < 120) : wsSha1Hash input = some (Sha1.hash input) := by
  have blocks : (Sha1.pad input).length = 64 ∨ (Sha1.pad input).length = 128 := by
    rw [Sha1.length_pad]
    omega
  rw [wsSha1Hash, wsSha1Pad_eq, if_pos short, Option.map_some]
  dsimp only
  rw [wsSha1Chunks_eq _ blocks]
  rfl

/-- For messages of less than 120 bytes the result is the SHA-1 digest; longer ones are written behind the array. -/
theorem wsSha1Hash_eq (input : Bytes) : wsSha1Hash input = if input.length < 120 then some (Sha1.hash input) else none := by
  by_cases short : input.length < 120
  · rw [if_pos short, wsSha1Hash_short short]
  · rw [if_neg short, wsSha1Hash, wsSha1Pad_eq, if_neg short]
    rfl

end Rounds

end MiniNetDist.AppProtocol.WebSocket
