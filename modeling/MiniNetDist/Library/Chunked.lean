import MiniNetDist.Library.Decimal
import MiniNetDist.Library.Loop

/-! Bodies that are sent in chunks: each has the number of its bytes in front, as a hexadecimal numeral on a line of its
own, and a line with zero ends the body. -/

namespace MiniNetDist.Library.Chunked

/-- The value of a hexadecimal digit, of either case. -/
def hexDigit (byte : UInt8) : Option Nat :=
  if 48 ≤ byte ∧ byte ≤ 57 then some (byte.toNat - 48)
  else if 97 ≤ byte ∧ byte ≤ 102 then some (byte.toNat - 97 + 10)
  else if 65 ≤ byte ∧ byte ≤ 70 then some (byte.toNat - 65 + 10)
  else none

def isHex (byte : UInt8) : Bool := (hexDigit byte).isSome

/-- A numeral goes on with a digit. -/
def pushDigit (value : Nat) (digit : UInt8) : Nat := value * 16 + (hexDigit digit).getD 0

def ofHex (numeral : Bytes) : Nat := numeral.foldl pushDigit 0

def crlf : Bytes := [13, 10]

/-- Data with a numeral for its length. -/
structure Chunk where
  size : Bytes
  data : Bytes
  hex : ∀ digit ∈ size, isHex digit = true
  counts : ofHex size = data.length
  filled : data ≠ []
  small : data.length < 2 ^ 32

namespace Chunk

def encode (chunk : Chunk) : Bytes := chunk.size ++ crlf ++ chunk.data ++ crlf

/-- The part of a chunk shows that the chunk is not empty, and that data is missing. -/
def Missing (chunk : Chunk) (part : Bytes) : Prop :=
  (∃ digit ∈ part.take chunk.size.length, digit ≠ 48) ∧ part.length < chunk.size.length + 2 + chunk.data.length

end Chunk

def encodeChunks (chunks : List Chunk) : Bytes := chunks.flatMap Chunk.encode

/-- The chunks and the end of the body. -/
def encodeBody (chunks : List Chunk) : Bytes := encodeChunks chunks ++ 48 :: crlf ++ crlf

def body (chunks : List Chunk) : Bytes := chunks.flatMap Chunk.data

section Numerals

variable {numeral rest : Bytes} {digit : UInt8}

theorem hexDigit_eq_zero_iff (digit : UInt8) : hexDigit digit = some 0 ↔ digit = 48 := by
  simp only [hexDigit, UInt8.le_iff_toNat_le, ← UInt8.toNat_inj, UInt8.reduceToNat]
  split_ifs <;> simp <;> omega

theorem ne_of_isHex {other : UInt8} (hex : isHex digit = true) (plain : isHex other = false) : digit ≠ other := by
  rintro rfl
  exact absurd (hex.symm.trans plain) (by decide)

theorem not_isSpace_of_isHex (hex : isHex digit = true) : Decimal.isSpace digit = false := by
  simp only [isHex, hexDigit, Decimal.isSpace, UInt8.le_iff_toNat_le, ← UInt8.toNat_inj, UInt8.reduceToNat] at hex ⊢
  split_ifs at hex with decimal lower upper
  · simp
    omega
  · simp
    omega
  · simp
    omega
  · cases hex

/-- Leading zeros are worth nothing. -/
theorem foldl_pushDigit_eq_zero_iff (hex : ∀ digit ∈ numeral, isHex digit = true) (value : Nat) :
    numeral.foldl pushDigit value = 0 ↔ value = 0 ∧ ∀ digit ∈ numeral, digit = 48 := by
  induction numeral generalizing value with
  | nil => simp
  | cons digit numeral ih =>
    obtain ⟨first, others⟩ := List.forall_mem_cons.mp hex
    obtain ⟨worth, found⟩ := Option.isSome_iff_exists.mp first
    have zero := hexDigit_eq_zero_iff digit
    rw [found, Option.some.injEq] at zero
    rw [List.foldl_cons, ih others, List.forall_mem_cons, pushDigit, found, Option.getD_some, ← zero, ← and_assoc]
    apply and_congr_left
    omega

theorem ofHex_eq_zero_iff (hex : ∀ digit ∈ numeral, isHex digit = true) :
    ofHex numeral = 0 ↔ ∀ digit ∈ numeral, digit = 48 := by
  rw [ofHex, foldl_pushDigit_eq_zero_iff hex]
  exact and_iff_right rfl

end Numerals

section Writing

/-- The numeral of a number, with small letters. -/
def toHex (value : Nat) : Bytes := (Nat.toDigits 16 value).map fun digit => .ofNat digit.toNat

theorem hexDigit_digitChar : ∀ digit, digit < 16 → hexDigit (.ofNat (Nat.digitChar digit).toNat) = some digit := by
  decide

/-- The last digit of a numeral. -/
theorem toHex_eq (value : Nat) : toHex value =
    (if value < 16 then [] else toHex (value / 16)) ++ [.ofNat (Nat.digitChar (value % 16)).toNat] := by
  rw [toHex]
  split
  next small => rw [Nat.toDigits_of_lt_base small, Nat.mod_eq_of_lt small]; rfl
  next large => rw [Nat.toDigits_of_base_le (by decide) (Nat.le_of_not_lt large), List.map_append]; rfl

theorem ofHex_toHex (value : Nat) : (∀ digit ∈ toHex value, isHex digit = true) ∧ ofHex (toHex value) = value := by
  induction value using Nat.strongRecOn with
  | ind value ih =>
    have last := hexDigit_digitChar (value % 16) (Nat.mod_lt _ (by decide))
    have hex : isHex (.ofNat (Nat.digitChar (value % 16)).toNat) = true := by rw [isHex, last]; rfl
    rw [toHex_eq]
    split
    next small =>
      refine ⟨fun digit inside => by rwa [List.mem_singleton.mp inside], ?_⟩
      rw [ofHex, List.nil_append, List.foldl_cons, List.foldl_nil, pushDigit, last, Nat.mod_eq_of_lt small]
      exact Nat.zero_add value
    next large =>
      obtain ⟨all, worth⟩ := ih (value / 16) (Nat.div_lt_self (by omega) (by decide))
      refine ⟨fun digit inside => ?_, ?_⟩
      · rcases List.mem_append.mp inside with before | here
        · exact all digit before
        · rwa [List.mem_singleton.mp here]
      · rw [ofHex] at worth
        rw [ofHex, List.foldl_append, worth, List.foldl_cons, List.foldl_nil, pushDigit, last, Option.getD_some,
          Nat.div_add_mod']

theorem length_toHex_le {value limit : Nat} (positive : 0 < limit) (small : value < 16 ^ limit) :
    (toHex value).length ≤ limit := by
  rw [toHex, List.length_map]
  exact (Nat.length_toDigits_le_iff (by decide) positive).mpr small

/-- All data as one chunk. -/
def Chunk.whole (data : Bytes) (filled : data ≠ []) (small : data.length < 2 ^ 32) : Chunk :=
  ⟨toHex data.length, data, (ofHex_toHex _).1, (ofHex_toHex _).2, filled, small⟩

end Writing

section Cuts

variable {chunks : List Chunk} {chunk : Chunk} {cut part : Bytes}

/-- An encoding that is cut off within a chunk, after a digit of its size that is not zero and before the end of its
data. -/
def CutInside (chunks : List Chunk) (cut : Bytes) : Prop :=
  ∃ before chunk after part, chunks = before ++ chunk :: after ∧ cut = encodeChunks before ++ part ∧
    part <+: chunk.encode ∧ chunk.Missing part

theorem body_append (first second : List Chunk) : body (first ++ second) = body first ++ body second :=
  List.flatMap_append

theorem Chunk.ofHex_ne_zero (chunk : Chunk) : ofHex chunk.size ≠ 0 := by
  rw [chunk.counts]
  exact Nat.ne_of_gt (List.length_pos_iff.mpr chunk.filled)

theorem Chunk.encode_eq (chunk : Chunk) : chunk.encode = chunk.size ++ 13 :: 10 :: (chunk.data ++ crlf) := by
  simp [encode, crlf]

/-- The size line of a part of a chunk. -/
theorem Chunk.take_part (inside : part <+: chunk.encode) : part.take chunk.size.length <+: chunk.size := by
  have front := inside.take chunk.size.length
  rwa [chunk.encode_eq, List.take_left] at front

theorem Chunk.drop_part (inside : part <+: chunk.encode) :
    part.drop chunk.size.length <+: 13 :: 10 :: (chunk.data ++ crlf) := by
  have behind := inside.drop chunk.size.length
  rwa [chunk.encode_eq, List.drop_left] at behind

/-- An encoding that is cut off ends between two chunks or within one. -/
theorem prefix_encodeChunks (begins : cut <+: encodeChunks chunks) :
    ∃ before part, cut = encodeChunks before ++ part ∧ before <+: chunks ∧
      (part = [] ∨ ∃ chunk after, chunks = before ++ chunk :: after ∧ part <+: chunk.encode) := by
  induction chunks generalizing cut with
  | nil => exact ⟨[], [], List.prefix_nil.mp begins, List.nil_prefix, .inl rfl⟩
  | cons chunk chunks ih =>
    rw [encodeChunks, List.flatMap_cons] at begins
    by_cases within : cut.length ≤ chunk.encode.length
    · have inside := List.prefix_of_prefix_length_le begins (List.prefix_append _ _) within
      exact ⟨[], cut, rfl, List.nil_prefix, .inr ⟨chunk, chunks, rfl, inside⟩⟩
    · obtain ⟨more, rfl⟩ := List.prefix_of_prefix_length_le (List.prefix_append _ _) begins (Nat.le_of_not_le within)
      obtain ⟨before, part, rfl, first, last⟩ := ih ((List.prefix_append_right_inj _).mp begins)
      refine ⟨chunk :: before, part, (List.append_assoc ..).symm, (List.prefix_cons_inj chunk).mpr first, ?_⟩
      rcases last with ended | ⟨next, after, rfl, inside⟩
      · exact .inl ended
      · exact .inr ⟨next, after, rfl, inside⟩

end Cuts

end MiniNetDist.Library.Chunked
