import MiniNetDist.Library.Buffer
import MiniNetDist.Library.Chunked

/-! The decoder of chunked bodies in `mini-network-base/src/http_basic.c`. -/

namespace MiniNetDist.NetworkBase.HttpBasic

open Library Library.Chunked

/-- `strtoul` with base 16. The function returns the residue modulo 2^64, which is above 2^63 for a negative number. -/
def strtoul16 (text : Bytes) : Int :=
  let (negative, body) := Decimal.readSign (text.dropWhile Decimal.isSpace)
  let body := if body[0]? = some 48 ∧ (body[1]? = some 120 ∨ body[1]? = some 88) ∧ body[2]?.any isHex then body.drop 2
    else body
  let magnitude : Int := ofHex (body.takeWhile isHex)
  if negative then -magnitude else magnitude

/-- The bytes that are copied to `hex`. -/
def hexField (rest : Bytes) : Bytes := (rest.takeWhile (· ≠ 13)).take 15

/-- What follows the size: one byte, and a line feed behind it. -/
def skipLineEnd (rest : Bytes) : Bytes := if rest[1]? = some 10 then rest.drop 2 else rest.drop 1

def skipDataEnd (rest : Bytes) : Bytes := if rest.take 2 = crlf then rest.drop 2 else rest

/-- The bytes from `pos` on, and the first `out` bytes of the output. -/
structure ChunkedState where
  rest : Bytes
  decoded : Bytes
  deriving DecidableEq, Repr

/-- The body of the loop, or what follows it. With a negative number for the size a sum wraps around, or the copy leaves
the buffers. -/
def httpChunkedRound (len decodedLen : Nat) (state : ChunkedState) : ChunkedState ⊕ Except Failure Bytes :=
  if state.rest = [] then .inr (.ok state.decoded)
  else if state.rest.take 2 = crlf then .inl { state with rest := state.rest.drop 2 }
  else
    let hex := hexField state.rest
    let chunkSize := strtoul16 hex
    if chunkSize = 0 then .inr (.ok state.decoded)
    else
      let rest := skipLineEnd (state.rest.drop hex.length)
      let pos : Int := len - rest.length
      let out : Int := state.decoded.length
      if pos + chunkSize < 0 ∨ pos + chunkSize > len then .inr (.error (.code (-2)))
      else if out + chunkSize < 0 ∨ out + chunkSize > decodedLen then .inr (.error (.code (-3)))
      else if chunkSize < 0 then .inr (.error .outOfBounds)
      else .inl ⟨skipDataEnd (rest.drop chunkSize.toNat), state.decoded ++ rest.take chunkSize.toNat⟩

/-- The decoded bytes, for an output of `decodedLen` bytes. -/
def httpChunkedDecode (data : Bytes) (decodedLen : Nat) : Option (Except Failure Bytes) :=
  Loop.run (httpChunkedRound data.length decodedLen) (data.length + 1) ⟨data, []⟩

section Rounds

variable {len decodedLen : Nat} {state next : ChunkedState} {numeral tail : Bytes} {chunk : Chunk}

theorem length_skipLineEnd_le (rest : Bytes) : (skipLineEnd rest).length ≤ rest.length := by
  unfold skipLineEnd
  split <;> simp

theorem length_skipDataEnd_le (rest : Bytes) : (skipDataEnd rest).length ≤ rest.length := by
  unfold skipDataEnd
  split <;> simp

/-- Every round moves on. -/
theorem round_progress (goesOn : httpChunkedRound len decodedLen state = .inl next) :
    next.rest.length < state.rest.length := by
  revert goesOn
  fun_cases httpChunkedRound len decodedLen state with
  | case2 filled ended =>
    intro goesOn
    cases goesOn
    have some_byte := List.length_pos_iff.mpr filled
    rw [List.length_drop]
    omega
  | case7 filled plain hex chunkSize sized rest pos out inside room positive =>
    intro goesOn
    cases goesOn
    have read : 0 < hex.length := by
      apply List.length_pos_iff.mpr
      intro empty
      exact sized (by rw [show chunkSize = strtoul16 hex from rfl, empty]; rfl)
    have some_byte := List.length_pos_iff.mpr filled
    have skipped := length_skipDataEnd_le (rest.drop chunkSize.toNat)
    have behind : rest.length ≤ _ := length_skipLineEnd_le (state.rest.drop hex.length)
    rw [List.length_drop] at skipped behind
    dsimp only
    omega
  | _ => exact fun goesOn => nomatch goesOn

/-- Every call ends. -/
theorem httpChunkedDecode_isSome (data : Bytes) (decodedLen : Nat) : (httpChunkedDecode data decodedLen).isSome :=
  Loop.run_isSome (fun state => state.rest.length) (fun _ _ => round_progress) _ (Nat.lt_succ_self _)

theorem strtoul16_numeral (hex : ∀ digit ∈ numeral, isHex digit = true) : strtoul16 numeral = ofHex numeral := by
  cases numeral with
  | nil => rfl
  | cons first rest =>
    obtain ⟨digit, others⟩ := List.forall_mem_cons.mp hex
    have text : (first :: rest).dropWhile Decimal.isSpace = first :: rest :=
      List.dropWhile_cons_of_neg (by simp [not_isSpace_of_isHex digit])
    have sign : Decimal.readSign (first :: rest) = (false, first :: rest) := by
      have minus : first ≠ 45 := ne_of_isHex digit (by decide)
      have plus : first ≠ 43 := ne_of_isHex digit (by decide)
      simp [Decimal.readSign, minus, plus]
    have unmarked : ¬((first :: rest)[0]? = some 48 ∧ ((first :: rest)[1]? = some 120 ∨ (first :: rest)[1]? = some 88) ∧
        (first :: rest)[2]?.any isHex = true) := by
      rintro ⟨-, marked, -⟩
      rw [List.getElem?_cons_succ] at marked
      rcases marked with lower | upper
      · exact ne_of_isHex (others _ (List.mem_of_getElem? lower)) (by decide) rfl
      · exact ne_of_isHex (others _ (List.mem_of_getElem? upper)) (by decide) rfl
    have whole : (first :: rest).takeWhile isHex = first :: rest := List.takeWhile_eq_self_iff.mpr hex
    rw [strtoul16, text, sign]
    simp only [if_neg unmarked, whole, Bool.false_eq_true, if_false]

theorem hexField_numeral (hex : ∀ digit ∈ numeral, isHex digit = true) (short : numeral.length ≤ 15)
    (line : ∀ byte ∈ tail.head?, byte = 13) : hexField (numeral ++ tail) = numeral := by
  have plain : ∀ digit ∈ numeral, decide (digit ≠ 13) = true :=
    fun digit inside => decide_eq_true (ne_of_isHex (hex digit inside) (by decide))
  have stop : tail.takeWhile (· ≠ 13) = [] := by
    cases tail with
    | nil => rfl
    | cons byte rest => simp [line byte rfl]
  rw [hexField, List.takeWhile_append_of_pos plain, stop, List.append_nil, List.take_of_length_le short]

/-- A round that finds a size. -/
theorem round_size (held : state.rest = numeral ++ tail) (hex : ∀ digit ∈ numeral, isHex digit = true)
    (short : numeral.length ≤ 15) (line : ∀ byte ∈ tail.head?, byte = 13) (worth : ofHex numeral ≠ 0)
    (inside : state.rest.length ≤ len) :
    httpChunkedRound len decodedLen state =
      if (skipLineEnd tail).length < ofHex numeral then .inr (.error (.code (-2)))
      else if decodedLen < state.decoded.length + ofHex numeral then .inr (.error (.code (-3)))
      else .inl ⟨skipDataEnd ((skipLineEnd tail).drop (ofHex numeral)),
        state.decoded ++ (skipLineEnd tail).take (ofHex numeral)⟩ := by
  obtain ⟨first, rest, rfl⟩ : ∃ first rest, numeral = first :: rest := by
    apply List.exists_cons_of_ne_nil
    rintro rfl
    exact worth rfl
  have filled : state.rest ≠ [] := by rw [held]; exact List.cons_ne_nil _ _
  have notEnd : state.rest.take 2 ≠ crlf := by
    intro ended
    rw [held, crlf, List.cons_append, List.take_succ_cons, List.cons.injEq] at ended
    exact ne_of_isHex (hex first (List.mem_cons_self ..)) (by decide) ended.1
  have bound : (skipLineEnd tail).length ≤ len :=
    calc (skipLineEnd tail).length ≤ tail.length := length_skipLineEnd_le tail
      _ ≤ state.rest.length := by rw [held, List.length_append]; exact Nat.le_add_left _ _
      _ ≤ len := inside
  rw [httpChunkedRound, if_neg filled, if_neg notEnd, held, hexField_numeral hex short line]
  simp only [strtoul16_numeral hex, List.drop_left, Int.toNat_natCast]
  rw [if_neg (by exact_mod_cast worth), if_neg (by omega : ¬(ofHex (first :: rest) : Int) < 0)]
  congr 1
  · apply propext
    omega
  · congr 1
    apply propext
    omega

/-- A round that finds the end of the body, or what looks like it. -/
theorem round_zero (held : state.rest = numeral ++ tail) (hex : ∀ digit ∈ numeral, isHex digit = true)
    (short : numeral.length ≤ 15) (line : ∀ byte ∈ tail.head?, byte = 13) (worthless : ofHex numeral = 0)
    (begun : numeral = [] → state.rest.take 2 ≠ crlf) :
    httpChunkedRound len decodedLen state = .inr (.ok state.decoded) := by
  have notEnd : state.rest.take 2 ≠ crlf := by
    cases numeral with
    | nil => exact begun rfl
    | cons first rest =>
      intro ended
      rw [held, crlf, List.cons_append, List.take_succ_cons, List.cons.injEq] at ended
      exact ne_of_isHex (hex first (List.mem_cons_self ..)) (by decide) ended.1
  have zero : strtoul16 (hexField state.rest) = 0 := by
    rw [held, hexField_numeral hex short line, strtoul16_numeral hex, worthless]
    rfl
  rw [httpChunkedRound, if_neg notEnd]
  split
  · rfl
  · exact if_pos zero

theorem round_chunk {after : Bytes} (held : state.rest = chunk.encode ++ after) (short : chunk.size.length ≤ 15)
    (room : state.decoded.length + chunk.data.length ≤ decodedLen) (inside : state.rest.length ≤ len) :
    httpChunkedRound len decodedLen state = .inl ⟨after, state.decoded ++ chunk.data⟩ := by
  rw [chunk.encode_eq, List.append_assoc] at held
  have line : skipLineEnd (13 :: 10 :: (chunk.data ++ crlf) ++ after) = chunk.data ++ (crlf ++ after) :=
    List.append_assoc ..
  rw [round_size held chunk.hex short (by simp) chunk.ofHex_ne_zero inside, line, chunk.counts, List.drop_left,
    List.take_left, if_neg (by simp), if_neg (Nat.not_lt_of_le room)]
  rfl

/-- The loop over whole chunks. -/
theorem reaches_chunks {after : Bytes} {chunks : List Chunk} (held : state.rest = encodeChunks chunks ++ after)
    (short : ∀ chunk ∈ chunks, chunk.size.length ≤ 15) (room : state.decoded.length + (body chunks).length ≤ decodedLen)
    (inside : state.rest.length ≤ len) :
    Loop.Reaches (httpChunkedRound len decodedLen) state ⟨after, state.decoded ++ body chunks⟩ := by
  induction chunks generalizing state with
  | nil =>
    obtain ⟨rest, decoded⟩ := state
    cases held
    rw [body, List.flatMap_nil, List.append_nil]
    exact .refl
  | cons chunk chunks ih =>
    obtain ⟨first, others⟩ := List.forall_mem_cons.mp short
    rw [encodeChunks, List.flatMap_cons, List.append_assoc] at held
    rw [body, List.flatMap_cons, List.length_append, ← Nat.add_assoc] at room
    refine .head (round_chunk held first (Nat.le_of_add_right_le room) inside) ?_
    rw [body, List.flatMap_cons, ← List.append_assoc]
    rw [held, List.length_append] at inside
    refine ih rfl others ?_ (Nat.le_trans (Nat.le_add_left _ _) inside)
    rw [List.length_append]
    exact room

/-- Every encoding of a body whose sizes fit the buffer for them is decoded. -/
theorem httpChunkedDecode_body {chunks : List Chunk} (short : ∀ chunk ∈ chunks, chunk.size.length ≤ 15)
    (room : (body chunks).length ≤ decodedLen) :
    httpChunkedDecode (encodeBody chunks) decodedLen = some (.ok (body chunks)) := by
  have reached : Loop.Reaches (httpChunkedRound (encodeBody chunks).length decodedLen) ⟨encodeBody chunks, []⟩
      ⟨48 :: crlf ++ crlf, body chunks⟩ := by
    refine reaches_chunks (List.append_assoc ..) short ?_ (Nat.le_refl _)
    rw [List.length_nil, Nat.zero_add]
    exact room
  have held : (ChunkedState.mk (48 :: crlf ++ crlf) (body chunks)).rest = [48] ++ (crlf ++ crlf) := rfl
  have zero : httpChunkedRound (encodeBody chunks).length decodedLen ⟨48 :: crlf ++ crlf, body chunks⟩ =
      .inr (.ok (body chunks)) :=
    round_zero held (List.forall_mem_singleton.mpr (by decide)) (by decide)
      (fun _ first => (Option.some.inj first).symm) (by decide) fun empty => absurd empty (by decide)
  exact (Loop.ends_iff.mpr ⟨_, reached, zero⟩).run_eq (httpChunkedDecode_isSome _ _)

end Rounds

section Cuts

variable {len decodedLen : Nat} {state : ChunkedState} {part cut : Bytes} {chunk : Chunk} {chunks : List Chunk}

/-- What a round makes of the part of a chunk that stands in front of it. -/
structure Part (chunk : Chunk) (part numeral tail : Bytes) : Prop where
  split : part = numeral ++ tail
  hex : ∀ digit ∈ numeral, isHex digit = true
  line : ∀ byte ∈ tail.head?, byte = 13
  whole : tail ≠ [] → numeral = chunk.size
  behind : skipLineEnd tail = part.drop (chunk.size.length + 2)
  data : skipLineEnd tail <+: chunk.data ++ crlf

theorem part_of_prefix (inside : part <+: chunk.encode) :
    Part chunk part (part.take chunk.size.length) (part.drop chunk.size.length) := by
  have front := chunk.take_part inside
  have rest := chunk.drop_part inside
  have skipped : skipLineEnd (part.drop chunk.size.length) = (part.drop chunk.size.length).drop 2 := by
    obtain ⟨missing, joined⟩ := rest
    match part.drop chunk.size.length, joined with
    | [], _ => rfl
    | [_], _ => rfl
    | _ :: second :: more, joined =>
      simp only [List.cons_append, List.cons.injEq] at joined
      simp [skipLineEnd, joined.2.1]
  constructor
  · exact (List.take_append_drop _ _).symm
  · exact fun digit held => chunk.hex digit (front.subset held)
  · intro byte first
    exact (List.cons_prefix_cons.mp ((List.head?_eq_some_iff.mp first).choose_spec ▸ rest)).1
  · intro more
    apply front.eq_of_length
    rw [List.length_take, Nat.min_eq_left]
    exact Nat.le_of_lt (List.length_lt_of_drop_ne_nil more)
  · rw [skipped, List.drop_drop]
  · rw [skipped]
    exact rest.drop 2

theorem length_take_part_le (part : Bytes) (short : chunk.size.length ≤ 15) :
    (part.take chunk.size.length).length ≤ 15 :=
  Nat.le_trans (List.length_take_le _ _) short

/-- A chunk of which data is missing is refused. -/
theorem round_missing (inside : state.rest <+: chunk.encode) (missing : chunk.Missing state.rest)
    (short : chunk.size.length ≤ 15) (bound : state.rest.length ≤ len) :
    httpChunkedRound len decodedLen state = .inr (.error (.code (-2))) := by
  have parts := part_of_prefix inside
  obtain ⟨⟨digit, held, nonzero⟩, early⟩ := missing
  have worth : ofHex (state.rest.take chunk.size.length) ≠ 0 :=
    fun zero => nonzero ((ofHex_eq_zero_iff parts.hex).mp zero digit held)
  rw [round_size parts.split parts.hex (length_take_part_le _ short) parts.line worth bound]
  apply if_pos
  by_cases lineEnd : state.rest.drop chunk.size.length = []
  · rw [lineEnd]
    exact Nat.pos_of_ne_zero worth
  · have filled := List.length_pos_iff.mpr chunk.filled
    rw [parts.whole lineEnd, chunk.counts, parts.behind, List.length_drop]
    omega

/-- What is left of the end of a chunk does not keep the loop going. -/
theorem ends_crlf {rest : Bytes} (left : rest <+: crlf) (decoded : Bytes) :
    Loop.Ends (httpChunkedRound len decodedLen) ⟨skipDataEnd rest, decoded⟩ (.ok decoded) := by
  apply Loop.Ends.last
  obtain ⟨missing, joined⟩ := left
  match rest, joined with
  | [], _ => rfl
  | [first], joined =>
    obtain rfl : first = 13 := (List.cons.inj joined).1
    rfl
  | [first, second], joined =>
    obtain ⟨rfl, more⟩ := List.cons.inj joined
    obtain ⟨rfl, -⟩ := List.cons.inj more
    rfl
  | _ :: _ :: _ :: _, joined => simp [crlf] at joined

/-- Anything else that is left of an encoding is taken for its end. -/
theorem ends_unless_missing (inside : state.rest <+: chunk.encode) (complete : ¬chunk.Missing state.rest)
    (short : chunk.size.length ≤ 15) (bound : state.rest.length ≤ len)
    (room : state.decoded.length + chunk.data.length ≤ decodedLen) :
    ∃ decoded, Loop.Ends (httpChunkedRound len decodedLen) state (.ok decoded) := by
  have parts := part_of_prefix inside
  have size := length_take_part_le state.rest short
  by_cases worth : ofHex (state.rest.take chunk.size.length) = 0
  · refine ⟨_, .last (round_zero parts.split parts.hex size parts.line worth ?_)⟩
    intro empty
    have some_digit : chunk.size ≠ [] := fun none => chunk.ofHex_ne_zero (by rw [none]; rfl)
    have ended : state.rest = [] := (List.take_eq_nil_iff.mp empty).resolve_left (by simpa using some_digit)
    rw [ended]
    decide
  · have digit : ∃ digit ∈ state.rest.take chunk.size.length, digit ≠ 48 := by
      by_contra zeros
      apply worth
      exact (ofHex_eq_zero_iff parts.hex).mpr fun digit held => by_contra fun other => zeros ⟨digit, held, other⟩
    have late : chunk.size.length + 2 + chunk.data.length ≤ state.rest.length :=
      Nat.le_of_not_lt fun early => complete ⟨digit, early⟩
    have lineEnd : state.rest.drop chunk.size.length ≠ [] := by
      rw [Ne, List.drop_eq_nil_iff]
      omega
    have data := parts.data
    have count : ofHex (state.rest.take chunk.size.length) = chunk.data.length := by
      rw [parts.whole lineEnd, chunk.counts]
    have enough : ¬(skipLineEnd (state.rest.drop chunk.size.length)).length < chunk.data.length := by
      rw [parts.behind, List.length_drop]
      omega
    have round : httpChunkedRound len decodedLen state = _ :=
      round_size parts.split parts.hex size parts.line worth bound
    rw [count, if_neg enough, if_neg (Nat.not_lt_of_le room)] at round
    have left : (skipLineEnd (state.rest.drop chunk.size.length)).drop chunk.data.length <+: crlf := by
      have behind := data.drop chunk.data.length
      rwa [List.drop_left] at behind
    exact ⟨_, (ends_crlf left _).before round⟩

/-- The loop over the chunks before the cut. -/
theorem reaches_cut {before : List Chunk} (part : Bytes) (first : before <+: chunks)
    (short : ∀ chunk ∈ chunks, chunk.size.length ≤ 15) (room : (body chunks).length ≤ decodedLen) :
    Loop.Reaches (httpChunkedRound (encodeChunks before ++ part).length decodedLen) ⟨encodeChunks before ++ part, []⟩
      ⟨part, body before⟩ := by
  refine reaches_chunks rfl (fun chunk held => short chunk (first.subset held)) ?_ (Nat.le_refl _)
  obtain ⟨after, rfl⟩ := first
  rw [body_append, List.length_append] at room
  simpa using Nat.le_of_add_right_le room

/-- A chunked body that is cut off is refused exactly if the cut lies within a chunk. -/
theorem httpChunkedDecode_cut_iff (short : ∀ chunk ∈ chunks, chunk.size.length ≤ 15)
    (room : (body chunks).length ≤ decodedLen) (begins : cut <+: encodeChunks chunks) :
    (∃ code, code ≠ 0 ∧ httpChunkedDecode cut decodedLen = some (.error (.code code))) ↔ CutInside chunks cut := by
  have total := httpChunkedDecode_isSome cut decodedLen
  constructor
  · intro ⟨code, _, refused⟩
    obtain ⟨before, part, rfl, first, within⟩ := prefix_encodeChunks begins
    have reached := reaches_cut part first short room
    have bound : part.length ≤ (encodeChunks before ++ part).length := by
      rw [List.length_append]
      exact Nat.le_add_left _ _
    have refusal : ∀ decoded, ¬Loop.Ends (httpChunkedRound (encodeChunks before ++ part).length decodedLen)
        ⟨part, body before⟩ (.ok decoded) := by
      intro decoded accepted
      have same := ((reached.ends accepted).run_eq total).symm.trans refused
      cases same
    rcases within with rfl | ⟨chunk, after, rfl, inside⟩
    · exact absurd (.last rfl) (refusal (body before))
    · refine ⟨before, chunk, after, part, rfl, rfl, inside, ?_⟩
      by_contra complete
      have space : (body before).length + chunk.data.length ≤ decodedLen := by
        rw [body_append, List.length_append, body, body, List.flatMap_cons, List.length_append] at room
        exact Nat.le_trans (Nat.add_le_add_left (Nat.le_add_right _ _) _) room
      obtain ⟨decoded, accepted⟩ : ∃ decoded,
          Loop.Ends (httpChunkedRound _ decodedLen) ⟨part, body before⟩ (.ok decoded) :=
        ends_unless_missing inside complete (short chunk (by simp)) bound space
      exact refusal decoded accepted
  · rintro ⟨before, chunk, after, part, rfl, rfl, inside, missing⟩
    have reached := reaches_cut part (List.prefix_append before (chunk :: after)) short room
    have bound : part.length ≤ (encodeChunks before ++ part).length := by
      rw [List.length_append]
      exact Nat.le_add_left _ _
    have refused : httpChunkedRound _ decodedLen ⟨part, body before⟩ = _ :=
      round_missing inside missing (short chunk (by simp)) bound
    exact ⟨-2, by decide, (reached.ends (.last refused)).run_eq total⟩

end Cuts

end MiniNetDist.NetworkBase.HttpBasic
