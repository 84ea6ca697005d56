import MiniNetDist.NetworkBase.HttpChunked

/-! The decoder of chunked bodies in `mini-gateway-proxy/src/http_message.c`, beside the one of `http_basic.c`. It has
no error to report: where the input ends early, it returns what it has. -/

namespace MiniNetDist.GatewayProxy.HttpMessage

open Library Library.Chunked NetworkBase.HttpBasic

/-- The size up to a carriage return; other bytes are passed over. -/
def hmChunkSize : Bytes → UInt64 → UInt64 × Bytes
  | [], chunkSize => (chunkSize, [])
  | c :: rest, chunkSize =>
    match hexDigit c with
    | some digit => hmChunkSize rest (chunkSize * 16 + .ofNat digit)
    | none => if c = 13 then (chunkSize, c :: rest) else hmChunkSize rest chunkSize

/-- What follows the next line feed. -/
def skipLine (rest : Bytes) : Bytes := (rest.dropWhile (· ≠ 10)).tail

/-- The body of the loop, or the result behind it; the state is the input from `in_off` on with the output so far. -/
def hmChunkedRound (state : Bytes × Bytes) : (Bytes × Bytes) ⊕ (Int × Bytes) :=
  if state.1 = [] then .inr (0, state.2)
  else
    let (chunkSize, rest) := hmChunkSize state.1 0
    if chunkSize = 0 then .inr (0, state.2)
    else
      let rest := skipLine rest
      .inl (skipLine (rest.drop chunkSize.toNat), state.2 ++ rest.take chunkSize.toNat)

/-- The return value and the output, which is taken to be large enough. -/
def hmChunkedDecode (input : Bytes) : Option (Int × Bytes) :=
  Loop.run hmChunkedRound (input.length + 1) (input, [])

section Rounds

variable {state next : Bytes × Bytes} {numeral : Bytes} {chunk : Chunk} {chunks : List Chunk}

theorem length_hmChunkSize_le (rest : Bytes) (chunkSize : UInt64) :
    (hmChunkSize rest chunkSize).2.length ≤ rest.length := by
  induction rest generalizing chunkSize with
  | nil => exact Nat.le_refl _
  | cons c rest ih =>
    rw [hmChunkSize]
    split
    · exact Nat.le_succ_of_le (ih _)
    · split
      · exact Nat.le_refl _
      · exact Nat.le_succ_of_le (ih _)

theorem length_skipLine_le (rest : Bytes) : (skipLine rest).length ≤ rest.length := by
  rw [skipLine, List.length_tail]
  exact Nat.le_trans (Nat.sub_le _ _) (List.dropWhile_suffix _).length_le

/-- A size is read from at least one byte. -/
theorem length_hmChunkSize_lt {rest : Bytes} (sized : (hmChunkSize rest 0).1 ≠ 0) :
    (hmChunkSize rest 0).2.length < rest.length := by
  cases rest with
  | nil => exact absurd rfl sized
  | cons c rest =>
    revert sized
    rw [hmChunkSize]
    split
    · exact fun _ => Nat.lt_succ_of_le (length_hmChunkSize_le _ _)
    · split
      · exact fun sized => absurd rfl sized
      · exact fun _ => Nat.lt_succ_of_le (length_hmChunkSize_le _ _)

theorem hmRound_progress (goesOn : hmChunkedRound state = .inl next) : next.1.length < state.1.length := by
  revert goesOn
  rw [hmChunkedRound]
  split
  · exact fun goesOn => nomatch goesOn
  · dsimp only
    split
    · exact fun goesOn => nomatch goesOn
    · intro goesOn
      rename_i sized
      obtain rfl := Sum.inl.inj goesOn
      calc (skipLine ((skipLine (hmChunkSize state.1 0).2).drop _)).length
        _ ≤ ((skipLine (hmChunkSize state.1 0).2).drop _).length := length_skipLine_le _
        _ ≤ (skipLine (hmChunkSize state.1 0).2).length := by rw [List.length_drop]; exact Nat.sub_le _ _
        _ ≤ (hmChunkSize state.1 0).2.length := length_skipLine_le _
        _ < state.1.length := length_hmChunkSize_lt sized

theorem hmChunkedDecode_isSome (input : Bytes) : (hmChunkedDecode input).isSome :=
  Loop.run_isSome (fun state => state.1.length) (fun _ _ => hmRound_progress) _ (Nat.lt_succ_self _)

/-- The decoder never reports an error. -/
theorem hmChunkedDecode_zero (input : Bytes) : ∃ output, hmChunkedDecode input = some (0, output) := by
  obtain ⟨⟨code, output⟩, ended⟩ := Option.isSome_iff_exists.mp (hmChunkedDecode_isSome input)
  obtain ⟨last, -, leaves⟩ := Loop.ends_iff.mp ⟨_, ended⟩
  have zero : code = 0 := by
    revert leaves
    rw [hmChunkedRound]
    split
    · exact fun leaves => (Prod.mk.inj (Sum.inr.inj leaves)).1.symm
    · dsimp only
      split
      · exact fun leaves => (Prod.mk.inj (Sum.inr.inj leaves)).1.symm
      · exact fun leaves => nomatch leaves
  exact ⟨output, zero ▸ ended⟩

theorem hmChunkSize_numeral (hex : ∀ digit ∈ numeral, isHex digit = true) (value : Nat) (rest : Bytes) :
    hmChunkSize (numeral ++ 13 :: rest) (.ofNat value) = (.ofNat (numeral.foldl pushDigit value), 13 :: rest) := by
  induction numeral generalizing value with
  | nil => rfl
  | cons digit numeral ih =>
    obtain ⟨first, others⟩ := List.forall_mem_cons.mp hex
    obtain ⟨worth, found⟩ := Option.isSome_iff_exists.mp first
    have pushed : UInt64.ofNat value * 16 + UInt64.ofNat worth = UInt64.ofNat (pushDigit value digit) := by
      rw [pushDigit, found, Option.getD_some, UInt64.ofNat_add, UInt64.ofNat_mul]
      rfl
    rw [List.cons_append, hmChunkSize, found]
    dsimp only
    rw [pushed, ih others, List.foldl_cons]

theorem skipLine_lf (rest : Bytes) : skipLine (13 :: 10 :: rest) = rest := rfl

theorem hmRound_chunk {after : Bytes} (held : state.1 = chunk.encode ++ after) :
    hmChunkedRound state = .inl (after, state.2 ++ chunk.data) := by
  have filled : state.1 ≠ [] := by
    rw [held, chunk.encode_eq]
    simp
  have small := chunk.small
  have count : (UInt64.ofNat chunk.data.length).toNat = chunk.data.length :=
    UInt64.toNat_ofNat_of_lt' (Nat.lt_trans small (by decide))
  have sized : UInt64.ofNat chunk.data.length ≠ 0 := by
    intro zero
    rw [zero] at count
    exact chunk.filled (List.length_eq_zero_iff.mp count.symm)
  have size : hmChunkSize state.1 0 = (.ofNat chunk.data.length, 13 :: 10 :: (chunk.data ++ crlf ++ after)) := by
    rw [held, chunk.encode_eq, List.append_assoc, ← chunk.counts]
    exact hmChunkSize_numeral chunk.hex 0 _
  rw [hmChunkedRound, if_neg filled, size]
  simp only [if_neg sized, skipLine_lf, count, List.append_assoc, List.drop_left, List.take_left]
  rfl

theorem hmReaches_chunks {after : Bytes} (held : state.1 = encodeChunks chunks ++ after) :
    Loop.Reaches hmChunkedRound state (after, state.2 ++ body chunks) := by
  induction chunks generalizing state with
  | nil =>
    obtain ⟨rest, output⟩ := state
    cases held
    rw [body, List.flatMap_nil, List.append_nil]
    exact .refl
  | cons chunk chunks ih =>
    rw [encodeChunks, List.flatMap_cons, List.append_assoc] at held
    refine .head (hmRound_chunk held) ?_
    rw [body, List.flatMap_cons, ← List.append_assoc]
    exact ih rfl

/-- Every encoding of a body is decoded. -/
theorem hmChunkedDecode_body (chunks : List Chunk) : hmChunkedDecode (encodeBody chunks) = some (0, body chunks) := by
  have reached : Loop.Reaches hmChunkedRound (encodeBody chunks, []) (48 :: crlf ++ crlf, body chunks) :=
    hmReaches_chunks (List.append_assoc ..)
  have zero : hmChunkedRound (48 :: crlf ++ crlf, body chunks) = .inr (0, body chunks) := rfl
  exact (reached.ends (.last zero)).run_eq (hmChunkedDecode_isSome _)

end Rounds

section Bodies

/-- Both decoders return the body for the whole encoding, and refuse what is cut off before the end of the chunks. -/
def DecodesExactly (chunks : List Chunk) (decodedLen : Nat) (input : Bytes) : Prop :=
  (input = encodeBody chunks →
    httpChunkedDecode input decodedLen = some (.ok (body chunks)) ∧ hmChunkedDecode input = some (0, body chunks)) ∧
  (input <+: encodeChunks chunks →
    (∃ code, code ≠ 0 ∧ httpChunkedDecode input decodedLen = some (.error (.code code))) ∧
      ∃ code output, code ≠ 0 ∧ hmChunkedDecode input = some (code, output))

/-- Of an encoding and its beginnings, the decoders treat the whole one alone as they should. The first decoder refuses
what is cut off within a chunk, the second refuses nothing. -/
theorem chunkedDecode_exactly_iff (chunks : List Chunk) (decodedLen : Nat)
    (short : ∀ chunk ∈ chunks, chunk.size.length ≤ 15) (room : (body chunks).length ≤ decodedLen) :
    (∀ input, input = encodeBody chunks ∨ input <+: encodeChunks chunks →
      (DecodesExactly chunks decodedLen input ↔ input = encodeBody chunks)) ∧
    (∀ cut, cut <+: encodeChunks chunks →
      ((∃ code, code ≠ 0 ∧ httpChunkedDecode cut decodedLen = some (.error (.code code))) ↔ CutInside chunks cut)) ∧
    ∀ input, ∃ output, hmChunkedDecode input = some (0, output) := by
  refine ⟨?_, fun cut begins => httpChunkedDecode_cut_iff short room begins, hmChunkedDecode_zero⟩
  intro input given
  constructor
  · intro exactly
    rcases given with whole | begins
    · exact whole
    · obtain ⟨code, output, nonzero, refused⟩ := (exactly.2 begins).2
      obtain ⟨accepted, zero⟩ := hmChunkedDecode_zero input
      rw [zero] at refused
      cases refused
      exact absurd rfl nonzero
  · rintro rfl
    refine ⟨fun _ => ⟨httpChunkedDecode_body short room, hmChunkedDecode_body chunks⟩, ?_⟩
    intro begins
    have longer := begins.length_le
    rw [encodeBody, List.append_assoc, List.length_append] at longer
    exact absurd longer (by simp)

/-- One byte in one chunk. -/
def oneByte : Chunk := ⟨[49], [120], List.forall_mem_singleton.mpr (by decide), by decide, by decide, by decide⟩

/-- A numeral with a line end, and the beginning of another chunk. -/
def deceptive : List Chunk :=
  [⟨[48, 51], [49, 13, 10], List.forall_mem_cons.mpr ⟨by decide, List.forall_mem_singleton.mpr (by decide)⟩, by decide,
      by decide, by decide⟩,
    ⟨[52], [50, 13, 10, 120], List.forall_mem_singleton.mpr (by decide), by decide, by decide, by decide⟩]

theorem chunkedDecode_exactly_deceptive : DecodesExactly deceptive 7 (encodeBody deceptive) ∧
    httpChunkedDecode (encodeBody deceptive) 7 = some (.ok [49, 13, 10, 50, 13, 10, 120]) := by
  have exactly := chunkedDecode_exactly_iff deceptive 7 (by decide) (by decide)
  have decodes := (exactly.1 (encodeBody deceptive) (.inl rfl)).mpr rfl
  exact ⟨decodes, (decodes.1 rfl).1⟩

/-- Without the line that ends the body, both decoders return the chunk as the body. -/
theorem chunkedDecode_unfinished : encodeChunks [oneByte] <+: encodeChunks [oneByte] ∧
    httpChunkedDecode (encodeChunks [oneByte]) 1 = some (.ok [120]) ∧
    hmChunkedDecode (encodeChunks [oneByte]) = some (0, [120]) ∧
    ¬DecodesExactly [oneByte] 1 (encodeChunks [oneByte]) := by
  have accepted : hmChunkedDecode (encodeChunks [oneByte]) = some (0, [120]) := by decide
  refine ⟨List.prefix_refl _, by decide, accepted, ?_⟩
  intro exactly
  obtain ⟨code, output, nonzero, refused⟩ := (exactly.2 (List.prefix_refl _)).2
  rw [accepted] at refused
  cases refused
  exact nonzero rfl

end Bodies

section Encoding

variable {input : Bytes} {decodedLen : Nat}

/-- The whole input in one chunk, and the end of the body. -/
def hmChunkedEncode (input : Bytes) : Bytes := toHex input.length ++ crlf ++ input ++ crlf ++ 48 :: crlf ++ crlf

theorem hmChunkedEncode_eq (filled : input ≠ []) (small : input.length < 2 ^ 32) :
    hmChunkedEncode input = encodeBody [.whole input filled small] := by
  rw [encodeBody, encodeChunks, List.flatMap_cons, List.flatMap_nil, List.append_nil, Chunk.encode, Chunk.whole,
    hmChunkedEncode]

/-- A chunk of size zero ends the body, whatever follows. -/
theorem httpChunkedDecode_end (tail : Bytes) :
    httpChunkedDecode ([48] ++ (crlf ++ tail)) decodedLen = some (.ok []) := by
  have zero : httpChunkedRound ([48] ++ (crlf ++ tail)).length decodedLen ⟨[48] ++ (crlf ++ tail), []⟩ =
      .inr (.ok []) :=
    round_zero rfl (List.forall_mem_singleton.mpr (by decide)) (by decide)
      (fun _ first => (Option.some.inj first).symm) (by decide) nofun
  exact (Loop.Ends.last zero).run_eq (httpChunkedDecode_isSome _ _)

/-- Whatever fits in memory is decoded as it was before it was encoded, by the decoders of both servers. An empty input
is encoded as a body with two ends, of which the decoders read the first. -/
theorem hmChunkedEncode_decoded (small : input.length < 2 ^ 32) (room : input.length ≤ decodedLen) :
    hmChunkedDecode (hmChunkedEncode input) = some (0, input) ∧
      httpChunkedDecode (hmChunkedEncode input) decodedLen = some (.ok input) := by
  by_cases filled : input = []
  · subst filled
    have empty : hmChunkedEncode [] = [48] ++ (crlf ++ (crlf ++ 48 :: crlf ++ crlf)) := by decide
    rw [empty]
    exact ⟨by decide, httpChunkedDecode_end _⟩
  · have whole : body [.whole input filled small] = input := by
      rw [body, List.flatMap_cons, List.flatMap_nil, List.append_nil, Chunk.whole]
    have digits : (toHex input.length).length ≤ 15 :=
      length_toHex_le (by decide) (Nat.lt_trans small (by decide))
    have short : ∀ chunk ∈ [Chunk.whole input filled small], chunk.size.length ≤ 15 := by
      intro chunk listed
      rw [List.mem_singleton.mp listed]
      exact digits
    have first := hmChunkedDecode_body [.whole input filled small]
    have fits : (body [.whole input filled small]).length ≤ decodedLen := by rwa [whole]
    have second := httpChunkedDecode_body short fits
    rw [hmChunkedEncode_eq filled small]
    rw [whole] at first second
    exact ⟨first, second⟩

theorem hmChunkedEncode_decoded_two : hmChunkedDecode (hmChunkedEncode [104, 105]) = some (0, [104, 105]) ∧
    httpChunkedDecode (hmChunkedEncode [104, 105]) 2 = some (.ok [104, 105]) :=
  hmChunkedEncode_decoded (by decide) (by decide)

end Encoding

end MiniNetDist.GatewayProxy.HttpMessage
