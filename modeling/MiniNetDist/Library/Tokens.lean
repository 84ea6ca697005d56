import MiniNetDist.Library.Decimal

/-! C strings that are searched, compared and split: `strcasecmp`, `strstr`, the format `%s` of `sscanf`, and
`strtok_r`, which ends the tokens it returns by zeros in the memory. -/

namespace MiniNetDist.Library.Tokens

section Comparing

/-- `tolower` in the C locale. -/
def tolower (char : UInt8) : UInt8 := if 65 ≤ char ∧ char ≤ 90 then char + 32 else char

/-- `strcasecmp` finds no difference. -/
def strcasecmp (left right : CString) : Bool := left.map tolower = right.map tolower

end Comparing

section Searching

variable {needle text more : Bytes} {index : Nat}

/-- The index of the first occurrence. -/
def strstr (needle : Bytes) : Bytes → Option Nat
  | [] => if needle = [] then some 0 else none
  | byte :: text => if needle <+: byte :: text then some 0 else (strstr needle text).map (· + 1)

theorem strstr_inside (found : strstr needle text = some index) : index + needle.length ≤ text.length := by
  induction text generalizing index with
  | nil =>
    rw [strstr] at found
    split at found
    · rename_i empty
      cases found
      simp [empty]
    · cases found
  | cons byte text ih =>
    rw [strstr] at found
    split at found
    · rename_i here
      cases found
      rw [Nat.zero_add]
      exact here.length_le
    · obtain ⟨later, there, rfl⟩ := Option.map_eq_some_iff.mp found
      rw [List.length_cons, Nat.add_right_comm]
      exact Nat.succ_le_succ (ih there)

/-- The first occurrence in a text is the first one in every text that begins with it. -/
theorem strstr_append (filled : needle ≠ []) (found : strstr needle text = some index) (more : Bytes) :
    strstr needle (text ++ more) = some index := by
  induction text generalizing index with
  | nil =>
    rw [strstr, if_neg filled] at found
    cases found
  | cons byte text ih =>
    have room := strstr_inside found
    rw [strstr] at found
    rw [List.cons_append, strstr]
    split at found
    · rename_i here
      have still : needle <+: byte :: (text ++ more) := here.trans (List.prefix_append (byte :: text) more)
      rw [if_pos still]
      exact found
    · rename_i absent
      obtain ⟨later, there, rfl⟩ := Option.map_eq_some_iff.mp found
      have stays : ¬needle <+: byte :: (text ++ more) := by
        intro here
        exact absent (List.prefix_of_prefix_length_le here (List.prefix_append (byte :: text) more) (by omega))
      rw [if_neg stays, ih there]
      rfl

/-- What does not have the first byte of the needle is passed over. -/
theorem strstr_skip {first : UInt8} {others : Bytes} (absent : first ∉ text) (more : Bytes) :
    strstr (first :: others) (text ++ more) = (strstr (first :: others) more).map (text.length + ·) := by
  induction text with
  | nil => simp
  | cons byte text ih =>
    obtain ⟨other, rest⟩ := not_or.mp (fun either => absent (List.mem_cons.mpr either))
    have notHere : ¬first :: others <+: byte :: (text ++ more) := fun here => other (List.cons_prefix_cons.mp here).1
    rw [List.cons_append, strstr, if_neg notHere, ih rest, Option.map_map]
    congr 1
    funext index
    simp only [Function.comp_apply, List.length_cons]
    omega

/-- A text without the needle is passed over up to a byte that the needle does not have. -/
theorem strstr_stop {stop : UInt8} (absent : strstr needle text = none) (filled : needle ≠ []) (foreign : stop ∉ needle)
    (more : Bytes) : strstr needle (text ++ stop :: more) = (strstr needle more).map (text.length + 1 + ·) := by
  induction text with
  | nil =>
    have notHere : ¬needle <+: stop :: more := by
      intro here
      obtain ⟨first, others, rfl⟩ := List.exists_cons_of_ne_nil filled
      exact foreign (List.mem_cons.mpr (.inl (List.cons_prefix_cons.mp here).1.symm))
    rw [List.nil_append, strstr, if_neg notHere]
    congr 1
    funext index
    exact Nat.add_comm index 1
  | cons byte text ih =>
    rw [strstr] at absent
    split at absent
    · cases absent
    · rename_i notHere
      have stays : ¬needle <+: (byte :: text) ++ stop :: more := by
        intro here
        rcases List.prefix_or_prefix_of_prefix here (List.prefix_append (byte :: text) _) with within | ⟨rest, rfl⟩
        · exact notHere within
        · cases rest with
          | nil => exact notHere (by simp)
          | cons first rest =>
            obtain ⟨same, _⟩ := List.cons_prefix_cons.mp ((List.prefix_append_right_inj _).mp here)
            exact foreign (by simp [same])
      rw [List.cons_append] at stays ⊢
      rw [strstr, if_neg stays, ih (Option.map_eq_none_iff.mp absent), Option.map_map]
      congr 1
      funext index
      simp only [Function.comp_apply, List.length_cons]
      omega

/-- The needle is found, and this is what the text has behind it. -/
def Found (needle text rest : Bytes) : Prop :=
  ∃ place, strstr needle text = some place ∧ text.drop (place + needle.length) = rest

variable {rest : Bytes}

theorem Found.here (filled : needle ≠ []) (rest : Bytes) : Found needle (needle ++ rest) rest := by
  refine ⟨0, ?_, by rw [Nat.zero_add, List.drop_left]⟩
  obtain ⟨first, others, rfl⟩ := List.exists_cons_of_ne_nil filled
  exact if_pos (List.prefix_append (first :: others) rest)

theorem Found.append (found : Found needle text rest) (filled : needle ≠ []) (more : Bytes) :
    Found needle (text ++ more) (rest ++ more) := by
  obtain ⟨place, there, rfl⟩ := found
  exact ⟨place, strstr_append filled there more, List.drop_append_of_le_length (strstr_inside there)⟩

theorem Found.stop {stop : UInt8} (found : Found needle more rest) (absent : strstr needle text = none)
    (filled : needle ≠ []) (foreign : stop ∉ needle) : Found needle (text ++ stop :: more) rest := by
  obtain ⟨place, there, rfl⟩ := found
  refine ⟨text.length + 1 + place, by rw [strstr_stop absent filled foreign, there]; rfl, ?_⟩
  rw [List.append_cons, Nat.add_assoc, ← List.drop_drop]
  congr 1
  exact List.drop_left' (by rw [List.length_append, List.length_singleton])

/-- A line without the needle is passed over. -/
theorem Found.pastLine (found : Found needle more rest) (absent : strstr needle text = none) (filled : needle ≠ [])
    (plain : 13 ∉ needle ∧ 10 ∉ needle) : Found needle (text ++ 13 :: 10 :: more) rest :=
  (@Found.stop needle [] more rest 10 found (if_neg filled) filled plain.2).stop absent filled plain.1

end Searching

section Words

variable {width : Nat} {word rest : Bytes}

/-- The format `%<width>s`: a word behind any spaces, and what follows it. -/
def scanWord (width : Nat) (text : Bytes) : Option (CString × Bytes) :=
  let text := text.dropWhile Decimal.isSpace
  let word := (text.takeWhile fun char => !Decimal.isSpace char).take width
  if word = [] then none else some (word, text.drop word.length)

theorem scanWord_word (filled : word ≠ []) (plain : ∀ char ∈ word, Decimal.isSpace char = false)
    (fits : word.length ≤ width) (stops : ∀ char ∈ rest.head?, Decimal.isSpace char = true) :
    scanWord width (word ++ rest) = some (word, rest) := by
  obtain ⟨first, others, rfl⟩ := List.exists_cons_of_ne_nil filled
  have begins : ((first :: others) ++ rest).dropWhile Decimal.isSpace = (first :: others) ++ rest :=
    List.dropWhile_cons_of_neg (by simp [plain first (List.mem_cons_self ..)])
  have ended : rest.takeWhile (fun char => !Decimal.isSpace char) = [] := by
    cases rest with
    | nil => rfl
    | cons char rest => simp [stops char rfl]
  have whole : ((first :: others) ++ rest).takeWhile (fun char => !Decimal.isSpace char) = first :: others := by
    rw [List.takeWhile_append_of_pos (by simpa using plain), ended, List.append_nil]
  rw [scanWord]
  simp only [begins, whole, List.take_of_length_le fits, if_neg filled, List.drop_left]

/-- What is scanned comes from the text. -/
theorem scanWord_some {text : Bytes} (scanned : scanWord width text = some (word, rest)) :
    word ≠ [] ∧ word.length ≤ width ∧ (∀ char ∈ word, char ∈ text ∧ Decimal.isSpace char = false) ∧
      ∀ char ∈ rest, char ∈ text := by
  obtain ⟨filled, same⟩ := Option.ite_none_left_eq_some.mp scanned
  obtain ⟨rfl, rfl⟩ := Prod.mk.inj (Option.some.inj same)
  have behind := List.dropWhile_suffix Decimal.isSpace (l := text)
  refine ⟨filled, List.length_take_le _ _, fun char held => ?_, fun char held => ?_⟩
  · have inside := List.mem_of_mem_take held
    refine ⟨behind.subset ((List.takeWhile_prefix _).subset inside), ?_⟩
    simpa using List.mem_takeWhile_imp inside
  · exact behind.subset (List.mem_of_mem_drop held)

theorem scanWord_space (width : Nat) (text : Bytes) : scanWord width (32 :: text) = scanWord width text := by
  rw [scanWord, List.dropWhile_cons_of_pos (by decide)]
  rfl

end Words

/-- Memory up to the pointer that `strtok_r` saves, and from there on. -/
structure Saved where
  before : Bytes
  rest : Bytes
  deriving DecidableEq, Repr

def Saved.memory (saved : Saved) : Bytes := saved.before ++ saved.rest

/-- A call of `strtok_r`: the token behind the delimiters, whose own delimiter is replaced by a zero. -/
def strtokR (delim : UInt8 → Bool) (saved : Saved) : Option CString × Saved :=
  let skipped := (cString saved.rest).takeWhile delim
  let rest := saved.rest.drop skipped.length
  let token := (cString rest).takeWhile fun char => !delim char
  if token = [] then (none, ⟨saved.before ++ skipped, rest⟩)
  else
    match rest.drop token.length with
    | [] => (some token, ⟨saved.before ++ skipped ++ token, []⟩)
    | stop :: tail =>
      if stop = 0 then (some token, ⟨saved.before ++ skipped ++ token, stop :: tail⟩)
      else (some token, ⟨saved.before ++ skipped ++ token ++ [0], tail⟩)

/-- Memory in which some bytes have been replaced by zeros: the string in it can only have become shorter. -/
def Shortened (old new : Bytes) : Prop := cString new <+: cString old ∧ new.length = old.length

section Tokens

variable {delim : UInt8 → Bool} {saved : Saved} {token skipped tail : Bytes} {stop : UInt8}

theorem cString_append {begun : Bytes} (plain : 0 ∉ begun) (more : Bytes) :
    cString (begun ++ more) = begun ++ cString more := by
  apply List.takeWhile_append_of_pos
  intro char held
  exact decide_eq_true fun zero => plain (zero ▸ held)

theorem cString_append_prefix (begun more : Bytes) : cString begun <+: cString (begun ++ more) := by
  rw [cString, cString, List.takeWhile_append]
  split
  · rename_i whole
    rw [List.Sublist.eq_of_length (List.takeWhile_sublist _) whole]
    exact List.prefix_append _ _
  · exact List.prefix_refl _

theorem cString_append_zero (begun tail : Bytes) : cString (begun ++ 0 :: tail) = cString begun := by
  rw [cString, List.takeWhile_append, List.takeWhile_cons_of_neg (by simp), List.append_nil]
  split
  · rename_i whole
    exact (List.Sublist.eq_of_length (List.takeWhile_sublist _) whole).symm
  · rfl

/-- Memory that holds a string, in which its terminator is the first zero. -/
theorem eq_cString_append {memory : Bytes} (terminated : 0 ∈ memory) : ∃ tail, memory = cString memory ++ 0 :: tail := by
  induction memory with
  | nil => cases terminated
  | cons c rest ih =>
    by_cases zero : c = 0
    · subst zero
      exact ⟨rest, rfl⟩
    · have later : 0 ∈ rest := (List.mem_cons.mp terminated).resolve_left (Ne.symm zero)
      obtain ⟨tail, same⟩ := ih later
      have kept : cString (c :: rest) = c :: cString rest := by simp [cString, zero]
      refine ⟨tail, ?_⟩
      rw [kept, List.cons_append, ← same]

theorem Shortened.refl (memory : Bytes) : Shortened memory memory := ⟨List.prefix_refl _, rfl⟩

theorem Shortened.trans {old between new : Bytes} (first : Shortened old between) (second : Shortened between new) :
    Shortened old new := ⟨second.1.trans first.1, second.2.trans first.2⟩

theorem shortened_zero (begun tail : Bytes) (stop : UInt8) :
    Shortened (begun ++ stop :: tail) (begun ++ 0 :: tail) where
  left := by
    rw [cString_append_zero]
    exact cString_append_prefix _ _
  right := by simp

/-- What a scan of the string passes over, and what follows it. -/
theorem span_append_drop (accepts : UInt8 → Bool) (memory : Bytes) :
    (cString memory).takeWhile accepts ++ memory.drop ((cString memory).takeWhile accepts).length = memory :=
  List.prefix_iff_eq_append.mp ((List.takeWhile_prefix _).trans (List.takeWhile_prefix _))

/-- A call of `strtok_r` writes a zero at most. -/
theorem shortened_strtokR (delim : UInt8 → Bool) (saved : Saved) :
    Shortened saved.memory (strtokR delim saved).2.memory := by
  obtain ⟨before, rest⟩ := saved
  have skips := span_append_drop delim rest
  generalize skipped : (cString rest).takeWhile delim = blanks at skips
  generalize behind : rest.drop blanks.length = onward at skips
  have token := span_append_drop (fun char => !delim char) onward
  generalize found : (cString onward).takeWhile (fun char => !delim char) = word at token
  subst skips
  rw [strtokR]
  simp only [skipped, behind, found]
  split
  · simp only [Saved.memory, List.append_assoc]
    exact .refl _
  · split
    · rename_i ended
      rw [ended, List.append_nil] at token
      simp only [Saved.memory, token, List.append_assoc, List.append_nil]
      exact .refl _
    · rename_i stop tail ended
      rw [ended] at token
      split
      · simp only [Saved.memory, token, List.append_assoc]
        exact .refl _
      · simp only [Saved.memory, ← token, List.append_assoc, List.singleton_append]
        have written := shortened_zero (before ++ (blanks ++ word)) tail stop
        simpa only [List.append_assoc] using written

/-- A token is at least one byte of the memory behind the pointer. -/
theorem length_strtokR_lt {delim : UInt8 → Bool} {saved : Saved} {token : CString}
    (found : (strtokR delim saved).1 = some token) : (strtokR delim saved).2.rest.length < saved.rest.length := by
  obtain ⟨before, rest⟩ := saved
  have skips := congrArg List.length (span_append_drop delim rest)
  generalize skipped : (cString rest).takeWhile delim = blanks at skips
  generalize behind : rest.drop blanks.length = onward at skips
  have tokens := congrArg List.length (span_append_drop (fun char => !delim char) onward)
  generalize word : (cString onward).takeWhile (fun char => !delim char) = text at tokens
  revert found
  rw [strtokR]
  simp only [skipped, behind, word]
  rw [List.length_append] at skips tokens
  split
  · exact fun none => nomatch none
  · rename_i filled
    have some := List.length_pos_iff.mpr filled
    split
    · rename_i ended
      intro _
      rw [List.length_nil]
      omega
    · rename_i stop tail ended
      rw [ended, List.length_cons] at tokens
      intro _
      split
      · rw [List.length_cons]
        omega
      · dsimp only
        omega

variable {before skipped token tail : Bytes}

/-- A scan of the string passes over what is accepted, up to what is not or the end of the string. -/
theorem span_eq {accepts : UInt8 → Bool} {word rest : Bytes} (inside : ∀ char ∈ word, accepts char = true ∧ char ≠ 0)
    (stops : ∀ char ∈ rest.head?, accepts char = false ∨ char = 0) :
    (cString (word ++ rest)).takeWhile accepts = word := by
  have ended : (cString rest).takeWhile accepts = [] := by
    cases rest with
    | nil => rfl
    | cons char rest =>
      by_cases zero : char = 0
      · simp [cString, zero]
      · have refused := (stops char rfl).resolve_right zero
        simp [cString, zero, refused]
  rw [cString_append fun zero => (inside 0 zero).2 rfl,
    List.takeWhile_append_of_pos fun char held => (inside char held).1, ended, List.append_nil]

/-- The next token. -/
theorem strtokR_token {delim : UInt8 → Bool} {stop : UInt8} (blank : ∀ char ∈ skipped, delim char = true ∧ char ≠ 0)
    (filled : token ≠ []) (plain : ∀ char ∈ token, delim char = false ∧ char ≠ 0)
    (stops : delim stop = true ∨ stop = 0) :
    strtokR delim ⟨before, skipped ++ (token ++ stop :: tail)⟩ =
      (some token, if stop = 0 then ⟨before ++ skipped ++ token, 0 :: tail⟩
        else ⟨before ++ skipped ++ token ++ [0], tail⟩) := by
  have skips : (cString (skipped ++ (token ++ stop :: tail))).takeWhile delim = skipped := by
    refine span_eq blank ?_
    obtain ⟨first, others, rfl⟩ := List.exists_cons_of_ne_nil filled
    intro char here
    obtain rfl := Option.some.inj here
    exact .inl (plain _ (List.mem_cons_self ..)).1
  have word : (cString (token ++ stop :: tail)).takeWhile (fun char => !delim char) = token := by
    refine span_eq (fun char held => ⟨by simp [(plain char held).1], (plain char held).2⟩) ?_
    intro char here
    obtain rfl := Option.some.inj here
    exact stops.imp_left fun ends => by simp [ends]
  rw [strtokR]
  simp only [skips, List.drop_left, word, if_neg filled]
  by_cases zero : stop = 0
  · simp only [zero, if_true]
  · simp only [if_neg zero]

/-- Nothing but delimiters before the end of the string. -/
theorem strtokR_end (delim : UInt8 → Bool) (before tail : Bytes) :
    strtokR delim ⟨before, 0 :: tail⟩ = (none, ⟨before, 0 :: tail⟩) := by
  simp [strtokR, cString]

/-- A token has no delimiter in it. -/
theorem strtokR_plain {delim : UInt8 → Bool} {saved : Saved} (found : (strtokR delim saved).1 = some token) :
    token ≠ [] ∧ ∀ char ∈ token, delim char = false ∧ char ≠ 0 := by
  revert found
  rw [strtokR]
  generalize saved.rest.drop ((cString saved.rest).takeWhile delim).length = onward
  split
  · exact fun none => nomatch none
  · rename_i filled
    have word : (cString onward).takeWhile (fun char => !delim char) = token → token ≠ [] ∧
        ∀ char ∈ token, delim char = false ∧ char ≠ 0 := by
      rintro rfl
      refine ⟨filled, fun char held => ⟨?_, ?_⟩⟩
      · simpa using List.mem_takeWhile_imp held
      · rintro rfl
        exact zero_notMem_cString onward ((List.takeWhile_prefix _).subset held)
    split
    · exact fun found => word (Option.some.inj found)
    · split
      · exact fun found => word (Option.some.inj found)
      · exact fun found => word (Option.some.inj found)

section Terminators

variable {place : Nat}

/-- The string behind the saved pointer ends at a place of the memory, with the tail behind it. -/
def Terminated (place : Nat) (tail : Bytes) (saved : Saved) : Prop :=
  ∃ text, saved.rest = text ++ 0 :: tail ∧ 0 ∉ text ∧ saved.before.length + text.length = place

theorem Terminated.drop (ends : Terminated place tail saved) : saved.memory.drop (place + 1) = tail := by
  obtain ⟨text, held, -, size⟩ := ends
  have whole : saved.memory = (saved.before ++ text ++ [0]) ++ tail := by
    rw [Saved.memory, held]
    simp
  rw [whole]
  apply List.drop_left'
  rw [List.length_append, List.length_append, List.length_singleton, size]

/-- A call of `strtok_r` writes before the end of the string only. -/
theorem terminated_strtokR (delim : UInt8 → Bool) (ends : Terminated place tail saved) :
    Terminated place tail (strtokR delim saved).2 := by
  obtain ⟨before, rest⟩ := saved
  obtain ⟨text, held, plain, size⟩ := ends
  dsimp only at held size
  subst held
  have string (text : Bytes) (plain : 0 ∉ text) : cString (text ++ 0 :: tail) = text := by
    rw [cString_append_zero, cString_eq plain]
  obtain ⟨onward, split⟩ := List.takeWhile_prefix delim (l := text)
  rw [strtokR]
  simp only [string text plain]
  generalize text.takeWhile delim = skipped at split ⊢
  subst split
  obtain ⟨-, plainOn⟩ := not_or.mp (fun either => plain (List.mem_append.mpr either))
  rw [List.append_assoc, List.drop_left]
  simp only [string onward plainOn]
  obtain ⟨more, split⟩ := List.takeWhile_prefix (fun char => !delim char) (l := onward)
  generalize onward.takeWhile (fun char => !delim char) = token at split ⊢
  subst split
  rw [List.length_append, List.length_append] at size
  by_cases empty : token = []
  · subst empty
    exact ⟨more, rfl, plainOn, by simpa [Nat.add_assoc] using size⟩
  · rw [if_neg empty, List.append_assoc, List.drop_left]
    cases more with
    | nil => exact ⟨[], rfl, List.not_mem_nil, by simpa [Nat.add_assoc] using size⟩
    | cons stop more =>
      obtain ⟨-, behind⟩ := not_or.mp (fun either => plainOn (List.mem_append.mpr either))
      obtain ⟨nonzero, plainMore⟩ := not_or.mp (fun either => behind (List.mem_cons.mpr either))
      dsimp only [List.cons_append]
      rw [if_neg (Ne.symm nonzero)]
      refine ⟨more, rfl, plainMore, ?_⟩
      rw [List.length_cons] at size
      simp only [List.length_append, List.length_singleton]
      omega

end Terminators

end Tokens

end MiniNetDist.Library.Tokens
