import MiniNetDist.Library.CharArray
import MiniNetDist.Library.Chunked
import MiniNetDist.Library.InPlace
import MiniNetDist.Library.Tokens

/-! The normalization of `mini-gateway-proxy/src/http_message.c`: two passes over the memory of a URI, the first of which
decodes each escape once, so that what was decoded can be part of another escape. -/

namespace MiniNetDist.GatewayProxy.HttpMessage

open Library Library.InPlace

abbrev isxdigit : UInt8 → Bool := Chunked.isHex

def digitValue (c : UInt8) : UInt8 := if c ≥ 97 then c - 97 + 10 else if c ≥ 65 then c - 65 + 10 else c - 48

/-- A round of the loop that decodes, with the memory from `src` on. -/
def decodeRound : Reader UInt8
  | [] => none
  | c :: rest =>
    let high := rest.getD 0 0
    let low := rest.getD 1 0
    if c = 0 then none
    else if c = 37 ∧ isxdigit high ∧ isxdigit low then some (some (digitValue high * 16 + digitValue low), 3)
    else some (some c, 1)

/-- A round of the loop that leaves slashes out. -/
def slashRound : Reader UInt8
  | [] => none
  | c :: rest =>
    if c = 0 then none
    else if c = 47 ∧ rest.getD 0 0 = 47 then some (none, 1)
    else some (some c, 1)

/-- The memory of the URI afterwards. The code returns 0. -/
def hmNormalizeUri (memory : Bytes) : Bytes :=
  let memory := pass decodeRound 0 memory.length memory 0 0
  pass slashRound 0 memory.length memory 0 0

section Escapes

/-- A text begins with the digits of an escape. -/
def TwoDigits : CString → Prop
  | h :: l :: _ => isxdigit h = true ∧ isxdigit l = true
  | _ => False

/-- Replace the escapes of a text, from left to right. -/
def decodeEscapes : CString → CString
  | [] => []
  | c :: h :: l :: rest =>
    if c = 37 ∧ isxdigit h ∧ isxdigit l then (digitValue h * 16 + digitValue l) :: decodeEscapes rest
    else c :: decodeEscapes (h :: l :: rest)
  | c :: rest => c :: decodeEscapes rest

variable {uri before rest : CString} {c h l : UInt8}

theorem decodeEscapes_escape (high : isxdigit h = true) (low : isxdigit l = true) (rest : CString) :
    decodeEscapes (37 :: h :: l :: rest) = (digitValue h * 16 + digitValue l) :: decodeEscapes rest := by
  rw [decodeEscapes, if_pos ⟨rfl, high, low⟩]

theorem decodeEscapes_plain (plain : c = 37 → ¬TwoDigits rest) : decodeEscapes (c :: rest) = c :: decodeEscapes rest := by
  rcases rest with _ | ⟨h, _ | ⟨l, rest⟩⟩
  · rfl
  · rfl
  · rw [decodeEscapes, if_neg fun escape => plain escape.1 escape.2]

/-- A text is taken apart as the loop does it. -/
theorem escapes_induction {motive : CString → Prop} (nil : motive [])
    (escape : ∀ h l rest, isxdigit h = true → isxdigit l = true → motive rest → motive (37 :: h :: l :: rest))
    (plain : ∀ c rest, (c = 37 → ¬TwoDigits rest) → motive rest → motive (c :: rest)) (uri : CString) : motive uri := by
  induction uri using decodeEscapes.induct with
  | case1 => exact nil
  | case2 c h l rest digits ih =>
    obtain ⟨rfl, high, low⟩ := digits
    exact escape h l rest high low ih
  | case3 c h l rest other ih => exact plain c _ (fun percent digits => other ⟨percent, digits⟩) ih
  | case4 c rest short ih =>
    refine plain c rest ?_ ih
    intro _ digits
    rcases rest with _ | ⟨h, _ | ⟨l, rest⟩⟩
    · exact digits
    · exact digits
    · exact short h l rest rfl

end Escapes

section Memory

variable {uri tail memory : Bytes}

theorem writes_decodeRound (plain : 0 ∉ uri) (tail : Bytes) :
    Writes decodeRound (uri ++ 0 :: tail) (decodeEscapes uri) := by
  induction uri using escapes_induction with
  | nil => exact .stop (List.cons_ne_nil _ _) rfl
  | escape h l rest high low ih =>
    have percent : (37 : UInt8) ≠ 0 := by decide
    have reads : decodeRound (37 :: h :: l :: rest ++ 0 :: tail) =
        some (some (digitValue h * 16 + digitValue l), 3) := by
      simp [decodeRound, percent, high, low]
    rw [decodeEscapes_escape high low]
    refine .put reads (by decide) (ih ?_)
    intro zero
    exact plain (List.mem_cons_of_mem _ (List.mem_cons_of_mem _ (List.mem_cons_of_mem _ zero)))
  | plain c rest other ih =>
    have filled : c ≠ 0 := fun zero => plain (zero ▸ List.mem_cons_self)
    have terminator : isxdigit 0 = false := by decide
    have undecoded : ¬(c = 37 ∧ isxdigit ((rest ++ 0 :: tail).getD 0 0) = true ∧
        isxdigit ((rest ++ 0 :: tail).getD 1 0) = true) := by
      intro ⟨percent, high, low⟩
      rcases rest with _ | ⟨h, _ | ⟨l, rest⟩⟩
      · exact absurd (terminator.symm.trans high) (by decide)
      · exact absurd (terminator.symm.trans low) (by decide)
      · exact other percent ⟨high, low⟩
    have reads : decodeRound (c :: rest ++ 0 :: tail) = some (some c, 1) := by
      simp only [List.cons_append, decodeRound]
      rw [if_neg filled, if_neg undecoded]
    rw [decodeEscapes_plain other]
    exact .put reads (by decide) (ih fun zero => plain (List.mem_cons_of_mem _ zero))

theorem writes_slashRound (plain : 0 ∉ uri) (tail : Bytes) : Writes slashRound (uri ++ 0 :: tail) (squeeze 47 uri) := by
  have slash : (47 : UInt8) ≠ 0 := by decide
  induction uri using squeeze.induct (47 : UInt8) with
  | case1 => exact .stop (List.cons_ne_nil _ _) rfl
  | case2 last =>
    have filled : last ≠ 0 := fun zero => plain (zero ▸ List.mem_cons_self)
    have reads : slashRound ([last] ++ 0 :: tail) = some (some last, 1) := by simp [slashRound, filled]
    exact .put reads (by decide) (.stop (List.cons_ne_nil _ _) rfl)
  | case3 first second rest double ih =>
    have reads : slashRound (first :: second :: rest ++ 0 :: tail) = some (none, 1) := by
      simp [slashRound, double.1, double.2, slash]
    rw [squeeze, if_pos double]
    exact .skip reads (by decide) (ih fun zero => plain (List.mem_cons_of_mem _ zero))
  | case4 first second rest single ih =>
    have filled : first ≠ 0 := fun zero => plain (zero ▸ List.mem_cons_self)
    have reads : slashRound (first :: second :: rest ++ 0 :: tail) = some (some first, 1) := by
      simp [slashRound, filled, single]
    rw [squeeze, if_neg single]
    exact .put reads (by decide) (ih fun zero => plain (List.mem_cons_of_mem _ zero))

/-- What a pass leaves of a string. -/
theorem pass_string {reader : Reader UInt8} {out : Bytes} (writes : Writes reader memory out) :
    ∃ stale, pass reader 0 memory.length memory 0 0 = out ++ 0 :: stale :=
  writes.pass_eq List.drop_zero (Nat.le_refl 0) (Nat.le_refl _)

/-- The URI that is left: escapes are decoded up to the first zero, and then slashes are left out. -/
theorem hmNormalizeUri_eq (terminated : 0 ∈ memory) : ∃ stale, hmNormalizeUri memory =
    squeeze 47 (cString (decodeEscapes (cString memory))) ++ 0 :: stale := by
  obtain ⟨tail, same⟩ := Tokens.eq_cString_append terminated
  have first := writes_decodeRound (zero_notMem_cString memory) tail
  rw [← same] at first
  obtain ⟨stale, decoded⟩ := pass_string first
  have string : 0 ∈ decodeEscapes (cString memory) ++ 0 :: stale := List.mem_append_right _ List.mem_cons_self
  obtain ⟨tail', same'⟩ := Tokens.eq_cString_append string
  rw [Tokens.cString_append_zero] at same'
  have second := writes_slashRound (zero_notMem_cString (decodeEscapes (cString memory))) tail'
  rw [← same', ← decoded] at second
  exact pass_string second

end Memory

/-- A percent sign is followed by two hexadecimal digits. -/
def HasEscape (text : CString) : Prop :=
  ∃ h l, isxdigit h = true ∧ isxdigit l = true ∧ [37, h, l] <:+: text

/-- A character as a URI may spell it: itself, or an escape for it. -/
inductive Spelling : UInt8 → CString → Prop where
  | plain (c : UInt8) : Spelling c [c]
  | escape {h l : UInt8} (high : isxdigit h = true) (low : isxdigit l = true) :
      Spelling (digitValue h * 16 + digitValue l) [37, h, l]

/-- The spellings of a percent sign and of two hexadecimal digits follow one another, not all three of them plain, and
before them there is no `%00`. -/
def HidesEscape (uri : CString) : Prop :=
  ∃ before percent high low after h l, uri = before ++ (percent ++ (high ++ (low ++ after))) ∧
    Spelling 37 percent ∧ Spelling h high ∧ Spelling l low ∧ isxdigit h = true ∧ isxdigit l = true ∧
    3 < (percent ++ high ++ low).length ∧ ¬[37, 48, 48] <:+: before

section Hidden

variable {uri before rest text : CString} {c h l : UInt8}

theorem ne_of_isxdigit (digit : isxdigit c = true) : c ≠ 0 ∧ c ≠ 37 ∧ c ≠ 47 := by
  refine ⟨?_, ?_, ?_⟩ <;>
  · intro same
    subst same
    exact absurd digit (by decide)

theorem toNat_digitValue (digit : isxdigit c = true) :
    (digitValue c).toNat < 16 ∧ ((digitValue c).toNat = 0 ↔ c = 48) := by
  simp only [isxdigit, Chunked.isHex, Chunked.hexDigit, UInt8.le_iff_toNat_le, UInt8.reduceToNat] at digit
  simp only [digitValue, ge_iff_le, UInt8.le_iff_toNat_le, ← UInt8.toNat_inj, UInt8.reduceToNat]
  split_ifs at digit ⊢ <;> simp [UInt8.toNat_sub] at digit ⊢ <;> omega

theorem digitValue_eq_zero_iff (high : isxdigit h = true) (low : isxdigit l = true) :
    digitValue h * 16 + digitValue l = 0 ↔ h = 48 ∧ l = 48 := by
  obtain ⟨smallHigh, zeroHigh⟩ := toNat_digitValue high
  obtain ⟨smallLow, zeroLow⟩ := toNat_digitValue low
  have sixteen : (16 : UInt8).toNat = 16 := rfl
  have zero : (0 : UInt8).toNat = 0 := rfl
  rw [← zeroHigh, ← zeroLow, ← UInt8.toNat_inj, UInt8.toNat_add, UInt8.toNat_mul, sixteen, zero]
  omega

theorem TwoDigits.append (digits : TwoDigits before) (rest : CString) : TwoDigits (before ++ rest) := by
  rcases before with _ | ⟨h, _ | ⟨l, before⟩⟩
  · cases digits
  · cases digits
  · exact digits

/-- A percent sign that follows is no digit. -/
theorem TwoDigits.of_append (digits : TwoDigits (before ++ 37 :: rest)) : TwoDigits before := by
  rcases before with _ | ⟨h, _ | ⟨l, before⟩⟩
  · cases rest with
    | nil => cases digits
    | cons l rest => exact absurd rfl (ne_of_isxdigit digits.1).2.1
  · exact absurd rfl (ne_of_isxdigit digits.2).2.1
  · exact digits

/-- The escapes before a percent sign are decoded by themselves. -/
theorem decodeEscapes_append (before rest : CString) :
    decodeEscapes (before ++ 37 :: rest) = decodeEscapes before ++ decodeEscapes (37 :: rest) := by
  induction before using escapes_induction with
  | nil => rfl
  | escape h l before high low ih =>
    rw [decodeEscapes_escape high low]
    exact (decodeEscapes_escape high low (before ++ 37 :: rest)).trans (congrArg _ ih)
  | plain c before other ih =>
    have still : c = 37 → ¬TwoDigits (before ++ 37 :: rest) := fun percent digits => other percent digits.of_append
    rw [decodeEscapes_plain other]
    exact (decodeEscapes_plain still).trans (congrArg (c :: ·) ih)

/-- What was decoded is divided as the URI is. -/
theorem exists_decodeEscapes_eq {first second : CString} (decoded : decodeEscapes uri = first ++ second) :
    ∃ before after, uri = before ++ after ∧ decodeEscapes before = first ∧ decodeEscapes after = second := by
  induction uri using escapes_induction generalizing first with
  | nil =>
    obtain ⟨rfl, rfl⟩ := List.append_eq_nil_iff.mp decoded.symm
    exact ⟨[], [], rfl, rfl, rfl⟩
  | escape h l rest high low ih =>
    cases first with
    | nil => exact ⟨[], _, rfl, rfl, decoded⟩
    | cons c first =>
      rw [decodeEscapes_escape high low] at decoded
      obtain ⟨same, later⟩ := List.cons.inj decoded
      obtain ⟨before, after, rfl, begun, ended⟩ := ih later
      exact ⟨37 :: h :: l :: before, after, rfl, by rw [decodeEscapes_escape high low, begun, same], ended⟩
  | plain c rest other ih =>
    cases first with
    | nil => exact ⟨[], _, rfl, rfl, decoded⟩
    | cons c' first =>
      rw [decodeEscapes_plain other] at decoded
      obtain ⟨same, later⟩ := List.cons.inj decoded
      obtain ⟨before, after, rfl, begun, ended⟩ := ih later
      refine ⟨c :: before, after, rfl, ?_, ended⟩
      rw [decodeEscapes_plain fun percent digits => other percent (digits.append after), begun, same]

/-- The first character that was decoded has its spelling in the URI. -/
theorem exists_spelling (decoded : decodeEscapes uri = c :: text) :
    ∃ spelled rest, uri = spelled ++ rest ∧ Spelling c spelled ∧ decodeEscapes rest = text ∧
      (spelled = [37] → ¬TwoDigits rest) := by
  induction uri using escapes_induction with
  | nil => cases decoded
  | escape h l rest high low _ =>
    rw [decodeEscapes_escape high low] at decoded
    obtain ⟨rfl, same⟩ := List.cons.inj decoded
    exact ⟨[37, h, l], rest, rfl, .escape high low, same, fun short => by cases short⟩
  | plain c' rest other _ =>
    rw [decodeEscapes_plain other] at decoded
    obtain ⟨rfl, same⟩ := List.cons.inj decoded
    exact ⟨[c'], rest, rfl, .plain c', same, fun percent => other (List.cons.inj percent).1⟩

/-- A zero is only decoded where there is `%00`. -/
theorem zero_mem_decodeEscapes_iff (plain : 0 ∉ uri) : 0 ∈ decodeEscapes uri ↔ [37, 48, 48] <:+: uri := by
  induction uri using escapes_induction with
  | nil => simp [decodeEscapes]
  | escape h l rest high low ih =>
    have later := ih fun zero => plain (by simp [zero])
    have percentHigh := (ne_of_isxdigit high).2.1.symm
    have percentLow := (ne_of_isxdigit low).2.1.symm
    rw [decodeEscapes_escape high low, List.mem_cons, eq_comm, digitValue_eq_zero_iff high low, later,
      List.infix_cons_iff, List.infix_cons_iff, List.infix_cons_iff]
    simp [List.cons_prefix_cons, percentHigh, percentLow, eq_comm]
  | plain c rest other ih =>
    have later := ih fun zero => plain (List.mem_cons_of_mem _ zero)
    have filled : 0 ≠ c := fun zero => plain (zero ▸ List.mem_cons_self)
    have begins : ¬[37, 48, 48] <+: c :: rest := by
      intro begins
      obtain ⟨percent, digits⟩ := List.cons_prefix_cons.mp begins
      obtain ⟨more, rfl⟩ := digits
      exact other percent.symm ⟨by decide, by decide⟩
    rw [decodeEscapes_plain other, List.mem_cons, or_iff_right filled, later, List.infix_cons_iff, or_iff_right begins]

theorem Spelling.eq_or_length {token : CString} (spelling : Spelling c token) :
    token = [c] ∨ token.length = 3 ∧ ∃ tail, token = 37 :: tail := by
  cases spelling with
  | plain => exact .inl rfl
  | @escape h l _ _ => exact .inr ⟨rfl, [h, l], rfl⟩

theorem Spelling.length_pos {token : CString} (spelling : Spelling c token) : 0 < token.length := by
  cases spelling with
  | plain => exact Nat.succ_pos _
  | escape => exact Nat.succ_pos _

theorem Spelling.decodeEscapes_eq {token : CString} (spelling : Spelling c token) (rest : CString)
    (plain : token = [37] → ¬TwoDigits rest) : decodeEscapes (token ++ rest) = c :: decodeEscapes rest := by
  cases spelling with
  | plain => exact decodeEscapes_plain fun percent => plain (by rw [percent])
  | escape high low => exact decodeEscapes_escape high low rest

theorem Spelling.ne_percent {token : CString} (spelling : Spelling c token) (digit : isxdigit c = true) :
    token ≠ [37] := by
  intro same
  subst same
  rcases spelling.eq_or_length with plain | ⟨long, _⟩
  · exact (ne_of_isxdigit digit).2.1 (List.cons.inj plain).1.symm
  · cases long

/-- The spellings of an escape are an escape themselves exactly if they are all plain. -/
theorem twoDigits_spelling_iff {high low : CString} (second : Spelling h high) (third : Spelling l low)
    (digitHigh : isxdigit h = true) (digitLow : isxdigit l = true) (after : CString) :
    TwoDigits (high ++ (low ++ after)) ↔ (high ++ low).length = 2 := by
  have percent : isxdigit 37 ≠ true := by decide
  rcases second.eq_or_length with rfl | ⟨longHigh, tail, rfl⟩
  · rcases third.eq_or_length with rfl | ⟨longLow, tail, rfl⟩
    · exact iff_of_true ⟨digitHigh, digitLow⟩ rfl
    · refine iff_of_false (fun digits => percent digits.2) ?_
      rw [List.length_append, longLow]
      simp
  · cases tail with
    | nil => cases longHigh
    | cons _ tail =>
      refine iff_of_false (fun digits => percent digits.1) ?_
      rw [List.length_append, longHigh]
      omega

/-- The spellings of an escape become that escape. -/
theorem decodeEscapes_hidden {percent high low after : CString} (first : Spelling 37 percent)
    (second : Spelling h high) (third : Spelling l low) (digitHigh : isxdigit h = true) (digitLow : isxdigit l = true)
    (hidden : 3 < (percent ++ high ++ low).length) :
    decodeEscapes (percent ++ (high ++ (low ++ after))) = 37 :: h :: l :: decodeEscapes after := by
  rw [first.decodeEscapes_eq, second.decodeEscapes_eq _ fun percent => absurd percent (second.ne_percent digitHigh),
    third.decodeEscapes_eq _ fun percent => absurd percent (third.ne_percent digitLow)]
  intro plain digits
  have short := (twoDigits_spelling_iff second third digitHigh digitLow after).mp digits
  rw [plain, List.append_assoc, List.length_append, short] at hidden
  exact absurd hidden (by decide)

/-- An escape that was decoded, before the first zero, has its spellings in the URI. -/
theorem hidesEscape_of_decoded (plain : 0 ∉ uri) (found : HasEscape (cString (decodeEscapes uri))) :
    HidesEscape uri := by
  obtain ⟨h, l, digitHigh, digitLow, begun, ended, found⟩ := found
  have whole : decodeEscapes uri = begun ++ 37 :: h :: l :: (ended ++ (decodeEscapes uri).dropWhile (· ≠ 0)) := by
    have parts : cString (decodeEscapes uri) ++ (decodeEscapes uri).dropWhile (· ≠ 0) = decodeEscapes uri :=
      List.takeWhile_append_dropWhile
    rw [← found] at parts
    refine parts.symm.trans ?_
    simp
  obtain ⟨before, after, rfl, decoded, escaped⟩ := exists_decodeEscapes_eq whole
  obtain ⟨percent, rest, rfl, first, escaped, loose⟩ := exists_spelling escaped
  obtain ⟨high, rest, rfl, second, escaped, _⟩ := exists_spelling escaped
  obtain ⟨low, after, rfl, third, _, _⟩ := exists_spelling escaped
  refine ⟨before, percent, high, low, after, h, l, rfl, first, second, third, digitHigh, digitLow, ?_, ?_⟩
  · -- three plain ones would have been decoded
    have positiveHigh := second.length_pos
    have positiveLow := third.length_pos
    rw [List.append_assoc, List.length_append]
    rcases first.eq_or_length with rfl | ⟨long, _⟩
    · have apart := loose rfl
      rw [twoDigits_spelling_iff second third digitHigh digitLow] at apart
      rw [List.length_append] at apart ⊢
      rw [List.length_singleton]
      omega
    · rw [long, List.length_append]
      omega
  · rw [← zero_mem_decodeEscapes_iff fun zero => plain (List.mem_append_left _ zero), decoded]
    intro zero
    have inside := List.mem_append_left ended (List.mem_append_left [37, h, l] zero)
    rw [found] at inside
    exact zero_notMem_cString _ inside

/-- The spellings become an escape, and the string is not cut before it. -/
theorem HidesEscape.hasEscape (plain : 0 ∉ uri) (hides : HidesEscape uri) :
    HasEscape (cString (decodeEscapes uri)) := by
  obtain ⟨before, percent, high, low, after, h, l, same, first, second, third, digitHigh, digitLow, hidden, uncut⟩ := hides
  obtain ⟨tail, rfl⟩ : ∃ tail, percent = 37 :: tail := by
    rcases first.eq_or_length with plain | ⟨_, escaped⟩
    · exact ⟨[], plain⟩
    · exact escaped
  have escaped : decodeEscapes (37 :: tail ++ (high ++ (low ++ after))) = 37 :: h :: l :: decodeEscapes after :=
    decodeEscapes_hidden first second third digitHigh digitLow hidden
  have begun : 0 ∉ decodeEscapes before := by
    rw [zero_mem_decodeEscapes_iff fun zero => plain (same ▸ List.mem_append_left _ zero)]
    exact uncut
  have clean : 0 ∉ decodeEscapes before ++ [37, h, l] := by
    have percent : (0 : UInt8) ≠ 37 := by decide
    simp [begun, percent, (ne_of_isxdigit digitHigh).1.symm, (ne_of_isxdigit digitLow).1.symm]
  have whole : decodeEscapes uri = decodeEscapes before ++ [37, h, l] ++ decodeEscapes after := by
    rw [same, List.cons_append, decodeEscapes_append, ← List.cons_append, escaped]
    simp
  rw [whole, Tokens.cString_append clean]
  exact ⟨h, l, digitHigh, digitLow, decodeEscapes before, _, rfl⟩

theorem hasEscape_iff (plain : 0 ∉ uri) : HasEscape (cString (decodeEscapes uri)) ↔ HidesEscape uri :=
  ⟨hidesEscape_of_decoded plain, HidesEscape.hasEscape plain⟩

/-- A string without an escape is decoded to itself. -/
theorem decodeEscapes_eq_self (plain : ¬HasEscape uri) : decodeEscapes uri = uri := by
  induction uri using escapes_induction with
  | nil => rfl
  | escape h l rest high low _ => exact absurd ⟨h, l, high, low, [], rest, rfl⟩ plain
  | plain c rest other ih =>
    rw [decodeEscapes_plain other, ih]
    intro ⟨h, l, high, low, later⟩
    exact plain ⟨h, l, high, low, List.infix_cons later⟩

end Hidden

section Output

variable {memory : Bytes}

theorem cString_hmNormalizeUri (terminated : 0 ∈ memory) :
    cString (hmNormalizeUri memory) = squeeze 47 (cString (decodeEscapes (cString memory))) ∧
      0 ∈ hmNormalizeUri memory := by
  obtain ⟨stale, same⟩ := hmNormalizeUri_eq terminated
  have clean : 0 ∉ squeeze 47 (cString (decodeEscapes (cString memory))) := by
    intro zero
    exact zero_notMem_cString _ ((squeeze_sublist _ _).mem zero)
  rw [same, Tokens.cString_append_zero, cString_eq clean]
  exact ⟨rfl, List.mem_append_right _ List.mem_cons_self⟩

/-- Leaving out slashes neither makes nor removes an escape. -/
theorem hasEscape_squeeze_iff (text : CString) : HasEscape (squeeze 47 text) ↔ HasEscape text := by
  have word {h l : UInt8} (high : isxdigit h = true) (low : isxdigit l = true) : 47 ∉ [37, h, l] := by
    have percent : (47 : UInt8) ≠ 37 := by decide
    simp [percent, (ne_of_isxdigit high).2.2.symm, (ne_of_isxdigit low).2.2.symm]
  constructor
  · intro ⟨h, l, high, low, found⟩
    exact ⟨h, l, high, low, (infix_squeeze_iff (word high low)).mp found⟩
  · intro ⟨h, l, high, low, found⟩
    exact ⟨h, l, high, low, (infix_squeeze_iff (word high low)).mpr found⟩

end Output

/-- Normalizing once more changes nothing, and the URI has no double slash and no escape. -/
structure Normal (memory : Bytes) : Prop where
  fixed : cString (hmNormalizeUri (hmNormalizeUri memory)) = cString (hmNormalizeUri memory)
  slashes : ¬[47, 47] <:+: cString (hmNormalizeUri memory)
  escapes : ¬HasEscape (cString (hmNormalizeUri memory))

/-- A URI becomes normal exactly if it hides no escape. -/
theorem hmNormalizeUri_normal_iff (memory : Bytes) (terminated : 0 ∈ memory) :
    Normal memory ↔ ¬HidesEscape (cString memory) := by
  obtain ⟨once, again⟩ := cString_hmNormalizeUri terminated
  have escape : HasEscape (cString (hmNormalizeUri memory)) ↔ HidesEscape (cString memory) := by
    rw [once, hasEscape_squeeze_iff, hasEscape_iff (zero_notMem_cString memory)]
  constructor
  · intro normal hidden
    exact normal.escapes (escape.mpr hidden)
  · intro free
    have plain : ¬HasEscape (cString (hmNormalizeUri memory)) := fun found => free (escape.mp found)
    have single : ¬[47, 47] <:+: cString (hmNormalizeUri memory) := by
      rw [once]
      exact not_double_squeeze 47 _
    refine ⟨?_, single, plain⟩
    rw [(cString_hmNormalizeUri again).1, decodeEscapes_eq_self plain, cString_eq (zero_notMem_cString _),
      squeeze_eq_self single]

/-- Escaped dots and a double slash, each decoded or left out once. -/
theorem hmNormalizeUri_dots :
    Normal (ascii "/api//%2e%2e/test" ++ [0]) ∧
      cString (hmNormalizeUri (ascii "/api//%2e%2e/test" ++ [0])) = ascii "/api/../test" := by
  refine ⟨(hmNormalizeUri_normal_iff _ (by decide +kernel)).mpr ?_, by decide +kernel⟩
  rw [← hasEscape_iff (zero_notMem_cString _)]
  have decoded : cString (decodeEscapes (cString (ascii "/api//%2e%2e/test" ++ [0]))) = ascii "/api//../test" := by
    decide +kernel
  rw [decoded]
  intro ⟨h, l, _, _, found⟩
  exact absurd (found.subset List.mem_cons_self) (by decide +kernel)

/-- Dots whose escapes are escaped: the path is still an escaped one, and the next call lets it lead upwards. -/
theorem hmNormalizeUri_escapedEscapes :
    0 ∈ ascii "/%252e%252e/x" ++ [0] ∧
      cString (hmNormalizeUri (ascii "/%252e%252e/x" ++ [0])) = ascii "/%2e%2e/x" ∧
      cString (hmNormalizeUri (hmNormalizeUri (ascii "/%252e%252e/x" ++ [0]))) = ascii "/../x" ∧
      ¬Normal (ascii "/%252e%252e/x" ++ [0]) := by
  have once : cString (hmNormalizeUri (ascii "/%252e%252e/x" ++ [0])) = ascii "/%2e%2e/x" := by decide +kernel
  have twice : cString (hmNormalizeUri (hmNormalizeUri (ascii "/%252e%252e/x" ++ [0]))) = ascii "/../x" := by
    decide +kernel
  refine ⟨by decide +kernel, once, twice, ?_⟩
  intro normal
  have fixed := normal.fixed
  rw [once, twice] at fixed
  exact absurd fixed (by decide +kernel)

end MiniNetDist.GatewayProxy.HttpMessage
