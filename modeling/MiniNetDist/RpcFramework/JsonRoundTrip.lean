import MiniNetDist.RpcFramework.JsonReading

/-! Which messages survive the JSON encoding of `mini-rpc-framework/src/rpc_encoding.c`: exactly those without a quote
and without a backslash in their strings. A special character that is decoded was escaped in the text, and the
backslash before it is one of a string in the message, at least as far from its start. -/

namespace MiniNetDist.RpcFramework

open Library Decimal

variable {input : JsonInput}

section Literals

theorem lt_of_readChars {room pos next : Nat} {out : Bytes} (read : readChars input room pos = (some out, next)) :
    pos < input.text.length := by
  by_contra outside
  have missing : input.text[pos]? = none := List.getElem?_eq_none (Nat.le_of_not_lt outside)
  cases room with
  | zero => cases read
  | succ room =>
    rw [readChars, missing] at read
    cases read

theorem byteAt_of_lt {pos : Nat} (inside : pos < input.text.length) : input.text[pos]? = some (input.byteAt pos) := by
  rw [JsonInput.byteAt, List.getD_eq_getElem?_getD, List.getElem?_eq_getElem inside, Option.getD_some]

/-- What one step of the reader of strings does: it ends at a quote, or takes one character, which may be escaped. -/
theorem readChars_step {room pos next : Nat} {out : Bytes} (read : readChars input room pos = (some out, next)) :
    ∃ fewer char, room = fewer + 1 ∧ input.text[pos]? = some char ∧
      (char = quote ∧ out = [] ∨
        char = backslash ∧ (∃ escaped others, input.text[pos + 1]? = some escaped ∧ out = escaped :: others ∧
          readChars input fewer (pos + 2) = (some others, next)) ∨
        isPlain char = true ∧ ∃ others, out = char :: others ∧ readChars input fewer (pos + 1) = (some others, next)) := by
  have inside := lt_of_readChars read
  cases room with
  | zero => cases read
  | succ fewer =>
    refine ⟨fewer, input.byteAt pos, rfl, byteAt_of_lt inside, ?_⟩
    rw [readChars, byteAt_of_lt inside] at read
    by_cases closing : input.byteAt pos = quote
    · simp only [closing, if_true] at read
      exact .inl ⟨closing, (Option.some.inj (Prod.mk.inj read).1).symm⟩
    by_cases escape : input.byteAt pos = backslash
    · simp only [if_neg closing, if_pos escape] at read
      cases following : readChars input fewer (pos + 1 + 1) with
      | mk found after =>
        rw [following] at read
        obtain ⟨mapped, rfl⟩ := Prod.mk.inj read
        obtain ⟨others, rfl, rfl⟩ := Option.map_eq_some_iff.mp mapped
        have later := lt_of_readChars following
        exact .inr (.inl ⟨escape, _, others, byteAt_of_lt (by omega), rfl, rfl⟩)
    · simp only [if_neg closing, if_neg escape] at read
      cases following : readChars input fewer (pos + 1) with
      | mk found after =>
        rw [following] at read
        obtain ⟨mapped, rfl⟩ := Prod.mk.inj read
        obtain ⟨others, rfl, rfl⟩ := Option.map_eq_some_iff.mp mapped
        refine .inr (.inr ⟨?_, others, rfl, rfl⟩)
        simp [isPlain, closing, escape]

/-- A special character that was read stands after a backslash in the text, and from the start of the string up to
there every quote stands after a backslash. -/
theorem readChars_special {room pos next i : Nat} {out : Bytes} {char : UInt8}
    (read : readChars input room pos = (some out, next)) (found : out[i]? = some char) (special : isPlain char = false) :
    ∃ escape, pos + i ≤ escape ∧ input.text[escape]? = some backslash ∧ input.text[escape + 1]? = some char ∧
      ∀ place, pos ≤ place → place ≤ escape → input.text[place]? = some quote →
        ∃ earlier, place = earlier + 1 ∧ input.text[earlier]? = some backslash := by
  have distinct : backslash ≠ quote := by decide
  induction room generalizing pos i out with
  | zero => cases read
  | succ room ih =>
    obtain ⟨fewer, first, same, here, step⟩ := readChars_step read
    obtain rfl := Nat.succ.inj same
    rcases step with ⟨-, rfl⟩ | ⟨rfl, escaped, others, after, rfl, following⟩ | ⟨plain, others, rfl, following⟩
    · cases found
    · cases i with
      | zero =>
        obtain rfl := Option.some.inj found
        refine ⟨pos, Nat.le_refl _, here, after, ?_⟩
        intro place low high quoted
        obtain rfl := Nat.le_antisymm high low
        rw [here] at quoted
        exact absurd (Option.some.inj quoted) distinct
      | succ i =>
        obtain ⟨escape, far, slash, next, earlier⟩ := ih following found
        refine ⟨escape, by omega, slash, next, ?_⟩
        intro place low high quoted
        by_cases start : pos + 2 ≤ place
        · exact earlier place start high quoted
        · by_cases second : place = pos + 1
          · exact ⟨pos, second, here⟩
          · obtain rfl : place = pos := by omega
            rw [here] at quoted
            exact absurd (Option.some.inj quoted) distinct
    · cases i with
      | zero =>
        obtain rfl := Option.some.inj found
        rw [plain] at special
        cases special
      | succ i =>
        obtain ⟨escape, far, slash, next, earlier⟩ := ih following found
        refine ⟨escape, by omega, slash, next, ?_⟩
        intro place low high quoted
        by_cases start : pos + 1 ≤ place
        · exact earlier place start high quoted
        · obtain rfl : place = pos := by omega
          rw [here] at quoted
          obtain rfl := Option.some.inj quoted
          exact absurd plain (by decide)

/-- The string was read somewhere in the text. -/
def Literal (input : JsonInput) (text : Bytes) : Prop :=
  ∃ room pos out next, readChars input room pos = (some out, next) ∧ text <+: out

end Literals

section Sources

theorem literal_of_readJsonString {pos maxout next : Nat} {out text : Bytes}
    (read : readJsonString input pos maxout = (some out, next)) (start : text <+: out) : Literal input text := by
  rw [readJsonString] at read
  cases expected : expectChar input pos quote with
  | mk found after =>
    rw [expected] at read
    cases found with
    | false => cases read
    | true => exact ⟨_, _, out, next, read, start⟩

theorem cString_isPrefix (memory : Bytes) : cString memory <+: memory := List.takeWhile_prefix _

theorem readJsonArray_strings (pos : Nat) : (readJsonArray input pos).1.strings = [] := by
  rw [readJsonArray]
  split
  · rfl
  · rfl

theorem readJsonValue_literal {pos next : Nat} {value : RPCValue} {text : Bytes}
    (read : readJsonValue input pos = (some value, next)) (inside : text ∈ value.strings) : Literal input text := by
  rw [readJsonValue] at read
  cases here : input.text[skipWs input pos]? with
  | none =>
    simp only [here] at read
    cases read
  | some char =>
    simp only [here] at read
    have otherwise {pair : Option RPCValue × Nat} (same : pair = (some value, next)) (empty : ∀ found ∈ pair.1, found.strings = []) :
        Literal input text := by
      rw [same] at empty
      rw [empty value rfl] at inside
      cases inside
    split_ifs at read
    · cases literal : readJsonString input (skipWs input pos) 512 with
      | mk found after =>
        rw [literal] at read
        obtain ⟨mapped, -⟩ := Prod.mk.inj read
        obtain ⟨out, rfl, rfl⟩ := Option.map_eq_some_iff.mp mapped
        obtain rfl := List.mem_singleton.mp inside
        exact literal_of_readJsonString literal (cString_isPrefix out)
    · exact otherwise read (by simp [RPCValue.strings])
    · exact otherwise read (by simp [RPCValue.strings])
    · exact otherwise read (by simp)
    · exact otherwise read (by simp [RPCValue.strings])
    · exact otherwise read (by simp)
    · exact otherwise read (by simp [readJsonArray_strings])
    · exact otherwise read (by simp [RPCValue.strings])

/-- Every string in the message was read somewhere in the text. -/
structure Sourced (input : JsonInput) (msg : RPCMessage) : Prop where
  name : msg.methodName = [] ∨ Literal input msg.methodName
  params : ∀ param ∈ msg.params, ∀ text ∈ param.strings, Literal input text

theorem readParams_sourced {steps pos next : Nat} {before params : List RPCValue}
    (sourced : ∀ param ∈ before, ∀ text ∈ param.strings, Literal input text)
    (read : readParams input steps pos before = some (params, next)) :
    ∀ param ∈ params, ∀ text ∈ param.strings, Literal input text := by
  induction steps generalizing pos before with
  | zero => cases read
  | succ steps ih =>
    rw [readParams] at read
    split_ifs at read with inside
    · cases value : readJsonValue input pos with
      | mk found after =>
        simp only [value] at read
        have grown : ∀ param ∈ before ++ found.toList, ∀ text ∈ param.strings, Literal input text := by
          intro param member text held
          rcases List.mem_append.mp member with old | new
          · exact sourced param old text held
          · obtain rfl := Option.mem_toList.mp new
            exact readJsonValue_literal value held
        split_ifs at read
        · exact ih grown read
        · obtain ⟨rfl, -⟩ := Prod.mk.inj (Option.some.inj read)
          exact grown
        · exact ih grown read
    · obtain ⟨rfl, -⟩ := Prod.mk.inj (Option.some.inj read)
      exact sourced

theorem Sourced.withParams {msg : RPCMessage} {params : List RPCValue} (sourced : Sourced input msg)
    (read : ∀ param ∈ params, ∀ text ∈ param.strings, Literal input text) : Sourced input (msg.withParams params) := by
  refine ⟨sourced.name, ?_⟩
  intro param member text held
  rcases List.mem_append.mp member with stored | other
  · exact read param stored text held
  · rw [List.eq_of_mem_replicate other] at held
    cases held

theorem readMember_sourced {steps pos : Nat} {key : CString} {msg msg' : RPCMessage} {next : Option Nat}
    (sourced : Sourced input msg) (read : readMember input steps key pos msg = some (next, msg')) :
    Sourced input msg' := by
  rw [readMember] at read
  split_ifs at read
  · cases literal : readJsonString input pos RPC_MAX_METHOD_NAME with
    | mk found after =>
      rw [literal] at read
      cases found with
      | none =>
        obtain ⟨-, rfl⟩ := Prod.mk.inj (Option.some.inj read)
        exact sourced
      | some mname =>
        obtain ⟨-, rfl⟩ := Prod.mk.inj (Option.some.inj read)
        have stored : (cString mname).take (RPC_MAX_METHOD_NAME - 1) <+: cString mname := List.take_prefix _ _
        exact ⟨.inr (literal_of_readJsonString literal (stored.trans (cString_isPrefix mname))), sourced.params⟩
  · obtain ⟨-, rfl⟩ := Prod.mk.inj (Option.some.inj read)
    exact ⟨sourced.name, sourced.params⟩
  · cases expected : expectChar input pos openBracket with
    | mk found after =>
      rw [expected] at read
      cases found with
      | false =>
        obtain ⟨-, rfl⟩ := Prod.mk.inj (Option.some.inj read)
        exact sourced
      | true =>
        simp only at read
        split_ifs at read
        · obtain ⟨-, rfl⟩ := Prod.mk.inj (Option.some.inj read)
          exact sourced
        · obtain ⟨⟨params, last⟩, values, built⟩ := Option.bind_eq_some_iff.mp read
          obtain ⟨-, rfl⟩ := Prod.mk.inj (Option.some.inj built)
          refine sourced.withParams (readParams_sourced ?_ values)
          exact fun param member => sourced.params param (List.mem_of_mem_take member)
  · cases literal : readJsonString input pos 256 with
    | mk found after =>
      rw [literal] at read
      cases found with
      | none =>
        obtain ⟨-, rfl⟩ := Prod.mk.inj (Option.some.inj read)
        exact sourced
      | some errbuf =>
        obtain ⟨-, rfl⟩ := Prod.mk.inj (Option.some.inj read)
        exact ⟨sourced.name, sourced.params⟩
  · obtain ⟨-, rfl⟩ := Prod.mk.inj (Option.some.inj read)
    exact ⟨sourced.name, sourced.params⟩
  · obtain ⟨-, rfl⟩ := Prod.mk.inj (Option.some.inj read)
    exact sourced

theorem readMembers_sourced {steps pos : Nat} {msg decoded : RPCMessage} {code : Int} (sourced : Sourced input msg)
    (read : readMembers input steps pos msg = some (code, decoded)) : Sourced input decoded := by
  induction steps generalizing pos msg with
  | zero => cases read
  | succ steps ih =>
    rw [readMembers] at read
    split_ifs at read
    · obtain ⟨-, rfl⟩ := Prod.mk.inj (Option.some.inj read)
      exact sourced
    · cases keyed : readJsonString input (skipWs input pos) 128 with
      | mk key after =>
        simp only [keyed] at read
        cases key with
        | none =>
          obtain ⟨-, rfl⟩ := Prod.mk.inj (Option.some.inj read)
          exact sourced
        | some key =>
          cases expected : expectChar input after colon with
          | mk found start =>
            simp only [expected] at read
            cases found with
            | false =>
              obtain ⟨-, rfl⟩ := Prod.mk.inj (Option.some.inj read)
              exact sourced
            | true =>
              obtain ⟨⟨next, changed⟩, member, rest⟩ := Option.bind_eq_some_iff.mp read
              have kept := readMember_sourced sourced member
              cases next with
              | none =>
                obtain ⟨-, rfl⟩ := Prod.mk.inj (Option.some.inj rest)
                exact kept
              | some last => exact ih kept rest

theorem decodeInput_sourced {steps : Nat} {decoded : RPCMessage} {code : Int}
    (read : decodeInput input steps = some (code, decoded)) : Sourced input decoded := by
  have fresh : Sourced input rpcMessageInit := by
    refine ⟨.inl rfl, ?_⟩
    intro param member text held
    rw [List.eq_of_mem_replicate member] at held
    cases held
  rw [decodeInput] at read
  cases expected : expectChar input 0 openBrace with
  | mk found after =>
    rw [expected] at read
    cases found with
    | false =>
      obtain ⟨-, rfl⟩ := Prod.mk.inj (Option.some.inj read)
      exact fresh
    | true => exact readMembers_sourced fresh read

end Sources

section Backslashes

/-- Every backslash of the text is one of a string that stands in the text, between quotes and after a character that
is no backslash. -/
def Covered (strings : List Bytes) (text : Bytes) : Prop :=
  ∀ before after, text = before ++ backslash :: after → ∃ lead char front back tail,
    front ++ backslash :: back ∈ strings ∧ before = lead ++ char :: quote :: front ∧ after = back ++ quote :: tail ∧
      char ≠ backslash

variable {strings : List Bytes}

theorem Covered.of_notMem {text : Bytes} (none : backslash ∉ text) : Covered strings text := by
  intro before after split
  exact absurd (split ▸ List.mem_append_right _ (List.mem_cons_self ..)) none

theorem Covered.append {first second : Bytes} (left : Covered strings first) (right : Covered strings second) :
    Covered strings (first ++ second) := by
  have inSecond {before after : Bytes} (split : second = before ++ backslash :: after) :
      ∃ lead char front back tail, front ++ backslash :: back ∈ strings ∧
        first ++ before = lead ++ char :: quote :: front ∧ after = back ++ quote :: tail ∧ char ≠ backslash := by
    obtain ⟨lead, char, front, back, tail, member, rfl, rfl, other⟩ := right before after split
    exact ⟨first ++ lead, char, front, back, tail, member, (List.append_assoc ..).symm, rfl, other⟩
  intro before after split
  rcases List.append_eq_append_iff.mp split with ⟨further, rfl, rest⟩ | ⟨further, rfl, rest⟩
  · exact inSecond rest
  · cases further with
    | nil =>
      have whole : second = [] ++ backslash :: after := rest.symm
      have here := inSecond whole
      simp only [List.append_nil] at here
      exact here
    | cons slash further =>
      rw [List.cons_append] at rest
      obtain ⟨rfl, rfl⟩ := List.cons.inj rest
      obtain ⟨lead, char, front, back, tail, member, rfl, rfl, other⟩ := left before further rfl
      refine ⟨lead, char, front, back, tail ++ second, member, rfl, ?_, other⟩
      rw [List.append_assoc, List.cons_append]

theorem Covered.quoted {text : Bytes} {char : UInt8} (member : text ∈ strings) (other : char ≠ backslash) :
    Covered strings (char :: RpcFramework.quoted text) := by
  intro before after split
  rw [RpcFramework.quoted] at split
  have distinct : quote ≠ backslash := by decide
  cases before with
  | nil => exact absurd (List.cons.inj split).1 other
  | cons first before =>
    rw [List.cons_append] at split
    obtain ⟨rfl, inner⟩ := List.cons.inj split
    cases before with
    | nil => exact absurd (List.cons.inj inner).1 distinct
    | cons second front =>
      rw [List.cons_append] at inner
      obtain ⟨rfl, content⟩ := List.cons.inj inner
      rcases List.append_eq_append_iff.mp content with ⟨further, rfl, rest⟩ | ⟨back, rfl, rest⟩
      · have last : backslash ∈ [quote] := rest ▸ List.mem_append_right _ (List.mem_cons_self ..)
        exact absurd (List.mem_singleton.mp last).symm distinct
      · cases back with
        | nil => exact absurd (List.cons.inj rest).1.symm distinct
        | cons slash back =>
          rw [List.cons_append] at rest
          obtain ⟨rfl, rfl⟩ := List.cons.inj rest
          exact ⟨[], _, front, back, [], member, rfl, rfl, other⟩

theorem backslash_notMem_formatD (value : Int) : backslash ∉ formatD value := by
  intro inside
  exact absurd (isNumeric_of_mem_formatD inside) (by decide)

theorem backslash_notMem_commaSeparated {items : List Bytes} (none : ∀ item ∈ items, backslash ∉ item) :
    backslash ∉ commaSeparated items := by
  have distinct : backslash ≠ comma := by decide
  cases items with
  | nil => exact List.not_mem_nil
  | cons item rest =>
    intro inside
    rcases List.mem_append.mp inside with first | later
    · exact none item (List.mem_cons_self ..) first
    · obtain ⟨other, member, held⟩ := List.mem_flatMap.mp later
      rcases List.mem_cons.mp held with same | deeper
      · exact distinct same
      · exact none other (List.mem_cons_of_mem item member) deeper

theorem Covered.value {value : RPCValue} {char : UInt8} (writable : value.Writable)
    (held : ∀ text ∈ value.strings, text ∈ strings) (other : char ≠ backslash) :
    Covered strings (char :: value.jsonText) := by
  have plain (none : backslash ∉ value.jsonText) : Covered strings (char :: value.jsonText) := by
    refine .of_notMem fun inside => ?_
    rcases List.mem_cons.mp inside with same | deeper
    · exact other same.symm
    · exact none deeper
  cases value with
  | string text => exact .quoted (held text (List.mem_singleton_self text)) other
  | int32 value => exact plain (backslash_notMem_formatD _)
  | bool value => exact plain (by cases value <;> decide)
  | null => exact plain (by decide)
  | array elemType len data =>
    refine plain fun inside => ?_
    rcases List.mem_append.mp inside with start | last
    · rcases List.mem_cons.mp start with same | deeper
      · exact absurd same (by decide)
      · refine backslash_notMem_commaSeparated ?_ deeper
        intro item member
        obtain ⟨element, -, rfl⟩ := List.mem_map.mp member
        exact backslash_notMem_formatD _
    · exact absurd (List.mem_singleton.mp last) (by decide)
  | int64 value => exact writable.elim
  | float value => exact writable.elim
  | other code => exact writable.elim
  | unset type => exact writable.elim

theorem Covered.params {params : List RPCValue} (writable : ∀ param ∈ params, param.Writable)
    (held : ∀ param ∈ params, ∀ text ∈ param.strings, text ∈ strings) :
    Covered strings (openBracket :: commaSeparated (params.map RPCValue.jsonText)) := by
  cases params with
  | nil => exact .of_notMem (by decide)
  | cons first rest =>
    rw [List.map_cons, commaSeparated, List.flatMap_map, ← List.cons_append]
    refine (Covered.value (writable first (List.mem_cons_self ..)) (held first (List.mem_cons_self ..))
      (by decide)).append ?_
    have later : ∀ param ∈ rest, param.Writable ∧ ∀ text ∈ param.strings, text ∈ strings := fun param member =>
      ⟨writable param (List.mem_cons_of_mem first member), held param (List.mem_cons_of_mem first member)⟩
    clear writable held
    induction rest with
    | nil => exact .of_notMem List.not_mem_nil
    | cons second rest ih =>
      rw [List.flatMap_cons]
      obtain ⟨writable, held⟩ := later second (List.mem_cons_self ..)
      exact (Covered.value writable held (by decide)).append
        (ih fun param member => later param (List.mem_cons_of_mem second member))

theorem RPCMessage.covered {msg : RPCMessage} (writable : msg.Writable) : Covered msg.strings msg.jsonText := by
  have start : Covered msg.strings (openBrace :: RpcFramework.quoted (ascii "method")) := .of_notMem (by decide)
  have name : Covered msg.strings (colon :: RpcFramework.quoted msg.methodName) :=
    .quoted (List.mem_cons_self ..) (by decide)
  have middle : Covered msg.strings (comma :: (RpcFramework.quoted (ascii "params") ++ [colon])) := .of_notMem (by decide)
  have params : Covered msg.strings
      (openBracket :: commaSeparated ((msg.params.take msg.paramCount).map RPCValue.jsonText)) :=
    .params writable.params fun param member text inside =>
      List.mem_cons_of_mem _ (List.mem_flatMap.mpr ⟨param, member, inside⟩)
  have key : Covered msg.strings (closeBracket :: comma :: (RpcFramework.quoted (ascii "id") ++ [colon])) :=
    .of_notMem (by decide)
  have id : Covered msg.strings (formatD msg.id.toInt) := .of_notMem (backslash_notMem_formatD _)
  have last : Covered msg.strings [closeBrace] := .of_notMem (by decide)
  have whole := start.append (name.append (middle.append (params.append (key.append (id.append last)))))
  simpa only [jsonText, List.cons_append, List.append_assoc, List.nil_append] using whole

end Backslashes

section Converse

variable {strings : List Bytes}

/-- The character stands in one of the strings, at this position, and is special. -/
structure SpecialAt (strings : List Bytes) (i : Nat) (text : Bytes) (char : UInt8) : Prop where
  member : text ∈ strings
  found : text[i]? = some char
  special : isPlain char = false

/-- The backslash that escapes a special character of a string is one of a string, no nearer to its start. -/
theorem SpecialAt.escape {i : Nat} {text : Bytes} {char : UInt8} (covered : Covered strings input.text)
    (literals : ∀ text ∈ strings, text = [] ∨ Literal input text) (spot : SpecialAt strings i text char) :
    ∃ front back, front ++ backslash :: back ∈ strings ∧ i ≤ front.length ∧
      (back = [] ∧ char = quote ∨ ∃ rest, back = char :: rest) := by
  obtain ⟨member, found, special⟩ := spot
  rcases literals text member with rfl | ⟨room, pos, out, next, read, more, rfl⟩
  · cases found
  have inOut : (text ++ more)[i]? = some char := by
    rw [List.getElem?_append_left (List.getElem?_eq_some_iff.mp found).1, found]
  obtain ⟨escape, far, slash, following, earlier⟩ := readChars_special read inOut special
  obtain ⟨inside, here⟩ := List.getElem?_eq_some_iff.mp slash
  have split : input.text = input.text.take escape ++ backslash :: input.text.drop (escape + 1) := by
    rw [← here, ← List.drop_eq_getElem_cons inside, List.take_append_drop]
  obtain ⟨lead, first, front, back, tail, held, before, after, other⟩ := covered _ _ split
  have length : escape = lead.length + 2 + front.length := by
    have := congrArg List.length before
    rw [List.length_take, List.length_append, List.length_cons, List.length_cons] at this
    omega
  rw [before, after, List.append_assoc] at split
  have opening : input.text[lead.length + 1]? = some quote := by
    rw [split, List.getElem?_append_right (by omega), Nat.add_sub_cancel_left]
    rfl
  have start : lead.length + 2 ≤ pos := by
    by_contra inner
    obtain ⟨place, same, escaped⟩ := earlier (lead.length + 1) (by omega) (by omega) opening
    obtain rfl := Nat.succ.inj same
    rw [split, List.getElem?_append_right (Nat.le_refl _), Nat.sub_self] at escaped
    exact other (Option.some.inj escaped)
  refine ⟨front, back, held, by omega, ?_⟩
  have next : (back ++ quote :: tail).head? = some char := by
    rw [← after, List.head?_drop, following]
  cases back with
  | nil => exact .inl ⟨rfl, (Option.some.inj next).symm⟩
  | cons second rest => exact .inr ⟨rest, by rw [Option.some.inj next]⟩

/-- Where one string has a special character, some string has one further from its start. -/
theorem SpecialAt.ascends {i : Nat} {text : Bytes} {char : UInt8} (covered : Covered strings input.text)
    (literals : ∀ text ∈ strings, text = [] ∨ Literal input text) (spot : SpecialAt strings i text char) :
    ∃ j other char', i < j ∧ SpecialAt strings j other char' := by
  have slash (front back : Bytes) (held : front ++ backslash :: back ∈ strings) :
      SpecialAt strings front.length (front ++ backslash :: back) backslash :=
    ⟨held, by rw [List.getElem?_append_right (Nat.le_refl _), Nat.sub_self]; rfl, by decide⟩
  have second {front rest : Bytes} {char : UInt8} (held : front ++ backslash :: char :: rest ∈ strings)
      (special : isPlain char = false) : SpecialAt strings (front.length + 1) (front ++ backslash :: char :: rest) char :=
    ⟨held, by rw [List.getElem?_append_right (Nat.le_add_right _ 1), Nat.add_sub_cancel_left]; rfl, special⟩
  obtain ⟨front, back, held, near, next⟩ := spot.escape covered literals
  by_cases same : i = front.length
  · subst same
    rcases next with ⟨rfl, rfl⟩ | ⟨rest, rfl⟩
    · -- the string ends with a backslash, which must be escaped itself
      obtain ⟨front', back', held', near', next'⟩ := (slash front [] held).escape covered literals
      by_cases same' : front.length = front'.length
      · rcases next' with ⟨-, quoted⟩ | ⟨rest, rfl⟩
        · exact absurd quoted (by decide)
        · exact ⟨_, _, _, by omega, second held' (by decide)⟩
      · exact ⟨_, _, _, by omega, slash front' back' held'⟩
    · exact ⟨_, _, _, Nat.lt_succ_self _, second held spot.special⟩
  · exact ⟨_, _, _, by omega, slash front back held⟩

/-- Strings that are all read from their own text have no special characters. -/
theorem plain_of_literals (literals : ∀ text ∈ strings, text = [] ∨ Literal input text)
    (covered : Covered strings input.text) :
    ∀ text ∈ strings, ∀ char ∈ text, isPlain char = true := by
  intro text member char inside
  by_contra special
  rw [Bool.not_eq_true] at special
  obtain ⟨start, found⟩ := List.getElem?_of_mem inside
  have far : ∀ n, ∃ j other char', n ≤ j ∧ SpecialAt strings j other char' := by
    intro n
    induction n with
    | zero => exact ⟨start, text, char, Nat.zero_le _, member, found, special⟩
    | succ n ih =>
      obtain ⟨j, other, char', bound, spot⟩ := ih
      obtain ⟨k, further, char'', above, later⟩ := spot.ascends covered literals
      exact ⟨k, further, char'', by omega, later⟩
  obtain ⟨j, other, char', bound, spot⟩ := far strings.flatten.length
  have short : other.length ≤ strings.flatten.length := (List.sublist_flatten_of_mem spot.member).length_le
  have held := (List.getElem?_eq_some_iff.mp spot.found).1
  omega

end Converse

section RoundTrip

/-- What comes back of a message: the name of the method, the id and all the parameters. -/
def JsonRoundTrip (msg : RPCMessage) (beyond : Nat → UInt8) : Prop :=
  ∃ text steps decoded, rpcEncodeJson msg = some text ∧ rpcDecodeJson steps text beyond = some (0, decoded) ∧
    decoded.methodName = msg.methodName ∧ decoded.id = msg.id ∧ decoded.paramCount = msg.paramCount ∧
    decoded.params.take msg.paramCount = msg.params.take msg.paramCount

theorem rpcDecodeJson_eq {text : Bytes} (short : text.length < 2147483648) (steps : Nat) (beyond : Nat → UInt8) :
    rpcDecodeJson steps text beyond = decodeInput ⟨text, fun pos => text.getD pos (beyond pos)⟩ steps := by
  have length : (BitVec.ofNat 32 text.length).toInt.toNat = text.length := by
    rw [BitVec.toInt_eq_toNat_of_lt (by rw [BitVec.toNat_ofNat]; omega), Int.toNat_natCast, BitVec.toNat_ofNat,
      Nat.mod_eq_of_lt (by omega)]
  rw [rpcDecodeJson, length, List.take_length]

variable {msg : RPCMessage} {beyond : Nat → UInt8}

theorem JsonRoundTrip.plain (writable : msg.Writable) (survives : JsonRoundTrip msg beyond) :
    ∀ text ∈ msg.strings, ∀ char ∈ text, isPlain char = true := by
  obtain ⟨text, steps, decoded, encoded, read, name, -, -, params⟩ := survives
  rw [rpcEncodeJson_eq writable] at encoded
  obtain rfl := Option.some.inj encoded
  rw [rpcDecodeJson_eq (RPCMessage.length_jsonText_lt writable)] at read
  have sourced := decodeInput_sourced read
  have literals : ∀ text ∈ msg.strings,
      text = [] ∨ Literal ⟨msg.jsonText, fun pos => msg.jsonText.getD pos (beyond pos)⟩ text := by
    intro text member
    rcases List.mem_cons.mp member with rfl | param
    · rw [← name]
      exact sourced.name
    · obtain ⟨param, held, inside⟩ := List.mem_flatMap.mp param
      rw [← params] at held
      exact .inr (sourced.params param (List.mem_of_mem_take held) text inside)
  exact plain_of_literals literals (RPCMessage.covered writable)

theorem JsonRoundTrip.of_plain (writable : msg.Writable)
    (plain : ∀ text ∈ msg.strings, ∀ char ∈ text, isPlain char = true) : JsonRoundTrip msg beyond := by
  have text : (⟨msg.jsonText, fun pos => msg.jsonText.getD pos (beyond pos)⟩ : JsonInput).text = msg.jsonText := rfl
  obtain ⟨decoded, read, same⟩ := decodeInput_jsonText writable plain text
  have decode := rpcDecodeJson_eq (RPCMessage.length_jsonText_lt writable) 20 beyond
  exact ⟨_, 20, decoded, rpcEncodeJson_eq writable, decode.trans read, same⟩

theorem plain_iff {text : Bytes} : (∀ char ∈ text, isPlain char = true) ↔ quote ∉ text ∧ backslash ∉ text := by
  simp only [isPlain, Bool.and_eq_true, decide_eq_true_eq]
  constructor
  · intro each
    exact ⟨fun inside => (each quote inside).1 rfl, fun inside => (each backslash inside).2 rfl⟩
  · rintro ⟨noQuote, noSlash⟩ char inside
    exact ⟨fun same => noQuote (same ▸ inside), fun same => noSlash (same ▸ inside)⟩

/-- A message survives the JSON round trip exactly when neither the name of its method nor any string among its
parameters has a quote or a backslash in it. -/
theorem rpc_json_round_trip_iff (msg : RPCMessage) (beyond : Nat → UInt8) (writable : msg.Writable) :
    JsonRoundTrip msg beyond ↔ ∀ text ∈ msg.strings, quote ∉ text ∧ backslash ∉ text := by
  constructor
  · intro survives text member
    exact plain_iff.mp (survives.plain writable text member)
  · intro plain
    exact .of_plain writable fun text member => plain_iff.mpr (plain text member)

def greeting : RPCMessage :=
  ⟨7#32, ascii "greet", .string (ascii "hi, [x]") :: .int32 5#32 :: .array .int32 2#32 [1#32, 2#32] ::
    List.replicate 13 .null, 3, true, false, []⟩

theorem rpc_json_round_trip_greeting :
    JsonRoundTrip greeting (fun _ => 0) ↔ ∀ text ∈ greeting.strings, quote ∉ text ∧ backslash ∉ text := by
  refine rpc_json_round_trip_iff greeting (fun _ => 0) ⟨rfl, by decide, by decide, by decide, ?_⟩
  intro param member
  have each : greeting.params.take greeting.paramCount =
      [.string (ascii "hi, [x]"), .int32 5#32, .array .int32 2#32 [1#32, 2#32]] := rfl
  rw [each] at member
  rcases List.mem_cons.mp member with rfl | member
  · exact ⟨by decide, by decide⟩
  rcases List.mem_cons.mp member with rfl | member
  · trivial
  obtain rfl := List.mem_singleton.mp member
  exact ⟨rfl, rfl, by decide⟩

/-- A call of the method `a\b`. -/
def pathCall : RPCMessage := ⟨1#32, [97, backslash, 98], List.replicate 16 .null, 0, true, false, []⟩

/-- It comes back as a call of `ab`. -/
theorem path_call_changed :
    pathCall.Writable ∧
      ((rpcEncodeJson pathCall).bind fun text =>
        (rpcDecodeJson 20 text fun _ => 0).map fun result => (result.1, result.2.methodName)) = some (0, [97, 98]) ∧
      ¬ JsonRoundTrip pathCall (fun _ => 0) := by
  have writable : pathCall.Writable := ⟨rfl, by decide, by decide, by decide, by simp [pathCall]⟩
  refine ⟨writable, by decide, ?_⟩
  intro survives
  have plain := survives.plain writable [97, backslash, 98] (List.mem_cons_self ..) backslash (by decide)
  exact absurd plain (by decide)

end RoundTrip

end MiniNetDist.RpcFramework
