import MiniNetDist.Library.Loop
import MiniNetDist.RpcFramework.JsonReading

/-! Where the JSON reader of `mini-rpc-framework/src/rpc_encoding.c` ends. Every loop of it moves on but the one over
the parameters, which stays before a word that begins as `true`, `false` or `null` and is another one. -/

namespace MiniNetDist.RpcFramework

open Library Relation

variable (input : JsonInput)

/-- Behind whitespace stands a word that begins as `true`, `false` or `null` and is another one. -/
def StrayWord (pos : Nat) : Prop :=
  let pos := skipWs input pos
  (input.text[pos]? = some 116 ∨ input.text[pos]? = some 102) ∧
      memcmpEqual input pos (ascii "true") = false ∧ memcmpEqual input pos (ascii "false") = false ∨
    input.text[pos]? = some 110 ∧ memcmpEqual input pos (ascii "null") = false

/-- One round of the loop over the parameters. -/
def paramsRound (state : Nat × List RPCValue) : (Nat × List RPCValue) ⊕ (List RPCValue × Nat) :=
  if state.1 < input.text.length ∧ state.2.length < RPC_MAX_PARAMS then
    let (value, pos) := readJsonValue input state.1
    let params := state.2 ++ value.toList
    let pos := skipWs input pos
    if input.byteAt pos = comma then .inl (pos + 1, params)
    else if input.byteAt pos = closeBracket then .inr (params, pos + 1)
    else .inl (pos, params)
  else .inr (state.2, state.1)

/-- The beginning of a member: its key and the position behind the colon, or the result of the decoder. -/
def openMember (pos : Nat) : Int ⊕ (CString × Nat) :=
  let pos := skipWs input pos
  if input.text.length ≤ pos ∨ input.byteAt pos = closeBrace then .inl 0
  else
    match readJsonString input pos 128 with
    | (none, _) => .inl (-1)
    | (some key, pos) =>
      match expectChar input pos colon with
      | (false, _) => .inl (-1)
      | (true, pos) => .inr (cString key, pos)

/-- Where the loop over the parameters begins, if the member has one. -/
def listStart (key : CString) (pos : Nat) : Option Nat :=
  if key = ascii "params" then
    match expectChar input pos openBracket with
    | (false, _) => none
    | (true, pos) =>
      let pos := skipWs input pos
      if input.byteAt pos = closeBracket then none else some pos
  else none

/-- The position behind a member and the comma after it. -/
def behindComma (pos : Nat) : Nat :=
  let pos := skipWs input pos
  if input.text[pos]? = some comma then pos + 1 else pos

/-- The parameters that the message has already. -/
def RPCMessage.given (msg : RPCMessage) : List RPCValue := msg.params.take msg.paramCount

/-- One member is read, and the decoder goes on behind it. -/
def NextMember (member next : Nat × RPCMessage) : Prop :=
  ∃ key start steps behind, openMember input member.1 = .inr (key, start) ∧
    readMember input steps key start member.2 = some (some behind, next.2) ∧ next.1 = behindComma input behind

/-- In its list of parameters, while there is room for one more, the reader comes to a stray word. -/
def MemberLost (member : Nat × RPCMessage) : Prop :=
  ∃ key start list, openMember input member.1 = .inr (key, start) ∧ listStart input key start = some list ∧
    ∃ state, Loop.Reaches (paramsRound input) (list, member.2.given) state ∧
      state.2.length < RPC_MAX_PARAMS ∧ StrayWord input state.1

/-- One of the members that the decoder comes to has a stray word among its parameters. -/
def Lost : Prop :=
  ∃ pos member, expectChar input 0 openBrace = (true, pos) ∧
    ReflTransGen (NextMember input) (pos, rpcMessageInit) member ∧ MemberLost input member

variable {input}

section Progress

variable {pos room maxout : Nat} {char : UInt8}

theorem le_skipWs (pos : Nat) : pos ≤ skipWs input pos := Nat.le_add_right _ _

/-- What follows whitespace is none. -/
theorem dark_skipWs (here : input.text[skipWs input pos]? = some char) : isWs char = false := by
  have dark (rest : Bytes) (first : rest[(rest.takeWhile isWs).length]? = some char) : isWs char = false := by
    induction rest with
    | nil => cases first
    | cons head rest ih =>
      by_cases white : isWs head = true
      · rw [List.takeWhile_cons_of_pos white] at first
        exact ih first
      · rw [List.takeWhile_cons_of_neg white] at first
        exact Option.some.inj first ▸ Bool.eq_false_iff.mpr white
  rw [skipWs, ← List.getElem?_drop] at here
  exact dark _ here

theorem skipWs_skipWs (pos : Nat) : skipWs input (skipWs input pos) = skipWs input pos := by
  cases here : input.text[skipWs input pos]? with
  | none =>
    rw [skipWs, List.drop_eq_nil_of_le (List.getElem?_eq_none_iff.mp here)]
    rfl
  | some char =>
    have rest : input.text.drop (skipWs input pos) = char :: input.text.drop (skipWs input pos + 1) :=
      List.drop_eq_getElem?_toList_append.trans (by rw [here]; rfl)
    exact skipWs_eq rest (dark_skipWs here)

/-- A character that was expected is consumed. -/
theorem lt_expectChar (found : (expectChar input pos char).1 = true) : pos < (expectChar input pos char).2 := by
  rw [expectChar] at found ⊢
  split_ifs at found ⊢
  exact Nat.lt_succ_of_le (le_skipWs pos)

theorem le_expectChar (pos : Nat) (char : UInt8) : pos ≤ (expectChar input pos char).2 := by
  rw [expectChar]
  split_ifs
  · exact Nat.le_trans (le_skipWs pos) (Nat.le_succ _)
  · exact le_skipWs pos

theorem le_readChars (room pos : Nat) : pos ≤ (readChars input room pos).2 := by
  induction room generalizing pos with
  | zero => exact Nat.le_refl pos
  | succ room ih =>
    rw [readChars]
    cases input.text[pos]? with
    | none => exact Nat.le_refl pos
    | some char =>
      dsimp only
      split_ifs
      · exact Nat.le_succ pos
      · exact Nat.le_trans (Nat.le_add_right pos 2) (ih (pos + 1 + 1))
      · exact Nat.le_trans (Nat.le_succ pos) (ih (pos + 1))

/-- A string consumes its first quote, also when it fails behind it. -/
theorem lt_readJsonString (found : (expectChar input pos quote).1 = true) (maxout : Nat) :
    pos < (readJsonString input pos maxout).2 := by
  have consumed := lt_expectChar found
  rw [readJsonString]
  cases quoted : expectChar input pos quote with
  | mk hit start =>
    rw [quoted] at found consumed
    cases found
    exact Nat.lt_of_lt_of_le consumed (le_readChars _ _)

theorem le_readJsonString (pos maxout : Nat) : pos ≤ (readJsonString input pos maxout).2 := by
  have passed : pos ≤ (expectChar input pos quote).2 := le_expectChar pos quote
  rw [readJsonString]
  cases quoted : expectChar input pos quote with
  | mk hit start =>
    rw [quoted] at passed
    cases hit with
    | false => exact passed
    | true => exact Nat.le_trans passed (le_readChars _ _)

theorem lt_of_readJsonString {text : Bytes} {next : Nat} (read : readJsonString input pos maxout = (some text, next)) :
    pos < next := by
  cases found : (expectChar input pos quote).1 with
  | true =>
    have consumed := lt_readJsonString found maxout
    rw [read] at consumed
    exact consumed
  | false =>
    rw [readJsonString] at read
    cases quoted : expectChar input pos quote with
    | mk hit start =>
      rw [quoted] at found read
      cases found
      cases read

theorem le_readJsonNumber (pos : Nat) : pos ≤ (readJsonNumber input pos).2 :=
  Nat.le_trans (le_skipWs pos) (Nat.le_add_right _ _)

theorem le_readElements (room pos : Nat) : pos ≤ (readElements input room pos).2 := by
  induction room generalizing pos with
  | zero => exact Nat.le_refl pos
  | succ room ih =>
    have number : pos ≤ skipWs input (readJsonNumber input pos).2 :=
      Nat.le_trans (le_readJsonNumber pos) (le_skipWs _)
    rw [readElements]
    dsimp only
    split_ifs
    · exact Nat.le_trans number (Nat.le_succ _)
    · exact Nat.le_trans (Nat.le_trans number (Nat.le_succ _)) (Nat.le_trans (le_skipWs _) (ih _))
    · exact Nat.le_trans (Nat.le_trans number (Nat.le_succ _)) (ih _)
    · exact Nat.le_refl pos

theorem le_readJsonArray (pos : Nat) : pos ≤ (readJsonArray input pos).2 := by
  rw [readJsonArray]
  dsimp only
  split_ifs
  · exact Nat.le_trans (le_skipWs pos) (Nat.le_succ _)
  · exact Nat.le_trans (le_skipWs pos) (le_readElements _ _)

/-- At a stray word, nothing is read. -/
theorem readJsonValue_stray (stray : StrayWord input pos) : readJsonValue input pos = (none, skipWs input pos) := by
  rw [readJsonValue]
  rcases stray with ⟨first | first, noTrue, noFalse⟩ | ⟨first, noNull⟩
  · rw [first]
    simp only [noTrue, noFalse, Bool.false_eq_true, if_false]
    rfl
  · rw [first]
    simp only [noTrue, noFalse, Bool.false_eq_true, if_false]
    rfl
  · rw [first]
    simp only [noNull, Bool.false_eq_true, if_false]
    rfl

/-- Anywhere else in the text, a value is read or the position moves on. -/
theorem readJsonValue_progress (steady : ¬StrayWord input pos) (inside : pos < input.text.length) :
    (readJsonValue input pos).1.isSome ∧ pos ≤ (readJsonValue input pos).2 ∨ pos < (readJsonValue input pos).2 := by
  have passed : pos ≤ skipWs input pos := le_skipWs pos
  rw [readJsonValue]
  cases here : input.text[skipWs input pos]? with
  | none => exact .inr (Nat.lt_of_lt_of_le inside (List.getElem?_eq_none_iff.mp here))
  | some char =>
    dsimp only
    split_ifs with isQuote isBool isTrue isFalse isNull isNull' isArray
    · have found : (expectChar input (skipWs input pos) quote).1 = true := by
        rw [expectChar, skipWs_skipWs, here, isQuote, if_pos rfl]
      exact .inr (Nat.lt_of_le_of_lt passed (lt_readJsonString found 512))
    · exact .inr (Nat.lt_of_le_of_lt passed (Nat.lt_add_of_pos_right (by decide)))
    · exact .inr (Nat.lt_of_le_of_lt passed (Nat.lt_add_of_pos_right (by decide)))
    · have first : input.text[skipWs input pos]? = some 116 ∨ input.text[skipWs input pos]? = some 102 :=
        isBool.imp (here.trans <| congrArg some ·) (here.trans <| congrArg some ·)
      exact absurd (.inl ⟨first, Bool.eq_false_iff.mpr isTrue, Bool.eq_false_iff.mpr isFalse⟩) steady
    · exact .inr (Nat.lt_of_le_of_lt passed (Nat.lt_add_of_pos_right (by decide)))
    · exact absurd (.inr ⟨isNull ▸ here, Bool.eq_false_iff.mpr isNull'⟩) steady
    · exact .inr (Nat.lt_of_le_of_lt passed (Nat.lt_of_lt_of_le (Nat.lt_succ_self _) (le_readJsonArray _)))
    · exact .inl ⟨rfl, Nat.le_trans passed (le_readJsonNumber _)⟩

theorem le_readJsonValue (pos : Nat) : pos ≤ (readJsonValue input pos).2 := by
  by_cases stray : StrayWord input pos
  · rw [readJsonValue_stray stray]
    exact le_skipWs pos
  · by_cases inside : pos < input.text.length
    · rcases readJsonValue_progress stray inside with ⟨-, kept⟩ | moved
      · exact kept
      · exact Nat.le_of_lt moved
    · have ended : input.text[skipWs input pos]? = none :=
        List.getElem?_eq_none_iff.mpr (Nat.le_trans (Nat.le_of_not_lt inside) (le_skipWs pos))
      rw [readJsonValue, ended]
      exact le_skipWs pos

end Progress

section Params

variable {state next : Nat × List RPCValue}

/-- The loop over the parameters is the one with these rounds. -/
theorem readParams_eq_run (steps pos : Nat) (params : List RPCValue) :
    readParams input steps pos params = Loop.run (paramsRound input) steps (pos, params) := by
  induction steps generalizing pos params with
  | zero => rfl
  | succ steps ih =>
    rw [readParams, Loop.run, paramsRound]
    dsimp only
    split_ifs
    · exact ih _ _
    · rfl
    · exact ih _ _
    · rfl

/-- The loop is before a stray word and there is room for a parameter. -/
def StuckParams (input : JsonInput) (state : Nat × List RPCValue) : Prop :=
  state.2.length < RPC_MAX_PARAMS ∧ StrayWord input state.1

theorem StrayWord.first {pos : Nat} (stray : StrayWord input pos) :
    ∃ char, input.text[skipWs input pos]? = some char ∧ char ≠ comma ∧ char ≠ closeBracket := by
  rcases stray with ⟨here | here, -⟩ | ⟨here, -⟩
  · exact ⟨116, here, by decide, by decide⟩
  · exact ⟨102, here, by decide, by decide⟩
  · exact ⟨110, here, by decide, by decide⟩

theorem stuckParams_stays (stuck : StuckParams input state) :
    ∃ next, paramsRound input state = .inl next ∧ StuckParams input next := by
  obtain ⟨room, stray⟩ := stuck
  obtain ⟨char, here, noComma, noBracket⟩ := stray.first
  have inside : state.1 < input.text.length :=
    Nat.lt_of_le_of_lt (le_skipWs state.1) (List.getElem?_eq_some_iff.mp here).1
  have there : input.byteAt (skipWs input state.1) = char := by
    rw [JsonInput.byteAt, List.getD_eq_getElem?_getD, here, Option.getD_some]
  refine ⟨(skipWs input state.1, state.2), ?_, room, ?_⟩
  · rw [paramsRound, if_pos ⟨inside, room⟩, readJsonValue_stray stray]
    simp only [skipWs_skipWs, there, if_neg noComma, if_neg noBracket, Option.toList_none, List.append_nil]
  · rw [StrayWord, skipWs_skipWs]
    exact stray

/-- The text that is left and the parameters for which there is room. -/
def paramsLeft (input : JsonInput) (state : Nat × List RPCValue) : Nat :=
  (input.text.length - state.1) + (RPC_MAX_PARAMS - state.2.length)

theorem paramsRound_less (goesOn : paramsRound input state = .inl next) (steady : ¬StuckParams input state) :
    paramsLeft input next < paramsLeft input state := by
  rw [paramsRound] at goesOn
  by_cases going : state.1 < input.text.length ∧ state.2.length < RPC_MAX_PARAMS
  · rw [if_pos going] at goesOn
    have moved := readJsonValue_progress (fun stray => steady ⟨going.2, stray⟩) going.1
    have further : (readJsonValue input state.1).2 ≤ skipWs input (readJsonValue input state.1).2 := le_skipWs _
    have longer : (state.2 ++ (readJsonValue input state.1).1.toList).length =
        state.2.length + (readJsonValue input state.1).1.toList.length := List.length_append
    have least : (readJsonValue input state.1).1.isSome = true → (readJsonValue input state.1).1.toList.length = 1 := by
      intro read
      obtain ⟨value, found⟩ := Option.isSome_iff_exists.mp read
      rw [found]
      rfl
    have less : ∀ after, skipWs input (readJsonValue input state.1).2 ≤ after →
        paramsLeft input (after, state.2 ++ (readJsonValue input state.1).1.toList) < paramsLeft input state := by
      intro after passed
      rw [paramsLeft, paramsLeft, longer]
      rcases moved with ⟨read, kept⟩ | moved
      · have one := least read
        omega
      · omega
    dsimp only at goesOn
    split_ifs at goesOn
    · exact Sum.inl.inj goesOn ▸ less _ (Nat.le_succ _)
    · exact Sum.inl.inj goesOn ▸ less _ (Nat.le_refl _)
  · rw [if_neg going] at goesOn
    cases goesOn

/-- The loop over the parameters ends exactly if it never comes before a stray word with room for a parameter. -/
theorem readParams_ends_iff (pos : Nat) (params : List RPCValue) :
    (∃ steps result, readParams input steps pos params = some result) ↔
      ∀ state, Loop.Reaches (paramsRound input) (pos, params) state → ¬StuckParams input state := by
  rw [← Loop.exists_ends_iff_not_stuck (fun _ => stuckParams_stays) (paramsLeft input) fun _ _ => paramsRound_less]
  constructor
  · intro ⟨steps, result, read⟩
    exact ⟨result, steps, readParams_eq_run steps pos params ▸ read⟩
  · intro ⟨result, steps, ended⟩
    exact ⟨steps, result, (readParams_eq_run steps pos params).trans ended⟩

theorem readParams_more {steps pos : Nat} {params : List RPCValue} {result : List RPCValue × Nat}
    (read : readParams input steps pos params = some result) (more : Nat) :
    readParams input (steps + more) pos params = some result := by
  rw [readParams_eq_run] at read ⊢
  exact Loop.run_add read more

end Params

section Members

variable {steps pos start : Nat} {key : CString} {msg : RPCMessage}

/-- What follows a member that was read. -/
def closeMember (input : JsonInput) (steps : Nat) : Option Nat × RPCMessage → Option (Int × RPCMessage)
  | (none, msg) => some (-1, msg)
  | (some behind, msg) => readMembers input steps (behindComma input behind) msg

/-- The loop over the members, by the beginning of the next one. -/
theorem readMembers_succ (input : JsonInput) (steps pos : Nat) (msg : RPCMessage) :
    readMembers input (steps + 1) pos msg = (openMember input pos).elim (fun code => some (code, msg))
      fun member => (readMember input steps member.1 member.2 msg).bind (closeMember input steps) := by
  rw [readMembers, openMember]
  dsimp only
  split_ifs
  · rfl
  · cases readJsonString input (skipWs input pos) 128 with
    | mk found after =>
      cases found with
      | none => rfl
      | some key =>
        dsimp only
        cases expectChar input after colon with
        | mk found start =>
          cases found with
          | false => rfl
          | true =>
            dsimp only [Sum.elim_inr]
            refine congrArg (Option.bind _) (funext fun member => ?_)
            obtain ⟨behind, msg⟩ := member
            cases behind <;> rfl

/-- A member without a list of parameters takes no steps of its own. -/
theorem readMember_plain (plain : listStart input key start = none) (msg : RPCMessage) :
    ∃ result, ∀ steps, readMember input steps key start msg = some result := by
  by_cases isParams : key = ascii "params"
  · rw [listStart, if_pos isParams] at plain
    have noMethod : key ≠ ascii "method" := by
      rw [isParams]
      decide
    have noId : key ≠ ascii "id" := by
      rw [isParams]
      decide
    simp only [readMember, if_neg noMethod, if_neg noId, if_pos isParams]
    cases bracket : expectChar input start openBracket with
    | mk found after =>
      rw [bracket] at plain
      cases found with
      | false => exact ⟨_, fun _ => rfl⟩
      | true =>
        dsimp only at plain ⊢
        split_ifs at plain with closed
        simp only [if_pos closed]
        exact ⟨_, fun _ => rfl⟩
  · simp only [readMember, if_neg isParams]
    split_ifs
    · cases readJsonString input start RPC_MAX_METHOD_NAME with
      | mk found next => cases found <;> exact ⟨_, fun _ => rfl⟩
    · exact ⟨_, fun _ => rfl⟩
    · cases readJsonString input start 256 with
      | mk found next => cases found <;> exact ⟨_, fun _ => rfl⟩
    · exact ⟨_, fun _ => rfl⟩
    · exact ⟨_, fun _ => rfl⟩

/-- A member with a list of parameters ends as their loop does. -/
theorem readMember_list {list : Nat} (listed : listStart input key start = some list) (steps : Nat)
    (msg : RPCMessage) : readMember input steps key start msg =
      (readParams input steps list msg.given).map fun read => (some read.2, msg.withParams read.1) := by
  rw [listStart] at listed
  split_ifs at listed with isParams
  rw [readMember, if_neg (by rw [isParams]; decide), if_neg (by rw [isParams]; decide), if_pos isParams]
  cases bracket : expectChar input start openBracket with
  | mk found after =>
    rw [bracket] at listed
    cases found with
    | false => cases listed
    | true =>
      dsimp only at listed ⊢
      split_ifs at listed with closed
      rw [if_neg closed, Option.some.inj listed, RPCMessage.given, Option.map_eq_bind]
      rfl

theorem readMember_ends_iff (input : JsonInput) (key : CString) (start : Nat) (msg : RPCMessage) :
    (∃ steps result, readMember input steps key start msg = some result) ↔
      ∀ list, listStart input key start = some list →
        ∀ state, Loop.Reaches (paramsRound input) (list, msg.given) state → ¬StuckParams input state := by
  cases listed : listStart input key start with
  | none =>
    obtain ⟨result, read⟩ := readMember_plain listed msg
    exact ⟨fun _ list other => (nomatch other), fun _ => ⟨0, result, read 0⟩⟩
  | some list =>
    constructor
    · rintro ⟨steps, result, read⟩ _ ⟨⟩
      rw [readMember_list listed] at read
      obtain ⟨params, read, -⟩ := Option.map_eq_some_iff.mp read
      exact (readParams_ends_iff list msg.given).mp ⟨steps, params, read⟩
    · intro free
      obtain ⟨steps, params, read⟩ := (readParams_ends_iff list msg.given).mpr (free list rfl)
      exact ⟨steps, _, by rw [readMember_list listed, read, Option.map_some]⟩

theorem readMember_more {result : Option Nat × RPCMessage} (read : readMember input steps key start msg = some result)
    (more : Nat) : readMember input (steps + more) key start msg = some result := by
  cases listed : listStart input key start with
  | none =>
    obtain ⟨other, same⟩ := readMember_plain listed msg
    rw [same] at read ⊢
    exact read
  | some list =>
    rw [readMember_list listed] at read ⊢
    obtain ⟨params, found, built⟩ := Option.map_eq_some_iff.mp read
    rw [readParams_more found more, Option.map_some, built]

theorem readMembers_more {result : Int × RPCMessage} (read : readMembers input steps pos msg = some result)
    (more : Nat) : readMembers input (steps + more) pos msg = some result := by
  induction steps generalizing pos msg with
  | zero => cases read
  | succ steps ih =>
    rw [Nat.add_right_comm]
    rw [readMembers_succ] at read ⊢
    cases opened : openMember input pos with
    | inl code =>
      rw [opened] at read
      exact read
    | inr member =>
      rw [opened] at read
      obtain ⟨⟨behind, later⟩, found, closed⟩ := Option.bind_eq_some_iff.mp read
      dsimp only [Sum.elim_inr]
      rw [readMember_more found more, Option.bind_some]
      cases behind with
      | none => exact closed
      | some behind => exact ih closed

/-- The result of a member does not depend on the steps. -/
theorem readMember_unique {fewer more : Nat} {result other : Option Nat × RPCMessage}
    (read : readMember input fewer key start msg = some result)
    (again : readMember input more key start msg = some other) : result = other := by
  have first := readMember_more read more
  rw [Nat.add_comm, readMember_more again fewer] at first
  exact (Option.some.inj first).symm

theorem le_readParams {params : List RPCValue} {result : List RPCValue × Nat}
    (read : readParams input steps pos params = some result) : pos ≤ result.2 := by
  induction steps generalizing pos params with
  | zero => cases read
  | succ steps ih =>
    have value : pos ≤ skipWs input (readJsonValue input pos).2 := Nat.le_trans (le_readJsonValue pos) (le_skipWs _)
    rw [readParams] at read
    dsimp only at read
    split_ifs at read
    · exact Nat.le_trans (Nat.le_trans value (Nat.le_succ _)) (ih read)
    · cases read
      exact Nat.le_trans value (Nat.le_succ _)
    · exact Nat.le_trans value (ih read)
    · cases read
      exact Nat.le_refl pos

theorem le_listStart {list : Nat} (listed : listStart input key start = some list) : start ≤ list := by
  have passed : start ≤ (expectChar input start openBracket).2 := le_expectChar start openBracket
  rw [listStart] at listed
  split_ifs at listed
  cases bracket : expectChar input start openBracket with
  | mk found after =>
    rw [bracket] at listed passed
    cases found with
    | false => cases listed
    | true =>
      dsimp only at listed passed
      split_ifs at listed
      exact Option.some.inj listed ▸ Nat.le_trans passed (le_skipWs after)

/-- A member never leads back. -/
theorem le_readMember {behind : Nat} {later : RPCMessage}
    (read : readMember input steps key start msg = some (some behind, later)) : start ≤ behind := by
  cases listed : listStart input key start with
  | some list =>
    rw [readMember_list listed] at read
    obtain ⟨params, found, built⟩ := Option.map_eq_some_iff.mp read
    cases built
    exact Nat.le_trans (le_listStart listed) (le_readParams found)
  | none =>
    have literal (maxout : Nat) : start ≤ (readJsonString input start maxout).2 := le_readJsonString start maxout
    rw [readMember] at read
    split_ifs at read
    · cases string : readJsonString input start RPC_MAX_METHOD_NAME with
      | mk found next =>
        have passed := literal RPC_MAX_METHOD_NAME
        rw [string] at read passed
        cases found with
        | none => cases read; exact passed
        | some mname => cases read; exact passed
    · cases read
      exact le_readJsonNumber start
    · rename_i isParams
      cases bracket : expectChar input start openBracket with
      | mk found after =>
        have passed : start ≤ (expectChar input start openBracket).2 := le_expectChar start openBracket
        rw [listStart, if_pos isParams] at listed
        rw [bracket] at read listed passed
        cases found with
        | false => cases read
        | true =>
          dsimp only at read listed
          split_ifs at read listed
          cases read
          exact Nat.le_trans (Nat.le_trans passed (le_skipWs after)) (Nat.le_succ _)
    · cases string : readJsonString input start 256 with
      | mk found next =>
        have passed := literal 256
        rw [string] at read passed
        cases found with
        | none => cases read; exact passed
        | some errbuf => cases read; exact passed
    · cases read
      exact le_skipWs start
    · cases read
      exact le_readJsonValue start

/-- A member begins behind its key. -/
theorem lt_openMember (opened : openMember input pos = .inr (key, start)) :
    pos < start ∧ pos < input.text.length := by
  rw [openMember] at opened
  split_ifs at opened with ended
  have inside : skipWs input pos < input.text.length := Nat.lt_of_not_le fun beyond => ended (.inl beyond)
  refine ⟨?_, Nat.lt_of_le_of_lt (le_skipWs pos) inside⟩
  cases keyed : readJsonString input (skipWs input pos) 128 with
  | mk found after =>
    simp only [keyed] at opened
    cases found with
    | none => cases opened
    | some text =>
      have consumed := lt_of_readJsonString keyed
      have passed : after ≤ (expectChar input after colon).2 := le_expectChar after colon
      cases expected : expectChar input after colon with
      | mk found next =>
        simp only [expected] at opened passed
        cases found with
        | false => cases opened
        | true =>
          cases opened
          exact Nat.lt_of_le_of_lt (le_skipWs pos) (Nat.lt_of_lt_of_le consumed passed)

theorem le_behindComma (pos : Nat) : pos ≤ behindComma input pos := by
  rw [behindComma]
  split_ifs
  · exact Nat.le_trans (le_skipWs pos) (Nat.le_succ _)
  · exact le_skipWs pos

theorem NextMember.less {member next : Nat × RPCMessage} (follows : NextMember input member next) :
    input.text.length - next.1 < input.text.length - member.1 := by
  obtain ⟨key, start, steps, behind, opened, read, place⟩ := follows
  obtain ⟨further, inside⟩ := lt_openMember opened
  have onward : start ≤ behindComma input behind := Nat.le_trans (le_readMember read) (le_behindComma behind)
  omega

/-- A member is read to its end exactly if it is not lost. -/
theorem not_memberLost_iff {key : CString} {start : Nat} {member : Nat × RPCMessage}
    (opened : openMember input member.1 = .inr (key, start)) :
    ¬MemberLost input member ↔ ∃ steps result, readMember input steps key start member.2 = some result := by
  rw [readMember_ends_iff]
  constructor
  · intro kept list listed state reached stuck
    exact kept ⟨key, start, list, opened, listed, state, reached, stuck⟩
  · intro free ⟨other, there, list, again, listed, state, reached, stuck⟩
    cases opened.symm.trans again
    exact free list listed state reached stuck

/-- The loop over the members ends exactly if no member it comes to is lost. -/
theorem readMembers_ends_iff (member : Nat × RPCMessage) :
    (∃ steps result, readMembers input steps member.1 member.2 = some result) ↔
      ∀ later, ReflTransGen (NextMember input) member later → ¬MemberLost input later := by
  induction size : input.text.length - member.1 using Nat.strong_induction_on generalizing member with
  | _ count ih =>
    constructor
    · rintro ⟨steps, result, read⟩ later passed
      cases steps with
      | zero => cases read
      | succ steps =>
        rw [readMembers_succ] at read
        rcases passed.cases_head with rfl | ⟨next, first, onward⟩
        · cases opened : openMember input member.1 with
          | inl code =>
            rintro ⟨key, start, list, other, -⟩
            cases opened.symm.trans other
          | inr begun =>
            rw [opened] at read
            obtain ⟨found, one, -⟩ := Option.bind_eq_some_iff.mp read
            exact (not_memberLost_iff opened).mpr ⟨steps, found, one⟩
        · have smaller := first.less
          obtain ⟨key, start, taken, behind, opened, one, place⟩ := first
          rw [opened] at read
          obtain ⟨found, same, closed⟩ := Option.bind_eq_some_iff.mp read
          cases readMember_unique one same
          refine (ih _ (size ▸ smaller) next rfl).mp ⟨steps, result, ?_⟩ later onward
          rw [place]
          exact closed
    · intro free
      cases opened : openMember input member.1 with
      | inl code => exact ⟨1, (code, member.2), by rw [readMembers_succ, opened]; rfl⟩
      | inr begun =>
        obtain ⟨key, start⟩ := begun
        obtain ⟨steps, ⟨behind, msg⟩, one⟩ := (not_memberLost_iff opened).mp (free member .refl)
        cases behind with
        | none => exact ⟨steps + 1, (-1, msg), by rw [readMembers_succ, opened, Sum.elim_inr, one]; rfl⟩
        | some behind =>
          have first : NextMember input member (behindComma input behind, msg) :=
            ⟨key, start, steps, behind, opened, one, rfl⟩
          obtain ⟨others, result, rest⟩ := (ih _ (size ▸ first.less) _ rfl).mpr
            fun later onward => free later (.head first onward)
          refine ⟨steps + others + 1, result, ?_⟩
          rw [readMembers_succ, opened, Sum.elim_inr, readMember_more one, Option.bind_some, closeMember,
            Nat.add_comm steps]
          exact readMembers_more rest steps

end Members

section Termination

/-- What `rpc_decode_json` reads. -/
def jsonInput (data : Bytes) (beyond : Nat → UInt8) : JsonInput :=
  ⟨data.take (BitVec.ofNat 32 data.length).toInt.toNat, fun pos => data.getD pos (beyond pos)⟩

/-- Some number of steps is enough. -/
def Terminates (data : Bytes) (beyond : Nat → UInt8) : Prop :=
  ∃ steps result, rpcDecodeJson steps data beyond = some result

/-- For every text, the decoder ends exactly if it does not come, in a list of parameters with room for one more, to a
word that begins as `true`, `false` or `null` and is another one. -/
theorem rpcDecodeJson_terminates_iff (data : Bytes) (beyond : Nat → UInt8) :
    Terminates data beyond ↔ ¬Lost (jsonInput data beyond) := by
  have decoded (steps : Nat) : rpcDecodeJson steps data beyond = decodeInput (jsonInput data beyond) steps := rfl
  simp only [Terminates, decoded, decodeInput]
  cases brace : expectChar (jsonInput data beyond) 0 openBrace with
  | mk found pos =>
    cases found with
    | false =>
      refine ⟨fun _ => ?_, fun _ => ⟨0, _, rfl⟩⟩
      rintro ⟨other, member, again, -⟩
      cases brace.symm.trans again
    | true =>
      refine (readMembers_ends_iff (pos, rpcMessageInit)).trans ?_
      constructor
      · rintro free ⟨other, member, again, passed, lost⟩
        cases brace.symm.trans again
        exact free member passed lost
      · exact fun never member passed lost => never ⟨pos, member, brace, passed, lost⟩

/-- A list of parameters that begins with a stray word. -/
def strayText : Bytes := openBrace :: quoted (ascii "params") ++ [colon, openBracket, 116, 120]

/-- The decoder stays before the stray word for ever. -/
theorem strayText_endless : ¬Terminates strayText (fun _ => 0) := by
  rw [rpcDecodeJson_terminates_iff, not_not]
  refine ⟨1, (1, rpcMessageInit), by decide, .refl, ascii "params", 10, 11, by decide, by decide, ?_⟩
  exact ⟨(11, []), .refl, by decide, .inl ⟨.inl (by decide), by decide, by decide⟩⟩

end Termination

end MiniNetDist.RpcFramework
