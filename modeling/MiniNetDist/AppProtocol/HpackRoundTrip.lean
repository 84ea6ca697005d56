import MiniNetDist.AppProtocol.Hpack
import Mathlib.Data.Finset.Card

/-! Which header blocks of `mini-app-protocol/src/http2_frames.c` survive the round trip. A reader that is ahead of
the writer once stays ahead of it, so that it runs out of bytes before it has read every field. -/

namespace MiniNetDist.AppProtocol.H2

open Library

section Strings

/-- The bytes of a string as the writer puts them; none are given for strings that no literal can hold. -/
def StringBytes (str : CString) (bytes : Bytes) : Prop :=
  (str.length < 127 ∧ bytes = .ofNat str.length :: str) ∨ (str.length = 127 ∧ bytes = 0x7F :: 0 :: str) ∨
    127 < str.length

/-- What is written found room for its first byte. -/
theorem hpackEncodeInt_seven {outSize value : Nat} {bytes : Bytes}
    (written : hpackEncodeInt outSize 7 value = some bytes) :
    (if value < 127 then some [.ofNat value] else (encodeRest (outSize - 1) (value - 127)).map (0x7F :: ·)) =
      some bytes := by
  have mask : ((1 <<< 7) - 1) % 256 = 127 := by decide
  rw [hpackEncodeInt, mask] at written
  by_cases none : outSize < 1
  · rw [if_pos none] at written
    cases written
  · rw [if_neg none] at written
    exact written

theorem hpackEncodeInt_small {outSize value : Nat} (small : value < 127) {bytes : Bytes}
    (written : hpackEncodeInt outSize 7 value = some bytes) : bytes = [.ofNat value] := by
  have here := hpackEncodeInt_seven written
  rw [if_pos small] at here
  exact (Option.some.inj here).symm

theorem hpackEncodeInt_mask {outSize : Nat} {bytes : Bytes} (written : hpackEncodeInt outSize 7 127 = some bytes) :
    bytes = [0x7F, 0] := by
  have here := hpackEncodeInt_seven written
  rw [if_neg (Nat.lt_irrefl 127), Nat.sub_self] at here
  cases left : outSize - 1 with
  | zero =>
    rw [left] at here
    cases here
  | succ space =>
    rw [left] at here
    exact (Option.some.inj here).symm

theorem hpackEncodeString_bytes {str : CString} {outSize : Nat} {bytes : Bytes}
    (written : hpackEncodeString str outSize = some bytes) : StringBytes str bytes := by
  rw [hpackEncodeString] at written
  split at written
  · cases written
  · obtain ⟨length, coded, rfl⟩ := Option.map_eq_some_iff.mp written
    rcases Nat.lt_trichotomy str.length 127 with short | whole | long
    · exact .inl ⟨short, by rw [hpackEncodeInt_small short coded, List.singleton_append]⟩
    · rw [whole] at coded
      exact .inr (.inl ⟨whole, by rw [hpackEncodeInt_mask coded]; rfl⟩)
    · exact .inr (.inr long)

theorem length_read_le (first : UInt8) : (first &&& 0x7F).toNat ≤ 127 := by
  rw [UInt8.toNat_and]
  exact Nat.and_le_right

theorem length_read_eq {length : Nat} (small : length < 128) : ((UInt8.ofNat length) &&& 0x7F).toNat = length := by
  have same : (UInt8.ofNat length).toNat = length := by
    rw [UInt8.toNat_ofNat']
    omega
  rw [(and_mask_eq_iff _).mpr (by rw [same]; exact small), same]

/-- What was read stands after its length. -/
theorem readString_ok {data string rest : Bytes} (read : readString data = .ok (string, rest)) :
    ∃ first, data = first :: (string ++ rest) ∧ string.length = (first &&& 0x7F).toNat := by
  cases data with
  | nil => cases read
  | cons first following =>
    rw [readString] at read
    split at read
    · cases read
    · rename_i enough
      cases read
      exact ⟨first, by rw [List.take_append_drop], by rw [List.length_take]; omega⟩

/-- A string that is held is no longer than the memory it was copied from. -/
theorem length_text_le {size : Nat} {memory : Bytes} {held : CharArray size}
    (stored : CharArray.store size memory = held) : held.text.length ≤ memory.length := by
  rw [← stored]
  exact Nat.le_trans (length_cString_le _) (List.length_take_le' _ _)

/-- A string written and read at one place is read whole exactly when its length takes one byte. -/
theorem readString_in_step {size : Nat} {held : CharArray size} {bytes rest string left : Bytes}
    (written : StringBytes held.text bytes) (read : readString (bytes ++ rest) = .ok (string, left))
    (stored : CharArray.store size string = held) : held.text.length < 127 ∧ left = rest := by
  obtain ⟨first, split, length⟩ := readString_ok read
  have most := length_read_le first
  have least := length_text_le stored
  rcases written with ⟨short, rfl⟩ | ⟨full, rfl⟩ | long
  · obtain ⟨rfl, same⟩ := List.cons.inj split
    rw [length_read_eq (by omega)] at length
    exact ⟨short, (List.append_inj same length.symm).2.symm⟩
  · -- the second byte of the length is read as the first of the string, and ends it
    obtain ⟨rfl, same⟩ := List.cons.inj split
    cases string with
    | nil =>
      rw [full] at least
      exact absurd least (by simp)
    | cons head tail =>
      obtain ⟨rfl, -⟩ := List.cons.inj same
      have empty : held.text = [] := by
        rw [← stored]
        cases size with
        | zero => rfl
        | succ last =>
          cases last with
          | zero => rfl
          | succ last => rfl
      rw [empty] at full
      exact absurd full (by decide)
  · omega

/-- The reader is ahead of the writer of `stream`: it has passed some of the bytes. -/
structure Ahead (data stream : Bytes) : Prop where
  suffix : data <:+ stream
  shorter : data.length < stream.length

/-- A reader that is ahead when it comes to a string is ahead after it. -/
theorem readString_ahead {size : Nat} {held : CharArray size} {bytes rest data string left : Bytes}
    (written : StringBytes held.text bytes) (ahead : Ahead data (bytes ++ rest))
    (read : readString data = .ok (string, left)) (stored : CharArray.store size string = held) :
    Ahead left rest := by
  obtain ⟨first, rfl, length⟩ := readString_ok read
  have most := length_read_le first
  have least := length_text_le stored
  have shorter := ahead.shorter
  simp only [List.length_cons, List.length_append] at shorter
  have fewer : left.length < rest.length := by
    rcases written with ⟨short, rfl⟩ | ⟨full, rfl⟩ | long
    · simp only [List.length_cons] at shorter
      omega
    · simp only [List.length_cons] at shorter
      by_cases close : left.length < rest.length
      · exact close
      · -- one byte ahead, the reader takes the second byte of the length for the length
        exfalso
        have tail : 0 :: (held.text ++ rest) <:+ 0x7F :: 0 :: held.text ++ rest := ⟨[0x7F], rfl⟩
        have place : first :: (string ++ left) = 0 :: (held.text ++ rest) := by
          refine (List.suffix_of_suffix_length_le ahead.suffix tail ?_).eq_of_length ?_
          · simp only [List.length_cons, List.length_append]
            omega
          · simp only [List.length_cons, List.length_append]
            omega
        obtain ⟨rfl, -⟩ := List.cons.inj place
        have none : ((0 : UInt8) &&& 0x7F).toNat = 0 := by decide
        omega
    · omega
  have inside : left <:+ bytes ++ rest :=
    List.IsSuffix.trans ⟨first :: string, by rw [List.cons_append]⟩ ahead.suffix
  exact ⟨List.suffix_of_suffix_length_le inside (List.suffix_append bytes rest) (Nat.le_of_lt fewer), fewer⟩

end Strings

section Fields

/-- The bytes of a field as the writer puts them. -/
inductive FieldBytes (field : H2HeaderField) : Bytes → Prop
  | indexed {j : Nat} (found : staticIndex field = some j) : FieldBytes field [.ofNat (j + 1)]
  | literal {name value : Bytes} (absent : staticIndex field = none) (nameBytes : StringBytes field.name.text name)
      (valueBytes : StringBytes field.value.text value) :
      FieldBytes field (.ofNat (0x40 ||| (name.length + value.length)) :: (name ++ value))

/-- The bytes of a block as the writer puts them. -/
inductive BlockBytes : List H2HeaderField → Bytes → Prop
  | nil : BlockBytes [] []
  | cons {field : H2HeaderField} {rest : List H2HeaderField} {bytes others : Bytes}
      (head : FieldBytes field bytes) (tail : BlockBytes rest others) : BlockBytes (field :: rest) (bytes ++ others)

theorem staticIndex_lt {field : H2HeaderField} {j : Nat} (found : staticIndex field = some j) : j < 61 :=
  List.findIdx?_eq_some_iff_findIdx_eq.mp found |>.1

theorem encodeField_bytes {outSize pos : Nat} {field : H2HeaderField} {bytes : Bytes}
    (written : encodeField outSize pos field = some bytes) : FieldBytes field bytes := by
  rw [encodeField] at written
  by_cases full : pos ≥ outSize
  · rw [if_pos full] at written
    cases written
  rw [if_neg full] at written
  cases found : staticIndex field with
  | some j =>
    simp only [found] at written
    have small := staticIndex_lt found
    rw [hpackEncodeInt_small (by omega) written]
    exact .indexed found
  | none =>
    simp only [found, Option.bind_eq_bind, Option.bind_eq_some_iff, Option.pure_def, Option.some.injEq] at written
    obtain ⟨name, named, value, valued, rfl⟩ := written
    exact .literal found (hpackEncodeString_bytes named) (hpackEncodeString_bytes valued)

theorem encodeFields_bytes {outSize pos : Nat} {conn : H2Connection} {fields : List H2HeaderField} {bytes : Bytes}
    (written : (encodeFields outSize pos conn fields).1 = some bytes) : BlockBytes fields bytes := by
  induction fields generalizing pos conn bytes with
  | nil =>
    cases written
    exact .nil
  | cons field rest ih =>
    rw [encodeFields] at written
    cases coded : encodeField outSize pos field with
    | none =>
      simp only [coded] at written
      cases written
    | some head =>
      simp only [coded] at written
      obtain ⟨others, following, rfl⟩ := Option.map_eq_some_iff.mp written
      exact .cons (encodeField_bytes coded) (ih following)

end Fields

section Items

theorem readExtra_suffix (shift : Nat) (extra : BitVec 64) (data : Bytes) :
    (readExtra shift extra data).2 <:+ data := by
  induction data generalizing shift extra with
  | nil => exact List.suffix_refl []
  | cons byte rest ih =>
    rw [readExtra]
    split
    · exact (ih _ _).trans (List.suffix_cons byte rest)
    · exact List.suffix_cons byte rest

theorem readIndex_suffix (first : UInt8) (rest : Bytes) : (readIndex first rest).2 <:+ rest := by
  rw [readIndex]
  split
  · exact readExtra_suffix 0 0#64 rest
  · exact List.suffix_refl rest

/-- Every entry of the static table is one that the writer finds there. -/
theorem staticIndex_ofBytes {entry : CString × CString} (inside : entry ∈ staticTable) :
    staticIndex (.ofBytes entry.1 entry.2) ≠ none := by
  have itself : ∀ entry ∈ staticTable, matchesEntry (.ofBytes entry.1 entry.2) entry = true := by decide +kernel
  intro none
  rw [staticIndex, List.findIdx?_eq_none_iff] at none
  exact absurd ((none entry inside).symm.trans (itself entry inside)) (by decide)

theorem entry_cases {conn : H2Connection} {tableIdx : BitVec 64} {field : H2HeaderField}
    (found : conn.entry tableIdx = some field) : staticIndex field ≠ none ∨ field ∈ conn.hpackDynamicTable := by
  rw [H2Connection.entry] at found
  cases place : staticTable[tableIdx.toNat]? with
  | some entry =>
    rw [place] at found
    obtain rfl := Option.some.inj found
    exact .inl (staticIndex_ofBytes (List.mem_of_getElem? place))
  | none =>
    rw [place] at found
    exact .inr (List.mem_of_getElem? found)

/-- What one iteration can read. -/
inductive Reads (conn : H2Connection) (first : UInt8) (rest : Bytes) : HeaderItem → Bytes → Prop
  | indexed {field : H2HeaderField} {left : Bytes} (marked : first &&& 0x80 ≠ 0)
      (known : staticIndex field ≠ none ∨ field ∈ conn.hpackDynamicTable) (later : left <:+ rest) :
      Reads conn first rest (.indexed field) left
  | literal {name value middle left : Bytes} (unmarked : first &&& 0x80 = 0)
      (named : readString rest = .ok (name, middle)) (valued : readString middle = .ok (value, left)) :
      Reads conn first rest (.literal (first &&& 0x40 ≠ 0) (.ofBytes name value)) left
  | skipped (plain : first &&& 0x40 = 0) : Reads conn first rest .skipped rest

/-- An iteration that reads no field skips the byte. -/
theorem Reads.plain_of_none {conn : H2Connection} {first : UInt8} {rest left : Bytes} {item : HeaderItem}
    (reads : Reads conn first rest item left) (none : item.fields = []) : first &&& 0x40 = 0 ∧ left = rest := by
  cases reads with
  | indexed marked known later => cases none
  | literal unmarked named valued => cases none
  | skipped plain => exact ⟨plain, rfl⟩

theorem readItem_reads {conn : H2Connection} {first : UInt8} {rest left : Bytes} {item : HeaderItem}
    (read : readItem conn first rest = .ok (item, left)) : Reads conn first rest item left := by
  rw [readItem] at read
  by_cases marked : first &&& 0x80 ≠ 0
  · rw [if_pos marked] at read
    cases found : conn.entry ((readIndex first rest).1 - 1#64) with
    | none =>
      simp only [found] at read
      cases read
    | some field =>
      simp only [found] at read
      cases read
      exact .indexed marked (entry_cases found) (readIndex_suffix first rest)
  · rw [if_neg marked] at read
    by_cases literal : first &&& 0x40 ≠ 0 ∨ first = 0 ∨ first &&& 0x10 ≠ 0
    · rw [if_pos literal] at read
      cases named : readString rest with
      | error stop =>
        rw [named] at read
        cases read
      | ok pair =>
        obtain ⟨name, middle⟩ := pair
        cases valued : readString middle with
        | error stop =>
          simp only [named, valued, Except.bind, bind] at read
          cases read
        | ok pair =>
          obtain ⟨value, left⟩ := pair
          simp only [named, valued, Except.bind, bind] at read
          cases read
          exact .literal (not_not.mp marked) named valued
    · rw [if_neg literal] at read
      cases read
      exact .skipped (not_not.mp (not_or.mp literal).1)

/-- The table is full, and holds no field of the block. -/
structure Foreign (conn : H2Connection) (fields : List H2HeaderField) : Prop where
  full : conn.hpackDynamicTable.length = HPACK_DYNAMIC_ENTRIES
  absent : ∀ field ∈ fields, field ∉ conn.hpackDynamicTable

theorem Foreign.tail {conn : H2Connection} {field : H2HeaderField} {rest : List H2HeaderField}
    (foreign : Foreign conn (field :: rest)) : Foreign conn rest :=
  ⟨foreign.full, fun other inside => foreign.absent other (List.mem_cons_of_mem field inside)⟩

/-- A field that is written as a literal is in neither table. -/
theorem Foreign.not_known {conn : H2Connection} {field : H2HeaderField} {rest : List H2HeaderField}
    (foreign : Foreign conn (field :: rest)) (absent : staticIndex field = none) :
    ¬ (staticIndex field ≠ none ∨ field ∈ conn.hpackDynamicTable) := by
  rintro (static | dynamic)
  · exact static absent
  · exact foreign.absent field (List.mem_cons_self ..) dynamic

theorem Foreign.after_eq {conn : H2Connection} {fields : List H2HeaderField} (foreign : Foreign conn fields)
    (item : HeaderItem) : conn.after item = conn := by
  have kept (field : H2HeaderField) : conn.add field = conn := by
    rw [H2Connection.add, dif_neg (by rw [foreign.full]; exact Nat.lt_irrefl _)]
  cases item with
  | indexed field => rfl
  | skipped => rfl
  | literal addToTable field =>
    cases addToTable with
    | false => rfl
    | true => exact kept field

end Items

section Loop

theorem decodeFields_prefix (iterations : Nat) (conn : H2Connection) (fields : List H2HeaderField) (data : Bytes) :
    fields <+: (decodeFields iterations conn fields data).fields := by
  induction iterations generalizing conn fields data with
  | zero => exact List.prefix_refl fields
  | succ iterations ih =>
    cases data with
    | nil => exact List.prefix_refl fields
    | cons first rest =>
      rw [decodeFields]
      split
      · split
        · exact (List.prefix_append fields _).trans (ih _ _ _)
        · exact List.prefix_refl fields
        · exact List.prefix_refl fields
      · exact List.prefix_refl fields

/-- What an iteration reads if fields are still to come: it reads something, and its field is the next one. -/
theorem decodeFields_next {iterations : Nat} {conn : H2Connection} {fields : List H2HeaderField}
    {field : H2HeaderField} {others : List H2HeaderField} {data : Bytes}
    (result : (decodeFields iterations conn fields data).fields = fields ++ field :: others) :
    ∃ fewer first rest item left, iterations = fewer + 1 ∧ data = first :: rest ∧ Reads conn first rest item left ∧
      (item.fields = [] ∧ (decodeFields fewer (conn.after item) fields left).fields = fields ++ field :: others ∨
        item.fields = [field] ∧
          (decodeFields fewer (conn.after item) (fields ++ [field]) left).fields = fields ++ [field] ++ others) := by
  have more : fields ≠ fields ++ field :: others := by
    intro same
    have := congrArg List.length same
    simp at this
  cases iterations with
  | zero => exact absurd result more
  | succ fewer =>
    cases data with
    | nil => exact absurd result more
    | cons first rest =>
      rw [decodeFields] at result
      split at result
      · cases read : readItem conn first rest with
        | error stop =>
          rw [read] at result
          cases stop with
          | ended => exact absurd result more
          | failed => exact absurd result more
        | ok pair =>
          obtain ⟨item, left⟩ := pair
          simp only [read] at result
          refine ⟨fewer, first, rest, item, left, rfl, rfl, readItem_reads read, ?_⟩
          have single (next : H2HeaderField) (shown : item.fields = [next]) : next = field := by
            have start := decodeFields_prefix fewer (conn.after item) (fields ++ item.fields) left
            rw [result, shown, List.prefix_append_right_inj] at start
            exact (List.cons_prefix_cons.mp start).1
          cases item with
          | skipped => exact .inl ⟨rfl, by simpa [HeaderItem.fields] using result⟩
          | indexed next =>
            obtain rfl := single next rfl
            exact .inr ⟨rfl, by simpa [HeaderItem.fields] using result⟩
          | literal addToTable next =>
            obtain rfl := single next rfl
            exact .inr ⟨rfl, by simpa [HeaderItem.fields] using result⟩
      · exact absurd result more

end Loop

section Converse

/-- A reader that was ahead by a byte is ahead after this byte too. -/
theorem Ahead.pass {first byte : UInt8} {rest left stream : Bytes} (ahead : Ahead (first :: rest) (byte :: stream))
    (later : left <:+ rest) : Ahead left stream := by
  have shorter := ahead.shorter
  have most := later.length_le
  simp only [List.length_cons] at shorter
  have inside : left <:+ byte :: stream := (later.trans (List.suffix_cons first rest)).trans ahead.suffix
  have fewer : left.length < stream.length := by omega
  exact ⟨List.suffix_of_suffix_length_le inside (List.suffix_cons byte stream) (Nat.le_of_lt fewer), fewer⟩

theorem readString_suffix {data string left : Bytes} (read : readString data = .ok (string, left)) :
    left <:+ data := by
  obtain ⟨first, rfl, -⟩ := readString_ok read
  exact ⟨first :: string, by rw [List.cons_append]⟩

/-- A reader that is ahead does not read the rest of the block. -/
theorem ahead_fails {iterations : Nat} {conn : H2Connection} {fields remaining : List H2HeaderField}
    {data stream : Bytes} (foreign : Foreign conn remaining) (written : BlockBytes remaining stream)
    (ahead : Ahead data stream) : (decodeFields iterations conn fields data).fields ≠ fields ++ remaining := by
  induction iterations generalizing fields remaining data stream with
  | zero =>
    cases written with
    | nil => exact absurd ahead.shorter (Nat.not_lt_zero _)
    | cons head tail =>
      intro result
      obtain ⟨fewer, -, -, -, -, positive, -⟩ := decodeFields_next result
      cases positive
  | succ iterations ih =>
    cases written with
    | nil => exact absurd ahead.shorter (Nat.not_lt_zero _)
    | @cons field others bytes following head tail =>
      intro result
      obtain ⟨fewer, first, rest, item, left, same, rfl, reads, next⟩ := decodeFields_next result
      obtain rfl := Nat.succ.inj same
      rw [foreign.after_eq item] at next
      rcases next with ⟨none, onward⟩ | ⟨one, onward⟩
      · obtain ⟨-, rfl⟩ := reads.plain_of_none none
        have behind : Ahead left (bytes ++ following) :=
          ⟨(List.suffix_cons first left).trans ahead.suffix, Nat.lt_of_succ_lt ahead.shorter⟩
        exact ih foreign (.cons head tail) behind onward
      · have further : Ahead left following := by
          cases reads with
          | indexed marked known later =>
            obtain rfl := (List.cons.inj one).1
            cases head with
            | indexed found => exact ahead.pass later
            | literal absent nameBytes valueBytes =>
              exact absurd known (foreign.not_known absent)
          | @literal name value middle left unmarked named valued =>
            obtain rfl := (List.cons.inj one).1
            cases head with
            | indexed found => exact ahead.pass ((readString_suffix valued).trans (readString_suffix named))
            | @literal nameWritten valueWritten absent nameBytes valueBytes =>
              rw [List.cons_append, List.append_assoc] at ahead
              have atName := ahead.pass (List.suffix_refl rest)
              have atValue := readString_ahead nameBytes atName named rfl
              exact readString_ahead valueBytes atValue valued rfl
          | skipped plain => cases one
        exact ih foreign.tail tail further onward

/-- The field is written as a literal whose length leaves the marks of the first byte alone. -/
def Plain (field : H2HeaderField) : Prop :=
  staticIndex field = none ∧ field.name.text.length + field.value.text.length ≤ 125

instance (field : H2HeaderField) : Decidable (Plain field) := inferInstanceAs (Decidable (_ ∧ _))

theorem literal_marked (length : Nat) : UInt8.ofNat (0x40 ||| length) &&& 0x40 ≠ 0 := by
  intro zero
  have bit := congrArg (fun byte => byte.toBitVec.getLsbD 6) zero
  simp at bit

/-- A length of 128 or more sets the mark of an index. -/
theorem literal_unmarked_iff {length : Nat} (small : length < 256) :
    UInt8.ofNat (0x40 ||| length) &&& 0x80 = 0 ↔ length < 128 := by
  have every : ∀ length < 256, UInt8.ofNat (0x40 ||| length) &&& 0x80 = 0 ↔ length < 128 := by decide +kernel
  exact every length small

theorem index_unmarked {j : Nat} (small : j < 61) : UInt8.ofNat (j + 1) &&& 0x80 = 0 := by
  have every : ∀ j < 61, UInt8.ofNat (j + 1) &&& 0x80 = 0 := by decide +kernel
  exact every j small

/-- The length of a string of less than 127 bytes takes one byte. -/
theorem StringBytes.short {str : CString} {bytes : Bytes} (written : StringBytes str bytes)
    (short : str.length < 127) : bytes = .ofNat str.length :: str := by
  rcases written with ⟨-, here⟩ | ⟨full, -⟩ | long
  · exact here
  · omega
  · omega

/-- A block that is read back on a foreign table has plain fields only. -/
theorem plain_of_read {iterations : Nat} {conn : H2Connection} {fields remaining : List H2HeaderField}
    {stream : Bytes} (foreign : Foreign conn remaining) (written : BlockBytes remaining stream)
    (result : (decodeFields iterations conn fields stream).fields = fields ++ remaining) :
    ∀ field ∈ remaining, Plain field := by
  induction written generalizing iterations fields with
  | nil => exact fun field inside => absurd inside (List.not_mem_nil)
  | @cons field rest bytes others head tail ih =>
    obtain ⟨fewer, first, following, item, left, rfl, place, reads, next⟩ := decodeFields_next result
    rw [foreign.after_eq item] at next
    cases head with
    | @indexed j found =>
      -- the index is not marked as one: it is skipped, or taken for a literal
      exfalso
      obtain ⟨rfl, rfl⟩ := List.cons.inj place
      rcases next with ⟨none, onward⟩ | ⟨one, onward⟩
      · obtain ⟨-, rfl⟩ := reads.plain_of_none none
        exact ahead_fails foreign (.cons (.indexed found) tail) ⟨List.suffix_cons _ _, Nat.lt_succ_self _⟩ onward
      · cases reads with
        | indexed marked known later => exact marked (index_unmarked (staticIndex_lt found))
        | @literal name value middle left unmarked named valued =>
          obtain ⟨length, rfl, -⟩ := readString_ok named
          have later := readString_suffix valued
          have further : Ahead left (length :: (name ++ middle)) := by
            refine ⟨later.trans ⟨length :: name, by rw [List.cons_append]⟩, ?_⟩
            have := later.length_le
            simp only [List.length_cons, List.length_append]
            omega
          exact ahead_fails foreign.tail tail further onward
        | skipped plain => cases one
    | @literal nameWritten valueWritten absent nameBytes valueBytes =>
      rw [List.cons_append, List.append_assoc] at place
      obtain ⟨rfl, rfl⟩ := List.cons.inj place
      rcases next with ⟨none, onward⟩ | ⟨one, onward⟩
      · exact absurd (reads.plain_of_none none).1 (literal_marked _)
      · cases reads with
        | indexed marked known later =>
          obtain rfl := (List.cons.inj one).1
          exact absurd known (foreign.not_known absent)
        | @literal name value middle left unmarked named valued =>
          obtain rfl := (List.cons.inj one).1
          obtain ⟨nameShort, rfl⟩ := readString_in_step nameBytes named rfl
          obtain ⟨valueShort, rfl⟩ := readString_in_step valueBytes valued rfl
          have nameLength := congrArg List.length (nameBytes.short nameShort)
          have valueLength := congrArg List.length (valueBytes.short valueShort)
          rw [List.length_cons] at nameLength valueLength
          have small := (literal_unmarked_iff (by omega)).mp unmarked
          have here : Plain (.ofBytes name value) := ⟨absent, by omega⟩
          intro other inside
          rcases List.mem_cons.mp inside with rfl | further
          · exact here
          · exact ih foreign.tail onward other further
        | skipped plain => cases one

end Converse

section RoundTrip

theorem readString_short {size : Nat} {held : CharArray size} {bytes : Bytes} (rest : Bytes)
    (written : StringBytes held.text bytes) (short : held.text.length < 127) :
    readString (bytes ++ rest) = .ok (held.text, rest) := by
  rw [written.short short, List.cons_append, readString, length_read_eq (by omega), if_neg (by simp), List.take_left,
    List.drop_left]

/-- A plain field is read as it was written. -/
theorem readItem_plain {field : H2HeaderField} (plain : Plain field) {name value : Bytes} (conn : H2Connection)
    (rest : Bytes) (nameBytes : StringBytes field.name.text name) (valueBytes : StringBytes field.value.text value) :
    readItem conn (.ofNat (0x40 ||| (name.length + value.length))) (name ++ (value ++ rest)) =
      .ok (.literal true field, rest) := by
  have fits := plain.2
  have nameLength := congrArg List.length (nameBytes.short (by omega))
  have valueLength := congrArg List.length (valueBytes.short (by omega))
  rw [List.length_cons] at nameLength valueLength
  have unmarked : UInt8.ofNat (0x40 ||| (name.length + value.length)) &&& 0x80 = 0 :=
    (literal_unmarked_iff (by omega)).mpr (by omega)
  have marked := literal_marked (name.length + value.length)
  have whole : H2HeaderField.ofBytes field.name.text field.value.text = field := by
    rw [H2HeaderField.ofBytes, CharArray.store_text, CharArray.store_text]
  rw [readItem, if_neg (not_not.mpr unmarked), if_pos (.inl marked), readString_short _ nameBytes (by omega)]
  simp only [Except.bind, bind, readString_short _ valueBytes (by omega), whole, decide_eq_true marked]
  rfl

theorem decodeFields_plain {outSize pos iterations : Nat} {conn after : H2Connection}
    {fields before : List H2HeaderField} {bytes : Bytes} (plain : ∀ field ∈ fields, Plain field)
    (written : encodeFields outSize pos conn fields = (some bytes, after))
    (room : before.length + fields.length ≤ H2_MAX_HEADER_FIELDS) (enough : bytes.length ≤ iterations) :
    decodeFields iterations conn before bytes = ⟨0, before ++ fields, after⟩ := by
  induction fields generalizing pos iterations conn before bytes with
  | nil =>
    cases written
    rw [List.append_nil]
    cases iterations with
    | zero => rfl
    | succ iterations => rfl
  | cons field rest ih =>
    have here := plain field (List.mem_cons_self ..)
    rw [encodeFields] at written
    cases coded : encodeField outSize pos field with
    | none =>
      simp only [coded] at written
      cases written
    | some head =>
      simp only [coded, here.1, Option.isSome_none, Bool.false_eq_true, if_false] at written
      obtain ⟨first, last⟩ := Prod.mk.inj written
      obtain ⟨others, following, rfl⟩ := Option.map_eq_some_iff.mp first
      cases encodeField_bytes coded with
      | indexed found =>
        rw [here.1] at found
        cases found
      | @literal name value absent nameBytes valueBytes =>
        simp only [List.length_cons] at room enough
        rw [List.length_append] at enough
        cases iterations with
        | zero => simp at enough
        | succ iterations =>
          rw [List.cons_append, List.append_assoc, decodeFields, if_pos (by omega),
            readItem_plain here conn others nameBytes valueBytes]
          have longer : (before ++ [field]).length + rest.length ≤ H2_MAX_HEADER_FIELDS := by
            rw [List.length_append, List.length_singleton]
            omega
          have further : others.length ≤ iterations := by
            rw [List.length_cons] at enough
            omega
          have onward := ih (fun other inside => plain other (List.mem_cons_of_mem field inside))
            (Prod.ext following last) longer further
          rw [List.append_assoc, List.singleton_append] at onward
          exact onward

/-- What is written does not depend on the table. -/
theorem encodeFields_written (outSize pos : Nat) (conn other : H2Connection) (fields : List H2HeaderField) :
    (encodeFields outSize pos conn fields).1 = (encodeFields outSize pos other fields).1 := by
  induction fields generalizing pos conn other with
  | nil => rfl
  | cons field rest ih =>
    rw [encodeFields, encodeFields]
    cases encodeField outSize pos field with
    | none => rfl
    | some bytes => exact congrArg (Option.map (bytes ++ ·)) (ih _ _ _)

/-- Among the names of up to 16 letters there is one that no field of a block has. -/
theorem exists_foreign (block : H2HeaderBlock) : ∃ conn, Foreign conn block.fields := by
  let lengths := (block.fields.map (·.name.text.length)).toFinset
  have few : lengths.card < (Finset.range 17).card := by
    have most := List.toFinset_card_le (block.fields.map (·.name.text.length))
    have count := block.count_le
    rw [List.length_map] at most
    rw [Finset.card_range]
    exact Nat.lt_succ_of_le (Nat.le_trans most count)
  obtain ⟨length, inside, unused⟩ := Finset.exists_mem_notMem_of_card_lt_card few
  have short := Finset.mem_range.mp inside
  let stranger := H2HeaderField.ofBytes (List.replicate length 120) []
  have measure : stranger.name.text.length = length := by
    change (cString ((List.replicate length 120).take 127)).length = length
    rw [List.take_of_length_le (by rw [List.length_replicate]; omega), cString_eq, List.length_replicate]
    intro zero
    exact absurd (List.eq_of_mem_replicate zero) (by decide)
  refine ⟨⟨List.replicate HPACK_DYNAMIC_ENTRIES stranger, by rw [List.length_replicate]⟩, ?_, ?_⟩
  · exact List.length_replicate
  · intro field present held
    obtain rfl := List.eq_of_mem_replicate held
    exact unused (List.mem_toFinset.mpr (List.mem_map.mpr ⟨_, present, measure⟩))

/-- Whatever the writer writes on `conn`, the reader on `peer` reads it back and ends with the same table. -/
def RoundTrips (outSize : Nat) (block : H2HeaderBlock) (conn peer : H2Connection) : Prop :=
  ∀ bytes after, h2HeaderEncode outSize conn block = (some bytes, after) →
    (h2HeaderDecode peer bytes).code = 0 ∧ (h2HeaderDecode peer bytes).fields = block.fields ∧
      (h2HeaderDecode peer bytes).conn.hpackDynamicTable = after.hpackDynamicTable

/-- A block that can be written survives the round trip on every pair of connections with equal tables exactly when
no field is in the static table and no field has more than 125 bytes. -/
theorem h2_header_round_trip_iff (outSize : Nat) (block : H2HeaderBlock)
    (writable : ∃ conn, (h2HeaderEncode outSize conn block).1 ≠ none) :
    (∀ conn peer, peer.hpackDynamicTable = conn.hpackDynamicTable → RoundTrips outSize block conn peer) ↔
      ∀ field ∈ block.fields, staticIndex field = none ∧
        field.name.text.length + field.value.text.length ≤ 125 := by
  constructor
  · intro survives
    obtain ⟨writer, possible⟩ := writable
    obtain ⟨conn, foreign⟩ := exists_foreign block
    obtain ⟨bytes, written⟩ := Option.ne_none_iff_exists'.mp possible
    have here : (encodeFields outSize 0 conn block.fields).1 = some bytes :=
      (encodeFields_written outSize 0 conn writer block.fields).trans written
    obtain ⟨-, fields, -⟩ := survives conn conn rfl bytes _ (Prod.ext here rfl)
    exact plain_of_read foreign (encodeFields_bytes here) fields
  · intro plain conn peer equal bytes after written
    have same : peer = conn := by
      cases peer
      cases conn
      cases equal
      rfl
    have room : ([] : List H2HeaderField).length + block.fields.length ≤ H2_MAX_HEADER_FIELDS := by
      rw [List.length_nil, Nat.zero_add]
      exact block.count_le
    have read := decodeFields_plain plain written room (Nat.le_refl bytes.length)
    rw [same, h2HeaderDecode, read]
    exact ⟨rfl, rfl, rfl⟩

theorem h2_header_round_trip_custom :
    RoundTrips 64 ⟨[.ofBytes (ascii "x-id") (ascii "7")], by decide⟩ ⟨[], by decide⟩ ⟨[], by decide⟩ :=
  (h2_header_round_trip_iff 64 ⟨[.ofBytes (ascii "x-id") (ascii "7")], by decide⟩ ⟨⟨[], by decide⟩, by decide⟩).mpr
    (by decide) ⟨[], by decide⟩ ⟨[], by decide⟩ rfl

/-- The field of the repository's own test is written as a byte that the reader skips. -/
theorem method_get_lost :
    (h2HeaderEncode 4096 ⟨[], by decide⟩ ⟨[.ofBytes (ascii ":method") (ascii "GET")], by decide⟩).1 = some [2] ∧
      (h2HeaderDecode ⟨[], by decide⟩ [2]).fields = [] ∧
      ¬ RoundTrips 4096 ⟨[.ofBytes (ascii ":method") (ascii "GET")], by decide⟩ ⟨[], by decide⟩ ⟨[], by decide⟩ := by
  have written : (h2HeaderEncode 4096 ⟨[], by decide⟩ ⟨[.ofBytes (ascii ":method") (ascii "GET")], by decide⟩).1 =
      some [2] := by decide
  have read : (h2HeaderDecode ⟨[], by decide⟩ [2]).fields = [] := by decide
  refine ⟨written, read, ?_⟩
  intro survives
  obtain ⟨-, fields, -⟩ := survives [2] _ (Prod.ext written rfl)
  rw [read] at fields
  cases fields

end RoundTrip

end MiniNetDist.AppProtocol.H2
