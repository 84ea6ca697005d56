import Mathlib.Data.List.Infix

/-! Texts that are rewritten in their own memory: a pass reads at one position and writes at another, which never gets
ahead of it. One such pass writes a separator once where it is repeated. -/

namespace MiniNetDist.Library.InPlace

variable {Cell : Type*}

section Pass

/-- What a pass does with the memory from its position on: it stops, or it reads some cells and may write one. -/
abbrev Reader (Cell : Type*) := List Cell → Option (Option Cell × Nat)

/-- The memory after at most `rounds` rounds of a pass, which writes `stop` where it stops. -/
def pass (reader : Reader Cell) (stop : Cell) : Nat → List Cell → Nat → Nat → List Cell
  | 0, memory, _, _ => memory
  | rounds + 1, memory, src, dst =>
    match reader (memory.drop src) with
    | none => memory.set dst stop
    | some (none, count) => pass reader stop rounds memory (src + count) dst
    | some (some cell, count) => pass reader stop rounds (memory.set dst cell) (src + count) (dst + 1)

/-- What a pass writes for a text, in which it stops. -/
inductive Writes (reader : Reader Cell) : List Cell → List Cell → Prop where
  | stop {text : List Cell} (filled : text ≠ []) (stops : reader text = none) : Writes reader text []
  | skip {text out : List Cell} {count : Nat} (reads : reader text = some (none, count)) (positive : 0 < count)
      (later : Writes reader (text.drop count) out) : Writes reader text out
  | put {text out : List Cell} {cell : Cell} {count : Nat} (reads : reader text = some (some cell, count))
      (positive : 0 < count) (later : Writes reader (text.drop count) out) : Writes reader text (cell :: out)

variable {reader : Reader Cell} {stop : Cell} {text out memory : List Cell} {rounds src dst : Nat}

theorem Writes.filled (writes : Writes reader text out) : text ≠ [] := by
  induction writes with
  | stop filled _ => exact filled
  | skip _ _ _ ih =>
    intro empty
    exact ih (by rw [empty, List.drop_nil])
  | put _ _ _ ih =>
    intro empty
    exact ih (by rw [empty, List.drop_nil])

theorem lt_length_of_drop (filled : text ≠ []) (here : memory.drop src = text) (behind : dst ≤ src) :
    dst < memory.length := by
  have positive := List.length_pos_iff.mpr filled
  rw [← here, List.length_drop] at positive
  omega

theorem length_drop_le {count : Nat} (positive : 0 < count) (enough : text.length ≤ rounds + 1) :
    (text.drop count).length ≤ rounds := by
  rw [List.length_drop]
  omega

/-- A text that is not empty leaves room for a round. -/
theorem exists_round (filled : text ≠ []) (enough : text.length ≤ rounds) : ∃ fewer, rounds = fewer + 1 := by
  have positive := List.length_pos_iff.mpr filled
  exact Nat.exists_eq_succ_of_ne_zero (by omega)

/-- A pass leaves what it wrote before, then what it writes for the text it reads, then the end of the text. -/
theorem Writes.pass_eq (writes : Writes reader text out) (here : memory.drop src = text) (behind : dst ≤ src)
    (enough : text.length ≤ rounds) :
    ∃ stale, pass reader stop rounds memory src dst = memory.take dst ++ out ++ stop :: stale := by
  induction writes generalizing memory src dst rounds with
  | @stop text filled stops =>
    obtain ⟨rounds, rfl⟩ := exists_round filled enough
    have inside := lt_length_of_drop filled here behind
    refine ⟨memory.drop (dst + 1), ?_⟩
    rw [pass, here, stops, List.append_nil]
    exact List.set_eq_take_append_cons_drop.trans (if_pos inside)
  | @skip text out count reads positive later ih =>
    obtain ⟨rounds, rfl⟩ := exists_round (Writes.skip reads positive later).filled enough
    have rest : memory.drop (src + count) = text.drop count := by rw [← here, List.drop_drop]
    rw [pass, here, reads]
    exact ih rest (Nat.le_add_right_of_le behind) (length_drop_le positive enough)
  | @put text out cell count reads positive later ih =>
    have filled := (Writes.put reads positive later).filled
    obtain ⟨rounds, rfl⟩ := exists_round filled enough
    have inside : dst < memory.length := lt_length_of_drop filled here behind
    have ahead : dst < src + count := Nat.lt_of_le_of_lt behind (Nat.lt_add_of_pos_right positive)
    -- the cell that is written lies before everything that is read later
    have rest : (memory.set dst cell).drop (src + count) = text.drop count := by
      rw [List.drop_set_of_lt ahead, ← List.drop_drop, here]
    have begun : (memory.set dst cell).take (dst + 1) = memory.take dst ++ [cell] := by
      rw [List.take_add_one, List.getElem?_set_self inside, List.take_set_of_le (Nat.le_refl _)]
      rfl
    obtain ⟨stale, passed⟩ := ih rest ahead (length_drop_le positive enough)
    rw [pass, here, reads]
    refine ⟨stale, passed.trans ?_⟩
    rw [begun, List.append_assoc (memory.take dst), List.singleton_append]

end Pass

section Squeeze

variable [DecidableEq Cell] {sep : Cell} {text word : List Cell}

/-- Write a separator once where it is repeated. -/
def squeeze (sep : Cell) : List Cell → List Cell
  | [] => []
  | [last] => [last]
  | first :: second :: rest =>
    if first = sep ∧ second = sep then squeeze sep (second :: rest) else first :: squeeze sep (second :: rest)

theorem squeeze_sublist (sep : Cell) (text : List Cell) : (squeeze sep text).Sublist text := by
  induction text using squeeze.induct sep with
  | case1 => exact .slnil
  | case2 last => exact .refl _
  | case3 first second rest double ih =>
    rw [squeeze, if_pos double]
    exact ih.cons first
  | case4 first second rest single ih =>
    rw [squeeze, if_neg single]
    exact ih.cons_cons first

theorem head?_squeeze (sep : Cell) (text : List Cell) : (squeeze sep text).head? = text.head? := by
  induction text using squeeze.induct sep with
  | case1 => rfl
  | case2 last => rfl
  | case3 first second rest double ih =>
    rw [squeeze, if_pos double, ih, double.1, double.2]
    rfl
  | case4 first second rest single ih =>
    rw [squeeze, if_neg single]
    rfl

/-- No separator is repeated in what is written. -/
theorem not_double_squeeze (sep : Cell) (text : List Cell) : ¬[sep, sep] <:+: squeeze sep text := by
  induction text using squeeze.induct sep with
  | case1 => simp [squeeze]
  | case2 last => simp [squeeze, List.infix_cons_iff]
  | case3 first second rest double ih =>
    rw [squeeze, if_pos double]
    exact ih
  | case4 first second rest single ih =>
    rw [squeeze, if_neg single, List.infix_cons_iff, not_or]
    refine ⟨?_, ih⟩
    intro begins
    obtain ⟨same, next⟩ := List.cons_prefix_cons.mp begins
    have head := head?_squeeze sep (second :: rest)
    obtain ⟨tail, written⟩ := next
    rw [← written] at head
    exact single ⟨same.symm, (Option.some.inj head).symm⟩

/-- A text in which no separator is repeated stays as it is. -/
theorem squeeze_eq_self (plain : ¬[sep, sep] <:+: text) : squeeze sep text = text := by
  induction text using squeeze.induct sep with
  | case1 => rfl
  | case2 last => rfl
  | case3 first second rest double ih =>
    refine absurd ?_ plain
    rw [double.1, double.2]
    exact ⟨[], rest, rfl⟩
  | case4 first second rest single ih =>
    rw [squeeze, if_neg single, ih fun later => plain (List.infix_cons later)]

theorem prefix_squeeze_iff (other : sep ∉ word) : word <+: squeeze sep text ↔ word <+: text := by
  induction text using squeeze.induct sep generalizing word with
  | case1 => exact Iff.rfl
  | case2 last => exact Iff.rfl
  | case3 first second rest double ih =>
    rw [squeeze, if_pos double, ih other]
    cases word with
    | nil => simp
    | cons cell word =>
      have different : cell ≠ sep := fun same => other (same ▸ List.mem_cons_self)
      simp [List.cons_prefix_cons, double.1, double.2, different]
  | case4 first second rest single ih =>
    rw [squeeze, if_neg single]
    cases word with
    | nil => simp
    | cons cell word =>
      rw [List.cons_prefix_cons, List.cons_prefix_cons, ih fun held => other (List.mem_cons_of_mem _ held)]

/-- Words without the separator are neither made nor lost. -/
theorem infix_squeeze_iff (other : sep ∉ word) : word <:+: squeeze sep text ↔ word <:+: text := by
  induction text using squeeze.induct sep with
  | case1 => exact Iff.rfl
  | case2 last => exact Iff.rfl
  | case3 first second rest double ih =>
    have begins := @prefix_squeeze_iff _ _ sep (first :: second :: rest) _ other
    rw [squeeze, if_pos double, prefix_squeeze_iff other] at begins
    rw [squeeze, if_pos double, ih, List.infix_cons_iff (a := first), ← begins]
    exact (or_iff_right_of_imp List.IsPrefix.isInfix).symm
  | case4 first second rest single ih =>
    have begins := @prefix_squeeze_iff _ _ sep (first :: second :: rest) _ other
    rw [squeeze, if_neg single] at begins ⊢
    rw [List.infix_cons_iff, List.infix_cons_iff (a := first), begins, ih]

end Squeeze

end MiniNetDist.Library.InPlace
