import MiniNetDist.Library.Table
import Mathlib.Data.List.TakeWhile

/-! The topic matching of `mini-app-protocol/src/mqtt.c`, character by character, against the matching of levels. The
loop ends with the topic, before the level that is left in the filter is looked at. -/

namespace MiniNetDist.AppProtocol.Mqtt

open Library

def slash : UInt8 := 47
def plus : UInt8 := 43
def hash : UInt8 := 35

def mqttTopicMatch : CString → CString → Bool
  | [], topic => topic.isEmpty
  | char :: _, [] => char = hash
  | char :: filter, first :: topic =>
    if char = plus then mqttTopicMatch filter ((first :: topic).dropWhile (· ≠ slash))
    else if char = hash then true
    else if char = first then mqttTopicMatch filter topic
    else false

section Levels

abbrev Level := List UInt8

def levels (text : CString) : List Level := text.splitOn slash

def Level.Plain (level : Level) : Prop := plus ∉ level ∧ hash ∉ level

/-- Wildcards stand alone in their levels, and `#` only in the last one. -/
def ValidFilter : List Level → Prop
  | [] => True
  | [last] => last = [hash] ∨ last = [plus] ∨ Level.Plain last
  | level :: rest => (level = [plus] ∨ Level.Plain level) ∧ ValidFilter rest

/-- Level by level: `+` stands for one level, and a final `#` for any number of them. -/
inductive Matches : List Level → List Level → Prop where
  | nil : Matches [] []
  | same (level : Level) {filter topic : List Level} (rest : Matches filter topic) :
      Matches (level :: filter) (level :: topic)
  | single (level : Level) {filter topic : List Level} (rest : Matches filter topic) :
      Matches ([plus] :: filter) (level :: topic)
  | final (topic : List Level) : Matches [[hash]] topic

/-- The topic ends where the filter still has a level for it: a `#` that stands for no level, or a `+` for an
empty one. -/
def EndsEarly (filter topic : List Level) : Prop :=
  filter.length = topic.length + 1 ∨
    filter.length = topic.length ∧ filter.getLast? = some [plus] ∧ topic.getLast? = some []

end Levels

section Characters

variable {level : Level} {filter topic : CString}

/-- A level without wildcards is compared with the front of the topic. -/
theorem mqttTopicMatch_plain (plain : level.Plain) (filter topic : CString) :
    mqttTopicMatch (level ++ filter) topic = true ↔
      ∃ rest, topic = level ++ rest ∧ mqttTopicMatch filter rest = true := by
  induction level generalizing topic with
  | nil => simp
  | cons char level ih =>
    obtain ⟨noPlus, noHash⟩ := plain
    have others : Level.Plain level :=
      ⟨fun inside => noPlus (List.mem_cons_of_mem _ inside), fun inside => noHash (List.mem_cons_of_mem _ inside)⟩
    have charPlus : char ≠ plus := fun same => noPlus (same ▸ List.mem_cons_self)
    have charHash : char ≠ hash := fun same => noHash (same ▸ List.mem_cons_self)
    cases topic with
    | nil => simp [mqttTopicMatch, charHash]
    | cons first topic =>
      rw [List.cons_append, mqttTopicMatch, if_neg charPlus, if_neg charHash]
      by_cases same : char = first
      · rw [if_pos same, ih others, same]
        simp
      · rw [if_neg same]
        simp [Ne.symm same]

/-- A slash is matched by a slash. -/
theorem mqttTopicMatch_slash (filter topic : CString) :
    mqttTopicMatch (slash :: filter) topic = true ↔
      ∃ rest, topic = slash :: rest ∧ mqttTopicMatch filter rest = true := by
  have plain : Level.Plain [slash] := ⟨by decide, by decide⟩
  exact mqttTopicMatch_plain plain filter topic

/-- A `+` passes over a level, unless the topic has ended. -/
theorem mqttTopicMatch_plus (filter topic : CString) :
    mqttTopicMatch (plus :: filter) topic = true ↔
      topic ≠ [] ∧ mqttTopicMatch filter (topic.dropWhile (· ≠ slash)) = true := by
  cases topic with
  | nil => simp [mqttTopicMatch]; decide
  | cons first topic => rw [mqttTopicMatch, if_pos rfl]; simp

theorem ne_slash_of_notMem (outside : slash ∉ level) : ∀ char ∈ level, decide (char ≠ slash) = true := by
  intro char member
  exact decide_eq_true fun stop => outside (stop ▸ member)

/-- A level of the filter with a slash behind it is matched by a level of the topic with a slash behind it. -/
theorem mqttTopicMatch_level (inside : slash ∉ level) (known : level = [plus] ∨ level.Plain) :
    mqttTopicMatch (level ++ slash :: filter) topic = true ↔
      ∃ first rest, slash ∉ first ∧ topic = first ++ slash :: rest ∧ (level = [plus] ∨ level = first) ∧
        mqttTopicMatch filter rest = true := by
  constructor
  · intro matched
    rcases known with rfl | plain
    · obtain ⟨-, matched⟩ := (mqttTopicMatch_plus _ _).mp matched
      obtain ⟨rest, found, matched⟩ := (mqttTopicMatch_slash _ _).mp matched
      refine ⟨topic.takeWhile (· ≠ slash), rest, ?_, ?_, .inl rfl, matched⟩
      · intro member
        simpa using List.mem_takeWhile_imp member
      · rw [← found, List.takeWhile_append_dropWhile]
    · obtain ⟨after, rfl, behind⟩ := (mqttTopicMatch_plain plain _ _).mp matched
      obtain ⟨rest, rfl, further⟩ := (mqttTopicMatch_slash _ _).mp behind
      exact ⟨level, rest, inside, rfl, .inr rfl, further⟩
  · rintro ⟨first, rest, outside, rfl, same, matched⟩
    have behind := (mqttTopicMatch_slash filter (slash :: rest)).mpr ⟨rest, rfl, matched⟩
    by_cases single : level = [plus]
    · have passed : (first ++ slash :: rest).dropWhile (· ≠ slash) = slash :: rest := by
        rw [List.dropWhile_append_of_pos (ne_slash_of_notMem outside)]
        simp
      rw [single]
      refine (mqttTopicMatch_plus _ _).mpr ⟨by simp, ?_⟩
      rwa [passed]
    · obtain rfl := same.resolve_left single
      exact (mqttTopicMatch_plain (known.resolve_left single) _ _).mpr ⟨_, rfl, behind⟩

end Characters

section Agreement

variable {level first : Level} {filter topic : List Level}

/-- How a level with others behind it is matched. -/
theorem matches_cons_iff (more : filter ≠ []) : Matches (level :: filter) topic ↔
    ∃ first rest, topic = first :: rest ∧ (level = [plus] ∨ level = first) ∧ Matches filter rest := by
  constructor
  · intro matched
    cases matched with
    | same _ rest => exact ⟨_, _, rfl, .inr rfl, rest⟩
    | single _ rest => exact ⟨_, _, rfl, .inl rfl, rest⟩
    | final _ => exact absurd rfl more
  · rintro ⟨first, rest, rfl, rfl | rfl, matched⟩
    · exact .single first matched
    · exact .same level matched

theorem endsEarly_cons_iff (more : filter ≠ []) (further : topic ≠ []) :
    EndsEarly (level :: filter) (first :: topic) ↔ EndsEarly filter topic := by
  rw [EndsEarly, EndsEarly, List.getLast?_cons_of_ne_nil more, List.getLast?_cons_of_ne_nil further, List.length_cons,
    List.length_cons, Nat.add_right_cancel_iff, Nat.add_right_cancel_iff]

/-- Only a final `#` is left for a topic that has ended. -/
theorem eq_final_of_matches_nil (more : filter ≠ []) (matched : Matches filter []) : filter = [[hash]] := by
  cases matched with
  | nil => exact absurd rfl more
  | final _ => rfl

/-- A text of one level, or its first level and the others. -/
theorem levels_cases (text : CString) : slash ∉ text ∧ levels text = [text] ∨
    ∃ first rest, slash ∉ first ∧ text = first ++ slash :: rest ∧ levels text = first :: levels rest := by
  by_cases inside : slash ∈ text
  · obtain ⟨first, rest, rfl, outside⟩ := List.eq_append_cons_of_mem inside
    exact .inr ⟨first, rest, outside, rfl, List.splitOn_append_cons_self_of_not_mem outside rest⟩
  · exact .inl ⟨inside, List.splitOn_eq_singleton inside⟩

theorem levels_ne_nil (text : CString) : levels text ≠ [] := List.splitOn_ne_nil slash text

theorem levels_eq_singleton_iff {text : CString} {level : Level} (inside : slash ∉ level) :
    levels text = [level] ↔ text = level := by
  rcases levels_cases text with ⟨-, single⟩ | ⟨first, rest, -, split, more⟩
  · rw [single, List.singleton_inj]
  · constructor
    · intro same
      rw [more] at same
      exact absurd (List.cons.inj same).2 (levels_ne_nil rest)
    · rintro rfl
      exact absurd (by rw [split]; simp) inside

/-- A filter that is `#`. -/
theorem mqttTopicMatch_hash (topic : CString) :
    mqttTopicMatch [hash] topic = true ↔ Matches [[hash]] (levels topic) ∧ ¬ EndsEarly [[hash]] (levels topic) := by
  have found : mqttTopicMatch [hash] topic = true := by
    cases topic with
    | nil => rfl
    | cons first topic => rfl
  refine iff_of_true found ⟨.final _, ?_⟩
  rintro (short | ⟨-, last, -⟩)
  · exact levels_ne_nil topic (List.length_eq_zero_iff.mp (Nat.succ.inj short).symm)
  · cases last

/-- A filter that is `+`. -/
theorem mqttTopicMatch_single (topic : CString) :
    mqttTopicMatch [plus] topic = true ↔ Matches [[plus]] (levels topic) ∧ ¬ EndsEarly [[plus]] (levels topic) := by
  rw [mqttTopicMatch_plus]
  rcases levels_cases topic with ⟨outside, single⟩ | ⟨first, rest, outside, rfl, more⟩
  · have passed : topic.dropWhile (· ≠ slash) = [] := by
      rw [List.dropWhile_eq_nil_iff]
      exact ne_slash_of_notMem outside
    rw [passed, single]
    constructor
    · rintro ⟨nonempty, -⟩
      refine ⟨.single topic .nil, ?_⟩
      rintro (short | ⟨-, -, empty⟩)
      · cases short
      · exact nonempty (Option.some.inj empty)
    · rintro ⟨-, whole⟩
      refine ⟨?_, rfl⟩
      rintro rfl
      exact whole (.inr ⟨rfl, rfl, rfl⟩)
  · rw [more, List.dropWhile_append_of_pos (ne_slash_of_notMem outside)]
    refine iff_of_false (fun both => absurd both.2 (by simp [mqttTopicMatch])) ?_
    rintro ⟨matched, -⟩
    have left : Matches [] (levels rest) := by
      cases matched with
      | same _ left => exact left
      | single _ left => exact left
    cases further : levels rest with
    | nil => exact levels_ne_nil rest further
    | cons second others => rw [further] at left; cases left

/-- A filter of one level without wildcards. -/
theorem mqttTopicMatch_whole {last : CString} (inside : slash ∉ last) (plain : Level.Plain last) (topic : CString) :
    mqttTopicMatch last topic = true ↔ Matches [last] (levels topic) ∧ ¬ EndsEarly [last] (levels topic) := by
  have whole : mqttTopicMatch last topic = true ↔ topic = last := by
    have front := mqttTopicMatch_plain plain [] topic
    rw [List.append_nil] at front
    rw [front]
    constructor
    · rintro ⟨rest, rfl, ended⟩
      rw [List.isEmpty_iff.mp ended, List.append_nil]
    · rintro rfl
      exact ⟨[], (List.append_nil _).symm, rfl⟩
  rw [whole, ← levels_eq_singleton_iff inside]
  constructor
  · intro same
    rw [same]
    refine ⟨.same last .nil, ?_⟩
    rintro (short | ⟨-, single, -⟩)
    · cases short
    · have only : last = [plus] := Option.some.inj single
      rw [only] at plain
      exact plain.1 (List.mem_singleton_self plus)
  · rintro ⟨matched, -⟩
    cases found : levels topic with
    | nil => exact absurd found (levels_ne_nil topic)
    | cons first rest =>
      rw [found] at matched
      cases matched with
      | same _ left => cases left; rfl
      | single _ left => exact absurd (List.mem_singleton_self plus) plain.1
      | final _ => exact absurd (List.mem_singleton_self hash) plain.2

/-- A filter of one level. -/
theorem mqttTopicMatch_last {last topic : CString} (inside : slash ∉ last)
    (valid : last = [hash] ∨ last = [plus] ∨ Level.Plain last) :
    mqttTopicMatch last topic = true ↔ Matches [last] (levels topic) ∧ ¬ EndsEarly [last] (levels topic) := by
  rcases valid with rfl | rfl | plain
  · exact mqttTopicMatch_hash topic
  · exact mqttTopicMatch_single topic
  · exact mqttTopicMatch_whole inside plain topic

/-- The code matches as the levels do, unless the topic ends early. -/
theorem mqttTopicMatch_iff {filter : CString} (valid : ValidFilter (levels filter)) (topic : CString) :
    mqttTopicMatch filter topic = true ↔
      Matches (levels filter) (levels topic) ∧ ¬ EndsEarly (levels filter) (levels topic) := by
  -- The filter is taken apart by its first slash.
  induction length : filter.length using Nat.strong_induction_on generalizing filter topic with
  | _ size ih =>
    rcases levels_cases filter with ⟨inside, single⟩ | ⟨level, filter, inside, rfl, more⟩
    · rw [single] at valid ⊢
      exact mqttTopicMatch_last inside valid
    · have others := levels_ne_nil filter
      rw [more] at valid ⊢
      obtain ⟨known, valid⟩ : (level = [plus] ∨ Level.Plain level) ∧ ValidFilter (levels filter) := by
        cases found : levels filter with
        | nil => exact absurd found others
        | cons second rest => rw [found] at valid; exact valid
      have shorter : filter.length < size := by
        rw [← length, List.length_append, List.length_cons]
        omega
      rw [mqttTopicMatch_level inside known, matches_cons_iff others]
      constructor
      · rintro ⟨first, rest, outside, rfl, same, matched⟩
        have split : levels (first ++ slash :: rest) = first :: levels rest :=
          List.splitOn_append_cons_self_of_not_mem outside rest
        obtain ⟨matched, whole⟩ := (ih _ shorter valid rest rfl).mp matched
        rw [split, endsEarly_cons_iff others (levels_ne_nil rest)]
        exact ⟨⟨first, _, rfl, same, matched⟩, whole⟩
      · rintro ⟨⟨first, rest, split, same, matched⟩, whole⟩
        rcases levels_cases topic with ⟨-, single⟩ | ⟨front, behind, outside, rfl, further⟩
        · rw [single] at split
          obtain ⟨rfl, rfl⟩ := List.cons.inj split
          rw [single, eq_final_of_matches_nil others matched] at whole
          exact absurd (.inl rfl) whole
        · rw [further] at split
          obtain ⟨rfl, rfl⟩ := List.cons.inj split
          rw [further, endsEarly_cons_iff others (levels_ne_nil behind)] at whole
          exact ⟨front, behind, outside, rfl, same, (ih _ shorter valid behind rfl).mpr ⟨matched, whole⟩⟩

/-- The code agrees with the matching of levels exactly where no matching topic ends early. -/
theorem mqtt_topic_match_agrees_iff (filter topic : CString) (valid : ValidFilter (levels filter)) :
    (mqttTopicMatch filter topic = true ↔ Matches (levels filter) (levels topic)) ↔
      ¬ (Matches (levels filter) (levels topic) ∧ EndsEarly (levels filter) (levels topic)) := by
  rw [mqttTopicMatch_iff valid topic]
  constructor
  · rintro agrees ⟨matched, early⟩
    exact (agrees.mpr matched).2 early
  · intro whole
    exact ⟨And.left, fun matched => ⟨matched, fun early => whole ⟨matched, early⟩⟩⟩

theorem mqtt_topic_match_agrees_test :
    (mqttTopicMatch [115, 47, 43, 47, 116] [115, 47, 107, 47, 116] = true ↔
      Matches (levels [115, 47, 43, 47, 116]) (levels [115, 47, 107, 47, 116])) := by
  refine (mqtt_topic_match_agrees_iff _ _ ?_).mpr ?_
  · exact ⟨.inr ⟨by decide, by decide⟩, .inl rfl, .inr (.inr ⟨by decide, by decide⟩)⟩
  · rintro ⟨-, short | ⟨-, last, -⟩⟩
    · exact absurd short (by decide)
    · exact absurd last (by decide)

/-- The filter `s/#` takes in its parent level `s`, which the code does not match. -/
theorem parent_not_matched : ValidFilter (levels [115, 47, 35]) ∧ (∀ level ∈ levels [115], level.Plain) ∧
    Matches (levels [115, 47, 35]) (levels [115]) ∧ mqttTopicMatch [115, 47, 35] [115] = false := by
  refine ⟨⟨.inr ⟨by decide, by decide⟩, .inl rfl⟩, ?_, .same [115] (.final []), by decide⟩
  intro level member
  obtain rfl : level = [115] := List.mem_singleton.mp member
  exact ⟨by decide, by decide⟩

end Agreement

end MiniNetDist.AppProtocol.Mqtt
