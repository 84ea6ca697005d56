import MiniNetDist.SystemTheory.OrSet
import Mathlib.Data.Nat.Digits.Defs

/-! Convergence of the observed-remove set. As long as no array overflows, a merge contains
exactly what one of the two sides contains: an entry that is passed over has a tag the
other side knows, and a tag names one element on all replicas. -/

namespace MiniNetDist.SystemTheory.OrSet

open Library

private theorem digit_bounds {char : Char} {value : Nat} (printed : char ∈ Nat.toDigits 10 value) :
    48 ≤ char.toNat ∧ char.toNat ≤ 57 :=
  Char.isDigit_iff_toNat.mp (Nat.isDigit_of_mem_toDigits (by decide) (by decide) printed)

private theorem digit_byte {char : Char} {value : Nat} (printed : char ∈ Nat.toDigits 10 value) :
    char.toNat.toUInt8.toNat = char.toNat := by
  have bounds := digit_bounds printed
  exact Nat.mod_eq_of_lt (by omega)

theorem mem_decimal {value : Int} {byte : UInt8} (printed : byte ∈ decimal value) :
    byte = 45 ∨ 48 ≤ byte.toNat ∧ byte.toNat ≤ 57 := by
  rcases List.mem_append.mp printed with sign | digit
  · split_ifs at sign
    · exact .inl (List.mem_singleton.mp sign)
    · cases sign
  · obtain ⟨char, inside, rfl⟩ := List.mem_map.mp digit
    rw [digit_byte inside]
    exact .inr (digit_bounds inside)

private theorem digits_injective {first second : Nat}
    (same : ((Nat.toDigits 10 first).map fun digit => digit.toNat.toUInt8) =
      (Nat.toDigits 10 second).map fun digit => digit.toNat.toUInt8) : first = second := by
  have back : ∀ value, ((Nat.toDigits 10 value).map fun digit => digit.toNat.toUInt8).map
      (fun byte => Char.ofNat byte.toNat) = Nat.toDigits 10 value := by
    intro value
    rw [List.map_map]
    refine (List.map_congr_left ?_).trans (List.map_id _)
    intro char inside
    simp only [Function.comp_apply, digit_byte inside, Char.ofNat_toNat, id]
  calc first = Nat.ofDigitChars 10 (Nat.toDigits 10 first) 0 := Nat.ofDigitChars_ten_toDigits.symm
    _ = Nat.ofDigitChars 10 (Nat.toDigits 10 second) 0 := by rw [← back first, ← back second, same]
    _ = second := Nat.ofDigitChars_ten_toDigits

private theorem sign_ne_digits (value : Nat) (rest : CString) :
    45 :: rest ≠ (Nat.toDigits 10 value).map fun digit => digit.toNat.toUInt8 := by
  intro same
  have inside : (45 : UInt8) ∈ (Nat.toDigits 10 value).map fun digit => digit.toNat.toUInt8 :=
    same ▸ List.mem_cons_self
  obtain ⟨char, printed, byte⟩ := List.mem_map.mp inside
  have bounds := digit_bounds printed
  have value := digit_byte printed
  rw [byte] at value
  change 45 = char.toNat at value
  omega

/-- Printing keeps numbers apart. -/
theorem decimal_injective : Function.Injective decimal := by
  intro first second same
  unfold decimal at same
  by_cases below : first < 0 <;> by_cases under : second < 0
  · rw [if_pos below, if_pos under, List.append_cancel_left_eq] at same
    have size := digits_injective same
    omega
  · rw [if_pos below, if_neg under] at same
    exact absurd same (sign_ne_digits _ _)
  · rw [if_neg below, if_pos under] at same
    exact absurd same.symm (sign_ne_digits _ _)
  · rw [if_neg below, if_neg under, List.append_cancel_left_eq] at same
    have size := digits_injective same
    omega

theorem length_decimal_le {value : Int} {digits : Nat} (positive : 0 < digits)
    (small : value.natAbs < 10 ^ digits) : (decimal value).length ≤ digits + 1 := by
  have printed : (Nat.toDigits 10 value.natAbs).length ≤ digits :=
    (Nat.length_toDigits_le_iff (by decide) positive).mpr small
  unfold decimal
  rw [List.length_append, List.length_map]
  split_ifs <;> simp <;> omega

/-- The node id is a C `int`, and no counter passes the number of entries. -/
structure Printable (nodeId seqCounter : Int) : Prop where
  node : nodeId.natAbs ≤ 2147483648
  nonnegative : 0 ≤ seqCounter
  counter : seqCounter ≤ CRDT_MAX_ELEMENTS

/-- Such a tag is not cut off. -/
theorem orsTag_eq {nodeId seqCounter : Int} (printable : Printable nodeId seqCounter) :
    orsTag nodeId seqCounter = [110] ++ decimal nodeId ++ [45, 115] ++ decimal seqCounter := by
  have node : (decimal nodeId).length ≤ 10 + 1 :=
    length_decimal_le (by decide) (Nat.lt_of_le_of_lt printable.node (by decide))
  have small : seqCounter.natAbs < 10 ^ 3 := by
    have counter := printable.counter
    have nonnegative := printable.nonnegative
    unfold CRDT_MAX_ELEMENTS at counter
    omega
  have counter : (decimal seqCounter).length ≤ 3 + 1 := length_decimal_le (by decide) small
  apply strncpy_of_lt
  simp only [List.length_append, List.length_cons, List.length_nil, ORSET_TAG_LEN]
  omega

/-- A tag tells which replica made it and when. -/
theorem orsTag_injective {node other seq later : Int} (first : Printable node seq) (second : Printable other later)
    (same : orsTag node seq = orsTag other later) : node = other ∧ seq = later := by
  have letter : ∀ value, (115 : UInt8) ∉ decimal value := by
    intro value printed
    rcases mem_decimal printed with sign | ⟨-, digit⟩
    · exact absurd sign (by decide)
    · exact absurd digit (by decide)
  rw [orsTag_eq first, orsTag_eq second] at same
  have split : ([110] ++ decimal node ++ [45]) ++ 115 :: decimal seq =
      ([110] ++ decimal other ++ [45]) ++ 115 :: decimal later := by
    simpa using same
  have parts := (List.append_cons_inj_of_notMem (by simp [letter]) (letter seq)).mp split
  have nodes : decimal node = decimal other := by simpa using parts.1
  exact ⟨decimal_injective nodes, decimal_injective parts.2.2⟩

section Replicas

variable {Replica : Type} {nodeId : Replica → Int}

/-- Every live entry bears a tag that its replica has issued, and a tag stands for one
element everywhere. -/
structure Tagged (nodeId : Replica → Int) (replicas : Replica → ORSet) : Prop where
  owner : ∀ replica, (replicas replica).nodeId = nodeId replica
  nonnegative : ∀ replica, 0 ≤ (replicas replica).seqCounter
  counted : ∀ replica, (replicas replica).seqCounter ≤ (replicas replica).entries.length
  bounded : ∀ replica, (replicas replica).entries.length ≤ CRDT_MAX_ELEMENTS
  issued : ∀ replica, ∀ entry ∈ (replicas replica).entries, entry.removed = false →
    ∃ maker, ∃ seq, 0 ≤ seq ∧ seq < (replicas maker).seqCounter ∧ entry.tag = orsTag (nodeId maker) seq
  agree : ∀ first second, ∀ entry ∈ (replicas first).entries, ∀ other ∈ (replicas second).entries,
    entry.removed = false → entry.tag = other.tag → entry.element = other.element

theorem tagged_init : Tagged nodeId (orsetsInit nodeId) := by
  refine ⟨fun _ => rfl, fun _ => Int.le_refl 0, fun _ => Int.le_refl 0, fun _ => Nat.zero_le _, ?_, ?_⟩
  · intro replica entry inside
    cases inside
  · intro first second entry inside
    cases inside

theorem length_adopted_le (others entries : List ORSetEntry) :
    (others.foldl orsAdopt entries).length ≤ entries.length + others.length := by
  induction others generalizing entries with
  | nil => exact Nat.le_refl _
  | cons first rest ih =>
    have grown : (orsAdopt entries first).length ≤ entries.length + 1 := by
      unfold orsAdopt
      split_ifs <;> simp
    have whole := ih (orsAdopt entries first)
    rw [List.foldl_cons, List.length_cons]
    omega

theorem length_le_adopted (others entries : List ORSetEntry) :
    entries.length ≤ (others.foldl orsAdopt entries).length := by
  induction others generalizing entries with
  | nil => exact Nat.le_refl _
  | cons first rest ih =>
    refine Nat.le_trans ?_ (ih (orsAdopt entries first))
    unfold orsAdopt
    split_ifs <;> simp

theorem adopted_bounded (others entries : List ORSetEntry) (bounded : entries.length ≤ CRDT_MAX_ELEMENTS) :
    (others.foldl orsAdopt entries).length ≤ CRDT_MAX_ELEMENTS := by
  induction others generalizing entries with
  | nil => exact bounded
  | cons first rest ih =>
    apply ih
    unfold orsAdopt
    split_ifs with known space
    · exact bounded
    · rw [List.length_append, List.length_singleton]
      exact space
    · exact bounded

/-- What an operation does to the one replica it changes. -/
structure Grows (replicas : Replica → ORSet) (old new : ORSet) : Prop where
  owner : new.nodeId = old.nodeId
  longer : old.entries.length ≤ new.entries.length
  bounded : old.entries.length ≤ CRDT_MAX_ELEMENTS → new.entries.length ≤ CRDT_MAX_ELEMENTS
  entries : (new.seqCounter = old.seqCounter ∧
      ∀ entry ∈ new.entries, entry.removed = false → ∃ replica, entry ∈ (replicas replica).entries) ∨
    ∃ element, new.seqCounter = old.seqCounter + 1 ∧
      new.entries = old.entries ++ [⟨orsTag old.nodeId old.seqCounter, element⟩]

theorem orsAdd_grows (replicas : Replica → ORSet) (replica : Replica) (element : Int) :
    Grows replicas (replicas replica) (orsAdd (replicas replica) element) := by
  unfold orsAdd
  split_ifs with present full
  · exact ⟨rfl, Nat.le_refl _, id, .inl ⟨rfl, fun entry inside _ => ⟨replica, inside⟩⟩⟩
  · exact ⟨rfl, Nat.le_refl _, id, .inl ⟨rfl, fun entry inside _ => ⟨replica, inside⟩⟩⟩
  · refine ⟨rfl, by simp, fun _ => ?_, .inr ⟨element, rfl, rfl⟩⟩
    rw [List.length_append, List.length_singleton]
    exact Nat.lt_of_not_le full

theorem orsRemove_grows (replicas : Replica → ORSet) (replica : Replica) (element : Int) :
    Grows replicas (replicas replica) (orsRemove (replicas replica) element) := by
  unfold orsRemove
  split_ifs with full
  · exact ⟨rfl, Nat.le_refl _, id, .inl ⟨rfl, fun entry inside _ => ⟨replica, inside⟩⟩⟩
  · split
    · exact ⟨rfl, Nat.le_refl _, id, .inl ⟨rfl, fun entry inside _ => ⟨replica, inside⟩⟩⟩
    · rename_i i _
      refine ⟨rfl, by simp, by simp, .inl ⟨rfl, fun entry inside kept => ⟨replica, ?_⟩⟩⟩
      obtain ⟨j, bound, rfl⟩ := List.mem_iff_getElem.mp inside
      rw [List.getElem_modify] at kept ⊢
      split_ifs at kept ⊢ with here
      · cases kept
      · exact List.getElem_mem _

theorem orsMerge_grows (replicas : Replica → ORSet) (replica other : Replica) :
    Grows replicas (replicas replica) (orsMerge (replicas replica) (replicas other)) := by
  refine ⟨rfl, ?_, ?_, .inl ⟨rfl, ?_⟩⟩
  · rw [orsMerge_entries]
    exact length_le_adopted _ _
  · intro bounded
    rw [orsMerge_entries]
    exact adopted_bounded _ _ bounded
  · intro entry inside _
    rw [orsMerge_entries] at inside
    rcases mem_adopted _ _ inside with own | others
    · exact ⟨replica, own⟩
    · exact ⟨other, others⟩

variable {replicas : Replica → ORSet}

theorem Tagged.printable (tagged : Tagged nodeId replicas) (ids : ∀ replica, (nodeId replica).natAbs ≤ 2147483648)
    {replica : Replica} {seq : Int} (nonnegative : 0 ≤ seq) (known : seq ≤ (replicas replica).seqCounter) :
    Printable (nodeId replica) seq := by
  have counted := tagged.counted replica
  have bounded := tagged.bounded replica
  exact ⟨ids replica, nonnegative, by omega⟩

/-- The next tag of a replica stands nowhere yet. -/
theorem Tagged.fresh (tagged : Tagged nodeId replicas) (ids : ∀ replica, (nodeId replica).natAbs ≤ 2147483648)
    (distinct : Function.Injective nodeId) {holder : Replica} {entry : ORSetEntry}
    (inside : entry ∈ (replicas holder).entries) (live : entry.removed = false) (replica : Replica) :
    entry.tag ≠ orsTag (replicas replica).nodeId (replicas replica).seqCounter := by
  obtain ⟨maker, seq, nonnegative, earlier, tag⟩ := tagged.issued holder entry inside live
  intro same
  rw [tag, tagged.owner replica] at same
  have next := tagged.printable ids (tagged.nonnegative replica) (Int.le_refl _)
  obtain ⟨node, order⟩ := orsTag_injective (tagged.printable ids nonnegative (Int.le_of_lt earlier)) next same
  rw [distinct node] at earlier
  omega

theorem Grows.counted {replica : Replica} {new : ORSet} (grows : Grows replicas (replicas replica) new)
    (counted : (replicas replica).seqCounter ≤ (replicas replica).entries.length) :
    new.seqCounter ≤ new.entries.length := by
  have longer := grows.longer
  rcases grows.entries with ⟨counter, -⟩ | ⟨element, counter, added⟩
  · omega
  · rw [added, List.length_append, List.length_singleton]
    omega

variable [DecidableEq Replica]

theorem orsetsStep_grows (replicas : Replica → ORSet) (call : ORSetCall Replica) :
    ∃ replica, ∃ new, orsetsStep replicas call = Function.update replicas replica new ∧
      Grows replicas (replicas replica) new := by
  cases call with
  | add replica element => exact ⟨replica, _, rfl, orsAdd_grows replicas replica element⟩
  | remove replica element => exact ⟨replica, _, rfl, orsRemove_grows replicas replica element⟩
  | merge replica other => exact ⟨replica, _, rfl, orsMerge_grows replicas replica other⟩

section Step

variable {replica : Replica} {new : ORSet}

/-- A live entry after the step is an old one or the one just made. -/
theorem Grows.mem_cases (grows : Grows replicas (replicas replica) new) {holder : Replica} {entry : ORSetEntry}
    (inside : entry ∈ (Function.update replicas replica new holder).entries) (live : entry.removed = false) :
    (∃ earlier, entry ∈ (replicas earlier).entries) ∨
      (new.seqCounter = (replicas replica).seqCounter + 1 ∧
        entry.tag = orsTag (replicas replica).nodeId (replicas replica).seqCounter ∧
        new.entries.getLast? = some entry) := by
  by_cases here : holder = replica
  · subst here
    rw [Function.update_self] at inside
    rcases grows.entries with ⟨-, old⟩ | ⟨element, counter, added⟩
    · exact .inl (old entry inside live)
    · rw [added] at inside
      rcases List.mem_append.mp inside with old | fresh
      · exact .inl ⟨holder, old⟩
      · rw [List.mem_singleton.mp fresh, added]
        exact .inr ⟨counter, rfl, by simp⟩
  · rw [Function.update_of_ne here] at inside
    exact .inl ⟨holder, inside⟩

theorem Grows.counter_le (grows : Grows replicas (replicas replica) new) (other : Replica) :
    (replicas other).seqCounter ≤ (Function.update replicas replica new other).seqCounter := by
  by_cases here : other = replica
  · subst here
    rw [Function.update_self]
    rcases grows.entries with ⟨counter, -⟩ | ⟨element, counter, -⟩ <;> omega
  · rw [Function.update_of_ne here]

theorem Tagged.grow (tagged : Tagged nodeId replicas) (ids : ∀ replica, (nodeId replica).natAbs ≤ 2147483648)
    (distinct : Function.Injective nodeId) (grows : Grows replicas (replicas replica) new) :
    Tagged nodeId (Function.update replicas replica new) := by
  refine ⟨?_, ?_, ?_, ?_, ?_, ?_⟩
  · intro other
    by_cases here : other = replica
    · subst here
      rw [Function.update_self, grows.owner, tagged.owner]
    · rw [Function.update_of_ne here, tagged.owner]
  · intro other
    exact Int.le_trans (tagged.nonnegative other) (grows.counter_le other)
  · intro other
    by_cases here : other = replica
    · subst here
      rw [Function.update_self]
      exact grows.counted (tagged.counted other)
    · rw [Function.update_of_ne here]
      exact tagged.counted other
  · intro other
    by_cases here : other = replica
    · subst here
      rw [Function.update_self]
      exact grows.bounded (tagged.bounded other)
    · rw [Function.update_of_ne here]
      exact tagged.bounded other
  · intro holder entry inside live
    rcases grows.mem_cases inside live with ⟨earlier, old⟩ | ⟨counter, tag, -⟩
    · obtain ⟨maker, seq, nonnegative, below, tag⟩ := tagged.issued earlier entry old live
      exact ⟨maker, seq, nonnegative, Int.lt_of_lt_of_le below (grows.counter_le maker), tag⟩
    · refine ⟨replica, (replicas replica).seqCounter, tagged.nonnegative replica, ?_, ?_⟩
      · rw [Function.update_self, counter]
        exact Int.lt_succ _
      · rw [tag, tagged.owner]
  · intro first second entry inside other present live same
    have liveToo : other.removed = false := by
      rw [ORSetEntry.removed, ← same]
      exact live
    rcases grows.mem_cases inside live with ⟨earlier, old⟩ | ⟨-, tag, last⟩
    · rcases grows.mem_cases present liveToo with ⟨before, older⟩ | ⟨-, tag, -⟩
      · exact tagged.agree earlier before entry old other older live same
      · exact absurd (same.trans tag) (tagged.fresh ids distinct old live replica)
    · rcases grows.mem_cases present liveToo with ⟨before, older⟩ | ⟨-, -, lastToo⟩
      · exact absurd (same.symm.trans tag) (tagged.fresh ids distinct older liveToo replica)
      · have one : entry = other := Option.some.inj (last.symm.trans lastToo)
        rw [one]

end Step

theorem tagged_reached {start : Replica → Int} (ids : ∀ replica, (start replica).natAbs ≤ 2147483648)
    (distinct : Function.Injective start)
    (reached : Reaches orsetsStep Always (orsetsInit start) replicas) : Tagged start replicas := by
  refine reached.invariant tagged_init ?_
  intro replicas call tagged _
  obtain ⟨replica, new, step, grows⟩ := orsetsStep_grows replicas call
  rw [step]
  exact tagged.grow ids distinct grows

end Replicas

section Merge

variable {ors other third : ORSet} {name : CString → Int}

/-- Every live entry has the element its tag stands for. -/
def Named (name : CString → Int) (ors : ORSet) : Prop :=
  ∀ entry ∈ ors.entries, entry.removed = false → entry.element = name entry.tag

theorem Tagged.named {Replica : Type} {nodeId : Replica → Int} {replicas : Replica → ORSet}
    (tagged : Tagged nodeId replicas) : ∃ name, ∀ replica, Named name (replicas replica) := by
  classical
  refine ⟨fun tag => if known : ∃ entry, entry.removed = false ∧ entry.tag = tag ∧
    ∃ replica, entry ∈ (replicas replica).entries then known.choose.element else 0, ?_⟩
  intro replica entry inside live
  have known : ∃ found : ORSetEntry, found.removed = false ∧ found.tag = entry.tag ∧
      ∃ replica, found ∈ (replicas replica).entries := ⟨entry, live, rfl, replica, inside⟩
  simp only [dif_pos known]
  obtain ⟨-, same, holder, present⟩ := known.choose_spec
  exact tagged.agree replica holder entry inside _ present live same.symm

theorem Named.merge (first : Named name ors) (second : Named name other) : Named name (orsMerge ors other) := by
  intro entry inside live
  rw [orsMerge_entries] at inside
  rcases mem_adopted _ _ inside with own | others
  · exact first entry own live
  · exact second entry others live

/-- With room for all entries, every tag of the other side is there after the merge. -/
theorem tag_adopted {entry : ORSetEntry} (others entries : List ORSetEntry)
    (room : entries.length + others.length ≤ CRDT_MAX_ELEMENTS) (inside : entry ∈ others) :
    ∃ found ∈ others.foldl orsAdopt entries, found.tag = entry.tag := by
  induction others generalizing entries with
  | nil => cases inside
  | cons first rest ih =>
    rw [List.length_cons] at room
    have grown : (orsAdopt entries first).length ≤ entries.length + 1 := length_adopted_le [first] entries
    rcases List.mem_cons.mp inside with rfl | later
    · have here : ∃ found ∈ orsAdopt entries entry, found.tag = entry.tag := by
        unfold orsAdopt
        split_ifs with known space
        · obtain ⟨found, present, same⟩ := List.any_eq_true.mp known
          exact ⟨found, present, by simpa using same⟩
        · exact ⟨entry, by simp, rfl⟩
        · omega
      obtain ⟨found, present, same⟩ := here
      exact ⟨found, mem_of_adopting rest _ present, same⟩
    · exact ih (orsAdopt entries first) (by omega) later

/-- A merge contains what either side contains. -/
theorem orsContains_merge (first : Named name ors) (second : Named name other)
    (room : ors.entries.length + other.entries.length ≤ CRDT_MAX_ELEMENTS) (element : Int) :
    orsContains (orsMerge ors other) element = (orsContains ors element || orsContains other element) := by
  rw [Bool.eq_iff_iff, Bool.or_eq_true]
  constructor
  · exact orsContains_merge_cases
  · rintro (own | others)
    · exact orsContains_merge_left own
    · obtain ⟨entry, inside, live⟩ := orsContains_iff.mp others
      obtain ⟨found, present, same⟩ := tag_adopted _ _ room inside
      simp only [ORSetEntry.live, Bool.and_eq_true, decide_eq_true_eq, Bool.not_eq_true'] at live
      obtain ⟨rfl, kept⟩ := live
      have keptToo : found.removed = false := by
        rw [ORSetEntry.removed, same]
        exact kept
      rw [← orsMerge_entries] at present
      have element : found.element = entry.element := by
        rw [first.merge second found present keptToo, same, second entry inside kept]
      rw [orsContains_iff]
      exact ⟨found, present, by simp [ORSetEntry.live, element, keptToo]⟩

theorem length_orsMerge_le (ors other : ORSet) :
    (orsMerge ors other).entries.length ≤ ors.entries.length + other.entries.length := by
  rw [orsMerge_entries]
  exact length_adopted_le _ _

end Merge

/-- Merging is idempotent, commutative and associative to everyone who asks what is contained. -/
theorem orsMerge_converges {Replica : Type} [DecidableEq Replica] {nodeId : Replica → Int32}
    (distinct : Function.Injective nodeId) {replicas : Replica → ORSet}
    (reached : Reaches orsetsStep Always (orsetsInit fun replica => (nodeId replica).toInt) replicas)
    (first second third : Replica)
    (room : (replicas first).entries.length + (replicas second).entries.length + (replicas third).entries.length ≤
      CRDT_MAX_ELEMENTS) (element : Int) :
    orsContains (orsMerge (replicas first) (replicas first)) element = orsContains (replicas first) element ∧
    orsContains (orsMerge (replicas first) (replicas second)) element =
      orsContains (orsMerge (replicas second) (replicas first)) element ∧
    orsContains (orsMerge (orsMerge (replicas first) (replicas second)) (replicas third)) element =
      orsContains (orsMerge (replicas first) (orsMerge (replicas second) (replicas third))) element := by
  have ids : ∀ replica, (nodeId replica).toInt.natAbs ≤ 2147483648 := by
    intro replica
    have above := (nodeId replica).toInt_lt
    have below := (nodeId replica).le_toInt
    omega
  obtain ⟨name, named⟩ := (tagged_reached ids (fun _ _ same => distinct (Int32.toInt.inj same)) reached).named
  have left := length_orsMerge_le (replicas first) (replicas second)
  have right := length_orsMerge_le (replicas second) (replicas third)
  refine ⟨?_, ?_, ?_⟩
  · rw [Bool.eq_iff_iff]
    constructor
    · intro contained
      rcases orsContains_merge_cases contained with own | own <;> exact own
    · exact orsContains_merge_left
  · rw [orsContains_merge (named first) (named second) (by omega), orsContains_merge (named second) (named first)
      (by omega), Bool.or_comm]
  · rw [orsContains_merge ((named first).merge (named second)) (named third) (by omega),
      orsContains_merge (named first) (named second) (by omega),
      orsContains_merge (named first) ((named second).merge (named third)) (by omega),
      orsContains_merge (named second) (named third) (by omega), Bool.or_assoc]

inductive Trio where
  | first
  | second
  | third
  deriving DecidableEq, Repr

def Trio.nodeId : Trio → Int32
  | .first => 0
  | .second => 1
  | .third => 2

theorem Trio.nodeId_injective : Function.Injective Trio.nodeId := by
  intro one other same
  cases one <;> cases other <;> first | rfl | exact absurd same (by decide)

/-- The first replica has removed an element that the second one has taken over from it. -/
def mixed : Trio → ORSet :=
  [ORSetCall.add .first 5, .merge .second .first, .remove .first 5, .add .first 6, .add .third 5].foldl orsetsStep
    (orsetsInit fun replica => replica.nodeId.toInt)

theorem orsMerge_mixed :
    (mixed .first).entries.length + (mixed .second).entries.length + (mixed .third).entries.length = 4 ∧
    orsContains (orsMerge (mixed .first) (mixed .first)) 5 = orsContains (mixed .first) 5 ∧
    orsContains (orsMerge (mixed .first) (mixed .second)) 5 = orsContains (orsMerge (mixed .second) (mixed .first)) 5 ∧
    orsContains (orsMerge (orsMerge (mixed .first) (mixed .second)) (mixed .third)) 5 =
      orsContains (orsMerge (mixed .first) (orsMerge (mixed .second) (mixed .third))) 5 :=
  ⟨by decide, orsMerge_converges Trio.nodeId_injective (Reaches.ofFold _) .first .second .third (by decide) 5⟩

end MiniNetDist.SystemTheory.OrSet
