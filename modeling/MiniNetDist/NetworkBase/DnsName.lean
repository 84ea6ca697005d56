import MiniNetDist.Library.Buffer
import MiniNetDist.Library.Loop

/-! Names in DNS messages as `dns_name_decode` of `mini-network-base/src/udp_dns.c` reads them. A compression pointer
may lead anywhere, so that the loop need not end, and the second byte of one may lie behind the message. -/

namespace MiniNetDist.NetworkBase.UdpDns

open Library Relation

/-- A byte that begins a compression pointer. -/
def isPointer (labelLen : UInt8) : Bool := labelLen &&& 0xC0 = 0xC0

/-- Where the pointer with these two bytes leads. -/
def pointer (labelLen low : UInt8) : UInt16 := (labelLen &&& 0x3F).toUInt16 <<< 8 ||| low.toUInt16

/-- The local variables; `name` is what has been written, `out` bytes. -/
structure NameCursor where
  pos : Nat
  name : Bytes
  jumped : Bool
  jumpOffset : Nat
  deriving DecidableEq, Repr

/-- The bytes before the terminator, which replaces the last byte, and the offset behind the name. -/
structure DecodedName where
  name : Bytes
  nextOffset : Nat
  deriving DecidableEq, Repr

/-- Bytes are written as long as there is room for one more. -/
def emit (nameLen : UInt64) (name bytes : Bytes) : Bytes := name ++ bytes.take ((nameLen - 1).toNat - name.length)

/-- The body of the loop, or what follows it. -/
def dnsNameRound (data : Bytes) (nameLen : UInt64) (cursor : NameCursor) :
    NameCursor ⊕ Except Failure DecodedName :=
  match data[cursor.pos]? with
  | none => .inr (.error (.code (-3)))
  | some labelLen =>
    if labelLen = 0 then
      .inr (.ok ⟨cursor.name.dropLast, if cursor.jumped then cursor.jumpOffset else cursor.pos + 1⟩)
    else if isPointer labelLen then
      match data[cursor.pos + 1]? with
      | none => .inr (.error .outOfBounds)
      | some low =>
        .inl { cursor with
          pos := (pointer labelLen low).toNat
          jumped := true
          jumpOffset := if cursor.jumped then cursor.jumpOffset else cursor.pos + 2 }
    else if cursor.pos + 1 + labelLen.toNat > data.length then .inr (.error (.code (-2)))
    else
      .inl { cursor with
        pos := cursor.pos + 1 + labelLen.toNat
        name := emit nameLen (emit nameLen cursor.name ((data.drop (cursor.pos + 1)).take labelLen.toNat)) [46] }

def nameCursor (offset : Nat) : NameCursor := ⟨offset, [], false, 0⟩

/-- So many rounds of the loop. -/
def dnsNameDecode (fuel : Nat) (data : Bytes) (offset : Nat) (nameLen : UInt64) : Option (Except Failure DecodedName) :=
  Loop.run (dnsNameRound data nameLen) fuel (nameCursor offset)

section Links

/-- Where a name goes on: behind a label that ends inside the message, or where a whole pointer leads. -/
def nameHop (data : Bytes) (pos : Nat) : Option Nat :=
  match data[pos]? with
  | none => none
  | some labelLen =>
    if labelLen = 0 then none
    else if isPointer labelLen then data[pos + 1]?.map fun low => (pointer labelLen low).toNat
    else if pos + 1 + labelLen.toNat > data.length then none
    else some (pos + 1 + labelLen.toNat)

/-- The last byte of the message begins a pointer. -/
def CutPointer (data : Bytes) (pos : Nat) : Prop :=
  pos + 1 = data.length ∧ ∃ labelLen ∈ data[pos]?, isPointer labelLen = true

/-- No position of the name at an offset leads back to itself, and none is that of a pointer that is cut off. -/
def WellLinked (data : Bytes) (offset : Nat) : Prop :=
  ∀ pos, ReflTransGen (Loop.Hop (nameHop data)) offset pos →
    ¬TransGen (Loop.Hop (nameHop data)) pos pos ∧ ¬CutPointer data pos

/-- The call ends, and reads inside the message only. -/
def DecodesSafely (data : Bytes) (offset : Nat) (nameLen : UInt64) : Prop :=
  ∃ result, result ≠ .error .outOfBounds ∧ ∃ fuel, dnsNameDecode fuel data offset nameLen = some result

variable {data : Bytes} {nameLen : UInt64} {cursor next : NameCursor} {result : Except Failure DecodedName}

theorem nameHop_round (goesOn : dnsNameRound data nameLen cursor = .inl next) :
    nameHop data cursor.pos = some next.pos := by
  revert goesOn
  fun_cases dnsNameRound data nameLen cursor with
  | case4 labelLen here more points low below =>
    intro goesOn
    cases goesOn
    rw [nameHop, here]
    simp [more, points, below]
  | case6 labelLen here more plain inside =>
    intro goesOn
    cases goesOn
    rw [nameHop, here]
    simp [more, plain, inside]
  | _ => exact fun goesOn => nomatch goesOn

theorem nameHop_end (leaves : dnsNameRound data nameLen cursor = .inr result) : nameHop data cursor.pos = none := by
  revert leaves
  fun_cases dnsNameRound data nameLen cursor with
  | case1 beyond => simp [nameHop, beyond]
  | case2 here => simp [nameHop, here]
  | case3 labelLen here more points cut => simp [nameHop, here, more, points, cut]
  | case5 labelLen here more plain long => simp [nameHop, here, more, plain, long]
  | _ => exact fun leaves => nomatch leaves

/-- Only a pointer that is cut off is read beyond the end. -/
theorem round_outOfBounds_iff :
    dnsNameRound data nameLen cursor = .inr (.error .outOfBounds) ↔ CutPointer data cursor.pos := by
  constructor
  · fun_cases dnsNameRound data nameLen cursor with
    | case3 labelLen here more points cut =>
      intro _
      have inside : cursor.pos < data.length := (List.getElem?_eq_some_iff.mp here).1
      have outside : data.length ≤ cursor.pos + 1 := List.getElem?_eq_none_iff.mp cut
      exact ⟨Nat.le_antisymm inside outside, labelLen, here, points⟩
    | _ => exact fun outside => nomatch outside
  · intro ⟨last, labelLen, here, points⟩
    have more : labelLen ≠ 0 := by
      rintro rfl
      exact absurd points (by decide)
    have cut : data[cursor.pos + 1]? = none := List.getElem?_eq_none_iff.mpr (Nat.le_of_eq last.symm)
    rw [Option.mem_def] at here
    simp [dnsNameRound, here, more, points, cut]

theorem finite_hops (data : Bytes) : {pos | nameHop data pos ≠ none}.Finite := by
  apply (Set.finite_lt_nat data.length).subset
  intro pos goesOn
  by_contra outside
  have beyond : data[pos]? = none := List.getElem?_eq_none_iff.mpr (Nat.le_of_not_lt outside)
  exact goesOn (by simp [nameHop, beyond])

/-- For every message, every offset and every size of the output: the call ends without reading outside the message
exactly if the links of the name are sound. -/
theorem dnsNameDecode_safe_iff (data : Bytes) (offset : Nat) (nameLen : UInt64) :
    DecodesSafely data offset nameLen ↔ WellLinked data offset := by
  have follows : ∀ cursor next, dnsNameRound data nameLen cursor = .inl next →
      nameHop data cursor.pos = some next.pos := fun _ _ => nameHop_round
  have halts : ∀ cursor result, dnsNameRound data nameLen cursor = .inr result → nameHop data cursor.pos = none :=
    fun _ _ => nameHop_end
  have ends := Loop.exists_ends_iff follows halts (finite_hops data) (nameCursor offset)
  constructor
  · intro ⟨result, inside, ended⟩ pos passed
    refine ⟨ends.mp ⟨result, ended⟩ pos passed, ?_⟩
    intro cut
    obtain ⟨later, reached, rfl⟩ := Loop.exists_reaches follows halts (nameCursor offset) passed
    have outside := Loop.ends_iff.mpr ⟨later, reached, round_outOfBounds_iff.mpr cut⟩
    exact inside (Loop.Ends.unique ended outside)
  · intro sound
    obtain ⟨result, ended⟩ := ends.mpr fun pos passed => (sound pos passed).1
    refine ⟨result, ?_, ended⟩
    rintro rfl
    obtain ⟨last, reached, leaves⟩ := Loop.ends_iff.mp ended
    exact (sound last.pos (reached.passes follows)).2 (round_outOfBounds_iff.mp leaves)

/-- A pointer to itself is followed for ever, and one at the end of the message is read beyond it. -/
theorem dnsNameDecode_unsafe : ¬DecodesSafely [0xC0, 0x00] 0 256 ∧ ¬DecodesSafely [0xC0] 0 256 := by
  constructor
  · intro ⟨result, _, ended⟩
    have acyclic := (Loop.exists_ends_iff (fun _ _ => nameHop_round) (fun _ _ => nameHop_end)
      (finite_hops [0xC0, 0x00]) (nameCursor 0)).mp ⟨result, ended⟩
    exact acyclic 0 .refl (.single (by decide : nameHop [0xC0, 0x00] 0 = some 0))
  · intro ⟨result, inside, ended⟩
    have outside : Loop.Ends (dnsNameRound [0xC0] 256) (nameCursor 0) (.error .outOfBounds) := ⟨1, by decide⟩
    exact inside (Loop.Ends.unique ended outside)

end Links

end MiniNetDist.NetworkBase.UdpDns
