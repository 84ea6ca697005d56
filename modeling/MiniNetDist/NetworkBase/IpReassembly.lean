import Mathlib.Data.List.Flatten
import MiniNetDist.Library.Run
import MiniNetDist.NetworkBase.IpPacket

/-! Fragments that come one after the other and are put together, in `mini-network-base/src/ip_packet.c`. -/

namespace MiniNetDist.NetworkBase.IpPacket

open Library

structure IPFragmentBuffer where
  fragments : List IPFragment
  totalAssembled : Nat
  packetId : BitVec 16
  complete : Bool
  deriving DecidableEq, Repr

def ipFragmentBufferInit : IPFragmentBuffer := ⟨[], 0, 0, false⟩

/-- The memory the payload is put into, and the number in `assembled_len`. -/
structure Assembled where
  memory : Bytes
  length : Nat
  deriving DecidableEq, Repr

/-- The buffer with one more fragment. -/
def IPFragmentBuffer.store (order : ByteOrder) (buf : IPFragmentBuffer) (frag : IPFragment) : IPFragmentBuffer :=
  let lastHdr := IPHeader.ofMemory order frag.data
  { buf with
    fragments := buf.fragments ++ [frag]
    packetId := frag.packetId
    totalAssembled := if frag.moreFragments then buf.totalAssembled
      else (frag.offset.toNat * 8 + sizeDiff frag.length (ipIhl lastHdr * 4)) % 2 ^ 64 }

structure Reassembled where
  code : Int
  buf : IPFragmentBuffer
  assembled : Option Assembled
  deriving DecidableEq, Repr

/-- The fragments are sorted and their payloads copied, with headers of the length of the first that came. -/
def assemble (hlen : Nat) (buf : IPFragmentBuffer) (assembled : Option Assembled) : Option Reassembled :=
  let buf := { buf with fragments := buf.fragments.mergeSort inOrder }
  match assembled with
  | none => some ⟨0, { buf with complete := true }, none⟩
  | some ⟨memory, length⟩ =>
    match copyPayloads hlen length 0 0 memory buf.fragments with
    | none => none
    | some (code, total, memory) =>
      if code < 0 then some ⟨code, buf, some ⟨memory, length⟩⟩
      else some ⟨0, { buf with complete := true }, some ⟨memory, total⟩⟩

/-- The result of a call, with `assembled` for the two pointers if they are not null. There is no result for an access
outside the memory. -/
def ipReassemble (order : ByteOrder) (buf : IPFragmentBuffer) (frag : IPFragment) (assembled : Option Assembled) :
    Option Reassembled :=
  if buf.fragments.length ≥ IP_MAX_FRAGMENTS then some ⟨-2, buf, assembled⟩
  else if buf.fragments.any (fun other => other.offset = frag.offset) then some ⟨0, buf, assembled⟩
  else
    let first := buf.fragments.headD frag
    if first.data.length < headerSize ∨ frag.data.length < headerSize then none
    else
      let firstHdr := IPHeader.ofMemory order first.data
      let buf := buf.store order frag
      if buf.fragments.all IPFragment.moreFragments then some ⟨1, buf, assembled⟩
      else assemble (ipIhl firstHdr * 4) buf assembled

/-- A buffer, the memory for the payload, and the fragments that have been delivered. -/
structure Reassembly where
  buf : IPFragmentBuffer
  memory : Bytes
  delivered : List IPFragment

/-- A fragment that comes, with the number in `assembled_len`. -/
structure Delivery where
  frag : IPFragment
  room : Nat

def Reassembly.call (order : ByteOrder) (state : Reassembly) (delivery : Delivery) : Option Reassembled :=
  ipReassemble order state.buf delivery.frag (some ⟨state.memory, delivery.room⟩)

def Reassembly.deliver (order : ByteOrder) (state : Reassembly) (delivery : Delivery) : Reassembly :=
  match state.call order delivery with
  | none => state
  | some result => {
      buf := result.buf
      memory := result.assembled.elim state.memory Assembled.memory
      delivered := delivery.frag :: state.delivered }

def Reassembly.start (memory : Bytes) : Reassembly := ⟨ipFragmentBufferInit, memory, []⟩

def payloadOf (order : ByteOrder) (packet : Bytes) : Bytes := packet.drop (ipIhl (.ofMemory order packet) * 4)

/-- One of the fragments comes, with no more than the memory there is. -/
def OneOf (frags : List IPFragment) (size : Nat) (delivery : Delivery) : Prop :=
  delivery.frag ∈ frags ∧ delivery.room ≤ size

/-- The call stays within its memory. If it reports completion, then all fragments have come, and the memory has the
payload. -/
def Waits (order : ByteOrder) (payload : Bytes) (frags : List IPFragment) (state : Reassembly) (delivery : Delivery) :
    Prop :=
  ∃ result assembled, state.call order delivery = some result ∧ result.assembled = some assembled ∧
    (result.code = 0 → result.buf.complete = true →
      (∀ frag ∈ frags, frag ∈ delivery.frag :: state.delivered) ∧ payload <+: assembled.memory ∧
        (delivery.frag ∉ state.delivered → assembled.length = payload.length))

/-- The last fragment comes when all others have come. -/
def LastComesLast (frags : List IPFragment) (state : Reassembly) (delivery : Delivery) : Prop :=
  delivery.frag.moreFragments = false → ∀ frag ∈ frags, frag ∈ delivery.frag :: state.delivered

section Stored

variable {order : ByteOrder} {orig : IPHeader} {payload : Bytes} {frags : List IPFragment} {frag other : IPFragment}
  {state : Reassembly} {delivery : Delivery}

theorem Fragments.distinct (fragments : Fragments order orig payload frags) :
    (frags.map fun frag => frag.offset.toNat).Nodup :=
  List.pairwise_map.mpr (fragments.sorted.imp Nat.ne_of_lt)

theorem Fragments.offset_inj (fragments : Fragments order orig payload frags) (among : frag ∈ frags)
    (amongToo : other ∈ frags) (same : frag.offset = other.offset) : frag = other :=
  List.inj_on_of_nodup_map fragments.distinct among amongToo (congrArg BitVec.toNat same)

theorem Fragments.ihl (fragments : Fragments order orig payload frags) (among : frag ∈ frags) :
    ipIhl (.ofMemory order frag.data) = ipIhl orig := by
  obtain ⟨totalLength, flagsFragOffset, checksum, alike⟩ := fragments.alike frag among
  rw [alike]
  rfl

theorem Fragments.long (fragments : Fragments order orig payload frags) (among : frag ∈ frags) :
    headerSize ≤ frag.data.length := by
  obtain ⟨exactly, headed, -⟩ := fragments.sized frag among
  exact exactly ▸ Nat.le_trans fragments.headed headed

/-- The buffer has what has been delivered, each fragment once. -/
structure Stored (frags : List IPFragment) (state : Reassembly) : Prop where
  stored : ∀ frag, frag ∈ state.buf.fragments ↔ frag ∈ state.delivered
  distinct : state.buf.fragments.Nodup
  known : ∀ frag ∈ state.delivered, frag ∈ frags

/-- The fragments that have come, in order, with another one. -/
def arrived (frags : List IPFragment) (state : Reassembly) (frag : IPFragment) : List IPFragment :=
  frags.filter fun other => other ∈ frag :: state.delivered

theorem mem_arrived (holds : Stored frags state) (among : frag ∈ frags) :
    other ∈ arrived frags state frag ↔ other ∈ frag :: state.delivered := by
  rw [arrived, List.mem_filter, decide_eq_true_iff]
  refine ⟨And.right, ?_⟩
  intro come
  refine ⟨?_, come⟩
  rcases List.mem_cons.mp come with rfl | before
  · exact among
  · exact holds.known other before

theorem arrived_perm (fragments : Fragments order orig payload frags) (holds : Stored frags state)
    (among : frag ∈ frags) (fresh : frag ∉ state.delivered) :
    (state.buf.fragments ++ [frag]).Perm (arrived frags state frag) := by
  have distinct : frags.Nodup := fragments.distinct.of_map _
  have unstored : frag ∉ state.buf.fragments := mt (holds.stored frag).mp fresh
  have together : (frag :: state.buf.fragments).Nodup := List.nodup_cons.mpr ⟨unstored, holds.distinct⟩
  refine (List.perm_append_singleton frag state.buf.fragments).trans ?_
  apply (List.perm_ext_iff_of_nodup together (distinct.filter _)).mpr
  intro other
  exact (List.mem_cons.trans (or_congr Iff.rfl (holds.stored other))).trans
    (List.mem_cons.symm.trans (mem_arrived holds among).symm)

/-- There is a place for every fragment that has not come. -/
theorem Stored.room (fragments : Fragments order orig payload frags) (holds : Stored frags state)
    (among : frag ∈ frags) (fresh : frag ∉ state.delivered) : state.buf.fragments.length < IP_MAX_FRAGMENTS := by
  have size := (arrived_perm fragments holds among fresh).length_eq
  have most : (arrived frags state frag).length ≤ frags.length := List.length_filter_le _ _
  rw [List.length_append, List.length_singleton] at size
  exact Nat.lt_of_lt_of_le (by omega) fragments.few

/-- The parts that have come are no more than the payload. -/
theorem arrived_parts (fragments : Fragments order orig payload frags) (state : Reassembly) (frag : IPFragment) :
    ((arrived frags state frag).flatMap (IPFragment.part (ipIhl orig * 4))).length ≤ payload.length := by
  have fewer : (arrived frags state frag).Sublist frags := List.filter_sublist
  exact Nat.le_trans (fewer.flatMap _).length_le fragments.begins.length_le

theorem arrived_all (all : ∀ other ∈ frags, other ∈ frag :: state.delivered) : arrived frags state frag = frags :=
  List.filter_eq_self.mpr fun other among => decide_eq_true (all other among)

end Stored

section Calls

variable {order : ByteOrder} {orig : IPHeader} {payload memory : Bytes} {frags items : List IPFragment}
  {room hlen : Nat} {buf : IPFragmentBuffer} {state : Reassembly} {delivery : Delivery}

/-- The payloads of fragments that arrived are put together, or the room is not enough. -/
theorem assemble_cases (sorted : items.Pairwise fun first second => first.offset.toNat < second.offset.toNat)
    (same : buf.fragments.Perm items) (sized : ∀ frag ∈ items, frag.Sized hlen)
    (few : (items.flatMap (IPFragment.part hlen)).length ≤ IP_MAX_PACKET) (inside : room ≤ memory.length) :
    ∃ after : Bytes, after.length = memory.length ∧
      (items.flatMap (IPFragment.part hlen) <+: after ∧ assemble hlen buf (some ⟨memory, room⟩) =
          some ⟨0, { buf with fragments := items, complete := true },
            some ⟨after, (items.flatMap (IPFragment.part hlen)).length⟩⟩ ∨
        room < (items.flatMap (IPFragment.part hlen)).length ∧ assemble hlen buf (some ⟨memory, room⟩) =
          some ⟨-3, { buf with fragments := items }, some ⟨after, room⟩⟩) := by
  have done : ¬(0 : Int) < 0 := by decide
  by_cases enough : (items.flatMap (IPFragment.part hlen)).length ≤ room
  · have within : 0 + (items.flatMap (IPFragment.part hlen)).length ≤ room := by omega
    have nothing : [] <+: memory := List.nil_prefix
    obtain ⟨after, copied, kept, begins⟩ := copyPayloads_enough sized nothing rfl within (by omega)
    refine ⟨after, kept, .inl ⟨begins, ?_⟩⟩
    simp only [assemble, sorted_arranged sorted same, copied, if_neg done, Nat.zero_add]
  · have beyond : room < 0 + (items.flatMap (IPFragment.part hlen)).length := by omega
    have whole : 0 + room ≤ memory.length := by omega
    obtain ⟨copied, after, stopped, kept⟩ := copyPayloads_short sized (Nat.zero_le room) whole beyond (by omega)
    have failed : (-3 : Int) < 0 := by decide
    refine ⟨after, kept, .inr ⟨by omega, ?_⟩⟩
    simp only [assemble, sorted_arranged sorted same, stopped, if_pos failed]

theorem deliver_eq {code : Int} {after : Bytes} {length : Nat}
    (called : state.call order delivery = some ⟨code, buf, some ⟨after, length⟩⟩) :
    state.deliver order delivery = ⟨buf, after, delivery.frag :: state.delivered⟩ := by
  rw [Reassembly.deliver, called]
  rfl

/-- A fragment that has come before changes nothing. -/
theorem call_again (order : ByteOrder) (holds : Stored frags state) (again : delivery.frag ∈ state.delivered) :
    ∃ code, state.call order delivery = some ⟨code, state.buf, some ⟨state.memory, delivery.room⟩⟩ := by
  have found : state.buf.fragments.any (fun other => other.offset = delivery.frag.offset) = true :=
    List.any_eq_true.mpr ⟨delivery.frag, (holds.stored _).mpr again, decide_eq_true rfl⟩
  rw [Reassembly.call, ipReassemble, if_pos found]
  split
  · exact ⟨-2, rfl⟩
  · exact ⟨0, rfl⟩

/-- What a fragment does that has not come before. -/
theorem call_fresh (fragments : Fragments order orig payload frags) (holds : Stored frags state)
    (small : payload.length ≤ IP_MAX_PACKET) (among : delivery.frag ∈ frags)
    (inside : delivery.room ≤ state.memory.length) (fresh : delivery.frag ∉ state.delivered) :
    ∃ (buf : IPFragmentBuffer) (after : Bytes), after.length = state.memory.length ∧
      buf.fragments.Perm (arrived frags state delivery.frag) ∧
      ((∀ frag ∈ arrived frags state delivery.frag, frag.moreFragments = true) ∧
          buf.complete = state.buf.complete ∧
          state.call order delivery = some ⟨1, buf, some ⟨after, delivery.room⟩⟩ ∨
        (∃ frag ∈ arrived frags state delivery.frag, frag.moreFragments = false) ∧
          (((arrived frags state delivery.frag).flatMap (IPFragment.part (ipIhl orig * 4)) <+: after ∧
              buf.complete = true ∧ state.call order delivery = some ⟨0, buf, some ⟨after,
                ((arrived frags state delivery.frag).flatMap (IPFragment.part (ipIhl orig * 4))).length⟩⟩) ∨
            delivery.room < payload.length ∧ buf.complete = state.buf.complete ∧
              state.call order delivery = some ⟨-3, buf, some ⟨after, delivery.room⟩⟩)) := by
  have same : (state.buf.store order delivery.frag).fragments.Perm (arrived frags state delivery.frag) :=
    arrived_perm fragments holds among fresh
  have space := holds.room fragments among fresh
  have unknown : ¬state.buf.fragments.any (fun other => other.offset = delivery.frag.offset) = true := by
    rw [List.any_eq_true]
    rintro ⟨other, before, equal⟩
    have come := (holds.stored other).mp before
    have both := fragments.offset_inj (holds.known other come) among (of_decide_eq_true equal)
    exact fresh (both ▸ come)
  have first : state.buf.fragments.headD delivery.frag ∈ frags := by
    cases stored : state.buf.fragments with
    | nil => exact among
    | cons first others =>
      have inBuffer : first ∈ state.buf.fragments := stored ▸ List.mem_cons_self ..
      exact holds.known first ((holds.stored first).mp inBuffer)
  have long : ¬((state.buf.fragments.headD delivery.frag).data.length < headerSize ∨
      delivery.frag.data.length < headerSize) := by
    have firstLong := fragments.long first
    have itsLong := fragments.long among
    omega
  simp only [Reassembly.call, ipReassemble, if_neg (Nat.not_le_of_lt space), if_neg unknown, if_neg long,
    fragments.ihl first]
  split
  · rename_i waiting
    refine ⟨state.buf.store order delivery.frag, state.memory, rfl, same, .inl ⟨?_, rfl, rfl⟩⟩
    intro frag come
    exact List.all_eq_true.mp waiting frag (same.mem_iff.mpr come)
  · rename_i ended
    have last : ∃ frag ∈ arrived frags state delivery.frag, frag.moreFragments = false := by
      rw [Bool.not_eq_true, List.all_eq_false] at ended
      obtain ⟨frag, come, noMore⟩ := ended
      exact ⟨frag, same.mem_iff.mp come, Bool.eq_false_iff.mpr noMore⟩
    have parts := arrived_parts fragments state delivery.frag
    have sorted := fragments.sorted.filter fun other => decide (other ∈ delivery.frag :: state.delivered)
    have sized (frag : IPFragment) (come : frag ∈ arrived frags state delivery.frag) : frag.Sized (ipIhl orig * 4) :=
      fragments.sized frag (List.mem_of_mem_filter come)
    obtain ⟨after, kept, ⟨begins, whole⟩ | ⟨short, failed⟩⟩ :=
      assemble_cases sorted same sized (Nat.le_trans parts small) inside
    · exact ⟨_, after, kept, .refl _, .inr ⟨last, .inl ⟨begins, rfl, whole⟩⟩⟩
    · refine ⟨{ state.buf.store order delivery.frag with fragments := arrived frags state delivery.frag }, after, kept,
        .refl _, .inr ⟨last, .inr ⟨Nat.lt_of_lt_of_le short parts, rfl, failed⟩⟩⟩

end Calls

section Runs

variable {order : ByteOrder} {orig : IPHeader} {payload memory : Bytes} {frags : List IPFragment} {size : Nat}
  {state : Reassembly} {delivery : Delivery}

/-- While the last fragment comes last, nothing is complete before all fragments have come, and then the memory has the
payload. -/
structure Held (payload : Bytes) (frags : List IPFragment) (size : Nat) (state : Reassembly) : Prop extends
    Stored frags state where
  space : state.memory.length = size
  closed : ∀ last ∈ state.delivered, last.moreFragments = false → ∀ frag ∈ frags, frag ∈ state.delivered
  finished : state.buf.complete = true → (∀ frag ∈ frags, frag ∈ state.delivered) ∧ payload <+: state.memory

theorem held_start (payload : Bytes) (frags : List IPFragment) (memory : Bytes) :
    Held payload frags memory.length (.start memory) where
  stored := fun _ => Iff.rfl
  distinct := .nil
  known := fun _ come => nomatch come
  space := rfl
  closed := fun _ come => nomatch come
  finished := fun complete => nomatch complete

/-- A last fragment among those that have come, with the one that comes, means that all have. -/
theorem Held.all (holds : Held payload frags size state) (last : LastComesLast frags state delivery)
    (ended : ∃ frag ∈ delivery.frag :: state.delivered, frag.moreFragments = false) :
    ∀ frag ∈ frags, frag ∈ delivery.frag :: state.delivered := by
  obtain ⟨frag, come, noMore⟩ := ended
  rcases List.mem_cons.mp come with rfl | before
  · exact last noMore
  · exact fun other among => List.mem_cons_of_mem _ (holds.closed frag before noMore other among)

/-- With a last fragment, what has come is the payload. -/
theorem Held.whole (fragments : Fragments order orig payload frags) (holds : Held payload frags size state)
    (last : LastComesLast frags state delivery) (among : delivery.frag ∈ frags)
    (ended : ∃ frag ∈ arrived frags state delivery.frag, frag.moreFragments = false) :
    (∀ frag ∈ frags, frag ∈ delivery.frag :: state.delivered) ∧
      (arrived frags state delivery.frag).flatMap (IPFragment.part (ipIhl orig * 4)) = payload := by
  obtain ⟨frag, come, noMore⟩ := ended
  have all := holds.all last ⟨frag, (mem_arrived holds.toStored among).mp come, noMore⟩
  rw [arrived_all all] at come ⊢
  exact ⟨all, fragments.whole frag come noMore⟩

section Step

variable (fragments : Fragments order orig payload frags) (small : payload.length ≤ IP_MAX_PACKET)
  (holds : Held payload frags size state) (one : OneOf frags size delivery)

include fragments small holds one

theorem Held.waits (last : LastComesLast frags state delivery) : Waits order payload frags state delivery := by
  by_cases again : delivery.frag ∈ state.delivered
  · obtain ⟨code, result⟩ := call_again order holds.toStored again
    refine ⟨_, _, result, rfl, ?_⟩
    intro _ complete
    obtain ⟨all, begins⟩ := holds.finished complete
    exact ⟨fun frag among => List.mem_cons_of_mem _ (all frag among), begins, fun fresh => absurd again fresh⟩
  · obtain ⟨buf, after, -, -, ⟨-, -, result⟩ | ⟨ended, ⟨begins, -, result⟩ | ⟨-, -, result⟩⟩⟩ :=
      call_fresh fragments holds.toStored small one.1 (holds.space ▸ one.2) again
    · exact ⟨_, _, result, rfl, fun zero => nomatch zero⟩
    · obtain ⟨all, whole⟩ := holds.whole fragments last one.1 ended
      rw [whole] at begins result
      exact ⟨_, _, result, rfl, fun _ _ => ⟨all, begins, fun _ => rfl⟩⟩
    · exact ⟨_, _, result, rfl, fun zero => nomatch zero⟩

theorem Held.deliver (last : LastComesLast frags state delivery) :
    Held payload frags size (state.deliver order delivery) := by
  by_cases again : delivery.frag ∈ state.delivered
  · have same (frag : IPFragment) : frag ∈ delivery.frag :: state.delivered ↔ frag ∈ state.delivered :=
      List.mem_cons.trans (or_iff_right_of_imp fun equal => equal ▸ again)
    obtain ⟨code, result⟩ := call_again order holds.toStored again
    rw [deliver_eq result]
    constructor
    case toStored =>
      constructor
      case stored => exact fun frag => (holds.stored frag).trans (same frag).symm
      case distinct => exact holds.distinct
      case known => exact fun frag come => holds.known frag ((same frag).mp come)
    case space => exact holds.space
    case closed =>
      intro frag come noMore other among
      exact (same other).mpr (holds.closed frag ((same frag).mp come) noMore other among)
    case finished =>
      intro complete
      obtain ⟨all, begins⟩ := holds.finished complete
      exact ⟨fun frag among => (same frag).mpr (all frag among), begins⟩
  · have distinct : (arrived frags state delivery.frag).Nodup := (fragments.distinct.of_map _).filter _
    have unfinished : ¬state.buf.complete = true :=
      fun complete => again ((holds.finished complete).1 delivery.frag one.1)
    have next (buf : IPFragmentBuffer) (after : Bytes) (kept : after.length = state.memory.length)
        (same : buf.fragments.Perm (arrived frags state delivery.frag))
        (finished : buf.complete = true →
          (∀ frag ∈ frags, frag ∈ delivery.frag :: state.delivered) ∧ payload <+: after) :
        Held payload frags size ⟨buf, after, delivery.frag :: state.delivered⟩ := by
      constructor
      case toStored =>
        constructor
        case stored => exact fun frag => same.mem_iff.trans (mem_arrived holds.toStored one.1)
        case distinct => exact same.nodup_iff.mpr distinct
        case known => exact fun frag come => List.mem_of_mem_filter ((mem_arrived holds.toStored one.1).mpr come)
      case space => exact kept.trans holds.space
      case closed => exact fun frag come noMore => holds.all last ⟨frag, come, noMore⟩
      case finished => exact finished
    obtain ⟨buf, after, kept, same, ⟨-, before, result⟩ | ⟨ended, ⟨begins, -, result⟩ | ⟨-, before, result⟩⟩⟩ :=
      call_fresh fragments holds.toStored small one.1 (holds.space ▸ one.2) again
    · rw [deliver_eq result]
      exact next buf after kept same fun complete => absurd (before ▸ complete) unfinished
    · obtain ⟨all, whole⟩ := holds.whole fragments last one.1 ended
      rw [deliver_eq result]
      exact next buf after kept same fun _ => ⟨all, whole ▸ begins⟩
    · rw [deliver_eq result]
      exact next buf after kept same fun complete => absurd (before ▸ complete) unfinished

theorem Held.last_of_waits (roomy : payload.length ≤ delivery.room) (waits : Waits order payload frags state delivery) :
    LastComesLast frags state delivery := by
  intro noMore
  by_cases again : delivery.frag ∈ state.delivered
  · exact fun frag among => List.mem_cons_of_mem _ (holds.closed delivery.frag again noMore frag among)
  · obtain ⟨done, assembled, called, -, reported⟩ := waits
    obtain ⟨buf, after, -, -, ⟨more, -, result⟩ | ⟨-, ⟨-, complete, result⟩ | ⟨short, -, -⟩⟩⟩ :=
      call_fresh fragments holds.toStored small one.1 (holds.space ▸ one.2) again
    · have come := more delivery.frag ((mem_arrived holds.toStored one.1).mpr (List.mem_cons_self ..))
      exact absurd (noMore.symm.trans come) (by decide)
    · cases called.symm.trans result
      exact (reported rfl complete).1
    · exact absurd short (Nat.not_lt_of_le roomy)

end Step

/-- In every run in which the last fragment comes last, completion is reported with the whole payload only. With room
for the payload these are the only such runs. -/
theorem ipReassemble_exact (order : ByteOrder) (packet memory : Bytes) (mtu : BitVec 16) (frags : List IPFragment)
    (deliveries : List Delivery) (made : ipFragment order packet mtu = .ok frags) (fits : packet.length ≤ IP_MAX_PACKET)
    (within : ∀ delivery ∈ deliveries, OneOf frags memory.length delivery) :
    (Permitted (Reassembly.deliver order) (LastComesLast frags) (.start memory) deliveries →
      Permitted (Reassembly.deliver order) (Waits order (payloadOf order packet) frags) (.start memory) deliveries) ∧
    ((∀ delivery ∈ deliveries, (payloadOf order packet).length ≤ delivery.room) →
      Permitted (Reassembly.deliver order) (Waits order (payloadOf order packet) frags) (.start memory) deliveries →
      Permitted (Reassembly.deliver order) (LastComesLast frags) (.start memory) deliveries) := by
  have fragments : Fragments order (.ofMemory order packet) (payloadOf order packet) frags :=
    ipFragment_fragments made rfl fits
  have small : (payloadOf order packet).length ≤ IP_MAX_PACKET := by
    rw [payloadOf, List.length_drop]
    exact Nat.le_trans (Nat.sub_le _ _) fits
  have fresh := held_start (payloadOf order packet) frags memory
  have domain : Permitted (Reassembly.deliver order) (fun _ => OneOf frags memory.length) (.start memory) deliveries :=
    .ofForall deliveries within
  constructor
  · intro last
    apply Permitted.ofInvariant deliveries (domain.and deliveries last) fresh
    · exact fun state delivery holds allowed => holds.deliver fragments small allowed.1 allowed.2
    · exact fun state delivery holds allowed => holds.waits fragments small allowed.1 allowed.2
  · intro roomy waits
    refine (Permitted.congr deliveries (domain.and deliveries (.ofForall deliveries roomy)) fresh ?_ ?_).mp waits
    · intro state delivery holds ⟨one, room⟩ allowed
      exact holds.deliver fragments small one (holds.last_of_waits fragments small one room allowed)
    · intro state delivery holds ⟨one, room⟩
      exact ⟨holds.last_of_waits fragments small one room, holds.waits fragments small one⟩

/-- A packet with nine bytes of payload, which two fragments of 28 bytes have. -/
def shortPacket : Bytes := 69 :: List.replicate 28 0

def shortFragment (offset : Nat) : IPFragment :=
  fragmentAt .little (.ofMemory .little shortPacket) (shortPacket.drop headerSize) 8 offset

theorem ipFragment_shortPacket : ipFragment .little shortPacket 28 = .ok [shortFragment 0, shortFragment 8] :=
  ipFragment_standard rfl (by decide) (by decide) (by decide)

/-- Both fragments in order. -/
theorem ipReassemble_exact_inOrder :
    Permitted (Reassembly.deliver .little)
      (Waits .little (payloadOf .little shortPacket) [shortFragment 0, shortFragment 8]) (.start (List.replicate 9 7))
      [⟨shortFragment 0, 9⟩, ⟨shortFragment 8, 9⟩] := by
  have within : ∀ delivery ∈ [⟨shortFragment 0, 9⟩, ⟨shortFragment 8, 9⟩],
      OneOf [shortFragment 0, shortFragment 8] 9 delivery :=
    List.forall_mem_cons.mpr ⟨⟨List.mem_cons_self .., Nat.le_refl 9⟩,
      List.forall_mem_singleton.mpr ⟨List.mem_cons_of_mem _ (List.mem_cons_self ..), Nat.le_refl 9⟩⟩
  have exactly := ipReassemble_exact .little shortPacket (List.replicate 9 7) 28 _ _ ipFragment_shortPacket
    (by decide) within
  refine exactly.1 ⟨fun last => absurd last (by decide), ?_, trivial⟩
  have come : ((Reassembly.start (List.replicate 9 7)).deliver .little ⟨shortFragment 0, 9⟩).delivered =
    [shortFragment 0] := rfl
  intro _ frag among
  rw [come]
  exact (List.Perm.swap _ _ _).mem_iff.mp among

/-- The second fragment alone completes the packet. -/
theorem ipReassemble_early :
    ipFragment .little shortPacket 28 = .ok [shortFragment 0, shortFragment 8] ∧
      (∀ delivery ∈ [⟨shortFragment 8, 9⟩], OneOf [shortFragment 0, shortFragment 8] 9 delivery) ∧
      ¬Permitted (Reassembly.deliver .little)
        (Waits .little (payloadOf .little shortPacket) [shortFragment 0, shortFragment 8]) (.start (List.replicate 9 7))
        [⟨shortFragment 8, 9⟩] := by
  have one : OneOf [shortFragment 0, shortFragment 8] 9 ⟨shortFragment 8, 9⟩ :=
    ⟨List.mem_cons_of_mem _ (List.mem_cons_self ..), Nat.le_refl 9⟩
  refine ⟨ipFragment_shortPacket, List.forall_mem_singleton.mpr one, ?_⟩
  intro ⟨waits, _⟩
  have fragments := ipFragment_fragments ipFragment_shortPacket rfl (by decide)
  have last := (held_start _ _ (List.replicate 9 7)).last_of_waits fragments (by decide) one (Nat.le_refl 9) waits
  have come := last rfl (shortFragment 0) (List.mem_cons_self ..)
  exact absurd (List.mem_singleton.mp come) (by decide)

end Runs

end MiniNetDist.NetworkBase.IpPacket
