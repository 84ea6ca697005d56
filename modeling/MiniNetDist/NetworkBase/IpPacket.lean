import MiniNetDist.Library.Buffer
import MiniNetDist.Library.Memory
import MiniNetDist.Library.Pieces

/-! Fragments of packets in `mini-network-base/src/ip_packet.c`, and packets put together from all fragments at once.
The header is copied between the structure and the packet as it lies in memory, in the byte order of the machine. -/

namespace MiniNetDist.NetworkBase.IpPacket

open Library

def IP_FLAG_MF : BitVec 16 := 0x2000
def IP_MAX_FRAGMENTS : Nat := 64
def IP_MAX_PACKET : Nat := 65535

/-- `sizeof(IPHeader)`. -/
def headerSize : Nat := 20

inductive ByteOrder where
  | big
  | little
  deriving DecidableEq, Repr

structure IPHeader where
  versionIhl : UInt8
  tos : UInt8
  totalLength : BitVec 16
  id : BitVec 16
  flagsFragOffset : BitVec 16
  ttl : UInt8
  protocol : UInt8
  checksum : BitVec 16
  srcAddr : BitVec 32
  dstAddr : BitVec 32
  deriving DecidableEq, Repr

/-- The bytes of a number with the most significant one first, as they lie in memory, and back. -/
def ByteOrder.arrange (order : ByteOrder) (bytes : Bytes) : Bytes :=
  match order with
  | .big => bytes
  | .little => bytes.reverse

def ByteOrder.store (order : ByteOrder) {width : Nat} (value : BitVec width) (count : Nat) : Bytes :=
  order.arrange (bytesOf value count)

def ByteOrder.load (order : ByteOrder) (width : Nat) (bytes : Bytes) : BitVec width :=
  joinBytes width (order.arrange bytes)

/-- The structure as it lies in memory. -/
def IPHeader.toMemory (order : ByteOrder) (hdr : IPHeader) : Bytes :=
  [hdr.versionIhl, hdr.tos] ++ order.store hdr.totalLength 2 ++ order.store hdr.id 2 ++
    order.store hdr.flagsFragOffset 2 ++ [hdr.ttl, hdr.protocol] ++ order.store hdr.checksum 2 ++
    order.store hdr.srcAddr 4 ++ order.store hdr.dstAddr 4

/-- The structure that is copied from memory. -/
def IPHeader.ofMemory (order : ByteOrder) (memory : Bytes) : IPHeader where
  versionIhl := memory.getD 0 0
  tos := memory.getD 1 0
  totalLength := order.load 16 ((memory.drop 2).take 2)
  id := order.load 16 ((memory.drop 4).take 2)
  flagsFragOffset := order.load 16 ((memory.drop 6).take 2)
  ttl := memory.getD 8 0
  protocol := memory.getD 9 0
  checksum := order.load 16 ((memory.drop 10).take 2)
  srcAddr := order.load 32 ((memory.drop 12).take 4)
  dstAddr := order.load 32 ((memory.drop 16).take 4)

def ipIhl (hdr : IPHeader) : Nat := (hdr.versionIhl &&& 0x0F).toNat

/-- The sum of the data in words of 16 bits. -/
def checksumWords : BitVec 32 → Bytes → BitVec 32
  | sum, high :: low :: data => checksumWords (sum + (widen 32 high <<< 8 ||| widen 32 low)) data
  | sum, [last] => sum + widen 32 last <<< 8
  | sum, [] => sum

/-- One round of the loop that adds the carries, or none if there are no carries. -/
def foldCarries (sum : BitVec 32) : BitVec 32 := if sum >>> 16 = 0 then sum else (sum &&& 0xFFFF#32) + sum >>> 16

/-- After three rounds there are no carries. -/
def ipChecksum (data : Bytes) : BitVec 16 :=
  (~~~foldCarries (foldCarries (foldCarries (checksumWords 0 data)))).setWidth 16

def ipChecksumHeader (order : ByteOrder) (hdr : IPHeader) : BitVec 16 :=
  ipChecksum ({ hdr with checksum := 0 }.toMemory order)

structure IPFragment where
  data : Bytes
  length : Nat
  offset : BitVec 16
  moreFragments : Bool
  packetId : BitVec 16
  deriving DecidableEq, Repr

/-- A difference of two values of `size_t`. -/
def sizeDiff (left right : Nat) : Nat := (left + 2 ^ 64 - right) % 2 ^ 64

/-- The fragment with a chunk of the payload from an offset on. -/
def fragmentAt (order : ByteOrder) (origHdr : IPHeader) (payload : Bytes) (maxPayload offset : Nat) : IPFragment :=
  let chunk := min (payload.length - offset) maxPayload
  let fhdr := { origHdr with
    totalLength := .ofNat 16 (headerSize + chunk)
    flagsFragOffset := BitVec.ofNat 16 (offset / 8) ||| (if offset + chunk < payload.length then IP_FLAG_MF else 0)
    checksum := 0 }
  let fhdr := { fhdr with checksum := ipChecksumHeader order fhdr }
  { data := fhdr.toMemory order ++ (payload.drop offset).take chunk
    length := fhdr.totalLength.toNat
    offset := .ofNat 16 (offset / 8)
    moreFragments := offset + chunk < payload.length
    packetId := origHdr.id }

/-- The loop of `ip_fragment`, with the number of fragments that may still be made. -/
def fragmentLoop (order : ByteOrder) (origHdr : IPHeader) (payload : Bytes) (maxPayload : Nat) :
    Nat → Nat → List IPFragment
  | 0, _ => []
  | left + 1, offset =>
    if offset < payload.length then
      fragmentAt order origHdr payload maxPayload offset ::
        fragmentLoop order origHdr payload maxPayload left (offset + min (payload.length - offset) maxPayload)
    else []

/-- The fragments for the return value 0, where memory can be had for them. A header of another size than the structure
is copied beyond it, or in part. -/
def ipFragment (order : ByteOrder) (packet : Bytes) (mtu : BitVec 16) : Except Failure (List IPFragment) :=
  if packet.length < headerSize then .error (.code (-2))
  else
    let origHdr := IPHeader.ofMemory order packet
    let headerLen := ipIhl origHdr * 4
    let payloadLen := sizeDiff packet.length headerLen
    if payloadLen = 0 then .ok [⟨packet, packet.length, 0, false, origHdr.id⟩]
    else
      let maxPayload := sizeDiff mtu.toNat headerLen / 8 * 8
      if maxPayload = 0 then .error (.code (-4))
      else if headerLen ≠ headerSize then .error .outOfBounds
      else .ok (fragmentLoop order origHdr (packet.drop headerLen) maxPayload IP_MAX_FRAGMENTS 0)

/-- `compare_frags_by_offset` does not put the second fragment before the first. -/
def inOrder (first second : IPFragment) : Bool := first.offset.toNat ≤ second.offset.toNat

/-- The loop that copies the payloads of fragments into memory from `start` on, up to a capacity: the return value, the
number of bytes, and the memory. There is no result for an access outside. -/
def copyPayloads (hlen capacity start : Nat) : Nat → Bytes → List IPFragment → Option (Int × Nat × Bytes)
  | total, memory, [] => some (0, total, memory)
  | total, memory, frag :: frags =>
    let payload := sizeDiff frag.length hlen
    if (total + payload) % 2 ^ 64 > capacity then some (-3, total, memory)
    else if frag.data.length < hlen + payload ∨ memory.length < start + total + payload then none
    else
      copyPayloads hlen capacity start (total + payload)
        (Memory.write memory (start + total) ((frag.data.drop hlen).take payload)) frags

/-- The packet for the return value 0, in memory with room for as many bytes as it has. -/
def ipReassemblePacket (order : ByteOrder) (frags : List IPFragment) (packet : Bytes) : Except Failure Bytes :=
  match frags.mergeSort inOrder with
  | [] => .error (.code (-2))
  | first :: others =>
    if first.data.length < headerSize then .error .outOfBounds
    else
      let hdr := IPHeader.ofMemory order first.data
      let hlen := ipIhl hdr * 4
      match copyPayloads hlen packet.length headerSize 0 packet (first :: others) with
      | none => .error .outOfBounds
      | some (code, totalPayload, packet) =>
        if code < 0 then .error (.code code)
        else if headerSize < hlen ∨ packet.length < hlen then .error .outOfBounds
        else
          let hdr := { hdr with totalLength := .ofNat 16 (hlen + totalPayload), flagsFragOffset := 0, checksum := 0 }
          let hdr := { hdr with checksum := ipChecksumHeader order hdr }
          .ok ((Memory.write packet 0 ((hdr.toMemory order).take hlen)).take (hlen + totalPayload))

/-- The part of the payload that a fragment has behind its header. -/
def IPFragment.part (headerLen : Nat) (frag : IPFragment) : Bytes := frag.data.drop headerLen

/-- The fragment has as many bytes as it says, and a header among them. -/
def IPFragment.Sized (headerLen : Nat) (frag : IPFragment) : Prop :=
  frag.data.length = frag.length ∧ headerLen ≤ frag.length ∧ frag.length ≤ IP_MAX_PACKET

/-- The two headers differ in the fields that every fragment has for itself. -/
def IPHeader.Alike (orig hdr : IPHeader) : Prop :=
  ∃ totalLength flagsFragOffset checksum, hdr = { orig with totalLength, flagsFragOffset, checksum }

/-- What `ip_fragment` makes of a packet: fragments in order, whose parts begin the payload, and are all of it if there
is a last one. -/
structure Fragments (order : ByteOrder) (orig : IPHeader) (payload : Bytes) (frags : List IPFragment) : Prop where
  filled : frags ≠ []
  few : frags.length ≤ IP_MAX_FRAGMENTS
  sorted : frags.Pairwise fun first second => first.offset.toNat < second.offset.toNat
  headed : headerSize ≤ ipIhl orig * 4
  sized : ∀ frag ∈ frags, frag.Sized (ipIhl orig * 4)
  alike : ∀ frag ∈ frags, orig.Alike (.ofMemory order frag.data)
  begins : frags.flatMap (IPFragment.part (ipIhl orig * 4)) <+: payload
  whole : ∀ frag ∈ frags, frag.moreFragments = false → frags.flatMap (IPFragment.part (ipIhl orig * 4)) = payload

section Headers

variable {order : ByteOrder} {width count : Nat}

theorem length_store (order : ByteOrder) (value : BitVec width) (count : Nat) :
    (order.store value count).length = count := by
  have length : (bytesOf value count).length = count := by
    induction count with
    | zero => rfl
    | succ count ih => rw [bytesOf, List.length_cons, ih]
  cases order with
  | big => exact length
  | little => exact (List.length_reverse ..).trans length

theorem load_store (order : ByteOrder) (value : BitVec width) (count : Nat) (fits : width ≤ 8 * count) :
    order.load width (order.store value count) = value := by
  have joined : joinBytes width (bytesOf value count) = value :=
    joinBytes_bytesOf value count (Nat.lt_of_lt_of_le value.isLt (Nat.pow_le_pow_right (by decide) fits))
  cases order with
  | big => exact joined
  | little =>
    rw [ByteOrder.load, ByteOrder.store, ByteOrder.arrange, ByteOrder.arrange, List.reverse_reverse]
    exact joined

theorem length_toMemory (order : ByteOrder) (hdr : IPHeader) : (hdr.toMemory order).length = headerSize := by
  simp only [IPHeader.toMemory, List.length_append, length_store, List.length_cons, List.length_nil]
  rfl

/-- What was stored is loaded again. -/
theorem ofMemory_toMemory (order : ByteOrder) (hdr : IPHeader) (rest : Bytes) :
    IPHeader.ofMemory order (hdr.toMemory order ++ rest) = hdr := by
  cases order with
  | big =>
    have half (value : BitVec 16) : ByteOrder.big.load 16 [byteOf value 8, byteOf value 0] = value :=
      load_store .big value 2 (Nat.le_refl _)
    have full (value : BitVec 32) :
        ByteOrder.big.load 32 [byteOf value 24, byteOf value 16, byteOf value 8, byteOf value 0] = value :=
      load_store .big value 4 (Nat.le_refl _)
    simp [IPHeader.ofMemory, IPHeader.toMemory, ByteOrder.store, ByteOrder.arrange, bytesOf, half, full]
  | little =>
    have half (value : BitVec 16) : ByteOrder.little.load 16 [byteOf value 0, byteOf value 8] = value :=
      load_store .little value 2 (Nat.le_refl _)
    have full (value : BitVec 32) :
        ByteOrder.little.load 32 [byteOf value 0, byteOf value 8, byteOf value 16, byteOf value 24] = value :=
      load_store .little value 4 (Nat.le_refl _)
    simp [IPHeader.ofMemory, IPHeader.toMemory, ByteOrder.store, ByteOrder.arrange, bytesOf, half, full]

theorem toNat_foldCarries (sum : BitVec 32) : (foldCarries sum).toNat = sum.toNat % 65536 + sum.toNat / 65536 := by
  have low : (sum &&& 0xFFFF#32).toNat = sum.toNat % 65536 := by
    rw [BitVec.toNat_and]
    exact Nat.and_two_pow_sub_one_eq_mod sum.toNat 16
  have high : (sum >>> 16).toNat = sum.toNat / 65536 := by
    rw [BitVec.toNat_ushiftRight, Nat.shiftRight_eq_div_pow]
  have bound := sum.isLt
  rw [foldCarries]
  by_cases small : sum >>> 16 = 0
  · have none : sum.toNat / 65536 = 0 := by
      rw [← high, small]
      rfl
    rw [if_pos small, none]
    omega
  · rw [if_neg small, BitVec.toNat_add, low, high]
    omega

/-- No carries are left after three rounds. -/
theorem foldCarries_done (sum : BitVec 32) : foldCarries (foldCarries (foldCarries sum)) >>> 16 = 0 := by
  have first := toNat_foldCarries sum
  have second := toNat_foldCarries (foldCarries sum)
  have third := toNat_foldCarries (foldCarries (foldCarries sum))
  have bound := sum.isLt
  have zero : (0 : BitVec 32).toNat = 0 := rfl
  rw [← BitVec.toNat_inj, BitVec.toNat_ushiftRight, Nat.shiftRight_eq_div_pow, zero]
  omega

end Headers

section Fragmenting

variable {order : ByteOrder} {origHdr : IPHeader} {payload packet : Bytes} {size left offset : Nat}

theorem cuts_beyond (beyond : payload.length ≤ offset) : Pieces.cuts size payload.length left offset = [] := by
  cases left with
  | zero => rfl
  | succ left => exact if_neg (Nat.not_lt_of_le beyond)

theorem fragmentLoop_beyond (beyond : payload.length ≤ offset) :
    fragmentLoop order origHdr payload size left offset = [] := by
  cases left with
  | zero => rfl
  | succ left => exact if_neg (Nat.not_lt_of_le beyond)

/-- The loop makes one fragment for each cut. -/
theorem fragmentLoop_eq (order : ByteOrder) (origHdr : IPHeader) (payload : Bytes) (size left offset : Nat) :
    fragmentLoop order origHdr payload size left offset =
      (Pieces.cuts size payload.length left offset).map (fragmentAt order origHdr payload size) := by
  induction left generalizing offset with
  | zero => rfl
  | succ left ih =>
    rw [fragmentLoop, Pieces.cuts]
    split
    · rw [List.map_cons]
      congr 1
      by_cases whole : size ≤ payload.length - offset
      · rw [Nat.min_eq_right whole]
        exact ih _
      · rw [fragmentLoop_beyond (by omega), cuts_beyond (by omega), List.map_nil]
    · rfl

/-- The header of a fragment is that of the packet but for its own fields. -/
theorem fragmentAt_data (order : ByteOrder) (origHdr : IPHeader) (payload : Bytes) (size offset : Nat) :
    ∃ hdr : IPHeader, origHdr.Alike hdr ∧
      (fragmentAt order origHdr payload size offset).data = hdr.toMemory order ++ Pieces.piece payload size offset := by
  have cut : (payload.drop offset).take (min (payload.length - offset) size) = Pieces.piece payload size offset := by
    rw [← List.length_drop, Nat.min_comm]
    exact List.take_eq_take_min.symm
  simp only [fragmentAt, cut]
  exact ⟨_, ⟨_, _, _, rfl⟩, rfl⟩

theorem length_fragmentAt (order : ByteOrder) (origHdr : IPHeader) (payload : Bytes) (size offset : Nat) :
    (fragmentAt order origHdr payload size offset).data.length = headerSize + min size (payload.length - offset) := by
  obtain ⟨hdr, -, data⟩ := fragmentAt_data order origHdr payload size offset
  rw [data, List.length_append, length_toMemory, Pieces.length_piece]

theorem fragmentAt_part (order : ByteOrder) (origHdr : IPHeader) (payload : Bytes) (size offset : Nat) :
    (fragmentAt order origHdr payload size offset).part headerSize = Pieces.piece payload size offset := by
  obtain ⟨hdr, -, data⟩ := fragmentAt_data order origHdr payload size offset
  rw [IPFragment.part, data, List.drop_left' (length_toMemory order hdr)]

theorem fragmentAt_offset (order : ByteOrder) (origHdr : IPHeader) (size : Nat) (inside : offset < payload.length)
    (fits : headerSize + payload.length ≤ IP_MAX_PACKET) :
    (fragmentAt order origHdr payload size offset).offset.toNat = offset / 8 := by
  apply Nat.mod_eq_of_lt
  rw [IP_MAX_PACKET] at fits
  omega

theorem fragmentAt_length (order : ByteOrder) (origHdr : IPHeader) (size : Nat) (inside : offset < payload.length)
    (fits : headerSize + payload.length ≤ IP_MAX_PACKET) :
    (fragmentAt order origHdr payload size offset).length =
      headerSize + min size (payload.length - offset) := by
  rw [Nat.min_comm]
  apply Nat.mod_eq_of_lt
  rw [IP_MAX_PACKET] at fits
  omega

theorem fragmentAt_moreFragments :
    (fragmentAt order origHdr payload size offset).moreFragments = false ↔
      payload.length ≤ offset + min (payload.length - offset) size :=
  decide_eq_false_iff_not.trans Nat.not_lt

end Fragmenting

section Made

variable {order : ByteOrder} {origHdr : IPHeader} {payload packet : Bytes} {size : Nat} {frags : List IPFragment}
  {mtu : BitVec 16}

/-- The parts of all fragments are as much of the payload as 64 fragments can have. -/
theorem fragmentLoop_parts (order : ByteOrder) (origHdr : IPHeader) (payload : Bytes) (size : Nat) :
    (fragmentLoop order origHdr payload size IP_MAX_FRAGMENTS 0).flatMap (IPFragment.part headerSize) =
      payload.take (IP_MAX_FRAGMENTS * size) := by
  rw [fragmentLoop_eq, List.flatMap_map]
  simp only [fragmentAt_part]
  rw [Pieces.flatMap_cuts, List.drop_zero]

theorem fragmentLoop_fragments (standard : ipIhl origHdr = 5) (some_byte : payload ≠ []) (positive : 0 < size)
    (eights : 8 ∣ size) (fits : headerSize + payload.length ≤ IP_MAX_PACKET) :
    Fragments order origHdr payload (fragmentLoop order origHdr payload size IP_MAX_FRAGMENTS 0) := by
  have headerLen : ipIhl origHdr * 4 = headerSize := by rw [standard]; rfl
  have parts := fragmentLoop_parts order origHdr payload size
  have eq := fragmentLoop_eq order origHdr payload size IP_MAX_FRAGMENTS 0
  constructor
  case filled =>
    have first : fragmentLoop order origHdr payload size IP_MAX_FRAGMENTS 0 = _ :: _ :=
      if_pos (List.length_pos_iff.mpr some_byte)
    rw [first]
    exact List.cons_ne_nil _ _
  case few =>
    rw [eq, List.length_map]
    exact Pieces.length_cuts_le ..
  case sorted =>
    rw [eq, List.pairwise_map]
    refine (Pieces.pairwise_cuts positive _ _ _).imp_of_mem ?_
    intro first second among amongOthers below
    obtain ⟨-, inside, multiple⟩ := Pieces.mem_cuts among
    obtain ⟨-, insideToo, multipleToo⟩ := Pieces.mem_cuts amongOthers
    have eighth := Nat.dvd_trans eights multiple
    have eighthToo := Nat.dvd_trans eights multipleToo
    rw [fragmentAt_offset order origHdr size inside fits, fragmentAt_offset order origHdr size insideToo fits]
    omega
  case headed => exact Nat.le_of_eq headerLen.symm
  case sized =>
    intro frag among
    rw [eq] at among
    obtain ⟨offset, cut, rfl⟩ := List.mem_map.mp among
    have inside := (Pieces.mem_cuts cut).2.1
    rw [IPFragment.Sized, fragmentAt_length order origHdr size inside fits, length_fragmentAt, headerLen]
    omega
  case alike =>
    intro frag among
    rw [eq] at among
    obtain ⟨offset, -, rfl⟩ := List.mem_map.mp among
    obtain ⟨hdr, alike, data⟩ := fragmentAt_data order origHdr payload size offset
    rw [data, ofMemory_toMemory]
    exact alike
  case begins =>
    rw [headerLen, parts]
    exact List.take_prefix _ _
  case whole =>
    intro frag among last
    rw [eq] at among
    obtain ⟨offset, cut, rfl⟩ := List.mem_map.mp among
    have ends := fragmentAt_moreFragments.mp last
    have reached := Pieces.cuts_reach cut (by omega)
    rw [headerLen, parts]
    exact List.take_of_length_le (by omega)

theorem sizeDiff_of_le {left right : Nat} (below : right ≤ left) (fits : left ≤ IP_MAX_PACKET) :
    sizeDiff left right = left - right := by
  have apart : left + 2 ^ 64 - right = left - right + 2 ^ 64 := by omega
  rw [sizeDiff, apart, Nat.add_mod_right]
  apply Nat.mod_eq_of_lt
  rw [IP_MAX_PACKET] at fits
  omega

theorem ipIhl_lt (hdr : IPHeader) : ipIhl hdr < 16 := by
  rw [ipIhl, UInt8.toNat_and]
  exact Nat.lt_succ_of_le Nat.and_le_right

/-- A packet without a payload is its own fragment. Any other is cut by the loop, behind a header of 20 bytes. -/
theorem ipFragment_cases (made : ipFragment order packet mtu = .ok frags) (origin : .ofMemory order packet = origHdr)
    (fits : packet.length ≤ IP_MAX_PACKET) :
    headerSize ≤ packet.length ∧
      (packet.length = ipIhl origHdr * 4 ∧ frags = [⟨packet, packet.length, 0, false, origHdr.id⟩] ∨
        ipIhl origHdr = 5 ∧ headerSize < packet.length ∧ 0 < sizeDiff mtu.toNat headerSize / 8 * 8 ∧
          frags = fragmentLoop order origHdr (packet.drop headerSize) (sizeDiff mtu.toNat headerSize / 8 * 8)
            IP_MAX_FRAGMENTS 0) := by
  have nibble := ipIhl_lt origHdr
  simp only [ipFragment, origin] at made
  split at made
  · exact nomatch made
  · rename_i long
    refine ⟨Nat.le_of_not_lt long, ?_⟩
    rw [IP_MAX_PACKET] at fits
    split at made
    · rename_i empty
      cases made
      rw [sizeDiff] at empty
      exact .inl ⟨by omega, rfl⟩
    · rename_i some_byte
      split at made
      · exact nomatch made
      · rename_i positive
        split at made
        · exact nomatch made
        · rename_i standard
          cases made
          rw [Classical.not_not] at standard
          rw [standard] at some_byte positive ⊢
          refine .inr ⟨Nat.eq_of_mul_eq_mul_right (Nat.succ_pos 3) standard, ?_, Nat.pos_of_ne_zero positive, rfl⟩
          apply Nat.lt_of_le_of_ne (Nat.le_of_not_lt long)
          intro same
          exact some_byte (by rw [← same]; rfl)

theorem ipFragment_fragments (made : ipFragment order packet mtu = .ok frags)
    (origin : .ofMemory order packet = origHdr) (fits : packet.length ≤ IP_MAX_PACKET) :
    Fragments order origHdr (packet.drop (ipIhl origHdr * 4)) frags := by
  obtain ⟨long, ⟨exactly, rfl⟩ | ⟨standard, longer, positive, rfl⟩⟩ := ipFragment_cases made origin fits
  · have parts : [(⟨packet, packet.length, 0, false, origHdr.id⟩ : IPFragment)].flatMap
        (IPFragment.part (ipIhl origHdr * 4)) = packet.drop (ipIhl origHdr * 4) := List.flatMap_singleton ..
    constructor
    case filled => exact List.cons_ne_nil _ _
    case few => exact Nat.succ_le_succ (Nat.zero_le 63)
    case sorted => exact List.pairwise_singleton _ _
    case headed => exact exactly ▸ long
    case sized => exact List.forall_mem_singleton.mpr ⟨rfl, Nat.le_of_eq exactly.symm, fits⟩
    case alike => exact List.forall_mem_singleton.mpr ⟨_, _, _, origin⟩
    case begins => exact parts ▸ List.prefix_refl _
    case whole => exact fun _ _ _ => parts
  · have headerLen : ipIhl origHdr * 4 = headerSize := by rw [standard]; rfl
    rw [headerLen]
    apply fragmentLoop_fragments standard
    · exact mt List.drop_eq_nil_iff.mp (Nat.not_le_of_lt longer)
    · exact positive
    · exact Nat.dvd_mul_left 8 _
    · rw [List.length_drop]
      omega

end Made

section Copying

variable {hlen capacity start total : Nat} {memory begun : Bytes} {frag : IPFragment} {frags : List IPFragment}

theorem length_part (sized : frag.Sized hlen) : (frag.part hlen).length = frag.length - hlen := by
  rw [IPFragment.part, List.length_drop, sized.1]

/-- What is done for a fragment that has as many bytes as it says. -/
theorem copyPayloads_cons (sized : frag.Sized hlen) (capacity start total : Nat) (memory : Bytes)
    (frags : List IPFragment) :
    copyPayloads hlen capacity start total memory (frag :: frags) =
      if (total + (frag.part hlen).length) % 2 ^ 64 > capacity then some (-3, total, memory)
      else if memory.length < start + total + (frag.part hlen).length then none
      else copyPayloads hlen capacity start (total + (frag.part hlen).length)
        (Memory.write memory (start + total) (frag.part hlen)) frags := by
  obtain ⟨exactly, headed, small⟩ := sized
  have size : (frag.data.drop hlen).length = frag.length - hlen := by rw [List.length_drop, exactly]
  have part : (frag.data.drop hlen).take (frag.length - hlen) = frag.part hlen :=
    List.take_of_length_le (Nat.le_of_eq size)
  have within : ¬frag.data.length < hlen + (frag.length - hlen) := by omega
  rw [copyPayloads, length_part ⟨exactly, headed, small⟩, sizeDiff_of_le headed small]
  simp only [part, within, false_or]

/-- Where the room is enough, the payloads are copied one behind the other. -/
theorem copyPayloads_enough (sized : ∀ frag ∈ frags, frag.Sized hlen) (begins : begun <+: memory)
    (length : begun.length = start + total)
    (room : total + (frags.flatMap (IPFragment.part hlen)).length ≤ capacity)
    (inside : start + total + (frags.flatMap (IPFragment.part hlen)).length ≤ memory.length) :
    ∃ after, copyPayloads hlen capacity start total memory frags =
        some (0, total + (frags.flatMap (IPFragment.part hlen)).length, after) ∧
      after.length = memory.length ∧ begun ++ frags.flatMap (IPFragment.part hlen) <+: after := by
  induction frags generalizing total memory begun with
  | nil =>
    refine ⟨memory, rfl, rfl, ?_⟩
    rw [List.flatMap_nil, List.append_nil]
    exact begins
  | cons frag frags ih =>
    obtain ⟨here, others⟩ := List.forall_mem_cons.mp sized
    rw [List.flatMap_cons, List.length_append] at room inside ⊢
    have fitting : ¬(total + (frag.part hlen).length) % 2 ^ 64 > capacity := by
      have wrapped := Nat.mod_le (total + (frag.part hlen).length) (2 ^ 64)
      omega
    rw [copyPayloads_cons here, if_neg fitting, if_neg (by omega), ← List.append_assoc, ← Nat.add_assoc]
    have written : (Memory.write memory (start + total) (frag.part hlen)).length = memory.length :=
      Memory.length_write (by omega)
    have next : (begun ++ frag.part hlen).length = start + (total + (frag.part hlen).length) := by
      rw [List.length_append, length, Nat.add_assoc]
    rw [← written]
    apply ih others (Memory.prefix_write begins length.symm) next
    · omega
    · omega

/-- Where it is not, the copy stops within the memory. -/
theorem copyPayloads_short (sized : ∀ frag ∈ frags, frag.Sized hlen) (held : total ≤ capacity)
    (inside : start + capacity ≤ memory.length)
    (room : capacity < total + (frags.flatMap (IPFragment.part hlen)).length)
    (sum : total + (frags.flatMap (IPFragment.part hlen)).length ≤ IP_MAX_PACKET) :
    ∃ copied after, copyPayloads hlen capacity start total memory frags = some (-3, copied, after) ∧
      after.length = memory.length := by
  induction frags generalizing total memory with
  | nil => exact absurd held (Nat.not_le_of_lt room)
  | cons frag frags ih =>
    obtain ⟨here, others⟩ := List.forall_mem_cons.mp sized
    rw [List.flatMap_cons, List.length_append] at room sum
    have plain : (total + (frag.part hlen).length) % 2 ^ 64 = total + (frag.part hlen).length := by
      apply Nat.mod_eq_of_lt
      rw [IP_MAX_PACKET] at sum
      omega
    rw [copyPayloads_cons here, plain]
    split
    · exact ⟨total, memory, rfl, rfl⟩
    · have written : (Memory.write memory (start + total) (frag.part hlen)).length = memory.length :=
        Memory.length_write (by omega)
      rw [if_neg (by omega), ← written]
      apply ih others
      · omega
      · omega
      · omega
      · omega

end Copying

section RoundTrip

variable {order : ByteOrder} {orig : IPHeader} {payload packet room : Bytes} {frags arranged : List IPFragment}
  {mtu : BitVec 16}

/-- Sorting puts the fragments in order again. -/
theorem sorted_arranged (sorted : frags.Pairwise fun first second => first.offset.toNat < second.offset.toNat)
    (same : arranged.Perm frags) : arranged.mergeSort inOrder = frags :=
  Pieces.mergeSort_eq sorted same

/-- The header is copied in front of the parts. -/
theorem written_header {begun : Bytes} (size : begun.length = headerSize) (hdr : IPHeader) (parts rest : Bytes) :
    (Memory.write (begun ++ parts ++ rest) 0 ((hdr.toMemory order).take headerSize)).take (headerSize + parts.length) =
      hdr.toMemory order ++ parts := by
  have whole : (hdr.toMemory order).take headerSize = hdr.toMemory order :=
    List.take_of_length_le (Nat.le_of_eq (length_toMemory order hdr))
  have length : (hdr.toMemory order ++ parts).length = headerSize + parts.length := by
    rw [List.length_append, length_toMemory]
  rw [whole, Memory.write_zero, length_toMemory, List.append_assoc, List.drop_left' size, ← List.append_assoc,
    List.take_left' length]

/-- The parts of the fragments behind the header of the packet, in whatever order the fragments are. -/
theorem ipReassemblePacket_arranged (fragments : Fragments order orig payload frags) (standard : ipIhl orig = 5)
    (same : arranged.Perm frags)
    (enough : headerSize + (frags.flatMap (IPFragment.part headerSize)).length ≤ room.length) :
    ∃ checksum, ipReassemblePacket order arranged room = .ok (({ orig with
      totalLength := .ofNat 16 (headerSize + (frags.flatMap (IPFragment.part headerSize)).length)
      flagsFragOffset := 0
      checksum } : IPHeader).toMemory order ++ frags.flatMap (IPFragment.part headerSize)) := by
  have headerLen : ipIhl orig * 4 = headerSize := by rw [standard]; rfl
  obtain ⟨first, others, rfl⟩ := List.exists_cons_of_ne_nil fragments.filled
  have sized := fragments.sized
  rw [headerLen] at sized
  obtain ⟨totalLength, flagsFragOffset, checksum, alike⟩ := fragments.alike first (List.mem_cons_self ..)
  have header : ipIhl { orig with totalLength, flagsFragOffset, checksum } * 4 = headerSize := headerLen
  have long : ¬first.data.length < headerSize := by
    obtain ⟨exactly, headed, -⟩ := sized first (List.mem_cons_self ..)
    exact Nat.not_lt_of_le (exactly ▸ headed)
  have begun : (room.take headerSize).length = headerSize + 0 := List.length_take_of_le (by omega)
  have fitting : 0 + ((first :: others).flatMap (IPFragment.part headerSize)).length ≤ room.length := by omega
  obtain ⟨after, copied, kept, begins⟩ :=
    copyPayloads_enough sized (List.take_prefix headerSize room) begun fitting enough
  obtain ⟨rest, rfl⟩ := begins
  rw [Nat.zero_add] at copied
  have inside : ¬(headerSize < headerSize ∨
      (room.take headerSize ++ (first :: others).flatMap (IPFragment.part headerSize) ++ rest).length <
        headerSize) := by
    rw [kept]
    omega
  have done : ¬(0 : Int) < 0 := by decide
  simp only [ipReassemblePacket, sorted_arranged fragments.sorted same, if_neg long, alike, header, copied, if_neg done,
    if_neg inside, written_header begun]
  exact ⟨_, rfl⟩

/-- The packet is cut into fragments that fit, and whoever puts them together, in whatever order, has it again. -/
def RoundTrips (order : ByteOrder) (packet : Bytes) (mtu : BitVec 16) : Prop :=
  ∀ frags, ipFragment order packet mtu = .ok frags →
    (∀ frag ∈ frags, frag.data.length ≤ mtu.toNat) ∧
    ∀ arranged room, arranged.Perm frags → packet.length ≤ room.length →
      ∃ result, ipReassemblePacket order arranged room = .ok result ∧ result.length = packet.length ∧
        result.drop headerSize = packet.drop headerSize ∧
        ∃ checksum, IPHeader.ofMemory order result =
          { IPHeader.ofMemory order packet with totalLength := .ofNat 16 packet.length, checksum }

/-- What is put together from the fragments of a packet. -/
theorem ipReassemblePacket_fragments (standard : ipIhl (.ofMemory order packet) = 5)
    (fits : packet.length ≤ IP_MAX_PACKET) (unfragmented : (IPHeader.ofMemory order packet).flagsFragOffset = 0)
    (made : ipFragment order packet mtu = .ok frags) (same : arranged.Perm frags)
    (enough : packet.length ≤ room.length) :
    ∃ result, ipReassemblePacket order arranged room = .ok result ∧
      result.length = headerSize + (frags.flatMap (IPFragment.part headerSize)).length ∧
      result.drop headerSize = frags.flatMap (IPFragment.part headerSize) ∧
      ∃ checksum, IPHeader.ofMemory order result = { IPHeader.ofMemory order packet with
        totalLength := .ofNat 16 (headerSize + (frags.flatMap (IPFragment.part headerSize)).length), checksum } := by
  have long := (ipFragment_cases made rfl fits).1
  have fragments := ipFragment_fragments made rfl fits
  have begins := fragments.begins.length_le
  rw [standard, List.length_drop] at begins
  have parts : headerSize + (frags.flatMap (IPFragment.part headerSize)).length ≤ room.length := by
    have within : (frags.flatMap (IPFragment.part headerSize)).length ≤ packet.length - headerSize := begins
    omega
  obtain ⟨checksum, put⟩ := ipReassemblePacket_arranged fragments standard same parts
  refine ⟨_, put, ?_, List.drop_left' (length_toMemory order _), checksum, ?_⟩
  · rw [List.length_append, length_toMemory]
  · simp only [ofMemory_toMemory, unfragmented]

section Standard

variable (standard : ipIhl (.ofMemory order packet) = 5) (fits : packet.length ≤ IP_MAX_PACKET) (roomy : 28 ≤ mtu.toNat)

include roomy

theorem sizeDiff_mtu : sizeDiff mtu.toNat headerSize = mtu.toNat - headerSize :=
  sizeDiff_of_le (Nat.le_trans (by decide) roomy) (Nat.le_of_lt_succ mtu.isLt)

include standard fits

theorem ipFragment_standard (longer : headerSize < packet.length) :
    ipFragment order packet mtu = .ok (fragmentLoop order (.ofMemory order packet) (packet.drop headerSize)
      ((mtu.toNat - headerSize) / 8 * 8) IP_MAX_FRAGMENTS 0) := by
  have positive : ¬(mtu.toNat - headerSize) / 8 * 8 = 0 := by
    rw [headerSize]
    omega
  have headerLen : 5 * 4 = headerSize := rfl
  have some_byte : ¬packet.length - headerSize = 0 := Nat.sub_ne_zero_of_lt longer
  have same : ¬headerSize ≠ headerSize := fun differ => differ rfl
  rw [ipFragment, if_neg (Nat.not_lt_of_le (Nat.le_of_lt longer))]
  simp only [standard, headerLen, sizeDiff_of_le (Nat.le_of_lt longer) fits, sizeDiff_mtu roomy, if_neg some_byte,
    if_neg positive, if_neg same]

theorem ipFragment_isOk (long : headerSize ≤ packet.length) : ∃ frags, ipFragment order packet mtu = .ok frags := by
  rcases Nat.lt_or_eq_of_le long with longer | same
  · exact ⟨_, ipFragment_standard standard fits roomy longer⟩
  · have headerLen : 5 * 4 = packet.length := same
    have empty : sizeDiff packet.length packet.length = 0 :=
      (sizeDiff_of_le (Nat.le_refl _) fits).trans (Nat.sub_self _)
    refine ⟨[⟨packet, packet.length, 0, false, (IPHeader.ofMemory order packet).id⟩], ?_⟩
    rw [ipFragment, if_neg (Nat.not_lt_of_le long)]
    simp only [standard, headerLen, if_pos empty]

theorem ipFragment_parts (made : ipFragment order packet mtu = .ok frags) :
    frags.flatMap (IPFragment.part headerSize) =
      (packet.drop headerSize).take (IP_MAX_FRAGMENTS * ((mtu.toNat - headerSize) / 8 * 8)) := by
  obtain ⟨-, ⟨exactly, rfl⟩ | ⟨-, -, -, rfl⟩⟩ := ipFragment_cases made rfl fits
  · have empty : packet.drop headerSize = [] := by
      apply List.drop_of_length_le
      rw [exactly, standard]
      exact Nat.le_refl _
    rw [List.flatMap_singleton, IPFragment.part, empty, List.take_nil]
  · rw [fragmentLoop_parts, sizeDiff_mtu roomy]

theorem ipFragment_fitting (made : ipFragment order packet mtu = .ok frags) :
    ∀ frag ∈ frags, frag.data.length ≤ mtu.toNat := by
  intro frag among
  obtain ⟨-, ⟨exactly, rfl⟩ | ⟨-, -, -, rfl⟩⟩ := ipFragment_cases made rfl fits
  · rw [List.mem_singleton.mp among, exactly, standard]
    exact Nat.le_trans (by decide) roomy
  · rw [fragmentLoop_eq] at among
    obtain ⟨offset, -, rfl⟩ := List.mem_map.mp among
    rw [length_fragmentAt, sizeDiff_mtu roomy, headerSize]
    omega

theorem roundTrips_of_enough (unfragmented : (IPHeader.ofMemory order packet).flagsFragOffset = 0)
    (long : headerSize ≤ packet.length)
    (enough : packet.length - headerSize ≤ IP_MAX_FRAGMENTS * ((mtu.toNat - headerSize) / 8 * 8)) :
    RoundTrips order packet mtu := by
  intro frags made
  refine ⟨ipFragment_fitting standard fits roomy made, ?_⟩
  intro arranged room same space
  have parts : frags.flatMap (IPFragment.part headerSize) = packet.drop headerSize := by
    rw [ipFragment_parts standard fits roomy made]
    apply List.take_of_length_le
    rw [List.length_drop]
    exact enough
  have whole : headerSize + (packet.drop headerSize).length = packet.length := by
    rw [List.length_drop]
    exact Nat.add_sub_cancel' long
  obtain ⟨result, put, length, payload, header⟩ :=
    ipReassemblePacket_fragments standard fits unfragmented made same space
  rw [parts, whole] at length header
  exact ⟨result, put, length, payload.trans parts, header⟩

/-- Beyond 64 fragments the end of the payload is lost. -/
theorem enough_of_roundTrips (unfragmented : (IPHeader.ofMemory order packet).flagsFragOffset = 0)
    (long : headerSize ≤ packet.length) (trip : RoundTrips order packet mtu) :
    packet.length - headerSize ≤ IP_MAX_FRAGMENTS * ((mtu.toNat - headerSize) / 8 * 8) := by
  obtain ⟨frags, made⟩ := ipFragment_isOk standard fits roomy long
  obtain ⟨result, put, length, -⟩ := (trip frags made).2 frags packet (.refl _) (Nat.le_refl _)
  obtain ⟨other, same, size, -⟩ :=
    ipReassemblePacket_fragments standard fits unfragmented made (.refl _) (Nat.le_refl packet.length)
  cases put.symm.trans same
  rw [length, ipFragment_parts standard fits roomy made, List.length_take, List.length_drop] at size
  omega

end Standard

end RoundTrip

/-- A packet survives its fragmentation exactly if 64 fragments have room for its payload. -/
theorem roundTrips_exact (order : ByteOrder) (packet : Bytes) (mtu : BitVec 16)
    (standard : ipIhl (.ofMemory order packet) = 5)
    (unfragmented : (IPHeader.ofMemory order packet).flagsFragOffset = 0) (long : headerSize ≤ packet.length)
    (fits : packet.length ≤ IP_MAX_PACKET) (roomy : 28 ≤ mtu.toNat) :
    RoundTrips order packet mtu ↔
      packet.length - headerSize ≤ IP_MAX_FRAGMENTS * ((mtu.toNat - headerSize) / 8 * 8) := by
  constructor
  · exact enough_of_roundTrips standard fits roomy unfragmented long
  · exact roundTrips_of_enough standard fits roomy unfragmented long

/-- Nine bytes of payload in two fragments. -/
theorem roundTrips_exact_two : RoundTrips .little (69 :: List.replicate 28 0) 28 :=
  (roundTrips_exact .little (69 :: List.replicate 28 0) 28 rfl rfl (by decide) (by decide) (by decide)).mpr (by decide)

/-- The last of 513 bytes of payload is lost in fragments of 28 bytes. -/
theorem roundTrips_lost :
    ipIhl (.ofMemory .little (69 :: List.replicate 532 0)) = 5 ∧
      (IPHeader.ofMemory .little (69 :: List.replicate 532 0)).flagsFragOffset = 0 ∧
      (69 :: List.replicate 532 (0 : UInt8)).length ≤ IP_MAX_PACKET ∧ 28 ≤ (28 : BitVec 16).toNat ∧
      ¬RoundTrips .little (69 :: List.replicate 532 0) 28 := by
  have length : (69 :: List.replicate 532 (0 : UInt8)).length = 533 := by
    rw [List.length_cons, List.length_replicate]
  have fits : (69 :: List.replicate 532 (0 : UInt8)).length ≤ IP_MAX_PACKET := length ▸ by decide
  refine ⟨rfl, rfl, fits, by decide, ?_⟩
  intro trip
  have enough := enough_of_roundTrips rfl fits (by decide) rfl (length ▸ by decide) trip
  rw [length] at enough
  exact absurd enough (by decide)

end MiniNetDist.NetworkBase.IpPacket
