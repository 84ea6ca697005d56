import MiniNetDist.Library.Bytes

/-! The compression of `mini-rpc-framework/src/rpc_protocol.c`: a registry of codecs, and a pipeline
that stores what does not shrink as it is, without a mark, and unpacks into a guessed size. -/

namespace MiniNetDist.RpcFramework.Compression

open Library

inductive RPCCompressAlgo where
  | none
  | zlib
  | lz4
  | snappy
  deriving DecidableEq, Repr

/-- A growing buffer with the bytes in use; it is never without memory. -/
structure RPCBuffer where
  data : Bytes
  capacity : Nat
  positive : 0 < capacity
  fits : data.length ≤ capacity

/-- The loop that doubles the capacity until `size` bytes fit; `size` rounds are enough. -/
def doubled (size : Nat) : Nat → Nat → Nat
  | 0, newcap => newcap
  | rounds + 1, newcap => if newcap < size then doubled size rounds (newcap * 2) else newcap

def reserved (capacity size : Nat) : Nat := if size ≤ capacity then capacity else doubled size size capacity

theorem le_doubled {size rounds newcap : Nat} (positive : 0 < newcap) (enough : size ≤ newcap + rounds) :
    newcap ≤ doubled size rounds newcap ∧ size ≤ doubled size rounds newcap := by
  induction rounds generalizing newcap with
  | zero => exact ⟨Nat.le_refl _, enough⟩
  | succ rounds ih =>
    rw [doubled]
    split
    · obtain ⟨grown, reached⟩ := ih (show 0 < newcap * 2 by omega) (by omega)
      exact ⟨by omega, reached⟩
    · exact ⟨Nat.le_refl _, by omega⟩

theorem le_reserved {capacity : Nat} (positive : 0 < capacity) (size : Nat) :
    capacity ≤ reserved capacity size ∧ size ≤ reserved capacity size := by
  rw [reserved]
  split
  · exact ⟨Nat.le_refl _, by assumption⟩
  · exact le_doubled positive (by omega)

def rpcBufferReserve (buf : RPCBuffer) (size : Nat) : RPCBuffer :=
  { data := buf.data
    capacity := reserved buf.capacity size
    positive := Nat.lt_of_lt_of_le buf.positive (le_reserved buf.positive size).1
    fits := Nat.le_trans buf.fits (le_reserved buf.positive size).1 }

def rpcBufferReset (buf : RPCBuffer) : RPCBuffer := { buf with data := [], fits := Nat.zero_le _ }

/-- A registered function, from the source and the capacity of the destination to its result and output.
What it reports to have written is within the capacity. -/
structure RPCCompressFn where
  run : Bytes → Nat → Int × Bytes
  fits : ∀ src capacity, (run src capacity).1 = 0 → (run src capacity).2.length ≤ capacity

structure Registry where
  compressFns : RPCCompressAlgo → Option RPCCompressFn
  decompressFns : RPCCompressAlgo → Option RPCCompressFn

def rpcProtoCompressRegister (registry : Registry) (algo : RPCCompressAlgo)
    (compress decompress : Option RPCCompressFn) : Registry :=
  { compressFns := fun other => if other = algo then compress else registry.compressFns other
    decompressFns := fun other => if other = algo then decompress else registry.decompressFns other }

/-- Write the output if the destination holds it. -/
def writeWithin (capacity : Nat) (output : Bytes) : Int × Bytes :=
  if capacity < output.length then (-2, []) else (0, output)

theorem writeWithin_of_le {capacity : Nat} {output : Bytes} (enough : output.length ≤ capacity) :
    writeWithin capacity output = (0, output) :=
  if_neg (Nat.not_lt.mpr enough)

theorem writeWithin_eq_zero {capacity : Nat} {output : Bytes} (success : (writeWithin capacity output).1 = 0) :
    output.length ≤ capacity ∧ writeWithin capacity output = (0, output) := by
  by_cases short : capacity < output.length
  · rw [writeWithin, if_pos short] at success
    cases success
  · exact ⟨Nat.le_of_not_lt short, if_neg short⟩

theorem writeWithin_fits (capacity : Nat) (output : Bytes) (success : (writeWithin capacity output).1 = 0) :
    (writeWithin capacity output).2.length ≤ capacity := by
  obtain ⟨bound, same⟩ := writeWithin_eq_zero success
  rw [same]
  exact bound

def compressIdentity : RPCCompressFn where
  run src capacity := writeWithin capacity src
  fits src capacity := writeWithin_fits capacity src

/-- Let a function write into a buffer; the bytes count only when it succeeds. -/
def RPCBuffer.fill (buf : RPCBuffer) (fn : RPCCompressFn) (src : Bytes) : RPCBuffer × Int :=
  if success : (fn.run src buf.capacity).1 = 0 then
    ({ buf with data := (fn.run src buf.capacity).2, fits := fn.fits src buf.capacity success }, 0)
  else (buf, (fn.run src buf.capacity).1)

/-- Copy the source into a buffer after making room for it. -/
def RPCBuffer.copy (out : RPCBuffer) (src : Bytes) : RPCBuffer :=
  { rpcBufferReserve (rpcBufferReset out) src.length with
    data := src
    fits := (le_reserved out.positive src.length).2 }

/-- The function to use for an algorithm; there is none for `none`, whatever is registered. -/
def selected (fns : RPCCompressAlgo → Option RPCCompressFn) (algo : RPCCompressAlgo) : Option RPCCompressFn :=
  if algo = .none then none else fns algo

def rpcProtoCompress (registry : Registry) (algo : RPCCompressAlgo) (src : Bytes) (out : RPCBuffer) :
    RPCBuffer × Int :=
  match selected registry.compressFns algo with
  | none => (rpcBufferReserve (rpcBufferReset out) src.length).fill compressIdentity src
  | some compress =>
    let out := rpcBufferReserve (rpcBufferReset out) (src.length + 256)
    let packed := compress.run src out.capacity
    if packed.1 = 0 ∧ packed.2.length < src.length then out.fill compress src
    else (out.copy src, 0)

def rpcProtoDecompress (registry : Registry) (algo : RPCCompressAlgo) (src : Bytes) (out : RPCBuffer) :
    RPCBuffer × Int :=
  match selected registry.decompressFns algo with
  | none => (out.copy src, 0)
  | some decompress => (rpcBufferReserve (rpcBufferReset out) (src.length * 4 + 256)).fill decompress src

/-- Unpacking gives back what was packed whenever the destination is large enough. -/
def Inverts (decompress compress : RPCCompressFn) : Prop :=
  ∀ src capacity packed, compress.run src capacity = (0, packed) →
    ∀ room, src.length ≤ room → decompress.run packed room = (0, src)

/-- The source comes back: it shrank and fits the guessed size, or the decompressor leaves it as it is. -/
def Restores (compress decompress : RPCCompressFn) (src : Bytes) (first second : Nat) : Prop :=
  let packed := compress.run src (reserved first (src.length + 256))
  if packed.1 = 0 ∧ packed.2.length < src.length then src.length ≤ reserved second (packed.2.length * 4 + 256)
  else decompress.run src (reserved second (src.length * 4 + 256)) = (0, src)

theorem fill_eq_zero_iff (buf : RPCBuffer) (fn : RPCCompressFn) (src data : Bytes) :
    (buf.fill fn src).2 = 0 ∧ (buf.fill fn src).1.data = data ↔ fn.run src buf.capacity = (0, data) := by
  rw [RPCBuffer.fill]
  split
  · next success => simp [Prod.ext_iff, success]
  · next failed => simp [Prod.ext_iff, failed]

/-- Compression never fails: what does not shrink is copied. -/
theorem rpcProtoCompress_spec {registry : Registry} {algo : RPCCompressAlgo} {compress : RPCCompressFn}
    (chosen : algo ≠ .none) (packs : registry.compressFns algo = some compress) (src : Bytes) (out : RPCBuffer) :
    (rpcProtoCompress registry algo src out).2 = 0 ∧
      (rpcProtoCompress registry algo src out).1.data =
        if (compress.run src (reserved out.capacity (src.length + 256))).1 = 0 ∧
            (compress.run src (reserved out.capacity (src.length + 256))).2.length < src.length
        then (compress.run src (reserved out.capacity (src.length + 256))).2 else src := by
  have unfolded : rpcProtoCompress registry algo src out =
      if (compress.run src (reserved out.capacity (src.length + 256))).1 = 0 ∧
          (compress.run src (reserved out.capacity (src.length + 256))).2.length < src.length
      then (rpcBufferReserve (rpcBufferReset out) (src.length + 256)).fill compress src
      else ((rpcBufferReserve (rpcBufferReset out) (src.length + 256)).copy src, 0) := by
    rw [rpcProtoCompress, selected, if_neg chosen, packs]
    rfl
  rw [unfolded]
  split
  · next shrunk => exact (fill_eq_zero_iff _ compress src _).mpr (Prod.ext shrunk.1 rfl)
  · exact ⟨rfl, rfl⟩

theorem rpcProtoDecompress_eq_iff {registry : Registry} {algo : RPCCompressAlgo} {decompress : RPCCompressFn}
    (chosen : algo ≠ .none) (unpacks : registry.decompressFns algo = some decompress) (src data : Bytes)
    (out : RPCBuffer) :
    (rpcProtoDecompress registry algo src out).2 = 0 ∧ (rpcProtoDecompress registry algo src out).1.data = data ↔
      decompress.run src (reserved out.capacity (src.length * 4 + 256)) = (0, data) := by
  rw [rpcProtoDecompress, selected, if_neg chosen, unpacks]
  exact fill_eq_zero_iff _ _ src data

theorem rpcProtoCompress_none (registry : Registry) (src : Bytes) (out : RPCBuffer) :
    (rpcProtoCompress registry .none src out).2 = 0 ∧ (rpcProtoCompress registry .none src out).1.data = src := by
  rw [rpcProtoCompress, selected, if_pos rfl, fill_eq_zero_iff, compressIdentity]
  exact writeWithin_of_le (le_reserved out.positive src.length).2

/-- Packed data that shrank is unpacked exactly when it fits the guessed size. -/
theorem unpacked_iff {compress decompress : RPCCompressFn} (inverts : Inverts decompress compress)
    {src packed : Bytes} {capacity : Nat} (ran : compress.run src capacity = (0, packed)) (room : Nat) :
    decompress.run packed room = (0, src) ↔ src.length ≤ room := by
  constructor
  · intro unpacked
    have bound := decompress.fits packed room (by rw [unpacked])
    rwa [unpacked] at bound
  · exact inverts src capacity packed ran room

/-- Compressing always succeeds; unpacking gives the source back exactly when no codec is used, when the source
shrank and the guess of four times the packed size holds it, or when the codec unpacks the stored source to itself. -/
theorem rpc_compress_round_trip_iff {registry : Registry} {algo : RPCCompressAlgo} {compress decompress : RPCCompressFn}
    (packs : registry.compressFns algo = some compress) (unpacks : registry.decompressFns algo = some decompress)
    (inverts : Inverts decompress compress) (src : Bytes) (out back : RPCBuffer) :
    let packed := rpcProtoCompress registry algo src out
    let unpacked := rpcProtoDecompress registry algo packed.1.data back
    packed.2 = 0 ∧ ((unpacked.2 = 0 ∧ unpacked.1.data = src) ↔
      algo = .none ∨ Restores compress decompress src out.capacity back.capacity) := by
  intro packed unpacked
  by_cases chosen : algo = .none
  · subst chosen
    obtain ⟨success, same⟩ := rpcProtoCompress_none registry src out
    exact ⟨success, fun _ => .inl rfl, fun _ => ⟨rfl, same⟩⟩
  · obtain ⟨success, data⟩ := rpcProtoCompress_spec chosen packs src out
    refine ⟨success, ?_⟩
    simp only [chosen, false_or, Restores, unpacked, packed]
    rw [rpcProtoDecompress_eq_iff chosen unpacks, data]
    split
    · next shrunk => exact unpacked_iff inverts (Prod.ext shrunk.1 rfl) _
    · rfl

section Stored

/-- A codec that only puts a mark before the data. -/
def mark : RPCCompressFn where
  run src capacity := writeWithin capacity (0 :: src)
  fits src capacity := writeWithin_fits capacity (0 :: src)

def unmarkRun : Bytes → Nat → Int × Bytes
  | 0 :: src, capacity => writeWithin capacity src
  | _, _ => (-1, [])

theorem unmarkRun_fits (src : Bytes) (capacity : Nat) :
    (unmarkRun src capacity).1 = 0 → (unmarkRun src capacity).2.length ≤ capacity := by
  unfold unmarkRun
  split
  · exact writeWithin_fits capacity _
  · intro success
    cases success

def unmark : RPCCompressFn := ⟨unmarkRun, unmarkRun_fits⟩

theorem unmark_inverts_mark : Inverts unmark mark := by
  intro src capacity packed ran room enough
  have written : writeWithin capacity (0 :: src) = (0, 0 :: src) := (writeWithin_eq_zero (congrArg Prod.fst ran)).2
  obtain rfl := (Prod.mk.inj (written.symm.trans ran)).2
  exact writeWithin_of_le enough

def markRegistry : Registry := rpcProtoCompressRegister ⟨fun _ => none, fun _ => none⟩ .zlib (some mark) (some unmark)

def freshBuffer : RPCBuffer := ⟨[], 4096, Nat.succ_pos 4095, Nat.zero_le 4096⟩

/-- A codec that writes the first half of data whose halves are equal, and all of other data. -/
def halve : RPCCompressFn where
  run src capacity :=
    if src.take (src.length / 2) = src.drop (src.length / 2) then writeWithin capacity (1 :: src.take (src.length / 2))
    else writeWithin capacity (0 :: src)
  fits src capacity := by
    split_ifs
    · exact writeWithin_fits capacity _
    · exact writeWithin_fits capacity _

def doubleRun : Bytes → Nat → Int × Bytes
  | 0 :: src, capacity => writeWithin capacity src
  | 1 :: half, capacity => writeWithin capacity (half ++ half)
  | _, _ => (-1, [])

theorem doubleRun_fits (src : Bytes) (capacity : Nat) :
    (doubleRun src capacity).1 = 0 → (doubleRun src capacity).2.length ≤ capacity := by
  unfold doubleRun
  split
  · exact writeWithin_fits capacity _
  · exact writeWithin_fits capacity _
  · intro zero
    cases zero

def double : RPCCompressFn := ⟨doubleRun, doubleRun_fits⟩

theorem double_inverts_halve : Inverts double halve := by
  intro src capacity packed ran room enough
  dsimp only [halve] at ran
  split_ifs at ran with equal
  · have written := (writeWithin_eq_zero (congrArg Prod.fst ran)).2
    obtain rfl := (Prod.mk.inj (written.symm.trans ran)).2
    have whole : src.take (src.length / 2) ++ src.take (src.length / 2) = src := by
      nth_rewrite 2 [equal]
      exact List.take_append_drop _ src
    change writeWithin room _ = _
    rw [whole]
    exact writeWithin_of_le enough
  · have written := (writeWithin_eq_zero (congrArg Prod.fst ran)).2
    obtain rfl := (Prod.mk.inj (written.symm.trans ran)).2
    exact writeWithin_of_le enough

def halveRegistry : Registry :=
  rpcProtoCompressRegister ⟨fun _ => none, fun _ => none⟩ .zlib (some halve) (some double)

/-- Data that shrinks is restored. -/
theorem rpc_compress_round_trip_halves :
    (rpcProtoCompress halveRegistry .zlib [5, 6, 5, 6] freshBuffer).1.data = [1, 5, 6] ∧
      (rpcProtoDecompress halveRegistry .zlib (rpcProtoCompress halveRegistry .zlib [5, 6, 5, 6] freshBuffer).1.data
          freshBuffer).2 = 0 ∧
      (rpcProtoDecompress halveRegistry .zlib (rpcProtoCompress halveRegistry .zlib [5, 6, 5, 6] freshBuffer).1.data
        freshBuffer).1.data = [5, 6, 5, 6] := by
  have restores : Restores halve double [5, 6, 5, 6] 4096 4096 := by
    unfold Restores
    decide
  have packs : halveRegistry.compressFns .zlib = some halve := rfl
  have unpacks : halveRegistry.decompressFns .zlib = some double := rfl
  have exactly := rpc_compress_round_trip_iff packs unpacks double_inverts_halve [5, 6, 5, 6] freshBuffer freshBuffer
  exact ⟨by decide, exactly.2.mpr (.inr restores)⟩

/-- Data that does not shrink is stored as it is, and the decompressor rejects it. -/
theorem stored_data_rejected :
    Inverts unmark mark ∧ markRegistry.compressFns .zlib = some mark ∧ markRegistry.decompressFns .zlib = some unmark ∧
      ¬ ((rpcProtoDecompress markRegistry .zlib (rpcProtoCompress markRegistry .zlib [5] freshBuffer).1.data
          freshBuffer).2 = 0 ∧
        (rpcProtoDecompress markRegistry .zlib (rpcProtoCompress markRegistry .zlib [5] freshBuffer).1.data
          freshBuffer).1.data = [5]) := by
  refine ⟨unmark_inverts_mark, rfl, rfl, ?_⟩
  rintro ⟨success, -⟩
  exact absurd success (by decide)

end Stored

end MiniNetDist.RpcFramework.Compression
