import MiniNetDist.AppProtocol.Mqtt

/-! The remaining length of `mini-app-protocol/src/mqtt.c`, with the return value of its reader, which does not say
whether the last byte that was read ends the number. -/

namespace MiniNetDist.AppProtocol.Mqtt

open Library

/-- The return value of `mqtt_decode_remaining_length`, and what it stores in `value` and `consumed`. -/
def mqttDecodeRemainingLengthCall (data : Bytes) : Int × BitVec 32 × Nat := (0, mqttDecodeRemainingLength data)

/-- The reader returns 0 only if the input begins with a number of at most four bytes, which it consumes. -/
def ReturnsForNumbers (data : Bytes) : Prop :=
  (mqttDecodeRemainingLengthCall data).1 = 0 → ∃ code, Varint.Complete code ∧ code.length ≤ 4 ∧ code <+: data ∧
    (mqttDecodeRemainingLengthCall data).2.2 = code.length

theorem returnsForNumbers_iff (data : Bytes) :
    ReturnsForNumbers data ↔ ∃ byte ∈ data.take 4, byte &&& 0x80 = 0 := by
  rw [← Varint.exists_complete_iff]
  constructor
  · intro returns
    obtain ⟨code, complete, short, begins, -⟩ := returns rfl
    exact ⟨code, complete, short, begins⟩
  · intro ⟨code, complete, short, begins⟩ _
    exact ⟨code, complete, short, begins, Varint.decode_complete complete short begins⟩

/-- Every length below 2^28 becomes a number that is read back, whatever follows it; and for every input, the reader returns 0 for nothing
but a number of at most four bytes exactly if one of the first four bytes has its top bit clear. -/
theorem mqttDecodeRemainingLength_exact (data : Bytes) :
    (∀ (value : BitVec 32) (rest : Bytes), value.toNat < 2 ^ 28 →
      Varint.Complete (mqttEncodeRemainingLength value) ∧
        mqttDecodeRemainingLengthCall (mqttEncodeRemainingLength value ++ rest) =
          (0, value, (mqttEncodeRemainingLength value).length)) ∧
    (ReturnsForNumbers data ↔ ∃ byte ∈ data.take 4, byte &&& 0x80 = 0) := by
  refine ⟨?_, returnsForNumbers_iff data⟩
  intro value rest short
  have read := mqttDecodeRemainingLength_encode short rest
  rw [BitVec.ofNat_toNat, BitVec.setWidth_eq] at read
  refine ⟨Varint.complete_encode 4 value.toNat (Nat.lt_trans short (by decide)), ?_⟩
  rw [mqttDecodeRemainingLengthCall, read]

/-- The length 321 in two bytes, and a third byte that is left. -/
theorem mqttDecodeRemainingLength_321 : mqttDecodeRemainingLengthCall ([0xC1, 0x02] ++ [0xFF]) = (0, 321#32, 2) :=
  ((mqttDecodeRemainingLength_exact []).1 321#32 [0xFF] (by decide)).2

/-- The reader returns 0 for no byte, for one byte that says another follows, and for four of them. -/
theorem mqttDecodeRemainingLength_accepts :
    ¬ReturnsForNumbers [] ∧ ¬ReturnsForNumbers [0x80] ∧ ¬ReturnsForNumbers [0xFF, 0xFF, 0xFF, 0xFF] := by
  refine ⟨?_, ?_, ?_⟩ <;>
  · rw [returnsForNumbers_iff]
    decide

end MiniNetDist.AppProtocol.Mqtt
