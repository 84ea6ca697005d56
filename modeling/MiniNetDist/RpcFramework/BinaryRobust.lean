import MiniNetDist.RpcFramework.BinaryRoundTrip

/-! The binary decoder on any input. It reports success also when it gave up in the middle, reads a
Boolean without looking for the end, and takes lengths as they come. -/

namespace MiniNetDist.RpcFramework

open Library

/-- The decoder stays within the input and uses no negative length; when it reports success, it has decoded every
parameter to its end, and every array has the length it says, which is not over the limit. -/
def Robust (data : Bytes) : Prop :=
  ∃ result msg finished, rpcDecodeBinary data = .ok (result, msg, finished) ∧
    (result = 0 → finished = msg.paramCount ∧ ∀ value ∈ msg.params.take msg.paramCount, value.Whole)

/-- The input is too short for a header, or has the bytes of as many complete parameters as it announces. -/
def WellFormed (data : Bytes) : Prop :=
  inputLen data < 10 ∨ ∃ values, values.length = announced data ∧ Delimited data (inputLen data) values 10

theorem Spells.whole {item : Bytes} {value : RPCValue} (spelled : Spells item value) : value.Whole := by
  cases spelled with
  | array elems few =>
    have limit : RPC_MAX_ARRAY_LEN = 64 := rfl
    have length := (toNat_ofNat_of_lt (show elems.length < 2147483648 by omega)).2
    exact ⟨by rw [length]; exact Int.ofNat_le.mpr few, length⟩
  | emptyArray type other => exact ⟨by decide, rfl⟩
  | _ => trivial

theorem Delimited.whole {data : Bytes} {len : Int} {values : List RPCValue} {pos : Nat}
    (delimited : Delimited data len values pos) : ∀ value ∈ values, value.Whole := by
  induction delimited with
  | nil pos =>
    intro value member
    cases member
  | cons spelled there inside rest ih =>
    intro value member
    rcases List.mem_cons.mp member with rfl | later
    · exact spelled.whole
    · exact ih value later

theorem WellFormed.robust {data : Bytes} (formed : WellFormed data) : Robust data := by
  by_cases short : inputLen data < 10
  · exact ⟨-1, rpcMessageInit, 0, rpcDecodeBinary_of_short short, fun success => absurd success (by decide)⟩
  · rcases formed with tooShort | ⟨values, count, delimited⟩
    · exact absurd tooShort short
    · have bounds := inputLen_bounds data
      have decoded := delimited.complete bounds.1 bounds.2
      rw [count] at decoded
      refine ⟨0, decodedMessage data values, announced data, ?_, fun _ => ⟨rfl, ?_⟩⟩
      · rw [rpcDecodeBinary_of_long (by omega), decoded, ok_bind]
      · have taken : (decodedMessage data values).params.take (decodedMessage data values).paramCount = values := by
          rw [decodedMessage, List.take_append_of_le_length (Nat.le_of_eq count.symm),
            List.take_of_length_le (Nat.le_of_eq count)]
        rw [taken]
        exact delimited.whole

theorem Robust.wellFormed {data : Bytes} (robust : Robust data) : WellFormed data := by
  by_cases short : inputLen data < 10
  · exact .inl short
  · right
    obtain ⟨result, msg, finished, decoded, success⟩ := robust
    rw [rpcDecodeBinary_of_long (by omega), bind_eq_ok_iff] at decoded
    obtain ⟨⟨values, complete⟩, loop, result⟩ := decoded
    obtain ⟨rfl, rest⟩ := Prod.mk.inj (Except.ok.inj result)
    obtain ⟨rfl, rfl⟩ := Prod.mk.inj rest
    obtain ⟨all, whole⟩ := success rfl
    have stored : ∀ value ∈ values, value.Whole := by
      intro value member
      apply whole
      rw [decodedMessage, List.take_append, List.take_of_length_le (decodeParams_length_le loop)]
      exact List.mem_append_left _ member
    obtain ⟨done, rest, split, delimited, counted, ended⟩ := decodeParams_sound loop stored
    have count : done.length = announced data := counted.symm.trans all
    exact ⟨done, count, delimited⟩

/-- The decoder is robust on exactly those inputs that are well formed or too short to look at. -/
theorem rpc_decode_binary_robust_iff (data : Bytes) : Robust data ↔ WellFormed data :=
  ⟨Robust.wellFormed, WellFormed.robust⟩

/-- A message whose one parameter is a Boolean without its byte: the decoder reads behind the input. -/
theorem missing_boolean_not_robust : ¬ Robust [1, 0, 0, 0, 6, 0, 0, 0, 0, 1, 3] := by
  rintro ⟨result, msg, finished, decoded, -⟩
  have fault : rpcDecodeBinary [1, 0, 0, 0, 6, 0, 0, 0, 0, 1, 3] = .error .outsideInput := rfl
  cases fault.symm.trans decoded

end MiniNetDist.RpcFramework
