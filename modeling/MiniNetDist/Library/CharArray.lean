import MiniNetDist.Library.Table
import Mathlib.Data.List.TakeWhile

/-! C strings in memory: a string ends at the first zero byte, and a character array has room for a string and
its terminator. -/

namespace MiniNetDist.Library

/-- The bytes of a C string: those before the first zero. -/
def cString (memory : List UInt8) : CString := memory.takeWhile (· ≠ 0)

theorem cString_eq {memory : List UInt8} (plain : 0 ∉ memory) : cString memory = memory := by
  rw [cString, List.takeWhile_eq_self_iff]
  intro byte inside
  have : byte ≠ 0 := fun zero => plain (zero ▸ inside)
  simpa using this

theorem length_cString_le (memory : List UInt8) : (cString memory).length ≤ memory.length :=
  (List.takeWhile_prefix _).length_le

theorem zero_notMem_cString (memory : List UInt8) : 0 ∉ cString memory := by
  intro inside
  simpa using List.mem_takeWhile_imp inside

/-- The bytes of a string literal. -/
def ascii (text : String) : CString := text.toList.map fun char => .ofNat char.toNat

/-- An array of `size` characters with a string in it. -/
structure CharArray (size : Nat) where
  text : CString
  fits : text.length ≤ size - 1
  plain : 0 ∉ text
  deriving DecidableEq, Repr

namespace CharArray

variable {size : Nat}

theorem ext_text {left right : CharArray size} (same : left.text = right.text) : left = right := by
  cases left
  cases right
  cases same
  rfl

/-- The array after memory was copied into it and terminated. -/
def store (size : Nat) (memory : List UInt8) : CharArray size :=
  ⟨cString (memory.take (size - 1)),
    Nat.le_trans (length_cString_le _) (List.length_take_le _ _), zero_notMem_cString _⟩

/-- A string that fits is stored as it is. -/
theorem text_store {memory : List UInt8} (fits : memory.length ≤ size - 1) (plain : 0 ∉ memory) :
    (store size memory).text = memory := by
  change cString (memory.take (size - 1)) = memory
  rw [List.take_of_length_le fits, cString_eq plain]

theorem length_store_le (size : Nat) (memory : List UInt8) : (store size memory).text.length ≤ memory.length :=
  Nat.le_trans (length_cString_le _) (List.length_take_le' _ _)

/-- What an array holds, copied from it, is the same array. -/
theorem store_text (array : CharArray size) : store size array.text = array :=
  ext_text (text_store array.fits array.plain)

end CharArray

end MiniNetDist.Library
