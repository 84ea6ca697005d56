import MiniNetDist.Library.Bytes
import MiniNetDist.Library.CharArray

/-! The values and messages of `mini-rpc-framework/include/rpc_encoding.h`. -/

namespace MiniNetDist.RpcFramework

open Library

def RPC_MAX_PARAMS : Nat := 16
def RPC_MAX_METHOD_NAME : Nat := 128
def RPC_MAX_ARRAY_LEN : Nat := 64

/-- The type of a value; the decoder stores any byte it reads as one. -/
inductive RPCValueType where
  | int32
  | int64
  | string
  | bool
  | float
  | array
  | null
  | other (code : UInt8)
  deriving DecidableEq, Repr

def RPCValueType.toByte : RPCValueType → UInt8
  | .int32 => 0
  | .int64 => 1
  | .string => 2
  | .bool => 3
  | .float => 4
  | .array => 5
  | .null => 6
  | .other code => code

def RPCValueType.ofByte (byte : UInt8) : RPCValueType :=
  if byte = 0 then .int32
  else if byte = 1 then .int64
  else if byte = 2 then .string
  else if byte = 3 then .bool
  else if byte = 4 then .float
  else if byte = 5 then .array
  else if byte = 6 then .null
  else .other byte

/-- A value with its type. A string is the memory before its terminator, an array its elements in memory and the
length that is stored for them; `unset` is a type that was stored without a value. -/
inductive RPCValue where
  | int32 (value : BitVec 32)
  | int64 (value : BitVec 64)
  | string (value : Bytes)
  | bool (value : Bool)
  | float (value : Float)
  | array (elemType : RPCValueType) (len : BitVec 32) (data : List (BitVec 32))
  | null
  | other (code : UInt8)
  | unset (type : RPCValueType)

structure RPCMessage where
  id : BitVec 32
  methodName : CString
  params : List RPCValue
  paramCount : Nat
  isRequest : Bool
  isError : Bool
  errorMsg : CString

def rpcMessageInit : RPCMessage := ⟨0#32, [], List.replicate RPC_MAX_PARAMS .null, 0, true, false, []⟩

theorem RPCValueType.toByte_ofByte (byte : UInt8) : (ofByte byte).toByte = byte := by
  unfold ofByte
  split_ifs with h0 h1 h2 h3 h4 h5 h6
  · exact h0.symm
  · exact h1.symm
  · exact h2.symm
  · exact h3.symm
  · exact h4.symm
  · exact h5.symm
  · exact h6.symm
  · rfl

end MiniNetDist.RpcFramework
