import Gratia.Vm.Gas
import Gratia.Support.Codec

/-!
# Vm — Values

The values and errors of `gratia-vm/src/interpreter.rs`, and from `runtime.rs` the values a contract
is called with.  A float is its bit pattern: loads, stores, constants and reinterpretations pass the
pattern through, and arithmetic reads it as the number it stands for.
-/

namespace Gratia

open Support

inductive ValType where
  | i32 | i64 | f32 | f64
deriving DecidableEq

inductive Value where
  | i32 (v : Int32)
  | i64 (v : Int64)
  | f32 (bits : UInt32)
  | f64 (bits : UInt64)
deriving DecidableEq

/-- `InterpError`.  `panicked` is not in the source: it stands for a Rust panic, which no handler
of the source catches. -/
inductive InterpError where
  | invalidBytecode (message : String)
  | stackUnderflow
  | typeMismatch (expected got : String)
  | undefinedFunction (idx : UInt32)
  | undefinedGlobal (idx : UInt32)
  | undefinedLocal (idx : UInt32)
  | divisionByZero
  | functionReturn
  | branch (depth : UInt32)
  | gas (e : GasError)
  | hostError (message : String)
  | panicked
deriving DecidableEq

def InterpError.toText : InterpError → String
  | invalidBytecode message => "invalid bytecode: " ++ message
  | stackUnderflow => "stack underflow"
  | typeMismatch expected got => s!"type mismatch: expected {expected}, got {got}"
  | undefinedFunction idx => s!"undefined function index: {idx}"
  | undefinedGlobal idx => s!"undefined global index: {idx}"
  | undefinedLocal idx => s!"undefined local index: {idx}"
  | divisionByZero => "integer division by zero"
  | functionReturn => "function return (internal)"
  | branch depth => s!"branch to depth {depth} (internal)"
  | gas e => "gas error: " ++ e.toText
  | hostError message => "host function error: " ++ message
  | panicked => "panicked"

def hexByte (b : UInt8) : String :=
  (String.ofList [Nat.digitChar (b.toNat / 16), Nat.digitChar (b.toNat % 16)]).toUpper

def ValType.fromByte (b : UInt8) : Except InterpError ValType :=
  match b with
  | 0x7F => .ok .i32
  | 0x7E => .ok .i64
  | 0x7D => .ok .f32
  | 0x7C => .ok .f64
  | _ => .error (.invalidBytecode ("unknown value type: 0x" ++ hexByte b))

namespace Value

def typeName : Value → String
  | i32 _ => "i32"
  | i64 _ => "i64"
  | f32 _ => "f32"
  | f64 _ => "f64"

def asI32 : Value → Except InterpError Int32
  | i32 v => .ok v
  | v => .error (.typeMismatch "i32" v.typeName)

def asI64 : Value → Except InterpError Int64
  | i64 v => .ok v
  | v => .error (.typeMismatch "i64" v.typeName)

def asF32 : Value → Except InterpError UInt32
  | f32 v => .ok v
  | v => .error (.typeMismatch "f32" v.typeName)

def asF64 : Value → Except InterpError UInt64
  | f64 v => .ok v
  | v => .error (.typeMismatch "f64" v.typeName)

def defaultForValtype : ValType → Value
  | .i32 => i32 0
  | .i64 => i64 0
  | .f32 => f32 0
  | .f64 => f64 0

end Value

inductive ContractValue where
  | i32 (v : Int32)
  | i64 (v : Int64)
  | f32 (bits : UInt32)
  | f64 (bits : UInt64)
  | bytes (v : Bytes)
  | string (v : String)
  | bool (v : Bool)
  | void
deriving DecidableEq

def Value.toContractValue : Value → ContractValue
  | i32 v => .i32 v
  | i64 v => .i64 v
  | f32 v => .f32 v
  | f64 v => .f64 v

def contractValueToValue : ContractValue → Value
  | .i32 v => .i32 v
  | .i64 v => .i64 v
  | .f32 v => .f32 v
  | .f64 v => .f64 v
  | .bool b => .i32 (if b then 1 else 0)
  | _ => .i32 0

/-! ### Words in memory -/

/-- `i32::to_le_bytes`, also of an `f32`. -/
def toLeBytes32 (n : UInt32) : Bytes := leBytes 4 n.toNat

/-- `i64::to_le_bytes`, also of an `f64`. -/
def toLeBytes64 (n : UInt64) : Bytes := leBytes 8 n.toNat

/-- `i32::from_le_bytes`, also of an `f32`. -/
def fromLeBytes32 (bs : Bytes) : UInt32 := UInt32.ofNat (ofLeBytes bs)

/-- `i64::from_le_bytes`, also of an `f64`. -/
def fromLeBytes64 (bs : Bytes) : UInt64 := UInt64.ofNat (ofLeBytes bs)

end Gratia
