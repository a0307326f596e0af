import Gratia.Vm.Module

/-!
# Vm — Instructions

One turn of the loop of `execute_block` in `gratia-vm/src/interpreter.rs`, as far as it concerns the
frame and the contract's own globals and memory.

Every opcode of the source reads its immediates before it does anything else, and the two skipping
functions read the same immediates to step over an instruction.  So reading is one function,
`decode`, into a type of instructions; `perform` is what the opcode then does, and the `Action` it
returns is what is left to the interpreter's recursion.
-/

namespace Gratia

open Support Reader

inductive LoadOp where
  | i32 | i64 | f32 | f64 | i32Load8S | i32Load8U
deriving DecidableEq

inductive StoreOp where
  | i32 | i64 | f32 | f64 | i32Store8
deriving DecidableEq

/-- An opcode with its immediates.  Block types, alignments and reserved bytes are read and ignored;
`plain` is every opcode without immediates that is not listed. -/
inductive Instr where
  | unreachable | nop | block | loop | «if» | «else» | «end»
  | br (depth : UInt32)
  | brIf (depth : UInt32)
  | «return»
  | call (funcIdx : UInt32)
  | drop
  | localGet (idx : UInt32)
  | localSet (idx : UInt32)
  | localTee (idx : UInt32)
  | globalGet (idx : UInt32)
  | globalSet (idx : UInt32)
  | load (op : LoadOp) (offset : UInt32)
  | store (op : StoreOp) (offset : UInt32)
  | memorySize
  | memoryGrow
  | const (v : Value)
  | plain (opcode : UInt8)
deriving DecidableEq

/-- The immediates of a load or store: the alignment, which is ignored, and the offset. -/
def readMemarg : Read UInt32 := do
  let _align ← readU32Leb128
  readU32Leb128

/-- The rest of an instruction, after its opcode. -/
def decode (opcode : UInt8) : Read Instr :=
  match opcode with
  | 0x00 => return .unreachable
  | 0x01 => return .nop
  | 0x02 => do let _blockType ← readByte; return .block
  | 0x03 => do let _blockType ← readByte; return .loop
  | 0x04 => do let _blockType ← readByte; return .if
  | 0x05 => return .else
  | 0x0B => return .end
  | 0x0C => .br <$> readU32Leb128
  | 0x0D => .brIf <$> readU32Leb128
  | 0x0F => return .return
  | 0x10 => .call <$> readU32Leb128
  | 0x1A => return .drop
  | 0x20 => .localGet <$> readU32Leb128
  | 0x21 => .localSet <$> readU32Leb128
  | 0x22 => .localTee <$> readU32Leb128
  | 0x23 => .globalGet <$> readU32Leb128
  | 0x24 => .globalSet <$> readU32Leb128
  | 0x28 => .load .i32 <$> readMemarg
  | 0x29 => .load .i64 <$> readMemarg
  | 0x2A => .load .f32 <$> readMemarg
  | 0x2B => .load .f64 <$> readMemarg
  | 0x2C => .load .i32Load8S <$> readMemarg
  | 0x2D => .load .i32Load8U <$> readMemarg
  | 0x36 => .store .i32 <$> readMemarg
  | 0x37 => .store .i64 <$> readMemarg
  | 0x38 => .store .f32 <$> readMemarg
  | 0x39 => .store .f64 <$> readMemarg
  | 0x3A => .store .i32Store8 <$> readMemarg
  | 0x3F => do let _reserved ← readByte; return .memorySize
  | 0x40 => do let _reserved ← readByte; return .memoryGrow
  | 0x41 => (.const ∘ .i32) <$> readI32Leb128
  | 0x42 => (.const ∘ .i64) <$> readI64Leb128
  | 0x43 => (.const ∘ .f32) <$> readF32
  | 0x44 => (.const ∘ .f64) <$> readF64
  | opcode => return .plain opcode

/-! ### Skipping -/

/-- The loop of `skip_to_else_or_end` and `skip_to_end`, which differ in whether an `else` of their
own block stops them.  It runs on the bytes that remain: each turn reads one at least. -/
def skipTo (atElse : Bool) (failure : String) : ℕ → ℕ → Read Unit
  | 0, _ => throw (.invalidBytecode failure)
  | fuel + 1, depth => do
    if (← get).remaining = 0 then throw (.invalidBytecode failure)
    else
      let opcode ← readByte
      match ← decode opcode with
      | .block | .loop | .if => skipTo atElse failure fuel (depth + 1)
      | .else => if atElse && depth == 0 then return () else skipTo atElse failure fuel depth
      | .end => if depth = 0 then return () else skipTo atElse failure fuel (depth - 1)
      | _ => skipTo atElse failure fuel depth

def skipToElseOrEnd : Read Unit := do
  skipTo true "unexpected end of block while skipping" (← get).remaining 0

def skipToEnd : Read Unit := do
  skipTo false "unexpected end of block while skipping to end" (← get).remaining 0

/-! ### The operand stack -/

/-- A computation on the operand stack, whose top is the head of the list. -/
abbrev StackM := EStateM InterpError (List Value)

/-- `stack.pop().ok_or(InterpError::StackUnderflow)?`. -/
def pop : StackM Value := fun stack =>
  match stack with
  | [] => .error .stackUnderflow []
  | v :: stack => .ok v stack

def push (v : Value) : StackM Unit := fun stack => .ok () (v :: stack)

/-- A pop, read at a type. -/
def popAs {α : Type} (as : Value → Except InterpError α) : StackM α := do
  match as (← pop) with
  | .ok a => return a
  | .error e => throw e

def popI32 : StackM Int32 := popAs Value.asI32
def popI64 : StackM Int64 := popAs Value.asI64
def popF32 : StackM UInt32 := popAs Value.asF32
def popF64 : StackM UInt64 := popAs Value.asF64

def unary {α : Type} (popOperand : StackM α) (f : α → Value) : StackM Unit := do
  let a ← popOperand
  push (f a)

/-- An operator on two operands; the second lies on top. -/
def binary {α : Type} (popOperand : StackM α) (f : α → α → Value) : StackM Unit := do
  let b ← popOperand
  let a ← popOperand
  push (f a b)

def division {α : Type} [DecidableEq α] [Zero α] (popOperand : StackM α) (f : α → α → Value) :
    StackM Unit := do
  let b ← popOperand
  let a ← popOperand
  if b = 0 then throw .divisionByZero else push (f a b)

def Value.ofBool (b : Bool) : Value := .i32 (if b then 1 else 0)

def f32Op (f : Float32 → Float32 → Float32) (a b : UInt32) : Value :=
  .f32 (f (.ofBits a) (.ofBits b)).toBits

def f64Op (f : Float → Float → Float) (a b : UInt64) : Value :=
  .f64 (f (.ofBits a) (.ofBits b)).toBits

def f32Cmp (f : Float32 → Float32 → Bool) (a b : UInt32) : Value :=
  .ofBool (f (.ofBits a) (.ofBits b))

def f64Cmp (f : Float → Float → Bool) (a b : UInt64) : Value :=
  .ofBool (f (.ofBits a) (.ofBits b))

/-- The comparisons, operators and conversions: the opcodes that only touch the operand stack. -/
def numeric (opcode : UInt8) : Option (StackM Unit) :=
  match opcode with
  -- i32 comparisons
  | 0x45 => some (unary popI32 fun a => .ofBool (a == 0))
  | 0x46 => some (binary popI32 fun a b => .ofBool (a == b))
  | 0x47 => some (binary popI32 fun a b => .ofBool (a != b))
  | 0x48 => some (binary popI32 fun a b => .ofBool (a < b))
  | 0x4A => some (binary popI32 fun a b => .ofBool (a > b))
  | 0x4C => some (binary popI32 fun a b => .ofBool (a ≤ b))
  | 0x4E => some (binary popI32 fun a b => .ofBool (a ≥ b))
  -- i64 comparisons
  | 0x51 => some (binary popI64 fun a b => .ofBool (a == b))
  | 0x52 => some (binary popI64 fun a b => .ofBool (a != b))
  | 0x53 => some (binary popI64 fun a b => .ofBool (a < b))
  | 0x55 => some (binary popI64 fun a b => .ofBool (a > b))
  | 0x57 => some (binary popI64 fun a b => .ofBool (a ≤ b))
  | 0x59 => some (binary popI64 fun a b => .ofBool (a ≥ b))
  -- f32 comparisons
  | 0x5B => some (binary popF32 (f32Cmp (· == ·)))
  | 0x5C => some (binary popF32 (f32Cmp (· != ·)))
  | 0x5D => some (binary popF32 (f32Cmp (· < ·)))
  | 0x5E => some (binary popF32 (f32Cmp (· > ·)))
  | 0x5F => some (binary popF32 (f32Cmp (· ≤ ·)))
  | 0x60 => some (binary popF32 (f32Cmp (· ≥ ·)))
  -- f64 comparisons
  | 0x61 => some (binary popF64 (f64Cmp (· == ·)))
  | 0x62 => some (binary popF64 (f64Cmp (· != ·)))
  | 0x63 => some (binary popF64 (f64Cmp (· < ·)))
  | 0x64 => some (binary popF64 (f64Cmp (· > ·)))
  | 0x65 => some (binary popF64 (f64Cmp (· ≤ ·)))
  | 0x66 => some (binary popF64 (f64Cmp (· ≥ ·)))
  -- i32 arithmetic
  | 0x6A => some (binary popI32 fun a b => .i32 (a + b))
  | 0x6B => some (binary popI32 fun a b => .i32 (a - b))
  | 0x6C => some (binary popI32 fun a b => .i32 (a * b))
  | 0x6D => some (division popI32 fun a b => .i32 (a / b))
  | 0x6F => some (division popI32 fun a b => .i32 (a % b))
  | 0x71 => some (binary popI32 fun a b => .i32 (a &&& b))
  | 0x72 => some (binary popI32 fun a b => .i32 (a ||| b))
  | 0x73 => some (binary popI32 fun a b => .i32 (a ^^^ b))
  -- i64 arithmetic
  | 0x7C => some (binary popI64 fun a b => .i64 (a + b))
  | 0x7D => some (binary popI64 fun a b => .i64 (a - b))
  | 0x7E => some (binary popI64 fun a b => .i64 (a * b))
  | 0x7F => some (division popI64 fun a b => .i64 (a / b))
  | 0x81 => some (division popI64 fun a b => .i64 (a % b))
  -- f32 arithmetic; negation flips the sign bit, of a NaN as well
  | 0x8C => some (unary popF32 fun a => .f32 (a ^^^ 0x80000000))
  | 0x92 => some (binary popF32 (f32Op (· + ·)))
  | 0x93 => some (binary popF32 (f32Op (· - ·)))
  | 0x94 => some (binary popF32 (f32Op (· * ·)))
  | 0x95 => some (binary popF32 (f32Op (· / ·)))
  -- f64 arithmetic
  | 0x9A => some (unary popF64 fun a => .f64 (a ^^^ 0x8000000000000000))
  | 0xA0 => some (binary popF64 (f64Op (· + ·)))
  | 0xA1 => some (binary popF64 (f64Op (· - ·)))
  | 0xA2 => some (binary popF64 (f64Op (· * ·)))
  | 0xA3 => some (binary popF64 (f64Op (· / ·)))
  -- conversions
  | 0xA7 => some (unary popI64 fun v => .i32 v.toInt32)
  | 0xA8 => some (unary popF32 fun v => .i32 (Float32.ofBits v).toInt32)
  | 0xA9 => some (unary popF32 fun v => .i32 (Float32.ofBits v).toUInt32.toInt32)
  | 0xAA => some (unary popF64 fun v => .i32 (Float.ofBits v).toInt32)
  | 0xAB => some (unary popF64 fun v => .i32 (Float.ofBits v).toUInt32.toInt32)
  | 0xAC => some (unary popI32 fun v => .i64 v.toInt64)
  | 0xAD => some (unary popI32 fun v => .i64 v.toUInt32.toUInt64.toInt64)
  | 0xAE => some (unary popF32 fun v => .i64 (Float32.ofBits v).toInt64)
  | 0xB0 => some (unary popF64 fun v => .i64 (Float.ofBits v).toInt64)
  | 0xB2 => some (unary popI32 fun v => .f32 v.toFloat32.toBits)
  | 0xB3 => some (unary popI32 fun v => .f32 v.toUInt32.toFloat32.toBits)
  | 0xB4 => some (unary popI64 fun v => .f32 v.toFloat32.toBits)
  | 0xB6 => some (unary popF64 fun v => .f32 (Float.ofBits v).toFloat32.toBits)
  | 0xB7 => some (unary popI32 fun v => .f64 v.toFloat.toBits)
  | 0xB8 => some (unary popI32 fun v => .f64 v.toUInt32.toFloat.toBits)
  | 0xB9 => some (unary popI64 fun v => .f64 v.toFloat.toBits)
  | 0xBB => some (unary popF32 fun v => .f64 (Float32.ofBits v).toFloat.toBits)
  | 0xBC => some (unary popF32 fun v => .i32 v.toInt32)
  | 0xBD => some (unary popF64 fun v => .i64 v.toInt64)
  | 0xBE => some (unary popI32 fun v => .f32 v.toUInt32)
  | 0xBF => some (unary popI64 fun v => .f64 v.toUInt64)
  | _ => none

/-! ### The frame and the contract's state -/

structure Frame where
  reader : Reader
  stack : List Value
  locals : List Value
deriving DecidableEq

/-- What all functions of a contract share: its globals and its linear memory. -/
structure Store where
  globals : List Value
  memory : Bytes
deriving DecidableEq

structure Machine where
  frame : Frame
  store : Store
deriving DecidableEq

abbrev Step := EStateM InterpError Machine

def Machine.withReader (m : Machine) (r : Reader) : Machine :=
  { m with frame := { m.frame with reader := r } }

def reading {α : Type} (x : Read α) : Step α := fun m =>
  match x m.frame.reader with
  | .ok a r => .ok a (m.withReader r)
  | .error e r => .error e (m.withReader r)

def stacking {α : Type} (x : StackM α) : Step α := fun m =>
  match x m.frame.stack with
  | .ok a stack => .ok a { m with frame := { m.frame with stack := stack } }
  | .error e stack => .error e { m with frame := { m.frame with stack := stack } }

/-! ### What an instruction does -/

/-- What is left to do after an instruction: go on with the next one, leave the block, run a block
that starts here, run a loop that starts at a position, or call a function. -/
inductive Action where
  | next
  | finish
  | enter
  | loop (start : ℕ)
  | call (funcIdx : UInt32) (args : List Value)
deriving DecidableEq

def WasmModule.typeIdx? (m : WasmModule) (funcIdx : UInt32) : Option UInt32 :=
  if funcIdx < m.importFuncCount then m.imports[funcIdx.toNat]?.map (·.typeIdx)
  else m.functions[(funcIdx - m.importFuncCount).toNat]?.map (·.typeIdx)

def WasmModule.funcType? (m : WasmModule) (funcIdx : UInt32) : Option FuncType :=
  m.typeIdx? funcIdx >>= fun typeIdx => m.types[typeIdx.toNat]?

/-- The address of a load or store: a base from the stack, plus the offset. -/
def memoryAddress (base : Int32) (offset : UInt32) : Except InterpError ℕ :=
  let addr := base.toUInt32.toNat + offset.toNat
  -- `checked_add` on `usize`
  if addr < 2 ^ 64 then .ok addr else .error (.hostError "memory address overflow")

namespace LoadOp

def width : LoadOp → ℕ
  | i32 | f32 => 4
  | i64 | f64 => 8
  | i32Load8S | i32Load8U => 1

def value : LoadOp → Bytes → Value
  | i32, bs => .i32 (fromLeBytes32 bs).toInt32
  | i64, bs => .i64 (fromLeBytes64 bs).toInt64
  | f32, bs => .f32 (fromLeBytes32 bs)
  | f64, bs => .f64 (fromLeBytes64 bs)
  | i32Load8S, bs => .i32 (UInt8.ofNat (ofLeBytes bs)).toInt8.toInt32
  | i32Load8U, bs => .i32 (UInt8.ofNat (ofLeBytes bs)).toUInt32.toInt32

end LoadOp

def StoreOp.popBytes : StoreOp → StackM Bytes
  | i32 => do return toLeBytes32 (← popI32).toUInt32
  | i64 => do return toLeBytes64 (← popI64).toUInt64
  | f32 => toLeBytes32 <$> popF32
  | f64 => toLeBytes64 <$> popF64
  | i32Store8 => do return [(← popI32).toUInt32.toUInt8]

/-- `memory[addr..addr + bytes.len()].copy_from_slice(&bytes)`. -/
def copyAt (memory : Bytes) (addr : ℕ) (bytes : Bytes) : Bytes :=
  memory.take addr ++ bytes ++ memory.drop (addr + bytes.length)

def checkBounds (addr width : ℕ) (memory : Bytes) : Except InterpError Unit :=
  if addr + width > memory.length then
    .error (.hostError s!"memory access out of bounds: {addr}")
  else .ok ()

def orThrow {α : Type} : Except InterpError α → Step α
  | .ok a => pure a
  | .error e => throw e

def setMemory (memory : Bytes) : Step Unit :=
  modify fun m => { m with store := { m.store with memory := memory } }

def performLoad (op : LoadOp) (offset : UInt32) : Step Unit := do
  let base ← stacking popI32
  let addr ← orThrow (memoryAddress base offset)
  let memory := (← get).store.memory
  orThrow (checkBounds addr op.width memory)
  stacking (push (op.value ((memory.drop addr).take op.width)))

def performStore (op : StoreOp) (offset : UInt32) : Step Unit := do
  let bytes ← stacking op.popBytes
  let base ← stacking popI32
  let addr ← orThrow (memoryAddress base offset)
  let memory := (← get).store.memory
  orThrow (checkBounds addr bytes.length memory)
  setMemory (copyAt memory addr bytes)

@[simp] theorem length_copyAt {memory bytes : Bytes} {addr : ℕ}
    (h : addr + bytes.length ≤ memory.length) :
    (copyAt memory addr bytes).length = memory.length := by
  simp only [copyAt, List.length_append, List.length_take, List.length_drop]
  omega

/-- The page cap of `memory.grow`. -/
def growCap : ℕ := 4096

def pageSize : ℕ := 65536

def resize (memory : Bytes) (size : ℕ) : Bytes :=
  memory.take size ++ List.replicate (size - memory.length) 0

@[simp] theorem length_resize (memory : Bytes) (size : ℕ) :
    (resize memory size).length = size := by
  simp only [resize, List.length_append, List.length_take, List.length_replicate]
  omega

def performGrow : Step Unit := do
  let deltaRaw ← stacking popI32
  let memory := (← get).store.memory
  let currentPages := UInt32.ofNat (memory.length / pageSize)
  if deltaRaw < 0 then stacking (push (.i32 (-1)))
  else
    -- `checked_add(delta).unwrap_or(u32::MAX)`: both ways past the cap
    let newPages := min (currentPages.toNat + deltaRaw.toUInt32.toNat) (2 ^ 32 - 1)
    if newPages > growCap then stacking (push (.i32 (-1)))
    else
      setMemory (resize memory (newPages * pageSize))
      stacking (push (.i32 currentPages.toInt32))

def setLocal (idx : UInt32) (v : Value) : Step Unit := do
  let m ← get
  if idx.toNat ≥ m.frame.locals.length then throw (.undefinedLocal idx)
  else set { m with frame := { m.frame with locals := m.frame.locals.set idx.toNat v } }

def setGlobal (idx : UInt32) (v : Value) : Step Unit := do
  let m ← get
  if idx.toNat ≥ m.store.globals.length then throw (.undefinedGlobal idx)
  else set { m with store := { m.store with globals := m.store.globals.set idx.toNat v } }

/-- Take the arguments of a call off the stack: `stack.split_off(stack.len() - param_count)`. -/
def popArgs (paramCount : ℕ) : StackM (List Value) := fun stack =>
  if stack.length < paramCount then .error .stackUnderflow stack
  else .ok (stack.take paramCount).reverse (stack.drop paramCount)

/-- The `match opcode` of `execute_block`, after the immediates are read. -/
def perform (m : WasmModule) : Instr → Step Action
  | .unreachable => throw (.hostError "unreachable executed")
  | .nop => return .next
  | .block => return .enter
  | .loop => do return .loop (← get).frame.reader.pos
  | .if => do
    let condition ← stacking popI32
    if condition ≠ 0 then return .enter
    else
      reading skipToElseOrEnd
      -- the scan stopped behind the `else` or the `end`
      let r := (← get).frame.reader
      if r.pos > 0 && r.data[r.pos - 1]? == some 0x05 then return .enter else return .next
  | .else => do reading skipToEnd; return .finish
  | .end => return .finish
  | .br depth => throw (.branch depth)
  | .brIf depth => do
    let condition ← stacking popI32
    if condition ≠ 0 then throw (.branch depth) else return .next
  | .return => throw .functionReturn
  | .call funcIdx =>
    match m.funcType? funcIdx with
    | none => throw (.undefinedFunction funcIdx)
    | some funcType => do return .call funcIdx (← stacking (popArgs funcType.params.length))
  | .drop => do let _ ← stacking pop; return .next
  | .localGet idx => do
    match (← get).frame.locals[idx.toNat]? with
    | none => throw (.undefinedLocal idx)
    | some v => do stacking (push v); return .next
  | .localSet idx => do setLocal idx (← stacking pop); return .next
  | .localTee idx => do
    match (← get).frame.stack with
    | [] => throw .stackUnderflow
    | v :: _ => do setLocal idx v; return .next
  | .globalGet idx => do
    match (← get).store.globals[idx.toNat]? with
    | none => throw (.undefinedGlobal idx)
    | some v => do stacking (push v); return .next
  | .globalSet idx => do setGlobal idx (← stacking pop); return .next
  | .load op offset => do performLoad op offset; return .next
  | .store op offset => do performStore op offset; return .next
  | .memorySize => do
    let pages := UInt32.ofNat ((← get).store.memory.length / pageSize)
    stacking (push (.i32 pages.toInt32)); return .next
  | .memoryGrow => do performGrow; return .next
  | .const v => do stacking (push v); return .next
  | .plain opcode =>
    match numeric opcode with
    | some op => do stacking op; return .next
    | none => throw (.invalidBytecode ("unsupported opcode: 0x" ++ hexByte opcode))

end Gratia
