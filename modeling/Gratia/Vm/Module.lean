import Gratia.Vm.Reader

/-!
# Vm — Module

The binary parser of `gratia-vm/src/interpreter.rs`: `parse_module` and the module it returns.  The
loops of the source that push onto a vector are `many`; the loop over the sections runs on the
number of bytes, since every section takes up at least its two header bytes.
-/

namespace Gratia

open Support (Bytes)
open Reader

structure FuncType where
  params : List ValType
  results : List ValType
deriving DecidableEq

structure Import where
  module : String
  name : String
  typeIdx : UInt32
deriving DecidableEq

structure WasmFunction where
  typeIdx : UInt32
  locals : List ValType
  code : Bytes
deriving DecidableEq

structure WasmGlobal where
  valtype : ValType
  «mutable» : Bool
  initValue : Value
deriving DecidableEq

inductive ExportKind where
  | function | memory | global
deriving DecidableEq

structure WasmExport where
  name : String
  kind : ExportKind
  index : UInt32
deriving DecidableEq

structure DataSegment where
  offset : UInt32
  data : Bytes
deriving DecidableEq

structure WasmModule where
  types : List FuncType
  imports : List Import
  functions : List WasmFunction
  globals : List WasmGlobal
  exports : List WasmExport
  memoryMinPages : UInt32
  dataSegments : List DataSegment
deriving DecidableEq

/-- `import_func_count`, a field that the source fills with `imports.len() as u32`. -/
def WasmModule.importFuncCount (m : WasmModule) : UInt32 := UInt32.ofNat m.imports.length

/-! ### Parsing the entries -/

/-- `for _ in 0..count`, collecting what each round reads. -/
def many {α : Type} (p : Read α) : ℕ → Read (List α)
  | 0 => pure []
  | count + 1 => do
    let a ← p
    let as ← many p count
    return a :: as

def readVec {α : Type} (p : Read α) : Read (List α) := do
  let count ← readU32Leb128
  many p count.toNat

/-- `ValType::from_byte(reader.read_byte()?)?`. -/
def readValType : Read ValType := do
  let b ← readByte
  match ValType.fromByte b with
  | .ok t => return t
  | .error e => throw e

def parseConstExpr (valtype : ValType) : Read Value := do
  let opcode ← readByte
  match opcode with
  | 0x41 => do let v ← readI32Leb128; ended (.i32 v)
  | 0x42 => do let v ← readI64Leb128; ended (.i64 v)
  | 0x43 => do let v ← readF32; ended (.f32 v)
  | 0x44 => do let v ← readF64; ended (.f64 v)
  | _ => return .defaultForValtype valtype
where
  /-- Consume the END opcode. -/
  ended (value : Value) : Read Value := do
    let b ← readByte
    if b ≠ 0x0B then throw (.invalidBytecode "expected END after const expression")
    else return value

def parseFuncType : Read FuncType := do
  let marker ← readByte
  if marker ≠ 0x60 then throw (.invalidBytecode "expected func type marker 0x60")
  else
    let params ← readVec readValType
    let results ← readVec readValType
    return ⟨params, results⟩

def parseImport : Read Import := do
  let module ← readString
  let name ← readString
  let kind ← readByte
  if kind ≠ 0x00 then
    throw (.invalidBytecode
      ("unsupported import kind: 0x" ++ hexByte kind ++ " (only functions supported)"))
  else
    let typeIdx ← readU32Leb128
    return ⟨module, name, typeIdx⟩

/-- An entry of the memory section: the minimum, after the flags; a maximum is read and dropped. -/
def parseMemory : Read UInt32 := do
  let flags ← readByte
  let minPages ← readU32Leb128
  if flags &&& 0x01 ≠ 0 then
    let _maxPages ← readU32Leb128
    return minPages
  else return minPages

def parseGlobal : Read WasmGlobal := do
  let valtype ← readValType
  let mutability ← readByte
  let initValue ← parseConstExpr valtype
  return ⟨valtype, mutability == 0x01, initValue⟩

/-- An entry of the export section; one of unknown kind is read and skipped. -/
def parseExport : Read (Option WasmExport) := do
  let name ← readString
  let kind ← readByte
  let index ← readU32Leb128
  match kind with
  | 0x00 => return some ⟨name, .function, index⟩
  | 0x02 => return some ⟨name, .memory, index⟩
  | 0x03 => return some ⟨name, .global, index⟩
  | _ => return none

/-- A group of local declarations. -/
def parseLocals : Read (List ValType) := do
  let count ← readU32Leb128
  let vt ← readValType
  return List.replicate count.toNat vt

/-- An entry of the code section: the declared locals and the rest of the body.  The source computes
`body_end - reader.pos` without a check, and slices with the result: declarations that overrun the
claimed body size make it panic. -/
def parseBody : Read (List ValType × Bytes) := do
  let bodySize ← readU32Leb128
  let bodyEnd := (← get).pos + bodySize.toNat
  let locals ← readVec parseLocals
  let pos := (← get).pos
  if bodyEnd < pos then throw .panicked
  else
    let code ← readBytes (bodyEnd - pos)
    return (locals.flatten, code)

def parseData : Read DataSegment := do
  let flags ← readU32Leb128
  let offset ← if flags = 0 then do
      let offset ← parseConstExpr .i32
      -- `as_i32().unwrap_or(0) as u32`
      match offset with
      | .i32 v => pure v.toUInt32
      | _ => pure 0
    else pure 0
  let len ← readU32Leb128
  let data ← readBytes len.toNat
  return ⟨offset, data⟩

/-! ### Parsing the sections -/

/-- The vectors that `parse_module` fills. -/
structure Sections where
  types : List FuncType := []
  imports : List Import := []
  funcTypeIndices : List UInt32 := []
  globals : List WasmGlobal := []
  exports : List WasmExport := []
  codeBodies : List (List ValType × Bytes) := []
  memoryMinPages : UInt32 := 0
  dataSegments : List DataSegment := []

/-- The `match section_id` of `parse_module`. -/
def parseSection (s : Sections) (sectionId : UInt8) : Read Sections :=
  match sectionId with
  | 1 => do let types ← readVec parseFuncType; return { s with types := s.types ++ types }
  | 2 => do let imports ← readVec parseImport; return { s with imports := s.imports ++ imports }
  | 3 => do
    let indices ← readVec readU32Leb128
    return { s with funcTypeIndices := s.funcTypeIndices ++ indices }
  | 5 => do
    let mins ← readVec parseMemory
    return { s with memoryMinPages := mins.getLastD s.memoryMinPages }
  | 6 => do let globals ← readVec parseGlobal; return { s with globals := s.globals ++ globals }
  | 7 => do
    let exports ← readVec parseExport
    return { s with exports := s.exports ++ exports.reduceOption }
  | 10 => do
    let bodies ← readVec parseBody
    return { s with codeBodies := s.codeBodies ++ bodies }
  | 11 => do
    let segments ← readVec parseData
    return { s with dataSegments := s.dataSegments ++ segments }
  | _ => return s

/-- The `while` loop of `parse_module`.  Whatever a section's entries consumed, the cursor goes to
the end that its header claims. -/
def parseSections : ℕ → Sections → Read Sections
  | 0, s => pure s
  | fuel + 1, s => do
    if (← get).remaining = 0 then return s
    else
      let sectionId ← readByte
      let sectionSize ← readU32Leb128
      let sectionEnd := (← get).pos + sectionSize.toNat
      let s ← parseSection s sectionId
      modify fun r => { r with pos := sectionEnd }
      parseSections fuel s

/-- The module that the filled vectors make up: each type index of the function section with the
code body at its place, as far as there are both. -/
def Sections.toModule (s : Sections) : WasmModule where
  types := s.types
  imports := s.imports
  functions := List.zipWith (fun typeIdx body => ⟨typeIdx, body.1, body.2⟩)
    s.funcTypeIndices s.codeBodies
  globals := s.globals
  exports := s.exports
  memoryMinPages := s.memoryMinPages
  dataSegments := s.dataSegments

/-- The reads of `parse_module` on a byte string of the given size. -/
def readModule (size : ℕ) : Read WasmModule := do
  let magic ← readBytes 4
  if magic ≠ [0x00, 0x61, 0x73, 0x6D] then throw (.invalidBytecode "bad WASM magic")
  else
    let version ← readBytes 4
    if version ≠ [0x01, 0x00, 0x00, 0x00] then
      throw (.invalidBytecode "unsupported WASM version")
    else
      let sections ← parseSections size {}
      return sections.toModule

def parseModule (bytecode : Bytes) : Except InterpError WasmModule :=
  match readModule bytecode.length ⟨bytecode, 0⟩ with
  | .ok m _ => .ok m
  | .error e _ => .error e

end Gratia
