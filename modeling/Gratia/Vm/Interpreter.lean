import Gratia.Support.Exec
import Gratia.Vm.Host
import Gratia.Vm.Instructions

/-!
# Vm — Interpreter

`execute_function`, `execute_block` and `dispatch_host_call` of `gratia-vm/src/interpreter.rs`, as
mutually recursive computations with fuel.  Each recursive call of the source, and each further turn
of one of its loops, takes one unit of fuel.

The state is what the source passes by `&mut`: the running function's `Machine` (or, between
functions, the contract's `Store`), and beside it the `Env` of gas meter and host.  The counter
`dispatched` is not in the source; nothing reads it.
-/

namespace Gratia

open Support (Bytes Exec)
open Reader

/-- The module being run and the permissions it runs with. -/
structure Context where
  module : WasmModule
  permissions : ContractPermissions

/-- The gas meter and the host, with the number of instructions dispatched so far. -/
structure Env where
  gas : GasMeter
  host : HostEnvironment
  dispatched : ℕ

/-! ### Charging -/

def chargeGas (cost : GasCosts → UInt64) : EStateM InterpError Env Unit := fun env =>
  match env.gas.charge (cost env.gas.costs) with
  | (.ok (), gas) => .ok () { env with gas := gas }
  | (.error e, gas) => .error (.gas e) { env with gas := gas }

def opcodeCost (opcode : UInt8) (costs : GasCosts) : UInt64 :=
  if opcode ∈ [0x6D, 0x6F, 0x7F, 0x81, 0x95, 0xA3] then costs.division
  else if opcode ∈ [0x02, 0x03, 0x04, 0x0C, 0x0D] then costs.branch
  else if opcode ∈ [0x3F, 0x40] then costs.branch
  else costs.arithmetic

/-- The opcodes that are dispatched without a charge: `end`, `nop`, `drop`. -/
def isFree (opcode : UInt8) : Bool := opcode ∈ [0x0B, 0x01, 0x1A]

def countInstruction : EStateM InterpError Env Unit :=
  modify fun env => { env with dispatched := env.dispatched + 1 }

/-! ### Host calls -/

/-- `args.get(i).map(|v| v.as_i32().unwrap_or(0)).unwrap_or(0) as u32`. -/
def argU32 (args : List Value) (i : ℕ) : UInt32 :=
  match args[i]? with
  | some (.i32 v) => v.toUInt32
  | _ => 0

/-- The storage key at `ptr`: at most 32 bytes of memory, filled up with zeros; none if they lie out
of bounds. -/
def storageKey (memory : Bytes) (ptr len : UInt32) : Option Bytes32 :=
  let start := ptr.toNat
  let sliceLen := min len.toNat 32
  if start + sliceLen > memory.length then none
  else
    let slice := (memory.drop start).take sliceLen
    some ⟨(slice ++ List.replicate (32 - slice.length) 0).take 32, by
      have : slice.length ≤ 32 := by
        simp only [slice, List.length_take]
        omega
      simp only [List.length_take, List.length_append, List.length_replicate]
      omega⟩

def readStringFromMemory (memory : Bytes) (ptr len : UInt32) : Except InterpError String :=
  if ptr.toNat + len.toNat > memory.length then
    .error (.hostError
      s!"string read out of bounds: ptr={ptr}, len={len}, mem_size={memory.length}")
  else
    match fromUtf8 ((memory.drop ptr.toNat).take len.toNat) with
    | some s => .ok s
    | none => .error (.hostError "invalid UTF-8 in string from memory")

/-- The sensor that an argument of `get_sensor_data` selects. -/
def sensorOfIndex (idx : UInt32) : Option SensorType :=
  match idx with
  | 0 => some .barometer
  | 1 => some .ambientLight
  | 2 => some .magnetometer
  | 3 => some .accelerometer
  | 4 => some .gyroscope
  | _ => none

/-- Where `storage_read` puts the value it found. -/
def storageReadOffset : ℕ := 1024

/-- The `match name.as_str()` of `dispatch_host_call`: what a host function returns, and what it
makes of the memory and the host. -/
def hostFunction (name : String) (args : List Value) (memory : Bytes) (host : HostEnvironment) :
    Except InterpError (Option Value × Bytes × HostEnvironment) :=
  match name with
  | "get_location_lat" =>
    .ok (some (.f32 ((host.getLocation.map (·.1)).getD 0)), memory, host)
  | "get_location_lon" =>
    .ok (some (.f32 ((host.getLocation.map (·.2)).getD 0)), memory, host)
  | "get_nearby_peers" => .ok (some (.i32 host.nearbyPeerCount.toInt32), memory, host)
  | "get_presence_score" =>
    .ok (some (.i32 host.presenceScore.toUInt32.toInt32), memory, host)
  | "get_sensor_data" =>
    match sensorOfIndex (argU32 args 0) with
    | none => .ok (some (.f64 0), memory, host)
    | some sensorType =>
      .ok (some (.f64 (((host.getSensorData sensorType).map (·.value)).getD 0)), memory, host)
  | "get_block_height" => .ok (some (.i64 host.blockHeight.toInt64), memory, host)
  | "get_block_timestamp" => .ok (some (.i64 host.blockTimestamp.toInt64), memory, host)
  | "get_caller_address" =>
    let memory := if memory.length ≥ 32 then copyAt memory 0 host.callerAddress.bytes.bytes
      else memory
    .ok (some (.i32 0), memory, host)
  | "get_caller_balance" => .ok (some (.i64 host.callerBalance.toInt64), memory, host)
  | "storage_read" =>
    match storageKey memory (argU32 args 0) (argU32 args 1) with
    | none => .ok (some (.i32 0), memory, host)
    | some key =>
      match host.storageRead key with
      | none => .ok (some (.i32 0), memory, host)
      | some value =>
        if storageReadOffset + 4 + value.length ≤ memory.length then
          -- the length as a `u32`, then the data
          let bytes := toLeBytes32 (UInt32.ofNat value.length) ++ value
          .ok (some (.i32 1024), copyAt memory storageReadOffset bytes, host)
        else .ok (some (.i32 0), memory, host)
  | "storage_write" =>
    match storageKey memory (argU32 args 0) (argU32 args 1) with
    | none => .error (.hostError "storage_write: key out of bounds")
    | some key =>
      let valStart := (argU32 args 2).toNat
      let valLen := (argU32 args 3).toNat
      if valStart + valLen > memory.length then
        .error (.hostError "storage_write: value out of bounds")
      else .ok (none, memory, host.storageWrite key ((memory.drop valStart).take valLen))
  | "emit_event" =>
    match readStringFromMemory memory (argU32 args 0) (argU32 args 1) with
    | .error e => .error e
    | .ok topic =>
      let dataStart := (argU32 args 2).toNat
      let dataLen := (argU32 args 3).toNat
      if dataStart + dataLen > memory.length then
        .error (.hostError "emit_event: data out of bounds")
      else
        .ok (none, memory,
          host.emitEvent ⟨.zero⟩ topic ((memory.drop dataStart).take dataLen))
  | _ => .ok (none, memory, host)

def runHostFunction (name : String) (args : List Value) :
    EStateM InterpError (Store × Env) (Option Value) := fun (store, env) =>
  match hostFunction name args store.memory env.host with
  | .error e => .error e (store, env)
  | .ok (value, memory, host) =>
    .ok value ({ store with memory := memory }, { env with host := host })

/-! ### The state of a running function, and between functions -/

abbrev BlockM := Exec InterpError (Machine × Env)

abbrev CallM := Exec InterpError (Store × Env)

def onMachine {α : Type} (x : Step α) : BlockM α :=
  Exec.within Prod.fst (fun s m => (m, s.2)) (Exec.lift x)

def onEnv {σ α : Type} (x : EStateM InterpError Env α) : Exec InterpError (σ × Env) α :=
  Exec.within Prod.snd (fun s env => (s.1, env)) (Exec.lift x)

def calling {α : Type} (x : CallM α) : BlockM α :=
  Exec.within (fun s => (s.1.store, s.2)) (fun s t => ({ s.1 with store := t.1 }, t.2)) x

/-- A function's own computation, on a new frame that is dropped in the end. -/
def onFrame {α : Type} (frame : Frame) (x : BlockM α) : CallM α :=
  Exec.within (fun s => (⟨frame, s.1⟩, s.2)) (fun _ t => (t.1.store, t.2)) x

/-! ### Execution -/

/-- `dispatch_host_call`: charge, check the permission, run the host function. -/
def dispatchHostCall (ctx : Context) (name : String) (args : List Value) :
    CallM (Option Value) := do
  onEnv (chargeGas (·.hostCall name))
  match ctx.permissions.checkPermission name with
  | .error e => throw (.hostError e.toText)
  | .ok () => .lift (runHostFunction name args)

def maxCallDepth : ℕ := 32

/-- The locals of a call: the arguments, with defaults for missing ones, then the declared locals.
-/
def buildLocals (params declared : List ValType) (args : List Value) : List Value :=
  params.mapIdx (fun i t => args[i]?.getD (.defaultForValtype t)) ++
    declared.map .defaultForValtype

def Frame.enter (func : WasmFunction) (params : List ValType) (args : List Value) : Frame :=
  ⟨⟨func.code, 0⟩, [], buildLocals params func.locals args⟩

/-- What a function returns: the top of its stack if it has a result type, or that type's default.
-/
def returnValue (results : List ValType) : Step (Option Value) := do
  match results with
  | [] => return none
  | t :: _ =>
    match (← get).frame.stack with
    | [] => return some (.defaultForValtype t)
    | v :: _ => return some v

def chargeInstruction (opcode : UInt8) : BlockM Unit := do
  onEnv countInstruction
  if isFree opcode then return () else onEnv (chargeGas (opcodeCost opcode))

def dispatch (m : WasmModule) : BlockM Action := do
  let opcode ← onMachine (reading readByte)
  chargeInstruction opcode
  let instr ← onMachine (reading (decode opcode))
  onMachine (perform m instr)

/-- What a `block` or `if` does with an error of its body: a branch to it goes on behind its end,
one to an outer block is handed on. -/
def leaveBlock : InterpError → BlockM Unit
  | .branch depth => do
    onMachine (reading skipToEnd)
    if depth = 0 then return () else throw (.branch (depth - 1))
  | e => throw e

/-- What `execute_function` does with an error of the body: a return, and a branch that leaves the
outermost block, end the function. -/
def leaveFunction : InterpError → BlockM Unit
  | .functionReturn | .branch _ => return ()
  | e => throw e

mutual

def executeFunction (ctx : Context) : ℕ → ℕ → UInt32 → List Value → CallM (Option Value)
  | 0, _, _, _ => .exhausted
  | fuel + 1, callDepth, funcIdx, args =>
    if callDepth > maxCallDepth then throw (.hostError "call depth exceeded")
    else if funcIdx < ctx.module.importFuncCount then
      match ctx.module.imports[funcIdx.toNat]? with
      | none => throw .panicked
      | some imported => dispatchHostCall ctx imported.name args
    else
      match ctx.module.functions[(funcIdx - ctx.module.importFuncCount).toNat]? with
      | none => throw (.undefinedFunction funcIdx)
      | some func =>
        match ctx.module.types[func.typeIdx.toNat]? with
        | none => throw (.undefinedFunction funcIdx)
        | some funcType =>
          onFrame (.enter func funcType.params args) do
            tryCatch (executeBlock ctx fuel callDepth) leaveFunction
            onMachine (returnValue funcType.results)

def executeBlock (ctx : Context) : ℕ → ℕ → BlockM Unit
  | 0, _ => .exhausted
  | fuel + 1, callDepth => do
    if (← onMachine (reading get)).remaining = 0 then return ()
    else
      match ← dispatch ctx.module with
      | .next => executeBlock ctx fuel callDepth
      | .finish => return ()
      | .enter => do
        tryCatch (executeBlock ctx fuel callDepth) leaveBlock
        executeBlock ctx fuel callDepth
      | .loop start => do
        executeLoop ctx fuel callDepth start
        executeBlock ctx fuel callDepth
      | .call funcIdx args => do
        let result ← calling (executeFunction ctx fuel (callDepth + 1) funcIdx args)
        match result with
        | none => executeBlock ctx fuel callDepth
        | some v => do
          onMachine (stacking (push v))
          executeBlock ctx fuel callDepth

/-- The `loop` of `execute_block` that runs the body of a `loop` instruction from its start. -/
def executeLoop (ctx : Context) : ℕ → ℕ → ℕ → BlockM Unit
  | 0, _, _ => .exhausted
  | fuel + 1, callDepth, start => do
    onMachine (reading (modify fun r => { r with pos := start }))
    tryCatch (executeBlock ctx fuel callDepth) fun
      | .branch depth =>
        if depth = 0 then executeLoop ctx fuel callDepth start
        else leaveBlock (.branch depth)
      | e => throw e

end

end Gratia
