import Gratia.Core.Crypto
import Gratia.Vm.Interpreter

/-!
# Vm — Runtime

`InterpreterRuntime` of `gratia-vm/src/interpreter.rs` and the `GratiaVm` of `gratia-vm/src/lib.rs`
on top of it.  A call that returns gives everything it leaves behind; it is given the fuel of the
interpreter, and `none` is a call that has not returned within that fuel.
-/

namespace Gratia

open Support (Bytes)
open Std

/-! ### Loaded contracts -/

/-- The errors of `RuntimeError` that the interpreter returns.  `panicked` is not in the source: it
stands for a Rust panic. -/
inductive RuntimeError where
  | compilationFailed (reason : String)
  | functionNotFound (name : String)
  | contractNotFound (address : String)
  | gas (e : GasError)
  | sandbox (e : SandboxError)
  | panicked
deriving DecidableEq

def RuntimeError.toText : RuntimeError → String
  | compilationFailed reason => "compilation failed: " ++ reason
  | functionNotFound name => "function not found: " ++ name
  | contractNotFound address => "contract not found: " ++ address
  | gas e => "gas error: " ++ e.toText
  | sandbox e => "sandbox violation: " ++ e.toText
  | panicked => "panicked"

/-- `map_err(|e| RuntimeError::CompilationFailed { .. })`, which a panic passes by. -/
def RuntimeError.ofParse : InterpError → RuntimeError
  | .panicked => .panicked
  | e => .compilationFailed e.toText

/-- `LoadedContract`: the parsed module with its globals and linear memory. -/
structure LoadedContract where
  module : WasmModule
  store : Store

def writeSegment (memory : Bytes) (seg : DataSegment) : Bytes :=
  if seg.offset.toNat + seg.data.length ≤ memory.length then
    copyAt memory seg.offset.toNat seg.data
  else memory

/-- The linear memory of a new contract: zeroed pages, one at least, with the data segments. -/
def initialMemory (m : WasmModule) : Bytes :=
  m.dataSegments.foldl writeSegment
    (List.replicate (max m.memoryMinPages.toNat 1 * pageSize) 0)

@[simp] theorem length_writeSegment (memory : Bytes) (seg : DataSegment) :
    (writeSegment memory seg).length = memory.length := by
  unfold writeSegment
  split
  next hfit => exact length_copyAt hfit
  next => rfl

theorem length_foldl_writeSegment (segments : List DataSegment) :
    ∀ memory, (segments.foldl writeSegment memory).length = memory.length := by
  induction segments with
  | nil => exact fun _ => rfl
  | cons seg segments ih => exact fun memory => (ih _).trans (length_writeSegment memory seg)

theorem length_initialMemory (m : WasmModule) :
    (initialMemory m).length = max m.memoryMinPages.toNat 1 * pageSize :=
  (length_foldl_writeSegment _ _).trans List.length_replicate

def LoadedContract.ofModule (m : WasmModule) : LoadedContract :=
  ⟨m, ⟨m.globals.map (·.initValue), initialMemory m⟩⟩

structure InterpreterRuntime where
  contracts : ExtTreeMap Address LoadedContract := ∅

structure ExecutionOutcome where
  returnValue : ContractValue
  gasUsed : UInt64
  success : Bool
  error : Option String
deriving DecidableEq

/-- What a call of `execute_contract` returns and leaves behind, with the number of instructions it
dispatched. -/
structure Execution where
  result : Except RuntimeError ExecutionOutcome
  runtime : InterpreterRuntime
  gas : GasMeter
  host : HostEnvironment
  dispatched : ℕ

/-- The outcome that `execute_contract` makes of the function's result. -/
def ExecutionOutcome.ofResult (gasUsed : UInt64) :
    Except InterpError (Option Value) → Except RuntimeError ExecutionOutcome
  | .ok (some v) => .ok ⟨v.toContractValue, gasUsed, true, none⟩
  | .ok none => .ok ⟨.void, gasUsed, true, none⟩
  | .error (.gas e) => .error (.gas e)
  | .error .panicked => .error .panicked
  | .error e => .ok ⟨.void, gasUsed, false, some e.toText⟩

theorem ExecutionOutcome.ofResult_eq_gas {gasUsed : UInt64}
    {r : Except InterpError (Option Value)} {g : GasError} :
    ofResult gasUsed r = .error (.gas g) ↔ r = .error (.gas g) := by
  constructor
  · intro h
    rcases r with e | (_ | v)
    · cases e <;> cases h
      rfl
    · cases h
    · cases h
  · rintro rfl
    rfl

def WasmModule.exportedFunction? (m : WasmModule) (functionName : String) : Option UInt32 :=
  (m.exports.find? fun e => e.name = functionName ∧ e.kind = .function).map (·.index)

namespace InterpreterRuntime

variable (rt : InterpreterRuntime) (contractAddress : Address)

def loadContract (bytecode : Bytes) (config : SandboxConfig) :
    Except RuntimeError Unit × InterpreterRuntime :=
  match validateBytecode bytecode config with
  | .error e => (.error (.sandbox e), rt)
  | .ok () =>
    match parseModule bytecode with
    | .error e => (.error (.ofParse e), rt)
    | .ok m => (.ok (), ⟨rt.contracts.insert contractAddress (.ofModule m)⟩)

/-- The ways a load goes: it fails and changes nothing, or installs the module as it starts. -/
theorem loadContract_cases (bytecode : Bytes) (config : SandboxConfig) :
    (∃ e, rt.loadContract contractAddress bytecode config = (.error e, rt) ∧
        (validateBytecode bytecode config = .ok () → ∃ e, parseModule bytecode = .error e)) ∨
      ∃ m, validateBytecode bytecode config = .ok () ∧ parseModule bytecode = .ok m ∧
        rt.loadContract contractAddress bytecode config =
          (.ok (), ⟨rt.contracts.insert contractAddress (.ofModule m)⟩) := by
  unfold loadContract
  cases validateBytecode bytecode config with
  | error e => exact .inl ⟨_, rfl, nofun⟩
  | ok _ =>
    cases parseModule bytecode with
    | error e => exact .inl ⟨_, rfl, fun _ => ⟨e, rfl⟩⟩
    | ok m => exact .inr ⟨m, rfl, rfl, rfl⟩

def isLoaded : Bool := rt.contracts.contains contractAddress

def unloadContract : InterpreterRuntime := ⟨rt.contracts.erase contractAddress⟩

def refuse (gas : GasMeter) (host : HostEnvironment) (e : RuntimeError) : Execution :=
  ⟨.error e, rt, gas, host, 0⟩

def executeContract (fuel : ℕ) (functionName : String) (args : List ContractValue) (gas : GasMeter)
    (host : HostEnvironment) (permissions : ContractPermissions) : Option Execution :=
  match rt.contracts[contractAddress]? with
  | none => some (rt.refuse gas host (.contractNotFound contractAddress.toText))
  | some contract =>
    match contract.module.exportedFunction? functionName with
    | none => some (rt.refuse gas host (.functionNotFound functionName))
    | some funcIdx =>
      match gas.charge (gas.costs.hostCall "base_call") with
      | (.error e, gas) => some (rt.refuse gas host (.gas e))
      | (.ok (), gas) =>
        (executeFunction ⟨contract.module, permissions⟩ fuel 0 funcIdx
            (args.map contractValueToValue) (contract.store, ⟨gas, host, 0⟩)).map
          fun (result, store, env) =>
            { result := ExecutionOutcome.ofResult env.gas.used result
              runtime := ⟨rt.contracts.insert contractAddress ⟨contract.module, store⟩⟩
              gas := env.gas
              host := env.host
              dispatched := env.dispatched }

/-- The ways a call of `execute_contract` goes: it is refused, runs out of gas before it starts, or
runs the function exported under the name. -/
theorem executeContract_cases {rt : InterpreterRuntime} {contractAddress : Address} {fuel : ℕ}
    {functionName : String} {args : List ContractValue} {gas : GasMeter} {host : HostEnvironment}
    {permissions : ContractPermissions} {e : Execution}
    (h : rt.executeContract contractAddress fuel functionName args gas host permissions = some e) :
    (∃ err, e = rt.refuse gas host err ∧ ∀ g, err ≠ .gas g) ∨
      (∃ g gas₁, gas.charge (gas.costs.hostCall "base_call") = (.error g, gas₁) ∧
        e = rt.refuse gas₁ host (.gas g)) ∨
      ∃ contract funcIdx gas₁ r store env,
        rt.contracts[contractAddress]? = some contract ∧
        contract.module.exportedFunction? functionName = some funcIdx ∧
        gas.charge (gas.costs.hostCall "base_call") = (.ok (), gas₁) ∧
        executeFunction ⟨contract.module, permissions⟩ fuel 0 funcIdx
          (args.map contractValueToValue) (contract.store, ⟨gas₁, host, 0⟩) =
            some (r, store, env) ∧
        e = ⟨ExecutionOutcome.ofResult env.gas.used r,
          ⟨rt.contracts.insert contractAddress ⟨contract.module, store⟩⟩, env.gas, env.host,
          env.dispatched⟩ := by
  unfold executeContract at h
  split at h
  · cases h
    exact .inl ⟨_, rfl, by simp⟩
  next contract hcontract =>
  split at h
  · cases h
    exact .inl ⟨_, rfl, by simp⟩
  next funcIdx hfunc =>
  split at h
  next g gas₁ hcharge =>
    cases h
    exact .inr (.inl ⟨g, gas₁, hcharge, rfl⟩)
  next gas₁ hcharge =>
    obtain ⟨⟨r, store, env⟩, hrun, rfl⟩ := Option.map_eq_some_iff.mp h
    exact .inr (.inr ⟨contract, funcIdx, gas₁, r, store, env, hcontract, hfunc, hcharge, hrun, rfl⟩)

end InterpreterRuntime

/-! ### The virtual machine -/

/-- `ContractCall`; its `caller` is not read. -/
structure ContractCall where
  contractAddress : Address
  functionName : String
  args : List ContractValue
  gasLimit : Lux

structure ExecutionResult where
  success : Bool
  returnValue : ContractValue
  gasUsed : Lux
  gasRemaining : Lux
  events : List ContractEvent
  error : Option String
deriving DecidableEq

/-- `DeployedContract`; its hash is a function of the bytecode. -/
structure DeployedContract where
  bytecode : Bytes
  permissions : ContractPermissions

structure GratiaVm where
  runtime : InterpreterRuntime := {}
  sandboxConfig : SandboxConfig := {}
  contracts : ExtTreeMap Address DeployedContract := ∅

/-- What an operation of the virtual machine can end in, other than a result: an error, or the panic
of a load. -/
inductive VmFault where
  | error (e : GratiaError)
  | panicked
deriving DecidableEq

/-- `map_err(|e| GratiaError::Other(format!("..: {}", e)))`, which a panic passes by. -/
def VmFault.ofLoad (what : String) : RuntimeError → VmFault
  | .panicked => .panicked
  | e => .error (.other (what ++ ": " ++ e.toText))

namespace GratiaVm

variable (P : Platform)

def contractDomain : Bytes := "gratia-contract-v1:".toUTF8.toList

def contractAddressOf (deployer : Address) (bytecode : Bytes) : Address :=
  ⟨P.sha256 (contractDomain ++ deployer.bytes.bytes ++ bytecode)⟩

def deployContract (vm : GratiaVm) (deployer : Address) (bytecode : Bytes)
    (permissions : ContractPermissions) : Except VmFault Address × GratiaVm :=
  match validateBytecode bytecode vm.sandboxConfig with
  | .error e =>
    (.error (.error (.other ("contract bytecode validation failed: " ++ e.toText))), vm)
  | .ok () =>
    let address := contractAddressOf P deployer bytecode
    match vm.runtime.loadContract address bytecode vm.sandboxConfig with
    | (.error e, runtime) =>
      (.error (.ofLoad "contract compilation failed" e), { vm with runtime := runtime })
    | (.ok (), runtime) =>
      (.ok address, { vm with
        runtime := runtime
        contracts := vm.contracts.insert address ⟨bytecode, permissions⟩ })

/-- The result that `call_contract` makes of an execution.  The events are those taken from the host
when the execution is over. -/
def resultOf (e : Execution) (events : List ContractEvent) : ExecutionResult :=
  match e.result with
  | .ok outcome =>
    ⟨outcome.success, outcome.returnValue, e.gas.used, e.gas.gasRemaining, events, outcome.error⟩
  | .error (.gas g) => ⟨false, .void, e.gas.used, 0, [], some ("out of gas: " ++ g.toText)⟩
  | .error err => ⟨false, .void, e.gas.used, e.gas.gasRemaining, [], some err.toText⟩

structure Called where
  result : Except VmFault ExecutionResult
  vm : GratiaVm
  host : HostEnvironment

def ensureLoaded (vm : GratiaVm) (contractAddress : Address) (bytecode : Bytes) :
    Except VmFault Unit × GratiaVm :=
  if vm.runtime.isLoaded contractAddress then (.ok (), vm)
  else
    match vm.runtime.loadContract contractAddress bytecode vm.sandboxConfig with
    | (.error e, runtime) =>
      (.error (.ofLoad "failed to reload contract" e), { vm with runtime := runtime })
    | (.ok (), runtime) => (.ok (), { vm with runtime := runtime })

def callContract (vm : GratiaVm) (fuel : ℕ) (call : ContractCall) (host : HostEnvironment) :
    Option Called :=
  match vm.contracts[call.contractAddress]? with
  | none =>
    some ⟨.error (.error (.other ("contract not found: " ++ call.contractAddress.toText))), vm,
      host⟩
  | some contract =>
    match vm.ensureLoaded call.contractAddress contract.bytecode with
    | (.error e, vm) => some ⟨.error e, vm, host⟩
    | (.ok (), vm) =>
      (vm.runtime.executeContract call.contractAddress fuel call.functionName call.args
          (.new call.gasLimit) host contract.permissions).map fun e =>
        let (events, host) := e.host.takeEvents
        ⟨.ok (resultOf e events), { vm with runtime := e.runtime }, host⟩

/-- The ways a call of `call_contract` goes: it fails before anything is run, whatever the gas, or
the contract is executed. -/
theorem callContract_cases {vm : GratiaVm} {fuel : ℕ} {call : ContractCall} {host : HostEnvironment}
    {c : Called} (h : vm.callContract fuel call host = some c) :
    (∃ fault vm₁, c = ⟨.error fault, vm₁, host⟩ ∧
        (vm.contracts[call.contractAddress]? = none ∧ vm₁ = vm ∨
          ∃ contract, vm.contracts[call.contractAddress]? = some contract ∧
            vm.ensureLoaded call.contractAddress contract.bytecode = (.error fault, vm₁)) ∧
        ∀ limit, vm.callContract fuel { call with gasLimit := limit } host = some c) ∨
      ∃ contract vm₁ e, vm.contracts[call.contractAddress]? = some contract ∧
        vm.ensureLoaded call.contractAddress contract.bytecode = (.ok (), vm₁) ∧
        vm₁.runtime.executeContract call.contractAddress fuel call.functionName call.args
          (.new call.gasLimit) host contract.permissions = some e ∧
        c = ⟨.ok (resultOf e e.host.events), { vm₁ with runtime := e.runtime },
          e.host.takeEvents.2⟩ := by
  unfold callContract at h
  split at h
  next hnone =>
    cases h
    exact .inl ⟨_, vm, rfl, .inl ⟨hnone, rfl⟩, fun _ => by simp only [callContract, hnone]⟩
  next contract hcontract =>
  split at h
  next fault vm₁ hload =>
    cases h
    exact .inl ⟨fault, vm₁, rfl, .inr ⟨contract, hcontract, hload⟩,
      fun _ => by simp only [callContract, hcontract, hload]⟩
  next vm₁ hload =>
    obtain ⟨e, hrun, rfl⟩ := Option.map_eq_some_iff.mp h
    exact .inr ⟨contract, vm₁, e, hcontract, hload, hrun, rfl⟩

theorem callContract_of_executed {vm vm₁ : GratiaVm} {fuel : ℕ} {call : ContractCall}
    {host : HostEnvironment} {contract : DeployedContract} {e : Execution}
    (hcontract : vm.contracts[call.contractAddress]? = some contract)
    (hload : vm.ensureLoaded call.contractAddress contract.bytecode = (.ok (), vm₁))
    (hrun : vm₁.runtime.executeContract call.contractAddress fuel call.functionName call.args
      (.new call.gasLimit) host contract.permissions = some e) :
    vm.callContract fuel call host =
      some ⟨.ok (resultOf e e.host.events), { vm₁ with runtime := e.runtime },
        e.host.takeEvents.2⟩ := by
  unfold callContract
  rw [hcontract]
  dsimp only
  rw [hload]
  dsimp only
  rw [hrun]
  rfl

end GratiaVm

end Gratia
