import Gratia.Core.Types

/-!
# Vm — Host

What a contract can reach outside its own memory: the host environment of
`gratia-vm/src/host_functions.rs`, and from `gratia-vm/src/sandbox.rs` the permissions that guard
it, the resource limits and the check of a bytecode's header.  An `f32` or `f64` is its bit pattern.
-/

namespace Gratia

open Support Std

def Address.toText (a : Address) : String := "grat:" ++ a.bytes.hexEncode

theorem Address.bytes_injective : Function.Injective Address.bytes := by
  rintro ⟨a⟩ ⟨b⟩ h
  exact congrArg _ h

instance : Ord Address := ordOn Address.bytes
instance : TransOrd Address := transOrd_on Address.bytes
instance : LawfulEqOrd Address := lawfulEqOrd_on Address.bytes Address.bytes_injective

/-! ### The host environment -/

inductive SensorType where
  | barometer | ambientLight | magnetometer | accelerometer | gyroscope
deriving DecidableEq

structure SensorReading where
  sensorType : SensorType
  value : UInt64
  timestampSecs : UInt64
  isFresh : Bool
deriving DecidableEq

structure ContractEvent where
  contractAddress : Address
  topic : String
  data : Bytes
deriving DecidableEq

/-- `HostEnvironment`; the defaults are those of `HostEnvironment::new`. -/
structure HostEnvironment where
  blockHeight : UInt64
  blockTimestamp : UInt64
  callerAddress : Address
  callerBalance : Lux
  location : Option GeoLocation := none
  nearbyPeerCount : UInt32 := 0
  presenceScore : UInt8 := 40
  sensorReadings : List SensorReading := []
  storage : ExtTreeMap Bytes32 Bytes := ∅
  events : List ContractEvent := []

namespace HostEnvironment

def getLocation (h : HostEnvironment) : Option (UInt32 × UInt32) :=
  h.location.map fun loc => (loc.lat, loc.lon)

def getSensorData (h : HostEnvironment) (sensorType : SensorType) : Option SensorReading :=
  h.sensorReadings.find? (·.sensorType = sensorType)

def storageRead (h : HostEnvironment) (key : Bytes32) : Option Bytes := h.storage[key]?

def storageWrite (h : HostEnvironment) (key : Bytes32) (value : Bytes) : HostEnvironment :=
  { h with storage := h.storage.insert key value }

def emitEvent (h : HostEnvironment) (contractAddress : Address) (topic : String) (data : Bytes) :
    HostEnvironment :=
  { h with events := h.events ++ [⟨contractAddress, topic, data⟩] }

def takeEvents (h : HostEnvironment) : List ContractEvent × HostEnvironment :=
  (h.events, { h with events := [] })

end HostEnvironment

/-! ### The sandbox -/

/-- The errors of `SandboxError` that the interpreter's runtime can see. -/
inductive SandboxError where
  | bytecodeTooLarge (size limit : ℕ)
  | invalidBytecode (reason : String)
  | permissionDenied (permission : String)
deriving DecidableEq

def SandboxError.toText : SandboxError → String
  | bytecodeTooLarge size limit => s!"bytecode too large: {size} bytes, {limit} bytes allowed"
  | invalidBytecode reason => "bytecode validation failed: " ++ reason
  | permissionDenied permission =>
    "permission denied: contract lacks '" ++ permission ++ "' permission"

structure SandboxConfig where
  maxMemoryBytes : ℕ := 256 * 1024 * 1024
  maxExecutionTimeMs : UInt64 := 500
  maxStackDepth : UInt32 := 1024
  maxCallDepth : UInt32 := 8
  maxBytecodeSize : ℕ := 1024 * 1024
  maxMemoryPages : UInt32 := 4096
  maxEventsPerExecution : ℕ := 256
  maxEventDataBytes : ℕ := 64 * 1024
deriving DecidableEq

/-- `ContractPermissions`; its `Default` grants nothing. -/
structure ContractPermissions where
  location : Bool := false
  proximity : Bool := false
  presence : Bool := false
  sensor : Bool := false
  crossContractCalls : Bool := false
deriving DecidableEq

namespace ContractPermissions

/-- Whether the table of `check_permission` lets a host function through. -/
def permits (p : ContractPermissions) (functionName : String) : Bool :=
  match functionName with
  | "get_location" | "get_location_lat" | "get_location_lon" => p.location
  | "get_nearby_peers" | "get_nearby_peer_count" => p.proximity
  | "get_presence_score" => p.presence
  | "get_sensor_data" | "get_sensor_reading" => p.sensor
  | "get_block_height" | "get_block_timestamp" => true
  | "get_caller_address" | "get_caller_balance" => true
  | "storage_read" | "storage_write" | "emit_event" | "log" => true
  | _ => false

def checkPermission (p : ContractPermissions) (functionName : String) : Except SandboxError Unit :=
  if p.permits functionName then .ok () else .error (.permissionDenied functionName)

end ContractPermissions

def validateBytecode (bytecode : Bytes) (config : SandboxConfig) : Except SandboxError Unit :=
  if bytecode.length > config.maxBytecodeSize then
    .error (.bytecodeTooLarge bytecode.length config.maxBytecodeSize)
  else if bytecode.length < 8 then
    .error (.invalidBytecode
      "bytecode too short to be valid WASM (minimum 8 bytes for header)")
  else if bytecode.take 4 ≠ [0x00, 0x61, 0x73, 0x6d] then
    .error (.invalidBytecode "missing WASM magic number (\\0asm)")
  else
    let version := ofLeBytes ((bytecode.drop 4).take 4)
    if version ≠ 1 then
      .error (.invalidBytecode
        s!"unsupported WASM version: {version} (only version 1 is supported)")
    else .ok ()

end Gratia
