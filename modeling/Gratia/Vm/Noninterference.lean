import Gratia.Vm.Lockstep

/-!
# Vm — Noninterference

A contract learns nothing from the sensors it has no permission for.  Two hosts that agree on
everything but the data behind missing permissions answer every permitted host function alike, so
runs against them go in step.
-/

namespace Gratia

open Support (Bytes)

/-- Hosts that differ only in data guarded by permissions the contract does not have. -/
structure SameUnguarded (p : ContractPermissions) (h h' : HostEnvironment) : Prop where
  blockHeight : h.blockHeight = h'.blockHeight
  blockTimestamp : h.blockTimestamp = h'.blockTimestamp
  callerAddress : h.callerAddress = h'.callerAddress
  callerBalance : h.callerBalance = h'.callerBalance
  storage : h.storage = h'.storage
  events : h.events = h'.events
  location : p.location = true → h.location = h'.location
  nearbyPeerCount : p.proximity = true → h.nearbyPeerCount = h'.nearbyPeerCount
  presenceScore : p.presence = true → h.presenceScore = h'.presenceScore
  sensorReadings : p.sensor = true → h.sensorReadings = h'.sensorReadings

namespace SameUnguarded

variable {p : ContractPermissions} {h h' : HostEnvironment}

theorem symm (hs : SameUnguarded p h h') : SameUnguarded p h' h where
  blockHeight := hs.blockHeight.symm
  blockTimestamp := hs.blockTimestamp.symm
  callerAddress := hs.callerAddress.symm
  callerBalance := hs.callerBalance.symm
  storage := hs.storage.symm
  events := hs.events.symm
  location hp := (hs.location hp).symm
  nearbyPeerCount hp := (hs.nearbyPeerCount hp).symm
  presenceScore hp := (hs.presenceScore hp).symm
  sensorReadings hp := (hs.sensorReadings hp).symm

theorem storageWrite (hs : SameUnguarded p h h') (key : Bytes32) (value : Bytes) :
    SameUnguarded p (h.storageWrite key value) (h'.storageWrite key value) :=
  { hs with storage := congrArg (·.insert key value) hs.storage }

theorem emitEvent (hs : SameUnguarded p h h') (address : Address) (topic : String) (data : Bytes) :
    SameUnguarded p (h.emitEvent address topic data) (h'.emitEvent address topic data) :=
  { hs with events := congrArg (· ++ [(⟨address, topic, data⟩ : ContractEvent)]) hs.events }

/-- A permitted host function gives the same answer on both hosts. -/
theorem sameAnswer (hs : SameUnguarded p h h') {name : String} (hp : p.permits name = true)
    (args : List Value) (memory : Bytes) :
    SameAnswer (SameUnguarded p) (hostFunction name args memory h)
      (hostFunction name args memory h') := by
  unfold hostFunction
  split
  · exact ⟨by rw [HostEnvironment.getLocation, HostEnvironment.getLocation, hs.location hp], rfl, hs⟩
  · exact ⟨by rw [HostEnvironment.getLocation, HostEnvironment.getLocation, hs.location hp], rfl, hs⟩
  · exact ⟨by rw [hs.nearbyPeerCount hp], rfl, hs⟩
  · exact ⟨by rw [hs.presenceScore hp], rfl, hs⟩
  · split
    · exact ⟨rfl, rfl, hs⟩
    · refine ⟨?_, rfl, hs⟩
      rw [HostEnvironment.getSensorData, HostEnvironment.getSensorData, hs.sensorReadings hp]
  · exact ⟨by rw [hs.blockHeight], rfl, hs⟩
  · exact ⟨by rw [hs.blockTimestamp], rfl, hs⟩
  · exact ⟨rfl, by rw [hs.callerAddress], hs⟩
  · exact ⟨by rw [hs.callerBalance], rfl, hs⟩
  · split
    · exact ⟨rfl, rfl, hs⟩
    · rw [HostEnvironment.storageRead, HostEnvironment.storageRead, hs.storage]
      split
      · exact ⟨rfl, rfl, hs⟩
      · split
        · exact ⟨rfl, rfl, hs⟩
        · exact ⟨rfl, rfl, hs⟩
  · split
    · rfl
    · dsimp only
      split
      · rfl
      · exact ⟨rfl, rfl, hs.storageWrite _ _⟩
  · split
    · rfl
    · dsimp only
      split
      · rfl
      · exact ⟨rfl, rfl, hs.emitEvent _ _ _⟩
  · exact ⟨rfl, rfl, hs⟩

theorem alike (p : ContractPermissions) : Alike p (fun _ => False) Eq (SameUnguarded p) where
  used_eq _ _ h := congrArg GasMeter.used h
  costs_eq _ _ h := congrArg GasMeter.costs h
  charge := by
    rintro g _ amount rfl
    exact .inr ⟨rfl, rfl⟩
  host _ args memory _ _ hp hs := hs.sameAnswer hp args memory

end SameUnguarded

/-- What can be seen of a call: its result, the globals and memory of all contracts, the gas meter,
and the host's storage and events. -/
structure Seen where
  result : Except RuntimeError ExecutionOutcome
  runtime : InterpreterRuntime
  gas : GasMeter
  storage : Std.ExtTreeMap Bytes32 Bytes
  events : List ContractEvent

def Execution.seen (e : Execution) : Seen :=
  ⟨e.result, e.runtime, e.gas, e.host.storage, e.host.events⟩

variable {rt : InterpreterRuntime} {address : Address} {fuel : ℕ} {name : String}
  {args : List ContractValue} {gas : GasMeter} {p : ContractPermissions}

theorem SameUnguarded.seen_eq {h h' : HostEnvironment} (hs : SameUnguarded p h h') {e : Execution}
    (he : rt.executeContract address fuel name args gas h p = some e) :
    (rt.executeContract address fuel name args gas h' p).map Execution.seen = some e.seen := by
  rcases (SameUnguarded.alike p).executeContract le_rfl rfl hs he with
    ⟨_, _, hf⟩ | ⟨e', he', hr, hrt, hg, hs'⟩
  · exact hf.elim
  · rw [he', Option.map_some, Execution.seen, Execution.seen, hr, hrt, hg, hs'.storage, hs'.events]

/-- **Permissions give non-interference**: whatever the contract, the function and the arguments,
two hosts that differ only behind permissions it does not have cannot be told apart. -/
theorem executeContract_noninterference {h h' : HostEnvironment} (hs : SameUnguarded p h h') :
    (rt.executeContract address fuel name args gas h p).map Execution.seen =
      (rt.executeContract address fuel name args gas h' p).map Execution.seen := by
  cases he : rt.executeContract address fuel name args gas h p with
  | some e => exact (hs.seen_eq he).symm
  | none =>
    cases he' : rt.executeContract address fuel name args gas h' p with
    | none => rfl
    | some e' =>
      have := hs.symm.seen_eq he'
      rw [he] at this
      cases this

def presenceReader : LoadedContract where
  module :=
    { types := [⟨[], [.i32]⟩]
      imports := [⟨"env", "get_presence_score", 0⟩]
      functions := [⟨0, [], [0x10, 0x00, 0x0B]⟩]
      globals := []
      exports := [⟨"score", .function, 1⟩]
      memoryMinPages := 0
      dataSegments := [] }
  store := ⟨[], []⟩

def hostScoring (presenceScore : UInt8) : HostEnvironment :=
  { blockHeight := 7, blockTimestamp := 1000, callerAddress := ⟨.zero⟩, callerBalance := 50,
    presenceScore := presenceScore }

theorem executeContract_noninterference_presence :
    let rt : InterpreterRuntime := ⟨Std.ExtTreeMap.empty.insert ⟨.zero⟩ presenceReader⟩
    (rt.executeContract ⟨.zero⟩ 10 "score" [] (.new 1000) (hostScoring 40) {}).map (·.result) =
        some (.ok ⟨.void, 221, false, some ("host function error: permission denied: " ++
          "contract lacks 'get_presence_score' permission")⟩) ∧
      (rt.executeContract ⟨.zero⟩ 10 "score" [] (.new 1000) (hostScoring 40) {}).map
          Execution.seen =
        (rt.executeContract ⟨.zero⟩ 10 "score" [] (.new 1000) (hostScoring 99) {}).map
          Execution.seen :=
  ⟨by decide +kernel, executeContract_noninterference
    ⟨rfl, rfl, rfl, rfl, rfl, rfl, by simp, by simp, by simp, by simp⟩⟩

end Gratia
