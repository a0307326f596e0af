import Gratia.Vm.Resources

/-!
# Vm — Events

The events that `call_contract` returns, against the limits of the sandbox and the address of the
contract.  `record_event`, which has the limits, is not called; `dispatch_host_call` appends to the
host's list, and with the zero address.  What holds the number of events back is their gas: with the
base of the call, the first can be had for 200.
-/

namespace Gratia

open Support

/-- The limits of a configuration on the events of one execution, and their origin. -/
structure EventsWithin (config : SandboxConfig) (contractAddress : Address)
    (events : List ContractEvent) : Prop where
  count : events.length ≤ config.maxEventsPerExecution
  data : (events.map (·.data.length)).sum ≤ config.maxEventDataBytes
  origin : ∀ event ∈ events, event.contractAddress = contractAddress

namespace GratiaVm

variable {vm : GratiaVm} {fuel : ℕ} {call : ContractCall} {host : HostEnvironment} {c : Called}
  {r : ExecutionResult}

/-- Under this gas limit every call of a contract that has just been deployed returns events within
the limits of the machine, that name the contract. -/
def EmitsWithin (limit : Lux) : Prop :=
  ∀ P config deployer bytecode permissions address vm,
    ({ sandboxConfig := config } : GratiaVm).deployContract P deployer bytecode permissions =
      (.ok address, vm) →
    ∀ fuel functionName args host c r, host.events = [] →
      vm.callContract fuel ⟨address, functionName, args, limit⟩ host = some c →
      c.result = .ok r → EventsWithin config address r.events

/-- A module with `emit_event` and two functions: `tell` emits an event without topic or data, and
`rest` does nothing. -/
def herald : Bytes :=
  [0x00, 0x61, 0x73, 0x6D, 0x01, 0x00, 0x00, 0x00, 0x01, 0x0B, 0x02, 0x60, 0x04, 0x7F, 0x7F, 0x7F,
    0x7F, 0x00, 0x60, 0x00, 0x00, 0x02, 0x12, 0x01, 0x03, 0x65, 0x6E, 0x76, 0x0A, 0x65, 0x6D, 0x69,
    0x74, 0x5F, 0x65, 0x76, 0x65, 0x6E, 0x74, 0x00, 0x00, 0x03, 0x03, 0x02, 0x01, 0x01, 0x07, 0x16,
    0x03, 0x04, 0x74, 0x65, 0x6C, 0x6C, 0x00, 0x01, 0x04, 0x72, 0x65, 0x73, 0x74, 0x00, 0x02, 0x04,
    0x65, 0x6D, 0x69, 0x74, 0x00, 0x00, 0x0A, 0x11, 0x02, 0x0C, 0x00, 0x41, 0x00, 0x41, 0x00, 0x41,
    0x00, 0x41, 0x00, 0x10, 0x00, 0x0B, 0x02, 0x00, 0x0B]

def heraldAddress : Address := contractAddressOf reference ⟨.zero⟩ herald

/-- The machine on which it has just been deployed, and on which no events are allowed. -/
def heraldVm : GratiaVm :=
  (({ sandboxConfig := { maxEventsPerExecution := 0 } } : GratiaVm).deployContract reference ⟨.zero⟩
    herald {}).2

theorem herald_deployed :
    ({ sandboxConfig := { maxEventsPerExecution := 0 } } : GratiaVm).deployContract reference ⟨.zero⟩
      herald {} = (.ok heraldAddress, heraldVm) := by
  have hok : (({ sandboxConfig := { maxEventsPerExecution := 0 } } : GratiaVm).deployContract
      reference ⟨.zero⟩ herald {}).1 = .ok heraldAddress := by decide +kernel
  rw [← hok, heraldVm]

/-- `emit_event` can be called from outside if it is exported. -/
theorem EmitsWithin.lt {limit : Lux} (h : EmitsWithin limit) : limit < 200 := by
  by_contra hge
  have hres : (heraldVm.callContract 40 ⟨heraldAddress, "emit", [], 200⟩ quietHost).map (·.result) =
      some (.ok ⟨true, .void, 200, 0, [⟨⟨.zero⟩, "", []⟩], none⟩) := by decide +kernel
  obtain ⟨c, hc, hr⟩ := Option.map_eq_some_iff.mp hres
  have hout : ¬ExecutionResult.RanOutOfGas ⟨true, .void, 200, 0, [⟨⟨.zero⟩, "", []⟩], none⟩ := by
    rintro ⟨g, hg⟩
    cases hg
  obtain ⟨c', r', hc', hr', -, he, -⟩ := callContract_higher_ok hc hr (UInt64.not_lt.mp hge) hout
  have hcount := (h _ _ _ _ _ _ _ herald_deployed _ _ _ quietHost c' r' rfl hc' hr').count
  rw [he] at hcount
  exact absurd hcount (by decide)

end GratiaVm

end Gratia
