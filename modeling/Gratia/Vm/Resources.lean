import Gratia.Vm.Observe
import Gratia.Vm.Rollback

/-!
# Vm — Resources

What an execution uses besides instructions — pages of memory, reads and writes of the storage,
bytes of events — against what its meter is charged.  `memory.grow` is charged as a branch and the
host functions for storage and events at the flat rate, so the prices the table has for these
resources are never looked up.  The first page can be had for 103: the base of a call, an operand and
the branch.
-/

namespace Gratia

open Support

/-! ### Pages of memory -/

/-- The pages of memory that a contract has. -/
def InterpreterRuntime.pagesOf (rt : InterpreterRuntime) (contractAddress : Address) : ℕ :=
  (rt.contracts[contractAddress]?.map fun contract => contract.store.memory.length / pageSize).getD 0

/-- With the data `key`, a zero byte and `val`: `put` writes `val` under `key`, `get` and `peek` read
under `key` and under `key` with the zero byte, and `grow` grows the memory by a page. -/
def ledger : Bytes :=
  [0x00, 0x61, 0x73, 0x6D, 0x01, 0x00, 0x00, 0x00, 0x01, 0x11, 0x03, 0x60, 0x04, 0x7F, 0x7F, 0x7F,
    0x7F, 0x00, 0x60, 0x02, 0x7F, 0x7F, 0x01, 0x7F, 0x60, 0x00, 0x00, 0x02, 0x28, 0x02, 0x03, 0x65,
    0x6E, 0x76, 0x0D, 0x73, 0x74, 0x6F, 0x72, 0x61, 0x67, 0x65, 0x5F, 0x77, 0x72, 0x69, 0x74, 0x65,
    0x00, 0x00, 0x03, 0x65, 0x6E, 0x76, 0x0C, 0x73, 0x74, 0x6F, 0x72, 0x61, 0x67, 0x65, 0x5F, 0x72,
    0x65, 0x61, 0x64, 0x00, 0x01, 0x03, 0x05, 0x04, 0x02, 0x02, 0x02, 0x02, 0x05, 0x03, 0x01, 0x00,
    0x01, 0x07, 0x1B, 0x04, 0x03, 0x70, 0x75, 0x74, 0x00, 0x02, 0x03, 0x67, 0x65, 0x74, 0x00, 0x03,
    0x04, 0x70, 0x65, 0x65, 0x6B, 0x00, 0x04, 0x04, 0x67, 0x72, 0x6F, 0x77, 0x00, 0x05, 0x0A, 0x2A,
    0x04, 0x0C, 0x00, 0x41, 0x00, 0x41, 0x03, 0x41, 0x04, 0x41, 0x03, 0x10, 0x00, 0x0B, 0x09, 0x00,
    0x41, 0x00, 0x41, 0x03, 0x10, 0x01, 0x1A, 0x0B, 0x09, 0x00, 0x41, 0x00, 0x41, 0x04, 0x10, 0x01,
    0x1A, 0x0B, 0x07, 0x00, 0x41, 0x01, 0x40, 0x00, 0x1A, 0x0B, 0x0B, 0x0D, 0x01, 0x00, 0x41, 0x00,
    0x0B, 0x07, 0x6B, 0x65, 0x79, 0x00, 0x76, 0x61, 0x6C]

/-- A runtime into which it has just been loaded. -/
def ledgerRuntime : InterpreterRuntime :=
  (({} : InterpreterRuntime).loadContract ⟨.zero⟩ ledger {}).2

theorem ledger_loaded : ({} : InterpreterRuntime).loadContract ⟨.zero⟩ ledger {} =
    (.ok (), ledgerRuntime) := by
  have hok : (({} : InterpreterRuntime).loadContract ⟨.zero⟩ ledger {}).1 = .ok () := by
    decide +kernel
  rw [← hok, ledgerRuntime]

theorem ledger_grow : (ledgerRuntime.executeContract ⟨.zero⟩ 40 "grow" [] (.new 103) quietHost {}).any
    (fun e => decide (e.gas.used = 103 ∧ e.result.isOk = true ∧
      e.runtime.pagesOf ⟨.zero⟩ - ledgerRuntime.pagesOf ⟨.zero⟩ = 1)) = true := by
  decide +kernel

/-! ### What is used, and what is charged -/

/-- What a host function is charged by the default table. -/
def HostCall.charge (c : HostCall) : ℕ := (({} : GasCosts).hostCall c.name).toNat

structure Resources where
  pages : ℕ
  reads : ℕ
  writes : ℕ
  eventBytes : ℕ
deriving DecidableEq

def Resources.price (costs : GasCosts) (r : Resources) : ℕ :=
  costs.memoryGrowPage.toNat * r.pages + costs.storageRead.toNat * r.reads +
    costs.storageWrite.toNat * r.writes + costs.logPerByte.toNat * r.eventBytes

/-- What an execution has used: the pages its contract has grown by, and what its host functions
did. -/
def Execution.resources (e : Execution) (rt : InterpreterRuntime) (contractAddress : Address)
    (calls : List HostCall) : Resources where
  pages := e.runtime.pagesOf contractAddress - rt.pagesOf contractAddress
  reads := (calls.filterMap HostCall.read?).length
  writes := (calls.filterMap HostCall.write?).length
  eventBytes := ((calls.filterMap HostCall.event?).map (·.data.length)).sum

section Executions

variable {rt : InterpreterRuntime} {contractAddress : Address} {fuel : ℕ} {functionName : String}
  {args : List ContractValue} {gas : GasMeter} {host : HostEnvironment}
  {permissions : ContractPermissions} {e : Execution}

end Executions

/-- Under this gas limit every execution of a module that has just been loaded pays for what it
uses. -/
def PaysUnder (limit : Lux) : Prop :=
  ∀ contractAddress bytecode config rt,
    ({} : InterpreterRuntime).loadContract contractAddress bytecode config = (.ok (), rt) →
    ∀ fuel functionName args host permissions e,
      rt.executeContract contractAddress fuel functionName args (.new limit) host permissions =
        some e →
      (e.resources rt contractAddress (rt.observe hostTrace contractAddress fuel functionName args
        (.new limit) host permissions)).price {} ≤ e.gas.used.toNat

/-- A page for 103, where it should be 10000. -/
theorem PaysUnder.lt {limit : Lux} (h : PaysUnder limit) : limit < 103 := by
  by_contra hge
  obtain ⟨e, he, hgrown⟩ := (Option.any_eq_true ..).mp ledger_grow
  obtain ⟨hused, hok, hpages⟩ := of_decide_eq_true hgrown
  rcases (SameReading.alike {}).executeContract le_rfl
    (GasMeter.sameReading_new (UInt64.not_lt.mp hge)) rfl he with ⟨g, hg, -⟩ | ⟨e', he', -, hrt, hgas, -⟩
  · rw [hg] at hok
    cases hok
  · have hpaid := h _ _ _ _ ledger_loaded _ _ _ _ _ e' he'
    unfold Resources.price Execution.resources at hpaid
    rw [hrt, hpages, ← hgas.used_eq, hused] at hpaid
    have hprice : ({} : GasCosts).memoryGrowPage.toNat = 10000 := rfl
    rw [hprice] at hpaid
    simp at hpaid
    omega

end Gratia
