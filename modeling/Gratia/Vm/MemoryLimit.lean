import Gratia.Vm.Regions
import Gratia.Vm.Runtime

/-!
# Vm — Memory limit

The linear memory of loaded contracts, over runs of `load_contract` and `execute_contract`.  Memory
comes from two places: the minimum that the module declares, which `load_contract` allocates, and
`memory.grow`, which stops at a cap of its own.  Neither looks at `max_memory_bytes` of the sandbox
configuration.
-/

namespace Gratia

open Support
open Reader Std

/-! ### Operations on the runtime -/

/-- The runtime, with the configuration that each contract was loaded with. -/
structure Loads where
  runtime : InterpreterRuntime := {}
  configs : ExtTreeMap Address SandboxConfig := ∅

/-- A call of `load_contract` or `execute_contract`; the latter with the fuel within which it
returns. -/
inductive RuntimeCall where
  | load (address : Address) (bytecode : Bytes) (config : SandboxConfig)
  | execute (address : Address) (fuel : ℕ) (functionName : String) (args : List ContractValue)
      (gas : GasMeter) (host : HostEnvironment) (permissions : ContractPermissions)

namespace Loads

/-- The state after a call; whether a load succeeded or an execution returned is the answer. -/
def perform (s : Loads) : RuntimeCall → Bool × Loads
  | .load address bytecode config =>
    match s.runtime.loadContract address bytecode config with
    | (.ok (), runtime) => (true, ⟨runtime, s.configs.insert address config⟩)
    | (.error _, runtime) => (false, { s with runtime := runtime })
  | .execute address fuel functionName args gas host permissions =>
    match s.runtime.executeContract address fuel functionName args gas host permissions with
    | some e => (true, { s with runtime := e.runtime })
    | none => (false, s)

/-- Every contract's memory is within the limit it was loaded with. -/
def WithinLimits (s : Loads) : Prop :=
  ∀ (address : Address) (contract : LoadedContract), s.runtime.contracts[address]? = some contract →
    ∃ config : SandboxConfig, s.configs[address]? = some config ∧
      contract.store.memory.length ≤ config.maxMemoryBytes

end Loads

/-- A module that fits a configuration: the memory it declares is within the limit, and so is the
cap of `memory.grow` unless no function contains that instruction. -/
def WasmModule.Fits (m : WasmModule) (config : SandboxConfig) : Prop :=
  max m.memoryMinPages.toNat 1 * pageSize ≤ config.maxMemoryBytes ∧
    (growCap * pageSize ≤ config.maxMemoryBytes ∨
      ∀ func ∈ m.functions, .memoryGrow ∉ instructions func.code)

instance (m : WasmModule) (config : SandboxConfig) : Decidable (m.Fits config) :=
  inferInstanceAs (Decidable (_ ∧ _))

/-- A load whose module, if the bytecode is one, fits its configuration. -/
def RuntimeCall.Fits : RuntimeCall → Prop
  | .load _ bytecode config => ∀ m, parseModule bytecode = .ok m → m.Fits config
  | .execute .. => True

/-! ### What keeps the size of the memory -/

theorem length_hostFunction {name : String} {args : List Value} {memory memory' : Bytes}
    {host host' : HostEnvironment} {v : Option Value}
    (h : hostFunction name args memory host = .ok (v, memory', host')) :
    memory'.length = memory.length := by
  have hanswer := hostFunction_cases name args memory host
  rw [h] at hanswer
  cases hanswer with
  | copied _ _ hfits => exact length_copyAt hfits
  | answered | stored | emitted => rfl

/-- A run keeps the memory within a limit that the cap of `memory.grow` respects, or that no
function grows towards. -/
theorem memory_region (ctx : Context) (limit : ℕ)
    (h : growCap * pageSize ≤ limit ∨
      ∀ func ∈ ctx.module.functions, .memoryGrow ∉ instructions func.code) :
    Region ctx (fun instr => instr = .memoryGrow → growCap * pageSize ≤ limit)
      (fun store _ => store.memory.length ≤ limit) (fun _ _ => True) where
  body i func _ _ hfunc := by
    refine clear_of_instructions fun instr hmem => ?_
    rintro rfl
    rcases h with h | h
    · exact h
    · exact absurd hmem (h func (List.mem_of_getElem? hfunc))
  perform instr m r m' env hP hp hI := by
    rcases hp.size with hsize | ⟨hgrow, hsize⟩
    · exact hsize.le.trans hI
    · exact hsize.trans (hP hgrow)
  count _ _ hI := hI
  charge cost store env hI := by
    unfold Settles
    split
    · exact ⟨hI, fun _ _ => trivial⟩
    · exact ⟨hI, fun _ _ => trivial⟩
  host _ _ _ _ _ _ _ _ _ _ _ _ hf hI := (length_hostFunction hf).le.trans hI

/-! ### Runs -/

namespace Loads

/-- What a run of fitting calls keeps: every contract is within the limit it was loaded with, and
stays so whatever it runs. -/
def Bounded (s : Loads) : Prop :=
  ∀ (address : Address) (contract : LoadedContract), s.runtime.contracts[address]? = some contract →
    ∃ config : SandboxConfig, s.configs[address]? = some config ∧
      contract.store.memory.length ≤ config.maxMemoryBytes ∧ contract.module.Fits config

theorem Bounded.load {s : Loads} (h : s.Bounded) {address : Address} {bytecode : Bytes}
    {config : SandboxConfig} (hfits : ∀ m, parseModule bytecode = .ok m → m.Fits config) :
    (s.perform (.load address bytecode config)).2.Bounded := by
  unfold perform
  rcases s.runtime.loadContract_cases address bytecode config with
    ⟨e, hload, -⟩ | ⟨m, -, hparse, hload⟩
  · simp only [hload]
    exact h
  · simp only [hload]
    intro other contract hother
    dsimp only at hother ⊢
    rw [ExtTreeMap.getElem?_insert] at hother ⊢
    split at hother
    next heq =>
      cases hother
      refine ⟨config, if_pos heq, ?_, hfits m hparse⟩
      exact (length_initialMemory m).le.trans (hfits m hparse).1
    next hne =>
      rw [if_neg hne]
      exact h other contract hother

theorem Bounded.execute {s : Loads} (h : s.Bounded) {address : Address} {fuel : ℕ} {name : String}
    {args : List ContractValue} {gas : GasMeter} {host : HostEnvironment}
    {p : ContractPermissions} :
    (s.perform (.execute address fuel name args gas host p)).2.Bounded := by
  unfold perform
  dsimp only
  cases he : s.runtime.executeContract address fuel name args gas host p with
  | none => exact h
  | some e =>
    rcases InterpreterRuntime.executeContract_cases he with
      ⟨err, rfl, -⟩ | ⟨g, gas₁, -, rfl⟩ | ⟨contract, i, gas₁, r, store, env, hget, -, -, hrun, rfl⟩
    · exact h
    · exact h
    · obtain ⟨config, hconfig, hlen, hfits⟩ := h address contract hget
      have hregion := memory_region ⟨contract.module, p⟩ config.maxMemoryBytes hfits.2
      obtain ⟨hlen', -⟩ := hregion.run (by simp) hlen hrun
      intro other contract' hother
      dsimp only at hother ⊢
      rw [ExtTreeMap.getElem?_insert] at hother
      split at hother
      next heq =>
        cases hother
        obtain rfl : address = other := Std.LawfulEqCmp.eq_of_compare heq
        exact ⟨config, hconfig, hlen', hfits⟩
      next => exact h other contract' hother

/-- **Memory stays within the limits along every run whose loaded modules fit their
configurations.** -/
theorem withinLimits_of_fits (calls : List RuntimeCall)
    (h : ∀ call ∈ calls, call.Fits) : (run perform {} calls).WithinLimits := by
  have hinv : (run perform {} calls).Bounded := by
    refine run_induction Bounded RuntimeCall.Fits ?_ calls {} h ?_
    · rintro s (⟨address, bytecode, config⟩ | _) hfits hs
      · exact hs.load hfits
      · exact hs.execute
    · intro address contract hget
      simp at hget
  intro address contract hget
  obtain ⟨config, hconfig, hlen, -⟩ := hinv address contract hget
  exact ⟨config, hconfig, hlen⟩

def twoPages : Bytes :=
  [0x00, 0x61, 0x73, 0x6D, 0x01, 0x00, 0x00, 0x00, 0x05, 0x03, 0x01, 0x00, 0x02]

theorem withinLimits_of_fits_twoPages :
    (run perform {} [.load ⟨.zero⟩ twoPages {}]).WithinLimits ∧
      (perform {} (.load ⟨.zero⟩ twoPages {})).1 = true := by
  refine ⟨withinLimits_of_fits _ ?_, by decide +kernel⟩
  intro call hcall
  obtain rfl := List.mem_singleton.mp hcall
  have hfits : (parseModule twoPages).toOption.any (fun m => decide (m.Fits {})) = true := by
    decide +kernel
  simp only [Option.any_eq_true, decide_eq_true_eq, toOption_eq_some] at hfits
  obtain ⟨m, hparse, hm⟩ := hfits
  intro m' hm'
  obtain rfl : m = m' := Except.ok.inj (hparse.symm.trans hm')
  exact hm

/-- **The limit is not enforced**: two pages are loaded under a limit of one. -/
theorem two_pages_exceed_limit :
    ¬ (run perform {} [.load ⟨.zero⟩ twoPages { maxMemoryBytes := 65536 }]).WithinLimits := by
  have hvalid : validateBytecode twoPages { maxMemoryBytes := 65536 } = .ok () := by
    decide +kernel
  have hpages : (parseModule twoPages).map (·.memoryMinPages) = .ok 2 := by decide +kernel
  cases hparse : parseModule twoPages with
  | error e => rw [hparse] at hpages; cases hpages
  | ok m =>
    have hm : m.memoryMinPages = 2 := by
      rw [hparse] at hpages
      exact Except.ok.inj hpages
    rw [run, run, perform, InterpreterRuntime.loadContract, hvalid, hparse]
    intro hwithin
    obtain ⟨config, hconfig, hlen⟩ := hwithin ⟨.zero⟩ _ ExtTreeMap.getElem?_insert_self
    obtain rfl := Option.some.inj (ExtTreeMap.getElem?_insert_self.symm.trans hconfig)
    have hsize : (initialMemory m).length = 131072 := by rw [length_initialMemory, hm]; rfl
    rw [LoadedContract.ofModule, hsize] at hlen
    exact absurd hlen (by decide)

end Loads

end Gratia
