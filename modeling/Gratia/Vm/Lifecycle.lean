import Gratia.Vm.Rollback

/-!
# Vm — Lifecycle

The globals and memory of contracts over deployments, calls and evictions.  They live in the loaded
module, which `deploy_contract` and every reload make anew, and which a failed call leaves as it was
when it failed.
-/

namespace Gratia

open Support
open Std (ExtTreeMap)

/-- The globals and memory that a module starts with. -/
def initialStore (bytecode : Bytes) : Option Store :=
  match parseModule bytecode with
  | .error _ => none
  | .ok m => some (LoadedContract.ofModule m).store

namespace GratiaVm

variable {vm : GratiaVm}

variable {address : Address}

/-- **Where a call finds globals and memory.** -/
theorem storeAt_eq {contract : DeployedContract}
    (hcontract : vm.contracts[address]? = some contract) :
    vm.storeAt address = match vm.runtime.contracts[address]? with
      | some loaded => some loaded.store
      | none =>
        if validateBytecode contract.bytecode vm.sandboxConfig = .ok () then
          initialStore contract.bytecode
        else none := by
  unfold storeAt ensureLoaded InterpreterRuntime.isLoaded
  rw [hcontract, ExtTreeMap.contains_eq_isSome_getElem?]
  dsimp only
  cases hloaded : vm.runtime.contracts[address]? with
  | some loaded =>
    rw [if_pos Option.isSome_some]
    dsimp only
    rw [hloaded]
    rfl
  | none =>
    rw [if_neg (by simp)]
    dsimp only
    rcases vm.runtime.loadContract_cases address contract.bytecode vm.sandboxConfig with
      ⟨e, hload, hnone⟩ | ⟨m, hvalid, hparse, hload⟩
    · rw [hload]
      dsimp only
      rw [hloaded]
      split
      next hvalid =>
        obtain ⟨e, hparse⟩ := hnone hvalid
        rw [initialStore, hparse]
        rfl
      next => rfl
    · rw [hload, if_pos hvalid, initialStore, hparse]
      dsimp only
      rw [ExtTreeMap.getElem?_insert_self]
      rfl

theorem storeAt_of_absent (h : vm.contracts[address]? = none) : vm.storeAt address = none := by
  rw [storeAt, h]

theorem storeAt_congr {vm' : GratiaVm} (hconfig : vm'.sandboxConfig = vm.sandboxConfig)
    (hcontract : vm'.contracts[address]? = vm.contracts[address]?)
    (hloaded : vm'.runtime.contracts[address]? = vm.runtime.contracts[address]?) :
    vm'.storeAt address = vm.storeAt address := by
  cases hget : vm.contracts[address]? with
  | none => rw [storeAt_of_absent hget, storeAt_of_absent (hcontract.trans hget)]
  | some contract => rw [storeAt_eq hget, storeAt_eq (hcontract.trans hget), hloaded, hconfig]

/-- The ways a deployment goes: it fails and changes nothing, or installs the module as it starts.
-/
theorem deployContract_cases (P : Platform) (vm : GratiaVm) (deployer : Address) (bytecode : Bytes)
    (permissions : ContractPermissions) :
    (∃ fault, vm.deployContract P deployer bytecode permissions = (.error fault, vm)) ∨
      ∃ m, vm.deployContract P deployer bytecode permissions =
          (.ok (contractAddressOf P deployer bytecode),
            { vm with
              runtime := ⟨vm.runtime.contracts.insert (contractAddressOf P deployer bytecode)
                (.ofModule m)⟩
              contracts := vm.contracts.insert (contractAddressOf P deployer bytecode)
                ⟨bytecode, permissions⟩ }) ∧
        validateBytecode bytecode vm.sandboxConfig = .ok () ∧
        initialStore bytecode = some (LoadedContract.ofModule m).store := by
  unfold deployContract
  cases hv : validateBytecode bytecode vm.sandboxConfig with
  | error e => exact .inl ⟨_, rfl⟩
  | ok _ =>
    dsimp only
    rcases vm.runtime.loadContract_cases (contractAddressOf P deployer bytecode) bytecode
      vm.sandboxConfig with ⟨e, hload, -⟩ | ⟨m, -, hparse, hload⟩
    · rw [hload]
      exact .inl ⟨_, rfl⟩
    · rw [hload]
      exact .inr ⟨m, rfl, rfl, by rw [initialStore, hparse]⟩

theorem ensureLoaded_frame (vm : GratiaVm) (address : Address) (bytecode : Bytes) :
    (vm.ensureLoaded address bytecode).2.sandboxConfig = vm.sandboxConfig ∧
      (vm.ensureLoaded address bytecode).2.contracts = vm.contracts ∧
      ∀ other, other ≠ address → (vm.ensureLoaded address bytecode).2.runtime.contracts[other]? =
        vm.runtime.contracts[other]? := by
  unfold ensureLoaded
  split
  · exact ⟨rfl, rfl, fun _ _ => rfl⟩
  · rcases vm.runtime.loadContract_cases address bytecode vm.sandboxConfig with
      ⟨e, hload, -⟩ | ⟨m, -, -, hload⟩
    · rw [hload]
      exact ⟨rfl, rfl, fun _ _ => rfl⟩
    · rw [hload]
      exact ⟨rfl, rfl, fun other hother => getElem?_insert_ne _ _ hother.symm⟩

variable {fuel : ℕ} {call : ContractCall} {host : HostEnvironment} {c : Called}

/-- A call changes no entries but those of the contract that is called. -/
theorem callContract_frame (h : vm.callContract fuel call host = some c) :
    c.vm.sandboxConfig = vm.sandboxConfig ∧ c.vm.contracts = vm.contracts ∧
      ∀ other, other ≠ call.contractAddress →
        c.vm.runtime.contracts[other]? = vm.runtime.contracts[other]? := by
  rcases callContract_cases h with
    ⟨fault, vm₁, rfl, ⟨-, rfl⟩ | ⟨contract, -, hload⟩, -⟩ | ⟨contract, vm₁, e, -, hload, hrun, rfl⟩
  · exact ⟨rfl, rfl, fun _ _ => rfl⟩
  all_goals
    have hframe := vm.ensureLoaded_frame call.contractAddress contract.bytecode
    rw [hload] at hframe
  · exact hframe
  · refine ⟨hframe.1, hframe.2.1, fun other hother => Eq.trans ?_ (hframe.2.2 other hother)⟩
    rcases InterpreterRuntime.executeContract_cases hrun with
      ⟨err, rfl, -⟩ | ⟨g, gas₁, -, rfl⟩ | ⟨loaded, i, gas₁, res, store, env, -, -, -, -, rfl⟩
    · rfl
    · rfl
    · exact getElem?_insert_ne _ _ hother.symm

def evict (vm : GratiaVm) (address : Address) : GratiaVm :=
  { vm with runtime := vm.runtime.unloadContract address }

def Called.succeeded (c : Called) : Bool :=
  match c.result with
  | .ok r => r.success
  | .error _ => false

theorem ensureLoaded_error {vm₁ : GratiaVm} {bytecode : Bytes} {fault : VmFault}
    (h : vm.ensureLoaded address bytecode = (.error fault, vm₁)) : vm₁ = vm := by
  unfold ensureLoaded at h
  split at h
  · cases h
  · rcases vm.runtime.loadContract_cases address bytecode vm.sandboxConfig with
      ⟨e, hload, -⟩ | ⟨m, -, -, hload⟩
    · rw [hload] at h
      cases h
      rfl
    · rw [hload] at h
      cases h

/-- A call of a harmless function that does not succeed leaves the contract what it had. -/
theorem Harmless.storeAt_eq (h : vm.Harmless call) (hc : vm.callContract fuel call host = some c)
    (hs : c.succeeded = false) :
    c.vm.storeAt call.contractAddress = vm.storeAt call.contractAddress := by
  cases hr : c.result with
  | ok r =>
    refine (h.kept hc hr ?_).1
    unfold Called.succeeded at hs
    rwa [hr] at hs
  | error fault =>
    rcases callContract_cases hc with
      ⟨_, vm₁, rfl, ⟨-, rfl⟩ | ⟨contract, -, hload⟩, -⟩ | ⟨contract, vm₁, e, -, -, -, rfl⟩
    · rfl
    · rw [ensureLoaded_error hload]
    · cases hr

theorem callContract_loaded
    (h : vm.callContract fuel call host = some c) (hc : c.succeeded = true) :
    (∃ contract, vm.contracts[call.contractAddress]? = some contract) ∧
      ∃ loaded, c.vm.runtime.contracts[call.contractAddress]? = some loaded := by
  rcases callContract_cases h with ⟨fault, vm₁, rfl, -⟩ | ⟨contract, vm₁, e, hget, -, hrun, rfl⟩
  · cases hc
  refine ⟨⟨contract, hget⟩, ?_⟩
  rcases InterpreterRuntime.executeContract_cases hrun with
    ⟨err, rfl, -⟩ | ⟨g, gas₁, -, rfl⟩ | ⟨loaded, i, gas₁, res, store, env, -, -, -, -, rfl⟩
  · cases err <;> cases hc
  · cases hc
  · exact ⟨_, ExtTreeMap.getElem?_insert_self⟩

end GratiaVm

/-! ### Runs -/

/-- What can be done to a virtual machine: `deploy_contract`, `call_contract`, and
`unload_contract` of its runtime. -/
inductive VmOp where
  | deploy (deployer : Address) (bytecode : Bytes) (permissions : ContractPermissions)
  | call (fuel : ℕ) (call : ContractCall) (host : HostEnvironment)
  | unload (address : Address)

/-- A virtual machine, and the globals and memory that each contract should have: those that its last
successful call has left, or those it has started with. -/
structure Tracked where
  vm : GratiaVm
  meant : Address → Option Store := fun _ => none

namespace Tracked

variable (P : Platform)

/-- An operation.  Only the first deployment of a contract and successful calls give it globals and
memory. -/
def step (s : Tracked) : VmOp → Option Tracked
  | .deploy deployer bytecode permissions =>
    match s.vm.deployContract P deployer bytecode permissions with
    | (.error _, vm) => some ⟨vm, s.meant⟩
    | (.ok address, vm) =>
      some ⟨vm, Function.update s.meant address ((s.meant address).or (initialStore bytecode))⟩
  | .call fuel call host =>
    (s.vm.callContract fuel call host).map fun c =>
      if c.succeeded then
        ⟨c.vm, Function.update s.meant call.contractAddress
          (c.vm.runtime.contracts[call.contractAddress]?.map (·.store))⟩
      else ⟨c.vm, s.meant⟩
  | .unload address => some ⟨s.vm.evict address, s.meant⟩

/-- Every call would start from what it should. -/
def Agrees (s : Tracked) : Prop := ∀ address, s.vm.storeAt address = s.meant address

/-- An operation that is not seen: a contract is deployed again or evicted only if it has what it has
started with, and the functions called are harmless. -/
def Transparent (s : Tracked) : VmOp → Prop
  | .deploy deployer bytecode permissions =>
    ∀ address vm, s.vm.deployContract P deployer bytecode permissions = (.ok address, vm) →
      s.meant address = none ∨ s.meant address = initialStore bytecode
  | .call _ call _ => s.vm.Harmless call
  | .unload address =>
    ∀ contract, s.vm.contracts[address]? = some contract →
      s.meant address = initialStore contract.bytecode

/-- Deployed contracts can be loaded again. -/
def Reloadable (vm : GratiaVm) : Prop :=
  ∀ (address : Address) (contract : DeployedContract), vm.contracts[address]? = some contract →
    validateBytecode contract.bytecode vm.sandboxConfig = .ok ()

variable {P}

inductive Step (P : Platform) (s : Tracked) : VmOp → Tracked → Prop where
  | refused {deployer : Address} {bytecode : Bytes} {permissions : ContractPermissions}
      {fault : VmFault}
      (hd : s.vm.deployContract P deployer bytecode permissions = (.error fault, s.vm)) :
      Step P s (.deploy deployer bytecode permissions) s
  | installed {deployer : Address} {bytecode : Bytes} {permissions : ContractPermissions}
      {address : Address} {m : WasmModule} {vm : GratiaVm}
      (hd : s.vm.deployContract P deployer bytecode permissions = (.ok address, vm))
      (hconfig : vm.sandboxConfig = s.vm.sandboxConfig)
      (hcontracts : vm.contracts = s.vm.contracts.insert address ⟨bytecode, permissions⟩)
      (hruntime : vm.runtime.contracts = s.vm.runtime.contracts.insert address (.ofModule m))
      (hvalid : validateBytecode bytecode s.vm.sandboxConfig = .ok ())
      (hinit : initialStore bytecode = some (LoadedContract.ofModule m).store) :
      Step P s (.deploy deployer bytecode permissions)
        ⟨vm, Function.update s.meant address ((s.meant address).or (initialStore bytecode))⟩
  | served {fuel : ℕ} {call : ContractCall} {host : HostEnvironment} {c : GratiaVm.Called}
      (hc : s.vm.callContract fuel call host = some c) (hs : c.succeeded = true) :
      Step P s (.call fuel call host)
        ⟨c.vm, Function.update s.meant call.contractAddress
          (c.vm.runtime.contracts[call.contractAddress]?.map (·.store))⟩
  | failed {fuel : ℕ} {call : ContractCall} {host : HostEnvironment} {c : GratiaVm.Called}
      (hc : s.vm.callContract fuel call host = some c) (hs : c.succeeded = false) :
      Step P s (.call fuel call host) ⟨c.vm, s.meant⟩
  | evicted {address : Address} :
      Step P s (.unload address) ⟨s.vm.evict address, s.meant⟩

variable {s : Tracked}

variable {t : Tracked} {op : VmOp}

theorem step_cases (h : s.step P op = some t) : Step P s op t := by
  cases op with
  | deploy deployer bytecode permissions =>
    change (match s.vm.deployContract P deployer bytecode permissions with
      | (.error _, vm) => _
      | (.ok address, vm) => _) = _ at h
    rcases GratiaVm.deployContract_cases P s.vm deployer bytecode permissions with
      ⟨fault, hd⟩ | ⟨m, hd, hvalid, hinit⟩
    · rw [hd] at h
      cases h
      exact .refused hd
    · rw [hd] at h
      cases h
      exact .installed hd rfl rfl rfl hvalid hinit
  | call fuel call host =>
    obtain ⟨c, hc, rfl⟩ := Option.map_eq_some_iff.mp h
    cases hs : c.succeeded with
    | true => exact .served hc hs
    | false => exact .failed hc hs
  | unload address =>
    cases h
    exact .evicted

theorem step_reloadable (hstep : s.step P op = some t) (h : Reloadable s.vm) : Reloadable t.vm := by
  cases step_cases hstep with
  | refused => exact h
  | @installed _ bytecode _ address _ _ _ hconfig hcontracts _ hvalid =>
    intro other contract hget
    dsimp only at hget ⊢
    rw [hcontracts] at hget
    rw [hconfig]
    by_cases ho : other = address
    · subst ho
      rw [ExtTreeMap.getElem?_insert_self] at hget
      cases hget
      exact hvalid
    · rw [getElem?_insert_ne _ _ (Ne.symm ho)] at hget
      exact h other contract hget
  | served hc | failed hc =>
    obtain ⟨hconfig, hcontracts, -⟩ := GratiaVm.callContract_frame hc
    unfold Reloadable
    rw [hconfig, hcontracts]
    exact h
  | evicted => exact fun address contract hget => h address contract hget

/-- Agreement at the address that an operation is about is all there is to show. -/
theorem Agrees.of_frame (h : s.Agrees) (address : Address)
    (hother : ∀ other, other ≠ address → t.vm.storeAt other = s.vm.storeAt other ∧
      t.meant other = s.meant other) (ha : t.vm.storeAt address = t.meant address) : t.Agrees := by
  intro other
  by_cases ho : other = address
  · subst ho
    exact ha
  · rw [(hother other ho).1, (hother other ho).2]
    exact h other

/-- **One operation that is not seen keeps the agreement.** -/
theorem Agrees.step (h : s.Agrees) (hreload : Reloadable s.vm) (ht : s.Transparent P op)
    (hstep : s.step P op = some t) : t.Agrees := by
  cases step_cases hstep with
  | refused hd => exact h
  | @installed _ bytecode permissions address m vm hd hconfig hcontracts hruntime hvalid hinit =>
    have hget : vm.contracts[address]? = some ⟨bytecode, permissions⟩ := by
      rw [hcontracts]
      exact ExtTreeMap.getElem?_insert_self
    have hloaded : vm.runtime.contracts[address]? = some (.ofModule m) := by
      rw [hruntime]
      exact ExtTreeMap.getElem?_insert_self
    refine h.of_frame address (fun other ho => ?_) ?_
    · refine ⟨GratiaVm.storeAt_congr hconfig ?_ ?_, Function.update_of_ne ho _ _⟩
      · rw [hcontracts]
        exact getElem?_insert_ne _ _ ho.symm
      · rw [hruntime]
        exact getElem?_insert_ne _ _ ho.symm
    · dsimp only
      rw [Function.update_self, GratiaVm.storeAt_eq hget, hloaded]
      rcases ht address vm hd with hmeant | hmeant
      · rw [hmeant, hinit]
        rfl
      · rw [hmeant, hinit]
        rfl
  | @served fuel call host c hc hs =>
    obtain ⟨hconfig, hcontracts, hframe⟩ := GratiaVm.callContract_frame hc
    obtain ⟨⟨contract, hget⟩, loaded, hloaded⟩ := GratiaVm.callContract_loaded hc hs
    refine h.of_frame call.contractAddress (fun other ho => ?_) ?_
    · refine ⟨GratiaVm.storeAt_congr hconfig ?_ (hframe other ho), Function.update_of_ne ho _ _⟩
      rw [hcontracts]
    · rw [← hcontracts] at hget
      dsimp only
      rw [Function.update_self, GratiaVm.storeAt_eq hget, hloaded]
      rfl
  | @failed fuel call host c hc hs =>
    obtain ⟨hconfig, hcontracts, hframe⟩ := GratiaVm.callContract_frame hc
    refine h.of_frame call.contractAddress (fun other ho => ?_) ?_
    · refine ⟨GratiaVm.storeAt_congr hconfig ?_ (hframe other ho), rfl⟩
      rw [hcontracts]
    · exact (GratiaVm.Harmless.storeAt_eq ht hc hs).trans (h call.contractAddress)
  | @evicted address =>
    refine h.of_frame address (fun other ho => ?_) ?_
    · exact ⟨GratiaVm.storeAt_congr rfl rfl (getElem?_erase_ne _ ho.symm), rfl⟩
    cases hget : s.vm.contracts[address]? with
    | none =>
      dsimp only
      rw [← h address, GratiaVm.storeAt_of_absent hget]
      exact GratiaVm.storeAt_of_absent hget
    | some contract =>
      -- it is loaded again as it started
      have hgone : (s.vm.evict address).runtime.contracts[address]? = none :=
        ExtTreeMap.getElem?_erase_self
      have hvalid : validateBytecode contract.bytecode (s.vm.evict address).sandboxConfig =
          .ok () := hreload address contract hget
      have hget' : (s.vm.evict address).contracts[address]? = some contract := hget
      dsimp only
      rw [GratiaVm.storeAt_eq hget', hgone, if_pos hvalid]
      exact (ht contract hget).symm

/-- From a virtual machine without contracts, there is agreement after every operation of a run. -/
def AgreesAlong (P : Platform) (config : SandboxConfig) (ops : List VmOp) : Prop :=
  Along (step P) (fun s op => ∀ t ∈ s.step P op, t.Agrees)
    ⟨{ sandboxConfig := config }, fun _ => none⟩ ops

/-- **Contract state changes only through successful calls if nothing else is seen**: along every run
from a virtual machine without contracts that calls harmless functions only, and evicts contracts or
deploys them again only in the state they started with, every call would start from what the last
successful call to its contract left, or from what the contract started with. -/
theorem agrees_of_transparent (config : SandboxConfig) (ops : List VmOp)
    (h : Along (step P) (fun s op => s.Transparent P op)
      ⟨{ sandboxConfig := config }, fun _ => none⟩ ops) : AgreesAlong P config ops := by
  refine (along_congr (fun s => Reloadable s.vm ∧ s.Agrees) ?_ ?_ ops _ h ⟨?_, ?_⟩).mpr h
  · intro s op t ht _ hstep ⟨hreload, hs⟩
    exact ⟨step_reloadable hstep hreload, hs.step hreload ht hstep⟩
  · exact fun s op ht ⟨hreload, hs⟩ => iff_of_true (fun t hstep => hs.step hreload ht hstep) ht
  · intro address contract hget
    rw [ExtTreeMap.getElem?_empty] at hget
    cases hget
  · exact fun address => GratiaVm.storeAt_of_absent ExtTreeMap.getElem?_empty

/-! ### Runs of one contract -/

open GratiaVm (scribbler scribblerAddress)

def deployScribbler : VmOp := .deploy ⟨.zero⟩ scribbler {}

def callScribbler (function : String) (gasLimit : Lux) : VmOp :=
  .call 40 ⟨scribblerAddress, function, [], gasLimit⟩ quietHost

/-- The contract is evicted before its first call; then it counts, and runs out of gas. -/
def countingRun : List VmOp :=
  [deployScribbler, .unload scribblerAddress, callScribbler "bump" 1000, callScribbler "bump" 103]

/-- A check that calls are of atomic functions that call nothing. -/
def callsLeaf (s : Tracked) : VmOp → Bool
  | .call _ call _ => s.vm.checkRun call WasmModule.isAtomicLeaf
  | _ => true

theorem harmless_of_callsLeaf {fuel : ℕ} {call : ContractCall} {host : HostEnvironment}
    (h : s.callsLeaf (.call fuel call host) = true) : s.Transparent P (.call fuel call host) :=
  .inr (GratiaVm.runsOnly_of_checkRun atomic_of_isAtomicLeaf h)

/-- A contract that has just been deployed on an empty machine has what it has started with. -/
theorem meant_deployed {P : Platform} {deployer address : Address} {bytecode : Bytes}
    {permissions : ContractPermissions} {contract : DeployedContract}
    (h : step P ⟨{}, fun _ => none⟩ (.deploy deployer bytecode permissions) = some t)
    (hget : t.vm.contracts[address]? = some contract) :
    t.meant address = initialStore contract.bytecode := by
  cases step_cases h with
  | refused =>
    rw [ExtTreeMap.getElem?_empty] at hget
    cases hget
  | @installed _ _ _ installed _ _ _ _ hcontracts =>
    dsimp only at hget ⊢
    rw [hcontracts] at hget
    by_cases ha : installed = address
    · rw [ha, ExtTreeMap.getElem?_insert_self] at hget
      cases hget
      rw [ha, Function.update_self]
      rfl
    · rw [getElem?_insert_ne _ _ ha, ExtTreeMap.getElem?_empty] at hget
      cases hget

theorem agrees_counting : AgreesAlong reference {} countingRun := by
  have hleaf : Along (step reference) (fun s op => s.callsLeaf op = true) ⟨{}, fun _ => none⟩
      countingRun := by decide +kernel
  refine agrees_of_transparent {} countingRun ⟨fun _ _ _ => .inl rfl, fun t ht => ?_⟩
  refine ⟨fun contract hget => meant_deployed ht hget, fun u hu => ?_⟩
  obtain ⟨hfirst, hcounted⟩ := (hleaf.2 t ht).2 u hu
  refine ⟨harmless_of_callsLeaf hfirst, fun v hv => ?_⟩
  exact ⟨harmless_of_callsLeaf (hcounted v hv).1, fun _ _ => trivial⟩

def tallies (s : Tracked) : Option (List Value) × Option (List Value) :=
  ((s.vm.storeAt scribblerAddress).map (·.globals), (s.meant scribblerAddress).map (·.globals))

def talliesAfter (ops : List VmOp) : Option (Option (List Value) × Option (List Value)) :=
  (reach (step reference) ⟨{}, fun _ => none⟩ (deployScribbler :: ops)).map tallies

theorem talliesAfter_runs :
    talliesAfter [callScribbler "bump" 1000, .unload scribblerAddress] =
        some (some [.i32 0], some [.i32 1]) ∧
      talliesAfter [callScribbler "bump" 1000, deployScribbler] =
        some (some [.i32 0], some [.i32 1]) ∧
      talliesAfter [callScribbler "slip" 1000] = some (some [.i32 7], some [.i32 0]) := by
  decide +kernel

theorem not_agrees {ops : List VmOp} {found meant : Option (List Value)}
    (h : talliesAfter ops = some (found, meant)) (hne : found ≠ meant) :
    ¬AgreesAlong reference {} (deployScribbler :: ops) := by
  intro halong
  obtain ⟨s, hs, htallies⟩ := Option.map_eq_some_iff.mp h
  have hagrees : s.Agrees := by
    refine reach_induction Agrees ?_ halong hs ?_
    · exact fun _ _ t h hstep _ => h t hstep
    · exact fun address => GratiaVm.storeAt_of_absent ExtTreeMap.getElem?_empty
  unfold tallies at htallies
  rw [hagrees scribblerAddress] at htallies
  cases htallies
  exact hne rfl

/-- **State is lost, and leaks**: a contract that has counted finds the first value again after
an eviction, and after the same bytecode is deployed again; and a call that failed has set it. -/
theorem eviction_forgets :
    ¬AgreesAlong reference {} [deployScribbler, callScribbler "bump" 1000, .unload scribblerAddress] ∧
      ¬AgreesAlong reference {} [deployScribbler, callScribbler "bump" 1000, deployScribbler] ∧
      ¬AgreesAlong reference {} [deployScribbler, callScribbler "slip" 1000] := by
  obtain ⟨hevicted, hredeployed, hfailed⟩ := talliesAfter_runs
  refine ⟨?_, ?_, ?_⟩
  · exact not_agrees hevicted (by decide)
  · exact not_agrees hredeployed (by decide)
  · exact not_agrees hfailed (by decide)

end Tracked

end Gratia
