import Gratia.Vm.Lockstep
import Gratia.Vm.Regions

/-!
# Vm — Transparency

The gas meter influences a call only by ending it.  Two meters that read the same, the second with
the higher limit, stay so along a run, unless the first runs out.
-/

namespace Gratia

open Support

/-! ### Two meters -/

/-- Meters that read the same, the second with the higher limit. -/
structure SameReading (g g' : GasMeter) : Prop where
  used_eq : g.used = g'.used
  costs_eq : g.costs = g'.costs
  limit_le : g.limit ≤ g'.limit

theorem SameReading.charge {g g' : GasMeter} (h : SameReading g g') (amount : UInt64) :
    (∃ e, (g.charge amount).1 = .error e ∧ True) ∨
      (g.charge amount).1 = (g'.charge amount).1 ∧
        SameReading (g.charge amount).2 (g'.charge amount).2 := by
  have hlim := UInt64.le_iff_toNat_le.mp h.limit_le
  have hused : g.used.toNat = g'.used.toNat := congrArg UInt64.toNat h.used_eq
  rcases g.charge_cases amount with ⟨hle, g₁, hc, hl, hk, hu, -⟩ | ⟨-, e, g₁, hc, -⟩
  · rcases g'.charge_cases amount with ⟨-, g₂, hc', hl', hk', hu', -⟩ | ⟨hlt, -⟩
    · rw [hc, hc']
      refine .inr ⟨rfl, ?_, ?_, ?_⟩
      · rw [hu, hu', h.used_eq]
      · rw [hk, hk', h.costs_eq]
      · rw [hl, hl']
        exact h.limit_le
    · omega
  · rw [hc]
    exact .inl ⟨e, rfl, trivial⟩

theorem SameReading.alike (p : ContractPermissions) : Alike p (fun _ => True) SameReading Eq where
  used_eq _ _ h := h.used_eq
  costs_eq _ _ h := h.costs_eq
  charge _ _ amount h := h.charge amount
  host := by
    rintro name args memory h _ - rfl
    rcases hostFunction name args memory h with e | ⟨v, memory, host⟩
    · rfl
    · exact ⟨rfl, rfl, rfl⟩

/-! ### The meter at the end of a call -/

theorem limit_region (ctx : Context) (limit : UInt64) :
    Region ctx (fun _ => True) (fun _ env => env.gas.limit = limit)
      (fun _ env => env.gas.used = env.gas.limit) where
  body _ _ _ _ _ := fun _ _ _ _ _ => trivial
  perform _ _ _ _ _ _ _ h := h
  count _ _ h := h
  charge cost _ env h :=
    (chargeGas_metered cost env).mono fun _ _ hm => ⟨hm.limit.trans h, fun _ hg => (hm.short _ hg).2⟩
  host _ _ _ _ _ _ _ _ _ _ _ _ _ h := h

variable {fuel : ℕ} {host : HostEnvironment} {e : Execution} {vm : GratiaVm} {call : ContractCall}
  {c : GratiaVm.Called}

/-- At the end of a call the meter has its limit, and has used it up if the call ran out of gas. -/
theorem executeContract_accounts {rt : InterpreterRuntime} {address : Address} {name : String}
    {args : List ContractValue} {gas : GasMeter} {p : ContractPermissions}
    (he : rt.executeContract address fuel name args gas host p = some e) :
    e.gas.limit = gas.limit ∧ ∀ g, e.result = .error (.gas g) → e.gas.used = e.gas.limit := by
  rcases InterpreterRuntime.executeContract_cases he with
    ⟨err, rfl, hne⟩ | ⟨g, gas₁, hc, rfl⟩ | ⟨contract, i, gas₁, r, store, env, -, -, hc, hrun, rfl⟩
  · exact ⟨rfl, fun g hg => absurd (Except.error.inj hg) (hne g)⟩
  · rcases gas.charge_cases (gas.costs.hostCall "base_call") with
      ⟨-, g₂, hc', -⟩ | ⟨-, _, g₂, hc', hl, -, hu⟩
    · rw [hc] at hc'
      cases hc'
    · rw [hc] at hc'
      cases hc'
      exact ⟨hl, fun _ _ => hu.trans hl.symm⟩
  · have hl : gas₁.limit = gas.limit := by
      rcases gas.charge_cases (gas.costs.hostCall "base_call") with
        ⟨-, g₂, hc', hl, -⟩ | ⟨-, _, g₂, hc', -⟩
      · rw [hc] at hc'
        cases hc'
        exact hl
      · rw [hc] at hc'
        cases hc'
    obtain ⟨hlimit, hempty⟩ := (limit_region ⟨contract.module, p⟩ gas.limit).run trivial hl hrun
    exact ⟨hlimit, fun g hg => hempty g (ExecutionOutcome.ofResult_eq_gas.mp hg)⟩

/-! ### Calls -/

/-- A result that reports that the call ran out of gas. -/
def ExecutionResult.RanOutOfGas (r : ExecutionResult) : Prop :=
  ∃ g : GasError, r.error = some ("out of gas: " ++ g.toText)

/-- A result apart from the gas that remains. -/
def ExecutionResult.apartFromRemaining (r : ExecutionResult) : ExecutionResult :=
  { r with gasRemaining := 0 }

theorem GasMeter.sameReading_new {limit limit' : UInt64} (h : limit ≤ limit') :
    SameReading (new limit) (new limit') where
  used_eq := rfl
  costs_eq := rfl
  limit_le := by
    rw [UInt64.le_iff_toNat_le, toNat_limit_new, toNat_limit_new]
    exact min_le_min_right _ (UInt64.le_iff_toNat_le.mp h)

theorem GratiaVm.resultOf_apartFromRemaining {e' : Execution} (hr : e'.result = e.result)
    (hg : SameReading e.gas e'.gas) (events : List ContractEvent) :
    (resultOf e' events).apartFromRemaining = (resultOf e events).apartFromRemaining := by
  unfold resultOf
  rw [hr]
  split
  · simp only [ExecutionResult.apartFromRemaining, hg.used_eq]
  · simp only [ExecutionResult.apartFromRemaining, hg.used_eq]
  · simp only [ExecutionResult.apartFromRemaining, hg.used_eq]

theorem GratiaVm.gas_resultOf (events : List ContractEvent)
    (hempty : ∀ g, e.result = .error (.gas g) → e.gas.used = e.gas.limit) :
    (resultOf e events).gasUsed.toNat + (resultOf e events).gasRemaining.toNat =
      e.gas.limit.toNat := by
  unfold resultOf
  split
  next outcome _ => exact e.gas.used_add_gasRemaining
  next g hg =>
    rw [hempty g hg]
    exact Nat.add_zero _
  next err _ _ => exact e.gas.used_add_gasRemaining

/-- A call that did not run out of gas gives the same under every higher limit. -/
theorem GratiaVm.callContract_higher (hc : vm.callContract fuel call host = some c) {limit : Lux}
    (hlimit : call.gasLimit ≤ limit) (hout : ∀ r, c.result = .ok r → ¬r.RanOutOfGas) :
    ∃ c', vm.callContract fuel { call with gasLimit := limit } host = some c' ∧
      c'.result.map ExecutionResult.apartFromRemaining =
        c.result.map ExecutionResult.apartFromRemaining ∧
      c'.vm = c.vm ∧ c'.host = c.host := by
  rcases callContract_cases hc with
    ⟨fault, vm₁, rfl, -, hany⟩ | ⟨contract, vm₁, e, hcontract, hload, hrun, rfl⟩
  · exact ⟨_, hany limit, rfl, rfl, rfl⟩
  rcases (SameReading.alike contract.permissions).executeContract le_rfl
    (GasMeter.sameReading_new hlimit) rfl hrun with ⟨g, hg, -⟩ | ⟨e', hrun', hr, hrt, hgas, hhost⟩
  · -- a call that ran out of gas says so
    refine absurd ⟨g, ?_⟩ (hout _ rfl)
    unfold resultOf
    rw [hg]
  · refine ⟨_, callContract_of_executed hcontract hload hrun', ?_, ?_, ?_⟩
    · rw [← hhost]
      exact congrArg Except.ok (resultOf_apartFromRemaining hr hgas _)
    · rw [hrt]
    · rw [hhost]

theorem GratiaVm.callContract_higher_ok {r : ExecutionResult}
    (hc : vm.callContract fuel call host = some c) (hr : c.result = .ok r) {limit : Lux}
    (hlimit : call.gasLimit ≤ limit) (hout : ¬r.RanOutOfGas) :
    ∃ c' r', vm.callContract fuel { call with gasLimit := limit } host = some c' ∧
      c'.result = .ok r' ∧ r'.success = r.success ∧ r'.events = r.events ∧
      c'.vm = c.vm ∧ c'.host = c.host := by
  obtain ⟨c', hc', hres, hvm, hhost⟩ := callContract_higher hc hlimit fun r' hr' => by
    cases hr.symm.trans hr'
    exact hout
  rw [hr] at hres
  obtain ⟨r', hr', heq⟩ := except_map_ok.mp hres
  have hsuccess : r'.success = r.success := congrArg (fun r => r.success) heq
  have hevents : r'.events = r.events := congrArg (fun r => r.events) heq
  exact ⟨c', r', hc', hr', hsuccess, hevents, hvm, hhost⟩

/-- **The gas limit is transparent**: a call that did not run out of gas gives the same under every
higher limit, and used and remaining gas always make up the limit, capped. -/
theorem callContract_transparent (hc : vm.callContract fuel call host = some c) :
    (∀ limit, call.gasLimit ≤ limit → (∀ r, c.result = .ok r → ¬r.RanOutOfGas) →
      ∃ c', vm.callContract fuel { call with gasLimit := limit } host = some c' ∧
        c'.result.map ExecutionResult.apartFromRemaining =
          c.result.map ExecutionResult.apartFromRemaining ∧
        c'.vm = c.vm ∧ c'.host = c.host) ∧
    ∀ r, c.result = .ok r →
      r.gasUsed.toNat + r.gasRemaining.toNat = min call.gasLimit.toNat maxGasLimit.toNat := by
  refine ⟨fun limit hlimit hout => GratiaVm.callContract_higher hc hlimit hout, ?_⟩
  rcases GratiaVm.callContract_cases hc with
    ⟨fault, vm₁, rfl, -⟩ | ⟨contract, vm₁, e, -, -, hrun, rfl⟩
  · exact nofun
  · rintro r ⟨⟩
    obtain ⟨hl, hempty⟩ := executeContract_accounts hrun
    rw [GratiaVm.gas_resultOf _ hempty, hl, GasMeter.toNat_limit_new]

def adderVm : GratiaVm where
  runtime := ⟨Std.ExtTreeMap.empty.insert ⟨.zero⟩
    { module :=
        { types := [⟨[.i32, .i32], [.i32]⟩]
          imports := []
          functions := [⟨0, [], [0x20, 0x00, 0x20, 0x01, 0x6A, 0x0B]⟩]
          globals := []
          exports := [⟨"add", .function, 0⟩]
          memoryMinPages := 0
          dataSegments := [] }
      store := ⟨[], []⟩ }⟩
  contracts := Std.ExtTreeMap.empty.insert ⟨.zero⟩ ⟨[], {}⟩

def addCall (gasLimit : Lux) : ContractCall := ⟨⟨.zero⟩, "add", [.i32 3, .i32 4], gasLimit⟩

def plainHost : HostEnvironment :=
  { blockHeight := 7, blockTimestamp := 1000, callerAddress := ⟨.zero⟩, callerBalance := 50 }

theorem callContract_transparent_add :
    ∃ c c', adderVm.callContract 20 (addCall 103) plainHost = some c ∧
      c.result = .ok ⟨true, .i32 7, 103, 0, [], none⟩ ∧
      adderVm.callContract 20 (addCall 5000) plainHost = some c' ∧
      c'.result.map ExecutionResult.apartFromRemaining =
        c.result.map ExecutionResult.apartFromRemaining ∧
      c'.vm = c.vm ∧ c'.host = c.host := by
  have hres : (adderVm.callContract 20 (addCall 103) plainHost).map (·.result) =
      some (.ok ⟨true, .i32 7, 103, 0, [], none⟩) := by decide +kernel
  obtain ⟨c, hc, hr⟩ := Option.map_eq_some_iff.mp hres
  obtain ⟨c', hc', hsame⟩ := (callContract_transparent hc).1 5000 (by decide) fun r h => by
    rw [hr] at h
    cases h
    rintro ⟨g, hg⟩
    cases hg
  exact ⟨c, c', hc, hr, hc', hsame⟩

end Gratia
