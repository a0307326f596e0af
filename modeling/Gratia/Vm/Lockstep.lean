import Gratia.Vm.Runtime

/-!
# Vm — Lockstep

Two runs of the interpreter on one module.  Nothing but the charges and the host functions looks at
the environment, so two environments that those treat alike give runs that go in step, instruction
by instruction, through loops, nested blocks and calls.
-/

namespace Gratia

open Support Reader

/-- The same frame and store beside related environments. -/
def Beside {σ : Type} (R : Env → Env → Prop) (s t : σ × Env) : Prop := s.1 = t.1 ∧ R s.2 t.2

/-- Charges and host functions keep `R`, except where the first run is lost: it ends in an error
that need not be followed, a gas error. -/
structure InStep (ctx : Context) (Lost : InterpError → Prop) (R : Env → Env → Prop) : Prop where
  lost_gas : ∀ e, Lost e → ∃ g, e = .gas g
  count : Follows Lost R (Exec.lift countInstruction) (Exec.lift countInstruction)
  charge : ∀ cost, Follows Lost R (Exec.lift (chargeGas cost)) (Exec.lift (chargeGas cost))
  host : ∀ name args, ctx.permissions.permits name = true →
    Follows Lost (Beside R) (Exec.lift (runHostFunction name args))
      (Exec.lift (runHostFunction name args))

variable {ctx : Context} {Lost : InterpError → Prop} {R : Env → Env → Prop}

theorem follows_onMachine {α : Type} (x : Step α) :
    Follows Lost (Beside R) (onMachine x) (onMachine x) := by
  refine Follows.within (R := Eq) ?_ ?_ ?_
  · rintro s t ⟨h, -⟩
    exact h
  · rintro s t m _ ⟨-, hR⟩ rfl
    exact ⟨rfl, hR⟩
  · exact follows_refl _

theorem follows_onEnv {σ α : Type} {x : EStateM InterpError Env α}
    (h : Follows Lost R (Exec.lift x) (Exec.lift x)) :
    Follows Lost (Beside R) (onEnv x : Exec InterpError (σ × Env) α) (onEnv x) := by
  refine Follows.within ?_ ?_ h
  · rintro s t ⟨-, hR⟩
    exact hR
  · rintro s t env env' ⟨hm, -⟩ hR
    exact ⟨hm, hR⟩

theorem follows_calling {α : Type} {x y : CallM α} (h : Follows Lost (Beside R) x y) :
    Follows Lost (Beside R) (calling x) (calling y) := by
  refine Follows.within ?_ ?_ h
  · rintro s t ⟨hm, hR⟩
    exact ⟨congrArg Machine.store hm, hR⟩
  · rintro s t s' t' ⟨hm, -⟩ ⟨hs, hR⟩
    exact ⟨by simp only [hm, hs], hR⟩

theorem follows_onFrame {α : Type} (frame : Frame) {x y : BlockM α}
    (h : Follows Lost (Beside R) x y) :
    Follows Lost (Beside R) (onFrame frame x) (onFrame frame y) := by
  refine Follows.within ?_ ?_ h
  · rintro s t ⟨hs, hR⟩
    exact ⟨by simp only [hs], hR⟩
  · rintro s t s' t' - ⟨hm, hR⟩
    exact ⟨congrArg Machine.store hm, hR⟩

theorem follows_leaveBlock (e : InterpError) :
    Follows Lost (Beside R) (leaveBlock e) (leaveBlock e) := by
  cases e with
  | branch depth =>
    refine (follows_onMachine _).bind fun _ => ?_
    split
    · exact follows_pure _
    · exact follows_throw _
  | _ => exact follows_throw _

theorem follows_leaveFunction (e : InterpError) :
    Follows Lost (Beside R) (leaveFunction e) (leaveFunction e) := by
  cases e with
  | branch depth | functionReturn => exact follows_pure _
  | _ => exact follows_throw _

namespace InStep

variable (h : InStep ctx Lost R)
include h

theorem chargeInstruction (opcode : UInt8) :
    Follows Lost (Beside R) (chargeInstruction opcode) (chargeInstruction opcode) := by
  refine (follows_onEnv h.count).bind fun _ => ?_
  split
  · exact follows_pure _
  · exact follows_onEnv (h.charge _)

theorem dispatch : Follows Lost (Beside R) (dispatch ctx.module) (dispatch ctx.module) := by
  refine (follows_onMachine _).bind fun opcode => ?_
  refine (h.chargeInstruction opcode).bind fun _ => ?_
  exact (follows_onMachine _).bind fun instr => follows_onMachine _

theorem dispatchHostCall (name : String) (args : List Value) :
    Follows Lost (Beside R) (dispatchHostCall ctx name args) (dispatchHostCall ctx name args) := by
  refine (follows_onEnv (h.charge _)).bind fun _ => ?_
  unfold ContractPermissions.checkPermission
  by_cases hp : ctx.permissions.permits name = true
  · rw [if_pos hp]
    exact h.host name args hp
  · rw [if_neg hp]
    exact follows_throw _

theorem leave {x y : BlockM Unit} (hxy : Follows Lost (Beside R) x y) :
    Follows Lost (Beside R) (tryCatch x leaveBlock) (tryCatch y leaveBlock) := by
  refine hxy.tryCatch (fun e _ => follows_leaveBlock e) fun e he => ?_
  obtain ⟨g, rfl⟩ := h.lost_gas e he
  rfl

theorem executeFunction_succ {n n' : ℕ}
    (hblock : ∀ d, Follows Lost (Beside R) (executeBlock ctx n d) (executeBlock ctx n' d))
    (d : ℕ) (i : UInt32) (args : List Value) :
    Follows Lost (Beside R) (executeFunction ctx (n + 1) d i args)
      (executeFunction ctx (n' + 1) d i args) := by
  rw [executeFunction, executeFunction]
  split
  · exact follows_throw _
  split
  · split
    · exact follows_throw _
    · exact h.dispatchHostCall _ args
  · split
    · exact follows_throw _
    split
    · exact follows_throw _
    · refine follows_onFrame _ (Follows.bind ?_ fun _ => follows_onMachine _)
      refine (hblock d).tryCatch (fun e _ => follows_leaveFunction e) fun e he => ?_
      obtain ⟨g, rfl⟩ := h.lost_gas e he
      rfl

theorem executeBlock_succ {n n' : ℕ}
    (hcall : ∀ d i args, Follows Lost (Beside R) (executeFunction ctx n d i args)
      (executeFunction ctx n' d i args))
    (hblock : ∀ d, Follows Lost (Beside R) (executeBlock ctx n d) (executeBlock ctx n' d))
    (hloop : ∀ d start, Follows Lost (Beside R) (executeLoop ctx n d start)
      (executeLoop ctx n' d start)) (d : ℕ) :
    Follows Lost (Beside R) (executeBlock ctx (n + 1) d) (executeBlock ctx (n' + 1) d) := by
  rw [executeBlock, executeBlock]
  refine (follows_onMachine _).bind fun r => ?_
  split
  · exact follows_pure _
  · refine h.dispatch.bind fun action => ?_
    cases action with
    | next => exact hblock d
    | finish => exact follows_pure _
    | enter => exact (h.leave (hblock d)).bind fun _ => hblock d
    | loop start => exact (hloop d start).bind fun _ => hblock d
    | call i args =>
      refine (follows_calling (hcall (d + 1) i args)).bind fun result => ?_
      cases result with
      | none => exact hblock d
      | some v => exact (follows_onMachine _).bind fun _ => hblock d

theorem executeLoop_succ {n n' : ℕ}
    (hblock : ∀ d, Follows Lost (Beside R) (executeBlock ctx n d) (executeBlock ctx n' d))
    (hloop : ∀ d start, Follows Lost (Beside R) (executeLoop ctx n d start)
      (executeLoop ctx n' d start)) (d start : ℕ) :
    Follows Lost (Beside R) (executeLoop ctx (n + 1) d start)
      (executeLoop ctx (n' + 1) d start) := by
  rw [executeLoop, executeLoop]
  refine (follows_onMachine _).bind fun _ => (hblock d).tryCatch (fun e _ => ?_) fun e he => ?_
  · cases e with
    | branch depth =>
      dsimp only
      split
      · exact hloop d start
      · exact follows_leaveBlock _
    | _ => exact follows_throw _
  · obtain ⟨g, rfl⟩ := h.lost_gas e he
    rfl

/-- **Related environments run in step.** -/
theorem run {n n' : ℕ} (hn : n ≤ n') :
    (∀ d i args, Follows Lost (Beside R) (Gratia.executeFunction ctx n d i args)
      (Gratia.executeFunction ctx n' d i args)) ∧
    (∀ d, Follows Lost (Beside R) (executeBlock ctx n d) (executeBlock ctx n' d)) ∧
    (∀ d start, Follows Lost (Beside R) (executeLoop ctx n d start)
      (executeLoop ctx n' d start)) := by
  induction n generalizing n' with
  | zero =>
    refine ⟨fun d i args => ?_, fun d => ?_, fun d start => ?_⟩
    · rw [Gratia.executeFunction]
      exact follows_exhausted
    · rw [executeBlock]
      exact follows_exhausted
    · rw [executeLoop]
      exact follows_exhausted
  | succ n ih =>
    obtain ⟨m, rfl⟩ := Nat.exists_eq_add_of_le' hn
    obtain ⟨hcall, hblock, hloop⟩ := ih (Nat.le_add_left n m)
    exact ⟨h.executeFunction_succ hblock, h.executeBlock_succ hcall hblock hloop,
      h.executeLoop_succ hblock hloop⟩

end InStep

theorem inStep_refl (ctx : Context) : InStep ctx (fun _ => False) Eq where
  lost_gas := fun _ h => h.elim
  count := follows_refl _
  charge _ := follows_refl _
  host name args _ := by
    intro s t hst
    obtain rfl : s = t := Prod.ext hst.1 hst.2
    exact ends_of_forall fun r s' hr => .inr ⟨s', hr, rfl, rfl⟩

/-- **More fuel never changes a result.** -/
theorem executeFunction_mono {n n' : ℕ} (hn : n ≤ n') {d : ℕ} {i : UInt32} {args : List Value}
    {s s' : Store × Env} {r : Except InterpError (Option Value)}
    (h : executeFunction ctx n d i args s = some (r, s')) :
    executeFunction ctx n' d i args s = some (r, s') := by
  rcases (((inStep_refl ctx).run hn).1 d i args s s ⟨rfl, rfl⟩).of_eq h with
    ⟨_, _, hf⟩ | ⟨t, ht, hs, he⟩
  · exact hf.elim
  · rw [ht, Prod.ext hs he]

/-! ### Environments alike in meter and host -/

/-- Two hosts' answers to one host function: the same value and memory, and hosts related again, or
the same error. -/
def SameAnswer (RH : HostEnvironment → HostEnvironment → Prop) :
    Except InterpError (Option Value × Bytes × HostEnvironment) →
      Except InterpError (Option Value × Bytes × HostEnvironment) → Prop
  | .error e, .error e' => e = e'
  | .ok (v, memory, host), .ok (v', memory', host') => v = v' ∧ memory = memory' ∧ RH host host'
  | _, _ => False

/-- A relation on meters and one on hosts that charges and permitted host functions keep, unless the
first meter runs out and that is lost. -/
structure Alike (permissions : ContractPermissions) (Lost : GasError → Prop)
    (RG : GasMeter → GasMeter → Prop) (RH : HostEnvironment → HostEnvironment → Prop) : Prop where
  used_eq : ∀ g g', RG g g' → g.used = g'.used
  costs_eq : ∀ g g', RG g g' → g.costs = g'.costs
  charge : ∀ g g' amount, RG g g' → (∃ e, (g.charge amount).1 = .error e ∧ Lost e) ∨
    (g.charge amount).1 = (g'.charge amount).1 ∧ RG (g.charge amount).2 (g'.charge amount).2
  host : ∀ name args memory h h', permissions.permits name = true → RH h h' →
    SameAnswer RH (hostFunction name args memory h) (hostFunction name args memory h')

namespace Alike

variable {permissions : ContractPermissions} {LostGas : GasError → Prop}
  {RG : GasMeter → GasMeter → Prop} {RH : HostEnvironment → HostEnvironment → Prop}

/-- Environments alike, with the same count of instructions. -/
def Envs (RG : GasMeter → GasMeter → Prop) (RH : HostEnvironment → HostEnvironment → Prop)
    (env env' : Env) : Prop :=
  RG env.gas env'.gas ∧ RH env.host env'.host ∧ env.dispatched = env'.dispatched

/-- The interpreter's errors that are lost. -/
def LostError (LostGas : GasError → Prop) (e : InterpError) : Prop := ∃ g, e = .gas g ∧ LostGas g

variable (h : Alike permissions LostGas RG RH)
include h

theorem inStep (m : WasmModule) :
    InStep ⟨m, permissions⟩ (LostError LostGas) (Envs RG RH) where
  lost_gas := fun e ⟨g, he, _⟩ => ⟨g, he⟩
  count := by
    rintro env env' ⟨hG, hH, hn⟩
    exact .inr ⟨_, rfl, hG, hH, congrArg (· + 1) hn⟩
  charge cost := by
    rintro env env' ⟨hG, hH, hn⟩
    have hc := h.charge env.gas env'.gas (cost env.gas.costs) hG
    simp only [Ends, Exec.lift, chargeGas, ← h.costs_eq _ _ hG]
    rcases h₁ : env.gas.charge (cost env.gas.costs) with ⟨r₁, g₁⟩
    rcases h₂ : env'.gas.charge (cost env.gas.costs) with ⟨r₂, g₂⟩
    rw [h₁, h₂] at hc
    obtain ⟨e, rfl : r₁ = _, hl⟩ | ⟨rfl : r₁ = r₂, hG'⟩ := hc
    · exact .inl ⟨_, rfl, e, rfl, hl⟩
    · cases r₁ with
      | ok _ | error e => exact .inr ⟨_, rfl, hG', hH, hn⟩
  host name args hp := by
    rintro ⟨store, env⟩ ⟨_, env'⟩ ⟨rfl : store = _, hG, hH, hn⟩
    have ha := h.host name args store.memory env.host env'.host hp hH
    simp only [Ends, Exec.lift, runHostFunction]
    rcases h₁ : hostFunction name args store.memory env.host with e | ⟨v, memory, host⟩ <;>
      rcases h₂ : hostFunction name args store.memory env'.host with e' | ⟨v', memory', host'⟩ <;>
      rw [h₁, h₂] at ha
    · obtain rfl : e = e' := ha
      exact .inr ⟨_, rfl, rfl, hG, hH, hn⟩
    · exact ha.elim
    · exact ha.elim
    · obtain ⟨rfl, rfl, hH'⟩ := ha
      exact .inr ⟨_, rfl, rfl, hG, hH', hn⟩

/-- **Calls of `execute_contract` in environments that are alike.** -/
theorem executeContract {rt : InterpreterRuntime} {address : Address} {n n' : ℕ} (hn : n ≤ n')
    {name : String} {args : List ContractValue} {g g' : GasMeter} {host host' : HostEnvironment}
    (hG : RG g g') (hH : RH host host') {e : Execution}
    (he : rt.executeContract address n name args g host permissions = some e) :
    (∃ err, e.result = .error (.gas err) ∧ LostGas err) ∨
      ∃ e', rt.executeContract address n' name args g' host' permissions = some e' ∧
        e'.result = e.result ∧ e'.runtime = e.runtime ∧ RG e.gas e'.gas ∧ RH e.host e'.host := by
  unfold InterpreterRuntime.executeContract at he ⊢
  split at he
  · cases he
    exact .inr ⟨_, rfl, rfl, rfl, hG, hH⟩
  next contract _ =>
  split at he
  · cases he
    exact .inr ⟨_, rfl, rfl, rfl, hG, hH⟩
  next funcIdx _ =>
  have hc := h.charge g g' (g.costs.hostCall "base_call") hG
  rw [← h.costs_eq _ _ hG]
  rcases h₁ : g.charge (g.costs.hostCall "base_call") with ⟨r₁, g₁⟩
  rcases h₂ : g'.charge (g.costs.hostCall "base_call") with ⟨r₂, g₂⟩
  rw [h₁, h₂] at hc
  rw [h₁] at he
  obtain ⟨err, rfl : r₁ = _, hl⟩ | ⟨rfl : r₁ = r₂, hG'⟩ := hc
  · cases he
    exact .inl ⟨err, rfl, hl⟩
  cases r₁ with
  | error err =>
    cases he
    exact .inr ⟨_, rfl, rfl, rfl, hG', hH⟩
  | ok _ =>
    obtain ⟨⟨r, store, env⟩, hrun, rfl⟩ := Option.map_eq_some_iff.mp he
    have hfollow := ((h.inStep contract.module).run hn).1 0 funcIdx
      (args.map contractValueToValue) (contract.store, ⟨g₁, host, 0⟩)
      (contract.store, ⟨g₂, host', 0⟩) ⟨rfl, hG', hH, rfl⟩
    rcases hfollow.of_eq hrun with ⟨_, rfl, err, rfl, hl⟩ | ⟨⟨_, env'⟩, hrun', rfl : store = _, hE⟩
    · exact .inl ⟨err, rfl, hl⟩
    · refine .inr ⟨_, Option.map_eq_some_iff.mpr ⟨_, hrun', rfl⟩, ?_, rfl, hE.1, hE.2.1⟩
      exact congrArg (ExecutionOutcome.ofResult · r) (h.used_eq _ _ hE.1).symm

end Alike

end Gratia
