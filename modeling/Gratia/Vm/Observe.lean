import Gratia.Support.Traces
import Gratia.Vm.CodeRuns

/-!
# Vm — Observe

What can be seen of a run besides its result: which host functions it runs, on which memory and
host, and how its activations of `execute_function` and `execute_block` are nested.  The
observations are worked out beside the interpreter, by the interpreter's own recursion.
-/

namespace Gratia

open Support
open Std (ExtTreeMap)
open Reader

/-- A host function as it is run: on the memory and the host that it finds. -/
structure HostCall where
  name : String
  args : List Value
  memory : Bytes
  host : HostEnvironment

namespace HostCall

variable (c : HostCall)

def answer : Except InterpError (Option Value × Bytes × HostEnvironment) :=
  hostFunction c.name c.args c.memory c.host

/-- The entry of the storage that a `storage_read` looks up. -/
def read? : Option Bytes32 :=
  if c.name = "storage_read" then storageKey c.memory (argU32 c.args 0) (argU32 c.args 1) else none

/-- The entry of the storage that a `storage_write` replaces, with its new value. -/
def write? : Option (Bytes32 × Bytes) :=
  if c.name = "storage_write" then
    match storageKey c.memory (argU32 c.args 0) (argU32 c.args 1) with
    | none => none
    | some key =>
      if (argU32 c.args 2).toNat + (argU32 c.args 3).toNat > c.memory.length then none
      else some (key, (c.memory.drop (argU32 c.args 2).toNat).take (argU32 c.args 3).toNat)
  else none

def event? : Option ContractEvent :=
  if c.name = "emit_event" then
    match readStringFromMemory c.memory (argU32 c.args 0) (argU32 c.args 1) with
    | .error _ => none
    | .ok topic =>
      if (argU32 c.args 2).toNat + (argU32 c.args 3).toNat > c.memory.length then none
      else some ⟨⟨.zero⟩, topic,
        (c.memory.drop (argU32 c.args 2).toNat).take (argU32 c.args 3).toNat⟩
  else none

def stored (storage : ExtTreeMap Bytes32 Bytes) : Option (Bytes32 × Bytes) → ExtTreeMap Bytes32 Bytes
  | none => storage
  | some (key, value) => storage.insert key value

theorem answer_storageWrite (args : List Value) (memory : Bytes) (host : HostEnvironment) :
    (∃ e, answer ⟨"storage_write", args, memory, host⟩ = .error e ∧
        write? ⟨"storage_write", args, memory, host⟩ = none) ∨
      ∃ key value, answer ⟨"storage_write", args, memory, host⟩ =
          .ok (none, memory, host.storageWrite key value) ∧
        write? ⟨"storage_write", args, memory, host⟩ = some (key, value) := by
  unfold answer write?
  rw [if_pos rfl]
  simp only [hostFunction]
  cases storageKey memory (argU32 args 0) (argU32 args 1) with
  | none => exact .inl ⟨_, rfl, rfl⟩
  | some key =>
    dsimp only
    split
    · exact .inl ⟨_, rfl, rfl⟩
    · exact .inr ⟨_, _, rfl, rfl⟩

theorem answer_emitEvent (args : List Value) (memory : Bytes) (host : HostEnvironment) :
    (∃ e, answer ⟨"emit_event", args, memory, host⟩ = .error e ∧
        event? ⟨"emit_event", args, memory, host⟩ = none) ∨
      ∃ topic data, answer ⟨"emit_event", args, memory, host⟩ =
          .ok (none, memory, host.emitEvent ⟨.zero⟩ topic data) ∧
        event? ⟨"emit_event", args, memory, host⟩ = some ⟨⟨.zero⟩, topic, data⟩ := by
  unfold answer event?
  rw [if_pos rfl]
  simp only [hostFunction]
  cases readStringFromMemory memory (argU32 args 0) (argU32 args 1) with
  | error e => exact .inl ⟨_, rfl, rfl⟩
  | ok topic =>
    dsimp only
    split
    · exact .inl ⟨_, rfl, rfl⟩
    · exact .inr ⟨_, _, rfl, rfl⟩

/-- What a host function does to storage and events: nothing if it fails. -/
inductive Effect (c : HostCall) : Prop where
  | failed {e : InterpError} (h : c.answer = .error e) (hw : c.write? = none) (he : c.event? = none)
  | answered {v : Option Value} {memory : Bytes} {host : HostEnvironment}
      (h : c.answer = .ok (v, memory, host)) (hlen : memory.length = c.memory.length)
      (hs : host.storage = stored c.host.storage c.write?)
      (he : host.events = c.host.events ++ c.event?.toList)

theorem effect (c : HostCall) : Effect c := by
  obtain ⟨name, args, memory, host⟩ := c
  by_cases hw : name = "storage_write"
  · subst hw
    have hevent : event? ⟨"storage_write", args, memory, host⟩ = none := if_neg (by simp)
    rcases answer_storageWrite args memory host with ⟨e, ha, hn⟩ | ⟨key, value, ha, hs⟩
    · exact .failed ha hn hevent
    · refine .answered ha rfl ?_ ?_
      · rw [hs]
        rfl
      · rw [hevent]
        exact (List.append_nil _).symm
  have hwrite : write? ⟨name, args, memory, host⟩ = none := if_neg hw
  by_cases he : name = "emit_event"
  · subst he
    rcases answer_emitEvent args memory host with ⟨e, ha, hn⟩ | ⟨topic, data, ha, hs⟩
    · exact .failed ha hwrite hn
    · refine .answered ha rfl ?_ ?_
      · rw [hwrite]
        rfl
      · rw [hs]
        rfl
  have hevent : event? ⟨name, args, memory, host⟩ = none := if_neg he
  -- no other host function touches storage or events
  have hcases := hostFunction_cases name args memory host
  cases ha : answer ⟨name, args, memory, host⟩ with
  | error e => exact .failed ha hwrite hevent
  | ok answer =>
    obtain ⟨v, memory', host'⟩ := answer
    rw [show hostFunction name args memory host = _ from ha] at hcases
    refine .answered ha ?_ ?_ ?_
    · cases hcases with
      | answered => rfl
      | copied _ _ hfits => exact length_copyAt hfits
      | stored => rfl
      | emitted => rfl
    · rw [hwrite]
      cases hcases with
      | stored hname => exact absurd hname hw
      | _ => rfl
    · rw [hevent]
      cases hcases with
      | emitted hname => exact absurd hname he
      | _ => exact (List.append_nil _).symm

end HostCall

/-- What to make of a run: of nothing, of two parts in order, of an activation of `execute_block` or
`execute_function` around a part, and of a host function. -/
structure Observer (ω : Type) where
  idle : ω
  seq : ω → ω → ω
  block : ω → ω
  function : ω → ω
  host : HostCall → ω

section Observe

variable {ω : Type} (o : Observer ω) (ctx : Context)

/-- A call of `dispatch_host_call`: the host function is run if the charge and the permission allow
it. -/
def observeHostCall (name : String) (args : List Value) (s : Store × Env) : ω :=
  Exec.after o.idle (onEnv (chargeGas (·.hostCall name)) : CallM Unit) s fun _ s₁ =>
    if ctx.permissions.permits name then o.host ⟨name, args, s₁.1.memory, s₁.2.host⟩ else o.idle

mutual

def observeFunction : ℕ → ℕ → UInt32 → List Value → Store × Env → ω
  | 0, _, _, _, _ => o.idle
  | fuel + 1, callDepth, funcIdx, args, s =>
    o.function <|
      if callDepth > maxCallDepth then o.idle
      else if funcIdx < ctx.module.importFuncCount then
        match ctx.module.imports[funcIdx.toNat]? with
        | none => o.idle
        | some imported => observeHostCall o ctx imported.name args s
      else
        match ctx.module.functions[(funcIdx - ctx.module.importFuncCount).toNat]? with
        | none => o.idle
        | some func =>
          match ctx.module.types[func.typeIdx.toNat]? with
          | none => o.idle
          | some funcType =>
            o.block (observeBlock fuel callDepth (⟨.enter func funcType.params args, s.1⟩, s.2))

/-- The turns of one activation of `execute_block` from here on. -/
def observeBlock : ℕ → ℕ → Machine × Env → ω
  | 0, _, _ => o.idle
  | fuel + 1, callDepth, s =>
    if s.1.frame.reader.remaining = 0 then o.idle
    else
      Exec.after o.idle (dispatch ctx.module) s fun action s₁ =>
        match action with
        | .next => observeBlock fuel callDepth s₁
        | .finish => o.idle
        | .enter =>
          o.seq (o.block (observeBlock fuel callDepth s₁))
            (Exec.after o.idle (tryCatch (executeBlock ctx fuel callDepth) leaveBlock) s₁
              fun _ s₂ => observeBlock fuel callDepth s₂)
        | .loop start =>
          o.seq (observeLoop fuel callDepth start s₁)
            (Exec.after o.idle (executeLoop ctx fuel callDepth start) s₁
              fun _ s₂ => observeBlock fuel callDepth s₂)
        | .call funcIdx args =>
          o.seq (observeFunction fuel (callDepth + 1) funcIdx args (s₁.1.store, s₁.2))
            (Exec.after o.idle (calling (executeFunction ctx fuel (callDepth + 1) funcIdx args))
              s₁ fun result s₂ =>
                match result with
                | none => observeBlock fuel callDepth s₂
                | some v =>
                  Exec.after o.idle (onMachine (stacking (push v))) s₂
                    fun _ s₃ => observeBlock fuel callDepth s₃)

/-- The turns of a loop, each an activation of `execute_block`. -/
def observeLoop : ℕ → ℕ → ℕ → Machine × Env → ω
  | 0, _, _, _ => o.idle
  | fuel + 1, callDepth, start, s =>
    Exec.after o.idle (onMachine (reading (modify fun r => { r with pos := start }))) s fun _ s₁ =>
      o.seq (o.block (observeBlock fuel callDepth s₁))
        (Exec.afterError o.idle (executeBlock ctx fuel callDepth) s₁ fun e s₂ =>
          match e with
          | .branch depth => if depth = 0 then observeLoop fuel callDepth start s₂ else o.idle
          | _ => o.idle)

end

end Observe

/-! ### The host functions of a run -/

/-- The host functions that are run, in order. -/
def hostTrace : Observer (List HostCall) := ⟨[], (· ++ ·), id, id, fun call => [call]⟩

/-- A relation between globals, memory and environment along the host functions that are run: it
composes, and instructions, charges and host functions keep it. -/
structure Traced (ctx : Context) (Φ : Store × Env → List HostCall → Store × Env → Prop) : Prop
    extends Composes Φ where
  perform : ∀ instr m r m' env, Performed instr m r m' → Φ (m.store, env) [] (m'.store, env)
  count : ∀ store env, Φ (store, env) [] (store, { env with dispatched := env.dispatched + 1 })
  charge : ∀ cost store env,
    Settles (chargeGas cost) env fun _ env' => Φ (store, env) [] (store, env')
  answered : ∀ name args store env env' v memory host,
    chargeGas (·.hostCall name) env = .ok () env' → ctx.permissions.permits name = true →
    hostFunction name args store.memory env'.host = .ok (v, memory, host) →
    Φ (store, env) [⟨name, args, store.memory, env'.host⟩]
      ({ store with memory := memory }, { env' with host := host })
  failed : ∀ name args store env env' e,
    chargeGas (·.hostCall name) env = .ok () env' → ctx.permissions.permits name = true →
    hostFunction name args store.memory env'.host = .error e →
    Φ (store, env) [⟨name, args, store.memory, env'.host⟩] (store, env')

/-- The relation between the machines of a running function: their frames do not count. -/
def Framed (Φ : Store × Env → List HostCall → Store × Env → Prop) (s : Machine × Env)
    (w : List HostCall) (t : Machine × Env) : Prop :=
  Φ (s.1.store, s.2) w (t.1.store, t.2)

namespace Traced

variable {ctx : Context} {Φ : Store × Env → List HostCall → Store × Env → Prop} (h : Traced ctx Φ)
include h

theorem framed : Composes (Framed Φ) where
  refl _ := h.refl _
  trans _ _ _ w w' := h.trans _ _ _ w w'

theorem still {α : Type} {x : BlockM α} {s : Machine × Env}
    (hx : Ends False x s fun _ t => t.1.store = s.1.store ∧ t.2 = s.2) : Shows (Framed Φ) x s [] := by
  intro r t hr
  obtain ⟨hs, he⟩ := hx.of_eq hr
  rw [Framed, hs, he]
  exact h.refl _

theorem charged {opcode : UInt8} {store : Store} {env env' : Env} {r : Except InterpError Unit}
    (hc : Charged opcode env r env') : Φ (store, env) [] (store, env') := by
  have hcount := h.count store env
  have hcharge := h.charge (opcodeCost opcode) store { env with dispatched := env.dispatched + 1 }
  cases hc with
  | free hf => exact hcount
  | paid hf hc => exact h.trans _ _ _ [] [] hcount (hcharge.ok hc)
  | short hf hc => exact h.trans _ _ _ [] [] hcount (hcharge.error hc)

theorem dispatch (s : Machine × Env) : Shows (Framed Φ) (dispatch ctx.module) s [] := by
  obtain ⟨m, env⟩ := s
  refine ((dispatch_ends ctx.module m env).mono ?_).shows
  rintro r ⟨m', env'⟩ hd
  change Φ (m.store, env) [] (m'.store, env')
  cases hd with
  | ended hs he =>
    rw [hs]
    exact h.refl _
  | short hop hs hc | garbled hop hc hs he =>
    rw [hs]
    exact h.charged hc
  | performed hop hc hd hp =>
    have hperform := h.perform _ _ _ _ env' hp
    exact h.trans _ _ _ [] [] (h.charged hc) hperform

theorem dispatchHostCall (name : String) (args : List Value) (s : Store × Env) :
    Shows Φ (dispatchHostCall ctx name args) s (observeHostCall hostTrace ctx name args s) := by
  obtain ⟨store, env⟩ := s
  intro r s' hr
  rcases chargeGas_eq (·.hostCall name) env with ⟨env', hc⟩ | ⟨g, env', hc⟩
  · have hpaid : (onEnv (chargeGas (·.hostCall name)) : CallM Unit) (store, env) =
        some (.ok (), store, env') := onEnv_of_ok hc
    rw [observeHostCall, Exec.after_of_ok hpaid]
    replace hr := (Exec.bind_of_ok hpaid).symm.trans hr
    unfold ContractPermissions.checkPermission at hr
    by_cases hp : ctx.permissions.permits name = true
    · rw [if_pos hp] at hr ⊢
      change Exec.lift (runHostFunction name args) (store, env') = _ at hr
      unfold Exec.lift runHostFunction at hr
      dsimp only at hr
      cases hf : hostFunction name args store.memory env'.host with
      | error e =>
        rw [hf] at hr
        cases hr
        exact h.failed name args store env env' e hc hp hf
      | ok answer =>
        rw [hf] at hr
        cases hr
        exact h.answered name args store env env' _ _ _ hc hp hf
    · rw [if_neg hp] at hr ⊢
      cases hr
      exact (h.charge _ store env).ok hc
  · have hshort : (onEnv (chargeGas (·.hostCall name)) : CallM Unit) (store, env) =
        some (.error (.gas g), store, env') := onEnv_of_error hc
    rw [observeHostCall, Exec.after_of_error hshort]
    replace hr := (Exec.bind_of_error hshort).symm.trans hr
    cases hr
    exact (h.charge _ store env).error hc

theorem leaveBlock (e : InterpError) (s : Machine × Env) : Shows (Framed Φ) (leaveBlock e) s [] := by
  refine h.still ?_
  cases e with
  | branch depth =>
    refine (ends_onMachine (settles_reading (skipToEnd_settles _))).bind ?_ ?_
    · rintro _ ⟨_, _⟩ ⟨⟨r, -, rfl⟩, rfl⟩
      split
      · exact ends_pure ⟨rfl, rfl⟩
      · exact ends_throw ⟨rfl, rfl⟩
    · rintro _ ⟨_, _⟩ ⟨⟨r, -, rfl⟩, rfl⟩
      exact ⟨rfl, rfl⟩
  | _ => exact ends_throw ⟨rfl, rfl⟩

theorem leaveFunction (e : InterpError) (s : Machine × Env) :
    Shows (Framed Φ) (leaveFunction e) s [] := by
  cases e with
  | branch depth | functionReturn => exact h.framed.pure _
  | _ => exact h.framed.throw _

variable {fuel : ℕ} (hblock : ∀ d s, Shows (Framed Φ) (executeBlock ctx fuel d) s
  (observeBlock hostTrace ctx fuel d s))
include hblock

theorem executeFunction_succ (d : ℕ) (i : UInt32) (args : List Value) (s : Store × Env) :
    Shows Φ (executeFunction ctx (fuel + 1) d i args) s
      (observeFunction hostTrace ctx (fuel + 1) d i args s) := by
  rw [executeFunction, observeFunction]
  change Shows Φ _ s (if d > maxCallDepth then _ else _)
  split
  · exact h.throw _
  split
  · cases ctx.module.imports[i.toNat]? with
    | none => exact h.throw _
    | some imported => exact h.dispatchHostCall _ args s
  cases ctx.module.functions[(i - ctx.module.importFuncCount).toNat]? with
  | none => exact h.throw _
  | some func =>
    dsimp only
    cases ctx.module.types[func.typeIdx.toNat]? with
    | none => exact h.throw _
    | some funcType =>
      refine Shows.within (Ψ := Framed Φ) ?_ fun t ht => ht
      refine h.framed.bind_right ?_ fun _ s' _ => h.still ?_
      · exact h.framed.tryCatch_right (hblock d _) fun e s' _ => h.leaveFunction e s'
      · refine (ends_onMachine (returnValue_settles funcType.results s'.1)).mono ?_
        rintro r ⟨_, _⟩ ⟨⟨-, rfl⟩, rfl⟩
        exact ⟨rfl, rfl⟩

variable (hloop : ∀ d start s, Shows (Framed Φ) (executeLoop ctx fuel d start) s
  (observeLoop hostTrace ctx fuel d start s))
include hloop

theorem executeBlock_succ (hcall : ∀ d i args s, Shows Φ (Gratia.executeFunction ctx fuel d i args) s
      (observeFunction hostTrace ctx fuel d i args s)) (d : ℕ) (s : Machine × Env) :
    Shows (Framed Φ) (executeBlock ctx (fuel + 1) d) s
      (observeBlock hostTrace ctx (fuel + 1) d s) := by
  rw [executeBlock, observeBlock]
  -- a look at the cursor comes first
  intro r s' hr
  have hlook : onMachine (reading get) s = some (.ok s.1.frame.reader, s) := rfl
  replace hr := (Exec.bind_of_ok hlook).symm.trans hr
  revert r s'
  split
  · exact h.framed.pure _
  refine h.framed.bind_left (h.dispatch s) fun action s₁ _ => ?_
  cases action with
  | next => exact hblock d s₁
  | finish => exact h.framed.pure _
  | enter =>
    refine h.framed.bind ?_ fun _ s₂ _ => hblock d s₂
    exact h.framed.tryCatch_right (hblock d s₁) fun e s' _ => h.leaveBlock e s'
  | loop start => exact h.framed.bind (hloop d start s₁) fun _ s₂ _ => hblock d s₂
  | call i args =>
    refine h.framed.bind ?_ fun result s₂ _ => ?_
    · exact Shows.within (hcall (d + 1) i args _) fun t ht => ht
    · cases result with
      | none => exact hblock d s₂
      | some v =>
        refine h.framed.bind_left (h.still ?_) fun _ s₃ _ => hblock d s₃
        exact (push_ends v s₂).mono fun r t ht => ⟨ht.2.2.1, ht.2.2.2⟩

theorem executeLoop_succ (d start : ℕ) (s : Machine × Env) :
    Shows (Framed Φ) (executeLoop ctx (fuel + 1) d start) s
      (observeLoop hostTrace ctx (fuel + 1) d start s) := by
  rw [executeLoop, observeLoop]
  refine h.framed.bind_left (h.still ?_) fun _ s₁ _ => ?_
  · exact (seek_ends start s).mono fun r t ht => by rw [ht.2]; exact ⟨rfl, rfl⟩
  refine h.framed.tryCatch (hblock d s₁) fun e s₂ _ => ?_
  cases e with
  | branch depth =>
    dsimp only
    split
    · exact hloop d start s₂
    · exact h.leaveBlock _ s₂
  | _ => exact h.framed.throw _

omit hblock hloop in
/-- **Whole runs keep the relation, along the host functions they run.** -/
theorem run (fuel : ℕ) :
    (∀ d i args s, Shows Φ (Gratia.executeFunction ctx fuel d i args) s
      (observeFunction hostTrace ctx fuel d i args s)) ∧
    (∀ d s, Shows (Framed Φ) (executeBlock ctx fuel d) s (observeBlock hostTrace ctx fuel d s)) ∧
    (∀ d start s, Shows (Framed Φ) (executeLoop ctx fuel d start) s
      (observeLoop hostTrace ctx fuel d start s)) := by
  induction fuel with
  | zero =>
    refine ⟨fun d i args s => ?_, fun d s => ?_, fun d start s => ?_⟩
    · rw [Gratia.executeFunction]
      exact shows_exhausted
    · rw [executeBlock]
      exact shows_exhausted
    · rw [executeLoop]
      exact shows_exhausted
  | succ fuel ih =>
    obtain ⟨hcall, hblock, hloop⟩ := ih
    exact ⟨h.executeFunction_succ hblock, h.executeBlock_succ hblock hloop hcall,
      h.executeLoop_succ hblock hloop⟩

end Traced

/-! ### Whole calls -/

def InterpreterRuntime.observe {ω : Type} (o : Observer ω) (rt : InterpreterRuntime)
    (contractAddress : Address) (fuel : ℕ) (functionName : String) (args : List ContractValue)
    (gas : GasMeter) (host : HostEnvironment) (permissions : ContractPermissions) : ω :=
  match rt.contracts[contractAddress]? with
  | none => o.idle
  | some contract =>
    match contract.module.exportedFunction? functionName with
    | none => o.idle
    | some funcIdx =>
      match gas.charge (gas.costs.hostCall "base_call") with
      | (.error _, _) => o.idle
      | (.ok (), gas) =>
        observeFunction o ⟨contract.module, permissions⟩ fuel 0 funcIdx
          (args.map contractValueToValue) (contract.store, ⟨gas, host, 0⟩)

/-- The ways a call of `execute_contract` is seen: nothing happens, or the function exported under
the name is run, along its host functions. -/
theorem Traced.executeContract {rt : InterpreterRuntime} {contractAddress : Address} {fuel : ℕ}
    {functionName : String} {args : List ContractValue} {gas : GasMeter} {host : HostEnvironment}
    {permissions : ContractPermissions} {e : Execution}
    {Φ : Store × Env → List HostCall → Store × Env → Prop} (h : ∀ m, Traced ⟨m, permissions⟩ Φ)
    (he : rt.executeContract contractAddress fuel functionName args gas host permissions = some e) :
    (rt.observe hostTrace contractAddress fuel functionName args gas host permissions = [] ∧
        ∃ err gas₁, gas.used ≤ gas₁.used ∧ e = rt.refuse gas₁ host err) ∨
      ∃ contract gas₁ r store env, rt.contracts[contractAddress]? = some contract ∧
        gas.charge (gas.costs.hostCall "base_call") = (.ok (), gas₁) ∧
        Φ (contract.store, ⟨gas₁, host, 0⟩)
          (rt.observe hostTrace contractAddress fuel functionName args gas host permissions)
          (store, env) ∧
        e = ⟨ExecutionOutcome.ofResult env.gas.used r,
          ⟨rt.contracts.insert contractAddress ⟨contract.module, store⟩⟩, env.gas, env.host,
          env.dispatched⟩ := by
  unfold InterpreterRuntime.executeContract at he
  unfold InterpreterRuntime.observe
  cases hcontract : rt.contracts[contractAddress]? with
  | none =>
    rw [hcontract] at he
    cases he
    exact .inl ⟨rfl, _, gas, UInt64.le_refl _, rfl⟩
  | some contract =>
  rw [hcontract] at he
  dsimp only at he ⊢
  cases hfunc : contract.module.exportedFunction? functionName with
  | none =>
    rw [hfunc] at he
    cases he
    exact .inl ⟨rfl, _, gas, UInt64.le_refl _, rfl⟩
  | some funcIdx =>
  rw [hfunc] at he
  dsimp only at he ⊢
  rcases gas.charge_cases (gas.costs.hostCall "base_call") with
    ⟨-, gas₁, hcharge, -⟩ | ⟨-, g, gas₁, hcharge, -, -, hused⟩
  · rw [hcharge] at he ⊢
    obtain ⟨⟨r, store, env⟩, hrun, rfl⟩ := Option.map_eq_some_iff.mp he
    exact .inr ⟨contract, gas₁, r, store, env, rfl, rfl, ((h _).run fuel).1 0 funcIdx _ _ _ _ hrun, rfl⟩
  · rw [hcharge] at he ⊢
    cases he
    exact .inl ⟨rfl, _, gas₁, hused ▸ gas.used_le, rfl⟩

def GratiaVm.observe {ω : Type} (o : Observer ω) (vm : GratiaVm) (fuel : ℕ) (call : ContractCall)
    (host : HostEnvironment) : ω :=
  match vm.contracts[call.contractAddress]? with
  | none => o.idle
  | some contract =>
    match vm.ensureLoaded call.contractAddress contract.bytecode with
    | (.error _, _) => o.idle
    | (.ok (), vm) =>
      vm.runtime.observe o call.contractAddress fuel call.functionName call.args
        (.new call.gasLimit) host contract.permissions

end Gratia
