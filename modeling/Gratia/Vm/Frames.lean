import Gratia.Vm.Loading
import Gratia.Vm.Observe

/-!
# Vm — Frames

How deep the interpreter recurses.  Calls nest up to `MAX_CALL_DEPTH`.  Blocks have no limit of
their own, but every nested block starts at least two bytes further on in the code, and the cursor
of an activation never goes back behind where it started; so the bytes of a body bound the blocks
that can be nested in it.
-/

namespace Gratia

open Support Reader

/-! ### The cursor does not go back -/

/-- The cursor is in a code, at a position or behind it. -/
def Past (k : Bytes × ℕ) (s : Machine × Env) : Prop :=
  s.1.frame.reader.data = k.1 ∧ k.2 ≤ s.1.frame.reader.pos

/-- It is still so after an error, unless the function ends with it. -/
def PastBranch (k : Bytes × ℕ) (e : InterpError) (s : Machine × Env) : Prop :=
  (∃ depth, e = .branch depth) → Past k s

/-- Where a machine stands. -/
def Machine.place (m : Machine) : Bytes × ℕ := (m.frame.reader.data, m.frame.reader.pos)

theorem Decodes.opening {code : Bytes} {p q : ℕ} {instr : Instr} (h : Decodes code p instr q)
    (hi : instr = .block ∨ instr = .if ∨ instr = .loop) : q = p + 2 ∧ p + 2 ≤ code.length := by
  obtain ⟨opcode, hop, hd⟩ := h
  have hread : ∃ b, readByte ⟨code, p + 1⟩ = .ok b ⟨code, q⟩ := by
    obtain rfl := opcode_of_decode hd
    rcases hi with rfl | rfl | rfl
    all_goals
      obtain ⟨b, r, hb, hdone⟩ := bind_ok.mp hd
      cases hdone
      exact ⟨b, hb⟩
  obtain ⟨b, hb⟩ := hread
  unfold readByte at hb
  split at hb
  · cases hb
  next hget =>
    cases hb
    have hlt := (List.getElem?_eq_some_iff.mp hget).1
    exact ⟨rfl, hlt⟩

/-- What an instruction does to the cursor: it moves on, by two bytes at least where a block is
opened. -/
structure Moved (m : Machine) (r : Except InterpError Action) (s : Machine × Env) : Prop where
  past : (∀ e, r = .error e → ∃ depth, e = .branch depth) → Past m.place s
  enter : r = .ok .enter → m.frame.reader.pos + 2 ≤ s.1.frame.reader.pos ∧
    m.frame.reader.pos + 2 ≤ m.frame.reader.data.length
  loop : ∀ start, r = .ok (.loop start) → start = s.1.frame.reader.pos ∧
    m.frame.reader.pos + 2 ≤ s.1.frame.reader.pos ∧
    m.frame.reader.pos + 2 ≤ m.frame.reader.data.length

theorem Moved.of_end {m : Machine} {e : InterpError} {s : Machine × Env}
    (he : ∀ depth, e ≠ .branch depth) : Moved m (.error e) s := by
  refine ⟨fun hgo => ?_, by simp, by simp⟩
  obtain ⟨depth, hb⟩ := hgo e rfl
  exact absurd hb (he depth)

theorem dispatch_moved (module : WasmModule) (m : Machine) (env : Env) :
    Ends False (dispatch module) (m, env) (Moved m) := by
  refine (dispatch_ends module m env).mono ?_
  rintro r ⟨m', env'⟩ hd
  cases hd with
  | ended hs he => exact .of_end (InterpError.ne_branch he)
  | short hop hs hc => exact .of_end (by simp)
  | garbled hop hc hs he => exact .of_end (InterpError.ne_branch he)
  | @performed opcode instr next _ _ _ hop hc hd hp =>
    have hdec : Decodes m.frame.reader.data m.frame.reader.pos instr next := ⟨opcode, hop, hd⟩
    have hmoved : (∀ e, r = .error e → ∃ depth, e = .branch depth) →
        m'.frame.reader.data = m.frame.reader.data ∧ next ≤ m'.frame.reader.pos := by
      intro hgo
      obtain ⟨hdata, ho⟩ := hp.onward fun e he => by obtain ⟨_, rfl⟩ := hgo e he; rfl
      exact ⟨hdata, ho.le⟩
    refine ⟨fun hgo => ?_, fun hr => ?_, fun start hr => ?_⟩
    · exact ⟨(hmoved hgo).1, hdec.lt.le.trans (hmoved hgo).2⟩
    · obtain ⟨rfl, hlen⟩ := hdec.opening ((hp.enter hr).imp_right .inl)
      exact ⟨(hmoved (by simp [hr])).2, hlen⟩
    · obtain ⟨hi, hstart⟩ := hp.loop start hr
      obtain ⟨rfl, hlen⟩ := hdec.opening (.inr (.inr hi))
      exact ⟨hstart.symm, (hmoved (by simp [hr])).2, hlen⟩

abbrev pastAssertions : Assertions Unit (Bytes × ℕ) :=
  ⟨fun _ _ _ _ => True, fun _ _ _ _ _ => True, fun _ => Past, fun k start => k.2 ≤ start,
    fun _ => PastBranch⟩

/-- **The cursor of a function never goes back behind the start of a block.** -/
theorem past_runRule (ctx : Context) : RunRule ctx False pastAssertions where
  step _ k s hat _ := by
    refine (dispatch_moved ctx.module s.1 s.2).mono fun r t hm => ?_
    have hpast : (∀ e, r = .error e → ∃ depth, e = .branch depth) → Past k t :=
      fun hgo => ⟨(hm.past hgo).1.trans hat.1, hat.2.trans (hm.past hgo).2⟩
    cases r with
    | error e => exact fun hb => hpast fun e' he => Except.error.inj he ▸ hb
    | ok action =>
      have ht := hpast (by simp)
      cases action with
      | loop start =>
        obtain ⟨rfl, -⟩ := hm.loop start rfl
        exact ⟨ht.2, rfl, ht⟩
      | call i args => exact ⟨(), trivial, fun _ _ _ _ hr => ⟨hr ▸ ht.1, hr ▸ ht.2⟩, fun _ _ _ _ => ht⟩
      | _ => exact ht
  again _ k depth start s hf hstart := ⟨(hf ⟨depth, rfl⟩).1, hstart⟩
  skip _ k depth s r hf hdata ho := by
    obtain ⟨hd, hpos⟩ := hf ⟨depth, rfl⟩
    have hpast : Past k (s.1.withReader r, s.2) := ⟨hdata.trans hd, hpos.trans ho.le⟩
    exact ⟨hpast, fun _ _ => hpast⟩
  trap _ k depth s r e _ he := fun ⟨depth', hb⟩ => absurd hb (InterpError.ne_branch he depth')
  body _ _ i params args s func _ _ _ :=
    ⟨(func.code, 0), ⟨rfl, Nat.zero_le _⟩, fun _ _ _ => trivial,
      fun _ _ _ => ⟨fun _ => trivial, fun _ => trivial⟩⟩
  refuse _ _ _ _ _ _ _ _ := trivial
  host _ _ _ _ _ _ _ _ _ := ends_of_forall fun _ _ _ => trivial

theorem executeBlock_past (ctx : Context) (fuel d : ℕ) (s : Machine × Env) :
    Ends False (executeBlock ctx fuel d) s (pastAssertions.Post fuel s.1.place) :=
  ((past_runRule ctx).run fuel).2.1 d s.1.place s ⟨rfl, le_rfl⟩

theorem nested_past (ctx : Context) (fuel d : ℕ) (s : Machine × Env) :
    Ends False (tryCatch (executeBlock ctx fuel d) leaveBlock) s (pastAssertions.Post fuel s.1.place) :=
  (executeBlock_past ctx fuel d s).tryCatch (fun _ _ h => h)
    fun _ _ h => (past_runRule ctx).leaveBlock h

theorem loop_past (ctx : Context) (fuel d : ℕ) (s : Machine × Env) :
    Ends False (executeLoop ctx fuel d s.1.frame.reader.pos) s (pastAssertions.Post fuel s.1.place) :=
  ((past_runRule ctx).run fuel).2.2 d s.1.place _ s le_rfl ⟨rfl, le_rfl⟩

theorem calling_past (ctx : Context) (fuel d : ℕ) (i : UInt32) (args : List Value)
    (s : Machine × Env) :
    Ends False (calling (executeFunction ctx fuel d i args)) s fun _ t => Past s.1.place t :=
  ends_within (ends_of_forall fun _ _ _ => ⟨rfl, le_rfl⟩)

/-! ### How many activations there are at once -/

/-- The activations of `execute_function` and `execute_block` that are on the stack at once, at
most: those of parts run one after the other do not add up. -/
def activations : Observer ℕ := ⟨0, max, (· + 1), (· + 1), fun _ => 0⟩

/-- A bound on the activations of a call that may have `calls` calls nested, itself included, in
code of at most `L` bytes. -/
def stackBound (L calls : ℕ) : ℕ := calls * (2 + L / 2) + 1

section Shallow

variable {ctx : Context} {L fuel : ℕ}

/-- Calls at a depth need no more than the calls that are left. -/
def CallsShallow (ctx : Context) (L fuel : ℕ) : Prop :=
  ∀ d i args s, observeFunction activations ctx fuel d i args s ≤ stackBound L (maxCallDepth + 1 - d)

/-- Blocks need the bytes ahead of the cursor, two for each block that is nested. -/
def BlocksShallow (ctx : Context) (L fuel : ℕ) : Prop :=
  ∀ d s, s.1.frame.reader.data.length ≤ L → observeBlock activations ctx fuel d s ≤
    (s.1.frame.reader.data.length - s.1.frame.reader.pos) / 2 + stackBound L (maxCallDepth - d)

def LoopsShallow (ctx : Context) (L fuel : ℕ) : Prop :=
  ∀ d start s, s.1.frame.reader.data.length ≤ L → observeLoop activations ctx fuel d start s ≤
    1 + (s.1.frame.reader.data.length - start) / 2 + stackBound L (maxCallDepth - d)

theorem callsShallow_succ (hlen : ∀ func ∈ ctx.module.functions, func.code.length ≤ L)
    (hblock : BlocksShallow ctx L fuel) : CallsShallow ctx L (fuel + 1) := by
  intro d i args s
  rw [observeFunction]
  have hone : ∀ k, activations.function activations.idle ≤ stackBound L k :=
    fun k => Nat.le_add_left 1 _
  split
  · exact hone _
  next hdepth =>
  split
  · cases ctx.module.imports[i.toNat]? with
    | none => exact hone _
    | some imported =>
      -- a host function runs in no activation of its own
      have hhost : observeHostCall activations ctx imported.name args s ≤ 0 := by
        refine Exec.after_rule (P := (· ≤ 0)) (Nat.zero_le _) fun _ s₁ _ => ?_
        split
        · exact le_rfl
        · exact le_rfl
      exact (Nat.add_le_add_right hhost 1).trans (hone _)
  cases hfunc : ctx.module.functions[(i - ctx.module.importFuncCount).toNat]? with
  | none => exact hone _
  | some func =>
    dsimp only
    cases ctx.module.types[func.typeIdx.toNat]? with
    | none => exact hone _
    | some funcType =>
      have hcode := hlen func (List.mem_of_getElem? hfunc)
      have hbody := hblock d (⟨.enter func funcType.params args, s.1⟩, s.2) hcode
      obtain ⟨k, hk⟩ : ∃ k, maxCallDepth + 1 - d = k + 1 ∧ maxCallDepth - d = k :=
        ⟨maxCallDepth - d, by omega, rfl⟩
      rw [hk.2] at hbody
      rw [hk.1]
      change _ + 1 + 1 ≤ _
      have hhalf : (func.code.length - 0) / 2 ≤ L / 2 := Nat.div_le_div_right (by omega)
      have hbody' : observeBlock activations ctx fuel d
          (⟨.enter func funcType.params args, s.1⟩, s.2) ≤
            (func.code.length - 0) / 2 + stackBound L k := hbody
      unfold stackBound at hbody' ⊢
      rw [Nat.succ_mul]
      omega

theorem blocksShallow_succ (hcall : CallsShallow ctx L fuel) (hblock : BlocksShallow ctx L fuel)
    (hloop : LoopsShallow ctx L fuel) : BlocksShallow ctx L (fuel + 1) := by
  intro d s hlen
  rw [observeBlock]
  split
  · exact Nat.zero_le _
  refine Exec.after_rule (P := (· ≤ _)) (Nat.zero_le _) fun action s₁ hs₁ => ?_
  have hmoved := (dispatch_moved ctx.module s.1 s.2).of_eq hs₁
  obtain ⟨hdata₁, hpos₁⟩ : s₁.1.frame.reader.data = s.1.frame.reader.data ∧
      s.1.frame.reader.pos ≤ s₁.1.frame.reader.pos := hmoved.past (by simp)
  have hlen₁ : s₁.1.frame.reader.data.length ≤ L := hdata₁ ▸ hlen
  -- from any place further on there are no more blocks to come
  have hgo : ∀ s₂ : Machine × Env, Past s₁.1.place s₂ → observeBlock activations ctx fuel d s₂ ≤
      (s.1.frame.reader.data.length - s.1.frame.reader.pos) / 2 +
        stackBound L (maxCallDepth - d) := by
    rintro s₂ ⟨hdata, hpos⟩
    replace hdata := hdata.trans hdata₁
    replace hpos := hpos₁.trans hpos
    have h₂ := hblock d s₂ (hdata ▸ hlen)
    rw [hdata] at h₂
    exact h₂.trans (Nat.add_le_add_right (Nat.div_le_div_right (by omega)) _)
  cases action with
  | next => exact hgo s₁ ⟨rfl, le_rfl⟩
  | finish => exact Nat.zero_le _
  | enter =>
    obtain ⟨hpos₂, hroom⟩ := hmoved.enter rfl
    refine max_le ?_ (Exec.after_rule (P := (· ≤ _)) (Nat.zero_le _) fun _ s₂ hs₂ => ?_)
    · have hbody := hblock d s₁ hlen₁
      rw [hdata₁] at hbody
      change _ + 1 ≤ _
      omega
    · exact hgo s₂ ((nested_past ctx fuel d s₁).of_eq hs₂)
  | loop start =>
    obtain ⟨rfl, hpos₂, hroom⟩ := hmoved.loop start rfl
    refine max_le ?_ (Exec.after_rule (P := (· ≤ _)) (Nat.zero_le _) fun _ s₂ hs₂ => ?_)
    · have hturns := hloop d s₁.1.frame.reader.pos s₁ hlen₁
      rw [hdata₁] at hturns
      omega
    · exact hgo s₂ ((loop_past ctx fuel d s₁).of_eq hs₂)
  | call i args =>
    refine max_le ?_ (Exec.after_rule (P := (· ≤ _)) (Nat.zero_le _) fun result s₂ hs₂ => ?_)
    · have hcalled := hcall (d + 1) i args (s₁.1.store, s₁.2)
      rw [Nat.add_sub_add_right] at hcalled
      exact hcalled.trans (Nat.le_add_left _ _)
    · have hpast : Past s₁.1.place s₂ := (calling_past ctx fuel (d + 1) i args s₁).of_eq hs₂
      cases result with
      | none => exact hgo s₂ hpast
      | some v =>
        refine Exec.after_rule (P := (· ≤ _)) (Nat.zero_le _) fun _ s₃ hs₃ => ?_
        obtain ⟨-, hr, -⟩ := (push_ends (T := False) v s₂).of_eq hs₃
        exact hgo s₃ (by rwa [Past, hr])

theorem loopsShallow_succ (hblock : BlocksShallow ctx L fuel) (hloop : LoopsShallow ctx L fuel) :
    LoopsShallow ctx L (fuel + 1) := by
  intro d start s hlen
  rw [observeLoop]
  refine Exec.after_rule (P := (· ≤ _)) (Nat.zero_le _) fun _ s₁ hs₁ => ?_
  obtain ⟨-, rfl⟩ := (seek_ends (T := False) start s).of_eq hs₁
  refine max_le ?_ (Exec.afterError_rule (P := (· ≤ _)) (Nat.zero_le _) fun e s₂ hs₂ => ?_)
  · have hbody := hblock d (s.1.withReader ⟨s.1.frame.reader.data, start⟩, s.2) hlen
    change _ + 1 ≤ _
    dsimp only [Machine.withReader] at hbody ⊢
    omega
  · have hpast := (executeBlock_past ctx fuel d _).of_eq hs₂
    cases e with
    | branch depth =>
      dsimp only
      split
      · obtain ⟨hdata, -⟩ := hpast ⟨depth, rfl⟩
        replace hdata : s₂.1.frame.reader.data = s.1.frame.reader.data := hdata
        have hturns := hloop d start s₂ (hdata ▸ hlen)
        rw [hdata] at hturns
        exact hturns
      · exact Nat.zero_le _
    | _ => exact Nat.zero_le _

/-- **Whole runs stay within the bound.** -/
theorem run_shallow (hlen : ∀ func ∈ ctx.module.functions, func.code.length ≤ L) (fuel : ℕ) :
    CallsShallow ctx L fuel ∧ BlocksShallow ctx L fuel ∧ LoopsShallow ctx L fuel := by
  induction fuel with
  | zero =>
    refine ⟨fun d i args s => ?_, fun d s _ => ?_, fun d start s _ => ?_⟩
    · rw [observeFunction]
      exact Nat.zero_le _
    · rw [observeBlock]
      exact Nat.zero_le _
    · rw [observeLoop]
      exact Nat.zero_le _
  | succ fuel ih =>
    obtain ⟨hcall, hblock, hloop⟩ := ih
    exact ⟨callsShallow_succ hlen hblock, blocksShallow_succ hcall hblock hloop,
      loopsShallow_succ hblock hloop⟩

end Shallow

/-! ### Accepted modules -/

/-- A module that `load_contract` accepts under a configuration. -/
def WasmModule.Accepted (m : WasmModule) (config : SandboxConfig) : Prop :=
  ∃ (rt : InterpreterRuntime) (contractAddress : Address) (bytecode : Bytes) (rt' : InterpreterRuntime),
    rt.loadContract contractAddress bytecode config = (.ok (), rt') ∧
      rt'.contracts[contractAddress]? = some (.ofModule m)

theorem WasmModule.Accepted.code_length_le {m : WasmModule} {config : SandboxConfig}
    (h : m.Accepted config) : ∀ func ∈ m.functions, func.code.length ≤ config.maxBytecodeSize := by
  obtain ⟨rt, contractAddress, bytecode, rt', hload, hget⟩ := h
  rcases rt.loadContract_cases contractAddress bytecode config with
    ⟨e, hfailed, -⟩ | ⟨m', hvalid, hparse, hloaded⟩
  · cases hfailed.symm.trans hload
  cases hloaded.symm.trans hload
  rw [Std.ExtTreeMap.getElem?_insert_self] at hget
  obtain rfl : m' = m := congrArg LoadedContract.module (Option.some.inj hget)
  intro func hfunc
  have hsize : bytecode.length ≤ config.maxBytecodeSize := by
    unfold validateBytecode at hvalid
    split at hvalid
    · cases hvalid
    next hle => exact not_lt.mp hle
  exact (Gratia.code_length_le hparse func hfunc).trans hsize

/-- **The interpreter's recursion is bounded.**  For every module that `load_contract` accepts under
the default configuration, in whatever state the contract is, no call with any gas has more than
16897 times `max_stack_depth` activations on the stack. -/
theorem frames_bounded {rt : InterpreterRuntime} {contractAddress : Address}
    {contract : LoadedContract} (hget : rt.contracts[contractAddress]? = some contract)
    (haccepted : contract.module.Accepted {}) (fuel : ℕ) (functionName : String)
    (args : List ContractValue) (gas : GasMeter) (host : HostEnvironment)
    (permissions : ContractPermissions) :
    rt.observe activations contractAddress fuel functionName args gas host permissions ≤
      16897 * ({} : SandboxConfig).maxStackDepth.toNat := by
  unfold InterpreterRuntime.observe
  rw [hget]
  dsimp only
  split
  · exact Nat.zero_le _
  split
  · exact Nat.zero_le _
  next funcIdx _ gas₁ _ =>
    refine ((run_shallow haccepted.code_length_le fuel).1 0 _ _ _).trans ?_
    decide

theorem frames_bounded_spin : (∃ contract, spinning.contracts[(⟨.zero⟩ : Address)]? = some contract ∧
      contract.module.Accepted {}) ∧
    spinning.observe activations ⟨.zero⟩ 20 "spin" [] (.new 200) quietHost {} = 3 ∧
    spinning.observe activations ⟨.zero⟩ 20 "spin" [] (.new 200) quietHost {} ≤ 16897 * 1024 := by
  have hvalid : validateBytecode spinner {} = .ok () := by decide +kernel
  have hparsed : (parseModule spinner).toOption.isSome = true := by decide +kernel
  obtain ⟨m, hm⟩ := Option.isSome_iff_exists.mp hparsed
  have hload : ({} : InterpreterRuntime).loadContract ⟨.zero⟩ spinner {} =
      (.ok (), ⟨Std.ExtTreeMap.empty.insert ⟨.zero⟩ (.ofModule m)⟩) := by
    rw [InterpreterRuntime.loadContract, hvalid, toOption_eq_some.mp hm]
    rfl
  have hget : spinning.contracts[(⟨.zero⟩ : Address)]? = some (.ofModule m) := by
    rw [spinning, hload]
    exact Std.ExtTreeMap.getElem?_insert_self
  have haccepted : m.Accepted {} :=
    ⟨{}, ⟨.zero⟩, spinner, _, hload, Std.ExtTreeMap.getElem?_insert_self⟩
  exact ⟨⟨_, hget, haccepted⟩, by decide +kernel, frames_bounded hget haccepted 20 "spin" [] _ _ _⟩

end Gratia
