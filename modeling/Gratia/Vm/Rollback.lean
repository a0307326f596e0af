import Gratia.Core.Reference
import Gratia.Vm.GasBound
import Gratia.Vm.Transparency

/-!
# Vm — Rollback

What a failed call leaves behind.  Neither `call_contract` nor `execute_contract` takes anything
back when a call fails: globals, memory, host storage and events stay as the last instruction left
them, and only for an error of the runtime itself, out of gas being one, is the list of events
dropped from the result.  A failed call is without effect if what it ran could not fail any more
once it had one (`Context.Atomic`), or if its gas did not last to the first effect: the base of a
call takes 100, and an effect an operand and the instruction that writes it (`Early`).
-/

namespace Gratia

open Support Reader

/-! ### Functions that only read -/

/-- The host functions that write to memory, storage or the events. -/
def hostWrites (name : String) : Bool :=
  name ∈ ["get_caller_address", "storage_read", "storage_write", "emit_event"]

/-- Function `i` of a module writes: as a host function that its permissions allow, or by an
instruction of its own. -/
def Context.Writes (ctx : Context) (i : UInt32) : Prop :=
  if i < ctx.module.importFuncCount then
    ∃ imported ∈ ctx.module.imports[i.toNat]?,
      ctx.permissions.permits imported.name = true ∧ hostWrites imported.name = true
  else
    ∃ func ∈ ctx.module.functions[(i - ctx.module.importFuncCount).toNat]?,
      ∃ instr ∈ instructions func.code, instr.writes = true

/-- Function `i` of a module contains a call of function `j`. -/
def WasmModule.Calls (m : WasmModule) (i j : UInt32) : Prop :=
  ¬i < m.importFuncCount ∧ ∃ func ∈ m.functions[(i - m.importFuncCount).toNat]?,
    .call j ∈ instructions func.code

/-- A function that does not write, and from which no function is called that does. -/
def Context.ReadOnly (ctx : Context) (i : UInt32) : Prop :=
  ∀ j, Relation.ReflTransGen ctx.module.Calls i j → ¬ctx.Writes j

theorem hostFunction_of_not_writes {name : String} {args : List Value} {memory memory' : Bytes}
    {host host' : HostEnvironment} {v : Option Value} (hw : hostWrites name = false)
    (h : hostFunction name args memory host = .ok (v, memory', host')) :
    memory' = memory ∧ host' = host := by
  have hanswer := hostFunction_cases name args memory host
  rw [h] at hanswer
  cases hanswer with
  | answered => exact ⟨rfl, rfl⟩
  | copied hname => rcases hname with rfl | rfl <;> cases hw
  | stored hname | emitted hname => subst hname; cases hw

theorem Performed.store_eq {instr : Instr} {m m' : Machine} {r : Except InterpError Action}
    (h : Performed instr m r m') (hw : instr.writes = false) : m'.store = m.store := by
  have hg : m'.store.globals = m.store.globals := h.globals fun idx hi => by subst hi; cases hw
  have hm : m'.store.memory = m.store.memory :=
    h.memory (fun op offset hi => by subst hi; cases hw) fun hi => by subst hi; cases hw
  calc m'.store = ⟨m'.store.globals, m'.store.memory⟩ := rfl
    _ = m.store := by rw [hg, hm]

/-! ### Functions that write last -/

/-- From a position on there are only the opcodes of `end` and `nop`. -/
def Closing (code : Bytes) (pos : ℕ) : Prop := ∀ b ∈ code.drop pos, b = 0x0B ∨ b = 0x01

instance (code : Bytes) (pos : ℕ) : Decidable (Closing code pos) :=
  List.decidableBAll _ _

/-- An instruction that may have an effect: it writes, or calls a function that is not read-only. -/
def Context.MayWrite (ctx : Context) (instr : Instr) : Prop :=
  instr.writes = true ∨ ∃ k, instr = .call k ∧ ¬ctx.ReadOnly k

/-- Function `i`, if it is not a host function, has nothing to do after an instruction that may have
an effect. -/
def Context.WritesLast (ctx : Context) (i : UInt32) : Prop :=
  ¬i < ctx.module.importFuncCount →
    ∀ func ∈ ctx.module.functions[(i - ctx.module.importFuncCount).toNat]?,
      ∀ p ∈ placed func.code, ctx.MayWrite p.1 → Closing func.code p.2

/-- A function that, with all it can call, writes last. -/
def Context.Atomic (ctx : Context) (i : UInt32) : Prop :=
  ∀ j, Relation.ReflTransGen ctx.module.Calls i j → ctx.WritesLast j

theorem Closing.mono {code : Bytes} {p q : ℕ} (h : Closing code p) (hpq : p ≤ q) :
    Closing code q := by
  intro b hb
  rw [← Nat.add_sub_cancel' hpq, ← List.drop_drop] at hb
  exact h b (List.mem_of_mem_drop hb)

theorem dispatch_closing (module : WasmModule) {m : Machine} (env : Env)
    (h : Closing m.frame.reader.data m.frame.reader.pos) (hrem : m.frame.reader.remaining ≠ 0) :
    ∃ action, (action = .next ∨ action = .finish) ∧
      dispatch module (m, env) = some (.ok action, m.withReader (m.frame.reader.advance 1),
        { env with dispatched := env.dispatched + 1 }) := by
  have hlt : m.frame.reader.pos < m.frame.reader.data.length := by
    unfold Reader.remaining at hrem
    omega
  have hop := List.getElem?_eq_getElem hlt
  have hmem : m.frame.reader.data[m.frame.reader.pos] ∈
      m.frame.reader.data.drop m.frame.reader.pos := by
    rw [List.drop_eq_getElem_cons hlt]
    exact List.mem_cons_self
  rcases h _ hmem with heq | heq
  · rw [heq] at hop
    exact ⟨.finish, .inr rfl, dispatch_eq module hop rfl rfl⟩
  · rw [heq] at hop
    exact ⟨.next, .inl rfl, dispatch_eq module hop rfl rfl⟩

/-! ### Runs of atomic functions -/

namespace Atomic

/-- From a position of function `j` on, every instruction that may have an effect is followed by
`end` and `nop` only, and every call is of a function that can be called from `i`. -/
def Careful (ctx : Context) (i : UInt32) (k : UInt32 × Bytes) (pos : ℕ) : Prop :=
  ∀ q instr next, Onward k.2 pos q → Decodes k.2 q instr next →
    (ctx.MayWrite instr → Closing k.2 next ∧ ¬ctx.ReadOnly k.1) ∧
      ∀ j, instr = .call j → Relation.ReflTransGen ctx.module.Calls i j

def Kept (store₀ : Store) (host₀ : HostEnvironment) (store : Store) (env : Env) : Prop :=
  store = store₀ ∧ env.host = host₀

/-- Between the instructions of a function, only `end` and `nop` are left if something has changed.
-/
def At (ctx : Context) (i : UInt32) (store₀ : Store) (host₀ : HostEnvironment) (k : UInt32 × Bytes)
    (s : Machine × Env) : Prop :=
  s.1.frame.reader.data = k.2 ∧
    (Kept store₀ host₀ s.1.store s.2 ∧ Careful ctx i k s.1.frame.reader.pos ∨
      Closing k.2 s.1.frame.reader.pos ∧ ¬ctx.ReadOnly k.1)

def Fails (ctx : Context) (i : UInt32) (store₀ : Store) (host₀ : HostEnvironment)
    (k : UInt32 × Bytes) (e : InterpError) (s : Machine × Env) : Prop :=
  Kept store₀ host₀ s.1.store s.2 ∧ ((∃ depth, e = .branch depth) →
    s.1.frame.reader.data = k.2 ∧ Careful ctx i k s.1.frame.reader.pos)

def CallPost (ctx : Context) (store₀ : Store) (host₀ : HostEnvironment) (j : UInt32)
    (r : Except InterpError (Option Value)) (s : Store × Env) : Prop :=
  (∀ e, r = .error e → Kept store₀ host₀ s.1 s.2 ∧ ∀ depth, e ≠ .branch depth) ∧
    (ctx.ReadOnly j → Kept store₀ host₀ s.1 s.2)

abbrev assertions (ctx : Context) (i : UInt32) (store₀ : Store) (host₀ : HostEnvironment) :
    Assertions Unit (UInt32 × Bytes) :=
  ⟨fun _ _ j s => Relation.ReflTransGen ctx.module.Calls i j ∧ Kept store₀ host₀ s.1 s.2,
    fun _ _ => CallPost ctx store₀ host₀, fun _ => At ctx i store₀ host₀, Careful ctx i,
    fun _ => Fails ctx i store₀ host₀⟩

variable {ctx : Context} {i : UInt32} {store₀ : Store} {host₀ : HostEnvironment}
  {k : UInt32 × Bytes}

theorem Careful.onward {p q : ℕ} (h : Careful ctx i k p) (ho : Onward k.2 p q) :
    Careful ctx i k q :=
  fun _ _ _ ht hd => h _ _ _ (ho.trans ht) hd

theorem careful_body (h : ctx.Atomic i) {j : UInt32} {func : WasmFunction}
    (hreach : Relation.ReflTransGen ctx.module.Calls i j) (hj : ¬j < ctx.module.importFuncCount)
    (hfunc : ctx.module.functions[(j - ctx.module.importFuncCount).toNat]? = some func) :
    Careful ctx i (j, func.code) 0 := by
  intro q instr next ho hd
  have hmem := mem_placed ho hd
  have hinstr : instr ∈ instructions func.code := List.mem_map_of_mem hmem
  refine ⟨fun hw => ⟨h j hreach hj func hfunc _ hmem hw, fun hro => ?_⟩, ?_⟩
  · rcases hw with hw | ⟨k, rfl, hk⟩
    · refine hro j .refl ?_
      rw [Context.Writes, if_neg hj]
      exact ⟨func, hfunc, instr, hinstr, hw⟩
    · exact hk fun l hl => hro l (.head ⟨hj, func, hfunc, hinstr⟩ hl)
  · rintro k rfl
    exact hreach.tail ⟨hj, func, hfunc, hinstr⟩

theorem Fails.of_ne {e : InterpError} {s : Machine × Env} (he : ∀ depth, e ≠ .branch depth)
    (hk : Kept store₀ host₀ s.1.store s.2) : Fails ctx i store₀ host₀ k e s :=
  ⟨hk, fun ⟨depth, hb⟩ => absurd hb (he depth)⟩

/-- One instruction.  After one that may have an effect only `end` and `nop` are left. -/
theorem step {f : ℕ} {s : Machine × Env} (hat : At ctx i store₀ host₀ k s)
    (hrem : s.1.frame.reader.remaining ≠ 0) :
    Ends False (dispatch ctx.module) s ((assertions ctx i store₀ host₀).Stepped f k) := by
  obtain ⟨hdata, ⟨hk, hcare⟩ | ⟨hclosing, hro⟩⟩ := hat
  · refine (dispatch_ends ctx.module s.1 s.2).mono ?_
    obtain ⟨j, code⟩ := k
    subst hdata
    rintro r ⟨m', env'⟩ hd
    cases hd with
    | ended hs he => exact .of_ne (InterpError.ne_branch he) ⟨hs.trans hk.1, hk.2⟩
    | short hop hs hc => exact .of_ne (by simp) ⟨hs.trans hk.1, hc.metered.1.trans hk.2⟩
    | garbled hop hc hs he =>
      exact .of_ne (InterpError.ne_branch he) ⟨hs.trans hk.1, hc.metered.1.trans hk.2⟩
    | @performed opcode instr next _ _ _ hop hc hd hp =>
      have hdec : Decodes s.1.frame.reader.data s.1.frame.reader.pos instr next := ⟨opcode, hop, hd⟩
      obtain ⟨hlast, hreach⟩ := hcare _ _ _ (.refl _) hdec
      have hhost : env'.host = host₀ := hc.metered.1.trans hk.2
      have hnext := hcare.onward (.step hdec (.refl _))
      cases r with
      | error e =>
        refine ⟨⟨(hp.unchanged e rfl).trans hk.1, hhost⟩, fun ⟨depth, hb⟩ => ?_⟩
        subst hb
        obtain ⟨hdata, ho⟩ := hp.onward (by rintro e ⟨⟩; rfl)
        exact ⟨hdata, hnext.onward ho⟩
      | ok action =>
        obtain ⟨hdata, ho⟩ := hp.onward (by simp)
        have hkept : instr.writes = false → Kept store₀ host₀ m'.store env' :=
          fun hw => ⟨(hp.store_eq hw).trans hk.1, hhost⟩
        have hat : At ctx i store₀ host₀ (j, s.1.frame.reader.data) (m', env') := by
          refine ⟨hdata, ?_⟩
          cases hw : instr.writes with
          | false => exact .inl ⟨hkept hw, hnext.onward ho⟩
          | true => exact .inr ((hlast (.inl hw)).imp_left (·.mono ho.le))
        cases action with
        | loop start =>
          obtain ⟨rfl, hstart⟩ := hp.loop start rfl
          exact ⟨hstart ▸ hnext.onward ho, hstart, hat⟩
        | call callee args =>
          obtain rfl := hp.call callee args rfl
          refine ⟨(), ⟨hreach callee rfl, hkept rfl⟩, fun v u frame hu hr => ?_, fun e u hu => ?_⟩
          · change At ctx i store₀ host₀ _ _
            rw [At, hr]
            refine ⟨hdata, ?_⟩
            by_cases hro : ctx.ReadOnly callee
            · exact .inl ⟨hu.2 hro, hnext.onward ho⟩
            · exact .inr ((hlast (.inr ⟨callee, rfl, hro⟩)).imp_left (·.mono ho.le))
          · exact .of_ne (hu.1 e rfl).2 (hu.1 e rfl).1
        | _ => exact hat
  · -- only `end` and `nop` are left
    rw [← hdata] at hclosing
    obtain ⟨action, haction, hd⟩ := dispatch_closing ctx.module s.2 hclosing hrem
    rw [Ends, show dispatch ctx.module s = _ from hd]
    have hnext : Closing k.2 (s.1.frame.reader.pos + 1) := hdata ▸ hclosing.mono (Nat.le_succ _)
    rcases haction with rfl | rfl
    · exact ⟨hdata, .inr ⟨hnext, hro⟩⟩
    · exact ⟨hdata, .inr ⟨hnext, hro⟩⟩

/-- A host function that fails or only reads has changed nothing. -/
theorem dispatchHostCall_post {j : UInt32} {imported : Import} {args : List Value} {s : Store × Env}
    (hk : Kept store₀ host₀ s.1 s.2) (hj : j < ctx.module.importFuncCount)
    (himp : ctx.module.imports[j.toNat]? = some imported) :
    Ends False (dispatchHostCall ctx imported.name args) s (CallPost ctx store₀ host₀ j) := by
  have hfailed : ∀ {e : InterpError} {t : Store × Env}, (∀ depth, e ≠ .branch depth) →
      Kept store₀ host₀ t.1 t.2 → CallPost ctx store₀ host₀ j (.error e) t := by
    refine fun he hk => ⟨fun e' h => ⟨hk, ?_⟩, fun _ => hk⟩
    cases h
    exact he
  refine (ends_onEnv (chargeGas_metered (·.hostCall imported.name) s.2)).bind ?_ ?_
  · rintro _ ⟨_, env⟩ ⟨rfl, hm⟩
    have hk' : Kept store₀ host₀ s.1 env := ⟨hk.1, hm.host.trans hk.2⟩
    unfold ContractPermissions.checkPermission
    by_cases hp : ctx.permissions.permits imported.name = true
    · rw [if_pos hp]
      refine (runHostFunction_settles (fun v memory host hf => ⟨by simp, fun hro => ?_⟩)
        fun e he => hfailed (InterpError.ne_branch he) hk').ends
      have hquiet := hro j .refl
      rw [Context.Writes, if_pos hj] at hquiet
      cases hw : hostWrites imported.name with
      | true => exact absurd ⟨imported, himp, hp, hw⟩ hquiet
      | false =>
        obtain ⟨rfl, rfl⟩ := hostFunction_of_not_writes hw hf
        exact hk'
    · rw [if_neg hp]
      exact ends_throw (hfailed (by simp) hk')
  · rintro e ⟨_, env⟩ ⟨rfl, hm⟩
    obtain ⟨⟨g, rfl⟩, -⟩ := hm.short e rfl
    exact hfailed (by simp) ⟨hk.1, hm.host.trans hk.2⟩

/-- **A call of an atomic function that fails has changed nothing.** -/
theorem runRule (h : ctx.Atomic i) : RunRule ctx False (assertions ctx i store₀ host₀) where
  step _ _ _ hat hrem := step hat hrem
  again _ k depth start s hf hstart := ⟨(hf.2 ⟨depth, rfl⟩).1, .inl ⟨hf.1, hstart⟩⟩
  skip _ k depth s r hf hdata ho := by
    obtain ⟨hd, hcare⟩ := hf.2 ⟨depth, rfl⟩
    rw [hd] at hdata ho
    exact ⟨⟨hdata, .inl ⟨hf.1, hcare.onward ho⟩⟩, fun _ => ⟨hf.1, fun _ => ⟨hdata, hcare.onward ho⟩⟩⟩
  trap _ k depth s r e hf he := .of_ne (InterpError.ne_branch he) hf.1
  body _ _ j params args s func hcall hj hfunc := by
    refine ⟨(j, func.code), ⟨rfl, .inl ⟨hcall.2, careful_body h hcall.1 hj hfunc⟩⟩, fun v t hat => ?_,
      fun e t hf => ⟨fun v => ⟨by simp, fun _ => hf.1⟩, fun he => ⟨fun e' h => ?_, fun _ => hf.1⟩⟩⟩
    · refine ⟨by simp, fun hro => ?_⟩
      rcases hat.2 with ⟨hk, -⟩ | ⟨-, hw⟩
      · exact hk
      · exact absurd hro hw
    · cases h
      exact ⟨hf.1, he⟩
  refuse _ _ j s e hcall he _ := by
    refine ⟨fun e' h => ⟨hcall.2, ?_⟩, fun _ => hcall.2⟩
    cases h
    exact he
  host _ _ j imported args s hcall hj himp := dispatchHostCall_post hcall.2 hj himp

end Atomic

def Instr.callee? : Instr → Option UInt32
  | call i => some i
  | _ => none

/-- A check for functions of a module that call nothing. -/
def WasmModule.isLeaf (m : WasmModule) (i : UInt32) : Bool :=
  ¬i < m.importFuncCount ∧ ∃ func ∈ m.functions[(i - m.importFuncCount).toNat]?,
    ∀ instr ∈ instructions func.code, instr.callee? = none

theorem WasmModule.calls_of_isLeaf {m : WasmModule} {i j : UInt32} (h : m.isLeaf i = true) :
    ¬m.Calls i j := by
  obtain ⟨-, func, hfunc, hleaf⟩ := of_decide_eq_true h
  rintro ⟨-, func', hfunc', hcall⟩
  cases hfunc.symm.trans hfunc'
  cases hleaf _ hcall

theorem WasmModule.reach_of_isLeaf {m : WasmModule} {i j : UInt32} (h : m.isLeaf i = true)
    (hreach : Relation.ReflTransGen m.Calls i j) : i = j :=
  hreach.cases_head.resolve_right fun ⟨_, hcall, _⟩ => m.calls_of_isLeaf h hcall

/-- A check for atomic functions that call nothing. -/
def WasmModule.isAtomicLeaf (m : WasmModule) (i : UInt32) : Bool :=
  m.isLeaf i ∧ ∀ func ∈ m.functions[(i - m.importFuncCount).toNat]?,
    ∀ p ∈ placed func.code, p.1.writes = true → Closing func.code p.2

theorem atomic_of_isAtomicLeaf (m : WasmModule) (i : UInt32) (permissions : ContractPermissions)
    (h : m.isAtomicLeaf i = true) : Context.Atomic ⟨m, permissions⟩ i := by
  obtain ⟨hleaf, hlast⟩ := of_decide_eq_true h
  intro j hreach
  obtain rfl := m.reach_of_isLeaf hleaf hreach
  rintro hi func hfunc p hp (hw | ⟨k, hk, -⟩)
  · exact hlast func hfunc p hp hw
  · exact absurd ⟨hi, func, hfunc, hk ▸ List.mem_map_of_mem hp⟩ (m.calls_of_isLeaf (j := k) hleaf)

/-! ### Before the first effect -/

namespace Early

/-- An instruction that ends `Kept` writes, and costs what is missing to `floor` when the base of
the call and one instruction have been paid. -/
structure Priced (Kept : Store → HostEnvironment → Prop) (floor : ℕ) : Prop where
  floor_ge : 101 ≤ floor
  floor_le : floor ≤ 200
  perform : ∀ {opcode instr r r' m res m' host}, decode opcode r = .ok instr r' →
    Performed instr m res m' → Kept m.store host →
      Kept m'.store host ∨ instr.writes = true ∧ floor ≤ 101 + (opcodeCost opcode {}).toNat

variable {Kept : Store → HostEnvironment → Prop} {floor low : ℕ} {store : Store} {env env' : Env}

/-- The gas for an effect has been used, or there has been none; then `low` at least was used. -/
def Yet (Kept : Store → HostEnvironment → Prop) (floor low : ℕ) (store : Store) (env : Env) : Prop :=
  env.gas.costs = {} ∧ (floor ≤ env.gas.used.toNat ∨
    Kept store env.host ∧ 100 ≤ env.gas.used.toNat ∧ low ≤ env.gas.used.toNat)

/-- Between instructions there are no operands, or one instruction has been paid. -/
def At (Kept : Store → HostEnvironment → Prop) (floor low : ℕ) (s : Machine × Env) : Prop :=
  Yet Kept floor low s.1.store s.2 ∧ (s.1.frame.stack = [] ∨ 101 ≤ s.2.gas.used.toNat)

def Fails (Kept : Store → HostEnvironment → Prop) (floor low : ℕ) (e : InterpError)
    (s : Machine × Env) : Prop :=
  Yet Kept floor low s.1.store s.2 ∧ ((∃ depth, e = .branch depth) → 101 ≤ s.2.gas.used.toNat)

abbrev assertions (Kept : Store → HostEnvironment → Prop) (floor : ℕ) : Assertions ℕ ℕ :=
  ⟨fun _ low _ s => Yet Kept floor low s.1 s.2, fun _ low _ _ s => Yet Kept floor low s.1 s.2,
    fun _ => At Kept floor, fun _ _ => True, fun _ => Fails Kept floor⟩

theorem Yet.later (h : Yet Kept floor low store env) (hhost : env'.host = env.host)
    (hcosts : env'.gas.costs = env.gas.costs) (hused : env.gas.used.toNat ≤ env'.gas.used.toNat) :
    Yet Kept floor low store env' := by
  refine ⟨hcosts.trans h.1, h.2.imp (fun hf => hf.trans hused) ?_⟩
  rintro ⟨hk, hbase, hlow⟩
  exact ⟨hhost ▸ hk, hbase.trans hused, hlow.trans hused⟩

theorem Yet.charged {opcode : UInt8} {r : Except InterpError Unit} (hc : Charged opcode env r env')
    (h : Yet Kept floor low store env) : Yet Kept floor low store env' :=
  h.later hc.metered.1 hc.metered.2.1 hc.metered.2.2.2.1

theorem Fails.of_trap {e : InterpError} {s : Machine × Env} (he : e.isTrap = true)
    (h : Yet Kept floor low s.1.store s.2) : Fails Kept floor low e s :=
  ⟨h, fun ⟨depth, hb⟩ => absurd hb (InterpError.ne_branch he depth)⟩

variable (h : Priced Kept floor)
include h

/-- After an instruction that was performed: either it was paid for, or it is one of the three that
are free and has brought no operand. -/
theorem performed {m m' : Machine} {opcode : UInt8} {instr : Instr} {r r' : Reader}
    {res : Except InterpError Action} (hp : Performed instr m res m')
    (hb : m.frame.stack = [] → Bare instr res m') (hc : Charged opcode env (.ok ()) env')
    (hdec : decode opcode r = .ok instr r') (hyet : Yet Kept floor low m.store env)
    (hstack : m.frame.stack = [] ∨ 101 ≤ env.gas.used.toNat) :
    Yet Kept floor low m'.store env' ∧ (101 ≤ env'.gas.used.toNat ∨
      (instr = .end ∨ instr = .nop ∨ instr = .drop) ∧
        ((∃ e, res = .error e) ∨ m'.frame.stack = [])) := by
  obtain ⟨hhost, hcosts, -, hused, hpaid⟩ := hc.metered
  have hge := h.floor_ge
  cases hfree : isFree opcode with
  | true =>
    have hidle := decode_of_isFree hfree hdec
    have hw : instr.writes = false := by rcases hidle with rfl | rfl | rfl <;> rfl
    refine ⟨⟨hcosts.trans hyet.1, hyet.2.imp (fun hf => hf.trans hused) ?_⟩, ?_⟩
    · rintro ⟨hk, hbase, hlow⟩
      refine ⟨?_, hbase.trans hused, hlow.trans hused⟩
      rcases h.perform hdec hp hk with hk' | ⟨hw', -⟩
      · rwa [hhost]
      · rw [hw] at hw'
        cases hw'
    · rcases hstack with hnil | hone
      · exact .inr ⟨hidle, (hb hnil).imp_right fun hbare => hbare.2 hidle⟩
      · exact .inl (hone.trans hused)
  | false =>
    have hspent := hpaid hfree rfl
    have hcost := opcodeCost_pos opcode
    rw [hyet.1] at hspent
    have hone : 101 ≤ env'.gas.used.toNat := by
      rcases hyet.2 with hf | ⟨-, hbase, -⟩
      · omega
      · omega
    refine ⟨⟨hcosts.trans hyet.1, ?_⟩, .inl hone⟩
    rcases hyet.2 with hf | ⟨hk, hbase, hlow⟩
    · exact .inl (hf.trans hused)
    have hkept : Kept m'.store env.host → Kept m'.store env'.host ∧ 100 ≤ env'.gas.used.toNat ∧
        low ≤ env'.gas.used.toNat :=
      fun hk' => ⟨hhost ▸ hk', hbase.trans hused, hlow.trans hused⟩
    rcases h.perform hdec hp hk with hk' | ⟨hw, hfloor⟩
    · exact .inr (hkept hk')
    rcases hstack with hnil | hpaid'
    · -- without an operand it could only fail
      rcases hb hnil with ⟨e, rfl⟩ | ⟨hw', -⟩
      · exact .inr (hkept (hp.unchanged e rfl ▸ hk))
      · rw [hw] at hw'
        cases hw'
    · exact .inl (by omega)

theorem step {module : WasmModule} {f : ℕ} {s : Machine × Env} (hat : At Kept floor low s) :
    Ends False (dispatch module) s ((assertions Kept floor).Stepped f low) := by
  obtain ⟨hyet, hstack⟩ := hat
  refine (dispatch_ends module s.1 s.2).mono ?_
  rintro r ⟨m', env'⟩ hd
  cases hd with
  | ended hs he => exact .of_trap he (hs ▸ hyet)
  | short hop hs hc => exact ⟨hs ▸ hyet.charged hc, by simp⟩
  | garbled hop hc hs he => exact .of_trap he (hs ▸ hyet.charged hc)
  | performed hop hc hdec hp hb =>
    obtain ⟨hyet', hpaid⟩ := performed h hp hb hc hdec hyet hstack
    cases r with
    | error e =>
      refine ⟨hyet', fun ⟨depth, he⟩ => hpaid.resolve_right ?_⟩
      rintro ⟨hidle, -⟩
      rcases hp.error e rfl with ht | ⟨_, -, rfl | rfl⟩ | ⟨rfl, -⟩
      · exact InterpError.ne_branch ht depth he
      · simp at hidle
      · simp at hidle
      · cases he
    | ok action =>
      have hat : At Kept floor low (m', env') := by
        refine ⟨hyet', (Or.symm hpaid).imp_left ?_⟩
        rintro ⟨-, ⟨e, he⟩ | hnil⟩
        · cases he
        · exact hnil
      cases action with
      | loop start => exact ⟨trivial, (hp.loop start rfl).2, hat⟩
      | call i args =>
        have hone : 101 ≤ env'.gas.used.toNat := by
          refine hpaid.resolve_right ?_
          rintro ⟨hidle, -⟩
          simp [hp.call i args rfl] at hidle
        -- the call has been paid, which is remembered until it is back
        have hback : ∀ {store : Store} {env : Env}, Yet Kept floor (max low 101) store env →
            Yet Kept floor low store env ∧ 101 ≤ env.gas.used.toNat := by
          rintro store env ⟨hc, hf | ⟨hk, hbase, hlow⟩⟩
          · exact ⟨⟨hc, .inl hf⟩, h.floor_ge.trans hf⟩
          · exact ⟨⟨hc, .inr ⟨hk, hbase, (le_max_left _ _).trans hlow⟩⟩,
              (le_max_right _ _).trans hlow⟩
        refine ⟨max low 101, ⟨hyet'.1, hyet'.2.imp_right ?_⟩, fun v u frame hu _ => ?_,
          fun e u hu => ?_⟩
        · exact fun ⟨hk, hbase, hlow⟩ => ⟨hk, hbase, max_le hlow hone⟩
        · exact ⟨(hback hu).1, .inr (hback hu).2⟩
        · exact ⟨(hback hu).1, fun _ => (hback hu).2⟩
      | _ => exact hat

/-- **Nothing happens before its gas is used.** -/
theorem runRule (ctx : Context) : RunRule ctx False (assertions Kept floor) where
  step _ _ _ hat _ := step h hat
  again _ low depth start s hf _ := ⟨hf.1, .inr (hf.2 ⟨depth, rfl⟩)⟩
  skip _ low depth s r hf _ _ :=
    ⟨⟨hf.1, .inr (hf.2 ⟨depth, rfl⟩)⟩, fun _ => ⟨hf.1, fun _ => hf.2 ⟨depth, rfl⟩⟩⟩
  trap _ low depth s r e hf he := .of_trap he hf.1
  body _ low i params args s func hcall _ _ :=
    ⟨low, ⟨hcall, .inl rfl⟩, fun _ _ hat => hat.1, fun _ _ hf => ⟨fun _ => hf.1, fun _ => hf.1⟩⟩
  refuse _ low i s e hcall _ _ := hcall
  host _ low i imported args s hcall _ _ := by
    refine (ends_onEnv (chargeGas_metered (·.hostCall imported.name) s.2)).bind ?_ ?_
    · rintro _ ⟨_, env⟩ ⟨rfl, hm⟩
      -- host functions cost more than any other effect
      have hfloor : ∀ {store : Store} {host : HostEnvironment},
          Yet Kept floor low store { env with host := host } := by
        refine ⟨hm.costs.trans hcall.1, .inl ?_⟩
        have hpaid := hm.paid rfl
        have hcost := GasCosts.le_hostCall imported.name
        have hle := h.floor_le
        rw [hcall.1] at hpaid
        dsimp only at hpaid ⊢
        rcases hcall.2 with hf | ⟨-, hbase, -⟩
        · omega
        · omega
      unfold ContractPermissions.checkPermission
      split
      · refine ends_throw ?_
        exact hfloor
      · refine (runHostFunction_settles (fun _ _ _ _ => ?_) fun _ _ => ?_).ends
        · exact hfloor
        · exact hfloor
    · rintro e ⟨_, env⟩ ⟨rfl, hm⟩
      exact hcall.later hm.host hm.costs hm.used

/-- A call that does not use `floor` keeps what it finds. -/
theorem kept_of_used_lt {ctx : Context} {fuel : ℕ} {i : UInt32} {args : List Value} {gas gas₁ : GasMeter}
    {host : HostEnvironment} {res : Except InterpError (Option Value)} {store store' : Store}
    (hcosts : gas.costs = {}) (hcharge : gas.charge (gas.costs.hostCall "base_call") = (.ok (), gas₁))
    (hk : Kept store host)
    (hexec : executeFunction ctx fuel 0 i args (store, ⟨gas₁, host, 0⟩) = some (res, store', env))
    (hused : env.gas.used.toNat < floor) : Kept store' env.host := by
  have hstart : Yet Kept floor 100 store ⟨gas₁, host, 0⟩ := by
    rcases gas.charge_cases (gas.costs.hostCall "base_call") with
      ⟨-, gas₂, hc, -, hcosts₂, -, hused₂⟩ | ⟨-, err, gas₂, hc, -⟩
    · cases hc.symm.trans hcharge
      rw [hcosts] at hused₂
      have hbase : 100 ≤ gas₁.used.toNat := hused₂.ge.trans' (Nat.le_add_left _ _)
      exact ⟨hcosts₂.trans hcosts, .inr ⟨hk, hbase, hbase⟩⟩
    · cases hc.symm.trans hcharge
  rcases (((runRule h ctx).run fuel).1 0 100 i args _ hstart).of_eq hexec with
    ⟨-, hf | ⟨hk', -⟩⟩
  · exact absurd hf (Nat.not_le.mpr hused)
  · exact hk'

end Early

/-! ### Failed calls -/

namespace GratiaVm

/-- The globals and memory that the next call of a contract starts from. -/
def storeAt (vm : GratiaVm) (address : Address) : Option Store :=
  match vm.contracts[address]? with
  | none => none
  | some contract =>
    ((vm.ensureLoaded address contract.bytecode).2.runtime.contracts[address]?).map (·.store)

/-- If a call gets to run a function, the function is one of `Q`. -/
def RunsOnly (vm : GratiaVm) (call : ContractCall) (Q : Context → UInt32 → Prop) : Prop :=
  ∀ contract (loaded : LoadedContract) i, vm.contracts[call.contractAddress]? = some contract →
    (vm.ensureLoaded call.contractAddress contract.bytecode).2.runtime.contracts[
      call.contractAddress]? = some loaded →
    loaded.module.exportedFunction? call.functionName = some i →
    Q ⟨loaded.module, contract.permissions⟩ i

/-- The gas does not last to the first effect, or the function is atomic. -/
def Harmless (vm : GratiaVm) (call : ContractCall) : Prop :=
  call.gasLimit < 102 ∨ vm.RunsOnly call Context.Atomic

/-- The same for a check of functions. -/
def checkRun (vm : GratiaVm) (call : ContractCall) (check : WasmModule → UInt32 → Bool) : Bool :=
  (vm.contracts[call.contractAddress]?).all fun contract =>
    ((vm.ensureLoaded call.contractAddress contract.bytecode).2.runtime.contracts[
      call.contractAddress]?).all fun loaded =>
      (loaded.module.exportedFunction? call.functionName).all (check loaded.module)

variable {vm : GratiaVm} {call : ContractCall} {limit : Lux}

theorem runsOnly_of_checkRun {check : WasmModule → UInt32 → Bool} {Q : Context → UInt32 → Prop}
    (hQ : ∀ m i permissions, check m i = true → Q ⟨m, permissions⟩ i)
    (h : vm.checkRun call check = true) : vm.RunsOnly call Q := by
  intro contract loaded i hcontract hloaded hexp
  unfold checkRun at h
  rw [hcontract, Option.all_some, hloaded, Option.all_some, hexp, Option.all_some] at h
  exact hQ _ _ _ h

theorem ensureLoaded_ok {vm₁ : GratiaVm} {address : Address} {bytecode : Bytes}
    (h : vm.ensureLoaded address bytecode = (.ok (), vm₁)) :
    vm₁.contracts = vm.contracts ∧ vm₁.runtime.isLoaded address = true := by
  unfold ensureLoaded at h
  split at h
  next hloaded =>
    cases h
    exact ⟨rfl, hloaded⟩
  · rcases vm.runtime.loadContract_cases address bytecode vm.sandboxConfig with
      ⟨e, hload, -⟩ | ⟨m, -, -, hload⟩
    · rw [hload] at h
      cases h
    · rw [hload] at h
      cases h
      exact ⟨rfl, Std.ExtTreeMap.contains_insert_self⟩

theorem storeAt_of_loaded {address : Address} {contract : DeployedContract}
    (hcontract : vm.contracts[address]? = some contract)
    (hloaded : vm.runtime.isLoaded address = true) :
    vm.storeAt address = (vm.runtime.contracts[address]?).map (·.store) := by
  rw [storeAt, hcontract]
  dsimp only
  rw [ensureLoaded, if_pos hloaded]

theorem resultOf_failed {e : Execution} {r : Except InterpError (Option Value)} {gasUsed : UInt64}
    {events : List ContractEvent} (he : e.result = ExecutionOutcome.ofResult gasUsed r)
    (h : (resultOf e events).success = false) : ∃ err, r = .error err := by
  cases r with
  | error err => exact ⟨err, rfl⟩
  | ok v =>
    unfold resultOf at h
    rw [he] at h
    cases v with
    | none => cases h
    | some v => cases h

theorem base_le_gasLimit {gas : GasMeter}
    (h : (GasMeter.new limit).charge ((GasMeter.new limit).costs.hostCall "base_call") =
      (.ok (), gas)) : 100 ≤ limit := by
  rcases (GasMeter.new limit).charge_cases ((GasMeter.new limit).costs.hostCall "base_call") with
    ⟨hle, -⟩ | ⟨-, e, g, he, -⟩
  · rw [GasMeter.toNat_limit_new] at hle
    rw [UInt64.le_iff_toNat_le]
    exact (Nat.le_add_left _ _).trans (hle.trans (min_le_left _ _))
  · rw [h] at he
    cases he

theorem events_resultOf (e : Execution) (events : List ContractEvent) :
    (resultOf e events).events = events ∨ (resultOf e events).events = [] := by
  unfold resultOf
  split
  · exact .inl rfl
  · exact .inr rfl
  · exact .inr rfl

theorem priced_kept (store₀ : Store) (host₀ : HostEnvironment) :
    Early.Priced (fun store host => store = store₀ ∧ host = host₀) 102 where
  floor_ge := by decide
  floor_le := by decide
  perform {opcode instr} _ _ _ _ _ _ _ hp hk := by
    cases hw : instr.writes with
    | false => exact .inl ⟨(hp.store_eq hw).trans hk.1, hk.2⟩
    | true => exact .inr ⟨rfl, Nat.add_le_add_left (opcodeCost_pos opcode) 101⟩

/-- **A failed call of a harmless function changes nothing**; it returns the events that the host
held before, if any. -/
theorem Harmless.kept {fuel : ℕ} {host : HostEnvironment} {c : Called} {r : ExecutionResult}
    (h : vm.Harmless call) (hc : vm.callContract fuel call host = some c) (hr : c.result = .ok r)
    (hfailed : r.success = false) :
    c.vm.storeAt call.contractAddress = vm.storeAt call.contractAddress ∧
      c.host.storage = host.storage ∧
      (r.events = [] ∨ r.events = host.events ∧ 100 ≤ call.gasLimit) := by
  rcases callContract_cases hc with
    ⟨fault, vm₁, rfl, -⟩ | ⟨contract, vm₁, e, hcontract, hload, hrun, rfl⟩
  · cases hr
  obtain rfl := Except.ok.inj hr
  obtain ⟨hcontracts, hloaded⟩ := ensureLoaded_ok hload
  have hbefore : vm.storeAt call.contractAddress =
      (vm₁.runtime.contracts[call.contractAddress]?).map (·.store) := by
    rw [storeAt, hcontract]
    dsimp only
    rw [hload]
  have hcontract₁ : vm₁.contracts[call.contractAddress]? = some contract := by
    rw [hcontracts]
    exact hcontract
  have hafter : e.runtime.isLoaded call.contractAddress = true →
      ({ vm₁ with runtime := e.runtime } : GratiaVm).storeAt call.contractAddress =
        (e.runtime.contracts[call.contractAddress]?).map (·.store) :=
    fun hl => @storeAt_of_loaded { vm₁ with runtime := e.runtime } _ _ hcontract₁ hl
  rcases InterpreterRuntime.executeContract_cases hrun with
    ⟨err, rfl, hne⟩ | ⟨g, gas₁, -, rfl⟩ | ⟨loaded, i, gas₁, res, store, env, hget, hexp, hcharge, hexec, he⟩
  · refine ⟨(hafter hloaded).trans hbefore.symm, rfl, .inl ?_⟩
    cases err <;> rfl
  · exact ⟨(hafter hloaded).trans hbefore.symm, rfl, .inl rfl⟩
  · -- the function has changed nothing, for want of gas or because it is atomic
    have hkept : store = loaded.store ∧ env.host = host := by
      rcases h with hlow | hatomic
      · refine Early.kept_of_used_lt (priced_kept loaded.store host) rfl hcharge ⟨rfl, rfl⟩ hexec ?_
        have hlimit := (executeContract_accounts hrun).1
        rw [he] at hlimit
        have hused := env.gas.toNat_used_le
        rw [hlimit, GasMeter.toNat_limit_new] at hused
        exact hused.trans_lt ((min_le_left _ _).trans_lt (UInt64.lt_iff_toNat_lt.mp hlow))
      · obtain ⟨err, rfl⟩ := resultOf_failed (congrArg Execution.result he) hfailed
        have hcalled : Atomic.CallPost ⟨loaded.module, contract.permissions⟩ loaded.store host i
            (.error err) (store, env) :=
          (((Atomic.runRule (hatomic contract loaded i hcontract (by rw [hload]; exact hget)
            hexp)).run fuel).1 0 () i _ _ ⟨.refl, rfl, rfl⟩).of_eq hexec
        exact (hcalled.1 err rfl).1
    subst he
    refine ⟨(hafter Std.ExtTreeMap.contains_insert_self).trans ?_, congrArg (·.storage) hkept.2, ?_⟩
    · rw [hbefore, hget]
      dsimp only
      rw [Std.ExtTreeMap.getElem?_insert_self, hkept.1]
    · rcases events_resultOf _ env.host.events with hev | hev
      · exact .inr ⟨hev.trans (congrArg (·.events) hkept.2), base_le_gasLimit hcharge⟩
      · exact .inl hev

/-- A module with a global and a byte of data, `A`.  `put` writes to the storage, emits an event,
sets the global and traps; `bump` adds one to the global; `slip` sets it and traps. -/
def scribbler : Bytes :=
  [0x00, 0x61, 0x73, 0x6D, 0x01, 0x00, 0x00, 0x00, 0x01, 0x0B, 0x02, 0x60, 0x04, 0x7F, 0x7F, 0x7F,
    0x7F, 0x00, 0x60, 0x00, 0x00, 0x02, 0x26, 0x02, 0x03, 0x65, 0x6E, 0x76, 0x0D, 0x73, 0x74, 0x6F,
    0x72, 0x61, 0x67, 0x65, 0x5F, 0x77, 0x72, 0x69, 0x74, 0x65, 0x00, 0x00, 0x03, 0x65, 0x6E, 0x76,
    0x0A, 0x65, 0x6D, 0x69, 0x74, 0x5F, 0x65, 0x76, 0x65, 0x6E, 0x74, 0x00, 0x00, 0x03, 0x04, 0x03,
    0x01, 0x01, 0x01, 0x06, 0x06, 0x01, 0x7F, 0x01, 0x41, 0x00, 0x0B, 0x07, 0x15, 0x03, 0x03, 0x70,
    0x75, 0x74, 0x00, 0x02, 0x04, 0x62, 0x75, 0x6D, 0x70, 0x00, 0x03, 0x04, 0x73, 0x6C, 0x69, 0x70,
    0x00, 0x04, 0x0A, 0x2F, 0x03, 0x1B, 0x00, 0x41, 0x00, 0x41, 0x01, 0x41, 0x00, 0x41, 0x01, 0x10,
    0x00, 0x41, 0x00, 0x41, 0x01, 0x41, 0x00, 0x41, 0x01, 0x10, 0x01, 0x41, 0x07, 0x24, 0x00, 0x00,
    0x0B, 0x09, 0x00, 0x23, 0x00, 0x41, 0x01, 0x6A, 0x24, 0x00, 0x0B, 0x07, 0x00, 0x41, 0x07, 0x24,
    0x00, 0x00, 0x0B, 0x0B, 0x07, 0x01, 0x00, 0x41, 0x00, 0x0B, 0x01, 0x41]

def scribblerAddress : Address := contractAddressOf reference ⟨.zero⟩ scribbler

end GratiaVm

end Gratia
