import Gratia.Support.Runs
import Gratia.Vm.Effects

/-!
# Vm — Regions

Invariants of whole runs.  A run only ever stands at positions that follow from the start of a
function's code by whole instructions, skipped code included, so an invariant has to be kept only by
the instructions that occur there: those satisfying some `P`, in a set of functions closed under
calls.
-/

namespace Gratia

open Support Reader

/-! ### One instruction -/

inductive Charged (opcode : UInt8) (env : Env) : Except InterpError Unit → Env → Prop where
  | free (h : isFree opcode = true) :
      Charged opcode env (.ok ()) { env with dispatched := env.dispatched + 1 }
  | paid {env' : Env} (h : isFree opcode = false)
      (hc : chargeGas (opcodeCost opcode) { env with dispatched := env.dispatched + 1 } =
        .ok () env') : Charged opcode env (.ok ()) env'
  | short {g : GasError} {env' : Env} (h : isFree opcode = false)
      (hc : chargeGas (opcodeCost opcode) { env with dispatched := env.dispatched + 1 } =
        .error (.gas g) env') : Charged opcode env (.error (.gas g)) env'

/-- What a charge does to the environment.  One that fails uses up the gas. -/
structure Metered (cost : UInt64) (env : Env) (r : Except InterpError Unit) (env' : Env) : Prop where
  host : env'.host = env.host
  dispatched : env'.dispatched = env.dispatched
  costs : env'.gas.costs = env.gas.costs
  limit : env'.gas.limit = env.gas.limit
  used : env.gas.used.toNat ≤ env'.gas.used.toNat
  paid : r = .ok () → env'.gas.used.toNat = env.gas.used.toNat + cost.toNat
  short : ∀ e, r = .error e → (∃ g, e = .gas g) ∧ env'.gas.used = env'.gas.limit

theorem chargeGas_metered (cost : GasCosts → UInt64) (env : Env) :
    Settles (chargeGas cost) env (Metered (cost env.gas.costs) env) := by
  unfold Settles chargeGas
  rcases env.gas.charge_cases (cost env.gas.costs) with
    ⟨-, g, hc, hlimit, hcosts, -, hused⟩ | ⟨-, e, g, hc, hlimit, hcosts, hused⟩
  · rw [hc]
    exact ⟨rfl, rfl, hcosts, hlimit, hused.ge.trans' (Nat.le_add_right _ _), fun _ => hused, by simp⟩
  · rw [hc]
    refine ⟨rfl, rfl, hcosts, hlimit, hused ▸ env.gas.toNat_used_le, by simp, ?_⟩
    rintro _ ⟨⟩
    exact ⟨⟨e, rfl⟩, hused.trans hlimit.symm⟩

variable {T : Prop} {env : Env} {opcode : UInt8} {q p : ℕ}

/-- The environment after an instruction was counted and charged. -/
theorem Charged.metered {env' : Env} {r : Except InterpError Unit}
    (hc : Charged opcode env r env') :
    env'.host = env.host ∧ env'.gas.costs = env.gas.costs ∧ env'.gas.limit = env.gas.limit ∧
      env.gas.used.toNat ≤ env'.gas.used.toNat ∧ (isFree opcode = false → r = .ok () →
        env'.gas.used.toNat = env.gas.used.toNat + (opcodeCost opcode env.gas.costs).toNat) := by
  have hm := chargeGas_metered (opcodeCost opcode) { env with dispatched := env.dispatched + 1 }
  cases hc with
  | free h => exact ⟨rfl, rfl, rfl, le_rfl, fun hf => by rw [h] at hf; cases hf⟩
  | paid _ hc =>
    obtain ⟨hhost, -, hcosts, hlimit, hused, hpaid, -⟩ := hm.ok hc
    exact ⟨hhost, hcosts, hlimit, hused, fun _ _ => hpaid rfl⟩
  | short _ hc =>
    obtain ⟨hhost, -, hcosts, hlimit, hused, -⟩ := hm.error hc
    exact ⟨hhost, hcosts, hlimit, hused, by simp⟩

theorem opcodeCost_pos (opcode : UInt8) : 1 ≤ (opcodeCost opcode {}).toNat := by
  unfold opcodeCost
  split
  · decide
  split
  · decide
  split
  · decide
  · decide

theorem decode_of_isFree {r r' : Reader} {instr : Instr} (hfree : isFree opcode = true)
    (hd : decode opcode r = .ok instr r') :
    instr = .end ∨ instr = .nop ∨ instr = .drop := by
  have hop : opcode ∈ ([0x0B, 0x01, 0x1A] : List UInt8) := of_decide_eq_true hfree
  rcases List.mem_cons.mp hop with rfl | hop
  · cases hd; exact .inl rfl
  rcases List.mem_cons.mp hop with rfl | hop
  · cases hd; exact .inr (.inl rfl)
  · obtain rfl := List.mem_singleton.mp hop
    cases hd
    exact .inr (.inr rfl)

theorem chargeGas_eq (cost : GasCosts → UInt64) (env : Env) :
    (∃ env', chargeGas cost env = .ok () env') ∨ ∃ g env', chargeGas cost env = .error (.gas g) env' := by
  unfold chargeGas
  rcases env.gas.charge (cost env.gas.costs) with ⟨_ | _, gas⟩
  · exact .inr ⟨_, _, rfl⟩
  · exact .inl ⟨_, rfl⟩

theorem ends_onMachine {α : Type} {x : Step α} {m : Machine}
    {P : Except InterpError α → Machine → Prop} (h : Settles x m P) :
    Ends T (onMachine x) (m, env) fun r s => P r s.1 ∧ s.2 = env :=
  ends_within (h.ends.mono fun _ _ hP => ⟨hP, rfl⟩)

theorem ends_onEnv {σ α : Type} {x : EStateM InterpError Env α} {s : σ}
    {P : Except InterpError α → Env → Prop} (h : Settles x env P) :
    Ends T (onEnv x) (s, env) fun r t => t.1 = s ∧ P r t.2 :=
  ends_within (h.ends.mono fun _ _ hP => ⟨rfl, hP⟩)

theorem look_ends (s : Machine × Env) :
    Ends T (onMachine (reading get)) s fun r t => r = .ok s.1.frame.reader ∧ t = s :=
  ⟨rfl, rfl⟩

theorem seek_ends (start : ℕ) (s : Machine × Env) :
    Ends T (onMachine (reading (modify fun r => { r with pos := start }))) s fun r t =>
      r = .ok ⟨⟩ ∧ t = (s.1.withReader ⟨s.1.frame.reader.data, start⟩, s.2) :=
  ⟨rfl, rfl⟩

theorem push_ends (v : Value) (s : Machine × Env) :
    Ends T (onMachine (stacking (push v))) s fun r t => r = .ok () ∧
      t.1.frame.reader = s.1.frame.reader ∧ t.1.store = s.1.store ∧ t.2 = s.2 :=
  ⟨rfl, rfl, rfl, rfl⟩

theorem chargeInstruction_ends (opcode : UInt8) (m : Machine) (env : Env) :
    Ends T (chargeInstruction opcode) (m, env) fun r s => s.1 = m ∧ Charged opcode env r s.2 := by
  have hcount : Settles countInstruction env fun r env' =>
      r = .ok () ∧ env' = { env with dispatched := env.dispatched + 1 } := ⟨rfl, rfl⟩
  refine (ends_onEnv hcount).bind ?_ ?_
  · rintro _ ⟨_, _⟩ ⟨rfl, -, rfl⟩
    cases hf : isFree opcode with
    | true => exact ends_pure ⟨rfl, .free hf⟩
    | false =>
      refine ends_onEnv ?_
      unfold Settles
      rcases chargeGas_eq (opcodeCost opcode) { env with dispatched := env.dispatched + 1 } with
        ⟨env', hc⟩ | ⟨g, env', hc⟩
      · rw [hc]
        exact .paid hf hc
      · rw [hc]
        exact .short hf hc
  · rintro e s ⟨-, h, -⟩
    cases h

/-- The ways one instruction is dispatched: a trap before anything happens to globals and memory;
out of gas; or the instruction at the cursor is performed. -/
inductive Dispatched (m : Machine) (env : Env) : Except InterpError Action → Machine × Env → Prop where
  | ended {e : InterpError} {m' : Machine} (hs : m'.store = m.store) (he : e.isTrap = true) :
      Dispatched m env (.error e) (m', env)
  | short {opcode : UInt8} {g : GasError} {m' : Machine} {env' : Env}
      (hop : m.frame.reader.data[m.frame.reader.pos]? = some opcode) (hs : m'.store = m.store)
      (hc : Charged opcode env (.error (.gas g)) env') :
      Dispatched m env (.error (.gas g)) (m', env')
  | garbled {opcode : UInt8} {e : InterpError} {m' : Machine} {env' : Env}
      (hop : m.frame.reader.data[m.frame.reader.pos]? = some opcode)
      (hc : Charged opcode env (.ok ()) env') (hs : m'.store = m.store) (he : e.isTrap = true) :
      Dispatched m env (.error e) (m', env')
  | performed {opcode : UInt8} {instr : Instr} {next : ℕ} {r : Except InterpError Action}
      {m' : Machine} {env' : Env}
      (hop : m.frame.reader.data[m.frame.reader.pos]? = some opcode)
      (hc : Charged opcode env (.ok ()) env')
      (hd : decode opcode ⟨m.frame.reader.data, m.frame.reader.pos + 1⟩ =
        .ok instr ⟨m.frame.reader.data, next⟩)
      (hp : Performed instr (m.withReader ⟨m.frame.reader.data, next⟩) r m')
      (hb : m.frame.stack = [] → Bare instr r m') : Dispatched m env r (m', env')

/-- **How an instruction is dispatched.** -/
theorem dispatch_ends (module : WasmModule) (m : Machine) (env : Env) :
    Ends T (dispatch module) (m, env) (Dispatched m env) := by
  refine (ends_onMachine (settles_reading (readByte_settles _))).bind ?_ ?_
  · rintro opcode ⟨_, _⟩ ⟨⟨r, ⟨_, ⟨⟩, hop, rfl⟩ | ⟨_, ⟨⟩, _⟩, rfl⟩, rfl⟩
    refine (chargeInstruction_ends opcode _ _).bind ?_ ?_
    · rintro _ ⟨_, env'⟩ ⟨rfl, hc⟩
      refine (ends_onMachine (settles_reading (decode_settles _ opcode))).bind ?_ ?_
      · rintro instr ⟨_, _⟩ ⟨⟨_, ⟨_, next, ⟨⟩, rfl, hd⟩ | ⟨_, ⟨⟩, _⟩, rfl⟩, rfl⟩
        have hbare : Settles (perform module instr) (m.withReader ⟨m.frame.reader.data, next⟩)
            fun r m' => m.frame.stack = [] → Bare instr r m' := by
          by_cases hstack : m.frame.stack = []
          · refine (perform_bare module instr _ ?_).mono fun _ _ hb _ => hb
            exact hstack
          · exact settles_of_forall fun _ _ hs => absurd hs hstack
        refine (ends_onMachine ((perform_settles module instr _).and hbare)).mono ?_
        rintro res ⟨m', _⟩ ⟨⟨hp, hb⟩, rfl⟩
        exact .performed hop hc hd hp hb
      · rintro e ⟨_, _⟩ ⟨⟨_, ⟨_, _, ⟨⟩, _⟩ | ⟨_, ⟨⟩, ht⟩, rfl⟩, rfl⟩
        exact .garbled hop hc rfl ht
    · rintro e ⟨_, env'⟩ ⟨rfl, hc⟩
      cases hc with
      | short hf hc => exact .short hop rfl (.short hf hc)
  · rintro e ⟨_, _⟩ ⟨⟨r, ⟨_, ⟨⟩, _⟩ | ⟨_, ⟨⟩, ht⟩, rfl⟩, rfl⟩
    exact .ended rfl ht

variable {instr : Instr} {next : ℕ}

theorem onMachine_of_ok {α : Type} {m m' : Machine} {x : Step α} {a : α} (h : x m = .ok a m') :
    onMachine x (m, env) = some (.ok a, m', env) := by
  simp only [onMachine, Exec.within, Exec.lift_of_ok h, Option.map_some]

theorem reading_of_ok {α : Type} {m : Machine} {x : Read α} {r : Reader} {a : α}
    (h : x m.frame.reader = .ok a r) : reading x m = .ok a (m.withReader r) := by
  rw [reading, h]

theorem dispatch_eq (module : WasmModule) {m : Machine} {env' : Env}
    (hop : m.frame.reader.data[m.frame.reader.pos]? = some opcode)
    (hc : chargeInstruction opcode (m.withReader (m.frame.reader.advance 1), env) =
      some (.ok (), m.withReader (m.frame.reader.advance 1), env'))
    (hd : decode opcode (m.frame.reader.advance 1) = .ok instr ⟨m.frame.reader.data, next⟩) :
    dispatch module (m, env) =
      onMachine (perform module instr) (m.withReader ⟨m.frame.reader.data, next⟩, env') := by
  have hread : readByte m.frame.reader = .ok opcode (m.frame.reader.advance 1) := by
    rw [readByte, hop]
  have hdec : reading (decode opcode) (m.withReader (m.frame.reader.advance 1)) =
      .ok instr (m.withReader ⟨m.frame.reader.data, next⟩) := reading_of_ok hd
  exact (Exec.bind_of_ok (onMachine_of_ok (reading_of_ok hread))).trans
    ((Exec.bind_of_ok hc).trans (Exec.bind_of_ok (onMachine_of_ok hdec)))

theorem returnValue_settles (results : List ValType) (m : Machine) :
    Settles (returnValue results) m fun r m' => (∃ v, r = .ok v) ∧ m' = m := by
  unfold returnValue
  cases results with
  | nil => exact ⟨⟨_, rfl⟩, rfl⟩
  | cons t results =>
    refine settles_get ?_
    cases m.frame.stack with
    | nil => exact ⟨⟨_, rfl⟩, rfl⟩
    | cons v stack => exact ⟨⟨_, rfl⟩, rfl⟩

/-! ### Whole runs -/

/-- Every instruction from a position on satisfies `P`. -/
def Clear (P : Instr → Prop) (code : Bytes) (pos : ℕ) : Prop :=
  ∀ q instr next, Onward code pos q → Decodes code q instr next → P instr

variable {code : Bytes}

theorem Onward.trans {r : ℕ} (h : Onward code p q) (t : Onward code q r) : Onward code p r := by
  induction h with
  | refl => exact t
  | step h _ ih => exact .step h (ih t)

theorem Clear.onward {P : Instr → Prop} (h : Clear P code p) (ho : Onward code p q) :
    Clear P code q :=
  fun _ _ _ ht hd => h _ _ _ (ho.trans ht) hd

/-! ### The instructions of a function body -/

/-- The instructions from a position on, as far as they can be read, each with the position behind
it. -/
def placedFrom (code : Bytes) : ℕ → ℕ → List (Instr × ℕ)
  | 0, _ => []
  | fuel + 1, pos =>
    match (readByte >>= fun opcode => decode opcode) ⟨code, pos⟩ with
    | .ok instr r => (instr, r.pos) :: placedFrom code fuel r.pos
    | .error _ _ => []

/-- The instructions of a function body, each with the position behind it. -/
def placed (code : Bytes) : List (Instr × ℕ) := placedFrom code code.length 0

def instructions (code : Bytes) : List Instr := (placed code).map Prod.fst

theorem Decodes.read {pos : ℕ} (h : Decodes code pos instr next) :
    pos < code.length ∧
      (readByte >>= fun opcode => decode opcode) ⟨code, pos⟩ = .ok instr ⟨code, next⟩ := by
  obtain ⟨opcode, hop, hd⟩ := h
  refine ⟨(List.getElem?_eq_some_iff.mp hop).1, ?_⟩
  have hb : readByte.run ⟨code, pos⟩ = .ok opcode ⟨code, pos + 1⟩ := by
    unfold EStateM.run readByte
    rw [hop]
    rfl
  exact (bind_of_ok hb).trans hd

theorem mem_placedFrom (ho : Onward code p q) (hd : Decodes code q instr next) :
    ∀ fuel, code.length ≤ p + fuel → (instr, next) ∈ placedFrom code fuel p := by
  induction ho with
  | refl p =>
    intro fuel hfuel
    obtain ⟨hlt, hread⟩ := hd.read
    cases fuel with
    | zero => omega
    | succ fuel =>
      rw [placedFrom, hread]
      exact List.mem_cons_self
  | step h _ ih =>
    intro fuel hfuel
    obtain ⟨hlt, hread⟩ := h.read
    cases fuel with
    | zero => omega
    | succ fuel =>
      rw [placedFrom, hread]
      have := h.lt
      exact List.mem_cons_of_mem _ (ih hd fuel (by omega))

theorem mem_placed (ho : Onward code 0 q) (hd : Decodes code q instr next) :
    (instr, next) ∈ placed code :=
  mem_placedFrom ho hd _ (Nat.zero_add _).ge

theorem clear_of_instructions {P : Instr → Prop} (h : ∀ instr ∈ instructions code, P instr) :
    Clear P code 0 :=
  fun _ _ _ ho hd => h _ (List.mem_map_of_mem (mem_placed ho hd))

/-! ### What runs keep -/

/-- Assertions about runs.  `Call f g i` is where function `i` is called with fuel `f` and
`Back f g i` where the call ends, with `g` for what the caller remembers; `At f k` is between the
instructions of a body, `Start k` the places where its loops start, and `Fails f k` where an
instruction, a block or a call in it ends in an error. -/
structure Assertions (γ κ : Type) where
  Call : ℕ → γ → UInt32 → Store × Env → Prop
  Back : ℕ → γ → UInt32 → Except InterpError (Option Value) → Store × Env → Prop
  At : ℕ → κ → Machine × Env → Prop
  Start : κ → ℕ → Prop
  Fails : ℕ → κ → InterpError → Machine × Env → Prop

namespace Assertions

variable {γ κ : Type} (A : Assertions γ κ)

/-- After a block or a loop. -/
def Post (f : ℕ) (k : κ) {α : Type} : Except InterpError α → Machine × Env → Prop :=
  Outcome (fun _ => A.At f k) (A.Fails f k)

/-- After one instruction, if there was fuel `f + 1` before. -/
abbrev Stepped (f : ℕ) (k : κ) (r : Except InterpError Action) (t : Machine × Env) : Prop :=
  match r with
  | .error e => A.Fails (f + 1) k e t
  | .ok (.loop start) => A.Start k start ∧ t.1.frame.reader.pos = start ∧ A.At (f - 1) k t
  | .ok (.call i _) => ∃ g, A.Call f g i (t.1.store, t.2) ∧
      -- the result, if there is one, is on the stack then
      (∀ v u (frame : Frame), A.Back f g i (.ok v) u → frame.reader = t.1.frame.reader →
        A.At f k (⟨frame, u.1⟩, u.2)) ∧
      ∀ e u, A.Back f g i (.error e) u → A.Fails f k e ({ t.1 with store := u.1 }, u.2)
  | .ok _ => A.At (f - 1) k t

end Assertions

/-- Every run of `ctx` keeps the assertions.  If `T` then runs end: an instruction takes two units
of fuel, and without fuel nothing runs. -/
structure RunRule (ctx : Context) (T : Prop) {γ κ : Type} (A : Assertions γ κ) : Prop where
  step : ∀ f k s, A.At (f + 1) k s → s.1.frame.reader.remaining ≠ 0 →
    Ends T (dispatch ctx.module) s (A.Stepped f k)
  /-- A branch to a loop. -/
  again : ∀ f k depth start s, A.Fails f k (.branch depth) s → A.Start k start →
    A.At (f - 1) k (s.1.withReader ⟨s.1.frame.reader.data, start⟩, s.2)
  /-- A branch to a block, or out of it. -/
  skip : ∀ f k depth s r, A.Fails f k (.branch depth) s → r.data = s.1.frame.reader.data →
    Onward s.1.frame.reader.data s.1.frame.reader.pos r.pos →
    A.At f k (s.1.withReader r, s.2) ∧ ∀ depth, A.Fails f k (.branch depth) (s.1.withReader r, s.2)
  trap : ∀ f k depth s r e, A.Fails f k (.branch depth) s → e.isTrap = true →
    A.Fails f k e (s.1.withReader r, s.2)
  body : ∀ f g i params args s func, A.Call (f + 1) g i s → ¬i < ctx.module.importFuncCount →
    ctx.module.functions[(i - ctx.module.importFuncCount).toNat]? = some func →
    ∃ k, A.At f k (⟨.enter func params args, s.1⟩, s.2) ∧
      (∀ v t, A.At f k t → A.Back (f + 1) g i (.ok v) (t.1.store, t.2)) ∧
      ∀ e t, A.Fails f k e t → (∀ v, A.Back (f + 1) g i (.ok v) (t.1.store, t.2)) ∧
        ((∀ depth, e ≠ .branch depth) → A.Back (f + 1) g i (.error e) (t.1.store, t.2))
  refuse : ∀ f g i s e, A.Call f g i s → (∀ depth, e ≠ .branch depth) → (∀ err, e ≠ .gas err) →
    A.Back f g i (.error e) s
  host : ∀ f g i imported args s, A.Call f g i s → i < ctx.module.importFuncCount →
    ctx.module.imports[i.toNat]? = some imported →
    Ends T (dispatchHostCall ctx imported.name args) s (A.Back f g i)
  mono : ∀ {f f' k s}, f ≤ f' → A.At f k s → A.At f' k s := by intros; assumption
  mono_fails : ∀ {f f' k e s}, f ≤ f' → A.Fails f k e s → A.Fails f' k e s := by intros; assumption
  zero : T → (∀ k s, ¬A.At 0 k s) ∧ ∀ g i s, ¬A.Call 0 g i s := by rintro ⟨⟩

namespace RunRule

variable {ctx : Context} {γ κ : Type} {A : Assertions γ κ}

/-- What is claimed of calls with some fuel. -/
def Calls (ctx : Context) (T : Prop) (A : Assertions γ κ) (f : ℕ) : Prop :=
  ∀ d g i args s, A.Call f g i s → Ends T (executeFunction ctx f d i args) s (A.Back f g i)

def Blocks (ctx : Context) (T : Prop) (A : Assertions γ κ) (f : ℕ) : Prop :=
  ∀ d k s, A.At f k s → Ends T (executeBlock ctx f d) s (A.Post f k)

/-- A loop hands on all but one unit of its fuel to each turn. -/
def Loops (ctx : Context) (T : Prop) (A : Assertions γ κ) (f : ℕ) : Prop :=
  ∀ d k start s, A.Start k start →
    A.At (f - 1) k (s.1.withReader ⟨s.1.frame.reader.data, start⟩, s.2) →
    Ends T (executeLoop ctx f d start) s (A.Post f k)

variable (h : RunRule ctx T A)
include h

theorem post_succ {f : ℕ} {k : κ} {α : Type} {r : Except InterpError α} {s : Machine × Env}
    (hp : A.Post f k r s) : A.Post (f + 1) k r s := by
  cases r with
  | ok a => exact h.mono (Nat.le_succ f) hp
  | error e => exact h.mono_fails (Nat.le_succ f) hp

theorem leaveBlock {f : ℕ} {k : κ} {e : InterpError} {s : Machine × Env} (hf : A.Fails f k e s) :
    Ends T (leaveBlock e) s (A.Post f k) := by
  cases e with
  | branch depth =>
    refine (ends_onMachine (settles_reading (skipToEnd_settles _))).bind ?_ ?_
    · rintro _ ⟨_, _⟩ ⟨⟨r, ⟨-, hdata, ho⟩ | ⟨_, ⟨⟩, _⟩, rfl⟩, rfl⟩
      obtain ⟨hat, hout⟩ := h.skip f k depth s r hf hdata ho
      split
      · exact ends_pure hat
      · exact ends_throw (hout _)
    · rintro e ⟨_, _⟩ ⟨⟨r, ⟨⟨⟩, _⟩ | ⟨_, ⟨⟩, ht⟩, rfl⟩, rfl⟩
      exact h.trap f k depth s r e hf ht
  | _ => exact ends_throw hf

variable {f : ℕ}

theorem executeFunction_succ (hblock : Blocks ctx T A f) :
    Calls ctx T A (f + 1) := by
  intro d g i args s hcall
  rw [executeFunction]
  split
  · exact ends_throw (h.refuse _ g i s _ hcall (by simp) (by simp))
  split
  next hi =>
    split
    · exact ends_throw (h.refuse _ g i s _ hcall (by simp) (by simp))
    next imported himp => exact h.host _ g i imported args s hcall hi himp
  next hi =>
  split
  · exact ends_throw (h.refuse _ g i s _ hcall (by simp) (by simp))
  next func hfunc =>
  split
  · exact ends_throw (h.refuse _ g i s _ hcall (by simp) (by simp))
  next funcType _ =>
  obtain ⟨k, hat, hok, hfails⟩ := h.body f g i funcType.params args s func hcall hi hfunc
  -- the body's errors end the function, or are handed on
  have hcaught : Ends T (tryCatch (executeBlock ctx f d) leaveFunction)
      (⟨.enter func funcType.params args, s.1⟩, s.2)
      (Outcome (fun _ t => ∀ v, A.Back (f + 1) g i (.ok v) (t.1.store, t.2))
        fun e t => A.Back (f + 1) g i (.error e) (t.1.store, t.2)) := by
    refine (hblock d k _ hat).tryCatch (fun _ t ht v => hok v t ht) fun e t ht => ?_
    obtain ⟨hdone, hfailed⟩ := hfails e t ht
    cases e with
    | functionReturn | branch depth => exact ends_pure hdone
    | _ => exact ends_throw (hfailed (by simp))
  refine ends_within (hcaught.bind ?_ fun _ _ ht => ht)
  intro _ t ht
  refine (ends_onMachine (returnValue_settles funcType.results t.1)).mono ?_
  rintro r ⟨_, _⟩ ⟨⟨⟨v, rfl⟩, rfl⟩, rfl⟩
  exact ht v

theorem executeBlock_succ (hcall : Calls ctx T A f) (hblock : Blocks ctx T A f)
    (hloop : Loops ctx T A f) : Blocks ctx T A (f + 1) := by
  intro d k s hat
  rw [executeBlock]
  refine (look_ends s).bind ?_ ?_
  · rintro _ s ⟨⟨⟩, rfl⟩
    split
    · exact ends_pure hat
    next hrem =>
    refine (h.step f k s hat hrem).bind ?_ fun _ _ hf => hf
    intro action t ht
    refine Ends.mono ?_ fun _ _ => h.post_succ
    have hless : f - 1 ≤ f := Nat.sub_le f 1
    cases action with
    | next => exact hblock d k t (h.mono hless ht)
    | finish => exact ends_pure (h.mono hless ht)
    | enter =>
      exact ((hblock d k t (h.mono hless ht)).tryCatch (fun _ _ hu => hu)
        fun _ _ hf => h.leaveBlock hf).bind (fun _ u hu => hblock d k u hu) fun _ _ hf => hf
    | loop start =>
      obtain ⟨hstart, rfl, ht⟩ := ht
      exact (hloop d k _ t hstart ht).bind (fun _ u hu => hblock d k u hu) fun _ _ hf => hf
    | call i args =>
      obtain ⟨g, hpre, hok, herr⟩ := ht
      have hback : Ends T (calling (executeFunction ctx f (d + 1) i args)) t
          (Outcome (fun _ u => u.1.frame.reader = t.1.frame.reader ∧ ∀ frame : Frame,
            frame.reader = t.1.frame.reader → A.At f k (⟨frame, u.1.store⟩, u.2))
            (A.Fails f k)) := by
        refine ends_within ((hcall (d + 1) g i args _ hpre).mono fun r u hu => ?_)
        cases r with
        | ok v => exact ⟨rfl, fun frame hframe => hok v u frame hu hframe⟩
        | error e => exact herr e u hu
      refine hback.bind ?_ fun _ _ hf => hf
      rintro result u ⟨hreader, hu⟩
      cases result with
      | none => exact hblock d k u (hu u.1.frame hreader)
      | some v =>
        refine (push_ends v u).bind ?_ ?_
        · rintro _ w ⟨-, hr, hs, he⟩
          have hw := hu w.1.frame (hr.trans hreader)
          rw [← hs, ← he] at hw
          exact hblock d k w hw
        · rintro e w ⟨he, -⟩
          cases he
  · rintro e t ⟨he, -⟩
    cases he

theorem executeLoop_succ (hblock : Blocks ctx T A f) (hloop : Loops ctx T A f) :
    Loops ctx T A (f + 1) := by
  intro d k start s hstart hat
  rw [executeLoop]
  refine (seek_ends start s).bind ?_ ?_
  · rintro _ _ ⟨-, rfl⟩
    refine (Ends.tryCatch (hblock d k _ hat) (fun _ _ ht => ht) fun e t hf => ?_).mono
      fun _ _ => h.post_succ
    cases e with
    | branch depth =>
      dsimp only
      split
      · exact hloop d k start t hstart (h.again f k depth start t hf hstart)
      · exact h.leaveBlock hf
    | _ => exact ends_throw hf
  · rintro e t ⟨he, -⟩
    cases he

/-- **Whole runs keep the assertions.** -/
theorem run (f : ℕ) : Calls ctx T A f ∧ Blocks ctx T A f ∧
    Loops ctx T A f := by
  induction f with
  | zero =>
    refine ⟨fun d g i args s hcall => ?_, fun d k s hat => ?_, fun d k start s _ hat => ?_⟩
    · rw [executeFunction]
      exact ends_exhausted fun hT => (h.zero hT).2 g i s hcall
    · rw [executeBlock]
      exact ends_exhausted fun hT => (h.zero hT).1 k s hat
    · rw [executeLoop]
      exact ends_exhausted fun hT => (h.zero hT).1 k _ hat
  | succ f ih =>
    obtain ⟨hcall, hblock, hloop⟩ := ih
    exact ⟨h.executeFunction_succ hblock, h.executeBlock_succ hcall hblock hloop,
      h.executeLoop_succ hblock hloop⟩

end RunRule

/-! ### Regions -/

/-- An invariant of globals, memory and environment, for the functions that may be called by an
instruction in `P`: their instructions are in `P`, and instructions in `P`, charges and host
functions keep it.  `E` is what holds when a charge fails. -/
structure Region (ctx : Context) (P : Instr → Prop) (I : Store → Env → Prop)
    (E : GasError → Env → Prop) : Prop where
  body : ∀ i func, P (.call i) → ¬i < ctx.module.importFuncCount →
    ctx.module.functions[(i - ctx.module.importFuncCount).toNat]? = some func → Clear P func.code 0
  perform : ∀ instr m r m' env, P instr → Performed instr m r m' → I m.store env → I m'.store env
  count : ∀ store env, I store env → I store { env with dispatched := env.dispatched + 1 }
  charge : ∀ cost store env, I store env → Settles (chargeGas cost) env fun r env' =>
    I store env' ∧ ∀ g, r = .error (.gas g) → E g env'
  host : ∀ i imported args store env v memory host, P (.call i) → i < ctx.module.importFuncCount →
    ctx.module.imports[i.toNat]? = some imported → ctx.permissions.permits imported.name = true →
    hostFunction imported.name args store.memory env.host = .ok (v, memory, host) → I store env →
    I { store with memory := memory } { env with host := host }

/-- What a host function can do to memory and host: nothing, write over memory that is there, write
to the storage, or emit an event. -/
inductive HostAnswer (name : String) (memory : Bytes) (host : HostEnvironment) :
    Except InterpError (Option Value × Bytes × HostEnvironment) → Prop where
  | failed {e : InterpError} (he : e.isTrap = true) : HostAnswer name memory host (.error e)
  | answered (v : Option Value) : HostAnswer name memory host (.ok (v, memory, host))
  | copied (hname : name = "get_caller_address" ∨ name = "storage_read") (v : Option Value)
      {addr : ℕ} {bytes : Bytes} (hfits : addr + bytes.length ≤ memory.length) :
      HostAnswer name memory host (.ok (v, copyAt memory addr bytes, host))
  | stored (hname : name = "storage_write") (key : Bytes32) (value : Bytes) :
      HostAnswer name memory host (.ok (none, memory, host.storageWrite key value))
  | emitted (hname : name = "emit_event") (address : Address) (topic : String) (data : Bytes) :
      HostAnswer name memory host (.ok (none, memory, host.emitEvent address topic data))

theorem readStringFromMemory_isTrap {memory : Bytes} {start len : UInt32} {e : InterpError}
    (h : readStringFromMemory memory start len = .error e) : e.isTrap = true := by
  unfold readStringFromMemory at h
  split at h
  · cases h
    rfl
  split at h
  · cases h
  · cases h
    rfl

theorem hostFunction_cases (name : String) (args : List Value) (memory : Bytes)
    (host : HostEnvironment) : HostAnswer name memory host (hostFunction name args memory host) := by
  unfold hostFunction
  split
  case h_5 =>
    split
    · exact .answered _
    · exact .answered _
  case h_8 =>
    -- `get_caller_address` writes the 32 bytes of the address
    dsimp only
    split
    next hlen =>
      refine .copied (.inl rfl) _ ?_
      rw [host.callerAddress.bytes.length_eq]
      omega
    next => exact .answered _
  case h_10 =>
    -- `storage_read` writes the value behind its length
    split
    · exact .answered _
    split
    · exact .answered _
    split
    next hlen =>
      refine .copied (.inr rfl) _ ?_
      rw [List.length_append, toLeBytes32, length_leBytes]
      omega
    · exact .answered _
  case h_11 =>
    split
    · exact .failed rfl
    dsimp only
    split
    · exact .failed rfl
    · exact .stored rfl _ _
  case h_12 =>
    split
    next e he => exact .failed (readStringFromMemory_isTrap he)
    dsimp only
    split
    · exact .failed rfl
    · exact .emitted rfl _ _ _
  all_goals exact .answered _

theorem hostFunction_isTrap {name : String} {args : List Value} {memory : Bytes}
    {host : HostEnvironment} {e : InterpError} (h : hostFunction name args memory host = .error e) :
    e.isTrap = true := by
  have hanswer := hostFunction_cases name args memory host
  rw [h] at hanswer
  cases hanswer with
  | failed he => exact he

theorem runHostFunction_settles {name : String} {args : List Value} {store : Store}
    {Q : Except InterpError (Option Value) → Store × Env → Prop}
    (hok : ∀ v memory host, hostFunction name args store.memory env.host = .ok (v, memory, host) →
      Q (.ok v) ({ store with memory := memory }, { env with host := host }))
    (htrap : ∀ e, e.isTrap = true → Q (.error e) (store, env)) :
    Settles (runHostFunction name args) (store, env) Q := by
  unfold Settles runHostFunction
  dsimp only
  cases hf : hostFunction name args store.memory env.host with
  | error e => exact htrap e (hostFunction_isTrap hf)
  | ok answer => exact hok _ _ _ hf

namespace Region

variable {ctx : Context} {P : Instr → Prop} {I : Store → Env → Prop} {E : GasError → Env → Prop}

def CallPost (I : Store → Env → Prop) (E : GasError → Env → Prop) {α : Type}
    (r : Except InterpError α) (s : Store × Env) : Prop :=
  I s.1 s.2 ∧ ∀ g, r = .error (.gas g) → E g s.2

/-- Between instructions the cursor stands in code that is in `P` from there on. -/
def At (P : Instr → Prop) (I : Store → Env → Prop) (code : Bytes) (s : Machine × Env) : Prop :=
  I s.1.store s.2 ∧ s.1.frame.reader.data = code ∧ Clear P code s.1.frame.reader.pos

/-- Where something fails the cursor is still inside, unless the call ends with it. -/
def Fails (P : Instr → Prop) (I : Store → Env → Prop) (E : GasError → Env → Prop) (code : Bytes)
    (e : InterpError) (s : Machine × Env) : Prop :=
  I s.1.store s.2 ∧ (∀ g, e = .gas g → E g s.2) ∧ ((∃ depth, e = .branch depth) → At P I code s)

/-- The assertions of a region, for calls of functions that may be called. -/
abbrev assertions (P : Instr → Prop) (I : Store → Env → Prop) (E : GasError → Env → Prop) :
    Assertions Unit Bytes :=
  ⟨fun _ _ i s => P (.call i) ∧ I s.1 s.2, fun _ _ _ => CallPost I E, fun _ => At P I, Clear P,
    fun _ => Fails P I E⟩

theorem Fails.of_trap {code : Bytes} {e : InterpError} {s : Machine × Env} (he : e.isTrap = true)
    (hI : I s.1.store s.2) : Fails P I E code e s := by
  refine ⟨hI, fun g hg => ?_, fun hb => ?_⟩
  · subst hg
    cases he
  · obtain ⟨depth, rfl⟩ := hb
    cases he

variable (h : Region ctx P I E)
include h

theorem charged {opcode : UInt8} {store : Store} {env env' : Env} {r : Except InterpError Unit}
    (hc : Charged opcode env r env') (hI : I store env) :
    I store env' ∧ ∀ g, r = .error (.gas g) → E g env' := by
  have hcount := h.count store env hI
  have hcharge := h.charge (opcodeCost opcode) store _ hcount
  cases hc with
  | free hf => exact ⟨hcount, by simp⟩
  | paid hf hc => exact ⟨(hcharge.ok hc).1, by simp⟩
  | short hf hc => exact ⟨(hcharge.error hc).1, fun g' hg => by cases hg; exact (hcharge.error hc).2 _ rfl⟩

theorem step {f : ℕ} {code : Bytes} {s : Machine × Env} (hat : At P I code s) :
    Ends False (dispatch ctx.module) s ((assertions P I E).Stepped f code) := by
  obtain ⟨hI, rfl, hclear⟩ := hat
  refine (dispatch_ends ctx.module s.1 s.2).mono ?_
  rintro r ⟨m', env'⟩ hd
  cases hd with
  | ended hs he => exact .of_trap he (hs ▸ hI)
  | short hop hs hc =>
    obtain ⟨hI', hE⟩ := h.charged hc hI
    exact ⟨hs ▸ hI', fun g hg => hE g (by rw [hg]), by simp⟩
  | garbled hop hc hs he => exact .of_trap he (hs ▸ (h.charged hc hI).1)
  | @performed opcode instr next _ _ _ hop hc hd hp =>
    have hdec : Decodes s.1.frame.reader.data s.1.frame.reader.pos instr next := ⟨opcode, hop, hd⟩
    have hP : P instr := hclear _ _ _ (.refl _) hdec
    have hI' : I m'.store env' := h.perform instr _ r m' env' hP hp (h.charged hc hI).1
    have hnext : Clear P s.1.frame.reader.data next := hclear.onward (.step hdec (.refl _))
    -- unless it traps, the cursor is behind the instruction, or further on
    have hin : (∀ e, r = .error e → e.isTrap = false) → At P I s.1.frame.reader.data (m', env') := by
      intro hr
      obtain ⟨hdata, ho⟩ := hp.onward hr
      exact ⟨hI', hdata, hnext.onward ho⟩
    cases r with
    | error e =>
      refine ⟨hI', fun g hg => ?_, fun hb => hin ?_⟩
      · subst hg
        rcases hp.error _ rfl with ht | ⟨_, hb, _⟩ | ⟨hr, _⟩
        · cases ht
        · cases hb
        · cases hr
      · rintro _ ⟨⟩
        obtain ⟨depth, rfl⟩ := hb
        rfl
    | ok action =>
      have hat := hin (by simp)
      cases action with
      | loop start =>
        have hstart := (hp.loop start rfl).2
        exact ⟨hstart ▸ hat.2.2, hstart, hat⟩
      | call i args =>
        refine ⟨(), ⟨hp.call i args rfl ▸ hP, hI'⟩, fun v u frame hu hr => ⟨hu.1, hr ▸ hat.2⟩,
          fun e u hu => ⟨hu.1, fun g hg => hu.2 g (by rw [hg]), fun _ => ⟨hu.1, hat.2⟩⟩⟩
      | _ => exact hat

theorem dispatchHostCall {i : UInt32} {imported : Import} {args : List Value} {s : Store × Env}
    (hP : P (.call i)) (hi : i < ctx.module.importFuncCount)
    (himp : ctx.module.imports[i.toNat]? = some imported) (hI : I s.1 s.2) :
    Ends False (dispatchHostCall ctx imported.name args) s (CallPost I E) := by
  refine (ends_onEnv (h.charge _ s.1 s.2 hI)).bind ?_ ?_
  · rintro _ ⟨_, env⟩ ⟨rfl, hI', -⟩
    unfold ContractPermissions.checkPermission
    by_cases hp : ctx.permissions.permits imported.name = true
    · rw [if_pos hp]
      refine (runHostFunction_settles (fun v memory host hf => ?_) fun e he => ?_).ends
      · exact ⟨h.host i imported args s.1 env v memory host hP hi himp hp hf hI', by simp⟩
      · refine ⟨hI', fun g hg => ?_⟩
        cases hg
        cases he
    · rw [if_neg hp]
      exact ends_throw ⟨hI', by simp⟩
  · rintro e ⟨_, env⟩ ⟨rfl, hI', hE⟩
    exact ⟨hI', fun g hg => hE g (by cases hg; rfl)⟩

theorem runRule : RunRule ctx False (assertions P I E) where
  step _ _ _ hat _ := h.step hat
  again _ code depth start s hf hstart := ⟨hf.1, (hf.2.2 ⟨depth, rfl⟩).2.1, hstart⟩
  skip _ code depth s r hf hdata ho := by
    obtain ⟨hI, rfl, hclear⟩ := hf.2.2 ⟨depth, rfl⟩
    have hat : At P I s.1.frame.reader.data (s.1.withReader r, s.2) := ⟨hI, hdata, hclear.onward ho⟩
    exact ⟨hat, fun _ => ⟨hI, by simp, fun _ => hat⟩⟩
  trap _ code depth s r e hf he := .of_trap he hf.1
  body _ _ i params args s func hcall hi hfunc :=
    ⟨func.code, ⟨hcall.2, rfl, h.body i func hcall.1 hi hfunc⟩, fun _ _ hat => ⟨hat.1, by simp⟩,
      fun _ _ hf => ⟨fun _ => ⟨hf.1, by simp⟩,
        fun _ => ⟨hf.1, fun g hg => hf.2.1 g (Except.error.inj hg)⟩⟩⟩
  refuse _ _ i s e hcall _ hg := ⟨hcall.2, fun g he => absurd (Except.error.inj he) (hg g)⟩
  host _ _ i imported args s hcall hi himp := h.dispatchHostCall hcall.1 hi himp hcall.2

/-- **Calls keep the invariant.** -/
theorem run {fuel d : ℕ} {i : UInt32} {args : List Value} {s s' : Store × Env}
    {r : Except InterpError (Option Value)} (hP : P (.call i)) (hI : I s.1 s.2)
    (hr : executeFunction ctx fuel d i args s = some (r, s')) : CallPost I E r s' :=
  ((h.runRule.run fuel).1 d () i args s ⟨hP, hI⟩).of_eq hr

end Region

end Gratia
