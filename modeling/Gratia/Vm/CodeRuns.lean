import Gratia.Vm.GasBound
import Gratia.Vm.Structured

/-!
# Vm — Code runs

What well-nested code does, and that the interpreter does the same on its bytes.  `Code.run`
recurses over the tree: a branch leaves the block it is in, and the block it is aimed at goes on
behind its end.
-/

namespace Gratia

open Support Reader

def Machine.withStack (m : Machine) (stack : List Value) : Machine :=
  { m with frame := { m.frame with stack := stack } }

/-! ### Instructions that stand alone -/

/-- The same end, with the cursor elsewhere. -/
def endingAt {α : Type} (r : Reader) :
    EStateM.Result InterpError Machine α → EStateM.Result InterpError Machine α
  | .ok a m => .ok a (m.withReader r)
  | .error e m => .error e (m.withReader r)

/-- A step that neither reads nor moves the cursor. -/
def Unread {α : Type} (x : Step α) : Prop := ∀ m r, x (m.withReader r) = endingAt r (x m)

namespace Unread

variable {α β : Type} {x : Step α} {f : α → Step β}

protected theorem pure (a : α) : Unread (pure a) := fun _ _ => rfl

theorem throw (e : InterpError) : Unread (throw e : Step α) := fun _ _ => rfl

protected theorem bind (hx : Unread x) (hf : ∀ a, Unread (f a)) : Unread (x >>= f) := by
  intro m r
  change EStateM.bind x f _ = endingAt r (EStateM.bind x f m)
  unfold EStateM.bind
  rw [hx m r]
  cases x m with
  | ok a m₁ => exact hf a m₁ r
  | error e m₁ => rfl

theorem get {f : Machine → Step β} (hread : ∀ m r, f (m.withReader r) = f m)
    (hf : ∀ m, Unread (f m)) : Unread (get >>= f) := by
  intro m r
  change f (m.withReader r) (m.withReader r) = endingAt r (f m m)
  rw [hread]
  exact hf m m r

theorem stacking (x : StackM α) : Unread (stacking x) := by
  intro m r
  unfold Gratia.stacking
  dsimp only [Machine.withReader]
  cases x m.frame.stack with
  | ok a stack | error e stack => rfl

theorem orThrow (res : Except InterpError α) : Unread (orThrow res) := by
  cases res with
  | ok a => exact .pure a
  | error e => exact throw e

theorem setMemory (memory : Bytes) : Unread (setMemory memory) := fun _ _ => rfl

theorem setLocal (idx : UInt32) (v : Value) : Unread (setLocal idx v) := by
  intro m r
  change (if idx.toNat ≥ m.frame.locals.length then _ else _ : Step Unit) _ =
    endingAt r ((if idx.toNat ≥ m.frame.locals.length then _ else _ : Step Unit) m)
  split
  · rfl
  · rfl

theorem setGlobal (idx : UInt32) (v : Value) : Unread (setGlobal idx v) := by
  intro m r
  change (if idx.toNat ≥ m.store.globals.length then _ else _ : Step Unit) _ =
    endingAt r ((if idx.toNat ≥ m.store.globals.length then _ else _ : Step Unit) m)
  split
  · rfl
  · rfl

theorem performLoad (op : LoadOp) (offset : UInt32) : Unread (performLoad op offset) :=
  (stacking _).bind fun _ => (orThrow _).bind fun _ => get (fun _ _ => rfl) fun _ =>
    (orThrow _).bind fun _ => stacking _

theorem performStore (op : StoreOp) (offset : UInt32) : Unread (performStore op offset) :=
  (stacking _).bind fun _ => (stacking _).bind fun _ => (orThrow _).bind fun _ =>
    get (fun _ _ => rfl) fun _ => (orThrow _).bind fun _ => setMemory _

theorem performGrow : Unread performGrow := by
  refine (stacking _).bind fun delta => get (fun _ _ => rfl) fun m => ?_
  dsimp only
  split
  · exact stacking _
  split
  · exact stacking _
  · exact (setMemory _).bind fun _ => stacking _

protected theorem perform (module : WasmModule) {instr : Instr} (hi : instr.isSimple = true) :
    Unread (perform module instr) := by
  cases instr with
  | block | loop | «if» | «else» | «end» => cases hi
  | unreachable | br depth | «return» => exact throw _
  | nop => exact .pure _
  | brIf depth =>
    refine (stacking _).bind fun condition => ?_
    split
    · exact throw _
    · exact .pure _
  | call funcIdx =>
    rw [Gratia.perform]
    split
    · exact throw _
    · exact (stacking _).bind fun _ => .pure _
  | plain opcode =>
    rw [Gratia.perform]
    split
    · exact (stacking _).bind fun _ => .pure _
    · exact throw _
  | localGet idx | globalGet idx =>
    refine get (fun _ _ => rfl) fun m => ?_
    split
    · exact throw _
    · exact (stacking _).bind fun _ => .pure _
  | localTee idx =>
    refine get (fun _ _ => rfl) fun m => ?_
    split
    · exact throw _
    · exact (setLocal _ _).bind fun _ => .pure _
  | localSet idx => exact (stacking _).bind fun _ => (setLocal _ _).bind fun _ => .pure _
  | globalSet idx => exact (stacking _).bind fun _ => (setGlobal _ _).bind fun _ => .pure _
  | load op offset => exact (performLoad op offset).bind fun _ => .pure _
  | store op offset => exact (performStore op offset).bind fun _ => .pure _
  | memorySize => exact get (fun _ _ => rfl) fun _ => (stacking _).bind fun _ => .pure _
  | memoryGrow => exact performGrow.bind fun _ => .pure _
  | drop | const v => exact (stacking _).bind fun _ => .pure _

end Unread

/-! ### What code does -/

namespace Code

/-- What a block does with an error of its body: it goes on behind its end after a branch to it, and
hands a branch to an outer block on. -/
def leave : InterpError → BlockM Unit
  | .branch depth => if depth = 0 then return () else throw (.branch (depth - 1))
  | e => throw e

mutual

/-- Code that ends with `closer`, which is counted and charged for as well. -/
def run (ctx : Context) : ℕ → ℕ → Instr → Code → BlockM Unit
  | 0, _, _, _ => .exhausted
  | _ + 1, _, closer, nil => chargeInstruction closer.opcode
  | fuel + 1, callDepth, closer, op instr _ rest => do
    chargeInstruction instr.opcode
    match ← onMachine (perform ctx.module instr) with
    | .call funcIdx args => do
      match ← calling (executeFunction ctx fuel (callDepth + 1) funcIdx args) with
      | none => run ctx fuel callDepth closer rest
      | some v => do
        onMachine (stacking (push v))
        run ctx fuel callDepth closer rest
    | _ => run ctx fuel callDepth closer rest
  | fuel + 1, callDepth, closer, block body rest => do
    chargeInstruction Instr.block.opcode
    tryCatch (run ctx fuel callDepth .end body) leave
    run ctx fuel callDepth closer rest
  | fuel + 1, callDepth, closer, loop body rest => do
    chargeInstruction Instr.loop.opcode
    runLoop ctx fuel callDepth body
    run ctx fuel callDepth closer rest
  | fuel + 1, callDepth, closer, ifThen body rest => do
    chargeInstruction Instr.if.opcode
    let condition ← onMachine (stacking popI32)
    if condition ≠ 0 then do
      tryCatch (run ctx fuel callDepth .end body) leave
      run ctx fuel callDepth closer rest
    else run ctx fuel callDepth closer rest
  | fuel + 1, callDepth, closer, ifElse thenBody elseBody rest => do
    chargeInstruction Instr.if.opcode
    let condition ← onMachine (stacking popI32)
    if condition ≠ 0 then do
      tryCatch (run ctx fuel callDepth .else thenBody) leave
      run ctx fuel callDepth closer rest
    else do
      tryCatch (run ctx fuel callDepth .end elseBody) leave
      run ctx fuel callDepth closer rest

/-- The body of a loop, again after each branch to it. -/
def runLoop (ctx : Context) : ℕ → ℕ → Code → BlockM Unit
  | 0, _, _ => .exhausted
  | fuel + 1, callDepth, body =>
    tryCatch (run ctx fuel callDepth .end body) fun
      | .branch depth =>
        if depth = 0 then runLoop ctx fuel callDepth body else leave (.branch depth)
      | e => throw e

end

end Code

/-! ### The interpreter on the bytes of code -/

variable {α : Type} {m : Machine} {env : Env}

variable {err : InterpError}

theorem onMachine_of_error {x : Step α} {m' : Machine} (h : x m = .error err m') :
    onMachine x (m, env) = some (.error err, m', env) := by
  simp only [onMachine, Exec.within, Exec.lift_of_error h, Option.map_some]

theorem onEnv_of_ok {σ : Type} {x : EStateM InterpError Env α} {s : σ} {env' : Env} {a : α}
    (h : x env = .ok a env') : onEnv x (s, env) = some (.ok a, s, env') := by
  simp only [onEnv, Exec.within, Exec.lift_of_ok h, Option.map_some]

theorem onEnv_of_error {σ : Type} {x : EStateM InterpError Env α} {s : σ} {env' : Env}
    (h : x env = .error err env') : onEnv x (s, env) = some (.error err, s, env') := by
  simp only [onEnv, Exec.within, Exec.lift_of_error h, Option.map_some]

theorem chargeInstruction_eq (opcode : UInt8) (env : Env) :
    ∃ res env', (∀ m : Machine, chargeInstruction opcode (m, env) = some (res, m, env')) ∧
      (res = .ok () ∨ ∃ g, res = .error (.gas g)) := by
  have hcount : ∀ m : Machine, onEnv countInstruction (m, env) =
      some (.ok (), m, { env with dispatched := env.dispatched + 1 }) := fun _ => rfl
  cases hf : isFree opcode with
  | true =>
    refine ⟨.ok (), { env with dispatched := env.dispatched + 1 }, fun m => ?_, .inl rfl⟩
    rw [chargeInstruction, hf]
    exact Exec.bind_of_ok (hcount m)
  | false =>
    rcases chargeGas_eq (opcodeCost opcode) { env with dispatched := env.dispatched + 1 } with
      ⟨env', hc⟩ | ⟨g, env', hc⟩
    · refine ⟨.ok (), env', fun m => ?_, .inl rfl⟩
      rw [chargeInstruction, hf]
      exact (Exec.bind_of_ok (hcount m)).trans (onEnv_of_ok hc)
    · refine ⟨.error (.gas g), env', fun m => ?_, .inr ⟨g, rfl⟩⟩
      rw [chargeInstruction, hf]
      exact (Exec.bind_of_ok (hcount m)).trans (onEnv_of_error hc)

variable {ctx : Context} {code : Bytes} {r₀ : Reader} {e fin : ℕ}

/-- Two states that agree apart from the cursor, which stands at `r₀` in the second. -/
def Abreast (r₀ : Reader) (s t : Machine × Env) : Prop := t = (s.1.withReader r₀, s.2)

/-- How a block of code up to `e` ends: in states that agree; behind the closer if it just ends, and
with well-nested code ahead if a branch leaves it. -/
structure Ended (code : Bytes) (r₀ : Reader) (e fin : ℕ) {α : Type} (res : Except InterpError α)
    (s t : Machine × Env) : Prop where
  abreast : Abreast r₀ s t
  done : ∀ a, res = .ok a → s.1.frame.reader = ⟨code, fin⟩
  inside : ∀ depth, res = .error (.branch depth) →
    ∃ q c, s.1.frame.reader = ⟨code, q⟩ ∧ Lies code q (Code.instrs c) e

/-- How a nested block ends: behind its end, also if a branch to an outer block leaves it. -/
structure Left (code : Bytes) (r₀ : Reader) (fin : ℕ) {α : Type} (res : Except InterpError α)
    (s t : Machine × Env) : Prop where
  abreast : Abreast r₀ s t
  done : ∀ a, res = .ok a → s.1.frame.reader = ⟨code, fin⟩
  branch : ∀ depth, res = .error (.branch depth) → s.1.frame.reader = ⟨code, fin⟩

variable {s t : Machine × Env}

theorem Left.ended {β : Type} {q : ℕ} {c : Code}
    (h : Left code r₀ q (.error err : Except InterpError α) s t) (hc : Lies code q c.instrs e) :
    Ended code r₀ e fin (.error err : Except InterpError β) s t where
  abreast := h.abreast
  done := by simp
  inside depth hr := ⟨q, c, h.branch depth (by cases hr; rfl), hc⟩

theorem Ended.of_trap (hst : Abreast r₀ s t) (hb : ∀ depth, err ≠ .branch depth) :
    Ended code r₀ e fin (.error err : Except InterpError α) s t where
  abreast := hst
  done := by simp
  inside depth hr := by
    cases hr
    exact absurd rfl (hb depth)

theorem leaveBlock_alongside {closer : Instr} (hc : Closes code e fin closer)
    (h : Ended code r₀ e fin (.error err : Except InterpError Unit) s t) :
    Alongside (leaveBlock err) s (Code.leave err) t (Left code r₀ fin) := by
  obtain ⟨m, env⟩ := s
  obtain rfl : t = (m.withReader r₀, env) := h.abreast
  cases err with
  | branch depth =>
    obtain ⟨q, c, hr, hl⟩ := h.inside depth rfl
    have hskip : skipToEnd m.frame.reader = .ok () ⟨code, fin⟩ := by
      rw [hr]
      exact skipToEnd_closes hl hc
    refine Alongside.after (onMachine_of_ok (reading_of_ok hskip)) ?_
    by_cases hz : depth = 0
    · simp only [Code.leave, if_pos hz]
      exact alongside_of_eq rfl rfl ⟨rfl, fun _ _ => rfl, by simp⟩
    · simp only [Code.leave, if_neg hz]
      exact alongside_of_eq rfl rfl ⟨rfl, by simp, fun _ _ => rfl⟩
  | _ => exact alongside_of_eq rfl rfl ⟨rfl, by simp, by simp⟩

theorem nested_alongside {closer : Instr} (hc : Closes code e fin closer) {x y : BlockM Unit}
    (h : Alongside x s y t (Ended code r₀ e fin)) :
    Alongside (tryCatch x leaveBlock) s (tryCatch y Code.leave) t (Left code r₀ fin) :=
  h.tryCatch (fun _ _ _ h => ⟨h.abreast, h.done, by simp⟩) fun _ _ _ h => leaveBlock_alongside hc h

/-- Blocks of code do the same as trees, with this much fuel. -/
def BlocksAgree (ctx : Context) (fuel : ℕ) : Prop :=
  ∀ (callDepth : ℕ) (closer : Instr) (c : Code) (code : Bytes) (r₀ : Reader) (p e fin : ℕ)
    (s : Machine × Env), Lies code p c.instrs e → Closes code e fin closer →
    s.1.frame.reader = ⟨code, p⟩ →
    Alongside (executeBlock ctx fuel callDepth) s (c.run ctx fuel callDepth closer)
      (s.1.withReader r₀, s.2) (Ended code r₀ e fin)

/-- Loops do the same as trees, with this much fuel. -/
def LoopsAgree (ctx : Context) (fuel : ℕ) : Prop :=
  ∀ (callDepth : ℕ) (body : Code) (code : Bytes) (r₀ : Reader) (start e fin : ℕ)
    (s : Machine × Env), Lies code start body.instrs e → Decodes code e .end fin →
    s.1.frame.reader.data = code →
    Alongside (executeLoop ctx fuel callDepth start) s (body.runLoop ctx fuel callDepth)
      (s.1.withReader r₀, s.2) (Left code r₀ fin)

def proceed (ctx : Context) (fuel callDepth : ℕ) : Action → BlockM Unit
  | .next => executeBlock ctx fuel callDepth
  | .finish => return ()
  | .enter => do
    tryCatch (executeBlock ctx fuel callDepth) leaveBlock
    executeBlock ctx fuel callDepth
  | .loop start => do
    executeLoop ctx fuel callDepth start
    executeBlock ctx fuel callDepth
  | .call funcIdx args => do
    let result ← calling (executeFunction ctx fuel (callDepth + 1) funcIdx args)
    match result with
    | none => executeBlock ctx fuel callDepth
    | some v => do
      onMachine (stacking (push v))
      executeBlock ctx fuel callDepth

variable {fuel : ℕ}

theorem executeBlock_of_decodes {callDepth p q : ℕ} {instr : Instr} (hd : Decodes code p instr q)
    (hr : m.frame.reader = ⟨code, p⟩) (env : Env) :
    executeBlock ctx (fuel + 1) callDepth (m, env) =
      (dispatch ctx.module >>= proceed ctx fuel callDepth) (m, env) := by
  have hne : ¬m.frame.reader.remaining = 0 := by
    rw [hr]
    exact Nat.sub_ne_zero_of_lt hd.read.1
  have hlook : onMachine (reading get) (m, env) = some (.ok m.frame.reader, m, env) := rfl
  rw [executeBlock]
  refine (Exec.bind_of_ok hlook).trans ?_
  rw [if_neg hne]
  refine Exec.bind_congr_right ?_
  rintro (_ | _ | _ | _ | _) <;> rfl

section Steps

variable {fuel callDepth p q q₁ q₂ : ℕ} {m : Machine} {env : Env} {closer : Instr}

/-- The instruction at the cursor: on both sides the charge, then the rest. -/
theorem step_alongside {instr : Instr} (hd : Decodes code p instr q)
    (hr : m.frame.reader = ⟨code, p⟩) {y : BlockM Unit}
    (hgo : ∀ env', Alongside (onMachine (perform ctx.module instr) >>= proceed ctx fuel callDepth)
      (m.withReader ⟨code, q⟩, env') y (m.withReader r₀, env') (Ended code r₀ e fin)) :
    Alongside (executeBlock ctx (fuel + 1) callDepth) (m, env)
      (chargeInstruction instr.opcode >>= fun _ => y) (m.withReader r₀, env)
      (Ended code r₀ e fin) := by
  refine .of_eq (executeBlock_of_decodes hd hr env) rfl ?_
  obtain ⟨opcode, hop, hdec⟩ := hd
  obtain rfl := opcode_of_decode hdec
  obtain ⟨res, env', hcharge, hres⟩ := chargeInstruction_eq instr.opcode env
  rcases hres with rfl | ⟨g, rfl⟩
  · have hdisp := dispatch_eq ctx.module (m := m) (by rw [hr]; exact hop)
      (hcharge (m.withReader (m.frame.reader.advance 1))) (by rw [hr]; exact hdec)
    rw [hr] at hdisp
    exact .of_eq (Exec.bind_congr hdisp) (Exec.bind_of_ok (hcharge _)) (hgo env')
  · have hread : readByte m.frame.reader = .ok instr.opcode (m.frame.reader.advance 1) := by
      rw [hr, readByte, hop]
    have hdisp : dispatch ctx.module (m, env) =
        some (.error (.gas g), m.withReader (m.frame.reader.advance 1), env') :=
      (Exec.bind_of_ok (onMachine_of_ok (reading_of_ok hread))).trans
        (Exec.bind_of_error (hcharge _))
    exact alongside_of_eq (Exec.bind_of_error hdisp) (Exec.bind_of_error (hcharge _))
      (.of_trap rfl (by simp))

theorem closer_alongside (hc : Closes code p fin closer) (hr : m.frame.reader = ⟨code, p⟩) :
    Alongside (executeBlock ctx (fuel + 1) callDepth) (m, env)
      (Code.run ctx (fuel + 1) callDepth closer .nil) (m.withReader r₀, env)
      (Ended code r₀ p fin) := by
  rw [Code.run, ← Exec.bind_unit (chargeInstruction _)]
  cases hc with
  | «end» hend =>
    refine step_alongside hend hr fun env' => ?_
    exact alongside_of_eq rfl rfl ⟨rfl, fun _ _ => rfl, by simp⟩
  | @«else» q₁ q₂ c helse hc hend =>
    refine step_alongside helse hr fun env' => ?_
    have hskip : skipToEnd (m.withReader ⟨code, q₁⟩).frame.reader = .ok () ⟨code, fin⟩ :=
      skipToEnd_closes hc (.end hend)
    have hperf : perform ctx.module .else (m.withReader ⟨code, q₁⟩) =
        .ok .finish (m.withReader ⟨code, fin⟩) :=
      bind_of_ok (reading_of_ok hskip)
    exact .after (onMachine_of_ok hperf) (alongside_of_eq rfl rfl ⟨rfl, fun _ _ => rfl, by simp⟩)

variable {stack : List Value}

theorem stacking_of_ok {α : Type} {x : StackM α} {a : α} (h : x m.frame.stack = .ok a stack) :
    stacking x m = .ok a (m.withStack stack) := by
  rw [stacking, h]
  rfl

theorem stacking_of_error {α : Type} {x : StackM α} {err : InterpError}
    (h : x m.frame.stack = .error err stack) : stacking x m = .error err (m.withStack stack) := by
  rw [stacking, h]
  rfl

theorem perform_if_of_ne (module : WasmModule) {condition : Int32}
    (hpop : popI32 m.frame.stack = .ok condition stack) (hne : condition ≠ 0) :
    perform module .if m = .ok .enter (m.withStack stack) := by
  have hstack : (stacking popI32).run m = .ok condition (m.withStack stack) := stacking_of_ok hpop
  refine (bind_of_ok hstack).trans ?_
  rw [if_pos hne]
  rfl

variable {body rest : Code} {instr : Instr}

/-- One whose condition does not hold goes behind its first part, and is entered there if that is
the `else`. -/
theorem perform_if_of_eq (module : WasmModule) (hpop : popI32 m.frame.stack = .ok 0 stack)
    (hr : m.frame.reader = ⟨code, q⟩) (hb : Lies code q body.instrs q₁)
    (hd : Decodes code q₁ instr q₂) (hi : instr = .end ∨ instr = .else) :
    perform module .if m = .ok (if instr = .else then .enter else .next)
      ((m.withStack stack).withReader ⟨code, q₂⟩) := by
  have hskip : skipToElseOrEnd m.frame.reader = .ok () ⟨code, q₂⟩ := by
    rw [hr]
    exact skipToElseOrEnd_stops hb hd hi
  obtain ⟨hop, rfl⟩ := hd.closer hi.symm
  have hstack : (stacking popI32).run m = .ok 0 (m.withStack stack) := stacking_of_ok hpop
  have hread : (reading skipToElseOrEnd).run (m.withStack stack) =
      .ok () ((m.withStack stack).withReader ⟨code, q₁ + 1⟩) := reading_of_ok hskip
  refine (bind_of_ok hstack).trans ?_
  rw [if_neg (by simp)]
  refine (bind_of_ok hread).trans ?_
  change (if (decide (q₁ + 1 > 0) && code[q₁ + 1 - 1]? == some 0x05) = true then pure Action.enter
    else pure Action.next : Step Action) _ = _
  rw [Nat.add_sub_cancel, hop]
  rcases hi with rfl | rfl
  · rfl
  · rfl

/-- A conditional on both sides: what is left to show is each of the two ways it goes. -/
theorem if_alongside (hd : Decodes code p .if q) (hr : m.frame.reader = ⟨code, p⟩)
    (hb : Lies code q body.instrs q₁) (hpart : Decodes code q₁ instr q₂)
    (hi : instr = .end ∨ instr = .else) {y z : BlockM Unit}
    (hthen : ∀ s : Machine × Env, s.1.frame.reader = ⟨code, q⟩ →
      Alongside (proceed ctx fuel callDepth .enter) s y (s.1.withReader r₀, s.2)
        (Ended code r₀ e fin))
    (helse : ∀ s : Machine × Env, s.1.frame.reader = ⟨code, q₂⟩ →
      Alongside (proceed ctx fuel callDepth (if instr = .else then .enter else .next)) s z
        (s.1.withReader r₀, s.2) (Ended code r₀ e fin)) :
    Alongside (executeBlock ctx (fuel + 1) callDepth) (m, env)
      (chargeInstruction Instr.if.opcode >>= fun _ => onMachine (stacking popI32) >>=
        fun condition => if condition ≠ 0 then y else z)
      (m.withReader r₀, env) (Ended code r₀ e fin) := by
  refine step_alongside hd hr fun env' => ?_
  cases hpop : popI32 m.frame.stack with
  | ok condition stack =>
    have hright : stacking popI32 (m.withReader r₀) = .ok condition
        ((m.withStack stack).withReader r₀) :=
      stacking_of_ok hpop
    refine .of_eq rfl (Exec.bind_of_ok (onMachine_of_ok hright)) ?_
    by_cases hz : condition = 0
    · subst hz
      rw [if_neg (by simp)]
      exact .after (onMachine_of_ok (perform_if_of_eq _ hpop rfl hb hpart hi)) (helse (_, env') rfl)
    · rw [if_pos hz]
      exact .after (onMachine_of_ok (perform_if_of_ne _ hpop hz)) (hthen (_, env') rfl)
  | error err stack =>
    have hleft : perform ctx.module .if (m.withReader ⟨code, q⟩) = .error err
        ((m.withStack stack).withReader ⟨code, q⟩) :=
      bind_of_error (stacking_of_error hpop)
    have hright : stacking popI32 (m.withReader r₀) = .error err
        ((m.withStack stack).withReader r₀) :=
      stacking_of_error hpop
    refine alongside_of_eq (Exec.bind_of_error (onMachine_of_error hleft))
      (Exec.bind_of_error (onMachine_of_error hright)) (.of_trap rfl ?_)
    rintro depth rfl
    cases (Operand.popI32 m.frame.stack).error hpop _ rfl

-- what comes behind the instruction, the nested block or the call is `rest`
variable (hblocks : BlocksAgree ctx fuel) (hl : Lies code q₂ rest.instrs e)
  (hc : Closes code e fin closer)
include hblocks hl hc

theorem rest_alongside {x y : BlockM Unit} {s t : Machine × Env}
    (h : Alongside x s y t (Left code r₀ q₂)) :
    Alongside (x >>= fun _ => executeBlock ctx fuel callDepth) s
      (y >>= fun _ => rest.run ctx fuel callDepth closer) t (Ended code r₀ e fin) := by
  refine h.bind ?_ fun err s t h => h.ended hl
  rintro _ ⟨m₂, env₂⟩ t h
  obtain rfl : t = (m₂.withReader r₀, env₂) := h.abreast
  exact hblocks callDepth closer rest code r₀ q₂ e fin _ hl hc (h.done () rfl)

theorem part_alongside {part : Instr} (hb : Lies code q body.instrs q₁)
    (hpart : Closes code q₁ q₂ part) {s : Machine × Env} (hr : s.1.frame.reader = ⟨code, q⟩) :
    Alongside (proceed ctx fuel callDepth .enter) s
      (tryCatch (body.run ctx fuel callDepth part) Code.leave >>= fun _ =>
        rest.run ctx fuel callDepth closer) (s.1.withReader r₀, s.2) (Ended code r₀ e fin) :=
  rest_alongside hblocks hl hc
    (nested_alongside hpart (hblocks callDepth part body code r₀ q q₁ q₂ s hb hpart hr))

/-- An instruction that stands alone, then the rest. -/
theorem op_alongside (hr : m.frame.reader = ⟨code, p⟩) (hi : instr.isSimple = true) (hd : Decodes code p instr q₂) :
    Alongside (executeBlock ctx (fuel + 1) callDepth) (m, env)
      (Code.run ctx (fuel + 1) callDepth closer (.op instr hi rest)) (m.withReader r₀, env)
      (Ended code r₀ e fin) := by
  rw [Code.run]
  refine step_alongside hd hr fun env' => ?_
  have hleft := Unread.perform ctx.module hi m ⟨code, q₂⟩
  have hright := Unread.perform ctx.module hi m r₀
  cases hp : perform ctx.module instr m with
  | error err m₁ =>
    rw [hp] at hleft hright
    refine alongside_of_eq (Exec.bind_of_error (onMachine_of_error hleft))
      (Exec.bind_of_error (onMachine_of_error hright)) ⟨rfl, by simp, fun depth _ => ?_⟩
    exact ⟨q₂, rest, rfl, hl⟩
  | ok action m₁ =>
    rw [hp] at hleft hright
    refine .of_eq (Exec.bind_of_ok (onMachine_of_ok hleft))
      (Exec.bind_of_ok (onMachine_of_ok hright)) ?_
    have hgo s := hblocks callDepth closer rest code r₀ q₂ e fin s hl hc
    have ha := ((perform_settles ctx.module instr m).ok hp).asks action rfl
    cases action with
    | next => exact hgo (m₁.withReader ⟨code, q₂⟩, env') rfl
    | finish | enter => rcases ha with rfl | rfl <;> cases hi
    | loop start => obtain ⟨rfl, -⟩ := ha; cases hi
    | call funcIdx args =>
      -- both sides make the same call, from the same globals, memory and environment
      have hcall : Alongside (calling (executeFunction ctx fuel (callDepth + 1) funcIdx args))
          (m₁.withReader ⟨code, q₂⟩, env')
          (calling (executeFunction ctx fuel (callDepth + 1) funcIdx args))
          (m₁.withReader r₀, env') (Left code r₀ q₂) :=
        alongside_within rfl fun _ _ => ⟨rfl, fun _ _ => rfl, fun _ _ => rfl⟩
      refine hcall.bind ?_ fun err s t h => h.ended hl
      rintro result ⟨m₂, env₂⟩ t h
      obtain rfl : t = (m₂.withReader r₀, env₂) := h.abreast
      have hr₂ : m₂.frame.reader = ⟨code, q₂⟩ := h.done result rfl
      cases result with
      | none => exact hgo _ hr₂
      | some v =>
        refine .of_eq (Exec.bind_of_ok (onMachine_of_ok rfl))
          (Exec.bind_of_ok (onMachine_of_ok rfl)) ?_
        exact hgo (_, env₂) hr₂

end Steps

theorem blocksAgree_succ (hblocks : BlocksAgree ctx fuel) (hloops : LoopsAgree ctx fuel) :
    BlocksAgree ctx (fuel + 1) := by
  rintro callDepth closer c code r₀ p e fin ⟨m, env⟩ hl hc hr
  cases c with
  | nil =>
    cases hl
    exact closer_alongside hc hr
  | op instr hi rest =>
    obtain ⟨q, hd, hl⟩ := lies_cons hl
    exact op_alongside hblocks hl hc hr hi hd
  | block body rest =>
    obtain ⟨q, q₁, q₂, hd, hb, hend, hl⟩ := lies_nested hl
    rw [Code.run]
    refine step_alongside hd hr fun env' => .after (onMachine_of_ok rfl) ?_
    exact part_alongside hblocks hl hc hb (.end hend) (s := (m.withReader ⟨code, q⟩, env')) rfl
  | loop body rest =>
    obtain ⟨q, q₁, q₂, hd, hb, hend, hl⟩ := lies_nested hl
    rw [Code.run]
    have hperf : perform ctx.module .loop (m.withReader ⟨code, q⟩) =
        .ok (.loop q) (m.withReader ⟨code, q⟩) := rfl
    refine step_alongside hd hr fun env' => .after (onMachine_of_ok hperf) ?_
    exact rest_alongside hblocks hl hc
      (hloops callDepth body code r₀ q q₁ q₂ (m.withReader ⟨code, q⟩, env') hb hend rfl)
  | ifThen body rest =>
    obtain ⟨q, q₁, q₂, hd, hb, hend, hl⟩ := lies_nested hl
    rw [Code.run]
    exact if_alongside hd hr hb hend (.inl rfl)
      (fun s hs => part_alongside hblocks hl hc hb (.end hend) hs)
      fun s hs => hblocks callDepth closer rest code r₀ q₂ e fin s hl hc hs
  | ifElse thenBody elseBody rest =>
    obtain ⟨q, q₁, q₂, hd, ha, helse, hl⟩ := lies_nested hl
    obtain ⟨q₃, hb, hl⟩ := lies_append hl
    obtain ⟨q₄, hend, hl⟩ := lies_cons hl
    rw [Code.run]
    exact if_alongside hd hr ha helse (.inr rfl)
      (fun s hs => part_alongside hblocks hl hc ha (.else helse hb hend) hs)
      fun s hs => part_alongside hblocks hl hc hb (.end hend) hs

theorem loopsAgree_succ (hblocks : BlocksAgree ctx fuel) (hloops : LoopsAgree ctx fuel) :
    LoopsAgree ctx (fuel + 1) := by
  rintro callDepth body code r₀ start e fin ⟨m, env⟩ hl hend hdata
  rw [executeLoop, Code.runLoop]
  have hseek : onMachine (reading (modify fun r => { r with pos := start })) (m, env) =
      some (.ok ⟨⟩, m.withReader ⟨m.frame.reader.data, start⟩, env) := rfl
  refine .after hseek ?_
  have hbody := hblocks callDepth .end body code r₀ start e fin
    (m.withReader ⟨m.frame.reader.data, start⟩, env) hl (.end hend)
    (congrArg (Reader.mk · start) hdata)
  refine hbody.tryCatch (fun _ _ _ h => ⟨h.abreast, h.done, by simp⟩) ?_
  intro err s t h
  cases err with
  | branch depth =>
    by_cases hz : depth = 0
    · simp only [if_pos hz]
      obtain ⟨m₂, env₂⟩ := s
      obtain rfl : t = (m₂.withReader r₀, env₂) := h.abreast
      obtain ⟨q, c, hr, -⟩ := h.inside depth rfl
      exact hloops callDepth body code r₀ start e fin (m₂, env₂) hl hend (congrArg Reader.data hr)
    · simp only [if_neg hz]
      exact leaveBlock_alongside (.end hend) h
  | _ => exact alongside_of_eq rfl rfl ⟨h.abreast, by simp, by simp⟩

/-- **The interpreter on the bytes of well-nested code does what the tree does.** -/
theorem blocksAgree (ctx : Context) (fuel : ℕ) : BlocksAgree ctx fuel ∧ LoopsAgree ctx fuel := by
  induction fuel with
  | zero =>
    refine ⟨?_, ?_⟩
    · intro callDepth closer c code r₀ p e fin s _ _ _
      rw [executeBlock, Code.run]
      exact alongside_exhausted
    · intro callDepth body code r₀ start e fin s _ _ _
      rw [executeLoop, Code.runLoop]
      exact alongside_exhausted
  | succ fuel ih => exact ⟨blocksAgree_succ ih.1 ih.2, loopsAgree_succ ih.1 ih.2⟩

/-! ### The whole body -/

def Machine.unplaced (m : Machine) : Machine := m.withReader ⟨[], 0⟩

/-- **The byte-level interpreter does what structured code means.**  On the bytes of a well-nested
body, from any machine and environment and with any fuel, `execute_block` ends as the tree does: with
the same result, operand stack, locals, globals, memory, meter and host. -/
theorem executeBlock_eq_run {c : Code} {code : Bytes} {p fin : ℕ}
    (hl : Lies code p (c.instrs ++ [.end]) fin) (ctx : Context) (fuel callDepth : ℕ) {m : Machine}
    (hr : m.frame.reader = ⟨code, p⟩) (env : Env) :
    (executeBlock ctx fuel callDepth (m, env)).map (fun (r, m', env') => (r, m'.unplaced, env')) =
      c.run ctx fuel callDepth .end (m.unplaced, env) := by
  obtain ⟨e, hc, hend⟩ := lies_append hl
  obtain ⟨_, hend, hnil⟩ := lies_cons hend
  cases hnil
  rcases (blocksAgree ctx fuel).1 callDepth .end c code ⟨[], 0⟩ p e fin (m, env) hc (.end hend) hr with
    ⟨hx, hy⟩ | ⟨r, s, t, hx, hy, hended⟩
  · rw [hx]
    exact hy.symm
  · obtain rfl := hended.abreast
    rw [hx]
    exact hy.symm

/-- A body that counts its first local down to zero: a branch out of a conditional to the loop
around it. -/
def countdown : Code :=
  .loop (.op (.localGet 0) rfl (.ifThen (.op (.localGet 0) rfl (.op (.const (.i32 1)) rfl
    (.op (.plain 0x6B) rfl (.op (.localSet 0) rfl (.op (.br 1) rfl .nil))))) .nil)) .nil

def countdownCode : Bytes :=
  [0x03, 0x40, 0x20, 0x00, 0x04, 0x40, 0x20, 0x00, 0x41, 0x01, 0x6B, 0x21, 0x00, 0x0C, 0x01, 0x0B,
    0x0B, 0x0B]

theorem countdown_lies : Lies countdownCode 0 (countdown.instrs ++ [.end]) 18 := by
  repeat' first
    | exact .nil _
    | refine .cons ⟨_, rfl, rfl⟩ ?_

def counting (locals : List Value) : Machine := ⟨⟨⟨countdownCode, 0⟩, [.i64 7], locals⟩, ⟨[], []⟩⟩

theorem countdown_run : ∃ env', countdown.run ⟨⟨[], [], [], [], [], 0, []⟩, {}⟩ 40 0 .end
    ((counting [.i32 3]).unplaced, ⟨.new 1000, quietHost, 0⟩) =
      some (.ok (), (counting [.i32 0]).unplaced, env') ∧ env'.gas.used = 32 := by
  have hrun : (executeBlock ⟨⟨[], [], [], [], [], 0, []⟩, {}⟩ 40 0
      (counting [.i32 3], ⟨.new 1000, quietHost, 0⟩)).any
      (fun p => decide (p.1 = .ok () ∧ p.2.1.unplaced = (counting [.i32 0]).unplaced ∧
        p.2.2.gas.used = 32)) = true := by
    decide +kernel
  obtain ⟨⟨r, m₁, env'⟩, hx, h⟩ := (Option.any_eq_true ..).mp hrun
  obtain ⟨rfl, hm, hgas⟩ := of_decide_eq_true h
  refine ⟨env', ?_, hgas⟩
  rw [← executeBlock_eq_run countdown_lies _ 40 0 rfl, hx, ← hm]
  rfl

end Gratia
