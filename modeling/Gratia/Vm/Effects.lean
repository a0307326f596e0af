import Gratia.Vm.Interpreter

/-!
# Vm — Effects

What one instruction can do, said once: the invariants of whole runs are drawn from here.
-/

namespace Gratia

open Support Reader

/-- The errors that end a whole call: not a signal of the interpreter to itself, and neither out of
gas nor a panic. -/
def InterpError.isTrap : InterpError → Bool
  | functionReturn | branch _ | gas _ | panicked => false
  | _ => true

theorem InterpError.ne_branch {e : InterpError} (he : e.isTrap = true) (depth : UInt32) :
    e ≠ .branch depth := by
  rintro rfl
  cases he

/-! ### Reads -/

/-- A read that keeps the code, moves ahead, and fails only with a trap. -/
def Forward {α : Type} (x : Read α) : Prop :=
  ∀ r, Settles x r fun res r' =>
    r'.data = r.data ∧ r.pos ≤ r'.pos ∧ ∀ e, res = .error e → e.isTrap = true

namespace Forward

variable {α β : Type} {x : Read α} {f : α → Read β}

protected theorem pure (a : α) : Forward (pure a) :=
  fun _ => ⟨rfl, le_rfl, nofun⟩

theorem throw (message : String) : Forward (throw (.invalidBytecode message) : Read α) := by
  refine fun _ => ⟨rfl, le_rfl, fun e he => ?_⟩
  cases he
  rfl

protected theorem bind (hx : Forward x) (hf : ∀ a, Forward (f a)) : Forward (x >>= f) := by
  intro r
  refine (hx r).bind ?_ ?_
  · rintro a r₁ ⟨hd, hp, -⟩
    refine (hf a r₁).mono ?_
    rintro res r₂ ⟨hd₂, hp₂, he⟩
    exact ⟨hd₂.trans hd, hp.trans hp₂, he⟩
  · rintro e r₁ ⟨hd, hp, he⟩
    exact ⟨hd, hp, fun _ h => he _ (by cases h; rfl)⟩

protected theorem map (hx : Forward x) (g : α → β) : Forward (g <$> x) := by
  intro r
  refine Settles.map ((hx r).mono ?_)
  rintro res r' ⟨hd, hp, he⟩
  refine ⟨hd, hp, fun e hr => he e ?_⟩
  cases res with
  | ok a => cases hr
  | error e' => cases hr; rfl

theorem readByte : Forward readByte := by
  intro r
  unfold Settles Reader.readByte
  cases r.data[r.pos]? with
  | none =>
    refine ⟨rfl, le_rfl, fun e he => ?_⟩
    cases he
    rfl
  | some b => exact ⟨rfl, Nat.le_succ _, nofun⟩

theorem readBytes (n : ℕ) : Forward (readBytes n) := by
  intro r
  unfold Settles Reader.readBytes
  by_cases h : r.pos + n > r.data.length
  · rw [if_pos h]
    refine ⟨rfl, le_rfl, fun e he => ?_⟩
    cases he
    rfl
  · rw [if_neg h]
    exact ⟨rfl, Nat.le_add_right _ _, nofun⟩

theorem readLeb128 (w : ℕ) (signed : Bool) :
    ∀ (bytes shift : ℕ) (acc : BitVec w), Forward (readLeb128 w signed bytes shift acc) := by
  intro bytes
  induction bytes with
  | zero => exact fun _ _ => throw _
  | succ bytes ih =>
    intro shift acc
    refine readByte.bind fun byte => ?_
    dsimp only
    split
    · split
      · exact .pure _
      · exact .pure _
    · exact ih _ _

theorem readU32Leb128 : Forward readU32Leb128 := (readLeb128 _ _ _ _ _).map _

theorem readMemarg : Forward readMemarg := readU32Leb128.bind fun _ => readU32Leb128

theorem decode (opcode : UInt8) : Forward (decode opcode) := by
  unfold Gratia.decode
  split
  -- an opcode has no immediate, a byte, an index, two of them, or a constant
  all_goals first
    | exact .pure _
    | exact readByte.bind fun _ => .pure _
    | exact readU32Leb128.map _
    | exact readMemarg.map _
    | exact ((readLeb128 _ _ _ _ _).map _).map _
    | exact ((readBytes _).map _).map _

end Forward

/-! ### Whole instructions -/

/-- The instruction at a position, and the position behind it. -/
def Decodes (code : Bytes) (pos : ℕ) (instr : Instr) (next : ℕ) : Prop :=
  ∃ opcode, code[pos]? = some opcode ∧ decode opcode ⟨code, pos + 1⟩ = .ok instr ⟨code, next⟩

theorem Decodes.lt {code : Bytes} {pos next : ℕ} {instr : Instr}
    (h : Decodes code pos instr next) : pos < next := by
  obtain ⟨opcode, -, hd⟩ := h
  exact ((Forward.decode opcode _).ok hd).2.1

/-- From one position to another over whole instructions. -/
inductive Onward (code : Bytes) : ℕ → ℕ → Prop where
  | refl (p : ℕ) : Onward code p p
  | step {p q r : ℕ} {instr : Instr} (h : Decodes code p instr q) (t : Onward code q r) :
      Onward code p r

theorem Onward.le {code : Bytes} {p q : ℕ} (h : Onward code p q) : p ≤ q := by
  induction h with
  | refl p => exact le_rfl
  | step h _ ih => exact h.lt.le.trans ih

theorem readByte_settles (r : Reader) :
    Settles readByte r fun res r' =>
      (∃ b, res = .ok b ∧ r.data[r.pos]? = some b ∧ r' = r.advance 1) ∨
        ∃ e, res = .error e ∧ e.isTrap = true := by
  unfold Settles Reader.readByte
  cases r.data[r.pos]? with
  | none => exact .inr ⟨_, rfl, rfl⟩
  | some b => exact .inl ⟨b, rfl, rfl, rfl⟩

theorem decode_settles (r : Reader) (opcode : UInt8) :
    Settles (decode opcode) (r.advance 1) fun res r' =>
      (∃ instr next, res = .ok instr ∧ r' = ⟨r.data, next⟩ ∧
          decode opcode ⟨r.data, r.pos + 1⟩ = .ok instr ⟨r.data, next⟩) ∨
        ∃ e, res = .error e ∧ e.isTrap = true := by
  have hf := Forward.decode opcode (r.advance 1)
  unfold Settles at hf ⊢
  cases hd : decode opcode (r.advance 1) with
  | error e r' => rw [hd] at hf; exact .inr ⟨e, rfl, hf.2.2 e rfl⟩
  | ok instr r' =>
    rw [hd] at hf
    obtain ⟨data, next⟩ := r'
    obtain rfl : data = r.data := hf.1
    exact .inl ⟨instr, next, rfl, rfl, hd⟩

/-- The cursor has moved from `r` over whole instructions, or there was a trap. -/
def Skipped (r : Reader) (res : Except InterpError Unit) (r' : Reader) : Prop :=
  (res = .ok () ∧ r'.data = r.data ∧ Onward r.data r.pos r'.pos) ∨
    ∃ e, res = .error e ∧ e.isTrap = true

theorem Skipped.step {r r₁ r' : Reader} {instr : Instr} {res : Except InterpError Unit}
    (hdata : r₁.data = r.data) (hinstr : Decodes r.data r.pos instr r₁.pos)
    (h : Skipped r₁ res r') : Skipped r res r' := by
  refine h.imp_left ?_
  rintro ⟨hres, hd, ho⟩
  rw [hdata] at hd ho
  exact ⟨hres, hd, .step hinstr ho⟩

theorem skipTo_settles (atElse : Bool) (failure : String) : ∀ (fuel depth : ℕ) (r : Reader),
    Settles (skipTo atElse failure fuel depth) r (Skipped r) := by
  intro fuel
  induction fuel with
  | zero => exact fun depth r => .inr ⟨_, rfl, rfl⟩
  | succ fuel ih =>
    intro depth r
    -- one turn: the next instruction, then the rest from behind it
    have hnext : ∀ depth r' instr, r'.data = r.data → Decodes r.data r.pos instr r'.pos →
        Settles (skipTo atElse failure fuel depth) r' (Skipped r) :=
      fun depth r' instr hdata hinstr => (ih depth r').mono fun _ _ => .step hdata hinstr
    have hstop : ∀ r' instr, r'.data = r.data → Decodes r.data r.pos instr r'.pos →
        Settles (pure () : Read Unit) r' (Skipped r) :=
      fun r' instr hdata hinstr => .inl ⟨rfl, hdata, .step hinstr (.refl _)⟩
    unfold skipTo
    refine settles_get ?_
    split
    · exact .inr ⟨_, rfl, rfl⟩
    · refine (readByte_settles _).bind ?_ ?_
      · rintro opcode r₁ (⟨_, ⟨⟩, hb, rfl⟩ | ⟨_, ⟨⟩, _⟩)
        refine (decode_settles _ opcode).bind ?_ ?_
        · rintro instr r₂ (⟨_, next, ⟨⟩, rfl, hd⟩ | ⟨_, ⟨⟩, _⟩)
          have hdata : (⟨r.data, next⟩ : Reader).data = r.data := rfl
          have hinstr : Decodes r.data r.pos instr next := ⟨opcode, hb, hd⟩
          cases instr with
          | «else» | «end» =>
            dsimp only
            split
            · exact hstop _ _ hdata hinstr
            · exact hnext _ _ _ hdata hinstr
          | _ => exact hnext _ _ _ hdata hinstr
        · rintro e r₂ (⟨_, _, ⟨⟩, _⟩ | ⟨_, ⟨⟩, ht⟩)
          exact .inr ⟨e, rfl, ht⟩
      · rintro e r₁ (⟨_, ⟨⟩, _⟩ | ⟨_, ⟨⟩, ht⟩)
        exact .inr ⟨e, rfl, ht⟩

theorem skipToEnd_settles (r : Reader) : Settles skipToEnd r (Skipped r) :=
  settles_get (skipTo_settles _ _ _ _ r)

theorem skipToElseOrEnd_settles (r : Reader) : Settles skipToElseOrEnd r (Skipped r) :=
  settles_get (skipTo_settles _ _ _ _ r)

/-! ### Operands -/

/-- A computation on the operand stack that fails only with a trap. -/
def Operand {α : Type} (x : StackM α) : Prop :=
  ∀ stack, Settles x stack fun res _ => ∀ e, res = .error e → e.isTrap = true

namespace Operand

variable {α β : Type} {x : StackM α} {f : α → StackM β}

protected theorem pure (a : α) : Operand (pure a) := fun _ => nofun

protected theorem bind (hx : Operand x) (hf : ∀ a, Operand (f a)) : Operand (x >>= f) :=
  fun stack => (hx stack).bind (fun a stack' _ => hf a stack')
    fun e _ he e' h => he e' (by cases h; rfl)

protected theorem map (hx : Operand x) (g : α → β) : Operand (g <$> x) := by
  refine fun stack => Settles.map ((hx stack).mono fun res _ he e hr => he e ?_)
  cases res with
  | ok a => cases hr
  | error e' => cases hr; rfl

theorem throw {e : InterpError} (he : e.isTrap = true) : Operand (throw e : StackM α) := by
  intro stack e' h
  cases h
  exact he

theorem push (v : Value) : Operand (push v) := fun _ => nofun

theorem pop : Operand pop := by
  intro stack
  cases stack with
  | nil => intro e h; cases h; rfl
  | cons v stack => exact nofun

theorem popAs {as : Value → Except InterpError α}
    (h : ∀ v e, as v = .error e → e.isTrap = true) : Operand (popAs as) := by
  refine pop.bind fun v => ?_
  cases hv : as v with
  | ok a => exact .pure a
  | error e => exact throw (h v e hv)

theorem popI32 : Operand popI32 := by
  refine popAs fun v e h => ?_
  cases v <;> cases h <;> rfl

theorem popI64 : Operand popI64 := by
  refine popAs fun v e h => ?_
  cases v <;> cases h <;> rfl

theorem popF32 : Operand popF32 := by
  refine popAs fun v e h => ?_
  cases v <;> cases h <;> rfl

theorem popF64 : Operand popF64 := by
  refine popAs fun v e h => ?_
  cases v <;> cases h <;> rfl

theorem unary (hx : Operand x) (g : α → Value) : Operand (unary x g) := hx.bind fun _ => push _

theorem binary (hx : Operand x) (g : α → α → Value) : Operand (binary x g) :=
  hx.bind fun _ => hx.bind fun _ => push _

theorem division [DecidableEq α] [Zero α] (hx : Operand x) (g : α → α → Value) :
    Operand (division x g) := by
  refine hx.bind fun b => hx.bind fun a => ?_
  split
  · exact throw rfl
  · exact push _

theorem of_some (hx : Operand x) : ∀ op ∈ some x, Operand op := by
  rintro _ ⟨⟩
  exact hx

theorem numeric (opcode : UInt8) : ∀ op ∈ numeric opcode, Operand op := by
  unfold Gratia.numeric
  split
  -- at reducible transparency an alternative of another shape fails at once
  all_goals with_reducible first
    | exact of_some (unary popI32 _)
    | exact of_some (unary popI64 _)
    | exact of_some (unary popF32 _)
    | exact of_some (unary popF64 _)
    | exact of_some (binary popI32 _)
    | exact of_some (binary popI64 _)
    | exact of_some (binary popF32 _)
    | exact of_some (binary popF64 _)
    | exact of_some (division popI32 _)
    | exact of_some (division popI64 _)
    | exact fun _ h => absurd h (Option.not_mem_none _)

theorem popArgs (n : ℕ) : Operand (popArgs n) := by
  intro stack
  unfold Settles Gratia.popArgs
  by_cases h : stack.length < n
  · rw [if_pos h]
    intro e he
    cases he
    rfl
  · rw [if_neg h]
    exact nofun

theorem popBytes (op : StoreOp) : Operand op.popBytes := by
  cases op with
  | i32 => exact popI32.bind fun _ => .pure _
  | i64 => exact popI64.bind fun _ => .pure _
  | f32 => exact popF32.map _
  | f64 => exact popF64.map _
  | i32Store8 => exact popI32.bind fun _ => .pure _

end Operand

/-! ### Instructions -/

/-- A step that leaves cursor, globals and memory alone and fails only with a trap. -/
def Quiet {α : Type} (x : Step α) : Prop :=
  ∀ m, Settles x m fun res m' => m'.frame.reader = m.frame.reader ∧ m'.store = m.store ∧
    ∀ e, res = .error e → e.isTrap = true

namespace Quiet

variable {α β : Type} {x : Step α} {f : α → Step β}

protected theorem pure (a : α) : Quiet (pure a) := fun _ => ⟨rfl, rfl, nofun⟩

theorem throw {e : InterpError} (he : e.isTrap = true) : Quiet (throw e : Step α) := by
  refine fun m => ⟨rfl, rfl, fun e' h => ?_⟩
  cases h
  exact he

protected theorem bind (hx : Quiet x) (hf : ∀ a, Quiet (f a)) : Quiet (x >>= f) := by
  intro m
  refine (hx m).bind ?_ ?_
  · rintro a m₁ ⟨hr, hs, -⟩
    refine (hf a m₁).mono ?_
    rintro res m₂ ⟨hr₂, hs₂, he⟩
    exact ⟨hr₂.trans hr, hs₂.trans hs, he⟩
  · rintro e m₁ ⟨hr, hs, he⟩
    exact ⟨hr, hs, fun e' h => he e' (by cases h; rfl)⟩

theorem andThen (hx : Quiet x) {m : Machine} {Q : Except InterpError β → Machine → Prop}
    (hok : ∀ a m₁, m₁.frame.reader = m.frame.reader → m₁.store = m.store → Settles (f a) m₁ Q)
    (htrap : ∀ e m₁, m₁.store = m.store → e.isTrap = true → Q (.error e) m₁) :
    Settles (x >>= f) m Q := by
  refine (hx m).bind ?_ ?_
  · rintro a m₁ ⟨hr, hs, -⟩
    exact hok a m₁ hr hs
  · rintro e m₁ ⟨-, hs, he⟩
    exact htrap e m₁ hs (he e rfl)

theorem get {f : Machine → Step β} (hf : ∀ m, Quiet (f m)) : Quiet (get >>= f) :=
  fun m => settles_get (hf m m)

theorem stacking {x : StackM α} (hx : Operand x) : Quiet (stacking x) := by
  intro m
  have h := hx m.frame.stack
  unfold Settles at h ⊢
  unfold Gratia.stacking
  cases hs : x m.frame.stack with
  | ok a stack => exact ⟨rfl, rfl, nofun⟩
  | error e stack =>
    rw [hs] at h
    exact ⟨rfl, rfl, fun e' he => h e' (by cases he; rfl)⟩

theorem orThrow {r : Except InterpError α} (h : ∀ e, r = .error e → e.isTrap = true) :
    Quiet (orThrow r) := by
  cases r with
  | ok a => exact .pure a
  | error e => exact throw (h e rfl)

theorem address (base : Int32) (offset : UInt32) :
    Quiet (Gratia.orThrow (memoryAddress base offset)) := by
  refine orThrow fun e he => ?_
  unfold memoryAddress at he
  dsimp only at he
  split at he
  · cases he
  · cases he; rfl

theorem bounds (addr width : ℕ) (memory : Bytes) :
    Quiet (Gratia.orThrow (checkBounds addr width memory)) := by
  refine orThrow fun e he => ?_
  unfold checkBounds at he
  split at he
  · cases he; rfl
  · cases he

theorem performLoad (op : LoadOp) (offset : UInt32) : Quiet (performLoad op offset) :=
  (stacking .popI32).bind fun base => (address base offset).bind fun addr => get fun _ =>
    (bounds addr _ _).bind fun _ => stacking (.push _)

theorem setLocal (idx : UInt32) (v : Value) : Quiet (setLocal idx v) := by
  refine fun m => settles_get ?_
  split
  · exact throw rfl m
  · exact ⟨rfl, rfl, nofun⟩

end Quiet

/-- The instruction that an action is asked for by, which leaves the machine as `m'`. -/
def Instr.Asks (instr : Instr) (m' : Machine) : Action → Prop
  | .next => True
  | .finish => instr = .else ∨ instr = .end
  | .enter => instr = .block ∨ instr = .if
  | .loop start => instr = .loop ∧ m'.frame.reader.pos = start
  | .call funcIdx _ => instr = .call funcIdx

/-- What performing an instruction can do. -/
structure Performed (instr : Instr) (m : Machine) (res : Except InterpError Action) (m' : Machine) :
    Prop where
  /-- An error is a trap, a branch that the instruction asks for, or its return. -/
  error : ∀ e, res = .error e → e.isTrap = true ∨
    (∃ depth, e = .branch depth ∧ (instr = .br depth ∨ instr = .brIf depth)) ∨
    (e = .functionReturn ∧ instr = .return)
  /-- Unless it traps, the cursor is behind the instruction, or further on. -/
  onward : (∀ e, res = .error e → e.isTrap = false) →
    m'.frame.reader.data = m.frame.reader.data ∧
      Onward m.frame.reader.data m.frame.reader.pos m'.frame.reader.pos
  asks : ∀ action, res = .ok action → instr.Asks m' action
  /-- An error comes before any effect. -/
  unchanged : ∀ e, res = .error e → m'.store = m.store
  globals : (∀ idx, instr ≠ .globalSet idx) → m'.store.globals = m.store.globals
  memory : (∀ op offset, instr ≠ .store op offset) → instr ≠ .memoryGrow →
    m'.store.memory = m.store.memory
  /-- Only `memory.grow` changes the size of the memory, and to no more than its cap. -/
  size : m'.store.memory.length = m.store.memory.length ∨
    instr = .memoryGrow ∧ m'.store.memory.length ≤ growCap * pageSize

namespace Performed

variable {instr : Instr} {m m' : Machine} {res : Except InterpError Action}

theorem of_store_eq (hs : m'.store = m.store)
    (error : ∀ e, res = .error e → e.isTrap = true ∨
      (∃ depth, e = .branch depth ∧ (instr = .br depth ∨ instr = .brIf depth)) ∨
      (e = .functionReturn ∧ instr = .return))
    (onward : (∀ e, res = .error e → e.isTrap = false) →
      m'.frame.reader.data = m.frame.reader.data ∧
        Onward m.frame.reader.data m.frame.reader.pos m'.frame.reader.pos)
    (asks : ∀ action, res = .ok action → instr.Asks m' action) : Performed instr m res m' where
  error := error
  onward := onward
  asks := asks
  unchanged _ _ := hs
  globals _ := by rw [hs]
  memory _ _ := by rw [hs]
  size := .inl (by rw [hs])

theorem of_trap (hs : m'.store = m.store) {e : InterpError} (he : e.isTrap = true) :
    Performed instr m (.error e) m' := by
  refine of_store_eq hs (fun e' h => ?_) (fun h => ?_) nofun
  · cases h
    exact .inl he
  · have := h e rfl
    rw [he] at this
    cases this

theorem of_frame (hr : m'.frame.reader = m.frame.reader) (hs : m'.store = m.store)
    {action : Action} (ha : instr.Asks m' action) : Performed instr m (.ok action) m' :=
  of_store_eq hs nofun (fun _ => by rw [hr]; exact ⟨rfl, .refl _⟩) (by rintro _ ⟨⟩; exact ha)

theorem after {α : Type} {x : Step α} {f : α → Step Action} (hx : Quiet x)
    (hok : ∀ a m₁, m₁.frame.reader = m.frame.reader → m₁.store = m.store →
      Settles (f a) m₁ (Performed instr m)) : Settles (x >>= f) m (Performed instr m) :=
  hx.andThen hok fun _ _ hs he => of_trap hs he

theorem of_quiet {α : Type} {x : Step α} (hx : Quiet x) (instr : Instr) (m : Machine) :
    Settles (x >>= fun _ => pure .next) m (Performed instr m) :=
  after hx fun _ _ hr hs => of_frame hr hs trivial

theorem of_written (hr : m'.frame.reader = m.frame.reader)
    (globals : (∀ idx, instr ≠ .globalSet idx) → m'.store.globals = m.store.globals)
    (memory : (∀ op offset, instr ≠ .store op offset) → instr ≠ .memoryGrow →
      m'.store.memory = m.store.memory)
    (size : m'.store.memory.length = m.store.memory.length ∨
      instr = .memoryGrow ∧ m'.store.memory.length ≤ growCap * pageSize) :
    Performed instr m (.ok .next) m' where
  error := nofun
  onward _ := by rw [hr]; exact ⟨rfl, .refl _⟩
  asks := by rintro _ ⟨⟩; trivial
  unchanged := nofun
  globals := globals
  memory := memory
  size := size

theorem of_writer {x : Step Unit} {m₁ : Machine} {W : Machine → Prop} (hs : m₁.store = m.store)
    (hx : Settles x m₁ fun res m' => (res = .ok () ∧ m'.frame.reader = m₁.frame.reader ∧ W m') ∨
      ∃ e, res = .error e ∧ e.isTrap = true ∧ m'.store = m₁.store)
    (hw : ∀ m', m'.frame.reader = m₁.frame.reader → W m' → Performed instr m (.ok .next) m') :
    Settles (x >>= fun _ => pure .next) m₁ (Performed instr m) := by
  refine hx.bind ?_ ?_
  · rintro _ m₂ (⟨-, hr₂, hw₂⟩ | ⟨_, ⟨⟩, _⟩)
    exact hw m₂ hr₂ hw₂
  · rintro e m₂ (⟨⟨⟩, _⟩ | ⟨_, ⟨⟩, ht, hs₂⟩)
    exact of_trap (hs₂.trans hs) ht

theorem enter (h : Performed instr m res m') (hr : res = .ok .enter) :
    instr = .block ∨ instr = .if :=
  h.asks _ hr

theorem loop (h : Performed instr m res m') (start : ℕ) (hr : res = .ok (.loop start)) :
    instr = .loop ∧ m'.frame.reader.pos = start :=
  h.asks _ hr

theorem call (h : Performed instr m res m') (funcIdx : UInt32) (args : List Value)
    (hr : res = .ok (.call funcIdx args)) : instr = .call funcIdx :=
  h.asks _ hr

end Performed

theorem settles_reading {α : Type} {x : Read α} {m : Machine}
    {Q : Except InterpError α → Reader → Prop} (h : Settles x m.frame.reader Q) :
    Settles (reading x) m fun res m' => ∃ r, Q res r ∧ m' = m.withReader r := by
  unfold Settles at h ⊢
  unfold reading
  cases hx : x m.frame.reader with
  | ok a r | error e r => rw [hx] at h; exact ⟨r, h, rfl⟩

theorem Performed.of_skip {x : Read Unit} {k : Unit → Step Action} {instr : Instr} {m m₁ : Machine}
    (hr : m₁.frame.reader = m.frame.reader) (hs : m₁.store = m.store)
    (hx : Settles x m₁.frame.reader (Skipped m₁.frame.reader))
    (hk : ∀ r : Reader, r.data = m.frame.reader.data →
      Onward m.frame.reader.data m.frame.reader.pos r.pos →
      Settles (k ()) (m₁.withReader r) (Performed instr m)) :
    Settles (reading x >>= k) m₁ (Performed instr m) := by
  refine (settles_reading hx).bind ?_ ?_
  · rintro _ m₂ ⟨r, ⟨-, hd, ho⟩ | ⟨_, ⟨⟩, _⟩, rfl⟩
    rw [hr] at hd ho
    exact hk r hd ho
  · rintro e m₂ ⟨r, ⟨⟨⟩, _⟩ | ⟨_, ⟨⟩, ht⟩, rfl⟩
    exact Performed.of_trap (show (m₁.withReader r).store = m.store from hs) ht

theorem setGlobal_settles (idx : UInt32) (v : Value) (m : Machine) :
    Settles (setGlobal idx v) m fun res m' =>
      (res = .ok () ∧ m'.frame.reader = m.frame.reader ∧ m'.store.memory = m.store.memory) ∨
        ∃ e, res = .error e ∧ e.isTrap = true ∧ m'.store = m.store := by
  refine settles_get ?_
  split
  · exact .inr ⟨_, rfl, rfl, rfl⟩
  · exact .inl ⟨rfl, rfl, rfl⟩

theorem performStore_settles (op : StoreOp) (offset : UInt32) (m : Machine) :
    Settles (performStore op offset) m fun res m' =>
      (res = .ok () ∧ m'.frame.reader = m.frame.reader ∧ m'.store.globals = m.store.globals ∧
          m'.store.memory.length = m.store.memory.length) ∨
        ∃ e, res = .error e ∧ e.isTrap = true ∧ m'.store = m.store := by
  refine (Quiet.stacking (.popBytes op)).andThen (fun bytes m₁ hr₁ hs₁ => ?_)
    fun e _ hs he => .inr ⟨e, rfl, he, hs⟩
  refine (Quiet.stacking .popI32).andThen (fun base m₂ hr₂ hs₂ => ?_)
    fun e _ hs he => .inr ⟨e, rfl, he, hs.trans hs₁⟩
  refine (Quiet.address base offset).andThen (fun addr m₃ hr₃ hs₃ => ?_)
    fun e _ hs he => .inr ⟨e, rfl, he, hs.trans (hs₂.trans hs₁)⟩
  have hs : m₃.store = m.store := hs₃.trans (hs₂.trans hs₁)
  have hg : m₃.store.globals = m.store.globals := congrArg Store.globals hs
  refine settles_get ?_
  dsimp only
  by_cases hb : addr + bytes.length > m₃.store.memory.length
  · rw [checkBounds, if_pos hb]
    exact .inr ⟨_, rfl, rfl, hs⟩
  · rw [checkBounds, if_neg hb]
    refine .inl ⟨rfl, hr₃.trans (hr₂.trans hr₁), hg, ?_⟩
    rw [← hs]
    exact length_copyAt (Nat.not_lt.mp hb)

theorem setMemory_push_settles (memory : Bytes) (v : Value) (m : Machine) :
    Settles (do setMemory memory; stacking (push v)) m fun res m' =>
      res = .ok () ∧ m'.frame.reader = m.frame.reader ∧ m'.store.globals = m.store.globals ∧
        m'.store.memory = memory :=
  ⟨rfl, rfl, rfl, rfl⟩

/-- What `memory.grow` does: nothing, or it makes the memory a number of pages within the cap. -/
theorem performGrow_settles (m : Machine) :
    Settles performGrow m fun res m' =>
      (res = .ok () ∧ m'.frame.reader = m.frame.reader ∧ m'.store.globals = m.store.globals ∧
          (m'.store.memory.length = m.store.memory.length ∨
            m'.store.memory.length ≤ growCap * pageSize)) ∨
        ∃ e, res = .error e ∧ e.isTrap = true ∧ m'.store = m.store := by
  refine (Quiet.stacking .popI32).andThen (fun delta m₁ hr hs => ?_)
    fun e _ hs he => .inr ⟨e, rfl, he, hs⟩
  have hg : m₁.store.globals = m.store.globals := congrArg Store.globals hs
  have hl : m₁.store.memory.length = m.store.memory.length := congrArg (·.memory.length) hs
  refine settles_get ?_
  dsimp only
  split
  · exact .inl ⟨rfl, hr, hg, .inl hl⟩
  split
  · exact .inl ⟨rfl, hr, hg, .inl hl⟩
  next hcap =>
  refine (setMemory_push_settles _ _ m₁).mono ?_
  rintro res m' ⟨hres, hr', hg', hm⟩
  -- the new size is the number of pages that passed the check
  refine .inl ⟨hres, hr'.trans hr, hg'.trans hg, .inr ?_⟩
  rw [hm, length_resize]
  exact Nat.mul_le_mul_right pageSize (Nat.not_lt.mp hcap)

open Performed in
/-- **What performing an instruction can do.** -/
theorem perform_settles (module : WasmModule) (instr : Instr) (m : Machine) :
    Settles (perform module instr) m (Performed instr m) := by
  cases instr with
  | unreachable => exact of_trap rfl rfl
  | nop => exact of_frame rfl rfl trivial
  | block => exact of_frame rfl rfl (Or.inl rfl)
  | loop => exact of_frame rfl rfl ⟨rfl, rfl⟩
  | «if» =>
    refine after (.stacking .popI32) fun condition m₁ hr hs => ?_
    split
    · exact of_frame hr hs (Or.inr rfl)
    · refine of_skip hr hs (skipToElseOrEnd_settles _) fun r hd ho => ?_
      refine settles_get ?_
      dsimp only
      split
      · exact of_store_eq hs nofun (fun _ => ⟨hd, ho⟩) (by rintro _ ⟨⟩; exact Or.inr rfl)
      · exact of_store_eq hs nofun (fun _ => ⟨hd, ho⟩) (by rintro _ ⟨⟩; trivial)
  | «else» =>
    refine of_skip rfl rfl (skipToEnd_settles _) fun r hd ho => ?_
    exact of_store_eq rfl nofun (fun _ => ⟨hd, ho⟩) (by rintro _ ⟨⟩; exact Or.inl rfl)
  | «end» => exact of_frame rfl rfl (Or.inr rfl)
  | br depth =>
    refine of_store_eq rfl ?_ (fun _ => ⟨rfl, .refl _⟩) nofun
    rintro e ⟨⟩
    exact .inr (.inl ⟨depth, rfl, .inl rfl⟩)
  | brIf depth =>
    refine after (.stacking .popI32) fun condition m₁ hr hs => ?_
    split
    · refine of_store_eq hs ?_ (fun _ => by rw [hr]; exact ⟨rfl, .refl _⟩) nofun
      rintro e ⟨⟩
      exact .inr (.inl ⟨depth, rfl, .inr rfl⟩)
    · exact of_frame hr hs trivial
  | «return» =>
    refine of_store_eq rfl ?_ (fun _ => ⟨rfl, .refl _⟩) nofun
    rintro e ⟨⟩
    exact .inr (.inr ⟨rfl, rfl⟩)
  | call funcIdx =>
    rw [perform]
    cases module.funcType? funcIdx with
    | none => exact of_trap rfl rfl
    | some funcType =>
      exact after (.stacking (.popArgs _)) fun args m₁ hr hs => of_frame hr hs rfl
  | drop => exact of_quiet (.stacking .pop) _ m
  | localGet idx =>
    refine settles_get ?_
    cases m.frame.locals[idx.toNat]? with
    | none => exact of_trap rfl rfl
    | some v => exact of_quiet (.stacking (.push v)) _ m
  | localSet idx =>
    refine after (.stacking .pop) fun v m₁ hr hs => ?_
    exact (Quiet.setLocal idx v).andThen
      (fun _ _ hr₂ hs₂ => of_frame (hr₂.trans hr) (hs₂.trans hs) trivial)
      fun _ _ hs₂ he => of_trap (hs₂.trans hs) he
  | localTee idx =>
    refine settles_get ?_
    cases m.frame.stack with
    | nil => exact of_trap rfl rfl
    | cons v _ => exact of_quiet (.setLocal idx v) _ m
  | globalGet idx =>
    refine settles_get ?_
    cases m.store.globals[idx.toNat]? with
    | none => exact of_trap rfl rfl
    | some v => exact of_quiet (.stacking (.push v)) _ m
  | globalSet idx =>
    refine after (.stacking .pop) fun v m₁ hr hs => ?_
    refine of_writer hs (setGlobal_settles idx v m₁) fun m₂ hr₂ hm => ?_
    have hmemory : m₂.store.memory = m.store.memory := hm.trans (congrArg Store.memory hs)
    exact .of_written (hr₂.trans hr) (fun h => absurd rfl (h idx)) (fun _ _ => hmemory)
      (.inl (congrArg List.length hmemory))
  | load op offset => exact of_quiet (.performLoad op offset) _ m
  | store op offset =>
    refine of_writer rfl (performStore_settles op offset m) ?_
    rintro m₁ hr ⟨hg, hl⟩
    exact .of_written hr (fun _ => hg) (fun h _ => absurd rfl (h op offset)) (.inl hl)
  | memorySize => exact settles_get (of_quiet (.stacking (.push _)) _ m)
  | memoryGrow =>
    refine of_writer rfl (performGrow_settles m) ?_
    rintro m₁ hr ⟨hg, hl⟩
    exact .of_written hr (fun _ => hg) (fun _ h => absurd rfl h)
      (hl.imp_right fun hl => ⟨rfl, hl⟩)
  | const v => exact of_quiet (.stacking (.push v)) _ m
  | plain opcode =>
    rw [perform]
    cases h : numeric opcode with
    | none => exact of_trap rfl rfl
    | some op => exact of_quiet (.stacking (.numeric opcode op h)) _ m

/-- The instructions that write to globals or memory. -/
def Instr.writes : Instr → Bool
  | globalSet _ | store _ _ | memoryGrow => true
  | _ => false

/-- What an instruction does without operands: writing takes one, and what is dispatched without a
charge brings none. -/
def Bare (instr : Instr) (res : Except InterpError Action) (m' : Machine) : Prop :=
  (∃ e, res = .error e) ∨ instr.writes = false ∧
    (instr = .end ∨ instr = .nop ∨ instr = .drop → m'.frame.stack = [])

theorem perform_bare (module : WasmModule) (instr : Instr) (m : Machine)
    (hstack : m.frame.stack = []) : Settles (perform module instr) m (Bare instr) := by
  obtain ⟨⟨reader, stack, locals⟩, globals⟩ := m
  obtain rfl : stack = [] := hstack
  cases instr with
  | globalSet | memoryGrow | drop => exact .inl ⟨_, rfl⟩
  | store op offset => cases op <;> exact .inl ⟨_, rfl⟩
  | nop | «end» => exact .inr ⟨rfl, fun _ => rfl⟩
  | _ => exact settles_of_forall fun _ _ => .inr ⟨rfl, by simp⟩

end Gratia
