import Gratia.Vm.Regions

/-!
# Vm — Structured

Function bodies as trees.  The interpreter works on bytes and leaves a block by scanning for its
end; `Code` is a well-nested sequence of instructions, and `Code.run` is what it does, with the same
fuel, charges and calls but without a cursor.
-/

namespace Gratia

open Support Reader

/-! ### Opcodes -/

def LoadOp.opcode : LoadOp → UInt8
  | i32 => 0x28
  | i64 => 0x29
  | f32 => 0x2A
  | f64 => 0x2B
  | i32Load8S => 0x2C
  | i32Load8U => 0x2D

def StoreOp.opcode : StoreOp → UInt8
  | i32 => 0x36
  | i64 => 0x37
  | f32 => 0x38
  | f64 => 0x39
  | i32Store8 => 0x3A

def Value.constOpcode : Value → UInt8
  | i32 _ => 0x41
  | i64 _ => 0x42
  | f32 _ => 0x43
  | f64 _ => 0x44

namespace Instr

def opcode : Instr → UInt8
  | unreachable => 0x00
  | nop => 0x01
  | block => 0x02
  | loop => 0x03
  | «if» => 0x04
  | «else» => 0x05
  | «end» => 0x0B
  | br _ => 0x0C
  | brIf _ => 0x0D
  | «return» => 0x0F
  | call _ => 0x10
  | drop => 0x1A
  | localGet _ => 0x20
  | localSet _ => 0x21
  | localTee _ => 0x22
  | globalGet _ => 0x23
  | globalSet _ => 0x24
  | load op _ => op.opcode
  | store op _ => op.opcode
  | memorySize => 0x3F
  | memoryGrow => 0x40
  | const v => v.constOpcode
  | plain opcode => opcode

/-- Whether an instruction stands alone, rather than opening, dividing or closing a block. -/
def isSimple : Instr → Bool
  | block | loop | «if» | «else» | «end» => false
  | _ => true

end Instr

theorem map_ok {α β : Type} {x : Read α} {g : α → β} {r r' : Reader} {b : β}
    (h : (g <$> x) r = .ok b r') : ∃ a, x r = .ok a r' ∧ b = g a := by
  change EStateM.map g x r = _ at h
  unfold EStateM.map at h
  split at h
  next a r₁ hx =>
    cases h
    exact ⟨a, hx, rfl⟩
  next => cases h

variable {instr : Instr} {code : Bytes} {p : ℕ}

theorem opcode_of_decode {opcode : UInt8} {r r' : Reader} (h : decode opcode r = .ok instr r') :
    instr.opcode = opcode := by
  have hpure : ∀ {i : Instr}, (pure i : Read Instr) r = .ok instr r' → instr = i := by
    rintro i ⟨⟩
    rfl
  have hbyte : ∀ {i : Instr}, (readByte >>= fun _ => pure i : Read Instr) r = .ok instr r' →
      instr = i := by
    intro i hi
    obtain ⟨_, _, -, ⟨⟩⟩ := bind_ok.mp hi
    rfl
  unfold decode at h
  split at h
  all_goals first
    | exact congrArg Instr.opcode (hpure h)
    | exact congrArg Instr.opcode (hbyte h)
    | (obtain ⟨a, -, rfl⟩ := map_ok h; rfl)

/-! ### Well-nested code -/

/-- A well-nested sequence of instructions.  The ends of blocks are not written down. -/
inductive Code where
  | nil
  | op (instr : Instr) (simple : instr.isSimple = true) (rest : Code)
  | block (body rest : Code)
  | loop (body rest : Code)
  | ifThen (body rest : Code)
  | ifElse (thenBody elseBody rest : Code)

namespace Code

def instrs : Code → List Instr
  | nil => []
  | op instr _ rest => instr :: rest.instrs
  | block body rest => .block :: (body.instrs ++ .end :: rest.instrs)
  | loop body rest => .loop :: (body.instrs ++ .end :: rest.instrs)
  | ifThen body rest => .if :: (body.instrs ++ .end :: rest.instrs)
  | ifElse thenBody elseBody rest =>
    .if :: (thenBody.instrs ++ .else :: (elseBody.instrs ++ .end :: rest.instrs))

end Code

/-! ### Code in bytes -/

/-- The bytes from one position to another are these instructions. -/
inductive Lies (code : Bytes) : ℕ → List Instr → ℕ → Prop where
  | nil (p : ℕ) : Lies code p [] p
  | cons {p q e : ℕ} {instr : Instr} {instrs : List Instr} (h : Decodes code p instr q)
      (t : Lies code q instrs e) : Lies code p (instr :: instrs) e

theorem lies_cons {e : ℕ} {instrs : List Instr} (h : Lies code p (instr :: instrs) e) :
    ∃ q, Decodes code p instr q ∧ Lies code q instrs e := by
  cases h with
  | cons h t => exact ⟨_, h, t⟩

theorem lies_append {is js : List Instr} :
    ∀ {p e : ℕ}, Lies code p (is ++ js) e → ∃ q, Lies code p is q ∧ Lies code q js e := by
  induction is with
  | nil => exact fun h => ⟨_, .nil _, h⟩
  | cons i is ih =>
    intro p e h
    obtain ⟨q, hd, ht⟩ := lies_cons h
    obtain ⟨q', h₁, h₂⟩ := ih ht
    exact ⟨q', .cons hd h₁, h₂⟩

theorem lies_nested {e : ℕ} {i j : Instr} {is js : List Instr}
    (h : Lies code p (i :: (is ++ j :: js)) e) : ∃ q q₁ q₂,
      Decodes code p i q ∧ Lies code q is q₁ ∧ Decodes code q₁ j q₂ ∧ Lies code q₂ js e := by
  obtain ⟨q, hd, ht⟩ := lies_cons h
  obtain ⟨q₁, hb, ht⟩ := lies_append ht
  obtain ⟨q₂, hend, ht⟩ := lies_cons ht
  exact ⟨q, q₁, q₂, hd, hb, hend, ht⟩

/-- The end of a block's first part: its `end`, or an `else` with the second part and the `end`. -/
inductive Closes (code : Bytes) (e fin : ℕ) : Instr → Prop where
  | «end» (h : Decodes code e .end fin) : Closes code e fin .end
  | «else» {q q' : ℕ} {c : Code} (h : Decodes code e .else q) (hc : Lies code q c.instrs q')
      (hend : Decodes code q' .end fin) : Closes code e fin .else

theorem Decodes.closer {next : ℕ} (h : Decodes code p instr next)
    (hi : instr = .else ∨ instr = .end) : code[p]? = some instr.opcode ∧ next = p + 1 := by
  obtain ⟨opcode, hop, hd⟩ := h
  rw [← opcode_of_decode hd] at hop hd
  rcases hi with rfl | rfl
  · cases hd
    exact ⟨hop, rfl⟩
  · cases hd
    exact ⟨hop, rfl⟩

/-! ### Skipping over code -/

section Skipping

variable {atElse : Bool} {failure : String} {code : Bytes} {p q e fin depth depth' : ℕ}

variable {instr : Instr}

theorem skipTo_step {fuel : ℕ} (h : Decodes code p instr q) :
    skipTo atElse failure (fuel + 1) depth ⟨code, p⟩ =
      (match instr with
        | .block | .loop | .if => skipTo atElse failure fuel (depth + 1)
        | .else => if atElse && depth == 0 then pure () else skipTo atElse failure fuel depth
        | .end => if depth = 0 then pure () else skipTo atElse failure fuel (depth - 1)
        | _ => skipTo atElse failure fuel depth) ⟨code, q⟩ := by
  have hlt : (⟨code, p⟩ : Reader).remaining ≠ 0 := Nat.sub_ne_zero_of_lt h.read.1
  obtain ⟨opcode, hop, hd⟩ := h
  have hb : readByte.run ⟨code, p⟩ = .ok opcode ⟨code, p + 1⟩ := by
    unfold EStateM.run readByte
    rw [hop]
    rfl
  have hdec : (decode opcode).run ⟨code, p + 1⟩ = .ok instr ⟨code, q⟩ := hd
  rw [skipTo]
  change (if (⟨code, p⟩ : Reader).remaining = 0 then _ else _ : Read Unit) ⟨code, p⟩ = _
  rw [if_neg hlt]
  exact (bind_of_ok hb).trans (bind_of_ok hdec)

/-- With enough fuel for the bytes ahead, the scan gets from one position and depth to another. -/
def Skips (atElse : Bool) (failure : String) (code : Bytes) (p depth q depth' : ℕ) : Prop :=
  ∀ fuel, code.length ≤ p + fuel → ∃ fuel', code.length ≤ q + fuel' ∧
    skipTo atElse failure fuel depth ⟨code, p⟩ = skipTo atElse failure fuel' depth' ⟨code, q⟩

namespace Skips

theorem trans {r depth'' : ℕ} (h : Skips atElse failure code p depth q depth')
    (h' : Skips atElse failure code q depth' r depth'') :
    Skips atElse failure code p depth r depth'' := by
  intro fuel hfuel
  obtain ⟨fuel₁, hf₁, h₁⟩ := h fuel hfuel
  obtain ⟨fuel₂, hf₂, h₂⟩ := h' fuel₁ hf₁
  exact ⟨fuel₂, hf₂, h₁.trans h₂⟩

variable {instr : Instr}

theorem of_step (h : Decodes code p instr q)
    (hstep : ∀ fuel, skipTo atElse failure (fuel + 1) depth ⟨code, p⟩ =
      skipTo atElse failure fuel depth' ⟨code, q⟩) : Skips atElse failure code p depth q depth' := by
  intro fuel hfuel
  have hlt := h.lt
  have hp := h.read.1
  obtain ⟨fuel, rfl⟩ : ∃ k, fuel = k + 1 := ⟨fuel - 1, by omega⟩
  exact ⟨fuel, by omega, hstep fuel⟩

theorem opening (h : Decodes code p instr q) (hi : instr = .block ∨ instr = .loop ∨ instr = .if) :
    Skips atElse failure code p depth q (depth + 1) := by
  refine of_step h fun fuel => ?_
  rcases hi with rfl | rfl | rfl <;> exact skipTo_step h

theorem closing (h : Decodes code p .end q) : Skips atElse failure code p (depth + 1) q depth :=
  of_step h fun _ => skipTo_step h

theorem dividing (h : Decodes code p .else q) :
    Skips atElse failure code p (depth + 1) q (depth + 1) := by
  refine of_step h fun fuel => (skipTo_step h).trans ?_
  dsimp only
  rw [if_neg (by simp)]

theorem simple (h : Decodes code p instr q) (hi : instr.isSimple = true) :
    Skips atElse failure code p depth q depth := by
  refine of_step h fun fuel => (skipTo_step h).trans ?_
  cases instr with
  | block | loop | «if» | «else» | «end» => cases hi
  | _ => rfl

theorem ofCode (c : Code) : ∀ {p e depth : ℕ}, Lies code p c.instrs e →
    Skips atElse failure code p depth e depth := by
  induction c with
  | nil =>
    intro p e depth h
    cases h
    exact fun fuel hfuel => ⟨fuel, hfuel, rfl⟩
  | op i hi rest ih =>
    intro p e depth h
    obtain ⟨q, hd, ht⟩ := lies_cons h
    exact (simple hd hi).trans (ih ht)
  | block body rest ihb ih | loop body rest ihb ih | ifThen body rest ihb ih =>
    intro p e depth h
    obtain ⟨q, q₁, q₂, hd, hb, hend, ht⟩ := lies_nested h
    exact (opening hd (by simp)).trans ((ihb hb).trans ((closing hend).trans (ih ht)))
  | ifElse a b rest iha ihb ih =>
    intro p e depth h
    obtain ⟨q, q₁, q₂, hd, ha, helse, ht⟩ := lies_nested h
    obtain ⟨q₃, hb, ht⟩ := lies_append ht
    obtain ⟨q₄, hend, ht⟩ := lies_cons ht
    exact (opening hd (.inr (.inr rfl))).trans ((iha ha).trans ((dividing helse).trans
      ((ihb hb).trans ((closing hend).trans (ih ht)))))

end Skips

theorem skipTo_stops (h : Skips atElse failure code p 0 e 0)
    (hd : Decodes code e instr fin) (hi : instr = .end ∨ instr = .else ∧ atElse = true) (fuel : ℕ)
    (hfuel : code.length ≤ p + fuel) :
    skipTo atElse failure fuel 0 ⟨code, p⟩ = .ok () ⟨code, fin⟩ := by
  obtain ⟨fuel', hf, heq⟩ := h fuel hfuel
  have hlt := hd.read.1
  obtain ⟨fuel', rfl⟩ : ∃ k, fuel' = k + 1 := ⟨fuel' - 1, by omega⟩
  refine heq.trans ((skipTo_step hd).trans ?_)
  rcases hi with rfl | ⟨rfl, rfl⟩
  · rfl
  · rfl

theorem skipToEnd_closes {closer : Instr} {c : Code} (h : Lies code q c.instrs e)
    (hc : Closes code e fin closer) : skipToEnd ⟨code, q⟩ = .ok () ⟨code, fin⟩ := by
  have hfuel : code.length ≤ q + (⟨code, q⟩ : Reader).remaining := by
    unfold remaining
    dsimp only
    omega
  cases hc with
  | «end» hend => exact skipTo_stops (.ofCode c h) hend (.inl rfl) _ hfuel
  | @«else» q₁ q₂ c' helse hc' hend =>
    -- an `else` of the own block does not stop this scan
    have hpast : Skips false "unexpected end of block while skipping to end" code e 0 q₁ 0 :=
      .of_step helse fun _ => skipTo_step helse
    exact skipTo_stops ((Skips.ofCode c h).trans (hpast.trans (.ofCode c' hc'))) hend (.inl rfl) _ hfuel

theorem skipToElseOrEnd_stops {c : Code} (h : Lies code q c.instrs e)
    (hd : Decodes code e instr fin) (hi : instr = .end ∨ instr = .else) :
    skipToElseOrEnd ⟨code, q⟩ = .ok () ⟨code, fin⟩ := by
  refine skipTo_stops (.ofCode c h) hd (hi.imp_right fun hi => ⟨hi, rfl⟩) _ ?_
  unfold remaining
  dsimp only
  omega

end Skipping

end Gratia
