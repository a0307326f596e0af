import Gratia.Vm.Lockstep
import Gratia.Vm.Regions

/-!
# Vm — Gas bound

Gas bounds execution, under the default cost table.  Instructions are paid for in two ways.  Each
takes at least one of the bytes ahead of the cursor; and those that bring bytes back, a branch that
starts a loop again or a call of another body, cost gas, of which one unit pays for a whole body.
-/

namespace Gratia

open Support Reader

/-! ### Paying for instructions -/

/-- The instructions that `bytes` bytes ahead and the gas can pay for, when a body has at most `L`
bytes. -/
def work (L bytes : ℕ) (env : Env) : ℕ := bytes + (L + 1) * env.gas.gasRemaining.toNat

/-- Of `total` instructions those that were not dispatched pay for `bytes` bytes ahead and for the
gas, and the fuel `f` lasts for them. -/
structure Funded (L total f bytes : ℕ) (env : Env) : Prop where
  costs : env.gas.costs = {}
  pays : env.dispatched + work L bytes env ≤ total
  lasts : 2 * total + 1 ≤ f + 2 * env.dispatched

variable {L total f f' a b : ℕ} {env env' : Env}

theorem Funded.weaken (h : Funded L total f a env) (hf : f ≤ f') (hb : b ≤ a) :
    Funded L total f' b env :=
  ⟨h.costs, (Nat.add_le_add_left (Nat.add_le_add_right hb _) _).trans h.pays,
    h.lasts.trans (Nat.add_le_add_right hf _)⟩

theorem not_funded_zero : ¬Funded L total 0 a env := by
  rintro ⟨-, hpays, hlasts⟩
  omega

theorem Funded.of_metered {cost : UInt64} {r : Except InterpError Unit}
    (h : Funded L total f a env) (hm : Metered cost env r env') : Funded L total f a env' := by
  have hsum := env.gas.used_add_gasRemaining
  have hsum' := env'.gas.used_add_gasRemaining
  have hused := hm.used
  rw [hm.limit] at hsum'
  have hgas := Nat.mul_le_mul_left (L + 1)
    (show env'.gas.gasRemaining.toNat ≤ env.gas.gasRemaining.toNat by omega)
  have hpays := h.pays
  have hlasts := h.lasts
  refine ⟨hm.costs.trans h.costs, ?_, ?_⟩
  · unfold work at hpays ⊢
    rw [hm.dispatched]
    omega
  · rwa [hm.dispatched]

/-! ### One instruction -/

namespace Charged

variable {opcode : UInt8} {r : Except InterpError Unit}

/-- An instruction that was counted takes one of the bytes ahead. -/
theorem funded (hc : Charged opcode env r env') (h : Funded L total (f + 1) (a + 1) env) :
    Funded L total (f - 1) a env' := by
  have hm := chargeGas_metered (opcodeCost opcode) { env with dispatched := env.dispatched + 1 }
  have hcounted : Funded L total (f - 1) a { env with dispatched := env.dispatched + 1 } := by
    have hpays := h.pays
    have hlasts := h.lasts
    unfold work at hpays
    exact ⟨h.costs, by unfold work; dsimp only; omega, by dsimp only; omega⟩
  cases hc with
  | free h => exact hcounted
  | paid h hc => exact hcounted.of_metered (hm.ok hc)
  | short h hc => exact hcounted.of_metered (hm.error hc)

/-- One unit of gas pays for a whole body. -/
theorem funded_body (hc : Charged opcode env (.ok ()) env') (hfree : isFree opcode = false)
    (h : Funded L total (f + 1) (a + 1) env) : Funded L total (f - 1) (a + L) env' := by
  obtain ⟨hcosts, hpays, hlasts⟩ := hc.funded h
  refine ⟨hcosts, ?_, hlasts⟩
  cases hc with
  | free h => rw [hfree] at h; cases h
  | paid _ hc =>
    have hm := (chargeGas_metered (opcodeCost opcode) _).ok hc
    have hpos := opcodeCost_pos opcode
    have hpaid := hm.paid rfl
    have hsum := env.gas.used_add_gasRemaining
    have hsum' := env'.gas.used_add_gasRemaining
    dsimp only at hpaid
    rw [h.costs] at hpaid
    rw [hm.limit] at hsum'
    dsimp only at hsum'
    have hgas := Nat.mul_le_mul_left (L + 1)
      (show env'.gas.gasRemaining.toNat + 1 ≤ env.gas.gasRemaining.toNat by omega)
    have hbefore := h.pays
    have hcounts := hm.dispatched
    rw [Nat.mul_succ] at hgas
    unfold work at hbefore ⊢
    dsimp only at hcounts
    omega

end Charged

theorem Reader.remaining_of_read {r : Reader} {opcode : UInt8} (hop : r.data[r.pos]? = some opcode)
    {pos : ℕ} (hpos : r.pos < pos) : ∃ x, r.remaining = x + 1 ∧ r.data.length - pos ≤ x := by
  have hlt := (List.getElem?_eq_some_iff.mp hop).1
  unfold Reader.remaining
  exact ⟨r.data.length - r.pos - 1, by omega, by omega⟩

theorem isFree_eq_false {opcode : UInt8} {instr : Instr} {r r' : Reader}
    (hdec : decode opcode r = .ok instr r') (hend : instr ≠ .end) (hnop : instr ≠ .nop)
    (hdrop : instr ≠ .drop) : isFree opcode = false := by
  rw [← Bool.not_eq_true]
  intro hfree
  rcases decode_of_isFree hfree hdec with h | h | h
  · exact hend h
  · exact hnop h
  · exact hdrop h

/-! ### Whole runs -/

namespace Paying

/-- The bytes ahead in `k.1` are paid for, and `k.2` more. -/
def At (L total f : ℕ) (k : Bytes × ℕ) (s : Machine × Env) : Prop :=
  (s.1.frame.reader.data = k.1 ∧ k.1.length ≤ L) ∧
    Funded L total f (s.1.frame.reader.remaining + k.2) s.2

/-- Where something fails the `k.2` bytes are still paid for, after a branch even a whole body. -/
def Fails (L total f : ℕ) (k : Bytes × ℕ) (e : InterpError) (s : Machine × Env) : Prop :=
  Funded L total f k.2 s.2 ∧ ∀ depth, e = .branch depth →
    (s.1.frame.reader.data = k.1 ∧ k.1.length ≤ L) ∧ Funded L total (f - 1) (k.2 + L) s.2

def Call (L total f bytes : ℕ) (_ : UInt32) (s : Store × Env) : Prop :=
  Funded L total (f - 1) (bytes + L) s.2

/-- A call does not end in a branch. -/
def Back (L total f bytes : ℕ) (_ : UInt32) (r : Except InterpError (Option Value))
    (s : Store × Env) : Prop :=
  Funded L total f bytes s.2 ∧ ∀ depth, r ≠ .error (.branch depth)

abbrev assertions (L total : ℕ) : Assertions ℕ (Bytes × ℕ) :=
  ⟨Call L total, Back L total, At L total, fun _ _ => True, Fails L total⟩

variable {k : Bytes × ℕ}

theorem Fails.of_ne {e : InterpError} {s : Machine × Env} (he : ∀ depth, e ≠ .branch depth)
    (h : Funded L total f k.2 s.2) : Fails L total f k e s :=
  ⟨h, fun depth hb => absurd hb (he depth)⟩

theorem At.of_funded {s : Machine × Env} (h : s.1.frame.reader.data = k.1 ∧ k.1.length ≤ L)
    (hf : Funded L total f (k.2 + L) s.2) : At L total f k s := by
  refine ⟨h, hf.weaken le_rfl ?_⟩
  rw [Reader.remaining, h.1]
  omega

/-- One instruction takes from the bytes ahead; a call or a branch has paid for a body. -/
theorem step (module : WasmModule) {s : Machine × Env} (hat : At L total (f + 1) k s) :
    Ends True (dispatch module) s ((assertions L total).Stepped f k) := by
  obtain ⟨⟨hdata, hlen⟩, hat⟩ := hat
  have hless : f - 1 ≤ f + 1 := by omega
  refine (dispatch_ends module s.1 s.2).mono ?_
  rintro r ⟨m', env'⟩ hd
  cases hd with
  | ended hs he => exact .of_ne (InterpError.ne_branch he) (hat.weaken le_rfl (by omega))
  | short hop hs hc =>
    obtain ⟨x, hx, -⟩ := Reader.remaining_of_read hop (Nat.lt_succ_self _)
    rw [hx, Nat.add_right_comm] at hat
    exact .of_ne (by simp) ((hc.funded hat).weaken hless (by omega))
  | garbled hop hc hs he =>
    obtain ⟨x, hx, -⟩ := Reader.remaining_of_read hop (Nat.lt_succ_self _)
    rw [hx, Nat.add_right_comm] at hat
    exact .of_ne (InterpError.ne_branch he) ((hc.funded hat).weaken hless (by omega))
  | @performed opcode instr next _ _ _ hop hc hdec hp =>
    have hnext : s.1.frame.reader.pos < next := Decodes.lt ⟨opcode, hop, hdec⟩
    obtain ⟨x, hx, hle⟩ := Reader.remaining_of_read hop hnext
    rw [hx, Nat.add_right_comm] at hat
    have hpaid : instr ≠ .end → instr ≠ .nop → instr ≠ .drop →
        Funded L total (f - 1) (x + k.2 + L) env' :=
      fun hend hnop hdrop => hc.funded_body (isFree_eq_false hdec hend hnop hdrop) hat
    -- unless it traps, the cursor is behind the instruction
    have hahead : (∀ e, r = .error e → e.isTrap = false) →
        (m'.frame.reader.data = k.1 ∧ k.1.length ≤ L) ∧ m'.frame.reader.remaining ≤ x := by
      intro hr
      obtain ⟨hd, ho⟩ := hp.onward hr
      refine ⟨⟨hd.trans hdata, hlen⟩, le_trans ?_ hle⟩
      rw [Reader.remaining, hd]
      exact Nat.sub_le_sub_left ho.le _
    cases r with
    | error e =>
      refine ⟨(hc.funded hat).weaken hless (by omega), ?_⟩
      rintro depth rfl
      obtain ⟨hin, -⟩ := hahead (by rintro e ⟨⟩; rfl)
      have hbody : Funded L total (f - 1) (x + k.2 + L) env' := by
        rcases hp.error _ rfl with ht | ⟨_, -, rfl | rfl⟩ | ⟨he, -⟩
        · cases ht
        · exact hpaid (by simp) (by simp) (by simp)
        · exact hpaid (by simp) (by simp) (by simp)
        · cases he
      exact ⟨hin, hbody.weaken (by omega) (by omega)⟩
    | ok action =>
      obtain ⟨hin, hrem⟩ := hahead (by simp)
      have hat' : At L total (f - 1) k (m', env') :=
        ⟨hin, (hc.funded hat).weaken le_rfl (Nat.add_le_add_right hrem _)⟩
      cases action with
      | loop start => exact ⟨trivial, (hp.loop start rfl).2, hat'⟩
      | call i args =>
        -- the gas of the call pays for the body, beside the bytes ahead
        obtain rfl := hp.call i args rfl
        refine ⟨m'.frame.reader.remaining + k.2, (hpaid (by simp) (by simp) (by simp)).weaken le_rfl
          (by omega), fun v u frame hu hr => ⟨hr ▸ hin, hr ▸ hu.1⟩, fun e u hu => ?_⟩
        exact .of_ne (fun depth hb => hu.2 depth (hb ▸ rfl)) (hu.1.weaken le_rfl (by omega))
      | _ => exact hat'

theorem dispatchHostCall_ends {ctx : Context} {bytes : ℕ} {i : UInt32} {name : String}
    {args : List Value} {s : Store × Env} (hcall : Call L total f bytes i s) :
    Ends True (dispatchHostCall ctx name args) s (Back L total f bytes i) := by
  have hback : Funded L total f bytes s.2 := hcall.weaken (Nat.sub_le _ _) (Nat.le_add_right _ _)
  refine (ends_onEnv (chargeGas_metered (·.hostCall name) s.2)).bind ?_ ?_
  · rintro _ ⟨_, env⟩ ⟨rfl, hm⟩
    have hfunded := hback.of_metered hm
    split
    · exact ends_throw ⟨hfunded, by simp⟩
    · refine (runHostFunction_settles (fun v memory host hf => ?_) fun e he => ?_).ends
      · exact ⟨⟨hfunded.costs, hfunded.pays, hfunded.lasts⟩, by simp⟩
      · exact ⟨hfunded, fun depth hb => InterpError.ne_branch he depth (Except.error.inj hb)⟩
  · rintro e ⟨_, env⟩ ⟨rfl, hm⟩
    obtain ⟨⟨g, rfl⟩, -⟩ := hm.short e rfl
    exact ⟨hback.of_metered hm, by simp⟩

/-- **Runs end, and have paid for what they dispatched.** -/
theorem runRule (ctx : Context) (hlen : ∀ func ∈ ctx.module.functions, func.code.length ≤ L) :
    RunRule ctx True (assertions L total) where
  step f k s hat _ := step ctx.module hat
  again f k depth start s hf _ := .of_funded (hf.2 depth rfl).1 (hf.2 depth rfl).2
  skip f k depth s r hf hdata _ := by
    obtain ⟨⟨hd, hlen⟩, hbody⟩ := hf.2 depth rfl
    have hin : r.data = k.1 ∧ k.1.length ≤ L := ⟨hdata.trans hd, hlen⟩
    exact ⟨.of_funded hin (hbody.weaken (Nat.sub_le _ _) le_rfl), fun _ => ⟨hf.1, fun _ _ => ⟨hin, hbody⟩⟩⟩
  trap f k depth s r e hf he := .of_ne (InterpError.ne_branch he) hf.1
  body f bytes i params args s func hcall _ hfunc := by
    have hcode := hlen func (List.mem_of_getElem? hfunc)
    refine ⟨(func.code, bytes), .of_funded ⟨rfl, hcode⟩ hcall, fun v t hat => ⟨?_, by simp⟩,
      fun e t hf => ?_⟩
    · exact hat.2.weaken (Nat.le_succ f) (Nat.le_add_left _ _)
    · have hback := hf.1.weaken (Nat.le_succ f) le_rfl
      exact ⟨fun _ => ⟨hback, by simp⟩, fun he => ⟨hback, fun depth hb => he depth (Except.error.inj hb)⟩⟩
  refuse f bytes i s e hcall he _ :=
    ⟨hcall.weaken (Nat.sub_le _ _) (Nat.le_add_right _ _),
      fun depth hb => he depth (Except.error.inj hb)⟩
  host f bytes i imported args s hcall _ _ := dispatchHostCall_ends (i := i) hcall
  mono hf hat := ⟨hat.1, hat.2.weaken hf le_rfl⟩
  mono_fails hf h := ⟨h.1.weaken hf le_rfl, fun depth he =>
    ⟨(h.2 depth he).1, (h.2 depth he).2.weaken (Nat.sub_le_sub_right hf 1) le_rfl⟩⟩
  zero _ := ⟨fun k s hat => not_funded_zero hat.2, fun bytes i s hcall => not_funded_zero hcall⟩

end Paying

/-! ### Calls of a contract -/

/-- **Gas bounds execution**: a call under the default cost table returns, and dispatches no more
instructions than its gas limit and the longest body allow. -/
theorem executeContract_gasBound (rt : InterpreterRuntime) (address : Address) (L : ℕ)
    (hlen : ∀ contract : LoadedContract, rt.contracts[address]? = some contract →
      ∀ func ∈ contract.module.functions, func.code.length ≤ L)
    (name : String) (args : List ContractValue) (gas : GasMeter) (hcosts : gas.costs = {})
    (host : HostEnvironment) (p : ContractPermissions) :
    ∃ e : Execution,
      (∀ fuel, 2 * (L + (L + 1) * gas.limit.toNat) + 2 ≤ fuel →
        rt.executeContract address fuel name args gas host p = some e) ∧
      e.dispatched ≤ (gas.limit.toNat + 2) * (33 * L + 1) := by
  unfold InterpreterRuntime.executeContract
  cases hget : rt.contracts[address]? with
  | none => exact ⟨_, fun _ _ => rfl, Nat.zero_le _⟩
  | some contract =>
    dsimp only
    cases contract.module.exportedFunction? name with
    | none => exact ⟨_, fun _ _ => rfl, Nat.zero_le _⟩
    | some i =>
      dsimp only
      rcases gas.charge_cases (gas.costs.hostCall "base_call") with
        ⟨-, g, hc, hl, hg, -⟩ | ⟨-, e, g, hc, -⟩
      · rw [hc]
        dsimp only
        have hleft : g.gasRemaining.toNat ≤ gas.limit.toNat := by
          have := g.used_add_gasRemaining
          rw [hl] at this
          omega
        have hwork : work L L ⟨g, host, 0⟩ ≤ L + (L + 1) * gas.limit.toNat :=
          Nat.add_le_add_left (Nat.mul_le_mul_left _ hleft) _
        generalize htotal : work L L ⟨g, host, 0⟩ = total at hwork
        have hcall : Paying.Call L total (2 * total + 2) 0 i (contract.store, ⟨g, host, 0⟩) :=
          ⟨hg.trans hcosts, by simp [htotal], by dsimp only; omega⟩
        have hends := ((Paying.runRule ⟨contract.module, p⟩ (hlen contract hget)).run _).1
          0 0 i (args.map contractValueToValue) _ hcall
        obtain ⟨r, ⟨store, env⟩, hrun, hpaid, -⟩ := hends.exists_eq trivial
        refine ⟨⟨ExecutionOutcome.ofResult env.gas.used r,
          ⟨rt.contracts.insert address ⟨contract.module, store⟩⟩, env.gas, env.host,
          env.dispatched⟩, fun fuel hfuel => ?_, ?_⟩
        · rw [executeFunction_mono (by omega) hrun]
          rfl
        · have := hpaid.pays
          dsimp only at this ⊢
          nlinarith
      · rw [hc]
        exact ⟨_, fun _ _ => rfl, Nat.zero_le _⟩

def spinner : Bytes :=
  [0x00, 0x61, 0x73, 0x6D, 0x01, 0x00, 0x00, 0x00, 0x01, 0x04, 0x01, 0x60, 0x00, 0x00,
    0x03, 0x02, 0x01, 0x00, 0x07, 0x08, 0x01, 0x04, 0x73, 0x70, 0x69, 0x6E, 0x00, 0x00,
    0x0A, 0x09, 0x01, 0x07, 0x00, 0x03, 0x40, 0x0C, 0x00, 0x0B, 0x0B]

def spinning : InterpreterRuntime := (({} : InterpreterRuntime).loadContract ⟨.zero⟩ spinner {}).2

def quietHost : HostEnvironment :=
  { blockHeight := 1, blockTimestamp := 1000, callerAddress := ⟨.zero⟩, callerBalance := 0 }

theorem executeContract_gasBound_spin :
    ∃ e : Execution,
      (∀ fuel, 2 * (6 + 7 * 200) + 2 ≤ fuel →
        spinning.executeContract ⟨.zero⟩ fuel "spin" [] (.new 200) quietHost {} = some e) ∧
      e.dispatched ≤ (200 + 2) * (33 * 6 + 1) := by
  refine executeContract_gasBound spinning ⟨.zero⟩ 6 ?_ "spin" [] (.new 200) rfl quietHost {}
  have hlen : (spinning.contracts[(⟨.zero⟩ : Address)]?).all
      (fun c => c.module.functions.all fun func => decide (func.code.length ≤ 6)) = true := by
    decide +kernel
  intro contract hget func hfunc
  rw [hget] at hlen
  exact of_decide_eq_true (List.all_eq_true.mp hlen func hfunc)

end Gratia
