import Mathlib.Tactic

/-!
# Support — Runs

Runs of a machine that answers each input and moves on.  `step s a` is the answer to `a` in `s` and
the state after it; `run` is the state after a list of inputs, `trace` what an observer sees of it:
every answer, with an observation of the state reached.

A machine that may stop has no state after the step at which it does: `reach` is the state after a
list of inputs none of which stops it, and `Along` says that every step made meets a condition.

The second half is the calculus of `EStateM`, the machine that keeps its state when it fails: what
a sequence of two computations can do is what the first can do, then the second; and what every part
of a computation leaves alone (`Keeps`), the whole does.
-/

namespace Support

section Machine

variable {σ α ρ ω : Type} (step : σ → α → ρ × σ) (obs : σ → ω)

def run : σ → List α → σ
  | s, [] => s
  | s, a :: as => run (step s a).2 as

/-- What an observer sees along a list of inputs. -/
def trace : σ → List α → List (ρ × ω)
  | _, [] => []
  | s, a :: as => ((step s a).1, obs (step s a).2) :: trace (step s a).2 as

variable {step obs}

@[simp] theorem run_append (s : σ) (as bs : List α) :
    run step s (as ++ bs) = run step (run step s as) bs := by
  induction as generalizing s with
  | nil => rfl
  | cons a as ih => exact ih _

theorem trace_append (s : σ) (as bs : List α) :
    trace step obs s (as ++ bs) = trace step obs s as ++ trace step obs (run step s as) bs := by
  induction as generalizing s with
  | nil => rfl
  | cons a as ih => exact congrArg _ (ih _)

variable (step) in
/-- Every step along a list of inputs meets `P`, a condition on the state before it. -/
def AllSteps (P : σ → α → Prop) : σ → List α → Prop
  | _, [] => True
  | s, a :: as => P s a ∧ AllSteps P (step s a).2 as

instance AllSteps.decidable (P : σ → α → Prop) [∀ s a, Decidable (P s a)] :
    ∀ s as, Decidable (AllSteps step P s as)
  | _, [] => .isTrue trivial
  | s, a :: as =>
    let _ := AllSteps.decidable P (step s a).2 as
    inferInstanceAs (Decidable (P s a ∧ AllSteps step P (step s a).2 as))

variable {P Q : σ → α → Prop}

theorem run_induction_of_allSteps (Inv : σ → Prop) (hstep : ∀ s a, P s a → Inv s → Inv (step s a).2) :
    ∀ (as : List α) (s : σ), AllSteps step P s as → Inv s → Inv (run step s as) := by
  intro as
  induction as with
  | nil => intro s _ h; exact h
  | cons a as ih =>
    intro s hP h
    exact ih _ hP.2 (hstep s a hP.1 h)

variable {as : List α} {s : σ}

theorem allSteps_append {bs : List α} : AllSteps step P s (as ++ bs) ↔
    AllSteps step P s as ∧ AllSteps step P (run step s as) bs := by
  induction as generalizing s with
  | nil => exact (iff_of_eq (true_and _)).symm
  | cons a as ih => exact (and_congr_right fun _ => ih).trans and_assoc.symm

theorem allSteps_of_forall (s : σ) (h : ∀ a ∈ as, ∀ s, P s a) :
    AllSteps step P s as := by
  induction as generalizing s with
  | nil => trivial
  | cons a as ih =>
    rw [List.forall_mem_cons] at h
    exact ⟨h.1 s, ih _ h.2⟩

theorem run_induction (Inv : σ → Prop) (P : α → Prop)
    (hstep : ∀ s a, P a → Inv s → Inv (step s a).2) (as : List α) (s : σ) (hP : ∀ a ∈ as, P a)
    (h : Inv s) : Inv (run step s as) :=
  run_induction_of_allSteps Inv hstep as s (allSteps_of_forall s fun a ha _ => hP a ha) h

theorem AllSteps.of_invariant (Inv : σ → Prop) (hstep : ∀ s a, P s a → Inv s → Inv (step s a).2)
    (hQ : ∀ s a, P s a → Inv s → Q s a) :
    ∀ {as : List α} {s : σ}, AllSteps step P s as → Inv s → AllSteps step Q s as := by
  intro as
  induction as with
  | nil => intro s _ _; trivial
  | cons a as ih => intro s hP h; exact ⟨hQ s a hP.1 h, ih hP.2 (hstep s a hP.1 h)⟩

theorem AllSteps.invariant (Inv : σ → Prop) (hstep : ∀ s a, P s a → Inv s → Inv (step s a).2)
    (h : AllSteps step P s as) (hs : Inv s) :
    AllSteps step (fun s a => Inv (step s a).2) s as :=
  h.of_invariant Inv hstep hstep hs

theorem AllSteps.imp (hPQ : ∀ s a, P s a → Q s a) (h : AllSteps step P s as) :
    AllSteps step Q s as :=
  h.of_invariant (fun _ => True) (fun _ _ _ _ => trivial) (fun s a hP _ => hPQ s a hP) trivial

theorem AllSteps.and : ∀ {as : List α} {s : σ}, AllSteps step P s as →
    AllSteps step Q s as → AllSteps step (fun s a => P s a ∧ Q s a) s as := by
  intro as
  induction as with
  | nil => intro s _ _; trivial
  | cons a as ih => intro s hP hQ; exact ⟨⟨hP.1, hQ.1⟩, ih hP.2 hQ.2⟩

theorem allSteps_congr (Inv : σ → Prop) (hstep : ∀ s a, Q s a → Inv s → Inv (step s a).2)
    (hPQ : ∀ s a, Inv s → (P s a ↔ Q s a)) :
    ∀ (as : List α) (s : σ), Inv s → (AllSteps step P s as ↔ AllSteps step Q s as)
  | [], _, _ => Iff.rfl
  | a :: as, s, h => by
    rw [AllSteps, AllSteps, hPQ s a h]
    exact and_congr_right fun hQ => allSteps_congr Inv hstep hPQ as _ (hstep s a hQ h)

/-- **Bisimilar states answer alike.** -/
theorem trace_eq_of_bisim {R : σ → σ → Prop} (hobs : ∀ s t, R s t → obs s = obs t)
    (hstep : ∀ s t a, R s t → (step s a).1 = (step t a).1 ∧ R (step s a).2 (step t a).2) :
    ∀ (as : List α) (s t : σ), R s t → trace step obs s as = trace step obs t as := by
  intro as
  induction as with
  | nil => intro s t _; rfl
  | cons a as ih =>
    intro s t h
    obtain ⟨he, hR⟩ := hstep s t a h
    simp only [trace, he, hobs _ _ hR, ih _ _ hR]

end Machine

/-! ### Machines that may stop -/

section Partial

variable {σ α : Type} (step : σ → α → Option σ)

/-- The state after a list of inputs, if none of them stops the machine. -/
def reach : σ → List α → Option σ
  | s, [] => some s
  | s, a :: as => (step s a).bind fun t => reach t as

/-- Every step made along a list of inputs meets `P`, a condition on the state before it. -/
def Along (P : σ → α → Prop) : σ → List α → Prop
  | _, [] => True
  | s, a :: as => P s a ∧ ∀ t ∈ step s a, Along P t as

instance Along.decidable (P : σ → α → Prop) [∀ s a, Decidable (P s a)] :
    ∀ s as, Decidable (Along step P s as)
  | _, [] => .isTrue trivial
  | s, a :: as =>
    let _ := fun t => Along.decidable P t as
    inferInstanceAs (Decidable (P s a ∧ ∀ t ∈ step s a, Along step P t as))

variable {step}

theorem reach_cons {s t : σ} {a : α} {as : List α} (h : reach step s (a :: as) = some t) :
    ∃ s₁, step s a = some s₁ ∧ reach step s₁ as = some t :=
  Option.bind_eq_some_iff.mp h

variable {P : σ → α → Prop}

theorem reach_induction (Inv : σ → Prop)
    (hstep : ∀ s a t, P s a → step s a = some t → Inv s → Inv t) :
    ∀ {as : List α} {s t : σ}, Along step P s as → reach step s as = some t → Inv s → Inv t := by
  intro as
  induction as with
  | nil => intro s t _ hr h; cases hr; exact h
  | cons a as ih =>
    intro s t hP hr h
    obtain ⟨s₁, h₁, h₂⟩ := reach_cons hr
    exact ih (hP.2 s₁ h₁) h₂ (hstep s a s₁ hP.1 h₁ h)

theorem along_of_forall (h : ∀ s a, P s a) :
    ∀ (as : List α) (s : σ), Along step P s as
  | [], _ => trivial
  | a :: as, s => ⟨h s a, fun t _ => along_of_forall h as t⟩

theorem reach_invariant (Inv : σ → Prop) (hstep : ∀ s a t, step s a = some t → Inv s → Inv t)
    {as : List α} {s t : σ} (hr : reach step s as = some t) (h : Inv s) : Inv t :=
  reach_induction Inv (fun s a t _ => hstep s a t)
    (along_of_forall (P := fun _ _ => True) (fun _ _ => trivial) as s) hr h

/-- Where every step meets `C`, two conditions that agree in states with an invariant agree along the
inputs, if steps that meet the second keep the invariant. -/
theorem along_congr {Q C : σ → α → Prop} (Inv : σ → Prop)
    (hstep : ∀ s a t, C s a → Q s a → step s a = some t → Inv s → Inv t)
    (hPQ : ∀ s a, C s a → Inv s → (P s a ↔ Q s a)) :
    ∀ (as : List α) (s : σ), Along step C s as → Inv s → (Along step P s as ↔ Along step Q s as)
  | [], _, _, _ => Iff.rfl
  | a :: as, s, hC, h => by
    rw [Along, Along, hPQ s a hC.1 h]
    exact and_congr_right fun hQ => forall₂_congr fun t ht =>
      along_congr Inv hstep hPQ as t (hC.2 t ht) (hstep s a t hC.1 hQ ht h)

variable (step) in
/-- What the steps along a list of inputs put out. -/
def outputs {β : Type} (out : σ → α → Option β) : σ → List α → List β
  | _, [] => []
  | s, a :: as => (out s a).toList ++ ((step s a).map fun t => outputs out t as).getD []

theorem along_outputs {β : Type} {out : σ → α → Option β} {S : Set β} :
    ∀ (as : List α) (s : σ), (∀ x ∈ outputs step out s as, x ∈ S) →
      Along step (fun s a => ∀ x ∈ out s a, x ∈ S) s as
  | [], _, _ => trivial
  | a :: as, s, h => by
    refine ⟨fun x hx => h x ?_, fun t ht => along_outputs as t fun x hx => h x ?_⟩
    · exact List.mem_append.mpr (.inl (Option.mem_toList.mpr hx))
    · refine List.mem_append.mpr (.inr ?_)
      rw [show step s a = some t from ht]
      exact hx

end Partial

/-! ### Computations that keep their state when they fail -/

section Effects

variable {ε σ α β γ : Type} {x : EStateM ε σ α} {f : α → EStateM ε σ β} {s s' : σ} {e : ε} {b : β}

theorem bind_ok :
    (x >>= f).run s = .ok b s' ↔ ∃ a s₁, x.run s = .ok a s₁ ∧ (f a).run s₁ = .ok b s' := by
  show EStateM.bind x f s = _ ↔ ∃ a s₁, x s = _ ∧ _
  unfold EStateM.bind
  cases x s with
  | ok a s₁ => simp [EStateM.run]
  | error e s₁ => simp

theorem bind_error : (x >>= f).run s = .error e s' ↔
    x.run s = .error e s' ∨ ∃ a s₁, x.run s = .ok a s₁ ∧ (f a).run s₁ = .error e s' := by
  show EStateM.bind x f s = _ ↔ x s = _ ∨ ∃ a s₁, x s = _ ∧ _
  unfold EStateM.bind
  cases x s with
  | ok a s₁ => simp [EStateM.run]
  | error e s₁ => simp

variable {a : α} {p : Prop} {g : α → Except ε β} {r : Except ε α}

theorem bind_of_ok {s₁ : σ} (h : x.run s = .ok a s₁) :
    (x >>= f).run s = (f a).run s₁ := by
  show EStateM.bind x f s = _
  unfold EStateM.bind
  rw [show x s = _ from h]
  rfl

theorem bind_of_error (h : x.run s = .error e s') : (x >>= f).run s = .error e s' :=
  bind_error.mpr (.inl h)

def finalState : EStateM.Result ε σ α → σ
  | .ok _ s => s
  | .error _ s => s

def failure : EStateM.Result ε σ α → Option ε
  | .ok _ _ => none
  | .error e _ => some e

theorem eq_ok_of_failure {r : EStateM.Result ε σ PUnit} (h : failure r = none) :
    r = .ok ⟨⟩ (finalState r) := by
  cases r with
  | ok _ s => rfl
  | error e s => cases h

theorem eq_error_of_failure {r : EStateM.Result ε σ α} (h : failure r = some e) :
    r = .error e (finalState r) := by
  cases r with
  | ok _ s => cases h
  | error e s => cases h; rfl

/-- Whether a computation succeeds is decided by running it. -/
instance decidableEqOk (r : EStateM.Result ε σ PUnit) : Decidable (r = .ok ⟨⟩ (finalState r)) :=
  decidable_of_iff (failure r = none) ⟨eq_ok_of_failure, fun h => by rw [h]; rfl⟩

instance decidableEqError [DecidableEq ε] (r : EStateM.Result ε σ α) :
    Decidable (r = .error e (finalState r)) :=
  decidable_of_iff (failure r = some e) ⟨eq_error_of_failure, fun h => by rw [h]; rfl⟩

/-- What is evaluated once is stated and used. -/
theorem and_of_imp {q : Prop} (hp : p) (hq : p → q) : p ∧ q := ⟨hp, hq hp⟩

@[simp] theorem except_ok_bind : (Except.ok a >>= g) = g a := rfl

@[simp] theorem except_error_bind :
    ((Except.error e : Except ε α) >>= g) = .error e := rfl

theorem except_bind_ok :
    (r >>= g) = .ok b ↔ ∃ a, r = .ok a ∧ g a = .ok b := by
  cases r with
  | error e | ok a => simp

theorem except_seq_ok {r : Except ε Unit} {g : Except ε β} :
    (r >>= fun _ => g) = .ok b ↔ r = .ok () ∧ g = .ok b := by
  cases r with
  | error e | ok u => simp

theorem except_map_ok {g : α → β} : r.map g = .ok b ↔ ∃ a, r = .ok a ∧ g a = b := by
  cases r with
  | error e | ok a => simp [Except.map]

theorem except_ite_ok [Decidable p] {r : Except ε β} :
    (if p then .error e else r) = .ok b ↔ ¬ p ∧ r = .ok b := by
  split
  next hp => simp [hp]
  next hp => simp [hp]

theorem except_guard_ok [Decidable p] {r : Except ε β} :
    (if p then (do (throw e : Except ε PUnit); r) else r) = .ok b ↔ ¬ p ∧ r = .ok b := by
  split
  next hp => simp [hp, throw, throwThe, MonadExceptOf.throw]
  next hp => simp [hp]

@[simp] theorem mapError_ok {ε' : Type} {g : ε → ε'} :
    r.mapError g = .ok a ↔ r = .ok a := by
  cases r with
  | error e | ok a => simp [Except.mapError]

@[simp] theorem toOption_eq_some : r.toOption = some a ↔ r = .ok a := by
  cases r with
  | error e | ok a => simp [Except.toOption]

variable {cs : List γ}

theorem forM_checks_ok {g : γ → Except ε Unit} : forM cs g = .ok () ↔ ∀ c ∈ cs, g c = .ok () := by
  induction cs with
  | nil => exact ⟨fun _ _ h => absurd h List.not_mem_nil, fun _ => rfl⟩
  | cons c cs ih =>
    rw [List.forM_cons, List.forall_mem_cons]
    cases g c with
    | error e => simp
    | ok u => simpa using ih

theorem forall_mem_zipIdx {p : γ → Prop} : (∀ c i, (c, i) ∈ cs.zipIdx → p c) ↔ ∀ c ∈ cs, p c := by
  constructor
  · intro h c hc
    obtain ⟨i, hi, rfl⟩ := List.mem_iff_getElem.mp hc
    exact h _ i (by simp [List.mk_mem_zipIdx_iff_getElem?, hi])
  · exact fun h c i hmem => h c (List.fst_mem_of_mem_zipIdx hmem)

variable {g : γ → EStateM ε σ PUnit}

theorem forM_append_ok {as bs : List γ} :
    (forM (as ++ bs) g).run s = .ok ⟨⟩ s' ↔
      ∃ s₁, (forM as g).run s = .ok ⟨⟩ s₁ ∧ (forM bs g).run s₁ = .ok ⟨⟩ s' := by
  rw [List.forM_append, bind_ok]
  exact ⟨fun ⟨_, s₁, h⟩ => ⟨s₁, h⟩, fun ⟨s₁, h⟩ => ⟨_, s₁, h⟩⟩

theorem forM_cons_ok {c : γ} :
    (forM (c :: cs) g).run s = .ok ⟨⟩ s' ↔
      ∃ s₁, (g c).run s = .ok ⟨⟩ s₁ ∧ (forM cs g).run s₁ = .ok ⟨⟩ s' := by
  rw [List.forM_cons, bind_ok]
  exact ⟨fun ⟨_, s₁, h⟩ => ⟨s₁, h⟩, fun ⟨s₁, h⟩ => ⟨_, s₁, h⟩⟩

theorem forM_error :
    (forM cs g).run s = .error e s' → ∃ pre c post s₁, cs = pre ++ c :: post ∧
      (forM pre g).run s = .ok ⟨⟩ s₁ ∧ (g c).run s₁ = .error e s' := by
  induction cs generalizing s with
  | nil => intro h; cases h
  | cons c cs ih =>
    intro h
    rw [List.forM_cons] at h
    rcases bind_error.mp h with h | ⟨_, s₁, h₁, h₂⟩
    · exact ⟨[], c, cs, s, rfl, rfl, h⟩
    · obtain ⟨pre, d, post, s₂, rfl, hp, hd⟩ := ih h₂
      exact ⟨c :: pre, d, post, s₂, rfl, forM_cons_ok.mpr ⟨s₁, h₁, hp⟩, hd⟩

/-! ### What a computation leaves alone -/

variable {ω : Type} {see : σ → ω}

/-- The computation leaves what `see` sees as it was, also when it fails. -/
def Keeps (see : σ → ω) (x : EStateM ε σ α) : Prop := ∀ s, see (finalState (x.run s)) = see s

theorem Keeps.of_ok (hx : Keeps see x) (h : x.run s = .ok a s') : see s' = see s := by
  have hs := hx s
  rw [h] at hs
  exact hs

theorem Keeps.of_error (hx : Keeps see x) (h : x.run s = .error e s') : see s' = see s := by
  have hs := hx s
  rw [h] at hs
  exact hs

theorem keeps_pure (a : α) : Keeps see (pure a : EStateM ε σ α) := fun _ => rfl

theorem Keeps.bind (hx : Keeps see x) (hf : ∀ a, Keeps see (f a)) : Keeps see (x >>= f) := by
  intro s
  cases hr : x.run s with
  | ok a s₁ => rw [bind_of_ok hr, hf a s₁, hx.of_ok hr]
  | error e s₁ => rw [bind_of_error hr, ← hx.of_error hr]; rfl

theorem Keeps.forM (hg : ∀ c, Keeps see (g c)) (cs : List γ) : Keeps see (forM cs g) := by
  induction cs with
  | nil => exact keeps_pure _
  | cons c cs ih =>
    rw [List.forM_cons]
    exact (hg c).bind fun _ => ih

end Effects

end Support
