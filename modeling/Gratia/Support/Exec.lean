import Mathlib.Logic.Basic

/-!
# Support — Exec

Computations with fuel.  `Exec ε σ α` may run out of fuel, may fail with an `ε`, and keeps its state
`σ` either way: the monad of an interpreter whose loops and calls are recursive; its steps are
`EStateM` computations, which need no fuel.  Each judgement has a rule for every way a
computation is put together.
-/

namespace Support

/-- A computation over a state `σ`: no result when the fuel runs out, else a value or an error, with
the state it leaves. -/
def Exec (ε σ α : Type) : Type := σ → Option (Except ε α × σ)

namespace Exec

variable {ε σ τ α β : Type}

def exhausted : Exec ε σ α := fun _ => none

/-- Run `x`, then go on with `f` or with its error. -/
def bind (x : Exec ε σ α) (f : α → Exec ε σ β) : Exec ε σ β := fun s =>
  match x s with
  | none => none
  | some (.ok a, s') => f a s'
  | some (.error e, s') => some (.error e, s')

instance : Monad (Exec ε σ) where
  pure a := fun s => some (.ok a, s)
  bind := bind

instance : MonadExceptOf ε (Exec ε σ) where
  throw e := fun s => some (.error e, s)
  tryCatch x h := fun s =>
    match x s with
    | some (.error e, s') => h e s'
    | r => r

/-- A computation that needs no fuel. -/
def lift (x : EStateM ε σ α) : Exec ε σ α := fun s =>
  match x s with
  | .ok a s' => some (.ok a, s')
  | .error e s' => some (.error e, s')

variable {s s' : σ} {a : α} {e : ε}

theorem lift_of_ok {x : EStateM ε σ α} (h : x s = .ok a s') : lift x s = some (.ok a, s') := by
  rw [lift, h]

theorem lift_of_error {x : EStateM ε σ α} (h : x s = .error e s') :
    lift x s = some (.error e, s') := by
  rw [lift, h]

variable {x : Exec ε σ α} {f : α → Exec ε σ β}

theorem bind_of_ok (h : x s = some (.ok a, s')) : (x >>= f) s = f a s' := by
  change bind x f s = _
  rw [bind, h]

theorem bind_of_error (h : x s = some (.error e, s')) :
    (x >>= f) s = some (.error e, s') := by
  change bind x f s = _
  rw [bind, h]

theorem bind_congr {x' : Exec ε σ α} (h : x s = x' s') : (x >>= f) s = (x' >>= f) s' := by
  change bind x f s = bind x' f s'
  rw [bind, bind, h]

theorem bind_congr_right {f' : α → Exec ε σ β} (h : ∀ a, f a = f' a) :
    (x >>= f) s = (x >>= f') s := by
  rw [funext h]

theorem bind_unit (x : Exec ε σ Unit) : (x >>= fun _ => pure ()) = x := by
  funext s
  change bind x _ s = _
  unfold bind
  cases x s with
  | none => rfl
  | some p =>
    rcases p with ⟨_ | a, s'⟩
    · rfl
    · rfl

theorem bind_of_none (h : x s = none) : (x >>= f) s = none := by
  change bind x f s = _
  rw [bind, h]

variable {h : ε → Exec ε σ α}

theorem tryCatch_of_none (hx : x s = none) : (tryCatch x h) s = none := by
  change (match x s with | some (.error e, s') => h e s' | r => r) = _
  rw [hx]

theorem tryCatch_of_ok (hx : x s = some (.ok a, s')) :
    (tryCatch x h) s = some (.ok a, s') := by
  change (match x s with | some (.error e, s') => h e s' | r => r) = _
  rw [hx]

theorem tryCatch_of_error (hx : x s = some (.error e, s')) : (tryCatch x h) s = h e s' := by
  change (match x s with | some (.error e, s') => h e s' | r => r) = _
  rw [hx]

/-- A computation over a part of the state, or over an extension of it. -/
def within (into : σ → τ) (back : σ → τ → σ) (x : Exec ε τ α) : Exec ε σ α := fun s =>
  (x (into s)).map fun (r, t) => (r, back s t)

end Exec

/-! ### What a step does -/

section Settles

variable {ε σ τ α β : Type} {x : EStateM ε σ α} {f : α → EStateM ε σ β} {s : σ}
  {Q : Except ε α → σ → Prop} {Q' : Except ε β → σ → Prop}

/-- The step `x` ends from `s` in `Q`. -/
def Settles (x : EStateM ε σ α) (s : σ) (Q : Except ε α → σ → Prop) : Prop :=
  match x s with
  | .ok a s' => Q (.ok a) s'
  | .error e s' => Q (.error e) s'

variable {P : Except ε α → σ → Prop}

theorem Settles.mono (h : Settles x s P) (hPQ : ∀ r s', P r s' → Q r s') : Settles x s Q := by
  unfold Settles at h ⊢
  split at h
  · exact hPQ _ _ h
  · exact hPQ _ _ h

theorem Settles.ok (h : Settles x s Q) {a : α} {s' : σ} (hx : x s = .ok a s') : Q (.ok a) s' := by
  rw [Settles, hx] at h
  exact h

theorem Settles.error (h : Settles x s Q) {e : ε} {s' : σ} (hx : x s = .error e s') :
    Q (.error e) s' := by
  rw [Settles, hx] at h
  exact h

theorem Settles.and (h : Settles x s P) (h' : Settles x s Q) :
    Settles x s fun r s' => P r s' ∧ Q r s' := by
  unfold Settles at h h' ⊢
  cases hx : x s with
  | ok a s' | error e s' => rw [hx] at h h'; exact ⟨h, h'⟩

theorem settles_of_forall (h : ∀ r s', Q r s') : Settles x s Q := by
  unfold Settles
  split
  · exact h _ _
  · exact h _ _

theorem Settles.bind (hx : Settles x s P) (hok : ∀ a s', P (.ok a) s' → Settles (f a) s' Q')
    (herr : ∀ e s', P (.error e) s' → Q' (.error e) s') : Settles (x >>= f) s Q' := by
  change (match EStateM.bind x f s with | .ok a s' => _ | .error e s' => _)
  unfold EStateM.bind
  cases h : x s with
  | ok a s' => exact hok a s' (hx.ok h)
  | error e s' => exact herr e s' (hx.error h)

theorem settles_get {f : σ → EStateM ε σ β} (h : Settles (f s) s Q') :
    Settles (get >>= f) s Q' := h

theorem Settles.map {g : α → β} (hx : Settles x s fun r s' => Q' (r.map g) s') :
    Settles (g <$> x) s Q' := by
  change (match EStateM.map g x s with | .ok a s' => _ | .error e s' => _)
  unfold EStateM.map
  cases h : x s with
  | ok a s' => exact hx.ok h
  | error e s' => exact hx.error h

end Settles

/-! ### How a computation ends -/

section Ends

variable {ε σ τ α β : Type} {T : Prop} {x : Exec ε σ α} {f : α → Exec ε σ β} {s : σ}
  {P Q : Except ε α → σ → Prop} {Q' : Except ε β → σ → Prop}

/-- `x` ends from `s` in `Q`, or it does not end and `T` is false.  With `T` true this is total
correctness, and with `T` false partial correctness. -/
def Ends (T : Prop) (x : Exec ε σ α) (s : σ) (Q : Except ε α → σ → Prop) : Prop :=
  match x s with
  | none => ¬T
  | some (r, s') => Q r s'

/-- One postcondition for results and one for errors. -/
def Outcome (P : α → σ → Prop) (F : ε → σ → Prop) : Except ε α → σ → Prop
  | .ok a => P a
  | .error e => F e

theorem Ends.of_eq (h : Ends T x s Q) {r : Except ε α} {s' : σ} (hx : x s = some (r, s')) :
    Q r s' := by
  rw [Ends, hx] at h
  exact h

theorem ends_of_forall (h : ∀ r s', x s = some (r, s') → Q r s') : Ends False x s Q := by
  unfold Ends
  split
  · exact id
  next hx => exact h _ _ hx

theorem Ends.exists_eq (h : Ends T x s Q) (hT : T) : ∃ r s', x s = some (r, s') ∧ Q r s' := by
  unfold Ends at h
  split at h
  · exact absurd hT h
  next hx => exact ⟨_, _, hx, h⟩

theorem Ends.mono (h : Ends T x s P) (hPQ : ∀ r s', P r s' → Q r s') : Ends T x s Q := by
  unfold Ends at h ⊢
  split at h
  · exact h
  · exact hPQ _ _ h

theorem ends_exhausted (hT : ¬T) : Ends T (Exec.exhausted : Exec ε σ α) s Q := hT

theorem ends_pure {a : α} (h : Q (.ok a) s) : Ends T (pure a : Exec ε σ α) s Q := h

theorem ends_throw {e : ε} (h : Q (.error e) s) : Ends T (throw e : Exec ε σ α) s Q := h

theorem Ends.bind (hx : Ends T x s Q) (hok : ∀ a s', Q (.ok a) s' → Ends T (f a) s' Q')
    (herr : ∀ e s', Q (.error e) s' → Q' (.error e) s') : Ends T (x >>= f) s Q' := by
  change (match Exec.bind x f s with | none => _ | some (r, s') => _)
  unfold Exec.bind
  unfold Ends at hx
  rcases hxs : x s with _ | ⟨_ | a, s'⟩ <;> rw [hxs] at hx
  · exact hx
  · exact herr _ _ hx
  · exact hok a s' hx

theorem Ends.tryCatch {h : ε → Exec ε σ α} (hx : Ends T x s P)
    (hok : ∀ a s', P (.ok a) s' → Q (.ok a) s')
    (herr : ∀ e s', P (.error e) s' → Ends T (h e) s' Q) : Ends T (tryCatch x h) s Q := by
  unfold Ends at hx
  rcases hxs : x s with _ | ⟨e | a, s'⟩ <;> rw [hxs] at hx
  · rw [Ends, Exec.tryCatch_of_none hxs]
    exact hx
  · rw [Ends, Exec.tryCatch_of_error hxs]
    exact herr e s' hx
  · rw [Ends, Exec.tryCatch_of_ok hxs]
    exact hok a s' hx

theorem Settles.ends {x : EStateM ε σ α} (h : Settles x s Q) : Ends T (Exec.lift x) s Q := by
  unfold Settles at h
  unfold Ends Exec.lift
  cases hx : x s with
  | ok a s' | error e s' => rw [hx] at h; exact h

theorem ends_within {into : σ → τ} {back : σ → τ → σ} {x : Exec ε τ α}
    (h : Ends T x (into s) fun r t => Q r (back s t)) : Ends T (Exec.within into back x) s Q := by
  unfold Ends at h
  unfold Ends Exec.within
  cases hx : x (into s) with
  | none | some p => rw [hx] at h; exact h

end Ends

/-! ### Two computations in step -/

section Follows

variable {ε σ σ' τ τ' α β : Type} {Lost : ε → Prop} {R : σ → τ → Prop} {x : Exec ε σ α}
  {y : Exec ε τ α}

/-- From related states `y` ends as `x` does, in related states, unless `x` ends in an error that is
`Lost`. -/
def Follows (Lost : ε → Prop) (R : σ → τ → Prop) (x : Exec ε σ α) (y : Exec ε τ α) : Prop :=
  ∀ s t, R s t → Ends False x s fun r s' =>
    (∃ e, r = .error e ∧ Lost e) ∨ ∃ t', y t = some (r, t') ∧ R s' t'

theorem follows_exhausted : Follows Lost R (Exec.exhausted : Exec ε σ α) y :=
  fun _ _ _ => ends_exhausted id

theorem follows_refl (x : Exec ε σ α) : Follows Lost Eq x x := by
  rintro s _ rfl
  exact ends_of_forall fun r s' hr => .inr ⟨s', hr, rfl⟩

theorem follows_pure (a : α) : Follows Lost R (pure a : Exec ε σ α) (pure a) :=
  fun _ t h => ends_pure (.inr ⟨t, rfl, h⟩)

theorem follows_throw (e : ε) : Follows Lost R (throw e : Exec ε σ α) (throw e) :=
  fun _ t h => ends_throw (.inr ⟨t, rfl, h⟩)

theorem Follows.bind {f : α → Exec ε σ β} {g : α → Exec ε τ β} (hxy : Follows Lost R x y)
    (hfg : ∀ a, Follows Lost R (f a) (g a)) : Follows Lost R (x >>= f) (y >>= g) := by
  intro s t hst
  refine (hxy s t hst).bind ?_ ?_
  · rintro a s' (⟨e, he, -⟩ | ⟨t', hy, hR⟩)
    · cases he
    · refine (hfg a s' t' hR).mono fun r s₂ => Or.imp_right ?_
      rintro ⟨t₂, hg, hR₂⟩
      exact ⟨t₂, (Exec.bind_of_ok hy).trans hg, hR₂⟩
  · rintro e s' (⟨e', he, hl⟩ | ⟨t', hy, hR⟩)
    · cases he
      exact .inl ⟨e, rfl, hl⟩
    · exact .inr ⟨t', Exec.bind_of_error hy, hR⟩

theorem Follows.tryCatch {h : ε → Exec ε σ α} {k : ε → Exec ε τ α} (hxy : Follows Lost R x y)
    (hhk : ∀ e, ¬Lost e → Follows Lost R (h e) (k e)) (hlost : ∀ e, Lost e → h e = throw e) :
    Follows Lost R (tryCatch x h) (tryCatch y k) := by
  intro s t hst
  refine (hxy s t hst).tryCatch ?_ ?_
  · rintro a s' (⟨e, he, -⟩ | ⟨t', hy, hR⟩)
    · cases he
    · exact .inr ⟨t', Exec.tryCatch_of_ok hy, hR⟩
  · intro e s' hP
    by_cases hl : Lost e
    · rw [hlost e hl]
      exact ends_throw (.inl ⟨e, rfl, hl⟩)
    · obtain ⟨e', he, hl'⟩ | ⟨t', hy, hR⟩ := hP
      · cases he
        exact absurd hl' hl
      · refine (hhk e hl s' t' hR).mono fun r s₂ => Or.imp_right ?_
        rintro ⟨t₂, hk, hR₂⟩
        exact ⟨t₂, (Exec.tryCatch_of_error hy).trans hk, hR₂⟩

theorem Follows.within {S : σ' → τ' → Prop} {into : σ' → σ} {back : σ' → σ → σ'}
    {into' : τ' → τ} {back' : τ' → τ → τ'} (hinto : ∀ s t, S s t → R (into s) (into' t))
    (hback : ∀ s t s' t', S s t → R s' t' → S (back s s') (back' t t'))
    (hxy : Follows Lost R x y) :
    Follows Lost S (Exec.within into back x) (Exec.within into' back' y) := by
  intro s t hst
  refine ends_within ((hxy _ _ (hinto s t hst)).mono fun r s' => Or.imp_right ?_)
  rintro ⟨t', hy, hR⟩
  exact ⟨back' t t', Option.map_eq_some_iff.mpr ⟨(r, t'), hy, rfl⟩, hback s t s' t' hst hR⟩

end Follows

/-! ### Two computations that end alike -/

section Alongside

variable {ε σ σ' τ τ' α β : Type} {x : Exec ε σ α} {y : Exec ε τ α} {s : σ} {t : τ}
  {f : α → Exec ε σ β} {g : α → Exec ε τ β} {Q : Except ε α → σ → τ → Prop}
  {Q' : Except ε β → σ → τ → Prop}

/-- `x` from `s` and `y` from `t` both run out of fuel, or end alike and in states related by `Q`.
-/
def Alongside (x : Exec ε σ α) (s : σ) (y : Exec ε τ α) (t : τ) (Q : Except ε α → σ → τ → Prop) :
    Prop :=
  (x s = none ∧ y t = none) ∨ ∃ r s' t', x s = some (r, s') ∧ y t = some (r, t') ∧ Q r s' t'

variable {s' : σ}

theorem alongside_of_eq {r : Except ε α} {t' : τ} (hx : x s = some (r, s'))
    (hy : y t = some (r, t')) (hQ : Q r s' t') : Alongside x s y t Q :=
  .inr ⟨r, s', t', hx, hy, hQ⟩

theorem alongside_exhausted : Alongside (Exec.exhausted : Exec ε σ α) s Exec.exhausted t Q :=
  .inl ⟨rfl, rfl⟩

theorem Alongside.bind (hxy : Alongside x s y t Q)
    (hok : ∀ a s' t', Q (.ok a) s' t' → Alongside (f a) s' (g a) t' Q')
    (herr : ∀ e s' t', Q (.error e) s' t' → Q' (.error e) s' t') :
    Alongside (x >>= f) s (y >>= g) t Q' := by
  obtain ⟨hx, hy⟩ | ⟨r, s', t', hx, hy, hQ⟩ := hxy
  · exact .inl ⟨Exec.bind_of_none hx, Exec.bind_of_none hy⟩
  cases r with
  | ok a =>
    unfold Alongside
    rw [Exec.bind_of_ok hx, Exec.bind_of_ok hy]
    exact hok a s' t' hQ
  | error e =>
    exact alongside_of_eq (Exec.bind_of_error hx) (Exec.bind_of_error hy) (herr e s' t' hQ)

theorem Alongside.tryCatch {h : ε → Exec ε σ α} {k : ε → Exec ε τ α}
    {P : Except ε α → σ → τ → Prop} (hxy : Alongside x s y t P)
    (hok : ∀ a s' t', P (.ok a) s' t' → Q (.ok a) s' t')
    (herr : ∀ e s' t', P (.error e) s' t' → Alongside (h e) s' (k e) t' Q) :
    Alongside (tryCatch x h) s (tryCatch y k) t Q := by
  obtain ⟨hx, hy⟩ | ⟨r, s', t', hx, hy, hP⟩ := hxy
  · exact .inl ⟨Exec.tryCatch_of_none hx, Exec.tryCatch_of_none hy⟩
  cases r with
  | ok a =>
    exact alongside_of_eq (Exec.tryCatch_of_ok hx) (Exec.tryCatch_of_ok hy) (hok a s' t' hP)
  | error e =>
    unfold Alongside
    rw [Exec.tryCatch_of_error hx, Exec.tryCatch_of_error hy]
    exact herr e s' t' hP

theorem Alongside.of_eq {x' : Exec ε σ α} {y' : Exec ε τ α} {t' : τ} (hx : x s = x' s')
    (hy : y t = y' t') (h : Alongside x' s' y' t' Q) : Alongside x s y t Q := by
  unfold Alongside
  rw [hx, hy]
  exact h

theorem Alongside.after {x : Exec ε σ β} {f : β → Exec ε σ α} {b : β} (hx : x s = some (.ok b, s'))
    (h : Alongside (f b) s' y t Q) : Alongside (x >>= f) s y t Q :=
  .of_eq (Exec.bind_of_ok hx) rfl h

theorem alongside_within {into : σ → σ'} {back : σ → σ' → σ} {into' : τ → σ'} {back' : τ → σ' → τ}
    {x : Exec ε σ' α} (hinto : into s = into' t) (hQ : ∀ r u, Q r (back s u) (back' t u)) :
    Alongside (Exec.within into back x) s (Exec.within into' back' x) t Q := by
  unfold Alongside Exec.within
  rw [hinto]
  cases x (into' t) with
  | none => exact .inl ⟨rfl, rfl⟩
  | some p => exact .inr ⟨p.1, _, _, rfl, rfl, hQ _ _⟩

end Alongside

end Support
