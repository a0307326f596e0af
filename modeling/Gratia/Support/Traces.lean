import Gratia.Support.Exec

/-!
# Support — Traces

What a computation shows of itself.  A trace is not part of a computation: it is worked out beside
it, from the state it starts in.  `Shows Φ x s w` says that `x` from `s`, if it ends, has gone
through the trace `w` to a state that `Φ` relates to `s` along `w`; for a `Φ` that holds of nothing
happening and of one run after another there is a rule for every way computations are put together.
-/

namespace Support

variable {ε σ τ α β ω : Type}

namespace Exec

/-- What follows a computation, if it ends with a value. -/
def after (idle : ω) (x : Exec ε σ α) (s : σ) (k : α → σ → ω) : ω :=
  match x s with
  | some (.ok a, s') => k a s'
  | _ => idle

/-- What follows a computation, if it ends with an error. -/
def afterError (idle : ω) (x : Exec ε σ α) (s : σ) (k : ε → σ → ω) : ω :=
  match x s with
  | some (.error e, s') => k e s'
  | _ => idle

variable {idle : ω} {x : Exec ε σ α} {s s' : σ}

variable {k : α → σ → ω}

theorem after_of_ok {a : α} (h : x s = some (.ok a, s')) : after idle x s k = k a s' := by
  rw [after, h]

theorem after_of_error {e : ε} (h : x s = some (.error e, s')) : after idle x s k = idle := by
  rw [after, h]

theorem afterError_of_ok {a : α} {k : ε → σ → ω} (h : x s = some (.ok a, s')) :
    afterError idle x s k = idle := by
  rw [afterError, h]

theorem afterError_of_error {e : ε} {k : ε → σ → ω} (h : x s = some (.error e, s')) :
    afterError idle x s k = k e s' := by
  rw [afterError, h]

theorem after_rule {P : ω → Prop} (hidle : P idle) (h : ∀ a s', x s = some (.ok a, s') → P (k a s')) :
    P (after idle x s k) := by
  unfold after
  split
  next hx => exact h _ _ hx
  next => exact hidle

theorem afterError_rule {P : ω → Prop} {k : ε → σ → ω} (hidle : P idle)
    (h : ∀ e s', x s = some (.error e, s') → P (k e s')) : P (afterError idle x s k) := by
  unfold afterError
  split
  next hx => exact h _ _ hx
  next => exact hidle

end Exec

/-- A relation between states along a trace that composes. -/
structure Composes (Φ : σ → List ω → σ → Prop) : Prop where
  refl : ∀ s, Φ s [] s
  trans : ∀ s t u w w', Φ s w t → Φ t w' u → Φ s (w ++ w') u

/-- If `x` ends from `s`, its trace `w` has led there. -/
def Shows (Φ : σ → List ω → σ → Prop) (x : Exec ε σ α) (s : σ) (w : List ω) : Prop :=
  ∀ r s', x s = some (r, s') → Φ s w s'

variable {Φ : σ → List ω → σ → Prop} {x : Exec ε σ α} {f : α → Exec ε σ β} {s : σ} {w : List ω}

theorem shows_exhausted : Shows Φ (Exec.exhausted : Exec ε σ α) s w := by
  intro r s' h
  cases h

theorem Ends.shows (h : Ends False x s fun _ s' => Φ s [] s') : Shows Φ x s [] :=
  fun _ _ => h.of_eq

namespace Composes

variable (hΦ : Composes Φ)
include hΦ

protected theorem pure (a : α) : Shows Φ (pure a : Exec ε σ α) s [] := by
  rintro r s' ⟨⟩
  exact hΦ.refl s

protected theorem throw (e : ε) : Shows Φ (throw e : Exec ε σ α) s [] := by
  rintro r s' ⟨⟩
  exact hΦ.refl s

protected theorem bind {k : α → σ → List ω} (hx : Shows Φ x s w)
    (hf : ∀ a s', x s = some (.ok a, s') → Shows Φ (f a) s' (k a s')) :
    Shows Φ (x >>= f) s (w ++ Exec.after [] x s k) := by
  intro r s' hr
  cases hxs : x s with
  | none =>
    rw [Exec.bind_of_none hxs] at hr
    cases hr
  | some p =>
    obtain ⟨r₁, s₁⟩ := p
    cases r₁ with
    | ok a =>
      rw [Exec.bind_of_ok hxs] at hr
      rw [Exec.after_of_ok hxs]
      exact hΦ.trans s s₁ s' w _ (hx _ _ hxs) (hf a s₁ hxs r s' hr)
    | error e =>
      rw [Exec.bind_of_error hxs] at hr
      cases hr
      rw [Exec.after_of_error hxs, List.append_nil]
      exact hx _ _ hxs

theorem bind_left {k : α → σ → List ω} (hx : Shows Φ x s [])
    (hf : ∀ a s', x s = some (.ok a, s') → Shows Φ (f a) s' (k a s')) :
    Shows Φ (x >>= f) s (Exec.after [] x s k) := by
  have h := hΦ.bind hx hf
  rwa [List.nil_append] at h

theorem bind_right (hx : Shows Φ x s w)
    (hf : ∀ a s', x s = some (.ok a, s') → Shows Φ (f a) s' []) : Shows Φ (x >>= f) s w := by
  have h := hΦ.bind (k := fun _ _ => []) hx hf
  have hnil : Exec.after [] x s (fun _ _ => ([] : List ω)) = [] := by
    unfold Exec.after
    split
    · rfl
    · rfl
  rwa [hnil, List.append_nil] at h

protected theorem tryCatch {h : ε → Exec ε σ α} {k : ε → σ → List ω} (hx : Shows Φ x s w)
    (hh : ∀ e s', x s = some (.error e, s') → Shows Φ (h e) s' (k e s')) :
    Shows Φ (tryCatch x h) s (w ++ Exec.afterError [] x s k) := by
  intro r s' hr
  cases hxs : x s with
  | none =>
    rw [Exec.tryCatch_of_none hxs] at hr
    cases hr
  | some p =>
    obtain ⟨r₁, s₁⟩ := p
    cases r₁ with
    | ok a =>
      rw [Exec.tryCatch_of_ok hxs] at hr
      cases hr
      rw [Exec.afterError_of_ok hxs, List.append_nil]
      exact hx _ _ hxs
    | error e =>
      rw [Exec.tryCatch_of_error hxs] at hr
      rw [Exec.afterError_of_error hxs]
      exact hΦ.trans s s₁ s' w _ (hx _ _ hxs) (hh e s₁ hxs r s' hr)

theorem tryCatch_right {h : ε → Exec ε σ α} (hx : Shows Φ x s w)
    (hh : ∀ e s', x s = some (.error e, s') → Shows Φ (h e) s' []) : Shows Φ (tryCatch x h) s w := by
  have hc := hΦ.tryCatch (k := fun _ _ => []) hx hh
  have hnil : Exec.afterError [] x s (fun _ _ => ([] : List ω)) = [] := by
    unfold Exec.afterError
    split
    · rfl
    · rfl
  rwa [hnil, List.append_nil] at hc

end Composes

theorem Shows.within {Ψ : τ → List ω → τ → Prop} {into : σ → τ} {back : σ → τ → σ} {x : Exec ε τ α}
    (h : Shows Ψ x (into s) w) (hback : ∀ t, Ψ (into s) w t → Φ s w (back s t)) :
    Shows Φ (Exec.within into back x) s w := by
  intro r s' hr
  obtain ⟨⟨r₁, t⟩, hx, heq⟩ := Option.map_eq_some_iff.mp hr
  cases heq
  exact hback t (h _ t hx)

end Support
