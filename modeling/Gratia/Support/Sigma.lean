import Mathlib.Algebra.Module.BigOperators
import Mathlib.Tactic.FieldSimp
import Mathlib.Tactic.Abel
import Mathlib.Tactic.Module

/-!
# Support — Sigma protocols

The three-move protocol for the opening of a linear commitment: a commitment combines secret
scalars with fixed points, the prover answers a challenge `e` to nonces `ks` and secrets `ws` with
`ks + e • ws`, and two answers to two challenges give the secrets back.
-/

namespace Support

section Combination

variable {R M : Type*} [CommRing R] [AddCommGroup M] [Module R M]

/-- The linear combination `xs₀ • gs₀ + xs₁ • gs₁ + …`. -/
def combine (xs : List R) (gs : List M) : M := (List.zipWith (· • ·) xs gs).sum

@[simp] theorem combine_nil_left (gs : List M) : combine ([] : List R) gs = 0 := by
  simp [combine]

@[simp] theorem combine_nil_right (xs : List R) : combine xs ([] : List M) = 0 := by
  simp [combine]

@[simp] theorem combine_cons (x : R) (xs : List R) (g : M) (gs : List M) :
    combine (x :: xs) (g :: gs) = x • g + combine xs gs := by
  simp [combine]

@[simp] theorem combine_replicate_zero (n : ℕ) (gs : List M) :
    combine (List.replicate n (0 : R)) gs = 0 := by
  induction n generalizing gs with
  | zero => simp
  | succ n ih =>
    cases gs with
    | nil => simp
    | cons g gs => simp [List.replicate_succ, ih]

/-- The answers to the challenge `e`. -/
def respond (e : R) (nonces ws : List R) : List R :=
  List.zipWith (fun nonce w => nonce + e * w) nonces ws

theorem combine_respond (e : R) {nonces ws : List R} (gs : List M)
    (h : nonces.length = ws.length) :
    combine (respond e nonces ws) gs = combine nonces gs + e • combine ws gs := by
  induction nonces generalizing ws gs with
  | nil =>
    obtain rfl : ws = [] := List.length_eq_zero_iff.mp h.symm
    simp [respond]
  | cons k ks ih =>
    cases ws with
    | nil => cases h
    | cons w ws =>
      cases gs with
      | nil => simp
      | cons g gs =>
        have hks := ih gs (Nat.succ.inj h)
        simp only [respond, List.zipWith_cons_cons, combine_cons] at hks ⊢
        rw [hks]
        module

end Combination

section Extraction

variable {K M : Type*} [Field K] [AddCommGroup M] [Module K M]

/-- The secrets, from two answers. -/
def extract (e e' : K) (rs rs' : List K) : List K :=
  List.zipWith (fun r r' => (r - r') * (e - e')⁻¹) rs rs'

theorem extract_one_zero (ws : List K) :
    extract 1 0 ws (List.replicate ws.length 0) = ws := by
  induction ws with
  | nil => rfl
  | cons w ws ih =>
    simp only [extract, List.length_cons, List.replicate_succ, List.zipWith_cons_cons] at ih ⊢
    rw [ih, sub_zero, sub_zero, inv_one, mul_one]

/-- **Two answers to one first message over two bases** show one scalar behind both images. -/
theorem eq_smul_of_two_answers {x c c' s s' : K} {g h y : M} (hg : g ≠ 0) (hne : (c, s) ≠ (c', s'))
    (hu : s • g + c • x • g = s' • g + c' • x • g) (hv : s • h + c • y = s' • h + c' • y) :
    y = x • h := by
  have hscalar : s - s' = (c' - c) * x := by
    have hzero : (s - s' - (c' - c) * x) • g = 0 := by
      rw [← sub_eq_zero] at hu
      rw [← hu]
      module
    exact sub_eq_zero.mp ((smul_eq_zero.mp hzero).resolve_right hg)
  have hc : c' - c ≠ 0 := by
    intro hc
    rw [hc, zero_mul, sub_eq_zero] at hscalar
    exact hne (Prod.ext (sub_eq_zero.mp hc).symm hscalar)
  have hdiff : (c' - c) • y = (c' - c) • x • h := by
    calc (c' - c) • y = (s - s') • h := by
          rw [← sub_eq_zero] at hv ⊢
          rw [← neg_eq_zero, ← hv]
          module
      _ = (c' - c) • x • h := by rw [hscalar, mul_smul]
  exact smul_right_injective M hc hdiff

end Extraction

end Support
