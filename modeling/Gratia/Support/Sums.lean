import Mathlib.Tactic

/-!
# Support — Sums

Sums of natural numbers that a schedule pays out.
-/

namespace Support

open Finset

theorem sum_add_mul_le {a : ℕ → ℕ} {q : ℕ} (h : ∀ n, (q + 1) * a (n + 1) ≤ q * a n) (n : ℕ) :
    ∑ k ∈ range (n + 1), a k + q * a n ≤ (q + 1) * a 0 := by
  induction n with
  | zero =>
    rw [sum_range_one]
    linarith
  | succ n ih =>
    rw [sum_range_succ]
    have := h n
    linarith

theorem sum_range_le_of_geometric {a : ℕ → ℕ} {q : ℕ} (h : ∀ n, (q + 1) * a (n + 1) ≤ q * a n)
    (n : ℕ) : ∑ k ∈ range n, a k ≤ (q + 1) * a 0 :=
  calc ∑ k ∈ range n, a k ≤ ∑ k ∈ range (n + 1), a k :=
        sum_le_sum_of_subset (range_mono n.le_succ)
    _ ≤ (q + 1) * a 0 := (Nat.le_add_right _ _).trans (sum_add_mul_le h n)

theorem sum_range_div_le (f : ℕ → ℕ) {B : ℕ} (hB : 0 < B) (H : ℕ) :
    ∑ h ∈ range H, f (h / B) ≤ ∑ y ∈ range (H / B + 1), B * f y := by
  -- Round `H` up to whole blocks, and sum these one by one.
  have hfull : ∀ n, ∑ h ∈ range (n * B), f (h / B) = ∑ y ∈ range n, B * f y := by
    intro n
    induction n with
    | zero => simp
    | succ n ih =>
      rw [Nat.succ_mul, sum_range_add, ih, sum_range_succ]
      congr 1
      have hconst : ∀ k ∈ range B, f ((n * B + k) / B) = f n := by
        intro k hk
        rw [Nat.mul_comm, Nat.mul_add_div hB, Nat.div_eq_of_lt (mem_range.mp hk), Nat.add_zero]
      rw [sum_congr rfl hconst, sum_const, card_range, smul_eq_mul]
  rw [← hfull]
  refine sum_le_sum_of_subset (range_mono ?_)
  rw [Nat.succ_mul, Nat.mul_comm]
  exact (Nat.lt_mul_div_succ H hB).le

/-- **Shares that are rounded down** sum to at most the whole, if their parts do. -/
theorem sum_map_mul_div_le {α : Type} (f : α → ℕ) (q : ℕ) {t : ℕ} {l : List α}
    (h : (l.map f).sum ≤ t) : (l.map fun a => f a * q / t).sum ≤ q := by
  have hall : (l.map fun a => f a * q / t).sum ≤ (l.map f).sum * q / t := by
    clear h
    induction l with
    | nil => simp
    | cons a l ih =>
      simp only [List.map_cons, List.sum_cons, Nat.add_mul]
      exact (Nat.add_le_add_left ih _).trans (Nat.div_add_div_le_add_div)
  calc (l.map fun a => f a * q / t).sum ≤ (l.map f).sum * q / t := hall
    _ ≤ t * q / t := Nat.div_le_div_right (Nat.mul_le_mul_right q h)
    _ ≤ q := Nat.div_le_of_le_mul (Nat.le_refl _)

end Support
