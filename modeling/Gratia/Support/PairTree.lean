import Gratia.Support.Lists
import Mathlib.Algebra.Group.Nat.Defs

/-!
# Support — Pair trees

Trees that are built level by level from a list: one round joins neighbours with a `node` function,
and an odd last element with itself.  `pairs` are the pairs that a round joins, `next` is the level
it makes, `(next node)^[k]` the level after `k` rounds.
-/

namespace Support.PairTree

variable {α : Type}

/-! ### One round -/

/-- The pairs that a round joins. -/
def pairs : List α → List (α × α)
  | a :: b :: rest => (a, b) :: pairs rest
  | [a] => [(a, a)]
  | [] => []

theorem length_pairs : ∀ l : List α, (pairs l).length = (l.length + 1) / 2
  | [] => by simp [pairs]
  | [_] => by simp [pairs]
  | a :: b :: rest => by
    simp only [pairs, List.length_cons, length_pairs rest]
    omega

theorem getElem?_pairs : ∀ (l : List α) (j : ℕ),
    (pairs l)[j]? = l[2 * j]?.map fun a => (a, l[2 * j + 1]?.getD a)
  | [], j => by simp [pairs]
  | [a], 0 => by simp [pairs]
  | [a], j + 1 => by simp [pairs, Nat.mul_add]
  | a :: b :: rest, 0 => by simp [pairs]
  | a :: b :: rest, j + 1 => by
    simp only [pairs, List.getElem?_cons_succ, Nat.mul_add, getElem?_pairs rest j]

variable {l : List α}

theorem getElem?_pairs_half {i : ℕ} {a : α} (h : l[i]? = some a) :
    (pairs l)[i / 2]? = some (if i % 2 = 0 then (a, l[i + 1]?.getD a) else (l[i - 1]?.getD a, a)) := by
  rw [getElem?_pairs]
  split
  next heven =>
    have hi : 2 * (i / 2) = i := by omega
    rw [hi, h]
    rfl
  next hodd =>
    have hi : 2 * (i / 2) = i - 1 := by omega
    have hlt := (List.getElem?_eq_some_iff.mp h).1
    rw [hi, Nat.sub_add_cancel (by omega), h, List.getElem?_eq_getElem (by omega)]
    rfl

theorem map_fst_pairs_sublist : ∀ l : List α, ((pairs l).map Prod.fst).Sublist l
  | [] => .slnil
  | [_] => .refl _
  | a :: b :: rest => ((map_fst_pairs_sublist rest).cons b).cons_cons a

theorem nodup_pairs (h : l.Nodup) : (pairs l).Nodup :=
  .of_map _ (h.sublist (map_fst_pairs_sublist l))

theorem eq_of_pairs_eq : ∀ {l l' : List α}, l.Nodup → l'.Nodup → pairs l = pairs l' → l = l'
  | [], [], _, _, _ => rfl
  | [], [_], _, _, h => by cases h
  | [], _ :: _ :: _, _, _, h => by cases h
  | [_], [], _, _, h => by cases h
  | [_], [_], _, _, h => by cases h; rfl
  | [_], a :: b :: _, _, hl', h => by
    cases (List.cons.inj h).1
    simp at hl'
  | _ :: _ :: _, [], _, _, h => by cases h
  | a :: b :: _, [_], hl, _, h => by
    cases (List.cons.inj h).1
    simp at hl
  | a :: b :: rest, a' :: b' :: rest', hl, hl', h => by
    obtain ⟨hab, hrest⟩ := List.cons.inj h
    cases hab
    rw [eq_of_pairs_eq hl.of_cons.of_cons hl'.of_cons.of_cons hrest]

theorem mem_of_mem_pairs : ∀ {l : List α} {p : α × α}, p ∈ pairs l → p.1 ∈ l ∧ p.2 ∈ l
  | [], _, h => absurd h List.not_mem_nil
  | [a], p, h => by
    obtain rfl := List.mem_singleton.mp h
    simp
  | a :: b :: rest, p, h => by
    rcases List.mem_cons.mp h with rfl | h
    · simp
    · obtain ⟨h₁, h₂⟩ := mem_of_mem_pairs h
      exact ⟨List.mem_cons_of_mem _ (List.mem_cons_of_mem _ h₁),
        List.mem_cons_of_mem _ (List.mem_cons_of_mem _ h₂)⟩

theorem pairs_concat_getLast : ∀ {l : List α}, l.length % 2 = 1 → ∀ h : l ≠ [],
    pairs (l ++ [l.getLast h]) = pairs l
  | [], _, h => absurd rfl h
  | [_], _, _ => rfl
  | [_, _], hodd, _ => absurd hodd (by simp)
  | a :: b :: c :: rest, hodd, h => by
    have hrest : (c :: rest).length % 2 = 1 := by
      simp only [List.length_cons] at hodd ⊢
      omega
    exact congrArg ((a, b) :: ·) (pairs_concat_getLast hrest (by simp))

theorem pairs_map {β : Type} (f : α → β) : ∀ l : List α,
    pairs (l.map f) = (pairs l).map (Prod.map f f)
  | [] => rfl
  | [_] => rfl
  | a :: b :: rest => congrArg ((f a, f b) :: ·) (pairs_map f rest)

/-! ### Filling up -/

/-- The two elements of each pair, one after the other. -/
def flat (ps : List (α × α)) : List α := ps.flatMap fun p => [p.1, p.2]

@[simp] theorem flat_cons (p : α × α) (ps : List (α × α)) : flat (p :: ps) = p.1 :: p.2 :: flat ps :=
  rfl

@[simp] theorem length_flat (ps : List (α × α)) : (flat ps).length = 2 * ps.length := by
  induction ps with
  | nil => rfl
  | cons p ps ih =>
    simp only [flat_cons, List.length_cons, ih]
    omega

theorem flat_injective : Function.Injective (flat (α := α)) := by
  intro ps
  induction ps with
  | nil =>
    intro qs h
    cases qs with
    | nil => rfl
    | cons q qs => cases h
  | cons p ps ih =>
    intro qs h
    cases qs with
    | nil => cases h
    | cons q qs =>
      simp only [flat_cons, List.cons.injEq] at h
      rw [Prod.ext h.1 h.2.1, ih h.2.2]

theorem mem_flat {ps : List (α × α)} {a : α} : a ∈ flat ps ↔ ∃ p ∈ ps, a = p.1 ∨ a = p.2 := by
  simp [flat]

theorem flat_map {β : Type} (f : α → β) (ps : List (α × α)) :
    flat (ps.map (Prod.map f f)) = (flat ps).map f := by
  induction ps with
  | nil => rfl
  | cons p ps ih => simp [ih]

theorem isPrefix_flat_pairs : ∀ l : List α, l <+: flat (pairs l)
  | [] => List.nil_prefix
  | [a] => ⟨[a], rfl⟩
  | a :: b :: rest => by
    obtain ⟨t, ht⟩ := isPrefix_flat_pairs rest
    exact ⟨t, by simp only [pairs, flat_cons, ← ht, List.cons_append]⟩

/-- The list as `d` rounds see it: each round doubles an odd end. -/
def fill : ℕ → {α : Type} → List α → List α
  | 0, _, l => l
  | d + 1, _, l => flat (fill d (pairs l))

theorem mem_of_mem_fill (d : ℕ) : ∀ {α : Type} {l : List α} {a : α}, a ∈ fill d l → a ∈ l := by
  induction d with
  | zero => intro α l a h; exact h
  | succ d ih =>
    intro α l a h
    obtain ⟨p, hp, ha⟩ := mem_flat.mp h
    obtain ⟨h₁, h₂⟩ := mem_of_mem_pairs (ih hp)
    rcases ha with rfl | rfl
    · exact h₁
    · exact h₂

theorem fill_map (d : ℕ) : ∀ {α β : Type} (f : α → β) (l : List α),
    fill d (l.map f) = (fill d l).map f := by
  induction d with
  | zero => intro α β f l; rfl
  | succ d ih =>
    intro α β f l
    rw [fill, fill, pairs_map, ih, flat_map]

theorem length_fill (d : ℕ) : ∀ {α : Type} {l : List α}, l ≠ [] → l.length ≤ 2 ^ d →
    (fill d l).length = 2 ^ d := by
  induction d with
  | zero =>
    intro α l hne hle
    have := List.length_pos_iff.mpr hne
    simp only [fill, Nat.pow_zero] at hle ⊢
    omega
  | succ d ih =>
    intro α l hne hle
    have hpos := List.length_pos_iff.mpr hne
    have hpairs := length_pairs l
    rw [fill, length_flat, ih (List.length_pos_iff.mp (by omega)) (by omega), Nat.pow_succ']

theorem isPrefix_fill (d : ℕ) : ∀ {α : Type} (l : List α), l <+: fill d l := by
  induction d with
  | zero => intro α l; exact List.prefix_refl l
  | succ d ih =>
    intro α l
    obtain ⟨t, ht⟩ := ih (pairs l)
    refine (isPrefix_flat_pairs l).trans ⟨flat t, ?_⟩
    rw [fill, ← ht, flat, flat, flat, List.flatMap_append]

/-! ### Rounds after rounds -/

variable (node : α → α → α)

def next (l : List α) : List α := (pairs l).map fun p => node p.1 p.2

theorem length_next (l : List α) : (next node l).length = (l.length + 1) / 2 := by
  rw [next, List.length_map, length_pairs]

variable {node} {D : Set (α × α)} (hD : D.InjOn fun p => node p.1 p.2)

include hD

theorem nodup_next (hl : ∀ p ∈ pairs l, p ∈ D) (h : l.Nodup) : (next node l).Nodup :=
  (nodup_pairs h).map_on fun p hp q hq he => hD (hl p hp) (hl q hq) he

theorem nodup_iterate_next (h : l.Nodup) :
    ∀ d, (∀ k < d, ∀ p ∈ pairs ((next node)^[k] l), p ∈ D) → ((next node)^[d] l).Nodup := by
  intro d
  induction d with
  | zero => exact fun _ => h
  | succ d ih =>
    intro hl
    rw [Function.iterate_succ_apply']
    exact nodup_next hD (hl d (Nat.lt_succ_self d)) (ih fun k hk => hl k (Nat.lt_succ_of_lt hk))

theorem eq_of_next_eq {l' : List α} (hl : ∀ p ∈ pairs l, p ∈ D) (hl' : ∀ p ∈ pairs l', p ∈ D)
    (h : l.Nodup) (h' : l'.Nodup) (he : next node l = next node l') : l = l' :=
  eq_of_pairs_eq h h' (eq_of_map_eq hD hl hl' he)

/-- **Two lists lead to one level** after `d` rounds if and only if they fill up to the same list. -/
theorem iterate_next_eq_iff (d : ℕ) : ∀ {l l' : List α},
    (∀ k < d, ∀ p ∈ pairs ((next node)^[k] l), p ∈ D) →
    (∀ k < d, ∀ p ∈ pairs ((next node)^[k] l'), p ∈ D) →
    ((next node)^[d] l = (next node)^[d] l' ↔ fill d l = fill d l') := by
  induction d with
  | zero => intro l l' _ _; exact Iff.rfl
  | succ d ih =>
    intro l l' hl hl'
    have hmem : ∀ {l : List α}, (∀ p ∈ pairs l, p ∈ D) → ∀ p ∈ fill d (pairs l), p ∈ D :=
      fun h p hp => h p (mem_of_mem_fill d hp)
    rw [Function.iterate_succ_apply, Function.iterate_succ_apply,
      ih (fun k hk => hl (k + 1) (Nat.succ_lt_succ hk))
        (fun k hk => hl' (k + 1) (Nat.succ_lt_succ hk)),
      next, next, fill_map, fill_map, fill, fill, flat_injective.eq_iff]
    constructor
    · exact eq_of_map_eq hD (hmem (hl 0 (Nat.succ_pos d))) (hmem (hl' 0 (Nat.succ_pos d)))
    · exact fun h => by rw [h]

theorem iterate_next_inj {l' : List α} (h : l.Nodup) (h' : l'.Nodup) (e : ℕ) :
    ∀ d, (∀ k < d, ∀ p ∈ pairs ((next node)^[k] l), p ∈ D) →
      (∀ k < e + d, ∀ p ∈ pairs ((next node)^[k] l'), p ∈ D) →
      (next node)^[d] l = (next node)^[e + d] l' → l = (next node)^[e] l' := by
  intro d
  induction d with
  | zero => exact fun _ _ he => he
  | succ d ih =>
    intro hl hl' he
    have hl₁ : ∀ k < d, ∀ p ∈ pairs ((next node)^[k] l), p ∈ D :=
      fun k hk => hl k (Nat.lt_succ_of_lt hk)
    have hl₁' : ∀ k < e + d, ∀ p ∈ pairs ((next node)^[k] l'), p ∈ D :=
      fun k hk => hl' k (Nat.lt_succ_of_lt hk)
    refine ih hl₁ hl₁' ?_
    rw [← Nat.add_assoc, Function.iterate_succ_apply', Function.iterate_succ_apply'] at he
    exact eq_of_next_eq hD (hl d (Nat.lt_succ_self d)) (hl' (e + d) (Nat.lt_succ_self _))
      (nodup_iterate_next hD h d hl₁) (nodup_iterate_next hD h' (e + d) hl₁') he

end Support.PairTree
