import Mathlib.Data.List.Chain
import Mathlib.Data.List.Nodup
import Mathlib.Data.List.Perm.Subperm
import Mathlib.Data.Set.Function

/-!
# Support — Lists
-/

namespace Support

variable {α κ ν : Type} [DecidableEq κ] {key : α → κ} {val : α → ν}

theorem nodup_map_pair {l : List α}
    (h : ∀ k ∈ l.map key, ((l.filter fun x => key x = k).map val).Nodup) :
    (l.map fun x => (key x, val x)).Nodup := by
  induction l with
  | nil => exact List.nodup_nil
  | cons x l ih =>
    rw [List.map_cons, List.nodup_cons]
    constructor
    · intro hmem
      obtain ⟨y, hy, he⟩ := List.mem_map.mp hmem
      obtain ⟨hkey, hval⟩ := Prod.mk.inj he
      have hx := h (key x) (by simp)
      rw [List.filter_cons_of_pos (by simp), List.map_cons, List.nodup_cons] at hx
      refine hx.1 (List.mem_map.mpr ⟨y, List.mem_filter.mpr ⟨hy, by simpa using hkey⟩, hval⟩)
    · refine ih fun k hk => ?_
      have hx := h k (by simp only [List.map_cons, List.mem_cons]; exact .inr hk)
      rw [List.filter_cons] at hx
      split at hx
      · exact (List.nodup_cons.mp hx).2
      · exact hx

theorem eq_of_map_eq {β : Type} {f : α → β} {S : Set α} (hf : S.InjOn f) :
    ∀ {l l' : List α}, (∀ x ∈ l, x ∈ S) → (∀ x ∈ l', x ∈ S) → l.map f = l'.map f → l = l'
  | [], [], _, _, _ => rfl
  | [], _ :: _, _, _, h => by cases h
  | _ :: _, [], _, _, h => by cases h
  | x :: l, y :: l', hl, hl', h => by
    obtain ⟨hxy, h⟩ := List.cons.inj h
    rw [hf (hl x List.mem_cons_self) (hl' y List.mem_cons_self) hxy,
      eq_of_map_eq hf (fun z hz => hl z (List.mem_cons_of_mem _ hz))
        (fun z hz => hl' z (List.mem_cons_of_mem _ hz)) h]

theorem foldl_local {σ β : Type} {f : σ → κ → σ} {see : σ → κ → β} {g : β → β}
    (hself : ∀ s k, see (f s k) k = g (see s k))
    (hne : ∀ s k k', k' ≠ k → see (f s k) k' = see s k') {ks : List κ} :
    ks.Nodup → ∀ s k, see (ks.foldl f s) k = if k ∈ ks then g (see s k) else see s k := by
  induction ks with
  | nil => exact fun _ s k => rfl
  | cons k₀ ks ih =>
    intro hnd s k
    obtain ⟨hk₀, hnd⟩ := List.nodup_cons.mp hnd
    rw [List.foldl_cons, ih hnd]
    by_cases hk : k = k₀
    · subst hk
      rw [if_neg hk₀, if_pos List.mem_cons_self, hself]
    · rw [hne s k₀ k hk]
      simp [hk]

/-! ### Repetitions -/

/-- The first element that is among the `seen` ones or repeats an earlier one. -/
def firstRepeat : List κ → List κ → Option κ
  | _, [] => none
  | seen, k :: ks => if k ∈ seen then some k else firstRepeat (k :: seen) ks

theorem firstRepeat_eq_none {ks : List κ} : ∀ {seen : List κ},
    firstRepeat seen ks = none ↔ ks.Nodup ∧ ks.Disjoint seen := by
  induction ks with
  | nil => simp [firstRepeat]
  | cons k ks ih =>
    intro seen
    unfold firstRepeat
    split
    · next hk => simp [hk]
    · next hk =>
        rw [ih, List.nodup_cons, List.disjoint_cons_left, List.disjoint_cons_right]
        tauto

omit [DecidableEq κ] in
/-- As many different names of elements with a property as there are elements: then no two have one
name, and all have the property. -/
theorem all_of_names {name : α → κ} {p : α → Prop} {xs : List α} {ks : List κ} (hnd : ks.Nodup)
    (hlen : xs.length ≤ ks.length) (hks : ∀ k ∈ ks, ∃ x ∈ xs, name x = k ∧ p x) :
    (xs.map name).Nodup ∧ ∀ x ∈ xs, p x := by
  have hsub : ks ⊆ xs.map name := by
    intro k hk
    obtain ⟨x, hx, rfl, -⟩ := hks k hk
    exact List.mem_map_of_mem hx
  have hperm : ks.Perm (xs.map name) :=
    (List.subperm_of_subset hnd hsub).perm_of_length_le (by rwa [List.length_map])
  have hnames := hperm.nodup_iff.mp hnd
  refine ⟨hnames, fun x hx => ?_⟩
  obtain ⟨y, hy, hname, hp⟩ := hks (name x) (hperm.mem_iff.mpr (List.mem_map_of_mem hx))
  rwa [List.inj_on_of_nodup_map hnames hy hx hname] at hp

/-! ### Partial maps -/

theorem length_of_mapM {α β : Type*} {f : α → Option β} {l : List α} {r : List β}
    (h : l.mapM f = some r) : r.length = l.length := by
  induction l generalizing r with
  | nil =>
    obtain rfl : [] = r := by simpa using h
    rfl
  | cons a l ih =>
    simp only [List.mapM_cons, Option.bind_eq_bind, Option.pure_def,
      Option.bind_eq_some_iff, Option.some.injEq] at h
    obtain ⟨b, -, bs, hbs, rfl⟩ := h
    simp [ih hbs]

theorem mapM_ok_iff {ε α β : Type*} {f : α → Except ε β} {l : List α} {r : List β} :
    l.mapM f = .ok r ↔ List.Forall₂ (fun a b => f a = .ok b) l r := by
  induction l generalizing r with
  | nil =>
    rw [List.mapM_nil, List.forall₂_nil_left_iff]
    exact ⟨fun h => (Except.ok.inj h).symm, fun h => congrArg Except.ok h.symm⟩
  | cons a l ih =>
    rw [List.mapM_cons, List.forall₂_cons_left_iff]
    cases ha : f a with
    | error e => exact iff_of_false nofun (by simp)
    | ok b =>
      cases hl : l.mapM f with
      | error e =>
        refine iff_of_false nofun ?_
        rintro ⟨_, bs, -, hbs, -⟩
        rw [ih.mpr hbs] at hl
        cases hl
      | ok bs =>
        constructor
        · intro h
          exact ⟨b, bs, rfl, ih.mp hl, (Except.ok.inj h).symm⟩
        · rintro ⟨b', bs', hb, hbs, rfl⟩
          cases hb
          cases hl.symm.trans (ih.mpr hbs)
          rfl

/-! ### Neighbours -/

def windows {α : Type*} (l : List α) : List (α × α) := l.zip l.tail

theorem forall_mem_windows {α : Type*} {R : α → α → Prop} {l : List α} :
    (∀ w ∈ windows l, R w.1 w.2) ↔ l.IsChain R := by
  induction l with
  | nil => simp [windows]
  | cons a l ih =>
    cases l with
    | nil => simp [windows]
    | cons b l =>
      have hcons : windows (a :: b :: l) = (a, b) :: windows (b :: l) := rfl
      rw [hcons, List.forall_mem_cons, ih, List.isChain_cons_cons]

/-! ### Contests -/

/-- A list of elements is met one after the other; the one that is held is given up for the one met
when `yields` says so. -/
def contest {α : Type*} (yields : α → α → Bool) (start : α) (met : List α) : α :=
  met.foldl (fun held b => if yields held b then b else held) start

/-- **A champion is held in the end.**  It yields to nobody, everybody else yields to it, and it is
met or held from the start. -/
theorem contest_eq_champion {α : Type*} {yields : α → α → Bool} {S : Set α} {w : α}
    (hkeeps : ∀ b ∈ S, yields w b = true → b = w) (hwins : ∀ b ∈ S, b ≠ w → yields b w = true)
    {start : α} {met : List α} (hstart : start ∈ S) (hmet : ∀ b ∈ met, b ∈ S)
    (hw : w = start ∨ w ∈ met) : contest yields start met = w := by
  induction met generalizing start with
  | nil => exact (hw.resolve_right List.not_mem_nil).symm
  | cons b met ih =>
    have hb : b ∈ S := hmet b List.mem_cons_self
    have hrest : ∀ x ∈ met, x ∈ S := fun x hx => hmet x (List.mem_cons_of_mem b hx)
    show contest yields (if yields start b then b else start) met = w
    refine ih ?_ hrest ?_
    · split
      · exact hb
      · exact hstart
    · rcases hw with rfl | hw
      · -- The champion is held; if it yields at all then to itself.
        split
        · next hy => exact .inl (hkeeps b hb hy).symm
        · exact .inl rfl
      · rcases List.mem_cons.mp hw with rfl | hw
        · by_cases hsw : start = w
          · exact .inl (by simp [hsw])
          · exact .inl (by simp [hwins start hstart hsw])
        · exact .inr hw

theorem exists_first_not {α : Type} {p : α → Prop} {l : List α} (h : ¬ ∀ a ∈ l, p a) :
    ∃ done a rest, l = done ++ a :: rest ∧ (∀ b ∈ done, p b) ∧ ¬ p a := by
  induction l with
  | nil => exact absurd (by simp) h
  | cons c l ih =>
    by_cases hc : p c
    · obtain ⟨done, a, rest, rfl, hdone, ha⟩ := ih fun hl => h (List.forall_mem_cons.mpr ⟨hc, hl⟩)
      exact ⟨c :: done, a, rest, rfl, List.forall_mem_cons.mpr ⟨hc, hdone⟩, ha⟩
    · exact ⟨[], c, l, rfl, by simp, hc⟩

theorem exists_notMem_of_length_lt {α : Type} {f : ℕ → α} {n : ℕ} {l : List α}
    (hf : ∀ i < n, ∀ j < n, f i = f j → i = j) (hl : l.length < n) : ∃ i < n, f i ∉ l := by
  by_contra hall
  push Not at hall
  have hnodup : ((List.range n).map f).Nodup := by
    refine List.Nodup.map_on (fun i hi j hj => ?_) List.nodup_range
    exact hf i (List.mem_range.mp hi) j (List.mem_range.mp hj)
  have hsub : (List.range n).map f ⊆ l := by
    intro a ha
    obtain ⟨i, hi, rfl⟩ := List.mem_map.mp ha
    exact hall i (List.mem_range.mp hi)
  have hle := (List.Nodup.subperm hnodup hsub).length_le
  rw [List.length_map, List.length_range] at hle
  omega

/-! ### Ranks -/

section Ranks

variable {α : Type} {r : α → α → Prop} {l : List α}

/-- In a sorted list the rank of an element, which is the number of elements below it, is its
place. -/
theorem mem_take_iff_rank_lt [DecidableRel r] (hr : ∀ a b, r a b → ¬ r b a) (hl : l.Pairwise r)
    {x : α} (hx : x ∈ l) (n : ℕ) : x ∈ l.take n ↔ l.countP (fun a => r a x) < n := by
  induction l generalizing n with
  | nil => cases hx
  | cons a l ih =>
    obtain ⟨ha, hl⟩ := List.pairwise_cons.mp hl
    cases n with
    | zero => simp
    | succ n =>
      rw [List.take_succ_cons, List.mem_cons, List.countP_cons]
      rcases List.mem_cons.mp hx with rfl | hx'
      · -- the first element has nothing below it
        have hrank : l.countP (fun b => r b x) = 0 := by
          rw [List.countP_eq_zero]
          intro b hb
          simpa using hr x b (ha b hb)
        simp [hrank, show ¬ r x x from fun h => hr x x h h]
      · have hax := ha x hx'
        have hne : x ≠ a := by
          rintro rfl
          exact hr x x hax hax
        simp [hne, ih hl hx', hax]

/-- The elements that fail `p` before the `j`-th one that passes. -/
def failsBefore (p : α → Bool) : ℕ → List α → ℕ
  | 0, _ | _ + 1, [] => 0
  | j + 1, x :: xs => if p x then failsBefore p j xs else failsBefore p (j + 1) xs + 1

theorem failsBefore_le (p : α → Bool) (j : ℕ) (l : List α) :
    failsBefore p j l + l.countP p ≤ l.length := by
  fun_induction failsBefore p j l with
  | case1 l => simpa using List.countP_le_length
  | case2 => simp
  | case3 j x xs hx ih =>
    rw [List.countP_cons_of_pos hx, List.length_cons]
    omega
  | case4 j x xs hx ih =>
    rw [List.countP_cons_of_neg hx, List.length_cons]
    omega

/-- The first `k` elements have `j` that pass when there are that many, and those that fail before
the last of them leave room. -/
theorem le_countP_take_iff {p : α → Bool} {j k : ℕ} :
    j ≤ (l.take k).countP p ↔ j ≤ l.countP p ∧ failsBefore p j l + j ≤ k := by
  fun_induction failsBefore p j l generalizing k with
  | case1 l => simp
  | case2 j => simp
  | case3 j x xs hx ih =>
    cases k with
    | zero => simp
    | succ k =>
      rw [List.take_succ_cons, List.countP_cons_of_pos hx, List.countP_cons_of_pos hx,
        Nat.succ_le_succ_iff, ih]
      omega
  | case4 j x xs hx ih =>
    cases k with
    | zero => simp
    | succ k =>
      rw [List.take_succ_cons, List.countP_cons_of_neg hx, List.countP_cons_of_neg hx, ih]
      omega

theorem fst_mem_take_iff {β : Type} {l : List (α × β)} {k : α} {v : β}
    (hv : ∀ v', (k, v') ∈ l → v' = v) (n : ℕ) :
    k ∈ (l.take n).map Prod.fst ↔ (k, v) ∈ l.take n := by
  constructor
  · intro hk
    obtain ⟨⟨k', v'⟩, hmem, he⟩ := List.mem_map.mp hk
    obtain rfl : k' = k := he
    rwa [hv v' (List.mem_of_mem_take hmem)] at hmem
  · exact fun hmem => List.mem_map.mpr ⟨_, hmem, rfl⟩

theorem pairwise_not_sublist (hl : l.Nodup) : l.Pairwise fun a b => ¬ [b, a].Sublist l := by
  induction l with
  | nil => exact .nil
  | cons c l ih =>
    obtain ⟨hc, hl⟩ := List.nodup_cons.mp hl
    have hkeep : ∀ {a b}, b ∈ l → ¬ [b, a].Sublist l → ¬ [b, a].Sublist (c :: l) := by
      intro a b hb hno hsub
      cases hsub with
      | cons _ hsub => exact hno hsub
      | cons_cons _ _ => exact hc hb
    refine List.pairwise_cons.mpr ⟨fun b hb => ?_, (ih hl).imp_of_mem fun _ hb => hkeep hb⟩
    exact hkeep hb fun hsub => hc (hsub.subset (by simp))

/-- **Merge sort is stable**: elements that the order does not tell apart keep the order they came
in. -/
theorem pairwise_mergeSort_stable {le : α → α → Bool}
    (htrans : ∀ a b c, le a b = true → le b c = true → le a c = true)
    (htotal : ∀ a b, (le a b || le b a) = true) (hr : ∀ a, ¬ r a a) (hl : l.Pairwise r) :
    (l.mergeSort le).Pairwise fun a b => le a b = true ∧ (le b a = true → r a b) := by
  have hnd : l.Nodup := by
    refine hl.imp ?_
    rintro a b h rfl
    exact hr a h
  have hnd' : (l.mergeSort le).Nodup := (List.mergeSort_perm l le).nodup_iff.mpr hnd
  -- two elements of the list stand in it in the order of `r`
  have hcame : l.Pairwise fun a b => [a, b].Sublist l ∧ r a b ∨ [b, a].Sublist l ∧ r b a :=
    List.pairwise_iff_forall_sublist.mpr fun hsub =>
      .inl ⟨hsub, List.pairwise_iff_forall_sublist.mp hl hsub⟩
  have hsymm : Std.Symm fun a b => [a, b].Sublist l ∧ r a b ∨ [b, a].Sublist l ∧ r b a :=
    ⟨fun _ _ => Or.symm⟩
  refine (List.pairwise_mergeSort htrans htotal l).and ?_
  refine ((pairwise_not_sublist hnd').and hnd').imp_of_mem fun {a b} ha hb h hle => ?_
  rw [List.mem_mergeSort] at ha hb
  rcases hcame.forall ha hb h.2 with ⟨-, hab⟩ | ⟨hsub, -⟩
  · exact hab
  · exact absurd (List.pair_sublist_mergeSort htrans htotal hle hsub) h.1

/-- In a sorted list the elements with a property of small ones come first. -/
theorem true_iff_lt_countP {p : α → Bool} (hp : ∀ a b, r a b → p b = true → p a = true)
    (hl : l.Pairwise r) {k : ℕ} {x : α} (hx : l[k]? = some x) : p x = true ↔ k < l.countP p := by
  induction l generalizing k with
  | nil => cases hx
  | cons a l ih =>
    obtain ⟨ha, hl⟩ := List.pairwise_cons.mp hl
    cases hpa : p a with
    | false =>
      have hnone : ∀ b ∈ a :: l, ¬ p b = true := by
        intro b hb hpb
        rcases List.mem_cons.mp hb with rfl | hb
        · exact absurd hpb (by simp [hpa])
        · exact absurd (hp a b (ha b hb) hpb) (by simp [hpa])
      rw [List.countP_eq_zero.mpr hnone]
      exact iff_of_false (hnone x (List.mem_of_getElem? hx)) (Nat.not_lt_zero k)
    | true =>
      rw [List.countP_cons_of_pos hpa]
      cases k with
      | zero =>
        cases hx
        exact iff_of_true hpa (Nat.succ_pos _)
      | succ k =>
        rw [ih hl hx]
        omega

end Ranks

end Support
