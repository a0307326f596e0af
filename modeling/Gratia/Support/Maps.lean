import Std.Data.ExtTreeMap
import Mathlib.Tactic

/-!
# Support — Maps

Finite maps as `Std.ExtTreeMap`, and the sum of a weight over their values.  Replacing the value at
a key moves the sum by the difference of the two weights (`weight_insert`), removing it by the
weight it had (`weight_erase`); both are stated additively, so that no subtraction is truncated.
-/

namespace Support

open Std

/-! ### Orders on keys -/

section Keys

variable {α β : Type} [Ord β]

/-- Keys compared by their image under `f`. -/
abbrev ordOn (f : α → β) : Ord α := ⟨compareOn f⟩

theorem transOrd_on [TransOrd β] (f : α → β) : @TransOrd α (ordOn f) :=
  inferInstanceAs (TransCmp (compareOn f))

theorem lawfulEqOrd_on [LawfulEqOrd β] (f : α → β) (hf : Function.Injective f) :
    @LawfulEqOrd α (ordOn f) :=
  let _ : Ord α := ordOn f
  { compare_self := ReflOrd.compare_self (α := β)
    eq_of_compare := fun h => hf (LawfulEqOrd.eq_of_compare (α := β) h) }

theorem exists_least {cmp : α → α → Ordering} [TransCmp cmp] {l : List α} (h : l ≠ []) :
    ∃ w ∈ l, ∀ b ∈ l, (cmp w b).isLE := by
  induction l with
  | nil => exact absurd rfl h
  | cons a l ih =>
    rcases eq_or_ne l [] with rfl | hl
    · exact ⟨a, by simp, by simp [ReflCmp.isLE_rfl]⟩
    obtain ⟨w, hw, hleast⟩ := ih hl
    by_cases haw : (cmp a w).isLE
    · refine ⟨a, List.mem_cons_self, fun b hb => ?_⟩
      rcases List.mem_cons.mp hb with rfl | hb
      · exact ReflCmp.isLE_rfl
      · exact TransCmp.isLE_trans haw (hleast b hb)
    · refine ⟨w, List.mem_cons_of_mem a hw, fun b hb => ?_⟩
      rcases List.mem_cons.mp hb with rfl | hb
      · rw [OrientedCmp.lt_of_not_isLE haw]
        rfl
      · exact hleast b hb

end Keys

/-! ### Weights -/

variable {K V : Type} [Ord K] [TransOrd K] [LawfulEqOrd K]

def weight (w : V → ℕ) (m : ExtTreeMap K V) : ℕ := (m.toList.map fun e => w e.2).sum

omit [LawfulEqOrd K] in
theorem weight_empty (w : V → ℕ) : weight w (∅ : ExtTreeMap K V) = 0 := rfl

theorem nodup_toList (m : ExtTreeMap K V) : m.toList.Nodup := by
  refine m.distinct_keys_toList.imp ?_
  rintro a b h rfl
  exact h ReflOrd.compare_self

theorem nodup_keys (m : ExtTreeMap K V) : m.keys.Nodup := by
  refine m.distinct_keys.imp ?_
  rintro a b h rfl
  exact h ReflOrd.compare_self

omit [LawfulEqOrd K] in
theorem mem_of_getElem? {m : ExtTreeMap K V} {k : K} {v : V} (h : m[k]? = some v) : k ∈ m :=
  ExtTreeMap.mem_iff_isSome_getElem?.mpr (by simp [h])

omit [LawfulEqOrd K] in
theorem notMem_of_getElem? {m : ExtTreeMap K V} {k : K} (h : m[k]? = none) : k ∉ m := by
  intro hk
  have := ExtTreeMap.mem_iff_isSome_getElem?.mp hk
  simp [h] at this

theorem getElem?_insert_self' (m : ExtTreeMap K V) (k : K) (v : V) :
    (m.insert k v)[k]? = some v := by
  simp

variable {k k' : K} {v : V}

theorem getElem?_insert_ne (m : ExtTreeMap K V) (v : V) (h : k ≠ k') :
    (m.insert k v)[k']? = m[k']? := by
  rw [ExtTreeMap.getElem?_insert, if_neg (mt LawfulEqOrd.eq_of_compare h)]

variable {m : ExtTreeMap K V}

theorem insert_eq_self_iff : m.insert k v = m ↔ m[k]? = some v := by
  constructor
  · intro h
    rw [← h, getElem?_insert_self']
  · intro h
    ext k' v'
    by_cases hk : k = k'
    · subst hk
      rw [getElem?_insert_self', h]
    · rw [getElem?_insert_ne m v hk]

theorem getElem?_erase_ne (m : ExtTreeMap K V) (h : k ≠ k') :
    (m.erase k)[k']? = m[k']? := by
  rw [ExtTreeMap.getElem?_erase, if_neg (mt LawfulEqOrd.eq_of_compare h)]

theorem getElem?_foldl_erase {keys : List K} :
    (keys.foldl (fun m k => m.erase k) m)[k]? = some v ↔ k ∉ keys ∧ m[k]? = some v := by
  induction keys generalizing m with
  | nil => simp
  | cons x keys ih =>
    rw [List.foldl_cons, ih]
    by_cases hx : x = k
    · simp [hx]
    · simp [getElem?_erase_ne m hx, Ne.symm hx]

theorem mem_insert_iff : k' ∈ m.insert k v ↔ k = k' ∨ k' ∈ m := by
  rw [ExtTreeMap.mem_insert, LawfulEqCmp.compare_eq_iff_eq]

theorem size_eq_of_mem_iff {W : Type} {m' : ExtTreeMap K W} (h : ∀ k, k ∈ m ↔ k ∈ m') :
    m.size = m'.size := by
  rw [← ExtTreeMap.length_keys, ← ExtTreeMap.length_keys]
  refine List.Perm.length_eq ((List.perm_ext_iff_of_nodup (nodup_keys m) (nodup_keys m')).mpr ?_)
  simpa using h

theorem toList_perm_of_getElem? (h : m[k]? = some v) :
    m.toList.Perm ((k, v) :: (m.erase k).toList) := by
  have hk : (k, v) ∉ (m.erase k).toList := by
    simp [ExtTreeMap.mem_toList_iff_getElem?_eq_some]
  refine (List.perm_ext_iff_of_nodup (nodup_toList m) ((nodup_toList _).cons hk)).mpr ?_
  rintro ⟨k', v'⟩
  rw [List.mem_cons, ExtTreeMap.mem_toList_iff_getElem?_eq_some,
    ExtTreeMap.mem_toList_iff_getElem?_eq_some]
  by_cases e : k = k'
  · subst e
    simp [h, eq_comm]
  · simp [getElem?_erase_ne m e, Ne.symm e]

theorem weight_erase (w : V → ℕ) (m : ExtTreeMap K V) (k : K) :
    weight w (m.erase k) + (m[k]?).elim 0 w = weight w m := by
  cases h : m[k]? with
  | none =>
    have : m.erase k = m := by
      refine ExtTreeMap.ext_getElem? fun k' => ?_
      by_cases e : k = k'
      · subst e; simp [h]
      · exact getElem?_erase_ne m e
    simp [this]
  | some v =>
    unfold weight
    rw [((toList_perm_of_getElem? h).map _).sum_eq]
    simp [add_comm]

theorem erase_insert_self (m : ExtTreeMap K V) (k : K) (v : V) :
    (m.insert k v).erase k = m.erase k := by
  refine ExtTreeMap.ext_getElem? fun k' => ?_
  by_cases e : k = k'
  · subst e; simp
  · rw [getElem?_erase_ne _ e, getElem?_erase_ne _ e, getElem?_insert_ne _ _ e]

/-- **Replacing a value moves the sum by the difference of the weights.** -/
theorem weight_insert (w : V → ℕ) (m : ExtTreeMap K V) (k : K) (v : V) :
    weight w (m.insert k v) + (m[k]?).elim 0 w = weight w m + w v := by
  have h₁ := weight_erase w (m.insert k v) k
  have h₂ := weight_erase w m k
  rw [erase_insert_self, getElem?_insert_self'] at h₁
  simp only [Option.elim_some] at h₁
  omega

theorem sum_map_getElem?_le_weight (w : V → ℕ) {keys : List K} (hk : keys.Nodup) :
    ∀ m : ExtTreeMap K V, (keys.map fun k => (m[k]?).elim 0 w).sum ≤ weight w m := by
  induction keys with
  | nil => exact fun m => Nat.zero_le _
  | cons k keys ih =>
    intro m
    obtain ⟨hnot, hk⟩ := List.nodup_cons.mp hk
    have hrest : (keys.map fun k' => (m[k']?).elim 0 w) =
        keys.map fun k' => ((m.erase k)[k']?).elim 0 w := by
      refine List.map_congr_left fun k' hk' => ?_
      rw [getElem?_erase_ne m (by rintro rfl; exact hnot hk')]
    have hle := ih hk (m.erase k)
    have herase := weight_erase w m k
    rw [List.map_cons, List.sum_cons, hrest]
    omega

end Support
