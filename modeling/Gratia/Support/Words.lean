import Mathlib.Tactic

/-!
# Support — Words

`u64` arithmetic other than the wrapping one: checked operations stop on overflow, saturating ones
stop at the end of the range.  Each is given with what it is on the natural numbers.
-/

namespace Support

variable {a b : UInt64}

/-! ### Wrapping operations that do not wrap -/

theorem toNat_add_of_lt (h : a.toNat + b.toNat < 2 ^ 64) : (a + b).toNat = a.toNat + b.toNat := by
  rw [UInt64.toNat_add, Nat.mod_eq_of_lt h]

theorem toNat_mul_of_lt (h : a.toNat * b.toNat < 2 ^ 64) : (a * b).toNat = a.toNat * b.toNat := by
  rw [UInt64.toNat_mul, Nat.mod_eq_of_lt h]

theorem toNat_sub_of_toNat_le (h : b.toNat ≤ a.toNat) : (a - b).toNat = a.toNat - b.toNat :=
  UInt64.toNat_sub_of_le a b (UInt64.le_iff_toNat_le.mpr h)

theorem toNat_min (a b : UInt64) : (min a b).toNat = min a.toNat b.toNat := by
  show (if a ≤ b then a else b).toNat = _
  split <;> rename_i h <;> rw [UInt64.le_iff_toNat_le] at h <;> omega

theorem toNat_pos (h : a ≠ 0) : 0 < a.toNat :=
  Nat.pos_of_ne_zero fun h0 => h (UInt64.toNat_inj.mp (h0.trans UInt64.toNat_zero.symm))

/-! ### Checked operations -/

def checkedAdd (a b : UInt64) : Option UInt64 :=
  if a.toNat + b.toNat < 2 ^ 64 then some (a + b) else none

def checkedMul (a b : UInt64) : Option UInt64 :=
  if a.toNat * b.toNat < 2 ^ 64 then some (a * b) else none

theorem checkedAdd_of_lt (h : a.toNat + b.toNat < 2 ^ 64) : checkedAdd a b = some (a + b) :=
  if_pos h

theorem checkedAdd_of_le (h : 2 ^ 64 ≤ a.toNat + b.toNat) : checkedAdd a b = none :=
  if_neg (Nat.not_lt.mpr h)

theorem toNat_of_checkedAdd {c : UInt64} (h : checkedAdd a b = some c) :
    c.toNat = a.toNat + b.toNat := by
  unfold checkedAdd at h
  split at h
  next hlt =>
    cases h
    rw [UInt64.toNat_add, Nat.mod_eq_of_lt hlt]
  next => cases h

theorem checkedMul_of_lt (h : a.toNat * b.toNat < 2 ^ 64) : checkedMul a b = some (a * b) :=
  if_pos h

/-! ### Saturating operations -/

def saturatingSub (a b : UInt64) : UInt64 := if a < b then 0 else a - b

def saturatingAdd (a b : UInt64) : UInt64 :=
  if a.toNat + b.toNat < 2 ^ 64 then a + b else UInt64.ofNat (2 ^ 64 - 1)

def saturatingMul (a b : UInt64) : UInt64 :=
  if a.toNat * b.toNat < 2 ^ 64 then a * b else UInt64.ofNat (2 ^ 64 - 1)

theorem toNat_saturatingSub (a b : UInt64) : (saturatingSub a b).toNat = a.toNat - b.toNat := by
  rw [saturatingSub]
  split <;> rename_i h <;> rw [UInt64.lt_iff_toNat_lt] at h
  · rw [UInt64.toNat_zero]
    omega
  · exact toNat_sub_of_toNat_le (Nat.not_lt.mp h)

theorem toNat_saturatingAdd (a b : UInt64) :
    (saturatingAdd a b).toNat = min (a.toNat + b.toNat) (2 ^ 64 - 1) := by
  rw [saturatingAdd]
  split <;> rename_i h
  · rw [toNat_add_of_lt h]
    omega
  · rw [UInt64.toNat_ofNat_of_lt' (by decide)]
    omega

theorem toNat_saturatingMul (a b : UInt64) :
    (saturatingMul a b).toNat = min (a.toNat * b.toNat) (2 ^ 64 - 1) := by
  rw [saturatingMul]
  split <;> rename_i h
  · rw [UInt64.toNat_mul, Nat.mod_eq_of_lt h]
    omega
  · rw [UInt64.toNat_ofNat_of_lt' (by decide)]
    omega

theorem toNat_foldl_saturatingAdd {α : Type} (f : α → UInt64) (l : List α) (a : UInt64) :
    (l.foldl (fun total x => saturatingAdd total (f x)) a).toNat =
      min (a.toNat + (l.map fun x => (f x).toNat).sum) (2 ^ 64 - 1) := by
  induction l generalizing a with
  | nil =>
    have := a.toNat_lt
    simp only [List.foldl_nil, List.map_nil, List.sum_nil]
    omega
  | cons x l ih =>
    rw [List.foldl_cons, ih, toNat_saturatingAdd, List.map_cons, List.sum_cons]
    omega

end Support
