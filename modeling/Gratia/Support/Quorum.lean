import Mathlib.Tactic

/-!
# Support — Quorum

Two quorums of a finite membership overlap (`lt_card_inter`), and when fewer members misbehave than
the overlap is wide, some well-behaved member is in both (`exists_mem_both`).  Agreement on a value
that every quorum member vouches for follows at once (`eq_of_quorums`): a member outside `bad`
vouches for at most one value, so two values with a quorum each are one value.
-/

namespace Support.Quorum

variable {ι α : Type} [DecidableEq ι]

theorem lt_card_inter {members Q₁ Q₂ : Finset ι} {t k : ℕ} (h₁ : Q₁ ⊆ members)
    (h₂ : Q₂ ⊆ members) (c₁ : t ≤ Q₁.card) (c₂ : t ≤ Q₂.card)
    (hk : k + members.card < 2 * t) : k < (Q₁ ∩ Q₂).card := by
  have hu : (Q₁ ∪ Q₂).card ≤ members.card := Finset.card_le_card (Finset.union_subset h₁ h₂)
  have hi := Finset.card_union_add_card_inter Q₁ Q₂
  omega

theorem exists_mem_both {members bad Q₁ Q₂ : Finset ι} {t : ℕ} (h₁ : Q₁ ⊆ members)
    (h₂ : Q₂ ⊆ members) (c₁ : t ≤ Q₁.card) (c₂ : t ≤ Q₂.card)
    (hbad : bad.card + members.card < 2 * t) : ∃ m, m ∈ Q₁ ∧ m ∈ Q₂ ∧ m ∉ bad := by
  obtain ⟨m, hm, hnb⟩ :=
    Finset.exists_mem_notMem_of_card_lt_card (lt_card_inter h₁ h₂ c₁ c₂ hbad)
  exact ⟨m, (Finset.mem_inter.mp hm).1, (Finset.mem_inter.mp hm).2, hnb⟩

/-- `a` has a quorum: at least `t` of the members vouch for it. -/
def Certified (members : Finset ι) (t : ℕ) (vouches : ι → α → Prop) (a : α) : Prop :=
  ∃ Q ⊆ members, t ≤ Q.card ∧ ∀ m ∈ Q, vouches m a

omit [DecidableEq ι] in
theorem Certified.mono {members : Finset ι} {t : ℕ} {v w : ι → α → Prop} {a : α}
    (hvw : ∀ m, v m a → w m a) (h : Certified members t v a) : Certified members t w a := by
  obtain ⟨Q, hQ, hc, hv⟩ := h
  exact ⟨Q, hQ, hc, fun m hm => hvw m (hv m hm)⟩

/-- **Two certified values agree**, when the members that vouch for two different values are too
few to fill the overlap of two quorums. -/
theorem eq_of_quorums {members bad : Finset ι} {t : ℕ} {vouches : ι → α → Prop} {a b : α}
    (hbad : bad.card + members.card < 2 * t)
    (honest : ∀ m ∈ members, m ∉ bad → vouches m a → vouches m b → a = b)
    (ha : Certified members t vouches a) (hb : Certified members t vouches b) : a = b := by
  obtain ⟨Q₁, hQ₁, hc₁, hv₁⟩ := ha
  obtain ⟨Q₂, hQ₂, hc₂, hv₂⟩ := hb
  obtain ⟨m, hm₁, hm₂, hnb⟩ := exists_mem_both hQ₁ hQ₂ hc₁ hc₂ hbad
  exact honest m (hQ₁ hm₁) hnb (hv₁ m hm₁) (hv₂ m hm₂)

end Support.Quorum
