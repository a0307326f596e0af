import Gratia.Governance.Lifecycle

/-!
# Governance — Identifiers

A proposal's identifier is a hash of its proposer, the second of its submission and a number that
counts the submissions.  If no two of the strings hashed along a run collide, no submission meets an
identifier that is already taken (`Issued.freshId`): the maps run out of room before the number runs
out of values, so the strings of two submissions differ.
-/

namespace Gratia

open Support Std

theorem toLeBytes_injective : Function.Injective toLeBytes := Codec.u64.put_injective

theorem nonce_eq_of_proposalIdInput_eq {proposer proposer' : NodeId} {now now' : DateTime}
    {n n' : UInt64} (h : proposalIdInput proposer now n = proposalIdInput proposer' now' n') :
    n = n' :=
  toLeBytes_injective (List.append_inj' h (by simp [toLeBytes])).2

namespace GovernanceManager

variable {P : Platform} {m m' : GovernanceManager} {op : GovernanceOp} {S : Set Bytes}

variable (P) in
def idInputs : GovernanceManager → List GovernanceOp → List Bytes
  | _, [] => []
  | m, op :: ops =>
    (m.idInput op).toList ++ ((m.step P op).map fun m' => idInputs m' ops).getD []

def HashesIn (S : Set Bytes) (m : GovernanceManager) (op : GovernanceOp) : Prop :=
  ∀ x ∈ m.idInput op, x ∈ S

theorem along_hashesIn : ∀ (ops : List GovernanceOp) (m : GovernanceManager),
    (∀ x ∈ idInputs P m ops, x ∈ S) → Along (step P) (HashesIn S) m ops
  | [], _, _ => trivial
  | op :: ops, m, h => by
    refine ⟨fun x hx => h x ?_, fun m' hm' => along_hashesIn ops m' fun x hx => h x ?_⟩
    · exact List.mem_append.mpr (.inl (Option.mem_toList.mpr hx))
    · refine List.mem_append.mpr (.inr ?_)
      rw [show m.step P op = some m' from hm']
      exact hx

/-! ### What has been issued -/

def Taken (m : GovernanceManager) (id : Bytes32) : Prop :=
  id ∈ m.proposalStore.proposals ∨ id ∈ m.proposalStore.emergencyProposals

/-- Every identifier is the hash of a string of `S` with an earlier number, and the number counts
the proposals of both kinds. -/
structure Issued (P : Platform) (S : Set Bytes) (m : GovernanceManager) : Prop where
  earlier : ∀ id, m.Taken id → ∃ proposer now n, n < m.proposalStore.nextProposalNonce ∧
    proposalIdInput proposer now n ∈ S ∧ id = P.sha256 (proposalIdInput proposer now n)
  counted : m.proposalStore.nextProposalNonce.toNat =
    m.proposalStore.proposals.size + m.proposalStore.emergencyProposals.size
  proposals_le : m.proposalStore.proposals.size ≤ isizeMax
  emergencies_le : m.proposalStore.emergencyProposals.size ≤ isizeMax

theorem issued_new (config : GovernanceConfig) : Issued P S (new config) := by
  refine ⟨fun id h => ?_, rfl, Nat.zero_le _, Nat.zero_le _⟩
  simp [Taken, new] at h

theorem idInput_eq_some {x : Bytes} (h : m.idInput op = some x) :
    ∃ proposer now, x = proposalIdInput proposer now m.proposalStore.nextProposalNonce := by
  unfold idInput at h
  split at h
  · split at h
    · cases h
    · exact ⟨_, _, (Option.some.inj h).symm⟩
  · exact ⟨_, _, (Option.some.inj h).symm⟩
  · cases h

/-- **A new identifier is not taken.** -/
theorem Issued.not_taken (h : Issued P S m) (hinj : S.InjOn P.sha256) {x : Bytes}
    (hx : m.idInput op = some x) (hS : x ∈ S) : ¬ m.Taken (P.sha256 x) := by
  intro htaken
  obtain ⟨proposer, now, n, hn, hmem, heq⟩ := h.earlier _ htaken
  obtain ⟨proposer', now', rfl⟩ := idInput_eq_some hx
  have hsame := nonce_eq_of_proposalIdInput_eq (hinj hS hmem heq)
  rw [← hsame] at hn
  exact absurd hn (UInt64.lt_irrefl _)

theorem Issued.freshId (h : Issued P S m) (hinj : S.InjOn P.sha256) (hS : HashesIn S m op) :
    m.FreshId P op := by
  intro x hx
  have hfree := h.not_taken hinj hx (hS x hx)
  by_contra hsome
  obtain ⟨p, hp⟩ := Option.ne_none_iff_exists'.mp hsome
  exact hfree (.inl (mem_of_getElem? hp))

/-! ### Along a run -/

theorem Issued.toNat_succ (h : Issued P S m) :
    (m.proposalStore.nextProposalNonce + 1).toNat = m.proposalStore.nextProposalNonce.toNat + 1 := by
  have h₁ := h.counted
  have h₂ := h.proposals_le
  have h₃ := h.emergencies_le
  unfold isizeMax at h₂ h₃
  refine toNat_add_of_lt ?_
  simp only [UInt64.reduceToNat]
  omega

theorem Issued.of_keys (h : Issued P S m)
    (hp : ∀ id, id ∈ m'.proposalStore.proposals ↔ id ∈ m.proposalStore.proposals)
    (he : ∀ id, id ∈ m'.proposalStore.emergencyProposals ↔
      id ∈ m.proposalStore.emergencyProposals)
    (hn : m'.proposalStore.nextProposalNonce = m.proposalStore.nextProposalNonce) :
    Issued P S m' := by
  have hps := size_eq_of_mem_iff hp
  have hes := size_eq_of_mem_iff he
  refine ⟨fun id ht => ?_, ?_, hps ▸ h.proposals_le, hes ▸ h.emergencies_le⟩
  · rw [hn]
    exact h.earlier id (ht.imp (hp id).mp (he id).mp)
  · rw [hn, hps, hes]
    exact h.counted

theorem Issued.succ (h : Issued P S m) {x : Bytes} (hx : m.idInput op = some x) (hS : x ∈ S)
    (ht : ∀ id, m'.Taken id → id = P.sha256 x ∨ m.Taken id)
    (hn : m'.proposalStore.nextProposalNonce = m.proposalStore.nextProposalNonce + 1)
    (hsize : m'.proposalStore.proposals.size + m'.proposalStore.emergencyProposals.size =
      m.proposalStore.proposals.size + m.proposalStore.emergencyProposals.size + 1)
    (hp : m'.proposalStore.proposals.size ≤ isizeMax)
    (he : m'.proposalStore.emergencyProposals.size ≤ isizeMax) : Issued P S m' := by
  refine ⟨fun id htaken => ?_, ?_, hp, he⟩
  · rw [hn]
    rcases ht id htaken with rfl | hold
    · obtain ⟨proposer, now, rfl⟩ := idInput_eq_some hx
      refine ⟨proposer, now, _, ?_, hS, rfl⟩
      rw [UInt64.lt_iff_toNat_lt, h.toNat_succ]
      exact Nat.lt_succ_self _
    · obtain ⟨proposer, now, n, hlt, hmem, heq⟩ := h.earlier id hold
      refine ⟨proposer, now, n, ?_, hmem, heq⟩
      rw [UInt64.lt_iff_toNat_lt, h.toNat_succ]
      exact Nat.lt_succ_of_lt (UInt64.lt_iff_toNat_lt.mp hlt)
  · rw [hn, h.toNat_succ, hsize, h.counted]

theorem size_insert_of_notMem {V : Type} {t : ExtTreeMap Bytes32 V} {id : Bytes32} {v : V}
    (h : id ∉ t) : (t.insert id v).size = t.size + 1 := by
  rw [ExtTreeMap.size_insert, if_neg (by simpa using h)]

theorem HasRoom.size_le {V : Type} {t : ExtTreeMap Bytes32 V} {id : Bytes32} {v : V}
    (hroom : HasRoom t id) (h : id ∉ t) : (t.insert id v).size ≤ isizeMax := by
  rw [size_insert_of_notMem h]
  exact hroom.resolve_right h

/-- **Every operation keeps the account of identifiers.** -/
theorem Effect.issued (h : Issued P S m) (hinj : S.InjOn P.sha256)
    (hS : HashesIn S m op) (he : Effect P m op m') : Issued P S m' := by
  cases he with
  | refused => exact h
  | submitted hx hcreated hroom =>
    have hfree := h.not_taken hinj hx (hS _ hx)
    have hp := fun hmem => hfree (.inl hmem)
    refine h.succ hx (hS _ hx) (fun id ht => ?_) rfl ?_ (hroom.size_le hp) h.emergencies_le
    · rcases ht with ht | ht
      · exact (mem_insert_iff.mp ht).imp Eq.symm .inl
      · exact .inr (.inr ht)
    · simp only [withProposal, size_insert_of_notMem hp]
      omega
  | cancelled hp hphase | counted hp hstatus hvoter hlen =>
    refine h.of_keys (fun id => ?_) (fun id => Iff.rfl) rfl
    exact mem_insert_iff.trans
      (or_iff_right_of_imp fun hid => hid ▸ mem_of_getElem? hp)
  | ticked =>
    rename_i now
    obtain ⟨hemergencies, hnonce⟩ := advanceAll_rest m.proposalStore now
    refine h.of_keys (fun id => ?_) (fun id => ?_) hnonce
    · rw [ExtTreeMap.mem_iff_isSome_getElem?, ExtTreeMap.mem_iff_isSome_getElem?,
        (tick_isSome _ now id).1]
    · show id ∈ (m.proposalStore.advanceAll now).emergencyProposals ↔ _
      rw [hemergencies, ExtTreeMap.mem_map]
  | configured => exact h.of_keys (fun _ => Iff.rfl) (fun _ => Iff.rfl) rfl
  | declared hx hroom =>
    have hfree := h.not_taken hinj hx (hS _ hx)
    have hep := fun hmem => hfree (.inr hmem)
    refine h.succ hx (hS _ hx) (fun id ht => ?_) rfl ?_ h.proposals_le (hroom.size_le hep)
    · rcases ht with ht | ht
      · exact .inr (.inl ht)
      · exact (mem_insert_iff.mp ht).imp Eq.symm .inr
    · simp only [size_insert_of_notMem hep]
      omega
  | amended hx hmem =>
    refine h.of_keys (fun id => Iff.rfl) (fun id => ?_) rfl
    exact mem_insert_iff.trans (or_iff_right_of_imp fun hid => hid ▸ hmem)

structure Sound (P : Platform) (S : Set Bytes) (m : GovernanceManager) : Prop where
  coherent : m.Coherent
  issued : Issued P S m

theorem Sound.step (h : Sound P S m) (hinj : S.InjOn P.sha256) (hS : HashesIn S m op)
    (hstep : m.step P op = some m') : Sound P S m' :=
  ⟨(effect_of_step hstep).coherent h.coherent,
    (effect_of_step hstep).issued h.issued hinj hS⟩

/-- **What an operation does to each proposal**, in a run without collisions. -/
theorem Sound.changes (h : Sound P S m) (hinj : S.InjOn P.sha256) (hS : HashesIn S m op)
    (hstep : m.step P op = some m') (id : Bytes32) :
    Entry.Changes id op (m.entry id) (m'.entry id) :=
  (effect_of_step hstep).entry h.coherent (h.issued.freshId hinj hS) id

end GovernanceManager

end Gratia
