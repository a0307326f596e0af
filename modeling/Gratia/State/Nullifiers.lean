import Gratia.Core.Reference
import Gratia.State.Blocks

/-!
# State — Nullifiers

Attestations are stored under their nullifiers, and `has_nullifier` asks the store for one.
`apply_block` writes this index and never asks it: a block whose attestation is already on the chain
is applied like any other, and the second record silently replaces the first.

So a nullifier is used once exactly when the blocks themselves see to it.  `nullifiers_nodup_iff`
says this for every run from the empty store: all nullifiers are distinct if and only if each block,
as it is applied, carries distinct nullifiers that `has_nullifier` does not yet know.  The index
answers for the whole run as long as pruning has dropped nothing from it, that is, while there are
no more attestations than the policy retains.
-/

namespace Gratia

open Support StateDb

namespace StateManager

variable (P : Platform) (m : StateManager)

def nullifiers (block : Block) : List Bytes32 := block.attestations.map fun a => a.nullifier

/-- The block's nullifiers are distinct and none of them is in the index. -/
def Fresh (block : Block) (s : InMemoryStore) : Prop :=
  (nullifiers block).Nodup ∧ ∀ n ∈ nullifiers block, hasNullifier n s = false

/-- Every block of the run is fresh in the store it is applied to. -/
def FreshAlong (blocks : List Block) (s : InMemoryStore) : Prop :=
  ∀ before block after s₀, blocks = before ++ block :: after →
    (forM before (applyBlock P m)).run s = .ok () s₀ → Fresh block s₀

/-- The index holds exactly the nullifiers of `seen`. -/
def Indexed (seen : List Bytes32) (s : InMemoryStore) : Prop :=
  (∀ n, hasNullifier n s = true ↔ n ∈ seen) ∧ (s.data .attestations).size ≤ seen.length

variable {P m} {block : Block} {blocks : List Block} {seen : List Bytes32} {s s' t : InMemoryStore}

theorem hasNullifier_congr (h : s.data .attestations = t.data .attestations) (n : Bytes32) :
    hasNullifier n s = hasNullifier n t := by
  simp only [hasNullifier, InMemoryStore.get, h]

theorem Indexed.congr (h : s.data .attestations = t.data .attestations) (hi : Indexed seen s) :
    Indexed seen t :=
  ⟨fun n => by rw [← hasNullifier_congr h, hi.1 n], h ▸ hi.2⟩

theorem indexed_new : Indexed [] .new :=
  ⟨fun n => by simp [hasNullifier, InMemoryStore.get, InMemoryStore.new], by
    simp [InMemoryStore.new]⟩

theorem hasNullifier_putAttestation (a : ProofOfLifeAttestation) (n : Bytes32) :
    hasNullifier n (putAttestation P a s) = true ↔ hasNullifier n s = true ∨ n = a.nullifier := by
  by_cases hn : a.nullifier = n
  · subst hn
    simp [hasNullifier, putAttestation]
  · have hk : a.nullifier.bytes ≠ n.bytes := fun he => hn (Bytes32.bytes_injective he)
    simp only [hasNullifier, putAttestation, s.get_put_ne _ _ hk]
    simp [Ne.symm hn]

theorem hasNullifier_putAttestations (as : List ProofOfLifeAttestation) (n : Bytes32) :
    hasNullifier n (as.foldl (fun s a => putAttestation P a s) s) = true ↔
      hasNullifier n s = true ∨ n ∈ as.map fun a => a.nullifier := by
  induction as generalizing s with
  | nil => simp
  | cons a as ih =>
    rw [List.foldl_cons, ih, hasNullifier_putAttestation, List.map_cons, List.mem_cons, or_assoc]

theorem Indexed.store (hi : Indexed seen s) (a : ProofOfLifeAttestation) :
    Indexed (seen ++ [a.nullifier]) (putAttestation P a s) := by
  constructor
  · intro n
    rw [hasNullifier_putAttestation, hi.1 n, List.mem_append, List.mem_singleton]
  · have := Std.ExtTreeMap.size_insert_le (t := s.data .attestations) (k := a.nullifier.bytes)
      (v := P.attestation.put a)
    simp only [putAttestation, InMemoryStore.put_data_self, List.length_append,
      List.length_singleton]
    exact this.trans (Nat.add_le_add_right hi.2 1)

theorem Indexed.store_all (hi : Indexed seen s) (as : List ProofOfLifeAttestation) :
    Indexed (seen ++ as.map fun a => a.nullifier)
      (as.foldl (fun s a => putAttestation P a s) s) := by
  induction as generalizing seen s with
  | nil => simpa using hi
  | cons a as ih =>
    have := ih (hi.store (P := P) a)
    simpa using this

/-- **A block adds its nullifiers to the index**, and pruning takes none away while there are no
more of them than the policy retains. -/
theorem Indexed.after_block (hi : Indexed seen s) (h : (applyBlock P m block).run s = .ok () s')
    (hcap : (seen ++ nullifiers block).length ≤ (Pruning.maxRetained m.pruningPolicy).toNat) :
    Indexed (seen ++ nullifiers block) s' := by
  obtain ⟨-, s₁, htxs, rfl⟩ := applyBlock_ok.mp h
  have hs₁ : Indexed seen s₁ := hi.congr (applyTransactions_data (by decide) htxs).symm
  have hcommit : Indexed (seen ++ nullifiers block) (commitBlock P block s₁) :=
    (hs₁.store_all block.attestations).congr (commitBlock_attestations P block s₁).symm
  have hcount : (commitBlock P block s₁).countKeys .attestations ≤
      Pruning.maxRetained m.pruningPolicy := by
    have hlt := (Pruning.maxRetained m.pruningPolicy).toNat_lt
    have hsize := hcommit.2
    rw [UInt64.le_iff_toNat_le, InMemoryStore.countKeys, UInt64.toNat_ofNat_of_lt' (by
      show _ < 2 ^ 64
      omega)]
    omega
  refine hcommit.congr ?_
  unfold finishBlock
  dsimp only
  split
  · exact (Pruning.runPruningCycle_attestations P hcount _).symm
  · rfl

theorem nodup_append_iff_fresh (hi : Indexed seen s) :
    (seen ++ nullifiers block).Nodup ↔ seen.Nodup ∧ Fresh block s := by
  have hdisj : seen.Disjoint (nullifiers block) ↔
      ∀ n ∈ nullifiers block, hasNullifier n s = false := by
    constructor
    · intro hd n hn
      rw [← Bool.not_eq_true, hi.1 n]
      exact fun hs => hd hs hn
    · intro hf n hs hn
      have := hf n hn
      rw [(hi.1 n).mpr hs] at this
      cases this
  rw [List.nodup_append', Fresh, ← hdisj]

theorem freshAlong_cons {s₁ : InMemoryStore} (h : (applyBlock P m block).run s = .ok () s₁) :
    FreshAlong P m (block :: blocks) s ↔ Fresh block s ∧ FreshAlong P m blocks s₁ := by
  constructor
  · intro hf
    refine ⟨hf [] block blocks s rfl rfl, fun before b after s₀ he hr => ?_⟩
    exact hf (block :: before) b after s₀ (by rw [he]; rfl) (forM_cons_ok.mpr ⟨s₁, h, hr⟩)
  · rintro ⟨hfirst, hrest⟩ before b after s₀ he hr
    cases before with
    | nil =>
      cases he
      cases hr
      exact hfirst
    | cons c before =>
      cases he
      obtain ⟨s₂, h₂, hr⟩ := forM_cons_ok.mp hr
      rw [h] at h₂
      cases h₂
      exact hrest before b after s₀ rfl hr

theorem nodup_run_iff (hi : Indexed seen s) (h : (forM blocks (applyBlock P m)).run s = .ok () s')
    (hcap : (seen ++ blocks.flatMap nullifiers).length ≤
      (Pruning.maxRetained m.pruningPolicy).toNat) :
    (seen ++ blocks.flatMap nullifiers).Nodup ↔ seen.Nodup ∧ FreshAlong P m blocks s := by
  induction blocks generalizing s seen with
  | nil =>
    simp only [List.flatMap_nil, List.append_nil, iff_self_and]
    exact fun _ before b after s₀ he => absurd he (by simp)
  | cons b bs ih =>
    obtain ⟨s₁, h₁, h₂⟩ := forM_cons_ok.mp h
    rw [List.flatMap_cons, ← List.append_assoc] at hcap ⊢
    have hcap' : (seen ++ nullifiers b).length ≤ (Pruning.maxRetained m.pruningPolicy).toNat :=
      (by simp only [List.length_append]; omega : _ ≤ _).trans hcap
    rw [ih (hi.after_block h₁ hcap') h₂ hcap, nodup_append_iff_fresh hi, freshAlong_cons h₁,
      and_assoc]

/-- **No nullifier twice, exactly.**  Along a run from the empty store whose attestations the policy
retains, all nullifiers are distinct if and only if every block is fresh when it is applied. -/
theorem nullifiers_nodup_iff (h : (forM blocks (applyBlock P m)).run .new = .ok () s')
    (hcap : (blocks.flatMap nullifiers).length ≤ (Pruning.maxRetained m.pruningPolicy).toNat) :
    (blocks.flatMap nullifiers).Nodup ↔ FreshAlong P m blocks .new := by
  have := nodup_run_iff indexed_new h (by simpa using hcap)
  simpa using this

/-! ### One attestation in two blocks -/

def attestationOf (nullifier : Bytes32) : ProofOfLifeAttestation :=
  { blindedId := .zero, nullifier := nullifier, zkProof := [], zkCommitments := none, epochDay := 0,
    presenceScore := 50,
    sensorFlags :=
      ⟨true, true, true, true, true, true, true, true, true, true, true, true, true, true⟩,
    signature := [] }

open Reference

def attestingBlock (height : UInt64) (parent : BlockHash) (nullifier : Bytes32) : Block :=
  { blockOf (headerAt height parent (node 1)) [] with
    attestations := [attestationOf nullifier] }

def twoAttestations (first second : Bytes32) : List Block :=
  [attestingBlock 1 {} first,
   attestingBlock 2 ((attestingBlock 1 {} first).header.hash reference) second]

theorem twoAttestations_applied : ∀ second ∈ [Bytes32.splat 1, .splat 2],
    failure ((forM (twoAttestations (.splat 1) second) (applyBlock reference {})).run
      .new) = none := by
  decide +kernel

/-- Two blocks with one attestation each, fresh both times. -/
theorem nullifiers_nodup_twoAttestations :
    ∃ s', (forM (twoAttestations (.splat 1) (.splat 2)) (applyBlock reference {})).run .new =
        .ok () s' ∧
      FreshAlong reference {} (twoAttestations (.splat 1) (.splat 2)) .new := by
  have hok := eq_ok_of_failure (twoAttestations_applied (.splat 2) (by simp))
  exact ⟨_, hok, (nullifiers_nodup_iff hok (by decide)).mp (by decide)⟩

/-- The same attestation is applied twice. -/
theorem same_nullifier_applied_twice :
    ∃ s', (forM (twoAttestations (.splat 1) (.splat 1)) (applyBlock reference {})).run .new =
        .ok () s' ∧
      ¬ ((twoAttestations (.splat 1) (.splat 1)).flatMap nullifiers).Nodup := by
  have hok := eq_ok_of_failure (twoAttestations_applied (.splat 1) (by simp))
  exact ⟨_, hok, by decide⟩

end StateManager

end Gratia
