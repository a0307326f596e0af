import Gratia.Consensus.Validation

/-!
# Consensus — Attestations

What an accepted attestation says about the day it attests.  The range proof of a day shows that the
parameters are at least the minimums the *prover* subtracted; neither `verify_pol_proof` nor
`validate_block_attestations` holds these against the thresholds of the network, which the proof
does not name.
-/

namespace Gratia

open Support (Bytes)

def PolThresholds.AtMost (t u : PolThresholds) : Prop :=
  t.minUnlocks ≤ u.minUnlocks ∧ t.minSpread ≤ u.minSpread ∧ t.minInteractions ≤ u.minInteractions ∧
    t.minBtEnvs ≤ u.minBtEnvs

instance (t u : PolThresholds) : Decidable (t.AtMost u) :=
  inferInstanceAs (Decidable (_ ∧ _ ∧ _ ∧ _))

theorem PolThresholds.atMost_refl (t : PolThresholds) : t.AtMost t :=
  ⟨UInt64.le_refl _, UInt64.le_refl _, UInt64.le_refl _, UInt64.le_refl _⟩

theorem PolProofInput.Meets.mono {data : PolProofInput} {t u : PolThresholds} (h : data.Meets u)
    (htu : t.AtMost u) : data.Meets t := by
  obtain ⟨h₁, h₂, h₃, h₄⟩ := h
  obtain ⟨k₁, k₂, k₃, k₄⟩ := htu
  exact ⟨UInt64.le_trans k₁ h₁, UInt64.le_trans k₂ h₂, UInt64.le_trans k₃ h₃,
    UInt64.le_trans k₄ h₄⟩

def PolThresholds.barely (t : PolThresholds) : PolProofInput :=
  ⟨t.minUnlocks, t.minSpread, t.minInteractions, t.minBtEnvs⟩

theorem PolThresholds.meets_barely (t u : PolThresholds) : u.barely.Meets t ↔ t.AtMost u := Iff.rfl

def ProofOfLifeAttestation.Carries (attestation : ProofOfLifeAttestation) (proof : PolRangeProof) :
    Prop :=
  attestation.zkProof = proof.proofBytes ∧ attestation.zkCommitments = some proof.commitments ∧
    attestation.epochDay = proof.epochDay

variable {P : Platform} {bp : Bulletproofs P}

theorem validateAttestationZkProof_of_carries {attestation : ProofOfLifeAttestation}
    {proof : PolRangeProof} {asked : PolThresholds} (hc : attestation.Carries proof)
    (hcount : proof.parameterCount = 4)
    (hv : verifyPolProof bp proof asked proof.epochDay = .ok true) :
    validateAttestationZkProof bp attestation asked = .ok () := by
  obtain ⟨hproof, hcommit, hday⟩ := hc
  unfold validateAttestationZkProof
  split
  · rfl
  · simp only [hproof, hcommit, hday, ← hcount]
    rw [hv]

def PolRangeProof.attestation (proof : PolRangeProof) : ProofOfLifeAttestation :=
  { blindedId := .zero, nullifier := .zero, zkProof := proof.proofBytes,
    zkCommitments := some proof.commitments, epochDay := proof.epochDay, presenceScore := 40,
    sensorFlags := ⟨false, false, false, false, false, false, false, false, false, false, false,
      false, false, false⟩,
    signature := [] }

theorem PolRangeProof.carries_attestation (proof : PolRangeProof) :
    proof.attestation.Carries proof :=
  ⟨rfl, rfl, rfl⟩

/-- **A proof that verifies is accepted in a block.** -/
theorem PolRangeProof.validateBlockAttestations_attestation (proof : PolRangeProof)
    {asked : PolThresholds} (hcount : proof.parameterCount = 4)
    (hv : verifyPolProof bp proof asked proof.epochDay = .ok true) :
    validateBlockAttestations bp [proof.attestation] asked = .ok () :=
  validateBlockAttestations_ok.mpr ⟨List.nodup_singleton _, List.forall_mem_singleton.mpr
    (validateAttestationZkProof_of_carries proof.carries_attestation hcount hv)⟩

/-- The day is proved with minimums `proved`; whatever then verifies under `asked` meets `asked`. -/
def VerifiedMeets (bp : Bulletproofs P) (proved asked : PolThresholds) : Prop :=
  ∀ coins data epochDay proof, generatePolProof bp coins data proved epochDay = .ok proof →
    verifyPolProof bp proof asked epochDay = .ok true → data.Meets asked

/-- The same of the attestations of a block, one of which carries the proof. -/
def AttestedMeets (bp : Bulletproofs P) (proved asked : PolThresholds) : Prop :=
  ∀ coins data epochDay proof, generatePolProof bp coins data proved epochDay = .ok proof →
    ∀ attestations, (∃ a ∈ attestations, a.Carries proof) →
      validateBlockAttestations bp attestations asked = .ok () → data.Meets asked

/-- **An accepted proof meets the verifier's thresholds** exactly when these are at most the
prover's, be it accepted by itself or in a block. -/
theorem accepted_meets_iff (hbp : PolRangeComplete bp) (proved asked : PolThresholds) :
    (VerifiedMeets bp proved asked ↔ asked.AtMost proved) ∧
      (AttestedMeets bp proved asked ↔ asked.AtMost proved) := by
  have hzero : ∀ v ∈ proved.barely.shifted proved, v.toNat < 2 ^ rangeProofBits := by
    simp [PolProofInput.shifted, polParameters, PolThresholds.barely]
  obtain ⟨proof, hgen, hcount, hday, hver⟩ := exists_generatePolProof hbp
    ⟨fun _ => 0, []⟩ ((proved.meets_barely proved).mpr proved.atMost_refl) hzero 0
  refine ⟨⟨fun h => ?_, fun h => ?_⟩, ⟨fun h => ?_, fun h => ?_⟩⟩
  · exact h _ _ _ _ hgen (hver asked)
  · exact fun _ _ _ _ hg _ => (generatePolProof_ok.mp hg).1.mono h
  · exact h _ _ _ _ hgen [proof.attestation]
      ⟨_, List.mem_singleton_self _, proof.carries_attestation⟩
      (proof.validateBlockAttestations_attestation hcount (hday ▸ hver asked))
  · exact fun _ _ _ _ hg _ _ _ => (generatePolProof_ok.mp hg).1.mono h

open Reference

/-- The network's thresholds, met by the prover. -/
theorem accepted_meets_default :
    VerifiedMeets rangeProofs {} {} ∧ AttestedMeets rangeProofs {} {} := by
  obtain ⟨hverified, hattested⟩ := accepted_meets_iff rangeProofs_complete {} {}
  exact ⟨hverified.mpr (by decide), hattested.mpr (by decide)⟩

/-- A phone that nobody touched, proved against no thresholds: the proof is accepted under those of
the network, by itself and in a block. -/
theorem accepted_untouchedPhone :
    ∃ proof, generatePolProof rangeProofs polCoins ⟨0, 0, 0, 0⟩ ⟨0, 0, 0, 0⟩ 7 =
        .ok proof ∧
      verifyPolProof rangeProofs proof {} 7 = .ok true ∧
      validateBlockAttestations rangeProofs [proof.attestation] {} = .ok () ∧
      ¬ PolProofInput.Meets ⟨0, 0, 0, 0⟩ {} := by
  have hmeets : PolProofInput.Meets ⟨0, 0, 0, 0⟩ ⟨0, 0, 0, 0⟩ := by decide
  obtain ⟨proof, hgen, hcount, hday, hver⟩ := exists_generatePolProof
    rangeProofs_complete polCoins hmeets
    (by simp [PolProofInput.shifted, polParameters, rangeProofBits]) 7
  exact ⟨proof, hgen, hver {}, proof.validateBlockAttestations_attestation hcount (hday ▸ hver {}),
    by decide⟩

end Gratia
