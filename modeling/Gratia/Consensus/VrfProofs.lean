import Gratia.Consensus.Vrf
import Gratia.Core.Reference
import Gratia.Support.Runs
import Gratia.Support.Sigma

/-!
# Consensus — VRF proofs

What `verify_vrf_proof` accepts.  A proof is a point `Gamma`, a challenge and a response; the
verifier recomputes from them the two points that the prover committed to, one over the base point
and one over the hashed input.
-/

namespace Gratia

open Support

/-! ### The group -/

/-- There are as many points as scalars, and the base point is not the neutral one. -/
structure RistrettoGroup.PrimeOrder (G : RistrettoGroup) : Prop where
  card : Nat.card G.Point = G.order
  basepoint : G.basepoint ≠ 0

variable {P : Platform}

theorem RistrettoGroup.PrimeOrder.exists_smul (h : P.ristretto.PrimeOrder) (p : P.ristretto.Point) :
    ∃ x : P.Scalar, x • P.ristretto.basepoint = p := by
  have hfinite : Finite P.ristretto.Point := by
    refine Nat.finite_of_card_ne_zero ?_
    rw [h.card]
    exact P.ristretto.prime.ne_zero
  have hinj : Function.Injective fun x : P.Scalar => x • P.ristretto.basepoint :=
    smul_left_injective _ h.basepoint
  have hcard : Nat.card P.ristretto.Point ≤ Nat.card P.Scalar := by
    rw [h.card, Nat.card_zmod]
  exact (hinj.bijective_of_nat_card_le hcard).surjective p

/-! ### Reading a proof -/

@[simp] theorem scalarFromCanonicalBytes_scalarBytes (x : P.Scalar) :
    scalarFromCanonicalBytes P (scalarBytes P x).bytes = some x := by
  have hlt : x.val < P.ristretto.order := x.val_lt
  have hval : ofLeBytes (scalarBytes P x).bytes = x.val := by
    rw [scalarBytes, ofLeBytes_leBytes]
    exact Nat.mod_eq_of_lt (hlt.trans (P.ristretto.order_lt.trans_le (by norm_num)))
  rw [scalarFromCanonicalBytes, hval, if_pos hlt, ZMod.natCast_zmod_val]

@[simp] theorem toScalar_scalarBytes (x : P.Scalar) :
    VrfSecretKey.toScalar P ⟨scalarBytes P x⟩ = x := by
  have h := scalarFromCanonicalBytes_scalarBytes x
  unfold scalarFromCanonicalBytes at h
  split at h
  · exact Option.some.inj h
  · cases h

@[simp] theorem decompressSlice_compress (p : P.ristretto.Point) :
    decompressSlice P (P.ristretto.compress p).bytes = some p := by
  rw [decompressSlice, dif_pos (P.ristretto.compress p).length_eq]
  exact P.ristretto.decompress_compress p

@[simp] theorem orInvalidVrfProof_ok {α : Type} {o : Option α} {a : α} :
    orInvalidVrfProof o = .ok a ↔ o = some a := by
  cases o with
  | none | some b => simp [orInvalidVrfProof]

variable (P) in
/-- The two points that the equations of `verify_vrf_proof` give for a challenge and a response. -/
def vrfCommitments (publicKey h gamma : P.ristretto.Point) (c s : P.Scalar) :
    P.ristretto.Point × P.ristretto.Point :=
  (s • P.ristretto.basepoint + c • publicKey, s • h + c • gamma)

/-- The three parts of a proof and the point of the public key, as the verifier reads them. -/
structure VrfReads (P : Platform) (publicKey : VrfPublicKey) (proofBytes : Bytes)
    (point gamma : P.ristretto.Point) (c s : P.Scalar) : Prop where
  length : proofBytes.length = vrfProofSize
  gamma : decompressSlice P (proofBytes.take 32) = some gamma
  challenge : scalarFromCanonicalBytes P ((proofBytes.drop 32).take 32) = some c
  response : scalarFromCanonicalBytes P ((proofBytes.drop 64).take 32) = some s
  point : P.ristretto.decompress publicKey.bytes = some point

/-- **Acceptance**: the parts can be read, the challenge is the hash of what it commits to, and the
output is that of `Gamma`. -/
theorem verifyVrfProof_ok {publicKey : VrfPublicKey} {input : Bytes} {proof : VrfProof}
    {output : Bytes32} :
    verifyVrfProof P publicKey input proof = .ok output ↔
      ∃ point gamma c s, VrfReads P publicKey proof.proofBytes point gamma c s ∧
        c = computeChallenge P point (hashToPoint P input) gamma
          (vrfCommitments P point (hashToPoint P input) gamma c s).1
          (vrfCommitments P point (hashToPoint P input) gamma c s).2 ∧
        proof.output = gammaToOutput P gamma ∧ output = gammaToOutput P gamma := by
  unfold verifyVrfProof
  simp only [except_guard_ok, except_bind_ok, orInvalidVrfProof_ok, not_not]
  constructor
  · rintro ⟨hlen, gamma, hgamma, c, hc, s, hs, point, hpoint, hchallenge, hout, ⟨⟩⟩
    exact ⟨point, gamma, c, s, ⟨hlen, hgamma, hc, hs, hpoint⟩, hchallenge, hout, rfl⟩
  · rintro ⟨point, gamma, c, s, hread, hchallenge, hout, rfl⟩
    exact ⟨hread.length, gamma, hread.gamma, c, hread.challenge, s, hread.response, point,
      hread.point, hchallenge, hout, rfl⟩

/-! ### Honest proofs -/

theorem VrfReads.unique {publicKey : VrfPublicKey} {proofBytes : Bytes}
    {point gamma point' gamma' : P.ristretto.Point} {c s c' s' : P.Scalar}
    (h : VrfReads P publicKey proofBytes point gamma c s)
    (h' : VrfReads P publicKey proofBytes point' gamma' c' s') : gamma' = gamma :=
  Option.some.inj (h'.gamma.symm.trans h.gamma)

theorem read_parts (a b c : Bytes32) :
    (a.bytes ++ b.bytes ++ c.bytes).length = vrfProofSize ∧
      (a.bytes ++ b.bytes ++ c.bytes).take 32 = a.bytes ∧
      ((a.bytes ++ b.bytes ++ c.bytes).drop 32).take 32 = b.bytes ∧
      ((a.bytes ++ b.bytes ++ c.bytes).drop 64).take 32 = c.bytes := by
  have ha := a.length_eq
  have hb := b.length_eq
  have hc := c.length_eq
  refine ⟨by simp [ha, hb, hc, vrfProofSize], ?_, ?_, ?_⟩
  · simp [ha]
  · simp [ha, hb]
  · rw [List.drop_left' (by simp [ha, hb]), List.take_of_length_le hc.le]

variable (P) in
/-- What `generate_vrf_proof` puts into a proof is read back, and its commitments are those of its
nonce. -/
theorem generateVrfProof_reads (key : VrfSecretKey) (input : Bytes) :
    let x := key.toScalar P
    let h := hashToPoint P input
    ∃ c s, VrfReads P (key.publicKey P) (generateVrfProof P key input).proofBytes
        (x • P.ristretto.basepoint) (x • h) c s ∧
      c = computeChallenge P (x • P.ristretto.basepoint) h (x • h)
        (vrfCommitments P (x • P.ristretto.basepoint) h (x • h) c s).1
        (vrfCommitments P (x • P.ristretto.basepoint) h (x • h) c s).2 := by
  intro x h
  let k := scalarFromWide P (P.sha512 (vrfNonceDomain ++ key.scalar.bytes ++ input))
  let c := computeChallenge P (x • P.ristretto.basepoint) h (x • h) (k • P.ristretto.basepoint)
    (k • h)
  obtain ⟨hlen, hgamma, hc, hs⟩ := read_parts (P.ristretto.compress (x • h)) (scalarBytes P c)
    (scalarBytes P (k - c * x))
  refine ⟨c, k - c * x, ⟨hlen, ?_, ?_, ?_, P.ristretto.decompress_compress _⟩, ?_⟩
  · exact (congrArg (decompressSlice P) hgamma).trans (decompressSlice_compress _)
  · exact (congrArg (scalarFromCanonicalBytes P) hc).trans (scalarFromCanonicalBytes_scalarBytes c)
  · exact (congrArg (scalarFromCanonicalBytes P) hs).trans
      (scalarFromCanonicalBytes_scalarBytes (k - c * x))
  · -- the response takes back what the challenge adds
    have hu : (k - c * x) • P.ristretto.basepoint + c • x • P.ristretto.basepoint =
        k • P.ristretto.basepoint := by
      module
    have hv : (k - c * x) • h + c • x • h = k • h := by
      module
    simp only [vrfCommitments, hu, hv]
    rfl

/-- **An honest proof** is accepted under the output it was made with, and under no other. -/
theorem verifyVrfProof_generate (key : VrfSecretKey) (input : Bytes) (claimed output : Bytes32) :
    verifyVrfProof P (key.publicKey P) input ⟨claimed, (generateVrfProof P key input).proofBytes⟩ =
        .ok output ↔
      output = (generateVrfProof P key input).output ∧ claimed = output := by
  obtain ⟨c, s, hread, hchallenge⟩ := generateVrfProof_reads P key input
  rw [verifyVrfProof_ok]
  constructor
  · rintro ⟨point, gamma, c', s', hread', -, hclaimed, rfl⟩
    obtain rfl := hread.unique hread'
    exact ⟨rfl, hclaimed⟩
  · rintro ⟨rfl, rfl⟩
    exact ⟨_, _, c, s, hread, hchallenge, rfl, rfl⟩

/-! ### Completeness and uniqueness -/

/-- **The VRF is complete, and its output is unique.**  A proof of `generate_vrf_proof` is accepted
with its output.  A public key that can be read has a secret key; and if, for some input and some
`Gamma`, two different answers lead to the same commitments, then `Gamma` is what
`generate_vrf_proof` computes with that secret key, and so is the output. -/
theorem vrf_complete_and_unique (hP : P.ristretto.PrimeOrder) :
    (∀ (key : VrfSecretKey) (input : Bytes),
      verifyVrfProof P (key.publicKey P) input (generateVrfProof P key input) =
        .ok (generateVrfProof P key input).output) ∧
    ∀ (publicKey : VrfPublicKey) (point : P.ristretto.Point),
      P.ristretto.decompress publicKey.bytes = some point →
      (∃ key : VrfSecretKey, key.publicKey P = publicKey) ∧
      ∀ key : VrfSecretKey, key.publicKey P = publicKey →
        ∀ (input : Bytes) (gamma : P.ristretto.Point) (c s c' s' : P.Scalar), (c, s) ≠ (c', s') →
          vrfCommitments P point (hashToPoint P input) gamma c s =
            vrfCommitments P point (hashToPoint P input) gamma c' s' →
          gamma = key.toScalar P • hashToPoint P input ∧
            gammaToOutput P gamma = (generateVrfProof P key input).output := by
  refine ⟨fun key input => (verifyVrfProof_generate key input _ _).mpr ⟨rfl, rfl⟩, ?_⟩
  intro publicKey point hpoint
  have hbytes := P.ristretto.compress_of_decompress _ _ hpoint
  constructor
  · obtain ⟨x, hx⟩ := hP.exists_smul point
    refine ⟨⟨scalarBytes P x⟩, ?_⟩
    rw [VrfSecretKey.publicKey, toScalar_scalarBytes, hx, hbytes]
  · rintro key rfl input gamma c s c' s' hne hsame
    obtain rfl : point = key.toScalar P • P.ristretto.basepoint := by
      rw [VrfSecretKey.publicKey, P.ristretto.decompress_compress] at hpoint
      exact (Option.some.inj hpoint).symm
    obtain ⟨hu, hv⟩ := Prod.ext_iff.mp hsame
    have hgamma := eq_smul_of_two_answers hP.basepoint hne hu hv
    exact ⟨hgamma, congrArg (gammaToOutput P) hgamma⟩

theorem primeOrder_reference : reference.ristretto.PrimeOrder :=
  ⟨Nat.card_zmod 251, show (1 : ZMod 251) ≠ 0 by decide⟩

/-- One key on one input; and two answers to one pair of commitments, under the key of `1`. -/
theorem vrf_complete_and_unique_reference :
    let key : VrfSecretKey := ⟨scalarBytes reference 1⟩
    verifyVrfProof reference (key.publicKey reference) [1, 2, 3]
        (generateVrfProof reference key [1, 2, 3]) =
      .ok (generateVrfProof reference key [1, 2, 3]).output ∧
    vrfCommitments reference reference.ristretto.basepoint (hashToPoint reference [1, 2, 3])
        (hashToPoint reference [1, 2, 3]) 1 0 =
      vrfCommitments reference reference.ristretto.basepoint (hashToPoint reference [1, 2, 3])
        (hashToPoint reference [1, 2, 3]) 0 1 ∧
    gammaToOutput reference (hashToPoint reference [1, 2, 3]) =
      (generateVrfProof reference key [1, 2, 3]).output := by
  obtain ⟨hcomplete, hunique⟩ := vrf_complete_and_unique primeOrder_reference
  have hsame : ∀ h : reference.ristretto.Point,
      vrfCommitments reference reference.ristretto.basepoint h h 1 0 =
        vrfCommitments reference reference.ristretto.basepoint h h 0 1 := by
    intro h
    simp [vrfCommitments]
  have hkey : VrfSecretKey.publicKey reference ⟨scalarBytes reference 1⟩ =
      ⟨reference.ristretto.compress reference.ristretto.basepoint⟩ := by
    rw [VrfSecretKey.publicKey, toScalar_scalarBytes, one_smul]
  refine ⟨hcomplete _ _, hsame _, ?_⟩
  exact ((hunique _ _ (reference.ristretto.decompress_compress _)).2 _ hkey [1, 2, 3] _ 1 0 0 1
    (by decide) (hsame _)).2

end Gratia
