import Gratia.Support.Lists
import Gratia.Zk.Circuits
import Gratia.Zk.Pedersen
import Gratia.Core.Reference

/-!
# Zk — Groth16

`gratia-zk/src/groth16.rs`: the setup, the prover and the verifier of circuit proofs.  A proof is a
Schnorr opening of the witness commitment `A`; the challenge is an arbitrary function of the
commitments and the public inputs.
-/

namespace Gratia

open Support

/-! ### Setup -/

/-- The bytes of `b"gratia-groth16-generator-v1:"`. -/
def generatorDomain : Bytes :=
  [103, 114, 97, 116, 105, 97, 45, 103, 114, 111, 116, 104, 49, 54, 45, 103, 101, 110, 101, 114, 97,
   116, 111, 114, 45, 118, 49, 58]

def generatorPoint (P : Platform) (index : ℕ) : P.ristretto.Point :=
  let hash := P.sha512 (generatorDomain ++ leBytes 8 index)
  P.ristretto.fromUniformBytes (hash.1.bytes ++ hash.2.bytes)

structure ProvingKey (P : Platform) where
  numPublicInputs : ℕ
  numWitnessVars : ℕ
  numConstraints : ℕ
  witnessGenerators : List P.ristretto.Point
  alpha : P.ristretto.Point
  beta : P.ristretto.Point
  constraintGenerators : List P.ristretto.Point

structure VerificationKey (P : Platform) where
  numPublicInputs : ℕ
  numConstraints : ℕ
  numWitnessVars : ℕ
  alpha : P.ristretto.Point
  beta : P.ristretto.Point
  publicInputGenerators : List P.ristretto.Point

structure SetupParameters (P : Platform) where
  provingKey : ProvingKey P
  verificationKey : VerificationKey P

variable {P : Platform}

def setupFor (P : Platform) (alphaScalar betaScalar : P.Scalar) (cs : ConstraintSystem P.Scalar) :
    SetupParameters P :=
  let numPublic := cs.numPublicInputs
  let numWitness := cs.numWitnessVars
  let numConstraints := cs.constraints.length
  let alpha := alphaScalar • P.ristretto.basepoint
  let beta := betaScalar • P.ristretto.basepoint
  { provingKey :=
      { numPublicInputs := numPublic
        numWitnessVars := numWitness
        numConstraints := numConstraints
        witnessGenerators := (List.range numWitness).map (generatorPoint P)
        alpha := alpha
        beta := beta
        constraintGenerators :=
          (List.range numConstraints).map fun i => generatorPoint P (numWitness + i) }
    verificationKey :=
      { numPublicInputs := numPublic
        numConstraints := numConstraints
        numWitnessVars := numWitness
        alpha := alpha
        beta := beta
        publicInputGenerators :=
          (List.range numPublic).map fun i =>
            generatorPoint P (numWitness + numConstraints + i) } }

/-- `trusted_setup`, with the two scalars it draws. -/
def trustedSetup (alphaScalar betaScalar : P.Scalar) (circuit : Circuit P.Scalar) :
    Except Groth16Error (SetupParameters P) := do
  let cs ← circuit {}
  return setupFor P alphaScalar betaScalar cs

/-! ### Proofs -/

structure Groth16Proof (P : Platform) where
  a : P.ristretto.Point
  b : P.ristretto.Point
  nonceCommitment : P.ristretto.Point
  responses : List P.Scalar
  blindingResponse : P.Scalar

/-- `compute_challenge`, as a function of its inputs. -/
abbrev Challenge (P : Platform) : Type :=
  P.ristretto.Point → P.ristretto.Point → P.ristretto.Point → List P.Scalar → P.Scalar

structure ProverCoins (P : Platform) where
  blindingA : P.Scalar
  blindingB : P.Scalar
  nonces : ℕ → P.Scalar
  nonceBlinding : P.Scalar

/-- `RistrettoPoint::multiscalar_mul`, which asserts that its arguments have one length. -/
def multiscalarMul (scalars : List P.Scalar) (points : List P.ristretto.Point) :
    Option P.ristretto.Point :=
  if scalars.length = points.length then some (combine scalars points) else none

def constraintPart (pk : ProvingKey P) (evals : List P.Scalar) : Option P.ristretto.Point :=
  if evals.isEmpty then some 0 else multiscalarMul evals pk.constraintGenerators

variable (challengeOf : Challenge P)

/-- The part of `prove` after its checks, on the witness values and the constraint evaluations. -/
def proveWith (pk : ProvingKey P) (coins : ProverCoins P) (publicInputs : List P.Scalar)
    (witness evals : List P.Scalar) : Option (Groth16Proof P) := do
  let a := coins.blindingA • pk.alpha + (← multiscalarMul witness pk.witnessGenerators)
  let b := coins.blindingB • pk.beta + (← constraintPart pk evals)
  let nonces := (List.range witness.length).map coins.nonces
  let nonceCommitment :=
    coins.nonceBlinding • pk.alpha + (← multiscalarMul nonces pk.witnessGenerators)
  let challenge := challengeOf a b nonceCommitment publicInputs
  return { a, b, nonceCommitment
           responses := respond challenge nonces witness
           blindingResponse := coins.nonceBlinding + challenge * coins.blindingA }

def Groth16.prove (params : SetupParameters P) (coins : ProverCoins P) (circuit : Circuit P.Scalar)
    (publicInputs : List P.Scalar) : Option (Except Groth16Error (Groth16Proof P)) :=
  let pk := params.provingKey
  match circuit {} with
  | .error e => some (.error e)
  | .ok cs =>
    if cs.constraints.length ≠ pk.numConstraints then
      some (.error (.setupMismatch pk.numConstraints cs.constraints.length))
    else if cs.numWitnessVars ≠ pk.numWitnessVars then
      some (.error (.setupMismatch pk.numWitnessVars cs.numWitnessVars))
    else if publicInputs.length ≠ pk.numPublicInputs then
      some (.error (.setupMismatch pk.numPublicInputs publicInputs.length))
    else
      match cs.verifyAssignment with
      | .error e => some (.error e)
      | .ok () =>
        match cs.witnessValues with
        | none => none
        | some witness =>
          match cs.computeConstraintEvaluations with
          | .error e => some (.error e)
          | .ok evals => (proveWith challengeOf pk coins publicInputs witness evals).map .ok

/-- `verify` once the challenge is computed.  The responses are as many as the generators here, so
the multiplication does not panic. -/
def verifyResponse (vk : VerificationKey P) (proof : Groth16Proof P) (challenge : P.Scalar) :
    Bool :=
  let witnessGenerators := (List.range vk.numWitnessVars).map (generatorPoint P)
  let lhs := proof.blindingResponse • vk.alpha +
    if proof.responses.isEmpty then 0 else combine proof.responses witnessGenerators
  let rhs := proof.nonceCommitment + challenge • proof.a
  P.ristretto.compress lhs = P.ristretto.compress rhs

def Groth16.verify (vk : VerificationKey P) (proof : Groth16Proof P)
    (publicInputs : List P.Scalar) : Except Groth16Error Bool :=
  if publicInputs.length ≠ vk.numPublicInputs then
    .error (.verificationFailed
      s!"expected {vk.numPublicInputs} public inputs, got {publicInputs.length}")
  else if proof.responses.length ≠ vk.numWitnessVars then
    .error (.verificationFailed
      s!"expected {vk.numWitnessVars} response scalars, got {proof.responses.length}")
  else
    .ok (verifyResponse vk proof
      (challengeOf proof.a proof.b proof.nonceCommitment publicInputs))

variable {challengeOf}

/-! ### What the verifier checks -/

/-- The generators of a verification key, the blinding generator first. -/
def VerificationKey.generators (vk : VerificationKey P) : List P.ristretto.Point :=
  vk.alpha :: (List.range vk.numWitnessVars).map (generatorPoint P)

/-- The proof answers the challenge: the verification equation, with the checks of both counts. -/
def Answers (vk : VerificationKey P) (publicInputs : List P.Scalar) (proof : Groth16Proof P)
    (challenge : P.Scalar) : Prop :=
  publicInputs.length = vk.numPublicInputs ∧ proof.responses.length = vk.numWitnessVars ∧
    combine (proof.blindingResponse :: proof.responses) vk.generators =
      proof.nonceCommitment + challenge • proof.a

variable {proof : Groth16Proof P}

theorem verifyResponse_iff {vk : VerificationKey P} {challenge : P.Scalar} :
    verifyResponse vk proof challenge = true ↔
      combine (proof.blindingResponse :: proof.responses) vk.generators =
        proof.nonceCommitment + challenge • proof.a := by
  simp only [verifyResponse, decide_eq_true_eq, RistrettoGroup.compress_inj,
    VerificationKey.generators, combine_cons]
  cases h : proof.responses with
  | nil | cons r rs => simp

variable {x : List P.Scalar}

theorem verify_ok_iff {vk : VerificationKey P} :
    Groth16.verify challengeOf vk proof x = .ok true ↔
      Answers vk x proof (challengeOf proof.a proof.b proof.nonceCommitment x) := by
  unfold Groth16.verify Answers
  by_cases hx : x.length = vk.numPublicInputs
  · by_cases hr : proof.responses.length = vk.numWitnessVars
    · simp [hx, hr, verifyResponse_iff]
    · simp [hx, hr]
  · simp [hx]

/-! ### Completeness of the response -/

variable {coins : ProverCoins P}

theorem proveWith_answers {pk : ProvingKey P} {witness evals : List P.Scalar}
    (h : proveWith challengeOf pk coins x witness evals = some proof) :
    proof.responses.length = witness.length ∧
    combine (proof.blindingResponse :: proof.responses) (pk.alpha :: pk.witnessGenerators) =
      proof.nonceCommitment +
        challengeOf proof.a proof.b proof.nonceCommitment x • proof.a := by
  simp only [proveWith, Option.bind_eq_bind, Option.bind_eq_some_iff, Option.pure_def,
    Option.some.injEq, multiscalarMul, Option.ite_none_right_eq_some] at h
  obtain ⟨_, ⟨hw, rfl⟩, b, -, _, ⟨hn, rfl⟩, rfl⟩ := h
  have hlen : ((List.range witness.length).map coins.nonces).length = witness.length := by simp
  refine ⟨by simp [respond], ?_⟩
  simp only [combine_cons]
  rw [combine_respond _ _ hlen]
  module

theorem proveWith_isSome {pk : ProvingKey P} {witness evals : List P.Scalar}
    (hw : witness.length = pk.witnessGenerators.length)
    (he : evals.length = pk.constraintGenerators.length) :
    ∃ proof, proveWith challengeOf pk coins x witness evals = some proof := by
  obtain ⟨point, hpoint⟩ : ∃ point, constraintPart pk evals = some point := by
    cases evals with
    | nil => exact ⟨0, rfl⟩
    | cons e es => exact ⟨_, if_pos he⟩
  exact ⟨_, by simp only [proveWith, hpoint, multiscalarMul, hw, List.length_map,
    List.length_range, if_true]; rfl⟩

/-! ### The prover -/

/-- `prove` gets past its checks on the system: the assignment satisfies the constraints and reaches
to the last slot that is read as a witness. -/
def ConstraintSystem.Provable (cs : ConstraintSystem P.Scalar) : Prop :=
  cs.verifyAssignment = .ok () ∧ cs.witnessValues.isSome

/-- Two systems of one structure, whatever their values. -/
structure ConstraintSystem.SameStructure (cs cs' : ConstraintSystem P.Scalar) : Prop where
  numPublicInputs : cs.numPublicInputs = cs'.numPublicInputs
  numWitnessVars : cs.numWitnessVars = cs'.numWitnessVars
  constraints : cs.constraints = cs'.constraints

theorem ConstraintSystem.length_witnessValues {cs : ConstraintSystem P.Scalar}
    {w : List P.Scalar} (h : cs.witnessValues = some w) : w.length = cs.numWitnessVars := by
  simpa using length_of_mapM h

theorem prove_ok {params : SetupParameters P} {circuit : Circuit P.Scalar}
    {cs : ConstraintSystem P.Scalar} (hcs : circuit {} = .ok cs)
    (h : Groth16.prove challengeOf params coins circuit x = some (.ok proof)) : cs.Provable := by
  simp only [Groth16.prove, hcs] at h
  split_ifs at h
  · cases h
  · cases h
  · cases h
  split at h
  · cases h
  next hverify =>
    split at h
    · cases h
    next w hw => exact ⟨hverify, by rw [hw]; rfl⟩

variable {alphaScalar betaScalar : P.Scalar} {cs₀ cs : ConstraintSystem P.Scalar}
  {circuit : Circuit P.Scalar}

/-- On a provable instance the prover returns a proof for any public inputs of the right number,
and the verifier accepts it for them. -/
theorem prove_accepted (challengeOf : Challenge P) (alphaScalar betaScalar : P.Scalar)
    (coins : ProverCoins P) (hcs : circuit {} = .ok cs) (hsame : cs.SameStructure cs₀)
    (hprovable : cs.Provable) (hx : x.length = cs₀.numPublicInputs) :
    ∃ proof,
      Groth16.prove challengeOf (setupFor P alphaScalar betaScalar cs₀) coins circuit x =
        some (.ok proof) ∧
      Groth16.verify challengeOf (setupFor P alphaScalar betaScalar cs₀).verificationKey proof x =
        .ok true := by
  obtain ⟨hverify, hslots⟩ := hprovable
  obtain ⟨w, hw⟩ := Option.isSome_iff_exists.mp hslots
  obtain ⟨evals, hevals, hlen⟩ := ConstraintSystem.computeConstraintEvaluations_ok hverify
  have hwlen : w.length = cs₀.numWitnessVars :=
    (ConstraintSystem.length_witnessValues hw).trans hsame.numWitnessVars
  obtain ⟨proof, hproof⟩ : ∃ proof, proveWith challengeOf
      (setupFor P alphaScalar betaScalar cs₀).provingKey coins x w evals = some proof := by
    refine proveWith_isSome ?_ ?_
    · simpa [setupFor] using hwlen
    · simpa [setupFor, hsame.constraints] using hlen
  obtain ⟨hresponses, hanswer⟩ := proveWith_answers hproof
  refine ⟨proof, ?_, verify_ok_iff.mpr ⟨hx, hresponses.trans hwlen, hanswer⟩⟩
  simpa [Groth16.prove, hcs, setupFor, hsame.constraints, hsame.numWitnessVars, hx, hverify, hw,
    hevals] using hproof

/-! ### Soundness -/

/-- Two proofs with the same commitments that pass the verification under two challenges give a
witness for the public inputs they pass for. -/
def ExtractsWitness (vk : VerificationKey P) (cs : ConstraintSystem P.Scalar) : Prop :=
  ∀ (x : List P.Scalar) (proof proof' : Groth16Proof P) (e e' : P.Scalar),
    proof'.a = proof.a → proof'.b = proof.b → proof'.nonceCommitment = proof.nonceCommitment →
    e ≠ e' → Groth16.verify (fun _ _ _ _ => e) vk proof x = .ok true →
    Groth16.verify (fun _ _ _ _ => e') vk proof' x = .ok true →
    cs.Satisfied x (extract e e' proof.responses proof'.responses)

/-- A proof for an instance is accepted for the public inputs of the instance only. -/
def BindsPublicInputs (challengeOf : Challenge P) (params : SetupParameters P)
    (circuit : Circuit P.Scalar) (cs : ConstraintSystem P.Scalar) : Prop :=
  ∀ (coins : ProverCoins P) (x : List P.Scalar) (proof : Groth16Proof P) (x' : List P.Scalar),
    Groth16.prove challengeOf params coins circuit x = some (.ok proof) →
    Groth16.verify challengeOf params.verificationKey proof x' = .ok true → x' = cs.publicInputs

theorem extractsWitness_iff :
    ExtractsWitness (setupFor P alphaScalar betaScalar cs₀).verificationKey cs₀ ↔
      ∀ x w : List P.Scalar, x.length = cs₀.numPublicInputs → w.length = cs₀.numWitnessVars →
        cs₀.Satisfied x w := by
  constructor
  · intro h x w hx hw
    let a := combine w ((List.range cs₀.numWitnessVars).map (generatorPoint P))
    have hsat := h x ⟨a, 0, 0, w, 0⟩ ⟨a, 0, 0, List.replicate w.length 0, 0⟩ 1 0 rfl rfl rfl
      one_ne_zero
      (verify_ok_iff.mpr ⟨hx, hw, by simp [VerificationKey.generators, setupFor, a]⟩)
      (verify_ok_iff.mpr ⟨hx, List.length_replicate.trans hw, by simp [VerificationKey.generators]⟩)
    rwa [extract_one_zero] at hsat
  · intro h x proof proof' e e' _ _ _ _ hproof hproof'
    obtain ⟨hx, hlen, -⟩ := verify_ok_iff.mp hproof
    obtain ⟨-, hlen', -⟩ := verify_ok_iff.mp hproof'
    refine h x _ hx ?_
    have hlen₀ : proof.responses.length = cs₀.numWitnessVars := hlen
    have hlen₀' : proof'.responses.length = cs₀.numWitnessVars := hlen'
    simp [extract, hlen₀, hlen₀']

/-- The prover takes the public inputs it is given, so it serves any if there are two choices. -/
theorem bindsPublicInputs_iff (hcs : circuit {} = .ok cs) (hsame : cs.SameStructure cs₀) :
    BindsPublicInputs challengeOf (setupFor P alphaScalar betaScalar cs₀) circuit cs ↔
      cs₀.numPublicInputs = 0 ∨ ¬ cs.Provable := by
  constructor
  · intro hbinds
    by_contra! hcon
    obtain ⟨hpos, hprovable⟩ := hcon
    have hboth : ∀ v : P.Scalar, List.replicate cs₀.numPublicInputs v = cs.publicInputs := by
      intro v
      obtain ⟨proof, hprove, haccept⟩ :=
        prove_accepted challengeOf alphaScalar betaScalar ⟨0, 0, fun _ => 0, 0⟩ hcs hsame hprovable
          (x := List.replicate _ v) List.length_replicate
      exact hbinds _ _ _ _ hprove haccept
    have heq := (hboth 0).trans (hboth 1).symm
    have hmem : (0 : P.Scalar) ∈ List.replicate cs₀.numPublicInputs (1 : P.Scalar) := by
      rw [← heq]
      exact List.mem_replicate.mpr ⟨hpos, rfl⟩
    exact zero_ne_one (List.eq_of_mem_replicate hmem)
  · rintro (hzero | hnot) coins x proof x' hprove haccept
    · obtain ⟨hx', -, -⟩ := verify_ok_iff.mp haccept
      have hnil : x' = [] := List.length_eq_zero_iff.mp (hx'.trans hzero)
      rw [hnil, ConstraintSystem.publicInputs, hsame.numPublicInputs, hzero, List.take_zero]
    · exact absurd (prove_ok hcs hprove) hnot

/-- **Proofs are sound exactly where there is nothing to prove.**  For every setup and instance
of its circuit, the extracted witness always satisfies the constraints, and a proof is accepted for
the public inputs of its instance only, if and only if the constraints hold for any values at all
and there are no public inputs to bind, or no proof. -/
theorem proofs_sound_iff (challengeOf : Challenge P) (alphaScalar betaScalar : P.Scalar)
    {setupCircuit circuit : Circuit P.Scalar} {params : SetupParameters P}
    {cs₀ cs : ConstraintSystem P.Scalar}
    (hsetup : trustedSetup alphaScalar betaScalar setupCircuit = .ok params)
    (hcs₀ : setupCircuit {} = .ok cs₀) (hcs : circuit {} = .ok cs)
    (hsame : cs.SameStructure cs₀) :
    (ExtractsWitness params.verificationKey cs₀ ∧
        BindsPublicInputs challengeOf params circuit cs) ↔
      ((∀ x w : List P.Scalar, x.length = cs₀.numPublicInputs → w.length = cs₀.numWitnessVars →
          cs₀.Satisfied x w) ∧
        (cs₀.numPublicInputs = 0 ∨ ¬ cs.Provable)) := by
  have hparams : setupFor P alphaScalar betaScalar cs₀ = params := by
    simpa [trustedSetup, hcs₀] using hsetup
  subst hparams
  exact and_congr extractsWitness_iff (bindsPublicInputs_iff hcs hsame)

namespace Reference

/-- A witness that is equal to itself. -/
def echo (x : reference.Scalar) : Circuit reference.Scalar := fun cs => do
  let (cs, var) ← cs.allocWitness x
  cs.constrain (.fromConstant 1) (.fromVariable var) (.fromVariable var)

def echoSystem (x : reference.Scalar) : ConstraintSystem reference.Scalar :=
  { numWitnessVars := 1
    constraints := [⟨⟨[(1, 0)]⟩, ⟨[(1, 2)]⟩, ⟨[(1, 2)]⟩⟩]
    assignment := [1, 0, x] }

end Reference

open Reference

/-- The constraint `1 * x = x` holds for any witness. -/
theorem proofs_sound_echo :
    ExtractsWitness (setupFor reference 1 1 (echoSystem 3)).verificationKey
        (echoSystem 3) ∧
      BindsPublicInputs (fun _ _ _ _ => 5) (setupFor reference 1 1 (echoSystem 3))
        (echo 7) (echoSystem 7) := by
  have hsetup : trustedSetup 1 1 (echo 3) =
      .ok (setupFor reference 1 1 (echoSystem 3)) := rfl
  refine (proofs_sound_iff (fun _ _ _ _ => 5) 1 1 hsetup rfl
    (rfl : echo 7 {} = .ok (echoSystem 7)) ⟨rfl, rfl, rfl⟩).mpr
    ⟨fun x w hx hw => ?_, .inl rfl⟩
  obtain rfl := List.length_eq_zero_iff.mp hx
  obtain ⟨value, rfl⟩ := List.length_eq_one_iff.mp hw
  -- the slot of the variable is behind that of the witness
  refine ⟨[0], ConstraintSystem.verifyConstraints_ok_iff.mpr ?_⟩
  rintro constraint hmem
  obtain rfl := List.mem_singleton.mp hmem
  exact ⟨_, _, rfl, rfl, rfl⟩

/-! ### A circuit with one constraint -/

namespace Reference

def isOne (x : reference.Scalar) : Circuit reference.Scalar := fun cs => do
  let (cs, var) ← cs.allocPublicInput x
  cs.constrain (.fromVariable var) (.fromConstant 1) (.fromConstant 1)

def isOneSystem (x : reference.Scalar) : ConstraintSystem reference.Scalar :=
  { numPublicInputs := 1
    constraints := [⟨⟨[(1, 1)]⟩, ⟨[(1, 0)]⟩, ⟨[(1, 0)]⟩⟩]
    assignment := [1, x] }

def emptyProof : Groth16Proof reference := ⟨0, 0, 0, [], 0⟩

end Reference

/-- The setup is made for `x * 1 = 1`.  The empty proof passes for the public input `0` under the
challenges `0` and `1`, and no witness satisfies the constraint then; and the prover, run on the
instance with public input `1` but given `0`, returns a proof that is accepted for `0`. -/
theorem proofs_unsound_isOne :
    trustedSetup 1 1 (isOne 1) =
        .ok (setupFor reference 1 1 (isOneSystem 1)) ∧
      (Groth16.verify (fun _ _ _ _ => 0)
          (setupFor reference 1 1 (isOneSystem 1)).verificationKey
          emptyProof [0] = .ok true ∧
        Groth16.verify (fun _ _ _ _ => 1)
          (setupFor reference 1 1 (isOneSystem 1)).verificationKey
          emptyProof [0] = .ok true ∧
        ¬ (isOneSystem 1).Satisfied [0]
          (extract 0 1 emptyProof.responses emptyProof.responses)) ∧
      ∃ proof,
        Groth16.prove (fun _ _ _ x => x.sum + 1) (setupFor reference 1 1 (isOneSystem 1))
          ⟨2, 3, fun _ => 0, 4⟩ (isOne 1) [0] = some (.ok proof) ∧
        Groth16.verify (fun _ _ _ x => x.sum + 1)
          (setupFor reference 1 1 (isOneSystem 1)).verificationKey proof [0] = .ok true ∧
        [0] ≠ (isOneSystem 1).publicInputs := by
  refine ⟨rfl, ⟨by decide +kernel, by decide +kernel, ?_⟩, ?_⟩
  · rintro ⟨rest, hrest⟩
    obtain ⟨a, b, ha, hb, hc⟩ :=
      ConstraintSystem.verifyConstraints_ok_iff.mp hrest _ (List.mem_singleton_self _)
    obtain rfl : (0 : reference.Scalar) = a := Except.ok.inj ha
    obtain rfl : (1 : reference.Scalar) = b := Except.ok.inj hb
    have hone : (1 : reference.Scalar) = 0 * 1 := Except.ok.inj hc
    exact absurd hone (by decide)
  · have hprovable : (isOneSystem 1).Provable := ⟨by decide +kernel, by decide +kernel⟩
    obtain ⟨proof, hprove, haccept⟩ :=
      prove_accepted (fun _ _ _ x => x.sum + 1) 1 1 ⟨2, 3, fun _ => 0, 4⟩
        (rfl : isOne 1 {} = .ok (isOneSystem 1)) ⟨rfl, rfl, rfl⟩ hprovable
        (x := [0]) rfl
    exact ⟨proof, hprove, haccept, by decide⟩

end Gratia
