import Gratia.Core.Reference
import Gratia.Support.Lists
import Gratia.Support.Runs
import Gratia.Zk.Pedersen

/-!
# Zk — Proof of Life

The flexible API of `gratia-zk/src/bulletproofs.rs`: one aggregated range proof for the four numeric
parameters of a day.  The prover commits to what each parameter has above its minimum, and the proof
says that these differences fit in 32 bits.
-/

namespace Gratia

open Support

inductive ZkError where
  | proofGenerationFailed (reason : String)
  | verificationFailed (reason : String)
  | invalidInput (reason : String)
  | serializationError (reason : String)
deriving DecidableEq

def ZkError.toText : ZkError → String
  | proofGenerationFailed reason => "proof generation failed: " ++ reason
  | verificationFailed reason => "verification failed: " ++ reason
  | invalidInput reason => "invalid input: " ++ reason
  | serializationError reason => "serialization error: " ++ reason

structure PolThresholds where
  minUnlocks : UInt64 := 10
  minSpread : UInt64 := 6
  minInteractions : UInt64 := 3
  minBtEnvs : UInt64 := 2
deriving DecidableEq

structure PolProofInput where
  unlockCount : UInt64
  unlockSpreadHours : UInt64
  interactionSessions : UInt64
  btEnvironments : UInt64
deriving DecidableEq

structure PolRangeProof where
  proofBytes : Bytes
  commitments : List Bytes
  parameterCount : UInt8
  epochDay : UInt32
deriving DecidableEq

def flexibleParameterCount : ℕ := 4

def rangeProofBits : ℕ := 32

/-- The bytes of `POL_RANGE_TRANSCRIPT_DOMAIN`, `b"gratia-pol-range-proof-v1"`. -/
def polRangeTranscriptDomain : Bytes :=
  [103, 114, 97, 116, 105, 97, 45, 112, 111, 108, 45, 114, 97, 110, 103, 101, 45, 112, 114, 111,
   111, 102, 45, 118, 49]

/-- The bytes of `b"epoch_day"`. -/
def epochDayLabel : Bytes := [101, 112, 111, 99, 104, 95, 100, 97, 121]

/-- The transcript of a day's proof: the domain, and the day as `append_u64` writes it. -/
def polTranscript (epochDay : UInt32) : Transcript :=
  (Transcript.mk polRangeTranscriptDomain []).appendMessage epochDayLabel
    (toLeBytes epochDay.toUInt64)

/-- One commitment of a proof.  Any 32 bytes make a `CompressedRistretto`. -/
def readCommitment (bytes : Bytes) : Except ZkError Bytes32 :=
  if h : bytes.length = 32 then .ok ⟨bytes, h⟩
  else .error (.serializationError s!"commitment must be 32 bytes, got {bytes.length}")

/-! ### Proving -/

/-- A parameter of the proof: its name, the value observed and the minimum asked for. -/
structure PolParameter where
  name : String
  value : UInt64
  minimum : UInt64

def polParameters (data : PolProofInput) (thresholds : PolThresholds) : List PolParameter :=
  [⟨"unlock_count", data.unlockCount, thresholds.minUnlocks⟩,
   ⟨"unlock_spread_hours", data.unlockSpreadHours, thresholds.minSpread⟩,
   ⟨"interaction_sessions", data.interactionSessions, thresholds.minInteractions⟩,
   ⟨"bt_environments", data.btEnvironments, thresholds.minBtEnvs⟩]

def PolParameter.shift (p : PolParameter) : Except ZkError UInt64 :=
  if p.value < p.minimum then
    .error (.invalidInput s!"{p.name} is {p.value} but must be at least {p.minimum}")
  else .ok (p.value - p.minimum)

/-- What `OsRng` hands to the prover: the blinding factors, and the randomness of the range proof.
-/
structure PolCoins (P : Platform) where
  blindings : Fin flexibleParameterCount → P.Scalar
  rng : Bytes

def polGens : BulletproofGens := ⟨rangeProofBits, flexibleParameterCount⟩

variable {P : Platform} (bp : Bulletproofs P)

def generatePolProof (coins : PolCoins P) (data : PolProofInput) (thresholds : PolThresholds)
    (epochDay : UInt32) : Except ZkError PolRangeProof := do
  let shifted ← (polParameters data thresholds).mapM PolParameter.shift
  match bp.proveMultiple coins.rng polGens (polTranscript epochDay) shifted
      (List.ofFn coins.blindings) rangeProofBits with
  | .ok (proof, commitments) =>
    .ok
      { proofBytes := proof, commitments := commitments.map fun c => c.bytes,
        parameterCount := UInt8.ofNat flexibleParameterCount, epochDay := epochDay }
  | .error e => .error (.proofGenerationFailed s!"Bulletproof prove_multiple failed: {e}")

/-! ### Verifying -/

/-- `verify_pol_proof`; the thresholds are not looked at. -/
def verifyPolProof (proof : PolRangeProof) (_thresholds : PolThresholds)
    (expectedEpochDay : UInt32) : Except ZkError Bool :=
  if proof.epochDay ≠ expectedEpochDay then
    .error (.verificationFailed
      (s!"epoch_day mismatch: proof is for day {proof.epochDay} " ++
        s!"but expected day {expectedEpochDay}"))
  else if proof.commitments.length ≠ flexibleParameterCount then
    .error (.invalidInput
      s!"expected {flexibleParameterCount} commitments, got {proof.commitments.length}")
  else if proof.parameterCount ≠ UInt8.ofNat flexibleParameterCount then
    .error (.invalidInput
      s!"parameter_count is {proof.parameterCount} but expected {flexibleParameterCount}")
  else if !bp.isRangeProof proof.proofBytes then
    .error (.serializationError "invalid range proof encoding")
  else do
    let commitments ← proof.commitments.mapM readCommitment
    if bp.verifyMultiple proof.proofBytes ⟨rangeProofBits, flexibleParameterCount⟩
        (polTranscript proof.epochDay) commitments rangeProofBits then
      .ok true
    else
      .error (.verificationFailed
        "range proof verification failed: one or more PoL parameters not in valid range")

/-! ### What is proved -/

/-- Every parameter is at least its threshold. -/
def PolProofInput.Meets (data : PolProofInput) (thresholds : PolThresholds) : Prop :=
  thresholds.minUnlocks ≤ data.unlockCount ∧ thresholds.minSpread ≤ data.unlockSpreadHours ∧
    thresholds.minInteractions ≤ data.interactionSessions ∧
      thresholds.minBtEnvs ≤ data.btEnvironments

instance (data : PolProofInput) (thresholds : PolThresholds) : Decidable (data.Meets thresholds) :=
  inferInstanceAs (Decidable (_ ∧ _ ∧ _ ∧ _))

/-- What the four parameters have above their minimums. -/
def PolProofInput.shifted (data : PolProofInput) (thresholds : PolThresholds) : List UInt64 :=
  (polParameters data thresholds).map fun p => p.value - p.minimum

variable {bp} {coins : PolCoins P} {data : PolProofInput} {thresholds : PolThresholds}
  {epochDay : UInt32} {proof : PolRangeProof}

theorem PolParameter.shift_ok {p : PolParameter} {v : UInt64} :
    p.shift = .ok v ↔ p.minimum ≤ p.value ∧ v = p.value - p.minimum := by
  unfold PolParameter.shift
  split
  · next h => simp [UInt64.not_le.mpr h]
  · next h => simp [UInt64.not_lt.mp h, eq_comm]

theorem mapM_shift_ok {vs : List UInt64} :
    (polParameters data thresholds).mapM PolParameter.shift = .ok vs ↔
      data.Meets thresholds ∧ vs = data.shifted thresholds := by
  rw [mapM_ok_iff]
  unfold polParameters PolProofInput.Meets PolProofInput.shifted
  constructor
  · intro h
    simp only [List.forall₂_cons_left_iff, List.forall₂_nil_left_iff,
      PolParameter.shift_ok] at h
    obtain ⟨_, _, ⟨h₁, rfl⟩, ⟨_, _, ⟨h₂, rfl⟩, ⟨_, _, ⟨h₃, rfl⟩, ⟨_, _, ⟨h₄, rfl⟩, rfl, rfl⟩, rfl⟩,
      rfl⟩, rfl⟩ := h
    exact ⟨⟨h₁, h₂, h₃, h₄⟩, rfl⟩
  · rintro ⟨⟨h₁, h₂, h₃, h₄⟩, rfl⟩
    simp [polParameters, PolParameter.shift_ok, h₁, h₂, h₃, h₄]

/-- **A proof is made** exactly when the parameters meet the prover's thresholds and the range
prover does its part. -/
theorem generatePolProof_ok : generatePolProof bp coins data thresholds epochDay = .ok proof ↔
    data.Meets thresholds ∧ ∃ bytes commitments,
      bp.proveMultiple coins.rng polGens (polTranscript epochDay) (data.shifted thresholds)
        (List.ofFn coins.blindings) rangeProofBits = .ok (bytes, commitments) ∧
      proof =
        { proofBytes := bytes, commitments := commitments.map fun c => c.bytes,
          parameterCount := 4, epochDay := epochDay } := by
  unfold generatePolProof
  cases hs : (polParameters data thresholds).mapM PolParameter.shift with
  | error e =>
    have hno : ¬ data.Meets thresholds := fun hm => by
      rw [mapM_shift_ok.mpr ⟨hm, rfl⟩] at hs
      cases hs
    simp [hno]
  | ok vs =>
    obtain ⟨hm, rfl⟩ := mapM_shift_ok.mp hs
    simp only [except_ok_bind, hm, true_and]
    cases bp.proveMultiple coins.rng polGens (polTranscript epochDay) (data.shifted thresholds)
      (List.ofFn coins.blindings) rangeProofBits with
    | error e => simp
    | ok p =>
      obtain ⟨bytes, commitments⟩ := p
      simp [flexibleParameterCount, eq_comm]

/-- What `verify_pol_proof` accepts: the thresholds do not occur. -/
theorem verifyPolProof_ok {asked : PolThresholds} :
    verifyPolProof bp proof asked epochDay = .ok true ↔
      proof.epochDay = epochDay ∧ proof.commitments.length = flexibleParameterCount ∧
      proof.parameterCount = 4 ∧ bp.isRangeProof proof.proofBytes = true ∧
      ∃ commitments, proof.commitments.mapM readCommitment = .ok commitments ∧
        bp.verifyMultiple proof.proofBytes polGens (polTranscript proof.epochDay) commitments
          rangeProofBits = true := by
  unfold verifyPolProof
  by_cases hday : proof.epochDay = epochDay
  · by_cases hlen : proof.commitments.length = flexibleParameterCount
    · by_cases hcount : proof.parameterCount = 4
      · cases henc : bp.isRangeProof proof.proofBytes with
        | false => simp [hday, hlen, hcount, flexibleParameterCount]
        | true =>
          cases proof.commitments.mapM readCommitment with
          | error e => simp [hday, hlen, hcount, flexibleParameterCount]
          | ok commitments =>
            cases hver : bp.verifyMultiple proof.proofBytes polGens
              (polTranscript proof.epochDay) commitments rangeProofBits with
            | false | true => simp_all [polGens, flexibleParameterCount]
      · simp [hday, hlen, hcount, flexibleParameterCount]
    · simp [hday, hlen]
  · simp [hday]

theorem PolProofInput.Meets.shifted_lt {n : ℕ} (h : data.Meets thresholds)
    (hunlocks : data.unlockCount.toNat < n) (hspread : data.unlockSpreadHours.toNat < n)
    (hsessions : data.interactionSessions.toNat < n) (hbt : data.btEnvironments.toNat < n) :
    ∀ v ∈ data.shifted thresholds, v.toNat < n := by
  have hsub : ∀ {a b : UInt64}, b ≤ a → a.toNat < n → (a - b).toNat < n := by
    intro a b hle hlt
    rw [UInt64.toNat_sub_of_le _ _ hle]
    exact (Nat.sub_le _ _).trans_lt hlt
  obtain ⟨h₁, h₂, h₃, h₄⟩ := h
  simpa [PolProofInput.shifted, polParameters] using
    ⟨hsub h₁ hunlocks, hsub h₂ hspread, hsub h₃ hsessions, hsub h₄ hbt⟩

/-- Range proofs of four values below `2 ^ 32` can be made, and are accepted with the commitments
they come with. -/
def PolRangeComplete (bp : Bulletproofs P) : Prop :=
  ∀ (rng : Bytes) (transcript : Transcript) (values : List UInt64) (blindings : List P.Scalar),
    values.length = flexibleParameterCount → blindings.length = flexibleParameterCount →
    (∀ v ∈ values, v.toNat < 2 ^ rangeProofBits) →
    ∃ proof commitments,
      bp.proveMultiple rng polGens transcript values blindings rangeProofBits =
        .ok (proof, commitments) ∧
      commitments.length = flexibleParameterCount ∧ bp.isRangeProof proof = true ∧
      bp.verifyMultiple proof polGens transcript commitments rangeProofBits = true

theorem readCommitment_bytes (c : Bytes32) : readCommitment c.bytes = .ok c := by
  simp [readCommitment, c.length_eq]

/-- **A proof is accepted under any thresholds.**  Parameters that meet the prover's thresholds, and
exceed them by less than `2 ^ 32`, have a proof, and `verify_pol_proof` accepts it for its day
whatever thresholds it is given. -/
theorem exists_generatePolProof (hbp : PolRangeComplete bp) (coins : PolCoins P)
    (hmeets : data.Meets thresholds)
    (hrange : ∀ v ∈ data.shifted thresholds, v.toNat < 2 ^ rangeProofBits) (epochDay : UInt32) :
    ∃ proof, generatePolProof bp coins data thresholds epochDay = .ok proof ∧
      proof.parameterCount = 4 ∧ proof.epochDay = epochDay ∧
      ∀ asked, verifyPolProof bp proof asked epochDay = .ok true := by
  obtain ⟨bytes, commitments, hprove, hlen, henc, hver⟩ :=
    hbp coins.rng (polTranscript epochDay) (data.shifted thresholds) (List.ofFn coins.blindings)
      rfl (by simp) hrange
  have hread : (commitments.map fun c => c.bytes).mapM readCommitment = .ok commitments := by
    rw [mapM_ok_iff, List.forall₂_map_left_iff, List.forall₂_same]
    exact fun c _ => readCommitment_bytes c
  refine ⟨_, generatePolProof_ok.mpr ⟨hmeets, bytes, commitments, hprove, rfl⟩, rfl, rfl, ?_⟩
  intro asked
  exact verifyPolProof_ok.mpr ⟨rfl, by simpa using hlen, rfl, henc, commitments, hread, hver⟩

/-! ### Range proofs to compute with -/

namespace Reference

/-- The commitments show the values, and a proof is the transcript it was made in. -/
def rangeProofs : Bulletproofs reference where
  base := (1 : ZMod 251)
  baseBlinding := (1 : ZMod 251)
  isRangeProof _ := true
  proveMultiple _ _ transcript values _ _ :=
    .ok (transcript.label ++ transcript.messages.flatMap fun m => m.1 ++ m.2,
      values.map fun v => ⟨leBytes 32 v.toNat, length_leBytes _ _⟩)
  verifyMultiple proof _ transcript commitments bits :=
    proof == (transcript.label ++ transcript.messages.flatMap fun m => m.1 ++ m.2) &&
      commitments.all fun c => ofLeBytes c.bytes < 2 ^ bits

theorem rangeProofs_complete : PolRangeComplete rangeProofs := by
  intro rng transcript values blindings hlen _ hrange
  refine ⟨_, _, rfl, by simpa using hlen, rfl, ?_⟩
  have hvalue : ∀ v : UInt64, ofLeBytes (leBytes 32 v.toNat) = v.toNat := by
    intro v
    have := v.toNat_lt
    rw [ofLeBytes_leBytes, Nat.mod_eq_of_lt (by omega)]
  simpa [rangeProofs, hvalue] using hrange

def polCoins : PolCoins reference := ⟨fun _ => 0, []⟩

end Reference

end Gratia
