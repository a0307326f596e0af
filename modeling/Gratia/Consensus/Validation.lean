import Gratia.Consensus.Incoming
import Gratia.Zk.ProofOfLife

/-!
# Consensus — Validation

`gratia-consensus/src/validation.rs`: the checks of a transaction, of a header and of a whole block.
-/

namespace Gratia

open Support

/-! ### Limits and context -/

def maxTransactionsPerBlock : ℕ := 512

def maxContractBytecodeSize : ℕ := 65536

/-- `FINALITY_THRESHOLD` of `committee.rs`, the threshold of the largest tier. -/
def fullFinalityThreshold : ℕ := 14

structure ValidationContext where
  currentHeight : UInt64
  previousBlockHash : Bytes32
  committee : ValidatorCommittee
  maxBlockSize : ℕ
  minTransactionFee : Lux
  previousBlockTimestamp : Option DateTime
  polThresholds : PolThresholds

/-- The clock of a node: what `Utc::now()` reads, from where 30 seconds ahead and 60 seconds back
are still times, and the `Display` text of a time. -/
structure Clock where
  now : DateTime
  toText : DateTime → String
  ahead : (now.addSeconds 30).isSome
  back : (now.addSeconds (-60)).isSome

def Clock.maxFuture (clock : Clock) : DateTime := (clock.now.addSeconds 30).get clock.ahead

def Clock.maxPast (clock : Clock) : DateTime := (clock.now.addSeconds (-60)).get clock.back

/-! ### Transactions -/

def validatePayload : TransactionPayload → Except GratiaError Unit
  | .transfer _ amount =>
    if amount = 0 then .error (.blockValidationFailed "Transfer amount cannot be zero")
    else .ok ()
  | .shieldedTransfer commitment rangeProof _ =>
    if commitment.isEmpty then
      .error (.blockValidationFailed "Shielded transfer missing commitment")
    else if rangeProof.isEmpty then
      .error (.blockValidationFailed "Shielded transfer missing range proof")
    else .ok ()
  | .stake amount | .unstake amount =>
    if amount = 0 then .error (.blockValidationFailed "Stake/unstake amount cannot be zero")
    else .ok ()
  | .deployContract bytecode _ =>
    if bytecode.isEmpty then
      .error (.blockValidationFailed "Contract bytecode cannot be empty")
    else if bytecode.length > maxContractBytecodeSize then
      .error (.blockValidationFailed
        (s!"Contract bytecode {bytecode.length} bytes exceeds maximum " ++
          s!"{maxContractBytecodeSize} bytes"))
    else .ok ()
  | .callContract _ function _ gasLimit =>
    if gasLimit = 0 then
      .error (.blockValidationFailed "Contract call gas limit cannot be zero")
    else if function.isEmpty then
      .error (.blockValidationFailed "Contract call function name cannot be empty")
    else .ok ()
  | .governanceProposal title description _ =>
    if title.isEmpty then
      .error (.blockValidationFailed "Governance proposal title cannot be empty")
    else if description.isEmpty then
      .error (.blockValidationFailed "Governance proposal description cannot be empty")
    else .ok ()
  | .governanceVote _ _ => .ok ()
  | .createPoll question options durationSecs _ =>
    if question.isEmpty then .error (.blockValidationFailed "Poll question cannot be empty")
    else if options.length < 2 then
      .error (.blockValidationFailed "Poll must have at least 2 options")
    else if durationSecs = 0 then
      .error (.blockValidationFailed "Poll duration cannot be zero")
    else .ok ()
  | .pollVote _ _ => .ok ()

variable (P : Platform)

def validateTransaction.signable (tx : Transaction) : Bytes :=
  P.payload.put tx.payload ++ toLeBytes tx.nonce ++ leBytes 4 tx.chainId.toNat ++
    toLeBytes tx.fee ++ toLeBytes tx.timestamp.timestampMillis.toUInt64

def validateTransaction (tx : Transaction) (minFee : Lux) : Except GratiaError Unit := do
  let signable := validateTransaction.signable P tx
  verifySignature P tx.senderPubkey signable tx.signature
  let computedHash := P.sha256 (tx.senderPubkey ++ signable ++ tx.signature)
  if tx.hash.bytes ≠ computedHash then
    .error (.blockValidationFailed
      (s!"Transaction hash mismatch: expected {computedHash.hexEncode}, " ++
        s!"got {tx.hash.bytes.hexEncode}"))
  else if tx.fee < minFee then
    .error (.blockValidationFailed
      s!"Transaction fee {tx.fee} Lux below minimum {minFee} Lux")
  else validatePayload tx.payload

def validateBlockTransactions (transactions : List Transaction) (minFee : Lux) :
    Except GratiaError Unit :=
  if transactions.length > maxTransactionsPerBlock then
    .error (.blockValidationFailed
      (s!"Block contains {transactions.length} transactions, " ++
        s!"maximum is {maxTransactionsPerBlock}"))
  else
    match firstRepeat [] (transactions.map fun tx => tx.hash) with
    | some hash =>
      .error (.blockValidationFailed s!"Duplicate transaction hash: {hash.bytes.hexEncode}")
    | none =>
      forM transactions.zipIdx fun (tx, i) =>
        (validateTransaction P tx minFee).mapError fun e =>
          .blockValidationFailed s!"Transaction {i} invalid: {e.toText}"

/-! ### Headers -/

def validateBlockHeader (clock : Clock) (header : BlockHeader) (ctx : ValidationContext) :
    Except GratiaError Unit :=
  if header.height ≠ ctx.currentHeight then
    .error (.blockValidationFailed
      s!"Block height {header.height} does not match expected {ctx.currentHeight}")
  else if header.parentHash.bytes ≠ ctx.previousBlockHash then
    .error (.blockValidationFailed
      (s!"Parent hash mismatch: expected {ctx.previousBlockHash.hexEncode}, " ++
        s!"got {header.parentHash.bytes.hexEncode}"))
  else if !ctx.committee.isCommitteeMember header.producer then
    .error (.blockValidationFailed
      s!"Block producer {header.producer.toText} is not a committee member")
  else if header.timestamp > clock.maxFuture then
    .error (.blockValidationFailed "Block timestamp is too far in the future")
  else if header.timestamp < clock.maxPast then
    .error (.blockValidationFailed
      (s!"Block timestamp {clock.toText header.timestamp} is more than 60 seconds " ++
        s!"behind current time {clock.toText clock.now}"))
  else
    match ctx.previousBlockTimestamp with
    | some prevTs =>
      if header.timestamp < prevTs then
        .error (.blockValidationFailed
          (s!"Block timestamp {clock.toText header.timestamp} is before previous " ++
            s!"block timestamp {clock.toText prevTs}"))
      else .ok ()
    | none => .ok ()

/-! ### Attestations -/

variable {P}

/-- `validate_attestation_zk_proof`; an attestation without a proof is accepted. -/
def validateAttestationZkProof (bp : Bulletproofs P) (attestation : ProofOfLifeAttestation)
    (thresholds : PolThresholds) : Except GratiaError Unit :=
  if attestation.zkProof.isEmpty then .ok ()
  else
    match attestation.zkCommitments with
    | none =>
      .error (.invalidZkProof "attestation has zk_proof bytes but missing zk_commitments")
    | some commitments =>
      let rangeProof : PolRangeProof :=
        { proofBytes := attestation.zkProof, commitments := commitments, parameterCount := 4,
          epochDay := attestation.epochDay }
      -- The proof is held against the day that the attestation itself names.
      match verifyPolProof bp rangeProof thresholds attestation.epochDay with
      | .ok _ => .ok ()
      | .error e =>
        .error (.invalidZkProof s!"PoL attestation ZK proof verification failed: {e.toText}")

def validateBlockAttestations (bp : Bulletproofs P) (attestations : List ProofOfLifeAttestation)
    (thresholds : PolThresholds) : Except GratiaError Unit :=
  match firstRepeat [] (attestations.map fun att => att.nullifier) with
  | some nullifier =>
    .error (.blockValidationFailed
      s!"Duplicate attestation nullifier in block: {nullifier.hexEncode}")
  | none =>
    forM attestations.zipIdx fun (att, i) =>
      (validateAttestationZkProof bp att thresholds).mapError fun e =>
        .blockValidationFailed s!"Attestation {i} ZK proof invalid: {e.toText}"

/-! ### Blocks -/

def checkSignerIsMember (committee : ValidatorCommittee) (vs : ValidatorSignature) :
    Except GratiaError Unit :=
  if !committee.isCommitteeMember vs.validator then
    .error (.blockValidationFailed
      s!"Validator signature from non-committee member: {vs.validator.toText}")
  else .ok ()

def validateBlock (bp : Bulletproofs P) (clock : Clock) (block : Block) (ctx : ValidationContext) :
    Except GratiaError Unit := do
  validateBlockHeader clock block.header ctx
  let blockBytes := P.block.put block
  if blockBytes.length > ctx.maxBlockSize then
    .error (.blockValidationFailed
      (s!"Block size {blockBytes.length} bytes exceeds maximum " ++
        s!"{ctx.maxBlockSize} bytes"))
  else
    validateBlockTransactions P block.transactions ctx.minTransactionFee
    validateBlockAttestations bp block.attestations ctx.polThresholds
    let sigCount := block.validatorSignatures.length
    if !ctx.committee.hasFinality sigCount then
      -- The number reported is that of a full committee, not the one compared with.
      .error (.insufficientSignatures sigCount fullFinalityThreshold)
    else forM block.validatorSignatures (checkSignerIsMember ctx.committee)

/-! ### What passes -/

theorem validateTransaction_ok {tx : Transaction} {minFee : Lux} :
    validateTransaction P tx minFee = .ok () ↔
      verifySignature P tx.senderPubkey (tx.signable P) tx.signature = .ok () ∧
      tx.hash.bytes = tx.contentHash P ∧ minFee ≤ tx.fee ∧ validatePayload tx.payload = .ok () := by
  unfold validateTransaction
  show (verifySignature P tx.senderPubkey (tx.signable P) tx.signature >>= fun _ =>
    if tx.hash.bytes ≠ tx.contentHash P then _ else _) = _ ↔ _
  cases verifySignature P tx.senderPubkey (tx.signable P) tx.signature with
  | error e => simp
  | ok u =>
    by_cases hhash : tx.hash.bytes = tx.contentHash P
    · by_cases hfee : tx.fee < minFee
      · simp [hhash, hfee]
      · simp [hhash, hfee, UInt64.not_lt.mp hfee]
    · simp [hhash]

theorem validateBlockAttestations_ok {bp : Bulletproofs P}
    {attestations : List ProofOfLifeAttestation} {thresholds : PolThresholds} :
    validateBlockAttestations bp attestations thresholds = .ok () ↔
      (attestations.map fun att => att.nullifier).Nodup ∧
      ∀ att ∈ attestations, validateAttestationZkProof bp att thresholds = .ok () := by
  unfold validateBlockAttestations
  split
  · next nullifier hrep =>
      have hdup : ¬ (attestations.map fun att => att.nullifier).Nodup := fun hnd => by
        rw [firstRepeat_eq_none.mpr ⟨hnd, List.disjoint_nil_right _⟩] at hrep
        cases hrep
      simp [hdup]
  · next hrep =>
      have hnd := (firstRepeat_eq_none.mp hrep).1
      simp only [forM_checks_ok, mapError_ok, Prod.forall,
        forall_mem_zipIdx, hnd, true_and]

variable {committee : ValidatorCommittee}

theorem checkSignerIsMember_ok {vs : ValidatorSignature} :
    checkSignerIsMember committee vs = .ok () ↔ ∃ m ∈ committee.members, m.nodeId = vs.validator := by
  rw [← ValidatorCommittee.isCommitteeMember_iff]
  unfold checkSignerIsMember
  cases committee.isCommitteeMember vs.validator with
  | false | true => simp

variable {bp : Bulletproofs P} {clock : Clock} {block : Block} {ctx : ValidationContext}

/-- **What an accepted block has passed.** -/
theorem validateBlock_ok : validateBlock bp clock block ctx = .ok () ↔
    validateBlockHeader clock block.header ctx = .ok () ∧
    (P.block.put block).length ≤ ctx.maxBlockSize ∧
    validateBlockTransactions P block.transactions ctx.minTransactionFee = .ok () ∧
    validateBlockAttestations bp block.attestations ctx.polThresholds = .ok () ∧
    ctx.committee.finalityThreshold ≤ block.validatorSignatures.length ∧
    ∀ vs ∈ block.validatorSignatures, ∃ m ∈ ctx.committee.members, m.nodeId = vs.validator := by
  simp only [← checkSignerIsMember_ok]
  rw [← forM_checks_ok]
  unfold validateBlock
  cases validateBlockHeader clock block.header ctx with
  | error e => simp
  | ok u =>
    by_cases hsize : (P.block.put block).length > ctx.maxBlockSize
    · simp [hsize, Nat.not_le.mpr hsize]
    · cases htx : validateBlockTransactions P block.transactions ctx.minTransactionFee with
      | error e => simp [hsize]
      | ok u =>
        cases validateBlockAttestations bp block.attestations ctx.polThresholds with
        | error e => simp [hsize]
        | ok u =>
          by_cases hfin : ctx.committee.finalityThreshold ≤ block.validatorSignatures.length
          · simp [hsize, Nat.le_of_not_lt hsize, ValidatorCommittee.hasFinality, hfin]
          · simp [hsize, ValidatorCommittee.hasFinality, hfin]

/-! ### The quorum -/

/-- Enough distinct members of the committee have signed the block's header. -/
def HasQuorum (P : Platform) (committee : ValidatorCommittee) (block : Block) : Prop :=
  ∃ signers : List NodeId, signers.Nodup ∧ committee.finalityThreshold ≤ signers.length ∧
    ∀ n ∈ signers, ∃ m ∈ committee.members, m.nodeId = n ∧
      ∃ vs ∈ block.validatorSignatures, vs.validator = n ∧
        verifyBlockSignature P block.header vs m.signingPubkey = .ok ()

/-- Every entry of the block's signature list verifies on the header under the key of the member it
names, and no member is named twice.  Neither is looked at by `validateBlock`. -/
structure Genuine (P : Platform) (committee : ValidatorCommittee) (block : Block) : Prop where
  distinct : (block.validatorSignatures.map fun vs => vs.validator).Nodup
  verify : ∀ vs ∈ block.validatorSignatures, ∃ m ∈ committee.members, m.nodeId = vs.validator ∧
    verifyBlockSignature P block.header vs m.signingPubkey = .ok ()

/-- The same network state, with another finality threshold. -/
def ValidationContext.withThreshold (ctx : ValidationContext) (threshold : ℕ) : ValidationContext :=
  { ctx with committee := { ctx.committee with finalityThreshold := threshold } }

theorem Genuine.hasQuorum (h : Genuine P committee block)
    (hlen : committee.finalityThreshold ≤ block.validatorSignatures.length) :
    HasQuorum P committee block := by
  refine ⟨block.validatorSignatures.map fun vs => vs.validator, h.distinct,
    by rwa [List.length_map], fun n hn => ?_⟩
  obtain ⟨vs, hvs, rfl⟩ := List.mem_map.mp hn
  obtain ⟨m, hm, hid, hok⟩ := h.verify vs hvs
  exact ⟨m, hm, hid, vs, hvs, rfl, hok⟩

/-- When every entry counts, every entry has to be a signature. -/
theorem HasQuorum.genuine (h : HasQuorum P committee block)
    (hlen : block.validatorSignatures.length ≤ committee.finalityThreshold) :
    Genuine P committee block := by
  obtain ⟨signers, hnd, hle, hsigned⟩ := h
  obtain ⟨hdistinct, hverify⟩ := all_of_names (p := fun vs => ∃ m ∈ committee.members,
    m.nodeId = vs.validator ∧ verifyBlockSignature P block.header vs m.signingPubkey = .ok ())
    hnd (hlen.trans hle) fun n hn => by
      obtain ⟨m, hm, hid, vs, hvs, rfl, hok⟩ := hsigned n hn
      exact ⟨vs, hvs, rfl, m, hm, hid, hok⟩
  exact ⟨hdistinct, hverify⟩

/-- **An accepted block has a quorum behind it**, whatever the finality threshold it is accepted
with, exactly when its signatures are genuine. -/
theorem validateBlock_quorum_iff (bp : Bulletproofs P) (clock : Clock) (block : Block)
    (ctx : ValidationContext) (h : validateBlock bp clock block ctx = .ok ()) :
    (∀ threshold, validateBlock bp clock block (ctx.withThreshold threshold) = .ok () →
      HasQuorum P (ctx.withThreshold threshold).committee block) ↔
      Genuine P ctx.committee block := by
  obtain ⟨hheader, hsize, htxs, hatts, -, hmembers⟩ := validateBlock_ok.mp h
  constructor
  · intro hall
    -- the largest threshold that the block is accepted with counts every entry
    have hquorum := hall block.validatorSignatures.length
      (validateBlock_ok.mpr ⟨hheader, hsize, htxs, hatts, le_rfl, hmembers⟩)
    obtain ⟨hdistinct, hverify⟩ := hquorum.genuine le_rfl
    exact ⟨hdistinct, hverify⟩
  · intro hgen threshold haccepted
    obtain ⟨-, -, -, -, hlen, -⟩ := validateBlock_ok.mp haccepted
    exact Genuine.hasQuorum ⟨hgen.distinct, hgen.verify⟩ hlen

/-! ### Three validators -/

namespace Reference

def bulletproofs : Bulletproofs reference where
  base := (1 : ZMod 251)
  baseBlinding := (1 : ZMod 251)
  isRangeProof _ := false
  proveMultiple _ _ _ _ _ _ := .error "InvalidBitsize"
  verifyMultiple _ _ _ _ _ := false

def epochClock : Clock :=
  { now := ⟨0, 0⟩, toText := fun _ => "1970-01-01 00:00:00 UTC", ahead := by decide +kernel,
    back := by decide +kernel }

def firstBlock : ValidationContext :=
  { currentHeight := 1, previousBlockHash := .zero, committee := committeeOf [1, 2, 3] 2,
    maxBlockSize := 262144, minTransactionFee := 1000, previousBlockTimestamp := none,
    polThresholds := {} }

def firstHeader : BlockHeader := headerAt 1 {} (node 1)

/-- A block that names its producer twice, with 64 bytes each time that sign nothing. -/
def unsignedBlock : Block :=
  { header := firstHeader, transactions := [], attestations := [],
    validatorSignatures := List.replicate 2 ⟨node 1, List.replicate 64 0⟩ }

end Reference

open Reference in
/-- Two of three validators sign, and two are enough. -/
theorem validateBlock_quorum_twoSigned :
    HasQuorum reference firstBlock.committee (signedBlock firstHeader [] [1, 2]) :=
  (validateBlock_quorum_iff bulletproofs epochClock _ firstBlock (by decide +kernel)).mpr
    ⟨by decide +kernel, by decide +kernel⟩ 2 (by decide +kernel)

open Reference in
/-- A block that nobody signed is accepted. -/
theorem validateBlock_unsignedBlock :
    validateBlock bulletproofs epochClock unsignedBlock firstBlock = .ok () ∧
      ¬ HasQuorum reference firstBlock.committee unsignedBlock := by
  refine ⟨by decide +kernel, ?_⟩
  rintro ⟨signers, -, hlen, hsigned⟩
  obtain ⟨n, hn⟩ := List.exists_mem_of_length_pos (Nat.lt_of_lt_of_le (by decide +kernel) hlen)
  obtain ⟨m, hm, -, vs, hvs, -, hok⟩ := hsigned n hn
  have hbad : ∀ m ∈ firstBlock.committee.members, ∀ vs ∈ unsignedBlock.validatorSignatures,
      verifyBlockSignature reference unsignedBlock.header vs m.signingPubkey ≠ .ok () := by
    decide +kernel
  exact hbad m hm vs hvs hok

end Gratia
