import Gratia.Consensus.BlockProduction

/-!
# Consensus — Engine

`gratia-consensus/src/lib.rs`: the `ConsensusEngine` of a node.  A method that can fail returns its
result together with the engine it leaves behind, because some of them have already written when
they fail: `processIncomingBlock` notes the proposal before it checks the block, and
`finalizePendingBlock` takes the pending block before it knows whether it is final.  Logging, the
presence score and the time the engine was started are left out; nothing reads them.
-/

namespace Gratia

open Support (Bytes Codec)
open Std

instance : Ord (UInt64 × NodeId) := lexOrd
instance : TransOrd (UInt64 × NodeId) := inferInstanceAs (@TransOrd _ lexOrd)
instance : LawfulEqOrd (UInt64 × NodeId) := inferInstanceAs (@LawfulEqOrd _ lexOrd)

inductive ConsensusState where
  | syncing | active | producing | stopped
deriving DecidableEq

inductive BlockProcessResult where
  | accepted | skipped | forkDetected
deriving DecidableEq

structure ConsensusEngine where
  nodeId : NodeId
  vrfSecretKey : VrfSecretKey
  blockProducer : BlockProducer
  currentCommittee : Option ValidatorCommittee := none
  currentSlot : UInt64 := 0
  currentHeight : UInt64 := 0
  lastFinalizedHash : BlockHash := {}
  lastFinalizedTimestamp : Option DateTime := none
  recentBlockHashes : List BlockHash := []
  pendingBlock : Option PendingBlock := none
  state : ConsensusState := .syncing
  syncingSlots : UInt64 := 0
  seenProposals : ExtTreeMap (UInt64 × NodeId) BlockHash := ∅

def maxRecentBlocks : ℕ := 128

def maxRollbackDepth : UInt64 := 128

namespace ConsensusEngine

variable (P : Platform)

def new (nodeId : NodeId) (signingKeyBytes : Bytes32) : ConsensusEngine :=
  { nodeId := nodeId, vrfSecretKey := .fromEd25519Bytes P signingKeyBytes,
    blockProducer := { nodeId := nodeId, activeMiners := 0, geographicDiversity := 0 } }

/-! ### Committee and slots -/

def initializeCommittee (e : ConsensusEngine) (eligibleNodes : List EligibleNode)
    (epochSeed : Bytes32) (epochNumber startSlot : UInt64) :
    Except GratiaError Unit × ConsensusEngine :=
  match selectCommittee P eligibleNodes epochSeed epochNumber startSlot with
  | .error err => (.error err, e)
  | .ok committee =>
    (.ok (), { e with currentCommittee := some committee, currentSlot := startSlot,
                      state := .active })

def rotateCommittee (e : ConsensusEngine) (eligibleNodes : List EligibleNode) :
    Except GratiaError Unit × ConsensusEngine :=
  match e.currentCommittee with
  | none => (.error (.blockValidationFailed "No current committee to rotate from"), e)
  | some current =>
    match Gratia.rotateCommittee P eligibleNodes current e.lastFinalizedHash.bytes with
    | .error err => (.error err, e)
    | .ok newCommittee => (.ok (), { e with currentCommittee := some newCommittee })

/-- `advance_slot`: whether this node produces the next block. -/
def advanceSlot (e : ConsensusEngine) : Bool × ConsensusEngine :=
  let e := { e with
    currentSlot := e.currentSlot + 1
    -- Leaders go by height, on which nodes agree; their slot counters drift apart.
    blockProducer := { e.blockProducer with currentSlot := e.currentHeight + 1 } }
  if e.state = .syncing then
    let slots := e.syncingSlots + 1
    (false, { e with syncingSlots := if slots > 15 then 0 else slots })
  else
    match e.currentCommittee with
    | some committee =>
      if e.blockProducer.shouldProduceBlock committee then
        (true, { e with state := .producing })
      else (false, e)
    | none => (false, e)

def forceProducingState (e : ConsensusEngine) : ConsensusEngine := { e with state := .producing }

/-! ### The pending block -/

def produceBlock (e : ConsensusEngine) (now : DateTime) (transactions : List Transaction)
    (attestations : List ProofOfLifeAttestation) (stateRoot : Bytes32) (producerPubkey : Bytes) :
    Except GratiaError PendingBlock × ConsensusEngine :=
  if e.state ≠ .producing then (.error (.blockValidationFailed "Not in producing state"), e)
  else
    match e.currentCommittee with
    | none => (.error (.blockValidationFailed "No active committee for block production"), e)
    | some committee =>
      match e.blockProducer.produceBlock P now transactions attestations e.lastFinalizedHash
          (e.currentHeight + 1) stateRoot e.vrfSecretKey committee with
      | .error err => (.error err, e)
      | .ok produced =>
        -- The key is filled in after the header is built, and before anyone signs it.
        let pending := { produced with
          block.header.producerPubkey := producerPubkey }
        (.ok pending, { e with pendingBlock := some pending })

def checkSigner (committee : ValidatorCommittee) (header : BlockHeader) (sig : ValidatorSignature) :
    Except GratiaError Unit :=
  if !committee.isCommitteeMember sig.validator then
    .error (.blockValidationFailed s!"Signer {sig.validator.toText} is not a committee member")
  else
    match committee.getSigningPubkey sig.validator with
    | some pubkey => verifyBlockSignature P header sig pubkey
    | none =>
      if committee.realMembers > 1 then
        .error (.blockValidationFailed
          (s!"Rejecting unverified signature from validator {sig.validator.toText}: " ++
            s!"no signing pubkey (multi-node mode, {committee.realMembers} real members)"))
      else .ok ()

/-- `add_block_signature`: whether the block is final with it. -/
def addBlockSignature (e : ConsensusEngine) (sig : ValidatorSignature) :
    Except GratiaError Bool × ConsensusEngine :=
  match e.pendingBlock with
  | none => (.error (.blockValidationFailed "No pending block to sign"), e)
  | some pending =>
    let signed := do
      if let some committee := e.currentCommittee then
        checkSigner P committee pending.block.header sig
      pending.addSignature sig
    match signed with
    | .error err => (.error err, e)
    | .ok pending => (.ok pending.isFinalized, { e with pendingBlock := some pending })

/-- The tip moves to `block`: what `finalize_pending_block` and `process_incoming_block` share. -/
def advanceTo (e : ConsensusEngine) (block : Block) : ConsensusEngine :=
  let recent := e.recentBlockHashes ++ [block.header.hash P]
  { e with
    currentHeight := block.header.height
    lastFinalizedHash := block.header.hash P
    lastFinalizedTimestamp := some block.header.timestamp
    recentBlockHashes := recent.drop (recent.length - maxRecentBlocks)
    pendingBlock := none
    state := .active }

/-- `finalize_pending_block_inner`; the pending block is taken whether or not it is final. -/
def finalizePendingBlockInner (e : ConsensusEngine) (force : Bool) :
    Except GratiaError Block × ConsensusEngine :=
  match e.pendingBlock with
  | none => (.error (.blockValidationFailed "No pending block to finalize"), e)
  | some pending =>
    match if force then pending.forceFinalize else pending.finalize with
    | .error err => (.error err, { e with pendingBlock := none })
    | .ok block => (.ok block, e.advanceTo P block)

def finalizePendingBlock (e : ConsensusEngine) : Except GratiaError Block × ConsensusEngine :=
  e.finalizePendingBlockInner P false

def forceFinalizePendingBlock (e : ConsensusEngine) : Except GratiaError Block × ConsensusEngine :=
  match e.currentCommittee with
  | some committee =>
    if committee.realMembers > 1 then
      (.error (.blockValidationFailed
        (s!"force_finalize blocked: {committee.realMembers} real committee members " ++
          "(only allowed in solo/bootstrap mode)")), e)
    else e.finalizePendingBlockInner P true
  | none => e.finalizePendingBlockInner P true

/-! ### Incoming blocks -/

/-- The producer of an incoming block sits on the committee; one that skips a height must also hold
a signing key. -/
def checkProducer (committee : ValidatorCommittee) (isFastForward : Bool) (producer : NodeId) :
    Except GratiaError Unit :=
  if isFastForward then
    if committee.members.any fun m => m.nodeId == producer && !m.signingPubkey.isEmpty then .ok ()
    else .error (.blockValidationFailed "fast-forward block producer is not a committee member")
  else
    if committee.members.any fun m => m.nodeId == producer then .ok ()
    else .error (.blockValidationFailed "block producer is not a committee member")

def checkValidatorSignature (committee : ValidatorCommittee) (header : BlockHeader)
    (vs : ValidatorSignature) : Except GratiaError Unit :=
  if !committee.isCommitteeMember vs.validator then
    .error (.blockValidationFailed
      s!"Block signature from non-committee member: {vs.validator.toText}")
  else
    match committee.getSigningPubkey vs.validator with
    | some pubkey =>
      (verifyBlockSignature P header vs pubkey).mapError fun err =>
        .blockValidationFailed
          s!"Invalid signature from validator {vs.validator.toText}: {err.toText}"
    | none =>
      if committee.realMembers > 1 then
        .error (.blockValidationFailed
          (s!"Block signature from validator {vs.validator.toText} has no signing pubkey " ++
            s!"(multi-node mode, {committee.realMembers} real members)"))
      else .ok ()

/-- The signatures of an incoming block: one is required, and every one there is must verify. -/
def checkValidatorSignatures (committee : ValidatorCommittee) (header : BlockHeader)
    (signatures : List ValidatorSignature) : Except GratiaError Unit :=
  if signatures.length < 1 then .error (.insufficientSignatures signatures.length 1)
  else forM signatures (checkValidatorSignature P committee header)

def checkTransaction (entry : Transaction × ℕ) : Except GratiaError Unit :=
  let (tx, i) := entry
  if tx.signature.length ≠ 64 then
    .error (.blockValidationFailed
      s!"Transaction {i} has invalid signature length: {tx.signature.length} (expected 64)")
  else if tx.senderPubkey.length ≠ 32 then
    .error (.blockValidationFailed
      s!"Transaction {i} has invalid sender pubkey length: {tx.senderPubkey.length} (expected 32)")
  else
    (verifySignature P tx.senderPubkey (tx.signable P) tx.signature).mapError fun _ =>
      .blockValidationFailed s!"Transaction {i} has invalid Ed25519 signature"

/-- The checks on an incoming block that stand between its proposal and its acceptance. -/
def checkBlock (committee : Option ValidatorCommittee) (isFastForward : Bool) (block : Block) :
    Except GratiaError Unit := do
  if let some committee := committee then
    checkProducer committee isFastForward block.header.producer
    checkValidatorSignatures P committee block.header block.validatorSignatures
  forM block.transactions.zipIdx (checkTransaction P)

/-- The proposal is noted, and notes more than 100 heights old are dropped. -/
def recordProposal (e : ConsensusEngine) (header : BlockHeader) : ConsensusEngine :=
  let seen := e.seenProposals.insert (header.height, header.producer) (header.hash P)
  { e with
    seenProposals :=
      if e.currentHeight > 100 then seen.filter fun key _ => key.1 > e.currentHeight - 100
      else seen }

/-- `is_fast_forward`: the header is ahead of the expected height. -/
def isFastForward (e : ConsensusEngine) (header : BlockHeader) : Bool :=
  header.height > e.currentHeight + 1

def processIncomingBlock (e : ConsensusEngine) (block : Block) :
    Except GratiaError BlockProcessResult × ConsensusEngine :=
  let incomingHeight := block.header.height
  let expectedHeight := e.currentHeight + 1
  -- One height may be skipped: a gap of two goes on, a larger one is a fork.
  if incomingHeight ≤ e.currentHeight then (.ok .skipped, e)
  else if incomingHeight > expectedHeight ∧ incomingHeight - e.currentHeight ≠ 2 then
    (.ok .forkDetected, e)
  else
    let isFastForward := e.isFastForward block.header
    if !isFastForward ∧ block.header.parentHash ≠ e.lastFinalizedHash then (.ok .forkDetected, e)
    else if e.seenProposals[(incomingHeight, block.header.producer)]?.any
        fun prevHash => prevHash ≠ block.header.hash P then
      (.error (.blockValidationFailed
        "equivocation: producer proposed different blocks at same height"), e)
    else
      -- The note is written before the block is checked, and stays if a check fails.
      let e := e.recordProposal P block.header
      match checkBlock P e.currentCommittee isFastForward block with
      | .error err => (.error err, e)
      | .ok () => (.ok .accepted, e.advanceTo P block)

/-! ### Forks and restarts -/

def rollbackTo (e : ConsensusEngine) (height : UInt64) (tipHash : BlockHash) :
    Except GratiaError Unit × ConsensusEngine :=
  if height > 0 ∧ e.currentHeight > height ∧ e.currentHeight - height > maxRollbackDepth then
    (.error (.other (s!"Rollback depth {e.currentHeight - height} exceeds maximum " ++
      s!"{maxRollbackDepth} blocks (current={e.currentHeight}, target={height})")), e)
  else
    (.ok (), { e with
      currentHeight := height, lastFinalizedHash := tipHash, lastFinalizedTimestamp := none,
      pendingBlock := none, recentBlockHashes := [], state := .active, syncingSlots := 0 })

def clearProposalsForHeight (e : ConsensusEngine) (height : UInt64) : ConsensusEngine :=
  { e with seenProposals := e.seenProposals.filter fun key _ => key.1 ≠ height }

def restoreState (e : ConsensusEngine) (height : UInt64) (tipHash : BlockHash) : ConsensusEngine :=
  { e with currentHeight := height, lastFinalizedHash := tipHash }

end ConsensusEngine

end Gratia
