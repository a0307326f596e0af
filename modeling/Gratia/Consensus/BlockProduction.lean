import Gratia.Consensus.Committee

/-!
# Consensus — Block production

`gratia-consensus/src/block_production.rs`: the block a producer assembles, and the signatures it
collects until the block is final.  `Utc::now()` is a parameter of `produceBlock`.
-/

namespace Gratia

open Support (Bytes Codec)

variable (P : Platform)

/-! ### Pending blocks -/

structure PendingBlock where
  block : Block
  signatures : List ValidatorSignature
  slot : UInt64
  finalityThreshold : ℕ
deriving DecidableEq

namespace PendingBlock

def isFinalized (p : PendingBlock) : Bool := p.signatures.length ≥ p.finalityThreshold

def addSignature (p : PendingBlock) (sig : ValidatorSignature) : Except GratiaError PendingBlock :=
  if p.signatures.any fun s => s.validator == sig.validator then
    .error (.blockValidationFailed s!"Duplicate signature from validator {sig.validator.toText}")
  else .ok { p with signatures := p.signatures ++ [sig] }

def finalize (p : PendingBlock) : Except GratiaError Block :=
  if p.isFinalized then .ok { p.block with validatorSignatures := p.signatures }
  else .error (.insufficientSignatures p.signatures.length p.finalityThreshold)

def forceFinalize (p : PendingBlock) : Except GratiaError Block :=
  if p.signatures = [] then
    .error (.blockValidationFailed "Cannot finalize block with zero signatures")
  else if p.finalityThreshold > 1 ∧ p.signatures.length < p.finalityThreshold then
    .error (.blockValidationFailed (s!"force_finalize blocked: finality_threshold=" ++
      s!"{p.finalityThreshold} but only {p.signatures.length} signatures (multi-node mode)"))
  else .ok { p.block with validatorSignatures := p.signatures }

variable {p q : PendingBlock} {sig : ValidatorSignature}

theorem addSignature_ok (h : p.addSignature sig = .ok q) :
    sig.validator ∉ p.signatures.map (fun s => s.validator) ∧
      q = { p with signatures := p.signatures ++ [sig] } := by
  unfold addSignature at h
  split at h
  · cases h
  · next hdup =>
      refine ⟨fun hmem => hdup ?_, (Except.ok.inj h).symm⟩
      obtain ⟨s, hs, he⟩ := List.mem_map.mp hmem
      exact List.any_eq_true.mpr ⟨s, hs, beq_iff_eq.mpr he⟩

theorem finalize_ok {b : Block} (h : p.finalize = .ok b) :
    p.finalityThreshold ≤ p.signatures.length ∧
      b = { p.block with validatorSignatures := p.signatures } := by
  unfold finalize at h
  split at h
  · next hf => exact ⟨of_decide_eq_true hf, (Except.ok.inj h).symm⟩
  · cases h

def Ready (p : PendingBlock) : Bool → Prop
  | false => p.finalityThreshold ≤ p.signatures.length
  | true => p.signatures ≠ [] ∧
      (1 < p.finalityThreshold → p.finalityThreshold ≤ p.signatures.length)

def signers (p : PendingBlock) : List NodeId := p.signatures.map fun s => s.validator

def signed (p : PendingBlock) : Block := { p.block with validatorSignatures := p.signatures }

theorem finalize_cases (p : PendingBlock) (force : Bool) :
    (p.Ready force ∧ (if force then p.forceFinalize else p.finalize) = .ok p.signed) ∨
      (¬ p.Ready force ∧ ∃ err, (if force then p.forceFinalize else p.finalize) = .error err) := by
  cases force with
  | false =>
    by_cases hready : p.finalityThreshold ≤ p.signatures.length
    · exact .inl ⟨hready, by simp [finalize, isFinalized, hready, signed]⟩
    · exact .inr ⟨hready, _, by simp [finalize, isFinalized, hready]; rfl⟩
  | true =>
    by_cases hnone : p.signatures = []
    · exact .inr ⟨fun h => h.1 hnone, _, by simp [forceFinalize, hnone]; rfl⟩
    by_cases hfew : p.finalityThreshold > 1 ∧ p.signatures.length < p.finalityThreshold
    · exact .inr ⟨fun h => Nat.not_le.mpr hfew.2 (h.2 hfew.1), _,
        (if_neg hnone).trans (if_pos hfew)⟩
    · refine .inl ⟨⟨hnone, fun h => ?_⟩, by simp [forceFinalize, hnone, hfew, signed]⟩
      by_contra hlt
      exact hfew ⟨h, Nat.not_le.mp hlt⟩

end PendingBlock

/-! ### The producer -/

structure BlockProducer where
  nodeId : NodeId
  currentSlot : UInt64 := 0
  activeMiners : UInt64
  geographicDiversity : UInt16
deriving DecidableEq

def maxBlockSize : ℕ := 262144

namespace BlockProducer

def shouldProduceBlock (bp : BlockProducer) (committee : ValidatorCommittee) : Bool :=
  match committee.blockProducerForSlot bp.currentSlot with
  | some producer => producer.nodeId == bp.nodeId
  | none => false

def produceBlock (bp : BlockProducer) (now : DateTime) (transactions : List Transaction)
    (attestations : List ProofOfLifeAttestation) (previousHash : BlockHash) (height : UInt64)
    (stateRoot : Bytes32) (vrfSecretKey : VrfSecretKey) (committee : ValidatorCommittee) :
    Except GratiaError PendingBlock :=
  let vrfProof := generateVrfProof P vrfSecretKey (buildVrfInput previousHash.bytes bp.currentSlot)
  let header : BlockHeader :=
    { height := height, timestamp := now, parentHash := previousHash,
      transactionsRoot := merkleRoot P (transactions.map fun tx => tx.hash.bytes),
      stateRoot := stateRoot,
      attestationsRoot := merkleRoot P (attestations.map fun a => a.leaf P),
      producer := bp.nodeId, vrfProof := vrfProof.proofBytes, activeMiners := bp.activeMiners,
      geographicDiversity := bp.geographicDiversity, producerPubkey := [] }
  let block : Block := ⟨header, transactions, attestations, []⟩
  let blockBytes := P.block.put block
  if blockBytes.length > maxBlockSize then
    .error (.blockValidationFailed
      (s!"Produced block {blockBytes.length} bytes exceeds maximum {maxBlockSize} bytes. " ++
        "Reduce transactions."))
  else .ok ⟨block, [], bp.currentSlot, committee.finalityThreshold⟩

variable {P}

theorem produceBlock_ok {bp : BlockProducer} {now : DateTime} {txs : List Transaction}
    {atts : List ProofOfLifeAttestation} {prev : BlockHash} {height : UInt64} {root : Bytes32}
    {key : VrfSecretKey} {c : ValidatorCommittee} {p : PendingBlock}
    (h : bp.produceBlock P now txs atts prev height root key c = .ok p) :
    p.block.header.height = height ∧ p.block.header.parentHash = prev ∧ p.signatures = [] ∧
      p.finalityThreshold = c.finalityThreshold := by
  unfold produceBlock at h
  simp only at h
  split at h
  · cases h
  · cases h
    exact ⟨rfl, rfl, rfl, rfl⟩

end BlockProducer

def verifyBlockSignature (header : BlockHeader) (sig : ValidatorSignature)
    (publicKeyBytes : Bytes) : Except GratiaError Unit :=
  verifySignature P publicKeyBytes (header.hash P).bytes.bytes sig.signature

end Gratia
