import Gratia.Consensus.Incoming

/-!
# Consensus — Commitment

What an accepted header says about the body it came with.  A producer puts the Merkle roots of the
transactions and of the attestations into the header that the validators sign, but
`processIncomingBlock` never compares a root with a body: whether a block is accepted is decided by
its header, its signatures and each transaction's own signature (`accepted_iff`).
-/

namespace Gratia.ConsensusEngine

variable {P : Platform}

/-- Every body accepted under this header and these signatures has the roots the header names. -/
def CommitsToBody (P : Platform) (e : ConsensusEngine) (header : BlockHeader)
    (sigs : List ValidatorSignature) : Prop :=
  ∀ txs atts, (e.processIncomingBlock P ⟨header, txs, atts, sigs⟩).1 = .ok .accepted →
    header.transactionsRoot = merkleRoot P (txs.map fun tx => tx.contentHash P) ∧
      header.attestationsRoot = merkleRoot P (atts.map fun a => a.leaf P)

/-- Two engines that accept blocks with this header accept the same transactions, told apart by the
hashes of their contents. -/
def FixesTransactions (P : Platform) (e₁ e₂ : ConsensusEngine) (header : BlockHeader)
    (sigs₁ sigs₂ : List ValidatorSignature) : Prop :=
  ∀ txs₁ txs₂ atts₁ atts₂,
    (e₁.processIncomingBlock P ⟨header, txs₁, atts₁, sigs₁⟩).1 = .ok .accepted →
    (e₂.processIncomingBlock P ⟨header, txs₂, atts₂, sigs₂⟩).1 = .ok .accepted →
    txs₁.map (fun tx => tx.contentHash P) = txs₂.map fun tx => tx.contentHash P

theorem accepted_of_headerOk {e : ConsensusEngine} {header : BlockHeader}
    {sigs : List ValidatorSignature} (h : HeaderOk P e header sigs) {txs : List Transaction}
    (htxs : ∀ tx ∈ txs, verifySignature P tx.senderPubkey (tx.signable P) tx.signature = .ok ())
    (atts : List ProofOfLifeAttestation) :
    (e.processIncomingBlock P ⟨header, txs, atts, sigs⟩).1 = .ok .accepted :=
  accepted_iff.mpr ⟨h, htxs⟩

/-- **Headers commit to their bodies only where they are turned away.**  The first part is about
one engine and the roots, the second about two engines and the transactions; both ask only that the
hash tells two attestations apart and that some transaction can be signed. -/
theorem commitsToBody_iff (hleaf : ∃ a a' : ProofOfLifeAttestation, a.leaf P ≠ a'.leaf P)
    (htx : ∃ tx : Transaction,
      verifySignature P tx.senderPubkey (tx.signable P) tx.signature = .ok ()) :
    (∀ e header sigs, CommitsToBody P e header sigs ↔ ¬ HeaderOk P e header sigs) ∧
      ∀ e₁ e₂ header sigs₁ sigs₂, FixesTransactions P e₁ e₂ header sigs₁ sigs₂ ↔
        ¬ (HeaderOk P e₁ header sigs₁ ∧ HeaderOk P e₂ header sigs₂) := by
  refine ⟨fun e header sigs => ⟨fun hcommits hok => ?_, fun hok txs atts hacc => ?_⟩,
    fun e₁ e₂ header sigs₁ sigs₂ => ⟨?_, fun hok txs₁ txs₂ atts₁ atts₂ hacc₁ hacc₂ => ?_⟩⟩
  · -- One header cannot name the leaves of both attestations as its root.
    obtain ⟨a, a', hne⟩ := hleaf
    have none_signed : ∀ tx ∈ ([] : List Transaction),
        verifySignature P tx.senderPubkey (tx.signable P) tx.signature = .ok () := by simp
    have h := (hcommits [] [a] (accepted_of_headerOk hok none_signed [a])).2
    have h' := (hcommits [] [a'] (accepted_of_headerOk hok none_signed [a'])).2
    simp only [List.map_cons, List.map_nil, merkleRoot_singleton] at h h'
    exact hne (h.symm.trans h')
  · exact absurd (accepted_iff.mp hacc).1 hok
  · -- The same header travels without a transaction and with one.
    rintro hfixes ⟨hok₁, hok₂⟩
    obtain ⟨tx, hsigned⟩ := htx
    have h := hfixes [] [tx] [] [] (accepted_of_headerOk hok₁ (by simp) [])
      (accepted_of_headerOk hok₂ (by simpa using hsigned) [])
    simp at h
  · exact absurd ⟨(accepted_iff.mp hacc₁).1, (accepted_iff.mp hacc₂).1⟩ hok

/-! ### A header with another body -/

open Reference

def paymentBlock (amount : Lux) : Block :=
  let payload := TransactionPayload.transfer (addressOf (key 8)) amount
  let tx := signedTx (key 9) payload 0 10
  let header := { headerAt 1 {} (node 1) with
    transactionsRoot := merkleRoot reference [tx.contentHash reference] }
  signedBlock header [tx] [1, 2]

/-- The signed header of one payment, relayed with another. -/
def swappedBlock : Block :=
  { paymentBlock 5 with transactions := (paymentBlock 7).transactions }

def receiver : ConsensusEngine := engineOf 3 (committeeOf [1, 2] 2)

/-- Both blocks are accepted, and the header names the root of the first payment only. -/
theorem transactions_swapped_under_header :
    (receiver.processIncomingBlock reference (paymentBlock 5)).1 = .ok .accepted ∧
      (receiver.processIncomingBlock reference swappedBlock).1 = .ok .accepted ∧
      swappedBlock.header = (paymentBlock 5).header ∧
      swappedBlock.validatorSignatures = (paymentBlock 5).validatorSignatures ∧
      swappedBlock.header.transactionsRoot ≠
        merkleRoot reference
          (swappedBlock.transactions.map fun tx => tx.contentHash reference) := by
  decide +kernel

def attestationOf (nullifier : UInt8) : ProofOfLifeAttestation :=
  { blindedId := .zero, nullifier := .splat nullifier, zkProof := [], zkCommitments := none,
    epochDay := 0, presenceScore := 0, signature := [],
    sensorFlags := ⟨false, false, false, false, false, false, false, false, false, false, false,
      false, false, false⟩ }

/-- The header of the payment commits to nothing, and one header at the receiver's own height does,
never being accepted. -/
theorem commitsToBody_iff_payment :
    ¬ CommitsToBody reference receiver (paymentBlock 5).header
        (paymentBlock 5).validatorSignatures ∧
      ¬ FixesTransactions reference receiver receiver (paymentBlock 5).header
        (paymentBlock 5).validatorSignatures (paymentBlock 5).validatorSignatures ∧
      CommitsToBody reference receiver (headerAt 0 {} (node 1)) [] := by
  have hpay : (receiver.processIncomingBlock reference (paymentBlock 5)).1 = .ok .accepted := by
    decide +kernel
  have hok := (accepted_iff.mp hpay).1
  have hstale : ¬ receiver.Fits (headerAt 0 {} (node 1)) := by decide
  obtain ⟨hbody, hfixes⟩ := commitsToBody_iff (P := reference)
    ⟨attestationOf 1, attestationOf 2, by decide +kernel⟩
    ⟨signedTx (key 9) (.stake 1) 0 10, by decide +kernel⟩
  refine ⟨fun h => (hbody _ _ _).mp h hok, fun h => (hfixes _ _ _ _ _).mp h ⟨hok, hok⟩, ?_⟩
  exact (hbody _ _ _).mpr fun h => hstale h.1

end Gratia.ConsensusEngine
