import Gratia.Consensus.Engine
import Gratia.Core.Reference
import Gratia.Support.Runs

/-!
# Consensus — Incoming blocks

What `processIncomingBlock` can do, said once.  A header `Fits` when it is the next one on the tip,
or two heights ahead of it; it `Conflicts` when another proposal of its producer was noted at its
height.
-/

namespace Gratia

open Support

variable {P : Platform}

namespace ConsensusEngine

/-! ### The checks -/

theorem checkTransaction_ok {tx : Transaction} {i : ℕ} : checkTransaction P (tx, i) = .ok () ↔
    verifySignature P tx.senderPubkey (tx.signable P) tx.signature = .ok () := by
  unfold checkTransaction
  simp only
  split
  · next hs => simp [verifySignature, hs]
  · split
    · next hk => simp [verifySignature, hk]
    · exact mapError_ok

/-- The producer sits on the committee, with a signing key if its block skips a height. -/
def MayPropose (c : ValidatorCommittee) (isFastForward : Bool) (producer : NodeId) : Prop :=
  ∃ m ∈ c.members, m.nodeId = producer ∧ (isFastForward = true → m.signingPubkey ≠ [])

/-- The signature is a member's, and verifies on the header under that member's key; a member
without one is let through on a committee where at most one member has one. -/
def SignedBy (P : Platform) (c : ValidatorCommittee) (header : BlockHeader)
    (vs : ValidatorSignature) : Prop :=
  (∃ m ∈ c.members, m.nodeId = vs.validator) ∧
    (∀ key, c.getSigningPubkey vs.validator = some key →
      verifySignature P key (header.hash P).bytes.bytes vs.signature = .ok ()) ∧
    (c.getSigningPubkey vs.validator = none → c.realMembers ≤ 1)

variable {c : ValidatorCommittee}

theorem checkProducer_ok {ff : Bool} {producer : NodeId} :
    checkProducer c ff producer = .ok () ↔ MayPropose c ff producer := by
  unfold checkProducer MayPropose
  cases ff with
  | false | true => simp

variable {header : BlockHeader}

theorem checkValidatorSignature_ok {vs : ValidatorSignature} :
    checkValidatorSignature P c header vs = .ok () ↔ SignedBy P c header vs := by
  unfold checkValidatorSignature SignedBy
  rw [← ValidatorCommittee.isCommitteeMember_iff]
  cases hm : c.isCommitteeMember vs.validator with
  | false => simp
  | true =>
    cases hk : c.getSigningPubkey vs.validator with
    | none =>
      by_cases hr : c.realMembers > 1
      · simp [hr]
      · simpa [hr] using Nat.le_of_not_lt hr
    | some key => simp [verifyBlockSignature]

theorem checkValidatorSignatures_ok {sigs : List ValidatorSignature} :
    checkValidatorSignatures P c header sigs = .ok () ↔
      sigs ≠ [] ∧ ∀ vs ∈ sigs, SignedBy P c header vs := by
  unfold checkValidatorSignatures
  simp only [← checkValidatorSignature_ok]
  cases sigs with
  | nil => simp
  | cons vs sigs =>
    rw [if_neg (by simp)]
    exact forM_checks_ok.trans (by simp)

theorem checkTransactions_ok {txs : List Transaction} :
    forM txs.zipIdx (checkTransaction P) = .ok () ↔ ∀ tx ∈ txs,
      verifySignature P tx.senderPubkey (tx.signable P) tx.signature = .ok () := by
  rw [forM_checks_ok]
  constructor
  · intro h tx htx
    obtain ⟨i, hi, rfl⟩ := List.mem_iff_getElem.mp htx
    exact checkTransaction_ok.mp (h (_, i) (by simp [List.mk_mem_zipIdx_iff_getElem?, hi]))
  · rintro h ⟨tx, i⟩ hmem
    exact checkTransaction_ok.mpr (h tx (List.fst_mem_of_mem_zipIdx hmem))

theorem checkBlock_ok {committee : Option ValidatorCommittee} {ff : Bool} {block : Block} :
    checkBlock P committee ff block = .ok () ↔
      (∀ c, committee = some c → MayPropose c ff block.header.producer ∧
        block.validatorSignatures ≠ [] ∧
        ∀ vs ∈ block.validatorSignatures, SignedBy P c block.header vs) ∧
      ∀ tx ∈ block.transactions,
        verifySignature P tx.senderPubkey (tx.signable P) tx.signature = .ok () := by
  simp only [← checkProducer_ok, ← checkValidatorSignatures_ok, ← checkTransactions_ok]
  unfold checkBlock
  cases committee with
  | none => simp
  | some c =>
    cases hp : checkProducer c ff block.header.producer with
    | error err => simp [hp]
    | ok u =>
      cases hs : checkValidatorSignatures P c block.header block.validatorSignatures with
      | error err => simp [hp, hs]
      | ok u => simp [hp, hs]

/-! ### The way to the checks -/

/-- The header is the next one on the tip, or skips one height; then its parent is not looked at. -/
def Fits (e : ConsensusEngine) (header : BlockHeader) : Prop :=
  e.currentHeight < header.height ∧
    (header.height = e.currentHeight + 1 ∧ header.parentHash = e.lastFinalizedHash ∨
      header.height = e.currentHeight + 2)

instance (e : ConsensusEngine) (header : BlockHeader) : Decidable (e.Fits header) :=
  inferInstanceAs (Decidable (_ ∧ _))

/-- Another proposal of the producer has been noted at this height. -/
def Conflicts (P : Platform) (e : ConsensusEngine) (header : BlockHeader) : Prop :=
  ∃ prevHash, e.seenProposals[(header.height, header.producer)]? = some prevHash ∧
    prevHash ≠ header.hash P

def turnedAway (e : ConsensusEngine) (header : BlockHeader) : BlockProcessResult :=
  if header.height ≤ e.currentHeight then .skipped else .forkDetected

def equivocation : GratiaError :=
  .blockValidationFailed "equivocation: producer proposed different blocks at same height"

variable {e : ConsensusEngine} {b : Block}

theorem conflicts_iff_any : e.Conflicts P header ↔
    (e.seenProposals[(header.height, header.producer)]?.any
      fun prevHash => prevHash ≠ header.hash P) = true := by
  unfold Conflicts
  cases e.seenProposals[(header.height, header.producer)]? with
  | none | some prevHash => simp

/-- Heights above the current one do not wrap, so the method's comparisons say what `Fits` says. -/
theorem fits_iff : e.Fits header ↔ ¬ header.height ≤ e.currentHeight ∧
    ¬ (header.height > e.currentHeight + 1 ∧ header.height - e.currentHeight ≠ 2) ∧
    ¬ ((!e.isFastForward header) = true ∧ header.parentHash ≠ e.lastFinalizedHash) := by
  unfold Fits isFastForward
  generalize header.height = h, e.currentHeight = c
  by_cases hlt : c < h
  · have hnat := UInt64.lt_iff_toNat_lt.mp hlt
    have hsucc : (c + 1).toNat = c.toNat + 1 := by
      have := h.toNat_lt
      rw [UInt64.toNat_add]
      simp only [UInt64.reduceToNat]
      omega
    by_cases hff : h > c + 1
    · have htwo : h - c = 2 ↔ h = c + 2 := by
        constructor
        · intro hd
          rw [← hd, UInt64.add_comm, UInt64.sub_add_cancel]
        · rintro rfl
          rw [UInt64.add_comm, UInt64.add_sub_cancel]
      have hne : h ≠ c + 1 := by
        rintro rfl
        exact UInt64.lt_irrefl _ hff
      simp [hlt, hff, hne, htwo]
    · have heq : h = c + 1 := by
        have := UInt64.lt_iff_toNat_lt.not.mp hff
        exact UInt64.toNat_inj.mp (by omega)
      have hne : h ≠ c + 2 := by
        intro h2
        have := UInt64.toNat_inj.mpr (heq.symm.trans h2)
        rw [hsucc, UInt64.toNat_add] at this
        simp only [UInt64.reduceToNat] at this
        omega
      have hlt' := heq ▸ hlt
      have hne' := heq ▸ hne
      simp [heq, hlt', hne']
  · simp [hlt, UInt64.not_lt.mp hlt]

theorem process_of_not_fits (h : ¬ e.Fits b.header) :
    e.processIncomingBlock P b = (.ok (e.turnedAway b.header), e) := by
  rw [fits_iff] at h
  unfold processIncomingBlock turnedAway
  simp only
  split_ifs with h₁ h₂ h₃ <;> first | rfl | exact absurd ⟨h₁, h₂, h₃⟩ h

theorem process_of_conflict (h : e.Fits b.header) (hc : e.Conflicts P b.header) :
    e.processIncomingBlock P b = (.error equivocation, e) := by
  obtain ⟨h₁, h₂, h₃⟩ := fits_iff.mp h
  unfold processIncomingBlock
  simp only
  rw [if_neg h₁, if_neg h₂, if_neg h₃, if_pos (conflicts_iff_any.mp hc)]
  rfl

theorem process_of_fits (h : e.Fits b.header) (hc : ¬ e.Conflicts P b.header) :
    e.processIncomingBlock P b =
      match checkBlock P e.currentCommittee (e.isFastForward b.header) b with
      | .error err => (.error err, e.recordProposal P b.header)
      | .ok () => (.ok .accepted, (e.recordProposal P b.header).advanceTo P b) := by
  obtain ⟨h₁, h₂, h₃⟩ := fits_iff.mp h
  unfold processIncomingBlock
  simp only
  rw [if_neg h₁, if_neg h₂, if_neg h₃, if_neg (conflicts_iff_any.not.mp hc)]
  rfl

/-! ### Acceptance -/

theorem turnedAway_ne_accepted (e : ConsensusEngine) (header : BlockHeader) :
    e.turnedAway header ≠ .accepted := by
  unfold turnedAway
  split <;> decide

theorem accepted_iff_checks : (e.processIncomingBlock P b).1 = .ok .accepted ↔
    e.Fits b.header ∧ ¬ e.Conflicts P b.header ∧
      checkBlock P e.currentCommittee (e.isFastForward b.header) b = .ok () := by
  by_cases h : e.Fits b.header
  · by_cases hc : e.Conflicts P b.header
    · simp [process_of_conflict h hc, hc]
    · rw [process_of_fits h hc]
      cases checkBlock P e.currentCommittee (e.isFastForward b.header) b with
      | error err => simp
      | ok u => simp [h, hc]
  · simp [process_of_not_fits h, h, turnedAway_ne_accepted]

/-- What the engine asks of a header and its signatures. -/
def HeaderOk (P : Platform) (e : ConsensusEngine) (header : BlockHeader)
    (sigs : List ValidatorSignature) : Prop :=
  e.Fits header ∧ ¬ e.Conflicts P header ∧
    ∀ c, e.currentCommittee = some c → MayPropose c (e.isFastForward header) header.producer ∧
      sigs ≠ [] ∧ ∀ vs ∈ sigs, SignedBy P c header vs

/-- **What acceptance takes**: a header the engine likes, and transactions with good signatures. -/
theorem accepted_iff : (e.processIncomingBlock P b).1 = .ok .accepted ↔
    HeaderOk P e b.header b.validatorSignatures ∧ ∀ tx ∈ b.transactions,
      verifySignature P tx.senderPubkey (tx.signable P) tx.signature = .ok () := by
  rw [accepted_iff_checks, checkBlock_ok]
  exact ⟨fun ⟨hf, hc, hh, ht⟩ => ⟨⟨hf, hc, hh⟩, ht⟩, fun ⟨⟨hf, hc, hh⟩, ht⟩ => ⟨hf, hc, hh, ht⟩⟩

theorem process_of_accepted (h : (e.processIncomingBlock P b).1 = .ok .accepted) :
    (e.processIncomingBlock P b).2 = (e.recordProposal P b.header).advanceTo P b := by
  obtain ⟨hf, hc, hb⟩ := accepted_iff_checks.mp h
  rw [process_of_fits hf hc, hb]

theorem process_of_refused (h : (e.processIncomingBlock P b).1 ≠ .ok .accepted)
    (hf : e.Fits b.header) (hc : ¬ e.Conflicts P b.header) :
    (e.processIncomingBlock P b).2 = e.recordProposal P b.header := by
  rw [process_of_fits hf hc] at h ⊢
  cases hb : checkBlock P e.currentCommittee (e.isFastForward b.header) b with
  | error err => rfl
  | ok u => exact absurd rfl (hb ▸ h)

theorem process_of_rejected (h : (e.processIncomingBlock P b).1 ≠ .ok .accepted) :
    (e.processIncomingBlock P b).2 = e ∨
      e.Fits b.header ∧ ¬ e.Conflicts P b.header ∧
        (e.processIncomingBlock P b).2 = e.recordProposal P b.header := by
  by_cases hf : e.Fits b.header
  · by_cases hc : e.Conflicts P b.header
    · rw [process_of_conflict hf hc]
      exact .inl rfl
    · exact .inr ⟨hf, hc, process_of_refused h hf hc⟩
  · rw [process_of_not_fits hf]
    exact .inl rfl

@[simp] theorem recordProposal_currentHeight (header : BlockHeader) :
    (e.recordProposal P header).currentHeight = e.currentHeight := rfl

end ConsensusEngine

/-! ### Pieces of concrete runs -/

namespace Reference

def member (n : UInt8) : CommitteeMember :=
  { nodeId := node n, vrfPubkey := ⟨.splat n⟩, presenceScore := 60, selectionProof := ⟨.zero, []⟩,
    selectionValue := 0, signingPubkey := key n }

def committeeOf (members : List UInt8) (finalityThreshold : ℕ) : ValidatorCommittee :=
  { epoch := ⟨0, 0, slotsPerEpoch, .zero⟩, members := members.map member,
    committeeSize := members.length, finalityThreshold := finalityThreshold,
    networkSizeSnapshot := 0 }

def engineOf (n : UInt8) (committee : ValidatorCommittee) : ConsensusEngine :=
  { ConsensusEngine.new reference (node n) (.splat n) with
    currentCommittee := some committee, state := .active }

def signHeader (header : BlockHeader) (n : UInt8) : ValidatorSignature :=
  ⟨node n, sign (key n) (header.hash reference).bytes.bytes⟩

def signedBlock (header : BlockHeader) (transactions : List Transaction) (signers : List UInt8) :
    Block :=
  { header := header, transactions := transactions, attestations := [],
    validatorSignatures := signers.map (signHeader header) }

end Reference

end Gratia
