import Gratia.Consensus.Incoming
import Gratia.Support.Quorum

/-!
# Consensus — Agreement

Two engines that start on one tip under one committee, each fed blocks of its own.  A block carries
the signatures of its validators, and the committee names a finality threshold; where every
delivered block carries that many, quorum intersection makes the engines agree.
-/

namespace Gratia.ConsensusEngine

open Support.Quorum

variable {P : Platform} {c : ValidatorCommittee}

/-! ### Tips along a run -/

def processIncomingBlocks (P : Platform) (e : ConsensusEngine) (blocks : List Block) :
    ConsensusEngine :=
  Support.run (processIncomingBlock P) e blocks

theorem process_currentCommittee (e : ConsensusEngine) (b : Block) :
    (e.processIncomingBlock P b).2.currentCommittee = e.currentCommittee := by
  by_cases h : (e.processIncomingBlock P b).1 = .ok .accepted
  · rw [process_of_accepted h]
    rfl
  · rcases process_of_rejected h with h | ⟨-, -, h⟩
    · rw [h]
    · rw [h]
      rfl

theorem process_tip (e : ConsensusEngine) (b : Block) :
    ((e.processIncomingBlock P b).2.currentHeight = e.currentHeight ∧
        (e.processIncomingBlock P b).2.lastFinalizedHash = e.lastFinalizedHash) ∨
      (HeaderOk P e b.header b.validatorSignatures ∧
        (e.processIncomingBlock P b).2.currentHeight = b.header.height ∧
        (e.processIncomingBlock P b).2.lastFinalizedHash = b.header.hash P) := by
  by_cases h : (e.processIncomingBlock P b).1 = .ok .accepted
  · rw [process_of_accepted h]
    exact .inr ⟨(accepted_iff.mp h).1, rfl, rfl⟩
  · rcases process_of_rejected h with h | ⟨-, -, h⟩ <;> rw [h] <;> exact .inl ⟨rfl, rfl⟩

/-- The tip of `e` is that of `e₀`, or a block of `blocks` above it that the committee signed. -/
def TipFrom (P : Platform) (c : ValidatorCommittee) (e₀ : ConsensusEngine) (blocks : List Block)
    (e : ConsensusEngine) : Prop :=
  (e.currentHeight = e₀.currentHeight ∧ e.lastFinalizedHash = e₀.lastFinalizedHash) ∨
    ∃ b ∈ blocks, e₀.currentHeight < b.header.height ∧ e.currentHeight = b.header.height ∧
      e.lastFinalizedHash = b.header.hash P ∧ ∀ vs ∈ b.validatorSignatures, SignedBy P c b.header vs

theorem TipFrom.le {e₀ e : ConsensusEngine} {blocks : List Block} (h : TipFrom P c e₀ blocks e) :
    e₀.currentHeight ≤ e.currentHeight := by
  rcases h with ⟨hh, -⟩ | ⟨b, -, hlt, hh, -⟩
  · rw [hh]
    exact UInt64.le_refl _
  · rw [hh]
    exact UInt64.le_of_lt hlt

/-- **The tip after a run.** -/
theorem tip_of_run {e₀ : ConsensusEngine} (hc : e₀.currentCommittee = some c)
    (blocks : List Block) : TipFrom P c e₀ blocks (e₀.processIncomingBlocks P blocks) := by
  -- The committee stays with the tip in the invariant: signatures are checked under it.
  suffices h : (e₀.processIncomingBlocks P blocks).currentCommittee = some c ∧
      TipFrom P c e₀ blocks (e₀.processIncomingBlocks P blocks) from h.2
  refine Support.run_induction (fun e => e.currentCommittee = some c ∧ TipFrom P c e₀ blocks e)
    (· ∈ blocks) ?_ blocks e₀ (fun _ hb => hb) ⟨hc, .inl ⟨rfl, rfl⟩⟩
  rintro e b hb ⟨hce, htip⟩
  refine ⟨(process_currentCommittee e b).trans hce, ?_⟩
  rcases process_tip (P := P) e b with ⟨hh, ht⟩ | ⟨⟨hfits, -, hsigs⟩, hh, ht⟩
  · unfold TipFrom
    rw [hh, ht]
    exact htip
  · exact .inr ⟨b, hb, UInt64.lt_of_le_of_lt htip.le hfits.1, hh, ht, (hsigs c hce).2.2⟩

/-! ### Signatures stand for signing -/

def signers (b : Block) : Finset NodeId :=
  (b.validatorSignatures.map fun vs => vs.validator).toFinset

def memberIds (c : ValidatorCommittee) : Finset NodeId := (c.members.map fun m => m.nodeId).toFinset

/-- A committee of distinct members, at least two, all with signing keys. -/
structure WellFormed (c : ValidatorCommittee) : Prop where
  nodup : (c.members.map fun m => m.nodeId).Nodup
  keys : ∀ m ∈ c.members, m.signingPubkey ≠ []
  two : 2 ≤ c.members.length

variable {signed : NodeId → BlockHeader → Prop}

/-- Ed25519 is not forged: a delivered signature that verifies under a member's key was made by that
member, over a header with this hash. -/
def Unforgeable (P : Platform) (c : ValidatorCommittee) (signed : NodeId → BlockHeader → Prop)
    (blocks : List Block) : Prop :=
  ∀ b ∈ blocks, ∀ vs ∈ b.validatorSignatures, ∀ key, c.getSigningPubkey vs.validator = some key →
    verifySignature P key (b.header.hash P).bytes.bytes vs.signature = .ok () →
      ∃ header, signed vs.validator header ∧ header.hash P = b.header.hash P

/-- Two headers that were delivered or signed have different hashes. -/
def CollisionFree (P : Platform) (signed : NodeId → BlockHeader → Prop) (blocks : List Block) :
    Prop :=
  ∀ h h' : BlockHeader, ((∃ b ∈ blocks, b.header = h) ∨ ∃ m, signed m h) →
    ((∃ b ∈ blocks, b.header = h') ∨ ∃ m, signed m h') → h.hash P = h'.hash P → h = h'

/-- The member signs two different headers of one height. -/
def Equivocates (signed : NodeId → BlockHeader → Prop) (m : NodeId) : Prop :=
  ∃ h h' : BlockHeader, signed m h ∧ signed m h' ∧ h.height = h'.height ∧ h ≠ h'

theorem certified_of_signedBy {blocks : List Block} {b : Block} (hwf : WellFormed c)
    (hforge : Unforgeable P c signed blocks) (hhash : CollisionFree P signed blocks)
    (hb : b ∈ blocks) (hsigs : ∀ vs ∈ b.validatorSignatures, SignedBy P c b.header vs)
    (hquorum : c.finalityThreshold ≤ (signers b).card) :
    Certified (memberIds c) c.finalityThreshold signed b.header := by
  refine ⟨signers b, fun id hid => ?_, hquorum, fun id hid => ?_⟩
  · obtain ⟨vs, hvs, rfl⟩ := List.mem_map.mp (List.mem_toFinset.mp hid)
    obtain ⟨m, hm, he⟩ := (hsigs vs hvs).1
    exact List.mem_toFinset.mpr (List.mem_map.mpr ⟨m, hm, he⟩)
  · obtain ⟨vs, hvs, rfl⟩ := List.mem_map.mp (List.mem_toFinset.mp hid)
    obtain ⟨⟨m, hm, he⟩, hverify, -⟩ := hsigs vs hvs
    obtain ⟨key, hkey⟩ := ValidatorCommittee.exists_getSigningPubkey hwf.keys hm
    rw [he] at hkey
    obtain ⟨header, hsigned, heq⟩ := hforge b hb vs hvs key hkey (hverify key hkey)
    rwa [hhash header b.header (.inr ⟨_, hsigned⟩) (.inl ⟨b, hb, rfl⟩) heq] at hsigned

theorem card_memberIds (hwf : WellFormed c) : (memberIds c).card = c.members.length := by
  rw [memberIds, List.toFinset_card_of_nodup hwf.nodup, List.length_map]

/-- **Agreement.**  Two engines on one tip under one committee are fed blocks of their own, each
block with the signatures of `finality_threshold` different validators.  If fewer than
`2 * finality_threshold - |members|` members sign two headers of one height, engines that reach the
same height are on the same block. -/
theorem agreement (signed : NodeId → BlockHeader → Prop) (bad : Finset NodeId)
    {e₁ e₂ : ConsensusEngine} {blocks₁ blocks₂ : List Block} (hwf : WellFormed c)
    (hc₁ : e₁.currentCommittee = some c) (hc₂ : e₂.currentCommittee = some c)
    (hheight : e₁.currentHeight = e₂.currentHeight)
    (htip : e₁.lastFinalizedHash = e₂.lastFinalizedHash)
    (hforge : Unforgeable P c signed (blocks₁ ++ blocks₂))
    (hhash : CollisionFree P signed (blocks₁ ++ blocks₂))
    (hfew : bad.card + c.members.length < 2 * c.finalityThreshold)
    (hbad : ∀ m ∈ c.members, Equivocates signed m.nodeId → m.nodeId ∈ bad)
    (hquorum : ∀ b ∈ blocks₁ ++ blocks₂, c.finalityThreshold ≤ (signers b).card)
    (hsame : (e₁.processIncomingBlocks P blocks₁).currentHeight =
      (e₂.processIncomingBlocks P blocks₂).currentHeight) :
    (e₁.processIncomingBlocks P blocks₁).lastFinalizedHash =
      (e₂.processIncomingBlocks P blocks₂).lastFinalizedHash := by
  have h₁ := tip_of_run (P := P) hc₁ blocks₁
  have h₂ := tip_of_run (P := P) hc₂ blocks₂
  rcases h₁ with ⟨hh₁, ht₁⟩ | ⟨b₁, hb₁, hlt₁, hh₁, ht₁, hs₁⟩
  · rcases h₂ with ⟨hh₂, ht₂⟩ | ⟨b₂, hb₂, hlt₂, hh₂, ht₂, hs₂⟩
    · rw [ht₁, ht₂, htip]
    · -- One engine has not moved, the other has moved up.
      rw [← hh₂, ← hsame, hh₁, hheight] at hlt₂
      exact absurd hlt₂ (UInt64.lt_irrefl _)
  · rcases h₂ with ⟨hh₂, ht₂⟩ | ⟨b₂, hb₂, hlt₂, hh₂, ht₂, hs₂⟩
    · rw [← hh₁, hsame, hh₂, hheight] at hlt₁
      exact absurd hlt₁ (UInt64.lt_irrefl _)
    · -- Both are on blocks of one height, each with a quorum behind it.
      have hmem₁ := List.mem_append_left blocks₂ hb₁
      have hmem₂ := List.mem_append_right blocks₁ hb₂
      have hheaders : b₁.header.height = b₂.header.height := hh₁.symm.trans (hsame.trans hh₂)
      rw [← card_memberIds hwf] at hfew
      have heq : b₁.header = b₂.header :=
        eq_of_quorums hfew (fun id hid hnb hv₁ hv₂ => ?_)
          (certified_of_signedBy hwf hforge hhash hmem₁ hs₁ (hquorum b₁ hmem₁))
          (certified_of_signedBy hwf hforge hhash hmem₂ hs₂ (hquorum b₂ hmem₂))
      · rw [ht₁, ht₂, heq]
      · by_contra hne
        obtain ⟨m, hm, rfl⟩ := List.mem_map.mp (List.mem_toFinset.mp hid)
        exact hnb (hbad m hm ⟨_, _, hv₁, hv₂, hheaders, hne⟩)

/-! ### Runs -/

open Reference

def firstBlock (n : UInt8) (signatures : List UInt8) : Block :=
  signedBlock (headerAt 1 {} (node n)) [] signatures

def three : ValidatorCommittee := committeeOf [1, 2, 3] 2

theorem wellFormed_three : WellFormed three :=
  ⟨by decide, by decide, by decide⟩

/-- **One signature is enough to part.**  Two honest producers sign one header each and nobody signs
a second one; an engine that hears of the first and an engine that hears of the second are at the
same height on different blocks. -/
theorem one_signature_splits_tips :
    ∃ signed : NodeId → BlockHeader → Prop,
      Unforgeable reference three signed [firstBlock 1 [1], firstBlock 2 [2]] ∧
      CollisionFree reference signed [firstBlock 1 [1], firstBlock 2 [2]] ∧
      (∀ m, ¬ Equivocates signed m) ∧
      let e₁ := (engineOf 1 three).processIncomingBlocks reference [firstBlock 1 [1]]
      let e₂ := (engineOf 2 three).processIncomingBlocks reference [firstBlock 2 [2]]
      e₁.currentHeight = e₂.currentHeight ∧ e₁.lastFinalizedHash ≠ e₂.lastFinalizedHash := by
  let signed : NodeId → BlockHeader → Prop := fun m h =>
    (m = node 1 ∧ h = (firstBlock 1 [1]).header) ∨
      (m = node 2 ∧ h = (firstBlock 2 [2]).header)
  have hhash : (firstBlock 1 [1]).header.hash reference ≠
      (firstBlock 2 [2]).header.hash reference := by
    decide +kernel
  have known : ∀ h, ((∃ b ∈ [firstBlock 1 [1], firstBlock 2 [2]], b.header = h) ∨
      ∃ m, signed m h) → h = (firstBlock 1 [1]).header ∨ h = (firstBlock 2 [2]).header := by
    rintro h (⟨b, hb, rfl⟩ | ⟨m, hm⟩)
    · rcases List.mem_pair.mp hb with rfl | rfl
      · exact .inl rfl
      · exact .inr rfl
    · rcases hm with ⟨-, rfl⟩ | ⟨-, rfl⟩
      · exact .inl rfl
      · exact .inr rfl
  refine ⟨signed, ?_, ?_, ?_, by decide +kernel⟩
  · intro b hb vs hvs key _ _
    rcases List.mem_pair.mp hb with rfl | rfl
    · rw [List.mem_singleton.mp hvs]
      exact ⟨_, .inl ⟨rfl, rfl⟩, rfl⟩
    · rw [List.mem_singleton.mp hvs]
      exact ⟨_, .inr ⟨rfl, rfl⟩, rfl⟩
  · intro h h' hk hk' he
    rcases known h hk with rfl | rfl <;> rcases known h' hk' with rfl | rfl
    · rfl
    · exact absurd he hhash
    · exact absurd he.symm hhash
    · rfl
  · rintro m ⟨h, h', hm, hm', -, hne⟩
    rcases hm with ⟨rfl, rfl⟩ | ⟨rfl, rfl⟩ <;> rcases hm' with ⟨hn, rfl⟩ | ⟨hn, rfl⟩
    · exact hne rfl
    · exact absurd hn (by decide)
    · exact absurd hn (by decide)
    · exact hne rfl

/-- Two engines hear of one block with different quorums behind it. -/
theorem agreement_overlapping_quorums :
    let e₁ := (engineOf 1 three).processIncomingBlocks reference [firstBlock 1 [1, 2]]
    let e₂ := (engineOf 3 three).processIncomingBlocks reference [firstBlock 1 [2, 3]]
    e₁.currentHeight = 1 ∧ e₁.lastFinalizedHash = e₂.lastFinalizedHash := by
  let header := headerAt 1 {} (node 1)
  have hheaders : ∀ b ∈ [firstBlock 1 [1, 2]] ++ [firstBlock 1 [2, 3]], b.header = header := by
    intro b hb
    rcases List.mem_pair.mp hb with rfl | rfl <;> rfl
  -- the two runs are evaluated once, for all that is asked of them
  have hfacts :
      let e₁ := (engineOf 1 three).processIncomingBlocks reference [firstBlock 1 [1, 2]]
      let e₂ := (engineOf 3 three).processIncomingBlocks reference [firstBlock 1 [2, 3]]
      e₁.currentHeight = 1 ∧ e₁.currentHeight = e₂.currentHeight := by
    decide +kernel
  refine ⟨hfacts.1, agreement (fun _ h => h = header) ∅ wellFormed_three rfl rfl rfl rfl
    ?_ ?_ (by decide) ?_ (by decide +kernel) hfacts.2⟩
  · intro b hb vs _ key _ _
    exact ⟨header, rfl, by rw [hheaders b hb]⟩
  · have known : ∀ h, ((∃ b ∈ [firstBlock 1 [1, 2]] ++ [firstBlock 1 [2, 3]], b.header = h) ∨
        ∃ m : NodeId, h = header) → h = header := by
      rintro h (⟨b, hb, rfl⟩ | ⟨-, hm⟩)
      · exact hheaders b hb
      · exact hm
    intro h h' hk hk' _
    rw [known h hk, known h' hk']
  · rintro m - ⟨h, h', hm, hm', -, hne⟩
    exact absurd (hm.trans hm'.symm) hne

end Gratia.ConsensusEngine
