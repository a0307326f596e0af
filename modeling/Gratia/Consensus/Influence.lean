import Gratia.Consensus.Incoming

/-!
# Consensus — Influence

What a rejected block leaves behind.  `processIncomingBlock` notes the proposal of a block before it
checks the block's producer, signatures and transactions, and a noted proposal turns away every
other block of that producer at that height.
-/

namespace Gratia.ConsensusEngine

open Std Support

variable {P : Platform} {e e' : ConsensusEngine}

/-- What an observer sees of an engine along a sequence of blocks: every answer, with the height and
the tip after it. -/
def answers (P : Platform) (e : ConsensusEngine) (blocks : List Block) :
    List (Except GratiaError BlockProcessResult × UInt64 × BlockHash) :=
  trace (processIncomingBlock P) (fun e => (e.currentHeight, e.lastFinalizedHash)) e blocks

/-- The block leaves no trace: later blocks are answered as if it had not come. -/
def NoInfluence (P : Platform) (e : ConsensusEngine) (b : Block) : Prop :=
  ∀ later, answers P (e.processIncomingBlock P b).2 later = answers P e later

/-! ### Engines that answer alike -/

/-- The engines agree on the tip, the committee and the proposals above the tip. -/
structure SameView (e e' : ConsensusEngine) : Prop where
  height : e.currentHeight = e'.currentHeight
  tip : e.lastFinalizedHash = e'.lastFinalizedHash
  committee : e.currentCommittee = e'.currentCommittee
  seen : ∀ (h : UInt64) (producer : NodeId), e.currentHeight < h →
    e.seenProposals[(h, producer)]? = e'.seenProposals[(h, producer)]?

/-- Above the current height, a noted proposal is the only change; the notes that are dropped are
older than that. -/
theorem seen_recordProposal (header : BlockHeader) {h : UInt64} {producer : NodeId}
    (hlt : e.currentHeight < h) : (e.recordProposal P header).seenProposals[(h, producer)]? =
      if (header.height, header.producer) = (h, producer) then some (header.hash P)
      else e.seenProposals[(h, producer)]? := by
  have hinsert : (e.seenProposals.insert (header.height, header.producer)
      (header.hash P))[(h, producer)]? = if (header.height, header.producer) = (h, producer) then
        some (header.hash P) else e.seenProposals[(h, producer)]? := by
    by_cases hk : (header.height, header.producer) = (h, producer)
    · rw [← hk, getElem?_insert_self', if_pos rfl]
    · rw [getElem?_insert_ne _ _ hk, if_neg hk]
  rw [← hinsert]
  unfold recordProposal
  simp only
  by_cases hold : e.currentHeight > 100
  · -- Heights above the tip pass the cutoff, which lies below it.
    have hkept : e.currentHeight - 100 < h := by
      refine UInt64.lt_of_le_of_lt (UInt64.le_iff_toNat_le.mpr ?_) hlt
      rw [UInt64.toNat_sub_of_le _ _ (UInt64.le_of_lt hold)]
      exact Nat.sub_le _ _
    rw [if_pos hold, ExtTreeMap.getElem?_filter']
    cases (e.seenProposals.insert (header.height, header.producer)
      (header.hash P))[(h, producer)]? with
    | none => rfl
    | some hash => simp [Option.filter, hkept]
  · rw [if_neg hold]

namespace SameView

theorem fits_iff (h : SameView e e') {header : BlockHeader} : e.Fits header ↔ e'.Fits header := by
  unfold Fits
  rw [h.height, h.tip]

theorem conflicts_iff (h : SameView e e') {header : BlockHeader} (hf : e.Fits header) :
    e.Conflicts P header ↔ e'.Conflicts P header := by
  unfold Conflicts
  rw [h.seen header.height header.producer hf.1]

theorem recordProposal (h : SameView e e') (header : BlockHeader) :
    SameView (e.recordProposal P header) (e'.recordProposal P header) := by
  refine ⟨h.height, h.tip, h.committee, fun height producer hlt => ?_⟩
  rw [recordProposal_currentHeight] at hlt
  rw [seen_recordProposal header hlt, seen_recordProposal header (h.height ▸ hlt),
    h.seen height producer hlt]

theorem advanceTo (h : SameView e e') {b : Block} (hup : e.currentHeight < b.header.height) :
    SameView (e.advanceTo P b) (e'.advanceTo P b) :=
  ⟨rfl, rfl, h.committee,
    fun height producer hlt => h.seen height producer (UInt64.lt_trans hup hlt)⟩

theorem step (h : SameView e e') (b : Block) :
    (e.processIncomingBlock P b).1 = (e'.processIncomingBlock P b).1 ∧
      SameView (e.processIncomingBlock P b).2 (e'.processIncomingBlock P b).2 := by
  by_cases hf : e.Fits b.header
  · have hf' := h.fits_iff.mp hf
    by_cases hc : e.Conflicts P b.header
    · rw [process_of_conflict hf hc, process_of_conflict hf' ((h.conflicts_iff hf).mp hc)]
      exact ⟨rfl, h⟩
    · have hff : e'.isFastForward b.header = e.isFastForward b.header := by
        unfold isFastForward
        rw [h.height]
      rw [process_of_fits hf hc, process_of_fits hf' ((h.conflicts_iff hf).not.mp hc),
        ← h.committee, hff]
      cases checkBlock P e.currentCommittee (e.isFastForward b.header) b with
      | error err => exact ⟨rfl, h.recordProposal b.header⟩
      | ok u => exact ⟨rfl, (h.recordProposal b.header).advanceTo hf.1⟩
  · rw [process_of_not_fits hf, process_of_not_fits (h.fits_iff.not.mp hf)]
    refine ⟨?_, h⟩
    unfold turnedAway
    rw [h.height]

/-- **Engines with the same view answer every sequence of blocks alike.** -/
theorem trace_eq (h : SameView e e') (blocks : List Block) :
    answers P e blocks = answers P e' blocks := by
  -- The view is a bisimulation: it shows the same tip, and one block keeps it.
  refine trace_eq_of_bisim (R := SameView) ?_ ?_ blocks e e' h
  · intro s t hst
    rw [hst.height, hst.tip]
  · intro s t b hst
    exact hst.step b

end SameView

/-! ### Rejected blocks -/

/-- A proposal of the header's producer has been noted at its height. -/
def Noted (e : ConsensusEngine) (header : BlockHeader) : Prop :=
  ∃ prevHash, e.seenProposals[(header.height, header.producer)]? = some prevHash

variable {header : BlockHeader}

theorem checkBlock_unsigned_ne {committee : Option ValidatorCommittee} {ff : Bool} :
    checkBlock P committee ff ⟨header, [], [], []⟩ ≠ .error equivocation := by
  unfold checkBlock
  cases committee with
  | none => exact nofun
  | some c =>
    unfold checkProducer checkValidatorSignatures equivocation
    simp only
    split_ifs <;> simp

theorem sameView_recordProposal (hnoted : e.Noted header) (hc : ¬ e.Conflicts P header) :
    SameView (e.recordProposal P header) e := by
  refine ⟨rfl, rfl, rfl, fun h producer hlt => ?_⟩
  rw [recordProposal_currentHeight] at hlt
  rw [seen_recordProposal header hlt]
  split
  · next hk =>
      obtain ⟨prevHash, hprev⟩ := hnoted
      obtain ⟨rfl, rfl⟩ := Prod.mk.inj hk
      have heq : prevHash = header.hash P := by
        by_contra hne
        exact hc ⟨prevHash, hprev, hne⟩
      rw [hprev, heq]
  · rfl

theorem unsigned_ne_equivocation (hf : e.Fits header) (hc : ¬ e.Conflicts P header) :
    (e.processIncomingBlock P ⟨header, [], [], []⟩).1 ≠ .error equivocation := by
  rw [process_of_fits hf hc]
  intro h
  cases hb : checkBlock P e.currentCommittee (e.isFastForward header) ⟨header, [], [], []⟩ with
  | error err =>
    rw [hb] at h
    exact checkBlock_unsigned_ne (hb.trans (congrArg Except.error (Except.error.inj h)))
  | ok u =>
    rw [hb] at h
    exact nomatch h

/-- A rejected block whose proposal is the first of its producer at its height has influence on
every other proposal of that producer. -/
theorem influences_of_fresh {b : Block} (hrej : (e.processIncomingBlock P b).1 ≠ .ok .accepted)
    (hfits : e.Fits b.header) (hfresh : ¬ e.Noted b.header)
    (hheight : header.height = b.header.height) (hparent : header.parentHash = b.header.parentHash)
    (hproducer : header.producer = b.header.producer) (hne : header.hash P ≠ b.header.hash P) :
    ¬ NoInfluence P e b := by
  intro hno
  have hnc : ¬ e.Conflicts P b.header := fun ⟨prevHash, h, _⟩ => hfresh ⟨prevHash, h⟩
  have hfits' : e.Fits header := by
    unfold Fits at hfits ⊢
    rwa [hheight, hparent]
  have hnc' : ¬ e.Conflicts P header := by
    rintro ⟨prevHash, h, -⟩
    rw [hheight, hproducer] at h
    exact hfresh ⟨prevHash, h⟩
  -- The other header, unsigned, comes next: it is told apart by the note of the first.
  have hconf : (e.recordProposal P b.header).Conflicts P header := by
    refine ⟨b.header.hash P, ?_, hne.symm⟩
    rw [seen_recordProposal b.header hfits'.1, if_pos (by rw [hheight, hproducer])]
  have hans := hno [⟨header, [], [], []⟩]
  rw [process_of_refused hrej hfits hnc] at hans
  have hhead := (Prod.mk.inj (List.cons.inj hans).1).1
  have hfits'' : (e.recordProposal P b.header).Fits header := hfits'
  rw [process_of_conflict hfits'' hconf] at hhead
  exact unsigned_ne_equivocation hfits' hnc' hhead.symm

/-- **When a rejected block has no influence.**  Asked is only that the rejected header is not the
one header with its hash among those of its height, parent and producer. -/
theorem noInfluence_iff {b : Block} (hrej : (e.processIncomingBlock P b).1 ≠ .ok .accepted)
    (hother : ∃ header : BlockHeader, header.height = b.header.height ∧
      header.parentHash = b.header.parentHash ∧ header.producer = b.header.producer ∧
      header.hash P ≠ b.header.hash P) :
    NoInfluence P e b ↔ ¬ e.Fits b.header ∨ e.Noted b.header := by
  constructor
  · intro hno
    by_contra hcon
    obtain ⟨hfits, hfresh⟩ := not_or.mp hcon
    obtain ⟨header, hheight, hparent, hproducer, hne⟩ := hother
    exact influences_of_fresh hrej (not_not.mp hfits) hfresh hheight hparent hproducer hne hno
  · intro hcases later
    rcases process_of_rejected hrej with hsame | ⟨hfits, hnc, hafter⟩
    · rw [hsame]
    · rw [hafter]
      rcases hcases with hnf | hnoted
      · exact absurd hfits hnf
      · exact (sameView_recordProposal hnoted hnc).trace_eq later

/-! ### Shut out by an unsigned block -/

open Reference

def listener : ConsensusEngine := engineOf 3 (committeeOf [1, 2] 2)

def genuineBlock : Block :=
  signedBlock (headerAt 1 {} (node 1)) [] [1, 2]

/-- Anybody's block in that producer's name, a second later and without a signature. -/
def unsignedBlock : Block :=
  signedBlock
    { headerAt 1 {} (node 1) with timestamp := ⟨1, 0⟩ } [] []

/-- **An unsigned block shuts out the genuine one.** -/
theorem unsigned_block_shuts_out_genuine :
    (listener.processIncomingBlock reference unsignedBlock).1 =
        .error (.insufficientSignatures 0 1) ∧
      (listener.processIncomingBlock reference genuineBlock).1 = .ok .accepted ∧
      ((listener.processIncomingBlock reference unsignedBlock).2.processIncomingBlock reference
        genuineBlock).1 = .error equivocation := by
  decide +kernel

/-- The unsigned block has influence, and a block the node is past of has none. -/
theorem noInfluence_iff_unsigned : ¬ NoInfluence reference listener unsignedBlock ∧
    NoInfluence reference listener { unsignedBlock with header.height := 0 } := by
  constructor
  · have hrej : (listener.processIncomingBlock reference unsignedBlock).1 ≠ .ok .accepted := by
      decide +kernel
    have hiff := noInfluence_iff hrej
      ⟨genuineBlock.header, by decide, by decide, by decide, by decide +kernel⟩
    rw [hiff]
    rintro (h | ⟨prevHash, h⟩)
    · exact h (by decide)
    · exact absurd h (by simp [listener, engineOf, new])
  · have hrej : (listener.processIncomingBlock reference
        { unsignedBlock with header.height := 0 }).1 ≠ .ok .accepted := by
      decide +kernel
    have hiff := noInfluence_iff hrej
      ⟨{ genuineBlock.header with height := 0 }, by decide, by decide, by decide, by decide +kernel⟩
    exact hiff.mpr (.inl (by decide))

end Gratia.ConsensusEngine
