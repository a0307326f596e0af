import Gratia.Consensus.Influence

/-!
# Consensus — Restart

What an engine that was rolled back remembers.  `rollbackTo` resets the tip, the pending block and
the recent hashes; the proposals that were noted stay, and a note above the new tip turns away the
blocks of its producer on the adopted fork.
-/

namespace Gratia.ConsensusEngine

open Reference (headerAt)

variable {P : Platform} {e e' : ConsensusEngine}

def restarted (P : Platform) (nodeId : NodeId) (signingKeyBytes : Bytes32)
    (committee : Option ValidatorCommittee) (height : UInt64) (tipHash : BlockHash) :
    ConsensusEngine :=
  { new P nodeId signingKeyBytes with currentCommittee := committee }.restoreState height tipHash

def NotedUpTo (e : ConsensusEngine) (height : UInt64) : Prop :=
  ∀ (h : UInt64) (producer : NodeId), height < h → e.seenProposals[(h, producer)]? = none

def CanSign (P : Platform) (c : ValidatorCommittee) : Prop :=
  ∀ header : BlockHeader, ∃ vs, SignedBy P c header vs

/-- Every header has another of its height, parent and producer with a different hash. -/
def HashTells (P : Platform) : Prop :=
  ∀ header : BlockHeader, ∃ header' : BlockHeader, header'.height = header.height ∧
    header'.parentHash = header.parentHash ∧ header'.producer = header.producer ∧
    header'.hash P ≠ header.hash P

theorem rollbackTo_ok {height : UInt64} {tipHash : BlockHash}
    (h : e.rollbackTo height tipHash = (.ok (), e')) :
    e'.currentHeight = height ∧ e'.lastFinalizedHash = tipHash ∧
      e'.currentCommittee = e.currentCommittee ∧ e'.seenProposals = e.seenProposals := by
  unfold rollbackTo at h
  split at h
  · cases h
  · cases h
    exact ⟨rfl, rfl, rfl, rfl⟩

/-! ### Blocks up to a note -/

/-- There is a block that every engine on the tip of `e`, under its committee and without a note at
the next height, accepts next. -/
theorem exists_next (hsign : ∀ c ∈ e.currentCommittee, CanSign P c)
    (hmax : e.currentHeight < e.currentHeight + 1) :
    ∃ b : Block, b.header.height = e.currentHeight + 1 ∧ ∀ e' : ConsensusEngine,
      e'.currentHeight = e.currentHeight → e'.lastFinalizedHash = e.lastFinalizedHash →
      e'.currentCommittee = e.currentCommittee →
      (∀ producer : NodeId, e'.seenProposals[(e.currentHeight + 1, producer)]? = none) →
      (e'.processIncomingBlock P b).1 = .ok .accepted := by
  obtain ⟨b, hheight, hparent, htxs, hb⟩ : ∃ b : Block, b.header.height = e.currentHeight + 1 ∧
      b.header.parentHash = e.lastFinalizedHash ∧ b.transactions = [] ∧
      ∀ c, e.currentCommittee = some c → MayPropose c false b.header.producer ∧
        b.validatorSignatures ≠ [] ∧ ∀ vs ∈ b.validatorSignatures, SignedBy P c b.header vs := by
    cases hc : e.currentCommittee with
    | none =>
      exact ⟨⟨headerAt (e.currentHeight + 1) e.lastFinalizedHash ⟨.zero⟩, [], [], []⟩,
        rfl, rfl, rfl, nofun⟩
    | some c =>
      -- Any signature names a member; that member proposes the block.
      obtain ⟨vs₀, ⟨m, hm, -⟩, -⟩ := hsign c hc
        (headerAt (e.currentHeight + 1) e.lastFinalizedHash ⟨.zero⟩)
      let header := headerAt (e.currentHeight + 1) e.lastFinalizedHash m.nodeId
      obtain ⟨vs, hvs⟩ := hsign c hc header
      refine ⟨⟨header, [], [], [vs]⟩, rfl, rfl, rfl, fun c' hc' => ?_⟩
      obtain rfl : c = c' := Option.some.inj hc'
      refine ⟨⟨m, hm, rfl, nofun⟩, List.cons_ne_nil vs [], fun vs' hvs' => ?_⟩
      rwa [List.mem_singleton.mp hvs']
  refine ⟨b, hheight, fun e' hheight' htip' hcommittee' hnote => ?_⟩
  have hff : e'.isFastForward b.header = false := by
    unfold isFastForward
    rw [hheight, hheight']
    exact decide_eq_false (UInt64.lt_irrefl _)
  refine accepted_iff.mpr ⟨⟨⟨?_, .inl ⟨?_, ?_⟩⟩, ?_, fun c hc => ?_⟩, ?_⟩
  · rw [hheight, hheight']
    exact hmax
  · rw [hheight, hheight']
  · rw [hparent, htip']
  · rintro ⟨prevHash, hprev, -⟩
    rw [hheight, hnote] at hprev
    cases hprev
  · rw [hff]
    exact hb c (hcommittee' ▸ hc)
  · rw [htxs]
    exact fun tx htx => absurd htx List.not_mem_nil

theorem next_height {h k : UInt64} {n : ℕ} (hk : k.toNat = h.toNat + n + 1) :
    (h + 1).toNat = h.toNat + 1 := by
  have := k.toNat_lt
  rw [UInt64.toNat_add]
  simp only [UInt64.reduceToNat]
  omega

/-- Two engines on one tip under one committee; the first has a note at height `k` and none between,
the second none at all. -/
structure NoteAhead (e e' : ConsensusEngine) (k : UInt64) (producer : NodeId)
    (prevHash : BlockHash) : Prop where
  height : e'.currentHeight = e.currentHeight
  tip : e'.lastFinalizedHash = e.lastFinalizedHash
  committee : e'.currentCommittee = e.currentCommittee
  note : e.seenProposals[(k, producer)]? = some prevHash
  below : ∀ (h : UInt64) (q : NodeId), e.currentHeight < h → h < k → e.seenProposals[(h, q)]? = none
  clean : e'.NotedUpTo e'.currentHeight

theorem seen_advanceTo {b : Block} {h : UInt64} (q : NodeId)
    (hup : e.currentHeight < b.header.height) (hlt : b.header.height < h) :
    ((e.recordProposal P b.header).advanceTo P b).seenProposals[(h, q)]? =
      e.seenProposals[(h, q)]? := by
  have hne : (b.header.height, b.header.producer) ≠ (h, q) := fun heq =>
    UInt64.ne_of_lt hlt (Prod.mk.inj heq).1
  show (e.recordProposal P b.header).seenProposals[(h, q)]? = _
  rw [seen_recordProposal _ (UInt64.lt_trans hup hlt), if_neg hne]

variable {k : UInt64} {producer : NodeId} {prevHash : BlockHash}

theorem NoteAhead.advance (h : NoteAhead e e' k producer prevHash) {b : Block}
    (hup : e.currentHeight < b.header.height) (hk : b.header.height < k) :
    NoteAhead ((e.recordProposal P b.header).advanceTo P b)
      ((e'.recordProposal P b.header).advanceTo P b) k producer prevHash where
  height := rfl
  tip := rfl
  committee := h.committee
  note := by
    rw [seen_advanceTo producer hup hk]
    exact h.note
  below height q hlt hltk := by
    rw [seen_advanceTo q hup hlt]
    exact h.below height q (UInt64.lt_trans hup hlt) hltk
  clean height q hlt := by
    have hup' : e'.currentHeight < b.header.height := h.height ▸ hup
    rw [seen_advanceTo q hup' hlt]
    exact h.clean height q (UInt64.lt_trans hup' hlt)

/-- At the note the engines part: a header that is not the noted one is turned away by the first
alone. -/
theorem NoteAhead.parts (h : NoteAhead e e' k producer prevHash) (htells : HashTells P)
    (hmax : e.currentHeight < k) (hk : k = e.currentHeight + 1) :
    ∃ blocks, answers P e blocks ≠ answers P e' blocks := by
  obtain ⟨header, rfl, hparent, rfl, hne⟩ : ∃ header : BlockHeader, header.height = k ∧
      header.parentHash = e.lastFinalizedHash ∧ header.producer = producer ∧
      prevHash ≠ header.hash P := by
    let header := headerAt k e.lastFinalizedHash producer
    by_cases hhash : prevHash = header.hash P
    · obtain ⟨header', hh, hp, hq, hne⟩ := htells header
      exact ⟨header', hh, hp, hq, fun heq => hne (heq.symm.trans hhash)⟩
    · exact ⟨header, rfl, rfl, rfl, hhash⟩
  have hfits : e.Fits header := ⟨hmax, .inl ⟨hk, hparent⟩⟩
  have hfits' : e'.Fits header := by
    unfold Fits
    rw [h.height, h.tip]
    exact hfits
  have hfree : ¬ e'.Conflicts P header := by
    rintro ⟨prev, hprev, -⟩
    rw [h.clean header.height header.producer (h.height ▸ hmax)] at hprev
    cases hprev
  refine ⟨[⟨header, [], [], []⟩], fun hans => ?_⟩
  have hhead := (Prod.mk.inj (List.cons.inj hans).1).1
  rw [process_of_conflict hfits ⟨prevHash, h.note, hne⟩] at hhead
  exact unsigned_ne_equivocation hfits' hfree hhead.symm

/-- **A note above the tip is found out**, by blocks up to it and another one there. -/
theorem NoteAhead.told_apart (htells : HashTells P) (n : ℕ)
    (hsign : ∀ c ∈ e.currentCommittee, CanSign P c)
    (hk : k.toNat = e.currentHeight.toNat + n + 1) (h : NoteAhead e e' k producer prevHash) :
    ∃ blocks, answers P e blocks ≠ answers P e' blocks := by
  induction n generalizing e e' with
  | zero =>
    have hnext := next_height (n := 0) hk
    refine h.parts htells ?_ (UInt64.toNat_inj.mp (by omega))
    rw [UInt64.lt_iff_toNat_lt]
    omega
  | succ n ih =>
    have hnext := next_height hk
    have hmax : e.currentHeight < e.currentHeight + 1 := by
      rw [UInt64.lt_iff_toNat_lt]
      omega
    have hltk : e.currentHeight + 1 < k := by
      rw [UInt64.lt_iff_toNat_lt]
      omega
    obtain ⟨b, hb, haccepts⟩ := exists_next hsign hmax
    have hacc := haccepts e rfl rfl rfl fun q => h.below _ q hmax hltk
    have hacc' := haccepts e' h.height h.tip h.committee
      fun q => h.clean _ q (h.height ▸ hmax)
    have hadvance := h.advance (P := P) (hb ▸ hmax) (hb ▸ hltk)
    have hrest : k.toNat = b.header.height.toNat + n + 1 := by
      rw [hb]
      omega
    obtain ⟨blocks, hblocks⟩ :=
      ih (e := (e.recordProposal P b.header).advanceTo P b) hsign hrest hadvance
    refine ⟨b :: blocks, fun hans => hblocks ?_⟩
    have htail := (List.cons.inj hans).2
    rwa [process_of_accepted hacc, process_of_accepted hacc'] at htail

/-! ### Rolling back -/

theorem exists_lowest_note {height : UInt64} (h : ¬ e.NotedUpTo height) :
    ∃ (k : UInt64) (producer : NodeId) (prevHash : BlockHash), height < k ∧
      e.seenProposals[(k, producer)]? = some prevHash ∧
      ∀ (h : UInt64) (q : NodeId), height < h → h < k → e.seenProposals[(h, q)]? = none := by
  classical
  have hex : ∃ n : ℕ, ∃ (k : UInt64) (producer : NodeId), k.toNat = n ∧ height < k ∧
      e.seenProposals[(k, producer)]? ≠ none := by
    simp only [NotedUpTo, not_forall] at h
    obtain ⟨k, producer, hlt, hnote⟩ := h
    exact ⟨k.toNat, k, producer, rfl, hlt, hnote⟩
  obtain ⟨k, producer, hk, hlt, hnote⟩ := Nat.find_spec hex
  obtain ⟨prevHash, hprev⟩ := Option.ne_none_iff_exists'.mp hnote
  refine ⟨k, producer, prevHash, hlt, hprev, fun h q hh hhk => ?_⟩
  by_contra hne
  have hmin := Nat.find_min' hex ⟨h, q, rfl, hh, hne⟩
  rw [← hk] at hmin
  exact absurd (UInt64.lt_iff_toNat_lt.mp hhk) (Nat.not_lt.mpr hmin)

/-- **When rollback gives a clean restart.**  The notes at or below the new tip do not matter.  If
there is none above it, the engine answers every sequence of blocks (results, heights and tips) like
a new one with the same committee that was restored there.  If the committee can sign and the hash
tells headers apart, then this is so only if there is none above it. -/
theorem rollback_restarts {height : UInt64} {tipHash : BlockHash}
    (hroll : e.rollbackTo height tipHash = (.ok (), e')) (nodeId : NodeId)
    (signingKeyBytes : Bytes32) :
    (e.NotedUpTo height → ∀ blocks, answers P e' blocks =
      answers P (restarted P nodeId signingKeyBytes e.currentCommittee height tipHash) blocks) ∧
    ((∀ c ∈ e.currentCommittee, CanSign P c) → HashTells P →
      (∀ blocks, answers P e' blocks =
        answers P (restarted P nodeId signingKeyBytes e.currentCommittee height tipHash) blocks) →
      e.NotedUpTo height) := by
  obtain ⟨hheight, htip, hcommittee, hseen⟩ := rollbackTo_ok hroll
  constructor
  · intro hnoted blocks
    have hview : SameView e'
        (restarted P nodeId signingKeyBytes e.currentCommittee height tipHash) := by
      refine ⟨hheight, htip, hcommittee, fun h producer hlt => ?_⟩
      rw [hseen, hnoted h producer (hheight ▸ hlt)]
      rfl
    exact hview.trace_eq blocks
  · intro hsign htells hanswers
    by_contra hnoted
    obtain ⟨k, producer, prevHash, hlt, hprev, hbelow⟩ := exists_lowest_note hnoted
    have hahead : NoteAhead e' (restarted P nodeId signingKeyBytes e.currentCommittee height tipHash)
        k producer prevHash :=
      { height := hheight.symm
        tip := htip.symm
        committee := hcommittee.symm
        note := hseen ▸ hprev
        below := fun h q hh hhk => hseen ▸ hbelow h q (hheight ▸ hh) hhk
        clean := fun _ _ _ => rfl }
    have hk : k.toNat = e'.currentHeight.toNat + (k.toNat - height.toNat - 1) + 1 := by
      have := UInt64.lt_iff_toNat_lt.mp hlt
      rw [hheight]
      omega
    obtain ⟨blocks, hne⟩ := hahead.told_apart htells _ (hcommittee.symm ▸ hsign) hk
    exact hne (hanswers blocks)

/-! ### Rolled back from a fork -/

/-- The listener has accepted, and noted, a block at height 1, and was then restored at height 3. -/
def noted : ConsensusEngine :=
  (listener.processIncomingBlock reference genuineBlock).2.restoreState 3 {}

theorem noted_upTo_one : noted.NotedUpTo 1 := by
  intro h producer hlt
  have hacc : (listener.processIncomingBlock reference genuineBlock).1 = .ok .accepted := by
    decide +kernel
  unfold noted
  rw [process_of_accepted hacc]
  exact seen_advanceTo producer (by decide) hlt

open Reference

/-- It is rolled back to the block it has noted. -/
theorem rollback_restarts_noted :
    let tipHash := genuineBlock.header.hash reference
    noted.seenProposals[((1, node 1) : UInt64 × NodeId)]? = some tipHash ∧
      ∀ blocks, answers reference (noted.rollbackTo 1 tipHash).2 blocks =
        answers reference (restarted reference (node 3) (.splat 3) noted.currentCommittee 1
          tipHash) blocks := by
  intro tipHash
  have hroll : (noted.rollbackTo 1 tipHash).1 = .ok () := by decide +kernel
  have hresult : noted.rollbackTo 1 tipHash = (.ok (), (noted.rollbackTo 1 tipHash).2) := by
    rw [← hroll]
  exact ⟨by decide +kernel, (rollback_restarts hresult _ _).1 noted_upTo_one⟩

def adoptedBlock : Block :=
  signedBlock
    { headerAt 1 {} (node 1) with timestamp := ⟨1, 0⟩ } [] [1, 2]

/-- The listener accepts the block of one fork and is rolled back to genesis to adopt the other.  It
refuses the block it should adopt, which a new engine accepts. -/
theorem rollback_remembers_fork :
    let e := (listener.processIncomingBlock reference genuineBlock).2
    (e.rollbackTo 0 {}).1 = .ok () ∧
      (answers reference (e.rollbackTo 0 {}).2 [adoptedBlock]).map Prod.fst =
        [.error equivocation] ∧
      (answers reference (restarted reference (node 3) (.splat 3) e.currentCommittee 0 {})
        [adoptedBlock]).map Prod.fst = [.ok .accepted] := by
  decide +kernel

end Gratia.ConsensusEngine
