import Gratia.Consensus.StreamletFinality

/-!
# Consensus — Streamlet epochs

Whether a validator is counted for two blocks of one epoch.  `add_vote` compares the block of a vote
with the one noted for the epoch the *vote* names; that epoch is the sender's, and need not be the
one of the block.
-/

namespace Gratia

open Support Std

namespace StreamletState

variable {s : StreamletState} {vote : StreamletVote} {hash : Bytes32} {p : ProposedBlock}

/-! ### Proposals after a vote -/

theorem Filed.getElem?_addVote (hs : Filed s) :
    (s.addVote vote).2.proposedBlocks[hash]? = some p ↔
      (s.tally vote).2.proposedBlocks[hash]? = some p ∧
        ¬ ((s.tally vote).1 = true ∧ ∃ k, (s.tally vote).2.FirstRow k ∧ p.header.height ≤ k) := by
  rw [addVote_eq]
  split
  · next hjust =>
      simp only [hjust, true_and]
      exact (hs.tally vote).getElem?_checkFinality
  · next hjust => simp [hjust]

/-! ### One block per epoch -/

/-- A validator is counted for at most one of the stored blocks of an epoch. -/
def OneBlockPerEpoch (s : StreamletState) : Prop :=
  ∀ (hash hash' : Bytes32) (p p' : ProposedBlock), s.proposedBlocks[hash]? = some p →
    s.proposedBlocks[hash']? = some p' → p.epoch = p'.epoch →
    ∀ validator ∈ p.voters, validator ∈ p'.voters → hash = hash'

/-- The call is not a vote that is counted for a second block of an epoch, unless the vote makes a
block final and with it drops one of the two. -/
def NoSecondBlock (s : StreamletState) : StreamletCall → Prop
  | .addVote vote => s.equivocates vote = false → ∀ (hash : Bytes32) (p q : ProposedBlock),
      s.proposedBlocks[vote.blockHash]? = some p → s.proposedBlocks[hash]? = some q →
      p.epoch = q.epoch → vote.signature.validator ∈ q.voters → vote.blockHash ≠ hash →
      (s.tally vote).1 = true ∧ ∃ k, (s.tally vote).2.FirstRow k ∧
        (p.header.height ≤ k ∨ q.header.height ≤ k)
  | _ => True

theorem oneBlockPerEpoch_new (nodeId : NodeId) (committeeSize : ℕ) :
    OneBlockPerEpoch (new nodeId committeeSize) := by
  intro hash hash' p p' hp
  simp [new] at hp

theorem OneBlockPerEpoch.mono {t : StreamletState} (hs : OneBlockPerEpoch s)
    (hsub : ∀ (hash : Bytes32) p, t.proposedBlocks[hash]? = some p →
      s.proposedBlocks[hash]? = some p) : OneBlockPerEpoch t :=
  fun hash hash' p p' hp hp' => hs hash hash' p p' (hsub hash p hp) (hsub hash' p' hp')

theorem stored_of_voted {header : BlockHeader} {blockHash : Bytes32} {epoch : UInt64}
    (hp : (s.addProposal header blockHash epoch).2.proposedBlocks[hash]? = some p)
    {validator : NodeId} (hv : validator ∈ p.voters) : s.proposedBlocks[hash]? = some p := by
  rcases stored_of_addProposal hp with hp | ⟨-, rfl⟩
  · exact hp
  · exact absurd hv List.not_mem_nil

theorem noSecondBlock_of_oneBlockPerEpoch (hfiled : Filed s)
    (hafter : OneBlockPerEpoch (s.addVote vote).2) : s.NoSecondBlock (.addVote vote) := by
  intro hcounted hash p q hp hq he hv hne
  by_contra hkept
  -- both blocks are still there, and the validator is counted for both
  have hp' : (s.addVote vote).2.proposedBlocks[vote.blockHash]? =
      some (p.addVote vote s.committeeSize).2 := by
    rw [hfiled.getElem?_addVote, getElem?_tally, hp]
    refine ⟨by simp [hcounted], ?_⟩
    rw [ProposedBlock.addVote_header]
    exact fun ⟨hjust, k, hk, hle⟩ => hkept ⟨hjust, k, hk, .inl hle⟩
  have hq' : (s.addVote vote).2.proposedBlocks[hash]? = some q := by
    rw [hfiled.getElem?_addVote, getElem?_tally, hq]
    refine ⟨by simp [Ne.symm hne], ?_⟩
    exact fun ⟨hjust, k, hk, hle⟩ => hkept ⟨hjust, k, hk, .inr hle⟩
  refine hne (hafter _ _ _ _ hp' hq' ?_ _ (ProposedBlock.mem_voters_addVote.mpr (.inl rfl)) hv)
  rw [ProposedBlock.addVote_epoch, he]

/-- A vote that is not counted for a second block keeps it so. -/
theorem OneBlockPerEpoch.addVote (hfiled : Filed s) (hs : OneBlockPerEpoch s)
    (hsecond : s.NoSecondBlock (.addVote vote)) : OneBlockPerEpoch (s.addVote vote).2 := by
  intro hash hash' p p' hp hp' he v hv hv'
  obtain ⟨hp, hkept⟩ := hfiled.getElem?_addVote.mp hp
  obtain ⟨hp', hkept'⟩ := hfiled.getElem?_addVote.mp hp'
  obtain ⟨q, hq, hheader, hepoch, hvoters⟩ := stored_of_tally hp
  obtain ⟨q', hq', hheader', hepoch', hvoters'⟩ := stored_of_tally hp'
  rw [hepoch, hepoch'] at he
  have hboth : ∀ k, (s.tally vote).1 = true → (s.tally vote).2.FirstRow k →
      ¬ (q.header.height ≤ k ∨ q'.header.height ≤ k) := by
    rintro k hjust hk (hle | hle)
    · exact hkept ⟨hjust, k, hk, hheader ▸ hle⟩
    · exact hkept' ⟨hjust, k, hk, hheader' ▸ hle⟩
  by_contra hne
  -- the validator was counted for both before, or the vote is its second
  rcases hvoters v hv with hv | ⟨rfl, hcounted, rfl⟩
  · rcases hvoters' v hv' with hv' | ⟨rfl, hcounted, rfl⟩
    · exact hne (hs hash hash' q q' hq hq' he v hv hv')
    · obtain ⟨hjust, k, hk, hle⟩ := hsecond hcounted hash q' q hq' hq he.symm hv (Ne.symm hne)
      exact hboth k hjust hk hle.symm
  · rcases hvoters' _ hv' with hv' | ⟨rfl, -, -⟩
    · obtain ⟨hjust, k, hk, hle⟩ := hsecond hcounted hash' q q' hq hq' he hv' hne
      exact hboth k hjust hk hle
    · exact hne rfl

theorem OneBlockPerEpoch.call_iff (hfiled : Filed s) (hs : OneBlockPerEpoch s) (c : StreamletCall) :
    OneBlockPerEpoch (s.call c).2 ↔ s.NoSecondBlock c := by
  cases c with
  | addProposal header blockHash epoch =>
    refine iff_of_true (fun hash hash' p p' hp hp' he v hv hv' => ?_) trivial
    exact hs hash hash' p p' (stored_of_voted hp hv) (stored_of_voted hp' hv') he v hv hv'
  | shouldVote blockHash epoch => exact iff_of_true hs trivial
  | recordVote epoch blockHash => exact iff_of_true (hs.mono fun _ _ hp => hp) trivial
  | addVote vote => exact ⟨noSecondBlock_of_oneBlockPerEpoch hfiled, hs.addVote hfiled⟩
  | restore finalizedHeight finalizedHash =>
    exact iff_of_true (hs.mono fun _ _ hp => hp) trivial
  | clearPending =>
    exact iff_of_true (hs.mono fun _ _ hp => pruneBelow_proposedBlocks hp) trivial

theorem oneBlockPerEpoch_run_iff (hfiled : Filed s) (hs : OneBlockPerEpoch s)
    (calls : List StreamletCall) :
    (∀ before, before <+: calls → OneBlockPerEpoch (s.run before)) ↔
      AllSteps call NoSecondBlock s calls := by
  induction calls generalizing s with
  | nil =>
    refine iff_of_true (fun before hb => ?_) trivial
    rw [List.prefix_nil.mp hb]
    exact hs
  | cons c calls ih =>
    constructor
    · intro hall
      have hnext : OneBlockPerEpoch (s.call c).2 := hall [c] ⟨calls, rfl⟩
      refine ⟨(hs.call_iff hfiled c).mp hnext, (ih (hfiled.call c) hnext).mp fun before hb => ?_⟩
      exact hall (c :: before) (List.cons_prefix_cons.mpr ⟨rfl, hb⟩)
    · rintro ⟨hc, hrest⟩ before hb
      have hnext := (hs.call_iff hfiled c).mpr hc
      cases before with
      | nil => exact hs
      | cons a before =>
        obtain ⟨rfl, hrestb⟩ := List.cons_prefix_cons.mp hb
        exact (ih (hfiled.call a) hnext).mpr hrest before hrestb

/-! ### Votes with the epoch of their block -/

/-- A vote for a stored block names the epoch of the block. -/
def TrueEpoch (s : StreamletState) : StreamletCall → Prop
  | .addVote vote => ∀ p ∈ s.proposedBlocks[vote.blockHash]?, vote.epoch = p.epoch
  | _ => True

instance (s : StreamletState) : ∀ c, Decidable (s.TrueEpoch c)
  | .addVote _ => inferInstanceAs (Decidable (∀ p ∈ _, _ = _))
  | .addProposal .. | .shouldVote .. | .recordVote .. | .restore .. | .clearPending => .isTrue trivial

/-- The epochs of the notes are epochs of the votes, and there is a note of every counted vote. -/
structure Noted (epochs : List UInt64) (s : StreamletState) : Prop where
  epochs : ∀ key ∈ s.remoteVotes, key.1 ∈ epochs
  counted : ∀ (hash : Bytes32) p, s.proposedBlocks[hash]? = some p → ∀ validator ∈ p.voters,
    s.remoteVotes[(p.epoch, validator)]? = some hash

variable {epochs : List UInt64}

theorem Noted.oneBlockPerEpoch (hs : Noted epochs s) : OneBlockPerEpoch s := by
  intro hash hash' p p' hp hp' he v hv hv'
  have hnote := hs.counted hash p hp v hv
  rw [he, hs.counted hash' p' hp' v hv'] at hnote
  exact (Option.some.inj hnote).symm

/-- No two of the epochs are more than a hundred apart. -/
def Close (epochs : List UInt64) : Prop :=
  ∀ e ∈ epochs, e.toNat + 100 < 2 ^ 64 ∧ ∀ e' ∈ epochs, e'.toNat ≤ e.toNat + 100

instance (epochs : List UInt64) : Decidable (Close epochs) :=
  decidable_of_iff
    ((epochs.all fun e => e.toNat + 100 < 2 ^ 64 && epochs.all fun e' => e'.toNat ≤ e.toNat + 100) =
      true)
    (by simp [Close])

theorem foldl_max_mem (a : UInt64) (epochs : List UInt64) :
    epochs.foldl max a = a ∨ epochs.foldl max a ∈ epochs := by
  induction epochs generalizing a with
  | nil => exact .inl rfl
  | cons e epochs ih =>
    have hmax : max a e = a ∨ max a e = e := by
      change (if a ≤ e then e else a) = a ∨ (if a ≤ e then e else a) = e
      split
      · exact .inr rfl
      · exact .inl rfl
    rw [List.foldl_cons]
    rcases ih (max a e) with h | h
    · rw [h]
      rcases hmax with hmax | hmax
      · exact .inl hmax
      · exact .inr (by rw [hmax]; exact List.mem_cons_self)
    · exact .inr (List.mem_cons_of_mem e h)

/-- Pruning forgets no note whose epoch is close to the others. -/
theorem Noted.pruneBelow (hclose : Close epochs) (hs : Noted epochs s) (height : UInt64) :
    Noted epochs (s.pruneBelow height) := by
  have hkept : (s.pruneBelow height).remoteVotes = s.remoteVotes := by
    refine ExtTreeMap.ext_getElem? fun key => ?_
    simp only [StreamletState.pruneBelow, ExtTreeMap.getElem?_filter']
    cases hk : s.remoteVotes[key]? with
    | none => rfl
    | some hash =>
      obtain ⟨hfits, hnear⟩ := hclose key.1 (hs.epochs key (mem_of_getElem? hk))
      refine Option.filter_eq_some_iff.mpr ⟨rfl, decide_eq_true ?_⟩
      have hmax : (maxEpoch (s.remoteVotes.keys.map Prod.fst)).toNat ≤ key.1.toNat + 100 := by
        rcases foldl_max_mem 0 (s.remoteVotes.keys.map Prod.fst) with h | h
        · rw [maxEpoch, h]
          exact Nat.zero_le _
        · obtain ⟨other, hother, he⟩ := List.mem_map.mp h
          rw [maxEpoch, ← he]
          exact hnear _ (hs.epochs other (ExtTreeMap.mem_keys.mp hother))
      rw [ge_iff_le, UInt64.le_iff_toNat_le, UInt64.toNat_add]
      exact hmax.trans (Nat.mod_eq_of_lt hfits).ge
  constructor
  · rw [hkept]
    exact hs.epochs
  · intro hash p hp
    rw [hkept]
    exact hs.counted hash p (pruneBelow_proposedBlocks hp)

theorem getElem?_noted (he : s.equivocates vote = false) {key : UInt64 × NodeId}
    (hk : s.remoteVotes[key]? = some hash) : (s.noted vote).remoteVotes[key]? = some hash := by
  unfold noted
  by_cases hkey : (vote.epoch, vote.signature.validator) = key
  · subst hkey
    have hsame : hash = vote.blockHash := by
      simpa [equivocates, hk] using he
    rw [getElem?_insert_self', hsame]
  · rwa [getElem?_insert_ne _ _ hkey]

theorem Noted.noted (hs : Noted epochs s) (hmem : vote.epoch ∈ epochs)
    (he : s.equivocates vote = false) : Noted epochs (s.noted vote) := by
  constructor
  · intro key hkey
    rcases mem_insert_iff.mp hkey with rfl | hkey
    · exact hmem
    · exact hs.epochs key hkey
  · intro hash p hp v hv
    exact getElem?_noted he (hs.counted hash p hp v hv)

theorem Noted.tally (hs : Noted epochs s) (hmem : vote.epoch ∈ epochs)
    (htrue : s.TrueEpoch (.addVote vote)) : Noted epochs (s.tally vote).2 := by
  cases he : s.equivocates vote with
  | true =>
    have hsame : s.tally vote = (false, s) := if_pos he
    rw [hsame]
    exact hs
  | false =>
    have hnoted := hs.noted hmem he
    constructor
    · rw [remoteVotes_tally he]
      exact hnoted.epochs
    · intro hash q hq v hv
      obtain ⟨p, hp, -, hepoch, hvoters⟩ := stored_of_tally hq
      rw [remoteVotes_tally he, hepoch]
      rcases hvoters v hv with hv | ⟨rfl, -, rfl⟩
      · exact hnoted.counted hash p hp v hv
      · -- the vote is noted under the epoch of its block
        rw [← htrue p hp]
        exact getElem?_insert_self' _ _ _

theorem Noted.addVote (hclose : Close epochs) (hs : Noted epochs s) (hmem : vote.epoch ∈ epochs)
    (htrue : s.TrueEpoch (.addVote vote)) : Noted epochs (s.addVote vote).2 := by
  have htally := hs.tally hmem htrue
  rcases s.addVote_cases vote with h | ⟨newFinalized, middleHash, -, -, h⟩
  · rwa [h]
  · rw [h]
    refine Noted.pruneBelow hclose ?_ newFinalized
    exact ⟨htally.epochs, htally.counted⟩

theorem Noted.addProposal (hs : Noted epochs s) (header : BlockHeader) (blockHash : Bytes32)
    (epoch : UInt64) : Noted epochs (s.addProposal header blockHash epoch).2 := by
  obtain ⟨-, -, -, hnotes⟩ := s.addProposal_frame header blockHash epoch
  constructor
  · rw [hnotes]
    exact hs.epochs
  · intro hash p hp v hv
    rw [hnotes]
    exact hs.counted hash p (stored_of_voted hp hv) v hv

theorem noted_new (epochs : List UInt64) (nodeId : NodeId) (committeeSize : ℕ) :
    Noted epochs (new nodeId committeeSize) := by
  constructor
  · intro key hkey
    exact absurd hkey ExtTreeMap.not_mem_empty
  · intro hash p hp
    simp [new] at hp

def voteEpochs (calls : List StreamletCall) : List UInt64 :=
  calls.filterMap fun
    | .addVote vote => some vote.epoch
    | _ => none

theorem Noted.call (hclose : Close epochs) (hs : Noted epochs s) {c : StreamletCall}
    (hclear : c ≠ .clearPending) (hmem : voteEpochs [c] ⊆ epochs) (htrue : s.TrueEpoch c) :
    Noted epochs (s.call c).2 := by
  cases c with
  | addProposal header blockHash epoch => exact hs.addProposal header blockHash epoch
  | shouldVote blockHash epoch => exact hs
  | recordVote epoch blockHash => exact ⟨hs.epochs, hs.counted⟩
  | addVote vote => exact hs.addVote hclose (hmem List.mem_cons_self) htrue
  | restore finalizedHeight finalizedHash => exact ⟨hs.epochs, hs.counted⟩
  | clearPending => exact absurd rfl hclear

/-- **One block per epoch.**  In all states of a run a validator supports at most one stored block
of each epoch, exactly if no vote is counted for a second one.  So it is if no notes are cleared,
votes name the epoch of their block, and no two of these epochs are more than a hundred apart. -/
theorem one_block_per_epoch_iff (nodeId : NodeId) (committeeSize : ℕ)
    (calls : List StreamletCall) :
    ((∀ before, before <+: calls → OneBlockPerEpoch ((new nodeId committeeSize).run before)) ↔
      AllSteps call NoSecondBlock (new nodeId committeeSize) calls) ∧
    (StreamletCall.clearPending ∉ calls → Close (voteEpochs calls) →
      AllSteps call TrueEpoch (new nodeId committeeSize) calls →
      ∀ before, before <+: calls → OneBlockPerEpoch ((new nodeId committeeSize).run before)) := by
  refine ⟨oneBlockPerEpoch_run_iff (filed_new _ _) (oneBlockPerEpoch_new _ _) calls, ?_⟩
  rintro hclear hclose htrue before ⟨after, rfl⟩
  have hcalls : AllSteps call (fun _ c => c ≠ .clearPending ∧
      voteEpochs [c] ⊆ voteEpochs (before ++ after)) (new nodeId committeeSize) before := by
    refine allSteps_of_forall _ fun c hc _ => ⟨?_, ?_⟩
    · rintro rfl
      exact hclear (List.mem_append_left _ hc)
    · exact List.filterMap_subset _ (by simp [hc])
  have hnoted := run_induction_of_allSteps (Noted (voteEpochs (before ++ after)))
    (fun _ _ hstep hs => hs.call hclose hstep.1.1 hstep.1.2 hstep.2) before _
    (hcalls.and (allSteps_append.mp htrue).1) (noted_new _ nodeId committeeSize)
  exact hnoted.oneBlockPerEpoch

open Reference

/-- Two rival blocks in epoch 5 and a chain over the first.  Validator 1 votes for both rivals, the
last votes finalize, and a late vote for the second rival follows. -/
def rivalRun : List StreamletCall :=
  let proposal := fun height parent n epoch => StreamletCall.addProposal
    (headerAt height ⟨.splat parent⟩ (node n)) (.splat n) epoch
  let vote := fun epoch block height voter => StreamletCall.addVote
    ⟨epoch, .splat block, height, ⟨node voter, []⟩⟩
  [proposal 1 0 1 5, proposal 1 0 2 5, vote 5 1 1 1, vote 5 2 1 1, vote 5 2 1 3, vote 5 1 1 2,
   proposal 2 1 3 6, vote 6 3 2 1, vote 6 3 2 2, proposal 3 3 4 7, vote 7 4 3 1, vote 7 4 3 2,
   vote 5 2 1 2]

theorem one_block_per_epoch_rivals :
    ((new (node 1) 3).run rivalRun).finalizedHeight = 2 ∧
      ∀ before, before <+: rivalRun → OneBlockPerEpoch ((new (node 1) 3).run before) := by
  have hvotes : Close (voteEpochs rivalRun) ∧
      AllSteps call TrueEpoch (new (node 1) 3) rivalRun := by
    decide +kernel
  refine ⟨by decide +kernel, (one_block_per_epoch_iff _ _ rivalRun).2 ?_ hvotes.1 hvotes.2⟩
  simp [rivalRun]

/-- **Two blocks of one epoch.**  Two blocks are proposed in epoch 5; validator 1 votes for both,
and the second vote names epoch 6. -/
theorem two_blocks_one_epoch :
    let proposal : UInt8 → StreamletCall := fun n =>
      .addProposal (headerAt 1 {} (node n)) (.splat n) 5
    let vote : UInt8 → UInt64 → StreamletCall := fun n epoch =>
      .addVote ⟨epoch, .splat n, 1, ⟨node 1, []⟩⟩
    ¬ OneBlockPerEpoch ((new (node 1) 3).run
      [proposal 1, proposal 2, vote 1 5, vote 2 6]) := by
  intro proposal vote hone
  have hfacts :
      let s := (new (node 1) 3).run [proposal 1, proposal 2, vote 1 5, vote 2 6]
      (s.proposedBlocks[Bytes32.splat 1]?.any fun p =>
        p.epoch = 5 && p.voters.contains (node 1)) = true ∧
      (s.proposedBlocks[Bytes32.splat 2]?.any fun p =>
        p.epoch = 5 && p.voters.contains (node 1)) = true := by
    decide +kernel
  simp only [Option.any_eq_true, Bool.and_eq_true, decide_eq_true_eq, List.contains_iff_mem]
    at hfacts
  obtain ⟨⟨p, hp, hepoch, hvoter⟩, q, hq, hepoch', hvoter'⟩ := hfacts
  have hsame := hone _ _ p q hp hq (hepoch.trans hepoch'.symm) _ hvoter hvoter'
  revert hsame
  decide

end StreamletState

end Gratia
