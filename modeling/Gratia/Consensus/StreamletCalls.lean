import Gratia.Consensus.Streamlet
import Gratia.Core.Reference
import Gratia.Support.Runs

/-!
# Consensus — Streamlet calls

The methods of `StreamletState` that set it back, and runs of all its methods.
-/

namespace Gratia

open Support Std

/-! ### Counting a vote -/

namespace ProposedBlock

variable {p : ProposedBlock} {vote : StreamletVote} {n : ℕ}

def voters (p : ProposedBlock) : List NodeId := p.votes.map fun v => v.signature.validator

theorem addVote_known (h : vote.signature.validator ∈ p.voters) :
    p.addVote vote n = (false, p) := by
  obtain ⟨v, hv, he⟩ := List.mem_map.mp h
  refine if_pos (List.any_eq_true.mpr ⟨v, hv, ?_⟩)
  exact beq_iff_eq.mpr he

theorem addVote_fresh (h : vote.signature.validator ∉ p.voters) :
    p.addVote vote n =
      (!p.notarized && decide (notarizationThreshold n ≤ p.votes.length + 1),
        { p with
          votes := p.votes ++ [vote]
          notarized := p.notarized || decide (notarizationThreshold n ≤ p.votes.length + 1) }) := by
  have hany :
      ¬ (p.votes.any fun v => v.signature.validator == vote.signature.validator) = true := by
    intro hany
    obtain ⟨v, hv, he⟩ := List.any_eq_true.mp hany
    exact h (List.mem_map.mpr ⟨v, hv, beq_iff_eq.mp he⟩)
  unfold addVote
  rw [if_neg hany]
  cases hn : p.notarized with
  | true => simp
  | false =>
    by_cases hthr : notarizationThreshold n ≤ p.votes.length + 1
    · simp [hthr]
    · simp [hthr]

@[simp] theorem addVote_header : (p.addVote vote n).2.header = p.header := by
  by_cases h : vote.signature.validator ∈ p.voters
  · rw [addVote_known h]
  · rw [addVote_fresh h]

@[simp] theorem addVote_epoch : (p.addVote vote n).2.epoch = p.epoch := by
  by_cases h : vote.signature.validator ∈ p.voters
  · rw [addVote_known h]
  · rw [addVote_fresh h]

@[simp] theorem mem_voters_addVote {validator : NodeId} :
    validator ∈ (p.addVote vote n).2.voters ↔
      validator = vote.signature.validator ∨ validator ∈ p.voters := by
  by_cases h : vote.signature.validator ∈ p.voters
  · rw [addVote_known h]
    exact ⟨.inr, by rintro (rfl | h') <;> assumption⟩
  · rw [addVote_fresh h]
    simp [voters, or_comm]

theorem nodup_voters_addVote (hp : p.voters.Nodup) : (p.addVote vote n).2.voters.Nodup := by
  by_cases h : vote.signature.validator ∈ p.voters
  · rwa [addVote_known h]
  · rw [addVote_fresh h]
    simpa [voters] using hp.concat h

end ProposedBlock

namespace StreamletState

/-! ### Setting back -/

def restore (s : StreamletState) (finalizedHeight : UInt64) (finalizedHash : Bytes32) :
    StreamletState :=
  { s with
    finalizedHeight := finalizedHeight
    finalizedHash := finalizedHash
    highestNotarizedHeight := finalizedHeight }

def clearPending (s : StreamletState) : StreamletState :=
  { s.pruneBelow (s.finalizedHeight + 1) with
    votedEpochs := ∅
    remoteVotes := ∅
    highestNotarizedHeight := s.finalizedHeight }

end StreamletState

/-! ### Calls -/

inductive StreamletCall where
  | addProposal (header : BlockHeader) (blockHash : Bytes32) (epoch : UInt64)
  | shouldVote (blockHash : Bytes32) (epoch : UInt64)
  | recordVote (epoch : UInt64) (blockHash : Bytes32)
  | addVote (vote : StreamletVote)
  | restore (finalizedHeight : UInt64) (finalizedHash : Bytes32)
  | clearPending
deriving DecidableEq

def StreamletCall.IsMessage : StreamletCall → Prop
  | .addProposal _ _ _ | .shouldVote _ _ | .addVote _ => True
  | .recordVote _ _ | .restore _ _ | .clearPending => False

inductive StreamletAnswer where
  | verdict (answer : Bool)
  | tally (justNotarized : Bool) (finalized : Option UInt64)
  | done
deriving DecidableEq

namespace StreamletState

def call (s : StreamletState) : StreamletCall → StreamletAnswer × StreamletState
  | .addProposal header blockHash epoch =>
    let (new, s) := s.addProposal header blockHash epoch
    (.verdict new, s)
  | .shouldVote blockHash epoch => (.verdict (s.shouldVote blockHash epoch), s)
  | .recordVote epoch blockHash => (.done, s.recordVote epoch blockHash)
  | .addVote vote =>
    let ((justNotarized, finalized), s) := s.addVote vote
    (.tally justNotarized finalized, s)
  | .restore finalizedHeight finalizedHash => (.done, s.restore finalizedHeight finalizedHash)
  | .clearPending => (.done, s.clearPending)

def run (s : StreamletState) (calls : List StreamletCall) : StreamletState :=
  Support.run call s calls

def Reachable (s : StreamletState) : Prop :=
  ∃ nodeId committeeSize calls, s = (new nodeId committeeSize).run calls

/-! ### The stages of a vote -/

/-- The validator is known to have voted for another block, in the epoch the vote names. -/
def equivocates (s : StreamletState) (vote : StreamletVote) : Bool :=
  s.remoteVotes[(vote.epoch, vote.signature.validator)]?.any
    fun existingHash => existingHash ≠ vote.blockHash

def noted (s : StreamletState) (vote : StreamletVote) : StreamletState :=
  { s with
    remoteVotes := s.remoteVotes.insert (vote.epoch, vote.signature.validator) vote.blockHash }

def counted (s : StreamletState) (vote : StreamletVote) (p : ProposedBlock) : StreamletState :=
  let (justNotarized, counted) := p.addVote vote s.committeeSize
  { s.noted vote with
    proposedBlocks := s.proposedBlocks.insert vote.blockHash counted
    highestNotarizedHeight :=
      if justNotarized ∧ p.header.height > s.highestNotarizedHeight then p.header.height
      else s.highestNotarizedHeight }

/-- Whether the vote notarizes its block, and the state before finality is looked for. -/
def tally (s : StreamletState) (vote : StreamletVote) : Bool × StreamletState :=
  if s.equivocates vote then (false, s)
  else
    match s.proposedBlocks[vote.blockHash]? with
    | none => (false, s.noted vote)
    | some p => ((p.addVote vote s.committeeSize).1, s.counted vote p)

/-- **A vote is tallied first**; finality is looked for only if it notarized its block. -/
theorem addVote_eq (s : StreamletState) (vote : StreamletVote) :
    s.addVote vote =
      if (s.tally vote).1 then
        ((true, (s.tally vote).2.checkFinality.1), (s.tally vote).2.checkFinality.2)
      else ((false, none), (s.tally vote).2) := by
  unfold addVote tally equivocates
  split
  · rfl
  · simp only
    cases hp : s.proposedBlocks[vote.blockHash]? with
    | none => rfl
    | some p =>
      simp only [counted]
      split
      · next hjust => simp [hjust, noted]
      · next hjust => simp [hjust, noted]

/-- A block becomes final only by a vote that notarizes its block. -/
theorem addVote_cases (s : StreamletState) (vote : StreamletVote) :
    let t := (s.tally vote).2
    (s.addVote vote).2 = t ∨
      ∃ newFinalized middleHash, t.finalizedHeight < newFinalized ∧
        t.getNotarizedAt newFinalized = some middleHash ∧
        (s.addVote vote).2 = { t with
          finalizedHeight := newFinalized, finalizedHash := middleHash }.pruneBelow
            newFinalized := by
  intro t
  rw [addVote_eq]
  split
  · exact t.checkFinality_cases
  · exact .inl rfl

variable {s : StreamletState} {vote : StreamletVote}

theorem tally_cases (s : StreamletState) (vote : StreamletVote) :
    s.equivocates vote = true ∧ s.tally vote = (false, s) ∨
      s.equivocates vote = false ∧
        (s.proposedBlocks[vote.blockHash]? = none ∧ s.tally vote = (false, s.noted vote) ∨
          ∃ p, s.proposedBlocks[vote.blockHash]? = some p ∧
            s.tally vote = ((p.addVote vote s.committeeSize).1, s.counted vote p)) := by
  unfold tally
  cases he : s.equivocates vote with
  | true => exact .inl ⟨rfl, rfl⟩
  | false =>
    refine .inr ⟨rfl, ?_⟩
    cases hp : s.proposedBlocks[vote.blockHash]? with
    | none => exact .inl ⟨rfl, rfl⟩
    | some p => exact .inr ⟨p, rfl, rfl⟩

theorem tally_frame (s : StreamletState) (vote : StreamletVote) :
    (s.tally vote).2.nodeId = s.nodeId ∧ (s.tally vote).2.committeeSize = s.committeeSize ∧
      (s.tally vote).2.blocksByHeight = s.blocksByHeight ∧
      (s.tally vote).2.finalizedHeight = s.finalizedHeight ∧
      (s.tally vote).2.finalizedHash = s.finalizedHash := by
  rcases s.tally_cases vote with ⟨-, h⟩ | ⟨-, ⟨-, h⟩ | ⟨p, -, h⟩⟩
  all_goals
    rw [h]
    exact ⟨rfl, rfl, rfl, rfl, rfl⟩

theorem remoteVotes_tally (he : s.equivocates vote = false) :
    (s.tally vote).2.remoteVotes = (s.noted vote).remoteVotes := by
  rcases s.tally_cases vote with ⟨he', -⟩ | ⟨-, ⟨-, h⟩ | ⟨p, -, h⟩⟩
  · rw [he] at he'
    cases he'
  · rw [h]
  · rw [h]
    rfl

theorem getElem?_tally (s : StreamletState) (vote : StreamletVote) (hash : Bytes32) :
    (s.tally vote).2.proposedBlocks[hash]? = s.proposedBlocks[hash]?.map fun p =>
      if hash = vote.blockHash ∧ s.equivocates vote = false then
        (p.addVote vote s.committeeSize).2
      else p := by
  rcases s.tally_cases vote with ⟨he, h⟩ | ⟨he, ⟨hp, h⟩ | ⟨p, hp, h⟩⟩
  · simp [h, he]
  · by_cases hh : hash = vote.blockHash
    · simp [h, hh, hp, noted]
    · simp [h, hh, noted]
  · by_cases hh : hash = vote.blockHash
    · simp [h, he, hh, hp, counted]
    · simp [h, hh, counted, getElem?_insert_ne _ _ (Ne.symm hh)]

variable {hash : Bytes32}

variable {p : ProposedBlock} {h : UInt64}

theorem stored_of_tally (h : (s.tally vote).2.proposedBlocks[hash]? = some p) :
    ∃ q, s.proposedBlocks[hash]? = some q ∧ p.header = q.header ∧ p.epoch = q.epoch ∧
      ∀ validator ∈ p.voters, validator ∈ q.voters ∨ hash = vote.blockHash ∧
        s.equivocates vote = false ∧ validator = vote.signature.validator := by
  rw [getElem?_tally, Option.map_eq_some_iff] at h
  obtain ⟨q, hq, rfl⟩ := h
  refine ⟨q, hq, ?_⟩
  split
  · next hvote =>
      refine ⟨ProposedBlock.addVote_header, ProposedBlock.addVote_epoch, fun v hv => ?_⟩
      rcases ProposedBlock.mem_voters_addVote.mp hv with rfl | hv
      · exact .inr ⟨hvote.1, hvote.2, rfl⟩
      · exact .inl hv
  · exact ⟨rfl, rfl, fun v hv => .inl hv⟩

/-! ### Stored and listed proposals -/

def listedAt (s : StreamletState) (h : UInt64) : List Bytes32 := s.blocksByHeight[h]?.getD []

def heightOf (s : StreamletState) (hash : Bytes32) : Option UInt64 :=
  s.proposedBlocks[hash]?.map fun p => p.header.height

/-- Proposals are listed at the height of their headers, and no list is empty. -/
structure Filed (s : StreamletState) : Prop where
  listed : ∀ h hash, hash ∈ s.listedAt h ↔ s.heightOf hash = some h
  ne_nil : ∀ h : UInt64, s.blocksByHeight[h]? ≠ some []

theorem mem_listedAt :
    hash ∈ s.listedAt h ↔ ∃ hashes, s.blocksByHeight[h]? = some hashes ∧ hash ∈ hashes := by
  cases hl : s.blocksByHeight[h]? with
  | none => simp [listedAt, hl]
  | some hashes => simp [listedAt, hl]

theorem heightOf_eq_some :
    s.heightOf hash = some h ↔ ∃ p, s.proposedBlocks[hash]? = some p ∧ p.header.height = h := by
  simp [heightOf]

@[simp] theorem heightOf_tally (s : StreamletState) (vote : StreamletVote) (hash : Bytes32) :
    (s.tally vote).2.heightOf hash = s.heightOf hash := by
  unfold heightOf
  rw [getElem?_tally, Option.map_map]
  congr 1
  funext p
  simp only [Function.comp_apply]
  split
  · exact congrArg _ ProposedBlock.addVote_header
  · rfl

variable {height : UInt64}

theorem mem_prunedHashes :
    hash ∈ (s.blocksByHeight.toList.filter fun entry => entry.1 < height).flatMap Prod.snd ↔
      ∃ h, h < height ∧ hash ∈ s.listedAt h := by
  simp only [List.mem_flatMap, List.mem_filter, decide_eq_true_eq, Prod.exists,
    ExtTreeMap.mem_toList_iff_getElem?_eq_some, mem_listedAt]
  constructor
  · rintro ⟨h, hashes, ⟨hl, hlt⟩, hmem⟩
    exact ⟨h, hlt, hashes, hl, hmem⟩
  · rintro ⟨h, hlt, hashes, hl, hmem⟩
    exact ⟨h, hashes, ⟨hl, hlt⟩, hmem⟩

/-- **Pruning drops the proposals below a height**, and only those. -/
theorem Filed.getElem?_pruneBelow (hs : Filed s) :
    (s.pruneBelow height).proposedBlocks[hash]? = some p ↔
      s.proposedBlocks[hash]? = some p ∧ height ≤ p.header.height := by
  unfold pruneBelow
  simp only [getElem?_foldl_erase, mem_prunedHashes, hs.listed]
  rw [and_comm]
  refine and_congr_right fun hp => ?_
  simp [heightOf, hp, UInt64.not_lt]

theorem Filed.heightOf_pruneBelow (hs : Filed s) :
    (s.pruneBelow height).heightOf hash = some h ↔ s.heightOf hash = some h ∧ height ≤ h := by
  simp only [heightOf_eq_some, hs.getElem?_pruneBelow]
  constructor
  · rintro ⟨p, ⟨hp, hle⟩, rfl⟩
    exact ⟨⟨p, hp, rfl⟩, hle⟩
  · rintro ⟨⟨p, hp, rfl⟩, hle⟩
    exact ⟨p, ⟨hp, hle⟩, rfl⟩

@[simp] theorem listedAt_pruneBelow :
    (s.pruneBelow height).listedAt h = if h < height then [] else s.listedAt h := by
  unfold listedAt pruneBelow
  simp only [ExtTreeMap.getElem?_filter']
  by_cases hlt : h < height
  · simp [hlt]
  · cases hl : s.blocksByHeight[h]? with
    | none => simp [hlt]
    | some hashes => simp [hlt, Option.filter]

theorem filed_new (nodeId : NodeId) (committeeSize : ℕ) : Filed (new nodeId committeeSize) := by
  constructor
  · intro h hash
    simp [new, listedAt, heightOf]
  · intro h
    simp [new]

/-! ### A proposal -/

variable {header : BlockHeader} {blockHash : Bytes32} {epoch : UInt64}

/-- A proposal is stored if its hash is not known. -/
theorem getElem?_addProposal : (s.addProposal header blockHash epoch).2.proposedBlocks[hash]? =
    s.proposedBlocks[hash]?.or (if blockHash = hash then
      some { header := header, blockHash := blockHash, epoch := epoch } else none) := by
  unfold addProposal
  rw [ExtTreeMap.contains_eq_isSome_getElem?]
  by_cases hb : blockHash = hash
  · subst hb
    cases hk : s.proposedBlocks[blockHash]? with
    | none => simp
    | some p => simp [hk]
  · split
    · simp
    · simp [getElem?_insert_ne _ _ hb]

theorem listedAt_addProposal :
    (s.addProposal header blockHash epoch).2.listedAt h = s.listedAt h ++
      if s.proposedBlocks[blockHash]? = none ∧ header.height = h then [blockHash] else [] := by
  unfold addProposal listedAt
  rw [ExtTreeMap.contains_eq_isSome_getElem?]
  cases hk : s.proposedBlocks[blockHash]? with
  | some p => simp
  | none =>
    by_cases he : header.height = h
    · simp [he]
    · simp [he, getElem?_insert_ne _ _ he]

theorem addProposal_frame (s : StreamletState) (header : BlockHeader) (blockHash : Bytes32)
    (epoch : UInt64) : let t := (s.addProposal header blockHash epoch).2
    t.committeeSize = s.committeeSize ∧ t.finalizedHeight = s.finalizedHeight ∧
      t.finalizedHash = s.finalizedHash ∧ t.remoteVotes = s.remoteVotes := by
  unfold addProposal
  split
  · exact ⟨rfl, rfl, rfl, rfl⟩
  · exact ⟨rfl, rfl, rfl, rfl⟩

theorem stored_of_addProposal
    (h : (s.addProposal header blockHash epoch).2.proposedBlocks[hash]? = some p) :
    s.proposedBlocks[hash]? = some p ∨ blockHash = hash ∧
      { header := header, blockHash := blockHash, epoch := epoch } = p := by
  rw [getElem?_addProposal, Option.or_eq_some_iff] at h
  rcases h with h | ⟨-, h⟩
  · exact .inl h
  · exact .inr (by simpa using h)

theorem Filed.addProposal (hs : Filed s) (header : BlockHeader) (blockHash : Bytes32)
    (epoch : UInt64) : Filed (s.addProposal header blockHash epoch).2 := by
  constructor
  · intro h hash
    rw [listedAt_addProposal, List.mem_append, hs.listed, heightOf, heightOf, getElem?_addProposal]
    by_cases hb : blockHash = hash
    · subst hb
      cases hk : s.proposedBlocks[blockHash]? with
      | none => simp
      | some p => simp
    · simp [hb, Ne.symm hb]
  · intro h
    unfold StreamletState.addProposal
    split
    · exact hs.ne_nil h
    · by_cases he : header.height = h
      · simp [he]
      · rw [getElem?_insert_ne _ _ he]
        exact hs.ne_nil h

theorem Filed.pruneBelow (hs : Filed s) (height : UInt64) : Filed (s.pruneBelow height) := by
  constructor
  · intro h hash
    rw [listedAt_pruneBelow, hs.heightOf_pruneBelow, ← hs.listed, ← UInt64.not_lt]
    by_cases hlt : h < height
    · simp [hlt]
    · simp [hlt]
  · intro h hnil
    exact hs.ne_nil h (pruneBelow_blocksByHeight hnil)

theorem Filed.congr {t : StreamletState} (hs : Filed s)
    (hlists : t.blocksByHeight = s.blocksByHeight)
    (hheights : ∀ hash, t.heightOf hash = s.heightOf hash) : Filed t := by
  constructor
  · intro h hash
    rw [listedAt, hlists, hheights]
    exact hs.listed h hash
  · rw [hlists]
    exact hs.ne_nil

theorem Filed.tally (hs : Filed s) (vote : StreamletVote) : Filed (s.tally vote).2 :=
  hs.congr (s.tally_frame vote).2.2.1 (heightOf_tally s vote)

theorem Filed.addVote (hs : Filed s) (vote : StreamletVote) : Filed (s.addVote vote).2 := by
  have htally := hs.tally vote
  rcases s.addVote_cases vote with h | ⟨newFinalized, middleHash, -, -, h⟩
  · rwa [h]
  · rw [h]
    refine Filed.pruneBelow ?_ newFinalized
    exact htally.congr rfl fun _ => rfl

theorem Filed.call (hs : Filed s) (c : StreamletCall) : Filed (s.call c).2 := by
  cases c with
  | addProposal header blockHash epoch => exact hs.addProposal header blockHash epoch
  | shouldVote blockHash epoch => exact hs
  | recordVote epoch blockHash => exact hs.congr rfl fun _ => rfl
  | addVote vote => exact hs.addVote vote
  | restore finalizedHeight finalizedHash => exact hs.congr rfl fun _ => rfl
  | clearPending => exact (hs.pruneBelow (s.finalizedHeight + 1)).congr rfl fun _ => rfl

theorem Reachable.filed (h : Reachable s) : Filed s := by
  obtain ⟨nodeId, committeeSize, calls, rfl⟩ := h
  exact run_induction Filed (fun _ => True) (fun _ c _ hs => hs.call c) calls _
    (fun _ _ => trivial) (filed_new nodeId committeeSize)

/-! ### A change of the committee -/

/-- The state a node would have had if it had started at the final block. -/
def restarted (s : StreamletState) : StreamletState :=
  (new s.nodeId s.committeeSize).restore s.finalizedHeight s.finalizedHash

/-- Where no proposal is above the final block, nothing is left of the old ones. -/
theorem Filed.clearPending_eq (hs : Filed s)
    (hlow : ∀ hash h, s.heightOf hash = some h → h < s.finalizedHeight + 1) :
    s.clearPending = s.restarted := by
  have hblocks : (s.pruneBelow (s.finalizedHeight + 1)).proposedBlocks = ∅ := by
    refine ExtTreeMap.ext_getElem? fun hash => ?_
    rw [ExtTreeMap.getElem?_empty, Option.eq_none_iff_forall_ne_some]
    intro p hp
    obtain ⟨hp, hle⟩ := hs.getElem?_pruneBelow.mp hp
    exact UInt64.not_lt.mpr hle (hlow hash _ (heightOf_eq_some.mpr ⟨p, hp, rfl⟩))
  have hlists : (s.pruneBelow (s.finalizedHeight + 1)).blocksByHeight = ∅ := by
    refine ExtTreeMap.ext_getElem? fun h => ?_
    rw [ExtTreeMap.getElem?_empty, Option.eq_none_iff_forall_ne_some]
    intro hashes hl
    -- a list that is kept has a hash in it, and its proposal is stored
    have hfiled := hs.pruneBelow (s.finalizedHeight + 1)
    cases hashes with
    | nil => exact hfiled.ne_nil h hl
    | cons hash rest =>
      have hmem : hash ∈ (s.pruneBelow (s.finalizedHeight + 1)).listedAt h := by
        simp [listedAt, hl]
      rw [hfiled.listed, heightOf, hblocks] at hmem
      simp at hmem
  simp only [clearPending, hblocks, hlists]
  rfl

/-- **When a committee change starts from a clean slate.**  After `clear_pending` a node answers
every sequence of messages like one that starts at its final block exactly if it knew of no proposal
above that block; proposals above it are kept, with their votes. -/
theorem clear_pending_clean_iff (hs : Reachable s) :
    (∀ calls : List StreamletCall, (∀ c ∈ calls, c.IsMessage) →
      Support.trace call (fun _ => ()) s.clearPending calls =
        Support.trace call (fun _ => ()) s.restarted calls) ↔
      ∀ hash h, s.heightOf hash = some h → h < s.finalizedHeight + 1 := by
  constructor
  · intro hsame hash h hh
    obtain ⟨p, hp, rfl⟩ := heightOf_eq_some.mp hh
    rw [← UInt64.not_le]
    intro hle
    -- the proposal is still known, so it is not news when it comes again
    have hkept : s.clearPending.proposedBlocks[hash]? = some p :=
      hs.filed.getElem?_pruneBelow.mpr ⟨hp, hle⟩
    have hknown : s.clearPending.proposedBlocks.contains hash = true := by
      rw [ExtTreeMap.contains_eq_isSome_getElem?, hkept]
      rfl
    have hnews : s.restarted.proposedBlocks.contains hash = false := ExtTreeMap.contains_empty
    have htrace := hsame [.addProposal p.header hash p.epoch] (by simp [StreamletCall.IsMessage])
    simp [Support.trace, call, addProposal, hknown, hnews] at htrace
  · intro hlow calls _
    rw [hs.filed.clearPending_eq hlow]

open Reference

/-- A proposal at the height of the final block is dropped. -/
theorem clear_pending_clean_genesis :
    let s := (new (node 1) 3).run
      [.addProposal (headerAt 0 {} (node 1)) (.splat 1) 1]
    s.heightOf (.splat 1) = some 0 ∧ ∀ calls : List StreamletCall, (∀ c ∈ calls, c.IsMessage) →
      Support.trace call (fun _ => ()) s.clearPending calls =
        Support.trace call (fun _ => ()) s.restarted calls := by
  refine ⟨by decide +kernel, (clear_pending_clean_iff ⟨_, _, _, rfl⟩).mpr fun hash h hh => ?_⟩
  obtain ⟨p, hp, rfl⟩ := heightOf_eq_some.mp hh
  simp only [run, Support.run, call, addProposal, new, ExtTreeMap.contains_empty,
    Bool.false_eq_true, if_false, ExtTreeMap.getElem?_insert, ExtTreeMap.getElem?_empty] at hp ⊢
  split at hp
  · cases hp
    decide
  · cases hp

/-- **A vote of the old committee counts.**  In a committee of three, validator 1 votes for a block;
the committee changes, and the block comes again with the vote of validator 2.  A node that was
there before takes it for notarized, one that starts at the final block does not. -/
theorem old_vote_counts :
    let vote : UInt8 → StreamletVote := fun v => ⟨1, .splat 1, 1, ⟨node v, []⟩⟩
    let proposal : StreamletCall :=
      .addProposal (headerAt 1 {} (node 1)) (.splat 1) 1
    let s := (new (node 1) 3).run [proposal, .addVote (vote 1)]
    Support.trace call (fun _ => ()) s.clearPending [proposal, .addVote (vote 2)] =
        [(.verdict false, ()), (.tally true none, ())] ∧
      Support.trace call (fun _ => ()) s.restarted [proposal, .addVote (vote 2)] =
        [(.verdict true, ()), (.tally false none, ())] := by
  decide +kernel

/-! ### The maps and counters say the same -/

variable {t : StreamletState} {n : ℕ}

/-- Votes are of different validators and a block is notarized if they are two thirds; the lists
have no hash twice. -/
structure Kept (n : ℕ) (s : StreamletState) : Prop where
  committeeSize : s.committeeSize = n
  blocks : ∀ (hash : Bytes32) (p : ProposedBlock), s.proposedBlocks[hash]? = some p →
    p.voters.Nodup ∧ (p.notarized = true ↔ 2 * n ≤ 3 * p.votes.length)
  lists : ∀ h, (s.listedAt h).Nodup

theorem Kept.of_le (hs : Kept n s) (hsize : t.committeeSize = s.committeeSize)
    (hblocks : ∀ (hash : Bytes32) p, t.proposedBlocks[hash]? = some p →
      s.proposedBlocks[hash]? = some p)
    (hlists : ∀ h, t.listedAt h = s.listedAt h ∨ t.listedAt h = []) : Kept n t := by
  refine ⟨hsize.trans hs.committeeSize, fun hash p hp => hs.blocks hash p (hblocks hash p hp),
    fun h => ?_⟩
  rcases hlists h with hl | hl
  · exact hl ▸ hs.lists h
  · exact hl ▸ List.nodup_nil

theorem Kept.pruneBelow (hs : Kept n s) (height : UInt64) : Kept n (s.pruneBelow height) := by
  refine hs.of_le rfl (fun _ _ => pruneBelow_proposedBlocks) fun h => ?_
  rw [listedAt_pruneBelow]
  split
  · exact .inr rfl
  · exact .inl rfl

theorem Kept.addProposal (hn : 1 ≤ n) (hs : Kept n s) (hf : Filed s) (header : BlockHeader)
    (blockHash : Bytes32) (epoch : UInt64) : Kept n (s.addProposal header blockHash epoch).2 := by
  refine ⟨(s.addProposal_frame header blockHash epoch).1.trans hs.committeeSize,
    fun hash p hp => ?_, fun h => ?_⟩
  · rcases stored_of_addProposal hp with hp | ⟨-, rfl⟩
    · exact hs.blocks hash p hp
    · refine ⟨List.nodup_nil, iff_of_false nofun ?_⟩
      simp only [List.length_nil]
      omega
  · rw [listedAt_addProposal]
    split
    · next hnew =>
        have hlist : blockHash ∉ s.listedAt h := by simp [hf.listed, heightOf, hnew.1]
        exact List.concat_eq_append ▸ (hs.lists h).concat hlist
    · simpa using hs.lists h

theorem Kept.tally (hmax : n < 2 ^ 63 - 1) (hs : Kept n s) (vote : StreamletVote) :
    Kept n (s.tally vote).2 := by
  obtain ⟨-, hsize, hlists, -⟩ := s.tally_frame vote
  refine ⟨hsize.trans hs.committeeSize, fun hash p hp => ?_, fun h => ?_⟩
  · rw [getElem?_tally, Option.map_eq_some_iff] at hp
    obtain ⟨q, hq, rfl⟩ := hp
    have hkept := hs.blocks hash q hq
    split
    · refine ⟨ProposedBlock.nodup_voters_addVote hkept.1, ?_⟩
      by_cases hknown : vote.signature.validator ∈ q.voters
      · rw [ProposedBlock.addVote_known hknown]
        exact hkept.2
      · rw [ProposedBlock.addVote_fresh hknown]
        simp only [Bool.or_eq_true, hkept.2, decide_eq_true_eq, List.length_append,
          List.length_singleton, notarizationThreshold_eq hmax, hs.committeeSize]
        omega
    · exact hkept
  · rw [listedAt, hlists]
    exact hs.lists h

/-- **Finality**: the final block stays, or a stored notarized block above it becomes final. -/
theorem Filed.finality (hf : Filed s) (vote : StreamletVote) :
    let s' := (s.addVote vote).2
    s'.finalizedHeight = s.finalizedHeight ∧ s'.finalizedHash = s.finalizedHash ∨
      s.finalizedHeight < s'.finalizedHeight ∧ ∃ p, s'.proposedBlocks[s'.finalizedHash]? = some p ∧
        p.notarized = true ∧ p.header.height = s'.finalizedHeight := by
  obtain ⟨-, -, -, hheight, hhash⟩ := s.tally_frame vote
  rcases s.addVote_cases vote with h | ⟨newFinalized, middleHash, hlt, hn, h⟩
  · exact .inl (by rw [h]; exact ⟨hheight, hhash⟩)
  · obtain ⟨hlist, p, hp, hnotarized⟩ := getNotarizedAt_some hn
    obtain ⟨q, hq, hheight'⟩ :=
      heightOf_eq_some.mp (((hf.tally vote).listed _ _).mp (mem_listedAt.mpr hlist))
    obtain rfl : p = q := Option.some.inj (hp.symm.trans hq)
    have hf' : Filed { (s.tally vote).2 with
        finalizedHeight := newFinalized, finalizedHash := middleHash } :=
      (hf.tally vote).congr rfl fun _ => rfl
    rw [h]
    exact .inr ⟨hheight ▸ hlt, p, hf'.getElem?_pruneBelow.mpr ⟨hp, UInt64.le_of_eq hheight'.symm⟩,
      hnotarized, hheight'⟩

theorem Kept.call (hn : 1 ≤ n) (hmax : n < 2 ^ 63 - 1) (hs : Kept n s) (hf : Filed s)
    (c : StreamletCall) : Kept n (s.call c).2 := by
  cases c with
  | addProposal header blockHash epoch => exact hs.addProposal hn hf header blockHash epoch
  | shouldVote | recordVote | restore => exact hs.of_le rfl (fun _ _ => id) fun _ => .inl rfl
  | clearPending => exact (hs.pruneBelow _).of_le rfl (fun _ _ => id) fun _ => .inl rfl
  | addVote vote =>
    change Kept n (s.addVote vote).2
    rcases s.addVote_cases vote with h | ⟨newFinalized, middleHash, -, -, h⟩
    · rw [h]
      exact hs.tally hmax vote
    · rw [h]
      refine Kept.pruneBelow ?_ newFinalized
      exact (hs.tally hmax vote).of_le rfl (fun _ _ => id) fun _ => .inl rfl

/-- **Bookkeeping.**  After any calls on a node of a committee of `n`, whose double fits a `usize`
with room to round up: a proposal is notarized
exactly if two thirds of the committee are counted for it, each once; the index lists every stored
proposal once, at its height, and nothing else; and a vote leaves the final block as it is or makes a
stored notarized block above it final. -/
theorem bookkeeping (nodeId : NodeId) (hn : 1 ≤ n) (hmax : n < 2 ^ 63 - 1)
    (calls : List StreamletCall) :
    let s := (new nodeId n).run calls
    (∀ (hash : Bytes32) (p : ProposedBlock), s.proposedBlocks[hash]? = some p →
      p.voters.Nodup ∧ (p.notarized = true ↔ 2 * n ≤ 3 * p.votes.length)) ∧
    (∀ h, (s.listedAt h).Nodup ∧ ∀ hash, hash ∈ s.listedAt h ↔ s.heightOf hash = some h) ∧
    ∀ vote, let s' := (s.addVote vote).2
      s'.finalizedHeight = s.finalizedHeight ∧ s'.finalizedHash = s.finalizedHash ∨
      s.finalizedHeight < s'.finalizedHeight ∧ ∃ p, s'.proposedBlocks[s'.finalizedHash]? = some p ∧
        p.notarized = true ∧ p.header.height = s'.finalizedHeight := by
  intro s
  have hnew : Kept n (new nodeId n) := ⟨rfl, by simp [new], by simp [new, listedAt]⟩
  have h : Kept n s ∧ Filed s := run_induction (fun s => Kept n s ∧ Filed s) (fun _ => True)
    (fun _ c _ h => ⟨h.1.call hn hmax h.2 c, h.2.call c⟩) calls _ (fun _ _ => trivial)
    ⟨hnew, filed_new nodeId n⟩
  exact ⟨h.1.blocks, fun height => ⟨h.1.lists height, h.2.listed height⟩, h.2.finality⟩

/-- A proposal with the vote of one validator. -/
def oneVote : List StreamletCall :=
  [.addProposal (headerAt 1 {} (node 1)) (.splat 1) 1,
    .addVote ⟨1, .splat 1, 1, ⟨node 1, []⟩⟩]

/-- A committee of one notarizes a block with its vote. -/
theorem bookkeeping_one :
    let s := (new (node 1) 1).run oneVote
    (s.proposedBlocks[Bytes32.splat 1]?.map fun p => p.notarized) = some true ∧
      ∀ h, (s.listedAt h).Nodup ∧ ∀ hash, hash ∈ s.listedAt h ↔ s.heightOf hash = some h :=
  ⟨by decide +kernel, (bookkeeping (node 1) le_rfl (by decide) _).2.1⟩

/-- **The threshold wraps around**: in a committee of `2 ^ 63` the first vote notarizes. -/
theorem one_vote_notarizes :
    let s := (new (node 1) (2 ^ 63)).run oneVote
    (s.proposedBlocks[Bytes32.splat 1]?.map fun p => (p.notarized, p.votes.length)) =
      some (true, 1) ∧ ¬2 * 2 ^ 63 ≤ 3 * 1 := by
  decide +kernel

end StreamletState

end Gratia
