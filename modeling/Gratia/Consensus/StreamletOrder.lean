import Gratia.Consensus.StreamletCalls
import Mathlib.Data.List.TakeWhile

/-!
# Consensus — Streamlet delivery order

Proposals and votes reach a node in some order.  A vote that comes before its proposal is noted and
not counted, also when the proposal comes later.  So what is notarized depends on the votes that
come in time (`timelyVoters`), which is a matter of the order.
-/

namespace Gratia

open Support Std

/-! ### Messages -/

inductive StreamletMessage where
  | proposal (header : BlockHeader) (blockHash : Bytes32) (epoch : UInt64)
  | vote (vote : StreamletVote)
deriving DecidableEq

namespace StreamletMessage

variable {ms : List StreamletMessage} {hash : Bytes32} {h : UInt64}

def proposes (hash : Bytes32) : StreamletMessage → Bool
  | .proposal _ blockHash _ => blockHash == hash
  | .vote _ => false

def voterFor (hash : Bytes32) : StreamletMessage → Option NodeId
  | .vote v => if v.blockHash = hash then some v.signature.validator else none
  | .proposal _ _ _ => none

/-- The validators whose vote for this block comes after a proposal of it. -/
def timelyVoters (hash : Bytes32) (ms : List StreamletMessage) : Finset NodeId :=
  ((ms.dropWhile fun m => !m.proposes hash).filterMap (voterFor hash)).toFinset

def ProposedAt (ms : List StreamletMessage) (hash : Bytes32) (h : UInt64) : Prop :=
  ∃ header epoch, .proposal header hash epoch ∈ ms ∧ header.height = h

/-- No validator votes for two blocks in one epoch. -/
def OneVotePerEpoch (ms : List StreamletMessage) : Prop :=
  ∀ v w, .vote v ∈ ms → .vote w ∈ ms → v.epoch = w.epoch →
    v.signature.validator = w.signature.validator → v.blockHash = w.blockHash

/-- A hash is that of blocks of one height. -/
def OneHeight (ms : List StreamletMessage) : Prop :=
  ∀ hash h h', ProposedAt ms hash h → ProposedAt ms hash h' → h = h'

theorem ProposedAt.append {ms' : List StreamletMessage} (hp : ProposedAt ms hash h) :
    ProposedAt (ms ++ ms') hash h := by
  obtain ⟨header, epoch, hm, hh⟩ := hp
  exact ⟨header, epoch, List.mem_append_left _ hm, hh⟩

theorem proposedAt_append_proposal {header : BlockHeader} {blockHash : Bytes32} {epoch : UInt64} :
    ProposedAt (ms ++ [.proposal header blockHash epoch]) hash h ↔
      ProposedAt ms hash h ∨ hash = blockHash ∧ header.height = h := by
  constructor
  · rintro ⟨header', epoch', hm, rfl⟩
    rcases List.mem_append.mp hm with hm | hm
    · exact .inl ⟨header', epoch', hm, rfl⟩
    · cases List.mem_singleton.mp hm
      exact .inr ⟨rfl, rfl⟩
  · rintro (hp | ⟨rfl, rfl⟩)
    · exact hp.append
    · exact ⟨header, epoch, by simp, rfl⟩

theorem proposedAt_append_vote {vote : StreamletVote} :
    ProposedAt (ms ++ [.vote vote]) hash h ↔ ProposedAt ms hash h := by
  simp [ProposedAt]

theorem timelyVoters_append_proposal (header : BlockHeader) (blockHash : Bytes32) (epoch : UInt64) :
    timelyVoters hash (ms ++ [.proposal header blockHash epoch]) = timelyVoters hash ms := by
  unfold timelyVoters
  rw [List.dropWhile_append]
  split
  · next hnil =>
      rw [List.isEmpty_iff.mp hnil]
      by_cases hb : blockHash = hash
      · simp [proposes, voterFor, hb]
      · simp [proposes, hb]
  · rw [List.filterMap_append]
    simp [List.filterMap_cons, voterFor]

theorem timelyVoters_append_vote (hp : ProposedAt ms hash h) (vote : StreamletVote) :
    timelyVoters hash (ms ++ [.vote vote]) =
      if vote.blockHash = hash then insert vote.signature.validator (timelyVoters hash ms)
      else timelyVoters hash ms := by
  obtain ⟨header, epoch, hmem, -⟩ := hp
  have hseen : ¬ (ms.dropWhile fun m => !m.proposes hash).isEmpty = true := by
    rw [List.isEmpty_iff, List.dropWhile_eq_nil_iff]
    intro hall
    simpa [proposes] using hall _ hmem
  unfold timelyVoters
  rw [List.dropWhile_append, if_neg hseen, List.filterMap_append]
  by_cases hb : vote.blockHash = hash
  · ext validator
    simp [voterFor, hb]
  · simp [voterFor, hb]

theorem timelyVoters_eq_empty (hp : ∀ h, ¬ ProposedAt ms hash h) : timelyVoters hash ms = ∅ := by
  have hunseen : (ms.dropWhile fun m => !m.proposes hash) = [] := by
    rw [List.dropWhile_eq_nil_iff]
    intro m hm
    cases m with
    | vote vote => rfl
    | proposal header blockHash epoch =>
      by_cases hb : blockHash = hash
      · subst hb
        exact absurd ⟨header, epoch, hm, rfl⟩ (hp header.height)
      · simp [proposes, hb]
  rw [timelyVoters, hunseen]
  rfl

end StreamletMessage

/-- As many validators as it takes to notarize a block; without a vote there is no notarization. -/
def Enough (committeeSize : ℕ) (voters : Finset NodeId) : Prop :=
  voters.Nonempty ∧ notarizationThreshold committeeSize ≤ voters.card

/-- A block with the votes of these validators: each is counted once, and the block is notarized if
they are enough. -/
structure ProposedBlock.Tallied (p : ProposedBlock) (committeeSize : ℕ) (counted : Finset NodeId) :
    Prop where
  nodup : p.voters.Nodup
  voters : p.voters.toFinset = counted
  notarized : p.notarized = true ↔ Enough committeeSize counted

theorem ProposedBlock.tallied_new {header : BlockHeader} {blockHash : Bytes32} {epoch : UInt64}
    {committeeSize : ℕ} : ProposedBlock.Tallied
      { header := header, blockHash := blockHash, epoch := epoch } committeeSize ∅ := by
  refine ⟨List.nodup_nil, rfl, ?_⟩
  simp [Enough]

theorem ProposedBlock.Tallied.addVote {p : ProposedBlock} {committeeSize : ℕ}
    {counted : Finset NodeId} (hp : p.Tallied committeeSize counted) (vote : StreamletVote) :
    (p.addVote vote committeeSize).2.Tallied committeeSize
      (insert vote.signature.validator counted) := by
  by_cases hv : vote.signature.validator ∈ p.voters
  · have hmem : vote.signature.validator ∈ counted := by
      rw [← hp.voters]
      exact List.mem_toFinset.mpr hv
    rw [addVote_known hv, Finset.insert_eq_of_mem hmem]
    exact hp
  · have hmem : vote.signature.validator ∉ counted := by
      rw [← hp.voters]
      exact fun h => hv (List.mem_toFinset.mp h)
    have hcard : counted.card = p.votes.length := by
      rw [← hp.voters, List.toFinset_card_of_nodup hp.nodup, ProposedBlock.voters, List.length_map]
    refine ⟨nodup_voters_addVote hp.nodup, ?_, ?_⟩
    all_goals rw [addVote_fresh hv]
    · rw [← hp.voters]
      ext validator
      simp [ProposedBlock.voters]
    · rw [Bool.or_eq_true, hp.notarized, decide_eq_true_eq, Enough, Enough,
        Finset.card_insert_of_notMem hmem, hcard]
      constructor
      · rintro (⟨-, hle⟩ | hle)
        · exact ⟨Finset.insert_nonempty _ _, by omega⟩
        · exact ⟨Finset.insert_nonempty _ _, hle⟩
      · exact fun h => .inr h.2

namespace StreamletState

open StreamletMessage

variable {s : StreamletState} {ms : List StreamletMessage} {hash : Bytes32} {h : UInt64}
  {vote : StreamletVote} {p : ProposedBlock}

def deliver (s : StreamletState) : StreamletMessage → StreamletState
  | .proposal header blockHash epoch => (s.addProposal header blockHash epoch).2
  | .vote vote => (s.addVote vote).2

/-- The node has a notarized block of this height under this hash. -/
def NotarizedAt (s : StreamletState) (hash : Bytes32) (h : UInt64) : Prop :=
  ∃ p, s.proposedBlocks[hash]? = some p ∧ p.notarized = true ∧ p.header.height = h

instance (s : StreamletState) (hash : Bytes32) (h : UInt64) : Decidable (s.NotarizedAt hash h) :=
  decidable_of_iff
    ((s.proposedBlocks[hash]?.any fun p => p.notarized && p.header.height == h) = true)
    (by simp [NotarizedAt, Option.any_eq_true])

def afterAll (nodeId : NodeId) (committeeSize : ℕ) (ms : List StreamletMessage) : StreamletState :=
  ms.foldl deliver (new nodeId committeeSize)

/-! ### Pruning after a vote -/

/-- The second state is the first with a later final block and without some of what lies below it.
-/
structure Trimmed (t s : StreamletState) : Prop where
  size : s.committeeSize = t.committeeSize
  final : t.finalizedHeight ≤ s.finalizedHeight
  blocks : ∀ (hash : Bytes32) p, s.proposedBlocks[hash]? = some p → t.proposedBlocks[hash]? = some p
  kept : ∀ (hash : Bytes32) p, t.proposedBlocks[hash]? = some p →
    s.finalizedHeight ≤ p.header.height → s.proposedBlocks[hash]? = some p
  notes : ∀ (key : UInt64 × NodeId) (hash : Bytes32), s.remoteVotes[key]? = some hash →
    t.remoteVotes[key]? = some hash

theorem Filed.trimmed_addVote (hs : Filed s) (vote : StreamletVote) :
    Trimmed (s.tally vote).2 (s.addVote vote).2 := by
  rcases s.addVote_cases vote with h | ⟨newFinalized, middleHash, hgt, -, h⟩
  · rw [h]
    exact ⟨rfl, UInt64.le_refl _, fun _ _ hp => hp, fun _ _ hp _ => hp, fun _ _ hk => hk⟩
  · have hfiled : Filed { (s.tally vote).2 with
        finalizedHeight := newFinalized, finalizedHash := middleHash } :=
      (hs.tally vote).congr rfl fun _ => rfl
    rw [h]
    refine ⟨rfl, UInt64.le_of_lt hgt, fun hash p hp => ?_, fun hash p hp hle => ?_, ?_⟩
    · exact (hfiled.getElem?_pruneBelow.mp hp).1
    · exact hfiled.getElem?_pruneBelow.mpr ⟨hp, hle⟩
    · intro key hash hk
      simp only [StreamletState.pruneBelow, ExtTreeMap.getElem?_filter',
        Option.filter_eq_some_iff] at hk
      exact hk.1

/-! ### What a node knows -/

structure Delivered (committeeSize : ℕ) (ms : List StreamletMessage) (s : StreamletState) :
    Prop where
  size : s.committeeSize = committeeSize
  filed : Filed s
  /-- Notes are of votes that came. -/
  notes : ∀ (key : UInt64 × NodeId) (hash : Bytes32), s.remoteVotes[key]? = some hash →
    ∃ v, .vote v ∈ ms ∧ (v.epoch, v.signature.validator) = key ∧ v.blockHash = hash
  /-- What is stored was proposed. -/
  stored : ∀ hash h, s.heightOf hash = some h → ProposedAt ms hash h
  /-- What was proposed above the final block is stored, with the votes that came in time. -/
  blocks : ∀ hash h, ProposedAt ms hash h → s.finalizedHeight < h →
    ∃ p, s.proposedBlocks[hash]? = some p ∧ p.header.height = h ∧
      p.Tallied committeeSize (timelyVoters hash ms)

variable {committeeSize : ℕ}

theorem delivered_new (nodeId : NodeId) :
    Delivered committeeSize [] (new nodeId committeeSize) := by
  refine ⟨rfl, filed_new nodeId committeeSize, ?_, ?_, ?_⟩
  · intro key hash hk
    simp [new] at hk
  · intro hash h hh
    simp [new, heightOf] at hh
  · rintro hash h ⟨header, epoch, hm, -⟩
    exact absurd hm List.not_mem_nil

theorem Delivered.notes_append (hs : Delivered committeeSize ms s) (ms' : List StreamletMessage)
    (key : UInt64 × NodeId) (hash : Bytes32) (hk : s.remoteVotes[key]? = some hash) :
    ∃ v, .vote v ∈ ms ++ ms' ∧ (v.epoch, v.signature.validator) = key ∧ v.blockHash = hash := by
  obtain ⟨v, hv, hkey⟩ := hs.notes key hash hk
  exact ⟨v, List.mem_append_left _ hv, hkey⟩

/-- A proposal that is known is known at its height; one that is not has no vote yet. -/
theorem Delivered.addProposal (hs : Delivered committeeSize ms s) {header : BlockHeader}
    {blockHash : Bytes32} {epoch : UInt64}
    (hheights : OneHeight (ms ++ [.proposal header blockHash epoch])) :
    Delivered committeeSize (ms ++ [.proposal header blockHash epoch])
      (s.addProposal header blockHash epoch).2 := by
  have hnew : ProposedAt (ms ++ [.proposal header blockHash epoch]) blockHash header.height :=
    proposedAt_append_proposal.mpr (.inr ⟨rfl, rfl⟩)
  obtain ⟨hsize, hfinal, -, hnotes⟩ := s.addProposal_frame header blockHash epoch
  refine ⟨hsize.trans hs.size, hs.filed.addProposal header blockHash epoch, ?_, ?_, ?_⟩
  · rw [hnotes]
    exact hs.notes_append _
  · intro hash h hh
    obtain ⟨p, hp, rfl⟩ := heightOf_eq_some.mp hh
    rcases stored_of_addProposal hp with hp | ⟨rfl, rfl⟩
    · exact (hs.stored hash _ (heightOf_eq_some.mpr ⟨p, hp, rfl⟩)).append
    · exact hnew
  · intro hash h hp hlt
    rw [hfinal] at hlt
    rw [timelyVoters_append_proposal, getElem?_addProposal]
    by_cases hbefore : ProposedAt ms hash h
    · obtain ⟨p, hstored, hrest⟩ := hs.blocks hash h hbefore hlt
      exact ⟨p, by rw [hstored, Option.some_or], hrest⟩
    · obtain ⟨rfl, rfl⟩ := (proposedAt_append_proposal.mp hp).resolve_left hbefore
      -- an earlier proposal of it would have been of this height
      have hfirst : ∀ h, ¬ ProposedAt ms hash h := fun h hp' =>
        hbefore (hheights hash _ _ hp'.append hnew ▸ hp')
      have hnone : s.proposedBlocks[hash]? = none := by
        refine Option.eq_none_iff_forall_ne_some.mpr fun p hp' => ?_
        exact hfirst _ (hs.stored hash _ (heightOf_eq_some.mpr ⟨p, hp', rfl⟩))
      rw [hnone, Option.none_or, if_pos rfl, timelyVoters_eq_empty hfirst]
      exact ⟨_, rfl, rfl, ProposedBlock.tallied_new⟩

theorem Delivered.not_equivocates (hs : Delivered committeeSize ms s)
    (hone : OneVotePerEpoch (ms ++ [.vote vote])) : s.equivocates vote = false := by
  cases hk : s.remoteVotes[(vote.epoch, vote.signature.validator)]? with
  | none => simp [equivocates, hk]
  | some hash =>
    obtain ⟨v, hv, hkey, rfl⟩ := hs.notes _ hash hk
    obtain ⟨hepoch, hvalidator⟩ := Prod.ext_iff.mp hkey
    have hsame := hone v vote (List.mem_append_left _ hv) (by simp) hepoch hvalidator
    simp [equivocates, hk, hsame]

theorem Delivered.tallied_tally (hs : Delivered committeeSize ms s)
    (hagrees : s.equivocates vote = false) (hp : ProposedAt ms hash h)
    (hlt : s.finalizedHeight < h) :
    ∃ p, (s.tally vote).2.proposedBlocks[hash]? = some p ∧ p.header.height = h ∧
      p.Tallied committeeSize (timelyVoters hash (ms ++ [.vote vote])) := by
  obtain ⟨p, hstored, rfl, htallied⟩ := hs.blocks hash h hp hlt
  rw [timelyVoters_append_vote hp, getElem?_tally, hstored, Option.map_some]
  by_cases hhash : vote.blockHash = hash
  · rw [if_pos ⟨hhash.symm, hagrees⟩, if_pos hhash, hs.size]
    exact ⟨_, rfl, by rw [ProposedBlock.addVote_header], htallied.addVote vote⟩
  · rw [if_neg fun hc => hhash hc.1.symm, if_neg hhash]
    exact ⟨p, rfl, rfl, htallied⟩

theorem Delivered.addVote (hs : Delivered committeeSize ms s)
    (hone : OneVotePerEpoch (ms ++ [.vote vote])) :
    Delivered committeeSize (ms ++ [.vote vote]) (s.addVote vote).2 := by
  have hagrees := hs.not_equivocates hone
  have htrim := hs.filed.trimmed_addVote vote
  obtain ⟨-, hsize, -, hfinal, -⟩ := s.tally_frame vote
  refine ⟨?_, hs.filed.addVote vote, ?_, ?_, ?_⟩
  · rw [htrim.size, hsize, hs.size]
  · intro key hash hk
    have hnoted := htrim.notes key hash hk
    rw [remoteVotes_tally hagrees, noted] at hnoted
    by_cases hkey : (vote.epoch, vote.signature.validator) = key
    · rw [hkey, getElem?_insert_self'] at hnoted
      exact ⟨vote, by simp, hkey, Option.some.inj hnoted⟩
    · rw [getElem?_insert_ne _ _ hkey] at hnoted
      exact hs.notes_append _ key hash hnoted
  · intro hash h hh
    obtain ⟨p, hp, hheight⟩ := heightOf_eq_some.mp hh
    have htally : (s.tally vote).2.heightOf hash = some h :=
      heightOf_eq_some.mpr ⟨p, htrim.blocks hash p hp, hheight⟩
    rw [heightOf_tally] at htally
    exact proposedAt_append_vote.mpr (hs.stored hash h htally)
  · intro hash h hp hlt
    rw [proposedAt_append_vote] at hp
    have hbefore : s.finalizedHeight < h := by
      rw [← hfinal]
      exact UInt64.lt_of_le_of_lt htrim.final hlt
    obtain ⟨p, hcounted, rfl, htallied⟩ := hs.tallied_tally hagrees hp hbefore
    exact ⟨p, htrim.kept hash p hcounted (UInt64.le_of_lt hlt), rfl, htallied⟩

theorem delivered (nodeId : NodeId) (hone : OneVotePerEpoch ms) (hheights : OneHeight ms) :
    Delivered committeeSize ms (afterAll nodeId committeeSize ms) := by
  induction ms using List.reverseRecOn with
  | nil => exact delivered_new nodeId
  | append_singleton ms m ih =>
    have hms := ih
      (fun v w hv hw => hone v w (List.mem_append_left _ hv) (List.mem_append_left _ hw))
      (fun hash h h' hp hp' => hheights hash h h' hp.append hp'.append)
    rw [afterAll, List.foldl_append]
    cases m with
    | proposal header blockHash epoch => exact hms.addProposal hheights
    | vote vote => exact hms.addVote hone

theorem Delivered.notarized_iff (hs : Delivered committeeSize ms s) (hlt : s.finalizedHeight < h) :
    s.NotarizedAt hash h ↔ ProposedAt ms hash h ∧ Enough committeeSize (timelyVoters hash ms) := by
  constructor
  · rintro ⟨p, hp, hn, hheight⟩
    have hproposed := hs.stored hash h (heightOf_eq_some.mpr ⟨p, hp, hheight⟩)
    obtain ⟨q, hq, -, htallied⟩ := hs.blocks hash h hproposed hlt
    rw [hp] at hq
    cases hq
    exact ⟨hproposed, htallied.notarized.mp hn⟩
  · rintro ⟨hproposed, henough⟩
    obtain ⟨p, hp, hheight, htallied⟩ := hs.blocks hash h hproposed hlt
    exact ⟨p, hp, htallied.notarized.mpr henough, hheight⟩

/-- **When notarization does not depend on the order.**  Two orders of the same proposals and votes
yield the same notarized blocks above the final blocks of both exactly if, for every block proposed
there, enough validators vote after the proposal in both orders or in neither. -/
theorem notarization_order_iff {ms' : List StreamletMessage} (hperm : ms.Perm ms')
    (hone : OneVotePerEpoch ms) (hheights : OneHeight ms) (nodeId : NodeId) (committeeSize : ℕ) :
    let s := afterAll nodeId committeeSize ms
    let s' := afterAll nodeId committeeSize ms'
    (∀ hash h, s.finalizedHeight < h → s'.finalizedHeight < h →
        (s.NotarizedAt hash h ↔ s'.NotarizedAt hash h)) ↔
      ∀ hash h, s.finalizedHeight < h → s'.finalizedHeight < h → ProposedAt ms hash h →
        (Enough committeeSize (timelyVoters hash ms) ↔
          Enough committeeSize (timelyVoters hash ms')) := by
  intro s s'
  have hmem : ∀ {m}, m ∈ ms' ↔ m ∈ ms := fun {m} => hperm.mem_iff.symm
  have hproposed : ∀ {hash h}, ProposedAt ms' hash h ↔ ProposedAt ms hash h := by
    intro hash h
    simp only [ProposedAt, hmem]
  have hs : Delivered committeeSize ms s := delivered nodeId hone hheights
  have hs' : Delivered committeeSize ms' s' := by
    refine delivered nodeId (fun v w hv hw => hone v w (hmem.mp hv) (hmem.mp hw)) ?_
    exact fun hash h h' hp hp' => hheights hash h h' (hproposed.mp hp) (hproposed.mp hp')
  refine forall₂_congr fun hash h => forall₂_congr fun hlt hlt' => ?_
  rw [hs.notarized_iff hlt, hs'.notarized_iff hlt', hproposed]
  exact and_congr_right_iff

open Reference

def ballotFor (v w : UInt8) : List StreamletMessage :=
  [.proposal (headerAt 1 {} (node 1)) (.splat 1) 1,
    .vote ⟨1, .splat 1, 1, ⟨node v, []⟩⟩, .vote ⟨1, .splat 1, 1, ⟨node w, []⟩⟩]

/-- Two orders of two votes that come in time. -/
theorem notarization_order_twoVotes :
    let s := afterAll (node 1) 3 (ballotFor 1 2)
    let s' := afterAll (node 1) 3 (ballotFor 2 1)
    ∀ hash h, s.finalizedHeight < h → s'.finalizedHeight < h →
      (s.NotarizedAt hash h ↔ s'.NotarizedAt hash h) := by
  have hperm : (ballotFor 1 2).Perm (ballotFor 2 1) := .cons _ (.swap _ _ _)
  have hproposed : ∀ {hash h}, ProposedAt (ballotFor 1 2) hash h → hash = .splat 1 ∧ h = 1 := by
    rintro hash h ⟨header, epoch, hm, rfl⟩
    simp only [ballotFor, List.mem_cons, List.not_mem_nil, or_false, reduceCtorEq] at hm
    cases hm
    exact ⟨rfl, rfl⟩
  have hvotes : ∀ {v}, .vote v ∈ ballotFor 1 2 → v.blockHash = .splat 1 := by
    intro v hv
    simp only [ballotFor, List.mem_cons, List.not_mem_nil, or_false, reduceCtorEq, false_or,
      StreamletMessage.vote.injEq] at hv
    rcases hv with rfl | rfl
    · rfl
    · rfl
  have hsame :
      timelyVoters (.splat 1) (ballotFor 1 2) = timelyVoters (.splat 1) (ballotFor 2 1) := by
    decide +kernel
  refine (notarization_order_iff hperm ?_ ?_ _ _).mpr ?_
  · intro v w hv hw _ _
    rw [hvotes hv, hvotes hw]
  · intro hash h h' hp hp'
    rw [(hproposed hp).2, (hproposed hp').2]
  · intro hash h _ _ hp
    rw [(hproposed hp).1, hsame]

/-- **An early vote is lost.**  In a committee of one, a vote that comes after its proposal
notarizes the block; the same vote before the proposal does not. -/
theorem early_vote_lost :
    let proposal : StreamletMessage :=
      .proposal (headerAt 1 {} (node 1)) (.splat 1) 1
    let vote : StreamletMessage := .vote ⟨1, .splat 1, 1, ⟨node 1, []⟩⟩
    let s := afterAll (node 1) 1 [proposal, vote]
    let s' := afterAll (node 1) 1 [vote, proposal]
    s.finalizedHeight = 0 ∧ s'.finalizedHeight = 0 ∧ s.NotarizedAt (.splat 1) 1 ∧
      ¬ s'.NotarizedAt (.splat 1) 1 := by
  decide +kernel

end StreamletState

end Gratia
