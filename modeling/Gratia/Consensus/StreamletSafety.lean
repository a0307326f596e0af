import Gratia.Consensus.StreamletCalls
import Gratia.Support.Quorum

/-!
# Consensus — Streamlet safety

A network of Streamlet nodes.  Proposals and votes reach nodes in any order, or not at all; a
validator that is not faulty votes when its own `shouldVote` says so, and notes the vote.
-/

namespace Gratia

open Support Support.Quorum Std

/-! ### The network -/

structure StreamletNet where
  nodes : NodeId → StreamletState
  headers : List BlockHeader := []
  cast : List StreamletVote := []

inductive StreamletEvent where
  /-- A proposal reaches a node. -/
  | proposal (node : NodeId) (header : BlockHeader) (epoch : UInt64)
  /-- A validator that is not faulty votes for a block it knows. -/
  | vote (validator : NodeId) (blockHash : Bytes32) (signature : Bytes)
  /-- A faulty validator casts any vote in its own name. -/
  | faultyVote (vote : StreamletVote)
  /-- A cast vote of a committee member reaches a node. -/
  | delivery (node : NodeId) (vote : StreamletVote)

namespace StreamletNet

variable (P : Platform) (committee faulty : Finset NodeId)

def start : StreamletNet := { nodes := fun v => .new v committee.card }

def setNode (net : StreamletNet) (node : NodeId) (s : StreamletState) : StreamletNet :=
  { net with nodes := Function.update net.nodes node s }

/-- One event, with whether it can happen; one that cannot changes nothing. -/
def step (net : StreamletNet) : StreamletEvent → Bool × StreamletNet
  | .proposal node header epoch =>
    let s := ((net.nodes node).addProposal header (header.hash P).bytes epoch).2
    (true, { net.setNode node s with headers := net.headers ++ [header] })
  | .vote validator blockHash signature =>
    match (net.nodes validator).proposedBlocks[blockHash]? with
    | none => (false, net)
    | some p =>
      if validator ∈ committee ∧ validator ∉ faulty ∧
          (net.nodes validator).shouldVote blockHash p.epoch then
        let vote := ⟨p.epoch, blockHash, p.header.height, ⟨validator, signature⟩⟩
        (true, { net.setNode validator ((net.nodes validator).recordVote p.epoch blockHash) with
          cast := net.cast ++ [vote] })
      else (false, net)
  | .faultyVote vote =>
    if vote.signature.validator ∈ faulty then (true, { net with cast := net.cast ++ [vote] })
    else (false, net)
  | .delivery node vote =>
    if vote ∈ net.cast ∧ vote.signature.validator ∈ committee then
      (true, net.setNode node ((net.nodes node).addVote vote).2)
    else (false, net)

def run (net : StreamletNet) (events : List StreamletEvent) : StreamletNet :=
  Support.run (step P committee faulty) net events

/-! ### What nodes know -/

variable {P committee faulty} {headers headers' : List BlockHeader}
  {cast cast' : List StreamletVote} {s : StreamletState}

def VotedFor (cast : List StreamletVote) (validator : NodeId) (blockHash : Bytes32) : Prop :=
  ∃ w ∈ cast, w.signature.validator = validator ∧ w.blockHash = blockHash

def Proposed (P : Platform) (headers : List BlockHeader) (height : UInt64) (blockHash : Bytes32) :
    Prop :=
  ∃ header ∈ headers, header.height = height ∧ (header.hash P).bytes = blockHash

/-- The votes a node counts for a block are cast votes for it, of different committee members, and
as many as notarization takes if the block is notarized. -/
structure ProposalOk (P : Platform) (committee : Finset NodeId) (headers : List BlockHeader)
    (cast : List StreamletVote) (blockHash : Bytes32) (p : ProposedBlock) : Prop where
  proposed : Proposed P headers p.header.height blockHash
  nodup : (p.votes.map fun v => v.signature.validator).Nodup
  backed : ∀ v ∈ p.votes, v ∈ cast ∧ v.blockHash = blockHash ∧ v.signature.validator ∈ committee
  notarized : p.notarized = true → notarizationThreshold committee.card ≤ p.votes.length

/-- The block of this height has the votes of two thirds of the committee. -/
def Notarized (P : Platform) (committee : Finset NodeId) (headers : List BlockHeader)
    (cast : List StreamletVote) (height : UInt64) (blockHash : Bytes32) : Prop :=
  Proposed P headers height blockHash ∧
    Certified committee (notarizationThreshold committee.card) (VotedFor cast) blockHash

/-- What a node knows is backed by what was proposed and cast; its final block is the genesis
placeholder or notarized. -/
structure NodeOk (P : Platform) (committee : Finset NodeId) (headers : List BlockHeader)
    (cast : List StreamletVote) (s : StreamletState) : Prop where
  size : s.committeeSize = committee.card
  blocks : ∀ (blockHash : Bytes32) p, s.proposedBlocks[blockHash]? = some p →
    ProposalOk P committee headers cast blockHash p
  listed : ∀ (h : UInt64) hashes, s.blocksByHeight[h]? = some hashes → ∀ hash ∈ hashes,
    Proposed P headers h hash
  final : s.finalizedHeight = 0 ∧ s.finalizedHash = .zero ∨
    0 < s.finalizedHeight ∧ Notarized P committee headers cast s.finalizedHeight s.finalizedHash

variable {h : UInt64} {hash : Bytes32}

theorem Proposed.mono (hh : headers ⊆ headers') (hp : Proposed P headers h hash) :
    Proposed P headers' h hash := by
  obtain ⟨header, hmem, he⟩ := hp
  exact ⟨header, hh hmem, he⟩

theorem VotedFor.mono {v : NodeId} (hc : cast ⊆ cast') (hv : VotedFor cast v hash) :
    VotedFor cast' v hash := by
  obtain ⟨w, hw, he⟩ := hv
  exact ⟨w, hc hw, he⟩

theorem Notarized.mono (hh : headers ⊆ headers') (hc : cast ⊆ cast')
    (hn : Notarized P committee headers cast h hash) :
    Notarized P committee headers' cast' h hash :=
  ⟨hn.1.mono hh, hn.2.mono fun _ hv => hv.mono hc⟩

theorem NodeOk.mono (hh : headers ⊆ headers') (hc : cast ⊆ cast')
    (hs : NodeOk P committee headers cast s) : NodeOk P committee headers' cast' s := by
  refine ⟨hs.size, fun hash p hp => ?_, fun h hashes hb hash hm => ?_, ?_⟩
  · have h := hs.blocks hash p hp
    exact ⟨h.proposed.mono hh, h.nodup, fun v hv => ⟨hc (h.backed v hv).1, (h.backed v hv).2⟩,
      h.notarized⟩
  · exact (hs.listed h hashes hb hash hm).mono hh
  · rcases hs.final with h | ⟨hpos, hn⟩
    · exact .inl h
    · exact .inr ⟨hpos, hn.mono hh hc⟩

/-! ### What nodes do -/

theorem nodeOk_new (v : NodeId) : NodeOk P committee [] [] (.new v committee.card) := by
  refine ⟨rfl, fun hash p hp => ?_, fun h hashes hb => ?_, .inl ⟨rfl, rfl⟩⟩
  · simp [StreamletState.new] at hp
  · simp [StreamletState.new] at hb

theorem NodeOk.recordVote (hs : NodeOk P committee headers cast s) (epoch : UInt64)
    (hash : Bytes32) : NodeOk P committee headers cast (s.recordVote epoch hash) :=
  ⟨hs.size, hs.blocks, hs.listed, hs.final⟩

theorem NodeOk.addProposal (hs : NodeOk P committee headers cast s) {header : BlockHeader}
    (hmem : header ∈ headers) (epoch : UInt64) :
    NodeOk P committee headers cast (s.addProposal header (header.hash P).bytes epoch).2 := by
  have hprop : Proposed P headers header.height (header.hash P).bytes := ⟨header, hmem, rfl, rfl⟩
  obtain ⟨hsize, hheight, hhash, -⟩ := s.addProposal_frame header (header.hash P).bytes epoch
  refine ⟨hsize.trans hs.size, fun hash p hp => ?_, fun h hashes hb hash hm => ?_, ?_⟩
  · rcases StreamletState.stored_of_addProposal hp with hp | ⟨rfl, rfl⟩
    · exact hs.blocks hash p hp
    · exact ⟨hprop, List.nodup_nil, fun _ hv => absurd hv List.not_mem_nil, nofun⟩
  · have hlisted := StreamletState.mem_listedAt.mpr ⟨hashes, hb, hm⟩
    rw [StreamletState.listedAt_addProposal, List.mem_append] at hlisted
    rcases hlisted with hold | hnew
    · obtain ⟨hashes, hb, hm⟩ := StreamletState.mem_listedAt.mp hold
      exact hs.listed h hashes hb hash hm
    · split at hnew
      · next hat =>
          rw [List.mem_singleton.mp hnew, ← hat.2]
          exact hprop
      · exact absurd hnew List.not_mem_nil
  · rw [hheight, hhash]
    exact hs.final

theorem NodeOk.pruneBelow (hs : NodeOk P committee headers cast s) (height : UInt64) :
    NodeOk P committee headers cast (s.pruneBelow height) :=
  ⟨hs.size, fun hash p hp => hs.blocks hash p (StreamletState.pruneBelow_proposedBlocks hp),
    fun h hashes hb => hs.listed h hashes (StreamletState.pruneBelow_blocksByHeight hb), hs.final⟩

theorem NodeOk.notarized (hs : NodeOk P committee headers cast s)
    (hn : s.getNotarizedAt h = some hash) : Notarized P committee headers cast h hash := by
  obtain ⟨⟨hashes, hb, hm⟩, p, hp, hpn⟩ := StreamletState.getNotarizedAt_some hn
  have hok := hs.blocks hash p hp
  -- The quorum is the set of the validators counted; they are different, so none is lost in it.
  refine ⟨hs.listed h hashes hb hash hm, (p.votes.map fun v => v.signature.validator).toFinset,
    fun v hv => ?_, ?_, fun v hv => ?_⟩
  · obtain ⟨w, hw, rfl⟩ := List.mem_map.mp (List.mem_toFinset.mp hv)
    exact (hok.backed w hw).2.2
  · rw [List.toFinset_card_of_nodup hok.nodup, List.length_map]
    exact hok.notarized hpn
  · obtain ⟨w, hw, rfl⟩ := List.mem_map.mp (List.mem_toFinset.mp hv)
    exact ⟨w, (hok.backed w hw).1, rfl, (hok.backed w hw).2.1⟩

theorem ProposalOk.addVote {p : ProposedBlock} (hp : ProposalOk P committee headers cast hash p)
    {vote : StreamletVote} (hcast : vote ∈ cast) (hhash : vote.blockHash = hash)
    (hmem : vote.signature.validator ∈ committee) :
    ProposalOk P committee headers cast hash (p.addVote vote committee.card).2 := by
  by_cases hknown : vote.signature.validator ∈ p.voters
  · rwa [ProposedBlock.addVote_known hknown]
  · have hnodup : (p.addVote vote committee.card).2.voters.Nodup :=
      ProposedBlock.nodup_voters_addVote hp.nodup
    rw [ProposedBlock.addVote_fresh hknown] at hnodup ⊢
    refine ⟨hp.proposed, hnodup, fun v hv => ?_, fun hnot => ?_⟩
    · rcases List.mem_append.mp hv with hv | hv
      · exact hp.backed v hv
      · rw [List.mem_singleton.mp hv]
        exact ⟨hcast, hhash, hmem⟩
    · rw [List.length_append]
      rcases Bool.or_eq_true_iff.mp hnot with hold | hthr
      · exact Nat.le_add_right_of_le (hp.notarized hold)
      · exact of_decide_eq_true hthr

theorem NodeOk.tally (hs : NodeOk P committee headers cast s) {vote : StreamletVote}
    (hcast : vote ∈ cast) (hmem : vote.signature.validator ∈ committee) :
    NodeOk P committee headers cast (s.tally vote).2 := by
  obtain ⟨-, hsize, hlists, hheight, hhash⟩ := s.tally_frame vote
  refine ⟨hsize.trans hs.size, fun hash p hp => ?_, ?_, ?_⟩
  · rw [StreamletState.getElem?_tally, Option.map_eq_some_iff] at hp
    obtain ⟨q, hq, rfl⟩ := hp
    split
    · next hvote =>
        rw [hs.size]
        exact (hs.blocks hash q hq).addVote hcast hvote.1.symm hmem
    · exact hs.blocks hash q hq
  · rw [hlists]
    exact hs.listed
  · rw [hheight, hhash]
    exact hs.final

theorem NodeOk.addVote (hs : NodeOk P committee headers cast s) {vote : StreamletVote}
    (hcast : vote ∈ cast) (hmem : vote.signature.validator ∈ committee) :
    NodeOk P committee headers cast (s.addVote vote).2 := by
  have htally := hs.tally hcast hmem
  rcases s.addVote_cases vote with h | ⟨newFinalized, middleHash, hgt, hm, h⟩
  · rwa [h]
  · have hpos : 0 < newFinalized :=
      UInt64.lt_of_le_of_lt (UInt64.le_iff_toNat_le.mpr (Nat.zero_le _)) hgt
    rw [h]
    refine NodeOk.pruneBelow ?_ newFinalized
    exact ⟨htally.size, htally.blocks, htally.listed, .inr ⟨hpos, htally.notarized hm⟩⟩

/-! ### Runs -/

/-- Every node is in order, and a vote of a validator that is not faulty is for a proposed block
and gives its height. -/
structure NetOk (P : Platform) (committee faulty : Finset NodeId) (net : StreamletNet) : Prop where
  nodes : ∀ v, NodeOk P committee net.headers net.cast (net.nodes v)
  votes : ∀ w ∈ net.cast, w.signature.validator ∉ faulty →
    Proposed P net.headers w.height w.blockHash

theorem netOk_start : NetOk P committee faulty (start committee) :=
  ⟨fun v => nodeOk_new v, fun _ hw => absurd hw List.not_mem_nil⟩

variable {net : StreamletNet}

theorem nodeOk_setNode (hnodes : ∀ v, NodeOk P committee headers cast (net.nodes v)) {node : NodeId}
    (hs : NodeOk P committee headers cast s) (v : NodeId) :
    NodeOk P committee headers cast ((net.setNode node s).nodes v) := by
  simp only [setNode]
  by_cases hv : v = node
  · subst hv
    rw [Function.update_self]
    exact hs
  · rw [Function.update_of_ne hv]
    exact hnodes v

theorem NetOk.step (h : NetOk P committee faulty net) (ev : StreamletEvent) :
    NetOk P committee faulty (net.step P committee faulty ev).2 := by
  cases ev with
  | proposal node header epoch =>
    have hsub : net.headers ⊆ net.headers ++ [header] := List.subset_append_left _ _
    have hnodes := fun v => (h.nodes v).mono hsub (List.Subset.refl _)
    refine ⟨nodeOk_setNode hnodes ((hnodes node).addProposal (by simp) epoch), ?_⟩
    exact fun w hw hf => (h.votes w hw hf).mono hsub
  | vote validator blockHash signature =>
    simp only [StreamletNet.step]
    cases hp : (net.nodes validator).proposedBlocks[blockHash]? with
    | none => exact h
    | some p =>
      simp only
      split
      · have hsub := List.subset_append_left net.cast
          [⟨p.epoch, blockHash, p.header.height, ⟨validator, signature⟩⟩]
        have hnodes := fun v => (h.nodes v).mono (List.Subset.refl _) hsub
        refine ⟨nodeOk_setNode hnodes ((hnodes validator).recordVote _ _), fun w hw hf => ?_⟩
        rcases List.mem_append.mp hw with hw | hw
        · exact h.votes w hw hf
        · rw [List.mem_singleton.mp hw]
          exact ((h.nodes validator).blocks blockHash p hp).proposed
      · exact h
  | faultyVote vote =>
    simp only [StreamletNet.step]
    split
    · next hfaulty =>
        have hsub := List.subset_append_left net.cast [vote]
        refine ⟨fun v => (h.nodes v).mono (List.Subset.refl _) hsub, fun w hw hf => ?_⟩
        rcases List.mem_append.mp hw with hw | hw
        · exact h.votes w hw hf
        · rw [List.mem_singleton.mp hw] at hf
          exact absurd hfaulty hf
    · exact h
  | delivery node vote =>
    simp only [StreamletNet.step]
    split
    · next hvote =>
        exact ⟨nodeOk_setNode h.nodes ((h.nodes node).addVote hvote.1 hvote.2), h.votes⟩
    · exact h

theorem NetOk.run (h : NetOk P committee faulty net) (events : List StreamletEvent) :
    NetOk P committee faulty (net.run P committee faulty events) :=
  run_induction (NetOk P committee faulty) (fun _ => True) (fun _ ev _ hn => hn.step ev)
    events net (fun _ _ => trivial) h

variable (P committee faulty)

theorem step_grows (net : StreamletNet) (ev : StreamletEvent) :
    net.headers ⊆ (net.step P committee faulty ev).2.headers ∧
      net.cast ⊆ (net.step P committee faulty ev).2.cast := by
  cases ev with
  | proposal node header epoch => exact ⟨List.subset_append_left _ _, List.Subset.refl _⟩
  | vote | faultyVote | delivery =>
    simp only [StreamletNet.step]
    repeat' split
    all_goals simp [setNode]

theorem run_grows (net : StreamletNet) (events : List StreamletEvent) :
    net.headers ⊆ (net.run P committee faulty events).headers ∧
      net.cast ⊆ (net.run P committee faulty events).cast := by
  refine run_induction
    (fun later => net.headers ⊆ later.headers ∧ net.cast ⊆ later.cast) (fun _ => True) ?_
    events net (fun _ _ => trivial) ⟨List.Subset.refl _, List.Subset.refl _⟩
  rintro later ev - ⟨hh, hc⟩
  have hstep := step_grows P committee faulty later ev
  exact ⟨List.Subset.trans hh hstep.1, List.Subset.trans hc hstep.2⟩

variable {P committee faulty}

/-! ### Safety -/

/-- A validator that is not faulty votes for one block at each height. -/
def OneVotePerHeight (faulty : Finset NodeId) (cast : List StreamletVote) : Prop :=
  ∀ w ∈ cast, ∀ w' ∈ cast, w.signature.validator = w'.signature.validator →
    w.signature.validator ∉ faulty → w.height = w'.height → w.blockHash = w'.blockHash

instance : Decidable (OneVotePerHeight faulty cast) :=
  inferInstanceAs (Decidable (∀ w ∈ cast, ∀ w' ∈ cast, _))

/-- Two headers that were proposed have different hashes. -/
def HashesApart (P : Platform) (headers : List BlockHeader) : Prop :=
  ∀ h ∈ headers, ∀ h' ∈ headers, h.hash P = h'.hash P → h = h'

instance : Decidable (HashesApart P headers) :=
  inferInstanceAs (Decidable (∀ h ∈ headers, ∀ h' ∈ headers, _))

theorem proposed_height_unique (hhash : HashesApart P headers) {h' : UInt64}
    (hp : Proposed P headers h hash) (hp' : Proposed P headers h' hash) : h = h' := by
  obtain ⟨header, hmem, rfl, rfl⟩ := hp
  obtain ⟨header', hmem', rfl, he⟩ := hp'
  have heq : header.hash P = header'.hash P := by
    rw [show header.hash P = ⟨(header.hash P).bytes⟩ from rfl, ← he]
  rw [hhash header hmem header' hmem' heq]

theorem notarized_unique (hnet : NetOk P committee faulty net)
    (hsize : committee.card < 2 ^ 63 - 1) (hfaulty : 3 * faulty.card < committee.card)
    (hhash : HashesApart P net.headers) (hone : OneVotePerHeight faulty net.cast) {hash' : Bytes32}
    (hn : Notarized P committee net.headers net.cast h hash)
    (hn' : Notarized P committee net.headers net.cast h hash') : hash = hash' := by
  have hoverlap : faulty.card + committee.card < 2 * notarizationThreshold committee.card := by
    rw [notarizationThreshold_eq hsize]
    omega
  -- Two quorums share a validator that is not faulty, and its two votes are of one height.
  refine eq_of_quorums hoverlap (fun v _ hv hv₁ hv₂ => ?_) hn.2 hn'.2
  obtain ⟨w, hw, rfl, rfl⟩ := hv₁
  obtain ⟨w', hw', hsame, rfl⟩ := hv₂
  have hheight := proposed_height_unique hhash (hnet.votes w hw hv) hn.1
  have hheight' := proposed_height_unique hhash (hnet.votes w' hw' (hsame ▸ hv)) hn'.1
  exact hone w hw w' hw' hsame.symm hv (hheight.trans hheight'.symm)

/-- **Streamlet safety.**  In any run with fewer than a third of the committee faulty, in which
every other validator votes for one block at each height, a node that has finalized a height and a
node that has finalized it at that moment or later hold the same block for final. -/
theorem streamlet_safety (hsize : committee.card < 2 ^ 63 - 1)
    (hfaulty : 3 * faulty.card < committee.card) (events later : List StreamletEvent) (p q : NodeId)
    (hhash : HashesApart P (((start committee).run P committee faulty events).run P committee faulty
      later).headers)
    (hone : OneVotePerHeight faulty (((start committee).run P committee faulty events).run P
      committee faulty later).cast)
    (hheight : (((start committee).run P committee faulty events).nodes p).finalizedHeight =
      ((((start committee).run P committee faulty events).run P committee faulty later).nodes
        q).finalizedHeight) :
    (((start committee).run P committee faulty events).nodes p).finalizedHash =
      ((((start committee).run P committee faulty events).run P committee faulty later).nodes
        q).finalizedHash := by
  have hnet : NetOk P committee faulty ((start committee).run P committee faulty events) :=
    netOk_start.run events
  have hnet' := hnet.run later
  obtain ⟨hh, hc⟩ := run_grows P committee faulty
    ((start committee).run P committee faulty events) later
  have hp := ((hnet.nodes p).mono hh hc).final
  have hq := (hnet'.nodes q).final
  rcases hp with ⟨hzero, hp⟩ | ⟨hpos, hp⟩
  · rcases hq with ⟨-, hq⟩ | ⟨hpos', -⟩
    · rw [hp, hq]
    · -- Genesis and a finalized block are not at one height.
      rw [← hheight, hzero] at hpos'
      exact absurd hpos' (UInt64.lt_irrefl _)
  · rcases hq with ⟨hzero', -⟩ | ⟨-, hq⟩
    · rw [hheight, hzero'] at hpos
      exact absurd hpos (UInt64.lt_irrefl _)
    · rw [hheight] at hp
      exact notarized_unique hnet' hsize hfaulty hhash hone hp hq

/-! ### Three honest validators -/

open Reference

def three : Finset NodeId := {node 1, node 2, node 3}

def block (height : UInt64) (parent : BlockHash) (producer : UInt8) : BlockHeader :=
  headerAt height parent (node producer)

def first : BlockHeader := block 1 {} 1
def second : BlockHeader := block 2 (first.hash reference) 2
def rival : BlockHeader := block 2 (first.hash reference) 3
def third : BlockHeader := block 3 (rival.hash reference) 1

def ballot (header : BlockHeader) (epoch : UInt64) : List StreamletEvent :=
  let hash := (header.hash reference).bytes
  [.proposal (node 1) header epoch, .proposal (node 2) header epoch,
   .vote (node 1) hash [], .vote (node 2) hash []]

def count (n : UInt8) (header : BlockHeader) (epoch : UInt64) : List StreamletEvent :=
  let vote := fun v : UInt8 =>
    (⟨epoch, (header.hash reference).bytes, header.height, ⟨node v, []⟩⟩ : StreamletVote)
  [.delivery (node n) (vote 1), .delivery (node n) (vote 2)]

def learn (n : UInt8) (header : BlockHeader) (epoch : UInt64) : List StreamletEvent :=
  .proposal (node n) header epoch :: count n header epoch

/-- Validators 1 and 2 notarize a first block, vote for a second one and, not having heard of its
votes, for a rival of it; they notarize the rival and vote for a third block.  Validator 1 sees it
notarized too.  Validator 3 hears of the first, the second and the third block. -/
def rivalry : List StreamletEvent :=
  ballot first 1 ++ count 1 first 1 ++ count 2 first 1 ++ ballot second 2 ++
    ballot rival 3 ++ count 1 rival 3 ++ count 2 rival 3 ++ ballot third 4 ++ count 1 third 4 ++
    learn 3 first 1 ++ learn 3 second 2 ++ learn 3 third 4

/-- **Two blocks of one height, both final.**  Every event can happen, nobody is faulty, and the
third block, whose parent is the rival, finalizes the second block at validator 3. -/
theorem two_votes_at_height_split :
    ((Support.trace (step reference three ∅) (fun _ => ()) (start three) rivalry).all
        fun answer => answer.1) = true ∧
      let net := (start three).run reference three ∅ rivalry
      HashesApart reference net.headers ∧
        (net.nodes (node 1)).finalizedHeight = 2 ∧
        (net.nodes (node 3)).finalizedHeight = 2 ∧
        (net.nodes (node 1)).finalizedHash ≠
          (net.nodes (node 3)).finalizedHash := by
  decide +kernel

def harmony : List StreamletEvent :=
  ballot first 1 ++ count 1 first 1 ++ count 2 first 1 ++ ballot rival 3 ++ count 1 rival 3 ++
    count 2 rival 3 ++ ballot third 4 ++ count 1 third 4

/-- Validator 3 comes later and agrees with validator 1. -/
theorem streamlet_safety_latecomer :
    let net := (start three).run reference three ∅ harmony
    let net' := net.run reference three ∅ (learn 3 first 1 ++ learn 3 rival 3 ++ learn 3 third 4)
    ((net.nodes (node 1)).finalizedHeight = 2 ∧ HashesApart reference net'.headers ∧
      OneVotePerHeight ∅ net'.cast ∧ (net.nodes (node 1)).finalizedHeight =
        (net'.nodes (node 3)).finalizedHeight) ∧
    (net.nodes (node 1)).finalizedHash =
      (net'.nodes (node 3)).finalizedHash := by
  exact Support.and_of_imp (by decide +kernel) fun ⟨_, hhash, hone, hheight⟩ =>
    streamlet_safety (by decide) (by decide) _ _ _ _ hhash hone hheight

end StreamletNet

end Gratia
