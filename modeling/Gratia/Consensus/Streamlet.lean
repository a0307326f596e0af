import Gratia.Consensus.Engine

/-!
# Consensus — Streamlet

`gratia-consensus/src/streamlet.rs`: the votes a node has heard of, the blocks they notarize, and
the block the node takes for final.  Hash maps are finite maps; no result depends on the order in
which they are traversed.
-/

namespace Gratia

open Support Std

/-! ### Votes and proposals -/

structure StreamletVote where
  epoch : UInt64
  blockHash : Bytes32
  height : UInt64
  signature : ValidatorSignature
deriving DecidableEq

structure ProposedBlock where
  header : BlockHeader
  blockHash : Bytes32
  epoch : UInt64
  votes : List StreamletVote := []
  notarized : Bool := false
  finalized : Bool := false
deriving DecidableEq

/-- `(committee_size * 2 + 2) / 3` in `usize`, where product and sum wrap around. -/
def notarizationThreshold (committeeSize : ℕ) : ℕ := (committeeSize * 2 + 2) % 2 ^ 64 / 3

theorem notarizationThreshold_eq {n : ℕ} (h : n < 2 ^ 63 - 1) :
    notarizationThreshold n = (n * 2 + 2) / 3 := by
  unfold notarizationThreshold
  rw [Nat.mod_eq_of_lt (by omega)]

/-- `ProposedBlock::add_vote`: whether the block is notarized by this vote. -/
def ProposedBlock.addVote (p : ProposedBlock) (vote : StreamletVote) (committeeSize : ℕ) :
    Bool × ProposedBlock :=
  if p.votes.any fun v => v.signature.validator == vote.signature.validator then (false, p)
  else
    let p := { p with votes := p.votes ++ [vote] }
    if !p.notarized ∧ p.votes.length ≥ notarizationThreshold committeeSize then
      (true, { p with notarized := true })
    else (false, p)

/-! ### The state of a node -/

structure StreamletState where
  nodeId : NodeId
  committeeSize : ℕ
  proposedBlocks : ExtTreeMap Bytes32 ProposedBlock := ∅
  blocksByHeight : ExtTreeMap UInt64 (List Bytes32) := ∅
  finalizedHeight : UInt64 := 0
  finalizedHash : Bytes32 := .zero
  votedEpochs : ExtTreeMap UInt64 Bytes32 := ∅
  highestNotarizedHeight : UInt64 := 0
  remoteVotes : ExtTreeMap (UInt64 × NodeId) Bytes32 := ∅

namespace StreamletState

def new (nodeId : NodeId) (committeeSize : ℕ) : StreamletState :=
  { nodeId := nodeId, committeeSize := committeeSize }

def addProposal (s : StreamletState) (header : BlockHeader) (blockHash : Bytes32) (epoch : UInt64) :
    Bool × StreamletState :=
  if s.proposedBlocks.contains blockHash then (false, s)
  else
    let proposed : ProposedBlock := { header := header, blockHash := blockHash, epoch := epoch }
    (true, { s with
      proposedBlocks := s.proposedBlocks.insert blockHash proposed
      blocksByHeight := s.blocksByHeight.insert header.height
        (s.blocksByHeight[header.height]?.getD [] ++ [blockHash]) })

def shouldVote (s : StreamletState) (blockHash : Bytes32) (epoch : UInt64) : Bool :=
  if s.votedEpochs.contains epoch then false
  else
    match s.proposedBlocks[blockHash]? with
    | none => false
    | some proposed =>
      let height := proposed.header.height
      -- Heights are compared, not parents: any block of the next height will do.
      if height ≤ s.finalizedHeight then false
      else if height ≠ s.highestNotarizedHeight + 1 ∧ height ≠ s.finalizedHeight + 1 then false
      else true

def recordVote (s : StreamletState) (epoch : UInt64) (blockHash : Bytes32) : StreamletState :=
  { s with votedEpochs := s.votedEpochs.insert epoch blockHash }

/-- `get_notarized_at`: the first notarized block of that height. -/
def getNotarizedAt (s : StreamletState) (height : UInt64) : Option Bytes32 :=
  match s.blocksByHeight[height]? with
  | some hashes => hashes.find? fun hash => s.proposedBlocks[hash]?.any fun p => p.notarized
  | none => none

def maxEpoch (epochs : List UInt64) : UInt64 := epochs.foldl max 0

def pruneBelow (s : StreamletState) (height : UInt64) : StreamletState :=
  let oldHashes := (s.blocksByHeight.toList.filter fun entry => entry.1 < height).flatMap Prod.snd
  let maxVoted := maxEpoch s.votedEpochs.keys
  let maxRemote := maxEpoch (s.remoteVotes.keys.map Prod.fst)
  { s with
    blocksByHeight := s.blocksByHeight.filter fun h _ => ¬ h < height
    proposedBlocks := oldHashes.foldl (fun m hash => m.erase hash) s.proposedBlocks
    votedEpochs := s.votedEpochs.filter fun e _ => ¬ e + 100 < maxVoted
    remoteVotes := s.remoteVotes.filter fun key _ => key.1 + 100 ≥ maxRemote }

def heightRange (start stop : UInt64) : List UInt64 :=
  (List.range (stop.toNat + 1 - start.toNat)).map fun i => start + UInt64.ofNat i

/-- The first three heights in a row with notarized blocks, by the middle one and its block. -/
def nextFinal (s : StreamletState) : Option (UInt64 × Bytes32) :=
  let stop := if s.highestNotarizedHeight = 0 then 0 else s.highestNotarizedHeight - 1
  (heightRange (s.finalizedHeight + 1) stop).findSome? fun h =>
    match s.getNotarizedAt h, s.getNotarizedAt (h + 1), s.getNotarizedAt (h + 2) with
    -- The three blocks need not be each other's parents.
    | some _, some middleHash, some _ =>
      if h + 1 > s.finalizedHeight then some (h + 1, middleHash) else none
    | _, _, _ => none

def checkFinality (s : StreamletState) : Option UInt64 × StreamletState :=
  match s.nextFinal with
  | some (newFinalized, middleHash) =>
    (some newFinalized,
      { s with finalizedHeight := newFinalized, finalizedHash := middleHash }.pruneBelow
        newFinalized)
  | none => (none, s)

/-- `add_vote`: whether the block is notarized by this vote, and a height finalized by it. -/
def addVote (s : StreamletState) (vote : StreamletVote) : (Bool × Option UInt64) × StreamletState :=
  if s.remoteVotes[(vote.epoch, vote.signature.validator)]?.any
      fun existingHash => existingHash ≠ vote.blockHash then
    ((false, none), s)
  else
    -- The note of the epoch's vote is kept also when the block is unknown.
    let s := { s with
      remoteVotes := s.remoteVotes.insert (vote.epoch, vote.signature.validator) vote.blockHash }
    match s.proposedBlocks[vote.blockHash]? with
    | none => ((false, none), s)
    | some proposed =>
      let (justNotarized, proposed) := proposed.addVote vote s.committeeSize
      let s := { s with proposedBlocks := s.proposedBlocks.insert vote.blockHash proposed }
      if justNotarized then
        let height := proposed.header.height
        let s := { s with
          highestNotarizedHeight :=
            if height > s.highestNotarizedHeight then height else s.highestNotarizedHeight }
        let (finalized, s) := s.checkFinality
        ((true, finalized), s)
      else ((false, none), s)

/-! ### What the methods do -/

variable {s : StreamletState}

theorem getNotarizedAt_some {h : UInt64} {hash : Bytes32} (hn : s.getNotarizedAt h = some hash) :
    (∃ hashes, s.blocksByHeight[h]? = some hashes ∧ hash ∈ hashes) ∧
      ∃ p, s.proposedBlocks[hash]? = some p ∧ p.notarized = true := by
  unfold getNotarizedAt at hn
  cases hb : s.blocksByHeight[h]? with
  | none =>
    rw [hb] at hn
    cases hn
  | some hashes =>
    rw [hb] at hn
    refine ⟨⟨hashes, rfl, List.mem_of_find?_eq_some hn⟩, ?_⟩
    have hany := List.find?_some hn
    cases hp : s.proposedBlocks[hash]? with
    | none => simp [hp] at hany
    | some p => exact ⟨p, rfl, by simpa [hp] using hany⟩

theorem pruneBelow_proposedBlocks {height : UInt64} {hash : Bytes32} {p : ProposedBlock}
    (h : (s.pruneBelow height).proposedBlocks[hash]? = some p) : s.proposedBlocks[hash]? = some p :=
  (getElem?_foldl_erase.mp h).2

theorem pruneBelow_blocksByHeight {height h : UInt64} {hashes : List Bytes32}
    (hb : (s.pruneBelow height).blocksByHeight[h]? = some hashes) :
    s.blocksByHeight[h]? = some hashes := by
  unfold pruneBelow at hb
  simp only [ExtTreeMap.getElem?_filter', Option.filter_eq_some_iff] at hb
  exact hb.1

theorem nextFinal_some {newFinalized : UInt64} {middleHash : Bytes32}
    (h : s.nextFinal = some (newFinalized, middleHash)) :
    s.finalizedHeight < newFinalized ∧ s.getNotarizedAt newFinalized = some middleHash := by
  obtain ⟨height, -, hh⟩ := List.exists_of_findSome?_eq_some h
  split at hh
  · next hm _ =>
      split at hh
      · next hgt =>
          cases hh
          exact ⟨hgt, hm⟩
      · cases hh
  · cases hh

/-- **Finality**: the state stays, or a notarized block above the final one becomes final and what
lies below it is dropped. -/
theorem checkFinality_cases (s : StreamletState) : s.checkFinality.2 = s ∨
    ∃ newFinalized middleHash, s.finalizedHeight < newFinalized ∧
      s.getNotarizedAt newFinalized = some middleHash ∧
      s.checkFinality.2 = { s with
        finalizedHeight := newFinalized, finalizedHash := middleHash }.pruneBelow newFinalized := by
  unfold checkFinality
  cases hn : s.nextFinal with
  | none => exact .inl rfl
  | some next =>
    obtain ⟨newFinalized, middleHash⟩ := next
    obtain ⟨hgt, hm⟩ := nextFinal_some hn
    exact .inr ⟨newFinalized, middleHash, hgt, hm, rfl⟩

end StreamletState

end Gratia
