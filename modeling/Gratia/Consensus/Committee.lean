import Gratia.Consensus.Vrf

/-!
# Consensus — Committee

`gratia-consensus/src/committee.rs`: the graduated scaling curve, the selection of a committee from
the eligible nodes, and what a committee answers.  Times at which an epoch was established are left
out; nothing reads them.
-/

namespace Gratia

open Support (Bytes Codec)

/-! ### Graduated scaling -/

/-- `CommitteeTier`; nothing reads its `min_selection_pool`. -/
structure CommitteeTier where
  minNetworkSize : UInt64
  committeeSize : ℕ
  finalityThreshold : ℕ
  cooldownRounds : UInt64
deriving DecidableEq

def scalingTiers : List CommitteeTier :=
  [⟨0, 3, 2, 5⟩, ⟨100, 5, 4, 3⟩, ⟨500, 7, 5, 2⟩, ⟨2500, 11, 8, 1⟩, ⟨10000, 15, 10, 1⟩,
   ⟨50000, 19, 13, 1⟩, ⟨100000, 21, 14, 1⟩]

/-- `tier_for_network_size`: the highest tier the network qualifies for, the first one if none. -/
def tierForNetworkSize (networkSize : UInt64) : CommitteeTier :=
  (scalingTiers.reverse.find? fun tier => networkSize ≥ tier.minNetworkSize).getD ⟨0, 3, 2, 5⟩

theorem tierForNetworkSize_mem (networkSize : UInt64) :
    tierForNetworkSize networkSize ∈ scalingTiers := by
  unfold tierForNetworkSize
  cases h : scalingTiers.reverse.find? fun tier => networkSize ≥ tier.minNetworkSize with
  | none => exact List.mem_cons_self
  | some tier => exact List.mem_reverse.mp (List.mem_of_find?_eq_some h)

/-! ### Nodes and members -/

structure EligibleNode where
  nodeId : NodeId
  vrfPubkey : VrfPublicKey
  presenceScore : UInt8
  hasValidPol : Bool
  meetsMinimumStake : Bool
  polDays : UInt64
  signingPubkey : Bytes
  vrfProof : Bytes
deriving DecidableEq

def EligibleNode.isEligible (n : EligibleNode) : Bool :=
  n.hasValidPol && n.meetsMinimumStake && n.presenceScore ≥ 40

def EligibleNode.isCommitteeEligible (n : EligibleNode) : Bool := n.isEligible && n.polDays ≥ 30

structure CommitteeMember where
  nodeId : NodeId
  vrfPubkey : VrfPublicKey
  presenceScore : UInt8
  selectionProof : VrfProof
  selectionValue : UInt64
  signingPubkey : Bytes
deriving DecidableEq

structure CommitteeEpoch where
  epochNumber : UInt64
  startSlot : UInt64
  endSlot : UInt64
  seed : Bytes32
deriving DecidableEq

structure ValidatorCommittee where
  epoch : CommitteeEpoch
  members : List CommitteeMember
  committeeSize : ℕ
  finalityThreshold : ℕ
  networkSizeSnapshot : UInt64
deriving DecidableEq

namespace ValidatorCommittee

variable (c : ValidatorCommittee)

def isCommitteeMember (nodeId : NodeId) : Bool := c.members.any fun m => m.nodeId == nodeId

def getMember (nodeId : NodeId) : Option CommitteeMember :=
  c.members.find? fun m => m.nodeId == nodeId

def getSigningPubkey (nodeId : NodeId) : Option Bytes :=
  ((c.getMember nodeId).filter fun m => !m.signingPubkey.isEmpty).map fun m => m.signingPubkey

def hasFinality (signatureCount : ℕ) : Bool := signatureCount ≥ c.finalityThreshold

def realMembers : ℕ := c.members.countP fun m => !m.signingPubkey.isEmpty

/-- `block_producer_for_slot`: round-robin from the start of the epoch. -/
def blockProducerForSlot (slot : UInt64) : Option CommitteeMember :=
  if c.members = [] then none
  else if slot < c.epoch.startSlot then none
  else c.members[(slot - c.epoch.startSlot).toNat % c.members.length]?

variable {c}

theorem isCommitteeMember_iff {nodeId : NodeId} :
    c.isCommitteeMember nodeId = true ↔ ∃ m ∈ c.members, m.nodeId = nodeId := by
  simp [isCommitteeMember]

theorem getSigningPubkey_eq_some {nodeId : NodeId} {key : Bytes}
    (h : c.getSigningPubkey nodeId = some key) :
    ∃ m ∈ c.members, m.nodeId = nodeId ∧ m.signingPubkey = key ∧ key ≠ [] := by
  unfold getSigningPubkey getMember at h
  cases hm : c.members.find? fun m => m.nodeId == nodeId with
  | none => simp [hm] at h
  | some m =>
    have hmem := List.mem_of_find?_eq_some hm
    have hid : m.nodeId = nodeId := by simpa using List.find?_some hm
    by_cases hk : m.signingPubkey = []
    · simp [hm, hk, Option.filter] at h
    · have hkey : m.signingPubkey = key := by simpa [hm, hk, Option.filter] using h
      exact ⟨m, hmem, hid, hkey, hkey ▸ hk⟩

theorem exists_getSigningPubkey (hkeys : ∀ m ∈ c.members, m.signingPubkey ≠ [])
    {m : CommitteeMember} (hm : m ∈ c.members) : ∃ key, c.getSigningPubkey m.nodeId = some key := by
  unfold getSigningPubkey getMember
  cases hf : c.members.find? fun x => x.nodeId == m.nodeId with
  | none => exact absurd (beq_self_eq_true m.nodeId) (List.find?_eq_none.mp hf m hm)
  | some x =>
    have hx := hkeys x (List.mem_of_find?_eq_some hf)
    exact ⟨x.signingPubkey, by simp [Option.filter, hx]⟩

end ValidatorCommittee

/-! ### Cooldown -/

/-- `CooldownTracker`: the node ids of recent committees, most recent first. -/
structure CooldownTracker where
  recentCommittees : List (List NodeId) := []

def CooldownTracker.isInCooldown (t : CooldownTracker) (nodeId : NodeId) (cooldownRounds : UInt64) :
    Bool :=
  (t.recentCommittees.take cooldownRounds.toNat).any fun ids => ids.contains nodeId

/-! ### Selection -/

def slotsPerEpoch : UInt64 := 900

/-- The bytes of `COMMITTEE_SELECTION_DOMAIN`, `b"gratia-committee-select-v1"`. -/
def committeeSelectionDomain : Bytes :=
  [103, 114, 97, 116, 105, 97, 45, 99, 111, 109, 109, 105, 116, 116, 101, 101, 45, 115, 101, 108,
   101, 99, 116, 45, 118, 49]

/-- The bytes of `b"gratia-epoch-seed-v1:"`. -/
def epochSeedDomain : Bytes :=
  [103, 114, 97, 116, 105, 97, 45, 101, 112, 111, 99, 104, 45, 115, 101, 101, 100, 45, 118, 49, 58]

variable (P : Platform)

/-- A node's ticket: its verified VRF output, or a hash of its id when it sent no proof.  A node
whose proof does not verify has none. -/
def candidate (selectionInput : Bytes) (n : EligibleNode) : Option CommitteeMember :=
  let member := fun (output : Bytes32) (proofBytes : Bytes) =>
    { nodeId := n.nodeId, vrfPubkey := n.vrfPubkey, presenceScore := n.presenceScore,
      selectionProof := ⟨output, proofBytes⟩,
      selectionValue := vrfOutputToSelection output n.presenceScore,
      signingPubkey := n.signingPubkey : CommitteeMember }
  if n.vrfProof ≠ [] then
    match verifyVrfProof P n.vrfPubkey selectionInput ⟨.zero, n.vrfProof⟩ with
    | .ok output => some (member output n.vrfProof)
    | .error _ => none
  else some (member (P.sha256 (selectionInput ++ n.nodeId.bytes.bytes)) [])

/-- The order of candidates: by selection value, ties by node id. -/
def CommitteeMember.before (a b : CommitteeMember) : Prop :=
  a.selectionValue < b.selectionValue ∨
    a.selectionValue = b.selectionValue ∧ (compare a.nodeId b.nodeId).isLE

instance : DecidableRel CommitteeMember.before := fun _ _ =>
  inferInstanceAs (Decidable (_ ∨ _))

/-- The pool a committee is drawn from: nodes with enough history if they fill the committee, else
every eligible node; less those in cooldown, if the rest still fills it. -/
def selectionPool (eligibleNodes : List EligibleNode) (tier : CommitteeTier)
    (cooldownTracker : Option CooldownTracker) : Except GratiaError (List EligibleNode) :=
  let established := eligibleNodes.filter EligibleNode.isCommitteeEligible
  let fallback := eligibleNodes.filter EligibleNode.isEligible
  let eligible := if established.length < tier.committeeSize then fallback else established
  if eligible = [] then
    .error (.blockValidationFailed "No eligible nodes for committee selection")
  else
    match cooldownTracker with
    | none => .ok eligible
    | some tracker =>
      let rested := eligible.filter fun n => !tracker.isInCooldown n.nodeId tier.cooldownRounds
      .ok (if rested.length < tier.committeeSize then fallback else rested)

def selectCommitteeWithNetworkSize (eligibleNodes : List EligibleNode) (epochSeed : Bytes32)
    (epochNumber currentSlot networkSize : UInt64) (cooldownTracker : Option CooldownTracker) :
    Except GratiaError ValidatorCommittee := do
  let tier := tierForNetworkSize networkSize
  let eligible ← selectionPool eligibleNodes tier cooldownTracker
  let selectionInput := committeeSelectionDomain ++ epochSeed.bytes ++ toBeBytes epochNumber
  let candidates := (eligible.filterMap (candidate P selectionInput)).insertionSort
    CommitteeMember.before
  let members := candidates.take tier.committeeSize
  let realSigners := members.countP fun m => !m.signingPubkey.isEmpty
  .ok
    { epoch := ⟨epochNumber, currentSlot, currentSlot + slotsPerEpoch, epochSeed⟩
      members := members
      committeeSize := tier.committeeSize
      finalityThreshold := if realSigners ≤ 1 then 1 else tier.finalityThreshold
      networkSizeSnapshot := networkSize }

/-- The input of the selection, and of the VRF proofs for it. -/
def selectionInput (epochSeed : Bytes32) (epochNumber : UInt64) : Bytes :=
  committeeSelectionDomain ++ epochSeed.bytes ++ toBeBytes epochNumber

def selectCommittee (eligibleNodes : List EligibleNode) (epochSeed : Bytes32)
    (epochNumber currentSlot : UInt64) : Except GratiaError ValidatorCommittee :=
  selectCommitteeWithNetworkSize P eligibleNodes epochSeed epochNumber currentSlot
    (UInt64.ofNat (eligibleNodes.countP EligibleNode.isEligible)) none

def rotateCommittee (eligibleNodes : List EligibleNode) (previousCommittee : ValidatorCommittee)
    (lastBlockHash : Bytes32) : Except GratiaError ValidatorCommittee :=
  let newEpochNumber := previousCommittee.epoch.epochNumber + 1
  selectCommittee P eligibleNodes
    (sha256Multi P [epochSeedDomain, lastBlockHash.bytes, toBeBytes newEpochNumber])
    newEpochNumber previousCommittee.epoch.endSlot

/-! ### What a selection yields -/

variable {P}

theorem selectCommitteeWithNetworkSize_ok {nodes : List EligibleNode} {seed : Bytes32}
    {epochNumber slot networkSize : UInt64} {tracker : Option CooldownTracker}
    {c : ValidatorCommittee}
    (h : selectCommitteeWithNetworkSize P nodes seed epochNumber slot networkSize tracker = .ok c) :
    ∃ pool, selectionPool nodes (tierForNetworkSize networkSize) tracker = .ok pool ∧
      c.epoch = ⟨epochNumber, slot, slot + slotsPerEpoch, seed⟩ ∧
      c.members = ((pool.filterMap (candidate P (selectionInput seed epochNumber))).insertionSort
        CommitteeMember.before).take (tierForNetworkSize networkSize).committeeSize ∧
      c.finalityThreshold =
        if c.realMembers ≤ 1 then 1 else (tierForNetworkSize networkSize).finalityThreshold := by
  unfold selectCommitteeWithNetworkSize at h
  cases hpool : selectionPool nodes (tierForNetworkSize networkSize) tracker with
  | error err => simp [hpool, bind, Except.bind] at h
  | ok pool =>
    simp only [hpool, bind, Except.bind, Except.ok.injEq] at h
    subst h
    exact ⟨pool, rfl, rfl, rfl, rfl⟩

end Gratia
