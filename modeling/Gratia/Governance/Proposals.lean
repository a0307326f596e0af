import Gratia.Core.Crypto
import Gratia.Support.Words

/-!
# Governance — Proposals

`gratia-governance/src/proposals.rs`, with the proposals of `gratia-core/src/types.rs` and the
configuration they are submitted under.  A `HashMap` is a finite map, and a loop over its keys goes
through them in order; no entry's turn looks at another's.  A panic is `none`: a date out of range,
or a collection that would grow past `isize::MAX` elements.  Log lines are left out, and of the
configuration what nothing here reads.
-/

namespace Gratia

open Support Std

/-! ### Errors and configuration -/

inductive GovernanceError where
  | insufficientHistory (days required : UInt64)
  | proposalNotFound (id : String)
  | wrongPhase (expected actual : String)
  | alreadyVoted (nodeId : NodeId)
  | noValidProofOfLife
  | notProposer
  | cannotCancel
  | pollNotFound (id : String)
  | pollExpired
  | alreadyVotedPoll (nodeId : NodeId)
  | invalidOptionIndex (index : UInt32) (count : ℕ)
  | insufficientBalance (available required : Lux)
  | notOnCommittee
  | emergencyProposalNotFound (id : String)
  | emergencyAlreadyResolved
  | outsideGeographicFilter
  | tooFewOptions
  | emptyQuestion
deriving DecidableEq

/-- `GovernanceConfig`, with its defaults. -/
structure GovernanceConfig where
  minProposerHistoryDays : UInt64 := 90
  discussionPeriodSecs : UInt64 := 14 * 24 * 3600
  votingPeriodSecs : UInt64 := 7 * 24 * 3600
  implementationDelaySecs : UInt64 := 30 * 24 * 3600
  emergencyThresholdBps : UInt32 := 7500
  emergencyRatificationSecs : UInt64 := 90 * 24 * 3600
  pollCreationFee : Lux := 10 * 1_000_000

/-- `isize::MAX`, more than which no collection holds. -/
def isizeMax : ℕ := 2 ^ 63 - 1

def insertEntry {K V : Type} [Ord K] [TransOrd K] (m : ExtTreeMap K V) (k : K) (v : V) :
    Option (ExtTreeMap K V) :=
  if m.size < isizeMax ∨ k ∈ m then some (m.insert k v) else none

/-! ### Proposals -/

inductive ProposalStatus where
  | discussion | voting | approved | rejected | implemented | reverted
deriving DecidableEq

def ProposalStatus.toText : ProposalStatus → String
  | discussion => "Discussion"
  | voting => "Voting"
  | approved => "Approved"
  | rejected => "Rejected"
  | implemented => "Implemented"
  | reverted => "Reverted"

structure Proposal where
  id : Bytes32
  proposer : NodeId
  title : String
  description : String
  proposalData : Bytes
  submittedAt : DateTime
  discussionEnds : DateTime
  votingEnds : DateTime
  implementationDate : DateTime
  status : ProposalStatus
  votesYes : UInt64
  votesNo : UInt64
  votesAbstain : UInt64
  eligibleVoters : UInt64
deriving DecidableEq

namespace Proposal

def quorumMet (p : Proposal) : Bool :=
  if p.eligibleVoters = 0 then false
  else
    let totalVotes :=
      saturatingAdd (saturatingAdd p.votesYes p.votesNo) p.votesAbstain
    if totalVotes > p.eligibleVoters then false else totalVotes ≥ p.eligibleVoters / 5

def passed (p : Proposal) : Bool :=
  if !p.quorumMet then false
  else
    let totalVotes := saturatingAdd p.votesYes p.votesNo
    if p.votesYes > p.eligibleVoters ∨ p.votesNo > p.eligibleVoters then false
    else saturatingMul p.votesYes 2 > totalVotes

end Proposal

inductive ProposalPhase where
  | draft | discussion | voting | approved | rejected | executed | cancelled
deriving DecidableEq

def ProposalPhase.toCoreStatus : ProposalPhase → ProposalStatus
  | draft | discussion => .discussion
  | voting => .voting
  | approved => .approved
  | rejected | cancelled => .rejected
  | executed => .implemented

structure EmergencyProposal where
  id : Bytes32
  proposer : NodeId
  title : String
  description : String
  proposalData : Bytes
  submittedAt : DateTime
  ratificationDeadline : DateTime
  approvals : ExtTreeSet NodeId
  committeeSize : ℕ
  activated : Bool
  ratified : Bool
  reverted : Bool

def EmergencyProposal.hasSupermajority (ep : EmergencyProposal) (thresholdBps : UInt32) : Bool :=
  if ep.committeeSize = 0 then false
  else
    let required := saturatingAdd
      (saturatingMul (UInt64.ofNat ep.committeeSize) thresholdBps.toUInt64) 9999 / 10000
    UInt64.ofNat ep.approvals.size ≥ required

/-! ### The store -/

@[ext] structure ProposalStore where
  proposals : ExtTreeMap Bytes32 Proposal := ∅
  phases : ExtTreeMap Bytes32 ProposalPhase := ∅
  emergencyProposals : ExtTreeMap Bytes32 EmergencyProposal := ∅
  nextProposalNonce : UInt64 := 0

/-- The bytes of `b"gratia-proposal-v1:"`. -/
def proposalDomain : Bytes :=
  [103, 114, 97, 116, 105, 97, 45, 112, 114, 111, 112, 111, 115, 97, 108, 45, 118, 49, 58]

def proposalIdInput (proposer : NodeId) (now : DateTime) (nonce : UInt64) : Bytes :=
  proposalDomain ++ proposer.bytes.bytes ++ toLeBytes now.secs.toUInt64 ++ toLeBytes nonce

namespace ProposalStore

variable (P : Platform)

def generateId (s : ProposalStore) (proposer : NodeId) (now : DateTime) :
    Bytes32 × ProposalStore :=
  (P.sha256 (proposalIdInput proposer now s.nextProposalNonce),
    { s with nextProposalNonce := s.nextProposalNonce + 1 })

def submitProposal (s : ProposalStore) (proposer : NodeId) (proposerPolDays : UInt64)
    (title description : String) (proposalData : Bytes) (eligibleVoters : UInt64)
    (config : GovernanceConfig) (now : DateTime) :
    Option (Except GovernanceError Bytes32 × ProposalStore) :=
  if proposerPolDays < config.minProposerHistoryDays then
    some (.error (.insufficientHistory proposerPolDays config.minProposerHistoryDays), s)
  else do
    let (id, s) := s.generateId P proposer now
    let discussionEnds ← now.addSeconds config.discussionPeriodSecs.toInt64
    let votingEnds ← discussionEnds.addSeconds config.votingPeriodSecs.toInt64
    let implementationDate ← votingEnds.addSeconds config.implementationDelaySecs.toInt64
    let proposals ← insertEntry s.proposals id
      { id := id, proposer := proposer, title := title, description := description,
        proposalData := proposalData, submittedAt := now, discussionEnds := discussionEnds,
        votingEnds := votingEnds, implementationDate := implementationDate,
        status := .discussion, votesYes := 0, votesNo := 0, votesAbstain := 0,
        eligibleVoters := eligibleVoters }
    some (.ok id, { s with proposals := proposals, phases := s.phases.insert id .discussion })

def cancelProposal (s : ProposalStore) (proposalId : Bytes32) (requester : NodeId) :
    Except GovernanceError Unit × ProposalStore :=
  match s.proposals[proposalId]? with
  | none => (.error (.proposalNotFound proposalId.hexEncode), s)
  | some proposal =>
    if proposal.proposer ≠ requester then (.error .notProposer, s)
    else if s.phases[proposalId]?.getD .discussion ≠ .discussion then (.error .cannotCancel, s)
    else
      (.ok (), { s with
        phases := s.phases.insert proposalId .cancelled
        proposals := s.proposals.insert proposalId { proposal with status := .rejected } })

def setPhase (s : ProposalStore) (id : Bytes32) (proposal : Proposal) (phase : ProposalPhase)
    (status : ProposalStatus) : ProposalStore :=
  { s with
    phases := s.phases.insert id phase
    proposals := s.proposals.insert id { proposal with status := status } }

def advanceProposal (now : DateTime) (s : ProposalStore) (id : Bytes32) : ProposalStore :=
  match s.phases[id]?, s.proposals[id]? with
  | some .discussion, some proposal =>
    if now ≥ proposal.discussionEnds then s.setPhase id proposal .voting .voting else s
  | some .voting, some proposal =>
    if now ≥ proposal.votingEnds then
      if proposal.passed then s.setPhase id proposal .approved .approved
      else s.setPhase id proposal .rejected .rejected
    else s
  | some .approved, some proposal =>
    if now ≥ proposal.implementationDate then s.setPhase id proposal .executed .implemented
    else s
  | _, _ => s

/-- An emergency proposal that was not ratified by its deadline is reverted. -/
def expireEmergency (now : DateTime) (ep : EmergencyProposal) : EmergencyProposal :=
  if ep.activated ∧ ¬ ep.ratified ∧ ¬ ep.reverted ∧ now ≥ ep.ratificationDeadline then
    { ep with reverted := true }
  else ep

def advanceAll (s : ProposalStore) (now : DateTime) : ProposalStore :=
  let s := s.proposals.keys.foldl (advanceProposal now) s
  { s with emergencyProposals := s.emergencyProposals.map fun _ ep => expireEmergency now ep }

/-! ### Emergencies -/

def submitEmergency (s : ProposalStore) (proposer : NodeId) (title description : String)
    (proposalData : Bytes) (committeeSize : ℕ) (config : GovernanceConfig) (now : DateTime) :
    Option (Bytes32 × ProposalStore) := do
  let (id, s) := s.generateId P proposer now
  let ratificationDeadline ← now.addSeconds config.emergencyRatificationSecs.toInt64
  let emergencyProposals ← insertEntry s.emergencyProposals id
    { id := id, proposer := proposer, title := title, description := description,
      proposalData := proposalData, submittedAt := now,
      ratificationDeadline := ratificationDeadline, approvals := ∅,
      committeeSize := committeeSize, activated := false, ratified := false, reverted := false }
  some (id, { s with emergencyProposals := emergencyProposals })

/-- `approve_emergency`: whether the approval activates the proposal. -/
def approveEmergency (s : ProposalStore) (emergencyId : Bytes32) (approver : NodeId)
    (committee : List NodeId) (config : GovernanceConfig) :
    Except GovernanceError Bool × ProposalStore :=
  if approver ∉ committee then (.error .notOnCommittee, s)
  else
    match s.emergencyProposals[emergencyId]? with
    | none => (.error (.emergencyProposalNotFound emergencyId.hexEncode), s)
    | some ep =>
      if ep.activated ∨ ep.reverted then (.error .emergencyAlreadyResolved, s)
      else if approver ∈ ep.approvals then (.ok false, s)
      else
        let ep := { ep with approvals := ep.approvals.insert approver }
        let activates := ep.hasSupermajority config.emergencyThresholdBps
        let ep := if activates then { ep with activated := true } else ep
        (.ok activates,
          { s with emergencyProposals := s.emergencyProposals.insert emergencyId ep })

def ratifyEmergency (s : ProposalStore) (emergencyId : Bytes32) :
    Except GovernanceError Unit × ProposalStore :=
  match s.emergencyProposals[emergencyId]? with
  | none => (.error (.emergencyProposalNotFound emergencyId.hexEncode), s)
  | some ep =>
    if !ep.activated ∨ ep.reverted then (.error .emergencyAlreadyResolved, s)
    else
      (.ok (), { s with
        emergencyProposals :=
          s.emergencyProposals.insert emergencyId { ep with ratified := true } })

end ProposalStore

end Gratia
