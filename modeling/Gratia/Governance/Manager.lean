import Gratia.Governance.Proposals
import Gratia.Support.Runs

/-!
# Governance — Manager

`gratia-governance/src/voting.rs` and the `GovernanceManager` of `lib.rs`, as a machine that takes
one operation after the other.  Polls have a store of their own, which no operation here touches; it
is left out.
-/

namespace Gratia

open Support Std

/-! ### Votes -/

structure VoteRecord where
  voter : NodeId
  vote : Vote
  timestamp : DateTime
deriving DecidableEq

structure VotingManager where
  voted : ExtTreeMap Bytes32 (ExtTreeSet NodeId) := ∅
  records : ExtTreeMap Bytes32 (List VoteRecord) := ∅

def Proposal.count (p : Proposal) : Vote → Proposal
  | .yes => { p with votesYes := p.votesYes + 1 }
  | .no => { p with votesNo := p.votesNo + 1 }
  | .abstain => { p with votesAbstain := p.votesAbstain + 1 }

namespace VotingManager

def getRecords (v : VotingManager) (proposalId : Bytes32) : List VoteRecord :=
  v.records[proposalId]?.getD []

def getVoters (v : VotingManager) (proposalId : Bytes32) : ExtTreeSet NodeId :=
  v.voted[proposalId]?.getD ∅

def hasVoted (v : VotingManager) (proposalId : Bytes32) (nodeId : NodeId) : Bool :=
  nodeId ∈ v.getVoters proposalId

/-- `cast_vote`.  The time of the vote is recorded and not compared with anything. -/
def castVote (v : VotingManager) (s : ProposalStore) (proposalId : Bytes32) (voter : NodeId)
    (vote : Vote) (hasValidPol : Bool) (now : DateTime) :
    Option (Except GovernanceError Unit × VotingManager × ProposalStore) :=
  if !hasValidPol then some (.error .noValidProofOfLife, v, s)
  else
    match s.proposals[proposalId]? with
    | none => some (.error (.proposalNotFound proposalId.hexEncode), v, s)
    | some proposal =>
      if proposal.status ≠ .voting then
        some (.error (.wrongPhase "Voting" proposal.status.toText), v, s)
      else if v.hasVoted proposalId voter then some (.error (.alreadyVoted voter), v, s)
      else if (v.getRecords proposalId).length < isizeMax then
        some (.ok (),
          { voted := v.voted.insert proposalId ((v.getVoters proposalId).insert voter)
            records :=
              v.records.insert proposalId (v.getRecords proposalId ++ [⟨voter, vote, now⟩]) },
          { s with proposals := s.proposals.insert proposalId (proposal.count vote) })
      else none

end VotingManager

/-! ### The manager -/

structure GovernanceManager where
  config : GovernanceConfig
  proposalStore : ProposalStore := {}
  votingManager : VotingManager := {}

/-- The operations that a `GovernanceManager` takes, those on polls apart. -/
inductive GovernanceOp where
  | updateConfig (config : GovernanceConfig)
  | submitProposal (proposer : NodeId) (proposerPolDays : UInt64) (title description : String)
      (proposalData : Bytes) (eligibleVoters : UInt64) (now : DateTime)
  | cancelProposal (proposalId : Bytes32) (requester : NodeId)
  | castVote (proposalId : Bytes32) (voter : NodeId) (vote : Vote) (hasValidPol : Bool)
      (now : DateTime)
  | submitEmergency (proposer : NodeId) (title description : String) (proposalData : Bytes)
      (committeeSize : ℕ) (now : DateTime)
  | approveEmergency (emergencyId : Bytes32) (approver : NodeId) (committee : List NodeId)
  | ratifyEmergency (emergencyId : Bytes32)
  | tick (now : DateTime)

namespace GovernanceManager

def new (config : GovernanceConfig) : GovernanceManager := { config := config }

variable (P : Platform) (m : GovernanceManager)

def updateConfig (config : GovernanceConfig) : GovernanceManager := { m with config := config }

def submitProposal (proposer : NodeId) (proposerPolDays : UInt64) (title description : String)
    (proposalData : Bytes) (eligibleVoters : UInt64) (now : DateTime) :
    Option (Except GovernanceError Bytes32 × GovernanceManager) :=
  (m.proposalStore.submitProposal P proposer proposerPolDays title description proposalData
    eligibleVoters m.config now).map fun r => (r.1, { m with proposalStore := r.2 })

def cancelProposal (proposalId : Bytes32) (requester : NodeId) :
    Except GovernanceError Unit × GovernanceManager :=
  let r := m.proposalStore.cancelProposal proposalId requester
  (r.1, { m with proposalStore := r.2 })

def castVote (proposalId : Bytes32) (voter : NodeId) (vote : Vote) (hasValidPol : Bool)
    (now : DateTime) : Option (Except GovernanceError Unit × GovernanceManager) :=
  (m.votingManager.castVote m.proposalStore proposalId voter vote hasValidPol now).map
    fun r => (r.1, { m with votingManager := r.2.1, proposalStore := r.2.2 })

def submitEmergency (proposer : NodeId) (title description : String) (proposalData : Bytes)
    (committeeSize : ℕ) (now : DateTime) : Option (Bytes32 × GovernanceManager) :=
  (m.proposalStore.submitEmergency P proposer title description proposalData committeeSize
    m.config now).map fun r => (r.1, { m with proposalStore := r.2 })

def approveEmergency (emergencyId : Bytes32) (approver : NodeId) (committee : List NodeId) :
    Except GovernanceError Bool × GovernanceManager :=
  let r := m.proposalStore.approveEmergency emergencyId approver committee m.config
  (r.1, { m with proposalStore := r.2 })

def ratifyEmergency (emergencyId : Bytes32) : Except GovernanceError Unit × GovernanceManager :=
  let r := m.proposalStore.ratifyEmergency emergencyId
  (r.1, { m with proposalStore := r.2 })

def tick (now : DateTime) : GovernanceManager :=
  { m with proposalStore := m.proposalStore.advanceAll now }

def step : GovernanceOp → Option GovernanceManager
  | .updateConfig config => some (m.updateConfig config)
  | .submitProposal proposer days title description data eligible now =>
    (m.submitProposal P proposer days title description data eligible now).map Prod.snd
  | .cancelProposal id requester => some (m.cancelProposal id requester).2
  | .castVote id voter vote valid now => (m.castVote id voter vote valid now).map Prod.snd
  | .submitEmergency proposer title description data size now =>
    (m.submitEmergency P proposer title description data size now).map Prod.snd
  | .approveEmergency id approver committee => some (m.approveEmergency id approver committee).2
  | .ratifyEmergency id => some (m.ratifyEmergency id).2
  | .tick now => some (m.tick now)

def run (ops : List GovernanceOp) : Option GovernanceManager := reach (step P) m ops

end GovernanceManager

end Gratia
