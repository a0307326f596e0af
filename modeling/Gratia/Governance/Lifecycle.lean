import Gratia.Governance.Manager
import Gratia.Support.Lists

/-!
# Governance — Lifecycle

What an operation can do to a proposal, said once.  An `Entry` is what the manager's four maps hold
about one proposal; an operation leaves it as it is, or makes one of the moves of `Entry.Moves`, or
creates it (`Effect.entry`).  The maps stay `Coherent` along the way: a proposal has a phase, and
only proposals have votes.
-/

namespace Gratia

open Support Std

/-! ### Entries -/

structure Entry where
  proposal : Proposal
  phase : ProposalPhase
  records : List VoteRecord
  voters : ExtTreeSet NodeId

namespace Entry

def goTo (e : Entry) (phase : ProposalPhase) (status : ProposalStatus) : Entry :=
  { e with proposal := { e.proposal with status := status }, phase := phase }

def record (e : Entry) (voter : NodeId) (vote : Vote) (now : DateTime) : Entry :=
  { e with
    proposal := e.proposal.count vote
    records := e.records ++ [⟨voter, vote, now⟩]
    voters := e.voters.insert voter }

inductive Created : GovernanceOp → Entry → Prop
  | submitted {proposer : NodeId} {days : UInt64} {title description : String} {data : Bytes}
      {eligible : UInt64} {now : DateTime} {id : Bytes32}
      {discussionEnds votingEnds implementationDate : DateTime} :
      Created (.submitProposal proposer days title description data eligible now)
        { proposal :=
            { id := id, proposer := proposer, title := title, description := description,
              proposalData := data, submittedAt := now, discussionEnds := discussionEnds,
              votingEnds := votingEnds, implementationDate := implementationDate,
              status := .discussion, votesYes := 0, votesNo := 0, votesAbstain := 0,
              eligibleVoters := eligible }
          phase := .discussion, records := [], voters := ∅ }

inductive Moves (id : Bytes32) : GovernanceOp → Entry → Entry → Prop
  | cancelled {e : Entry} {requester : NodeId} : e.phase = .discussion →
      Moves id (.cancelProposal id requester) e (e.goTo .cancelled .rejected)
  | counted {e : Entry} {voter : NodeId} {vote : Vote} {now : DateTime} :
      e.proposal.status = .voting → voter ∉ e.voters → e.records.length < isizeMax →
      Moves id (.castVote id voter vote true now) e (e.record voter vote now)
  | opened {e : Entry} {now : DateTime} : e.phase = .discussion →
      e.proposal.discussionEnds ≤ now → Moves id (.tick now) e (e.goTo .voting .voting)
  | approved {e : Entry} {now : DateTime} : e.phase = .voting → e.proposal.votingEnds ≤ now →
      e.proposal.passed = true → Moves id (.tick now) e (e.goTo .approved .approved)
  | rejected {e : Entry} {now : DateTime} : e.phase = .voting → e.proposal.votingEnds ≤ now →
      e.proposal.passed = false → Moves id (.tick now) e (e.goTo .rejected .rejected)
  | executed {e : Entry} {now : DateTime} : e.phase = .approved →
      e.proposal.implementationDate ≤ now →
      Moves id (.tick now) e (e.goTo .executed .implemented)

inductive Changes (id : Bytes32) (op : GovernanceOp) : Option Entry → Option Entry → Prop
  | same {e : Option Entry} : Changes id op e e
  | created {e : Entry} : Created op e → Changes id op none (some e)
  | moved {e e' : Entry} : Moves id op e e' → Changes id op (some e) (some e')

variable {id : Bytes32} {op : GovernanceOp} {o o' : Option Entry} {e : Entry}

theorem Changes.before (h : Changes id op o o') (he : o' = some e) :
    o = some e ∨ Created op e ∨ ∃ e₁, o = some e₁ ∧ Moves id op e₁ e := by
  subst he
  cases h with
  | same => exact .inl rfl
  | created hcr => exact .inr (.inl hcr)
  | moved hmv => exact .inr (.inr ⟨_, rfl, hmv⟩)

theorem Changes.after (h : Changes id op o o') (he : o = some e) :
    o' = some e ∨ ∃ e₁, o' = some e₁ ∧ Moves id op e e₁ := by
  subst he
  cases h with
  | same => exact .inl rfl
  | moved hmv => exact .inr ⟨_, rfl, hmv⟩

end Entry

/-- What an operation makes of the emergency proposal `id`. -/
inductive EmergencyChange (P : Platform) (thresholdBps : UInt32) (id : Bytes32) :
    GovernanceOp → Option EmergencyProposal → Option EmergencyProposal → Prop
  | same {op : GovernanceOp} {ep : Option EmergencyProposal} :
      EmergencyChange P thresholdBps id op ep ep
  | submitted {proposer : NodeId} {title description : String} {data : Bytes} {size : ℕ}
      {now : DateTime} {nonce : UInt64} {old : Option EmergencyProposal} {ep : EmergencyProposal} :
      P.sha256 (proposalIdInput proposer now nonce) = id → ep.approvals = ∅ →
      ep.committeeSize = size → ep.activated = false → ep.ratified = false → ep.reverted = false →
      EmergencyChange P thresholdBps id
        (.submitEmergency proposer title description data size now) old (some ep)
  | approved {approver : NodeId} {committee : List NodeId} {ep ep' : EmergencyProposal} :
      approver ∈ committee → ep.activated = false → ep.reverted = false →
      ep' = { ep with approvals := ep.approvals.insert approver } →
      EmergencyChange P thresholdBps id (.approveEmergency id approver committee) (some ep)
        (some (if ep'.hasSupermajority thresholdBps then { ep' with activated := true } else ep'))
  | ratified {ep : EmergencyProposal} : ep.activated = true → ep.reverted = false →
      EmergencyChange P thresholdBps id (.ratifyEmergency id) (some ep)
        (some { ep with ratified := true })
  | ticked {ep : EmergencyProposal} {now : DateTime} :
      EmergencyChange P thresholdBps id (.tick now) (some ep)
        (some (ProposalStore.expireEmergency now ep))

namespace GovernanceManager

variable {P : Platform} {m m' : GovernanceManager} {id : Bytes32} {op : GovernanceOp}

def entry (m : GovernanceManager) (id : Bytes32) : Option Entry :=
  match m.proposalStore.proposals[id]?, m.proposalStore.phases[id]? with
  | some proposal, some phase =>
    some ⟨proposal, phase, m.votingManager.getRecords id, m.votingManager.getVoters id⟩
  | _, _ => none

/-- A proposal has a phase, and only proposals have votes. -/
structure Coherent (m : GovernanceManager) : Prop where
  phase : ∀ id : Bytes32, (m.proposalStore.phases[id]?).isSome = (m.proposalStore.proposals[id]?).isSome
  records : ∀ id : Bytes32, m.proposalStore.proposals[id]? = none → m.votingManager.records[id]? = none
  voted : ∀ id : Bytes32, m.proposalStore.proposals[id]? = none → m.votingManager.voted[id]? = none

theorem coherent_new (config : GovernanceConfig) : (new config).Coherent :=
  ⟨fun _ => rfl, fun _ _ => rfl, fun _ _ => rfl⟩

variable {p : Proposal}

theorem Coherent.entry_eq_some (hc : m.Coherent) (hp : m.proposalStore.proposals[id]? = some p) :
    ∃ phase,
      m.proposalStore.phases[id]? = some phase ∧ m.entry id =
        some ⟨p, phase, m.votingManager.getRecords id, m.votingManager.getVoters id⟩ := by
  have hphase := hc.phase id
  rw [hp] at hphase
  obtain ⟨phase, hphase⟩ := Option.isSome_iff_exists.mp hphase
  exact ⟨phase, hphase, by simp [entry, hp, hphase]⟩

theorem proposals_of_entry {e : Entry} (h : m.entry id = some e) :
    m.proposalStore.proposals[id]? = some e.proposal ∧
      m.proposalStore.phases[id]? = some e.phase ∧ m.votingManager.getRecords id = e.records ∧
      m.votingManager.getVoters id = e.voters := by
  unfold entry at h
  split at h
  · next hp hphase =>
      cases h
      exact ⟨hp, hphase, rfl, rfl⟩
  · cases h

/-- The four maps say the same about `id`. -/
structure Agree (m m' : GovernanceManager) (id : Bytes32) : Prop where
  proposals : m'.proposalStore.proposals[id]? = m.proposalStore.proposals[id]?
  phases : m'.proposalStore.phases[id]? = m.proposalStore.phases[id]?
  records : m'.votingManager.records[id]? = m.votingManager.records[id]?
  voted : m'.votingManager.voted[id]? = m.votingManager.voted[id]?

theorem Agree.entry_eq (h : Agree m m' id) : m'.entry id = m.entry id := by
  simp only [entry, h.proposals, h.phases, VotingManager.getRecords, h.records,
    VotingManager.getVoters, h.voted]

theorem Coherent.of_change (hc : m.Coherent) (id₀ : Bytes32)
    (hagree : ∀ id, id₀ ≠ id → Agree m m' id)
    (hp : (m'.proposalStore.proposals[id₀]?).isSome)
    (hphase : (m'.proposalStore.phases[id₀]?).isSome) : m'.Coherent := by
  refine ⟨fun id => ?_, fun id h => ?_, fun id h => ?_⟩
  all_goals
    by_cases hid : id₀ = id
    · subst hid
      simp_all
    · have ha := hagree id hid
      simp_all only [ha.proposals, ha.phases, ha.records, ha.voted, hc.phase, hc.records, hc.voted]

/-! ### Identifiers -/

def idInput (m : GovernanceManager) : GovernanceOp → Option Bytes
  | .submitProposal proposer days _ _ _ _ now =>
    if days < m.config.minProposerHistoryDays then none
    else some (proposalIdInput proposer now m.proposalStore.nextProposalNonce)
  | .submitEmergency proposer _ _ _ _ now =>
    some (proposalIdInput proposer now m.proposalStore.nextProposalNonce)
  | _ => none

def FreshId (P : Platform) (m : GovernanceManager) (op : GovernanceOp) : Prop :=
  ∀ x ∈ m.idInput op, m.proposalStore.proposals[P.sha256 x]? = none

/-! ### Ticks -/

def advanced (now : DateTime) :
    Option Proposal × Option ProposalPhase → Option Proposal × Option ProposalPhase
  | (some p, some .discussion) =>
    if now ≥ p.discussionEnds then (some { p with status := .voting }, some .voting)
    else (some p, some .discussion)
  | (some p, some .voting) =>
    if now ≥ p.votingEnds then
      if p.passed then (some { p with status := .approved }, some .approved)
      else (some { p with status := .rejected }, some .rejected)
    else (some p, some .voting)
  | (some p, some .approved) =>
    if now ≥ p.implementationDate then
      (some { p with status := .implemented }, some .executed)
    else (some p, some .approved)
  | r => r

def seen (s : ProposalStore) (id : Bytes32) : Option Proposal × Option ProposalPhase :=
  (s.proposals[id]?, s.phases[id]?)

theorem seen_setPhase_ne (s : ProposalStore) {id id' : Bytes32} (p : Proposal)
    (phase : ProposalPhase) (status : ProposalStatus) (h : id' ≠ id) :
    seen (s.setPhase id p phase status) id' = seen s id' := by
  simp only [seen, ProposalStore.setPhase, getElem?_insert_ne _ _ h.symm]

theorem seen_advanceProposal (now : DateTime) (s : ProposalStore) (id : Bytes32) :
    seen (s.advanceProposal now id) id = advanced now (seen s id) := by
  unfold ProposalStore.advanceProposal
  cases hphase : s.phases[id]? with
  | none => simp [seen, hphase, advanced]
  | some phase =>
    cases hp : s.proposals[id]? with
    | none => simp [seen, hp, advanced]
    | some p =>
      cases phase <;> simp only [seen, hp, hphase, advanced] <;> split_ifs <;>
        simp [ProposalStore.setPhase, hp, hphase]

theorem seen_advanceProposal_ne (now : DateTime) (s : ProposalStore) (id id' : Bytes32)
    (h : id' ≠ id) : seen (s.advanceProposal now id) id' = seen s id' := by
  unfold ProposalStore.advanceProposal
  split <;> try split_ifs
  all_goals first | rfl | exact seen_setPhase_ne _ _ _ _ h

theorem seen_advanceAll (s : ProposalStore) (now : DateTime) (id : Bytes32) :
    seen (s.advanceAll now) id =
      if id ∈ s.proposals then advanced now (seen s id) else seen s id := by
  show seen (s.proposals.keys.foldl (ProposalStore.advanceProposal now) s) id = _
  rw [foldl_local (seen_advanceProposal now) (seen_advanceProposal_ne now)
    (nodup_keys s.proposals)]
  simp only [ExtTreeMap.mem_keys]

theorem advanceProposal_rest (now : DateTime) (s : ProposalStore) (id : Bytes32) :
    (s.advanceProposal now id).emergencyProposals = s.emergencyProposals ∧
      (s.advanceProposal now id).nextProposalNonce = s.nextProposalNonce := by
  unfold ProposalStore.advanceProposal
  split <;> (try split_ifs) <;> exact ⟨rfl, rfl⟩

theorem advanceAll_rest (s : ProposalStore) (now : DateTime) :
    (s.advanceAll now).emergencyProposals =
        s.emergencyProposals.map (fun _ ep => ProposalStore.expireEmergency now ep) ∧
      (s.advanceAll now).nextProposalNonce = s.nextProposalNonce := by
  have hall : ∀ (ids : List Bytes32) (s : ProposalStore),
      (ids.foldl (ProposalStore.advanceProposal now) s).emergencyProposals =
          s.emergencyProposals ∧
        (ids.foldl (ProposalStore.advanceProposal now) s).nextProposalNonce =
          s.nextProposalNonce := by
    intro ids
    induction ids with
    | nil => exact fun s => ⟨rfl, rfl⟩
    | cons id ids ih =>
      intro s
      obtain ⟨hep, hnonce⟩ := advanceProposal_rest now s id
      exact ⟨(ih _).1.trans hep, (ih _).2.trans hnonce⟩
  refine ⟨?_, (hall _ s).2⟩
  rw [ProposalStore.advanceAll, (hall _ s).1]

/-! ### The operations, one by one -/

def withProposal (m : GovernanceManager) (id : Bytes32) (p : Proposal) : GovernanceManager :=
  { m with
    proposalStore := { m.proposalStore with
      proposals := m.proposalStore.proposals.insert id p
      phases := m.proposalStore.phases.insert id .discussion
      nextProposalNonce := m.proposalStore.nextProposalNonce + 1 } }

def withPhase (m : GovernanceManager) (id : Bytes32) (p : Proposal) (phase : ProposalPhase)
    (status : ProposalStatus) : GovernanceManager :=
  { m with proposalStore := m.proposalStore.setPhase id p phase status }

def withVote (m : GovernanceManager) (id : Bytes32) (p : Proposal) (r : VoteRecord) :
    GovernanceManager :=
  { m with
    proposalStore := { m.proposalStore with
      proposals := m.proposalStore.proposals.insert id (p.count r.vote) }
    votingManager :=
      { voted := m.votingManager.voted.insert id ((m.votingManager.getVoters id).insert r.voter)
        records := m.votingManager.records.insert id (m.votingManager.getRecords id ++ [r]) } }

variable {id₀ : Bytes32} {now : DateTime}

theorem agree_withProposal (h : id₀ ≠ id) : Agree m (m.withProposal id₀ p) id :=
  ⟨getElem?_insert_ne _ _ h, getElem?_insert_ne _ _ h, rfl, rfl⟩

theorem agree_withPhase {phase : ProposalPhase} {status : ProposalStatus} (h : id₀ ≠ id) :
    Agree m (m.withPhase id₀ p phase status) id :=
  ⟨getElem?_insert_ne _ _ h, getElem?_insert_ne _ _ h, rfl, rfl⟩

theorem agree_withVote {r : VoteRecord} (h : id₀ ≠ id) :
    Agree m (m.withVote id₀ p r) id :=
  ⟨getElem?_insert_ne _ _ h, rfl, getElem?_insert_ne _ _ h,
    getElem?_insert_ne _ _ h⟩

theorem entry_withVote {e : Entry} (he : m.entry id = some e) (r : VoteRecord) :
    (m.withVote id e.proposal r).entry id = some (e.record r.voter r.vote r.timestamp) := by
  obtain ⟨-, hphase, hrecords, hvoters⟩ := proposals_of_entry he
  simp [entry, withVote, hphase, VotingManager.getRecords, VotingManager.getVoters, Entry.record,
    ← hrecords, ← hvoters]

section CastVote

variable {e : Entry} {voter : NodeId} (he : m.entry id = some e)
  (hstatus : e.proposal.status = .voting) (hvoter : voter ∉ e.voters)

include he hstatus hvoter

theorem step_castVote (vote : Vote) (now : DateTime) :
    m.step P (.castVote id voter vote true now) =
      if e.records.length < isizeMax then some (m.withVote id e.proposal ⟨voter, vote, now⟩)
      else none := by
  obtain ⟨hp, -, hrecords, hvoters⟩ := proposals_of_entry he
  have hnot : m.votingManager.hasVoted id voter = false := by
    simpa [VotingManager.hasVoted, hvoters] using hvoter
  split
  next hlen =>
    simp [step, castVote, VotingManager.castVote, hp, hstatus, hnot, hrecords, hlen, withVote]
  next hlen =>
    simp [step, castVote, VotingManager.castVote, hp, hstatus, hnot, hrecords, hlen]

theorem entry_of_castVote {vote : Vote} {now : DateTime}
    (hstep : m.step P (.castVote id voter vote true now) = some m') :
    m'.entry id = some (e.record voter vote now) ∧ e.records.length < isizeMax := by
  rw [step_castVote he hstatus hvoter] at hstep
  obtain ⟨hlen, hm'⟩ := Option.ite_none_right_eq_some.mp hstep
  cases hm'
  exact ⟨entry_withVote he _, hlen⟩

end CastVote

def HasRoom {V : Type} (t : ExtTreeMap Bytes32 V) (id : Bytes32) : Prop :=
  t.size < isizeMax ∨ id ∈ t

theorem insertEntry_eq_some {V : Type} {t t' : ExtTreeMap Bytes32 V} {id : Bytes32} {v : V}
    (h : insertEntry t id v = some t') : HasRoom t id ∧ t' = t.insert id v := by
  unfold insertEntry at h
  split at h
  · next hroom => exact ⟨hroom, (Option.some.inj h).symm⟩
  · cases h

inductive Effect (P : Platform) (m : GovernanceManager) : GovernanceOp → GovernanceManager → Prop
  | refused {op : GovernanceOp} : m.idInput op = none → Effect P m op m
  | submitted {op : GovernanceOp} {x : Bytes} {p : Proposal} : m.idInput op = some x →
      Entry.Created op ⟨p, .discussion, [], ∅⟩ →
      HasRoom m.proposalStore.proposals (P.sha256 x) → Effect P m op (m.withProposal (P.sha256 x) p)
  | cancelled {id : Bytes32} {requester : NodeId} {p : Proposal} :
      m.proposalStore.proposals[id]? = some p →
      m.proposalStore.phases[id]?.getD .discussion = .discussion →
      Effect P m (.cancelProposal id requester) (m.withPhase id p .cancelled .rejected)
  | counted {id : Bytes32} {voter : NodeId} {vote : Vote} {now : DateTime} {p : Proposal} :
      m.proposalStore.proposals[id]? = some p → p.status = .voting →
      voter ∉ m.votingManager.getVoters id → (m.votingManager.getRecords id).length < isizeMax →
      Effect P m (.castVote id voter vote true now) (m.withVote id p ⟨voter, vote, now⟩)
  | ticked {now : DateTime} : Effect P m (.tick now) (m.tick now)
  | configured {config : GovernanceConfig} :
      Effect P m (.updateConfig config) (m.updateConfig config)
  | declared {op : GovernanceOp} {x : Bytes} {ep : EmergencyProposal} : m.idInput op = some x →
      HasRoom m.proposalStore.emergencyProposals (P.sha256 x) →
      Effect P m op { m with
        proposalStore := { m.proposalStore with
          emergencyProposals := m.proposalStore.emergencyProposals.insert (P.sha256 x) ep
          nextProposalNonce := m.proposalStore.nextProposalNonce + 1 } }
  | amended {op : GovernanceOp} {id : Bytes32} {ep : EmergencyProposal} : m.idInput op = none →
      id ∈ m.proposalStore.emergencyProposals →
      Effect P m op { m with
        proposalStore := { m.proposalStore with
          emergencyProposals := m.proposalStore.emergencyProposals.insert id ep } }

def getEmergency (m : GovernanceManager) (id : Bytes32) : Option EmergencyProposal :=
  m.proposalStore.emergencyProposals[id]?

/-- What an operation makes of the manager, and of each emergency proposal. -/
structure Does (P : Platform) (m : GovernanceManager) (op : GovernanceOp) (m' : GovernanceManager) :
    Prop where
  effect : Effect P m op m'
  emergency : ∀ id, EmergencyChange P m.config.emergencyThresholdBps id op (m.getEmergency id)
    (m'.getEmergency id)

theorem does_refused (h : m.idInput op = none) : Does P m op m := ⟨.refused h, fun _ => .same⟩

theorem does_submitProposal {proposer : NodeId} {days : UInt64} {title description : String}
    {data : Bytes} {eligible : UInt64}
    (h : m.step P (.submitProposal proposer days title description data eligible now) = some m') :
    Does P m (.submitProposal proposer days title description data eligible now) m' := by
  obtain ⟨_, hm, rfl⟩ := Option.map_eq_some_iff.mp h
  obtain ⟨⟨r, s'⟩, hs, rfl⟩ := Option.map_eq_some_iff.mp hm
  unfold ProposalStore.submitProposal at hs
  split at hs
  · next hdays =>
      cases hs
      exact does_refused (by simp [idInput, hdays])
  · next hdays =>
      obtain ⟨discussionEnds, -, hs⟩ := Option.bind_eq_some_iff.mp hs
      obtain ⟨votingEnds, -, hs⟩ := Option.bind_eq_some_iff.mp hs
      obtain ⟨implementationDate, -, hs⟩ := Option.bind_eq_some_iff.mp hs
      obtain ⟨proposals, hins, hs⟩ := Option.bind_eq_some_iff.mp hs
      obtain ⟨hroom, rfl⟩ := insertEntry_eq_some hins
      cases hs
      exact ⟨.submitted (by simp [idInput, hdays]) .submitted hroom, fun _ => .same⟩

theorem does_castVote {voter : NodeId} {vote : Vote} {valid : Bool}
    (h : m.step P (.castVote id voter vote valid now) = some m') :
    Does P m (.castVote id voter vote valid now) m' := by
  obtain ⟨_, hm, rfl⟩ := Option.map_eq_some_iff.mp h
  obtain ⟨⟨r, v', s'⟩, hs, rfl⟩ := Option.map_eq_some_iff.mp hm
  unfold VotingManager.castVote at hs
  cases valid with
  | false =>
    cases hs
    exact does_refused rfl
  | true =>
    simp only [Bool.not_true, Bool.false_eq_true, if_false] at hs
    split at hs
    · cases hs
      exact does_refused rfl
    · next p hp =>
        split_ifs at hs with hstatus hvoted hlen
        · cases hs
          exact does_refused rfl
        · cases hs
          exact does_refused rfl
        · cases hs
          exact ⟨.counted hp (not_not.mp hstatus)
            (by simpa [VotingManager.hasVoted] using hvoted) hlen, fun _ => .same⟩

theorem does_cancelProposal {requester : NodeId} :
    Does P m (.cancelProposal id requester) (m.cancelProposal id requester).2 := by
  unfold cancelProposal ProposalStore.cancelProposal
  split
  · exact does_refused rfl
  · next p hp =>
      split_ifs with hproposer hphase
      · exact does_refused rfl
      · exact does_refused rfl
      · exact ⟨.cancelled hp (not_not.mp hphase), fun _ => .same⟩

theorem change_of_insert {bps : UInt32} {t : ExtTreeMap Bytes32 EmergencyProposal}
    {ep : EmergencyProposal} (h : id₀ = id → EmergencyChange P bps id op t[id]? (some ep)) :
    EmergencyChange P bps id op t[id]? (t.insert id₀ ep)[id]? := by
  by_cases hid : id₀ = id
  · rw [hid, getElem?_insert_self']
    exact h hid
  · rw [getElem?_insert_ne _ _ hid]
    exact .same

theorem does_submitEmergency {proposer : NodeId} {title description : String} {data : Bytes}
    {size : ℕ}
    (h : m.step P (.submitEmergency proposer title description data size now) = some m') :
    Does P m (.submitEmergency proposer title description data size now) m' := by
  obtain ⟨_, hm, rfl⟩ := Option.map_eq_some_iff.mp h
  obtain ⟨⟨r, s'⟩, hs, rfl⟩ := Option.map_eq_some_iff.mp hm
  obtain ⟨deadline, -, hs⟩ := Option.bind_eq_some_iff.mp hs
  obtain ⟨emergencies, hins, hs⟩ := Option.bind_eq_some_iff.mp hs
  obtain ⟨hroom, rfl⟩ := insertEntry_eq_some hins
  cases hs
  exact ⟨.declared rfl hroom, fun _ => change_of_insert fun hid => .submitted hid rfl rfl rfl rfl rfl⟩

theorem does_approveEmergency {approver : NodeId} {committee : List NodeId} :
    Does P m (.approveEmergency id approver committee)
      (m.approveEmergency id approver committee).2 := by
  unfold approveEmergency ProposalStore.approveEmergency
  split
  · exact does_refused rfl
  · next hmem =>
      split
      · exact does_refused rfl
      · next ep hep =>
          split_ifs with hdone happroved
          · exact does_refused rfl
          · exact does_refused rfl
          · refine ⟨.amended rfl (mem_of_getElem? hep), fun id' => change_of_insert fun hid => ?_⟩
            subst hid
            rw [hep]
            rw [not_or, Bool.not_eq_true, Bool.not_eq_true] at hdone
            exact .approved (not_not.mp hmem) hdone.1 hdone.2 rfl

theorem does_ratifyEmergency : Does P m (.ratifyEmergency id) (m.ratifyEmergency id).2 := by
  unfold ratifyEmergency ProposalStore.ratifyEmergency
  split
  · exact does_refused rfl
  · next ep hep =>
      split_ifs with hdone
      · exact does_refused rfl
      · refine ⟨.amended rfl (mem_of_getElem? hep), fun id' => change_of_insert fun hid => ?_⟩
        subst hid
        rw [hep]
        simp only [not_or, Bool.not_eq_true, Bool.not_eq_false'] at hdone
        exact .ratified hdone.1 hdone.2

theorem getEmergency_tick (now : DateTime) : (m.tick now).getEmergency id =
    (m.getEmergency id).map (ProposalStore.expireEmergency now) := by
  rw [getEmergency, tick, (advanceAll_rest m.proposalStore now).1, ExtTreeMap.getElem?_map]
  rfl

theorem does_tick (now : DateTime) : Does P m (.tick now) (m.tick now) := by
  refine ⟨.ticked, fun id => ?_⟩
  rw [getEmergency_tick]
  cases m.getEmergency id with
  | none => exact .same
  | some ep => exact .ticked

/-- **What an operation does**, if it does not panic. -/
theorem does_of_step (h : m.step P op = some m') : Does P m op m' := by
  cases op with
  | updateConfig => cases h; exact ⟨.configured, fun _ => .same⟩
  | submitProposal => exact does_submitProposal h
  | castVote => exact does_castVote h
  | submitEmergency => exact does_submitEmergency h
  | cancelProposal => cases h; exact does_cancelProposal
  | approveEmergency => cases h; exact does_approveEmergency
  | ratifyEmergency => cases h; exact does_ratifyEmergency
  | tick now => cases h; exact does_tick now

theorem effect_of_step (h : m.step P op = some m') : Effect P m op m' := (does_of_step h).effect

/-! ### The entries after an operation -/

theorem advanced_moves (id : Bytes32) (now : DateTime) (e : Entry) : ∃ e' : Entry,
    advanced now (some e.proposal, some e.phase) = (some e'.proposal, some e'.phase) ∧
      e'.records = e.records ∧ e'.voters = e.voters ∧
      Entry.Changes id (.tick now) (some e) (some e') := by
  cases hphase : e.phase with
  | discussion =>
    by_cases hends : e.proposal.discussionEnds ≤ now
    · refine ⟨e.goTo .voting .voting, ?_, rfl, rfl, .moved (.opened hphase hends)⟩
      simp [advanced, hends, Entry.goTo]
    · refine ⟨e, ?_, rfl, rfl, .same⟩
      simp [advanced, hends, hphase]
  | voting =>
    by_cases hends : e.proposal.votingEnds ≤ now
    · cases hpassed : e.proposal.passed with
      | true =>
        refine ⟨e.goTo .approved .approved, ?_, rfl, rfl,
          .moved (.approved hphase hends hpassed)⟩
        simp [advanced, hends, hpassed, Entry.goTo]
      | false =>
        refine ⟨e.goTo .rejected .rejected, ?_, rfl, rfl,
          .moved (.rejected hphase hends hpassed)⟩
        simp [advanced, hends, hpassed, Entry.goTo]
    · refine ⟨e, ?_, rfl, rfl, .same⟩
      simp [advanced, hends, hphase]
  | approved =>
    by_cases hdate : e.proposal.implementationDate ≤ now
    · refine ⟨e.goTo .executed .implemented, ?_, rfl, rfl, .moved (.executed hphase hdate)⟩
      simp [advanced, hdate, Entry.goTo]
    · refine ⟨e, ?_, rfl, rfl, .same⟩
      simp [advanced, hdate, hphase]
  | draft | rejected | executed | cancelled =>
    exact ⟨e, by simp [advanced, hphase], rfl, rfl, .same⟩

theorem entry_tick (hc : m.Coherent) (now : DateTime) (id : Bytes32) :
    Entry.Changes id (.tick now) (m.entry id) ((m.tick now).entry id) := by
  have hseen := seen_advanceAll m.proposalStore now id
  cases hp : m.proposalStore.proposals[id]? with
  | none =>
    rw [if_neg (notMem_of_getElem? hp)] at hseen
    obtain ⟨hp', hphase'⟩ := Prod.mk.inj hseen
    have hagree : Agree m (m.tick now) id := ⟨hp', hphase', rfl, rfl⟩
    rw [hagree.entry_eq]
    exact .same
  | some p =>
    obtain ⟨phase, hphase, he⟩ := hc.entry_eq_some hp
    obtain ⟨e', hadv, hr, hv, hch⟩ := advanced_moves id now
      ⟨p, phase, m.votingManager.getRecords id, m.votingManager.getVoters id⟩
    rw [if_pos (mem_of_getElem? hp), seen, seen, hp, hphase, hadv] at hseen
    obtain ⟨hp', hphase'⟩ := Prod.mk.inj hseen
    have he' : (m.tick now).entry id = some e' := by
      unfold entry
      rw [show (m.tick now).proposalStore.proposals[id]? = _ from hp',
        show (m.tick now).proposalStore.phases[id]? = _ from hphase']
      obtain ⟨p', phase', records, voters⟩ := e'
      cases hr
      cases hv
      rfl
    rw [he, he']
    exact hch

theorem isSome_advanced (now : DateTime) (r : Option Proposal × Option ProposalPhase) :
    (advanced now r).1.isSome = r.1.isSome ∧ (advanced now r).2.isSome = r.2.isSome := by
  unfold advanced
  split <;> (try split_ifs) <;> exact ⟨rfl, rfl⟩

theorem tick_isSome (m : GovernanceManager) (now : DateTime) (id : Bytes32) :
    ((m.tick now).proposalStore.proposals[id]?).isSome =
        (m.proposalStore.proposals[id]?).isSome ∧
      ((m.tick now).proposalStore.phases[id]?).isSome =
        (m.proposalStore.phases[id]?).isSome := by
  change (seen (m.proposalStore.advanceAll now) id).1.isSome = _ ∧
    (seen (m.proposalStore.advanceAll now) id).2.isSome = _
  rw [seen_advanceAll]
  split
  · exact isSome_advanced now (seen m.proposalStore id)
  · exact ⟨rfl, rfl⟩

theorem Coherent.tick (hc : m.Coherent) (now : DateTime) : (m.tick now).Coherent := by
  have hnone : ∀ id : Bytes32, (m.tick now).proposalStore.proposals[id]? = none →
      m.proposalStore.proposals[id]? = none := by
    intro id h
    rw [← Option.not_isSome_iff_eq_none, ← (tick_isSome m now id).1, h]
    exact Bool.false_ne_true
  refine ⟨fun id => ?_, fun id h => hc.records id (hnone id h), fun id h => hc.voted id (hnone id h)⟩
  rw [(tick_isSome m now id).1, (tick_isSome m now id).2, hc.phase]

theorem Effect.coherent (hc : m.Coherent) (h : Effect P m op m') : m'.Coherent := by
  cases h with
  | refused => exact hc
  | submitted =>
    exact hc.of_change _ (fun id => agree_withProposal) (by simp [withProposal])
      (by simp [withProposal])
  | cancelled =>
    exact hc.of_change _ (fun id => agree_withPhase) (by simp [withPhase, ProposalStore.setPhase])
      (by simp [withPhase, ProposalStore.setPhase])
  | counted hp =>
    obtain ⟨phase, hphase, -⟩ := hc.entry_eq_some hp
    exact hc.of_change _ (fun id => agree_withVote) (by simp [withVote])
      (by simp [withVote, hphase])
  | ticked => exact hc.tick _
  | configured | declared | amended => exact ⟨hc.phase, hc.records, hc.voted⟩

theorem coherent_of_run {config : GovernanceConfig} {ops : List GovernanceOp}
    (hrun : (new config).run P ops = some m) : m.Coherent :=
  reach_invariant Coherent (fun _ _ _ hstep hc => (effect_of_step hstep).coherent hc) hrun
    (coherent_new config)

/-- **What an operation does to each proposal.** -/
theorem Effect.entry (hc : m.Coherent) (hfresh : m.FreshId P op) (h : Effect P m op m')
    (id : Bytes32) : Entry.Changes id op (m.entry id) (m'.entry id) := by
  cases h with
  | refused => exact .same
  | submitted hx hcreated hroom =>
    rename_i x p
    by_cases hid : P.sha256 x = id
    · subst hid
      have hnone := hfresh x hx
      have hbefore : m.entry (P.sha256 x) = none := by simp [GovernanceManager.entry, hnone]
      have hafter : (m.withProposal (P.sha256 x) p).entry (P.sha256 x) =
          some ⟨p, .discussion, [], ∅⟩ := by
        simp [GovernanceManager.entry, withProposal, VotingManager.getRecords,
          hc.records _ hnone, VotingManager.getVoters, hc.voted _ hnone]
      rw [hbefore, hafter]
      exact .created hcreated
    · rw [(agree_withProposal hid).entry_eq]
      exact .same
  | cancelled hp hphase =>
    rename_i id₀ requester p
    by_cases hid : id₀ = id
    · subst hid
      obtain ⟨phase, hphase', he⟩ := hc.entry_eq_some hp
      rw [hphase'] at hphase
      have hafter : (m.withPhase id₀ p .cancelled .rejected).entry id₀ =
          some (Entry.goTo ⟨p, phase, m.votingManager.getRecords id₀,
            m.votingManager.getVoters id₀⟩ .cancelled .rejected) := by
        simp [GovernanceManager.entry, withPhase, ProposalStore.setPhase, Entry.goTo]
      rw [he, hafter]
      exact .moved (.cancelled hphase)
    · rw [(agree_withPhase hid).entry_eq]
      exact .same
  | counted hp hstatus hvoter hlen =>
    rename_i id₀ voter vote now p
    by_cases hid : id₀ = id
    · subst hid
      obtain ⟨phase, -, he⟩ := hc.entry_eq_some hp
      rw [he, entry_withVote he ⟨voter, vote, now⟩]
      exact .moved (.counted hstatus hvoter hlen)
    · rw [(agree_withVote hid).entry_eq]
      exact .same
  | ticked => exact entry_tick hc _ id
  | configured | declared | amended => exact .same

end GovernanceManager

end Gratia
