import Gratia.Governance.CatchUp

/-!
# Governance — the voting rule

A proposal is approved if a fifth of the eligible voters took part and yes has more than half of yes
and no.  The fifth is rounded down, so that a proposal can be approved by less than a fifth; and a
tally of more votes than there are eligible voters is taken for inflated and rejected, although
`cast_vote` admits any number of voters, so that one more yes can turn an approval into a rejection.
-/

namespace Gratia

open Support Std

/-! ### Voters -/

def NodeId.ofNat (n : ℕ) : NodeId := ⟨⟨leBytes 32 n, length_leBytes 32 n⟩⟩

theorem NodeId.ofNat_inj {a b : ℕ} (ha : a < 256 ^ 32) (hb : b < 256 ^ 32)
    (h : NodeId.ofNat a = NodeId.ofNat b) : a = b := by
  have hbytes := congrArg (fun n : NodeId => ofLeBytes n.bytes.bytes) h
  simpa only [NodeId.ofNat, ofLeBytes_leBytes, Nat.mod_eq_of_lt ha,
    Nat.mod_eq_of_lt hb] using hbytes

theorem Entry.Exact.exists_notMem_voters {e : Entry} (h : e.Exact) : ∃ voter, voter ∉ e.voters := by
  have hlen : (e.records.map VoteRecord.voter).length < 256 ^ 32 := by
    rw [List.length_map]
    exact h.room.trans_lt (by decide)
  obtain ⟨i, -, hi⟩ := exists_notMem_of_length_lt
    (fun i hi j hj => NodeId.ofNat_inj hi hj) hlen
  exact ⟨_, mt (h.voters _).mp hi⟩

/-! ### One more vote -/

theorem carried_append_yes {eligible : ℕ} {records : List VoteRecord} {r : VoteRecord}
    (h : Carried eligible records) (hr : r.vote = .yes) :
    Carried eligible (records ++ [r]) ↔ records.length < eligible := by
  obtain ⟨hpos, hle, hquorum, hmajority⟩ := h
  simp only [Carried, List.length_append, List.length_singleton, countOf_append_singleton, hr,
    if_true, if_neg (show ¬ Vote.yes = Vote.no by decide)]
  omega

namespace GovernanceManager

variable {P : Platform} {S : Set Bytes} {m m' : GovernanceManager} {id : Bytes32} {e : Entry}
  {now : DateTime}

def getProposalPhase (m : GovernanceManager) (id : Bytes32) : Option ProposalPhase :=
  m.proposalStore.phases[id]?

theorem getProposalPhase_tick (h : Faithful P S m) (he : m.entry id = some e)
    (hphase : e.phase = .voting) (hends : e.proposal.votingEnds ≤ now) :
    ((m.tick now).getProposalPhase id = some .approved ↔
      Carried e.proposal.eligibleVoters.toNat e.records) ∧
    ((m.tick now).getProposalPhase id = some .rejected ↔
      ¬ Carried e.proposal.eligibleVoters.toNat e.records) := by
  obtain ⟨hp, hph, -⟩ := proposals_of_entry he
  have hseen := congrArg Prod.snd (seen_tick now hp hph)
  rw [show (seen (m.tick now).proposalStore id).2 = (m.tick now).getProposalPhase id from rfl,
    hphase] at hseen
  rw [hseen, ← (h.exact id e he).passed_iff]
  cases hpassed : e.proposal.passed with
  | true | false => simp [advanced, hends, hpassed]

/-- The rule, for a proposal in the voting phase and a tick at its end: it is approved only if a
fifth of the eligible voters took part and yes is more than half of yes and no; and if it would be
approved, one more yes by a node that has not voted does not have it rejected. -/
def VotingRule (P : Platform) (m : GovernanceManager) (id : Bytes32) (e : Entry)
    (now : DateTime) : Prop :=
  (m.tick now).getProposalPhase id = some .approved →
    (e.proposal.eligibleVoters.toNat ≤ 5 * e.records.length ∧
      countOf .yes e.records + countOf .no e.records < 2 * countOf .yes e.records) ∧
    ∀ voter time m', m.votingManager.hasVoted id voter = false →
      m.step P (.castVote id voter .yes true time) = some m' →
      (m'.tick now).getProposalPhase id ≠ some .rejected

theorem rejected_withYes_iff {voter : NodeId} {time : DateTime} (h : Faithful P S m)
    (hinj : S.InjOn P.sha256) (he : m.entry id = some e) (hphase : e.phase = .voting)
    (hends : e.proposal.votingEnds ≤ now) (hvoter : voter ∉ e.voters)
    (hstep : m.step P (.castVote id voter .yes true time) = some m')
    (hcarried : Carried e.proposal.eligibleVoters.toNat e.records) :
    (m'.tick now).getProposalPhase id = some .rejected ↔
      ¬ e.records.length < e.proposal.eligibleVoters.toNat := by
  have hstatus := (h.exact id e he).voting_iff.mpr hphase
  obtain ⟨he', -⟩ := entry_of_castVote he hstatus hvoter hstep
  have h' := h.step hinj (fun _ hx => by cases hx) hstep
  have hone := carried_append_yes (r := ⟨voter, .yes, time⟩) hcarried rfl
  rw [(getProposalPhase_tick h' he' hphase hends).2, ← hone]
  rfl

/-- **The voting rule is exact and monotone** for a proposal, in every run without collisions,
exactly if votes that carry it are at least a fifth of the eligible voters and, while there is room
for another, fewer than these. -/
theorem voting_rule_iff (P : Platform) (config : GovernanceConfig) (ops : List GovernanceOp)
    (m : GovernanceManager) (hrun : (new config).run P ops = some m)
    (hhash : Set.InjOn P.sha256 {x | x ∈ idInputs P (new config) ops}) (id : Bytes32) (e : Entry)
    (he : m.entry id = some e) (hphase : e.phase = .voting) (now : DateTime)
    (hends : e.proposal.votingEnds ≤ now) :
    VotingRule P m id e now ↔
      (Carried e.proposal.eligibleVoters.toNat e.records →
        e.proposal.eligibleVoters.toNat ≤ 5 * e.records.length ∧
          (e.records.length < isizeMax →
            e.records.length < e.proposal.eligibleVoters.toNat)) := by
  have hfaith := (runs_new hrun hhash).faithful
  have hstatus := (hfaith.exact id e he).voting_iff.mpr hphase
  obtain ⟨-, -, -, hvoters⟩ := proposals_of_entry he
  have hvoted : ∀ voter, m.votingManager.hasVoted id voter = false ↔ voter ∉ e.voters := by
    simp [VotingManager.hasVoted, hvoters]
  rw [VotingRule, (getProposalPhase_tick hfaith he hphase hends).1]
  refine forall_congr' fun hcarried => ?_
  rw [and_assoc, and_iff_right (a := _ < _) hcarried.2.2.2]
  refine and_congr_right fun _ => ⟨fun hmono hroom => ?_, fun hlt voter time m' hnot hstep => ?_⟩
  · obtain ⟨voter, hvoter⟩ := (hfaith.exact id e he).exists_notMem_voters
    have hstep := (step_castVote (P := P) he hstatus hvoter .yes now).trans (if_pos hroom)
    by_contra hge
    exact hmono voter now _ ((hvoted voter).mpr hvoter) hstep
      ((rejected_withYes_iff hfaith hhash he hphase hends hvoter hstep hcarried).mpr hge)
  · have hvoter := (hvoted voter).mp hnot
    have hroom := (entry_of_castVote he hstatus hvoter hstep).2
    rw [Ne, rejected_withYes_iff hfaith hhash he hphase hends hvoter hstep hcarried, not_not]
    exact hlt hroom

end GovernanceManager

namespace Reference

def yesVotes (eligible : UInt64) (voters : List UInt8) : List GovernanceOp :=
  .submitProposal (node 1) 90 "title" "description" [] eligible ⟨0, 0⟩ :: .tick ⟨1209600, 0⟩ ::
    voters.map fun n => .castVote firstProposal (node n) .yes true ⟨1209600, 0⟩

def outcome (eligible : UInt64) (voters : List UInt8) : Option ProposalPhase :=
  ((GovernanceManager.new {}).run reference (yesVotes eligible voters)).bind fun m =>
    (m.tick ⟨1814400, 0⟩).getProposalPhase firstProposal

end Reference

open Reference GovernanceManager in
/-- One yes of two is approved, and a second yes leaves it so. -/
theorem voting_rule_twoVoters : ∃ m e, (new {}).run reference (yesVotes 2 [2]) = some m ∧
    m.entry firstProposal = some e ∧ VotingRule reference m firstProposal e ⟨1814400, 0⟩ := by
  have hentry : (((new {}).run reference (yesVotes 2 [2])).bind fun m =>
      m.entry firstProposal).map (fun e => (e.phase, e.proposal.votingEnds,
        e.proposal.eligibleVoters, e.records.length)) =
      some (.voting, ⟨1814400, 0⟩, 2, 1) := by decide +kernel
  obtain ⟨e, he, hparts⟩ := Option.map_eq_some_iff.mp hentry
  obtain ⟨m, hrun, he⟩ := Option.bind_eq_some_iff.mp he
  simp only [Prod.mk.injEq] at hparts
  obtain ⟨hphase, hends, heligible, hlen⟩ := hparts
  have hhash : ∀ x ∈ idInputs reference (new {}) (yesVotes 2 [2]),
      ∀ y ∈ idInputs reference (new {}) (yesVotes 2 [2]),
      reference.sha256 x = reference.sha256 y → x = y := by decide +kernel
  refine ⟨m, e, hrun, he, (voting_rule_iff reference {} (yesVotes 2 [2]) m hrun
    (fun x hx y hy => hhash x hx y hy) firstProposal e he hphase _ hends.le).mpr fun _ => ?_⟩
  rw [heligible, hlen]
  decide

open Reference in
/-- One vote of nine approves a proposal; and where one node may vote, its yes approves the proposal
and the yes of another has it rejected. -/
theorem voting_rule_broken : outcome 9 [2] = some .approved ∧ ¬ 9 ≤ 5 * [2].length ∧
    outcome 1 [2] = some .approved ∧ outcome 1 [2, 3] = some .rejected := by
  decide +kernel

end Gratia
