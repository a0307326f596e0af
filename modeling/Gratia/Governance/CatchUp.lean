import Gratia.Governance.Tallies

/-!
# Governance — catching up

A tick moves a proposal on by one phase.  If ticks were skipped while two of a proposal's deadlines
went by, the next tick leaves it behind: in the voting phase after the voting has ended, open for
votes until one more tick is made, or approved and not executed after its delay.
-/

namespace Gratia

open Std

namespace Proposal

variable (p : Proposal) (now : DateTime)

def afterApproval : ProposalPhase := if p.implementationDate ≤ now then .executed else .approved

def afterOpening : ProposalPhase :=
  if p.votingEnds ≤ now then if p.passed then p.afterApproval now else .rejected else .voting

def afterSubmission : ProposalPhase :=
  if p.discussionEnds ≤ now then p.afterOpening now else .discussion

/-- The phase that the deadlines, the votes and the time determine for a proposal that was in the
given phase before. -/
def phaseAt : ProposalPhase → ProposalPhase
  | .discussion => p.afterSubmission now
  | .voting => p.afterOpening now
  | .approved => p.afterApproval now
  | phase => phase

def TwiceOverdue : ProposalPhase → Prop
  | .discussion => p.discussionEnds ≤ now ∧ p.votingEnds ≤ now
  | .voting => p.votingEnds ≤ now ∧ p.passed = true ∧ p.implementationDate ≤ now
  | _ => False

theorem TwiceOverdue.votingEnds_le {p : Proposal} {now : DateTime} {phase : ProposalPhase}
    (h : p.TwiceOverdue now phase) : p.votingEnds ≤ now := by
  cases phase with
  | discussion => exact h.2
  | voting => exact h.1
  | draft | approved | rejected | executed | cancelled => exact h.elim

end Proposal

namespace GovernanceManager

variable {P : Platform} {m : GovernanceManager} {p : Proposal} {now : DateTime}

/-! ### One proposal -/

theorem afterOpening_ne_voting (hv : p.votingEnds ≤ now) : p.afterOpening now ≠ .voting := by
  unfold Proposal.afterOpening Proposal.afterApproval
  split_ifs <;> simp

open Proposal in
/-- A second tick changes nothing, and the first leads to the phase of the time, exactly if the
proposal was not overdue for two phases. -/
theorem advanced_iff (phase : ProposalPhase) :
    (advanced now (advanced now (some p, some phase)) = advanced now (some p, some phase) ↔
      ¬ p.TwiceOverdue now phase) ∧
    ((advanced now (some p, some phase)).2 = some (p.phaseAt now phase) ↔
      ¬ p.TwiceOverdue now phase) := by
  unfold advanced TwiceOverdue phaseAt
  cases phase with
  | discussion =>
    by_cases hd : p.discussionEnds ≤ now
    · by_cases hv : p.votingEnds ≤ now
      · -- a second tick closes the voting, one way or the other
        have hne := afterOpening_ne_voting hv
        cases hpass : passed { p with status := .voting } with
        | true | false => simp [afterSubmission, hd, hv, hpass, Ne.symm hne]
      · simp [afterSubmission, afterOpening, hd, hv]
    · simp [afterSubmission, hd]
  | voting =>
    by_cases hv : p.votingEnds ≤ now
    · cases hpass : p.passed with
      | true =>
        by_cases hi : p.implementationDate ≤ now <;> simp [afterOpening, afterApproval, hv, hpass, hi]
      | false => simp [afterOpening, hv, hpass]
    · simp [afterOpening, hv]
  | approved => by_cases hi : p.implementationDate ≤ now <;> simp [afterApproval, hi]
  | draft | rejected | executed | cancelled => simp

/-! ### All proposals -/

theorem expireEmergency_expireEmergency (ep : EmergencyProposal) :
    ProposalStore.expireEmergency now (ProposalStore.expireEmergency now ep) =
      ProposalStore.expireEmergency now ep := by
  unfold ProposalStore.expireEmergency
  split_ifs with h <;> simp_all

theorem seen_tick (now : DateTime) {id : Bytes32} {phase : ProposalPhase}
    (hp : m.proposalStore.proposals[id]? = some p)
    (hphase : m.proposalStore.phases[id]? = some phase) :
    seen (m.tick now).proposalStore id = advanced now (some p, some phase) := by
  rw [show (m.tick now).proposalStore = m.proposalStore.advanceAll now from rfl, seen_advanceAll,
    if_pos (Support.mem_of_getElem? hp), seen, hp, hphase]

theorem seen_tick_tick (now : DateTime) {id : Bytes32} {phase : ProposalPhase}
    (hp : m.proposalStore.proposals[id]? = some p)
    (hphase : m.proposalStore.phases[id]? = some phase) :
    seen ((m.tick now).tick now).proposalStore id =
      advanced now (advanced now (some p, some phase)) := by
  obtain ⟨e', hadv, -⟩ := advanced_moves id now ⟨p, phase, [], ∅⟩
  have hone := seen_tick now hp hphase
  rw [hadv] at hone ⊢
  obtain ⟨hp', hphase'⟩ := Prod.mk.inj hone
  exact seen_tick now hp' hphase'

theorem emergencies_tick_tick (m : GovernanceManager) (now : DateTime) :
    ((m.tick now).tick now).proposalStore.emergencyProposals =
      (m.tick now).proposalStore.emergencyProposals := by
  have hrest : ∀ m : GovernanceManager, (m.tick now).proposalStore.emergencyProposals = _ :=
    fun m => (advanceAll_rest m.proposalStore now).1
  refine ExtTreeMap.ext_getElem? fun id => ?_
  rw [hrest, hrest, ExtTreeMap.getElem?_map, ExtTreeMap.getElem?_map, Option.map_map]
  cases m.proposalStore.emergencyProposals[id]? with
  | none => rfl
  | some ep => exact congrArg some (expireEmergency_expireEmergency ep)

/-- Ticks look at the proposals and at the emergencies; these a second tick never changes. -/
theorem tick_tick_eq_iff (hc : m.Coherent) (now : DateTime) : (m.tick now).tick now = m.tick now ↔
    ∀ (id : Bytes32) p phase, m.proposalStore.proposals[id]? = some p →
      m.proposalStore.phases[id]? = some phase →
      advanced now (advanced now (some p, some phase)) = advanced now (some p, some phase) := by
  constructor
  · intro h id p phase hp hphase
    rw [← seen_tick_tick now hp hphase, h, seen_tick now hp hphase]
  · intro h
    have hseen : ∀ id, seen ((m.tick now).tick now).proposalStore id =
        seen (m.tick now).proposalStore id := by
      intro id
      cases hp : m.proposalStore.proposals[id]? with
      | some p =>
        obtain ⟨phase, hphase, -⟩ := hc.entry_eq_some hp
        rw [seen_tick_tick now hp hphase, h id p phase hp hphase, seen_tick now hp hphase]
      | none =>
        have hnone : id ∉ (m.tick now).proposalStore.proposals := by
          rw [ExtTreeMap.mem_iff_isSome_getElem?, (tick_isSome _ now id).1, hp]
          simp
        exact (seen_advanceAll (m.tick now).proposalStore now id).trans (if_neg hnone)
    have hstore : ((m.tick now).tick now).proposalStore = (m.tick now).proposalStore := by
      refine ProposalStore.ext ?_ ?_ (emergencies_tick_tick m now)
        (advanceAll_rest (m.tick now).proposalStore now).2
      · exact ExtTreeMap.ext_getElem? fun id => (Prod.mk.inj (hseen id)).1
      · exact ExtTreeMap.ext_getElem? fun id => (Prod.mk.inj (hseen id)).2
    exact congrArg (fun s => { m.tick now with proposalStore := s }) hstore

/-- One tick is enough: a second changes nothing, and every proposal is where its deadlines, its
votes and the time say. -/
def CaughtUp (m : GovernanceManager) (now : DateTime) : Prop :=
  (m.tick now).tick now = m.tick now ∧
    ∀ (id : Bytes32) p phase, m.proposalStore.proposals[id]? = some p →
      m.proposalStore.phases[id]? = some phase →
      (m.tick now).proposalStore.phases[id]? = some (p.phaseAt now phase)

/-- **One tick catches up, exactly** if no proposal is overdue for two phases; in every state that a
run of operations leads to. -/
theorem tick_catches_up_iff (P : Platform) (config : GovernanceConfig) (ops : List GovernanceOp)
    (m : GovernanceManager) (hrun : (new config).run P ops = some m) (now : DateTime) :
    m.CaughtUp now ↔ ∀ (id : Bytes32) p phase, m.proposalStore.proposals[id]? = some p →
      m.proposalStore.phases[id]? = some phase → ¬ p.TwiceOverdue now phase := by
  have hc := coherent_of_run hrun
  have hphase : ∀ (id : Bytes32) p phase, m.proposalStore.proposals[id]? = some p →
      m.proposalStore.phases[id]? = some phase →
      ((m.tick now).proposalStore.phases[id]? = some (p.phaseAt now phase) ↔
        ¬ p.TwiceOverdue now phase) := by
    intro id p phase hp hphase
    rw [← (advanced_iff phase).2, ← seen_tick now hp hphase]
    rfl
  rw [CaughtUp, tick_tick_eq_iff hc]
  constructor
  · rintro ⟨-, hall⟩ id p phase hp hph
    exact (hphase id p phase hp hph).mp (hall id p phase hp hph)
  · intro hall
    refine ⟨fun id p phase hp hph => ?_, fun id p phase hp hph => ?_⟩
    · exact (advanced_iff phase).1.mpr (hall id p phase hp hph)
    · exact (hphase id p phase hp hph).mpr (hall id p phase hp hph)

end GovernanceManager

open Reference GovernanceManager in
/-- A tick a day after the discussion is enough. -/
theorem tick_catches_up_inTime : ∃ m, (new {}).run reference [submission] = some m ∧
    m.CaughtUp ⟨1296000, 0⟩ := by
  have hends : ((new {}).run reference [submission]).map (fun m =>
      m.proposalStore.proposals.toList.map fun e => e.2.votingEnds) = some [⟨1814400, 0⟩] := by
    decide +kernel
  obtain ⟨m, hrun, hends⟩ := Option.map_eq_some_iff.mp hends
  refine ⟨m, hrun, (tick_catches_up_iff reference {} [submission] m hrun _).mpr ?_⟩
  intro id p phase hp _ hover
  have hmem := List.mem_map_of_mem (f := fun e : Bytes32 × Proposal => e.2.votingEnds)
    (ExtTreeMap.mem_toList_iff_getElem?_eq_some.mpr hp)
  rw [hends, List.mem_singleton] at hmem
  exact absurd (hmem ▸ hover.votingEnds_le) (by decide +kernel)

open Reference GovernanceManager in
/-- After a year without ticks the first opens the voting, which is long over, and the second
rejects the proposal. -/
theorem second_tick_rejects : ∃ m, (new {}).run reference [submission] = some m ∧
    ((m.tick ⟨31536000, 0⟩).entry firstProposal).map Entry.phase = some .voting ∧
    (((m.tick ⟨31536000, 0⟩).tick ⟨31536000, 0⟩).entry firstProposal).map Entry.phase =
      some .rejected := by
  have hphases : ((new {}).run reference [submission]).map (fun m =>
      (((m.tick ⟨31536000, 0⟩).entry firstProposal).map Entry.phase,
        (((m.tick ⟨31536000, 0⟩).tick ⟨31536000, 0⟩).entry firstProposal).map Entry.phase)) =
      some (some .voting, some .rejected) := by decide +kernel
  obtain ⟨m, hrun, hphases⟩ := Option.map_eq_some_iff.mp hphases
  obtain ⟨hfirst, hsecond⟩ := Prod.mk.inj hphases
  exact ⟨m, hrun, hfirst, hsecond⟩

end Gratia
