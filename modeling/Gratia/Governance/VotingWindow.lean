import Gratia.Governance.Tallies

/-!
# Governance — the voting window

Votes carry their own time, while phases change on ticks only.  In a run whose times never go back a
vote is never early: the tick that opened the voting came after the discussion.  It can be late,
since `cast_vote` looks at the phase and not at the clock.
-/

namespace Gratia

open Support Std

/-! ### Times -/

def GovernanceOp.time? : GovernanceOp → Option DateTime
  | .submitProposal _ _ _ _ _ _ now => some now
  | .castVote _ _ _ _ now => some now
  | .submitEmergency _ _ _ _ _ now => some now
  | .tick now => some now
  | _ => none

def Ordered (ops : List GovernanceOp) : Prop := (ops.filterMap GovernanceOp.time?).Pairwise (· ≤ ·)

instance (ops : List GovernanceOp) : Decidable (Ordered ops) :=
  inferInstanceAs (Decidable (List.Pairwise _ _))

/-- Every vote was cast from the end of the discussion on and before the end of the voting. -/
def Entry.InWindow (e : Entry) : Prop :=
  ∀ r ∈ e.records, e.proposal.discussionEnds ≤ r.timestamp ∧ r.timestamp < e.proposal.votingEnds

variable {P : Platform} {S : Set Bytes} {id : Bytes32} {op : GovernanceOp} {e e' : Entry}

theorem Ordered.tail {ops : List GovernanceOp} (h : Ordered (op :: ops)) : Ordered ops := by
  unfold Ordered at h ⊢
  rw [List.filterMap_cons] at h
  split at h
  · exact h
  · exact (List.pairwise_cons.mp h).2

theorem Ordered.le {ops : List GovernanceOp} {now : DateTime} (h : Ordered (op :: ops))
    (hnow : op.time? = some now) : ∀ t ∈ ops.filterMap GovernanceOp.time?, now ≤ t := by
  unfold Ordered at h
  rw [List.filterMap_cons_some hnow] at h
  exact (List.pairwise_cons.mp h).1

theorem Entry.Moves.keeps (hm : Entry.Moves id op e e') :
    e'.proposal.discussionEnds = e.proposal.discussionEnds ∧
      e'.proposal.votingEnds = e.proposal.votingEnds ∧ e.records ⊆ e'.records := by
  cases hm with
  | counted =>
    rename_i voter vote now _ _ _
    exact ⟨by cases vote <;> rfl, by cases vote <;> rfl, List.subset_append_left _ _⟩
  | cancelled | opened | approved | rejected | executed =>
    exact ⟨rfl, rfl, List.Subset.refl _⟩

/-! ### Forward only -/

def ProposalPhase.rank : ProposalPhase → ℕ
  | draft | discussion => 0
  | voting => 1
  | approved => 2
  | rejected | executed | cancelled => 3

/-- What was submitted, without what the run makes of it. -/
def Proposal.terms (p : Proposal) : Proposal :=
  { p with status := .discussion, votesYes := 0, votesNo := 0, votesAbstain := 0 }

structure Entry.Later (e e' : Entry) : Prop where
  terms : e'.proposal.terms = e.proposal.terms
  phase : e.phase.rank ≤ e'.phase.rank
  records : e.records <+: e'.records
  final : e' = e ∨ e.phase.rank < 3

theorem Entry.Moves.later (h : e.Exact) (hm : Moves id op e e') : e.Later e' := by
  cases hm with
  | @counted _ _ vote _ hstatus =>
    refine ⟨by cases vote <;> rfl, le_rfl, List.prefix_append _ _, .inr ?_⟩
    rw [h.voting_iff.mp hstatus]
    decide
  | cancelled hp | opened hp | approved hp | rejected hp | executed hp =>
    refine ⟨rfl, ?_, List.prefix_rfl, .inr ?_⟩ <;>
      simp [hp, ProposalPhase.rank, Entry.goTo]

namespace GovernanceManager

variable {config : GovernanceConfig} {m m' : GovernanceManager} {ops : List GovernanceOp}

/-! ### Votes in time -/

/-- A vote that finds its proposal in the voting phase is cast before the voting ends. -/
def InTime (m : GovernanceManager) : GovernanceOp → Prop
  | .castVote id voter _ hasValidPol now =>
    ∀ p ∈ m.proposalStore.proposals[id]?, hasValidPol = true → p.status = .voting →
      m.votingManager.hasVoted id voter = false → now < p.votingEnds
  | _ => True

instance (m : GovernanceManager) : ∀ op, Decidable (m.InTime op)
  | .castVote .. => inferInstanceAs (Decidable (∀ p ∈ _, _))
  | .updateConfig .. | .submitProposal .. | .cancelProposal .. | .submitEmergency ..
  | .approveEmergency .. | .ratifyEmergency .. | .tick .. => .isTrue trivial

/-- The discussion of every proposal in the voting phase is over at each of these times. -/
def OpenedBefore (m : GovernanceManager) (times : List DateTime) : Prop :=
  ∀ id e, m.entry id = some e → e.phase = .voting → ∀ t ∈ times, e.proposal.discussionEnds ≤ t

/-- An operation leaves every proposal in the voting phase open at all later times. -/
theorem OpenedBefore.step (hch : ∀ id, Entry.Changes id op (m.entry id) (m'.entry id))
    (hord : Ordered (op :: ops))
    (ho : m.OpenedBefore ((op :: ops).filterMap GovernanceOp.time?)) :
    m'.OpenedBefore (ops.filterMap GovernanceOp.time?) := by
  have hlater : ∀ t ∈ ops.filterMap GovernanceOp.time?,
      t ∈ (op :: ops).filterMap GovernanceOp.time? := by
    intro t ht
    rw [List.filterMap_cons]
    split
    · exact ht
    · exact List.mem_cons_of_mem _ ht
  intro id e he hphase t ht
  rcases (hch id).before he with hbefore | hcr | ⟨e₁, hbefore, hmv⟩
  · exact ho id e hbefore hphase t (hlater t ht)
  · cases hcr
    cases hphase
  · obtain ⟨hd, -, -⟩ := hmv.keeps
    cases hmv with
    | counted => exact hd ▸ ho id e₁ hbefore hphase t (hlater t ht)
    | opened hdisc hends => exact hends.trans (hord.le rfl t ht)
    | cancelled | approved | rejected | executed => simp [Entry.goTo] at hphase

/-- **One operation keeps votes within their windows**, if it is in time. -/
theorem inWindow_step (h : Faithful P S m)
    (hch : ∀ id, Entry.Changes id op (m.entry id) (m'.entry id)) (htime : m.InTime op)
    (ho : m.OpenedBefore ((op :: ops).filterMap GovernanceOp.time?))
    (hw : ∀ id e, m.entry id = some e → e.InWindow) :
    ∀ id e, m'.entry id = some e → e.InWindow := by
  intro id e he
  rcases (hch id).before he with hbefore | hcr | ⟨e₁, hbefore, hmv⟩
  · exact hw id e hbefore
  · cases hcr
    exact List.forall_mem_nil _
  · have hw₁ := hw id e₁ hbefore
    obtain ⟨hd, hv, -⟩ := hmv.keeps
    intro r hr
    rw [hd, hv]
    cases hmv with
    | @counted _ voter vote now hstatus hvoter hlen =>
      rcases List.mem_append.mp hr with hr | hr
      · exact hw₁ r hr
      · rw [List.mem_singleton.mp hr]
        obtain ⟨hp, -, -, hvoters⟩ := proposals_of_entry hbefore
        have hphase := (h.exact id e₁ hbefore).voting_iff.mp hstatus
        refine ⟨ho id e₁ hbefore hphase now ?_, htime e₁.proposal hp rfl hstatus ?_⟩
        · exact List.mem_cons_self
        · simpa [VotingManager.hasVoted, hvoters] using hvoter
    | cancelled | opened | approved | rejected | executed => exact hw₁ r hr

theorem Runs.records_persist (h : Runs P S m ops m') (he : m.entry id = some e) :
    ∃ e', m'.entry id = some e' ∧ e'.proposal.votingEnds = e.proposal.votingEnds ∧
      e.records ⊆ e'.records := by
  induction h generalizing e with
  | done => exact ⟨e, he, rfl, List.Subset.refl _⟩
  | step _ _ hch _ ih =>
    rcases (hch id).after he with hafter | ⟨e₁, hafter, hmv⟩
    · exact ih hafter
    · obtain ⟨-, hends, hsub⟩ := hmv.keeps
      obtain ⟨e₂, he₂, hends₂, hsub₂⟩ := ih hafter
      exact ⟨e₂, he₂, hends₂.trans hends, List.Subset.trans hsub hsub₂⟩

theorem Runs.later (h : Runs P S m ops m') (he : m.entry id = some e) :
    ∃ e', m'.entry id = some e' ∧ e.Later e' := by
  induction h generalizing e with
  | done => exact ⟨e, he, rfl, le_rfl, List.prefix_rfl, .inl rfl⟩
  | step hfaith _ hch _ ih =>
    rcases (hch id).after he with hafter | ⟨e₁, hafter, hmv⟩
    · exact ih hafter
    · have h₁ := hmv.later (hfaith.exact id e he)
      obtain ⟨e₂, he₂, h₂⟩ := ih hafter
      refine ⟨e₂, he₂, h₂.terms.trans h₁.terms, h₁.phase.trans h₂.phase,
        h₁.records.trans h₂.records, ?_⟩
      rcases h₁.final with rfl | hopen
      · exact h₂.final
      · exact .inr hopen

/-- **A proposal goes forward only**, in every run in which no two identifiers collide: it is never
dropped, its terms never change, its phase does not go back, its votes are kept in order, and once
its phase is final nothing changes it. -/
theorem proposals_go_forward (P : Platform) (config : GovernanceConfig)
    (before after : List GovernanceOp) {m m' : GovernanceManager}
    (hrun : (new config).run P (before ++ after) = some m')
    (hhash : Set.InjOn P.sha256 {x | x ∈ idInputs P (new config) (before ++ after)})
    (hbefore : (new config).run P before = some m) (he : m.entry id = some e) :
    ∃ e', m'.entry id = some e' ∧ e.Later e' := by
  obtain ⟨m₁, -, hm₁, hafter⟩ := (runs_new hrun hhash).append
  cases hbefore.symm.trans hm₁
  exact hafter.later he

open Reference in
theorem proposals_go_forward_oneVote : ∃ m m' e e', (new {}).run reference [submission] = some m ∧
    m.entry firstProposal = some e ∧ (new {}).run reference approvalOps = some m' ∧
    m'.entry firstProposal = some e' ∧ e.Later e' := by
  have hsome : ((new {}).run reference approvalOps).isSome = true ∧
      (((new {}).run reference [submission]).bind (·.entry firstProposal)).isSome = true := by
    decide +kernel
  obtain ⟨m', hrun⟩ := Option.isSome_iff_exists.mp hsome.1
  obtain ⟨e, he⟩ := Option.isSome_iff_exists.mp hsome.2
  obtain ⟨m, hm, he⟩ := Option.bind_eq_some_iff.mp he
  obtain ⟨e', he', hlater⟩ :=
    proposals_go_forward reference {} [submission] approvalOps.tail hrun injOn_approvalOps hm he
  exact ⟨m, m', e, e', hm, he, hrun, he', hlater⟩

/-! ### Runs -/

theorem Runs.inWindow_of_inTime (h : Runs P S m ops m') (hord : Ordered ops)
    (ho : m.OpenedBefore (ops.filterMap GovernanceOp.time?))
    (hw : ∀ id e, m.entry id = some e → e.InWindow)
    (htime : Along (GovernanceManager.step P) InTime m ops) :
    ∀ id e, m'.entry id = some e → e.InWindow := by
  induction h with
  | done => exact hw
  | step h hstep hch _ ih =>
    exact ih hord.tail (ho.step hch hord) (inWindow_step h hch htime.1 ho hw) (htime.2 _ hstep)

/-- A vote that is not in time ends up outside its window. -/
theorem Runs.inTime_of_inWindow (h : Runs P S m ops m')
    (hw : ∀ id e, m'.entry id = some e → e.InWindow) :
    Along (GovernanceManager.step P) InTime m ops := by
  induction h with
  | done => trivial
  | @step m m₁ m' op ops h hstep hch hrest ih =>
    refine ⟨?_, fun m₂ hm₂ => ?_⟩
    · cases op with
      | castVote id voter vote valid now =>
        rintro p hp rfl hstatus hvoter
        obtain ⟨phase, -, he⟩ := h.sound.coherent.entry_eq_some hp
        obtain ⟨he₁, -⟩ := entry_of_castVote he hstatus (of_decide_eq_false hvoter) hstep
        obtain ⟨e₂, he₂, hends, hsub⟩ := hrest.records_persist he₁
        have hlt := (hw id e₂ he₂ _ (hsub List.mem_concat_self)).2
        rw [hends] at hlt
        cases vote <;> exact hlt
      | _ => trivial
    · cases hstep.symm.trans hm₂
      exact ih hw

/-- **The voting window** is respected by all counted votes of a run, whose times do not go back and
whose identifiers do not collide, exactly when every vote is in time. -/
theorem votes_in_window_iff (P : Platform) (config : GovernanceConfig) (ops : List GovernanceOp)
    (m : GovernanceManager) (hrun : (new config).run P ops = some m) (hord : Ordered ops)
    (hhash : Set.InjOn P.sha256 {x | x ∈ idInputs P (new config) ops}) :
    (∀ id e, m.entry id = some e → e.InWindow) ↔
      Along (GovernanceManager.step P) InTime (new config) ops := by
  have hruns := runs_new hrun hhash
  have hnone : ∀ id, (new config).entry id = none := fun id => by simp [entry, new]
  refine ⟨hruns.inTime_of_inWindow, hruns.inWindow_of_inTime hord ?_ ?_⟩
  · intro id e he
    rw [hnone] at he
    cases he
  · intro id e he
    rw [hnone] at he
    cases he

end GovernanceManager

open Reference GovernanceManager in
/-- The vote of a proposal that went through is in its window. -/
theorem votes_in_window_oneVote : ∃ m, (new {}).run reference approvalOps = some m ∧
    ∀ id e, m.entry id = some e → e.InWindow := by
  have hsome : ((new {}).run reference approvalOps).isSome := by decide +kernel
  obtain ⟨m, hrun⟩ := Option.isSome_iff_exists.mp hsome
  exact ⟨m, hrun, (votes_in_window_iff reference {} approvalOps m hrun (by decide +kernel)
    injOn_approvalOps).mpr (by decide +kernel)⟩

namespace Reference

def lateOps : List GovernanceOp :=
  [submission, .tick ⟨1209600, 0⟩, .castVote firstProposal (node 2) .yes true ⟨4406400, 0⟩,
    .tick ⟨4406400, 0⟩]

end Reference

open Reference GovernanceManager in
/-- A proposal is approved by a vote cast a month after its voting. -/
theorem votes_in_window_lateVote : Ordered lateOps ∧ ∃ m e r,
    (new {}).run reference lateOps = some m ∧ m.entry firstProposal = some e ∧
      r ∈ e.records ∧ e.proposal.votingEnds < r.timestamp ∧ e.phase = .approved := by
  refine ⟨by decide +kernel, ?_⟩
  have hlate : (((new {}).run reference lateOps).bind fun m => m.entry firstProposal).map
      (fun e => (e.phase, e.proposal.votingEnds, e.records)) =
      some (.approved, ⟨1814400, 0⟩, [⟨node 2, .yes, ⟨4406400, 0⟩⟩]) := by decide +kernel
  obtain ⟨e, he, hparts⟩ := Option.map_eq_some_iff.mp hlate
  obtain ⟨m, hrun, he⟩ := Option.bind_eq_some_iff.mp he
  obtain ⟨hphase, hrest⟩ := Prod.mk.inj hparts
  obtain ⟨hends, hrecords⟩ := Prod.mk.inj hrest
  refine ⟨m, e, ⟨node 2, .yes, ⟨4406400, 0⟩⟩, hrun, he, ?_, ?_, hphase⟩
  · rw [hrecords]
    exact List.mem_singleton.mpr rfl
  · rw [hends]
    decide +kernel

end Gratia
