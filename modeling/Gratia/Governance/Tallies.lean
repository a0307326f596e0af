import Gratia.Core.Reference
import Gratia.Governance.Identifiers

/-!
# Governance — Tallies

The votes of a proposal are in four places: its tallies, its vote records, the set of its voters
and, once they are counted, its phase.
-/

namespace Gratia

open Support Std

/-! ### Counting -/

def countOf (v : Vote) (records : List VoteRecord) : ℕ := records.countP fun r => r.vote = v

def Proposal.tally (p : Proposal) : Vote → UInt64
  | .yes => p.votesYes
  | .no => p.votesNo
  | .abstain => p.votesAbstain

@[simp] theorem Proposal.tally_count (p : Proposal) (v w : Vote) :
    (p.count v).tally w = if v = w then p.tally w + 1 else p.tally w := by
  cases v <;> cases w <;> rfl

theorem countOf_append_singleton (w : Vote) (records : List VoteRecord) (r : VoteRecord) :
    countOf w (records ++ [r]) = countOf w records + if r.vote = w then 1 else 0 := by
  simp [countOf, List.countP_append, List.countP_cons]

theorem countOf_le_length (v : Vote) (records : List VoteRecord) :
    countOf v records ≤ records.length :=
  List.countP_le_length

theorem length_eq_countOf (records : List VoteRecord) :
    records.length = countOf .yes records + countOf .no records + countOf .abstain records := by
  induction records with
  | nil => rfl
  | cons r records ih =>
    simp only [countOf, List.countP_cons, List.length_cons] at ih ⊢
    cases r.vote <;> simp <;> omega

/-- The votes meet the quorum, a fifth of the eligible voters rounded down, and yes is more than
half of yes and no. -/
def Carried (eligibleVoters : ℕ) (records : List VoteRecord) : Prop :=
  0 < eligibleVoters ∧ records.length ≤ eligibleVoters ∧ eligibleVoters / 5 ≤ records.length ∧
    countOf .yes records + countOf .no records < 2 * countOf .yes records

/-! ### Exact entries -/

/-- The status is that of the phase, the tallies are those of the records, and the voters are the
records' voters, each once. -/
structure Entry.Exact (e : Entry) : Prop where
  status : e.proposal.status = e.phase.toCoreStatus
  tally : ∀ v, (e.proposal.tally v).toNat = countOf v e.records
  nodup : (e.records.map VoteRecord.voter).Nodup
  voters : ∀ n, n ∈ e.voters ↔ n ∈ e.records.map VoteRecord.voter
  room : e.records.length ≤ isizeMax

theorem Entry.Exact.voting_iff {e : Entry} (h : e.Exact) :
    e.proposal.status = .voting ↔ e.phase = .voting := by
  rw [h.status]
  cases e.phase <;> simp [ProposalPhase.toCoreStatus]

/-- **What `passed` says of exact tallies.**  The tallies are too small for its sums to saturate. -/
theorem Entry.Exact.passed_iff {e : Entry} (h : e.Exact) :
    e.proposal.passed = true ↔ Carried e.proposal.eligibleVoters.toNat e.records := by
  have hyes : e.proposal.votesYes.toNat = _ := h.tally .yes
  have hno : e.proposal.votesNo.toNat = _ := h.tally .no
  have habstain : e.proposal.votesAbstain.toNat = _ := h.tally .abstain
  have hlen := length_eq_countOf e.records
  have hroom := h.room
  unfold isizeMax at hroom
  have hsum₂ : (saturatingAdd e.proposal.votesYes e.proposal.votesNo).toNat =
      countOf .yes e.records + countOf .no e.records := by
    rw [toNat_saturatingAdd]
    omega
  have hsum₃ : (saturatingAdd (saturatingAdd e.proposal.votesYes
      e.proposal.votesNo) e.proposal.votesAbstain).toNat = e.records.length := by
    rw [toNat_saturatingAdd, hsum₂]
    omega
  have htwice : (saturatingMul e.proposal.votesYes 2).toNat =
      2 * countOf .yes e.records := by
    rw [toNat_saturatingMul, hyes]
    simp only [UInt64.reduceToNat]
    omega
  have hzero : e.proposal.eligibleVoters = 0 ↔ e.proposal.eligibleVoters.toNat = 0 := by
    rw [← UInt64.toNat_inj]
    rfl
  unfold Proposal.passed Proposal.quorumMet Carried
  simp only [hzero, GT.gt, GE.ge, UInt64.lt_iff_toNat_lt, UInt64.le_iff_toNat_le, hsum₃, hsum₂,
    htwice, hyes, hno, UInt64.toNat_div, UInt64.reduceToNat]
  split_ifs <;> simp_all <;> omega

variable {id : Bytes32} {op : GovernanceOp} {e e' : Entry}

theorem Entry.Created.exact (h : Entry.Created op e) : e.Exact := by
  cases h with
  | submitted =>
    refine ⟨rfl, fun v => ?_, List.nodup_nil, fun n => by simp, Nat.zero_le _⟩
    cases v <;> rfl

theorem Entry.Exact.goTo (h : e.Exact) {phase : ProposalPhase} {status : ProposalStatus}
    (hs : status = phase.toCoreStatus) : (e.goTo phase status).Exact :=
  ⟨hs, fun v => by cases v; exacts [h.tally .yes, h.tally .no, h.tally .abstain], h.nodup, h.voters,
    h.room⟩

theorem Entry.Exact.record (h : e.Exact) {voter : NodeId} (vote : Vote) (now : DateTime)
    (hvoter : voter ∉ e.voters) (hlen : e.records.length < isizeMax) :
    (e.record voter vote now).Exact := by
  refine ⟨?_, fun w => ?_, ?_, fun n => ?_, ?_⟩
  · rw [show (e.record voter vote now).proposal.status = e.proposal.status by cases vote <;> rfl]
    exact h.status
  · have hle := countOf_le_length w e.records
    simp only [Entry.record, Proposal.tally_count, countOf_append_singleton]
    split
    · unfold isizeMax at hlen
      rw [toNat_add_of_lt (by rw [h.tally]; simp only [UInt64.reduceToNat]; omega), h.tally]
      rfl
    · rw [h.tally, Nat.add_zero]
  · simp only [Entry.record, List.map_append, List.map_cons, List.map_nil]
    refine List.nodup_append.mpr ⟨h.nodup, List.nodup_singleton _, ?_⟩
    rintro a ha b hb rfl
    rw [List.mem_singleton] at hb
    exact hvoter ((h.voters voter).mpr (hb ▸ ha))
  · simp only [Entry.record, List.map_append, List.map_cons, List.map_nil, List.mem_append,
      List.mem_singleton, ExtTreeSet.mem_insert, LawfulEqCmp.compare_eq_iff_eq, h.voters]
    rw [or_comm, eq_comm]
  · simp only [Entry.record, List.length_append, List.length_singleton]
    omega

/-- **Every move keeps the entry exact.** -/
theorem Entry.Moves.exact (hm : Entry.Moves id op e e') (h : e.Exact) : e'.Exact := by
  cases hm with
  | cancelled => exact h.goTo rfl
  | counted hstatus hvoter hlen => exact h.record _ _ hvoter hlen
  | opened | approved | rejected | executed => exact h.goTo rfl

theorem Entry.Moves.not_closed (hm : Entry.Moves id op e e') (h : e.Exact) :
    e.phase ≠ .rejected ∧ e.phase ≠ .cancelled := by
  cases hm with
  | cancelled hphase => simp [hphase]
  | counted hstatus => simp [h.voting_iff.mp hstatus]
  | opened hphase | approved hphase | rejected hphase | executed hphase => simp [hphase]

/-! ### Runs -/

namespace GovernanceManager

variable {P : Platform} {S : Set Bytes} {config : GovernanceConfig} {m m' : GovernanceManager}

structure Faithful (P : Platform) (S : Set Bytes) (m : GovernanceManager) : Prop where
  sound : Sound P S m
  exact : ∀ id e, m.entry id = some e → e.Exact

theorem Faithful.step (h : Faithful P S m) (hinj : S.InjOn P.sha256) (hS : HashesIn S m op)
    (hstep : m.step P op = some m') : Faithful P S m' := by
  refine ⟨h.sound.step hinj hS hstep, fun id e he => ?_⟩
  rcases (h.sound.changes hinj hS hstep id).before he with hm | hcr | ⟨e₁, hm, hmv⟩
  · exact h.exact id e hm
  · exact hcr.exact
  · exact hmv.exact (h.exact id e₁ hm)

theorem faithful_new (config : GovernanceConfig) : Faithful P S (new config) := by
  refine ⟨⟨coherent_new config, issued_new config⟩, fun id e he => ?_⟩
  simp [entry, new] at he

variable {ops : List GovernanceOp}

/-- A run without collisions, one operation at a time. -/
inductive Runs (P : Platform) (S : Set Bytes) :
    GovernanceManager → List GovernanceOp → GovernanceManager → Prop
  | done {m : GovernanceManager} : Faithful P S m → Runs P S m [] m
  | step {m m₁ m' : GovernanceManager} {op : GovernanceOp} {ops : List GovernanceOp} :
      Faithful P S m → m.step P op = some m₁ →
      (∀ id, Entry.Changes id op (m.entry id) (m₁.entry id)) → Runs P S m₁ ops m' →
      Runs P S m (op :: ops) m'

theorem runs_new (hrun : (new config).run P ops = some m)
    (hhash : Set.InjOn P.sha256 {x | x ∈ idInputs P (new config) ops}) :
    Runs P {x | x ∈ idInputs P (new config) ops} (new config) ops m := by
  have hall : ∀ (S : Set Bytes) (ops : List GovernanceOp) (m₀ : GovernanceManager),
      S.InjOn P.sha256 → Along (GovernanceManager.step P) (HashesIn S) m₀ ops →
      Faithful P S m₀ → m₀.run P ops = some m → Runs P S m₀ ops m := by
    intro S ops m₀ hinj
    induction ops generalizing m₀ with
    | nil =>
      rintro - h ⟨⟩
      exact .done h
    | cons op ops ih =>
      intro hS h hrun
      obtain ⟨m₁, hstep, hrest⟩ := reach_cons hrun
      exact .step h hstep (h.sound.changes hinj hS.1 hstep)
        (ih m₁ (hS.2 m₁ hstep) (h.step hinj hS.1 hstep) hrest)
  exact hall _ ops _ hhash (along_hashesIn ops _ fun _ hx => hx) (faithful_new config) hrun

theorem Runs.faithful (h : Runs P S m ops m') : Faithful P S m' := by
  induction h with
  | done h => exact h
  | step _ _ _ _ ih => exact ih

theorem Runs.append {pre post : List GovernanceOp} (h : Runs P S m (pre ++ post) m') :
    ∃ m₁, Runs P S m pre m₁ ∧ m.run P pre = some m₁ ∧ Runs P S m₁ post m' := by
  induction pre generalizing m with
  | nil =>
    refine ⟨m, .done ?_, rfl, h⟩
    cases h with
    | done h | step h => exact h
  | cons op pre ih =>
    obtain _ | ⟨hm, hstep, hch, hrest⟩ := h
    obtain ⟨m₁, hpre, hrun, hpost⟩ := ih hrest
    refine ⟨m₁, .step hm hstep hch hpre, ?_, hpost⟩
    exact Option.bind_eq_some_iff.mpr ⟨_, hstep, hrun⟩

theorem Runs.entry_of_closed (h : Runs P S m ops m') (he : m.entry id = some e)
    (hclosed : e.phase = .rejected ∨ e.phase = .cancelled) : m'.entry id = some e := by
  induction h with
  | done => exact he
  | step h _ hch _ ih =>
    refine ih ?_
    rcases (hch id).after he with hafter | ⟨e₁, -, hmv⟩
    · exact hafter
    · obtain ⟨hr, hc⟩ := hmv.not_closed (h.exact id e he)
      exact absurd hclosed (by simp [hr, hc])

/-- The votes carried the proposal at a tick after its voting, and it is in the state of that tick.
-/
def CarriedAt (P : Platform) (m₀ : GovernanceManager) (ops : List GovernanceOp) (id : Bytes32)
    (e : Entry) : Prop :=
  ∃ pre now post m₁ e₁, ops = pre ++ .tick now :: post ∧ m₀.run P pre = some m₁ ∧
    m₁.entry id = some e₁ ∧ e₁.phase = .voting ∧ e₁.proposal.votingEnds ≤ now ∧
    Carried e₁.proposal.eligibleVoters.toNat e₁.records ∧ e.records = e₁.records

theorem CarriedAt.snoc {m₀ : GovernanceManager} (h : CarriedAt P m₀ ops id e) (op : GovernanceOp)
    (hr : e'.records = e.records) : CarriedAt P m₀ (ops ++ [op]) id e' := by
  obtain ⟨pre, now, post, m₁, e₁, rfl, hrun, he₁, hphase, hends, hcarried, hrec⟩ := h
  exact ⟨pre, now, post ++ [op], m₁, e₁, by simp, hrun, he₁, hphase, hends, hcarried, hr.trans hrec⟩

/-- **The way to approval** leads through a tick after the voting that found the votes sufficient.
-/
theorem carriedAt_of_approved (ops : List GovernanceOp) :
    ∀ m', Runs P S (new config) ops m' → ∀ id e, m'.entry id = some e →
      e.phase = .approved ∨ e.phase = .executed → CarriedAt P (new config) ops id e := by
  induction ops using List.reverseRecOn with
  | nil =>
    rintro m' ⟨⟩ id e he _
    simp [entry, new] at he
  | append_singleton ops op ih =>
    intro m' hruns id e he hphase
    obtain ⟨m₁, hpre, hrun, hlast⟩ := hruns.append
    obtain _ | ⟨hfaith, -, hch, ⟨⟩⟩ := hlast
    rcases (hch id).before he with hbefore | hcr | ⟨e₁, hbefore, hmv⟩
    · exact (ih m₁ hpre id e hbefore hphase).snoc op rfl
    · cases hcr
      simp at hphase
    · have hexact := hfaith.exact id e₁ hbefore
      cases hmv with
      | cancelled => simp [Entry.goTo] at hphase
      | counted hstatus =>
        -- A vote is counted in the voting phase and does not change the phase.
        have hphase' : e₁.phase = .approved ∨ e₁.phase = .executed := hphase
        simp [hexact.voting_iff.mp hstatus] at hphase'
      | opened => simp [Entry.goTo] at hphase
      | approved hvoting hends hpassed =>
        exact ⟨ops, _, [], m₁, e₁, rfl, hrun, hbefore, hvoting, hends,
          hexact.passed_iff.mp hpassed, rfl⟩
      | rejected => simp [Entry.goTo] at hphase
      | executed happroved =>
        exact (ih m₁ hpre id e₁ hbefore (.inl happroved)).snoc _ rfl

/-- **Governance tallies are exact**, after every run in which no two identifiers collide. -/
theorem run_tallies_exact (P : Platform) (config : GovernanceConfig) (ops : List GovernanceOp)
    (m : GovernanceManager) (hrun : (new config).run P ops = some m)
    (hhash : Set.InjOn P.sha256 {x | x ∈ idInputs P (new config) ops}) :
    (∀ (id : Bytes32) p, m.proposalStore.proposals[id]? = some p →
      (∀ v, (p.tally v).toNat = countOf v (m.votingManager.getRecords id)) ∧
      ((m.votingManager.getRecords id).map VoteRecord.voter).Nodup ∧
      ∃ phase, m.proposalStore.phases[id]? = some phase ∧ p.status = phase.toCoreStatus) ∧
    (∀ pre post m₁ (id : Bytes32) e, ops = pre ++ post → (new config).run P pre = some m₁ →
      m₁.entry id = some e → e.phase = .rejected ∨ e.phase = .cancelled →
      m.entry id = some e) ∧
    ∀ (id : Bytes32) e, m.entry id = some e → e.phase = .approved ∨ e.phase = .executed →
      CarriedAt P (new config) ops id e := by
  have hruns := runs_new hrun hhash
  refine ⟨fun id p hp => ?_, ?_, carriedAt_of_approved ops m hruns⟩
  · obtain ⟨phase, hphase, he⟩ := hruns.faithful.sound.coherent.entry_eq_some hp
    have hexact := hruns.faithful.exact id _ he
    exact ⟨hexact.tally, hexact.nodup, phase, hphase, hexact.status⟩
  · rintro pre post m₁ id e rfl hpre he hclosed
    obtain ⟨m₁', -, hpre', hpost⟩ := hruns.append
    cases hpre.symm.trans hpre'
    exact hpost.entry_of_closed he hclosed

/-! ### A proposal with one vote -/

end GovernanceManager

namespace Reference

def submission : GovernanceOp := .submitProposal (node 1) 90 "title" "description" [] 2 ⟨0, 0⟩

def firstProposal : Bytes32 := sha256 (proposalIdInput (node 1) ⟨0, 0⟩ 0)

def approvalOps : List GovernanceOp :=
  [submission, .submitEmergency (node 2) "title" "description" [] 3 ⟨0, 0⟩,
    .tick ⟨1209600, 0⟩, .castVote firstProposal (node 2) .yes true ⟨1209600, 0⟩,
    .tick ⟨1814400, 0⟩]

end Reference

open Reference GovernanceManager in
theorem injOn_approvalOps :
    Set.InjOn reference.sha256 {x | x ∈ idInputs reference (new {}) approvalOps} := by
  have hhash : ∀ x ∈ idInputs reference (new {}) approvalOps,
      ∀ y ∈ idInputs reference (new {}) approvalOps,
      reference.sha256 x = reference.sha256 y → x = y := by decide +kernel
  exact fun x hx y hy => hhash x hx y hy

open Reference GovernanceManager in
theorem run_tallies_exact_oneVote : ∃ m e, (new {}).run reference approvalOps = some m ∧
    m.entry firstProposal = some e ∧ e.phase = .approved ∧
    CarriedAt reference (new {}) approvalOps firstProposal e := by
  have hphase : ((new {}).run reference approvalOps).bind
      (fun m => (m.entry firstProposal).map Entry.phase) = some .approved := by decide +kernel
  obtain ⟨m, hrun, he⟩ := Option.bind_eq_some_iff.mp hphase
  obtain ⟨e, he, hphase⟩ := Option.map_eq_some_iff.mp he
  exact ⟨m, e, hrun, he, hphase, (run_tallies_exact reference {} approvalOps m hrun
    injOn_approvalOps).2.2 _ e he (.inl hphase)⟩

end Gratia
