import Gratia.Governance.VotingWindow

/-!
# Governance — emergencies

An emergency proposal is activated by approvals of the validator committee and reverted by a tick
unless it is ratified.

`approve_emergency` is passed the committee of the moment and looks up only the approver in it; the
approvals counted include those of earlier committees, and the number required is a part of the
`committee_size` given at submission.  `ratify_emergency` has no time, so that only a tick makes the
deadline felt.
-/

namespace Gratia

open Support Std

namespace GovernanceManager

variable {P : Platform} {m m' : GovernanceManager} {op : GovernanceOp}

theorem config_of_step (h : m.step P op = some m') :
    m'.config = m.config ∨ op = .updateConfig m'.config := by
  cases effect_of_step h with
  | configured => exact .inr rfl
  | _ => exact .inl rfl

end GovernanceManager

/-! ### The committee of the moment -/

namespace EmergencyProposal

variable {ep : EmergencyProposal} {committee : List NodeId} {thresholdBps : UInt32}

def approversOn (ep : EmergencyProposal) (committee : List NodeId) : List NodeId :=
  committee.dedup.filter (· ∈ ep.approvals)

/-- The part of a committee that the threshold asks for has approved. -/
def BackedBy (ep : EmergencyProposal) (thresholdBps : UInt32) (committee : List NodeId) : Prop :=
  thresholdBps.toNat * committee.dedup.length ≤ 10000 * (ep.approversOn committee).length

theorem size_approvals_le (h : ∀ x ∈ ep.approvals, x ∈ committee) :
    ep.approvals.size ≤ (ep.approversOn committee).length := by
  have hnodup : ep.approvals.toList.Nodup :=
    ep.approvals.distinct_toList.imp fun hne heq => hne (by rw [heq]; exact ReflCmp.compare_self)
  rw [← ExtTreeSet.length_toList]
  refine (List.Nodup.subperm hnodup fun x hx => ?_).length_le
  have hx := ExtTreeSet.mem_toList.mp hx
  simpa [approversOn, hx] using h x hx

theorem le_of_hasSupermajority (h : ep.hasSupermajority thresholdBps = true)
    (hfits : ep.committeeSize * thresholdBps.toNat + 9999 < 2 ^ 64) :
    thresholdBps.toNat * ep.committeeSize ≤ 10000 * ep.approvals.size := by
  rcases Nat.eq_zero_or_pos thresholdBps.toNat with hzero | hpos
  · simp [hzero]
  · have hsize : ep.committeeSize < 2 ^ 64 := by
      have := Nat.le_mul_of_pos_right ep.committeeSize hpos
      omega
    unfold hasSupermajority at h
    split at h
    · cases h
    · have hreq := UInt64.le_iff_toNat_le.mp (of_decide_eq_true h)
      rw [UInt64.toNat_div, toNat_saturatingAdd, toNat_saturatingMul,
        UInt64.toNat_ofNat_of_lt' hsize, UInt32.toNat_toUInt64] at hreq
      have hmod : (UInt64.ofNat ep.approvals.size).toNat ≤ ep.approvals.size := by
        rw [UInt64.toNat_ofNat']
        exact Nat.mod_le _ _
      rw [Nat.mul_comm]
      generalize ep.committeeSize * thresholdBps.toNat = required at hfits hreq ⊢
      simp only [UInt64.reduceToNat] at hreq
      omega

end EmergencyProposal

/-- What a later approval of the same proposal may be passed: a node that has approved is still on
the committee, and the committee is no larger than the size given at submission, whose product with
no threshold saturates.  A submission has the proposals of all identifiers it may be given. -/
def GovernanceOp.Precedes (P : Platform) (thresholds : List UInt32) :
    GovernanceOp → GovernanceOp → Prop
  | .approveEmergency id approver committee, .approveEmergency id' _ committee' =>
    id = id' → approver ∈ committee → approver ∈ committee'
  | .submitEmergency proposer _ _ _ size now, .approveEmergency id' _ committee' =>
    (∃ nonce, P.sha256 (proposalIdInput proposer now nonce) = id') →
      committee'.dedup.length ≤ size ∧ ∀ bps ∈ thresholds, size * bps.toNat + 9999 < 2 ^ 64
  | _, _ => True

/-- Approvers stay on the committee, and it does not outgrow the size given at submission. -/
def Steady (P : Platform) (thresholds : List UInt32) (ops : List GovernanceOp) : Prop :=
  ops.Pairwise (GovernanceOp.Precedes P thresholds)

/-- The thresholds in force at some time of a run. -/
def thresholdsOf (config : GovernanceConfig) (ops : List GovernanceOp) : List UInt32 :=
  config.emergencyThresholdBps :: ops.filterMap fun
    | .updateConfig config => some config.emergencyThresholdBps
    | _ => none

namespace GovernanceManager

variable {P : Platform} {m m' : GovernanceManager} {id : Bytes32} {op : GovernanceOp}
  {ops : List GovernanceOp} {ep : EmergencyProposal} {thresholds : List UInt32}

/-- A call that activates an emergency proposal has the supermajority of the committee passed in. -/
def ActivatesBacked (m : GovernanceManager) : GovernanceOp → Prop
  | .approveEmergency id approver committee =>
    (m.approveEmergency id approver committee).1 = .ok true →
      ∃ ep, (m.approveEmergency id approver committee).2.getEmergency id = some ep ∧
        ep.BackedBy m.config.emergencyThresholdBps committee
  | _ => True

/-- The committees still to be passed in hold every approver, and are no larger than the size given;
the threshold is one of those that do not saturate. -/
structure Expects (thresholds : List UInt32) (m : GovernanceManager) (ops : List GovernanceOp) :
    Prop where
  committees : ∀ id ep approver committee, m.getEmergency id = some ep →
    .approveEmergency id approver committee ∈ ops →
    (∀ x ∈ ep.approvals, x ∈ committee) ∧ committee.dedup.length ≤ ep.committeeSize ∧
      ∀ bps ∈ thresholds, ep.committeeSize * bps.toNat + 9999 < 2 ^ 64
  threshold : thresholdsOf m.config ops ⊆ thresholds

theorem thresholdsOf_step (hstep : m.step P op = some m') :
    thresholdsOf m'.config ops ⊆ thresholdsOf m.config (op :: ops) := by
  rcases config_of_step hstep with hsame | rfl
  · rw [hsame]
    refine List.cons_subset_cons _ ?_
    exact List.filterMap_subset _ (List.subset_cons_self op ops)
  · exact List.subset_cons_self _ _

theorem Expects.step (h : Expects thresholds m (op :: ops))
    (hsteady : Steady P thresholds (op :: ops)) (hstep : m.step P op = some m') :
    Expects thresholds m' ops := by
  obtain ⟨hfirst, -⟩ := List.pairwise_cons.mp hsteady
  refine ⟨fun id ep' approver committee hep' hmem => ?_,
    List.Subset.trans (thresholdsOf_step hstep) h.threshold⟩
  have hchange := (does_of_step hstep).emergency id
  have hold := fun ep hep => h.committees id ep approver committee hep (List.mem_cons_of_mem _ hmem)
  rw [hep'] at hchange
  generalize hep : m.getEmergency id = before at hchange
  cases hchange with
  | same => exact hold ep' hep
  | submitted hid happrovals hsize =>
    have hprec := hfirst _ hmem ⟨_, hid⟩
    rw [happrovals, hsize]
    exact ⟨fun x hx => absurd hx (by simp), hprec⟩
  | @approved approver' committee' ep ep₁ hmem' hactive hreverted hep₁ =>
    obtain ⟨hall, hrest⟩ := hold ep hep
    have hin : ∀ x ∈ ep₁.approvals, x ∈ committee := by
      intro x hx
      rw [hep₁, ExtTreeSet.mem_insert] at hx
      rcases hx with hx | hx
      · rw [← LawfulEqCmp.eq_of_compare hx]
        exact hfirst _ hmem rfl hmem'
      · exact hall x hx
    rw [apply_ite EmergencyProposal.approvals, apply_ite EmergencyProposal.committeeSize,
      ite_self, ite_self, show ep₁.committeeSize = ep.committeeSize by rw [hep₁]]
    exact ⟨hin, hrest⟩
  | @ratified ep => exact hold ep hep
  | @ticked ep now =>
    have hkeeps : (ProposalStore.expireEmergency now ep).approvals = ep.approvals ∧
        (ProposalStore.expireEmergency now ep).committeeSize = ep.committeeSize := by
      unfold ProposalStore.expireEmergency
      split <;> exact ⟨rfl, rfl⟩
    rw [hkeeps.1, hkeeps.2]
    exact hold ep hep

theorem approveEmergency_ok_true {approver : NodeId} {committee : List NodeId}
    (h : (m.approveEmergency id approver committee).1 = .ok true) : ∃ ep ep' : EmergencyProposal,
      m.getEmergency id = some ep ∧ approver ∈ committee ∧
      ep' = { ep with approvals := ep.approvals.insert approver } ∧
      ep'.hasSupermajority m.config.emergencyThresholdBps = true ∧
      (m.approveEmergency id approver committee).2.getEmergency id =
        some { ep' with activated := true } := by
  unfold approveEmergency ProposalStore.approveEmergency at h ⊢
  split at h
  · cases h
  · next hmem =>
      split at h
      · cases h
      · next ep hep =>
          split_ifs at h with hdone happroved
          · cases h
          · have hactivates := Except.ok.inj h
            refine ⟨ep, _, hep, not_not.mp hmem, rfl, hactivates, ?_⟩
            simp only [if_neg hmem, if_neg hdone, if_neg happroved, hactivates, if_true]
            exact getElem?_insert_self' _ _ _

theorem Expects.activatesBacked (h : Expects thresholds m (op :: ops)) : m.ActivatesBacked op := by
  cases op with
  | approveEmergency id approver committee =>
    intro hok
    obtain ⟨ep, ep', hep, hmem, hep', hmajority, hafter⟩ := approveEmergency_ok_true hok
    obtain ⟨hall, hsize, hfits⟩ := h.committees id ep approver committee hep List.mem_cons_self
    replace hfits := hfits _ (h.threshold List.mem_cons_self)
    have hin : ∀ x ∈ ep'.approvals, x ∈ committee := by
      intro x hx
      rw [hep', ExtTreeSet.mem_insert] at hx
      rcases hx with hx | hx
      · rwa [← LawfulEqCmp.eq_of_compare hx]
      · exact hall x hx
    have hsame : ep'.committeeSize = ep.committeeSize := by rw [hep']
    refine ⟨_, hafter, ?_⟩
    calc m.config.emergencyThresholdBps.toNat * committee.dedup.length
        ≤ m.config.emergencyThresholdBps.toNat * ep'.committeeSize :=
          Nat.mul_le_mul_left _ (hsame ▸ hsize)
      _ ≤ 10000 * ep'.approvals.size := EmergencyProposal.le_of_hasSupermajority hmajority
          (hsame ▸ hfits)
      _ ≤ 10000 * (ep'.approversOn committee).length :=
          Nat.mul_le_mul_left _ (EmergencyProposal.size_approvals_le hin)
  | _ => trivial

/-- **Activation has a supermajority**, at every call of every run that is steady. -/
theorem activation_has_supermajority (P : Platform) (config : GovernanceConfig)
    (ops : List GovernanceOp) (hsteady : Steady P (thresholdsOf config ops) ops) :
    Along (step P) ActivatesBacked (new config) ops := by
  have hrun : ∀ (thresholds : List UInt32) (ops : List GovernanceOp) (m : GovernanceManager),
      Steady P thresholds ops → Expects thresholds m ops →
      Along (step P) ActivatesBacked m ops := by
    intro thresholds ops
    induction ops with
    | nil => exact fun _ _ _ => trivial
    | cons op ops ih =>
      exact fun m hs h => ⟨h.activatesBacked, fun m' hm' =>
        ih m' (List.pairwise_cons.mp hs).2 (h.step hs hm')⟩
  exact hrun _ ops (new config) hsteady ⟨fun _ _ _ _ hep => (by cases hep), fun _ => id⟩

end GovernanceManager

namespace Reference

def firstEmergency : Bytes32 := firstProposal

def emergencyOps (approvals : List (UInt8 × List UInt8)) : List GovernanceOp :=
  .submitEmergency (node 1) "title" "description" [] 4 ⟨0, 0⟩ ::
    approvals.map fun a => .approveEmergency firstEmergency (node a.1) (a.2.map node)

/-- The threshold is lowered, and then half of the committee is enough. -/
def oneCommittee : List GovernanceOp :=
  .updateConfig { emergencyThresholdBps := 5000 } ::
    emergencyOps [(1, [1, 2, 3, 4]), (2, [1, 2, 3, 4])]

end Reference

open Reference GovernanceManager in
theorem activation_has_supermajority_oneCommittee :
    (((new {}).run reference oneCommittee).bind fun m => m.getEmergency firstEmergency).map
      EmergencyProposal.activated = some true ∧
    Along (step reference) ActivatesBacked (new {}) oneCommittee := by
  have hfits : ([1, 2, 3, 4].map node).dedup.length ≤ 4 ∧
      ∀ bps ∈ thresholdsOf {} oneCommittee, 4 * bps.toNat + 9999 < 2 ^ 64 := by
    refine ⟨by decide +kernel, ?_⟩
    rw [show thresholdsOf {} oneCommittee = [7500, 5000] from rfl]
    simp
  refine ⟨by decide +kernel, activation_has_supermajority reference {} oneCommittee ?_⟩
  simp only [oneCommittee, emergencyOps, Steady, List.map_cons, List.map_nil, List.pairwise_cons,
    List.forall_mem_cons, GovernanceOp.Precedes, List.not_mem_nil, false_implies, implies_true,
    List.Pairwise.nil]
  exact ⟨trivial, ⟨fun _ => hfits, fun _ => hfits, trivial⟩, ⟨fun _ => id, trivial⟩, trivial, trivial⟩

open Reference GovernanceManager in
/-- Two members of one committee approve and one member of the next: the call activates with one of
the four members of the committee passed in. -/
theorem activation_after_rotation : ∃ m m' ep,
    (new {}).run reference (emergencyOps [(1, [1, 2, 3, 4]), (2, [1, 2, 3, 4])]) = some m ∧
    m.approveEmergency firstEmergency (node 5) ([5, 6, 7, 8].map node) = (.ok true, m') ∧
    m'.getEmergency firstEmergency = some ep ∧
    (ep.approversOn ([5, 6, 7, 8].map node)).length = 1 ∧
    ¬ ep.BackedBy m.config.emergencyThresholdBps ([5, 6, 7, 8].map node) := by
  have hparts : (((new {}).run reference
      (emergencyOps [(1, [1, 2, 3, 4]), (2, [1, 2, 3, 4])])).bind fun m =>
        ((m.approveEmergency firstEmergency (node 5) ([5, 6, 7, 8].map node)).2.getEmergency
          firstEmergency).map fun ep =>
        ((m.approveEmergency firstEmergency (node 5) ([5, 6, 7, 8].map node)).1.toOption,
          (ep.approversOn ([5, 6, 7, 8].map node)).length, m.config.emergencyThresholdBps)) =
      some (some true, 1, 7500) := by decide +kernel
  obtain ⟨m, hrun, hparts⟩ := Option.bind_eq_some_iff.mp hparts
  obtain ⟨ep, hep, hparts⟩ := Option.map_eq_some_iff.mp hparts
  simp only [Prod.mk.injEq, toOption_eq_some] at hparts
  obtain ⟨hok, hlen, hbps⟩ := hparts
  refine ⟨m, _, ep, hrun, Prod.ext hok rfl, hep, hlen, ?_⟩
  rw [EmergencyProposal.BackedBy, hlen, hbps]
  decide +kernel

/-! ### The deadline -/

/-- A call and the time it is made at, which is the time that it is given, if it is given one. -/
structure TimedCall where
  time : DateTime
  op : GovernanceOp
  given : ∀ now ∈ op.time?, now = time

def EmergencyProposal.Pending (ep : EmergencyProposal) : Prop :=
  ep.activated = true ∧ ep.ratified = false ∧ ep.reverted = false

namespace GovernanceManager

variable {P : Platform} {m m' : GovernanceManager} {c : TimedCall}

def Settled (m : GovernanceManager) : Prop :=
  ∀ id ep, m.getEmergency id = some ep → ¬ (ep.ratified = true ∧ ep.reverted = true)

/-- A tick at or past the deadline of an activated proposal has it ratified or reverted. -/
def SettledBy (m' : GovernanceManager) (c : TimedCall) : Prop :=
  c.op = .tick c.time → ∀ id ep, m'.getEmergency id = some ep →
    ep.ratificationDeadline ≤ c.time → ep.activated = true →
    ep.ratified = true ∨ ep.reverted = true

/-- A ratification that the call records is before the deadline. -/
def RatifiedInTime (m m' : GovernanceManager) (c : TimedCall) : Prop :=
  ∀ id ep, m'.getEmergency id = some ep → ep.ratified = true →
    (∃ before, m.getEmergency id = some before ∧ before.ratified = true) ∨
      c.time < ep.ratificationDeadline

/-- What the call leaves behind is as it should be with the deadlines. -/
def MeetsDeadlines (P : Platform) (m : GovernanceManager) (c : TimedCall) : Prop :=
  ∀ m' ∈ m.step P c.op, m'.Settled ∧ m'.SettledBy c ∧ m.RatifiedInTime m' c

/-- The call does not ratify a pending proposal at or past its deadline. -/
def NotLate (m : GovernanceManager) (c : TimedCall) : Prop :=
  ∀ id ep, c.op = .ratifyEmergency id → m.getEmergency id = some ep → ep.Pending →
    c.time < ep.ratificationDeadline

theorem expireEmergency_spec (now : DateTime) (ep : EmergencyProposal) :
    (ProposalStore.expireEmergency now ep).ratified = ep.ratified ∧
      (ProposalStore.expireEmergency now ep).activated = ep.activated ∧
      (ProposalStore.expireEmergency now ep).ratificationDeadline = ep.ratificationDeadline ∧
      ((ProposalStore.expireEmergency now ep).reverted = true ↔ ep.reverted = true ∨
        ep.activated = true ∧ ep.ratified = false ∧ ep.ratificationDeadline ≤ now) := by
  unfold ProposalStore.expireEmergency
  split
  · next h => simp [h.1, h.2.1, h.2.2.2]
  · next h =>
      refine ⟨rfl, rfl, rfl, ?_⟩
      cases hr : ep.reverted with
      | true => simp
      | false => simp_all

theorem Settled.step (h : m.Settled) {op : GovernanceOp} (hstep : m.step P op = some m') :
    m'.Settled := by
  intro id ep' hep'
  have hchange := (does_of_step hstep).emergency id
  rw [hep'] at hchange
  generalize hep : m.getEmergency id = before at hchange
  cases hchange with
  | same => exact h id ep' hep
  | submitted _ _ _ _ hratified _ => simp [hratified]
  | @approved approver committee ep ep₁ _ _ hreverted hep₁ =>
    rw [apply_ite EmergencyProposal.reverted, ite_self, hep₁]
    simp [hreverted]
  | ratified _ hreverted => simp [hreverted]
  | @ticked ep now =>
    obtain ⟨hratified, -, -, hreverted⟩ := expireEmergency_spec now ep
    have hep := h id ep hep
    rw [hratified, hreverted]
    rintro ⟨hr, hrev | ⟨-, hr', -⟩⟩
    · exact hep ⟨hr, hrev⟩
    · rw [hr] at hr'
      cases hr'

theorem settledBy_of_step (hstep : m.step P c.op = some m') : m'.SettledBy c := by
  intro hop id ep' hep' hdue hactive
  rw [hop] at hstep
  cases hstep
  rw [getEmergency_tick] at hep'
  obtain ⟨ep, -, rfl⟩ := Option.map_eq_some_iff.mp hep'
  obtain ⟨hratified, hactivated, hdeadline, hreverted⟩ := expireEmergency_spec c.time ep
  rw [hactivated] at hactive
  rw [hdeadline] at hdue
  rw [hratified, hreverted]
  cases hr : ep.ratified with
  | true => exact .inl rfl
  | false => exact .inr (.inr ⟨hactive, rfl, hdue⟩)

theorem NotLate.ratifiedInTime (h : m.NotLate c) (hstep : m.step P c.op = some m') :
    m.RatifiedInTime m' c := by
  intro id ep' hep' hratified
  have hchange := (does_of_step hstep).emergency id
  rw [hep'] at hchange
  generalize hep : m.getEmergency id = before at hchange
  generalize hop : c.op = op at hchange
  cases hchange with
  | same => exact .inl ⟨ep', rfl, hratified⟩
  | submitted _ _ _ _ hnot _ =>
    rw [hnot] at hratified
    cases hratified
  | @approved approver committee ep ep₁ _ _ _ hep₁ =>
    rw [apply_ite EmergencyProposal.ratified, ite_self, hep₁] at hratified
    exact .inl ⟨ep, rfl, hratified⟩
  | @ratified ep hactive hreverted =>
    cases hr : ep.ratified with
    | true => exact .inl ⟨ep, rfl, hr⟩
    | false => exact .inr (h id ep hop hep ⟨hactive, hr, hreverted⟩)
  | @ticked ep now =>
    rw [(expireEmergency_spec now ep).1] at hratified
    exact .inl ⟨ep, rfl, hratified⟩

theorem meetsDeadlines_iff (h : m.Settled) : m.MeetsDeadlines P c ↔ m.NotLate c := by
  constructor
  · intro hmeets id ep hop hep ⟨hactive, hratified, hreverted⟩
    have hstep : m.step P c.op = some (m.ratifyEmergency id).2 := by rw [hop]; rfl
    have hafter : (m.ratifyEmergency id).2.getEmergency id = some { ep with ratified := true } := by
      rw [getEmergency] at hep
      simp only [ratifyEmergency, ProposalStore.ratifyEmergency, hep, hactive, hreverted]
      exact getElem?_insert_self' _ _ _
    obtain ⟨-, -, hintime⟩ := hmeets _ hstep
    rcases hintime id _ hafter rfl with ⟨before, hbefore, hyes⟩ | hlt
    · rw [hep] at hbefore
      cases hbefore
      rw [hratified] at hyes
      cases hyes
    · exact hlt
  · intro hlate m' hstep
    exact ⟨h.step hstep, settledBy_of_step hstep, hlate.ratifiedInTime hstep⟩

/-- **Emergency measures expire unless ratified in time**, along a run, exactly if no call ratifies
a pending proposal at or past its deadline.  The times need not even be in order. -/
theorem emergencies_expire_iff (P : Platform) (config : GovernanceConfig) (calls : List TimedCall) :
    Along (fun m c => m.step P c.op) (MeetsDeadlines P) (new config) calls ↔
      Along (fun m c => m.step P c.op) NotLate (new config) calls :=
  along_congr Settled (fun _ _ _ _ _ hstep h => h.step hstep)
    (fun _ _ _ h => meetsDeadlines_iff h) calls (new config)
    (along_of_forall (fun _ _ => trivial) calls _) fun _ _ hep => by cases hep

end GovernanceManager

namespace Reference

def activationCalls : List TimedCall :=
  [⟨⟨0, 0⟩, .submitEmergency (node 1) "title" "description" [] 4 ⟨0, 0⟩, by decide⟩,
    ⟨⟨1, 0⟩, .approveEmergency firstEmergency (node 1) ([1, 2, 3, 4].map node), by decide⟩,
    ⟨⟨2, 0⟩, .approveEmergency firstEmergency (node 2) ([1, 2, 3, 4].map node), by decide⟩,
    ⟨⟨3, 0⟩, .approveEmergency firstEmergency (node 3) ([1, 2, 3, 4].map node), by decide⟩]

def lateRatification : TimedCall :=
  ⟨⟨91 * 86400, 0⟩, .ratifyEmergency firstEmergency, by decide⟩

end Reference

open Reference GovernanceManager in
/-- A ratification recorded past the deadline of 90 days, no tick having come in between. -/
theorem ratified_past_deadline :
    ((activationCalls ++ [lateRatification]).map TimedCall.time).Pairwise (· ≤ ·) ∧
    ∃ m m' before after,
      reach (fun m c => m.step reference c.op) (new {}) activationCalls = some m ∧
      m.step reference lateRatification.op = some m' ∧
      m.getEmergency firstEmergency = some before ∧ before.ratified = false ∧
      m'.getEmergency firstEmergency = some after ∧ after.ratified = true ∧
      after.ratificationDeadline = ⟨90 * 86400, 0⟩ ∧
      after.ratificationDeadline ≤ lateRatification.time := by
  refine ⟨by decide, ?_⟩
  have hparts : ((reach (fun m c => m.step reference c.op) (new {}) activationCalls).bind
      fun m => (m.step reference lateRatification.op).bind fun m' =>
        (m.getEmergency firstEmergency).bind fun before =>
          (m'.getEmergency firstEmergency).map fun after =>
            (before.ratified, after.ratified, after.ratificationDeadline)) =
      some (false, true, ⟨90 * 86400, 0⟩) := by decide +kernel
  obtain ⟨m, hrun, hparts⟩ := Option.bind_eq_some_iff.mp hparts
  obtain ⟨m', hstep, hparts⟩ := Option.bind_eq_some_iff.mp hparts
  obtain ⟨before, hbefore, hparts⟩ := Option.bind_eq_some_iff.mp hparts
  obtain ⟨after, hafter, hparts⟩ := Option.map_eq_some_iff.mp hparts
  simp only [Prod.mk.injEq] at hparts
  obtain ⟨hnot, hratified, hdeadline⟩ := hparts
  refine ⟨m, m', before, after, hrun, hstep, hbefore, hnot, hafter, hratified, hdeadline, ?_⟩
  rw [hdeadline]
  decide

end Gratia
