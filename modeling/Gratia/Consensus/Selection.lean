import Gratia.Consensus.Attempts
import Gratia.Consensus.VrfProofs
import Gratia.Support.Lists
import Gratia.Support.Quorum

/-!
# Consensus — Selection

What `select_committee_with_network_size` guarantees.  Every node of the pool has a ticket, unless
its VRF proof does not verify; tickets are ranked by selection value and node id (`ranking`), and
the first ones get the seats of the tier.
-/

namespace Gratia

open Support Std Reference

/-! ### Quorums

Two quorums of a committee share more members than may be faulty, for every committee that selection
yields with at least two signing keys.  The arithmetic is that of the scaling curve
(`scalingTiers_overlap`); a committee that could not be filled has its tier's threshold and fewer
members, which only widens the overlap.
-/

section Quorums

variable {P : Platform}

theorem scalingTiers_overlap : ∀ tier ∈ scalingTiers,
    (tier.committeeSize - 1) / 3 + tier.committeeSize < 2 * tier.finalityThreshold := by
  decide

def ValidatorCommittee.names (c : ValidatorCommittee) : Finset NodeId :=
  (c.members.map fun m => m.nodeId).toFinset

theorem ValidatorCommittee.card_names_le (c : ValidatorCommittee) :
    c.names.card ≤ c.members.length :=
  (List.toFinset_card_le _).trans (List.length_map _).le

/-- **Quorums intersect in more members than may be faulty.**  For every pool, seed, network size
and cooldown history, any two sets of members that reach the finality threshold share more than
`⌊(n - 1) / 3⌋` members, as soon as two of the `n` members can sign. -/
theorem quorums_intersect {nodes : List EligibleNode} {seed : Bytes32}
    {epoch slot networkSize : UInt64} {tracker : Option CooldownTracker} {c : ValidatorCommittee}
    (h : selectCommitteeWithNetworkSize P nodes seed epoch slot networkSize tracker = .ok c)
    (hreal : 2 ≤ c.realMembers) {Q Q' : Finset NodeId} (hQ : Q ⊆ c.names) (hQ' : Q' ⊆ c.names)
    (hcard : c.finalityThreshold ≤ Q.card) (hcard' : c.finalityThreshold ≤ Q'.card) :
    (c.members.length - 1) / 3 < (Q ∩ Q').card := by
  obtain ⟨pool, -, -, hmembers, hthreshold⟩ := selectCommitteeWithNetworkSize_ok h
  have hlen : c.members.length ≤ (tierForNetworkSize networkSize).committeeSize := by
    rw [hmembers]
    exact List.length_take_le _ _
  have htier := scalingTiers_overlap _ (tierForNetworkSize_mem networkSize)
  have hseats : (c.members.length - 1) / 3 ≤
      ((tierForNetworkSize networkSize).committeeSize - 1) / 3 :=
    Nat.div_le_div_right (Nat.sub_le_sub_right hlen 1)
  refine Quorum.lt_card_inter hQ hQ' hcard hcard' ?_
  have hnames := c.card_names_le
  rw [hthreshold, if_neg (Nat.not_le.mpr hreal)]
  omega

def Reference.trio : Except GratiaError ValidatorCommittee :=
  selectCommitteeWithNetworkSize reference
    [ConsensusEngine.eligibleNode 1, ConsensusEngine.eligibleNode 2,
      ConsensusEngine.eligibleNode 3] .zero 0 0 50 none

/-- Two of three and two of three. -/
theorem quorums_intersect_trio : ∃ c, trio = .ok c ∧ (c.members.length - 1) / 3 <
    (({node 1, node 2} : Finset NodeId) ∩
      {node 2, node 3}).card := by
  have hfacts : trio.toOption.any (fun c => decide (2 ≤ c.realMembers ∧
      c.finalityThreshold ≤ 2 ∧ {node 1, node 2} ⊆ c.names ∧
      {node 2, node 3} ⊆ c.names)) = true := by
    decide +kernel
  simp only [Option.any_eq_true, decide_eq_true_eq, toOption_eq_some] at hfacts
  obtain ⟨c, h, hreal, hthreshold, hQ, hQ'⟩ := hfacts
  exact ⟨c, h, quorums_intersect h hreal hQ hQ' (hthreshold.trans (by decide))
    (hthreshold.trans (by decide))⟩

end Quorums

/-! ### The order of tickets -/

namespace CommitteeMember

variable {a b : CommitteeMember}

theorem before_iff : before a b ↔
    (compareLex (compareOn selectionValue) (compareOn nodeId) a b).isLE = true := by
  unfold before compareLex compareOn
  cases hv : compare a.selectionValue b.selectionValue with
  | lt => simp [compare_eq_lt.mp hv]
  | eq =>
    rw [LawfulEqCmp.eq_of_compare hv]
    simp
  | gt =>
    have hgt : b.selectionValue < a.selectionValue := compare_eq_gt.mp hv
    have hne : a.selectionValue ≠ b.selectionValue := fun h => by
      rw [h] at hgt
      exact UInt64.lt_irrefl _ hgt
    simp [UInt64.lt_asymm hgt, hne]

instance : Std.Total before where
  total a b := by
    rw [before_iff, before_iff]
    by_cases h : (compareLex (compareOn selectionValue) (compareOn nodeId) a b).isLE = true
    · exact .inl h
    · right
      rw [OrientedCmp.lt_of_not_isLE h]
      rfl

instance : IsTrans CommitteeMember before where
  trans a b c h h' := by
    rw [before_iff] at h h' ⊢
    exact TransCmp.isLE_trans h h'

theorem before_antisymm (h : before a b) (h' : before b a) : a.nodeId = b.nodeId := by
  rw [before_iff] at h h'
  cases hc : compareLex (compareOn selectionValue) (compareOn nodeId) a b with
  | eq => exact LawfulEqCmp.eq_of_compare (compareLex_eq_eq.mp hc).2
  | lt =>
    rw [OrientedCmp.gt_of_lt hc] at h'
    cases h'
  | gt =>
    rw [hc] at h
    cases h

end CommitteeMember

/-! ### The pool and its tickets -/

section Tickets

variable (P : Platform)

def ranking (input : Bytes) (pool : List EligibleNode) : List CommitteeMember :=
  (pool.filterMap (candidate P input)).insertionSort CommitteeMember.before

end Tickets

variable {P : Platform} {nodes nodes' pool : List EligibleNode} {seed : Bytes32}
  {epochNumber slot networkSize : UInt64} {tier : CommitteeTier} {tracker : Option CooldownTracker}
  {c : ValidatorCommittee} {input : Bytes} {n : EligibleNode} {m : CommitteeMember}

theorem candidate_eq_some (h : candidate P input n = some m) :
    m.nodeId = n.nodeId ∧ m.signingPubkey = n.signingPubkey := by
  unfold candidate at h
  dsimp only at h
  split at h
  · split at h
    · cases h
      exact ⟨rfl, rfl⟩
    · cases h
  · cases h
    exact ⟨rfl, rfl⟩

@[simp] theorem mem_ranking : m ∈ ranking P input pool ↔ ∃ n ∈ pool, candidate P input n = some m :=
  (List.perm_insertionSort _ _).mem_iff.trans List.mem_filterMap

/-- The nodes with enough history if they fill the committee, else every eligible node. -/
def trustedPool (nodes : List EligibleNode) (tier : CommitteeTier) : List EligibleNode :=
  let established := nodes.filter EligibleNode.isCommitteeEligible
  if established.length < tier.committeeSize then nodes.filter EligibleNode.isEligible
  else established

def restedPool (nodes : List EligibleNode) (tier : CommitteeTier) (t : CooldownTracker) :
    List EligibleNode :=
  (trustedPool nodes tier).filter fun n => !t.isInCooldown n.nodeId tier.cooldownRounds

/-- **The pool**: the trusted nodes; with a cooldown, the rested ones if they fill the committee,
else every eligible node. -/
theorem selectionPool_ok (h : selectionPool nodes tier tracker = .ok pool) :
    tracker = none ∧ pool = trustedPool nodes tier ∨
      ∃ t, tracker = some t ∧ pool =
        if (restedPool nodes tier t).length < tier.committeeSize
        then nodes.filter EligibleNode.isEligible else restedPool nodes tier t := by
  by_cases he : trustedPool nodes tier = []
  · rw [show selectionPool nodes tier tracker = .error _ from if_pos he] at h
    cases h
  · rw [show selectionPool nodes tier tracker = _ from if_neg he] at h
    cases tracker with
    | none => exact .inl ⟨rfl, (Except.ok.inj h).symm⟩
    | some t => exact .inr ⟨t, rfl, (Except.ok.inj h).symm⟩

theorem trustedPool_sublist (nodes : List EligibleNode) (tier : CommitteeTier) :
    (trustedPool nodes tier).Sublist nodes := by
  unfold trustedPool
  dsimp only
  split
  · exact List.filter_sublist
  · exact List.filter_sublist

theorem selectionPool_sublist (h : selectionPool nodes tier tracker = .ok pool) :
    pool.Sublist nodes := by
  rcases selectionPool_ok h with ⟨-, rfl⟩ | ⟨t, -, rfl⟩
  · exact trustedPool_sublist nodes tier
  · split
    · exact List.filter_sublist
    · exact List.filter_sublist.trans (trustedPool_sublist nodes tier)

theorem trustedPool_perm (h : nodes.Perm nodes') (tier : CommitteeTier) :
    (trustedPool nodes tier).Perm (trustedPool nodes' tier) := by
  unfold trustedPool
  dsimp only
  rw [(h.filter EligibleNode.isCommitteeEligible).length_eq]
  split
  · exact h.filter _
  · exact h.filter _

/-- The pools of two orders of one list are two orders of one pool. -/
theorem selectionPool_perm (h : nodes.Perm nodes') (tier : CommitteeTier)
    (tracker : Option CooldownTracker) :
    (∃ err, selectionPool nodes tier tracker = .error err ∧
      selectionPool nodes' tier tracker = .error err) ∨
    ∃ pool pool', selectionPool nodes tier tracker = .ok pool ∧
      selectionPool nodes' tier tracker = .ok pool' ∧ pool.Perm pool' := by
  have htrusted := trustedPool_perm h tier
  by_cases he : trustedPool nodes tier = []
  · have he' : trustedPool nodes' tier = [] := by
      rw [he] at htrusted
      exact htrusted.nil_eq.symm
    exact .inl ⟨_, if_pos he, if_pos he'⟩
  · have he' : trustedPool nodes' tier ≠ [] := fun he' => by
      rw [he'] at htrusted
      exact he htrusted.eq_nil
    right
    cases tracker with
    | none => exact ⟨_, _, if_neg he, if_neg he', htrusted⟩
    | some t =>
      have hrested : (restedPool nodes tier t).Perm (restedPool nodes' tier t) :=
        htrusted.filter _
      refine ⟨_, _, if_neg he, if_neg he', ?_⟩
      show (if (restedPool nodes tier t).length < _ then _ else restedPool nodes tier t).Perm
        (if (restedPool nodes' tier t).length < _ then _ else restedPool nodes' tier t)
      rw [hrested.length_eq]
      split
      · exact h.filter _
      · exact hrested

/-! ### One committee for all orders -/

theorem ranking_unique (hids : (pool.map fun n => n.nodeId).Nodup) {m m' : CommitteeMember}
    (hm : m ∈ ranking P input pool) (hm' : m' ∈ ranking P input pool)
    (hname : m.nodeId = m'.nodeId) : m = m' := by
  obtain ⟨n, hn, hc⟩ := mem_ranking.mp hm
  obtain ⟨n', hn', hc'⟩ := mem_ranking.mp hm'
  have hnode : n.nodeId = n'.nodeId := by
    rw [← (candidate_eq_some hc).1, ← (candidate_eq_some hc').1, hname]
  rw [List.inj_on_of_nodup_map hids hn hn' hnode, hc'] at hc
  exact (Option.some.inj hc).symm

theorem ranking_eq_of_perm (hperm : nodes.Perm nodes')
    (hids : (nodes.map fun n => n.nodeId).Nodup) (input : Bytes) :
    ranking P input nodes = ranking P input nodes' := by
  have hranking : (ranking P input nodes).Perm (ranking P input nodes') :=
    (List.perm_insertionSort _ _).trans
      ((hperm.filterMap (candidate P input)).trans (List.perm_insertionSort _ _).symm)
  refine List.Perm.eq_of_pairwise ?_ (List.pairwise_insertionSort _ _)
    (List.pairwise_insertionSort _ _) hranking
  intro a b ha hb hab hba
  exact ranking_unique hids ha (hranking.mem_iff.mpr hb) (CommitteeMember.before_antisymm hab hba)

/-- **All nodes select the same committee.**  Two orders of one list of nodes with different names
yield the same committee, or fail alike; and the members of a committee are the first of all tickets
of the pool, in the order of selection values and node ids, as many as there are seats. -/
theorem selection_canonical (hperm : nodes.Perm nodes')
    (hids : (nodes.map fun n => n.nodeId).Nodup) (seed : Bytes32)
    (epochNumber slot networkSize : UInt64) (tracker : Option CooldownTracker) :
    selectCommitteeWithNetworkSize P nodes seed epochNumber slot networkSize tracker =
        selectCommitteeWithNetworkSize P nodes' seed epochNumber slot networkSize tracker ∧
      ∀ c,
        selectCommitteeWithNetworkSize P nodes seed epochNumber slot networkSize tracker = .ok c →
        ∃ pool rest, selectionPool nodes (tierForNetworkSize networkSize) tracker = .ok pool ∧
          (c.members ++ rest).Perm
            (pool.filterMap (candidate P (selectionInput seed epochNumber))) ∧
          (c.members ++ rest).Pairwise CommitteeMember.before ∧
          c.members.length = min (tierForNetworkSize networkSize).committeeSize
            (pool.filterMap (candidate P (selectionInput seed epochNumber))).length := by
  constructor
  · unfold selectCommitteeWithNetworkSize
    rcases selectionPool_perm hperm (tierForNetworkSize networkSize) tracker with
      ⟨err, h, h'⟩ | ⟨pool, pool', h, h', hpool⟩
    · simp only [h, h', except_error_bind]
    · have hpoolIds : (pool.map fun n => n.nodeId).Nodup :=
        hids.sublist ((selectionPool_sublist h).map _)
      have hrank := ranking_eq_of_perm (P := P) hpool hpoolIds (selectionInput seed epochNumber)
      unfold ranking selectionInput at hrank
      simp only [h, h', except_ok_bind, hrank]
  · intro c hc
    obtain ⟨pool, hpool, -, hmembers, -⟩ := selectCommitteeWithNetworkSize_ok hc
    have hperm := List.perm_insertionSort CommitteeMember.before
      (pool.filterMap (candidate P (selectionInput seed epochNumber)))
    refine ⟨pool, (ranking P (selectionInput seed epochNumber) pool).drop
      (tierForNetworkSize networkSize).committeeSize, hpool, ?_, ?_, ?_⟩
    · rw [hmembers, ranking, List.take_append_drop]
      exact hperm
    · rw [hmembers, ranking, List.take_append_drop]
      exact List.pairwise_insertionSort _ _
    · rw [hmembers, List.length_take, hperm.length_eq]

/-- Three nodes, in two orders. -/
theorem selection_canonical_reversed :
    let nodes := [ConsensusEngine.eligibleNode 1, ConsensusEngine.eligibleNode 2,
      ConsensusEngine.eligibleNode 3]
    selectCommitteeWithNetworkSize reference nodes .zero 0 0 50 none =
      selectCommitteeWithNetworkSize reference nodes.reverse .zero 0 0 50 none :=
  (selection_canonical (List.reverse_perm _).symm (by decide) .zero 0 0 50 none).1

/-! ### Signing members and the threshold -/

section Threshold

def CommitteeMember.canSign (m : CommitteeMember) : Bool := !m.signingPubkey.isEmpty

/-- Of ranked tickets, the `j`-th with a signing key is among the first `size`: there are that many,
and the tickets without a key that rank before it leave room for them. -/
def SeatsSigners (tickets : List CommitteeMember) (size j : ℕ) : Prop :=
  j ≤ tickets.countP CommitteeMember.canSign ∧
    failsBefore CommitteeMember.canSign j tickets + j ≤ size

def ValidatorCommittee.signerNames (c : ValidatorCommittee) : Finset NodeId :=
  ((c.members.filter fun m => !m.signingPubkey.isEmpty).map fun m => m.nodeId).toFinset

theorem nodup_members (hids : (nodes.map fun n => n.nodeId).Nodup)
    (h : selectCommitteeWithNetworkSize P nodes seed epochNumber slot networkSize tracker = .ok c) :
    (c.members.map fun m => m.nodeId).Nodup := by
  obtain ⟨pool, hpool, -, hmembers, -⟩ := selectCommitteeWithNetworkSize_ok h
  have hpoolIds : (pool.map fun n => n.nodeId).Nodup :=
    hids.sublist ((selectionPool_sublist hpool).map _)
  have htickets : ((pool.filterMap (candidate P (selectionInput seed epochNumber))).map
      fun m => m.nodeId).Nodup := by
    rw [List.Nodup, List.pairwise_map] at hpoolIds ⊢
    refine hpoolIds.filterMap _ fun n n' hne m hm m' hm' => ?_
    rw [(candidate_eq_some hm).1, (candidate_eq_some hm').1]
    exact hne
  rw [hmembers]
  have hranked := ((List.perm_insertionSort CommitteeMember.before _).map
    fun m => m.nodeId).nodup_iff.mpr htickets
  exact hranked.sublist ((List.take_sublist _ _).map _)

theorem card_signerNames (hids : (c.members.map fun m => m.nodeId).Nodup) :
    c.signerNames.card = c.realMembers := by
  have hnodup : ((c.members.filter fun m => !m.signingPubkey.isEmpty).map
      fun m => m.nodeId).Nodup :=
    hids.sublist (List.filter_sublist.map _)
  rw [ValidatorCommittee.signerNames, List.toFinset_card_of_nodup hnodup, List.length_map,
    ValidatorCommittee.realMembers, List.countP_eq_length_filter]

theorem signers_finalize {e : ConsensusEngine} {p : PendingBlock} {sigs : List ValidatorSignature}
    (hcommittee : e.currentCommittee = some c) (hp : e.pendingBlock = some p)
    (hthreshold : p.finalityThreshold ≤ c.signerNames.card)
    (hsigs : ∀ m ∈ c.members, m.signingPubkey ≠ [] → ∃ sig ∈ sigs, sig.validator = m.nodeId ∧
      ConsensusEngine.checkSigner P c p.block.header sig = .ok ()) :
    ConsensusEngine.Finalizes P e (sigs.map .addBlockSignature ++ [.finalizePendingBlock])
      p.block.header := by
  refine ConsensusEngine.timely_attempts_finalize _ hp ?_ (hthreshold.trans ?_)
  · refine allSteps_of_forall _ fun x hx e => ?_
    obtain ⟨sig, -, rfl⟩ := List.mem_map.mp hx
    trivial
  · refine Finset.card_le_card fun name hname => ?_
    simp only [ValidatorCommittee.signerNames, List.mem_toFinset, List.mem_map, List.mem_filter,
      Bool.not_eq_true', List.isEmpty_eq_false_iff] at hname
    obtain ⟨m, ⟨hm, hkey⟩, rfl⟩ := hname
    obtain ⟨sig, hsig, hname, hcheck⟩ := hsigs m hm hkey
    have hvalid : m.nodeId ∈ ConsensusEngine.validSigners P e.currentCommittee p.block.header
        (sigs.map .addBlockSignature) := by
      refine List.mem_filterMap.mpr ⟨.addBlockSignature sig, List.mem_map_of_mem hsig, ?_⟩
      simp [ConsensusEngine.accepts, hcommittee, hcheck, hname]
    exact List.mem_toFinset.mpr (List.mem_append_right _ hvalid)

theorem le_realMembers_iff
    (hpool : selectionPool nodes (tierForNetworkSize networkSize) tracker = .ok pool)
    (h : selectCommitteeWithNetworkSize P nodes seed epochNumber slot networkSize tracker = .ok c)
    (j : ℕ) : j ≤ c.realMembers ↔ SeatsSigners (ranking P (selectionInput seed epochNumber) pool)
      (tierForNetworkSize networkSize).committeeSize j := by
  obtain ⟨_, hpool', -, hmembers, -⟩ := selectCommitteeWithNetworkSize_ok h
  cases hpool.symm.trans hpool'
  rw [ValidatorCommittee.realMembers, hmembers]
  exact le_countP_take_iff

/-- Every ticket with a key is seated when there are seats for all tickets, or when those without a
key leave room. -/
theorem seatsSigners_iff {tickets : List CommitteeMember} {size j j' : ℕ} (hj : j ≤ j')
    (h : tickets.length ≤ size ∨
      tickets.length + j' ≤ size + tickets.countP CommitteeMember.canSign) :
    SeatsSigners tickets size j ↔ j ≤ tickets.countP CommitteeMember.canSign := by
  refine and_iff_left_of_imp fun hle => ?_
  have hfails := failsBefore_le CommitteeMember.canSign j tickets
  omega

theorem two_le_finalityThreshold (networkSize : UInt64) :
    2 ≤ (tierForNetworkSize networkSize).finalityThreshold :=
  (by decide : ∀ tier ∈ scalingTiers, 2 ≤ tier.finalityThreshold) _
    (tierForNetworkSize_mem networkSize)

/-- **When the threshold can be reached.**  A committee with a member that can sign has at least as
many such members as its threshold asks for exactly if, as soon as the second of the ranked tickets
with a signing key gets a seat, as many get one as the tier's threshold.  When the seats suffice for
all tickets, or the tickets without a key leave that many, this says that one node or as many as the
threshold hold a ticket with a key.  Then, where nodes have different names, the signers' signatures
finalize a block that is pending under the committee's threshold. -/
theorem threshold_reachable_iff
    (hpool : selectionPool nodes (tierForNetworkSize networkSize) tracker = .ok pool)
    (h : selectCommitteeWithNetworkSize P nodes seed epochNumber slot networkSize tracker = .ok c)
    (hsigner : 0 < c.realMembers) :
    let tier := tierForNetworkSize networkSize
    let tickets := ranking P (selectionInput seed epochNumber) pool
    let signers := tickets.countP CommitteeMember.canSign
    (c.finalityThreshold ≤ c.realMembers ↔
      (SeatsSigners tickets tier.committeeSize 2 →
        SeatsSigners tickets tier.committeeSize tier.finalityThreshold)) ∧
    (tickets.length ≤ tier.committeeSize ∨
        tickets.length + tier.finalityThreshold ≤ tier.committeeSize + signers →
      (c.finalityThreshold ≤ c.realMembers ↔ signers = 1 ∨ tier.finalityThreshold ≤ signers)) ∧
    (c.finalityThreshold ≤ c.realMembers → (nodes.map fun n => n.nodeId).Nodup →
      ∀ (e : ConsensusEngine) (p : PendingBlock) (sigs : List ValidatorSignature),
        e.currentCommittee = some c → e.pendingBlock = some p →
        p.finalityThreshold = c.finalityThreshold →
        (∀ m ∈ c.members, m.signingPubkey ≠ [] → ∃ sig ∈ sigs, sig.validator = m.nodeId ∧
          ConsensusEngine.checkSigner P c p.block.header sig = .ok ()) →
        ConsensusEngine.Finalizes P e (sigs.map .addBlockSignature ++ [.finalizePendingBlock])
          p.block.header) := by
  intro tier tickets signers
  obtain ⟨-, -, -, -, hthreshold⟩ := selectCommitteeWithNetworkSize_ok h
  change c.finalityThreshold = if c.realMembers ≤ 1 then 1 else tier.finalityThreshold at hthreshold
  have hexact : c.finalityThreshold ≤ c.realMembers ↔
      (SeatsSigners tickets tier.committeeSize 2 →
        SeatsSigners tickets tier.committeeSize tier.finalityThreshold) := by
    rw [← le_realMembers_iff hpool h, ← le_realMembers_iff hpool h, hthreshold]
    split
    · omega
    · omega
  have hone : 1 ≤ signers := ((le_realMembers_iff hpool h 1).mp hsigner).1
  have htwo : 2 ≤ tier.finalityThreshold := two_le_finalityThreshold networkSize
  refine ⟨hexact, fun hroom => ?_, fun hle hids e p sigs hcommittee hp hp' hsigs => ?_⟩
  · rw [hexact, seatsSigners_iff htwo hroom, seatsSigners_iff le_rfl hroom]
    change (2 ≤ signers → tier.finalityThreshold ≤ signers) ↔ _
    omega
  · refine signers_finalize hcommittee hp ?_ hsigs
    rw [card_signerNames (nodup_members hids h), hp']
    exact hle

/-- Five nodes, one of them without a signing key. -/
def Reference.oneSilent : List EligibleNode :=
  { ConsensusEngine.eligibleNode 5 with signingPubkey := [] } ::
    [1, 2, 3, 4].map ConsensusEngine.eligibleNode

/-- In a network of a hundred they make a committee that takes four signatures, and four can
sign. -/
theorem threshold_reachable_oneSilent :
    ∃ c, selectCommitteeWithNetworkSize reference oneSilent .zero 0 0 100 none = .ok c ∧
      c.finalityThreshold ≤ c.realMembers := by
  have hfacts : (selectCommitteeWithNetworkSize reference oneSilent .zero 0 0 100
      none).toOption.any (fun c => decide (0 < c.realMembers)) = true ∧
      (ranking reference (selectionInput .zero 0) oneSilent).length ≤ 5 ∧
      4 ≤ (ranking reference (selectionInput .zero 0) oneSilent).countP
        CommitteeMember.canSign := by
    decide +kernel
  obtain ⟨hcommittee, hroom, hsigners⟩ := hfacts
  simp only [Option.any_eq_true, decide_eq_true_eq, toOption_eq_some] at hcommittee
  obtain ⟨c, hc, hsigner⟩ := hcommittee
  exact ⟨c, hc, ((threshold_reachable_iff rfl hc hsigner).2.1 (.inl hroom)).mpr (.inr hsigners)⟩

/-- **Two signers, four signatures.**  In a network of a hundred, a list of two nodes that can both
sign yields a committee of two that takes four signatures to finalize a block. -/
theorem threshold_out_of_reach :
    ∃ c, selectCommitteeWithNetworkSize reference [ConsensusEngine.eligibleNode 1,
        ConsensusEngine.eligibleNode 2] .zero 0 0 100 none = .ok c ∧
      c.realMembers = 2 ∧ c.finalityThreshold = 4 := by
  have hfacts : (selectCommitteeWithNetworkSize reference [ConsensusEngine.eligibleNode 1,
      ConsensusEngine.eligibleNode 2] .zero 0 0 100 none).toOption.any
        (fun c => decide (c.realMembers = 2 ∧ c.finalityThreshold = 4)) = true := by
    decide +kernel
  simpa only [Option.any_eq_true, decide_eq_true_eq, toOption_eq_some] using hfacts

end Threshold

/-! ### Newcomers -/

variable (P) in
/-- The ticket of a node of the list with enough history. -/
def FromEstablished (input : Bytes) (nodes : List EligibleNode) (m : CommitteeMember) : Prop :=
  ∃ n ∈ nodes, n.isCommitteeEligible = true ∧ candidate P input n = some m

theorem ranking_established (hpool : ∀ n ∈ pool, n ∈ nodes ∧ n.isCommitteeEligible = true) (k : ℕ) :
    ∀ m ∈ (ranking P input pool).take k, FromEstablished P input nodes m := by
  intro m hm
  obtain ⟨n, hn, hc⟩ := mem_ranking.mp (List.mem_of_mem_take hm)
  exact ⟨n, (hpool n hn).1, (hpool n hn).2, hc⟩

theorem trustedPool_eq_filter {tier : CommitteeTier}
    (hfill : tier.committeeSize ≤ nodes.countP EligibleNode.isCommitteeEligible) :
    trustedPool nodes tier = nodes.filter EligibleNode.isCommitteeEligible := by
  refine if_neg (Nat.not_lt.mpr ?_)
  rw [← List.countP_eq_length_filter]
  exact hfill

theorem length_restedPool {tier : CommitteeTier}
    (hfill : tier.committeeSize ≤ nodes.countP EligibleNode.isCommitteeEligible)
    (t : CooldownTracker) : (restedPool nodes tier t).length =
      nodes.countP fun n =>
        n.isCommitteeEligible && !t.isInCooldown n.nodeId tier.cooldownRounds := by
  rw [restedPool, trustedPool_eq_filter hfill, List.filter_filter, List.countP_eq_length_filter]
  simp only [Bool.and_comm]

/-- **When newcomers are kept out.**  Where established nodes can fill the committee, all members
are established exactly if enough established nodes are out of cooldown, or the best tickets of all
eligible nodes happen to be those of established ones. -/
theorem newcomers_kept_out_iff
    (h : selectCommitteeWithNetworkSize P nodes seed epochNumber slot networkSize tracker = .ok c)
    (hfill : (tierForNetworkSize networkSize).committeeSize ≤
      nodes.countP EligibleNode.isCommitteeEligible) :
    (∀ m ∈ c.members, FromEstablished P (selectionInput seed epochNumber) nodes m) ↔
      (∀ t, tracker = some t → (tierForNetworkSize networkSize).committeeSize ≤
        nodes.countP fun n => n.isCommitteeEligible &&
          !t.isInCooldown n.nodeId (tierForNetworkSize networkSize).cooldownRounds) ∨
      ∀ m ∈ (ranking P (selectionInput seed epochNumber) (nodes.filter EligibleNode.isEligible)).take
          (tierForNetworkSize networkSize).committeeSize,
        FromEstablished P (selectionInput seed epochNumber) nodes m := by
  obtain ⟨pool, hpool, -, hmembers, -⟩ := selectCommitteeWithNetworkSize_ok h
  change c.members = (ranking P (selectionInput seed epochNumber) pool).take _ at hmembers
  rw [hmembers]
  rcases selectionPool_ok hpool with ⟨rfl, rfl⟩ | ⟨t, rfl, rfl⟩
  · refine iff_of_true (ranking_established (fun n hn => ?_) _) (.inl nofun)
    rw [trustedPool_eq_filter hfill] at hn
    exact List.mem_filter.mp hn
  · split
    · next hshort =>
        -- the fallback is to all eligible nodes
        rw [length_restedPool hfill] at hshort
        refine (or_iff_right fun henough => ?_).symm
        exact absurd (henough t rfl) (Nat.not_le.mpr hshort)
    · next henough =>
        rw [length_restedPool hfill, Nat.not_lt] at henough
        refine iff_of_true (ranking_established (fun n hn => ?_) _) (.inl ?_)
        · rw [restedPool, trustedPool_eq_filter hfill] at hn
          exact List.mem_filter.mp (List.mem_of_mem_filter hn)
        · rintro _ ⟨⟩
          exact henough

def newcomer : EligibleNode := { ConsensusEngine.eligibleNode 4 with polDays := 0 }

/-- Four established nodes and a newcomer. -/
def Reference.withNewcomer : List EligibleNode :=
  newcomer :: [1, 2, 3, 5].map ConsensusEngine.eligibleNode

/-- One of the four has served in the last round; the other three are enough. -/
theorem newcomers_kept_out_rested :
    ∃ c, selectCommitteeWithNetworkSize reference withNewcomer .zero 0 0 50
        (some ⟨[[node 1]]⟩) = .ok c ∧
      ∀ m ∈ c.members,
        FromEstablished reference (selectionInput .zero 0) withNewcomer m := by
  have hfacts : (selectCommitteeWithNetworkSize reference withNewcomer .zero 0 0 50
      (some ⟨[[node 1]]⟩)).toOption.isSome = true ∧
      (tierForNetworkSize 50).committeeSize ≤
        withNewcomer.countP EligibleNode.isCommitteeEligible ∧
      (tierForNetworkSize 50).committeeSize ≤ withNewcomer.countP fun n =>
        n.isCommitteeEligible && !(⟨[[node 1]]⟩ : CooldownTracker).isInCooldown n.nodeId
          (tierForNetworkSize 50).cooldownRounds := by
    decide +kernel
  obtain ⟨hcommittee, hfill, hrested⟩ := hfacts
  obtain ⟨c, hc⟩ := Option.isSome_iff_exists.mp hcommittee
  rw [toOption_eq_some] at hc
  refine ⟨c, hc, (newcomers_kept_out_iff hc hfill).mpr (.inl ?_)⟩
  rintro t ⟨⟩
  exact hrested

/-- **A newcomer in an established network.**  Three established nodes, enough for a committee, have
served in the last round; so they are joined by a node without history, and it gets a seat. -/
theorem newcomer_seated :
    ∃ c, selectCommitteeWithNetworkSize reference [newcomer, ConsensusEngine.eligibleNode 1,
        ConsensusEngine.eligibleNode 2, ConsensusEngine.eligibleNode 3] .zero 0 0 50
          (some ⟨[[node 1, node 2, node 3]]⟩) = .ok c ∧
      c.members.any (fun m => m.nodeId == newcomer.nodeId) = true := by
  have hfacts : (selectCommitteeWithNetworkSize reference [newcomer, ConsensusEngine.eligibleNode 1,
      ConsensusEngine.eligibleNode 2, ConsensusEngine.eligibleNode 3] .zero 0 0 50
        (some ⟨[[node 1, node 2, node 3]]⟩)).toOption.any
          (fun c => c.members.any fun m => m.nodeId == newcomer.nodeId) = true := by
    decide +kernel
  rw [Option.any_eq_true] at hfacts
  obtain ⟨c, hc, hmember⟩ := hfacts
  exact ⟨c, toOption_eq_some.mp hc, hmember⟩

/-! ### Honest proofs -/

section Proofs

variable {key : VrfSecretKey}

theorem generateVrfProof_ne_nil (key : VrfSecretKey) (input : Bytes) :
    (generateVrfProof P key input).proofBytes ≠ [] := by
  obtain ⟨c, s, hread, -⟩ := generateVrfProof_reads P key input
  refine List.ne_nil_of_length_pos ?_
  rw [hread.length]
  decide

theorem candidate_honest (hkey : n.vrfPubkey = key.publicKey P)
    (hproof : n.vrfProof = (generateVrfProof P key input).proofBytes) :
    (candidate P input n = none ∧ (generateVrfProof P key input).output ≠ .zero) ∨
      ∃ m, candidate P input n = some m ∧ m.selectionProof = generateVrfProof P key input ∧
        (generateVrfProof P key input).output = .zero := by
  have hne : n.vrfProof ≠ [] := hproof ▸ generateVrfProof_ne_nil key input
  have hverify := fun output => verifyVrfProof_generate (P := P) key input .zero output
  rw [← hkey, ← hproof] at hverify
  unfold candidate
  rw [if_pos hne]
  cases hv : verifyVrfProof P n.vrfPubkey input ⟨.zero, n.vrfProof⟩ with
  | ok output =>
    obtain ⟨rfl, hzero⟩ := (hverify output).mp hv
    refine .inr ⟨_, rfl, ?_, hzero.symm⟩
    rw [hproof]
  | error err =>
    refine .inl ⟨rfl, fun hzero => ?_⟩
    rw [(hverify .zero).mpr ⟨hzero.symm, rfl⟩] at hv
    cases hv

variable (P) in
/-- A node's proof is honoured: its ticket carries the proof with its output, and it gets a seat in
every selection whose pool it is in, if there are seats for all tickets. -/
def Honoured (n : EligibleNode) (key : VrfSecretKey) (seed : Bytes32) (epochNumber : UInt64) :
    Prop :=
  (∃ m, candidate P (selectionInput seed epochNumber) n = some m ∧
    m.selectionProof = generateVrfProof P key (selectionInput seed epochNumber)) ∧
  ∀ nodes slot networkSize tracker pool,
    selectionPool nodes (tierForNetworkSize networkSize) tracker = .ok pool → n ∈ pool →
    (pool.filterMap (candidate P (selectionInput seed epochNumber))).length ≤
      (tierForNetworkSize networkSize).committeeSize →
    ∃ c, selectCommitteeWithNetworkSize P nodes seed epochNumber slot networkSize tracker = .ok c ∧
      ∃ m ∈ c.members, m.nodeId = n.nodeId ∧
        m.selectionProof = generateVrfProof P key (selectionInput seed epochNumber)

/-- **When an honest proof is honoured**: exactly if its output is the one it is verified against,
all zeros. -/
theorem honest_proof_honoured_iff (hkey : n.vrfPubkey = key.publicKey P)
    (hproof : n.vrfProof =
      (generateVrfProof P key (selectionInput seed epochNumber)).proofBytes) :
    Honoured P n key seed epochNumber ↔
      (generateVrfProof P key (selectionInput seed epochNumber)).output = .zero := by
  constructor
  · rintro ⟨⟨m, hm, -⟩, -⟩
    rcases candidate_honest hkey hproof with ⟨hnone, -⟩ | ⟨m', -, -, hzero⟩
    · rw [hnone] at hm
      cases hm
    · exact hzero
  · intro hzero
    rcases candidate_honest hkey hproof with ⟨-, hne⟩ | ⟨m, hm, hproof', -⟩
    · exact absurd hzero hne
    · refine ⟨⟨m, hm, hproof'⟩, fun nodes slot networkSize tracker pool hpool hn hseats => ?_⟩
      have hc : ∃ c, selectCommitteeWithNetworkSize P nodes seed epochNumber slot networkSize
          tracker = .ok c := by
        unfold selectCommitteeWithNetworkSize
        simp only [hpool, except_ok_bind]
        exact ⟨_, rfl⟩
      obtain ⟨c, hc⟩ := hc
      refine ⟨c, hc, m, ?_, (candidate_eq_some hm).1, hproof'⟩
      obtain ⟨pool', hpool', -, hmembers, -⟩ := selectCommitteeWithNetworkSize_ok hc
      cases hpool.symm.trans hpool'
      rw [hmembers, List.take_of_length_le]
      · exact mem_ranking.mpr ⟨n, hn, hm⟩
      · rw [List.length_insertionSort]
        exact hseats

def honestKey : VrfSecretKey := ⟨.splat 1⟩

def honestNode : EligibleNode :=
  { ConsensusEngine.eligibleNode 1 with
    vrfPubkey := honestKey.publicKey reference
    vrfProof := (generateVrfProof reference honestKey (selectionInput .zero 0)).proofBytes }

theorem honestNode_not_honoured : ¬ Honoured reference honestNode honestKey .zero 0 := by
  rw [honest_proof_honoured_iff rfl rfl]
  decide +kernel

/-- **An honest node left out.**  The only node of the list is eligible and sends an honest proof;
the committee is empty. -/
theorem honest_node_left_out :
    honestNode.isCommitteeEligible = true ∧
      ∃ c, selectCommittee reference [honestNode] .zero 0 0 = .ok c ∧ c.members = [] := by
  have hfacts : honestNode.isCommitteeEligible = true ∧
      (selectCommittee reference [honestNode] .zero 0 0).toOption.any
        (fun c => c.members.isEmpty) = true := by
    decide +kernel
  obtain ⟨heligible, hcommittee⟩ := hfacts
  rw [Option.any_eq_true] at hcommittee
  obtain ⟨c, hc, hempty⟩ := hcommittee
  exact ⟨heligible, c, toOption_eq_some.mp hc, List.isEmpty_iff.mp hempty⟩

end Proofs

end Gratia
