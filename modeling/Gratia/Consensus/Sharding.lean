import Gratia.Consensus.Committee
import Gratia.Core.Reference

/-!
# Consensus — Sharding

`gratia-consensus/src/sharded_consensus.rs`: the committee of a shard, drawn from the shard's own
validators and from its neighbours'.  A validator's location and stake are left out, and so are log
lines; nothing in the selection reads them.
-/

namespace Gratia

open Support (Bytes)
open Std

structure ShardId where
  id : UInt16
deriving DecidableEq

def crossShardCommitteePct : UInt8 := 20

/-- The bytes of `SHARD_COMMITTEE_DOMAIN`, `b"gratia-shard-committee-v1"`. -/
def shardCommitteeDomain : Bytes :=
  [103, 114, 97, 116, 105, 97, 45, 115, 104, 97, 114, 100, 45, 99, 111, 109, 109, 105, 116, 116, 101,
   101, 45, 118, 49]

/-- The bytes of `b"gratia-cross-shard-v1:"`. -/
def crossShardDomain : Bytes :=
  [103, 114, 97, 116, 105, 97, 45, 99, 114, 111, 115, 115, 45, 115, 104, 97, 114, 100, 45, 118, 49, 58]

/-! ### Validators and configuration -/

structure ValidatorInfo where
  nodeId : NodeId
  presenceScore : UInt8
  shardId : ShardId
  vrfPubkey : VrfPublicKey
  hasValidPol : Bool
  meetsMinimumStake : Bool
  polDays : UInt64

/-- `ValidatorInfo::to_eligible_node`: no signing key and no VRF proof are filled in. -/
def ValidatorInfo.toEligibleNode (v : ValidatorInfo) : EligibleNode :=
  { nodeId := v.nodeId, vrfPubkey := v.vrfPubkey, presenceScore := v.presenceScore,
    hasValidPol := v.hasValidPol, meetsMinimumStake := v.meetsMinimumStake, polDays := v.polDays,
    signingPubkey := [], vrfProof := [] }

structure ShardConsensusConfig where
  shardId : ShardId
  committeeSize : ℕ
  finalityThreshold : ℕ
  crossShardPct : UInt8

namespace ShardConsensusConfig

def forShard (shardId : ShardId) (shardValidatorCount : UInt64) : ShardConsensusConfig :=
  let tier := tierForNetworkSize shardValidatorCount
  { shardId := shardId, committeeSize := tier.committeeSize,
    finalityThreshold := tier.finalityThreshold, crossShardPct := crossShardCommitteePct }

end ShardConsensusConfig

def crossShardValidatorCount (committeeSize : ℕ) (pct : UInt8) : ℕ :=
  (committeeSize * pct.toNat + 99) / 100

namespace ShardConsensusConfig

variable (config : ShardConsensusConfig)

def crossShardSlots : ℕ := crossShardValidatorCount config.committeeSize config.crossShardPct

def localSlots : ℕ := config.committeeSize - config.crossShardSlots

end ShardConsensusConfig

/-! ### Selection -/

structure ShardedConsensus where
  config : ShardConsensusConfig
  localCommittee : List CommitteeMember := []
  crossShardMembers : List CommitteeMember := []
  combinedCommittee : Option ValidatorCommittee := none
  shardHeight : UInt64 := 0
  shardStateRoot : Bytes32 := .zero

/-- The finality threshold of a combined committee: `(n as f64 * 2.0 / 3.0).ceil()`, at least 1.
The product and the quotient are exact enough for the ceiling to be that of the rational number
below `2 ^ 52` members. -/
def combinedFinality (actualSize : ℕ) : ℕ :=
  if actualSize = 0 then 1 else max ((2 * actualSize + 2) / 3) 1

namespace ShardedConsensus

variable (P : Platform) (sc : ShardedConsensus)

/-- `build_combined_committee`.  The sort is stable and by selection value alone. -/
def buildCombinedCommittee (seed : Bytes32) : ShardedConsensus :=
  let allMembers := (sc.localCommittee ++ sc.crossShardMembers).insertionSort
    fun a b => a.selectionValue ≤ b.selectionValue
  let committee : ValidatorCommittee :=
    { epoch := ⟨0, 0, slotsPerEpoch, seed⟩, members := allMembers,
      committeeSize := allMembers.length, finalityThreshold := combinedFinality allMembers.length,
      networkSizeSnapshot := 0 }
  { sc with combinedCommittee := some committee }

/-- The members selected from a pool, at most `slots` of them; none if the selection fails. -/
def selectFrom (pool : List EligibleNode) (seed : Bytes32) (slots : ℕ) : List CommitteeMember :=
  match selectCommitteeWithNetworkSize P pool seed 0 0 (UInt64.ofNat pool.length) none with
  | .ok committee => committee.members.take slots
  | .error _ => []

def selectCommittee (validators : List ValidatorInfo) (shardAssignments : ExtTreeMap NodeId ShardId)
    (neighborShards : List ShardId) (vrfSeed : Bytes32) : ShardedConsensus :=
  let localValidators := validators.filter fun v =>
    ((shardAssignments[v.nodeId]?).map fun s => decide (s = sc.config.shardId)).getD false
  let neighborValidators := validators.filter fun v =>
    ((shardAssignments[v.nodeId]?).map fun s => neighborShards.contains s).getD false
  let shardSeed := P.sha256 (shardCommitteeDomain ++ vrfSeed.bytes ++
    [UInt8.ofNat (sc.config.shardId.id.toNat / 256), UInt8.ofNat sc.config.shardId.id.toNat])
  let localSelected := selectFrom P (localValidators.map ValidatorInfo.toEligibleNode) shardSeed
    sc.config.localSlots
  let crossShardSeed := P.sha256 (crossShardDomain ++ shardSeed.bytes)
  let neighborEligible := neighborValidators.map ValidatorInfo.toEligibleNode
  let crossShardSelected := if neighborEligible ≠ [] ∧ sc.config.crossShardSlots > 0 then
      selectFrom P neighborEligible crossShardSeed sc.config.crossShardSlots
    else []
  buildCombinedCommittee
    { sc with localCommittee := localSelected, crossShardMembers := crossShardSelected } shardSeed

def Filled : Prop :=
  sc.localCommittee.length = sc.config.localSlots ∧
    sc.crossShardMembers.length = sc.config.crossShardSlots

instance : Decidable sc.Filled := inferInstanceAs (Decidable (_ ∧ _))

/-- The local members together are fewer than the combined committee's finality threshold. -/
def LocalsFallShort : Prop :=
  ∃ committee, sc.combinedCommittee = some committee ∧
    committee.hasFinality sc.localCommittee.length = false

/-! ### Who can finalize -/

theorem selectCommittee_combined {P sc} {validators : List ValidatorInfo}
    {shardAssignments : ExtTreeMap NodeId ShardId} {neighborShards : List ShardId} {vrfSeed : Bytes32}
    {sc' : ShardedConsensus}
    (h : selectCommittee P sc validators shardAssignments neighborShards vrfSeed = sc') :
    sc'.config = sc.config ∧ ∃ committee, sc'.combinedCommittee = some committee ∧
      committee.members.Perm (sc'.localCommittee ++ sc'.crossShardMembers) ∧
      committee.finalityThreshold = combinedFinality committee.members.length := by
  subst h
  exact ⟨rfl, _, rfl, List.perm_insertionSort _ _, rfl⟩

theorem lt_combinedFinality_iff (part rest : ℕ) :
    part < combinedFinality (part + rest) ↔ part + rest = 0 ∨ part < 2 * rest := by
  unfold combinedFinality
  split
  · omega
  · omega

theorem slots_eq_zero_iff (config : ShardConsensusConfig) :
    config.localSlots + config.crossShardSlots = 0 ↔ config.committeeSize = 0 := by
  unfold ShardConsensusConfig.localSlots
  constructor
  · omega
  · intro h
    have hcross : config.crossShardSlots = 0 := by
      rw [ShardConsensusConfig.crossShardSlots, crossShardValidatorCount, h, Nat.zero_mul]
    omega

theorem exists_crossShard_signer {sc : ShardedConsensus} {committee : ValidatorCommittee}
    (hmembers : committee.members.Perm (sc.localCommittee ++ sc.crossShardMembers))
    (hshort : committee.hasFinality sc.localCommittee.length = false) {signers : List NodeId}
    (hnodup : signers.Nodup) (hsigners : ∀ n ∈ signers, committee.isCommitteeMember n = true)
    (hfinal : committee.hasFinality signers.length = true) :
    ∃ n ∈ signers, ∃ m ∈ sc.crossShardMembers, m.nodeId = n := by
  by_contra hnone
  push Not at hnone
  have hlocal : signers ⊆ sc.localCommittee.map CommitteeMember.nodeId := by
    intro n hn
    obtain ⟨m, hm, hid⟩ := ValidatorCommittee.isCommitteeMember_iff.mp (hsigners n hn)
    rcases List.mem_append.mp (hmembers.mem_iff.mp hm) with hm | hm
    · exact List.mem_map.mpr ⟨m, hm, hid⟩
    · exact absurd hid (hnone n hn m hm)
  have hle := (hnodup.subperm hlocal).length_le
  rw [List.length_map] at hle
  simp only [ValidatorCommittee.hasFinality, ge_iff_le, decide_eq_false_iff_not, decide_eq_true_eq]
    at hshort hfinal
  omega

/-- **Local validators alone, and the finality of a shard.**  When all slots are filled, the local
members fall short of the finality threshold exactly if more than a third of the slots are for other
shards; then distinct members that finalize a block include one of another shard. -/
theorem selectCommittee_locals_iff {sc sc' : ShardedConsensus} {validators : List ValidatorInfo}
    {shardAssignments : ExtTreeMap NodeId ShardId} {neighborShards : List ShardId} {vrfSeed : Bytes32}
    (h : sc.selectCommittee P validators shardAssignments neighborShards vrfSeed = sc')
    (hfilled : sc'.Filled) :
    (sc'.LocalsFallShort ↔
      sc.config.committeeSize = 0 ∨ sc.config.localSlots < 2 * sc.config.crossShardSlots) ∧
    (sc.config.localSlots < 2 * sc.config.crossShardSlots →
      ∀ committee, sc'.combinedCommittee = some committee → ∀ signers : List NodeId,
        signers.Nodup → (∀ n ∈ signers, committee.isCommitteeMember n = true) →
        committee.hasFinality signers.length = true →
          ∃ n ∈ signers, ∃ m ∈ sc'.crossShardMembers, m.nodeId = n) := by
  obtain ⟨hconfig, committee, hcommittee, hperm, hthreshold⟩ := selectCommittee_combined h
  obtain ⟨hlocal, hcross⟩ := hfilled
  have hlength := hperm.length_eq
  rw [List.length_append, hlocal, hcross, hconfig] at hlength
  have hiff : committee.hasFinality sc'.localCommittee.length = false ↔
      sc.config.committeeSize = 0 ∨ sc.config.localSlots < 2 * sc.config.crossShardSlots := by
    rw [ValidatorCommittee.hasFinality, decide_eq_false_iff_not, ge_iff_le, Nat.not_le, hlocal, hconfig,
      hthreshold, hlength]
    exact (lt_combinedFinality_iff _ _).trans (or_congr_left (slots_eq_zero_iff _))
  refine ⟨⟨?_, fun hslots => ⟨committee, hcommittee, hiff.mpr hslots⟩⟩, ?_⟩
  · rintro ⟨_, hsome, hshort⟩
    cases hcommittee.symm.trans hsome
    exact hiff.mp hshort
  · intro hslots _ hsome signers hnodup hsigners hfinal
    cases hcommittee.symm.trans hsome
    exact exists_crossShard_signer hperm (hiff.mpr (.inr hslots)) hnodup hsigners hfinal

/-! ### A shard to compute with -/

namespace Example

def validator (n : UInt8) (shard : UInt16) : ValidatorInfo :=
  { nodeId := Reference.node n, presenceScore := 100, shardId := ⟨shard⟩, vrfPubkey := ⟨.splat n⟩,
    hasValidPol := true, meetsMinimumStake := true, polDays := 90 }

def validators : List ValidatorInfo := [validator 1 0, validator 2 0, validator 3 1, validator 4 1]

def assignments : ExtTreeMap NodeId ShardId :=
  validators.foldl (fun m v => m.insert v.nodeId v.shardId) ∅

def selected (config : ShardConsensusConfig) : ShardedConsensus :=
  ShardedConsensus.selectCommittee reference { config := config } validators assignments [⟨1⟩] .zero

def twoValidators : ShardConsensusConfig := .forShard ⟨0⟩ 2

def fortyPercent : ShardConsensusConfig := ⟨⟨0⟩, 3, 2, 40⟩

end Example

/-- With one of three slots for the neighbour, the two local members have the two signatures that
finality takes. -/
theorem locals_finalize_twoValidators :
    (Example.selected Example.twoValidators).Filled ∧
      ¬ (Example.selected Example.twoValidators).LocalsFallShort := by
  refine ⟨by decide +kernel, ?_⟩
  rintro ⟨committee, hcommittee, hshort⟩
  have hfinal : (Example.selected Example.twoValidators).combinedCommittee.map (fun c =>
      c.hasFinality (Example.selected Example.twoValidators).localCommittee.length) = some true := by
    decide +kernel
  rw [hcommittee, Option.map_some, hshort] at hfinal
  cases hfinal

theorem selectCommittee_locals_fortyPercent :
    (Example.selected Example.fortyPercent).Filled ∧
      (Example.selected Example.fortyPercent).LocalsFallShort :=
  have hfilled : (Example.selected Example.fortyPercent).Filled := by decide +kernel
  ⟨hfilled, (selectCommittee_locals_iff reference rfl hfilled).1.mpr (.inr (by decide))⟩

end ShardedConsensus

end Gratia
