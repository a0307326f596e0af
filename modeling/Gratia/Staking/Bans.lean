import Gratia.Staking.Failures
import Gratia.Support.Runs

/-!
# Staking — Bans

What a critical offence does for good.  `apply_slash` writes the ban last, after it has found a
record of the node and has taken the overflow from the pool; a node without a record, or with less
in the pool than the slash takes from it, is not banned.  And the ban is one structure, the records
another: `eligible_miners` goes through the records and asks each for the minimum only, so that a
banned node which has kept a stake still appears there.
-/

namespace Gratia

open Std Support

def StakingCall.node : StakingCall → NodeId
  | .stake node _ _ | .requestUnstake node _ _ | .completeUnstake node _ => node
  | .applySlash result _ => result.event.node

namespace StakingManager

variable {m : StakingManager} {node : NodeId} {amount : Lux} {now : DateTime} {result : SlashResult}

def isBanned (m : StakingManager) (node : NodeId) : Bool := m.bannedNodes.contains node

def eligibleMiners (m : StakingManager) : List NodeId :=
  (m.stakes.toList.filter fun entry => entry.2.effectiveStake ≥ m.config.minimumStake).map Prod.fst

def Low (m : StakingManager) (node : NodeId) : Prop :=
  ∀ s, m.stakes[node]? = some s → s.effectiveStake < m.config.minimumStake

theorem notMem_eligibleMiners_iff : node ∉ m.eligibleMiners ↔ m.Low node := by
  simp only [eligibleMiners, Low, List.mem_map, List.mem_filter, decide_eq_true_eq, Prod.exists,
    ExtTreeMap.mem_toList_iff_getElem?_eq_some, not_exists, not_and, ge_iff_le]
  constructor
  · intro h s hs
    exact UInt64.not_le.mp fun hle => h node s ⟨hs, hle⟩ rfl
  · rintro h x s ⟨hs, hle⟩ rfl
    exact UInt64.not_le.mpr (h s hs) hle

/-- The node is out: it is banned, every stake of it fails, and it is no eligible miner. -/
def Out (m : StakingManager) (node : NodeId) : Prop :=
  m.isBanned node = true ∧ (∀ amount now, ∃ e, (m.stake node amount now).1 = .error e) ∧
    node ∉ m.eligibleMiners

theorem stake_of_banned (h : m.isBanned node = true) (amount : Lux) (now : DateTime) :
    (∃ e, (m.stake node amount now).1 = .error e) ∧ (m.stake node amount now).2 = m := by
  unfold stake
  split_ifs
  · exact ⟨⟨_, rfl⟩, rfl⟩
  · exact ⟨⟨_, rfl⟩, rfl⟩
  · contradiction

theorem out_iff : m.Out node ↔ m.isBanned node = true ∧ m.Low node := by
  rw [Out, notMem_eligibleMiners_iff]
  constructor
  · rintro ⟨hban, -, hlow⟩
    exact ⟨hban, hlow⟩
  · rintro ⟨hban, hlow⟩
    exact ⟨hban, fun amount now => (stake_of_banned hban amount now).1, hlow⟩

/-! ### What a call writes -/

/-- `m'` differs from `m` in the pool and at one node only, and bans nobody else. -/
structure WritesAt (m m' : StakingManager) (node : NodeId) : Prop where
  config : m'.config = m.config
  record : ∀ other, other ≠ node → m'.stakes[other]? = m.stakes[other]?
  banned : ∀ other, other ≠ node → m'.isBanned other = m.isBanned other

theorem WritesAt.refl : WritesAt m m node := ⟨rfl, fun _ _ => rfl, fun _ _ => rfl⟩

theorem writesAt_insert (s : NodeStake) (pool : NetworkSecurityPool) :
    WritesAt m { m with stakes := m.stakes.insert node s, pool } node :=
  ⟨rfl, fun _ h => getElem?_insert_ne _ _ h.symm, fun _ _ => rfl⟩

theorem writesAt_ite {p : Prop} [Decidable p] (s : NodeStake) (pool : NetworkSecurityPool) :
    WritesAt m { m with
      stakes := if p then m.stakes.erase node else m.stakes.insert node s, pool } node := by
  refine ⟨rfl, fun other h => ?_, fun _ _ => rfl⟩
  dsimp only
  split_ifs
  · exact getElem?_erase_ne _ h.symm
  · exact getElem?_insert_ne _ _ h.symm

theorem writesAt_stake : WritesAt m (m.stake node amount now).2 node := by
  rcases m.stake_cases node amount now with ⟨-, e, h⟩ | ⟨-, ⟨e, pool, -, h⟩ | ⟨pool, info, -, h⟩⟩
  · rw [h]
    exact .refl
  · rw [h]
    exact writesAt_insert _ pool
  · rw [h]
    exact writesAt_insert _ pool

theorem writesAt_requestUnstake : WritesAt m (m.requestUnstake node amount now).2 node := by
  rcases m.requestUnstake_cases node amount now with ⟨e, h⟩ | ⟨s, pool, info, -, -, -, -, h⟩
  · rw [h]
    exact .refl
  · rw [h]
    exact writesAt_ite _ pool

theorem writesAt_completeUnstake : WritesAt m (m.completeUnstake node now).2 node := by
  rcases m.completeUnstake_cases node now with ⟨e, h⟩ | ⟨s, -, h⟩
  · rw [h]
    exact .refl
  · rw [h]
    exact writesAt_insert _ m.pool

/-! ### What a slash writes -/

/-- The slash finds a record of the node, and in the pool what it takes from there. -/
def Lands (m : StakingManager) (result : SlashResult) : Prop :=
  (m.stakes[result.event.node]?).isSome = true ∧
    result.overflowSlashed.toNat ≤ m.pool.contribution result.event.node

instance (m : StakingManager) (result : SlashResult) : Decidable (m.Lands result) :=
  inferInstanceAs (Decidable (_ ∧ _))

def stakeLeft (result : SlashResult) (s : NodeStake) : Lux :=
  saturatingSub s.effectiveStake (saturatingSub result.event.amountSlashed result.overflowSlashed)

/-- What a slash writes, by whether it lands. -/
theorem applySlash_lands (m : StakingManager) (result : SlashResult) (now : DateTime) :
    m.Lands result ∧ (∃ s s' pool histories, m.stakes[result.event.node]? = some s ∧
      s'.effectiveStake = stakeLeft result s ∧ (m.applySlash result now).2 = { m with
        stakes := if saturatingSub s.totalCommitted result.event.amountSlashed = 0 then
            m.stakes.erase result.event.node
          else m.stakes.insert result.event.node s'
        pool
        slashingHistories := histories
        bannedNodes := if result.event.severity = .critical then
            m.bannedNodes.insert result.event.node now
          else m.bannedNodes }) ∨
    ¬ m.Lands result ∧ ((m.applySlash result now).2 = m ∧ m.stakes[result.event.node]? = none ∨
      ∃ s, m.stakes[result.event.node]? = some s ∧ (m.applySlash result now).2 =
        { m with stakes := m.stakes.insert result.event.node (reduced result s) }) := by
  rcases m.applySlash_cases now result with
    ⟨hs, h⟩ | ⟨s, hs, ⟨hlt, e, h⟩ | ⟨hle, pool, histories, -, h⟩⟩
  · exact .inr ⟨fun hl => by simp [Lands, hs] at hl, .inl ⟨by rw [h], hs⟩⟩
  · exact .inr ⟨fun hl => Nat.not_le.mpr hlt hl.2, .inr ⟨s, hs, by rw [h]⟩⟩
  · exact .inl ⟨⟨by rw [hs]; rfl, hle⟩, s, _, pool, histories, hs, rfl, by rw [h]; rfl⟩

theorem writesAt_applySlash : WritesAt m (m.applySlash result now).2 result.event.node := by
  rcases m.applySlash_lands result now with
    ⟨-, s, s', pool, histories, -, -, he⟩ | ⟨-, ⟨he, -⟩ | ⟨s, -, he⟩⟩
  · rw [he]
    refine ⟨rfl, (writesAt_ite s' pool).record, fun other hne => ?_⟩
    simp only [isBanned]
    split_ifs
    · rw [ExtTreeMap.contains_insert, beq_eq_false_iff_ne.mpr
        (mt LawfulEqOrd.eq_of_compare hne.symm), Bool.false_or]
    · rfl
  · rw [he]
    exact .refl
  · rw [he]
    exact writesAt_insert _ m.pool

theorem writesAt_call (c : StakingCall) : WritesAt m (m.call c).2 c.node := by
  cases c with
  | stake node amount now => exact writesAt_stake
  | requestUnstake node amount now => exact writesAt_requestUnstake
  | completeUnstake node now => exact writesAt_completeUnstake
  | applySlash result now => exact writesAt_applySlash

/-- **Whom a slash bans**: the node of a critical one that lands. -/
theorem isBanned_applySlash : (m.applySlash result now).2.isBanned result.event.node = true ↔
    m.isBanned result.event.node = true ∨ result.event.severity = .critical ∧ m.Lands result := by
  rcases m.applySlash_lands result now with
    ⟨h, s, s', pool, histories, -, -, he⟩ | ⟨h, ⟨he, -⟩ | ⟨s, -, he⟩⟩
  · rw [he]
    simp only [isBanned, h, and_true]
    split_ifs with hcrit
    · simp [hcrit]
    · simp [hcrit]
  · rw [he]
    simp [h]
  · rw [he]
    simp [isBanned, h]

variable {m' : StakingManager}

theorem low_iff_of_insert {s : NodeStake} (hconfig : m'.config = m.config)
    (h : m'.stakes = m.stakes.insert node s) :
    m'.Low node ↔ s.effectiveStake < m.config.minimumStake := by
  unfold Low
  rw [hconfig, h, getElem?_insert_self']
  exact ⟨fun hall => hall s rfl, by rintro hlt _ ⟨⟩; exact hlt⟩

theorem low_of_erase (h : m'.stakes = m.stakes.erase node) : m'.Low node := by
  intro s hs
  rw [h, ExtTreeMap.getElem?_erase_self] at hs
  cases hs

theorem low_iff_of_ite {s : NodeStake} {p : Prop} [Decidable p] (hconfig : m'.config = m.config)
    (h : m'.stakes = if p then m.stakes.erase node else m.stakes.insert node s) :
    m'.Low node ↔ p ∨ s.effectiveStake < m.config.minimumStake := by
  by_cases hp : p
  · rw [if_pos hp] at h
    exact iff_of_true (low_of_erase h) (.inl hp)
  · rw [if_neg hp] at h
    rw [low_iff_of_insert hconfig h, or_iff_right hp]

/-- **Who is below the minimum after a slash**: a node without a record, one whose record the slash
uses up, and one with too little left. -/
theorem low_applySlash : (m.applySlash result now).2.Low result.event.node ↔
    ∀ s, m.stakes[result.event.node]? = some s →
      m.Lands result ∧ s.totalCommitted ≤ result.event.amountSlashed ∨
        stakeLeft result s < m.config.minimumStake := by
  rcases m.applySlash_lands result now with
    ⟨h, s, s', pool, histories, hs, hleft, he⟩ | ⟨h, ⟨he, hnone⟩ | ⟨s, hs, he⟩⟩
  · have hafter : (m.applySlash result now).2.Low result.event.node ↔
        saturatingSub s.totalCommitted result.event.amountSlashed = 0 ∨
          s'.effectiveStake < m.config.minimumStake :=
      low_iff_of_ite (by rw [he]) (by rw [he])
    rw [hafter, hleft, saturatingSub_eq_zero_iff]
    constructor
    · intro hlow t ht
      cases hs.symm.trans ht
      exact hlow.imp (fun hle => ⟨h, hle⟩) id
    · intro hall
      exact (hall s hs).imp And.right id
  · rw [he, Low, hnone]
    exact iff_of_true nofun nofun
  · have hafter : (m.applySlash result now).2.Low result.event.node ↔
        (reduced result s).effectiveStake < m.config.minimumStake :=
      low_iff_of_insert (by rw [he]) (by rw [he])
    rw [hafter]
    constructor
    · intro hlt t ht
      cases hs.symm.trans ht
      exact .inr hlt
    · intro hall
      exact (hall s hs).resolve_left fun hl => h hl.1

theorem Low.applySlash (h : m.Low result.event.node) :
    (m.applySlash result now).2.Low result.event.node := by
  refine low_applySlash.mpr fun s hs => .inr ?_
  have hlt := h s hs
  rw [UInt64.lt_iff_toNat_lt] at hlt ⊢
  rw [stakeLeft, toNat_saturatingSub]
  omega

/-! ### Histories -/

end StakingManager

/-- The manager, the nodes that have staked, and those among them that a critical slash was applied
to. -/
structure BanHistory where
  manager : StakingManager
  staked : List NodeId := []
  condemned : List NodeId := []

namespace BanHistory

variable {h : BanHistory}

def new (config : StakingConfig) : BanHistory := { manager := .new config }

def stakedAfter (h : BanHistory) : StakingCall → List NodeId
  | .stake node amount now =>
    if (h.manager.stake node amount now).1.isOk then node :: h.staked else h.staked
  | _ => h.staked

/-- The nodes condemned after a call, whether the slash succeeds or not. -/
def condemnedAfter (h : BanHistory) : StakingCall → List NodeId
  | .applySlash result _ =>
    if result.event.severity = .critical ∧ result.event.node ∈ h.staked then
      result.event.node :: h.condemned
    else h.condemned
  | _ => h.condemned

def step (h : BanHistory) (c : StakingCall) : Except StakingError Unit × BanHistory :=
  ((h.manager.call c).1,
    { manager := (h.manager.call c).2, staked := h.stakedAfter c, condemned := h.condemnedAfter c })

def Kept (h : BanHistory) : Prop := ∀ node ∈ h.condemned, h.manager.Out node

/-- The call leaves condemned nodes banned and below the minimum.

A critical slash of a node that has staked finds it banned or lands, and uses its record up or
leaves less than the minimum.  A withdrawal of a condemned node fails, uses its record up, or leaves
less than the minimum; the difference is that of `u64`, which wraps if the record's parts are less
than its total. -/
def Enforced (h : BanHistory) : StakingCall → Prop
  | .applySlash result _ => result.event.severity = .critical → result.event.node ∈ h.staked →
      (h.manager.isBanned result.event.node = true ∨ h.manager.Lands result) ∧
      ∀ s, h.manager.stakes[result.event.node]? = some s →
        h.manager.Lands result ∧ s.totalCommitted ≤ result.event.amountSlashed ∨
          StakingManager.stakeLeft result s < h.manager.config.minimumStake
  | .requestUnstake node amount now => node ∈ h.condemned →
      ∀ s, h.manager.stakes[node]? = some s →
        (∃ e, (h.manager.requestUnstake node amount now).1 = .error e) ∨
          s.totalCommitted = amount ∨
          s.effectiveStake - (amount - min amount s.overflowAmount) <
            h.manager.config.minimumStake
  | _ => True

theorem kept_iff : h.Kept ↔
    ∀ node ∈ h.condemned, h.manager.isBanned node = true ∧ h.manager.Low node := by
  simp only [Kept, StakingManager.out_iff]

variable {node : NodeId} {now : DateTime}

theorem out_of_ne {c : StakingCall} (hne : node ≠ c.node)
    (hout : h.manager.isBanned node = true ∧ h.manager.Low node) :
    (h.step c).2.manager.isBanned node = true ∧ (h.step c).2.manager.Low node := by
  have hw := StakingManager.writesAt_call (m := h.manager) c
  refine ⟨(hw.banned node hne).trans hout.1, fun s hs => ?_⟩
  have hs' : h.manager.stakes[node]? = some s := (hw.record node hne).symm.trans hs
  exact lt_of_lt_of_eq (hout.2 s hs') (congrArg StakingConfig.minimumStake hw.config).symm

theorem kept_step_iff_of_condemned {c : StakingCall} (hk : h.Kept)
    (hsame : h.condemnedAfter c = h.condemned) : (h.step c).2.Kept ↔
      (c.node ∈ h.condemned → (h.step c).2.manager.isBanned c.node = true ∧
        (h.step c).2.manager.Low c.node) := by
  rw [kept_iff] at hk ⊢
  show (∀ node ∈ h.condemnedAfter c, _) ↔ _
  rw [hsame]
  constructor
  · exact fun hall => hall c.node
  · intro hown node hmem
    by_cases hne : node = c.node
    · subst hne
      exact hown hmem
    · exact out_of_ne hne (hk node hmem)

/-- A withdrawal keeps its node out exactly if it is enforced. -/
theorem requestUnstake_enforced_iff {amount : Lux}
    (hout : h.manager.isBanned node = true ∧ h.manager.Low node) :
    ((h.manager.requestUnstake node amount now).2.isBanned node = true ∧
      (h.manager.requestUnstake node amount now).2.Low node) ↔
    ∀ s, h.manager.stakes[node]? = some s →
      (∃ e, (h.manager.requestUnstake node amount now).1 = .error e) ∨ s.totalCommitted = amount ∨
        s.effectiveStake - (amount - min amount s.overflowAmount) <
          h.manager.config.minimumStake := by
  rcases h.manager.requestUnstake_cases node amount now with
    ⟨e, he⟩ | ⟨s, pool, info, hs, -, -, -, he⟩
  · rw [he]
    exact iff_of_true hout fun _ _ => .inl ⟨e, rfl⟩
  · have hban : (h.manager.requestUnstake node amount now).2.isBanned node = true := by
      rw [he]
      exact hout.1
    have hafter : (h.manager.requestUnstake node amount now).2.Low node ↔
        (StakingManager.withdrawn amount now s).totalCommitted = 0 ∨
          (StakingManager.withdrawn amount now s).effectiveStake < h.manager.config.minimumStake :=
      StakingManager.low_iff_of_ite (by rw [he]) (by rw [he])
    have hzero : (StakingManager.withdrawn amount now s).totalCommitted = 0 ↔
        s.totalCommitted = amount := by
      grind [StakingManager.withdrawn]
    rw [and_iff_right hban, hafter, hzero]
    constructor
    · intro hlow t ht
      cases hs.symm.trans ht
      exact .inr hlow
    · intro hall
      refine (hall s hs).resolve_left ?_
      rintro ⟨e, herr⟩
      rw [he] at herr
      cases herr

theorem completeUnstake_out (hout : h.manager.isBanned node = true ∧ h.manager.Low node) :
    (h.manager.completeUnstake node now).2.isBanned node = true ∧
      (h.manager.completeUnstake node now).2.Low node := by
  rcases h.manager.completeUnstake_cases node now with ⟨e, he⟩ | ⟨s, hs, he⟩
  · rw [he]
    exact hout
  · rw [he]
    refine ⟨hout.1, (StakingManager.low_iff_of_insert (m := h.manager)
      (s := { s with unstakePending := 0, unstakeRequestedAt := none }) ?_ ?_).mpr (hout.2 s hs)⟩
    · rfl
    · rfl

theorem kept_condemned_iff {result : SlashResult} (hk : h.Kept)
    (hnew : result.event.severity = .critical ∧ result.event.node ∈ h.staked) :
    (h.step (.applySlash result now)).2.Kept ↔ h.Enforced (.applySlash result now) := by
  have hcond : h.condemnedAfter (.applySlash result now) = result.event.node :: h.condemned :=
    if_pos hnew
  have hown : ((h.manager.applySlash result now).2.isBanned result.event.node = true ∧
      (h.manager.applySlash result now).2.Low result.event.node) ↔
      h.Enforced (.applySlash result now) := by
    rw [StakingManager.isBanned_applySlash, StakingManager.low_applySlash, and_iff_right hnew.1]
    exact ⟨fun hout _ _ => hout, fun hen => hen hnew.1 hnew.2⟩
  rw [← hown, kept_iff]
  show (∀ node ∈ h.condemnedAfter (.applySlash result now), _) ↔ _
  rw [hcond, List.forall_mem_cons]
  refine and_iff_left_of_imp fun hout node hmem => ?_
  by_cases hne : node = result.event.node
  · exact hne ▸ hout
  · exact out_of_ne hne (kept_iff.mp hk node hmem)

/-- **A call keeps the condemned nodes out exactly if it is enforced.** -/
theorem kept_step_iff (hk : h.Kept) (c : StakingCall) : (h.step c).2.Kept ↔ h.Enforced c := by
  cases c with
  | stake node amount now =>
    refine (kept_step_iff_of_condemned hk rfl).trans (iff_of_true (fun hmem => ?_) trivial)
    have hout := kept_iff.mp hk node hmem
    have hsame := (StakingManager.stake_of_banned hout.1 amount now).2
    show (h.manager.stake node amount now).2.isBanned node = true ∧
      (h.manager.stake node amount now).2.Low node
    rw [hsame]
    exact hout
  | requestUnstake node amount now =>
    refine (kept_step_iff_of_condemned hk rfl).trans (forall_congr' fun hmem => ?_)
    exact requestUnstake_enforced_iff (kept_iff.mp hk node hmem)
  | completeUnstake node now =>
    refine (kept_step_iff_of_condemned hk rfl).trans (iff_of_true (fun hmem => ?_) trivial)
    exact completeUnstake_out (kept_iff.mp hk node hmem)
  | applySlash result now =>
    by_cases hnew : result.event.severity = .critical ∧ result.event.node ∈ h.staked
    · exact kept_condemned_iff hk hnew
    · have hcond : h.condemnedAfter (.applySlash result now) = h.condemned := if_neg hnew
      refine (kept_step_iff_of_condemned hk hcond).trans
        (iff_of_true (fun hmem => ?_) fun hcrit hstaked => absurd ⟨hcrit, hstaked⟩ hnew)
      have hout := kept_iff.mp hk result.event.node hmem
      exact ⟨StakingManager.isBanned_applySlash.mpr (.inl hout.1), hout.2.applySlash⟩

/-- **A critical offence bans for good, exactly** along the runs all of whose calls are enforced:
every node that staked and had a critical slash applied is out after that call and all later
ones. -/
theorem critical_bans_iff (config : StakingConfig) (calls : List StakingCall) :
    AllSteps step (fun h c => ∀ node ∈ (h.step c).2.condemned, (h.step c).2.manager.Out node)
        (new config) calls ↔
      AllSteps step Enforced (new config) calls := by
  have hstart : (new config).Kept := fun _ hmem => absurd hmem List.not_mem_nil
  exact allSteps_congr Kept (fun _ c hen hk => (kept_step_iff hk c).mpr hen)
    (fun _ c hk => kept_step_iff hk c) calls (new config) hstart

open StakingManager in
/-- The slash of a critical offence of a node with a stake of 100 Lux, at the given percentage. -/
def fraud (bps : UInt32) : SlashResult :=
  buildSlashingEvent whale .energyFraud .critical "emulator detected" 100 0 {}
    { criticalSlashBps := bps } genesis 7 genesis

open StakingManager in
def withdrawnBefore : List StakingCall :=
  [.stake whale 100 genesis, .requestUnstake whale 100 genesis, .applySlash (fraud 10000) genesis]

open StakingManager in
def slashedByHalf : List StakingCall := [.stake whale 100 genesis, .applySlash (fraud 5000) genesis]

open StakingManager in
/-- A node that has withdrawn everything is not banned and can stake again; a node that is slashed
by half is banned and still an eligible miner. -/
theorem critical_offence_without_ban :
    (∃ h, h = run step (new smallCap) withdrawnBefore ∧ whale ∈ h.condemned ∧
      h.manager.isBanned whale = false ∧ (h.manager.stake whale 100 nextWeek).1.isOk = true) ∧
    ∃ h, h = run step (new smallCap) slashedByHalf ∧ whale ∈ h.condemned ∧
      h.manager.isBanned whale = true ∧ whale ∈ h.manager.eligibleMiners :=
  ⟨⟨_, rfl, by decide +kernel⟩, ⟨_, rfl, by decide +kernel⟩⟩

end BanHistory

end Gratia
