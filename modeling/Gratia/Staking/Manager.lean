import Gratia.Staking.Pool
import Gratia.Staking.Slashing

/-!
# Staking — Manager

`StakingManager` of `gratia-staking/src/lib.rs`: the methods that stake, request and complete a
withdrawal, and apply a slash.  A method returns its answer and the manager after it; where the
source has changed a record before it fails, so has the manager returned with the error.

`perform` runs one call, with the slash built from the node's record as it is, and answers with a
receipt of what the call moved.
-/

namespace Gratia

open Std Support

/-- `StakingConfig`, the fields the modelled methods read. -/
structure StakingConfig where
  minimumStake : Lux := 0
  perNodeCap : Lux := 1_000_000_000
  unstakeCooldownSecs : UInt64 := 7 * 24 * 3600
deriving DecidableEq

structure NodeStake where
  effectiveStake : Lux
  overflowAmount : Lux
  totalCommitted : Lux
  stakedAt : DateTime
  unstakeRequestedAt : Option DateTime
  unstakePending : Lux
deriving DecidableEq

def NodeStake.fresh (now : DateTime) : NodeStake := ⟨0, 0, 0, now, none, 0⟩

structure StakeInfo where
  nodeStake : Lux
  overflowAmount : Lux
  totalCommitted : Lux
  stakedAt : DateTime
  meetsMinimum : Bool
deriving DecidableEq

structure StakingManager where
  config : StakingConfig
  stakes : ExtTreeMap NodeId NodeStake
  pool : NetworkSecurityPool
  slashingHistories : ExtTreeMap NodeId SlashingHistory
  bannedNodes : ExtTreeMap NodeId DateTime

namespace StakingManager

def new (config : StakingConfig) : StakingManager := ⟨config, ∅, .new, ∅, ∅⟩

/-- What `update_config` requires of a configuration. -/
def ValidConfig (config : StakingConfig) : Prop :=
  config.perNodeCap ≠ 0 ∧ config.minimumStake ≤ config.perNodeCap

def buildStakeInfo (config : StakingConfig) (s : NodeStake) : StakeInfo :=
  ⟨s.effectiveStake, s.overflowAmount, s.totalCommitted, s.stakedAt,
    s.effectiveStake ≥ config.minimumStake⟩

/-- What is left of the cooldown of a withdrawal requested at `requestedAt`, if it has not run
out. -/
def cooldownLeft (m : StakingManager) (now requestedAt : DateTime) : Option UInt64 :=
  let elapsed := now.secsSince requestedAt
  if elapsed < m.config.unstakeCooldownSecs then some (m.config.unstakeCooldownSecs - elapsed)
  else none

/-! ### The methods -/

def stake (m : StakingManager) (node : NodeId) (amount : Lux) (now : DateTime) :
    Except StakingError StakeInfo × StakingManager :=
  if amount = 0 then (.error (.invalidAmount "stake amount must be greater than zero"), m)
  else if m.bannedNodes.contains node then (.error (.nodeBanned node), m)
  else
    let entry := (m.stakes[node]?).getD (.fresh now)
    match checkedAdd entry.totalCommitted amount with
    | none =>
      (.error (.invalidAmount "total committed stake would overflow u64"),
        { m with stakes := m.stakes.insert node entry })
    | some newTotal =>
      let entry := { entry with totalCommitted := newTotal }
      let newEffective := min newTotal m.config.perNodeCap
      let newOverflow := saturatingSub newTotal m.config.perNodeCap
      let overflowDelta := saturatingSub newOverflow entry.overflowAmount
      match if overflowDelta > 0 then m.pool.addOverflow node overflowDelta now
          else (.ok (), m.pool) with
      | (.error e, pool) =>
        -- The new total is already in the record.
        (.error e, { m with stakes := m.stakes.insert node entry, pool })
      | (.ok _, pool) =>
        let entry := { entry with effectiveStake := newEffective, overflowAmount := newOverflow }
        (.ok (buildStakeInfo m.config entry),
          { m with stakes := m.stakes.insert node entry, pool })

def requestUnstake (m : StakingManager) (node : NodeId) (amount : Lux) (now : DateTime) :
    Except StakingError StakeInfo × StakingManager :=
  if amount = 0 then (.error (.invalidAmount "unstake amount must be greater than zero"), m)
  else
    match m.stakes[node]? with
    | none => (.error (.nodeNotFound node), m)
    | some entry =>
      match entry.unstakeRequestedAt.bind (m.cooldownLeft now) with
      | some remaining => (.error (.cooldownActive remaining), m)
      | none =>
        if entry.totalCommitted < amount then
          (.error (.insufficientStake entry.totalCommitted amount), m)
        else
          let fromOverflow := min amount entry.overflowAmount
          let fromEffective := amount - fromOverflow
          match if fromOverflow > 0 then m.pool.removeOverflow node fromOverflow now
              else (.ok (), m.pool) with
          | (.error e, pool) => (.error e, { m with pool })
          | (.ok _, pool) =>
            let entry := { entry with
              overflowAmount := entry.overflowAmount - fromOverflow
              effectiveStake := entry.effectiveStake - fromEffective
              totalCommitted := entry.totalCommitted - amount
              unstakeRequestedAt := some now
              unstakePending := amount }
            (.ok (buildStakeInfo m.config entry),
              { m with
                -- A record without stake is removed, its pending withdrawal with it.
                stakes := if entry.totalCommitted = 0 then m.stakes.erase node
                  else m.stakes.insert node entry
                pool })

def completeUnstake (m : StakingManager) (node : NodeId) (now : DateTime) :
    Except StakingError Lux × StakingManager :=
  match m.stakes[node]? with
  | none => (.error (.nodeNotFound node), m)
  | some entry =>
    match entry.unstakeRequestedAt with
    | none => (.error (.invalidAmount "no pending unstake request"), m)
    | some requestedAt =>
      match m.cooldownLeft now requestedAt with
      | some remaining => (.error (.cooldownActive remaining), m)
      | none =>
        let collected := { entry with unstakePending := 0, unstakeRequestedAt := none }
        (.ok entry.unstakePending, { m with stakes := m.stakes.insert node collected })

def recordOffense (h : SlashingHistory) (event : SlashingEvent) : SlashingHistory :=
  let h := match event.severity with
    | .warning => { h with warnings := h.warnings + 1 }
    | .minor => { h with minorSlashes := h.minorSlashes + 1 }
    | .major => { h with majorSlashes := h.majorSlashes + 1 }
    | .critical => { h with isBanned := true }
  { h with events := h.events ++ [event] }

def applySlash (m : StakingManager) (result : SlashResult) (now : DateTime) :
    Except StakingError Unit × StakingManager :=
  let node := result.event.node
  match m.stakes[node]? with
  | none => (.error (.nodeNotFound node), m)
  | some entry =>
    let stakeSlash := saturatingSub result.event.amountSlashed result.overflowSlashed
    let entry := { entry with
      effectiveStake := saturatingSub entry.effectiveStake stakeSlash
      totalCommitted := saturatingSub entry.totalCommitted result.event.amountSlashed }
    match if result.overflowSlashed > 0 then m.pool.removeOverflow node result.overflowSlashed now
        else (.ok (), m.pool) with
    | (.error e, pool) =>
      -- Stake and total are already reduced.
      (.error e, { m with stakes := m.stakes.insert node entry, pool })
    | (.ok _, pool) =>
      let entry := { entry with
        overflowAmount := saturatingSub entry.overflowAmount result.overflowSlashed }
      let history := (m.slashingHistories[node]?).getD {}
      (.ok (),
        { m with
          stakes := if entry.totalCommitted = 0 then m.stakes.erase node
            else m.stakes.insert node entry
          pool
          slashingHistories :=
            m.slashingHistories.insert node (recordOffense history result.event)
          bannedNodes := if result.event.severity = .critical then m.bannedNodes.insert node now
            else m.bannedNodes })

/-! ### What the methods write -/

section Writes

variable (m : StakingManager) (node : NodeId) (amount : Lux) (now : DateTime) (result : SlashResult)

/-- **A stake** is refused at once, or the record is written: with the new total only, if the pool
refuses. -/
theorem stake_cases :
    let s := (m.stakes[node]?).getD (.fresh now)
    let total := s.totalCommitted + amount
    let overflow := saturatingSub total m.config.perNodeCap
    let delta := saturatingSub overflow s.overflowAmount
    let added := if delta > 0 then m.pool.addOverflow node delta now else (.ok (), m.pool)
    let refused := amount = 0 ∨ m.bannedNodes.contains node = true ∨
      2 ^ 64 ≤ s.totalCommitted.toNat + amount.toNat
    (refused ∧ ∃ e, m.stake node amount now = (.error e, m)) ∨
    ¬ refused ∧ ((∃ e pool, added = (.error e, pool) ∧ m.stake node amount now = (.error e,
        { m with stakes := m.stakes.insert node { s with totalCommitted := total }, pool })) ∨
      ∃ pool info, added = (.ok (), pool) ∧ m.stake node amount now = (.ok info,
        { m with
          stakes := m.stakes.insert node { s with
            totalCommitted := total, effectiveStake := min total m.config.perNodeCap,
            overflowAmount := overflow }
          pool })) := by
  obtain ⟨s, hentry⟩ : ∃ s, (m.stakes[node]?).getD (.fresh now) = s := ⟨_, rfl⟩
  unfold stake
  simp only [hentry]
  by_cases h0 : amount = 0
  · exact .inl ⟨.inl h0, _, if_pos h0⟩
  by_cases hban : m.bannedNodes.contains node
  · exact .inl ⟨.inr (.inl hban), _, (if_neg h0).trans (if_pos hban)⟩
  rw [if_neg h0, if_neg hban]
  rcases Nat.lt_or_ge (s.totalCommitted.toNat + amount.toNat) (2 ^ 64) with hfits | hfull
  · refine .inr ⟨?_, ?_⟩
    · rintro (h | h | h)
      · exact h0 h
      · exact hban h
      · omega
    simp only [checkedAdd_of_lt hfits]
    generalize saturatingSub (saturatingSub (s.totalCommitted + amount) m.config.perNodeCap)
      s.overflowAmount = delta
    generalize (if delta > 0 then m.pool.addOverflow node delta now else (.ok (), m.pool)) = added
    obtain ⟨answer, pool⟩ := added
    cases answer with
    | error e => exact .inl ⟨e, pool, rfl, rfl⟩
    | ok u => exact .inr ⟨pool, _, rfl, rfl⟩
  · -- A node without a record starts from zero, so the addition can only fail on a real record.
    have hsome : m.stakes[node]? = some s := by
      cases hs : m.stakes[node]? with
      | none =>
        have := amount.toNat_lt
        rw [hs, Option.getD_none] at hentry
        rw [← hentry, NodeStake.fresh, UInt64.toNat_zero] at hfull
        omega
      | some entry => rw [← hentry, hs, Option.getD_some]
    rw [checkedAdd_of_le hfull, insert_eq_self_iff.mpr hsome]
    exact .inl ⟨.inr (.inr hfull), _, rfl⟩

/-- The record after a withdrawal has been requested. -/
def withdrawn (amount : Lux) (now : DateTime) (s : NodeStake) : NodeStake :=
  { s with
    overflowAmount := s.overflowAmount - min amount s.overflowAmount
    effectiveStake := s.effectiveStake - (amount - min amount s.overflowAmount)
    totalCommitted := s.totalCommitted - amount
    unstakeRequestedAt := some now
    unstakePending := amount }

/-- **A request** is refused, or takes overflow from the pool and writes the record, which goes if
nothing is left in it. -/
theorem requestUnstake_cases :
    (∃ e, m.requestUnstake node amount now = (.error e, m)) ∨
    ∃ s pool info, m.stakes[node]? = some s ∧
      s.unstakeRequestedAt.bind (m.cooldownLeft now) = none ∧
      amount.toNat ≤ s.totalCommitted.toNat ∧
      (m.pool.Balanced → m.pool.Moved pool node
        (m.pool.contribution node - (min amount s.overflowAmount).toNat)) ∧
      m.requestUnstake node amount now = (.ok info,
        { m with
          stakes := if (withdrawn amount now s).totalCommitted = 0 then m.stakes.erase node
            else m.stakes.insert node (withdrawn amount now s)
          pool }) := by
  unfold requestUnstake
  by_cases h0 : amount = 0
  · exact .inl ⟨_, if_pos h0⟩
  rw [if_neg h0]
  cases hs : m.stakes[node]? with
  | none => exact .inl ⟨_, rfl⟩
  | some s =>
    dsimp only
    cases hcool : s.unstakeRequestedAt.bind (m.cooldownLeft now) with
    | some remaining => exact .inl ⟨_, rfl⟩
    | none =>
      by_cases hlt : s.totalCommitted < amount
      · exact .inl ⟨_, if_pos hlt⟩
      dsimp only
      rw [if_neg hlt]
      rcases m.pool.removeOverflow_guarded node (min amount s.overflowAmount) now with
        ⟨⟨e, he⟩, -⟩ | ⟨-, pool, hpool, hmoved⟩
      · rw [he]
        exact .inl ⟨e, rfl⟩
      · rw [hpool]
        exact .inr ⟨s, pool, _, rfl, hcool, Nat.not_lt.mp (mt UInt64.lt_iff_toNat_lt.mpr hlt),
          hmoved, rfl⟩

theorem completeUnstake_cases :
    (∃ e, m.completeUnstake node now = (.error e, m)) ∨
    ∃ s, m.stakes[node]? = some s ∧ m.completeUnstake node now = (.ok s.unstakePending,
      { m with
        stakes := m.stakes.insert node
          { s with unstakePending := 0, unstakeRequestedAt := none } }) := by
  unfold completeUnstake
  cases hs : m.stakes[node]? with
  | none => exact .inl ⟨_, rfl⟩
  | some s =>
    dsimp only
    cases s.unstakeRequestedAt with
    | none => exact .inl ⟨_, rfl⟩
    | some requestedAt =>
      dsimp only
      cases m.cooldownLeft now requestedAt with
      | some remaining => exact .inl ⟨_, rfl⟩
      | none => exact .inr ⟨s, rfl, rfl⟩

/-- The record after the first half of `apply_slash`. -/
def reduced (result : SlashResult) (entry : NodeStake) : NodeStake :=
  { entry with
    effectiveStake := saturatingSub entry.effectiveStake
      (saturatingSub result.event.amountSlashed result.overflowSlashed)
    totalCommitted := saturatingSub entry.totalCommitted result.event.amountSlashed }

/-- **A slash** finds no record; or writes the reduced record, if there is less in the pool than it
takes from there; or writes all it has to. -/
theorem applySlash_cases :
    let node := result.event.node
    m.stakes[node]? = none ∧ m.applySlash result now = (.error (.nodeNotFound node), m) ∨
    ∃ s, m.stakes[node]? = some s ∧
      (m.pool.contribution node < result.overflowSlashed.toNat ∧
          (∃ e, m.applySlash result now = (.error e,
            { m with stakes := m.stakes.insert node (reduced result s) })) ∨
        result.overflowSlashed.toNat ≤ m.pool.contribution node ∧ ∃ pool histories,
          (m.pool.Balanced → m.pool.Moved pool node
            (m.pool.contribution node - result.overflowSlashed.toNat)) ∧
          m.applySlash result now = (.ok (),
            { m with
              stakes := if (reduced result s).totalCommitted = 0 then m.stakes.erase node
                else m.stakes.insert node { reduced result s with
                  overflowAmount := saturatingSub s.overflowAmount result.overflowSlashed }
              pool
              slashingHistories := histories
              bannedNodes := if result.event.severity = .critical then
                  m.bannedNodes.insert node now
                else m.bannedNodes })) := by
  intro node
  unfold applySlash
  dsimp only
  cases hs : m.stakes[node]? with
  | none => exact .inl ⟨rfl, rfl⟩
  | some s =>
    refine .inr ⟨s, rfl, ?_⟩
    dsimp only
    rcases m.pool.removeOverflow_guarded node result.overflowSlashed now with
      ⟨⟨e, he⟩, hlt⟩ | ⟨hle, pool, hpool, hmoved⟩
    · rw [he]
      exact .inl ⟨hlt, e, rfl⟩
    · rw [hpool]
      exact .inr ⟨hle, pool, _, hmoved, rfl⟩

end Writes

/-! ### Calls -/

/-- A call of one of the four methods.  A slash is built from the record of its node; the offence,
the history and configuration it is judged by, and the reading of the clock are the caller's. -/
inductive Operation where
  | stake (amount : Lux)
  | requestUnstake (amount : Lux)
  | completeUnstake
  | slash (pillar : SlashingPillar) (baseSeverity : SlashingSeverity) (reason : String)
      (history : SlashingHistory) (config : SlashingConfig) (blockHeight : UInt64)
      (clock : DateTime)

structure Call where
  node : NodeId
  op : Operation
  now : DateTime

inductive Receipt where
  | staked (amount : Lux)
  | requested (amount : Lux)
  | released (amount : Lux)
  | slashed (amount overflow : Lux)
deriving DecidableEq

def slashable (m : StakingManager) (node : NodeId) : Lux × Lux :=
  match m.stakes[node]? with
  | none => (0, 0)
  | some s => (s.effectiveStake, s.overflowAmount)

def slashFor (m : StakingManager) (node : NodeId) (pillar : SlashingPillar)
    (baseSeverity : SlashingSeverity) (reason : String) (history : SlashingHistory)
    (config : SlashingConfig) (blockHeight : UInt64) (clock now : DateTime) : SlashResult :=
  buildSlashingEvent node pillar baseSeverity reason (m.slashable node).1 (m.slashable node).2
    history config now blockHeight clock

def perform (m : StakingManager) (call : Call) : Except StakingError Receipt × StakingManager :=
  match call.op with
  | .stake amount =>
    let (r, m) := m.stake call.node amount call.now
    (r.map fun _ => .staked amount, m)
  | .requestUnstake amount =>
    let (r, m) := m.requestUnstake call.node amount call.now
    (r.map fun _ => .requested amount, m)
  | .completeUnstake =>
    let (r, m) := m.completeUnstake call.node call.now
    (r.map .released, m)
  | .slash pillar baseSeverity reason history config blockHeight clock =>
    let result := m.slashFor call.node pillar baseSeverity reason history config blockHeight
      clock call.now
    let (r, m) := m.applySlash result call.now
    (r.map fun _ => .slashed result.event.amountSlashed result.overflowSlashed, m)

/-! ### A small network -/

def smallCap : StakingConfig := { perNodeCap := 1000 }

theorem validConfig_smallCap : ValidConfig smallCap := ⟨by decide, by decide⟩

def whale : NodeId := ⟨.splat 1⟩

def genesis : DateTime := ⟨0, 0⟩

def nextWeek : DateTime := ⟨8 * 24 * 3600, 0⟩

def minorOffence : Operation := .slash .energyFraud .minor "emulator detected" {} {} 7 genesis

end StakingManager

end Gratia
