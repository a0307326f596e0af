import Gratia.Core.Types
import Gratia.Support.Words

/-!
# Staking — Pool

The Network Security Pool of `gratia-staking/src/pool.rs`: what each node has in it, a running total
of that, and the yield waiting to be distributed.
-/

namespace Gratia

open Std Support

/-- `StakingError`, with the fields and reasons its producers give. -/
inductive StakingError where
  | insufficientStake (available required : UInt64)
  | insufficientOverflow (available requested : UInt64)
  | invalidAmount (reason : String)
  | nodeNotFound (node : NodeId)
  | cooldownActive (remainingSecs : UInt64)
  | nodeBanned (node : NodeId)
deriving DecidableEq

structure OverflowContribution where
  amount : Lux
  contributedAt : DateTime
  lastUpdated : DateTime
deriving DecidableEq

structure NetworkSecurityPool where
  totalOverflow : Lux
  contributions : ExtTreeMap NodeId OverflowContribution
  accumulatedYield : Lux
  lastDistribution : Option DateTime

structure YieldShare where
  node : NodeId
  overflowYield : Lux
  minerYield : Lux
  totalYield : Lux
deriving DecidableEq

namespace NetworkSecurityPool

/-! ### The methods -/

def new : NetworkSecurityPool := ⟨0, ∅, 0, none⟩

def addOverflow (p : NetworkSecurityPool) (node : NodeId) (amount : Lux) (now : DateTime) :
    Except StakingError Unit × NetworkSecurityPool :=
  if amount = 0 then
    (.error (.invalidAmount "overflow amount must be greater than zero"), p)
  else
    match checkedAdd p.totalOverflow amount with
    | none => (.error (.invalidAmount "pool overflow would exceed u64 max"), p)
    | some total =>
      let p := { p with totalOverflow := total }
      -- `entry(..).or_insert(..)` leaves its entry behind even when the addition then fails.
      let entry := (p.contributions[node]?).getD ⟨0, now, now⟩
      match checkedAdd entry.amount amount with
      | none =>
        (.error (.invalidAmount "node overflow contribution would exceed u64 max"),
          { p with contributions := p.contributions.insert node entry })
      | some sum =>
        (.ok (), { p with contributions :=
          p.contributions.insert node { entry with amount := sum, lastUpdated := now } })

def removeOverflow (p : NetworkSecurityPool) (node : NodeId) (amount : Lux) (now : DateTime) :
    Except StakingError Unit × NetworkSecurityPool :=
  if amount = 0 then
    (.error (.invalidAmount "removal amount must be greater than zero"), p)
  else
    match p.contributions[node]? with
    | none => (.error (.nodeNotFound node), p)
    | some entry =>
      if entry.amount < amount then
        (.error (.insufficientOverflow entry.amount amount), p)
      else
        let entry := { entry with amount := entry.amount - amount, lastUpdated := now }
        (.ok (), { p with
          totalOverflow := p.totalOverflow - amount
          contributions := if entry.amount = 0 then p.contributions.erase node
            else p.contributions.insert node entry })

def addYield (p : NetworkSecurityPool) (amount : Lux) : NetworkSecurityPool :=
  { p with accumulatedYield := saturatingAdd p.accumulatedYield amount }

/-- The part of `contributor_portion` that a miner's own contribution earns; the product is a
`u128`. -/
def overflowYield (p : NetworkSecurityPool) (contributorPortion : Lux) (miner : NodeId) : Lux :=
  if p.totalOverflow > 0 then
    ((p.contributions[miner]?).map fun c =>
      UInt64.ofNat (c.amount.toNat * contributorPortion.toNat / p.totalOverflow.toNat)).getD 0
  else 0

def distributePoolYield (p : NetworkSecurityPool) (activeMiners : List NodeId) (now : DateTime) :
    List YieldShare × NetworkSecurityPool :=
  if p.accumulatedYield = 0 ∨ activeMiners = [] then ([], p)
  else
    let contributorPortion := p.accumulatedYield / 2
    let minerPortion := p.accumulatedYield - contributorPortion
    let perMiner := minerPortion / UInt64.ofNat activeMiners.length
    let shares := activeMiners.map fun miner =>
      let own := p.overflowYield contributorPortion miner
      ⟨miner, own, perMiner, saturatingAdd own perMiner⟩
    let distributed := shares.foldl (fun total share => saturatingAdd total share.totalYield) 0
    (shares, { p with accumulatedYield := saturatingSub p.accumulatedYield distributed,
                      lastDistribution := some now })

/-! ### Contributions -/

def contribution (p : NetworkSecurityPool) (node : NodeId) : ℕ :=
  (p.contributions[node]?).elim 0 fun c => c.amount.toNat

def Balanced (p : NetworkSecurityPool) : Prop :=
  p.totalOverflow.toNat = weight (fun c => c.amount.toNat) p.contributions

theorem balanced_new : new.Balanced := (weight_empty _).symm

variable {p q : NetworkSecurityPool} {node other : NodeId} {amount : Lux} {now : DateTime}

theorem Balanced.contribution_le (h : p.Balanced) (node : NodeId) :
    p.contribution node ≤ p.totalOverflow.toNat := by
  have := weight_erase (fun c : OverflowContribution => c.amount.toNat) p.contributions node
  rw [h, contribution]
  omega

structure Moved (p q : NetworkSecurityPool) (node : NodeId) (amount : ℕ) : Prop where
  balanced : q.Balanced
  self : q.contribution node = amount
  other : ∀ other, other ≠ node → q.contribution other = p.contribution other

theorem moved_insert (hp : p.Balanced) {total : Lux} {c : OverflowContribution}
    (htotal : total.toNat + p.contribution node = p.totalOverflow.toNat + c.amount.toNat) :
    Moved p { p with totalOverflow := total, contributions := p.contributions.insert node c } node
      c.amount.toNat where
  balanced := by
    have hw := weight_insert (fun c : OverflowContribution => c.amount.toNat)
      p.contributions node c
    rw [contribution] at htotal
    rw [Balanced] at hp ⊢
    dsimp only
    omega
  self := by rw [contribution, getElem?_insert_self', Option.elim_some]
  other other hne := by
    rw [contribution, contribution, getElem?_insert_ne _ _ hne.symm]

theorem moved_erase (hp : p.Balanced) {total : Lux}
    (htotal : total.toNat + p.contribution node = p.totalOverflow.toNat) :
    Moved p { p with totalOverflow := total, contributions := p.contributions.erase node } node
      0 where
  balanced := by
    have hw := weight_erase (fun c : OverflowContribution => c.amount.toNat)
      p.contributions node
    rw [contribution] at htotal
    rw [Balanced] at hp ⊢
    dsimp only
    omega
  self := by rw [contribution, ExtTreeMap.getElem?_erase_self, Option.elim_none]
  other other hne := by
    rw [contribution, contribution, getElem?_erase_ne _ hne.symm]

theorem Moved.refl (hp : p.Balanced) : Moved p p node (p.contribution node) :=
  ⟨hp, rfl, fun _ _ => rfl⟩

/-- **Adding.**  A balanced pool takes an amount if its total can, and else stays as it is. -/
theorem addOverflow_cases (node : NodeId) (amount : Lux) (now : DateTime) (hp : p.Balanced) :
    (∃ e, p.addOverflow node amount now = (.error e, p)) ∧
        (amount = 0 ∨ 2 ^ 64 ≤ p.totalOverflow.toNat + amount.toNat) ∨
      ∃ q, p.addOverflow node amount now = (.ok (), q) ∧
        q.accumulatedYield = p.accumulatedYield ∧
        Moved p q node (p.contribution node + amount.toNat) := by
  by_cases h0 : amount = 0
  · exact .inl ⟨⟨_, if_pos h0⟩, .inl h0⟩
  rcases Nat.lt_or_ge (p.totalOverflow.toNat + amount.toNat) (2 ^ 64) with hfits | hfull
  · have hle := hp.contribution_le node
    obtain ⟨entry, hentry⟩ : ∃ entry, (p.contributions[node]?).getD ⟨0, now, now⟩ = entry :=
      ⟨_, rfl⟩
    have hamount : entry.amount.toNat = p.contribution node := by
      rw [← hentry, contribution]
      cases p.contributions[node]? <;> rfl
    have hsum : entry.amount.toNat + amount.toNat < 2 ^ 64 := by omega
    refine .inr ⟨_, by simp only [addOverflow, if_neg h0, checkedAdd_of_lt hfits, hentry,
      checkedAdd_of_lt hsum]; rfl, ?_, ?_⟩
    · rfl
    rw [← hamount, ← toNat_add_of_lt hsum]
    refine moved_insert hp ?_
    rw [toNat_add_of_lt hfits, toNat_add_of_lt hsum]
    omega
  · exact .inl ⟨⟨_, by simp only [addOverflow, if_neg h0, checkedAdd_of_le hfull]; rfl⟩,
      .inr hfull⟩

/-- **Removing.**  A pool gives back what a node has in it, and else stays as it is. -/
theorem removeOverflow_cases (p : NetworkSecurityPool) (node : NodeId) (amount : Lux)
    (now : DateTime) :
    (∃ e, p.removeOverflow node amount now = (.error e, p)) ∧
        (amount = 0 ∨ p.contribution node < amount.toNat) ∨
      amount.toNat ≤ p.contribution node ∧ ∃ q, p.removeOverflow node amount now = (.ok (), q) ∧
        q.accumulatedYield = p.accumulatedYield ∧
        (p.Balanced → Moved p q node (p.contribution node - amount.toNat)) := by
  by_cases h0 : amount = 0
  · exact .inl ⟨⟨_, if_pos h0⟩, .inl h0⟩
  have hpos := toNat_pos h0
  unfold removeOverflow
  rw [if_neg h0]
  cases hentry : p.contributions[node]? with
  | none =>
    refine .inl ⟨⟨_, rfl⟩, .inr ?_⟩
    rwa [contribution, hentry, Option.elim_none]
  | some entry =>
    have hamount : p.contribution node = entry.amount.toNat := by
      rw [contribution, hentry, Option.elim_some]
    by_cases hlt : entry.amount < amount
    · exact .inl ⟨⟨_, if_pos hlt⟩, .inr (hamount ▸ UInt64.lt_iff_toNat_lt.mp hlt)⟩
    have hle : amount.toNat ≤ entry.amount.toNat := Nat.not_lt.mp (mt UInt64.lt_iff_toNat_lt.mpr hlt)
    refine .inr ⟨hamount ▸ hle, _, if_neg hlt, rfl, fun hp => ?_⟩
    have htotal := hp.contribution_le node
    have hsub := toNat_sub_of_toNat_le hle
    have hsubT : (p.totalOverflow - amount).toNat = p.totalOverflow.toNat - amount.toNat :=
      toNat_sub_of_toNat_le (by omega)
    rw [hamount, ← hsub]
    -- an entry that is used up is removed
    by_cases hz : entry.amount - amount = 0
    · have hzero : (entry.amount - amount).toNat = 0 := by rw [hz, UInt64.toNat_zero]
      rw [if_pos hz, hzero]
      exact moved_erase hp (by omega)
    · rw [if_neg hz]
      exact moved_insert hp
        (c := { entry with amount := entry.amount - amount, lastUpdated := now })
        (by dsimp only; omega)

/-! ### The two methods behind their guards -/

theorem eq_zero_of_not_pos (h : ¬amount > 0) : amount = 0 := by
  by_contra h0
  exact h (UInt64.lt_iff_toNat_lt.mpr (toNat_pos h0))

theorem addOverflow_guarded (node : NodeId) (now : DateTime) (hp : p.Balanced)
    (hfits : p.totalOverflow.toNat + amount.toNat < 2 ^ 64) :
    ∃ q, (if amount > 0 then p.addOverflow node amount now else (.ok (), p)) = (.ok (), q) ∧
      Moved p q node (p.contribution node + amount.toNat) := by
  by_cases h : amount > 0
  · rw [if_pos h]
    rcases addOverflow_cases node amount now hp with ⟨-, rfl | hfull⟩ | ⟨q, hq, -, hmoved⟩
    · exact absurd h (by decide)
    · omega
    · exact ⟨q, hq, hmoved⟩
  · rw [if_neg h, eq_zero_of_not_pos h]
    exact ⟨p, rfl, Moved.refl hp⟩

theorem removeOverflow_guarded (p : NetworkSecurityPool) (node : NodeId) (amount : Lux)
    (now : DateTime) :
    let out := if amount > 0 then p.removeOverflow node amount now else (.ok (), p)
    (∃ e, out = (.error e, p)) ∧ p.contribution node < amount.toNat ∨
      amount.toNat ≤ p.contribution node ∧ ∃ q, out = (.ok (), q) ∧
        (p.Balanced → Moved p q node (p.contribution node - amount.toNat)) := by
  intro out
  by_cases h : amount > 0
  · rw [show out = p.removeOverflow node amount now from if_pos h]
    rcases p.removeOverflow_cases node amount now with ⟨he, rfl | hlt⟩ | ⟨hle, q, hq, -, hmoved⟩
    · exact absurd h (by decide)
    · exact .inl ⟨he, hlt⟩
    · exact .inr ⟨hle, q, hq, hmoved⟩
  · rw [show out = (.ok (), p) from if_neg h, eq_zero_of_not_pos h]
    exact .inr ⟨Nat.zero_le _, p, rfl, Moved.refl⟩

end NetworkSecurityPool

end Gratia
