import Gratia.Staking.Pool
import Gratia.Support.Runs
import Gratia.Support.Sums

/-!
# Staking — Yield

What the Network Security Pool pays out.  A distribution sets half of the yield aside for the
contributors and gives each miner its part of that half, in proportion to what it has in the pool,
and an equal part of the other half, both rounded down.  The parts of distinct miners never exceed
their half, since the running total is the sum of all contributions; so nothing saturates, and what
the rounding leaves stays in `accumulated_yield`.
-/

namespace Gratia

open Std Support

structure ActiveMiners where
  list : List NodeId
  nodup : list.Nodup
  fits : list.length < 2 ^ 64

inductive PoolCall where
  | addOverflow (node : NodeId) (amount : Lux) (now : DateTime)
  | removeOverflow (node : NodeId) (amount : Lux) (now : DateTime)
  | addYield (amount : Lux)
  | distributePoolYield (activeMiners : ActiveMiners) (now : DateTime)

def PoolCall.yieldAdded : PoolCall → ℕ
  | .addYield amount => amount.toNat
  | _ => 0

namespace NetworkSecurityPool

variable {p : NetworkSecurityPool}

def perform (p : NetworkSecurityPool) :
    PoolCall → Except StakingError (List YieldShare) × NetworkSecurityPool
  | .addOverflow node amount now =>
    let (r, p) := p.addOverflow node amount now
    (r.map fun _ => [], p)
  | .removeOverflow node amount now =>
    let (r, p) := p.removeOverflow node amount now
    (r.map fun _ => [], p)
  | .addYield amount => (.ok [], p.addYield amount)
  | .distributePoolYield activeMiners now =>
    let (shares, p) := p.distributePoolYield activeMiners.list now
    (.ok shares, p)

def paidBy : Except StakingError (List YieldShare) → ℕ
  | .ok shares => (shares.map fun share => share.totalYield.toNat).sum
  | .error _ => 0

def paidOut (p : NetworkSecurityPool) (calls : List PoolCall) : ℕ :=
  ((trace perform id p calls).map fun answer => paidBy answer.1).sum

/-! ### One distribution -/

theorem toNat_overflowYield (hp : p.Balanced) (portion : Lux) (miner : NodeId) :
    (p.overflowYield portion miner).toNat =
      p.contribution miner * portion.toNat / p.totalOverflow.toNat := by
  have hle := hp.contribution_le miner
  have hquot : p.contribution miner * portion.toNat / p.totalOverflow.toNat ≤ portion.toNat :=
    Nat.div_le_of_le_mul (Nat.mul_le_mul_right _ hle)
  have hlt := portion.toNat_lt
  unfold overflowYield
  by_cases h0 : p.totalOverflow > 0
  · rw [if_pos h0]
    unfold contribution at hquot ⊢
    cases hc : p.contributions[miner]? with
    | none => simp
    | some c =>
      rw [hc] at hquot
      exact UInt64.toNat_ofNat_of_lt' (hquot.trans_lt hlt)
  · rw [if_neg h0, eq_zero_of_not_pos h0]
    simp

variable {miners : List NodeId}

theorem sum_overflowYield_le (hp : p.Balanced) (hnodup : miners.Nodup) (portion : Lux) :
    (miners.map fun miner => (p.overflowYield portion miner).toNat).sum ≤ portion.toNat := by
  simp only [toNat_overflowYield hp]
  refine sum_map_mul_div_le p.contribution portion.toNat ?_
  rw [hp]
  exact sum_map_getElem?_le_weight _ hnodup p.contributions

theorem length_mul_div_le (hfits : miners.length < 2 ^ 64) (portion : Lux) :
    miners.length * (portion / UInt64.ofNat miners.length).toNat ≤ portion.toNat := by
  rw [UInt64.toNat_div, UInt64.toNat_ofNat_of_lt' hfits]
  exact Nat.mul_div_le _ _

theorem sum_saturatingAdd_overflowYield (own each : Lux)
    (hlt : (miners.map fun miner => (p.overflowYield own miner).toNat).sum +
      miners.length * each.toNat < 2 ^ 64) :
    (miners.map fun miner => (saturatingAdd (p.overflowYield own miner) each).toNat).sum =
      (miners.map fun miner => (p.overflowYield own miner).toNat).sum +
        miners.length * each.toNat := by
  have hshare : ∀ miner ∈ miners, (saturatingAdd (p.overflowYield own miner) each).toNat =
      (p.overflowYield own miner).toNat + each.toNat := by
    intro miner hmem
    have h₁ := List.single_le_sum (by simp) _
      (List.mem_map_of_mem (f := fun miner => (p.overflowYield own miner).toNat) hmem)
    have h₂ := Nat.le_mul_of_pos_left each.toNat (List.length_pos_of_mem hmem)
    rw [toNat_saturatingAdd]
    omega
  rw [List.map_congr_left hshare, List.sum_map_add, List.map_const', List.sum_replicate,
    smul_eq_mul]

/-- **A distribution keeps account**: what it pays and what it leaves is what there was. -/
theorem distributePoolYield_conserves (hp : p.Balanced) (hnodup : miners.Nodup)
    (hfits : miners.length < 2 ^ 64) (now : DateTime) :
    ((p.distributePoolYield miners now).1.map fun share => share.totalYield.toNat).sum +
        (p.distributePoolYield miners now).2.accumulatedYield.toNat =
      p.accumulatedYield.toNat := by
  unfold distributePoolYield
  by_cases hnone : p.accumulatedYield = 0 ∨ miners = []
  · rw [if_pos hnone]
    exact Nat.zero_add _
  · rw [if_neg hnone]
    dsimp only
    -- the two halves
    have hhalf : (p.accumulatedYield / 2).toNat ≤ p.accumulatedYield.toNat := by
      rw [UInt64.toNat_div]
      exact Nat.div_le_self _ _
    have hrest := toNat_sub_of_toNat_le hhalf
    generalize p.accumulatedYield / 2 = own at hhalf hrest ⊢
    generalize p.accumulatedYield - own = equal at hrest ⊢
    have hown := sum_overflowYield_le hp hnodup own
    have hequal := length_mul_div_le hfits equal
    generalize equal / UInt64.ofNat miners.length = each at hequal ⊢
    -- no share saturates, and neither does their sum
    have hlt := p.accumulatedYield.toNat_lt
    have hword : (miners.map fun miner => (p.overflowYield own miner).toNat).sum +
        miners.length * each.toNat < 2 ^ 64 := by omega
    have hsum := sum_saturatingAdd_overflowYield own each hword
    rw [toNat_saturatingSub, toNat_foldl_saturatingAdd]
    simp only [List.map_map, Function.comp_def, hsum, UInt64.toNat_zero]
    omega

/-! ### Runs -/

theorem Balanced.of_same {q : NetworkSecurityPool} (hp : p.Balanced)
    (htotal : q.totalOverflow = p.totalOverflow) (hc : q.contributions = p.contributions) :
    q.Balanced := by
  rw [Balanced, htotal, hc]
  exact hp

theorem balanced_distributePoolYield (hp : p.Balanced) (now : DateTime) :
    (p.distributePoolYield miners now).2.Balanced := by
  unfold distributePoolYield
  split_ifs
  · exact hp
  · exact hp.of_same rfl rfl

/-- What a call does to a balanced pool: it stays balanced, a failed call changes nothing, and
account is kept of the yield unless the yield added does not fit. -/
structure Does (p : NetworkSecurityPool) (call : PoolCall)
    (out : Except StakingError (List YieldShare) × NetworkSecurityPool) : Prop where
  balanced : out.2.Balanced
  failed : ∀ e, out.1 = .error e → out.2 = p
  account : p.accumulatedYield.toNat + call.yieldAdded < 2 ^ 64 →
    paidBy out.1 + out.2.accumulatedYield.toNat = p.accumulatedYield.toNat + call.yieldAdded

theorem does_error (hp : p.Balanced) {call : PoolCall} (e : StakingError)
    (hcall : call.yieldAdded = 0) : Does p call (.error e, p) :=
  ⟨hp, fun _ _ => rfl, fun _ => by rw [hcall]; exact Nat.zero_add _⟩

theorem does_nothing_paid {q : NetworkSecurityPool} (hq : q.Balanced) {call : PoolCall}
    (hcall : call.yieldAdded = 0) (hyield : q.accumulatedYield = p.accumulatedYield) :
    Does p call (.ok [], q) :=
  ⟨hq, nofun, fun _ => by rw [hcall, hyield]; exact Nat.zero_add _⟩

theorem perform_does (hp : p.Balanced) (call : PoolCall) : Does p call (p.perform call) := by
  cases call with
  | addOverflow node amount now =>
    simp only [perform]
    rcases addOverflow_cases node amount now hp with ⟨⟨e, h⟩, -⟩ | ⟨q, h, hyield, hmoved⟩
    · rw [h]
      exact does_error hp e rfl
    · rw [h]
      exact does_nothing_paid hmoved.balanced rfl hyield
  | removeOverflow node amount now =>
    simp only [perform]
    rcases p.removeOverflow_cases node amount now with ⟨⟨e, h⟩, -⟩ | ⟨-, q, h, hyield, hmoved⟩
    · rw [h]
      exact does_error hp e rfl
    · rw [h]
      exact does_nothing_paid (hmoved hp).balanced rfl hyield
  | addYield amount =>
    refine ⟨hp.of_same rfl rfl, nofun, fun hfits => ?_⟩
    simp only [PoolCall.yieldAdded] at hfits ⊢
    simp only [perform, addYield, paidBy, List.map_nil, List.sum_nil, toNat_saturatingAdd]
    omega
  | distributePoolYield miners now =>
    exact ⟨balanced_distributePoolYield hp now, nofun,
      fun _ => distributePoolYield_conserves hp miners.nodup miners.fits now⟩

theorem run_conserves (calls : List PoolCall) : ∀ {p : NetworkSecurityPool}, p.Balanced →
    p.accumulatedYield.toNat + (calls.map PoolCall.yieldAdded).sum < 2 ^ 64 →
    paidOut p calls + (run perform p calls).accumulatedYield.toNat =
      p.accumulatedYield.toNat + (calls.map PoolCall.yieldAdded).sum := by
  induction calls with
  | nil =>
    intro p _ _
    exact Nat.zero_add _
  | cons call calls ih =>
    intro p hp hfits
    rw [List.map_cons, List.sum_cons] at hfits ⊢
    have hone := (perform_does hp call).account (by omega)
    have hrest := ih (perform_does hp call).balanced (by omega)
    simp only [paidOut, trace, run, List.map_cons, List.sum_cons] at hrest ⊢
    omega

/-- **The pool's yield is conserved.**  Along every run from an empty pool whose yields fit one word
together, the running total is the sum of the contributions, the yield added is the yield paid out
and the yield left, and a call that fails changes nothing. -/
theorem yield_conserved (calls : List PoolCall)
    (hfits : (calls.map PoolCall.yieldAdded).sum < 2 ^ 64) :
    ((run perform new calls).totalOverflow.toNat =
        weight (fun c => c.amount.toNat) (run perform new calls).contributions) ∧
      (calls.map PoolCall.yieldAdded).sum =
        paidOut new calls + (run perform new calls).accumulatedYield.toNat ∧
      AllSteps perform (fun p call => ∀ e, (p.perform call).1 = .error e →
        (p.perform call).2 = p) new calls := by
  have hall : AllSteps perform (fun _ _ => True) new calls :=
    allSteps_of_forall new fun _ _ _ => trivial
  refine ⟨?_, ?_, ?_⟩
  · exact run_induction_of_allSteps Balanced (fun _ call _ hp => (perform_does hp call).balanced)
      calls new hall balanced_new
  · have hrun := run_conserves calls balanced_new (by simpa [new] using hfits)
    simpa [new] using hrun.symm
  · exact hall.of_invariant Balanced (fun _ call _ hp => (perform_does hp call).balanced)
      (fun _ call _ hp => (perform_does hp call).failed) balanced_new

def firstDistribution : List PoolCall :=
  [.addOverflow ⟨.splat 1⟩ 200 ⟨0, 0⟩, .addOverflow ⟨.splat 2⟩ 100 ⟨0, 0⟩, .addYield 100,
    .distributePoolYield ⟨[⟨.splat 1⟩, ⟨.splat 2⟩, ⟨.splat 3⟩], by decide, by decide⟩ ⟨10, 0⟩]

/-- The rounding leaves 3 Lux. -/
theorem yield_conserved_firstDistribution :
    paidOut new firstDistribution = 97 ∧
      100 = paidOut new firstDistribution +
        (run perform new firstDistribution).accumulatedYield.toNat := by
  have hsum : (firstDistribution.map PoolCall.yieldAdded).sum = 100 := by decide
  have h := (yield_conserved firstDistribution (by rw [hsum]; decide)).2.1
  rw [hsum] at h
  exact ⟨by decide +kernel, h⟩

end NetworkSecurityPool

end Gratia
