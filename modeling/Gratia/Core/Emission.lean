import Gratia.Core.Types
import Gratia.Support.Sums
import Gratia.Support.Words

/-!
# Core — Emission

The emission schedule of `gratia-core/src/emission.rs`: a year's emission is three quarters of the
year before, rounded down, and a block pays its share of a day of its year.  Every method is given
twice: as the release build computes it, on wrapping words, and with each multiplication and
addition checked, which is what a build with overflow checks computes.
-/

namespace Gratia.EmissionSchedule

open Finset Support

/-! ### Constants -/

def luxPerGrat : UInt64 := 1_000_000

def totalMiningSupplyGrat : UInt64 := 8_500_000_000

def year1EmissionGrat : UInt64 := 2_125_000_000

def annualRetentionBps : UInt64 := 7500

def blockTimeSecs : UInt64 := 4

def blocksPerDay : UInt64 := 86_400 / blockTimeSecs

def blocksPerYear : UInt64 := blocksPerDay * 365

/-! ### The schedule -/

/-- The body of the loop of `annual_emission_grat`. -/
def retain (emission : UInt64) : UInt64 := emission * annualRetentionBps / 10_000

def annualEmissionGrat (year : UInt32) : UInt64 :=
  if year = 0 then 0 else retain^[year.toNat - 1] year1EmissionGrat

def dailyBudgetGrat (year : UInt32) : UInt64 := annualEmissionGrat year / 365

def yearForHeight (blockHeight : UInt64) : UInt32 :=
  (min (blockHeight / blocksPerYear + 1) 0xFFFFFFFF).toUInt32

def blockRewardLux (blockHeight : UInt64) : Lux :=
  dailyBudgetGrat (yearForHeight blockHeight) * luxPerGrat / blocksPerDay

def cumulativeEmissionGrat (upToYear : UInt32) : UInt64 :=
  (List.range upToYear.toNat).foldl (fun total y => total + annualEmissionGrat (.ofNat (y + 1))) 0

/-! ### The schedule with overflow checks -/

def retainChecked (emission : UInt64) : Option UInt64 := do
  let product ← checkedMul emission annualRetentionBps
  return product / 10_000

def annualEmissionGratChecked (year : UInt32) : Option UInt64 :=
  if year = 0 then some 0 else (· >>= retainChecked)^[year.toNat - 1] (some year1EmissionGrat)

def yearForHeightChecked (blockHeight : UInt64) : Option UInt32 := do
  let year ← checkedAdd (blockHeight / blocksPerYear) 1
  return (min year 0xFFFFFFFF).toUInt32

def blockRewardLuxChecked (blockHeight : UInt64) : Option Lux := do
  let year ← yearForHeightChecked blockHeight
  let annual ← annualEmissionGratChecked year
  let product ← checkedMul (annual / 365) luxPerGrat
  return product / blocksPerDay

def cumulativeEmissionGratChecked (upToYear : UInt32) : Option UInt64 :=
  (List.range upToYear.toNat).foldlM
    (fun total y => do checkedAdd total (← annualEmissionGratChecked (.ofNat (y + 1)))) 0

/-! ### The emission of a year -/

def annual : ℕ → ℕ
  | 0 => 2_125_000_000
  | n + 1 => annual n * 7500 / 10_000

theorem annual_geometric (n : ℕ) : (3 + 1) * annual (n + 1) ≤ 3 * annual n := by
  rw [annual]
  omega

theorem annual_antitone : Antitone annual :=
  antitone_nat_of_succ_le fun n => by
    have := annual_geometric n
    omega

theorem annual_le (n : ℕ) : annual n ≤ 2_125_000_000 := annual_antitone n.zero_le

theorem totalMiningSupplyGrat_toNat : totalMiningSupplyGrat.toNat = (3 + 1) * annual 0 := by
  rw [annual]
  rfl

theorem annual_eq_zero {n : ℕ} (h : 100 ≤ n) : annual n = 0 :=
  Nat.le_zero.mp ((annual_antitone h).trans (by decide +kernel))

theorem retain_spec {e : UInt64} {n : ℕ} (he : e.toNat = annual n) :
    retainChecked e = some (retain e) ∧ (retain e).toNat = annual (n + 1) := by
  have hle := annual_le n
  have hlt : e.toNat * annualRetentionBps.toNat < 2 ^ 64 := by
    rw [he, show annualRetentionBps.toNat = 7500 from rfl]
    omega
  refine ⟨by rw [retainChecked, checkedMul_of_lt hlt]; rfl, ?_⟩
  rw [retain, UInt64.toNat_div, toNat_mul_of_lt hlt, he, annual,
    show annualRetentionBps.toNat = 7500 from rfl, show (10_000 : UInt64).toNat = 10_000 from rfl]

theorem retain_iterate_spec (n : ℕ) :
    (· >>= retainChecked)^[n] (some year1EmissionGrat) = some (retain^[n] year1EmissionGrat) ∧
      (retain^[n] year1EmissionGrat).toNat = annual n := by
  induction n with
  | zero => exact ⟨rfl, rfl⟩
  | succ n ih =>
    obtain ⟨hc, hn⟩ := ih
    obtain ⟨hstep, hnext⟩ := retain_spec hn
    rw [Function.iterate_succ_apply', Function.iterate_succ_apply', hc]
    exact ⟨hstep, hnext⟩

theorem annualEmissionGrat_spec {year : UInt32} {n : ℕ} (h : year.toNat = n + 1) :
    annualEmissionGratChecked year = some (annualEmissionGrat year) ∧
      (annualEmissionGrat year).toNat = annual n := by
  have hne : year ≠ 0 := by
    rintro rfl
    exact absurd h.symm n.succ_ne_zero
  rw [annualEmissionGratChecked, annualEmissionGrat, if_neg hne, if_neg hne, h]
  exact retain_iterate_spec n

/-! ### The reward of a block -/

def reward (n : ℕ) : ℕ := annual n / 365 * 1_000_000 / 21_600

theorem reward_antitone : Antitone reward := by
  intro m n h
  have h1 := annual_antitone h
  have h2 : annual n / 365 ≤ annual m / 365 := Nat.div_le_div_right h1
  exact Nat.div_le_div_right (Nat.mul_le_mul_right _ h2)

theorem reward_eq_zero {n : ℕ} (h : 100 ≤ n) : reward n = 0 := by
  rw [reward, annual_eq_zero h]

theorem mul_reward_le (n : ℕ) : 7_884_000 * reward n ≤ 1_000_000 * annual n := by
  rw [reward]
  omega

theorem yearForHeight_spec (h : UInt64) :
    yearForHeightChecked h = some (yearForHeight h) ∧
      (yearForHeight h).toNat = min (h.toNat / 7_884_000) 0xFFFFFFFE + 1 := by
  have hh := h.toNat_lt
  have hdiv : (h / blocksPerYear).toNat = h.toNat / 7_884_000 := UInt64.toNat_div ..
  have hlt : (h / blocksPerYear).toNat + (1 : UInt64).toNat < 2 ^ 64 := by
    rw [hdiv, show (1 : UInt64).toNat = 1 from rfl]
    omega
  refine ⟨by rw [yearForHeightChecked, checkedAdd_of_lt hlt]; rfl, ?_⟩
  have hadd : (h / blocksPerYear + 1).toNat = h.toNat / 7_884_000 + 1 := by
    rw [toNat_add_of_lt hlt, hdiv]
    rfl
  rw [yearForHeight, UInt64.toNat_toUInt32]
  have hmax : (0xFFFFFFFF : UInt64).toNat = 4294967295 := rfl
  by_cases hle : h / blocksPerYear + 1 ≤ 0xFFFFFFFF
  · rw [show min (h / blocksPerYear + 1) 0xFFFFFFFF = _ from if_pos hle, hadd]
    rw [UInt64.le_iff_toNat_le, hadd, hmax] at hle
    omega
  · rw [show min (h / blocksPerYear + 1) 0xFFFFFFFF = _ from if_neg hle, hmax]
    rw [UInt64.le_iff_toNat_le, hadd, hmax] at hle
    omega

theorem blockRewardLux_spec (h : UInt64) :
    blockRewardLuxChecked h = some (blockRewardLux h) ∧
      (blockRewardLux h).toNat = reward (h.toNat / 7_884_000) := by
  obtain ⟨hyc, hy⟩ := yearForHeight_spec h
  obtain ⟨hac, ha⟩ := annualEmissionGrat_spec hy
  have hle := annual_le (min (h.toNat / 7_884_000) 0xFFFFFFFE)
  have hdaily : (annualEmissionGrat (yearForHeight h) / 365).toNat =
      annual (min (h.toNat / 7_884_000) 0xFFFFFFFE) / 365 := by
    rw [UInt64.toNat_div, ha, show (365 : UInt64).toNat = 365 from rfl]
  have hlt : (annualEmissionGrat (yearForHeight h) / 365).toNat * luxPerGrat.toNat < 2 ^ 64 := by
    rw [hdaily, show luxPerGrat.toNat = 1_000_000 from rfl]
    omega
  have hchecked : blockRewardLuxChecked h = some (blockRewardLux h) := by
    rw [blockRewardLuxChecked, hyc, Option.bind_eq_bind, Option.bind_some, hac,
      Option.bind_eq_bind, Option.bind_some, checkedMul_of_lt hlt, Option.bind_some,
      Option.pure_def, blockRewardLux, dailyBudgetGrat]
  refine ⟨hchecked, ?_⟩
  have hreward : (blockRewardLux h).toNat = reward (min (h.toNat / 7_884_000) 0xFFFFFFFE) := by
    rw [blockRewardLux, dailyBudgetGrat, UInt64.toNat_div, toNat_mul_of_lt hlt, hdaily, reward,
      show luxPerGrat.toNat = 1_000_000 from rfl, show blocksPerDay.toNat = 21_600 from rfl]
  -- Where the year is clamped to `u32::MAX`, the schedule has long run out.
  rcases le_total (h.toNat / 7_884_000) 0xFFFFFFFE with hm | hm
  · rw [hreward, min_eq_left hm]
  · rw [hreward, reward_eq_zero (by omega), reward_eq_zero (by omega)]

/-! ### Whole runs -/

theorem sum_blockRewardLux_le {H : ℕ} (hH : H ≤ 2 ^ 64) :
    ∑ h ∈ range H, (blockRewardLux (.ofNat h)).toNat ≤
      totalMiningSupplyGrat.toNat * luxPerGrat.toNat := by
  have hpay : ∀ h ∈ range H, (blockRewardLux (.ofNat h)).toNat = reward (h / 7_884_000) := by
    intro h hh
    have hlt : h < 2 ^ 64 := (mem_range.mp hh).trans_le hH
    rw [(blockRewardLux_spec _).2, UInt64.toNat_ofNat_of_lt' hlt]
  calc ∑ h ∈ range H, (blockRewardLux (.ofNat h)).toNat
      = ∑ h ∈ range H, reward (h / 7_884_000) := sum_congr rfl hpay
    _ ≤ ∑ y ∈ range (H / 7_884_000 + 1), 7_884_000 * reward y :=
        sum_range_div_le reward (by decide) H
    _ ≤ ∑ y ∈ range (H / 7_884_000 + 1), 1_000_000 * annual y :=
        sum_le_sum fun y _ => mul_reward_le y
    _ = 1_000_000 * ∑ y ∈ range (H / 7_884_000 + 1), annual y := (mul_sum ..).symm
    _ ≤ 1_000_000 * ((3 + 1) * annual 0) :=
        Nat.mul_le_mul_left _ (sum_range_le_of_geometric annual_geometric _)
    _ = totalMiningSupplyGrat.toNat * luxPerGrat.toNat := by
        rw [← totalMiningSupplyGrat_toNat, Nat.mul_comm]
        rfl

/-- The cumulative emission of `n` years is the sum of the years. -/
theorem foldl_annual_spec (n : ℕ) (hn : n < 2 ^ 32) :
    (List.range n).foldlM
        (fun total y => do checkedAdd total (← annualEmissionGratChecked (.ofNat (y + 1)))) 0 =
        some ((List.range n).foldl
          (fun total y => total + annualEmissionGrat (.ofNat (y + 1))) 0) ∧
      ((List.range n).foldl (fun total y => total + annualEmissionGrat (.ofNat (y + 1))) 0).toNat =
        ∑ y ∈ range n, annual y := by
  induction n with
  | zero => exact ⟨rfl, rfl⟩
  | succ n ih =>
    obtain ⟨hc, hs⟩ := ih (by omega)
    obtain ⟨hac, ha⟩ := annualEmissionGrat_spec (UInt32.toNat_ofNat_of_lt' hn)
    rw [List.range_succ, List.foldlM_append, List.foldl_append, hc]
    have hle := sum_range_le_of_geometric annual_geometric (n + 1)
    rw [sum_range_succ, show annual 0 = 2_125_000_000 from rfl] at hle
    have hlt : ((List.range n).foldl
          (fun total y => total + annualEmissionGrat (.ofNat (y + 1))) 0).toNat +
        (annualEmissionGrat (.ofNat (n + 1))).toNat < 2 ^ 64 := by
      rw [hs, ha]
      omega
    refine ⟨?_, ?_⟩
    · simp only [List.foldlM_cons, List.foldlM_nil, List.foldl_cons, List.foldl_nil, hac,
        Option.bind_eq_bind, Option.bind_some, checkedAdd_of_lt hlt]
      rfl
    · rw [List.foldl_cons, List.foldl_nil, toNat_add_of_lt hlt, hs, ha, sum_range_succ]

theorem cumulativeEmissionGrat_spec (year : UInt32) :
    cumulativeEmissionGratChecked year = some (cumulativeEmissionGrat year) ∧
      (cumulativeEmissionGrat year).toNat = ∑ y ∈ range year.toNat, annual y :=
  foldl_annual_spec year.toNat year.toNat_lt

/-- **The emission schedule stays within its supply.**  The rewards of the blocks below any height
sum to at most the mining supply and never increase with the height; every multiplication and
addition on the way fits `u64`; and the emission up to a year is at most the supply and never
decreases with the year. -/
theorem emission_within_supply :
    (∀ H ≤ 2 ^ 64, ∑ h ∈ range H, (blockRewardLux (.ofNat h)).toNat ≤
      totalMiningSupplyGrat.toNat * luxPerGrat.toNat) ∧
    (∀ h h' : UInt64, h ≤ h' → blockRewardLux h' ≤ blockRewardLux h) ∧
    (∀ h, blockRewardLuxChecked h = some (blockRewardLux h)) ∧
    (∀ year, annualEmissionGratChecked year = some (annualEmissionGrat year)) ∧
    (∀ year, cumulativeEmissionGratChecked year = some (cumulativeEmissionGrat year)) ∧
    (∀ year, cumulativeEmissionGrat year ≤ totalMiningSupplyGrat) ∧
    (∀ year year' : UInt32, year ≤ year' →
      cumulativeEmissionGrat year ≤ cumulativeEmissionGrat year') := by
  refine ⟨fun H => sum_blockRewardLux_le, ?_, fun h => (blockRewardLux_spec h).1, ?_,
    fun year => (cumulativeEmissionGrat_spec year).1, ?_, ?_⟩
  · intro h h' hle
    rw [UInt64.le_iff_toNat_le, (blockRewardLux_spec h).2, (blockRewardLux_spec h').2]
    exact reward_antitone (Nat.div_le_div_right (UInt64.le_iff_toNat_le.mp hle))
  · intro year
    rcases Nat.eq_zero_or_pos year.toNat with h0 | hpos
    · rw [UInt32.toNat_inj.mp (h0.trans UInt32.toNat_zero.symm)]
      rfl
    · exact (annualEmissionGrat_spec (Nat.succ_pred_eq_of_pos hpos).symm).1
  · intro year
    rw [UInt64.le_iff_toNat_le, (cumulativeEmissionGrat_spec year).2, totalMiningSupplyGrat_toNat]
    exact sum_range_le_of_geometric annual_geometric _
  · intro year year' hle
    rw [UInt64.le_iff_toNat_le, (cumulativeEmissionGrat_spec year).2,
      (cumulativeEmissionGrat_spec year').2]
    exact sum_le_sum_of_subset (range_mono (UInt32.le_iff_toNat_le.mp hle))

/-- The first two blocks, and the step from the first year to the second. -/
theorem emission_within_supply_first_years :
    ∑ h ∈ range 2, (blockRewardLux (.ofNat h)).toNat ≤
        totalMiningSupplyGrat.toNat * luxPerGrat.toNat ∧
      blockRewardLux 7_884_000 ≤ blockRewardLux 0 :=
  ⟨emission_within_supply.1 2 (by decide), emission_within_supply.2.1 0 7_884_000 (by decide)⟩

end Gratia.EmissionSchedule
