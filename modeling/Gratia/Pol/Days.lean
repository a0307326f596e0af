import Gratia.Pol.Manager

/-!
# Proof of Life — Days

Which days count, and which of those can be proved.  A day counts by the requirements it is
documented with only if no Bluetooth environment was recorded: the changes that `is_valid` asks for
otherwise are never counted (`isValid_summary`).  A day without Bluetooth counts, but the proof made
of it is held against the Bluetooth minimum all the same, so it exists only where that minimum is
zero (`proofInput_meets`).
-/

namespace Gratia

open Support

structure MeetsRequirements (config : ProofOfLifeConfig) (day : List PolEvent) : Prop where
  unlocks : config.minDailyUnlocks.toNat ≤ (unlockTimes day).length
  spread : ∃ first ∈ (unlockTimes day).head?, ∃ last ∈ (unlockTimes day).getLast?,
    (config.minUnlockSpreadHours.toNat : ℤ) ≤ last.hoursSince first
  interactions : config.minInteractionSessions.toNat ≤ day.count .interactionSession
  orientation : .orientationChange ∈ day
  motion : .humanMotion ∈ day
  gps : .gpsFix ∈ day
  network : .wifiNetwork ∈ day ∨ .btEnvironmentChange ∈ day
  bluetooth : .btEnvironmentChange ∉ day ∨
    config.minDistinctBtEnvironments.toNat ≤ day.count .btEnvironmentChange ∧
      2 ≤ day.count .btEnvironmentChange
  charge : .chargeEvent ∈ day

/-- Nothing that a day counts reaches `2 ^ 32`. -/
structure WithinCounters (day : List PolEvent) : Prop where
  unlocks : (unlockTimes day).length < 2 ^ 32
  interactions : day.count .interactionSession < 2 ^ 32
  wifi : day.count .wifiNetwork < 2 ^ 32
  bluetooth : day.count .btEnvironmentChange < 2 ^ 32
  spread : ∀ first ∈ (unlockTimes day).head?, ∀ last ∈ (unlockTimes day).getLast?,
    last.hoursSince first < 2 ^ 32

variable {config : ProofOfLifeConfig} {day : List PolEvent}

theorem spreadHours_summary (hours : ℤ) : (summary day).spreadHours = some hours ↔
    ∃ first ∈ (unlockTimes day).head?, ∃ last ∈ (unlockTimes day).getLast?,
      last.hoursSince first = hours := by
  unfold DailyProofOfLifeData.spreadHours summary
  cases (unlockTimes day).head? with
  | none => simp
  | some first =>
    cases (unlockTimes day).getLast? with
    | none => simp
    | some last => simp

theorem le_ofNat_iff {a : UInt32} {n : ℕ} (hn : n < 2 ^ 32) : a ≤ UInt32.ofNat n ↔ a.toNat ≤ n := by
  rw [UInt32.le_iff_toNat_le, UInt32.toNat_ofNat_of_lt' hn]

theorem one_le_count_iff {e : PolEvent} (hn : day.count e < 2 ^ 32) :
    1 ≤ UInt32.ofNat (day.count e) ↔ e ∈ day := by
  rw [le_ofNat_iff hn, ← List.one_le_count_iff]
  rfl

theorem count_eq_zero_iff {e : PolEvent} (hn : day.count e < 2 ^ 32) :
    UInt32.ofNat (day.count e) = 0 ↔ e ∉ day := by
  rw [← UInt32.toNat_inj, UInt32.toNat_ofNat_of_lt' hn]
  exact List.count_eq_zero

/-- **The days that count**: those that meet the requirements without Bluetooth. -/
theorem isValid_summary (hday : WithinCounters day) :
    (summary day).isValid config = true ↔
      MeetsRequirements config day ∧ .btEnvironmentChange ∉ day := by
  have hspread : ((summary day).spreadHours.any fun hours =>
      (config.minUnlockSpreadHours.toNat : ℤ) ≤ hours) = true ↔
      ∃ first ∈ (unlockTimes day).head?, ∃ last ∈ (unlockTimes day).getLast?,
        (config.minUnlockSpreadHours.toNat : ℤ) ≤ last.hoursSince first := by
    simp only [Option.any_eq_true, spreadHours_summary, decide_eq_true_eq]
    constructor
    · rintro ⟨_, ⟨first, hf, last, hl, rfl⟩, hle⟩
      exact ⟨first, hf, last, hl, hle⟩
    · rintro ⟨first, hf, last, hl, hle⟩
      exact ⟨_, ⟨first, hf, last, hl, rfl⟩, hle⟩
  simp only [DailyProofOfLifeData.isValid, Bool.and_eq_true, hspread, decide_eq_true_eq]
  simp only [summary, ge_iff_le, le_ofNat_iff hday.unlocks, le_ofNat_iff hday.interactions,
    one_le_count_iff hday.wifi, one_le_count_iff hday.bluetooth, count_eq_zero_iff hday.bluetooth,
    List.contains_iff_mem]
  constructor
  · rintro ⟨⟨⟨⟨⟨⟨⟨⟨hunlocks, hspread⟩, hsessions⟩, horient⟩, hmotion⟩, hgps⟩, hnet⟩, hbt⟩, hcharge⟩
    -- The count of changes is zero, so only the first half can hold.
    have hnone : PolEvent.btEnvironmentChange ∉ day := hbt.resolve_right fun h => by
      exact absurd h.2 (by decide)
    exact ⟨⟨hunlocks, hspread, hsessions, horient, hmotion, hgps, hnet, .inl hnone, hcharge⟩, hnone⟩
  · rintro ⟨h, hnone⟩
    exact ⟨⟨⟨⟨⟨⟨⟨⟨h.unlocks, h.spread⟩, h.interactions⟩, h.orientation⟩, h.motion⟩, h.gps⟩,
      h.network⟩, .inl hnone⟩, h.charge⟩

namespace ProofOfLifeManager

variable {m : ProofOfLifeManager}

theorem toNat_proofInput (hday : WithinCounters day) (hdata : m.currentDayData = summary day) :
    m.proofInput.unlockCount.toNat = (unlockTimes day).length ∧
    m.proofInput.interactionSessions.toNat = day.count .interactionSession ∧
    m.proofInput.btEnvironments.toNat = day.count .btEnvironmentChange ∧
    ∀ first ∈ (unlockTimes day).head?, ∀ last ∈ (unlockTimes day).getLast?,
      m.proofInput.unlockSpreadHours.toNat = (last.hoursSince first).toNat := by
  unfold proofInput
  rw [hdata]
  refine ⟨?_, ?_, ?_, ?_⟩
  · exact UInt32.toNat_ofNat_of_lt' hday.unlocks
  · exact UInt32.toNat_ofNat_of_lt' hday.interactions
  · exact UInt32.toNat_ofNat_of_lt' hday.bluetooth
  · intro first hf last hl
    have hhours := hday.spread first hf last hl
    rw [(spreadHours_summary _).mpr ⟨first, hf, last, hl, rfl⟩]
    exact UInt64.toNat_ofNat_of_lt' (by simp; omega)

/-- **The days that can be proved**, among those that count: where no Bluetooth is asked for. -/
theorem proofInput_meets (hday : WithinCounters day) (hdata : m.currentDayData = summary day)
    (hreq : MeetsRequirements config day) (hnone : .btEnvironmentChange ∉ day) :
    m.proofInput.Meets config.thresholds ↔ config.minDistinctBtEnvironments = 0 := by
  obtain ⟨hunlocks, hsessions, hbt, hspread⟩ := toNat_proofInput hday hdata
  obtain ⟨first, hf, last, hl, hhours⟩ := hreq.spread
  rw [List.count_eq_zero.mpr hnone] at hbt
  simp only [PolProofInput.Meets, ProofOfLifeConfig.thresholds, UInt64.le_iff_toNat_le, hunlocks,
    hsessions, hbt, hspread first hf last hl, UInt32.toNat_toUInt64]
  constructor
  · rintro ⟨-, -, -, hzero⟩
    exact UInt32.toNat_inj.mp (Nat.le_zero.mp hzero)
  · intro hzero
    exact ⟨hreq.unlocks, by omega, hreq.interactions, by rw [hzero]; rfl⟩

variable {P : Platform} {bp : Bulletproofs P}

theorem proved_iff (hbp : PolRangeComplete bp) (hday : WithinCounters day)
    (hdata : m.currentDayData = summary day) (hreq : MeetsRequirements m.config day)
    (hnone : .btEnvironmentChange ∉ day) (coins : PolCoins P) (epochDay : UInt32) :
    (∃ proof, (generatePolProof bp coins m.proofInput m.config.thresholds epochDay).toOption =
        some proof ∧ verifyPolProof bp proof m.config.thresholds epochDay = .ok true) ↔
      m.config.minDistinctBtEnvironments = 0 := by
  rw [← proofInput_meets hday hdata hreq hnone]
  constructor
  · rintro ⟨proof, hsome, -⟩
    exact (generatePolProof_ok.mp (toOption_eq_some.mp hsome)).1
  · intro hmeets
    obtain ⟨hunlocks, hsessions, hbt, hspread⟩ := toNat_proofInput hday hdata
    obtain ⟨first, hf, last, hl, -⟩ := hreq.spread
    have hrange : ∀ v ∈ m.proofInput.shifted m.config.thresholds, v.toNat < 2 ^ rangeProofBits := by
      refine hmeets.shifted_lt (hunlocks ▸ hday.unlocks) ?_ (hsessions ▸ hday.interactions)
        (hbt ▸ hday.bluetooth)
      have := hday.spread first hf last hl
      rw [hspread first hf last hl]
      simp only [rangeProofBits]
      omega
    obtain ⟨proof, hgen, -, -, hver⟩ := exists_generatePolProof hbp coins hmeets hrange epochDay
    exact ⟨proof, by rw [hgen]; rfl, hver _⟩

/-- **A day counts and is proved** exactly when it meets the requirements, if at all, without
Bluetooth, and no Bluetooth is asked for. -/
theorem day_counts_and_proved_iff (hbp : PolRangeComplete bp) (hm : m.currentDayData = {})
    (hday : WithinCounters day) (coins : PolCoins P) (today : NaiveDate) (epochDay : UInt32) :
    let result := (m.recordAll day).finalizeDay bp coins today epochDay
    ((MeetsRequirements m.config day → result.1 = true) ∧
      (result.1 = true → ∃ proof, result.2.lastZkProof = some proof ∧
        verifyPolProof bp proof m.config.thresholds epochDay = .ok true)) ↔
    (MeetsRequirements m.config day →
      .btEnvironmentChange ∉ day ∧ m.config.minDistinctBtEnvironments = 0) := by
  have hdata := currentDayData_recordAll hm day
  have hconfig := m.config_recordAll day
  intro result
  have hcounts : result.1 = true ↔
      MeetsRequirements m.config day ∧ .btEnvironmentChange ∉ day := by
    rw [show result.1 = _ from finalizeDay_fst .., hdata, hconfig]
    exact isValid_summary hday
  have hproved : ∀ hc : result.1 = true, (∃ proof, result.2.lastZkProof = some proof ∧
      verifyPolProof bp proof m.config.thresholds epochDay = .ok true) ↔
        m.config.minDistinctBtEnvironments = 0 := by
    intro hc
    obtain ⟨hreq, hnone⟩ := hcounts.mp hc
    have hlast := (m.recordAll day).finalizeDay_lastZkProof bp coins today epochDay
      ((finalizeDay_fst ..).symm.trans hc)
    rw [show result.2.lastZkProof = _ from hlast, ← hconfig]
    exact proved_iff hbp hday hdata (hconfig ▸ hreq) hnone coins epochDay
  constructor
  · rintro ⟨hfirst, hsecond⟩ hreq
    exact ⟨(hcounts.mp (hfirst hreq)).2, (hproved (hfirst hreq)).mp (hsecond (hfirst hreq))⟩
  · intro h
    refine ⟨fun hreq => hcounts.mpr ⟨hreq, (h hreq).1⟩, fun hc => (hproved hc).mpr ?_⟩
    exact (h (hcounts.mp hc).1).2

/-! ### An ordinary day -/

def wifiDay : List PolEvent :=
  List.replicate 9 (.unlock ⟨0, 0⟩) ++ .unlock ⟨21600, 0⟩ ::
    (List.replicate 3 .interactionSession ++
      [.orientationChange, .humanMotion, .gpsFix, .wifiNetwork, .chargeEvent])

def bluetoothDay : List PolEvent := wifiDay ++ List.replicate 2 .btEnvironmentChange

theorem withinCounters_wifiDay : WithinCounters wifiDay where
  unlocks := by decide
  interactions := by decide
  wifi := by decide
  bluetooth := by decide
  spread := by
    rintro first hf last hl
    cases hf
    cases hl
    decide

theorem meetsRequirements_wifiDay {minBt : UInt32} :
    MeetsRequirements { minDistinctBtEnvironments := minBt } wifiDay where
  unlocks := (by decide : 10 ≤ (unlockTimes wifiDay).length)
  spread := ⟨_, rfl, _, rfl, (by decide : (6 : ℤ) ≤ DateTime.hoursSince ⟨21600, 0⟩ ⟨0, 0⟩)⟩
  interactions := (by decide : 3 ≤ wifiDay.count .interactionSession)
  orientation := by decide
  motion := by decide
  gps := by decide
  network := by decide
  bluetooth := .inl (by decide)
  charge := by decide

theorem meetsRequirements_bluetoothDay : MeetsRequirements {} bluetoothDay where
  unlocks := by decide
  spread := ⟨_, rfl, _, rfl, by decide⟩
  interactions := by decide
  orientation := by decide
  motion := by decide
  gps := by decide
  network := by decide
  bluetooth := .inr (by decide)
  charge := by decide

open Reference in
/-- Where no Bluetooth is asked for, the day without it counts and is proved. -/
theorem day_counts_and_proved_wifiDay :
    let result := ((new { minDistinctBtEnvironments := 0 }).recordAll wifiDay).finalizeDay
      rangeProofs polCoins 0 7
    result.1 = true ∧ ∃ proof, result.2.lastZkProof = some proof ∧
      verifyPolProof rangeProofs proof { minBtEnvs := 0 } 7 = .ok true := by
  have h := (day_counts_and_proved_iff (m := new { minDistinctBtEnvironments := 0 })
    rangeProofs_complete rfl withinCounters_wifiDay polCoins 0 7).mpr fun _ => ⟨by decide, rfl⟩
  exact ⟨h.1 meetsRequirements_wifiDay, h.2 (h.1 meetsRequirements_wifiDay)⟩

open Reference in
/-- Under the default configuration the day without Bluetooth counts and is not proved, and the day
with it, which meets every requirement, does not count. -/
theorem day_unproved_or_lost :
    (MeetsRequirements {} wifiDay ∧
      (((new {}).recordAll wifiDay).finalizeDay rangeProofs polCoins 0 7).1 = true ∧
      (((new {}).recordAll wifiDay).finalizeDay rangeProofs polCoins 0 7).2.lastZkProof = none) ∧
    MeetsRequirements {} bluetoothDay ∧
      (((new {}).recordAll bluetoothDay).finalizeDay rangeProofs polCoins 0 7).1 = false :=
  ⟨⟨meetsRequirements_wifiDay, by decide +kernel, by decide +kernel⟩,
    meetsRequirements_bluetoothDay, by decide +kernel⟩

end ProofOfLifeManager

end Gratia
