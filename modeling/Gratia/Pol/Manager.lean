import Gratia.Zk.ProofOfLife

/-!
# Proof of Life — Manager

`gratia-pol/src/lib.rs`: `ProofOfLifeManager`, which counts what the sensors report during a day and
decides at the end of it whether the day was valid; and `DailyProofOfLifeData::is_valid` of
`gratia-core/src/types.rs`, which holds the counts against the configuration.
-/

namespace Gratia

open Support (Bytes)

/-! ### The day's data -/

/-- `(self - earlier).num_hours()` of two times read from the clock, which are never in a leap
second: whole hours, towards zero. -/
def DateTime.hoursSince (t earlier : DateTime) : ℤ :=
  ((t.toNanos - earlier.toNanos).tdiv 1_000_000_000).tdiv 3600

/-- `DailyProofOfLifeData`, without the location and the optional sensors, which nothing here
reads. -/
structure DailyProofOfLifeData where
  unlockCount : UInt32 := 0
  firstUnlock : Option DateTime := none
  lastUnlock : Option DateTime := none
  interactionSessions : UInt32 := 0
  orientationChanged : Bool := false
  humanMotionDetected : Bool := false
  gpsFixObtained : Bool := false
  distinctWifiNetworks : UInt32 := 0
  distinctBtEnvironments : UInt32 := 0
  btEnvironmentChangeCount : UInt32 := 0
  chargeCycleEvent : Bool := false
deriving DecidableEq

/-- `ProofOfLifeConfig`, with its defaults. -/
structure ProofOfLifeConfig where
  minDailyUnlocks : UInt32 := 10
  minUnlockSpreadHours : UInt32 := 6
  minInteractionSessions : UInt32 := 3
  minDistinctBtEnvironments : UInt32 := 2
  gracePeriodDays : UInt32 := 1
deriving DecidableEq

namespace DailyProofOfLifeData

def spreadHours (data : DailyProofOfLifeData) : Option ℤ :=
  match data.firstUnlock, data.lastUnlock with
  | some first, some last => some (last.hoursSince first)
  | _, _ => none

def isValid (data : DailyProofOfLifeData) (config : ProofOfLifeConfig) : Bool :=
  let unlockSpread :=
    data.spreadHours.any fun hours => (config.minUnlockSpreadHours.toNat : ℤ) ≤ hours
  let interactionsOk := data.interactionSessions ≥ config.minInteractionSessions
  let networkOk := data.distinctWifiNetworks ≥ 1 ∨ data.distinctBtEnvironments ≥ 1
  let btVariationOk := data.distinctBtEnvironments = 0 ∨
    data.distinctBtEnvironments ≥ config.minDistinctBtEnvironments ∧
      data.btEnvironmentChangeCount ≥ 1
  data.unlockCount ≥ config.minDailyUnlocks && unlockSpread && interactionsOk &&
    data.orientationChanged && data.humanMotionDetected && data.gpsFixObtained && networkOk &&
    btVariationOk && data.chargeCycleEvent

end DailyProofOfLifeData

def ProofOfLifeConfig.thresholds (config : ProofOfLifeConfig) : PolThresholds :=
  { minUnlocks := config.minDailyUnlocks.toUInt64
    minSpread := config.minUnlockSpreadHours.toUInt64
    minInteractions := config.minInteractionSessions.toUInt64
    minBtEnvs := config.minDistinctBtEnvironments.toUInt64 }

/-! ### The manager -/

/-- `chrono::NaiveDate`, as its day number. -/
abbrev NaiveDate := Int32

/-- `ProofOfLifeManager`, without the warm-start window, which nothing here reads. -/
structure ProofOfLifeManager where
  config : ProofOfLifeConfig
  currentDayData : DailyProofOfLifeData := {}
  validDays : List NaiveDate := []
  consecutiveValidDays : UInt64 := 0
  consecutiveMissedDays : UInt32 := 0
  onboardingComplete : Bool := false
  miningEligible : Bool := false
  lastZkProof : Option PolRangeProof := none

namespace ProofOfLifeManager

def new (config : ProofOfLifeConfig) : ProofOfLifeManager := { config := config }

variable (m : ProofOfLifeManager)

def recordUnlock (now : DateTime) : ProofOfLifeManager :=
  { m with currentDayData :=
    { m.currentDayData with
        unlockCount := m.currentDayData.unlockCount + 1
        firstUnlock := m.currentDayData.firstUnlock <|> some now
        lastUnlock := some now } }

def recordInteractionSession : ProofOfLifeManager :=
  { m with currentDayData :=
    { m.currentDayData with interactionSessions := m.currentDayData.interactionSessions + 1 } }

def recordOrientationChange : ProofOfLifeManager :=
  { m with currentDayData := { m.currentDayData with orientationChanged := true } }

def recordHumanMotion : ProofOfLifeManager :=
  { m with currentDayData := { m.currentDayData with humanMotionDetected := true } }

/-- `record_gps_fix`, but for the place. -/
def recordGpsFix : ProofOfLifeManager :=
  { m with currentDayData := { m.currentDayData with gpsFixObtained := true } }

def recordWifiNetwork : ProofOfLifeManager :=
  { m with currentDayData :=
    { m.currentDayData with distinctWifiNetworks := m.currentDayData.distinctWifiNetworks + 1 } }

/-- `record_bt_environment_change`.  It counts an environment; `bt_environment_change_count` is
written nowhere. -/
def recordBtEnvironmentChange : ProofOfLifeManager :=
  { m with currentDayData :=
    { m.currentDayData with
        distinctBtEnvironments := m.currentDayData.distinctBtEnvironments + 1 } }

def recordChargeEvent : ProofOfLifeManager :=
  { m with currentDayData := { m.currentDayData with chargeCycleEvent := true } }

def proofInput : PolProofInput :=
  { unlockCount := m.currentDayData.unlockCount.toUInt64
    unlockSpreadHours := UInt64.ofNat (m.currentDayData.spreadHours.elim 0 Int.toNat)
    interactionSessions := m.currentDayData.interactionSessions.toUInt64
    btEnvironments := m.currentDayData.distinctBtEnvironments.toUInt64 }

variable {P : Platform} (bp : Bulletproofs P)

def finalizeDay (coins : PolCoins P) (today : NaiveDate) (epochDay : UInt32) :
    Bool × ProofOfLifeManager :=
  if m.currentDayData.isValid m.config then
    (true,
      { m with
        -- A proof that cannot be made does not cost the day.
        lastZkProof :=
          (generatePolProof bp coins m.proofInput m.config.thresholds epochDay).toOption
        validDays := (m.validDays ++ [today]).drop (m.validDays.length + 1 - 365)
        consecutiveValidDays := m.consecutiveValidDays + 1
        consecutiveMissedDays := 0
        onboardingComplete := true
        miningEligible := true
        currentDayData := {} })
  else
    let missed := m.consecutiveMissedDays + 1
    let paused := missed ≥ m.config.gracePeriodDays + 1
    (false,
      { m with
        lastZkProof := none
        consecutiveMissedDays := missed
        miningEligible := if paused then false else m.miningEligible
        consecutiveValidDays := if paused then 0 else m.consecutiveValidDays
        currentDayData := {} })

theorem finalizeDay_fst (coins : PolCoins P) (today : NaiveDate) (epochDay : UInt32) :
    (m.finalizeDay bp coins today epochDay).1 = m.currentDayData.isValid m.config := by
  unfold finalizeDay
  split
  · next h => exact h.symm
  · next h => exact (Bool.eq_false_of_not_eq_true h).symm

theorem finalizeDay_lastZkProof (coins : PolCoins P) (today : NaiveDate) (epochDay : UInt32)
    (h : m.currentDayData.isValid m.config = true) :
    (m.finalizeDay bp coins today epochDay).2.lastZkProof =
      (generatePolProof bp coins m.proofInput m.config.thresholds epochDay).toOption := by
  rw [finalizeDay, if_pos h]

end ProofOfLifeManager

/-! ### Events -/

/-- What the sensors report, one constructor for each `record_*` method. -/
inductive PolEvent where
  | unlock (now : DateTime)
  | interactionSession
  | orientationChange
  | humanMotion
  | gpsFix
  | wifiNetwork
  | btEnvironmentChange
  | chargeEvent
deriving DecidableEq

namespace ProofOfLifeManager

def record (m : ProofOfLifeManager) : PolEvent → ProofOfLifeManager
  | .unlock now => m.recordUnlock now
  | .interactionSession => m.recordInteractionSession
  | .orientationChange => m.recordOrientationChange
  | .humanMotion => m.recordHumanMotion
  | .gpsFix => m.recordGpsFix
  | .wifiNetwork => m.recordWifiNetwork
  | .btEnvironmentChange => m.recordBtEnvironmentChange
  | .chargeEvent => m.recordChargeEvent

def recordAll (m : ProofOfLifeManager) (day : List PolEvent) : ProofOfLifeManager :=
  day.foldl record m

end ProofOfLifeManager

/-! ### The summary of a day -/

def PolEvent.unlockTime : PolEvent → Option DateTime
  | .unlock now => some now
  | _ => none

def unlockTimes (day : List PolEvent) : List DateTime := day.filterMap PolEvent.unlockTime

@[simp] theorem unlockTimes_snoc (day : List PolEvent) (e : PolEvent) :
    unlockTimes (day ++ [e]) = unlockTimes day ++ e.unlockTime.toList := by
  cases h : e.unlockTime <;> simp [unlockTimes, h]

def summary (day : List PolEvent) : DailyProofOfLifeData :=
  { unlockCount := UInt32.ofNat (unlockTimes day).length
    firstUnlock := (unlockTimes day).head?
    lastUnlock := (unlockTimes day).getLast?
    interactionSessions := UInt32.ofNat (day.count .interactionSession)
    orientationChanged := day.contains .orientationChange
    humanMotionDetected := day.contains .humanMotion
    gpsFixObtained := day.contains .gpsFix
    distinctWifiNetworks := UInt32.ofNat (day.count .wifiNetwork)
    distinctBtEnvironments := UInt32.ofNat (day.count .btEnvironmentChange)
    btEnvironmentChangeCount := 0
    chargeCycleEvent := day.contains .chargeEvent }

namespace ProofOfLifeManager

/-- **A call adds its event to the summary.** -/
theorem currentDayData_record {m : ProofOfLifeManager} {day : List PolEvent}
    (h : m.currentDayData = summary day) (e : PolEvent) :
    (m.record e).currentDayData = summary (day ++ [e]) := by
  cases e with
  | unlock | interactionSession | orientationChange | humanMotion | gpsFix | wifiNetwork
  | btEnvironmentChange | chargeEvent =>
    simp only [record, recordUnlock, recordInteractionSession, recordOrientationChange,
      recordHumanMotion, recordGpsFix, recordWifiNetwork, recordBtEnvironmentChange,
      recordChargeEvent, h]
    simp [summary, PolEvent.unlockTime]

theorem config_record (m : ProofOfLifeManager) (e : PolEvent) : (m.record e).config = m.config := by
  cases e <;> rfl

/-- **What is counted by the end of a day is the summary of its events.** -/
theorem currentDayData_recordAll {m : ProofOfLifeManager} (h : m.currentDayData = {})
    (day : List PolEvent) : (m.recordAll day).currentDayData = summary day := by
  induction day using List.reverseRecOn with
  | nil => exact h
  | append_singleton day e ih =>
    simp only [recordAll, List.foldl_append, List.foldl_cons, List.foldl_nil] at ih ⊢
    exact currentDayData_record ih e

theorem config_recordAll (m : ProofOfLifeManager) (day : List PolEvent) :
    (m.recordAll day).config = m.config := by
  induction day generalizing m with
  | nil => rfl
  | cons e day ih => exact (ih (m.record e)).trans (m.config_record e)

end ProofOfLifeManager

end Gratia
