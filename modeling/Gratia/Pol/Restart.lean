import Gratia.Pol.Standing
import Gratia.Support.Words

/-!
# Proof of Life — Restart

`save_state` writes the streak, the number of valid days and whether the first of them has been;
`load_state` makes a manager of these again.  The days missed are not written, and a node that is
past its first day may mine after it is loaded, whether or not it might before.
-/

namespace Gratia

open Support

/-! ### The saved state -/

/-- The day number of `NaiveDate::MIN`. -/
def NaiveDate.min : ℤ := -96465292

/-- `checked_sub_signed(Duration::days(days))`. -/
def NaiveDate.checkedSubDays (date : NaiveDate) (days : ℕ) : Option NaiveDate :=
  if NaiveDate.min ≤ date.toInt - days then some (Int32.ofInt (date.toInt - days)) else none

/-- A time read from the clock with `Utc::now`, which panics before the epoch. -/
structure ClockTime where
  time : DateTime
  fromEpoch : 0 ≤ time.secs.toInt
  inRange : time.secs.toInt ≤ DateTime.maxSecs

def fromLeBytes (bs : Bytes) : UInt64 := UInt64.ofNat (ofLeBytes bs)

@[simp] theorem fromLeBytes_toLeBytes (n : UInt64) : fromLeBytes (toLeBytes n) = n := by
  simp [fromLeBytes, toLeBytes, ofLeBytes_leBytes]

namespace ProofOfLifeManager

def saveState (m : ProofOfLifeManager) : Bytes :=
  toLeBytes m.consecutiveValidDays ++ toLeBytes (UInt64.ofNat m.validDays.length) ++
    [if m.onboardingComplete then 1 else 0]

def loadState (m : ProofOfLifeManager) (data : Bytes) (now : ClockTime) : ProofOfLifeManager :=
  if data.length ≠ 17 then m
  else
    let totalDays := fromLeBytes ((data.drop 8).take 8)
    let onboarded := data.getD 16 0 ≠ 0
    { m with
      consecutiveValidDays := fromLeBytes (data.take 8)
      onboardingComplete := onboarded
      miningEligible := onboarded
      validDays := (List.range (min totalDays 365).toNat).filterMap
        (NaiveDate.checkedSubDays now.time.dateNaive) }

theorem toInt_dateNaive (now : ClockTime) :
    now.time.dateNaive.toInt = now.time.secs.toInt / 86400 := by
  have h₀ := now.fromEpoch
  have h₁ := now.inRange
  unfold DateTime.maxSecs at h₁
  exact Int32.toInt_ofInt_of_le (by omega) (by omega)

theorem length_placeholders (now : ClockTime) {n : ℕ} (hn : n ≤ 365) :
    ((List.range n).filterMap (NaiveDate.checkedSubDays now.time.dateNaive)).length = n := by
  have hdates : ∀ i ∈ List.range n, NaiveDate.checkedSubDays now.time.dateNaive i =
      (some ∘ fun i : ℕ => Int32.ofInt (now.time.dateNaive.toInt - i)) i := by
    intro i hi
    have hi := List.mem_range.mp hi
    have h₀ := now.fromEpoch
    refine if_pos ?_
    rw [toInt_dateNaive]
    unfold NaiveDate.min
    omega
  rw [List.filterMap_congr hdates, List.filterMap_eq_map, List.length_map, List.length_range]

theorem saveState_parts (m : ProofOfLifeManager) : m.saveState.length = 17 ∧
    m.saveState.take 8 = toLeBytes m.consecutiveValidDays ∧
    (m.saveState.drop 8).take 8 = toLeBytes (UInt64.ofNat m.validDays.length) ∧
    m.saveState.getD 16 0 = if m.onboardingComplete then 1 else 0 := by
  have hlen : ∀ n, (toLeBytes n).length = 8 := by simp [toLeBytes]
  unfold saveState
  refine ⟨by simp [hlen], ?_, ?_, ?_⟩
  · rw [List.append_assoc, List.take_left' (hlen _)]
  · rw [List.append_assoc, List.drop_left' (hlen _), List.take_left' (hlen _)]
  · rw [List.getD_eq_getElem?_getD, List.getElem?_append_right (by simp [hlen])]
    simp [hlen]

theorem counters_loadState (m r : ProofOfLifeManager) (now : ClockTime)
    (hdays : m.validDays.length ≤ 365) :
    (r.loadState m.saveState now).counters =
      { m.counters with missed := r.consecutiveMissedDays, eligible := m.onboardingComplete } := by
  obtain ⟨hlen, hstreak, htotal, honboarded⟩ := m.saveState_parts
  have hflag : decide (m.saveState.getD 16 0 ≠ 0) = m.onboardingComplete := by
    rw [honboarded]
    cases m.onboardingComplete <;> rfl
  have hcount : (min (UInt64.ofNat m.validDays.length) 365).toNat = m.validDays.length := by
    rw [toNat_min, UInt64.toNat_ofNat_of_lt' (by simp [UInt64.size]; omega)]
    simp only [UInt64.reduceToNat]
    omega
  unfold loadState
  rw [if_neg (not_not.mpr hlen)]
  simp only [counters, hstreak, htotal, fromLeBytes_toLeBytes, hflag, hcount,
    length_placeholders now hdays]

end ProofOfLifeManager

/-! ### The standing after a restart -/

/-- A node that may mine is past its first day, and at most a year of days is kept. -/
def PolCounters.Sane (c : PolCounters) : Prop :=
  (c.eligible = true → c.onboarded = true) ∧ c.days ≤ 365

theorem PolCounters.Sane.endDay {c : PolCounters} (h : c.Sane) (gracePeriodDays : UInt32)
    (valid : Bool) : (c.endDay gracePeriodDays valid).Sane := by
  obtain ⟨heligible, hdays⟩ := h
  unfold PolCounters.endDay
  split
  · exact ⟨fun _ => rfl, Nat.min_le_right _ _⟩
  · refine ⟨?_, hdays⟩
    dsimp only
    split
    · exact fun h => absurd h (by decide)
    · exact heligible

namespace ProofOfLifeManager

variable {P : Platform} (bp : Bulletproofs P)

theorem sane_after (config : ProofOfLifeConfig) (calls : List (PolCall P)) :
    ((new config).after bp calls).counters.Sane := by
  rw [counters_after]
  refine List.foldlRecOn _ _ (motive := PolCounters.Sane) ⟨id, Nat.zero_le _⟩ ?_
  exact fun c hc valid _ => hc.endDay _ valid

def restarted (m : ProofOfLifeManager) (config : ProofOfLifeConfig) (now : ClockTime) :
    ProofOfLifeManager :=
  (new config).loadState m.saveState now

/-- The two managers have the same standing, and so it is after all later calls to the two that
finalize days of the same outcomes. -/
def SameStanding (m r : ProofOfLifeManager) : Prop :=
  ∀ later later' : List (PolCall P), m.outcomes bp later = r.outcomes bp later' →
    (m.after bp later).standing = (r.after bp later').standing

theorem sameStanding_of_counters {m r : ProofOfLifeManager} (hconfig : r.config = m.config)
    (hcounters : r.counters = m.counters) : SameStanding bp m r := by
  intro later later' hsame
  rw [standing_eq, standing_eq, counters_after, counters_after, hsame, hconfig, hcounters]

theorem config_loadState (m : ProofOfLifeManager) (data : Bytes) (now : ClockTime) :
    (m.loadState data now).config = m.config := by
  unfold loadState
  split <;> rfl

/-- **A restart keeps the standing**, at any time, exactly if no day is being missed and a node past
its first day may mine. -/
theorem restart_keeps_standing_iff (config : ProofOfLifeConfig) (calls : List (PolCall P))
    (now : ClockTime) :
    SameStanding bp ((new config).after bp calls)
        (((new config).after bp calls).restarted config now) ↔
      ((new config).after bp calls).missedDays = 0 ∧
        (((new config).after bp calls).isOnboarded = true →
          ((new config).after bp calls).isMiningEligible = true) := by
  have hconfig := config_after bp (new config) calls
  obtain ⟨heligible, hdays⟩ := sane_after bp config calls
  generalize (new config).after bp calls = m at hconfig heligible hdays ⊢
  have hcounters : (m.restarted config now).counters =
      { m.counters with missed := 0, eligible := m.onboardingComplete } :=
    counters_loadState m (new config) now hdays
  constructor
  · intro hsame
    have hnow : m.standing = (m.restarted config now).standing := hsame [] [] rfl
    rw [standing_eq, standing_eq, hcounters] at hnow
    obtain ⟨hmine, -, -, -, hmissed⟩ := Standing.mk.inj hnow
    refine ⟨hmissed, fun honboarded => ?_⟩
    calc m.isMiningEligible = (m.onboardingComplete && m.onboardingComplete) := hmine
      _ = true := by rw [Bool.and_self]; exact honboarded
  · rintro ⟨hmissed, hmine⟩
    refine sameStanding_of_counters bp ((config_loadState _ _ _).trans hconfig.symm) ?_
    rw [hcounters]
    refine PolCounters.ext rfl hmissed.symm rfl ?_ rfl
    -- a node past its first day may mine, and one on it may not
    show m.onboardingComplete = m.miningEligible
    cases honboarded : m.onboardingComplete with
    | true =>
      have := hmine honboarded
      rw [isMiningEligible, honboarded, Bool.true_and] at this
      exact this.symm
    | false =>
      cases hm : m.miningEligible with
      | true => exact absurd (heligible hm) (by simp [counters, honboarded])
      | false => rfl

end ProofOfLifeManager

namespace Reference

def missedDaysCalls : List (PolCall reference) :=
  ProofOfLifeManager.wifiDay.map .record ++
    [.finalizeDay polCoins ⟨86399, 0⟩ 0, .finalizeDay polCoins ⟨172799, 0⟩ 1,
      .finalizeDay polCoins ⟨259199, 0⟩ 2]

end Reference

open Reference ProofOfLifeManager in
/-- A node that has lost its eligibility by missing two days has it again after a restart. -/
theorem restart_regains_eligibility :
    ((new {}).after rangeProofs missedDaysCalls).standing = ⟨false, true, 0, 1, 2⟩ ∧
    (((new {}).after rangeProofs missedDaysCalls).restarted {}
      ⟨⟨259200, 0⟩, by decide, by decide⟩).standing = ⟨true, true, 0, 1, 0⟩ := by
  decide +kernel

end Gratia
