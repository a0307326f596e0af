import Gratia.Pol.Standing
import Gratia.Support.Words

/-!
# Proof of Life — Streak

The tiers of `gratia-pol/src/trust.rs` reward a streak of valid days, and a missed day resets it
there.  The streak that `finalize_day` counts is kept through the days of grace, and counts a date
as often as a valid day is finalized on it.
-/

namespace Gratia

open Support

/-! ### Trust -/

inductive TrustTier where
  | unverified | provisional | establishing | established | trusted
deriving DecidableEq

def TrustTier.fromConsecutiveDays (days : UInt64) : TrustTier :=
  if days ≥ 90 then .trusted
  else if days ≥ 30 then .established
  else if days ≥ 7 then .establishing
  else if days ≥ 1 then .provisional
  else .unverified

def TrustTier.isCommitteeEligible : TrustTier → Bool
  | established | trusted => true
  | _ => false

theorem TrustTier.isCommitteeEligible_iff (days : UInt64) :
    (fromConsecutiveDays days).isCommitteeEligible = true ↔ 30 ≤ days.toNat := by
  have h : ∀ n : UInt64, days ≥ n ↔ n.toNat ≤ days.toNat := fun n => UInt64.le_iff_toNat_le
  unfold fromConsecutiveDays
  simp only [h, UInt64.reduceToNat]
  split_ifs <;> simp [isCommitteeEligible] <;> omega

/-- `TrustState`, but for the slashing resets, which nothing here reads. -/
structure TrustState where
  tier : TrustTier := .unverified
  consecutivePolDays : UInt64 := 0
  totalPolDays : UInt64 := 0
  firstPolDate : Option DateTime := none
  lastPolDate : Option DateTime := none

namespace TrustState

def recordValidPol (t : TrustState) (date : DateTime) : TrustState :=
  { tier := .fromConsecutiveDays (t.consecutivePolDays + 1)
    consecutivePolDays := t.consecutivePolDays + 1
    totalPolDays := t.totalPolDays + 1
    firstPolDate := t.firstPolDate <|> some date
    lastPolDate := some date }

def recordMissedPol (t : TrustState) : TrustState :=
  { t with consecutivePolDays := 0, tier := .unverified }

end TrustState

/-! ### The dates of a streak -/

/-- A manager, with the dates of the valid days since the last invalid one, and the trust model fed
with the same days. -/
structure Streak where
  manager : ProofOfLifeManager
  dates : List NaiveDate := []
  trust : TrustState := {}

namespace Streak

variable {P : Platform} (bp : Bulletproofs P)

def next (s : Streak) : PolCall P → Streak
  | .record e => { s with manager := s.manager.record e }
  | .finalizeDay coins now epochDay =>
    let r := s.manager.finalizeDay bp coins now.dateNaive epochDay
    if r.1 then
      { manager := r.2, dates := s.dates ++ [now.dateNaive], trust := s.trust.recordValidPol now }
    else { manager := r.2, dates := [], trust := s.trust.recordMissedPol }

structure Earned (s : Streak) : Prop where
  dates : s.manager.consecutiveDays.toNat ≤ s.dates.toFinset.card
  trust : s.manager.consecutiveDays = s.trust.consecutivePolDays
  committee : (TrustTier.fromConsecutiveDays s.manager.consecutiveDays).isCommitteeEligible = true →
    30 ≤ s.dates.toFinset.card

/-- A valid day is on a date that is not in the streak, and an invalid one finds no streak or
exceeds the grace. -/
def Daily (s : Streak) : PolCall P → Prop
  | .record _ => True
  | .finalizeDay _ now _ =>
    if s.manager.currentDayData.isValid s.manager.config then now.dateNaive ∉ s.dates
    else s.manager.consecutiveDays = 0 ∨
      s.manager.missedDays + 1 ≥ s.manager.config.gracePeriodDays + 1

/-- As many days as dates, all of them different. -/
structure Counted (s : Streak) : Prop where
  nodup : s.dates.Nodup
  length : s.manager.consecutiveDays.toNat = s.dates.length
  trust : s.manager.consecutiveDays = s.trust.consecutivePolDays

theorem length_dates_le {dates : List NaiveDate} (h : dates.Nodup) : dates.length ≤ 2 ^ 32 := by
  have hfin := (h.map (f := fun d : NaiveDate => d.toBitVec.toFin) fun a b hab =>
    Int32.toBitVec_inj.mp (BitVec.toFin_inj.mp hab)).length_le_card
  simpa using hfin

variable {s : Streak}

theorem Counted.earned (h : s.Counted) : s.Earned := by
  have hcard : s.dates.toFinset.card = s.dates.length := List.toFinset_card_of_nodup h.nodup
  refine ⟨by rw [hcard, h.length], h.trust, fun hcommittee => ?_⟩
  rw [hcard, ← h.length]
  exact (TrustTier.isCommitteeEligible_iff _).mp hcommittee

theorem consecutiveDays_finalizeDay (m : ProofOfLifeManager) (coins : PolCoins P)
    (today : NaiveDate) (epochDay : UInt32) :
    (m.finalizeDay bp coins today epochDay).2.consecutiveDays =
      if m.currentDayData.isValid m.config then m.consecutiveDays + 1
      else if m.missedDays + 1 ≥ m.config.gracePeriodDays + 1 then 0 else m.consecutiveDays := by
  have h := congrArg PolCounters.consecutive (m.counters_finalizeDay bp coins today epochDay)
  rw [m.finalizeDay_fst] at h
  rw [show (m.finalizeDay bp coins today epochDay).2.consecutiveDays = _ from h]
  unfold PolCounters.endDay
  split <;> rfl

section Day

variable (coins : PolCoins P) (now : DateTime) (epochDay : UInt32)

theorem next_of_valid (hvalid : s.manager.currentDayData.isValid s.manager.config = true) :
    (s.next bp (.finalizeDay coins now epochDay)).manager.consecutiveDays =
        s.manager.consecutiveDays + 1 ∧
      (s.next bp (.finalizeDay coins now epochDay)).dates = s.dates ++ [now.dateNaive] ∧
      (s.next bp (.finalizeDay coins now epochDay)).trust.consecutivePolDays =
        s.trust.consecutivePolDays + 1 := by
  have hstreak := consecutiveDays_finalizeDay bp s.manager coins now.dateNaive epochDay
  rw [if_pos hvalid] at hstreak
  simp only [next, s.manager.finalizeDay_fst, hvalid, if_true]
  exact ⟨hstreak, trivial, rfl⟩

theorem next_of_invalid (hinvalid : s.manager.currentDayData.isValid s.manager.config = false) :
    (s.next bp (.finalizeDay coins now epochDay)).manager.consecutiveDays =
        (if s.manager.missedDays + 1 ≥ s.manager.config.gracePeriodDays + 1 then 0
          else s.manager.consecutiveDays) ∧
      (s.next bp (.finalizeDay coins now epochDay)).dates = [] ∧
      (s.next bp (.finalizeDay coins now epochDay)).trust.consecutivePolDays = 0 := by
  have hstreak := consecutiveDays_finalizeDay bp s.manager coins now.dateNaive epochDay
  rw [if_neg (by simp [hinvalid])] at hstreak
  simp only [next, s.manager.finalizeDay_fst, hinvalid, Bool.false_eq_true, if_false]
  exact ⟨hstreak, trivial, rfl⟩

end Day

theorem Counted.toNat_succ (h : s.Counted) :
    (s.manager.consecutiveDays + 1).toNat = s.dates.length + 1 := by
  have hle := length_dates_le h.nodup
  have hfits : s.manager.consecutiveDays.toNat + (1 : UInt64).toNat < 2 ^ 64 := by
    rw [h.length, UInt64.toNat_one]
    omega
  rw [toNat_add_of_lt hfits, h.length, UInt64.toNat_one]

theorem Counted.next (h : s.Counted) {c : PolCall P} (hdaily : s.Daily c) :
    (s.next bp c).Counted := by
  cases c with
  | record e =>
    have hsame : (s.manager.record e).consecutiveDays = s.manager.consecutiveDays :=
      congrArg PolCounters.consecutive (s.manager.counters_record e)
    exact ⟨h.nodup, (congrArg UInt64.toNat hsame).trans h.length, hsame.trans h.trust⟩
  | finalizeDay coins now epochDay =>
    cases hvalid : s.manager.currentDayData.isValid s.manager.config with
    | true =>
      rw [Daily, if_pos hvalid] at hdaily
      obtain ⟨hstreak, hdates, htrust⟩ := next_of_valid bp coins now epochDay hvalid
      refine ⟨?_, ?_, by rw [hstreak, htrust, h.trust]⟩
      · rw [hdates, ← List.concat_eq_append]
        exact h.nodup.concat hdaily
      · rw [hstreak, hdates, h.toNat_succ, List.length_append, List.length_singleton]
    | false =>
      rw [Daily, if_neg (by simp [hvalid])] at hdaily
      obtain ⟨hstreak, hdates, htrust⟩ := next_of_invalid bp coins now epochDay hvalid
      have hzero :
          (s.next bp (.finalizeDay coins now epochDay)).manager.consecutiveDays = 0 := by
        rw [hstreak]
        split
        · rfl
        · next hgrace => exact hdaily.resolve_right hgrace
      exact ⟨by rw [hdates]; exact List.nodup_nil, by rw [hzero, hdates]; rfl,
        by rw [hzero, htrust]⟩

/-- A call leaves an earned streak only if it is `Daily`. -/
theorem Counted.daily_of_earned (h : s.Counted) {c : PolCall P} (hearned : (s.next bp c).Earned) :
    s.Daily c := by
  cases c with
  | record e => trivial
  | finalizeDay coins now epochDay =>
    have hdates' := hearned.dates
    cases hvalid : s.manager.currentDayData.isValid s.manager.config with
    | true =>
      obtain ⟨hstreak, hdates, -⟩ := next_of_valid bp coins now epochDay hvalid
      rw [hstreak, hdates, h.toNat_succ] at hdates'
      rw [Daily, if_pos hvalid]
      intro hmem
      -- the date adds nothing, and the count has gone up
      have hsame : (s.dates ++ [now.dateNaive]).toFinset = s.dates.toFinset := by
        simpa using hmem
      rw [hsame, List.toFinset_card_of_nodup h.nodup] at hdates'
      omega
    | false =>
      obtain ⟨hstreak, hdates, -⟩ := next_of_invalid bp coins now epochDay hvalid
      rw [hstreak, hdates] at hdates'
      rw [Daily, if_neg (by simp [hvalid])]
      by_cases hgrace : s.manager.missedDays + 1 ≥ s.manager.config.gracePeriodDays + 1
      · exact .inr hgrace
      · rw [if_neg hgrace] at hdates'
        exact .inl (UInt64.toNat_inj.mp (Nat.le_zero.mp hdates'))

/-- **The streak is earned day by day**, after every call of a run, exactly if every call is
`Daily`. -/
theorem streak_earned_iff (config : ProofOfLifeConfig) (calls : List (PolCall P)) :
    AllSteps (fun s c => ((), next bp s c)) (fun s c => (next bp s c).Earned)
        { manager := .new config } calls ↔
      AllSteps (fun s c => ((), next bp s c)) Daily { manager := .new config } calls :=
  allSteps_congr Counted (fun _ _ hdaily h => h.next bp hdaily)
    (fun _ _ h => ⟨h.daily_of_earned bp, fun hdaily => (h.next bp hdaily).earned⟩) calls _
    ⟨List.nodup_nil, rfl, rfl⟩

end Streak

namespace Reference

def validDay (now : DateTime) : List (PolCall reference) :=
  ProofOfLifeManager.wifiDay.map .record ++ [.finalizeDay polCoins now 0]

def streakAfter (calls : List (PolCall reference)) : Streak :=
  run (fun s c => ((), Streak.next rangeProofs s c)) { manager := .new {} } calls

end Reference

open Reference in
/-- A day missed within the grace leaves a streak that no date since then has earned, and thirty
valid days finalized on one date are worth the committee. -/
theorem streak_not_earned :
    (streakAfter (validDay ⟨0, 0⟩ ++ [.finalizeDay polCoins ⟨86400, 0⟩ 1])).dates = [] ∧
    (streakAfter (validDay ⟨0, 0⟩ ++
      [.finalizeDay polCoins ⟨86400, 0⟩ 1])).manager.consecutiveDays = 1 ∧
    (streakAfter (List.replicate 30 (validDay ⟨0, 0⟩)).flatten).dates.toFinset.card = 1 ∧
    (TrustTier.fromConsecutiveDays (streakAfter
      (List.replicate 30 (validDay ⟨0, 0⟩)).flatten).manager.consecutiveDays).isCommitteeEligible =
      true := by
  decide +kernel

end Gratia
