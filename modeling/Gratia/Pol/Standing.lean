import Gratia.Pol.Days

/-!
# Proof of Life — Standing

What other parts of a node ask a `ProofOfLifeManager` about: whether it may mine, whether it is past
its first day, and its counts of days.  Of the manager these need a few counters only, and of a day
only whether it was valid.
-/

namespace Gratia

open Support

/-! ### Calls -/

/-- `date_naive` of a `DateTime<Utc>`. -/
def DateTime.dateNaive (t : DateTime) : NaiveDate := Int32.ofInt (t.secs.toInt / 86400)

/-- The calls that change a `ProofOfLifeManager`.  A day is finalized at the time `now` of the
clock. -/
inductive PolCall (P : Platform) where
  | record (e : PolEvent)
  | finalizeDay (coins : PolCoins P) (now : DateTime) (epochDay : UInt32)

structure Standing where
  isMiningEligible : Bool
  isOnboarded : Bool
  consecutiveDays : UInt64
  participationDays : UInt64
  missedDays : UInt32
deriving DecidableEq

namespace ProofOfLifeManager

variable (m : ProofOfLifeManager)

def isMiningEligible : Bool := m.onboardingComplete && m.miningEligible

def isOnboarded : Bool := m.onboardingComplete

def participationDays : UInt64 := UInt64.ofNat m.validDays.length

def consecutiveDays : UInt64 := m.consecutiveValidDays

def missedDays : UInt32 := m.consecutiveMissedDays

def standing : Standing :=
  ⟨m.isMiningEligible, m.isOnboarded, m.consecutiveDays, m.participationDays, m.missedDays⟩

variable {P : Platform} (bp : Bulletproofs P)

def perform : PolCall P → Option Bool × ProofOfLifeManager
  | .record e => (none, m.record e)
  | .finalizeDay coins now epochDay =>
    let r := m.finalizeDay bp coins now.dateNaive epochDay
    (some r.1, r.2)

def after (calls : List (PolCall P)) : ProofOfLifeManager :=
  run (fun m c => m.perform bp c) m calls

def outcomes (calls : List (PolCall P)) : List Bool :=
  (trace (fun m c => m.perform bp c) (fun _ => ()) m calls).filterMap Prod.fst

end ProofOfLifeManager

/-! ### The counters -/

@[ext] structure PolCounters where
  consecutive : UInt64
  missed : UInt32
  onboarded : Bool
  eligible : Bool
  days : ℕ
deriving DecidableEq

def PolCounters.endDay (gracePeriodDays : UInt32) (c : PolCounters) (valid : Bool) : PolCounters :=
  if valid then
    { consecutive := c.consecutive + 1, missed := 0, onboarded := true, eligible := true
      days := min (c.days + 1) 365 }
  else
    let paused := c.missed + 1 ≥ gracePeriodDays + 1
    { c with
      missed := c.missed + 1
      eligible := if paused then false else c.eligible
      consecutive := if paused then 0 else c.consecutive }

def PolCounters.standing (c : PolCounters) : Standing :=
  ⟨c.onboarded && c.eligible, c.onboarded, c.consecutive, UInt64.ofNat c.days, c.missed⟩

namespace ProofOfLifeManager

variable {P : Platform} (bp : Bulletproofs P) (m : ProofOfLifeManager)

def counters : PolCounters :=
  ⟨m.consecutiveValidDays, m.consecutiveMissedDays, m.onboardingComplete, m.miningEligible,
    m.validDays.length⟩

theorem standing_eq : m.standing = m.counters.standing := rfl

theorem counters_record (e : PolEvent) : (m.record e).counters = m.counters := by
  cases e <;> rfl

theorem config_finalizeDay (coins : PolCoins P) (today : NaiveDate) (epochDay : UInt32) :
    (m.finalizeDay bp coins today epochDay).2.config = m.config := by
  unfold finalizeDay
  split <;> rfl

/-- **A finalized day acts on the counters by its outcome alone.** -/
theorem counters_finalizeDay (coins : PolCoins P) (today : NaiveDate) (epochDay : UInt32) :
    (m.finalizeDay bp coins today epochDay).2.counters = m.counters.endDay m.config.gracePeriodDays
      (m.finalizeDay bp coins today epochDay).1 := by
  unfold finalizeDay
  split
  · ext <;> simp [counters, PolCounters.endDay]
    omega
  · rfl

theorem config_perform (c : PolCall P) : (m.perform bp c).2.config = m.config := by
  cases c with
  | record e => exact m.config_record e
  | finalizeDay coins now epochDay => exact m.config_finalizeDay bp coins now.dateNaive epochDay

/-- **The counters after a run** come from the outcomes of its days. -/
theorem counters_after (calls : List (PolCall P)) : (m.after bp calls).counters =
      (m.outcomes bp calls).foldl (PolCounters.endDay m.config.gracePeriodDays) m.counters := by
  induction calls generalizing m with
  | nil => rfl
  | cons c calls ih =>
    rw [show m.after bp (c :: calls) = (m.perform bp c).2.after bp calls from rfl, ih,
      config_perform]
    cases c with
    | record e =>
      rw [show (m.perform bp (.record e)).2.counters = m.counters from counters_record m e]
      rfl
    | finalizeDay coins now epochDay =>
      rw [show (m.perform bp (.finalizeDay coins now epochDay)).2.counters = _ from
        counters_finalizeDay bp m coins now.dateNaive epochDay]
      rfl

theorem config_after (calls : List (PolCall P)) : (m.after bp calls).config = m.config :=
  run_induction (fun m' => m'.config = m.config) (fun _ => True)
    (fun m' c _ h => (m'.config_perform bp c).trans h) calls m (fun _ _ => trivial) rfl

end ProofOfLifeManager

end Gratia
