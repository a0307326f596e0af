import Gratia.Core.Types
import Gratia.Support.Words

/-!
# Staking — Slashing

Offences and what they cost: `gratia-staking/src/slashing.rs`.  `buildSlashingEvent` escalates the
severity by the offences of the last window, takes the penalty from the effective stake first and
from the overflow for the rest, and splits what it took between burning and the reporters.

The window is counted back from `Utc::now()`, not from the time the event is given: the reading of
the clock is the argument `clock`.  A window whose start is no representable time makes the source
panic, so that no event is built; here such a window holds every event.
-/

namespace Gratia

open Support

inductive SlashingPillar where
  | proofOfLife
  | stakeManipulation
  | energyFraud
deriving DecidableEq

inductive SlashingSeverity where
  | warning
  | minor
  | major
  | critical
deriving DecidableEq

structure SlashingEvent where
  node : NodeId
  pillar : SlashingPillar
  severity : SlashingSeverity
  amountSlashed : Lux
  reason : String
  timestamp : DateTime
  miningPaused : Bool
  miningPauseDurationSecs : UInt64
  permanentlyBanned : Bool
  blockHeight : UInt64
deriving DecidableEq

structure SlashResult where
  event : SlashingEvent
  remainingStake : Lux
  overflowSlashed : Lux
  burnAmount : Lux
  reporterShare : Lux
deriving DecidableEq

structure SlashingConfig where
  minorSlashBps : UInt32 := 1000
  majorSlashBps : UInt32 := 5000
  criticalSlashBps : UInt32 := 10_000
  warningPauseDurationSecs : UInt64 := 48 * 3600
  majorPauseDurationSecs : UInt64 := 30 * 24 * 3600
  offenseWindowSecs : UInt64 := 90 * 24 * 3600
  fraudBurnBps : UInt32 := 7000
  fraudReporterShareBps : UInt32 := 3000
  minorEscalationThreshold : UInt32 := 3
  majorEscalationThreshold : UInt32 := 2
deriving DecidableEq

structure SlashingHistory where
  warnings : UInt32 := 0
  minorSlashes : UInt32 := 0
  majorSlashes : UInt32 := 0
  isBanned : Bool := false
  events : List SlashingEvent := []
deriving DecidableEq

namespace SlashingHistory

/-- The start of the window, `now - Duration::seconds(config.offense_window_secs as i64)`. -/
def windowStart (config : SlashingConfig) (now : DateTime) : Option DateTime :=
  now.addSeconds (-config.offenseWindowSecs.toInt64)

def windowedCounts (h : SlashingHistory) (config : SlashingConfig) (now : DateTime) :
    UInt32 × UInt32 :=
  h.events.foldl (fun (minor, major) event =>
    if (windowStart config now).all (· ≤ event.timestamp) then
      match event.severity with
      | .minor => (minor + 1, major)
      | .major => (minor, major + 1)
      | _ => (minor, major)
    else (minor, major)) (0, 0)

/-- `effective_severity_at`; `effective_severity` is this at `Utc::now()`. -/
def effectiveSeverityAt (h : SlashingHistory) (base : SlashingSeverity) (config : SlashingConfig)
    (now : DateTime) : SlashingSeverity :=
  if h.isBanned then .critical
  else
    let (minor, major) := h.windowedCounts config now
    match base with
    | .warning => .warning
    | .minor => if minor ≥ config.minorEscalationThreshold then .major else .minor
    | .major => if major ≥ config.majorEscalationThreshold then .critical else .major
    | .critical => .critical

end SlashingHistory

/-- The part of the stake an offence costs, in basis points; a warning costs nothing. -/
def SlashingSeverity.slashBps (config : SlashingConfig) : SlashingSeverity → Option UInt32
  | .warning => none
  | .minor => some config.minorSlashBps
  | .major => some config.majorSlashBps
  | .critical => some config.criticalSlashBps

/-- `calculate_slash_amount`: what is taken from the stake and from the overflow.  The product is a
`u128`, its quotient is cut to `u64`. -/
def calculateSlashAmount (severity : SlashingSeverity) (nodeStake overflowAmount : Lux)
    (config : SlashingConfig) : Lux × Lux :=
  match severity.slashBps config with
  | none => (0, 0)
  | some bps =>
    let totalStake := saturatingAdd nodeStake overflowAmount
    let totalSlash := UInt64.ofNat (totalStake.toNat * bps.toNat / 10_000)
    let fromStake := min totalSlash nodeStake
    let fromOverflow := min (saturatingSub totalSlash fromStake) overflowAmount
    (fromStake, fromOverflow)

/-- `calculate_slash_distribution`: what is burned and what the reporters get. -/
def calculateSlashDistribution (totalSlashed : Lux) (isProvenFraud : Bool)
    (config : SlashingConfig) : Lux × Lux :=
  if !isProvenFraud || totalSlashed = 0 then (totalSlashed, 0)
  else
    let burn := UInt64.ofNat (totalSlashed.toNat * config.fraudBurnBps.toNat / 10_000)
    (burn, saturatingSub totalSlashed burn)

def buildSlashingEvent (node : NodeId) (pillar : SlashingPillar) (baseSeverity : SlashingSeverity)
    (reason : String) (nodeStake overflowAmount : Lux) (history : SlashingHistory)
    (config : SlashingConfig) (now : DateTime) (blockHeight : UInt64) (clock : DateTime) :
    SlashResult :=
  let severity := history.effectiveSeverityAt baseSeverity config clock
  let (stakeSlash, overflowSlash) := calculateSlashAmount severity nodeStake overflowAmount config
  let totalSlashed := saturatingAdd stakeSlash overflowSlash
  let (burnAmount, reporterShare) :=
    calculateSlashDistribution totalSlashed (severity = .critical) config
  { event :=
      { node, pillar, severity
        amountSlashed := totalSlashed
        reason
        timestamp := now
        miningPaused := severity = .warning ∨ severity = .major ∨ severity = .critical
        miningPauseDurationSecs :=
          match severity with
          | .warning => config.warningPauseDurationSecs
          | .minor => 0
          | .major => config.majorPauseDurationSecs
          | .critical => 0xFFFFFFFFFFFFFFFF / 2
        permanentlyBanned := severity = .critical
        blockHeight }
    remainingStake := saturatingSub nodeStake stakeSlash
    overflowSlashed := overflowSlash
    burnAmount, reporterShare }

/-! ### A penalty is covered by what it is taken from -/

theorem calculateSlashAmount_le (severity : SlashingSeverity) (nodeStake overflowAmount : Lux)
    (config : SlashingConfig) :
    (calculateSlashAmount severity nodeStake overflowAmount config).1.toNat ≤ nodeStake.toNat ∧
      (calculateSlashAmount severity nodeStake overflowAmount config).2.toNat ≤
        overflowAmount.toNat := by
  unfold calculateSlashAmount
  cases severity.slashBps config with
  | none => exact ⟨Nat.zero_le _, Nat.zero_le _⟩
  | some bps =>
    simp only [toNat_min]
    exact ⟨min_le_right _ _, min_le_right _ _⟩

section Built

variable (node : NodeId) (pillar : SlashingPillar) (baseSeverity : SlashingSeverity)
  (reason : String) {nodeStake overflowAmount : Lux} (history : SlashingHistory)
  (config : SlashingConfig) (now : DateTime) (blockHeight : UInt64) (clock : DateTime)

/-- **What a built event takes.**  From a stake and an overflow that fit one word together, the
event names what is taken from both, and each part is covered. -/
theorem buildSlashingEvent_covered (hfits : nodeStake.toNat + overflowAmount.toNat < 2 ^ 64) :
    ∃ fromStake : ℕ, fromStake ≤ nodeStake.toNat ∧
      (buildSlashingEvent node pillar baseSeverity reason nodeStake overflowAmount history config
        now blockHeight clock).overflowSlashed.toNat ≤ overflowAmount.toNat ∧
      (buildSlashingEvent node pillar baseSeverity reason nodeStake overflowAmount history config
        now blockHeight clock).event.amountSlashed.toNat =
      fromStake + (buildSlashingEvent node pillar baseSeverity reason nodeStake overflowAmount
        history config now blockHeight clock).overflowSlashed.toNat := by
  obtain ⟨hs, ho⟩ := calculateSlashAmount_le
    (history.effectiveSeverityAt baseSeverity config clock) nodeStake overflowAmount config
  refine ⟨_, hs, ho, ?_⟩
  simp only [buildSlashingEvent, toNat_saturatingAdd]
  omega

end Built

/-!
### The wall clock

`build_slashing_event` is given the time of the offence and dates the event with it, but counts the
offences before it in a window that ends when the machine evaluates it: `effective_severity` reads
`Utc::now()`.  Two nodes that replay the same chain at different times can therefore come to
different penalties, or one of them to a panic.
-/

/-- The arguments of `build_slashing_event`. -/
structure SlashingArguments where
  node : NodeId
  pillar : SlashingPillar
  baseSeverity : SlashingSeverity
  reason : String
  nodeStake : Lux
  overflowAmount : Lux
  history : SlashingHistory
  config : SlashingConfig
  now : DateTime
  blockHeight : UInt64

namespace SlashingArguments

open SlashingHistory (windowStart)

variable (a : SlashingArguments) (clock clock' : DateTime)

/-- `build_slashing_event` on a machine whose clock reads `clock`.  The window of a banned node is
not looked at. -/
def build : Option SlashResult :=
  if a.history.isBanned ∨ (windowStart a.config clock).isSome then
    some (buildSlashingEvent a.node a.pillar a.baseSeverity a.reason a.nodeStake a.overflowAmount
      a.history a.config a.now a.blockHeight clock)
  else none

/-- The offences in the window are enough to escalate. -/
def Escalates : Prop :=
  match a.baseSeverity with
  | .warning | .critical => False
  | .minor => a.config.minorEscalationThreshold ≤ (a.history.windowedCounts a.config clock).1
  | .major => a.config.majorEscalationThreshold ≤ (a.history.windowedCounts a.config clock).2

variable {a clock clock'}

theorem ite_eq_ite_iff_iff {α : Type*} {p q : Prop} [Decidable p] [Decidable q] {x y : α}
    (h : x ≠ y) : ((if p then x else y) = if q then x else y) ↔ (p ↔ q) := by
  by_cases hp : p <;> by_cases hq : q <;> simp [hp, hq, h, h.symm]

theorem effectiveSeverityAt_eq_iff (hban : a.history.isBanned = false) :
    a.history.effectiveSeverityAt a.baseSeverity a.config clock =
        a.history.effectiveSeverityAt a.baseSeverity a.config clock' ↔
      (a.Escalates clock ↔ a.Escalates clock') := by
  unfold SlashingHistory.effectiveSeverityAt Escalates
  rw [hban]
  cases a.baseSeverity with
  | warning | critical => simp
  | minor => exact ite_eq_ite_iff_iff (show SlashingSeverity.major ≠ .minor by decide)
  | major => exact ite_eq_ite_iff_iff (show SlashingSeverity.critical ≠ .major by decide)

theorem buildSlashingEvent_eq_iff :
    buildSlashingEvent a.node a.pillar a.baseSeverity a.reason a.nodeStake a.overflowAmount
        a.history a.config a.now a.blockHeight clock =
      buildSlashingEvent a.node a.pillar a.baseSeverity a.reason a.nodeStake a.overflowAmount
        a.history a.config a.now a.blockHeight clock' ↔
    a.history.effectiveSeverityAt a.baseSeverity a.config clock =
      a.history.effectiveSeverityAt a.baseSeverity a.config clock' := by
  constructor
  · intro h
    exact congrArg (fun result => result.event.severity) h
  · intro h
    unfold buildSlashingEvent
    rw [h]

/-- **Two machines build the same slash, exactly** if the node is banned already, or both find no
start of the window, or both do and escalate alike. -/
theorem slash_same_iff (a : SlashingArguments) (clock clock' : DateTime) :
    a.build clock = a.build clock' ↔
      a.history.isBanned = true ∨
      windowStart a.config clock = none ∧ windowStart a.config clock' = none ∨
      (windowStart a.config clock).isSome = true ∧ (windowStart a.config clock').isSome = true ∧
        (a.Escalates clock ↔ a.Escalates clock') := by
  cases hban : a.history.isBanned with
  | true =>
    have hcritical : ∀ clock, a.history.effectiveSeverityAt a.baseSeverity a.config clock =
        .critical := by
      intro clock
      rw [SlashingHistory.effectiveSeverityAt, hban, if_pos rfl]
    refine iff_of_true ?_ (.inl rfl)
    unfold build
    rw [if_pos (.inl hban), if_pos (.inl hban), Option.some_inj, buildSlashingEvent_eq_iff,
      hcritical, hcritical]
  | false =>
    unfold build
    rw [hban]
    cases hs : windowStart a.config clock with
    | none =>
      cases hs' : windowStart a.config clock' with
      | none => simp
      | some start' => simp
    | some start =>
      cases hs' : windowStart a.config clock' with
      | none => simp
      | some start' =>
        simp only [Option.isSome_some, or_true, if_true, Option.some_inj,
          buildSlashingEvent_eq_iff, effectiveSeverityAt_eq_iff hban]
        simp

def firstOffence (blockHeight : UInt64) : SlashingEvent :=
  { node := ⟨.splat 1⟩, pillar := .energyFraud, severity := .minor, amountSlashed := 10
    reason := "emulator detected", timestamp := ⟨0, 0⟩, miningPaused := false
    miningPauseDurationSecs := 0, permanentlyBanned := false, blockHeight }

def fourthOffence : SlashingArguments where
  node := ⟨.splat 1⟩
  pillar := .energyFraud
  baseSeverity := .minor
  reason := "emulator detected"
  nodeStake := 1000
  overflowAmount := 0
  history := { minorSlashes := 3, events := [firstOffence 1, firstOffence 2, firstOffence 3] }
  config := {}
  now := ⟨10 * 86400, 0⟩
  blockHeight := 7

/-- A node that evaluates the fourth offence when it happens takes half of the stake, one that
replays the chain ninety days later a tenth of it. -/
theorem replayed_slash_differs :
    (fourthOffence.build ⟨10 * 86400, 0⟩).map (fun result =>
      (result.event.severity, result.event.amountSlashed)) = some (.major, 500) ∧
    (fourthOffence.build ⟨100 * 86400, 0⟩).map (fun result =>
      (result.event.severity, result.event.amountSlashed)) = some (.minor, 100) := by
  decide +kernel

end SlashingArguments

end Gratia
