import Gratia.Wallet.Manager

/-!
# Wallet — Recovery

`RecoveryClaim` of `gratia-wallet/src/recovery.rs`: a claim on a wallet collects behavioral data for
seven to fourteen days and is then verified or rejected.  `Utc::now` is an argument of every call.

The rule that decides a claim is applied to a pending one only.  The first update makes a new claim
pending whatever it reports, so a claim whose first report covers fourteen days or more stays
undecided, and the wallet frozen, until the next report.
-/

namespace Gratia

/-! ### Claims -/

inductive RejectionReason where
  | ownerRejected
  | insufficientBehavioralMatch (confidence required : UInt32)
  | expired
deriving DecidableEq

/-- `RecoveryState`, with the data of its variants. -/
inductive ClaimState where
  | newClaim (claimantAddress : Address) (claimedAt : DateTime)
  | pending (claimantAddress : Address) (claimedAt : DateTime)
      (matchConfidence daysCollected : UInt32)
  | verified (claimantAddress : Address) (verifiedAt : DateTime)
  | rejected (claimantAddress : Address) (rejectedAt : DateTime) (reason : RejectionReason)
deriving DecidableEq

/-- The variant, which is what the wallet manager looks at. -/
def ClaimState.variant : ClaimState → RecoveryState
  | newClaim _ _ => .newClaim
  | pending _ _ _ _ => .pending
  | verified _ _ => .verified
  | rejected _ _ _ => .rejected

structure RecoveryClaim where
  walletAddress : Address
  state : ClaimState
deriving DecidableEq

def recoveryMatchThreshold : UInt32 := 80

def minRecoveryDays : UInt32 := 7

def maxRecoveryDays : UInt32 := 14

namespace RecoveryClaim

def new (walletAddress claimantAddress : Address) (now : DateTime) : RecoveryClaim :=
  { walletAddress := walletAddress, state := .newClaim claimantAddress now }

def updateBehavioralMatch (claim : RecoveryClaim) (newConfidence daysCollected : UInt32)
    (now : DateTime) : Except GratiaError Unit × RecoveryClaim :=
  let newConfidence := min newConfidence 100
  match claim.state with
  | .newClaim claimantAddress claimedAt =>
    (.ok (), { claim with
      state := .pending claimantAddress claimedAt newConfidence daysCollected })
  | .pending claimantAddress claimedAt _ prevDays =>
    if daysCollected < prevDays then
      (.error (.other
        s!"days_collected must be monotonically increasing: {daysCollected} < {prevDays}"), claim)
    else if newConfidence ≥ recoveryMatchThreshold ∧ daysCollected ≥ minRecoveryDays then
      (.ok (), { claim with state := .verified claimantAddress now })
    else if daysCollected ≥ maxRecoveryDays then
      (.ok (), { claim with
        state := .rejected claimantAddress now
          (.insufficientBehavioralMatch newConfidence recoveryMatchThreshold) })
    else
      (.ok (), { claim with
        state := .pending claimantAddress claimedAt newConfidence daysCollected })
  | .verified _ _ | .rejected _ _ _ =>
    (.error (.other "cannot update a finalized recovery claim"), claim)

def ownerReject (claim : RecoveryClaim) (now : DateTime) : Except GratiaError Unit × RecoveryClaim :=
  match claim.state with
  | .newClaim claimantAddress _ | .pending claimantAddress _ _ _ =>
    (.ok (), { claim with state := .rejected claimantAddress now .ownerRejected })
  | .verified _ _ => (.error (.other "cannot reject an already-verified claim"), claim)
  | .rejected _ _ _ => (.error (.other "claim is already rejected"), claim)

def isFinalized (claim : RecoveryClaim) : Bool :=
  match claim.state with
  | .verified _ _ | .rejected _ _ _ => true
  | .newClaim _ _ | .pending _ _ _ _ => false

def walletIsFrozen (claim : RecoveryClaim) : Bool := claim.state.variant.walletIsFrozen

end RecoveryClaim

/-! ### Calls -/

inductive RecoveryCall where
  | updateBehavioralMatch (newConfidence daysCollected : UInt32) (now : DateTime)
  | ownerReject (now : DateTime)
deriving DecidableEq

/-- The claim, and the days that the latest successful update reported. -/
structure ClaimHistory where
  claim : RecoveryClaim
  reported : Option UInt32 := none
deriving DecidableEq

def Convinces (confidence days : UInt32) : Prop :=
  recoveryMatchThreshold ≤ min confidence 100 ∧ minRecoveryDays ≤ days

/-- The transitions of a claim.  There is none out of a decided one, and none that takes the days
collected back. -/
inductive ClaimState.Step : ClaimState → RecoveryCall → ClaimState → Prop
  | first (claimant : Address) (claimedAt : DateTime) (confidence days : UInt32) (now : DateTime) :
      Step (.newClaim claimant claimedAt) (.updateBehavioralMatch confidence days now)
        (.pending claimant claimedAt (min confidence 100) days)
  | verify {claimant : Address} {claimedAt now : DateTime} {before prevDays confidence days : UInt32}
      (hprev : ¬ days < prevDays) (hyes : Convinces confidence days) :
      Step (.pending claimant claimedAt before prevDays)
        (.updateBehavioralMatch confidence days now) (.verified claimant now)
  | giveUp {claimant : Address} {claimedAt now : DateTime} {before prevDays confidence days : UInt32}
      (hprev : ¬ days < prevDays) (hno : ¬ Convinces confidence days)
      (hdays : maxRecoveryDays ≤ days) :
      Step (.pending claimant claimedAt before prevDays)
        (.updateBehavioralMatch confidence days now)
        (.rejected claimant now
          (.insufficientBehavioralMatch (min confidence 100) recoveryMatchThreshold))
  | collect {claimant : Address} {claimedAt now : DateTime}
      {before prevDays confidence days : UInt32}
      (hprev : ¬ days < prevDays) (hno : ¬ Convinces confidence days)
      (hdays : ¬ maxRecoveryDays ≤ days) :
      Step (.pending claimant claimedAt before prevDays)
        (.updateBehavioralMatch confidence days now)
        (.pending claimant claimedAt (min confidence 100) days)
  | rejectNew {claimant : Address} {claimedAt now : DateTime} :
      Step (.newClaim claimant claimedAt) (.ownerReject now) (.rejected claimant now .ownerRejected)
  | rejectPending {claimant : Address} {claimedAt now : DateTime} {before prevDays : UInt32} :
      Step (.pending claimant claimedAt before prevDays) (.ownerReject now)
        (.rejected claimant now .ownerRejected)

/-- The days a successful call reports, after `reported`. -/
def RecoveryCall.reports (reported : Option UInt32) : RecoveryCall → Option UInt32
  | .updateBehavioralMatch _ daysCollected _ => some daysCollected
  | .ownerReject _ => reported

namespace ClaimHistory

open RecoveryClaim

/-- What a call returns, and the history after it. -/
def call (h : ClaimHistory) : RecoveryCall → Except GratiaError Unit × ClaimHistory
  | .updateBehavioralMatch newConfidence daysCollected now =>
    match h.claim.updateBehavioralMatch newConfidence daysCollected now with
    | (.ok (), claim) => (.ok (), ⟨claim, some daysCollected⟩)
    | (.error e, claim) => (.error e, ⟨claim, h.reported⟩)
  | .ownerReject now =>
    let (result, claim) := h.claim.ownerReject now
    (result, ⟨claim, h.reported⟩)

def run (h : ClaimHistory) (calls : List RecoveryCall) : ClaimHistory := Support.run call h calls

/-! ### What one call does -/

/-- **A call makes a transition or fails and changes nothing.** -/
theorem call_cases (h : ClaimHistory) (c : RecoveryCall) :
    (∃ state, h.claim.state.Step c state ∧
      h.call c = (.ok (), ⟨{ h.claim with state := state }, c.reports h.reported⟩)) ∨
    (∀ state, ¬ h.claim.state.Step c state) ∧ ∃ e, h.call c = (.error e, h) := by
  obtain ⟨⟨wallet, state⟩, reported⟩ := h
  cases c with
  | updateBehavioralMatch confidence days now =>
    cases state with
    | newClaim claimant claimedAt => exact .inl ⟨_, .first .., rfl⟩
    | pending claimant claimedAt before prevDays =>
      simp only [call, updateBehavioralMatch]
      split_ifs with hprev hyes hmax
      · refine .inr ⟨fun state hstep => ?_, _, rfl⟩
        cases hstep with
        | verify hnot | giveUp hnot | collect hnot => exact hnot hprev
      · exact .inl ⟨_, .verify hprev hyes, rfl⟩
      · exact .inl ⟨_, .giveUp hprev hyes hmax, rfl⟩
      · exact .inl ⟨_, .collect hprev hyes hmax, rfl⟩
    | verified claimant verifiedAt => exact .inr ⟨by rintro _ ⟨⟩, _, rfl⟩
    | rejected claimant rejectedAt reason => exact .inr ⟨by rintro _ ⟨⟩, _, rfl⟩
  | ownerReject now =>
    cases state with
    | newClaim claimant claimedAt => exact .inl ⟨_, .rejectNew, rfl⟩
    | pending claimant claimedAt before prevDays => exact .inl ⟨_, .rejectPending, rfl⟩
    | verified claimant verifiedAt => exact .inr ⟨by rintro _ ⟨⟩, _, rfl⟩
    | rejected claimant rejectedAt reason => exact .inr ⟨by rintro _ ⟨⟩, _, rfl⟩

/-- What is asked of a call: it verifies the claim only on a confidence of 80 after 7 days, it does
not change a decided claim, and if it fails it changes nothing. -/
structure StepSound (h : ClaimHistory) (c : RecoveryCall) : Prop where
  verifies : h.claim.state.variant ≠ .verified → (h.call c).2.claim.state.variant = .verified →
    ∃ newConfidence daysCollected now, c = .updateBehavioralMatch newConfidence daysCollected now ∧
      recoveryMatchThreshold ≤ newConfidence ∧ minRecoveryDays ≤ daysCollected
  decided : h.claim.isFinalized = true → (h.call c).2 = h
  failed : ∀ e, (h.call c).1 = .error e → (h.call c).2 = h

theorem min_hundred_le (confidence : UInt32) : min confidence 100 ≤ confidence := by
  show (if confidence ≤ 100 then confidence else 100) ≤ confidence
  split
  next => exact UInt32.le_refl _
  next hgt => exact UInt32.le_of_lt (UInt32.not_le.mp hgt)

theorem stepSound (h : ClaimHistory) (c : RecoveryCall) : StepSound h c := by
  obtain ⟨⟨wallet, before⟩, reported⟩ := h
  rcases call_cases ⟨⟨wallet, before⟩, reported⟩ c with ⟨state, hstep, hcall⟩ | ⟨hno, e, hcall⟩
  · refine ⟨?_, ?_, ?_⟩ <;> rw [hcall]
    · intro _ hver
      cases hstep with
      | verify hprev hyes =>
        refine ⟨_, _, _, rfl, ?_, hyes.2⟩
        exact UInt32.le_trans hyes.1 (min_hundred_le _)
      | _ => cases hver
    · intro hfin
      cases hstep with
      | _ => cases hfin
    · rintro e ⟨⟩
  · refine ⟨?_, ?_, ?_⟩ <;> rw [hcall]
    · exact fun hne hver => absurd hver hne
    · exact fun _ => rfl
    · exact fun _ _ => rfl

/-! ### Late claims -/

/-- The latest successful update is the one a pending claim shows; a new claim has none. -/
def Matches (h : ClaimHistory) : Prop :=
  match h.claim.state with
  | .newClaim _ _ => h.reported = none
  | .pending _ _ _ days => h.reported = some days
  | .verified _ _ | .rejected _ _ _ => True

variable {h : ClaimHistory}

theorem Matches.call (hm : Matches h) (c : RecoveryCall) : Matches (h.call c).2 := by
  obtain ⟨⟨wallet, before⟩, reported⟩ := h
  rcases call_cases ⟨⟨wallet, before⟩, reported⟩ c with ⟨state, hstep, hcall⟩ | ⟨hno, e, hcall⟩
  · rw [hcall]
    cases hstep with
    | first | collect => rfl
    | _ => trivial
  · rw [hcall]
    exact hm

/-- The claim is pending, with fourteen days collected or more. -/
def LateAt (days : UInt32) (h : ClaimHistory) : Prop :=
  maxRecoveryDays ≤ days ∧ ∃ claimant claimedAt confidence,
    h.claim.state = .pending claimant claimedAt confidence days

/-- The claim is no longer new, and not late. -/
def OnTime (h : ClaimHistory) : Prop :=
  h.claim.state.variant ≠ .newClaim ∧ ∀ days, ¬ LateAt days h

def GoesBack (days : UInt32) (c : RecoveryCall) : Prop :=
  ∃ newConfidence daysCollected now,
    c = .updateBehavioralMatch newConfidence daysCollected now ∧ daysCollected < days

theorem onTime_of_step {before state : ClaimState} {c : RecoveryCall} {wallet : Address}
    {reported : Option UInt32} (hstep : before.Step c state) (hnew : before.variant ≠ .newClaim) :
    OnTime ⟨⟨wallet, state⟩, reported⟩ := by
  refine ⟨?_, ?_⟩
  · cases hstep with
    | first => exact absurd rfl hnew
    | _ => rintro ⟨⟩
  · rintro days ⟨hdays, claimant, claimedAt, confidence, hpending⟩
    cases hstep with
    | first => exact hnew rfl
    | collect hprev hno hlow =>
      cases hpending
      exact hlow hdays
    | _ => cases hpending

theorem OnTime.call (ho : OnTime h) (c : RecoveryCall) : OnTime (h.call c).2 := by
  rcases call_cases h c with ⟨state, hstep, hcall⟩ | ⟨hno, e, hcall⟩
  · rw [hcall]
    exact onTime_of_step hstep ho.1
  · rw [hcall]
    exact ho

theorem OnTime.run (ho : OnTime h) (calls : List RecoveryCall) : OnTime (h.run calls) :=
  Support.run_induction OnTime (fun _ => True) (fun _ c _ ho => ho.call c) calls h
    (fun _ _ => trivial) ho

/-- A late claim stays late under the calls that go back, which fail, and under no other. -/
theorem LateAt.call {days : UInt32} (hl : LateAt days h) (c : RecoveryCall) :
    GoesBack days c ∧ (h.call c).2 = h ∨ ¬ GoesBack days c ∧ OnTime (h.call c).2 := by
  obtain ⟨⟨wallet, before⟩, reported⟩ := h
  obtain ⟨hdays, claimant, claimedAt, confidence, hpending⟩ := hl
  cases hpending
  rcases call_cases ⟨⟨wallet, .pending claimant claimedAt confidence days⟩, reported⟩ c with
    ⟨state, hstep, hcall⟩ | ⟨hno, e, hcall⟩
  · right
    refine ⟨?_, by rw [hcall]; exact onTime_of_step hstep (by rintro ⟨⟩)⟩
    rintro ⟨newConfidence, daysCollected, now, rfl, hlt⟩
    cases hstep with
    | verify hprev | giveUp hprev | collect hprev => exact hprev hlt
  · left
    refine ⟨?_, by rw [hcall]⟩
    cases c with
    | updateBehavioralMatch newConfidence daysCollected now =>
      refine ⟨_, _, _, rfl, ?_⟩
      by_contra hprev
      have hmax : maxRecoveryDays ≤ daysCollected :=
        UInt32.le_trans hdays (UInt32.not_lt.mp hprev)
      by_cases hyes : Convinces newConfidence daysCollected
      · exact hno _ (.verify hprev hyes)
      · exact hno _ (.giveUp hprev hyes hmax)
    | ownerReject now => exact absurd .rejectPending (hno _)

theorem LateAt.run_iff {days : UInt32} (hl : LateAt days h) (calls : List RecoveryCall) :
    (∃ days, LateAt days (h.run calls)) ↔ ∀ c ∈ calls, GoesBack days c := by
  induction calls with
  | nil => exact iff_of_true ⟨days, hl⟩ (by simp)
  | cons c calls ih =>
    rw [List.forall_mem_cons]
    rcases hl.call c with ⟨hback, hsame⟩ | ⟨hforth, hon⟩
    · have hrun : h.run (c :: calls) = h.run calls := by
        show (h.call c).2.run calls = _
        rw [hsame]
      rw [hrun, ih, and_iff_right hback]
    · refine iff_of_false ?_ fun hall => hforth hall.1
      rintro ⟨days', hlate⟩
      exact (hon.run calls).2 days' hlate

/-! ### Decided within fourteen days -/

/-- A claim with fourteen days or more in the latest successful update is decided, and the wallet is
not frozen. -/
def DecidedInTime (h : ClaimHistory) : Prop :=
  ∀ days, h.reported = some days → maxRecoveryDays ≤ days →
    h.claim.isFinalized = true ∧ h.claim.walletIsFrozen = false

/-- The first call reports fourteen days or more, and all the others go back behind it. -/
def StartsLate (calls : List RecoveryCall) : Prop :=
  ∃ newConfidence daysCollected now rest,
    calls = .updateBehavioralMatch newConfidence daysCollected now :: rest ∧
      maxRecoveryDays ≤ daysCollected ∧ ∀ c ∈ rest, GoesBack daysCollected c

theorem decidedInTime_iff (hm : Matches h) : DecidedInTime h ↔ ¬ ∃ days, LateAt days h := by
  obtain ⟨⟨wallet, state⟩, reported⟩ := h
  cases state with
  | newClaim claimant claimedAt =>
    obtain rfl : reported = none := hm
    refine iff_of_true (by rintro days ⟨⟩) ?_
    rintro ⟨days, -, _, _, _, ⟨⟩⟩
  | pending claimant claimedAt confidence days =>
    obtain rfl : reported = some days := hm
    constructor
    · rintro hd ⟨days', hdays, _, _, _, ⟨⟩⟩
      cases (hd days rfl hdays).1
    · rintro hno days' ⟨⟩ hdays
      exact absurd ⟨days, hdays, _, _, _, rfl⟩ hno
  | verified claimant verifiedAt | rejected claimant rejectedAt reason =>
    refine iff_of_true (fun _ _ _ => ⟨rfl, rfl⟩) ?_
    rintro ⟨days, -, _, _, _, ⟨⟩⟩

def start (wallet claimant : Address) (now : DateTime) : ClaimHistory :=
  { claim := RecoveryClaim.new wallet claimant now }

theorem late_run_start_iff (wallet claimant : Address) (now : DateTime)
    (calls : List RecoveryCall) :
    (∃ days, LateAt days ((start wallet claimant now).run calls)) ↔ StartsLate calls := by
  cases calls with
  | nil =>
    refine iff_of_false ?_ ?_
    · rintro ⟨days, -, _, _, _, ⟨⟩⟩
    · rintro ⟨_, _, _, _, ⟨⟩, -⟩
  | cons c calls =>
    have hnever : OnTime ((start wallet claimant now).call c).2 →
        ¬∃ days, LateAt days ((start wallet claimant now).run (c :: calls)) :=
      fun hon ⟨days, hlate⟩ => (hon.run calls).2 days hlate
    cases c with
    | updateBehavioralMatch confidence days later =>
      by_cases hdays : maxRecoveryDays ≤ days
      · have hlate : LateAt days ((start wallet claimant now).call
            (.updateBehavioralMatch confidence days later)).2 :=
          ⟨hdays, claimant, now, min confidence 100, rfl⟩
        refine (hlate.run_iff calls).trans ⟨fun hall => ⟨_, _, _, _, rfl, hdays, hall⟩, ?_⟩
        rintro ⟨_, _, _, _, ⟨⟩, -, hall⟩
        exact hall
      · refine iff_of_false (hnever ⟨by rintro ⟨⟩, ?_⟩) ?_
        · rintro days' ⟨hdays', _, _, _, ⟨⟩⟩
          exact hdays hdays'
        · rintro ⟨_, _, _, _, ⟨⟩, hdays', -⟩
          exact hdays hdays'
    | ownerReject later =>
      refine iff_of_false (hnever ⟨by rintro ⟨⟩, ?_⟩) ?_
      · rintro days' ⟨-, _, _, _, ⟨⟩⟩
      · rintro ⟨_, _, _, _, ⟨⟩, -⟩

/-- **A claim is decided within fourteen days, exactly.**  Along every sequence of calls a claim is
verified only on a confidence of 80 after 7 days, a decided claim never changes and a failed call
changes nothing; and it is decided once fourteen days are reported, unless the first call reported
them and every later one went back. -/
theorem recovery_decided_iff (wallet claimant : Address) (now : DateTime)
    (calls : List RecoveryCall) :
    DecidedInTime ((start wallet claimant now).run calls) ∧
        Support.AllSteps call StepSound (start wallet claimant now) calls ↔
      ¬ StartsLate calls := by
  have hmatches : Matches ((start wallet claimant now).run calls) :=
    Support.run_induction Matches (fun _ => True) (fun _ c _ hm => hm.call c) calls _
      (fun _ _ => trivial) rfl
  rw [decidedInTime_iff hmatches, late_run_start_iff,
    and_iff_left (Support.allSteps_of_forall _ fun c _ h => stepSound h c)]

/-- A claim that starts with a report of twenty days. -/
theorem twenty_days_undecided :
    let h := (start ⟨.splat 1⟩ ⟨.splat 2⟩ ⟨0, 0⟩).run [.updateBehavioralMatch 50 20 ⟨0, 0⟩]
    h.reported = some 20 ∧ h.claim.isFinalized = false ∧ h.claim.walletIsFrozen = true ∧
      ¬ DecidedInTime h := by
  refine ⟨rfl, rfl, rfl, fun hd => ?_⟩
  cases (hd 20 rfl (by decide)).1

end ClaimHistory

end Gratia
