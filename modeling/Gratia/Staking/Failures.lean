import Gratia.Staking.Manager
import Gratia.Support.Runs

/-!
# Staking — Failures

What a failed call leaves behind.  A withdrawal is refused before anything is written.  The two
methods that touch both a record and the pool write the record first: `stake` enters the new total
before `add_overflow` can refuse, and `apply_slash` reduces stake and total before
`remove_overflow` can, which it does when the slash was computed from an overflow that has been
withdrawn since.
-/

namespace Gratia

open Std Support

inductive StakingCall where
  | stake (node : NodeId) (amount : Lux) (now : DateTime)
  | requestUnstake (node : NodeId) (amount : Lux) (now : DateTime)
  | completeUnstake (node : NodeId) (now : DateTime)
  | applySlash (result : SlashResult) (now : DateTime)

namespace StakingManager

variable {m : StakingManager} {node : NodeId} {amount : Lux} {now : DateTime} {e : StakingError}

def call (m : StakingManager) : StakingCall → Except StakingError Unit × StakingManager
  | .stake node amount now => let (r, m) := m.stake node amount now; (r.map fun _ => (), m)
  | .requestUnstake node amount now =>
    let (r, m) := m.requestUnstake node amount now
    (r.map fun _ => (), m)
  | .completeUnstake node now => let (r, m) := m.completeUnstake node now; (r.map fun _ => (), m)
  | .applySlash result now => m.applySlash result now

/-! ### Stakes -/

/-- A stake is refused at once: for its amount, for a ban, or because the total does not fit. -/
def StakeRefused (m : StakingManager) (node : NodeId) (amount : Lux) : Prop :=
  amount = 0 ∨ m.bannedNodes.contains node = true ∨
    2 ^ 64 ≤ ((m.stakes[node]?).elim 0 fun s => s.totalCommitted.toNat) + amount.toNat

theorem committed_eq (m : StakingManager) (node : NodeId) (now : DateTime) :
    ((m.stakes[node]?).elim 0 fun s => s.totalCommitted.toNat) =
      ((m.stakes[node]?).getD (.fresh now)).totalCommitted.toNat := by
  cases m.stakes[node]? with
  | none | some s => rfl

theorem stake_error (h : (m.stake node amount now).1 = .error e) :
    (m.stake node amount now).2 = m ↔ StakeRefused m node amount := by
  have hcases := m.stake_cases node amount now
  simp only [← committed_eq m node now] at hcases
  rcases hcases with ⟨hrefused, _, hs⟩ | ⟨hrefused, ⟨e', pool, -, hs⟩ | ⟨pool, info, -, hs⟩⟩
  · exact iff_of_true (by rw [hs]) hrefused
  · refine iff_of_false (fun hsame => hrefused ?_) hrefused
    -- the record that is written is not the one that was there
    rw [hs] at hsame
    have hrecord := insert_eq_self_iff.mp (congrArg StakingManager.stakes hsame)
    have htotal : ((m.stakes[node]?).getD (.fresh now)).totalCommitted + amount =
        ((m.stakes[node]?).getD (.fresh now)).totalCommitted := by
      conv_rhs => rw [hrecord]
      rfl
    exact .inl (by simpa using htotal)
  · rw [hs] at h
    cases h

/-! ### Slashes -/

theorem saturatingSub_eq_left_iff {a b : Lux} : saturatingSub a b = a ↔ a = 0 ∨ b = 0 := by
  simp only [← UInt64.toNat_inj, toNat_saturatingSub, UInt64.toNat_zero]
  omega

theorem saturatingSub_eq_zero_iff {a b : Lux} : saturatingSub a b = 0 ↔ a ≤ b := by
  simp only [← UInt64.toNat_inj, toNat_saturatingSub, UInt64.toNat_zero,
    UInt64.le_iff_toNat_le]
  omega

/-- The slash takes nothing from the stake of the record, and nothing from its total. -/
def TakesNothing (result : SlashResult) (entry : NodeStake) : Prop :=
  (entry.effectiveStake = 0 ∨ result.event.amountSlashed ≤ result.overflowSlashed) ∧
    (entry.totalCommitted = 0 ∨ result.event.amountSlashed = 0)

theorem reduced_eq_self_iff {result : SlashResult} {entry : NodeStake} :
    reduced result entry = entry ↔ TakesNothing result entry := by
  unfold TakesNothing
  rw [← saturatingSub_eq_zero_iff, ← saturatingSub_eq_left_iff, ← saturatingSub_eq_left_iff]
  obtain ⟨effective, overflow, total, stakedAt, requestedAt, pending⟩ := entry
  simp [reduced]

/-- A slash of a node with a record fails in the pool, with the reduced record written. -/
theorem applySlash_error {result : SlashResult} (h : (m.applySlash result now).1 = .error e) :
    (m.applySlash result now).2 = m ↔
      ∀ entry, m.stakes[result.event.node]? = some entry → TakesNothing result entry := by
  rcases m.applySlash_cases now result with
    ⟨hs, ha⟩ | ⟨entry, hs, ⟨-, _, ha⟩ | ⟨-, pool, histories, -, ha⟩⟩
  · exact iff_of_true (by rw [ha]) (by rw [hs]; nofun)
  · rw [ha, hs]
    have hsame : { m with
        stakes := m.stakes.insert result.event.node (reduced result entry) } = m ↔
          reduced result entry = entry := by
      constructor
      · intro he
        have := insert_eq_self_iff.mp (congrArg StakingManager.stakes he)
        exact (Option.some.inj (hs.symm.trans this)).symm
      · intro he
        rw [he, insert_eq_self_iff.mpr hs]
    refine hsame.trans (reduced_eq_self_iff.trans ?_)
    exact ⟨by rintro ht _ ⟨⟩; exact ht, fun hall => hall entry rfl⟩
  · rw [ha] at h
    cases h

/-! ### Failed calls -/

/-- The call is refused before its first write, or writes what is there. -/
def WritesNothing (m : StakingManager) : StakingCall → Prop
  | .stake node amount _ => StakeRefused m node amount
  | .requestUnstake _ _ _ | .completeUnstake _ _ => True
  | .applySlash result _ =>
    ∀ entry, m.stakes[result.event.node]? = some entry → TakesNothing result entry

theorem error_of_map {ε α β : Type} {r : Except ε α} {f : α → β} {e : ε}
    (h : r.map f = .error e) : r = .error e := by
  cases r with
  | error e' => exact congrArg Except.error (Except.error.inj h)
  | ok a => cases h

/-- **A failed call changes nothing, exactly** if it is refused before its first write or writes
what is there; whatever the state of the manager and the arguments. -/
theorem failed_call_unchanged_iff {c : StakingCall} (h : (m.call c).1 = .error e) :
    (m.call c).2 = m ↔ WritesNothing m c := by
  cases c with
  | stake node amount now => exact stake_error (error_of_map h)
  | requestUnstake node amount now =>
    rcases m.requestUnstake_cases node amount now with ⟨_, hr⟩ | ⟨s, pool, info, -, -, -, -, hr⟩
    · exact iff_of_true (by simp only [call, hr]) trivial
    · simp only [call, hr] at h
      cases h
  | completeUnstake node now =>
    rcases m.completeUnstake_cases node now with ⟨_, hr⟩ | ⟨s, -, hr⟩
    · exact iff_of_true (by simp only [call, hr]) trivial
    · simp only [call, hr] at h
      cases h
  | applySlash result now => exact applySlash_error h

def overstaked : StakingManager := ((new smallCap).call (.stake whale 1500 genesis)).2

/-- A withdrawal of more than there is fails and changes nothing. -/
theorem failed_withdrawal_unchanged :
    (overstaked.call (.requestUnstake whale 2000 genesis)).1 =
      .error (.insufficientStake 1500 2000) ∧
    (overstaked.call (.requestUnstake whale 2000 genesis)).2 = overstaked := by
  have herr : (overstaked.call (.requestUnstake whale 2000 genesis)).1 =
      .error (.insufficientStake 1500 2000) := by decide +kernel
  exact ⟨herr, (failed_call_unchanged_iff herr).mpr trivial⟩

def outdatedSlash : SlashResult :=
  overstaked.slashFor whale .energyFraud .critical "emulator detected" {} {} 7 genesis genesis

/-- The manager after the withdrawal. -/
def drained : StakingManager := (overstaked.call (.requestUnstake whale 500 genesis)).2

/-- Applied after the withdrawal it fails in the pool, with the stake of the whale gone. -/
theorem outdated_slash_half_applied :
    ((drained.call (.applySlash outdatedSlash genesis)).1 = .error (.nodeNotFound whale) ∧
      (drained.stakes[whale]?.map fun s => s.effectiveStake) = some 1000 ∧
      ((drained.call (.applySlash outdatedSlash genesis)).2.stakes[whale]?.map fun s =>
        s.effectiveStake) = some 0) ∧
    (drained.call (.applySlash outdatedSlash genesis)).2 ≠ drained := by
  refine and_of_imp (by decide +kernel) fun ⟨_, hbefore, hafter⟩ hsame => ?_
  rw [hsame, hbefore] at hafter
  exact absurd hafter (by decide)

end StakingManager

end Gratia
