import Gratia.Staking.Books
import Gratia.Support.Runs

/-!
# Staking — Conservation

Where the stake of a node goes.  `Ledger` is kept beside the manager: what each node staked, what
was released to it and what was slashed from it, counted by the receipts of the calls.

A pending withdrawal is also lost when a slash removes the record it is in, and when it has cooled
down and is overwritten by the next request.
-/

namespace Gratia.StakingManager

open Support

/-! ### The ledger -/

/-- What each node staked, and what it got back or lost. -/
structure Ledger where
  staked : NodeId → ℕ
  released : NodeId → ℕ
  slashed : NodeId → ℕ

namespace Ledger

def empty : Ledger := ⟨fun _ => 0, fun _ => 0, fun _ => 0⟩

def add (f : NodeId → ℕ) (node : NodeId) (amount : Lux) : NodeId → ℕ :=
  Function.update f node (f node + amount.toNat)

def post (l : Ledger) (node : NodeId) : Except StakingError Receipt → Ledger
  | .ok (.staked amount) => { l with staked := add l.staked node amount }
  | .ok (.released amount) => { l with released := add l.released node amount }
  | .ok (.slashed amount _) => { l with slashed := add l.slashed node amount }
  | .ok (.requested _) => l
  | .error _ => l

/-- What a node is owed by the books: what it staked, less what was released and slashed. -/
def Settles (l : Ledger) (node : NodeId) (b : Books) : Prop :=
  l.staked node = b.total + b.pending + l.released node + l.slashed node

variable {l : Ledger} {node other : NodeId} {b : Books}

theorem add_self (f : NodeId → ℕ) (node : NodeId) (amount : Lux) :
    add f node amount node = f node + amount.toNat := Function.update_self ..

theorem add_other (f : NodeId → ℕ) (amount : Lux) (h : other ≠ node) :
    add f node amount other = f other := Function.update_of_ne h ..

theorem settles_other (answer : Except StakingError Receipt) (h : other ≠ node) :
    (l.post node answer).Settles other b ↔ l.Settles other b := by
  unfold Settles post
  split <;> simp only [add_other _ _ h]

end Ledger

def account (s : StakingManager × Ledger) (call : Call) :
    Except StakingError Receipt × (StakingManager × Ledger) :=
  ((s.1.perform call).1, (s.1.perform call).2, s.2.post call.node (s.1.perform call).1)

/-- What every node staked is committed, pending, released or slashed. -/
def Conserved (s : StakingManager × Ledger) : Prop :=
  ∀ node, s.2.staked node =
    (s.1.books node).total + (s.1.books node).pending + s.2.released node + s.2.slashed node

/-! ### Calls that keep the pending withdrawals -/

/-- A request finds no withdrawal pending and leaves some stake; a slash that leaves none finds no
withdrawal pending. -/
def PendingKept (m : StakingManager) (call : Call) : Prop :=
  match call.op with
  | .requestUnstake amount => m.InCooldown call.node call.now ∨
      (m.books call.node).pending = 0 ∧ amount.toNat ≠ (m.books call.node).total
  | .slash pillar baseSeverity reason history config blockHeight clock =>
    (m.books call.node).pending = 0 ∨
      (m.slashFor call.node pillar baseSeverity reason history config blockHeight clock
        call.now).event.amountSlashed.toNat < (m.books call.node).total
  | _ => True

instance (m : StakingManager) : ∀ call : Call, Decidable (m.PendingKept call)
  | ⟨_, .requestUnstake _, _⟩ => inferInstanceAs (Decidable (_ ∨ _ ∧ _ ≠ _))
  | ⟨_, .slash .., _⟩ => inferInstanceAs (Decidable (_ ∨ _ < _))
  | ⟨_, .stake _, _⟩ | ⟨_, .completeUnstake, _⟩ => .isTrue trivial

/-- A receipt moves the books of its node as it moves the ledger. -/
theorem settles_post {m : StakingManager} {l : Ledger} {call : Call} {receipt : Receipt} (cap : ℕ)
    (hb : (m.books call.node).Sound) (hans : m.Answers call receipt)
    (ha : (m.books call.node).Allows receipt) (hkept : m.PendingKept call)
    (h : l.Settles call.node (m.books call.node)) :
    (l.post call.node (.ok receipt)).Settles call.node
      ((m.books call.node).post cap receipt) := by
  unfold Ledger.Settles at h ⊢
  have hsplit := hb.split
  cases ha with
  | staked amount =>
    simp only [Ledger.post, Ledger.add_self, Books.post]
    omega
  | @requested amount hle =>
    obtain ⟨hop, hcool⟩ := hans
    simp only [PendingKept, hop] at hkept
    obtain ⟨hpending, hpart⟩ := hkept.resolve_left hcool
    simp only [Ledger.post, Books.post]
    rw [if_neg (by omega)]
    omega
  | @released amount heq =>
    simp only [Ledger.post, Ledger.add_self, Books.post]
    omega
  | @slashed amount overflow hover hle hstake =>
    obtain ⟨pillar, baseSeverity, reason, history, config, blockHeight, clock, hop, hamount⟩ := hans
    simp only [PendingKept, hop, ← hamount] at hkept
    simp only [Ledger.post, Ledger.add_self, Books.post]
    split <;> omega

/-! ### Runs -/

theorem conserved_account {s : StakingManager × Ledger} {call : Call} (hm : s.1.Sound)
    (hfits : s.1.PoolFits call) (hkept : s.1.PendingKept call) (h : Conserved s) :
    Conserved (account s call).2 := by
  obtain ⟨m, l⟩ := s
  intro node
  show (l.post call.node (m.perform call).1).Settles node ((m.perform call).2.books node)
  have hnode : l.Settles node (m.books node) := h node
  rcases perform_cases hm hfits with ⟨e, hout, hp⟩ | ⟨receipt, hout, hans, ha, hp⟩
  · rw [hout]
    by_cases e : node = call.node
    · subst e
      rw [hp.self]
      exact hnode
    · rw [hp.other node e]
      exact hnode
  · rw [hout]
    by_cases e : node = call.node
    · subst e
      rw [hp.self]
      exact settles_post _ (hm.books call.node) hans ha hkept hnode
    · rw [hp.other node e, Ledger.settles_other _ e]
      exact hnode

theorem conserved_new (config : StakingConfig) : Conserved (new config, Ledger.empty) := by
  intro node
  simp [Ledger.empty, books, new]

/-- **No stake is lost** along a run in which each stake fits the pool and each call keeps the
pending withdrawals. -/
theorem conserved_of_pendingKept (config : StakingConfig) (calls : List Call)
    (h : AllSteps account (fun s call => s.1.PoolFits call ∧ s.1.PendingKept call)
      (new config, Ledger.empty) calls) :
    Conserved (run account (new config, Ledger.empty) calls) :=
  (run_induction_of_allSteps (fun s => s.1.Sound ∧ Conserved s)
    (fun _ _ hc hs => ⟨hs.1.perform hc.1, conserved_account hs.1 hc.1 hc.2 hs.2⟩) calls _ h
    ⟨sound_new config, conserved_new config⟩).2

/-- A stake, a part of it withdrawn and collected, a slash in between. -/
theorem conserved_of_pendingKept_whale :
    Conserved (run account (new smallCap, Ledger.empty) [⟨whale, .stake 1500, genesis⟩,
      ⟨whale, .requestUnstake 700, genesis⟩, ⟨whale, minorOffence, genesis⟩,
      ⟨whale, .completeUnstake, nextWeek⟩, ⟨whale, .requestUnstake 20, nextWeek⟩]) :=
  conserved_of_pendingKept smallCap _ (by decide +kernel)

/-- **Stake withdrawn in full is lost.**  The request removes the record that holds the pending
amount, and there is nothing left to collect when the cooldown is over. -/
theorem withdrawn_stake_is_lost :
    ¬Conserved (run account (new smallCap, Ledger.empty) [⟨whale, .stake 100, genesis⟩,
      ⟨whale, .requestUnstake 100, genesis⟩, ⟨whale, .completeUnstake, nextWeek⟩]) := by
  intro h
  exact absurd (h whale) (by decide +kernel)

/-! ### Consistency

The cap splits a node's stake in two, and the pool keeps an account of its own of the part above the
cap.  The two agree as long as every stake of the run finds the overflow of its node no larger than
the one it computes.

A slash takes the effective stake first, so that a node can have an overflow while its effective
stake is below the cap.  The next stake recomputes both parts from the total; if the overflow it
computes is smaller than the one in the record, the difference, subtracted saturating, is zero and
the pool is not told (`stake_after_slash_leaves_pool_behind`).
-/

/-- Every record is split at the cap, its overflow is the node's contribution to the pool, and the
pool's total is the sum of the contributions. -/
def Consistent (m : StakingManager) : Prop :=
  (∀ node s, m.stakes[node]? = some s →
    s.effectiveStake.toNat + s.overflowAmount.toNat = s.totalCommitted.toNat ∧
      s.effectiveStake ≤ m.config.perNodeCap ∧
      s.overflowAmount.toNat = m.pool.contribution node) ∧
  m.pool.Balanced

/-- A stake computes an overflow no smaller than the one in the record. -/
def OverflowKept (m : StakingManager) (call : Call) : Prop :=
  match call.op with
  | .stake amount =>
    (m.books call.node).overflow ≤
      (m.books call.node).total + amount.toNat - m.config.perNodeCap.toNat
  | _ => True

instance (m : StakingManager) : ∀ call : Call, Decidable (m.OverflowKept call)
  | ⟨_, .stake _, _⟩ => inferInstanceAs (Decidable (_ ≤ _))
  | ⟨_, .requestUnstake _, _⟩ | ⟨_, .completeUnstake, _⟩ | ⟨_, .slash .., _⟩ => .isTrue trivial

structure ExactBooks (cap : ℕ) (b : Books) : Prop where
  split : b.effective + b.overflow = b.total
  capped : b.effective ≤ cap
  backed : b.overflow = b.contribution

theorem ExactBooks.sound {cap : ℕ} {b : Books} (h : ExactBooks cap b) : b.Sound :=
  ⟨h.split, h.backed.le⟩

theorem ExactBooks.post {cap : ℕ} {b : Books} {receipt : Receipt} (h : ExactBooks cap b)
    (ha : b.Allows receipt)
    (hkept : ∀ amount, receipt = .staked amount → b.overflow ≤ b.total + amount.toNat - cap) :
    ExactBooks cap (b.post cap receipt) := by
  obtain ⟨hsplit, hcap, hback⟩ := h
  cases ha with
  | staked amount =>
    have := hkept amount rfl
    constructor <;> simp only [Books.post] <;> omega
  | requested hle => constructor <;> simp only [Books.post] <;> omega
  | released heq => exact ⟨hsplit, hcap, hback⟩
  | slashed hover hle hstake => constructor <;> simp only [Books.post] <;> omega

structure Exact (config : StakingConfig) (m : StakingManager) : Prop where
  config_eq : m.config = config
  balanced : m.pool.Balanced
  books : ∀ node, ExactBooks config.perNodeCap.toNat (m.books node)

variable {config : StakingConfig} {m : StakingManager} {call : Call}

theorem Exact.sound (h : Exact config m) : m.Sound := ⟨h.balanced, fun node => (h.books node).sound⟩

theorem exact_new (config : StakingConfig) : Exact config (new config) where
  config_eq := rfl
  balanced := NetworkSecurityPool.balanced_new
  books node := by
    constructor <;> simp [StakingManager.books, new, NetworkSecurityPool.contribution,
      NetworkSecurityPool.new]

theorem Exact.perform (h : Exact config m) (hfits : m.PoolFits call)
    (hkept : m.OverflowKept call) : Exact config (m.perform call).2 := by
  have hself : ∃ b, ExactBooks config.perNodeCap.toNat b ∧
      Posted m (m.perform call).2 call.node b := by
    rcases perform_cases h.sound hfits with ⟨_, _, hp⟩ | ⟨receipt, _, hans, ha, hp⟩
    · exact ⟨_, h.books call.node, hp⟩
    · rw [h.config_eq] at hp
      refine ⟨_, (h.books call.node).post ha ?_, hp⟩
      rintro amount rfl
      simpa only [OverflowKept, show call.op = .stake amount from hans, h.config_eq] using hkept
  obtain ⟨b, hb, hp⟩ := hself
  refine ⟨hp.config.trans h.config_eq, hp.balanced, fun node => ?_⟩
  by_cases e : node = call.node
  · subst e
    exact hp.self ▸ hb
  · exact hp.other node e ▸ h.books node

/-- **The records and the pool stay consistent** along every run in which each stake fits the pool
and computes an overflow no smaller than the one in the record. -/
theorem consistent_of_overflowKept (config : StakingConfig) (calls : List Call)
    (h : AllSteps perform (fun m call => m.PoolFits call ∧ m.OverflowKept call) (new config) calls) :
    (run perform (new config) calls).Consistent := by
  have hexact := run_induction_of_allSteps (Exact config)
    (fun m call hc hm => hm.perform hc.1 hc.2) calls (new config) h (exact_new config)
  refine ⟨fun node s hs => ?_, hexact.balanced⟩
  obtain ⟨hsplit, hcap, hback⟩ := hexact.books node
  rw [books_of_some hs] at hsplit hcap hback
  refine ⟨hsplit, ?_, hback⟩
  rw [hexact.config_eq, UInt64.le_iff_toNat_le]
  exact hcap

/-- Above the cap, the stake can be topped up and withdrawn. -/
theorem consistent_of_overflowKept_whale :
    (run perform (new smallCap) [⟨whale, .stake 1500, genesis⟩, ⟨whale, .stake 100, genesis⟩,
      ⟨whale, .requestUnstake 700, genesis⟩, ⟨whale, minorOffence, genesis⟩]).Consistent :=
  consistent_of_overflowKept smallCap _ (by decide +kernel)

/-- **A stake after a slash leaves the pool behind.**  The whale stakes 1500 Lux, 500 of them above
the cap; a minor offence costs 150 Lux of effective stake; 100 Lux more refill the effective stake
and leave 450 above the cap, but the pool still holds 500. -/
theorem stake_after_slash_leaves_pool_behind :
    ValidConfig smallCap ∧
      ¬(run perform (new smallCap) [⟨whale, .stake 1500, genesis⟩, ⟨whale, minorOffence, genesis⟩,
        ⟨whale, .stake 100, genesis⟩]).Consistent := by
  refine ⟨validConfig_smallCap, fun h => ?_⟩
  have hrecord : (run perform (new smallCap) [⟨whale, .stake 1500, genesis⟩,
      ⟨whale, minorOffence, genesis⟩, ⟨whale, .stake 100, genesis⟩]).stakes[whale]? =
      some ⟨1000, 450, 1450, genesis, none, 0⟩ := by decide +kernel
  have hpool : (run perform (new smallCap) [⟨whale, .stake 1500, genesis⟩,
      ⟨whale, minorOffence, genesis⟩, ⟨whale, .stake 100, genesis⟩]).pool.contribution whale =
      500 := by decide +kernel
  have hbacked := (h.1 whale _ hrecord).2.2
  rw [hpool] at hbacked
  exact absurd hbacked (by decide)

end Gratia.StakingManager
