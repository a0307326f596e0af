import Gratia.Staking.Manager

/-!
# Staking — Books

What the staking methods do to the books of one node, in whole Lux: its effective stake, its
overflow, the total of both, the withdrawal it waits for, and its contribution to the pool.  A node
without a record has empty books.
-/

namespace Gratia

open Support Std
open NetworkSecurityPool (Moved)

@[ext] structure Books where
  effective : ℕ
  overflow : ℕ
  total : ℕ
  pending : ℕ
  contribution : ℕ
deriving DecidableEq

namespace Books

/-- The books after a successful call.  A record whose total is gone is removed, and the withdrawal
it waited for with it. -/
def post (cap : ℕ) (b : Books) : StakingManager.Receipt → Books
  | .staked amount =>
    { b with
      effective := min (b.total + amount.toNat) cap
      overflow := b.total + amount.toNat - cap
      total := b.total + amount.toNat
      contribution := b.contribution + (b.total + amount.toNat - cap - b.overflow) }
  | .requested amount =>
    { effective := b.effective - (amount.toNat - min amount.toNat b.overflow)
      overflow := b.overflow - min amount.toNat b.overflow
      total := b.total - amount.toNat
      pending := if b.total - amount.toNat = 0 then 0 else amount.toNat
      contribution := b.contribution - min amount.toNat b.overflow }
  | .released _ => { b with pending := 0 }
  | .slashed amount overflow =>
    { effective := b.effective - (amount.toNat - overflow.toNat)
      overflow := b.overflow - overflow.toNat
      total := b.total - amount.toNat
      pending := if b.total - amount.toNat = 0 then 0 else b.pending
      contribution := b.contribution - overflow.toNat }

inductive Allows (b : Books) : StakingManager.Receipt → Prop where
  | staked (amount : Lux) : Allows b (.staked amount)
  | requested {amount : Lux} (h : amount.toNat ≤ b.total) : Allows b (.requested amount)
  | released {amount : Lux} (h : amount.toNat = b.pending) : Allows b (.released amount)
  | slashed {amount overflow : Lux} (hover : overflow.toNat ≤ b.overflow)
      (hle : overflow.toNat ≤ amount.toNat)
      (hstake : amount.toNat - overflow.toNat ≤ b.effective) : Allows b (.slashed amount overflow)

/-- Stake and overflow are the total, and the pool holds the overflow. -/
structure Sound (b : Books) : Prop where
  split : b.effective + b.overflow = b.total
  covered : b.overflow ≤ b.contribution

theorem Sound.post {b : Books} {receipt : StakingManager.Receipt} (h : b.Sound)
    (ha : b.Allows receipt) (cap : ℕ) : (b.post cap receipt).Sound := by
  obtain ⟨hsplit, hcov⟩ := h
  cases ha with
  | staked amount | requested hle => constructor <;> simp only [Books.post] <;> omega
  | released heq => exact ⟨hsplit, hcov⟩
  | slashed hover hle hstake => constructor <;> simp only [Books.post] <;> omega

end Books

namespace StakingManager

def books (m : StakingManager) (node : NodeId) : Books where
  effective := (m.stakes[node]?).elim 0 fun s => s.effectiveStake.toNat
  overflow := (m.stakes[node]?).elim 0 fun s => s.overflowAmount.toNat
  total := (m.stakes[node]?).elim 0 fun s => s.totalCommitted.toNat
  pending := (m.stakes[node]?).elim 0 fun s => s.unstakePending.toNat
  contribution := m.pool.contribution node

structure Sound (m : StakingManager) : Prop where
  balanced : m.pool.Balanced
  books : ∀ node, (m.books node).Sound

theorem sound_new (config : StakingConfig) : (new config).Sound where
  balanced := NetworkSecurityPool.balanced_new
  books node := by
    constructor <;> simp [StakingManager.books, new, NetworkSecurityPool.contribution,
      NetworkSecurityPool.new]

def PoolFits (m : StakingManager) (call : Call) : Prop :=
  match call.op with
  | .stake amount =>
    (m.books call.node).total + amount.toNat < 2 ^ 64 →
      m.pool.totalOverflow.toNat + ((m.books call.node).total + amount.toNat -
        m.config.perNodeCap.toNat - (m.books call.node).overflow) < 2 ^ 64
  | _ => True

instance (m : StakingManager) (call : Call) : Decidable (m.PoolFits call) := by
  unfold PoolFits
  split <;> infer_instance

structure Posted (m m' : StakingManager) (node : NodeId) (b : Books) : Prop where
  config : m'.config = m.config
  balanced : m'.pool.Balanced
  self : m'.books node = b
  other : ∀ other, other ≠ node → m'.books other = m.books other

variable {m m' : StakingManager} {node : NodeId} {now : DateTime} {amount : Lux} {b : Books}

theorem Posted.refl (h : m.Sound) : Posted m m node (m.books node) :=
  ⟨rfl, h.balanced, rfl, fun _ _ => rfl⟩

theorem Posted.sound (hp : Posted m m' node b) (h : m.Sound) (hb : b.Sound) : m'.Sound where
  balanced := hp.balanced
  books other := by
    by_cases e : other = node
    · subst e
      exact hp.self ▸ hb
    · exact hp.other other e ▸ h.books other

/-! ### Writing a record -/

variable {pool : NetworkSecurityPool}

theorem posted_insert {s : NodeStake} {c : ℕ} (hmoved : Moved m.pool pool node c)
    (histories : ExtTreeMap NodeId SlashingHistory) (banned : ExtTreeMap NodeId DateTime) :
    Posted m ⟨m.config, m.stakes.insert node s, pool, histories, banned⟩ node
      ⟨s.effectiveStake.toNat, s.overflowAmount.toNat, s.totalCommitted.toNat,
        s.unstakePending.toNat, c⟩ where
  config := rfl
  balanced := hmoved.balanced
  self := by simp only [books, getElem?_insert_self', Option.elim_some, hmoved.self]
  other other hne := by
    simp only [books, getElem?_insert_ne _ _ hne.symm, hmoved.other other hne]

theorem posted_erase {c : ℕ} (hmoved : Moved m.pool pool node c)
    (histories : ExtTreeMap NodeId SlashingHistory) (banned : ExtTreeMap NodeId DateTime) :
    Posted m ⟨m.config, m.stakes.erase node, pool, histories, banned⟩ node ⟨0, 0, 0, 0, c⟩ where
  config := rfl
  balanced := hmoved.balanced
  self := by
    simp only [books, ExtTreeMap.getElem?_erase_self, Option.elim_none, hmoved.self]
  other other hne := by
    simp only [books, getElem?_erase_ne _ hne.symm, hmoved.other other hne]

theorem posted_reduced {s : NodeStake} {c : ℕ} (hmoved : Moved m.pool pool node c)
    (hsplit : s.effectiveStake.toNat + s.overflowAmount.toNat = s.totalCommitted.toNat)
    (histories : ExtTreeMap NodeId SlashingHistory) (banned : ExtTreeMap NodeId DateTime) :
    Posted m ⟨m.config,
        if s.totalCommitted = 0 then m.stakes.erase node else m.stakes.insert node s,
        pool, histories, banned⟩ node
      ⟨s.effectiveStake.toNat, s.overflowAmount.toNat, s.totalCommitted.toNat,
        if s.totalCommitted.toNat = 0 then 0 else s.unstakePending.toNat, c⟩ := by
  by_cases hgone : s.totalCommitted = 0
  · have hzero : s.totalCommitted.toNat = 0 := by rw [hgone, UInt64.toNat_zero]
    obtain ⟨heff, hover⟩ := Nat.add_eq_zero_iff.mp (hsplit.trans hzero)
    rw [if_pos hgone, if_pos hzero, heff, hover, hzero]
    exact posted_erase hmoved histories banned
  · rw [if_neg hgone, if_neg (toNat_pos hgone).ne']
    exact posted_insert hmoved histories banned

theorem books_of_getD {entry : NodeStake} (h : (m.stakes[node]?).getD (.fresh now) = entry) :
    m.books node = ⟨entry.effectiveStake.toNat, entry.overflowAmount.toNat,
      entry.totalCommitted.toNat, entry.unstakePending.toNat, m.pool.contribution node⟩ := by
  subst h
  unfold books
  cases m.stakes[node]? <;> rfl

theorem books_of_some {entry : NodeStake} (h : m.stakes[node]? = some entry) :
    m.books node = ⟨entry.effectiveStake.toNat, entry.overflowAmount.toNat,
      entry.totalCommitted.toNat, entry.unstakePending.toNat, m.pool.contribution node⟩ := by
  simp only [books, h, Option.elim_some]

/-! ### The four methods -/

/-- What a call may do to the books of its node: nothing if it fails, and `post` if it succeeds. -/
def Refines (m : StakingManager) (call : Call)
    (out : Except StakingError Receipt × StakingManager) : Prop :=
  match out.1 with
  | .error _ => Posted m out.2 call.node (m.books call.node)
  | .ok receipt =>
    (m.books call.node).Allows receipt ∧
      Posted m out.2 call.node ((m.books call.node).post m.config.perNodeCap.toNat receipt)

theorem stake_refines (hm : m.Sound) (hfits : m.PoolFits ⟨node, .stake amount, now⟩) :
    m.Refines ⟨node, .stake amount, now⟩ (m.perform ⟨node, .stake amount, now⟩) := by
  have hcases := m.stake_cases node amount now
  obtain ⟨entry, hentry⟩ : ∃ entry, (m.stakes[node]?).getD (.fresh now) = entry := ⟨_, rfl⟩
  have hbooks := books_of_getD hentry
  simp only [hentry] at hcases
  rcases hcases with ⟨-, e, h⟩ | ⟨hrefused, hadded⟩
  · simp only [perform, h]
    exact Posted.refl hm
  · have hlt : entry.totalCommitted.toNat + amount.toNat < 2 ^ 64 :=
      Nat.not_le.mp fun hle => hrefused (.inr (.inr hle))
    simp only [PoolFits, hbooks] at hfits
    have hdelta : (saturatingSub (saturatingSub (entry.totalCommitted + amount)
        m.config.perNodeCap) entry.overflowAmount).toNat = entry.totalCommitted.toNat +
          amount.toNat - m.config.perNodeCap.toNat - entry.overflowAmount.toNat := by
      rw [toNat_saturatingSub, toNat_saturatingSub, toNat_add_of_lt hlt]
    obtain ⟨pool, hadd, hmoved⟩ := NetworkSecurityPool.addOverflow_guarded node now
      hm.balanced (hdelta ▸ hfits hlt)
    rw [hadd] at hadded
    rcases hadded with ⟨e, _, ⟨⟩, _⟩ | ⟨_, info, ⟨⟩, h⟩
    simp only [perform, h]
    refine ⟨.staked amount, ?_⟩
    convert posted_insert hmoved m.slashingHistories m.bannedNodes using 1
    simp only [Books.post, hbooks, toNat_min, toNat_saturatingSub, toNat_add_of_lt hlt]

theorem requestUnstake_refines (hm : m.Sound) :
    m.Refines ⟨node, .requestUnstake amount, now⟩
      (m.perform ⟨node, .requestUnstake amount, now⟩) := by
  rcases m.requestUnstake_cases node amount now with
    ⟨e, h⟩ | ⟨entry, pool, info, hs, -, hle, hmoved, h⟩
  · simp only [perform, h]
    exact Posted.refl hm
  · have hbooks := books_of_some hs
    obtain ⟨hsplit, hcov⟩ := hm.books node
    simp only [hbooks] at hsplit hcov
    simp only [perform, h]
    refine ⟨.requested (hbooks ▸ hle), ?_⟩
    have hfrom := toNat_min amount entry.overflowAmount
    have htotal := toNat_sub_of_toNat_le hle
    have hover := toNat_sub_of_toNat_le (hfrom.trans_le (min_le_right _ _))
    have hrest := toNat_sub_of_toNat_le (hfrom.trans_le (min_le_left _ _))
    rw [hfrom] at hover hrest
    have heff : (entry.effectiveStake - (amount - min amount entry.overflowAmount)).toNat =
        entry.effectiveStake.toNat -
          (amount.toNat - min amount.toNat entry.overflowAmount.toNat) := by
      rw [toNat_sub_of_toNat_le (by omega), hrest]
    convert posted_reduced (s := withdrawn amount now entry) (hmoved hm.balanced)
      (by simp only [withdrawn, htotal, hover, heff]; omega) m.slashingHistories m.bannedNodes
      using 1
    simp only [Books.post, withdrawn, hbooks, htotal, hover, heff, hfrom]

theorem completeUnstake_refines (hm : m.Sound) :
    m.Refines ⟨node, .completeUnstake, now⟩ (m.perform ⟨node, .completeUnstake, now⟩) := by
  rcases m.completeUnstake_cases node now with ⟨e, h⟩ | ⟨entry, hs, h⟩
  · simp only [perform, h]
    exact Posted.refl hm
  · have hbooks := books_of_some hs
    simp only [perform, h]
    refine ⟨.released (by rw [hbooks]), ?_⟩
    convert posted_insert (NetworkSecurityPool.Moved.refl hm.balanced)
      m.slashingHistories m.bannedNodes using 1
    simp only [Books.post, hbooks, UInt64.toNat_zero]

theorem slash_refines (hm : m.Sound) (pillar : SlashingPillar) (baseSeverity : SlashingSeverity)
    (reason : String) (history : SlashingHistory) (config : SlashingConfig) (blockHeight : UInt64)
    (clock : DateTime) :
    m.Refines ⟨node, .slash pillar baseSeverity reason history config blockHeight clock, now⟩
      (m.perform ⟨node, .slash pillar baseSeverity reason history config blockHeight clock,
        now⟩) := by
  obtain ⟨result, hresult⟩ : ∃ result, m.slashFor node pillar baseSeverity reason history config
    blockHeight clock now = result := ⟨_, rfl⟩
  obtain rfl : result.event.node = node := by
    rw [← hresult]
    rfl
  simp only [perform, hresult]
  rcases m.applySlash_cases now result with ⟨-, h⟩ | ⟨entry, hs, hpool⟩
  · rw [h]
    exact Posted.refl hm
  · have hbooks := books_of_some hs
    obtain ⟨hsplit, hcov⟩ := hm.books result.event.node
    simp only [hbooks] at hsplit hcov
    have hslashable :
        m.slashable result.event.node = (entry.effectiveStake, entry.overflowAmount) := by
      simp only [slashable, hs]
    -- The built slash takes at most the stake and at most the overflow.
    obtain ⟨fromStake, hstake, hover, hamount⟩ : ∃ fromStake : ℕ,
        fromStake ≤ entry.effectiveStake.toNat ∧
        result.overflowSlashed.toNat ≤ entry.overflowAmount.toNat ∧
        result.event.amountSlashed.toNat = fromStake + result.overflowSlashed.toNat := by
      have hfits := hsplit.trans_lt entry.totalCommitted.toNat_lt
      have hcovered := buildSlashingEvent_covered result.event.node pillar baseSeverity reason
        history config now blockHeight clock hfits
      rw [slashFor, hslashable] at hresult
      rwa [hresult] at hcovered
    rcases hpool with ⟨hlt, -⟩ | ⟨-, pool, histories, hmoved, h⟩
    · omega
    rw [h]
    refine ⟨.slashed (hbooks ▸ hover) (by omega) (by simp only [hbooks]; omega), ?_⟩
    convert posted_reduced
      (s := { reduced result entry with
        overflowAmount := saturatingSub entry.overflowAmount result.overflowSlashed })
      (hmoved hm.balanced) (by simp only [reduced, toNat_saturatingSub]; omega) _ _ using 1
    simp only [Books.post, hbooks, reduced, toNat_saturatingSub]

variable {call : Call}

/-- **Every call posts its receipt or nothing.** -/
theorem perform_refines (hm : m.Sound) (hfits : m.PoolFits call) :
    m.Refines call (m.perform call) := by
  obtain ⟨node, op, now⟩ := call
  cases op with
  | stake amount => exact stake_refines hm hfits
  | requestUnstake amount => exact requestUnstake_refines hm
  | completeUnstake => exact completeUnstake_refines hm
  | slash pillar baseSeverity reason history config blockHeight clock =>
    exact slash_refines hm ..

/-! ### Where a receipt comes from -/

def InCooldown (m : StakingManager) (node : NodeId) (now : DateTime) : Prop :=
  (((m.stakes[node]?).bind (·.unstakeRequestedAt)).bind (m.cooldownLeft now)).isSome

instance (m : StakingManager) (node : NodeId) (now : DateTime) :
    Decidable (m.InCooldown node now) :=
  inferInstanceAs (Decidable (_ = true))

def Answers (m : StakingManager) (call : Call) : Receipt → Prop
  | .staked amount => call.op = .stake amount
  | .requested amount => call.op = .requestUnstake amount ∧ ¬m.InCooldown call.node call.now
  | .released _ => call.op = .completeUnstake
  | .slashed amount _ => ∃ pillar baseSeverity reason history config blockHeight clock,
      call.op = .slash pillar baseSeverity reason history config blockHeight clock ∧
      amount = (m.slashFor call.node pillar baseSeverity reason history config blockHeight clock
        call.now).event.amountSlashed

theorem map_eq_ok {ε α β : Type} {r : Except ε α} {f : α → β} {y : β} (h : r.map f = .ok y) :
    ∃ x, r = .ok x ∧ f x = y := by
  cases r with
  | error e => cases h
  | ok x => exact ⟨x, rfl, Except.ok.inj h⟩

theorem answers_of_ok {receipt : Receipt} (h : (m.perform call).1 = .ok receipt) :
    m.Answers call receipt := by
  obtain ⟨node, op, now⟩ := call
  cases op with
  | stake amount =>
    obtain ⟨_, _, rfl⟩ := map_eq_ok h
    rfl
  | requestUnstake amount =>
    obtain ⟨info, hinfo, rfl⟩ := map_eq_ok h
    rcases m.requestUnstake_cases node amount now with ⟨e, he⟩ | ⟨s, _, _, hs, hcool, -⟩
    · change (m.requestUnstake node amount now).1 = _ at hinfo
      rw [he] at hinfo
      cases hinfo
    · exact ⟨rfl, by simp [InCooldown, hs, hcool]⟩
  | completeUnstake =>
    obtain ⟨_, _, rfl⟩ := map_eq_ok h
    rfl
  | slash pillar baseSeverity reason history config blockHeight clock =>
    obtain ⟨_, _, rfl⟩ := map_eq_ok h
    exact ⟨pillar, baseSeverity, reason, history, config, blockHeight, clock, rfl, rfl⟩

theorem perform_cases (hm : m.Sound) (hfits : m.PoolFits call) :
    (∃ e, (m.perform call).1 = .error e ∧
      Posted m (m.perform call).2 call.node (m.books call.node)) ∨
    ∃ receipt, (m.perform call).1 = .ok receipt ∧ m.Answers call receipt ∧
      (m.books call.node).Allows receipt ∧
      Posted m (m.perform call).2 call.node
        ((m.books call.node).post m.config.perNodeCap.toNat receipt) := by
  have h := perform_refines hm hfits
  unfold Refines at h
  cases hout : (m.perform call).1 with
  | error e =>
    rw [hout] at h
    exact .inl ⟨e, rfl, h⟩
  | ok receipt =>
    rw [hout] at h
    exact .inr ⟨receipt, rfl, answers_of_ok hout, h⟩

theorem Sound.perform (hm : m.Sound) (hfits : m.PoolFits call) : (m.perform call).2.Sound := by
  rcases perform_cases hm hfits with ⟨_, _, hp⟩ | ⟨receipt, _, _, ha, hp⟩
  · exact hp.sound hm (hm.books call.node)
  · exact hp.sound hm ((hm.books call.node).post ha _)

end StakingManager

end Gratia
