import Gratia.State.Nonces
import Gratia.State.Supply
import Gratia.Wallet.Manager

/-!
# Wallet — Ledger

A wallet and the ledger its transactions go to.  Calls to the wallet may come at any time; blocks
take what the wallet has issued, in order, together with transactions of anybody else.  The wallet's
caches run ahead of the ledger by what has been issued and not yet applied: its nonce by the number
of these transactions, its balance by at least what they spend (`InStep`).  A transaction that pays
the wallet's own account only adds to the ledger's side.
-/

namespace Gratia

open Support
open StateDb StateManager WalletManager

variable (P : Platform) (m : StateManager) (a : Address)

/-! ### The ledger's side -/

/-- Every account can be read, and all of them together are worth less than `2 ^ 64`. -/
structure SoundStore (s : InMemoryStore) : Prop where
  readable : ∀ b, ∃ acct, getAccount P b s = .ok acct
  supply_lt : supply P s < 2 ^ 64

variable {P m a} {s s' : InMemoryStore} {tx : Transaction} {txs : List Transaction}

theorem readable_putAccount (h : ∀ b, ∃ acct, getAccount P b s = .ok acct) (b : Address)
    (acct : AccountState) (c : Address) :
    ∃ acct', getAccount P c (putAccount P b acct s) = .ok acct' := by
  by_cases hbc : b = c
  · subst hbc
    exact ⟨acct, getAccount_putAccount_self P b acct s⟩
  · rw [getAccount_putAccount_ne P hbc]
    exact h c

theorem SoundStore.applyTransaction (hs : SoundStore P s)
    (h : (applyTransaction P tx).run s = .ok () s') : SoundStore P s' := by
  refine ⟨?_, ?_⟩
  · obtain ⟨sender, acct, -, hcr⟩ := applyTransaction_ok.mp h
    have hdebit := readable_putAccount hs.readable sender (debited tx acct)
    rcases creditRecipient_ok hcr with ⟨-, rfl⟩ | ⟨recipient, amount, acct', -, -, -, rfl⟩
    · exact hdebit
    · exact readable_putAccount hdebit recipient _
  · have hsup := (supply_applyTransaction hs.supply_lt h).2
    have := hs.supply_lt
    omega

/-- What a transfer or a stake takes from its sender. -/
def spent (tx : Transaction) : ℕ :=
  match tx.payload with
  | .transfer _ amount | .stake amount => amount.toNat + tx.fee.toNat
  | _ => tx.fee.toNat

/-- The payload is one that the wallet's two calls make. -/
def Sends (tx : Transaction) : Prop :=
  (∃ recipient amount, tx.payload = .transfer recipient amount) ∨
    ∃ amount, tx.payload = .stake amount

variable (P a) in
/-- The account's next nonce is `n`, and it has at least `b`. -/
def Holds (s : InMemoryStore) (n : UInt64) (b : ℕ) : Prop :=
  ∃ acct, getAccount P a s = .ok acct ∧ acct.nonce = n ∧ b ≤ acct.balance.toNat

variable {n : UInt64} {b : ℕ}

theorem Holds.congr (h : Holds P a s n b) (hd : s'.data .accounts = s.data .accounts) :
    Holds P a s' n b := by
  obtain ⟨acct, hacct, hrest⟩ := h
  exact ⟨acct, (getAccount_congr P hd a).trans hacct, hrest⟩

theorem SoundStore.congr (h : SoundStore P s) (hd : s'.data .accounts = s.data .accounts) :
    SoundStore P s' := by
  refine ⟨fun c => ?_, ?_⟩
  · rw [getAccount_congr P hd c]
    exact h.readable c
  · rw [supply, hd]
    exact h.supply_lt

theorem Holds.creditRecipient (h : Holds P a s n b)
    (hcr : (creditRecipient P tx).run s = .ok () s') : Holds P a s' n b := by
  obtain ⟨acct, hacct, hn, hb⟩ := h
  rcases creditRecipient_ok hcr with ⟨-, rfl⟩ | ⟨recipient, amount, acct', -, hrec, hlt, rfl⟩
  · exact ⟨acct, hacct, hn, hb⟩
  · by_cases hra : recipient = a
    · subst hra
      cases hacct.symm.trans hrec
      refine ⟨_, getAccount_putAccount_self P _ _ _, hn, ?_⟩
      simp only [toNat_add_of_lt hlt]
      omega
    · exact ⟨acct, (getAccount_putAccount_ne P hra _ _).trans hacct, hn, hb⟩

theorem Holds.applyTransaction_other (h : Holds P a s n b) (hother : senderOf P tx ≠ some a)
    (hrun : (applyTransaction P tx).run s = .ok () s') : Holds P a s' n b := by
  obtain ⟨sender, acct, hchk, hcr⟩ := applyTransaction_ok.mp hrun
  refine Holds.creditRecipient ?_ hcr
  have hne : sender ≠ a := by
    rintro rfl
    exact hother (senderOf_eq.mpr ((senderChecks_ok P).mp hchk).1)
  obtain ⟨acct', hacct', hrest⟩ := h
  exact ⟨acct', (getAccount_putAccount_ne P hne _ _).trans hacct', hrest⟩

variable {acct : AccountState}

theorem covers_of_spent_le (hsends : Sends tx) (hw : worth acct < 2 ^ 64)
    (hle : spent tx ≤ acct.balance.toNat) : Covers tx acct := by
  unfold worth at hw
  rcases hsends with ⟨recipient, amount, hp⟩ | ⟨amount, hp⟩
  · simp only [spent, Covers, hp] at hle ⊢
    exact hle
  · simp only [spent, Covers, hp] at hle ⊢
    exact ⟨hle, by omega⟩

theorem toNat_balance_debited (hsends : Sends tx) (hex : ExactDebit tx acct) :
    (debited tx acct).balance.toNat + spent tx = acct.balance.toNat := by
  rcases hsends with ⟨recipient, amount, hp⟩ | ⟨amount, hp⟩
  · simp only [ExactDebit, debited, spent, hp] at hex ⊢
    omega
  · simp only [ExactDebit, debited, spent, hp] at hex ⊢
    omega

theorem exists_creditRecipient {sender : Address} (hs : SoundStore P s)
    (hacct : getAccount P sender s = .ok acct) (hex : ExactDebit tx acct) :
    ∃ s', (creditRecipient P tx).run (putAccount P sender (debited tx acct) s) = .ok () s' := by
  unfold creditRecipient
  split
  · next recipient amount hp =>
      obtain ⟨acct', hrec⟩ := readable_putAccount hs.readable sender (debited tx acct) recipient
      have hput := supply_putAccount hacct (debited tx acct)
      have hworth := worth_debited hex
      have hle := worth_le_supply hrec
      have hlt := hs.supply_lt
      simp only [handedOn, hp] at hworth
      rw [credit_run, hrec]
      refine ⟨_, if_pos ?_⟩
      simp only [worth] at hle
      omega
  · exact ⟨_, rfl⟩

/-- **The wallet's next transaction is applied**: an account that holds what it spends, and has its
nonce next, holds the rest afterwards. -/
theorem applyTransaction_own (hs : SoundStore P s) (hsender : senderOf P tx = some a)
    (hsends : Sends tx) (h : Holds P a s tx.nonce (spent tx + b)) :
    ∃ s', (applyTransaction P tx).run s = .ok () s' ∧ Holds P a s' (tx.nonce + 1) b := by
  obtain ⟨acct, hacct, hn, hb⟩ := h
  have hw : worth acct < 2 ^ 64 := (worth_le_supply hacct).trans_lt hs.supply_lt
  have hcov : Covers tx acct := covers_of_spent_le hsends hw (by omega)
  have hex := exactDebit_of_covers hcov (unstake_fits hcov hw)
  obtain ⟨s', hcr⟩ := exists_creditRecipient hs hacct hex
  have hchk : senderChecks P tx s = .ok (a, acct) :=
    (senderChecks_ok P).mpr ⟨senderOf_eq.mp hsender, hacct, hn, hcov⟩
  refine ⟨s', applyTransaction_ok.mpr ⟨a, acct, hchk, hcr⟩, Holds.creditRecipient ?_ hcr⟩
  refine ⟨_, getAccount_putAccount_self P _ _ _, by rw [debited_nonce, hn], ?_⟩
  have := toNat_balance_debited hsends hex
  omega

/-! ### Queues -/

variable (P a) in
/-- Transactions of the address that carry the nonces from `n` to `k`, one after the other. -/
def Queued : UInt64 → List Transaction → UInt64 → Prop
  | n, [], k => n = k
  | n, tx :: txs, k => senderOf P tx = some a ∧ Sends tx ∧ tx.nonce = n ∧ Queued (n + 1) txs k

def spentAll (txs : List Transaction) : ℕ := (txs.map spent).sum

variable (P a) in
/-- The transactions of other senders are applied when their turn comes. -/
def OthersApply : List Transaction → InMemoryStore → Prop
  | [], _ => True
  | tx :: txs, s => (senderOf P tx ≠ some a → ∃ s', (applyTransaction P tx).run s = .ok () s') ∧
      ∀ s', (applyTransaction P tx).run s = .ok () s' → OthersApply txs s'

variable {k : UInt64} {rest : List Transaction}

theorem Queued.snoc (h : Queued P a n txs k) (hsender : senderOf P tx = some a) (hsends : Sends tx)
    (hnonce : tx.nonce = k) : Queued P a n (txs ++ [tx]) (k + 1) := by
  induction txs generalizing n with
  | nil =>
    obtain rfl := h
    exact ⟨hsender, hsends, hnonce, rfl⟩
  | cons t txs ih =>
    obtain ⟨h₁, h₂, h₃, htail⟩ := h
    exact ⟨h₁, h₂, h₃, ih htail⟩

/-- **A list of transactions is applied** when the wallet's among them are the next of its queue,
and the account holds what the queue spends. -/
theorem applyTransactions_queued (hs : SoundStore P s)
    (hq : Queued P a n (sentBy P a txs ++ rest) k)
    (hh : Holds P a s n (b + spentAll (sentBy P a txs ++ rest))) (ho : OthersApply P a txs s) :
    ∃ s', (forM txs (applyTransaction P)).run s = .ok () s' ∧ SoundStore P s' ∧
      ∃ n', Queued P a n' rest k ∧ Holds P a s' n' (b + spentAll rest) := by
  induction txs generalizing s n with
  | nil => exact ⟨s, rfl, hs, n, hq, hh⟩
  | cons tx txs ih =>
    obtain ⟨hthis, hthen⟩ := ho
    by_cases hown : senderOf P tx = some a
    · have hcons : sentBy P a (tx :: txs) = tx :: sentBy P a txs := by simp [sentBy, hown]
      rw [hcons, List.cons_append] at hq hh
      obtain ⟨-, hsends, rfl, htail⟩ := hq
      have hsum : b + spentAll (tx :: (sentBy P a txs ++ rest)) =
          spent tx + (b + spentAll (sentBy P a txs ++ rest)) := by
        simp only [spentAll, List.map_cons, List.sum_cons]
        omega
      rw [hsum] at hh
      obtain ⟨s₁, hrun, hh₁⟩ := applyTransaction_own hs hown hsends hh
      obtain ⟨s', hruns, hrest⟩ := ih (hs.applyTransaction hrun) htail hh₁ (hthen s₁ hrun)
      exact ⟨s', forM_cons_ok.mpr ⟨s₁, hrun, hruns⟩, hrest⟩
    · have hcons : sentBy P a (tx :: txs) = sentBy P a txs := by simp [sentBy, hown]
      rw [hcons] at hq hh
      obtain ⟨s₁, hrun⟩ := hthis hown
      obtain ⟨s', hruns, hrest⟩ := ih (hs.applyTransaction hrun) hq
        (hh.applyTransaction_other hown hrun) (hthen s₁ hrun)
      exact ⟨s', forM_cons_ok.mpr ⟨s₁, hrun, hruns⟩, hrest⟩

theorem othersApply_of_ok (h : (forM txs (applyTransaction P)).run s = .ok () s') :
    OthersApply P a txs s := by
  induction txs generalizing s with
  | nil => trivial
  | cons tx txs ih =>
    obtain ⟨s₁, h₁, h₂⟩ := forM_cons_ok.mp h
    refine ⟨fun _ => ⟨s₁, h₁⟩, fun t ht => ?_⟩
    cases h₁.symm.trans ht
    exact ih h₂

theorem othersApply_of_own (h : ∀ tx ∈ txs, senderOf P tx = some a) : OthersApply P a txs s := by
  induction txs generalizing s with
  | nil => trivial
  | cons tx txs ih =>
    obtain ⟨hown, hrest⟩ := List.forall_mem_cons.mp h
    exact ⟨fun hno => absurd hown hno, fun _ _ => ih hrest⟩

/-! ### The wallet and the ledger -/

variable {w w' : WalletManager} {c : Call}

theorem sends_of_issued (h : Issued w c tx w') : Sends tx ∧ spent tx = c.cost := by
  have hp := h.payload
  have hf := h.fee
  cases c with
  | transfer recipient amount fee =>
    exact ⟨.inl ⟨recipient, amount, hp⟩, by rw [spent, hp, hf]; rfl⟩
  | stake amount fee => exact ⟨.inr ⟨amount, hp⟩, by rw [spent, hp, hf]; rfl⟩

theorem senderOf_issued (h : Issued w c tx w') (haddr : w.address P = .ok a) :
    senderOf P tx = some a := by
  unfold WalletManager.address at haddr
  rw [h.sender, except_ok_bind] at haddr
  exact senderOf_eq.mpr haddr

/-- A wallet, what it has issued and the ledger has not applied, and the ledger's store. -/
structure WalletLedger where
  wallet : WalletManager
  pending : List Transaction
  store : InMemoryStore

namespace WalletLedger

variable (P m a) in
/-- The wallet is called, or a block is applied, in which the wallet's transactions are the next of
those pending. -/
inductive Step : WalletLedger → WalletLedger → Prop
  | call (x : WalletLedger) (now : DateTime) (c : Call) :
      Step x { x with
        wallet := (x.wallet.send P now c).2
        pending := x.pending ++ (x.wallet.send P now c).1.toOption.toList }
  | block (x : WalletLedger) (block : Block) (rest : List Transaction) (s' : InMemoryStore)
      (hpending : x.pending = sentBy P a block.transactions ++ rest)
      (happly : (applyBlock P m block).run x.store = .ok () s') :
      Step x { x with pending := rest, store := s' }

variable (P a) in
/-- The wallet is ahead of the ledger by what is pending. -/
structure InStep (x : WalletLedger) : Prop where
  address : x.wallet.address P = .ok a
  sound : SoundStore P x.store
  ahead : ∃ n, Queued P a n x.pending x.wallet.nonce ∧
    Holds P a x.store n (x.wallet.balance.toNat + spentAll x.pending)

variable {x y : WalletLedger}

/-- **A block is applied** when it fits the chain, takes the next of the wallet's transactions, and
the others in it can be applied. -/
theorem InStep.exists_applyBlock (h : InStep P a x) {block : Block}
    (hpending : x.pending = sentBy P a block.transactions ++ rest) (hfits : Fits block x.store)
    (ho : OthersApply P a block.transactions x.store) :
    ∃ s', (applyBlock P m block).run x.store = .ok () s' ∧
      InStep P a { x with pending := rest, store := s' } := by
  obtain ⟨n, hq, hh⟩ := h.ahead
  rw [hpending] at hq hh
  obtain ⟨s₁, hrun, hsound, n', hq', hh'⟩ := applyTransactions_queued h.sound hq hh ho
  have hdata := finishBlock_accounts P m block s₁
  exact ⟨_, applyBlock_ok.mpr ⟨headerChecks_ok.mpr hfits, s₁, hrun, rfl⟩, h.address,
    hsound.congr hdata, n', hq', hh'.congr hdata⟩

theorem InStep.send (h : InStep P a x) (now : DateTime) (c : Call) :
    InStep P a { x with
      wallet := (x.wallet.send P now c).2
      pending := x.pending ++ (x.wallet.send P now c).1.toOption.toList } := by
  rcases send_cases (P := P) x.wallet now c with ⟨e, he⟩ | ⟨tx, w', he, hi⟩
  · rw [he]
    simpa [Except.toOption] using h
  · obtain ⟨hsends, hspent⟩ := sends_of_issued hi
    obtain ⟨n, hq, hh⟩ := h.ahead
    have hsum : w'.balance.toNat + spentAll (x.pending ++ [tx]) =
        x.wallet.balance.toNat + spentAll x.pending := by
      have := hi.balance
      simp only [spentAll, List.map_append, List.sum_append, List.map_singleton, List.sum_singleton]
      omega
    rw [he]
    refine ⟨?_, h.sound, n, ?_, ?_⟩
    · rw [WalletManager.address, hi.keystore]
      exact h.address
    · rw [hi.next]
      exact hq.snoc (senderOf_issued hi h.address) hsends hi.nonce
    · show Holds P a x.store n (w'.balance.toNat + spentAll (x.pending ++ [tx]))
      rw [hsum]
      exact hh

/-- **Every step keeps the wallet in step.** -/
theorem InStep.step (h : InStep P a x) (hstep : Step P m a x y) : InStep P a y := by
  cases hstep with
  | call now c => exact h.send now c
  | block block rest s' hpending happly =>
    obtain ⟨hhead, s₁, hrun, -⟩ := applyBlock_ok.mp happly
    obtain ⟨s'', happly', hin⟩ := h.exists_applyBlock hpending (headerChecks_ok.mp hhead)
      (othersApply_of_ok hrun)
    cases happly.symm.trans happly'
    exact hin

variable (P a) in
/-- The start: the wallet's caches are those of its account, and nothing is pending. -/
structure Synced (x : WalletLedger) : Prop where
  address : x.wallet.address P = .ok a
  account : ∃ acct, getAccount P a x.store = .ok acct ∧ acct.nonce = x.wallet.nonce ∧
    acct.balance = x.wallet.balance
  pending : x.pending = []

/-- **The wallet never issues what the ledger refuses.**  Along every run of calls and blocks from a
synced start, a block that fits the chain and takes the next of the wallet's transactions is
applied, unless one of the other transactions in it is not; the wallet's balance is at most the
ledger's; and the nonces agree when nothing is pending. -/
theorem wallet_never_refused (hsync : Synced P a x)
    (hread : ∀ b, ∃ acct, getAccount P b x.store = .ok acct) (hsupply : supply P x.store < 2 ^ 64)
    (hrun : Relation.ReflTransGen (Step P m a) x y) :
    (∀ block rest, y.pending = sentBy P a block.transactions ++ rest → Fits block y.store →
      OthersApply P a block.transactions y.store →
        ∃ s', (applyBlock P m block).run y.store = .ok () s') ∧
    ∃ acct, getAccount P a y.store = .ok acct ∧ y.wallet.balance ≤ acct.balance ∧
      (y.pending = [] → y.wallet.nonce = acct.nonce) := by
  have hin : InStep P a y := by
    induction hrun with
    | refl =>
      obtain ⟨acct, hacct, hn, hb⟩ := hsync.account
      refine ⟨hsync.address, ⟨hread, hsupply⟩, acct.nonce, ?_, acct, hacct, rfl, ?_⟩
      · rw [hsync.pending]
        exact hn
      · rw [hsync.pending, ← hb]
        exact le_rfl
    | tail _ hstep ih => exact ih.step hstep
  constructor
  · intro block rest hpending hfits ho
    obtain ⟨s', happly, -⟩ := hin.exists_applyBlock hpending hfits ho
    exact ⟨s', happly⟩
  · obtain ⟨n, hq, acct, hacct, rfl, hb⟩ := hin.ahead
    refine ⟨acct, hacct, UInt64.le_iff_toNat_le.mpr ((Nat.le_add_right _ _).trans hb), ?_⟩
    intro hnil
    rw [hnil] at hq
    exact Eq.symm hq

/-! ### A wallet that pays itself -/

open Reference

def payer : WalletLedger where
  wallet :=
    { keystore :=
        { sign := fun message => .ok (sign (key 7) message)
          publicKeyBytes := .ok (key 7) }
      balance := 1000 }
  pending := []
  store := putAccount reference (addressOf (key 7)) { balance := 1000 } .new

def requests : List Call :=
  [.transfer (addressOf (key 7)) 600 10,
   .transfer (addressOf (key 8)) 600 10, .stake 300 5]

def asked (x : WalletLedger) (c : Call) : WalletLedger :=
  { x with
    wallet := (x.wallet.send reference ⟨0, 0⟩ c).2
    pending := x.pending ++ (x.wallet.send reference ⟨0, 0⟩ c).1.toOption.toList }

theorem reaches_asked (x : WalletLedger) (cs : List Call) :
    Relation.ReflTransGen (Step reference {} (addressOf (key 7))) x
      (cs.foldl asked x) := by
  induction cs generalizing x with
  | nil => exact .refl
  | cons c cs ih => exact .head (.call x ⟨0, 0⟩ c) (ih _)

def firstBlockOf (x : WalletLedger) : Block :=
  blockOf (headerAt 1 {} (node 1)) x.pending

theorem wallet_never_refused_payer :
    (requests.foldl asked payer).pending.length = 2 ∧
    ∃ s', (applyBlock reference {} (firstBlockOf (requests.foldl asked payer))).run payer.store =
      .ok () s' := by
  have hread : ∀ b, ∃ acct, getAccount reference b payer.store = .ok acct :=
    readable_putAccount (fun b => ⟨{}, rfl⟩) _ _
  have hsync : Synced reference (addressOf (key 7)) payer :=
    ⟨rfl, ⟨_, getAccount_putAccount_self _ _ _ _, rfl, rfl⟩, rfl⟩
  have hrefused := (wallet_never_refused (m := {}) hsync hread (by decide +kernel)
    (reaches_asked payer requests)).1
  refine ⟨by decide +kernel, hrefused _ [] (by decide +kernel)
    ⟨0, none, by decide +kernel, by decide +kernel, rfl, nofun⟩
    (othersApply_of_own (by decide +kernel))⟩

end WalletLedger

end Gratia
