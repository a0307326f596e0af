import Gratia.Core.Reference
import Gratia.State.Blocks

/-!
# State — Supply

The supply is the sum of balance and stake over every account of the store.  Writing an account
moves it by what the account gained or lost (`supply_putAccount`), so a transaction moves it by its
fee: a transfer takes `amount + fee` from its sender and gives `amount` to its recipient, whether or
not the two are the same account, and the other kinds move value inside one account.

The arithmetic is that of `u64`.  `ExactDebit` and `ExactCredit` say that each operation a
transaction performs has the value it has on the integers; the checks give this for all of them but
one, the `balance - fee + amount` of an unstake, which is exact because one account's balance and
stake together are at most the supply.
-/

namespace Gratia

open Support StateDb

namespace StateManager

variable (P : Platform) (m : StateManager)

/-! ### The supply of a store -/

def worth (acct : AccountState) : ℕ := acct.balance.toNat + acct.staked.toNat

/-- What a stored account is worth; bytes that are no account are worth nothing. -/
def worthOf (data : Bytes) : ℕ :=
  match P.account.take data with
  | some (acct, _) => worth acct
  | none => 0

def supply (s : InMemoryStore) : ℕ := weight (worthOf P) (s.data .accounts)

def fees (txs : List Transaction) : ℕ := (txs.map fun tx => tx.fee.toNat).sum

variable {P} {tx : Transaction} {acct : AccountState} {s s' : InMemoryStore}

theorem worthOf_getAccount {a : Address} (h : getAccount P a s = .ok acct) :
    ((s.data .accounts)[a.bytes.bytes]?).elim 0 (worthOf P) = worth acct := by
  unfold getAccount InMemoryStore.get at h
  cases hd : (s.data .accounts)[a.bytes.bytes]? with
  | none =>
    simp only [hd, Except.ok.injEq] at h
    subst h
    rfl
  | some data =>
    simp only [hd, deserialize] at h
    cases ht : P.account.take data with
    | none => simp [ht] at h
    | some p =>
      simp only [ht, Except.ok.injEq] at h
      subst h
      simp [worthOf, ht]

/-- **Writing an account moves the supply by the account's gain.** -/
theorem supply_putAccount {a : Address} (h : getAccount P a s = .ok acct) (acct' : AccountState) :
    supply P (putAccount P a acct' s) + worth acct = supply P s + worth acct' := by
  have hw := weight_insert (worthOf P) (s.data .accounts) a.bytes.bytes
    (P.account.put acct')
  rw [worthOf_getAccount h] at hw
  have hv : worthOf P (P.account.put acct') = worth acct' := by
    simp [worthOf, P.account.take_put_self]
  simpa [supply, putAccount, hv] using hw

theorem worth_le_supply {a : Address} (h : getAccount P a s = .ok acct) :
    worth acct ≤ supply P s := by
  have := weight_erase (worthOf P) (s.data .accounts) a.bytes.bytes
  rw [worthOf_getAccount h] at this
  simp only [supply]
  omega

/-! ### Exact arithmetic -/

/-- Every operation of the debit has its integer value. -/
def ExactDebit (tx : Transaction) (acct : AccountState) : Prop :=
  match tx.payload with
  | .transfer _ amount =>
    (amount + tx.fee).toNat = amount.toNat + tx.fee.toNat ∧
    (acct.balance - (amount + tx.fee)).toNat + (amount + tx.fee).toNat = acct.balance.toNat
  | .stake amount =>
    (amount + tx.fee).toNat = amount.toNat + tx.fee.toNat ∧
    (acct.balance - (amount + tx.fee)).toNat + (amount + tx.fee).toNat = acct.balance.toNat ∧
    (acct.staked + amount).toNat = acct.staked.toNat + amount.toNat
  | .unstake amount =>
    (acct.balance - tx.fee).toNat + tx.fee.toNat = acct.balance.toNat ∧
    (acct.balance - tx.fee + amount).toNat = (acct.balance - tx.fee).toNat + amount.toNat ∧
    (acct.staked - amount).toNat + amount.toNat = acct.staked.toNat
  | _ => (acct.balance - tx.fee).toNat + tx.fee.toNat = acct.balance.toNat

/-- The credit of a transfer, made in the store `s`, has its integer value. -/
def ExactCredit (P : Platform) (tx : Transaction) (s : InMemoryStore) : Prop :=
  ∀ recipient amount acct, tx.payload = .transfer recipient amount →
    getAccount P recipient s = .ok acct →
    (acct.balance + amount).toNat = acct.balance.toNat + amount.toNat

/-- No balance, stake or debit that `tx` computes in `s` wraps around. -/
def Exact (P : Platform) (tx : Transaction) (s : InMemoryStore) : Prop :=
  ∃ sender acct, senderChecks P tx s = .ok (sender, acct) ∧ ExactDebit tx acct ∧
    ExactCredit P tx (putAccount P sender (debited tx acct) s)

theorem toNat_sub_add {a b : Lux} (h : b.toNat ≤ a.toNat) : (a - b).toNat + b.toNat = a.toNat := by
  rw [toNat_sub_of_toNat_le h]
  omega

theorem exactDebit_of_covers (hc : Covers tx acct) (hfits : ∀ amount, tx.payload = .unstake amount →
    acct.balance.toNat - tx.fee.toNat + amount.toNat < 2 ^ 64) : ExactDebit tx acct := by
  have hb := acct.balance.toNat_lt
  cases hp : tx.payload with
  | transfer recipient amount =>
    simp only [Covers, ExactDebit, hp] at hc ⊢
    have ht := toNat_add_of_lt (a := amount) (b := tx.fee) (by omega)
    exact ⟨ht, toNat_sub_add (by omega)⟩
  | stake amount =>
    simp only [Covers, ExactDebit, hp] at hc ⊢
    have ht := toNat_add_of_lt (a := amount) (b := tx.fee) (by omega)
    exact ⟨ht, toNat_sub_add (by omega), toNat_add_of_lt hc.2⟩
  | unstake amount =>
    have hfits := hfits amount hp
    simp only [Covers, ExactDebit, hp] at hc ⊢
    have hf := toNat_sub_add hc.1
    exact ⟨hf, toNat_add_of_lt (by omega), toNat_sub_add hc.2⟩
  | _ =>
    simp only [Covers, ExactDebit, hp] at hc ⊢
    exact toNat_sub_add hc

theorem unstake_fits (hc : Covers tx acct) (hw : worth acct < 2 ^ 64) (amount : Lux)
    (hp : tx.payload = .unstake amount) :
    acct.balance.toNat - tx.fee.toNat + amount.toNat < 2 ^ 64 := by
  simp only [Covers, hp] at hc
  unfold worth at hw
  omega

/-- What a transaction hands on to another account. -/
def handedOn (tx : Transaction) : ℕ :=
  match tx.payload with
  | .transfer _ amount => amount.toNat
  | _ => 0

theorem worth_debited (h : ExactDebit tx acct) :
    worth (debited tx acct) + tx.fee.toNat + handedOn tx = worth acct := by
  cases hp : tx.payload <;>
    simp only [ExactDebit, worth, debited, handedOn, hp] at h ⊢ <;>
    omega

/-! ### Conservation -/

/-- **A transaction burns its fee**, and nothing it computes wraps around. -/
theorem supply_applyTransaction (hs : supply P s < 2 ^ 64)
    (h : (applyTransaction P tx).run s = .ok () s') :
    Exact P tx s ∧ supply P s' + tx.fee.toNat = supply P s := by
  obtain ⟨sender, acct, hchk, hcr⟩ := applyTransaction_ok.mp h
  obtain ⟨-, hacct, -, hcov⟩ := (senderChecks_ok P).mp hchk
  have hdeb : ExactDebit tx acct :=
    exactDebit_of_covers hcov (unstake_fits hcov ((worth_le_supply hacct).trans_lt hs))
  have hput := supply_putAccount hacct (debited tx acct)
  have hworth := worth_debited hdeb
  rcases creditRecipient_ok hcr with ⟨hno, rfl⟩ | ⟨recipient, amount, acct', hp, hrec, hlt, rfl⟩
  · refine ⟨⟨sender, acct, hchk, hdeb, fun r a _ hp _ => absurd hp (hno r a)⟩, ?_⟩
    have hz : handedOn tx = 0 := by
      unfold handedOn
      split
      · exact absurd ‹_› (hno _ _)
      · rfl
    omega
  · have hex := toNat_add_of_lt hlt
    refine ⟨⟨sender, acct, hchk, hdeb, ?_⟩, ?_⟩
    · intro r a c hp' hc
      obtain ⟨rfl, rfl⟩ : recipient = r ∧ amount = a := by
        simpa using hp.symm.trans hp'
      rw [hrec] at hc
      cases hc
      exact hex
    · have hz : handedOn tx = amount.toNat := by simp [handedOn, hp]
      have hput' := supply_putAccount hrec { acct' with balance := acct'.balance + amount }
      simp only [worth] at hput' hput hworth
      omega

/-- A list of transactions burns its fees, exactly at every one of them. -/
theorem supply_applyTransactions (hs : supply P s < 2 ^ 64) {txs : List Transaction}
    (h : (forM txs (applyTransaction P)).run s = .ok () s') :
    supply P s' + fees txs = supply P s ∧
      ∀ done tx rest, txs = done ++ tx :: rest → ∀ s₁,
        (forM done (applyTransaction P)).run s = .ok () s₁ → Exact P tx s₁ := by
  induction txs generalizing s with
  | nil =>
    cases h
    exact ⟨rfl, fun done tx rest he => absurd he (by simp)⟩
  | cons tx txs ih =>
    obtain ⟨s₁, h₁, h₂⟩ := forM_cons_ok.mp h
    obtain ⟨hex, hsup⟩ := supply_applyTransaction hs h₁
    obtain ⟨hsum, hall⟩ := ih (by omega) h₂
    refine ⟨by simp only [fees, List.map_cons, List.sum_cons] at hsum ⊢; omega, ?_⟩
    intro done tx' rest he t ht
    cases done with
    | nil =>
      cases he
      cases ht
      exact hex
    | cons d done =>
      cases he
      obtain ⟨t₁, hd₁, hd₂⟩ := forM_cons_ok.mp ht
      rw [h₁] at hd₁
      cases hd₁
      exact hall done tx' rest rfl t hd₂

theorem supply_finishBlock (block : Block) : supply P (finishBlock P m block s) = supply P s := by
  simp only [supply, finishBlock_accounts]

theorem supply_applyBlock {block : Block} (hs : supply P s < 2 ^ 64)
    (h : (applyBlock P m block).run s = .ok () s') :
    supply P s' + fees block.transactions = supply P s ∧
      ∀ done tx rest, block.transactions = done ++ tx :: rest → ∀ s₁,
        (forM done (applyTransaction P)).run s = .ok () s₁ → Exact P tx s₁ := by
  obtain ⟨-, s₁, ht, rfl⟩ := applyBlock_ok.mp h
  rw [supply_finishBlock]
  exact supply_applyTransactions hs ht

/-- **Conservation of supply.**  Along every run of applied blocks the supply is what it was minus
the fees paid; it never grows; each block burns exactly its own fees; and no balance, stake or debit
computed for any transaction on the way wraps around. -/
theorem supply_conserved {blocks : List Block} (hs : supply P s < 2 ^ 64)
    (h : (forM blocks (applyBlock P m)).run s = .ok () s') :
    supply P s' + (blocks.map fun b => fees b.transactions).sum = supply P s ∧
    supply P s' ≤ supply P s ∧
    ∀ before block after, blocks = before ++ block :: after → ∀ s₀ s₁,
      (forM before (applyBlock P m)).run s = .ok () s₀ → (applyBlock P m block).run s₀ = .ok () s₁ →
      supply P s₁ + fees block.transactions = supply P s₀ ∧
      ∀ done tx rest, block.transactions = done ++ tx :: rest → ∀ s₂,
        (forM done (applyTransaction P)).run s₀ = .ok () s₂ → Exact P tx s₂ := by
  have hrun : ∀ (bs : List Block) (t t' : InMemoryStore), supply P t < 2 ^ 64 →
      (forM bs (applyBlock P m)).run t = .ok () t' →
      supply P t' + (bs.map fun b => fees b.transactions).sum = supply P t := by
    intro bs
    induction bs with
    | nil =>
      intro t t' _ hr
      cases hr
      rfl
    | cons b bs ih =>
      intro t t' ht hr
      obtain ⟨t₁, h₁, h₂⟩ := forM_cons_ok.mp hr
      have hb := (supply_applyBlock m ht h₁).1
      have := ih t₁ t' (by omega) h₂
      simp only [List.map_cons, List.sum_cons]
      omega
  refine ⟨hrun blocks s s' hs h, by have := hrun blocks s s' hs h; omega, ?_⟩
  intro before block after _ s₀ s₁ h₀ h₁
  have := hrun before s s₀ hs h₀
  exact supply_applyBlock m (by omega) h₁

open Reference

def stakedStore : InMemoryStore :=
  putAccount reference (addressOf (key 7))
    { balance := 500, staked := 500 } .new

def shuffle : Block :=
  blockOf (headerAt 1 {} (node 1))
    [signedTx (key 7) (.unstake 200) 0 10,
     signedTx (key 7)
       (.transfer (addressOf (key 7)) 100) 1 10,
     signedTx (key 7) (.stake 50) 2 5]

theorem supply_conserved_shuffle :
    supply reference stakedStore = 1000 ∧
    ∃ s', (forM [shuffle] (applyBlock reference {})).run stakedStore = .ok () s' ∧
      supply reference s' + 25 = supply reference stakedStore := by
  have hsup : supply reference stakedStore = 1000 := by decide +kernel
  have hok := eq_ok_of_failure
    (r := (forM [shuffle] (applyBlock reference {})).run stakedStore) (by decide +kernel)
  have hrun := (supply_conserved {} (by rw [hsup]; decide) hok).1
  have hfees : ([shuffle].map fun b => fees b.transactions).sum = 25 := by decide +kernel
  rw [hfees] at hrun
  exact ⟨hsup, _, hok, hrun⟩

end StateManager

end Gratia
