import Gratia.State.Manager
import Gratia.Support.Words

/-!
# State — Accounts

What one transaction does to the accounts.  `applyTransaction_run` cuts `apply_transaction` in two:
checks that only read (`senderChecks`), then the debit of the sender and, for a transfer, the credit
of the recipient.  No transaction writes anything but accounts (`keeps_applyTransaction`).
-/

namespace Gratia

open Support StateDb

namespace StateDb

variable (P : Platform)

@[simp] theorem getAccount_putAccount_self (a : Address) (acct : AccountState) (s : InMemoryStore) :
    getAccount P a (putAccount P a acct s) = .ok acct := by
  simp [getAccount, putAccount]

theorem getAccount_putAccount_ne {a b : Address} (h : a ≠ b) (acct : AccountState)
    (s : InMemoryStore) : getAccount P b (putAccount P a acct s) = getAccount P b s := by
  have hk : a.bytes.bytes ≠ b.bytes.bytes := fun e => h (by
    obtain ⟨a⟩ := a
    obtain ⟨b⟩ := b
    exact congrArg _ (Bytes32.bytes_injective e))
  simp only [getAccount, putAccount, s.get_put_ne _ _ hk]

theorem getAccount_congr {s t : InMemoryStore} (h : s.data .accounts = t.data .accounts)
    (a : Address) : getAccount P a s = getAccount P a t := by
  simp only [getAccount, InMemoryStore.get, h]

end StateDb

namespace StateManager

variable (P : Platform)

/-! ### The checks -/

theorem checkedAdd_ok {a b c : Lux} {message : String} :
    checkedAdd a b message = .ok c ↔ a.toNat + b.toNat < 2 ^ 64 ∧ c = a + b := by
  unfold checkedAdd
  split <;> simp_all [eq_comm]

/-- The balance covers `amount` and the fee, and the nonce is the next one. -/
def checkDebit (message : String) (acct : AccountState) (amount fee : Lux) (nonce : UInt64) :
    Except GratiaError Unit := do
  let totalDebit ← checkedAdd amount fee message
  if acct.balance < totalDebit then .error (.insufficientBalance acct.balance totalDebit)
  else if acct.nonce ≠ nonce then .error (.nonceMismatch acct.nonce nonce)
  else .ok ()

/-- The checks a transaction makes on its sender's account, in the source's order. -/
def checkSender (tx : Transaction) (acct : AccountState) : Except GratiaError Unit :=
  match tx.payload with
  | .transfer _ amount => checkDebit "transfer amount overflow" acct amount tx.fee tx.nonce
  | .stake amount => do
    checkDebit "stake amount overflow" acct amount tx.fee tx.nonce
    (checkedAdd acct.staked amount "staked amount overflow").map fun _ => ()
  | .unstake amount =>
    if acct.balance < tx.fee then .error (.insufficientBalance acct.balance tx.fee)
    else if acct.staked < amount then .error (.insufficientStake acct.staked amount)
    else if acct.nonce ≠ tx.nonce then .error (.nonceMismatch acct.nonce tx.nonce)
    else .ok ()
  | _ =>
    if acct.balance < tx.fee then .error (.insufficientBalance acct.balance tx.fee)
    else if acct.nonce ≠ tx.nonce then .error (.nonceMismatch acct.nonce tx.nonce)
    else .ok ()

/-- The sender of a transaction and its account, once the sender-side checks pass. -/
def senderChecks (tx : Transaction) (s : InMemoryStore) :
    Except GratiaError (Address × AccountState) := do
  let sender ← addressFromPubkey P tx.senderPubkey
  let acct ← getAccount P sender s
  checkSender tx acct
  .ok (sender, acct)

/-- The account has what the transaction spends: `amount + fee` of balance, or the fee and the
stake it takes out; and a stake it adds to does not overflow. -/
def Covers (tx : Transaction) (acct : AccountState) : Prop :=
  match tx.payload with
  | .transfer _ amount => amount.toNat + tx.fee.toNat ≤ acct.balance.toNat
  | .stake amount => amount.toNat + tx.fee.toNat ≤ acct.balance.toNat ∧
      acct.staked.toNat + amount.toNat < 2 ^ 64
  | .unstake amount => tx.fee.toNat ≤ acct.balance.toNat ∧ amount.toNat ≤ acct.staked.toNat
  | _ => tx.fee.toNat ≤ acct.balance.toNat

variable {acct : AccountState}

theorem checkDebit_ok {message : String} {amount fee : Lux} {nonce : UInt64} :
    checkDebit message acct amount fee nonce = .ok () ↔
      acct.nonce = nonce ∧ amount.toNat + fee.toNat ≤ acct.balance.toNat := by
  unfold checkDebit
  simp only [except_bind_ok, except_ite_ok, checkedAdd_ok, not_not, and_true]
  constructor
  · rintro ⟨_, ⟨hlt, rfl⟩, hb, hn⟩
    rw [UInt64.not_lt, UInt64.le_iff_toNat_le, toNat_add_of_lt hlt] at hb
    exact ⟨hn, hb⟩
  · rintro ⟨hn, hb⟩
    have hlt := hb.trans_lt acct.balance.toNat_lt
    refine ⟨_, ⟨hlt, rfl⟩, ?_, hn⟩
    rwa [UInt64.not_lt, UInt64.le_iff_toNat_le, toNat_add_of_lt hlt]

variable {tx : Transaction} {cf : ColumnFamily}

/-- **What passing the checks means.** -/
theorem checkSender_ok :
    checkSender tx acct = .ok () ↔ acct.nonce = tx.nonce ∧ Covers tx acct := by
  unfold checkSender Covers
  split
  · exact checkDebit_ok
  · rw [except_seq_ok, checkDebit_ok, except_map_ok, and_assoc]
    simp only [checkedAdd_ok, exists_eq_right, and_true]
  · simp only [except_ite_ok, UInt64.not_lt, UInt64.le_iff_toNat_le, not_not, and_true]
    tauto
  · simp only [except_ite_ok, UInt64.not_lt, UInt64.le_iff_toNat_le, not_not, and_true]
    exact and_comm

/-- The transaction's key names an account that can be read, whose next nonce is the transaction's
and which covers it. -/
def Payable (tx : Transaction) (s : InMemoryStore) : Prop :=
  ∃ sender acct, addressFromPubkey P tx.senderPubkey = .ok sender ∧
    getAccount P sender s = .ok acct ∧ acct.nonce = tx.nonce ∧ Covers tx acct

theorem senderChecks_ok {s : InMemoryStore} {sender : Address} :
    senderChecks P tx s = .ok (sender, acct) ↔
      addressFromPubkey P tx.senderPubkey = .ok sender ∧ getAccount P sender s = .ok acct ∧
        acct.nonce = tx.nonce ∧ Covers tx acct := by
  unfold senderChecks
  simp only [except_bind_ok, Except.ok.injEq, Prod.mk.injEq]
  constructor
  · rintro ⟨_, ha, _, hg, _, hc, rfl, rfl⟩
    exact ⟨ha, hg, checkSender_ok.mp hc⟩
  · rintro ⟨ha, hg, hc⟩
    exact ⟨_, ha, _, hg, (), checkSender_ok.mpr hc, rfl, rfl⟩

theorem payable_iff {s : InMemoryStore} :
    Payable P tx s ↔ ∃ r, senderChecks P tx s = .ok r := by
  constructor
  · rintro ⟨sender, acct, h⟩
    exact ⟨(sender, acct), (senderChecks_ok P).mpr h⟩
  · rintro ⟨⟨sender, acct⟩, h⟩
    exact ⟨sender, acct, (senderChecks_ok P).mp h⟩

/-! ### The cut -/

/-- Reads an account, checks it, writes it back changed, and goes on with `rest`. -/
def spend (sender : Address) (check : AccountState → Except GratiaError Unit)
    (debit : AccountState → AccountState) (rest : Db Unit) : Db Unit := do
  let acct ← Db.read (getAccount P sender)
  Db.read fun _ => check acct
  Db.write (putAccount P sender (debit acct))
  rest

def debited (tx : Transaction) (acct : AccountState) : AccountState :=
  match tx.payload with
  | .transfer _ amount =>
    { acct with balance := acct.balance - (amount + tx.fee), nonce := acct.nonce + 1 }
  | .stake amount =>
    { acct with balance := acct.balance - (amount + tx.fee), staked := acct.staked + amount,
                nonce := acct.nonce + 1 }
  | .unstake amount =>
    { acct with balance := acct.balance - tx.fee + amount, staked := acct.staked - amount,
                nonce := acct.nonce + 1 }
  | _ => { acct with balance := acct.balance - tx.fee, nonce := acct.nonce + 1 }

@[simp] theorem debited_nonce (tx : Transaction) (acct : AccountState) :
    (debited tx acct).nonce = acct.nonce + 1 := by
  unfold debited
  split <;> rfl

def credit (recipient : Address) (amount : Lux) : Db Unit := do
  let recipientAcct ← Db.read (getAccount P recipient)
  let balance ← Db.read fun _ =>
    checkedAdd recipientAcct.balance amount "recipient balance overflow"
  Db.write (putAccount P recipient { recipientAcct with balance := balance })

/-- What follows the debit: a transfer credits its recipient. -/
def creditRecipient (tx : Transaction) : Db Unit :=
  match tx.payload with
  | .transfer recipient amount => credit P recipient amount
  | _ => pure ()

theorem applyTransaction_eq (tx : Transaction) :
    applyTransaction P tx = (Db.read fun _ => addressFromPubkey P tx.senderPubkey) >>= fun sender =>
      spend P sender (checkSender tx) (debited tx) (creditRecipient P tx) := by
  unfold applyTransaction checkSender debited creditRecipient
  refine bind_congr fun sender => ?_
  cases tx.payload with
  | transfer recipient amount =>
    refine bind_congr fun acct => Db.ext fun s => ?_
    simp only [checkDebit, EStateM.run_bind, Db.run_read]
    cases hc : checkedAdd amount tx.fee "transfer amount overflow" with
    | error e => rfl
    | ok total =>
      obtain ⟨-, rfl⟩ := checkedAdd_ok.mp hc
      by_cases hb : acct.balance < amount + tx.fee
      · simp [hb]
      · by_cases hn : acct.nonce = tx.nonce <;> simp [hb, hn, credit]
  | stake amount =>
    refine bind_congr fun acct => Db.ext fun s => ?_
    simp only [checkDebit, EStateM.run_bind, Db.run_read]
    cases hc : checkedAdd amount tx.fee "stake amount overflow" with
    | error e => rfl
    | ok total =>
      obtain ⟨-, rfl⟩ := checkedAdd_ok.mp hc
      by_cases hb : acct.balance < amount + tx.fee
      · simp [hb]
      · by_cases hn : acct.nonce = tx.nonce
        · cases hd : checkedAdd acct.staked amount "staked amount overflow" with
          | error e => simp [hb, hn, Db.run_read, Except.map]
          | ok staked =>
            obtain ⟨-, rfl⟩ := checkedAdd_ok.mp hd
            simp [hb, hn, Db.run_read, Except.map]
        · simp [hb, hn]
  | unstake amount =>
    refine bind_congr fun acct => Db.ext fun s => ?_
    simp only [EStateM.run_bind, Db.run_read]
    by_cases hb : acct.balance < tx.fee
    · simp [hb]
    · by_cases hs : acct.staked < amount
      · simp [hb, hs]
      · by_cases hn : acct.nonce = tx.nonce <;> simp [hb, hs, hn]
  | _ =>
    refine bind_congr fun acct => Db.ext fun s => ?_
    simp only [EStateM.run_bind, Db.run_read]
    by_cases hb : acct.balance < tx.fee
    · simp [hb]
    · by_cases hn : acct.nonce = tx.nonce <;> simp [hb, hn]

/-- **The cut.**  A transaction first checks, reading only; then it writes its sender's account and,
if it is a transfer, goes on to its recipient. -/
theorem applyTransaction_run (tx : Transaction) (s : InMemoryStore) :
    (applyTransaction P tx).run s =
      match senderChecks P tx s with
      | .error e => .error e s
      | .ok (sender, acct) =>
        (creditRecipient P tx).run (putAccount P sender (debited tx acct) s) := by
  rw [applyTransaction_eq]
  simp only [senderChecks, spend, EStateM.run_bind, Db.run_read]
  cases addressFromPubkey P tx.senderPubkey with
  | error e => rfl
  | ok sender =>
    simp only [except_ok_bind]
    cases getAccount P sender s with
    | error e => rfl
    | ok acct =>
      simp only [except_ok_bind]
      cases checkSender tx acct with
      | error e => rfl
      | ok u => simp

variable {P} {tx : Transaction} {s s' : InMemoryStore} {e : GratiaError}

theorem applyTransaction_ok :
    (applyTransaction P tx).run s = .ok () s' ↔
      ∃ sender acct, senderChecks P tx s = .ok (sender, acct) ∧
        (creditRecipient P tx).run (putAccount P sender (debited tx acct) s) = .ok () s' := by
  rw [applyTransaction_run]
  cases senderChecks P tx s with
  | error e => simp
  | ok p => obtain ⟨sender, acct⟩ := p; simp

theorem applyTransaction_error :
    (applyTransaction P tx).run s = .error e s' ↔
      (senderChecks P tx s = .error e ∧ s' = s) ∨
      ∃ sender acct, senderChecks P tx s = .ok (sender, acct) ∧
        (creditRecipient P tx).run (putAccount P sender (debited tx acct) s) = .error e s' := by
  rw [applyTransaction_run]
  cases senderChecks P tx s with
  | error e => simp [eq_comm]
  | ok p => obtain ⟨sender, acct⟩ := p; simp

theorem credit_run (recipient : Address) (amount : Lux) (s : InMemoryStore) :
    (credit P recipient amount).run s =
      match getAccount P recipient s with
      | .error e => .error e s
      | .ok acct =>
        if acct.balance.toNat + amount.toNat < 2 ^ 64 then
          .ok () (putAccount P recipient { acct with balance := acct.balance + amount } s)
        else .error (.other "recipient balance overflow") s := by
  simp only [credit, EStateM.run_bind, Db.run_read]
  cases getAccount P recipient s with
  | error e => rfl
  | ok acct =>
    by_cases hlt : acct.balance.toNat + amount.toNat < 2 ^ 64
    · simp only [checkedAdd, if_pos hlt]
      rfl
    · simp only [checkedAdd, if_neg hlt]

theorem creditRecipient_ok (h : (creditRecipient P tx).run s = .ok () s') :
    (∀ recipient amount, tx.payload ≠ .transfer recipient amount) ∧ s' = s ∨
      ∃ recipient amount acct, tx.payload = .transfer recipient amount ∧
        getAccount P recipient s = .ok acct ∧ acct.balance.toNat + amount.toNat < 2 ^ 64 ∧
        s' = putAccount P recipient { acct with balance := acct.balance + amount } s := by
  unfold creditRecipient at h
  split at h
  next recipient amount hp =>
    obtain ⟨acct, _, hread, hrest⟩ := bind_ok.mp h
    obtain ⟨hg, rfl⟩ := Db.read_ok.mp hread
    obtain ⟨balance, _, hsum, hwrite⟩ := bind_ok.mp hrest
    obtain ⟨hadd, rfl⟩ := Db.read_ok.mp hsum
    obtain ⟨hlt, rfl⟩ := checkedAdd_ok.mp hadd
    cases hwrite
    exact .inr ⟨recipient, amount, acct, hp, hg, hlt, rfl⟩
  next hp =>
    cases h
    exact .inl ⟨hp, rfl⟩

theorem creditRecipient_error (h : (creditRecipient P tx).run s = .error e s') : s' = s := by
  unfold creditRecipient at h
  split at h
  · rw [credit_run] at h
    split at h
    · cases h; rfl
    · split at h <;> cases h
      rfl
  · cases h

/-! ### What transactions do not touch -/

theorem keeps_putAccount (hcf : cf ≠ .accounts) (a : Address) (acct : AccountState) :
    Keeps (fun s => s.data cf) (Db.write (putAccount P a acct)) :=
  Db.keeps_write fun _ => putAccount_data P hcf a acct

/-- **Transactions write accounts only**, also those that fail. -/
theorem keeps_applyTransaction (hcf : cf ≠ .accounts) (tx : Transaction) :
    Keeps (fun s => s.data cf) (applyTransaction P tx) := by
  rw [applyTransaction_eq]
  refine Db.keeps_read.bind fun sender => Db.keeps_read.bind fun acct => Db.keeps_read.bind
    fun _ => (keeps_putAccount hcf _ _).bind fun _ => ?_
  unfold creditRecipient
  split
  · exact Db.keeps_read.bind fun _ => Db.keeps_read.bind fun _ => keeps_putAccount hcf _ _
  · exact keeps_pure _

theorem applyTransactions_data (hcf : cf ≠ .accounts) {txs : List Transaction}
    (h : (forM txs (applyTransaction P)).run s = .ok () s') : s'.data cf = s.data cf :=
  (Keeps.forM (keeps_applyTransaction hcf) txs).of_ok h

end StateManager

end Gratia
