import Gratia.Support.Words
import Gratia.Wallet.Transactions

/-!
# Wallet — Manager

`gratia-wallet/src/lib.rs`: `WalletManager`, which builds transactions out of a cached balance and a
cached nonce and keeps both up to date as if every transaction it returns were applied.
-/

namespace Gratia

open Support

/-! ### State -/

/-- `RecoveryState`, by its variants. -/
inductive RecoveryState where
  | newClaim | pending | verified | rejected
deriving DecidableEq

inductive TransactionDirection where
  | sent | received
deriving DecidableEq

inductive TransactionStatus where
  | pending | confirmed | failed
deriving DecidableEq

structure TransactionRecord where
  hash : String
  direction : TransactionDirection
  amount : Lux
  counterparty : Option Address
  timestamp : DateTime
  status : TransactionStatus
deriving DecidableEq

/-- `WalletManager`, without the data directory and the inheritance, which sending does not read.
Of the active recovery claim it holds the state. -/
structure WalletManager where
  keystore : Keystore
  nonce : UInt64 := 0
  balance : Lux := 0
  history : List TransactionRecord := []
  activeRecovery : Option RecoveryState := none

def RecoveryState.walletIsFrozen : RecoveryState → Bool
  | newClaim | pending => true
  | verified | rejected => false

namespace WalletManager

variable (P : Platform)

/-- `address`; `address_from_pubkey_bytes` is `address_from_pubkey` of the ledger. -/
def address (w : WalletManager) : Except GratiaError Address := do
  let pubkey ← w.keystore.publicKeyBytes
  addressFromPubkey P pubkey

def isFrozen (w : WalletManager) : Bool := w.activeRecovery.any RecoveryState.walletIsFrozen

/-! ### Sending -/

/-- What `send_transfer` and `send_stake` share, once `amount` may be sent: the cost is checked
against the cached balance, the transaction is built, and the caches move as if it were applied. -/
def issue (w : WalletManager) (now : DateTime) (payload : TransactionPayload) (amount fee : Lux)
    (counterparty : Option Address) : Except GratiaError Transaction × WalletManager :=
  match checkedAdd amount fee with
  | none => (.error (.other "amount + fee overflow"), w)
  | some totalCost =>
    if w.balance < totalCost then
      (.error (.insufficientBalance w.balance totalCost), w)
    else
      let builder : TransactionBuilder := { keystore := w.keystore, nonce := w.nonce, fee := fee }
      match builder.buildAndSign P now payload with
      | .error e => (.error e, w)
      | .ok tx =>
        (.ok tx,
          { w with
            balance := w.balance - totalCost
            nonce := w.nonce + 1
            history := w.history ++
              [{ hash := tx.hash.bytes.hexEncode, direction := .sent, amount := amount,
                 counterparty := counterparty, timestamp := tx.timestamp,
                 status := .confirmed }] })

def sendTransfer (w : WalletManager) (now : DateTime) (recipient : Address) (amount fee : Lux) :
    Except GratiaError Transaction × WalletManager :=
  if w.isFrozen then (.error .recoveryClaimPending, w)
  else if amount = 0 then (.error (.other "Transfer amount cannot be zero"), w)
  else w.issue P now (.transfer recipient amount) amount fee (some recipient)

def sendStake (w : WalletManager) (now : DateTime) (amount fee : Lux) :
    Except GratiaError Transaction × WalletManager :=
  if w.isFrozen then (.error .recoveryClaimPending, w)
  else w.issue P now (.stake amount) amount fee none

inductive Call where
  | transfer (recipient : Address) (amount fee : Lux)
  | stake (amount fee : Lux)
deriving DecidableEq

def Call.payload : Call → TransactionPayload
  | transfer recipient amount _ => .transfer recipient amount
  | stake amount _ => .stake amount

def Call.fee : Call → Lux
  | transfer _ _ fee | stake _ fee => fee

def Call.cost : Call → ℕ
  | transfer _ amount fee | stake amount fee => amount.toNat + fee.toNat

def send (w : WalletManager) (now : DateTime) :
    Call → Except GratiaError Transaction × WalletManager
  | .transfer recipient amount fee => w.sendTransfer P now recipient amount fee
  | .stake amount fee => w.sendStake P now amount fee

/-! ### What a call does -/

/-- `tx` is what the wallet returns for a call, and `w'` what becomes of the wallet. -/
structure Issued (w : WalletManager) (c : Call) (tx : Transaction) (w' : WalletManager) : Prop where
  payload : tx.payload = c.payload
  fee : tx.fee = c.fee
  nonce : tx.nonce = w.nonce
  sender : w.keystore.publicKeyBytes = .ok tx.senderPubkey
  keystore : w'.keystore = w.keystore
  next : w'.nonce = w.nonce + 1
  balance : w'.balance.toNat + c.cost = w.balance.toNat

variable {P} {w : WalletManager} {now : DateTime}

theorem issue_cases (w : WalletManager) (now : DateTime) (c : Call) {amount : Lux}
    (hcost : c.cost = amount.toNat + c.fee.toNat) (counterparty : Option Address) :
    (∃ e, w.issue P now c.payload amount c.fee counterparty = (.error e, w)) ∨
      ∃ tx w', w.issue P now c.payload amount c.fee counterparty = (.ok tx, w') ∧
        Issued w c tx w' := by
  unfold issue
  cases hadd : checkedAdd amount c.fee with
  | none => exact .inl ⟨_, rfl⟩
  | some totalCost =>
    dsimp only
    by_cases hb : w.balance < totalCost
    · exact .inl ⟨_, if_pos hb⟩
    · rw [if_neg hb]
      split
      · exact .inl ⟨_, rfl⟩
      · next tx hbuild =>
          obtain ⟨hkey, -, htx⟩ := TransactionBuilder.buildAndSign_ok hbuild
          refine .inr ⟨tx, _, rfl, ⟨congrArg Transaction.payload htx, congrArg Transaction.fee htx,
            congrArg Transaction.nonce htx, hkey, rfl, rfl, ?_⟩⟩
          have hle := UInt64.not_lt.mp hb
          rw [hcost, UInt64.toNat_sub_of_le _ _ hle, ← toNat_of_checkedAdd hadd]
          exact Nat.sub_add_cancel (UInt64.le_iff_toNat_le.mp hle)

/-- **A call fails and changes nothing, or issues a transaction.** -/
theorem send_cases (w : WalletManager) (now : DateTime) (c : Call) :
    (∃ e, w.send P now c = (.error e, w)) ∨
      ∃ tx w', w.send P now c = (.ok tx, w') ∧ Issued w c tx w' := by
  cases c with
  | transfer recipient amount fee =>
    simp only [send, sendTransfer]
    by_cases hf : w.isFrozen = true
    · exact .inl ⟨_, if_pos hf⟩
    · rw [if_neg hf]
      by_cases hz : amount = 0
      · exact .inl ⟨_, if_pos hz⟩
      · rw [if_neg hz]
        exact issue_cases w now (.transfer recipient amount fee) rfl (some recipient)
  | stake amount fee =>
    simp only [send, sendStake]
    by_cases hf : w.isFrozen = true
    · exact .inl ⟨_, if_pos hf⟩
    · rw [if_neg hf]
      exact issue_cases w now (.stake amount fee) rfl none

end WalletManager

end Gratia
