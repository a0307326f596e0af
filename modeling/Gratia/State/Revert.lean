import Gratia.State.Atomicity
import Gratia.State.Supply

/-!
# State — Revert

`revert_block` takes the tip block's transactions back in reverse order.  Its arithmetic is
unchecked: it adds what was debited and subtracts, saturating, what was credited.  On `u64` the
additions undo the debits without any side condition; the saturating subtractions are exact because
the forward pass checked the additions they undo, and, for a transfer to oneself, because the supply
is below `2 ^ 63`.

Accounts are compared by what is read (`SameAccounts`), since an address never seen and one holding
the empty account read the same.

What can go wrong is outside the accounts' arithmetic.  A transfer that used the last nonce has
wrapped its sender's nonce to zero, and the checked decrement of `revert_transaction` refuses; a
block applied on the last height has wrapped the height to zero, and `revert_block` takes it for
genesis; and on a store that has a height but no tip, the tip is set from the block.
`applyBlock_revertBlock_iff` is exactly this list.
-/

namespace Gratia

open Pruning (saturatingSub)
open Db (read_bind)
open InMemoryStore (delete_data_ne get_delete_self get_delete_ne get_put_ne get_put_self)
open Support (Bytes Codec toNat_add_of_lt Keeps bind_of_ok except_bind_ok failure finalState
  eq_ok_of_failure and_of_imp)
open StateDb

namespace StateManager

variable (P : Platform) (m : StateManager)

/-! ### What reverting one transaction does -/

def refunded (tx : Transaction) (acct : AccountState) : AccountState :=
  match tx.payload with
  | .transfer _ amount =>
    { acct with balance := acct.balance + (amount + tx.fee), nonce := acct.nonce - 1 }
  | .stake amount =>
    { acct with balance := acct.balance + (amount + tx.fee),
                staked := saturatingSub acct.staked amount, nonce := acct.nonce - 1 }
  | .unstake amount =>
    { acct with balance := saturatingSub acct.balance amount + tx.fee,
                staked := acct.staked + amount, nonce := acct.nonce - 1 }
  | _ => { acct with balance := acct.balance + tx.fee, nonce := acct.nonce - 1 }

variable {P} {tx : Transaction} {acct : AccountState} {s s' t : InMemoryStore}

variable {sender : Address}

theorem revertTransaction_run (hno : ∀ recipient amount, tx.payload ≠ .transfer recipient amount)
    (hs : addressFromPubkey P tx.senderPubkey = .ok sender) (hg : getAccount P sender t = .ok acct) :
    (revertTransaction P tx).run t = .ok () (putAccount P sender (refunded tx acct) t) := by
  unfold revertTransaction refunded
  rw [read_bind _ hs]
  cases hp : tx.payload with
  | transfer recipient amount => exact absurd hp (hno recipient amount)
  | _ => simp only [read_bind _ hg, Db.write_run]

variable {recipient : Address}

/-- A transfer refuses to take a zero nonce back; otherwise it writes the refund, then the
recipient. -/
theorem revertTransfer_run {amount : Lux} (hp : tx.payload = .transfer recipient amount)
    (hs : addressFromPubkey P tx.senderPubkey = .ok sender) (hg : getAccount P sender t = .ok acct) :
    (revertTransaction P tx).run t =
      if acct.nonce = 0 then .error (.other "nonce underflow during transaction revert") t
      else
        match getAccount P recipient (putAccount P sender (refunded tx acct) t) with
        | .error e => .error e (putAccount P sender (refunded tx acct) t)
        | .ok acct' => .ok () (putAccount P recipient
            { acct' with balance := saturatingSub acct'.balance amount }
            (putAccount P sender (refunded tx acct) t)) := by
  unfold revertTransaction refunded
  rw [read_bind _ hs]
  simp only [hp]
  rw [read_bind _ hg]
  by_cases hz : acct.nonce = 0
  · rw [if_pos hz, EStateM.run_bind, Db.run_read, if_pos hz]
  · rw [if_neg hz, EStateM.run_bind, Db.run_read, if_neg hz]
    simp only [EStateM.run_bind, Db.write_run, Db.run_read]
    cases getAccount P recipient _ with
    | error e | ok acct' => rfl

theorem keeps_revertTransaction {cf : ColumnFamily} (hcf : cf ≠ .accounts) (tx : Transaction) :
    Keeps (fun s => s.data cf) (revertTransaction P tx) := by
  refine Db.keeps_read.bind fun sender => ?_
  cases tx.payload with
  | transfer recipient amount =>
    exact Db.keeps_read.bind fun _ => Db.keeps_read.bind fun _ =>
      (keeps_putAccount hcf _ _).bind fun _ => Db.keeps_read.bind fun _ =>
        keeps_putAccount hcf _ _
  | _ => exact Db.keeps_read.bind fun _ => keeps_putAccount hcf _ _

/-! ### The arithmetic -/

theorem saturatingSub_add_self {a b : Lux} (h : a.toNat + b.toNat < 2 ^ 64) :
    saturatingSub (a + b) b = a := by
  have hlt : ¬ a + b < b := by
    rw [UInt64.lt_iff_toNat_lt, toNat_add_of_lt h]
    omega
  rw [saturatingSub, if_neg hlt, UInt64.add_sub_cancel]

theorem refunded_debited (h : ExactDebit tx acct) : refunded tx (debited tx acct) = acct := by
  obtain ⟨balance, nonce, staked, overflowStake, polValid, polConsecutiveDays, lastPolDate,
    nodeId⟩ := acct
  cases hp : tx.payload with
  | transfer recipient amount => simp [refunded, debited, hp]
  | stake amount =>
    simp only [ExactDebit, hp] at h
    have hst : staked.toNat + amount.toNat < 2 ^ 64 := h.2.2 ▸ UInt64.toNat_lt _
    simp [refunded, debited, hp, saturatingSub_add_self hst]
  | unstake amount =>
    simp only [ExactDebit, hp] at h
    have hba : (balance - tx.fee).toNat + amount.toNat < 2 ^ 64 := h.2.1 ▸ UInt64.toNat_lt _
    simp [refunded, debited, hp, saturatingSub_add_self hba]
  | _ => simp [refunded, debited, hp]

/-! ### Undoing the forward pass -/

def SameAccounts (P : Platform) (s t : InMemoryStore) : Prop :=
  ∀ a, getAccount P a s = getAccount P a t

def SameRest (s t : InMemoryStore) : Prop := ∀ cf, cf ≠ .accounts → t.data cf = s.data cf

theorem SameRest.put (h : SameRest s t) (a : Address) (acct : AccountState) :
    SameRest s (putAccount P a acct t) :=
  fun cf hcf => (putAccount_data P hcf a acct).trans (h cf hcf)

theorem sameAccounts_put {a : Address} (hg : getAccount P a s = .ok acct)
    (h : ∀ b, b ≠ a → getAccount P b s = getAccount P b t) :
    SameAccounts P s (putAccount P a acct t) := by
  intro b
  by_cases hb : b = a
  · rw [hb, hg, getAccount_putAccount_self]
  · rw [h b hb, getAccount_putAccount_ne P (Ne.symm hb)]

/-- The transaction is a transfer that used the last nonce. -/
def WrapsNonce (tx : Transaction) : Prop :=
  tx.nonce = maxNonce ∧ ∃ recipient amount, tx.payload = .transfer recipient amount

theorem debited_nonce_eq_zero (hn : acct.nonce = tx.nonce) :
    (debited tx acct).nonce = 0 ↔ tx.nonce = maxNonce := by
  rw [debited_nonce, hn, succ_eq_zero]

/-- Reverting `tx` on `t` reads like `s` again, unless the transaction wrapped its sender's nonce;
then it fails. -/
def GivesBack (P : Platform) (tx : Transaction) (s t : InMemoryStore) : Prop :=
  (¬ WrapsNonce tx ∧ ∃ t', (revertTransaction P tx).run t = .ok () t' ∧ SameAccounts P s t' ∧
      SameRest t t') ∨
    WrapsNonce tx ∧ ∃ e, (revertTransaction P tx).run t = .error e t

theorem givesBack_transfer {amount : Lux} {rec : AccountState}
    (hp : tx.payload = .transfer recipient amount)
    (hs : addressFromPubkey P tx.senderPubkey = .ok sender) (hg : getAccount P sender t = .ok acct)
    (hn : acct.nonce = 0 ↔ tx.nonce = maxNonce)
    (hrec : getAccount P recipient (putAccount P sender (refunded tx acct) t) = .ok rec)
    (hsame : SameAccounts P s (putAccount P recipient
      { rec with balance := saturatingSub rec.balance amount }
      (putAccount P sender (refunded tx acct) t))) : GivesBack P tx s t := by
  unfold GivesBack
  rw [revertTransfer_run hp hs hg]
  by_cases hz : acct.nonce = 0
  · rw [if_pos hz]
    exact .inr ⟨⟨hn.mp hz, recipient, amount, hp⟩, _, rfl⟩
  · rw [if_neg hz, hrec]
    refine .inl ⟨fun hw => hz (hn.mpr hw.1), _, rfl, hsame, ?_⟩
    exact ((show SameRest t t from fun _ _ => rfl).put _ _).put _ _

theorem refunded_to_self {amount : Lux} (hp : tx.payload = .transfer recipient amount)
    (hfits : acct.balance.toNat + amount.toNat < 2 ^ 64) :
    let paid := { debited tx acct with balance := (debited tx acct).balance + amount }
    ({ refunded tx paid with
      balance := saturatingSub (refunded tx paid).balance amount } : AccountState) =
        acct := by
  have hbal : acct.balance - (amount + tx.fee) + amount + (amount + tx.fee) =
      acct.balance + amount := by
    rw [UInt64.add_assoc, UInt64.add_comm amount (amount + tx.fee), ← UInt64.add_assoc,
      UInt64.sub_add_cancel]
  simp [refunded, debited, hp, hbal, saturatingSub_add_self hfits]

/-- What the unchecked additions need: a transfer to oneself fits on top of the balance it is made
from, and an unstake on top of the balance left by its fee. -/
def Undoable (P : Platform) (tx : Transaction) (s : InMemoryStore) : Prop :=
  ∀ sender acct, senderChecks P tx s = .ok (sender, acct) →
    (∀ amount, tx.payload = .transfer sender amount →
      acct.balance.toNat + amount.toNat < 2 ^ 64) ∧
    ∀ amount, tx.payload = .unstake amount →
      acct.balance.toNat - tx.fee.toNat + amount.toNat < 2 ^ 64

theorem undoable_of_supply (hsup : supply P s < 2 ^ 63) (tx : Transaction) : Undoable P tx s := by
  intro sender acct hchk
  obtain ⟨-, hacct, -, hcov⟩ := (senderChecks_ok P).mp hchk
  have hworth := worth_le_supply hacct
  refine ⟨fun amount hp => ?_, unstake_fits hcov (by omega)⟩
  simp only [Covers, hp] at hcov
  unfold worth at hworth
  omega

section Back

variable {sender recipient : Address} {amount : Lux} {rec : AccountState}
  (hs : addressFromPubkey P tx.senderPubkey = .ok sender)
  (hacct : getAccount P sender s = .ok acct)

include hs hacct

theorem givesBack_single (hno : ∀ recipient amount, tx.payload ≠ .transfer recipient amount)
    (hback : refunded tx (debited tx acct) = acct)
    (hsame : SameAccounts P (putAccount P sender (debited tx acct) s) t) : GivesBack P tx s t := by
  have hg : getAccount P sender t = .ok (debited tx acct) := by
    rw [← hsame, getAccount_putAccount_self]
  refine .inl ⟨fun hw => ?_, _, revertTransaction_run hno hs hg, ?_, ?_⟩
  · obtain ⟨-, r, a, hp⟩ := hw
    exact hno r a hp
  · rw [hback]
    refine sameAccounts_put hacct fun b hb => ?_
    rw [← hsame, getAccount_putAccount_ne P (Ne.symm hb)]
  · exact SameRest.put (fun _ _ => rfl) _ _

theorem givesBack_toSelf (hp : tx.payload = .transfer sender amount)
    (hnonce : (debited tx acct).nonce = 0 ↔ tx.nonce = maxNonce)
    (hfits : acct.balance.toNat + amount.toNat < 2 ^ 64)
    (hsame : SameAccounts P (putAccount P sender
      { debited tx acct with balance := (debited tx acct).balance + amount }
      (putAccount P sender (debited tx acct) s)) t) : GivesBack P tx s t := by
  have hg : getAccount P sender t =
      .ok { debited tx acct with balance := (debited tx acct).balance + amount } := by
    rw [← hsame, getAccount_putAccount_self]
  refine givesBack_transfer hp hs hg hnonce (getAccount_putAccount_self P _ _ _) ?_
  rw [refunded_to_self hp hfits]
  refine sameAccounts_put hacct fun b hb => ?_
  rw [getAccount_putAccount_ne P (Ne.symm hb), ← hsame,
    getAccount_putAccount_ne P (Ne.symm hb), getAccount_putAccount_ne P (Ne.symm hb)]

theorem givesBack_toOther (hp : tx.payload = .transfer recipient amount) (hsr : recipient ≠ sender)
    (hnonce : (debited tx acct).nonce = 0 ↔ tx.nonce = maxNonce)
    (hback : refunded tx (debited tx acct) = acct)
    (hrec : getAccount P recipient s = .ok rec) (hlt : rec.balance.toNat + amount.toNat < 2 ^ 64)
    (hsame : SameAccounts P (putAccount P recipient { rec with balance := rec.balance + amount }
      (putAccount P sender (debited tx acct) s)) t) : GivesBack P tx s t := by
  have hg : getAccount P sender t = .ok (debited tx acct) := by
    rw [← hsame, getAccount_putAccount_ne P hsr, getAccount_putAccount_self]
  have hg' : getAccount P recipient t = .ok { rec with balance := rec.balance + amount } := by
    rw [← hsame, getAccount_putAccount_self]
  refine givesBack_transfer hp hs hg hnonce
    (by rw [getAccount_putAccount_ne P (Ne.symm hsr), hg']) ?_
  rw [hback, saturatingSub_add_self hlt]
  refine sameAccounts_put hrec fun b hb => ?_
  by_cases hbs : b = sender
  · rw [hbs, hacct, getAccount_putAccount_self]
  · rw [getAccount_putAccount_ne P (Ne.symm hbs), ← hsame,
      getAccount_putAccount_ne P (Ne.symm hb), getAccount_putAccount_ne P (Ne.symm hbs)]

end Back

/-- **Reverting an applied transaction** gives every account back, unless the transaction wrapped
its sender's nonce. -/
theorem revertTransaction_applied (hundo : Undoable P tx s)
    (h : (applyTransaction P tx).run s = .ok () s') (hsame : SameAccounts P s' t) :
    GivesBack P tx s t := by
  obtain ⟨sender, acct, hchk, hcr⟩ := applyTransaction_ok.mp h
  obtain ⟨hs, hacct, hn, hcov⟩ := (senderChecks_ok P).mp hchk
  have hback := refunded_debited (exactDebit_of_covers hcov (hundo sender acct hchk).2)
  have hnonce := debited_nonce_eq_zero hn
  rcases creditRecipient_ok hcr with ⟨hno, rfl⟩ | ⟨recipient, amount, rec, hp, hrec, hlt, rfl⟩
  · exact givesBack_single hs hacct hno hback hsame
  · by_cases hsr : recipient = sender
    · subst hsr
      obtain rfl : debited tx acct = rec := by
        rw [getAccount_putAccount_self] at hrec
        exact Except.ok.inj hrec
      exact givesBack_toSelf hs hacct hp hnonce ((hundo recipient acct hchk).1 amount hp) hsame
    · rw [getAccount_putAccount_ne P (Ne.symm hsr)] at hrec
      exact givesBack_toOther hs hacct hp hsr hnonce hback hrec hlt hsame

/-- Each transaction of a list is undoable where its turn comes. -/
def UndoableAll (P : Platform) : List Transaction → InMemoryStore → Prop
  | [], _ => True
  | tx :: txs, s => Undoable P tx s ∧
      ∀ s', (applyTransaction P tx).run s = .ok () s' → UndoableAll P txs s'

theorem undoableAll_of_supply {txs : List Transaction} (hsup : supply P s < 2 ^ 63) :
    UndoableAll P txs s := by
  induction txs generalizing s with
  | nil => trivial
  | cons tx txs ih =>
    refine ⟨undoable_of_supply hsup tx, fun s' h => ih ?_⟩
    have hburn := (supply_applyTransaction (by omega) h).2
    omega

/-- Reverting a list of applied transactions, last first: it gives every account back unless one of
them wrapped a nonce, and fails if one did. -/
theorem revertTransactions_applied {txs : List Transaction} (hundo : UndoableAll P txs s)
    (h : (forM txs (applyTransaction P)).run s = .ok () s') (hsame : SameAccounts P s' t) :
    ((∀ tx ∈ txs, ¬ WrapsNonce tx) ∧
        ∃ t', (forM txs.reverse (revertTransaction P)).run t = .ok () t' ∧ SameAccounts P s t' ∧
          SameRest t t') ∨
      (∃ tx ∈ txs, WrapsNonce tx) ∧
        ∃ e t', (forM txs.reverse (revertTransaction P)).run t = .error e t' := by
  induction txs generalizing s with
  | nil =>
    cases h
    exact .inl ⟨by simp, t, rfl, hsame, fun _ _ => rfl⟩
  | cons tx txs ih =>
    obtain ⟨s₁, h₁, h₂⟩ := Support.forM_cons_ok.mp h
    rw [List.reverse_cons, List.forM_append]
    rcases ih (hundo.2 s₁ h₁) h₂ with ⟨hall, t₁, hr, hs₁, hrest⟩ | ⟨⟨tx', hmem, hw⟩, e, t', hr⟩
    · rw [bind_of_ok hr, List.forM_cons, List.forM_nil, bind_pure]
      rcases revertTransaction_applied hundo.1 h₁ hs₁ with
        ⟨hno, t₂, hr₂, hs₂, hrest₂⟩ | ⟨hw, e, hr₂⟩
      · refine .inl ⟨?_, t₂, hr₂, hs₂, fun cf hcf => (hrest₂ cf hcf).trans (hrest cf hcf)⟩
        intro tx' hmem
        rcases List.mem_cons.mp hmem with rfl | hmem
        · exact hno
        · exact hall tx' hmem
      · exact .inr ⟨⟨tx, List.mem_cons_self, hw⟩, e, t₁, hr₂⟩
    · exact .inr ⟨⟨tx', List.mem_cons_of_mem _ hmem, hw⟩, e, t', Support.bind_of_error hr⟩

/-! ### Undoing a block -/

variable {m} {block : Block}

theorem getBlock_commitBlock :
    getBlock P (block.header.hash P) (commitBlock P block s) = .ok (some block) := by
  have hget : (commitBlock P block s).get .blocks (block.header.hash P).bytes.bytes =
      some (P.block.put block) := by
    rw [InMemoryStore.get, commitBlock_blocks, ← InMemoryStore.get, get_putBlock_self]
  simp [getBlock, hget, Except.map]

def unrecordBlock (P : Platform) (tip : BlockHash) (block : Block) (height : UInt64)
    (s : InMemoryStore) : InMemoryStore :=
  let s := block.transactions.foldl (fun s tx => deleteTransaction tx.hash s) s
  let s := s.delete .blocks (toBeBytes block.header.height)
  let s := s.delete .blocks tip.bytes.bytes
  let s := setChainTip block.header.parentHash s
  let s := setBlockHeight (height - 1) s
  setStateRoot (computeStateRoot P s) s

theorem revertBlock_reads (P : Platform) (s : InMemoryStore) :
    (∃ e, (revertBlock P).run s = .error e s) ∨ ∃ height tip block, getBlockHeight s = .ok height ∧
      height ≠ 0 ∧ getChainTip s = .ok (some tip) ∧ getBlock P tip s = .ok (some block) := by
  unfold revertBlock
  rcases Db.read_bind_cases getBlockHeight _ s with ⟨e, hrun⟩ | ⟨height, hh, hrun⟩
  · exact .inl ⟨e, hrun⟩
  rw [hrun]
  split
  · exact .inl ⟨_, rfl⟩
  next hz =>
  rcases Db.read_bind_cases _ _ s with ⟨e, hrun⟩ | ⟨tip, ht, hrun⟩
  · exact .inl ⟨e, hrun⟩
  rw [hrun]
  rcases Db.read_bind_cases _ _ s with ⟨e, hrun⟩ | ⟨block, hb, -⟩
  · exact .inl ⟨e, hrun⟩
  obtain ⟨_ | _, ht, ⟨⟩⟩ := except_bind_ok.mp ht
  obtain ⟨_ | _, hb, ⟨⟩⟩ := except_bind_ok.mp hb
  exact .inr ⟨height, tip, block, hh, hz, ht, hb⟩

section RevertBlock

variable {height : UInt64} {tip : BlockHash} {e : GratiaError}

theorem revertBlock_genesis (hh : getBlockHeight s = .ok 0) :
    (revertBlock P).run s = .error (.blockValidationFailed "cannot revert genesis block") s := by
  unfold revertBlock
  rw [read_bind _ hh]
  rfl

variable (hh : getBlockHeight s = .ok height) (hz : height ≠ 0)
  (ht : getChainTip s = .ok (some tip))

include hh hz ht

theorem revertBlock_missing (hb : getBlock P tip s = .ok none) :
    (revertBlock P).run s = .error (.storageError "chain tip block not found in storage") s := by
  unfold revertBlock
  rw [read_bind _ hh, if_neg hz, read_bind tip (by rw [ht]; rfl)]
  exact Db.read_bind_error (by rw [hb]; rfl) _

variable (hb : getBlock P tip s = .ok (some block))

include hb

theorem revertBlock_found :
    (revertBlock P).run s = (forM block.transactions.reverse (revertTransaction P) >>= fun _ =>
      (Db.write fun s => block.transactions.foldl (fun s tx => deleteTransaction tx.hash s) s) >>=
      fun _ => deleteBlock P tip >>= fun _ => Db.write (setChainTip block.header.parentHash) >>=
      fun _ => Db.write (setBlockHeight (height - 1)) >>=
      fun _ => Db.write fun s => setStateRoot (computeStateRoot P s) s).run s := by
  unfold revertBlock
  rw [read_bind _ hh, if_neg hz, read_bind tip (by rw [ht]; rfl),
    read_bind block (by rw [hb]; rfl)]

theorem revertBlock_run
    (hr : (forM block.transactions.reverse (revertTransaction P)).run s = .ok () t)
    (hrest : t.data .blocks = s.data .blocks) :
    (revertBlock P).run s = .ok () (unrecordBlock P tip block height t) := by
  rw [revertBlock_found hh hz ht hb, bind_of_ok hr, bind_of_ok (Db.write_run _)]
  have hget : getBlock P tip
      (block.transactions.foldl (fun s tx => deleteTransaction tx.hash s) t) =
        .ok (some block) := by
    rw [← hb]
    simp only [getBlock, InMemoryStore.get]
    rw [deleteTransactions_data (by decide), hrest]
  have hdel : ∀ u : InMemoryStore, getBlock P tip u = .ok (some block) →
      (deleteBlock P tip).run u = .ok () ((u.delete .blocks (toBeBytes block.header.height)).delete
        .blocks tip.bytes.bytes) := by
    intro u hu
    unfold deleteBlock
    rw [read_bind _ hu]
    rfl
  rw [bind_of_ok (hdel _ hget)]
  rfl

theorem revertBlock_error
    (hr : (forM block.transactions.reverse (revertTransaction P)).run s = .error e t) :
    (revertBlock P).run s = .error e t := by
  rw [revertBlock_found hh hz ht hb, Support.bind_of_error hr]

end RevertBlock

/-- **What `revert_block` can do.**  It fails and has written accounts at most, or the tip block is
stored, its transactions are taken back and its record with them. -/
theorem revertBlock_cases (P : Platform) (s : InMemoryStore) :
    (∃ e t, (revertBlock P).run s = .error e t ∧ SameRest s t) ∨
      ∃ height tip block t, getBlockHeight s = .ok height ∧ height ≠ 0 ∧
        getChainTip s = .ok (some tip) ∧ getBlock P tip s = .ok (some block) ∧
        (forM block.transactions.reverse (revertTransaction P)).run s = .ok () t ∧ SameRest s t ∧
        (revertBlock P).run s = .ok () (unrecordBlock P tip block height t) := by
  rcases revertBlock_reads P s with ⟨e, hrun⟩ | ⟨height, tip, block, hh, hz, ht, hb⟩
  · exact .inl ⟨e, s, hrun, fun _ _ => rfl⟩
  cases hr : (forM block.transactions.reverse (revertTransaction P)).run s with
  | error e t =>
    refine .inl ⟨e, t, revertBlock_error hh hz ht hb hr, fun cf hcf => ?_⟩
    exact (Keeps.forM (keeps_revertTransaction hcf) _).of_error hr
  | ok u t =>
    have hrest : SameRest s t := fun cf hcf =>
      (Keeps.forM (keeps_revertTransaction hcf) _).of_ok hr
    exact .inr ⟨height, tip, block, t, hh, hz, ht, hb, hr, hrest,
      revertBlock_run hh hz ht hb hr (hrest .blocks (by decide))⟩

theorem unrecordBlock_accounts (tip : BlockHash) (height : UInt64) :
    (unrecordBlock P tip block height s).data .accounts = s.data .accounts := by
  simp only [unrecordBlock]
  rw [setStateRoot_data (by decide), setBlockHeight_data (by decide), setChainTip_data (by decide),
    delete_data_ne _ (by decide), delete_data_ne _ (by decide),
    deleteTransactions_data (by decide)]

theorem get_unrecordBlock_blocks (tip : BlockHash) (height : UInt64) (k : Bytes) :
    (unrecordBlock P tip block height s).get .blocks k =
      if tip.bytes.bytes = k ∨ toBeBytes block.header.height = k then none
      else s.get .blocks k := by
  have hblocks : (unrecordBlock P tip block height s).get .blocks k =
      ((s.delete .blocks (toBeBytes block.header.height)).delete .blocks tip.bytes.bytes).get
        .blocks k := by
    simp only [unrecordBlock, InMemoryStore.get]
    rw [setStateRoot_data (by decide), setBlockHeight_data (by decide),
      setChainTip_data (by decide)]
    simp only [InMemoryStore.delete_data_self]
    rw [deleteTransactions_data (by decide)]
  rw [hblocks]
  by_cases htip : tip.bytes.bytes = k
  · rw [if_pos (.inl htip), htip]
    exact get_delete_self _ _ _
  · rw [get_delete_ne _ _ htip]
    by_cases hindex : toBeBytes block.header.height = k
    · rw [if_pos (.inr hindex), hindex]
      exact get_delete_self _ _ _
    · rw [if_neg (not_or.mpr ⟨htip, hindex⟩), get_delete_ne _ _ hindex]

theorem unrecordBlock_blocks (tip : BlockHash) (height : UInt64) (k : Bytes) :
    (unrecordBlock P tip block height s).get .blocks k = none ∨
      (unrecordBlock P tip block height s).get .blocks k = s.get .blocks k := by
  rw [get_unrecordBlock_blocks]
  split
  · exact .inl rfl
  · exact .inr rfl

theorem getBlockHeight_unrecordBlock (tip : BlockHash) (height : UInt64) :
    getBlockHeight (unrecordBlock P tip block height s) = .ok (height - 1) := by
  have hk : stateKeyStateRoot ≠ stateKeyBlockHeight := by decide
  simp only [unrecordBlock, setStateRoot, setBlockHeight, getBlockHeight]
  rw [get_put_ne _ _ _ hk, get_put_self]
  simp

theorem getChainTip_unrecordBlock (tip : BlockHash) (height : UInt64) :
    getChainTip (unrecordBlock P tip block height s) = .ok (some block.header.parentHash) := by
  have hk : stateKeyStateRoot ≠ stateKeyChainTip := by decide
  have hk' : stateKeyBlockHeight ≠ stateKeyChainTip := by decide
  simp only [unrecordBlock, setStateRoot, setBlockHeight, setChainTip, getChainTip]
  rw [get_put_ne _ _ _ hk, get_put_ne _ _ _ hk',
    get_put_self]
  simp [block.header.parentHash.bytes.length_eq]

/-- Applying the block to `s` outgrows the size target, so that it ends in a pruning cycle. -/
def TriggersPruning (P : Platform) (m : StateManager) (block : Block) (s : InMemoryStore) : Prop :=
  ∃ s₁, (forM block.transactions (applyTransaction P)).run s = .ok () s₁ ∧
    Pruning.shouldPrune m.pruningPolicy (commitBlock P block s₁)

instance decidableTriggersPruning : Decidable (TriggersPruning P m block s) :=
  decidable_of_iff
    (failure ((forM block.transactions (applyTransaction P)).run s) = none ∧
      Pruning.shouldPrune m.pruningPolicy (commitBlock P block
        (finalState ((forM block.transactions (applyTransaction P)).run s))))
    ⟨fun ⟨hok, hp⟩ => ⟨_, eq_ok_of_failure hok, hp⟩, fun ⟨_, hok, hp⟩ => by rw [hok]; exact ⟨rfl, hp⟩⟩

def holdings (acct : AccountState) : Lux × Lux × UInt64 := (acct.balance, acct.staked, acct.nonce)

/-- `revert_block` succeeds on `s'` and gives back what `s` had: balance, stake and nonce of every
address, the height, and above genesis the tip. -/
def RevertRestores (P : Platform) (s s' : InMemoryStore) : Prop :=
  ∃ t, (revertBlock P).run s' = .ok () t ∧
    (∀ a, (getAccount P a t).map holdings = (getAccount P a s).map holdings) ∧
    getBlockHeight t = getBlockHeight s ∧
    (∀ height, getBlockHeight s = .ok height → 0 < height → getChainTip t = getChainTip s)

/-- Nothing the block does to `s` wraps a counter that the revert checks, and the chain has a tip if
it has a height. -/
def Revertible (block : Block) (s : InMemoryStore) : Prop :=
  (∀ tx ∈ block.transactions, ¬ WrapsNonce tx) ∧
  ∀ height, getBlockHeight s = .ok height →
    height ≠ maxNonce ∧ (0 < height → getChainTip s ≠ .ok none)

/-- Reverting the block just applied: unless its height wrapped to zero, the accounts and the height
are back and the tip is the block's parent, or a nonce had wrapped and the revert fails. -/
theorem revertBlock_applied (hundo : UndoableAll P block.transactions s)
    (hno : ¬ TriggersPruning P m block s)
    {s₁ : InMemoryStore} (htxs : (forM block.transactions (applyTransaction P)).run s = .ok () s₁)
    (hz : block.header.height ≠ 0) :
    ((∀ tx ∈ block.transactions, ¬ WrapsNonce tx) ∧
        ∃ t, (revertBlock P).run (finishBlock P m block s₁) = .ok () t ∧ SameAccounts P s t ∧
          getBlockHeight t = .ok (block.header.height - 1) ∧
          getChainTip t = .ok (some block.header.parentHash)) ∨
      (∃ tx ∈ block.transactions, WrapsNonce tx) ∧
        ∃ e t, (revertBlock P).run (finishBlock P m block s₁) = .error e t := by
  have hh := getBlockHeight_finishBlock P m block s₁
  have ht := getChainTip_finishBlock P m block s₁
  have hb : getBlock P (block.header.hash P) (finishBlock P m block s₁) = .ok (some block) := by
    have hfin : finishBlock P m block s₁ = commitBlock P block s₁ :=
      if_neg fun hp => hno ⟨s₁, htxs, hp⟩
    rw [hfin, getBlock_commitBlock]
  have hsame : SameAccounts P s₁ (finishBlock P m block s₁) :=
    fun a => (getAccount_congr P (finishBlock_accounts P m block s₁) a).symm
  rcases revertTransactions_applied hundo htxs hsame with
    ⟨hall, t, hr, hacc, hrest⟩ | ⟨hwraps, e, t, hr⟩
  · refine .inl ⟨hall, _, revertBlock_run hh hz ht hb hr (hrest .blocks (by decide)), fun a => ?_,
      getBlockHeight_unrecordBlock _ _, getChainTip_unrecordBlock _ _⟩
    rw [getAccount_congr P (unrecordBlock_accounts _ _) a, hacc a]
  · exact .inr ⟨hwraps, e, t, revertBlock_error hh hz ht hb hr⟩

/-- **Revert is the inverse of apply, exactly.** -/
theorem applyBlock_revertBlock_iff (hsup : supply P s < 2 ^ 63)
    (hno : ¬ TriggersPruning P m block s) (h : (applyBlock P m block).run s = .ok () s') :
    RevertRestores P s s' ↔ Revertible block s := by
  obtain ⟨hhdr, s₁, htxs, rfl⟩ := applyBlock_ok.mp h
  obtain ⟨height, tip, hh, ht, hheight, hparent⟩ := headerChecks_ok.mp hhdr
  have hwrap : block.header.height = 0 ↔ height = maxNonce := by
    rw [hheight, succ_eq_zero]
  by_cases hz : block.header.height = 0
  · -- The height wrapped, and the block is taken for genesis.
    refine iff_of_false ?_ fun hrev => (hrev.2 height hh).1 (hwrap.mp hz)
    rintro ⟨t, hr, -⟩
    rw [revertBlock_genesis (by rw [getBlockHeight_finishBlock, hz])] at hr
    cases hr
  · rcases revertBlock_applied (undoableAll_of_supply hsup) hno htxs hz with
      ⟨hall, t, hrun, hacc, hht, htip⟩ | ⟨⟨tx, hmem, hw⟩, e, t, hrun⟩
    · -- Accounts and height are back; what is left is the tip.
      have hht' : getBlockHeight t = getBlockHeight s := by
        rw [hht, hh, hheight, UInt64.add_sub_cancel]
      constructor
      · rintro ⟨u, hu, -, -, htip'⟩
        rw [hrun] at hu
        cases hu
        refine ⟨hall, fun k hk => ?_⟩
        rw [hh] at hk
        cases hk
        refine ⟨fun he => hz (hwrap.mpr he), fun hpos hnone => ?_⟩
        have := htip' height hh hpos
        rw [htip, hnone] at this
        cases this
      · rintro ⟨-, hok⟩
        refine ⟨t, hrun, fun a => by rw [hacc a], hht', fun k hk hpos => ?_⟩
        rw [hh] at hk
        cases hk
        rw [htip, ht]
        cases tip with
        | none => exact absurd ht ((hok height hh).2 hpos)
        | some tip => rw [hparent hpos tip rfl]
    · refine iff_of_false ?_ fun hrev => hrev.1 tx hmem hw
      rintro ⟨u, hu, -⟩
      rw [hrun] at hu
      cases hu

open Reference

def payment (nonce : UInt64) : Block :=
  blockOf (headerAt 1 {} (node 1))
    [signedTx (key 7) (.transfer ⟨.splat 9⟩ 100) nonce 10]

abbrev applied (block : Block) (s : InMemoryStore) : InMemoryStore :=
  finalState ((applyBlock reference {} block).run s)

abbrev reverted (s : InMemoryStore) : InMemoryStore := finalState ((revertBlock reference).run s)

/-- The payment of `payment 0` is given back. -/
theorem applyBlock_revertBlock_payment :
    (supply reference fundedStore < 2 ^ 63 ∧
      ¬ TriggersPruning reference {} (payment 0) fundedStore ∧
      (applyBlock reference {} (payment 0)).run fundedStore =
        .ok () (applied (payment 0) fundedStore)) ∧
    RevertRestores reference fundedStore (applied (payment 0) fundedStore) := by
  refine and_of_imp (by decide +kernel) fun ⟨hsup, hno, hok⟩ => ?_
  refine (applyBlock_revertBlock_iff hsup hno hok).mpr ⟨?_, ?_⟩
  · intro tx hmem hw
    obtain rfl := List.mem_singleton.mp hmem
    exact absurd hw.1 (by decide)
  · rintro height ⟨⟩
    exact ⟨by decide, fun hpos => absurd hpos (by decide)⟩

def lastNonceStore : InMemoryStore :=
  putAccount reference (addressOf (key 7))
    { balance := 1000, nonce := maxNonce } .new

/-- A payment with the last nonce is applied, and the revert of its block fails. -/
theorem last_nonce_not_reverted :
    (supply reference lastNonceStore < 2 ^ 63 ∧
      ¬ TriggersPruning reference {} (payment maxNonce) lastNonceStore ∧
      (applyBlock reference {} (payment maxNonce)).run lastNonceStore =
        .ok () (applied (payment maxNonce) lastNonceStore) ∧
      failure ((revertBlock reference).run (applied (payment maxNonce) lastNonceStore)) =
        some (.other "nonce underflow during transaction revert")) ∧
    ¬ RevertRestores reference lastNonceStore (applied (payment maxNonce) lastNonceStore) := by
  refine and_of_imp (by decide +kernel) fun ⟨_, _, _, hfails⟩ => ?_
  rintro ⟨t, hr, -⟩
  rw [hr] at hfails
  cases hfails

end StateManager

end Gratia
