import Gratia.Core.Reference
import Gratia.State.Nonces

/-!
# State — Atomicity

A block that `apply_block` refuses should leave the store as it was.  It does so exactly when it is
refused before anything is written: by the header checks, or by the sender-side checks of its first
transaction (`RefusedAtOnce`).  In every other refusal the transactions before the failing one stay
applied, and so does the debit of a transfer whose credit overflows.

The proof follows one nonce.  If the first transaction gets past its checks, its sender's nonce has
moved by at least one and at most the length of the block, so the store is not the one before the
call (`applyBlock_error_iff`).
-/

namespace Gratia

open Reference (addressOf blockOf headerAt signedTx)
open Support StateDb

namespace StateManager

variable (P : Platform) (m : StateManager)

/-- The block does not fit the chain, or its first transaction is not payable. -/
def RefusedAtOnce (block : Block) (s : InMemoryStore) : Prop :=
  ¬ Fits block s ∨ ∃ tx ∈ block.transactions.head?, ¬ Payable P tx s

variable {P m} {block : Block} {txs : List Transaction} {s s' : InMemoryStore} {e : GratiaError}

/-- A list that fails has moved every nonce by as many of its transactions as were sent before some
point of it; past the first transaction's checks, that point is not the start. -/
theorem getNonce_of_error (h : (forM txs (applyTransaction P)).run s = .error e s') :
    (∀ tx ∈ txs.head?, Payable P tx s) →
      ∃ done, done ≠ [] ∧ done <+: txs ∧
        ∀ a, getNonce P a s' =
          (getNonce P a s).map (· + UInt64.ofNat (sentBy P a done).length) := by
  intro hpay
  obtain ⟨pre, tx, post, s₁, rfl, hpre, htx⟩ := forM_error h
  rcases applyTransaction_error.mp htx with ⟨hchk, rfl⟩ | ⟨sender, acct, hchk, hcr⟩
  · -- The failing transaction wrote nothing, so it is not the first.
    refine ⟨pre, ?_, List.prefix_append _ _, getNonce_applyTransactions hpre⟩
    rintro rfl
    cases hpre
    obtain ⟨r, hr⟩ := (payable_iff P).mp (hpay tx rfl)
    rw [hr] at hchk
    cases hchk
  · -- It wrote its sender's account and failed at the credit.
    refine ⟨pre ++ [tx], by simp, ⟨post, by simp⟩, fun a => ?_⟩
    have hlen : UInt64.ofNat (sentBy P a (pre ++ [tx])).length =
        UInt64.ofNat (sentBy P a pre).length + bump P a tx := by
      have : sentBy P a (pre ++ [tx]) = sentBy P a pre ++ sentBy P a [tx] := List.filter_append ..
      have hone : UInt64.ofNat (sentBy P a [tx]).length = bump P a tx := by
        rw [length_sentBy_cons]
        simp [sentBy]
      rw [this, List.length_append, UInt64.ofNat_add, hone]
    rw [creditRecipient_error hcr, getNonce_debited hchk, getNonce_applyTransactions hpre, hlen]
    cases getNonce P a s <;> simp [Except.map, UInt64.add_assoc]

theorem eq_of_refusedAtOnce (h : (applyBlock P m block).run s = .error e s')
    (hr : RefusedAtOnce P block s) : s' = s := by
  rcases applyBlock_error.mp h with ⟨-, rfl⟩ | ⟨hhdr, htxs⟩
  · rfl
  · rcases hr with hno | ⟨tx, hhead, hno⟩
    · exact absurd (headerChecks_ok.mp hhdr) hno
    · obtain ⟨rest, hl⟩ : ∃ rest, block.transactions = tx :: rest := by
        cases hb : block.transactions with
        | nil => simp [hb] at hhead
        | cons t rest =>
          rw [hb] at hhead
          cases hhead
          exact ⟨rest, rfl⟩
      rw [hl, List.forM_cons] at htxs
      rcases bind_error.mp htxs with herr | ⟨_, s₁, hok, -⟩
      · rcases applyTransaction_error.mp herr with ⟨-, rfl⟩ | ⟨sender, acct, hchk, -⟩
        · rfl
        · exact absurd ((payable_iff P).mpr ⟨_, hchk⟩) hno
      · obtain ⟨sender, acct, hchk, -⟩ := applyTransaction_ok.mp hok
        exact absurd ((payable_iff P).mpr ⟨_, hchk⟩) hno

/-- **Atomicity, exactly.**  A refused block leaves the store as it was if and only if it was
refused before the first write.  The length bound is that of a `Vec`. -/
theorem applyBlock_error_iff (hlen : block.transactions.length < 2 ^ 64)
    (h : (applyBlock P m block).run s = .error e s') : s' = s ↔ RefusedAtOnce P block s := by
  refine ⟨?_, eq_of_refusedAtOnce h⟩
  rintro rfl
  rcases applyBlock_error.mp h with ⟨hhdr, -⟩ | ⟨-, htxs⟩
  · refine .inl fun hfit => ?_
    rw [headerChecks_ok.mpr hfit] at hhdr
    cases hhdr
  · refine .inr ?_
    by_contra hno
    push Not at hno
    obtain ⟨done, hne, hpre, hnonce⟩ := getNonce_of_error htxs hno
    obtain ⟨tx, rest, rfl⟩ := List.exists_cons_of_ne_nil hne
    have hhead : tx ∈ block.transactions.head? := by
      obtain ⟨post, hpost⟩ := hpre
      rw [← hpost]
      rfl
    obtain ⟨sender, acct, hs, hg, -, -⟩ := hno tx hhead
    have hn := hnonce sender
    simp only [getNonce, hg, Except.map, Except.ok.injEq] at hn
    -- The sender sent at least one of the transactions done, and at most all of the block's.
    have hpos : 0 < (sentBy P sender (tx :: rest)).length := by
      simp [sentBy, senderOf_eq.mpr hs]
    have hle : (sentBy P sender (tx :: rest)).length ≤ block.transactions.length :=
      (List.length_filter_le _ _).trans hpre.length_le
    have hval := congrArg UInt64.toNat hn
    rw [UInt64.toNat_add, UInt64.toNat_ofNat_of_lt' (hle.trans_lt hlen)] at hval
    have := acct.nonce.toNat_lt
    omega

/-! ### A block refused too late -/

open Reference

def fundedStore : InMemoryStore :=
  putAccount reference (addressOf (key 7)) { balance := 1000 } .new

def staleSecondPayment : Block :=
  blockOf (headerAt 1 {} (node 1))
    [signedTx (key 7) (.transfer ⟨.splat 9⟩ 100) 0 10,
     signedTx (key 7) (.transfer ⟨.splat 9⟩ 100) 7 10]

def staleFirstPayment : Block :=
  blockOf (headerAt 1 {} (node 1))
    [signedTx (key 7) (.transfer ⟨.splat 9⟩ 100) 7 10]

theorem stale_refused :
    failure ((applyBlock reference {} staleFirstPayment).run fundedStore) =
        some (.nonceMismatch 0 7) ∧
      failure ((applyBlock reference {} staleSecondPayment).run fundedStore) =
        some (.nonceMismatch 1 7) ∧
      getAccount reference (addressOf (key 7)) fundedStore =
        .ok { balance := 1000 } ∧
      getAccount reference (addressOf (key 7)) (finalState
        ((applyBlock reference {} staleSecondPayment).run fundedStore)) =
        .ok { balance := 890, nonce := 1 } := by
  decide +kernel

/-- The block is refused for the nonce of its second transaction; the first one stays applied. -/
theorem refused_block_keeps_first_payment :
    ∃ s', (applyBlock reference {} staleSecondPayment).run fundedStore =
        .error (.nonceMismatch 1 7) s' ∧
      getAccount reference (addressOf (key 7)) fundedStore =
        .ok { balance := 1000 } ∧
      getAccount reference (addressOf (key 7)) s' =
        .ok { balance := 890, nonce := 1 } ∧ s' ≠ fundedStore := by
  obtain ⟨-, herr, hbefore, hafter⟩ := stale_refused
  refine ⟨_, eq_error_of_failure herr, hbefore, hafter, fun he => ?_⟩
  rw [he, hbefore] at hafter
  revert hafter
  decide

/-- A block refused at its first transaction leaves nothing written. -/
theorem applyBlock_error_iff_staleFirstPayment :
    ∃ s', (applyBlock reference {} staleFirstPayment).run fundedStore =
        .error (.nonceMismatch 0 7) s' ∧
      (s' = fundedStore ↔ RefusedAtOnce reference staleFirstPayment fundedStore) := by
  have herr := eq_error_of_failure stale_refused.1
  exact ⟨_, herr, applyBlock_error_iff (by decide) herr⟩

end StateManager

end Gratia
