import Gratia.State.Blocks

/-!
# State — Nonces

Every transaction that gets past its checks carries its sender's nonce and moves that nonce one
further; no other nonce moves.  So a list of applied transactions moves the nonce of each address by
the number of transactions it sent (`getNonce_applyTransactions`), and those carry the nonces from
the first one on, in order (`nonces_consecutive`).  An address whose account cannot be read is never
written, so readability does not change either.
-/

namespace Gratia

open Support StateDb

namespace StateManager

variable (P : Platform)

def senderOf (tx : Transaction) : Option Address := (addressFromPubkey P tx.senderPubkey).toOption

def sentBy (a : Address) (txs : List Transaction) : List Transaction :=
  txs.filter fun tx => senderOf P tx = some a

/-- How far a transaction moves the nonce of an address. -/
def bump (a : Address) (tx : Transaction) : UInt64 := if senderOf P tx = some a then 1 else 0

variable {P} {tx : Transaction} {txs : List Transaction} {s s' : InMemoryStore} {e : GratiaError}

theorem senderOf_eq {a : Address} :
    senderOf P tx = some a ↔ addressFromPubkey P tx.senderPubkey = .ok a :=
  toOption_eq_some

theorem length_sentBy_cons (a : Address) (tx : Transaction) (txs : List Transaction) :
    UInt64.ofNat (sentBy P a (tx :: txs)).length =
      bump P a tx + UInt64.ofNat (sentBy P a txs).length := by
  unfold sentBy bump
  by_cases h : senderOf P tx = some a
  · simp [h, UInt64.ofNat_add, add_comm]
  · simp [h]

theorem getNonce_putAccount_self (a : Address) (acct : AccountState) (s : InMemoryStore) :
    getNonce P a (putAccount P a acct s) = .ok acct.nonce := by
  simp [getNonce, Except.map]

theorem getNonce_putAccount_ne {a b : Address} (h : a ≠ b) (acct : AccountState)
    (s : InMemoryStore) : getNonce P b (putAccount P a acct s) = getNonce P b s := by
  simp only [getNonce, getAccount_putAccount_ne P h]

theorem getNonce_congr {s t : InMemoryStore} (h : s.data .accounts = t.data .accounts)
    (a : Address) : getNonce P a s = getNonce P a t := by
  simp only [getNonce, getAccount_congr P h]

theorem getNonce_debited {sender : Address} {acct : AccountState}
    (h : senderChecks P tx s = .ok (sender, acct)) (a : Address) :
    getNonce P a (putAccount P sender (debited tx acct) s) =
      (getNonce P a s).map (· + bump P a tx) := by
  obtain ⟨hs, hg, -, -⟩ := (senderChecks_ok P).mp h
  have hsend := senderOf_eq.mpr hs
  by_cases ha : sender = a
  · subst ha
    rw [getNonce_putAccount_self]
    simp [getNonce, hg, Except.map, bump, hsend]
  · rw [getNonce_putAccount_ne ha, bump, if_neg (by rw [hsend]; simpa using ha)]
    cases getNonce P a s <;> simp [Except.map]

theorem getNonce_creditRecipient (h : (creditRecipient P tx).run s = .ok () s') (a : Address) :
    getNonce P a s' = getNonce P a s := by
  rcases creditRecipient_ok h with ⟨-, rfl⟩ | ⟨recipient, amount, acct, -, hg, -, rfl⟩
  · rfl
  · by_cases ha : recipient = a
    · subst ha
      rw [getNonce_putAccount_self]
      simp [getNonce, hg, Except.map]
    · exact getNonce_putAccount_ne ha _ _

/-- **An applied transaction moves its sender's nonce, and no other.** -/
theorem getNonce_applyTransaction (h : (applyTransaction P tx).run s = .ok () s') (a : Address) :
    getNonce P a s' = (getNonce P a s).map (· + bump P a tx) := by
  obtain ⟨sender, acct, hchk, hcr⟩ := applyTransaction_ok.mp h
  rw [getNonce_creditRecipient hcr, getNonce_debited hchk]

theorem nonce_of_applyTransaction (h : (applyTransaction P tx).run s = .ok () s') :
    ∃ a, senderOf P tx = some a ∧ getNonce P a s = .ok tx.nonce := by
  obtain ⟨sender, acct, hchk, -⟩ := applyTransaction_ok.mp h
  obtain ⟨hs, hg, hn, -⟩ := (senderChecks_ok P).mp hchk
  exact ⟨sender, senderOf_eq.mpr hs, by simp [getNonce, hg, Except.map, hn]⟩

theorem getNonce_applyTransactions (h : (forM txs (applyTransaction P)).run s = .ok () s')
    (a : Address) :
    getNonce P a s' = (getNonce P a s).map (· + UInt64.ofNat (sentBy P a txs).length) := by
  induction txs generalizing s with
  | nil =>
    cases h
    cases getNonce P a s' <;> simp [Except.map, sentBy]
  | cons tx txs ih =>
    obtain ⟨s₁, h₁, h₂⟩ := forM_cons_ok.mp h
    rw [ih h₂, getNonce_applyTransaction h₁, length_sentBy_cons]
    cases getNonce P a s <;> simp [Except.map, UInt64.add_assoc]

/-! ### Nonces in order -/

def maxNonce : UInt64 := 18446744073709551615

theorem toNat_succ_of_ne {n : UInt64} (h : n ≠ maxNonce) : (n + 1).toNat = n.toNat + 1 := by
  have hlt := n.toNat_lt
  have hne : n.toNat ≠ 18446744073709551615 := fun he => h (UInt64.toNat_inj.mp he)
  rw [UInt64.toNat_add]
  simp only [UInt64.reduceToNat]
  omega

theorem succ_eq_zero {n : UInt64} : n + 1 = 0 ↔ n = maxNonce := by
  constructor
  · intro h
    have hsub : n + 1 - 1 = 0 - 1 := congrArg (· - 1) h
    rw [UInt64.add_sub_cancel] at hsub
    rw [hsub]
    rfl
  · rintro rfl
    rfl

def nonceNat (P : Platform) (a : Address) (s : InMemoryStore) : Except GratiaError ℕ :=
  (getNonce P a s).map UInt64.toNat

/-- While no transaction carries the last nonce, the nonces an address uses are consecutive integers
from its first one on, and its nonce afterwards is the next. -/
theorem nonces_consecutive {a : Address} {n : ℕ} (hn : nonceNat P a s = .ok n)
    (hmax : ∀ tx ∈ txs, tx.nonce ≠ maxNonce)
    (h : (forM txs (applyTransaction P)).run s = .ok () s') :
    ((sentBy P a txs).map fun tx => tx.nonce.toNat) = List.range' n (sentBy P a txs).length ∧
      nonceNat P a s' = .ok (n + (sentBy P a txs).length) := by
  induction txs generalizing s n with
  | nil =>
    cases h
    exact ⟨rfl, hn⟩
  | cons tx txs ih =>
    obtain ⟨s₁, h₁, h₂⟩ := forM_cons_ok.mp h
    have hmax' : ∀ t ∈ txs, t.nonce ≠ maxNonce := fun t ht => hmax t (List.mem_cons_of_mem _ ht)
    obtain ⟨b, hb, hbn⟩ := nonce_of_applyTransaction h₁
    have hstep := getNonce_applyTransaction h₁ a
    by_cases hab : b = a
    · subst hab
      have hnn : n = tx.nonce.toNat := by simpa [nonceNat, hbn, Except.map] using hn.symm
      have hnext : nonceNat P b s₁ = .ok (n + 1) := by
        rw [nonceNat, hstep, hbn, hnn]
        simp [Except.map, bump, hb, toNat_succ_of_ne (hmax tx List.mem_cons_self)]
      obtain ⟨hmap, hlast⟩ := ih hnext hmax' h₂
      have hcons : sentBy P b (tx :: txs) = tx :: sentBy P b txs := by simp [sentBy, hb]
      rw [hcons, List.map_cons, hmap, List.length_cons, List.range'_succ, ← hnn]
      exact ⟨rfl, by rw [hlast]; congr 1; omega⟩
    · have hsame : nonceNat P a s₁ = .ok n := by
        rw [nonceNat, hstep, bump, if_neg (by rw [hb]; simpa using hab), ← hn, nonceNat]
        cases getNonce P a s <;> simp [Except.map]
      have hcons : sentBy P a (tx :: txs) = sentBy P a txs := by
        simp [sentBy, hb, hab]
      rw [hcons]
      exact ih hsame hmax' h₂

end StateManager

end Gratia
