import Gratia.State.Nullifiers
import Gratia.State.Revert
import Gratia.State.StateRoot

/-!
# State — Traces

What a block leaves behind when it is applied and reverted.  The accounts read as before, but two
things derived from the block stay: the attestations it brought are not taken out of the nullifier
index, and an account it wrote for the first time stays in the table, with nothing in it.  The first
makes `has_nullifier` report a nullifier that no block of the chain contains; the second gives the
table another state root.

Which entries of the account table can differ is a matter of the addresses a block touches
(`touches`): outside of them the table is as it was, and at each of them is the encoding of an
account (`Rewrites`).  So two stores that a block was applied to, and that read the same, have the
same table; and the table that a reverted block leaves is the one before it with every account it
touches written back (`writtenBack`).
-/

namespace Gratia

open InMemoryStore (mem_iterCf delete_data_ne)
open Support StateDb

namespace StateManager

variable {P : Platform} {m : StateManager} {tx : Transaction} {txs : List Transaction}
  {acct : AccountState} {block : Block} {s s' t t' u : InMemoryStore}

/-! ### Stores that read the same -/

theorem SameAccounts.put (h : SameAccounts P s t) (a : Address) (acct : AccountState) :
    SameAccounts P (putAccount P a acct s) (putAccount P a acct t) := by
  intro b
  by_cases hb : a = b
  · subst hb
    rw [getAccount_putAccount_self, getAccount_putAccount_self]
  · rw [getAccount_putAccount_ne P hb, getAccount_putAccount_ne P hb, h b]

theorem SameAccounts.applyTransaction (h : SameAccounts P s t)
    (hr : (applyTransaction P tx).run s = .ok () s') :
    ∃ t', (StateManager.applyTransaction P tx).run t = .ok () t' ∧ SameAccounts P s' t' := by
  obtain ⟨sender, acct, hchk, hcr⟩ := applyTransaction_ok.mp hr
  have hchk' : senderChecks P tx t = .ok (sender, acct) := by
    obtain ⟨hs, hacct, hn, hcov⟩ := (senderChecks_ok P).mp hchk
    exact (senderChecks_ok P).mpr ⟨hs, (h sender).symm.trans hacct, hn, hcov⟩
  have hput := h.put sender (debited tx acct)
  rw [applyTransaction_run, hchk']
  dsimp only
  rcases creditRecipient_ok hcr with ⟨hno, rfl⟩ | ⟨recipient, amount, rec, hp, hrec, hlt, rfl⟩
  · refine ⟨putAccount P sender (debited tx acct) t, ?_, hput⟩
    unfold creditRecipient
    split
    next recipient amount hp => exact absurd hp (hno recipient amount)
    next => rfl
  · refine ⟨_, ?_, hput.put recipient { rec with balance := rec.balance + amount }⟩
    simp only [creditRecipient, hp, credit_run, ← hput recipient, hrec, if_pos hlt]

theorem SameAccounts.applyTransactions (h : SameAccounts P s t)
    (hr : (forM txs (StateManager.applyTransaction P)).run s = .ok () s') :
    ∃ t', (forM txs (StateManager.applyTransaction P)).run t = .ok () t' ∧
      SameAccounts P s' t' := by
  induction txs generalizing s t with
  | nil =>
    cases hr
    exact ⟨t, rfl, h⟩
  | cons tx txs ih =>
    obtain ⟨s₁, h₁, h₂⟩ := forM_cons_ok.mp hr
    obtain ⟨t₁, ht₁, hsame⟩ := h.applyTransaction h₁
    obtain ⟨t', ht', hsame'⟩ := ih hsame h₂
    exact ⟨t', forM_cons_ok.mpr ⟨t₁, ht₁, ht'⟩, hsame'⟩

/-! ### The addresses a block touches -/

def touches (P : Platform) (tx : Transaction) : List Address :=
  (senderOf P tx).toList ++
    match tx.payload with
    | .transfer recipient _ => [recipient]
    | _ => []

def Held (P : Platform) (a : Address) (s : InMemoryStore) : Prop :=
  ∃ acct, s.get .accounts a.bytes.bytes = some (P.account.put acct)

/-- The account tables agree but at the given addresses, and there the second has accounts. -/
structure Rewrites (P : Platform) (W : List Address) (s t : InMemoryStore) : Prop where
  outside : ∀ k, (∀ a ∈ W, a.bytes.bytes ≠ k) → t.get .accounts k = s.get .accounts k
  inside : ∀ a ∈ W, Held P a t

namespace Rewrites

variable {W W' : List Address}

theorem put (a : Address) (acct : AccountState) (s : InMemoryStore) :
    Rewrites P [a] s (putAccount P a acct s) := by
  refine ⟨fun k hk => ?_, fun b hb => ⟨acct, ?_⟩⟩
  · exact s.get_put_ne _ _ (hk a (List.mem_singleton_self a))
  · rw [List.mem_singleton.mp hb]
    exact s.get_put_self _ _ _

theorem trans (h : Rewrites P W s t) (h' : Rewrites P W' t u) : Rewrites P (W ++ W') s u := by
  refine ⟨fun k hk => ?_, fun a ha => ?_⟩
  · rw [h'.outside k fun a ha => hk a (List.mem_append_right _ ha),
      h.outside k fun a ha => hk a (List.mem_append_left _ ha)]
  · by_cases hk : ∀ b ∈ W', b.bytes.bytes ≠ a.bytes.bytes
    · unfold Held
      rw [h'.outside _ hk]
      exact h.inside a ((List.mem_append.mp ha).resolve_right fun ha' => hk a ha' rfl)
    · -- the second pass wrote there last
      push Not at hk
      obtain ⟨b, hb, hba⟩ := hk
      unfold Held
      rw [← hba]
      exact h'.inside b hb

theorem of_mem_iff (h : Rewrites P W s t) (hW : ∀ a, a ∈ W ↔ a ∈ W') : Rewrites P W' s t :=
  ⟨fun k hk => h.outside k fun a ha => hk a ((hW a).mp ha), fun a ha => h.inside a ((hW a).mpr ha)⟩

/-- Both passes start from the same table, so they differ at the addresses alone. -/
theorem join (h : Rewrites P W s t) (h' : Rewrites P W s u) : Rewrites P W t u :=
  ⟨fun k hk => (h'.outside k hk).trans (h.outside k hk).symm, h'.inside⟩

theorem congr (h : Rewrites P W s t) (hs : s'.data .accounts = s.data .accounts)
    (ht : t'.data .accounts = t.data .accounts) : Rewrites P W s' t' := by
  refine ⟨fun k hk => ?_, fun a ha => ?_⟩
  · simp only [InMemoryStore.get, hs, ht]
    exact h.outside k hk
  · simp only [Held, InMemoryStore.get, ht]
    exact h.inside a ha

theorem data_eq (h : Rewrites P W s t) (hheld : ∀ a ∈ W, Held P a s) (hsame : SameAccounts P s t) :
    t.data .accounts = s.data .accounts := by
  refine Std.ExtTreeMap.ext_getElem? fun k => ?_
  by_cases hk : ∀ a ∈ W, a.bytes.bytes ≠ k
  · exact h.outside k hk
  · push Not at hk
    obtain ⟨a, ha, rfl⟩ := hk
    obtain ⟨acct, hacct⟩ := hheld a ha
    obtain ⟨acct', hacct'⟩ := h.inside a ha
    obtain rfl : acct = acct' := by
      have hread := hsame a
      simpa [getAccount, hacct, hacct'] using hread
    exact hacct'.trans hacct.symm

theorem holdsAccounts (h : Rewrites P W s t) (hs : HoldsAccounts P s) : HoldsAccounts P t := by
  rintro ⟨k, v⟩ he
  by_cases hk : ∀ a ∈ W, a.bytes.bytes ≠ k
  · rw [mem_iterCf, h.outside k hk, ← mem_iterCf] at he
    exact hs _ he
  · push Not at hk
    obtain ⟨a, ha, rfl⟩ := hk
    obtain ⟨acct, hacct⟩ := h.inside a ha
    rw [mem_iterCf, hacct] at he
    cases he
    exact ⟨a, acct, rfl⟩

end Rewrites

/-- The accounts at the addresses, written as they read.  An account without an entry reads as an
empty one, and gets an entry. -/
def writtenBack (P : Platform) (W : List Address) (s : InMemoryStore) : InMemoryStore :=
  W.foldr (fun a u =>
    match getAccount P a s with
    | .ok acct => putAccount P a acct u
    | .error _ => u) s

theorem writtenBack_spec {W : List Address} (hread : ∀ a ∈ W, ∃ acct, getAccount P a s = .ok acct) :
    Rewrites P W s (writtenBack P W s) ∧ SameAccounts P s (writtenBack P W s) := by
  induction W with
  | nil => exact ⟨⟨fun _ _ => rfl, by simp⟩, fun _ => rfl⟩
  | cons a W ih =>
    obtain ⟨hrest, hsame⟩ := ih fun b hb => hread b (List.mem_cons_of_mem a hb)
    obtain ⟨acct, hacct⟩ := hread a List.mem_cons_self
    have hstep : writtenBack P (a :: W) s = putAccount P a acct (writtenBack P W s) := by
      simp only [writtenBack, List.foldr_cons, hacct]
    rw [hstep]
    refine ⟨(hrest.trans (.put a acct _)).of_mem_iff fun b => ?_, fun b => ?_⟩
    · rw [List.mem_append, List.mem_singleton, List.mem_cons, or_comm]
    · by_cases hb : a = b
      · rw [← hb, hacct, getAccount_putAccount_self]
      · rw [getAccount_putAccount_ne P hb, hsame b]

/-- A pass that leaves every account reading as before has written the accounts back. -/
theorem Rewrites.eq_writtenBack {W : List Address} (h : Rewrites P W s t)
    (hsame : SameAccounts P s t) : (writtenBack P W s).data .accounts = t.data .accounts := by
  have hread : ∀ a ∈ W, ∃ acct, getAccount P a s = .ok acct := by
    intro a ha
    obtain ⟨acct, hacct⟩ := h.inside a ha
    exact ⟨acct, (hsame a).trans (by simp [getAccount, hacct])⟩
  obtain ⟨hback, hsame'⟩ := writtenBack_spec hread
  exact (h.join hback).data_eq h.inside fun a => (hsame a).symm.trans (hsame' a)

theorem rewrites_applyTransaction (h : (applyTransaction P tx).run s = .ok () s') :
    Rewrites P (touches P tx) s s' := by
  obtain ⟨sender, acct, hchk, hcr⟩ := applyTransaction_ok.mp h
  obtain ⟨hs, -⟩ := (senderChecks_ok P).mp hchk
  have hput := Rewrites.put (P := P) sender (debited tx acct) s
  rw [touches, senderOf_eq.mpr hs, Option.toList_some]
  rcases creditRecipient_ok hcr with ⟨hno, rfl⟩ | ⟨recipient, amount, rec, hp, -, -, rfl⟩
  · split
    next recipient amount hp => exact absurd hp (hno recipient amount)
    next => rwa [List.append_nil]
  · simp only [hp]
    exact hput.trans (.put recipient _ _)

theorem rewrites_revertTransaction (h : (revertTransaction P tx).run s = .ok () t) :
    Rewrites P (touches P tx) s t := by
  unfold revertTransaction at h
  simp only [bind_ok, Db.read_ok] at h
  obtain ⟨sender, _, ⟨hs, rfl⟩, hrun⟩ := h
  rw [touches, senderOf_eq.mpr hs, Option.toList_some]
  cases hp : tx.payload with
  | transfer recipient amount =>
    simp only [hp, bind_ok, Db.read_ok, Db.write_run] at hrun
    obtain ⟨acct, _, ⟨-, rfl⟩, nonce, _, ⟨-, rfl⟩, _, _, h₁, acct', _, ⟨-, rfl⟩, h₂⟩ := hrun
    cases h₁
    cases h₂
    have hput := Rewrites.put (P := P) recipient
    exact (Rewrites.put sender _ _).trans (hput _ _)
  | _ =>
    simp only [hp, bind_ok, Db.read_ok, Db.write_run] at hrun
    obtain ⟨acct, _, ⟨-, rfl⟩, hw⟩ := hrun
    cases hw
    exact Rewrites.put sender _ _

theorem rewrites_forM {f : Transaction → Db Unit}
    (hf : ∀ {tx s t}, (f tx).run s = .ok () t → Rewrites P (touches P tx) s t)
    (h : (forM txs f).run s = .ok () t) : Rewrites P (txs.flatMap (touches P)) s t := by
  induction txs generalizing s with
  | nil =>
    cases h
    exact ⟨fun _ _ => rfl, by simp⟩
  | cons tx txs ih =>
    obtain ⟨s₁, h₁, h₂⟩ := forM_cons_ok.mp h
    exact (hf h₁).trans (ih h₂)

/-! ### The stored root -/

theorem computeStateRoot_congr (h : s.data .accounts = t.data .accounts) :
    computeStateRoot P s = computeStateRoot P t := by
  unfold computeStateRoot InMemoryStore.iterCf
  rw [h]

/-- The stored root is the one of the account table. -/
def RootStored (P : Platform) (s : InMemoryStore) : Prop :=
  getStateRoot s = .ok (computeStateRoot P s)

theorem getStateRoot_setStateRoot (root : Bytes32) :
    getStateRoot (setStateRoot root s) = .ok root := by
  simp [getStateRoot, setStateRoot, root.length_eq]

theorem rootStored_setStateRoot (P : Platform) (s : InMemoryStore) :
    RootStored P (setStateRoot (computeStateRoot P s) s) := by
  rw [RootStored, getStateRoot_setStateRoot,
    computeStateRoot_congr (setStateRoot_data (by decide) _)]

theorem rootStored_finishBlock (P : Platform) (m : StateManager) (block : Block)
    (s : InMemoryStore) : RootStored P (finishBlock P m block s) := by
  have hk : stateKeyBlockHeight ≠ stateKeyStateRoot := by decide
  have hk' : stateKeyChainTip ≠ stateKeyStateRoot := by decide
  have hroot : (finishBlock P m block s).get .state stateKeyStateRoot =
      some (computeStateRoot P (finishBlock P m block s)).bytes := by
    rw [computeStateRoot_congr (finishBlock_accounts P m block s)]
    simp only [InMemoryStore.get, finishBlock_state]
    simp only [commitBlock, setBlockHeight, setChainTip, setStateRoot, InMemoryStore.put_data_self]
    rw [getElem?_insert_ne _ _ hk, getElem?_insert_ne _ _ hk',
      getElem?_insert_self', computeStateRoot_congr]
    rw [putAttestations_data P (by decide), putTransactions_data P (by decide),
      putBlock_data P (by decide)]
  simp [RootStored, getStateRoot, hroot, Bytes32.length_eq]

theorem rootStored_applyBlock (h : (applyBlock P m block).run s = .ok () s') : RootStored P s' := by
  obtain ⟨-, s₁, -, rfl⟩ := applyBlock_ok.mp h
  exact rootStored_finishBlock P m block s₁

/-! ### A block applied and reverted -/

theorem revertBlock_of_applied (hno : ¬ TriggersPruning P m block s)
    (h : (applyBlock P m block).run s = .ok () s') (hr : (revertBlock P).run s' = .ok () t) :
    ∃ s₁ t₁, (forM block.transactions (applyTransaction P)).run s = .ok () s₁ ∧
      s' = commitBlock P block s₁ ∧
      (forM block.transactions.reverse (revertTransaction P)).run s' = .ok () t₁ ∧
      SameRest s' t₁ ∧ t = unrecordBlock P (block.header.hash P) block block.header.height t₁ := by
  obtain ⟨-, s₁, htxs, rfl⟩ := applyBlock_ok.mp h
  have hfin : finishBlock P m block s₁ = commitBlock P block s₁ :=
    if_neg fun hp => hno ⟨s₁, htxs, hp⟩
  have hh := getBlockHeight_finishBlock P m block s₁
  have ht := getChainTip_finishBlock P m block s₁
  rcases revertBlock_cases P (finishBlock P m block s₁) with
    ⟨e, t', hrun, -⟩ | ⟨height, tip, block', t₁, hh', -, ht', hb, hrev, hrest, hrun⟩
  · rw [hr] at hrun
    cases hrun
  · obtain rfl := Except.ok.inj (hh.symm.trans hh')
    obtain rfl := Option.some.inj (Except.ok.inj (ht.symm.trans ht'))
    rw [hfin, getBlock_commitBlock] at hb
    obtain rfl := Option.some.inj (Except.ok.inj hb)
    rw [hr] at hrun
    cases hrun
    exact ⟨s₁, t₁, htxs, hfin, hrev, hrest, rfl⟩

variable {s₁ t₁ : InMemoryStore}

theorem rewrites_reverted (htxs : (forM block.transactions (applyTransaction P)).run s = .ok () s₁)
    (hrev : (forM block.transactions.reverse (revertTransaction P)).run (commitBlock P block s₁) =
      .ok () t₁) : Rewrites P (block.transactions.flatMap (touches P)) s t₁ := by
  have hfwd := rewrites_forM rewrites_applyTransaction htxs
  have hback := (rewrites_forM rewrites_revertTransaction hrev).congr
    (commitBlock_accounts P block s₁).symm rfl
  refine (hfwd.trans hback).of_mem_iff fun a => ?_
  simp

theorem hasNullifier_reverted (hrest : SameRest (commitBlock P block s₁) t₁) {n : Bytes32}
    (hn : n ∈ nullifiers block) :
    hasNullifier n (unrecordBlock P (block.header.hash P) block block.header.height t₁) = true := by
  have hdata : (unrecordBlock P (block.header.hash P) block block.header.height t₁).data
      .attestations = (commitBlock P block s₁).data .attestations := by
    simp only [unrecordBlock]
    rw [setStateRoot_data (by decide), setBlockHeight_data (by decide),
      setChainTip_data (by decide), delete_data_ne _ (by decide),
      delete_data_ne _ (by decide), deleteTransactions_data (by decide),
      hrest _ (by decide)]
  rw [hasNullifier_congr (hdata.trans (commitBlock_attestations P block s₁)),
    hasNullifier_putAttestations]
  exact .inr hn

/-- A block that was applied to `s` and reverted can be applied again, and the accounts are then
those it left the first time. -/
theorem reapplied (hundo : UndoableAll P block.transactions s)
    (htxs : (forM block.transactions (applyTransaction P)).run s = .ok () s₁)
    (hrev : (forM block.transactions.reverse (revertTransaction P)).run (commitBlock P block s₁) =
      .ok () t₁) :
    SameAccounts P s t₁ ∧ ∃ t', (applyBlock P m block).run
        (unrecordBlock P (block.header.hash P) block block.header.height t₁) = .ok () t' ∧
      t'.data .accounts = s₁.data .accounts := by
  have hcommit : SameAccounts P s₁ (commitBlock P block s₁) :=
    fun a => (getAccount_congr P (commitBlock_accounts P block s₁) a).symm
  have hsame : SameAccounts P s t₁ := by
    rcases revertTransactions_applied hundo htxs hcommit with
      ⟨-, t₂, hrun, hacc, -⟩ | ⟨-, e, t₂, hrun⟩
    · rw [hrev] at hrun
      cases hrun
      exact hacc
    · rw [hrev] at hrun
      cases hrun
  refine ⟨hsame, ?_⟩
  have hunrec : (unrecordBlock P (block.header.hash P) block block.header.height t₁).data
      .accounts = t₁.data .accounts := unrecordBlock_accounts _ _
  obtain ⟨t₂, htxs', hsame₂⟩ := SameAccounts.applyTransactions
    (fun a => (hsame a).trans (getAccount_congr P hunrec a).symm) htxs
  refine ⟨finishBlock P m block t₂, applyBlock_ok.mpr ⟨?_, t₂, htxs', rfl⟩, ?_⟩
  · refine headerChecks_ok.mpr ⟨_, _, getBlockHeight_unrecordBlock _ _,
      getChainTip_unrecordBlock _ _, ?_, fun _ tip htip => Option.some.inj htip⟩
    rw [UInt64.sub_add_cancel]
  · -- the two passes wrote the same addresses, and every other entry is the one of `s`
    have hfirst := rewrites_forM rewrites_applyTransaction htxs
    have hback := (rewrites_reverted htxs hrev).congr rfl hunrec
    have hsecond := rewrites_forM rewrites_applyTransaction htxs'
    have hboth := hfirst.join ((hback.trans hsecond).of_mem_iff (by simp))
    rw [finishBlock_accounts, hboth.data_eq hfirst.inside hsame₂]

/-- The reverted block leaves no trace: the root stored before, if there was one, is stored again, no
nullifier that it alone contained is reported, and it can be applied again to the same effect. -/
structure NoTrace (P : Platform) (m : StateManager) (block : Block) (chain : List Block)
    (s s' t : InMemoryStore) : Prop where
  root : s.get .state stateKeyStateRoot ≠ none → getStateRoot t = getStateRoot s
  nullifiers : ∀ n ∈ nullifiers block, n ∉ chain.flatMap StateManager.nullifiers →
    hasNullifier n t = false
  again : ∃ t', (applyBlock P m block).run t = .ok () t' ∧ getStateRoot t' = getStateRoot s'

/-- The block brings nothing new: a root stored before it is the one of the table in which every
address that the block touches has an entry, and its nullifiers are in other blocks of the chain
too. -/
structure BringsNothing (P : Platform) (block : Block) (chain : List Block) (s : InMemoryStore) :
    Prop where
  root : s.get .state stateKeyStateRoot ≠ none → getStateRoot s =
    .ok (computeStateRoot P (writtenBack P (block.transactions.flatMap (touches P)) s))
  contained : ∀ n ∈ nullifiers block, n ∈ chain.flatMap nullifiers

/-- Where the stored root is the one of the table, that says that every address has its entry. -/
theorem BringsNothing.of_held {chain : List Block} (hstored : RootStored P s)
    (hheld : ∀ a ∈ block.transactions.flatMap (touches P), Held P a s)
    (hn : ∀ n ∈ StateManager.nullifiers block, n ∈ chain.flatMap StateManager.nullifiers) :
    BringsNothing P block chain s := by
  have hself : Rewrites P (block.transactions.flatMap (touches P)) s s := ⟨fun _ _ => rfl, hheld⟩
  refine ⟨fun _ => ?_, hn⟩
  rw [hstored, computeStateRoot_congr (hself.eq_writtenBack fun _ => rfl)]

/-- **No trace, exactly.**  A block whose amounts fit, that was applied without pruning and then
reverted, leaves no trace if and only if it brings nothing new.  For a store whose root is the one
of its table the part about the root says that every address the block touches has an entry: that
is enough, and needed, whether the amounts fit or not, unless two of the strings that the two roots
are hashed from collide. -/
theorem reverted_noTrace_iff (chain : List Block) (hno : ¬ TriggersPruning P m block s)
    (h : (applyBlock P m block).run s = .ok () s') (hr : (revertBlock P).run s' = .ok () t) :
    (UndoableAll P block.transactions s →
      (NoTrace P m block chain s s' t ↔ BringsNothing P block chain s)) ∧
    (RootStored P s → (∀ a ∈ block.transactions.flatMap (touches P), Held P a s) →
      (∀ n ∈ nullifiers block, n ∈ chain.flatMap nullifiers) → BringsNothing P block chain s) ∧
    (LongAccounts P → HoldsAccounts P s →
      Set.InjOn P.sha256 {x | x ∈ stateRootInputs P t ++ stateRootInputs P s} →
      RootStored P s → s.get .state stateKeyStateRoot ≠ none →
      NoTrace P m block chain s s' t →
      ∀ a ∈ block.transactions.flatMap (touches P), Held P a s) := by
  have hroot' := rootStored_applyBlock h
  obtain ⟨s₁, t₁, htxs, rfl, hrev, hrest, rfl⟩ := revertBlock_of_applied hno h hr
  have hunrec : (unrecordBlock P (block.header.hash P) block block.header.height t₁).data
      .accounts = t₁.data .accounts := unrecordBlock_accounts _ _
  have hback := (rewrites_reverted htxs hrev).congr rfl hunrec
  have hroot : RootStored P (unrecordBlock P (block.header.hash P) block block.header.height t₁) :=
    rootStored_setStateRoot P _
  refine ⟨fun hundo => ?_, BringsNothing.of_held, fun hlong hs hhash hstored hsome htrace a ha => ?_⟩
  · obtain ⟨hsame, t', happ, hdata⟩ := reapplied (m := m) hundo htxs hrev
    have hsame' : SameAccounts P s _ := fun a => (hsame a).trans (getAccount_congr P hunrec a).symm
    have htable := computeStateRoot_congr (P := P) (hback.eq_writtenBack hsame')
    constructor
    · intro htrace
      refine ⟨fun hsome => ?_, fun n hn => ?_⟩
      · rw [← htrace.root hsome, hroot, htable]
      · by_contra hout
        have hfalse := htrace.nullifiers n hn hout
        rw [hasNullifier_reverted hrest hn] at hfalse
        cases hfalse
    · intro hnew
      refine ⟨fun hsome => ?_, fun n hn hout => absurd (hnew.contained n hn) hout, t', happ, ?_⟩
      · rw [hroot, hnew.root hsome, htable]
      · rw [rootStored_applyBlock happ, hroot',
          computeStateRoot_congr (hdata.trans (commitBlock_accounts P block s₁).symm)]
  · have heq := htrace.root hsome
    rw [hroot, hstored] at heq
    have htable := (accounts_eq_of_computeStateRoot_eq P hlong _ _ (hback.holdsAccounts hs) hs
      hhash (Except.ok.inj heq)).1
    obtain ⟨acct, hacct⟩ := hback.inside a ha
    exact ⟨acct, by rw [← hacct, InMemoryStore.get, InMemoryStore.get, htable]⟩

/-! ### A second payment -/

abbrev paidStore : InMemoryStore := applied (payment 0) fundedStore

open Reference

def nextPayment (recipient : Bytes32) (attestations : List ProofOfLifeAttestation) : Block :=
  { blockOf
      (headerAt 2 ((payment 0).header.hash reference) (node 1))
      [signedTx (key 7) (.transfer ⟨recipient⟩ 100) 1 10] with
    attestations := attestations }

theorem rootStored_paidStore : RootStored reference paidStore :=
  rootStored_applyBlock (show (applyBlock reference {} (payment 0)).run fundedStore =
    .ok () paidStore by decide +kernel)

/-- To the same recipient, and without attestations, it leaves no trace. -/
theorem reverted_noTrace_nextPayment :
    RootStored reference paidStore ∧
    ∃ s' t, (applyBlock reference {} (nextPayment (.splat 9) [])).run paidStore = .ok () s' ∧
      (revertBlock reference).run s' = .ok () t ∧
      NoTrace reference {} (nextPayment (.splat 9) []) [payment 0] paidStore s' t := by
  have hfacts : supply reference paidStore < 2 ^ 63 ∧
      ¬ TriggersPruning reference {} (nextPayment (.splat 9) []) paidStore ∧
      (applyBlock reference {} (nextPayment (.splat 9) [])).run paidStore =
        .ok () (applied (nextPayment (.splat 9) []) paidStore) ∧
      (revertBlock reference).run (applied (nextPayment (.splat 9) []) paidStore) =
        .ok () (reverted (applied (nextPayment (.splat 9) []) paidStore)) ∧
      ∀ a ∈ (nextPayment (.splat 9) []).transactions.flatMap (touches reference),
        ∃ acct ∈ [{ balance := 890, nonce := 1 }, { balance := 100 }],
          paidStore.get .accounts a.bytes.bytes = some (reference.account.put acct) := by
    decide +kernel
  obtain ⟨hsup, hno, happ, hrev, hheld⟩ := hfacts
  refine ⟨rootStored_paidStore, _, _, happ, hrev, ?_⟩
  refine ((reverted_noTrace_iff [payment 0] hno happ hrev).1 (undoableAll_of_supply hsup)).mpr
    (.of_held rootStored_paidStore (fun a ha => ?_) (by simp [nullifiers, nextPayment]))
  obtain ⟨acct, -, hget⟩ := hheld a ha
  exact ⟨acct, hget⟩

def payingAndAttesting : Block := nextPayment (.splat 10) [attestationOf (.splat 1)]

abbrev tracedStore : InMemoryStore := reverted (applied payingAndAttesting paidStore)

/-- It leaves both behind: the root is another one, and the nullifier is reported although no block
of the chain contains it. -/
theorem reverted_block_leaves_traces :
    (paidStore.get .state stateKeyStateRoot ≠ none ∧
      ¬ TriggersPruning reference {} payingAndAttesting paidStore ∧
      (applyBlock reference {} payingAndAttesting).run paidStore =
        .ok () (applied payingAndAttesting paidStore) ∧
      (revertBlock reference).run (applied payingAndAttesting paidStore) = .ok () tracedStore ∧
      getStateRoot tracedStore ≠ getStateRoot paidStore ∧
      hasNullifier (.splat 1) tracedStore = true) ∧
    ¬ NoTrace reference {} payingAndAttesting [payment 0] paidStore
      (applied payingAndAttesting paidStore) tracedStore :=
  and_of_imp (by decide +kernel) fun ⟨hstored, _, _, _, hroot, _⟩ htrace =>
    hroot (htrace.root hstored)

end StateManager

end Gratia
