import Gratia.State.Revert
import Gratia.Support.Lists

/-!
# State — Replay

A transaction cannot be applied twice because its nonce is used up.  Along a run of applied blocks
each sender's nonces are consecutive (`Nonces`); with reverts in between, an account's nonce is its
first one plus the number of its transactions in the blocks that are on the chain.

The chain is a ghost: `Ledger` carries, beside the store, the blocks applied and not reverted,
newest first.  The invariant (`Faithful`) ties the two together: the nonces, the height and tip of
the store naming the newest block, and every block below it either still stored under its hash or
pruned away.  A revert therefore either finds the newest block, whose transactions it can all take
back, or finds nothing and writes nothing.

Three things break this, and `StepOk` excludes them: a transaction that uses the last nonce, after
which the counter starts again at zero; a refused block that has already written (`RefusedAtOnce`
says which have not); and a revert past the blocks of the run.
-/

namespace Gratia

open Support StateDb

namespace StateManager

variable {P : Platform} {m : StateManager} {tx : Transaction} {txs : List Transaction}
  {s s' t : InMemoryStore}

/-! ### Reverting moves nonces back -/

theorem nonceNat_ok {a : Address} {n : ℕ} :
    nonceNat P a s = .ok n ↔ ∃ acct, getAccount P a s = .ok acct ∧ acct.nonce.toNat = n := by
  unfold nonceNat getNonce
  cases getAccount P a s with
  | error e | ok acct => simp [Except.map]

theorem nonceNat_putAccount_self (a : Address) (acct : AccountState) (s : InMemoryStore) :
    nonceNat P a (putAccount P a acct s) = .ok acct.nonce.toNat := by
  rw [nonceNat, getNonce_putAccount_self]
  rfl

theorem nonceNat_putAccount_ne {a b : Address} (h : a ≠ b) (acct : AccountState)
    (s : InMemoryStore) : nonceNat P b (putAccount P a acct s) = nonceNat P b s := by
  simp only [nonceNat, getNonce_putAccount_ne h]

theorem nonceNat_congr (h : s.data .accounts = t.data .accounts) (a : Address) :
    nonceNat P a s = nonceNat P a t := by
  simp only [nonceNat, getNonce_congr h]

@[simp] theorem refunded_nonce (tx : Transaction) (acct : AccountState) :
    (refunded tx acct).nonce = acct.nonce - 1 := by
  unfold refunded
  split <;> rfl

/-- The sender is an address, and it and the recipient of a transfer are ones at which `nonce` is
defined. -/
def Reads (P : Platform) (nonce : Address → Except GratiaError ℕ) (tx : Transaction) : Prop :=
  (∃ a n, senderOf P tx = some a ∧ nonce a = .ok n) ∧
    ∀ recipient amount, tx.payload = .transfer recipient amount → ∃ n, nonce recipient = .ok n

variable {nonce : Address → Except GratiaError ℕ}

theorem Reads.map (h : Reads P nonce tx) (f : Address → ℕ → ℕ) :
    Reads P (fun a => (nonce a).map (f a)) tx := by
  obtain ⟨⟨a, n, ha, hn⟩, hrec⟩ := h
  refine ⟨⟨a, f a n, ha, by simp only [hn, Except.map]⟩, fun recipient amount hp => ?_⟩
  obtain ⟨k, hk⟩ := hrec recipient amount hp
  exact ⟨f recipient k, by simp only [hk, Except.map]⟩

theorem nonceNat_refund {sender : Address} {acct : AccountState} {n : ℕ}
    (hsender : senderOf P tx = some sender) (hn : nonce sender = .ok n)
    (hacct : acct.nonce.toNat = n + 1)
    (h : ∀ a, nonceNat P a t = (nonce a).map (· + (sentBy P a [tx]).length)) (a : Address) :
    nonceNat P a (putAccount P sender (refunded tx acct) t) = nonce a := by
  by_cases ha : sender = a
  · subst ha
    have hpred := toNat_sub_add (a := acct.nonce) (b := 1) (by rw [hacct]; simp)
    simp only [UInt64.reduceToNat, hacct, Nat.add_right_cancel_iff] at hpred
    rw [nonceNat_putAccount_self, refunded_nonce, hpred, hn]
  · have hzero : (sentBy P a [tx]).length = 0 := by simp [sentBy, hsender, ha]
    rw [nonceNat_putAccount_ne ha, h a, hzero]
    cases nonce a <;> rfl

/-- A transaction whose sender's nonce is not zero can be taken back; its sender's nonce goes one
down, and no other moves. -/
theorem revertTransaction_nonces (nonce : Address → Except GratiaError ℕ) (hr : Reads P nonce tx)
    (h : ∀ a, nonceNat P a t = (nonce a).map (· + (sentBy P a [tx]).length)) :
    ∃ t', (revertTransaction P tx).run t = .ok () t' ∧ (∀ a, nonceNat P a t' = nonce a) ∧
      SameRest t t' := by
  obtain ⟨⟨sender, n, hsender, hn⟩, hrec⟩ := hr
  have hone : (sentBy P sender [tx]).length = 1 := by simp [sentBy, hsender]
  obtain ⟨acct, hg, hacct⟩ : ∃ acct, getAccount P sender t = .ok acct ∧
      acct.nonce.toNat = n + 1 := by
    refine nonceNat_ok.mp ?_
    rw [h sender, hn, hone]
    rfl
  have hne : acct.nonce ≠ 0 := by
    intro hz
    rw [hz] at hacct
    exact absurd hacct (by simp)
  -- After the refund every nonce is as wanted; the credit taken back keeps them.
  have hrefund := nonceNat_refund hsender hn hacct h
  have hrest : SameRest t (putAccount P sender (refunded tx acct) t) :=
    SameRest.put (fun _ _ => rfl) _ _
  by_cases hp : ∃ recipient amount, tx.payload = .transfer recipient amount
  · obtain ⟨recipient, amount, hp⟩ := hp
    obtain ⟨k, hk⟩ := hrec recipient amount hp
    obtain ⟨acct', hg', hk'⟩ := nonceNat_ok.mp ((hrefund recipient).trans hk)
    refine ⟨_, by rw [revertTransfer_run hp (senderOf_eq.mp hsender) hg, if_neg hne, hg'], ?_,
      hrest.put _ _⟩
    intro a
    by_cases ha : recipient = a
    · subst ha
      rw [nonceNat_putAccount_self, hk, hk']
    · rw [nonceNat_putAccount_ne ha, hrefund a]
  · push Not at hp
    exact ⟨_, revertTransaction_run hp (senderOf_eq.mp hsender) hg, hrefund, hrest⟩

theorem length_sentBy_append (a : Address) (l₁ l₂ : List Transaction) :
    (sentBy P a (l₁ ++ l₂)).length = (sentBy P a l₁).length + (sentBy P a l₂).length := by
  simp [sentBy]

theorem revertTransactions_nonces (nonce : Address → Except GratiaError ℕ)
    (hr : ∀ tx ∈ txs, Reads P nonce tx)
    (h : ∀ a, nonceNat P a t = (nonce a).map (· + (sentBy P a txs).length)) :
    ∃ t', (forM txs.reverse (revertTransaction P)).run t = .ok () t' ∧
      (∀ a, nonceNat P a t' = nonce a) ∧ SameRest t t' := by
  induction txs generalizing t nonce with
  | nil =>
    refine ⟨t, rfl, fun a => ?_, fun _ _ => rfl⟩
    rw [h a]
    cases nonce a <;> rfl
  | cons tx txs ih =>
    obtain ⟨t₁, h₁, hn₁, hrest₁⟩ :=
      ih (fun a => (nonce a).map (· + (sentBy P a [tx]).length))
        (fun tx' hmem => (hr tx' (List.mem_cons_of_mem _ hmem)).map _) (fun a => by
          rw [h a, show tx :: txs = [tx] ++ txs from rfl, length_sentBy_append]
          cases nonce a <;> simp [Except.map, Nat.add_assoc])
    obtain ⟨t₂, h₂, hn₂, hrest₂⟩ := revertTransaction_nonces nonce (hr tx List.mem_cons_self) hn₁
    refine ⟨t₂, ?_, hn₂, fun cf hcf => (hrest₂ cf hcf).trans (hrest₁ cf hcf)⟩
    rw [List.reverse_cons, List.forM_append, bind_of_ok h₁, List.forM_cons, List.forM_nil,
      bind_pure, h₂]

/-! ### Applying moves them forward -/

theorem nonceNat_applyTransactions (hmax : ∀ tx ∈ txs, tx.nonce ≠ maxNonce)
    (h : (forM txs (applyTransaction P)).run s = .ok () s') (a : Address) :
    nonceNat P a s' = (nonceNat P a s).map (· + (sentBy P a txs).length) := by
  cases hn : nonceNat P a s with
  | ok n => exact (nonces_consecutive hn hmax h).2
  | error e =>
    have hg : getNonce P a s = .error e := by
      unfold nonceNat at hn
      cases hg : getNonce P a s with
      | ok n => simp [hg, Except.map] at hn
      | error e' => simpa [hg, Except.map] using hn
    rw [nonceNat, getNonce_applyTransactions h, hg]
    rfl

theorem Reads.congr {nonce' : Address → Except GratiaError ℕ}
    (hn : ∀ a n, nonce a = .ok n → ∃ k, nonce' a = .ok k) (h : Reads P nonce tx) :
    Reads P nonce' tx := by
  obtain ⟨⟨a, n, ha, hna⟩, hrec⟩ := h
  obtain ⟨k, hk⟩ := hn a n hna
  refine ⟨⟨a, k, ha, hk⟩, fun recipient amount hp => ?_⟩
  obtain ⟨j, hj⟩ := hrec recipient amount hp
  exact hn recipient j hj

theorem nonceNat_readable_before (h : (forM txs (applyTransaction P)).run s = .ok () s')
    (a : Address) (n : ℕ) (hn : nonceNat P a s' = .ok n) : ∃ k, nonceNat P a s = .ok k := by
  have hg := getNonce_applyTransactions h a
  cases hs : getNonce P a s with
  | ok k => exact ⟨k.toNat, by rw [nonceNat, hs]; rfl⟩
  | error e =>
    rw [nonceNat, hg, hs] at hn
    cases hn

theorem reads_of_applyTransaction (h : (applyTransaction P tx).run s = .ok () s') :
    Reads P (fun a => nonceNat P a s) tx := by
  obtain ⟨sender, acct, hchk, hcr⟩ := applyTransaction_ok.mp h
  obtain ⟨hs, hg, -, -⟩ := (senderChecks_ok P).mp hchk
  refine ⟨⟨sender, acct.nonce.toNat, senderOf_eq.mpr hs, nonceNat_ok.mpr ⟨acct, hg, rfl⟩⟩, ?_⟩
  intro recipient amount hp
  rcases creditRecipient_ok hcr with ⟨hno, -⟩ | ⟨r, am, acct', hp', hrec, -, -⟩
  · exact absurd hp (hno recipient amount)
  · obtain ⟨rfl, rfl⟩ : recipient = r ∧ amount = am := by simpa using hp.symm.trans hp'
    by_cases hsr : sender = recipient
    · subst hsr
      exact ⟨_, nonceNat_ok.mpr ⟨acct, hg, rfl⟩⟩
    · rw [getAccount_putAccount_ne P hsr] at hrec
      exact ⟨_, nonceNat_ok.mpr ⟨acct', hrec, rfl⟩⟩

theorem reads_of_applyTransactions (h : (forM txs (applyTransaction P)).run s = .ok () s') :
    ∀ tx ∈ txs, Reads P (fun a => nonceNat P a s) tx := by
  intro tx hmem
  obtain ⟨pre, post, rfl⟩ := List.append_of_mem hmem
  obtain ⟨s₁, h₁, h₂⟩ := forM_append_ok.mp h
  obtain ⟨s₂, htx, -⟩ := forM_cons_ok.mp h₂
  exact (reads_of_applyTransaction htx).congr (nonceNat_readable_before h₁)

/-! ### Calls, and the chain they build -/

inductive ChainOp where
  | apply (block : Block)
  | revert

/-- The store, and the blocks applied and not reverted since the start, newest first. -/
structure Ledger where
  store : InMemoryStore
  chain : List Block := []

def Ledger.transactions (l : Ledger) : List Transaction := l.chain.flatMap fun b => b.transactions

def chainStep (P : Platform) (m : StateManager) (l : Ledger) :
    ChainOp → Option GratiaError × Ledger
  | .apply block =>
    match (applyBlock P m block).run l.store with
    | .ok _ s => (none, ⟨s, block :: l.chain⟩)
    | .error e s => (some e, ⟨s, l.chain⟩)
  | .revert =>
    match (revertBlock P).run l.store with
    | .ok _ s => (none, ⟨s, l.chain.tail⟩)
    | .error e s => (some e, ⟨s, l.chain⟩)

/-- The call stays clear of the last nonce, of writes by a refused block, and of the blocks that
were there before the run. -/
def StepOk (P : Platform) (m : StateManager) (l : Ledger) : ChainOp → Prop
  | .apply block => (∀ tx ∈ block.transactions, tx.nonce ≠ maxNonce) ∧
      ((chainStep P m l (.apply block)).1 ≠ none → RefusedAtOnce P block l.store)
  | .revert => l.chain ≠ []

def RunOk (P : Platform) (m : StateManager) : Ledger → List ChainOp → Prop
  | _, [] => True
  | l, op :: ops => StepOk P m l op ∧ RunOk P m (chainStep P m l op).2 ops

def blocksOf (ops : List ChainOp) : List Block :=
  ops.filterMap fun
    | .apply block => some block
    | .revert => none

/-! ### The chain in the store -/

/-- Down to the first block of height zero, which no revert gets past, each block of the chain is
stored under its hash or not at all, and is the child of the one below it. -/
def Recorded (P : Platform) (s : InMemoryStore) : List Block → Prop
  | [] => True
  | b :: rest =>
    (s.get .blocks (b.header.hash P).bytes.bytes = none ∨
      s.get .blocks (b.header.hash P).bytes.bytes = some (P.block.put b)) ∧
    (0 < b.header.height →
      (∀ b' ∈ rest.head?, b'.header.height = b.header.height - 1 ∧
        (0 < b'.header.height → b.header.parentHash = b'.header.hash P)) ∧
      Recorded P s rest)

theorem Recorded.remove {chain : List Block} (hrec : Recorded P s chain)
    (h : ∀ k, t.get .blocks k = none ∨ t.get .blocks k = s.get .blocks k) : Recorded P t chain := by
  induction chain with
  | nil => trivial
  | cons b rest ih =>
    obtain ⟨hb, hlink⟩ := hrec
    refine ⟨?_, fun hpos => ⟨(hlink hpos).1, ih (hlink hpos).2⟩⟩
    rcases h (b.header.hash P).bytes.bytes with hnone | hsame
    · exact .inl hnone
    · rw [hsame]
      exact hb

/-- So does recording a block higher than all of it, unless two of the headers collide. -/
theorem Recorded.putBlock {chain : List Block} {block : Block} (hrec : Recorded P s chain)
    (hhash : ∀ b ∈ chain, b.header.hash P = block.header.hash P → b.header = block.header)
    (htop : ∀ b ∈ chain.head?, b.header.height < block.header.height) :
    Recorded P (putBlock P block s) chain := by
  induction chain with
  | nil => trivial
  | cons b rest ih =>
    obtain ⟨hb, hlink⟩ := hrec
    have hlt : b.header.height < block.header.height := htop b rfl
    have hne : block.header.hash P ≠ b.header.hash P := by
      intro he
      rw [hhash b List.mem_cons_self he.symm] at hlt
      exact UInt64.lt_irrefl _ hlt
    refine ⟨?_, fun hpos => ⟨(hlink hpos).1, ih (hlink hpos).2 (fun b' hb' =>
      hhash b' (List.mem_cons_of_mem _ hb')) fun b' hb' => ?_⟩⟩
    · rw [get_putBlock_ne P hne]
      exact hb
    · have hpred := ((hlink hpos).1 b' hb').1
      rw [UInt64.lt_iff_toNat_lt] at hlt hpos ⊢
      have hsub := toNat_sub_add (a := b.header.height) (b := 1)
        (by simpa using Nat.succ_le_of_lt hpos)
      rw [hpred]
      simp only [UInt64.reduceToNat] at hsub
      omega

/-- What ties a ledger to the store `s₀` it started from: `blocks` are those the run applies. -/
structure Faithful (P : Platform) (s₀ : InMemoryStore) (blocks : List Block) (l : Ledger) :
    Prop where
  nonces : ∀ a, nonceNat P a l.store =
    (nonceNat P a s₀).map (· + (sentBy P a l.transactions).length)
  reads : ∀ tx ∈ l.transactions, Reads P (fun a => nonceNat P a s₀) tx
  tip : ∀ b ∈ l.chain.head?, getBlockHeight l.store = .ok b.header.height ∧
    (0 < b.header.height → getChainTip l.store = .ok (some (b.header.hash P)))
  recorded : Recorded P l.store l.chain
  known : ∀ b ∈ l.chain, b ∈ blocks

/-- The header hash tells the blocks apart. -/
def HashesApart (P : Platform) (blocks : List Block) : Prop :=
  ∀ b ∈ blocks, ∀ b' ∈ blocks, b.header.hash P = b'.header.hash P → b.header = b'.header

instance decidableHashesApart {P : Platform} {blocks : List Block} :
    Decidable (HashesApart P blocks) :=
  inferInstanceAs (Decidable (∀ b ∈ blocks, ∀ b' ∈ blocks,
    b.header.hash P = b'.header.hash P → b.header = b'.header))

theorem faithful_start (P : Platform) (s₀ : InMemoryStore) (blocks : List Block) :
    Faithful P s₀ blocks ⟨s₀, []⟩ where
  nonces a := by
    simp only [Ledger.transactions, sentBy, List.flatMap_nil, List.filter_nil, List.length_nil,
      Nat.add_zero]
    cases nonceNat P a s₀ <;> rfl
  reads tx h := absurd h (by simp [Ledger.transactions])
  tip b h := absurd h (by simp)
  recorded := trivial
  known b h := absurd h (by simp)

section Steps

variable {s₀ : InMemoryStore} {blocks : List Block} {l : Ledger} {block : Block}

theorem Faithful.recorded_applied (hf : Faithful P s₀ blocks l) (hapart : HashesApart P blocks)
    (hmem : block ∈ blocks) (hfits : Fits block l.store)
    (hs : s.data .blocks = l.store.data .blocks) :
    Recorded P (finishBlock P m block s) (block :: l.chain) := by
  obtain ⟨height, tip, hh, ht, hheight, hparent⟩ := hfits
  refine ⟨?_, fun hpos => ⟨fun b' hb' => ?_, ?_⟩⟩
  · rcases finishBlock_blocks P m block s (block.header.hash P).bytes.bytes with hn | hs
    · exact .inl hn
    · exact .inr (hs.trans (get_putBlock_self P block))
  · obtain ⟨hbh, hbt⟩ := hf.tip b' hb'
    obtain rfl : height = b'.header.height := Except.ok.inj (hh.symm.trans hbh)
    refine ⟨by rw [hheight, UInt64.add_sub_cancel], fun hpos' => ?_⟩
    obtain rfl : tip = some (b'.header.hash P) := Except.ok.inj (ht.symm.trans (hbt hpos'))
    exact hparent hpos' _ rfl
  · have hrec : Recorded P s l.chain := hf.recorded.remove fun k => .inr (by
      simp only [InMemoryStore.get, hs])
    refine (hrec.putBlock (fun b hb => hapart b (hf.known b hb) block hmem) fun b hb => ?_).remove
      (finishBlock_blocks P m block s)
    obtain ⟨hbh, -⟩ := hf.tip b hb
    obtain rfl : height = b.header.height := Except.ok.inj (hh.symm.trans hbh)
    -- A block above the last height would be at height zero, and nothing is asked below it.
    have hne : b.header.height ≠ maxNonce := by
      intro hlast
      rw [hheight, succ_eq_zero.mpr hlast] at hpos
      exact UInt64.lt_irrefl _ hpos
    rw [UInt64.lt_iff_toNat_lt, hheight, toNat_succ_of_ne hne]
    exact Nat.lt_succ_self _

theorem Faithful.applied (hf : Faithful P s₀ blocks l) (hapart : HashesApart P blocks)
    (hmem : block ∈ blocks) (hmax : ∀ tx ∈ block.transactions, tx.nonce ≠ maxNonce)
    (h : (applyBlock P m block).run l.store = .ok () s') :
    Faithful P s₀ blocks ⟨s', block :: l.chain⟩ := by
  obtain ⟨hhdr, s₁, htxs, rfl⟩ := applyBlock_ok.mp h
  have hall : (⟨finishBlock P m block s₁, block :: l.chain⟩ : Ledger).transactions =
      block.transactions ++ l.transactions := rfl
  refine ⟨fun a => ?_, ?_, ?_, ?_, ?_⟩
  · rw [nonceNat_congr (finishBlock_accounts P m block s₁), nonceNat_applyTransactions hmax htxs,
      hf.nonces a, hall, length_sentBy_append]
    cases nonceNat P a s₀ <;> simp [Except.map, Nat.add_comm, Nat.add_left_comm]
  · intro tx htx
    rw [hall] at htx
    rcases List.mem_append.mp htx with htx | htx
    · refine (reads_of_applyTransactions htxs tx htx).congr fun a n hn => ?_
      rw [hf.nonces a] at hn
      cases hs : nonceNat P a s₀ with
      | ok k => exact ⟨k, rfl⟩
      | error e =>
        rw [hs] at hn
        cases hn
    · exact hf.reads tx htx
  · intro b hb
    cases hb
    exact ⟨getBlockHeight_finishBlock P m block s₁, fun _ => getChainTip_finishBlock P m block s₁⟩
  · exact hf.recorded_applied hapart hmem (headerChecks_ok.mp hhdr)
      (applyTransactions_data (by decide) htxs)
  · intro b hb
    rcases List.mem_cons.mp hb with rfl | hb
    · exact hmem
    · exact hf.known b hb

/-- A revert finds nothing and writes nothing, or takes the newest block back. -/
theorem Faithful.reverted (hf : Faithful P s₀ blocks l) (hne : l.chain ≠ []) :
    (∃ e, (revertBlock P).run l.store = .error e l.store) ∨
      ∃ s', (revertBlock P).run l.store = .ok () s' ∧ Faithful P s₀ blocks ⟨s', l.chain.tail⟩ := by
  obtain ⟨store, chain⟩ := l
  obtain ⟨b, rest, rfl⟩ := List.exists_cons_of_ne_nil hne
  obtain ⟨hnonces, hreads, htip, ⟨hstored, hlink⟩, hknown⟩ := hf
  obtain ⟨hh, ht⟩ := htip b rfl
  dsimp only at *
  by_cases hz : b.header.height = 0
  · exact .inl ⟨_, revertBlock_genesis (by rw [hh, hz])⟩
  have hpos : 0 < b.header.height := UInt64.pos_iff_ne_zero.mpr hz
  rcases hstored with hnone | hsome
  · refine .inl ⟨_, revertBlock_missing hh hz (ht hpos) ?_⟩
    simp [getBlock, hnone]
  · right
    have hb : getBlock P (b.header.hash P) store = .ok (some b) := by
      simp [getBlock, hsome, Except.map]
    have hall : (⟨store, b :: rest⟩ : Ledger).transactions =
        b.transactions ++ (⟨store, rest⟩ : Ledger).transactions := rfl
    have hreads' : ∀ tx ∈ b.transactions, Reads P (fun a => nonceNat P a s₀) tx :=
      fun tx htx => hreads tx (by rw [hall]; exact List.mem_append_left _ htx)
    obtain ⟨t, hr, hn, hrest⟩ := revertTransactions_nonces (fun a => (nonceNat P a s₀).map
        (· + (sentBy P a (⟨store, rest⟩ : Ledger).transactions).length))
      (fun tx htx => (hreads' tx htx).map _) (fun a => by
        rw [hnonces a, hall, length_sentBy_append]
        cases nonceNat P a s₀ <;> simp [Except.map, Nat.add_comm, Nat.add_left_comm])
    refine ⟨_, revertBlock_run hh hz (ht hpos) hb hr (hrest .blocks (by decide)),
      ?_, ?_, ?_, ?_, ?_⟩
    · intro a
      rw [nonceNat_congr (unrecordBlock_accounts _ _), hn a]
      rfl
    · exact fun tx htx => hreads tx (by rw [hall]; exact List.mem_append_right _ htx)
    · intro b' hb'
      obtain ⟨hheight, hparent⟩ := (hlink hpos).1 b' hb'
      refine ⟨by rw [getBlockHeight_unrecordBlock, hheight], fun hpos' => ?_⟩
      rw [getChainTip_unrecordBlock, hparent hpos']
    · refine (hlink hpos).2.remove fun k => ?_
      rcases unrecordBlock_blocks (b.header.hash P) b.header.height k with hk | hk
      · exact .inl hk
      · exact .inr (hk.trans (by simp only [InMemoryStore.get, hrest .blocks (by decide)]))
    · exact fun b' hb' => hknown b' (List.mem_cons_of_mem _ hb')

/-- **One call keeps the ledger faithful.** -/
theorem Faithful.step (hf : Faithful P s₀ blocks l) (hapart : HashesApart P blocks) {op : ChainOp}
    (hmem : ∀ b, op = .apply b → b ∈ blocks) (hok : StepOk P m l op) :
    Faithful P s₀ blocks (chainStep P m l op).2 := by
  cases op with
  | apply block =>
    obtain ⟨hmax, hrefused⟩ := hok
    simp only [chainStep] at hrefused ⊢
    cases hr : (applyBlock P m block).run l.store with
    | ok u s' => exact hf.applied hapart (hmem block rfl) hmax hr
    | error e s' =>
      rw [hr] at hrefused
      obtain rfl : s' = l.store := eq_of_refusedAtOnce hr (hrefused (by simp))
      exact hf
  | revert =>
    simp only [chainStep]
    rcases hf.reverted hok with ⟨e, hr⟩ | ⟨s', hr, hf'⟩
    · rw [hr]
      exact hf
    · rw [hr]
      exact hf'

theorem Faithful.run (hapart : HashesApart P blocks) {ops : List ChainOp}
    (hmem : ∀ b ∈ blocksOf ops, b ∈ blocks) (hf : Faithful P s₀ blocks l) (hok : RunOk P m l ops) :
    Faithful P s₀ blocks (run (chainStep P m) l ops) := by
  induction ops generalizing l with
  | nil => exact hf
  | cons op ops ih =>
    refine ih (fun b hb => hmem b ?_) (hf.step hapart (fun b he => hmem b ?_) hok.1) hok.2
    · unfold blocksOf at hb ⊢
      rw [List.filterMap_cons]
      split
      · exact hb
      · exact List.mem_cons_of_mem _ hb
    · subst he
      simp [blocksOf]

end Steps

/-! ### No replay -/

def transactionsOf (blocks : List Block) : List Transaction :=
  blocks.flatMap fun b => b.transactions

theorem nonces_consecutive_blocks {blocks : List Block} {a : Address} {n : ℕ}
    (hn : nonceNat P a s = .ok n) (hmax : ∀ tx ∈ transactionsOf blocks, tx.nonce ≠ maxNonce)
    (h : (forM blocks (applyBlock P m)).run s = .ok () s') :
    ((sentBy P a (transactionsOf blocks)).map fun tx => tx.nonce.toNat) =
      List.range' n (sentBy P a (transactionsOf blocks)).length := by
  induction blocks generalizing s n with
  | nil => rfl
  | cons b bs ih =>
    obtain ⟨s₁, h₁, h₂⟩ := forM_cons_ok.mp h
    obtain ⟨-, t, htxs, rfl⟩ := applyBlock_ok.mp h₁
    have hsplit : sentBy P a (transactionsOf (b :: bs)) =
        sentBy P a b.transactions ++ sentBy P a (transactionsOf bs) := by
      simp [transactionsOf, sentBy]
    obtain ⟨hfirst, hnext⟩ := nonces_consecutive hn (fun tx htx => hmax tx (by
      simp only [transactionsOf, List.flatMap_cons]
      exact List.mem_append_left _ htx)) htxs
    have hrest := ih ((nonceNat_congr (finishBlock_accounts P m b t) a).trans hnext)
      (fun tx htx => hmax tx (by
        simp only [transactionsOf, List.flatMap_cons]
        exact List.mem_append_right _ htx)) h₂
    rw [hsplit, List.map_append, hfirst, hrest, List.length_append, List.range'_append_1]

theorem sender_of_applyBlocks {blocks : List Block}
    (h : (forM blocks (applyBlock P m)).run s = .ok () s') :
    ∀ tx ∈ transactionsOf blocks, ∃ a n, senderOf P tx = some a ∧ nonceNat P a s = .ok n := by
  induction blocks generalizing s with
  | nil => intro tx htx; cases htx
  | cons b bs ih =>
    intro tx htx
    obtain ⟨s₁, h₁, h₂⟩ := forM_cons_ok.mp h
    obtain ⟨-, t, htxs, rfl⟩ := applyBlock_ok.mp h₁
    simp only [transactionsOf, List.flatMap_cons] at htx
    rcases List.mem_append.mp htx with htx | htx
    · exact (reads_of_applyTransactions htxs tx htx).1
    · obtain ⟨a, n, ha, hn⟩ := ih h₂ tx htx
      rw [nonceNat_congr (finishBlock_accounts P m b t)] at hn
      obtain ⟨k, hk⟩ := nonceNat_readable_before htxs a n hn
      exact ⟨a, k, ha, hk⟩

/-- **No replay.**  Along applied blocks that stay clear of the last nonce, every sender's nonces
are consecutive integers from its first one on, and no two transactions share sender and nonce; and
after every run of calls whose steps are all in order, each account's nonce is its first one plus
the number of its transactions on the chain. -/
theorem no_replay (P : Platform) (m : StateManager) (s : InMemoryStore) :
    (∀ blocks s', (forM blocks (applyBlock P m)).run s = .ok () s' →
      (∀ tx ∈ transactionsOf blocks, tx.nonce ≠ maxNonce) →
      (∀ a n, nonceNat P a s = .ok n →
        ((sentBy P a (transactionsOf blocks)).map fun tx => tx.nonce.toNat) =
          List.range' n (sentBy P a (transactionsOf blocks)).length) ∧
      ((transactionsOf blocks).map fun tx => (senderOf P tx, tx.nonce)).Nodup) ∧
    (∀ ops, HashesApart P (blocksOf ops) → RunOk P m ⟨s, []⟩ ops → ∀ a,
      nonceNat P a (run (chainStep P m) ⟨s, []⟩ ops).store =
        (nonceNat P a s).map
          (· + (sentBy P a (run (chainStep P m) ⟨s, []⟩ ops).transactions).length)) := by
  refine ⟨fun blocks s' h hmax => ?_, fun ops hapart hok a => ?_⟩
  · have hconsec : ∀ a n, nonceNat P a s = .ok n →
        ((sentBy P a (transactionsOf blocks)).map fun tx => tx.nonce.toNat) =
          List.range' n (sentBy P a (transactionsOf blocks)).length :=
      fun a n hn => nonces_consecutive_blocks hn hmax h
    refine ⟨hconsec, nodup_map_pair fun key hkey => ?_⟩
    obtain ⟨tx, htx, rfl⟩ := List.mem_map.mp hkey
    obtain ⟨a, n, ha, hn⟩ := sender_of_applyBlocks h tx htx
    have hnodup : ((sentBy P a (transactionsOf blocks)).map fun tx => tx.nonce.toNat).Nodup := by
      rw [hconsec a n hn]
      exact List.nodup_range'
    rw [ha]
    refine List.Nodup.of_map UInt64.toNat ?_
    rw [List.map_map]
    exact hnodup
  · exact ((faithful_start P s (blocksOf ops)).run hapart (fun _ hb => hb) hok).nonces a

def payAgain : List ChainOp := [.apply (payment 0), .revert, .apply (payment 0)]

abbrev paidAgain : Ledger := run (chainStep reference {}) ⟨fundedStore, []⟩ payAgain

open Reference

/-- A payment applied, reverted and applied again: counted once. -/
theorem no_replay_payment_again :
    nonceNat reference (addressOf (key 7)) paidAgain.store = .ok 1 ∧
    (∃ s', (forM [payment 0] (applyBlock reference {})).run fundedStore = .ok () s') ∧
    ((transactionsOf [payment 0]).map fun tx => (senderOf reference tx, tx.nonce)).Nodup := by
  -- the three calls are evaluated once, for all that is asked of them
  have hfacts :
      failure ((forM [payment 0] (applyBlock reference {})).run fundedStore) = none ∧
      (∀ tx ∈ (payment 0).transactions, tx.nonce ≠ maxNonce) ∧
      (chainStep reference {} ⟨fundedStore, []⟩ (.apply (payment 0))).1 = none ∧
      (chainStep reference {} ⟨fundedStore, []⟩ (.apply (payment 0))).2.chain ≠ [] ∧
      (chainStep reference {} (chainStep reference {} (chainStep reference {} ⟨fundedStore, []⟩
        (.apply (payment 0))).2 .revert).2 (.apply (payment 0))).1 = none ∧
      (nonceNat reference (addressOf (key 7)) fundedStore).map
        (· + (sentBy reference (addressOf (key 7))
          paidAgain.transactions).length) = .ok 1 ∧
      HashesApart reference (blocksOf payAgain) := by
    decide +kernel
  obtain ⟨hfirst, hnonces, happlied, hchain, hagain, hnonce, hapart⟩ := hfacts
  have hrun : RunOk reference {} ⟨fundedStore, []⟩ payAgain :=
    ⟨⟨hnonces, fun h => absurd happlied h⟩, hchain,
      ⟨hnonces, fun h => absurd hagain h⟩, trivial⟩
  have hall := no_replay reference {} fundedStore
  have hok := eq_ok_of_failure hfirst
  exact ⟨(hall.2 _ hapart hrun _).trans hnonce, ⟨_, hok⟩,
    (hall.1 _ _ hok (by simpa [transactionsOf] using hnonces)).2⟩

def secondPayment : Block :=
  blockOf
    (headerAt 2 ((payment maxNonce).header.hash reference) (node 1))
    [signedTx (key 7) (.transfer ⟨.splat 9⟩ 100) 0 10]

/-- After the last nonce comes zero: the nonces of these two payments are not consecutive. -/
theorem last_nonce_wraps :
    nonceNat reference (addressOf (key 7)) lastNonceStore =
      .ok maxNonce.toNat ∧
    failure ((forM [payment maxNonce, secondPayment] (applyBlock reference {})).run
      lastNonceStore) = none ∧
    (sentBy reference (addressOf (key 7))
      (transactionsOf [payment maxNonce, secondPayment])).map (·.nonce.toNat) =
        [maxNonce.toNat, 0] := by
  decide +kernel

end StateManager

end Gratia
